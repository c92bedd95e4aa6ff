import Broadcaster.Interleaving
import Broadcaster.LockedTable
import Broadcaster.SchedulePages

/-!
# Planner runs and user operations as interleaved statements

The statements that read and write `schedules`: the `SELECT` of a planner run
or of a request, the `UPDATE` of each loaded row, the `COMMIT`, and after it the
dispatch. The rows of the other tables, the clock and the verdicts come with the
input of a move. A session writes its rows in any order, since a query between
two of its assignments flushes the first of them early.
-/

namespace Broadcaster
namespace ScheduleMachine

open Python ScheduleService ScheduleRules Scheduling ScheduleRoutes Interleaving

/-- The tasks of one schedule that a run has built for the value `slot` of `next_run_at`. -/
structure Dispatch where
  process : ℕ
  schedule : ℕ
  slot : Instant
  tasks : List DispatchTask
  deriving DecidableEq

/-- The table, and a record of the run that no statement reads: which process has loaded a row
in order to write it, what has been committed to be dispatched, and what has been dispatched. -/
structure Db where
  schedules : Table Schedule
  reader : ℕ → Option ℕ
  claims : List Dispatch
  dispatched : List Dispatch

def Db.release (db : Db) (tx : ℕ) : ℕ → Option ℕ :=
  fun i => if db.reader i = some tx then none else db.reader i

def Db.commit (db : Db) (tx : ℕ) (batches : List Dispatch) : Db :=
  { db with
    schedules := db.schedules.commit tx
    reader := db.release tx
    claims := db.claims ++ batches }

def Db.rollback (db : Db) (tx : ℕ) : Db :=
  { db with schedules := db.schedules.rollback tx, reader := db.release tx }

def Db.setSchedules (db : Db) (t : Table Schedule) : Db := { db with schedules := t }

def Db.load (db : Db) (tx : ℕ) (ids : List ℕ) : Db :=
  { db with reader := fun i => if ids.contains i then some tx else db.reader i }

theorem Db.load_of_mem (db : Db) (tx : ℕ) {ids : List ℕ} {i : ℕ} (h : i ∈ ids) :
    (db.load tx ids).reader i = some tx := if_pos (List.contains_iff_mem.mpr h)

theorem Db.load_of_notMem (db : Db) (tx : ℕ) {ids : List ℕ} {i : ℕ} (h : i ∉ ids) :
    (db.load tx ids).reader i = db.reader i :=
  if_neg fun hc => h (List.contains_iff_mem.mp hc)

def Db.log (db : Db) (batches : List Dispatch) : Db :=
  { db with dispatched := db.dispatched ++ batches }

inductive Operation
  | update (userId : ℕ) (data : UpdateScheduleRequest)
  | toggle (userId : ℕ)
  | pageUpdate (userId : ℕ) (profile : String) (form : SchedulePages.ScheduleForm)
  | pageToggle (userId : ℕ)

def Operation.userId : Operation → ℕ
  | update userId _ | toggle userId | pageUpdate userId _ _ | pageToggle userId => userId

/-- What the handler decides about the row that it has loaded. -/
def Operation.decide (env : Environment) (data : Database) (now : Instant) (s : Schedule) :
    Operation → Decision
  | update userId request => updateDecision env data userId request now s
  | toggle _ => toggleDecision env now s
  | pageUpdate userId profile form => SchedulePages.updateDecision env data userId profile form now s
  | pageToggle _ => SchedulePages.toggleDecision env now s

inductive Pc
  /- `check_schedules_async` -/
  | checkSchedules
  /- a request for one schedule -/
  | edit (op : Operation) (schedule : ℕ)
  /- `detach_schedules_from_account` -/
  | detach (account : ℕ)
  /- a session with the rows `loaded`, of which `left` are still to be written -/
  | flush (loaded left : List Loaded) (batches : List Dispatch)
  | dispatch (batches : List Dispatch)
  /- the session is closed without a commit -/
  | closing
  | finished

/-- What a statement reads besides the schedules, and the row that is written next. -/
structure Input where
  now : Instant
  data : Database
  checkLimit : ℕ → Bool × String
  pick : ℕ

def batchesOf (tx : ℕ) (due : List (ℕ × Schedule)) (tasks : List DispatchTask) : List Dispatch :=
  (due.filterMap fun row => row.2.nextRunAt.map fun slot => ⟨tx,row.1,slot,tasksOf row.1 tasks⟩).filter
    fun d => !d.tasks.isEmpty

def hasId (i j : ℕ) (_ : Schedule) : Bool := j = i

/-- `UPDATE` of a loaded row; `none` while somebody else holds it. -/
def writeRow (t : Table Schedule) (tx : ℕ) (l : Loaded) : Option (Except PyError (Table Schedule)) :=
  if l.changed then
    match t.view tx l.id with
    | none => some (.error .staleDataError)
    | some stored =>
      (t.modify tx (hasId l.id) fun s => some (l.merge s)).map fun t' =>
        if (l.merge stored).unchecked then .error .integrityError else .ok t'
  else some (.ok t)

def isOfAccount (account : ℕ) (_ : ℕ) (s : Schedule) : Bool := s.accountId = some account

def detached (s : Schedule) : Schedule := { s.paused with accountId := none }

def dueRows (db : Db) (tx : ℕ) (now : Instant) : List (ℕ × Schedule) :=
  db.schedules.select tx fun _ s => isDue now s

def step (env : Environment) (db : Db) (tx : ℕ) (pc : Pc) (inp : Input) : Option (Db × Pc) :=
  match pc with
  | .checkSchedules =>
    let due := dueRows db tx inp.now
    if due.isEmpty then some (db,.finished)
    else
      match collect env (worldOf inp.data inp.checkLimit) inp.now due with
      | .error _ => some (db,.closing)
      | .ok c => some (db.load tx (due.map Prod.fst),.flush c.rows c.rows (batchesOf tx due c.tasks))
  | .edit op schedule =>
    match db.schedules.view tx schedule with
    | none => some (db,.closing)
    | some s =>
      if inp.data.ownsAd op.userId s.adId then
        match op.decide env inp.data inp.now s with
        | .commit new => some (db.load tx [schedule],.flush [⟨schedule,s,new⟩] [⟨schedule,s,new⟩] [])
        | .refuse _ => some (db,.closing)
        | .raise _ => some (db,.closing)
      else some (db,.closing)
  | .detach account =>
    (db.schedules.modify tx (isOfAccount account) fun s => some (detached s)).map fun t =>
      (db.setSchedules t,.flush [] [] [])
  | .flush loaded left batches =>
    if left.isEmpty then
      some (db.commit tx batches,if batches.isEmpty then .finished else .dispatch batches)
    else
      (left.find? fun l => l.id = inp.pick).bind fun l =>
        (writeRow db.schedules tx l).map fun result =>
          match result with
          | .error _ => (db,.closing)
          | .ok t => (db.setSchedules t,.flush loaded (left.filter fun m => m.id ≠ l.id) batches)
  | .dispatch batches => some (db.log batches,.finished)
  | .closing => some (db.rollback tx,.finished)
  | .finished => none

def machine (env : Environment) : Machine Db Pc Input := ⟨step env⟩

def Pc.isStart : Pc → Bool
  | checkSchedules | edit _ _ | detach _ | finished => true
  | _ => false

def Pc.isFinished : Pc → Bool
  | finished => true
  | _ => false

structure Quiet (c : Config Db Pc) : Prop where
  drafts : ∀ i, (c.db.schedules.slot i).draft = none
  reader : ∀ i, c.db.reader i = none
  claims : c.db.claims = []
  dispatched : c.db.dispatched = []
  starts : ∀ i, (c.pc i).isStart = true

end ScheduleMachine
end Broadcaster
