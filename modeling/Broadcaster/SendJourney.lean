import Broadcaster.ChatAddressing
import Broadcaster.SendResults
import Broadcaster.TaskConservation
import Mathlib.Algebra.BigOperators.Group.Finset.Piecewise
import Mathlib.Algebra.Order.Group.Multiset

/-!
# The way of a send from the planner to the journal

The dispatcher puts tasks into the queues of the accounts, the worker of each
account takes them out and publishes results, and runs of `process_wa_results`
or `process_max_results` pop the results and write the journal. All of this goes
on at once, in many processes. The results of all accounts share one list.
-/

namespace Broadcaster
namespace SendJourney

open Python AccountWorker SendResults
open Scheduling (DispatchTask)
open ScheduleService (Instant)
open RetryChecks (Queue queueOf dispatchSendTasks)
open ChatAddressing (orNull payload queueOf_cases)

/-- The queues and workers of one messenger, and how a worker writes the time. -/
structure Channel where
  messenger : Messenger
  queue : ℕ → Queue
  isoformat : ℤ → String
  account : ∀ task accountId, queueOf task = some (queue accountId) → task.accountId = accountId

def waChannel (idleShutdownSec : ℤ) (isoformat : ℤ → String) : Channel where
  messenger := waWorker idleShutdownSec
  queue := .wa
  isoformat := isoformat
  account := by
    intro task accountId h
    rcases queueOf_cases h with he | ⟨_,he⟩ | ⟨_,he⟩
    · cases he
    · exact (Queue.wa.inj he).symm
    · cases he

def maxChannel (idleShutdownSec : ℤ) (rateLimitPerMinute : ℕ) (isoformat : ℤ → String) : Channel where
  messenger := maxWorker idleShutdownSec rateLimitPerMinute
  queue := .max
  isoformat := isoformat
  account := by
    intro task accountId h
    rcases queueOf_cases h with he | ⟨_,he⟩ | ⟨_,he⟩
    · cases he
    · cases he
    · exact (Queue.max.inj he).symm

def statusText : Status → String
  | .ok => "ok"
  | .fail => "fail"

/-- The element that `publish_result` appends to the list of results, as it is parsed again. -/
def document (isoformat : ℤ → String) (r : SendResult) : Json :=
  .obj [("task_id",r.data.taskId),("account_id",r.data.accountId),("ad_id",r.data.adId),
    ("group_id",r.data.groupId),("schedule_id",r.data.scheduleId),("user_id",r.data.userId),
    ("status",.str (statusText r.status)),("error_message",orNull .str r.errorMessage),
    ("no_retry",.bool r.noRetry),("ad_title",r.data.adTitle),("ad_text",r.data.adText),
    ("ad_images",r.data.adImages),("group_name",r.data.groupName),("messenger_type",.str r.messengerType),
    ("sent_at",.str (isoformat r.sentAt))]

/-- A task with the `uuid4()` that it has been given. -/
abbrev Dispatched := String × DispatchTask

def Dispatched.id (d : Dispatched) : Json := .str d.1

def Dispatched.task (d : Dispatched) : Task := payload d.1 d.2

structure Pipeline where
  worker : ℕ → Worker
  results : List SendResult
  attempts : List Attempt
  popped : List (ℕ × SendResult)
  journal : List SendLog
  dispatched : List Dispatched

/-- A process that has just been started on a queue. -/
def started (queue : List Task) (now : ℤ) : Worker := ⟨queue,[],.blpop,[],now,true,false,[]⟩

namespace Pipeline

def new : Pipeline := ⟨fun _ => started [] 0,[],[],[],[],[]⟩

def view (s : Pipeline) (k : ℕ) : Worker := { s.worker k with results := s.results, attempts := s.attempts }

def leave (s : Pipeline) (k : ℕ) (w : Worker) : Pipeline :=
  { s with worker := Function.update s.worker k w, results := w.results, attempts := w.attempts }

end Pipeline

variable (c : Channel)

def routed (ds : List Dispatched) : List Dispatched :=
  ds.filter fun d => queueOf d.2 = some (c.queue d.2.accountId)

def appended (ds : List Dispatched) (k : ℕ) : List Dispatched := ds.filter fun d => queueOf d.2 = some (c.queue k)

inductive Move
  | dispatch (ds : List Dispatched)
  | worker (k : ℕ) (move : AccountWorker.Move)
  | start (k : ℕ) (now : ℤ)
  | pop (run : ℕ)
  | write (run : ℕ) (tables : Tables) (now : Instant) (inIdentityMap : ℕ → Bool)

def batch (s : Pipeline) (run : ℕ) : List SendResult := (s.popped.filter fun p => p.1 = run).map Prod.snd

def step (s : Pipeline) : Move → Option Pipeline
  | .dispatch ds => some { s with
      worker := fun k => { s.worker k with
        queue := (s.worker k).queue++(appended c ds k).map Dispatched.task }
      dispatched := s.dispatched++routed c ds }
  | .worker k move => (next c.messenger (s.view k) move).map (s.leave k)
  | .start k now =>
    if (s.worker k).pc = .exited then some (s.leave k { s.view k with
      pc := .blpop
      timestamps := []
      lastTaskTime := now
      consumerRunning := true
      shuttingDown := false })
    else none
  | .pop run =>
    match s.results with
    | [] => none
    | r::results =>
      if (batch s run).length < 100 then some { s with results := results, popped := s.popped++[(run,r)] } else none
  | .write run tables now inIdentityMap => some { s with
      popped := s.popped.filter fun p => p.1 ≠ run
      journal := s.journal++processResultsAsync ⟨tables,c.messenger.messengerType,now,inIdentityMap⟩
        ((batch s run).map (document c.isoformat)) }

/-- The tables find the ad of a result, and take its row. -/
def Accepted (tables : Tables) (r : SendResult) : Prop :=
  ∃ row, addedRow tables c.messenger.messengerType (document c.isoformat r) = some row ∧ tables.rejects row = false

/-- Redis answers, no process ends with a task in its hands, the tables take the rows, and the ids are new. -/
def Careful (accounts : Finset ℕ) (s : Pipeline) : Move → Prop
  | .dispatch ds => (s.dispatched.map Prod.fst++ds.map Prod.fst).Nodup ∧ ∀ d ∈ ds, d.2.accountId ∈ accounts
  | .worker k (.consumer inp) => k ∈ accounts ∧ inp.redis = .ok
  | .worker k .signal => k ∈ accounts
  | .worker k .exit => k ∈ accounts ∧ (s.worker k).pc.hands = []
  | .start k _ => k ∈ accounts
  | .pop _ => True
  | .write run tables _ _ => ∀ r ∈ batch s run, Accepted c tables r

def Reaches (accounts : Finset ℕ) : Pipeline → Pipeline → Prop :=
  Relation.ReflTransGen fun s s' => ∃ move, Careful c accounts s move ∧ step c s move = some s'

namespace Pipeline

def load (s : Pipeline) (k : ℕ) : Multiset Json :=
  ((s.worker k).queue.map Task.id++(s.worker k).pc.hands : List Json)

/-- Everything that has a task or speaks of one. -/
def places (s : Pipeline) (accounts : Finset ℕ) : Multiset Json :=
  ∑ k ∈ accounts, s.load k+(s.results.map SendResult.id : List Json)
    +(s.popped.map fun p => p.2.id : List Json)+(s.journal.map SendLog.taskId : List Json)

end Pipeline

section Worker

variable {c} {m : Messenger} {ds : List Dispatched} {attempts : List Attempt} {t : Task} {r : SendResult}
  {a : Attempt} {w w' : Worker} {inp : Input}

def successes (attempts : List Attempt) (id : Json) : ℕ :=
  attempts.countP fun a => a.taskId = id && a.error.isNone

theorem successes_append (attempts : List Attempt) (a : Attempt) (id : Json) : successes (attempts++[a]) id
    = successes attempts id+if a.taskId = id ∧ a.error = none then 1 else 0 := by
  simp [successes,List.countP_append,List.countP_singleton]

/-- A task of the queue: it has been dispatched, has not succeeded, and knows how often it has been sent. -/
structure Waits (m : Messenger) (ds : List Dispatched) (attempts : List Attempt) (t : Task) : Prop where
  pending : Pending m attempts t
  unsent : successes attempts t.id = 0
  dispatched : ∃ d ∈ ds, t.data = d.task.data

/-- A result: it is about a task that has been dispatched, and tells how the last attempt has ended. -/
structure Told (m : Messenger) (ds : List Dispatched) (attempts : List Attempt) (r : SendResult) : Prop where
  bounded : counted m attempts r.id ≤ m.maxRetries+1
  outcome : lastOutcome attempts r.id = some r.errorMessage
  successes : successes attempts r.id = if r.errorMessage = none then 1 else 0
  status : r.status = .ok ↔ r.errorMessage = none
  dispatched : ∃ d ∈ ds, r = result m d.task r.status r.errorMessage r.noRetry r.sentAt

def Holds (m : Messenger) (ds : List Dispatched) (attempts : List Attempt) : Pc → Prop
  | .requeue t | .waitForRateLimit t | .sendMessage t | .retry t => Waits m ds attempts t
  | .publish r => Told m ds attempts r
  | _ => True

structure Good (m : Messenger) (ds : List Dispatched) (w : Worker) : Prop where
  queue : ∀ t ∈ w.queue, Waits m ds w.attempts t
  results : ∀ r ∈ w.results, Told m ds w.attempts r
  pc : Holds m ds w.attempts w.pc

def Later (attempts attempts' : List Attempt) (ids : List Json) : Prop :=
  attempts' = attempts ∨ ∃ a, attempts' = attempts++[a] ∧ a.taskId ∈ ids

theorem Waits.append (h : Waits m ds attempts t) (hne : a.taskId ≠ t.id) : Waits m ds (attempts++[a]) t := by
  refine ⟨h.pending.append hne,?_,h.dispatched⟩
  rw [successes_append,if_neg (fun he => hne he.1),Nat.add_zero]
  exact h.unsent

theorem Told.append (h : Told m ds attempts r) (hne : a.taskId ≠ r.id) : Told m ds (attempts++[a]) r := by
  refine ⟨?_,?_,?_,h.status,h.dispatched⟩
  · rw [counted_append,if_neg (fun he => hne he.1),Nat.add_zero]
    exact h.bounded
  · rw [lastOutcome_append,if_neg hne]
    exact h.outcome
  · rw [successes_append,if_neg (fun he => hne he.1),Nat.add_zero]
    exact h.successes

theorem Holds.append {pc : Pc} (h : Holds m ds attempts pc) (hne : a.taskId ∉ pc.hands) :
    Holds m ds (attempts++[a]) pc := by
  cases pc with
  | requeue t | waitForRateLimit t | sendMessage t | retry t =>
    exact Waits.append h fun he => hne (he ▸ List.mem_singleton_self _)
  | publish r => exact Told.append h fun he => hne (he ▸ List.mem_singleton_self _)
  | blpop | heartbeat | pause | stopped | exited => trivial

theorem Waits.later {attempts' : List Attempt} {ids : List Json} (h : Waits m ds attempts t)
    (hlater : Later attempts attempts' ids) (hid : t.id ∉ ids) : Waits m ds attempts' t := by
  rcases hlater with rfl | ⟨a,rfl,ha⟩
  · exact h
  · exact h.append fun he => hid (he ▸ ha)

theorem Told.later {attempts' : List Attempt} {ids : List Json} (h : Told m ds attempts r)
    (hlater : Later attempts attempts' ids) (hid : r.id ∉ ids) : Told m ds attempts' r := by
  rcases hlater with rfl | ⟨a,rfl,ha⟩
  · exact h
  · exact h.append fun he => hid (he ▸ ha)

theorem Holds.later {attempts' : List Attempt} {ids : List Json} {pc : Pc} (h : Holds m ds attempts pc)
    (hlater : Later attempts attempts' ids) (hid : ∀ id ∈ pc.hands, id ∉ ids) : Holds m ds attempts' pc := by
  rcases hlater with rfl | ⟨a,rfl,ha⟩
  · exact h
  · exact h.append fun he => hid _ he ha

theorem Waits.more {ds' : List Dispatched} (h : Waits m ds attempts t) (hds : ds ⊆ ds') :
    Waits m ds' attempts t := by
  obtain ⟨d,hd,hdata⟩ := h.dispatched
  exact ⟨h.pending,h.unsent,d,hds hd,hdata⟩

theorem Told.more {ds' : List Dispatched} (h : Told m ds attempts r) (hds : ds ⊆ ds') :
    Told m ds' attempts r := by
  obtain ⟨d,hd,hr⟩ := h.dispatched
  exact ⟨h.bounded,h.outcome,h.successes,h.status,d,hds hd,hr⟩

theorem Holds.more {ds' : List Dispatched} {pc : Pc} (h : Holds m ds attempts pc) (hds : ds ⊆ ds') :
    Holds m ds' attempts pc := by
  cases pc with
  | requeue t | waitForRateLimit t | sendMessage t | retry t => exact Waits.more h hds
  | publish r => exact Told.more h hds
  | blpop | heartbeat | pause | stopped | exited => trivial

theorem result_congr {t' : Task} (h : t.data = t'.data) (status : Status) (errorMessage : Option String)
    (noRetry : Bool) (now : ℤ) :
    result m t status errorMessage noRetry now = result m t' status errorMessage noRetry now := by
  simp only [result,h]

theorem told_result (h : Waits m ds attempts t) {error : Option String} {delivered noRetry : Bool} {now : ℤ}
    {status : Status} (hstatus : status = .ok ↔ error = none)
    (hbounded : counted m (attempts++[⟨t.id,error,delivered⟩]) t.id ≤ m.maxRetries+1) :
    Told m ds (attempts++[⟨t.id,error,delivered⟩]) (result m t status error noRetry now) := by
  refine ⟨hbounded,?_,?_,hstatus,?_⟩
  · rw [result_id,lastOutcome_append,if_pos rfl]
    rfl
  · rw [result_id,successes_append,h.unsent,Nat.zero_add]
    exact if_congr (and_iff_right rfl) rfl rfl
  · obtain ⟨d,hd,hdata⟩ := h.dispatched
    exact ⟨d,hd,result_congr hdata _ _ _ _⟩

theorem holds_afterSend (h : Waits m ds attempts t) (now : ℤ) (error : Option String) (delivered : Bool) :
    Holds m ds (attempts++[⟨t.id,error,delivered⟩]) (afterSend m t now error) := by
  have hsound := sound_afterSend h.pending now error delivered
  cases error with
  | none => exact told_result h (by simp) (Finished.bounded hsound)
  | some message =>
    have hunsent : successes (attempts++[⟨t.id,some message,delivered⟩]) t.id = 0 := by
      rw [successes_append,h.unsent,if_neg (fun he => by cases he.2)]
    rcases afterSend_cases t now message with
      ⟨noRetry,hpc⟩ | ⟨_,_,delayUntil,hpc⟩ | ⟨_,_,delayUntil,hpc⟩
    · rw [hpc] at hsound ⊢
      exact told_result h (by simp) (Finished.bounded hsound)
    · rw [hpc] at hsound ⊢
      exact ⟨hsound,hunsent,h.dispatched⟩
    · rw [hpc] at hsound ⊢
      exact ⟨hsound,hunsent,h.dispatched⟩

theorem attempts_consume (hredis : inp.redis = .ok) (h : consume m w inp = some w') :
    Later w.attempts w'.attempts w.pc.hands := by
  cases consumed_of_consume hredis h with
  | @sent t hpc =>
    refine .inr ⟨_,rfl,?_⟩
    rw [hpc]
    exact List.mem_singleton_self _
  | _ => exact .inl rfl

theorem good_consume (hredis : inp.redis = .ok) (hw : Good m ds w) (hnodup : w.places.Nodup)
    (h : consume m w inp = some w') : Good m ds w' := by
  have hpcHolds := hw.pc
  cases consumed_of_consume hredis h with
  | idle hpc hqueue => exact ⟨hw.queue,hw.results,trivial⟩
  | again hpc =>
    refine ⟨hw.queue,hw.results,?_⟩
    unfold Worker.again
    split <;> trivial
  | @taken t queue pc hpc hqueue hnext =>
    have ht := hw.queue t (hqueue ▸ List.mem_cons_self)
    refine ⟨fun u hu => hw.queue u (hqueue ▸ List.mem_cons_of_mem t hu),hw.results,?_⟩
    rcases hnext with rfl | rfl <;> exact ht
  | @requeued t hpc =>
    rw [hpc] at hpcHolds
    refine ⟨fun u hu => ?_,hw.results,?_⟩
    · rcases List.mem_append.mp hu with hu | hu
      · exact hw.queue u hu
      · rw [List.mem_singleton.mp hu]
        exact hpcHolds
    · simp only [Worker.again]
      split <;> trivial
  | @limited t pc timestamps hpc hnext =>
    rw [hpc] at hpcHolds
    refine ⟨hw.queue,hw.results,?_⟩
    rcases hnext with rfl | rfl <;> exact hpcHolds
  | @sent t hpc =>
    rw [hpc] at hpcHolds
    obtain ⟨hqueue,hresults⟩ := hands_disjoint hnodup t.id (by rw [hpc]; exact List.mem_singleton_self _)
    exact ⟨fun u hu => (hw.queue u hu).append (hqueue u hu),fun r hr => (hw.results r hr).append (hresults r hr),
      holds_afterSend hpcHolds inp.now inp.error _⟩
  | @published r hpc =>
    rw [hpc] at hpcHolds
    refine ⟨hw.queue,fun q hq => ?_,trivial⟩
    rcases List.mem_append.mp hq with hq | hq
    · exact hw.results q hq
    · rw [List.mem_singleton.mp hq]
      exact hpcHolds
  | @retried t hpc =>
    rw [hpc] at hpcHolds
    refine ⟨fun u hu => ?_,hw.results,trivial⟩
    rcases List.mem_append.mp hu with hu | hu
    · exact hw.queue u hu
    · rw [List.mem_singleton.mp hu]
      exact hpcHolds

end Worker

/-- The row speaks of the task that has been dispatched and tells how its last attempt has ended. -/
structure Reports (m : Messenger) (attempts : List Attempt) (d : Dispatched) (row : SendLog) : Prop where
  taskId : row.taskId = d.id
  userId : row.userId = d.task.data.userId
  scheduleId : row.scheduleId = d.task.data.scheduleId
  adId : row.adId = d.task.data.adId
  groupId : row.groupId = d.task.data.groupId
  adTitle : row.adTitle = m.text d.task.data.adTitle
  adText : row.adText = m.text d.task.data.adText
  groupName : row.groupName = m.text d.task.data.groupName
  messengerType : row.messengerType = m.messengerType
  outcome : ∃ error, lastOutcome attempts d.id = some error ∧ row.errorMessage = orNull .str error ∧
    row.status = .str (if error = none then "ok" else "fail") ∧
    successes attempts d.id = if error = none then 1 else 0
  bounded : counted m attempts d.id ≤ m.maxRetries+1

structure Sound (accounts : Finset ℕ) (s : Pipeline) : Prop where
  places : s.places accounts = (s.dispatched.map Dispatched.id : List Json)
  distinct : (s.dispatched.map Prod.fst).Nodup
  attempted : ∀ a ∈ s.attempts, a.taskId ∈ s.dispatched.map Dispatched.id
  queue : ∀ k ∈ accounts, ∀ t ∈ (s.worker k).queue, Waits c.messenger s.dispatched s.attempts t
  pc : ∀ k ∈ accounts, Holds c.messenger s.dispatched s.attempts (s.worker k).pc
  results : ∀ r ∈ s.results, Told c.messenger s.dispatched s.attempts r
  popped : ∀ p ∈ s.popped, Told c.messenger s.dispatched s.attempts p.2
  journal : ∀ row ∈ s.journal, ∃ d ∈ s.dispatched, Reports c.messenger s.attempts d row

section System

variable {c} {m : Messenger} {accounts : Finset ℕ} {s s' : Pipeline} {k : ℕ} {ds : List Dispatched}
  {attempts : List Attempt} {a : Attempt} {r : SendResult} {row : SendLog} {tables : Tables} {w : Worker}

theorem Reports.append {d : Dispatched} (h : Reports m attempts d row) (hne : a.taskId ≠ row.taskId) :
    Reports m (attempts++[a]) d row := by
  have hd : a.taskId ≠ d.id := h.taskId ▸ hne
  refine ⟨h.taskId,h.userId,h.scheduleId,h.adId,h.groupId,h.adTitle,h.adText,h.groupName,h.messengerType,?_,?_⟩
  · rw [lastOutcome_append,if_neg hd,successes_append,if_neg (fun he => hd he.1),Nat.add_zero]
    exact h.outcome
  · rw [counted_append,if_neg (fun he => hd he.1),Nat.add_zero]
    exact h.bounded

theorem Reports.later {attempts' : List Attempt} {ids : List Json} {d : Dispatched} (h : Reports m attempts d row)
    (hlater : Later attempts attempts' ids) (hid : row.taskId ∉ ids) : Reports m attempts' d row := by
  rcases hlater with rfl | ⟨a,rfl,ha⟩
  · exact h
  · exact h.append fun he => hid (he ▸ ha)

theorem addedRow_document {isoformat : ℤ → String} {messengerType : String}
    (h : addedRow tables messengerType (document isoformat r) = some row) :
    row = ⟨r.data.userId,r.data.scheduleId,r.data.adId,r.data.groupId,r.data.taskId,.str (statusText r.status),
      orNull .str r.errorMessage,messengerType,r.data.adTitle,r.data.adText,row.adImages,r.data.groupName⟩ := by
  obtain ⟨images,_,hrow⟩ := Option.bind_eq_some_iff.mp h
  obtain ⟨userId,huser,hrow⟩ := Option.bind_eq_some_iff.mp hrow
  obtain ⟨status,hstatus,rfl⟩ := Option.map_eq_some_iff.mp hrow
  obtain rfl : r.data.userId = userId := Option.some.inj huser
  obtain rfl : Json.str (statusText r.status) = status := Option.some.inj hstatus
  rfl

theorem Told.reports {isoformat : ℤ → String} (h : Told m ds attempts r)
    (hrow : addedRow tables m.messengerType (document isoformat r) = some row) :
    row.taskId = r.id ∧ ∃ d ∈ ds, Reports m attempts d row := by
  obtain ⟨d,hd,hr⟩ := h.dispatched
  have hid : r.id = d.id := by
    rw [hr]
    rfl
  have hdata : r.data = (result m d.task r.status r.errorMessage r.noRetry r.sentAt).data := congrArg _ hr
  have hstatus : statusText r.status = if r.errorMessage = none then "ok" else "fail" := by
    cases hs : r.status with
    | ok => rw [if_pos (h.status.mp hs)]; rfl
    | fail =>
      have herror : r.errorMessage ≠ none := fun he => by
        rw [h.status.mpr he] at hs
        cases hs
      rw [if_neg herror]
      rfl
  have hfields := addedRow_document hrow
  refine ⟨by rw [hfields]; rfl,d,hd,?_⟩
  constructor
  · rw [hfields]
    exact hid
  · rw [hfields,hdata]
    rfl
  · rw [hfields,hdata]
    rfl
  · rw [hfields,hdata]
    rfl
  · rw [hfields,hdata]
    rfl
  · rw [hfields,hdata]
    rfl
  · rw [hfields,hdata]
    rfl
  · rw [hfields,hdata]
    rfl
  · rw [hfields]
  · refine ⟨r.errorMessage,hid ▸ h.outcome,by rw [hfields],?_,hid ▸ h.successes⟩
    rw [hfields,hstatus]
  · exact hid ▸ h.bounded

theorem sum_change {f f' : ℕ → Multiset Json} (hk : k ∈ accounts) (h : ∀ j, j ≠ k → f' j = f j) :
    ∑ j ∈ accounts, f' j+f k = ∑ j ∈ accounts, f j+f' k := by
  have hrest : ∑ j ∈ accounts.erase k, f' j = ∑ j ∈ accounts.erase k, f j :=
    Finset.sum_congr rfl fun j hj => h j (Finset.ne_of_mem_erase hj)
  rw [← Finset.add_sum_erase accounts f' hk,← Finset.add_sum_erase accounts f hk,hrest]
  ac_rfl

theorem places_leave (hk : k ∈ accounts) (h : w.places.Perm (s.view k).places) :
    (s.leave k w).places accounts = s.places accounts := by
  have hsum : ∑ j ∈ accounts, (s.leave k w).load j+s.load k =
      ∑ j ∈ accounts, s.load j+(s.leave k w).load k := by
    refine sum_change hk fun j hj => ?_
    simp [Pipeline.load,Pipeline.leave,hj]
  have hown : (s.leave k w).load k+(w.results.map SendResult.id : List Json)
      = s.load k+(s.results.map SendResult.id : List Json) := by
    have hself : (s.leave k w).worker k = w := by simp [Pipeline.leave]
    rw [Pipeline.load,Pipeline.load,hself,Multiset.coe_add,Multiset.coe_add]
    exact Multiset.coe_eq_coe.mpr h
  have hmoved : ∑ j ∈ accounts, (s.leave k w).load j+(w.results.map SendResult.id : List Json)
      = ∑ j ∈ accounts, s.load j+(s.results.map SendResult.id : List Json) := by
    refine add_right_cancel (b := s.load k) ?_
    rw [add_right_comm,hsum,add_assoc,hown,add_left_comm,add_comm]
  unfold Pipeline.places
  exact congrArg (fun x : Multiset Json => x+((s.popped.map fun p => p.2.id : List Json) : Multiset Json)
    +((s.journal.map SendLog.taskId : List Json) : Multiset Json)) hmoved

theorem sum_appended (haccounts : ∀ d ∈ ds, d.2.accountId ∈ accounts) :
    ∑ k ∈ accounts, (((appended c ds k).map Dispatched.id : List Json) : Multiset Json)
      = ((routed c ds).map Dispatched.id : List Json) := by
  induction ds with
  | nil => exact Finset.sum_const_zero
  | cons d ds ih =>
    have ih := ih fun d hd => haccounts d (List.mem_cons_of_mem _ hd)
    by_cases hrouted : queueOf d.2 = some (c.queue d.2.accountId)
    · have happended : ∀ k, (((appended c (d::ds) k).map Dispatched.id : List Json) : Multiset Json)
          = (if k = d.2.accountId then {d.id} else 0)+((appended c ds k).map Dispatched.id : List Json) := by
        intro k
        by_cases hk : k = d.2.accountId
        · rw [if_pos hk,appended,List.filter_cons_of_pos (by simp [hk,hrouted])]
          rfl
        · have hother : queueOf d.2 ≠ some (c.queue k) := fun h => hk (c.account _ _ h).symm
          rw [if_neg hk,appended,List.filter_cons_of_neg (by simp [hother]),zero_add]
          rfl
      have hmem := haccounts d List.mem_cons_self
      rw [Finset.sum_congr rfl fun k _ => happended k,Finset.sum_add_distrib,Finset.sum_ite_eq',if_pos hmem,ih,routed,
        routed,List.filter_cons_of_pos (by simp [hrouted])]
      rfl
    · have happended : ∀ k, appended c (d::ds) k = appended c ds k := by
        intro k
        have hother : queueOf d.2 ≠ some (c.queue k) := by
          intro h
          rw [← c.account _ _ h] at h
          exact hrouted h
        exact List.filter_cons_of_neg (by simp [hother])
      rw [routed,List.filter_cons_of_neg (by simp [hrouted])]
      simp only [happended]
      exact ih

theorem places_dispatch (haccounts : ∀ d ∈ ds, d.2.accountId ∈ accounts) (h : step c s (.dispatch ds) = some s') :
    s'.places accounts = s.places accounts+((routed c ds).map Dispatched.id : List Json) := by
  obtain rfl := Option.some.inj h
  have hload : ∀ k, (((s.worker k).queue++(appended c ds k).map Dispatched.task).map Task.id++
      (s.worker k).pc.hands : List Json) = s.load k+((appended c ds k).map Dispatched.id : List Json) := by
    intro k
    have hids : ((appended c ds k).map Dispatched.task).map Task.id = (appended c ds k).map Dispatched.id := by
      rw [List.map_map]
      rfl
    rw [List.map_append,hids,Pipeline.load,Multiset.coe_add,List.append_assoc,List.append_assoc]
    exact Multiset.coe_eq_coe.mpr (List.perm_append_comm.append_left _)
  have hsum := sum_appended (c := c) haccounts
  simp only [Pipeline.places]
  simp only [Pipeline.load] at hload ⊢
  simp only [hload,Finset.sum_add_distrib,hsum]
  ac_rfl

theorem places_pop (accounts : Finset ℕ) {run : ℕ} (h : step c s (.pop run) = some s') :
    s'.places accounts = s.places accounts := by
  simp only [step] at h
  split at h
  · cases h
  · rename_i r results hresults
    obtain ⟨_,h⟩ := Option.ite_none_right_eq_some.mp h
    obtain rfl := Option.some.inj h
    simp only [Pipeline.places,hresults,List.map_cons,List.map_append,List.map_nil,← Multiset.coe_add,
      ← Multiset.cons_coe,← Multiset.singleton_add]
    ac_rfl

/-- A run of the result task writes a row for every result that it has popped. -/
theorem rows_of_accepted {rs : List SendResult} (now : Instant) (inIdentityMap : ℕ → Bool)
    (haccepted : ∀ r ∈ rs, Accepted c tables r) :
    List.Forall₂ (fun r row => addedRow tables c.messenger.messengerType (document c.isoformat r) = some row) rs
      (processResultsAsync ⟨tables,c.messenger.messengerType,now,inIdentityMap⟩ (rs.map (document c.isoformat))) := by
  have hsound : allSound tables c.messenger.messengerType (rs.map (document c.isoformat)) = true := by
    rw [allSound_iff]
    intro doc hdoc
    obtain ⟨r,hr,rfl⟩ := List.mem_map.mp hdoc
    obtain ⟨row,hrow,htaken⟩ := haccepted r hr
    exact ⟨rfl,by simp [rejected,hrow,htaken]⟩
  rw [processResultsAsync_eq,if_pos hsound]
  clear hsound
  induction rs with
  | nil => exact .nil
  | cons r rs ih =>
    obtain ⟨row,hrow,_⟩ := haccepted r List.mem_cons_self
    have ih := ih fun r hr => haccepted r (List.mem_cons_of_mem _ hr)
    rw [List.map_cons,List.filterMap_cons_some hrow]
    exact .cons hrow ih

theorem ids_of_rows {rs : List SendResult} {rows : List SendLog}
    (h : List.Forall₂ (fun r row => SendLog.taskId row = SendResult.id r) rs rows) :
    rows.map SendLog.taskId = rs.map SendResult.id := by
  induction h with
  | nil => rfl
  | cons hrow _ ih => rw [List.map_cons,List.map_cons,hrow,ih]

theorem places_write (accounts : Finset ℕ) {run : ℕ} {now : Instant} {inIdentityMap : ℕ → Bool}
    (hrows : List.Forall₂ (fun r row => SendLog.taskId row = SendResult.id r) (batch s run)
      (processResultsAsync ⟨tables,c.messenger.messengerType,now,inIdentityMap⟩
        ((batch s run).map (document c.isoformat))))
    (h : step c s (.write run tables now inIdentityMap) = some s') : s'.places accounts = s.places accounts := by
  obtain rfl := Option.some.inj h
  have hids := ids_of_rows hrows
  have hsplit : (s.popped.map fun p => p.2.id).Perm
      ((s.popped.filter fun p => p.1 ≠ run).map (fun p => p.2.id)++(batch s run).map SendResult.id) := by
    have hperm := (List.filter_append_perm (fun p : ℕ × SendResult => p.1 = run) s.popped).symm.map fun p => p.2.id
    rw [List.map_append] at hperm
    simpa [batch,List.map_map,Function.comp_def] using hperm.trans List.perm_append_comm
  simp only [Pipeline.places,List.map_append,hids,← Multiset.coe_add,Multiset.coe_eq_coe.mpr hsplit]
  simp only [Pipeline.load]
  ac_rfl

theorem Sound.nodup (hs : Sound c accounts s) : (s.places accounts).Nodup := by
  rw [hs.places,Multiset.coe_nodup]
  have hmap : s.dispatched.map Dispatched.id = (s.dispatched.map Prod.fst).map Json.str := by
    rw [List.map_map]
    rfl
  rw [hmap]
  exact hs.distinct.map fun _ _ h => Json.str.inj h

theorem places_view (s : Pipeline) (hk : k ∈ accounts) : s.places accounts = ((s.view k).places : Multiset Json)
    +(∑ j ∈ accounts.erase k, s.load j+(s.popped.map fun p => p.2.id : List Json)
      +(s.journal.map SendLog.taskId : List Json)) := by
  have hview : ((s.view k).places : Multiset Json) = s.load k+(s.results.map SendResult.id : List Json) := by
    rw [Pipeline.load,Multiset.coe_add]
    rfl
  rw [hview,Pipeline.places,← Finset.add_sum_erase accounts s.load hk]
  ac_rfl

theorem Sound.good (hs : Sound c accounts s) (hk : k ∈ accounts) : Good c.messenger s.dispatched (s.view k) :=
  ⟨hs.queue k hk,hs.results,hs.pc k hk⟩

theorem Sound.leave (hs : Sound c accounts s) (hk : k ∈ accounts) (hplaces : w.places.Perm (s.view k).places)
    (hgood : Good c.messenger s.dispatched w) (hlater : Later s.attempts w.attempts (s.worker k).pc.hands) :
    Sound c accounts (s.leave k w) := by
  have hnodup := hs.nodup
  rw [places_view s hk,Multiset.nodup_add] at hnodup
  obtain ⟨_,_,hdisjoint⟩ := hnodup
  have hands : ∀ id ∈ (s.worker k).pc.hands, id ∈ (s.view k).places := fun id hid =>
    List.mem_append_left _ (List.mem_append_right _ hid)
  -- The hands of one worker hold none of the tasks that are elsewhere.
  have hload : ∀ j ∈ accounts, j ≠ k → ∀ id ∈ s.load j, id ∉ (s.worker k).pc.hands := by
    intro j hj hne id hid hhand
    refine Multiset.disjoint_left.mp hdisjoint (hands id hhand) ?_
    simp only [Multiset.mem_add]
    exact .inl (.inl (Multiset.mem_sum.mpr ⟨j,Finset.mem_erase.mpr ⟨hne,hj⟩,hid⟩))
  have hpopped : ∀ p ∈ s.popped, p.2.id ∉ (s.worker k).pc.hands := by
    intro p hp hhand
    refine Multiset.disjoint_left.mp hdisjoint (hands _ hhand) ?_
    simp only [Multiset.mem_add,Multiset.mem_coe]
    exact .inl (.inr (List.mem_map_of_mem hp))
  have hjournal : ∀ row ∈ s.journal, row.taskId ∉ (s.worker k).pc.hands := by
    intro row hrow hhand
    refine Multiset.disjoint_left.mp hdisjoint (hands _ hhand) ?_
    simp only [Multiset.mem_add,Multiset.mem_coe]
    exact .inr (List.mem_map_of_mem hrow)
  refine ⟨(places_leave hk hplaces).trans hs.places,hs.distinct,?_,?_,?_,hgood.results,?_,?_⟩
  · intro a ha
    rcases hlater with hsame | ⟨b,happend,hb⟩
    · exact hs.attempted a (hsame ▸ ha)
    · have ha : a ∈ s.attempts++[b] := happend ▸ ha
      rcases List.mem_append.mp ha with ha | ha
      · exact hs.attempted a ha
      · rw [List.mem_singleton.mp ha]
        have hmem : b.taskId ∈ s.places accounts := by
          rw [places_view s hk,Multiset.mem_add]
          exact .inl (hands _ hb)
        rwa [hs.places,Multiset.mem_coe] at hmem
  · intro j hj t ht
    by_cases hjk : j = k
    · subst hjk
      simp only [Pipeline.leave,Function.update_self] at ht
      exact hgood.queue t ht
    · simp only [Pipeline.leave,Function.update_of_ne hjk] at ht
      refine (hs.queue j hj t ht).later hlater (hload j hj hjk _ ?_)
      exact Multiset.mem_coe.mpr (List.mem_append_left _ (List.mem_map_of_mem ht))
  · intro j hj
    by_cases hjk : j = k
    · subst hjk
      simp only [Pipeline.leave,Function.update_self]
      exact hgood.pc
    · simp only [Pipeline.leave,Function.update_of_ne hjk]
      exact (hs.pc j hj).later hlater fun id hid =>
        hload j hj hjk id (Multiset.mem_coe.mpr (List.mem_append_right _ hid))
  · exact fun p hp => (hs.popped p hp).later hlater (hpopped p hp)
  · intro row hrow
    obtain ⟨d,hd,hreports⟩ := hs.journal row hrow
    exact ⟨d,hd,hreports.later hlater (hjournal row hrow)⟩

theorem Sound.worker (hs : Sound c accounts s) {move : AccountWorker.Move}
    (hcareful : Careful c accounts s (.worker k move)) (h : step c s (.worker k move) = some s') :
    Sound c accounts s' := by
  obtain ⟨w,hw,rfl⟩ := Option.map_eq_some_iff.mp h
  cases move with
  | consumer inp =>
    obtain ⟨hk,hredis⟩ := hcareful
    have hnodup : (s.view k).places.Nodup := by
      have hall := hs.nodup
      rw [places_view s hk,Multiset.nodup_add] at hall
      exact Multiset.coe_nodup.mp hall.1
    exact hs.leave hk (places_consume hredis hw) (good_consume hredis (hs.good hk) hnodup hw)
      (attempts_consume hredis hw)
  | signal =>
    have hk : k ∈ accounts := hcareful
    have hgood := hs.good hk
    simp only [next] at hw
    split at hw
    · cases hw
    · obtain rfl := Option.some.inj hw
      split
      · exact hs.leave hk (List.Perm.refl _) hgood (.inl rfl)
      · exact hs.leave hk (List.Perm.refl _) ⟨hgood.queue,hgood.results,hgood.pc⟩ (.inl rfl)
  | exit =>
    obtain ⟨hk,hhands⟩ := hcareful
    have hgood := hs.good hk
    obtain ⟨_,hw⟩ := Option.ite_none_right_eq_some.mp hw
    obtain rfl := Option.some.inj hw
    refine hs.leave hk ?_ ⟨hgood.queue,hgood.results,trivial⟩ (.inl rfl)
    have hview : (s.view k).pc.hands = [] := hhands
    simp only [Worker.places,hview]
    exact List.Perm.refl _

theorem Sound.start (hs : Sound c accounts s) {now : ℤ} (hk : k ∈ accounts) (h : step c s (.start k now) = some s') :
    Sound c accounts s' := by
  have hgood := hs.good hk
  obtain ⟨hexited,h⟩ := Option.ite_none_right_eq_some.mp h
  obtain rfl := Option.some.inj h
  refine hs.leave hk ?_ ⟨hgood.queue,hgood.results,trivial⟩ (.inl rfl)
  have hview : (s.view k).pc.hands = [] := by
    simp only [Pipeline.view,hexited]
    rfl
  simp only [Worker.places,hview]
  exact List.Perm.refl _

theorem Sound.dispatch (hs : Sound c accounts s) (hcareful : Careful c accounts s (.dispatch ds))
    (h : step c s (.dispatch ds) = some s') : Sound c accounts s' := by
  obtain ⟨hfresh,haccounts⟩ := hcareful
  have hplaces := places_dispatch haccounts h
  obtain rfl := Option.some.inj h
  have hrouted : (routed c ds).Sublist ds := List.filter_sublist
  have hmore : s.dispatched ⊆ s.dispatched++routed c ds := List.subset_append_left _ _
  have hnew : ∀ d ∈ routed c ds, ∀ a ∈ s.attempts, a.taskId ≠ d.id := by
    intro d hd a ha he
    obtain ⟨d',hd',hid⟩ := List.mem_map.mp (hs.attempted a ha)
    have hname : d'.1 = d.1 := Json.str.inj (hid.trans he)
    exact (List.nodup_append.mp hfresh).2.2 d'.1 (List.mem_map_of_mem hd') d.1
      (List.mem_map_of_mem (hrouted.subset hd)) hname
  refine ⟨?_,?_,?_,?_,?_,?_,?_,?_⟩
  · rw [hplaces,hs.places,Multiset.coe_add,List.map_append]
  · rw [List.map_append]
    exact hfresh.sublist ((List.Sublist.refl _).append (hrouted.map _))
  · intro a ha
    rw [List.map_append]
    exact List.mem_append_left _ (hs.attempted a ha)
  · intro k hk t ht
    rcases List.mem_append.mp ht with ht | ht
    · exact (hs.queue k hk t ht).more hmore
    · obtain ⟨d,hd,rfl⟩ := List.mem_map.mp ht
      obtain ⟨hds,hqueue⟩ := List.mem_filter.mp hd
      have hmem : d ∈ routed c ds := by
        refine List.mem_filter.mpr ⟨hds,?_⟩
        rwa [c.account _ _ (of_decide_eq_true hqueue)]
      have hcounted : counted c.messenger s.attempts d.id = 0 := by
        refine List.countP_eq_zero.mpr fun a ha => ?_
        simp [hnew d hmem a ha]
      have hsuccesses : successes s.attempts d.id = 0 := by
        refine List.countP_eq_zero.mpr fun a ha => ?_
        simp [hnew d hmem a ha]
      exact ⟨⟨hcounted,Nat.zero_le _⟩,hsuccesses,d,List.mem_append_right _ hmem,rfl⟩
  · exact fun k hk => (hs.pc k hk).more hmore
  · exact fun r hr => (hs.results r hr).more hmore
  · exact fun p hp => (hs.popped p hp).more hmore
  · intro row hrow
    obtain ⟨d,hd,hreports⟩ := hs.journal row hrow
    exact ⟨d,hmore hd,hreports⟩

theorem Sound.pop (hs : Sound c accounts s) {run : ℕ} (h : step c s (.pop run) = some s') : Sound c accounts s' := by
  have hplaces := places_pop accounts h
  simp only [step] at h
  split at h
  · cases h
  · rename_i r results hresults
    obtain ⟨_,h⟩ := Option.ite_none_right_eq_some.mp h
    obtain rfl := Option.some.inj h
    refine ⟨hplaces.trans hs.places,hs.distinct,hs.attempted,hs.queue,hs.pc,?_,?_,hs.journal⟩
    · exact fun q hq => hs.results q (hresults ▸ List.mem_cons_of_mem r hq)
    · intro p hp
      rcases List.mem_append.mp hp with hp | hp
      · exact hs.popped p hp
      · rw [List.mem_singleton.mp hp]
        exact hs.results r (hresults ▸ List.mem_cons_self)

theorem reports_of_rows {isoformat : ℤ → String} {rs : List SendResult} {rows : List SendLog}
    (hrows : List.Forall₂ (fun r row => addedRow tables m.messengerType (document isoformat r) = some row) rs rows)
    (htold : ∀ r ∈ rs, Told m ds attempts r) :
    List.Forall₂ (fun r row => SendLog.taskId row = SendResult.id r) rs rows ∧
      ∀ row ∈ rows, ∃ d ∈ ds, Reports m attempts d row := by
  induction hrows with
  | nil => exact ⟨.nil,fun _ h => by cases h⟩
  | cons hrow _ ih =>
    obtain ⟨hid,hreports⟩ := (htold _ List.mem_cons_self).reports hrow
    obtain ⟨hids,hrest⟩ := ih fun r hr => htold r (List.mem_cons_of_mem _ hr)
    refine ⟨.cons hid hids,fun row hmem => ?_⟩
    rcases List.mem_cons.mp hmem with rfl | hmem
    · exact hreports
    · exact hrest row hmem

theorem Sound.write (hs : Sound c accounts s) {run : ℕ} {now : Instant} {inIdentityMap : ℕ → Bool}
    (haccepted : ∀ r ∈ batch s run, Accepted c tables r)
    (h : step c s (.write run tables now inIdentityMap) = some s') : Sound c accounts s' := by
  have htold : ∀ r ∈ batch s run, Told c.messenger s.dispatched s.attempts r := by
    intro r hr
    obtain ⟨p,hp,rfl⟩ := List.mem_map.mp hr
    exact hs.popped p (List.mem_of_mem_filter hp)
  obtain ⟨hids,hreports⟩ := reports_of_rows (rows_of_accepted now inIdentityMap haccepted) htold
  have hplaces := places_write accounts hids h
  obtain rfl := Option.some.inj h
  refine ⟨hplaces.trans hs.places,hs.distinct,hs.attempted,hs.queue,hs.pc,hs.results,?_,?_⟩
  · exact fun p hp => hs.popped p (List.mem_of_mem_filter hp)
  · intro row hrow
    rcases List.mem_append.mp hrow with hrow | hrow
    · exact hs.journal row hrow
    · exact hreports row hrow

theorem sound_new : Sound c accounts Pipeline.new where
  places := by
    have hload : ∀ k ∈ accounts, Pipeline.new.load k = 0 := fun _ _ => rfl
    rw [Pipeline.places,Finset.sum_eq_zero hload]
    rfl
  distinct := List.nodup_nil
  attempted := fun _ h => by cases h
  queue := fun _ _ _ h => by cases h
  pc := fun _ _ => trivial
  results := fun _ h => by cases h
  popped := fun _ h => by cases h
  journal := fun _ h => by cases h

theorem Sound.step (hs : Sound c accounts s) {move : Move} (hcareful : Careful c accounts s move)
    (h : step c s move = some s') : Sound c accounts s' := by
  cases move with
  | dispatch ds => exact hs.dispatch hcareful h
  | worker k move => exact hs.worker hcareful h
  | start k now => exact hs.start hcareful h
  | pop run => exact hs.pop h
  | write run tables now inIdentityMap => exact hs.write hcareful h

theorem sound_of_runs (h : Reaches c accounts Pipeline.new s) : Sound c accounts s := by
  induction h with
  | refl => exact sound_new
  | tail _ hstep hs =>
    obtain ⟨move,hcareful,hnext⟩ := hstep
    exact hs.step hcareful hnext

theorem appended_dispatchSendTasks (ds : List Dispatched) (k : ℕ) :
    (appended c ds k).map Prod.snd = (dispatchSendTasks (ds.map Prod.snd)).1 (c.queue k) := by
  simp only [appended,dispatchSendTasks,List.filter_map,Function.comp_def]

theorem popResults_documents (isoformat : ℤ → String) (n : ℕ) (rs : List SendResult) :
    popResults n (rs.map fun r => .json (document isoformat r)) =
      ⟨(rs.take n).map (document isoformat),false,(rs.drop n).map fun r => .json (document isoformat r)⟩ := by
  induction rs generalizing n with
  | nil => cases n <;> rfl
  | cons r rs ih =>
    cases n with
    | zero => rfl
    | succ n => rw [List.map_cons,popResults,ih]; rfl

def Pipeline.popRun (s : Pipeline) (run : ℕ) (rs results : List SendResult) : Pipeline :=
  { s with results := results, popped := s.popped++rs.map fun r => (run,r) }

theorem batch_popRun (s : Pipeline) (run : ℕ) (rs results : List SendResult) :
    batch (s.popRun run rs results) run = batch s run++rs := by
  simp [batch,Pipeline.popRun,List.filter_append,List.filter_map,Function.comp_def]

theorem reaches_popRun {run : ℕ} {rs results : List SendResult} (hresults : s.results = rs++results)
    (hlimit : (batch s run).length+rs.length ≤ 100) : Reaches c accounts s (s.popRun run rs results) := by
  induction rs generalizing s with
  | nil =>
    obtain rfl : results = s.results := hresults.symm
    have hsame : s.popRun run [] s.results = s := by
      rw [Pipeline.popRun,List.map_nil,List.append_nil]
    rw [hsame]
    exact Relation.ReflTransGen.refl
  | cons r rs ih =>
    rw [List.length_cons] at hlimit
    have hroom : (batch s run).length < 100 := by omega
    have hpop : step c s (.pop run) = some (s.popRun run [r] (rs++results)) := by
      simp only [step,hresults,List.cons_append,if_pos hroom]
      rfl
    have hrest : (s.popRun run [r] (rs++results)).popRun run rs results = s.popRun run (r::rs) results := by
      simp [Pipeline.popRun]
    rw [← hrest]
    refine (ih rfl ?_).head ⟨.pop run,trivial,hpop⟩
    rw [batch_popRun,List.length_append,List.length_singleton]
    omega

/-- A run that nobody disturbs is a call of `process_wa_results` or `process_max_results`. -/
theorem reaches_processResults {run : ℕ} {now : Instant} {inIdentityMap : ℕ → Bool} (hbatch : batch s run = [])
    (haccepted : ∀ r ∈ s.results.take 100, Accepted c tables r) : Reaches c accounts s { s with
      results := s.results.drop 100
      journal := s.journal++(processResults ⟨tables,c.messenger.messengerType,now,inIdentityMap⟩
        (s.results.map fun r => .json (document c.isoformat r))).1 } := by
  have hpops : Reaches c accounts s (s.popRun run (s.results.take 100) (s.results.drop 100)) := by
    refine reaches_popRun (List.take_append_drop 100 s.results).symm ?_
    rw [hbatch,List.length_nil,List.length_take]
    omega
  have htaken : batch (s.popRun run (s.results.take 100) (s.results.drop 100)) run = s.results.take 100 := by
    rw [batch_popRun,hbatch,List.nil_append]
  have hothers : ∀ rs : List SendResult,
      (s.popped++rs.map fun r => (run,r)).filter (fun p => p.1 ≠ run) = s.popped := by
    intro rs
    have hnone : ∀ p ∈ s.popped, p.1 ≠ run := by
      intro p hp he
      have hmem : p.2 ∈ batch s run := List.mem_map_of_mem (List.mem_filter.mpr ⟨hp,by simpa using he⟩)
      rw [hbatch] at hmem
      cases hmem
    rw [List.filter_append,List.filter_eq_self.mpr (by simpa using hnone),List.filter_eq_nil_iff.mpr (by simp),
      List.append_nil]
  refine hpops.tail ⟨.write run tables now inIdentityMap,?_,?_⟩
  · intro r hr
    rw [htaken] at hr
    exact haccepted r hr
  · simp only [step,htaken,processResults,popResults_documents,Bool.false_eq_true,if_false]
    simp only [Pipeline.popRun,hothers]

structure Pipeline.Drained (accounts : Finset ℕ) (s : Pipeline) : Prop where
  queue : ∀ k ∈ accounts, (s.worker k).queue = []
  hands : ∀ k ∈ accounts, (s.worker k).pc.hands = []
  results : s.results = []
  popped : s.popped = []

theorem Sound.drained (hs : Sound c accounts s) (hdrained : s.Drained accounts) :
    (s.journal.map SendLog.taskId).Perm (s.dispatched.map Dispatched.id) := by
  have hload : ∀ k ∈ accounts, s.load k = 0 := by
    intro k hk
    rw [Pipeline.load,hdrained.queue k hk,hdrained.hands k hk]
    rfl
  have hplaces := hs.places
  rw [Pipeline.places,Finset.sum_eq_zero hload,hdrained.results,hdrained.popped] at hplaces
  exact Multiset.coe_eq_coe.mp (by simpa using hplaces)

/-- A task succeeds at most once, and fails no more often than the retries allow. -/
theorem Sound.bounded (hs : Sound c accounts s) {d : Dispatched} (hd : d ∈ s.dispatched) :
    successes s.attempts d.id ≤ 1 ∧ counted c.messenger s.attempts d.id ≤ c.messenger.maxRetries+1 := by
  have hwaits : ∀ {t : Task}, Waits c.messenger s.dispatched s.attempts t → t.id = d.id →
      successes s.attempts d.id ≤ 1 ∧ counted c.messenger s.attempts d.id ≤ c.messenger.maxRetries+1 := by
    intro t ht he
    rw [← he,ht.unsent]
    exact ⟨Nat.zero_le _,ht.pending.bounded⟩
  have htold : ∀ {r : SendResult}, Told c.messenger s.dispatched s.attempts r → r.id = d.id →
      successes s.attempts d.id ≤ 1 ∧ counted c.messenger s.attempts d.id ≤ c.messenger.maxRetries+1 := by
    intro r hr he
    rw [← he,hr.successes]
    exact ⟨by split <;> decide,hr.bounded⟩
  have hmem : d.id ∈ s.places accounts := by
    rw [hs.places]
    exact List.mem_map_of_mem hd
  simp only [Pipeline.places,Multiset.mem_add,Multiset.mem_coe] at hmem
  rcases hmem with ((hmem | hmem) | hmem) | hmem
  · obtain ⟨k,hk,hload⟩ := Multiset.mem_sum.mp hmem
    rcases List.mem_append.mp (Multiset.mem_coe.mp hload) with hqueue | hhands
    · obtain ⟨t,ht,he⟩ := List.mem_map.mp hqueue
      exact hwaits (hs.queue k hk t ht) he
    · have hpc := hs.pc k hk
      cases hw : (s.worker k).pc with
      | requeue t | waitForRateLimit t | sendMessage t | retry t =>
        rw [hw] at hpc hhands
        exact hwaits hpc (List.mem_singleton.mp hhands).symm
      | publish r =>
        rw [hw] at hpc hhands
        exact htold hpc (List.mem_singleton.mp hhands).symm
      | blpop | heartbeat | pause | stopped | exited =>
        rw [hw] at hhands
        cases hhands
  · obtain ⟨r,hr,he⟩ := List.mem_map.mp hmem
    exact htold (hs.results r hr) he
  · obtain ⟨p,hp,he⟩ := List.mem_map.mp hmem
    exact htold (hs.popped p hp) he
  · obtain ⟨row,hrow,he⟩ := List.mem_map.mp hmem
    obtain ⟨d',_,hreports⟩ := hs.journal row hrow
    obtain ⟨error,_,_,_,hsuccesses⟩ := hreports.outcome
    have hsame : d'.id = d.id := hreports.taskId.symm.trans he
    rw [← hsame,hsuccesses]
    exact ⟨by split <;> decide,hreports.bounded⟩

theorem Sound.journal_nodup (hs : Sound c accounts s) : (s.journal.map SendLog.taskId).Nodup := by
  have hnodup := hs.nodup
  rw [Pipeline.places,Multiset.nodup_add] at hnodup
  exact Multiset.coe_nodup.mp hnodup.2.1

/-- Each task that has been dispatched is in one place: a queue, the hands of a worker, the results, a run of the
result task or the journal. It succeeds at most once. The journal has one row of a task at most, with the fields that
the planner gave it and the outcome of its last attempt, and when nothing is under way it has a row of every task. -/
theorem every_send_is_journaled_once (h : Reaches c accounts Pipeline.new s) :
    (s.dispatched.map Dispatched.id).Nodup ∧
    s.places accounts = (s.dispatched.map Dispatched.id : List Json) ∧
    (∀ d ∈ s.dispatched, successes s.attempts d.id ≤ 1 ∧
      counted c.messenger s.attempts d.id ≤ c.messenger.maxRetries+1) ∧
    (s.journal.map SendLog.taskId).Nodup ∧
    (∀ row ∈ s.journal, ∃ d ∈ s.dispatched, Reports c.messenger s.attempts d row) ∧
    (s.Drained accounts → (s.journal.map SendLog.taskId).Perm (s.dispatched.map Dispatched.id)) := by
  have hs := sound_of_runs h
  refine ⟨?_,hs.places,fun d hd => hs.bounded hd,hs.journal_nodup,hs.journal,hs.drained⟩
  have hnodup := hs.nodup
  rwa [hs.places,Multiset.coe_nodup] at hnodup

end System

def marketTask : DispatchTask where
  type := "wa"
  adId := 2
  groupId := 3
  accountId := 5
  scheduleId := some 4
  userId := some 1
  adText := some "Sofa"
  adTitle := some "Sofa"
  adImages := none
  groupExternalId := some "g@g.us"
  groupName := some "Market"

def workerAnswers (now : ℤ) : Move := .worker 5 (.consumer ⟨now,.ok,none,true⟩)

def willingTables : Tables := ⟨fun _ => .ok none,fun _ => .ok (some 3),fun _ => false⟩

theorem every_send_is_journaled_once_market :
    ∃ s, Reaches (waChannel 300 fun _ => "now") {5} Pipeline.new s ∧
      (s.journal.map SendLog.taskId).Perm [.str "u"] ∧ successes s.attempts (.str "u") ≤ 1 := by
  have hdispatched : Reaches (waChannel 300 fun _ => "now") {5} Pipeline.new _ :=
    Relation.ReflTransGen.single ⟨.dispatch [("u",marketTask)],⟨by decide,by decide⟩,rfl⟩
  have htaken := hdispatched.tail ⟨workerAnswers 0,⟨by decide,rfl⟩,rfl⟩
  have hlimited := htaken.tail ⟨workerAnswers 1,⟨by decide,rfl⟩,rfl⟩
  have hsent := hlimited.tail ⟨workerAnswers 2,⟨by decide,rfl⟩,rfl⟩
  have hpublished := hsent.tail ⟨workerAnswers 3,⟨by decide,rfl⟩,rfl⟩
  have hpopped := hpublished.tail ⟨.pop 0,trivial,rfl⟩
  have hwritten := hpopped.tail ⟨.write 0 willingTables 0 fun _ => false,fun r hr => by
    obtain rfl := List.mem_singleton.mp hr
    exact ⟨_,rfl,rfl⟩,rfl⟩
  obtain ⟨_,_,hbounded,_,_,hdrained⟩ := every_send_is_journaled_once hwritten
  refine ⟨_,hwritten,hdrained ⟨?_,?_,rfl,rfl⟩,(hbounded ("u",marketTask) List.mem_cons_self).1⟩
  · intro k hk
    obtain rfl := Finset.mem_singleton.mp hk
    rfl
  · intro k hk
    obtain rfl := Finset.mem_singleton.mp hk
    rfl

end SendJourney
end Broadcaster
