import Broadcaster.ContainerManager
import Broadcaster.Interleaving

/-!
# Calls for one container at the same time

`start_container` is called by the button of the administrators, by the wizards
and by the tasks that look after the queues; the one for MAX calls it through
`ensure_container_for_pending_work`, which alone calls `stop_container`. After
its loop a task removes the containers that have exited. Each of them makes one
call to Docker after the other, and nothing keeps two of them apart.
-/

namespace Broadcaster
namespace ContainerRaces

open Interleaving ContainerManager

/-- A container has an id of its own; its name is free again when it has been removed. -/
structure Container where
  id : ℕ
  status : ContainerStatus
  deriving DecidableEq

abbrev Answer := Except DockerError (Option String)

/-- The container with the name of the account. `answers` is a history variable. -/
structure Db where
  container : Option Container
  nextId : ℕ
  answers : List Answer

/-- Each constructor stands before one call to Docker, or before the reading of the heartbeat. -/
inductive Pc
  | idle
  /-- `start_container` -/
  | get | remove (id : ℕ) | create | start (id : ℕ)
  /-- `ensure_container_for_pending_work` -/
  | pendingGet | heartbeat
  /-- `stop_container` -/
  | stopGet | stop (id : ℕ) | stopRemove (id : ℕ)
  /-- `cleanup_exited_containers` -/
  | list | cleanup (id : ℕ)
  deriving DecidableEq

/-- What begins; a worker without work exits by itself. -/
inductive Request
  | startContainer | ensure | cleanup | exit
  deriving DecidableEq

/-- `fails` is an `APIError` for another reason than the state of the container. -/
structure Input where
  request : Request
  fresh : Bool
  fails : Bool

def stopped : ContainerStatus → ContainerStatus
  | .created => .created
  | .dead => .dead
  | .running | .paused | .restarting | .exited => .exited

/-- `remove` without `force` is refused with status 409 otherwise. -/
def removable : ContainerStatus → Bool
  | .created | .exited | .dead => true
  | .running | .paused | .restarting => false

namespace Db

def status (db : Db) (id : ℕ) : Option ContainerStatus :=
  db.container.bind fun c => if c.id = id then some c.status else none

def setStatus (db : Db) (id : ℕ) (status : ContainerStatus) : Db := { db with container := some ⟨id,status⟩ }

def removed (db : Db) : Db := { db with container := none }

def created (db : Db) : Db := { db with container := some ⟨db.nextId,.created⟩, nextId := db.nextId+1 }

def answer (db : Db) (a : Answer) : Db := { db with answers := a::db.answers }

end Db

section Calls

variable (m : Messenger) (account : ℕ)

def started : Answer := .ok (some (endpointOf m account))

/-- Status 409 of `containers.run`: the name is in use. -/
def conflict : Answer := .ok (if m = .max then some (endpointOf m account) else none)

def begin (db : Db) : Request → Db × Pc
  | .startContainer => (db,.get)
  | .ensure =>
    match m with
    | .wa => (db,.idle)
    | .max => (db,.pendingGet)
  | .cleanup => (db,.list)
  | .exit =>
    match db.container with
    | some ⟨id,.running⟩ => (db.setStatus id .exited,.idle)
    | _ => (db,.idle)

/-- `containers.run` is a `create` and a `start`. -/
def step (db : Db) (pc : Pc) (inp : Input) : Db × Pc :=
  match pc with
  | .idle => begin m db inp.request
  | .get =>
    if inp.fails then (db.answer (.error .apiError),.idle)
    else
      match db.container with
      | none => (db,.create)
      | some c => if c.status = .running then (db.answer (started m account),.idle) else (db,.remove c.id)
  | .remove id =>
    if inp.fails then (db.answer (.error .apiError),.idle)
    else if (db.status id).isSome then (db.removed,.create) else (db,.create)
  | .create =>
    if inp.fails then (db.answer (.ok none),.idle)
    else
      match db.container with
      | none => (db.created,.start db.nextId)
      | some _ => (db.answer (conflict m account),.idle)
  | .start id =>
    if inp.fails then (db.answer (.ok none),.idle)
    else if (db.status id).isSome then ((db.setStatus id .running).answer (started m account),.idle)
    else (db.answer (.ok none),.idle)
  | .pendingGet =>
    if inp.fails then (db.answer (.error .apiError),.idle)
    else
      match db.container with
      | none => (db,.get)
      | some c => if c.status = .running then (db,.heartbeat) else (db,.get)
  | .heartbeat => if inp.fresh then (db.answer (started m account),.idle) else (db,.stopGet)
  | .stopGet =>
    if inp.fails then (db.answer (.ok none),.idle)
    else
      match db.container with
      | none => (db,.get)
      | some c => (db,.stop c.id)
  | .stop id =>
    if inp.fails then (db.answer (.ok none),.idle)
    else
      match db.status id with
      | none => (db,.get)
      | some status => (db.setStatus id (stopped status),.stopRemove id)
  | .stopRemove id =>
    if inp.fails then (db.answer (.ok none),.idle)
    else
      match db.status id with
      | none => (db,.get)
      | some status => if removable status then (db.removed,.get) else (db.answer (.ok none),.idle)
  | .list =>
    if inp.fails then (db,.idle)
    else
      match db.container with
      | none => (db,.idle)
      | some c => if c.status = .exited then (db,.cleanup c.id) else (db,.idle)
  | .cleanup id =>
    if inp.fails then (db,.idle)
    else
      match db.status id with
      | none => (db,.idle)
      | some status => if removable status then (db.removed,.idle) else (db,.idle)

def machine : Machine Db Pc Input where
  step := fun db _ pc inp => some (step m account db pc inp)

end Calls

/-- No call fails by itself, and no worker exits. -/
def steady (_ : Config Db Pc) (move : Move Input) : Prop :=
  move.2.fails = false ∧ move.2.request ≠ .exit

instance (c : Config Db Pc) (move : Move Input) : Decidable (steady c move) :=
  inferInstanceAs (Decidable (_ ∧ _))

def Pc.isCall : Pc → Bool
  | .idle | .list | .cleanup _ => false
  | .get | .remove _ | .create | .start _ | .pendingGet | .heartbeat | .stopGet | .stop _ | .stopRemove _ => true

structure Initial (c : Config Db Pc) : Prop where
  idle : ∀ p, c.pc p = .idle
  unanswered : c.db.answers = []
  numbered : ∀ con, c.db.container = some con → con.id < c.db.nextId

section Steps

variable {db db' : Db} {pc pc' : Pc} {id : ℕ} {s : ContainerStatus} {a : Answer}

theorem status_eq_some : db.status id = some s ↔ db.container = some ⟨id,s⟩ := by
  unfold Db.status
  cases hc : db.container with
  | none => simp
  | some c =>
    obtain ⟨i,t⟩ := c
    by_cases hi : i = id
    · subst hi
      simp
    · simp [hi]

theorem status_eq_none : db.status id = none ↔ ∀ con, db.container = some con → con.id ≠ id := by
  unfold Db.status
  cases hc : db.container with
  | none => simp
  | some c => simp

@[simp] theorem container_setStatus : (db.setStatus id s).container = some ⟨id,s⟩ := rfl

@[simp] theorem container_removed : db.removed.container = none := rfl

@[simp] theorem container_created : db.created.container = some ⟨db.nextId,.created⟩ := rfl

@[simp] theorem container_answer : (db.answer a).container = db.container := rfl

@[simp] theorem nextId_setStatus : (db.setStatus id s).nextId = db.nextId := rfl

@[simp] theorem nextId_removed : db.removed.nextId = db.nextId := rfl

theorem removable_stopped (s : ContainerStatus) : removable (stopped s) = true := by
  cases s <;> rfl

/-- The call stands where it still has to find or to make a container, whatever the others do. -/
def Pc.works : Pc → Bool
  | .get | .remove _ | .create | .pendingGet | .stopGet | .stop _ | .stopRemove _ => true
  | .idle | .start _ | .heartbeat | .list | .cleanup _ => false

structure Onward (db : Db) (pc pc' : Pc) : Prop where
  works : pc'.works = true
  unstarted : ∀ id, pc ≠ .start id
  gone : ∀ id, pc = .stopRemove id → db.status id = none
  kept : ∀ id, pc' ≠ .stopRemove id
  free : pc' = .create → db.container = none ∨ ∃ id, pc = .remove id ∧ db.status id = none
  seen : ∀ id, pc' = .remove id → ∃ s, db.container = some ⟨id,s⟩

inductive Does (m : Messenger) (account : ℕ) (db : Db) : Pc → Db → Pc → Prop
  | onward {pc pc' : Pc} (h : Onward db pc pc') : Does m account db pc db pc'
  | watch {pc pc' : Pc} (hpc : pc.isCall = false) (hpc' : pc'.isCall = false)
      (hexited : ∀ id, pc' = .cleanup id → db.container = some ⟨id,.exited⟩) : Does m account db pc db pc'
  | running {id : ℕ} (hid : db.container = some ⟨id,.running⟩) : Does m account db .pendingGet db .heartbeat
  | found {id : ℕ} (hid : db.container = some ⟨id,.running⟩) :
      Does m account db .get (db.answer (started m account)) .idle
  | fresh : Does m account db .heartbeat (db.answer (started m account)) .idle
  | conflict {con : Container} (hcon : db.container = some con) :
      Does m account db .create (db.answer (conflict m account)) .idle
  | lost {id : ℕ} (hgone : db.status id = none) : Does m account db (.start id) (db.answer (.ok none)) .idle
  | refused {id : ℕ} {s : ContainerStatus} (hid : db.container = some ⟨id,s⟩) (hs : removable s = false) :
      Does m account db (.stopRemove id) (db.answer (.ok none)) .idle
  | remove {id : ℕ} {s : ContainerStatus} (hid : db.container = some ⟨id,s⟩) :
      Does m account db (.remove id) db.removed .create
  | stopRemove {id : ℕ} {s : ContainerStatus} (hid : db.container = some ⟨id,s⟩) :
      Does m account db (.stopRemove id) db.removed .get
  | cleanup {id : ℕ} {s : ContainerStatus} (hid : db.container = some ⟨id,s⟩) (hs : removable s = true) :
      Does m account db (.cleanup id) db.removed .idle
  | create (hnone : db.container = none) : Does m account db .create db.created (.start db.nextId)
  | start {id : ℕ} {s : ContainerStatus} (hid : db.container = some ⟨id,s⟩) :
      Does m account db (.start id) ((db.setStatus id .running).answer (started m account)) .idle
  | stop {id : ℕ} {s : ContainerStatus} (hid : db.container = some ⟨id,s⟩) :
      Does m account db (.stop id) (db.setStatus id (stopped s)) (.stopRemove id)

theorem does_of_step {m : Messenger} {account : ℕ} {inp : Input} (hfails : inp.fails = false)
    (hexit : inp.request ≠ .exit) :
    Does m account db pc (step m account db pc inp).1 (step m account db pc inp).2 := by
  have on {pc pc' : Pc} (h : Onward db pc pc') : Does m account db pc db pc' := .onward h
  cases pc with
  | idle =>
    simp only [step]
    cases hr : inp.request with
    | startContainer => exact on (by constructor <;> simp [begin,Pc.works])
    | ensure =>
      cases m with
      | wa => exact .watch rfl rfl fun id h => nomatch h
      | max => exact on (by constructor <;> simp [begin,Pc.works])
    | cleanup => exact .watch rfl rfl (by simp [begin])
    | exit => exact absurd hr hexit
  | get =>
    simp only [step,hfails]
    cases hc : db.container with
    | none => exact on (by constructor <;> simp [Pc.works,hc])
    | some c =>
      obtain ⟨id,s⟩ := c
      by_cases hs : s = .running
      · subst hs
        exact .found hc
      · simp only [Bool.false_eq_true,if_false,hs]
        exact on (by constructor <;> simp [Pc.works,hc])
  | remove id =>
    simp only [step,hfails]
    cases hs : db.status id with
    | none => exact on (by constructor <;> simp [Pc.works,hs])
    | some s => exact .remove (status_eq_some.mp hs)
  | create =>
    simp only [step,hfails]
    cases hc : db.container with
    | none => exact .create hc
    | some con => exact .conflict hc
  | start id =>
    simp only [step,hfails]
    cases hs : db.status id with
    | none => exact .lost hs
    | some s => exact .start (status_eq_some.mp hs)
  | pendingGet =>
    simp only [step,hfails]
    cases hc : db.container with
    | none => exact on (by constructor <;> simp [Pc.works])
    | some c =>
      obtain ⟨id,s⟩ := c
      by_cases hs : s = .running
      · subst hs
        exact .running hc
      · simp only [Bool.false_eq_true,if_false,hs]
        exact on (by constructor <;> simp [Pc.works])
  | heartbeat =>
    simp only [step]
    split
    · exact .fresh
    · exact on (by constructor <;> simp [Pc.works])
  | stopGet =>
    simp only [step,hfails]
    cases hc : db.container with
    | none => exact on (by constructor <;> simp [Pc.works])
    | some c => exact on (by constructor <;> simp [Pc.works])
  | stop id =>
    simp only [step,hfails]
    cases hs : db.status id with
    | none => exact on (by constructor <;> simp [Pc.works])
    | some s => exact .stop (status_eq_some.mp hs)
  | stopRemove id =>
    simp only [step,hfails]
    cases hs : db.status id with
    | none => exact on (by constructor <;> simp [Pc.works,hs])
    | some s =>
      cases hr : removable s with
      | true =>
        simp only [Bool.false_eq_true,if_false,hr,if_true]
        exact .stopRemove (status_eq_some.mp hs)
      | false =>
        simp only [Bool.false_eq_true,if_false,hr]
        exact .refused (status_eq_some.mp hs) hr
  | list =>
    simp only [step,hfails]
    cases hc : db.container with
    | none => exact .watch rfl rfl (by simp)
    | some c =>
      obtain ⟨id,s⟩ := c
      by_cases hs : s = .exited
      · subst hs
        exact .watch rfl rfl (by simp [hc])
      · simp only [Bool.false_eq_true,if_false,hs]
        exact .watch rfl rfl (by simp)
  | cleanup id =>
    simp only [step,hfails]
    cases hs : db.status id with
    | none => exact .watch rfl rfl (by simp)
    | some s =>
      cases hr : removable s with
      | true =>
        simp only [Bool.false_eq_true,if_false,hr,if_true]
        exact .cleanup (status_eq_some.mp hs) hr
      | false =>
        simp only [Bool.false_eq_true,if_false,hr]
        exact .watch rfl rfl (by simp)

end Steps

section Alone

variable (m : Messenger) (account : ℕ) (inp : Input)

def alone : ℕ → Db × Pc → Db × Pc
  | 0, r => r
  | n+1, r => alone n (step m account r.1 r.2 inp)

variable {m} {account} {inp} {db : Db} {w : World}

/-- The process makes the call of the sequential model. -/
def Agrees (m : Messenger) (account : ℕ) (inp : Input) (db : Db) (pc : Pc) (w : World)
    (outcome : Outcome (Option String)) : Prop :=
  w.containers account = db.container.map Container.status → ∃ n db', alone m account inp n (db,pc) = (db',.idle) ∧
    outcome.1.containers account = db'.container.map Container.status ∧ db'.answers = outcome.2::db.answers

theorem alone_startContainer (hw : w.Healthy account) (hfails : inp.fails = false) :
    Agrees m account inp db .get w (startContainer m w account) := by
  intro _
  obtain ⟨w',hstart,hrunning⟩ := startContainer_healthy m hw
  rw [hstart]
  cases hcon : db.container with
  | none =>
    refine ⟨3,(db.created.setStatus db.nextId .running).answer (started m account),?_,hrunning,rfl⟩
    simp [alone,step,hfails,hcon,Db.status]
  | some con =>
    obtain ⟨id,s⟩ := con
    by_cases hs : s = .running
    · subst hs
      refine ⟨1,db.answer (started m account),?_,?_,rfl⟩
      · simp [alone,step,hfails,hcon]
      · simp [hrunning,hcon]
    · refine ⟨4,(db.removed.created.setStatus db.nextId .running).answer (started m account),?_,hrunning,rfl⟩
      simp [alone,step,hfails,hcon,hs,Db.status]

theorem alone_ensure (env : Env) (hw : w.Healthy account) (hfails : inp.fails = false) :
    Agrees .max account inp db .pendingGet w (ensureContainerForPendingWork env w account) := by
  intro _
  obtain ⟨w',h,hrunning⟩ := ensure_healthy env .max hw
  have hensure : ensureContainerForPendingWork env w account = (w',.ok (some (endpointOf .max account))) := h
  rw [hensure]
  cases hcon : db.container with
  | none =>
    refine ⟨4,(db.created.setStatus db.nextId .running).answer (started .max account),?_,hrunning,rfl⟩
    simp [alone,step,hfails,hcon,Db.status]
  | some con =>
    obtain ⟨id,s⟩ := con
    by_cases hs : s = .running
    · subst hs
      cases hbeat : inp.fresh with
      | true =>
        refine ⟨2,db.answer (started .max account),?_,?_,rfl⟩
        · simp [alone,step,hfails,hcon,hbeat]
        · simp [hrunning,hcon]
      | false =>
        refine ⟨8,((db.setStatus id .exited).removed.created.setStatus db.nextId .running).answer
          (started .max account),?_,hrunning,rfl⟩
        simp [alone,step,hfails,hcon,hbeat,Db.status,stopped,removable]
    · refine ⟨5,(db.removed.created.setStatus db.nextId .running).answer (started .max account),?_,hrunning,rfl⟩
      simp [alone,step,hfails,hcon,hs,Db.status]

end Alone

/-- `old` is the next id at the beginning: a container below it was there before, and no call makes such a one again. -/
structure Base (old : ℕ) (db : Db) : Prop where
  le : old ≤ db.nextId
  below : ∀ con, db.container = some con → con.id < db.nextId
  first : ∀ con, db.container = some con → con.id < old → db.nextId = old

/-- What a call may rely on. -/
def Pc.Knows (old : ℕ) (db : Db) : Pc → Prop
  | .remove id => ∀ con, db.container = some con → con.id < old → con.id = id
  | .create => ∀ con, db.container = some con → old ≤ con.id
  | .start id => old ≤ id ∧ id < db.nextId
  | .stopRemove id => ∀ con, db.container = some con → con.id = id → con.id < old → removable con.status = true
  | .cleanup id => id < db.nextId ∧ ∀ con, db.container = some con → con.id = id → con.status ≠ .created
  | .idle | .get | .pendingGet | .heartbeat | .stopGet | .stop _ | .list => True

structure Later (old : ℕ) (db db' : Db) : Prop where
  nextId : db.nextId ≤ db'.nextId
  current : ∀ con', db'.container = some con' → con'.id = db.nextId ∨
    ∃ con, db.container = some con ∧ con.id = con'.id ∧ (con'.status = .created → con.status = .created) ∧
      (con.id < old → removable con.status = true → removable con'.status = true)

def Pc.Responsible (db : Db) (pc : Pc) : Prop :=
  pc.works = true ∨ ∃ id s, pc = .start id ∧ db.container = some ⟨id,s⟩

def Db.Runs (db : Db) : Prop := ∃ id, db.container = some ⟨id,.running⟩

/-- A container that has been made meanwhile runs, is about to be started by its maker, or has been stopped by a
call that goes on. -/
def Owned (pcs : ℕ → Pc) (con : Container) : Prop :=
  con.status = .running ∨ (con.status = .created ∧ ∃ q, pcs q = .start con.id) ∨
    con.status = .exited ∧ ∃ q, pcs q = .stopRemove con.id

structure Sound (m : Messenger) (account old : ℕ) (c : Config Db Pc) : Prop where
  base : Base old c.db
  knows : ∀ p, (c.pc p).Knows old c.db
  owned : ∀ con, c.db.container = some con → old ≤ con.id → Owned c.pc con
  answered : ∀ con, c.db.container = some con → old ≤ con.id → con.status = .running →
    started m account ∈ c.db.answers
  untouched : ∀ con, c.db.container = some con → con.id < old → ∀ a ∈ c.db.answers, a = started m account
  covered : (c.db.answers ≠ [] ∨ ∃ p, (c.pc p).isCall = true) → c.db.Runs ∨ ∃ p, (c.pc p).Responsible c.db

section Store

variable {m : Messenger} {account old : ℕ} {db db' : Db} {pc pc' : Pc}

theorem Later.of_container (hcontainer : db'.container = db.container) (hnext : db'.nextId = db.nextId) :
    Later old db db' where
  nextId := Nat.le_of_eq hnext.symm
  current con hcon := .inr ⟨con,hcontainer ▸ hcon,rfl,id,fun _ => id⟩

theorem Later.removed (db : Db) : Later old db db.removed where
  nextId := Nat.le_refl _
  current _ hcon := nomatch hcon

theorem later_of_does (hknows : pc.Knows old db) (h : Does m account db pc db' pc') : Later old db db' := by
  cases h with
  | onward | watch | running | found | fresh | conflict | lost | refused => exact .of_container rfl rfl
  | remove | stopRemove | cleanup => exact .removed db
  | create hnone =>
    refine ⟨Nat.le_succ _,fun con hcon => .inl ?_⟩
    obtain rfl := Option.some.inj hcon
    rfl
  | @start id s hid =>
    refine ⟨Nat.le_refl _,fun con hcon => .inr ⟨_,hid,?_⟩⟩
    obtain rfl := Option.some.inj hcon
    exact ⟨rfl,(fun h => nomatch h),fun hlt => absurd hlt (Nat.not_lt.mpr hknows.1)⟩
  | @stop id s hid =>
    refine ⟨Nat.le_refl _,fun con hcon => .inr ⟨_,hid,?_⟩⟩
    obtain rfl := Option.some.inj hcon
    refine ⟨rfl,fun h => ?_,fun _ _ => removable_stopped s⟩
    cases s with
    | created => rfl
    | _ => cases h

theorem Base.step (hb : Base old db) (h : Does m account db pc db' pc') : Base old db' := by
  cases h with
  | onward | watch | running | found | fresh | conflict | lost | refused => exact ⟨hb.le,hb.below,hb.first⟩
  | remove | stopRemove | cleanup => exact ⟨hb.le,(fun _ h => nomatch h),fun _ h => nomatch h⟩
  | create hnone =>
    refine ⟨Nat.le_succ_of_le hb.le,fun con hcon => ?_,fun con hcon hlt => ?_⟩
    · obtain rfl := Option.some.inj hcon
      exact Nat.lt_succ_self _
    · obtain rfl := Option.some.inj hcon
      exact absurd hlt (Nat.not_lt.mpr hb.le)
  | start hid | stop hid =>
    refine ⟨hb.le,fun con hcon => ?_,fun con hcon hlt => ?_⟩
    · obtain rfl := Option.some.inj hcon
      have hbelow := hb.below _ hid
      exact hbelow
    · obtain rfl := Option.some.inj hcon
      have hfirst := hb.first _ hid hlt
      exact hfirst

theorem knows_of_does (hb : Base old db) (hknows : pc.Knows old db) (h : Does m account db pc db' pc') :
    pc'.Knows old db' := by
  cases h with
  | onward h =>
    cases pc' with
    | remove id =>
      intro con hcon _
      obtain ⟨s,hs⟩ := h.seen id rfl
      obtain rfl := Option.some.inj (hcon.symm.trans hs)
      rfl
    | create =>
      intro con hcon
      rcases h.free rfl with hnone | ⟨id,rfl,hgone⟩
      · rw [hnone] at hcon
        cases hcon
      · by_contra hlt
        exact status_eq_none.mp hgone con hcon (hknows con hcon (Nat.lt_of_not_le hlt))
    | stopRemove id => exact absurd rfl (h.kept id)
    | start | cleanup => cases h.works
    | _ => trivial
  | watch _ hpc' hexited =>
    cases pc' with
    | cleanup id =>
      have hid := hexited id rfl
      refine ⟨hb.below _ hid,fun con hcon _ => ?_⟩
      obtain rfl := Option.some.inj (hcon.symm.trans hid)
      exact fun h => nomatch h
    | remove | create | start | stopRemove => cases hpc'
    | _ => trivial
  | running | found | fresh | conflict | lost | refused | stopRemove | cleanup | start => trivial
  | remove hid => exact fun _ h => nomatch h
  | create hnone => exact ⟨hb.le,Nat.lt_succ_self _⟩
  | @stop id s hid =>
    intro con hcon _ _
    obtain rfl := Option.some.inj hcon
    exact removable_stopped s

theorem Pc.Knows.later (hb : Base old db) (hlater : Later old db db') (h : pc.Knows old db) :
    pc.Knows old db' := by
  have hnext := hlater.nextId
  cases pc with
  | remove id =>
    intro con' hcon' hlt
    rcases hlater.current con' hcon' with hnew | ⟨con,hcon,hid,_⟩
    · exact absurd hlt (Nat.not_lt.mpr (hnew ▸ hb.le))
    · exact hid ▸ h con hcon (hid ▸ hlt)
  | create =>
    intro con' hcon'
    rcases hlater.current con' hcon' with hnew | ⟨con,hcon,hid,_⟩
    · exact hnew ▸ hb.le
    · exact hid ▸ h con hcon
  | start id => exact ⟨h.1,Nat.lt_of_lt_of_le h.2 hnext⟩
  | stopRemove id =>
    intro con' hcon' hid' hlt
    rcases hlater.current con' hcon' with hnew | ⟨con,hcon,hid,_,hremovable⟩
    · exact absurd hlt (Nat.not_lt.mpr (hnew ▸ hb.le))
    · exact hremovable (hid ▸ hlt) (h con hcon (hid.trans hid') (hid ▸ hlt))
  | cleanup id =>
    refine ⟨Nat.lt_of_lt_of_le h.1 hnext,fun con' hcon' hid' hcreated => ?_⟩
    rcases hlater.current con' hcon' with hnew | ⟨con,hcon,hid,hstatus,_⟩
    · exact absurd (hid'.symm.trans hnew) (Nat.ne_of_lt h.1)
    · exact h.2 con hcon (hid.trans hid') (hstatus hcreated)
  | _ => trivial

end Store

section Runs

variable {m : Messenger} {account old p : ℕ} {c c' : Config Db Pc} {db' : Db} {pc' : Pc} {con : Container}

theorem exists_update {pcs : ℕ → Pc} {P : Pc → Prop} (hp : ¬ P (pcs p)) (h : ∃ q, P (pcs q)) (pc' : Pc) :
    ∃ q, P (Function.update pcs p pc' q) := by
  obtain ⟨q,hq⟩ := h
  have hne : q ≠ p := by
    rintro rfl
    exact hp hq
  exact ⟨q,by rwa [Function.update_of_ne hne]⟩

theorem Owned.update (h : Owned c.pc con) (hstart : c.pc p ≠ .start con.id)
    (hstop : c.pc p ≠ .stopRemove con.id) (pc' : Pc) : Owned (Function.update c.pc p pc') con := by
  rcases h with h | ⟨h,howner⟩ | ⟨h,howner⟩
  · exact .inl h
  · exact .inr (.inl ⟨h,exists_update (P := fun pc => pc = .start con.id) hstart howner pc'⟩)
  · exact .inr (.inr ⟨h,exists_update (P := fun pc => pc = .stopRemove con.id) hstop howner pc'⟩)

theorem Sound.owned_step (hs : Sound m account old c) (h : Does m account c.db (c.pc p) db' pc')
    (hcon : db'.container = some con) (hold : old ≤ con.id) : Owned (Function.update c.pc p pc') con := by
  generalize hpc : c.pc p = pc at h
  cases h with
  | onward h =>
    refine (hs.owned con hcon hold).update (hpc ▸ h.unstarted con.id) (fun hstop => ?_) pc'
    exact status_eq_none.mp (h.gone con.id (hpc.symm.trans hstop)) con hcon rfl
  | watch hcall =>
    rw [← hpc] at hcall
    refine (hs.owned con hcon hold).update (fun h => ?_) (fun h => ?_) pc' <;>
    · rw [h] at hcall
      cases hcall
  | running | found | fresh | conflict => exact (hs.owned con hcon hold).update (by simp [hpc]) (by simp [hpc]) _
  | @lost id hgone =>
    refine (hs.owned con hcon hold).update (fun h => ?_) (by simp [hpc]) _
    exact status_eq_none.mp hgone con hcon (Pc.start.inj (hpc.symm.trans h)).symm
  | refused hid hr =>
    obtain rfl := Option.some.inj (hcon.symm.trans hid)
    rcases hs.owned _ hid hold with h | ⟨h,_⟩ | ⟨h,_⟩
    · exact .inl h
    · subst h
      cases hr
    · subst h
      cases hr
  | remove | stopRemove | cleanup => cases hcon
  | create =>
    obtain rfl := Option.some.inj hcon
    exact .inr (.inl ⟨rfl,p,Function.update_self ..⟩)
  | start =>
    obtain rfl := Option.some.inj hcon
    exact .inl rfl
  | @stop id s hid =>
    obtain rfl := Option.some.inj hcon
    rcases hs.owned _ hid hold with h | ⟨h,howner⟩ | ⟨h,_⟩
    · subst h
      exact .inr (.inr ⟨rfl,p,Function.update_self ..⟩)
    · subst h
      have hp : c.pc p ≠ .start id := by simp [hpc]
      exact .inr (.inl ⟨rfl,exists_update (P := fun pc => pc = .start id) hp howner _⟩)
    · subst h
      exact .inr (.inr ⟨rfl,p,Function.update_self ..⟩)

theorem Sound.answered_step (hs : Sound m account old c) (h : Does m account c.db (c.pc p) db' pc')
    (hcon : db'.container = some con) (hold : old ≤ con.id) (hrunning : con.status = .running) :
    started m account ∈ db'.answers := by
  generalize c.pc p = pc at h
  cases h with
  | onward | watch | running => exact hs.answered con hcon hold hrunning
  | found | fresh | conflict | lost | refused => exact List.mem_cons_of_mem _ (hs.answered con hcon hold hrunning)
  | remove | stopRemove | cleanup => cases hcon
  | create =>
    obtain rfl := Option.some.inj hcon
    cases hrunning
  | start => exact List.mem_cons_self
  | @stop id s hid =>
    obtain rfl := Option.some.inj hcon
    cases s <;> cases hrunning

/-- As long as the container from before is there, every call answers its address. -/
theorem Sound.untouched_step (hs : Sound m account old c) (h : Does m account c.db (c.pc p) db' pc')
    (hcon : db'.container = some con) (hold : con.id < old) : ∀ a ∈ db'.answers, a = started m account := by
  have hknows := hs.knows p
  generalize c.pc p = pc at h hknows
  cases h with
  | onward | watch | running => exact hs.untouched con hcon hold
  | found | fresh => exact List.forall_mem_cons.mpr ⟨rfl,hs.untouched con hcon hold⟩
  | conflict => exact absurd hold (Nat.not_lt.mpr (hknows con hcon))
  | lost =>
    obtain ⟨hle,hlt⟩ := hknows
    have hfirst := hs.base.first con hcon hold
    omega
  | refused hid hr =>
    obtain rfl := Option.some.inj (hcon.symm.trans hid)
    have hremovable := hknows _ hid rfl hold
    rw [hr] at hremovable
    cases hremovable
  | remove | stopRemove | cleanup => cases hcon
  | create =>
    obtain rfl := Option.some.inj hcon
    exact absurd hold (Nat.not_lt.mpr hs.base.le)
  | start =>
    obtain rfl := Option.some.inj hcon
    exact absurd hold (Nat.not_lt.mpr hknows.1)
  | stop hid =>
    obtain rfl := Option.some.inj hcon
    exact hs.untouched _ hid hold

theorem Pc.Responsible.of_container {db db' : Db} {pc : Pc} (h : pc.Responsible db)
    (hcontainer : db'.container = db.container) : pc.Responsible db' :=
  h.imp_right fun ⟨id,s,hpc,hid⟩ => ⟨id,s,hpc,hcontainer.trans hid⟩

theorem Owned.covers {db : Db} {pcs : ℕ → Pc} (h : Owned pcs con) (hcon : db.container = some con) :
    db.Runs ∨ ∃ q, (pcs q).Responsible db := by
  obtain ⟨id,s⟩ := con
  rcases h with rfl | ⟨rfl,q,hq⟩ | ⟨rfl,q,hq⟩
  · exact .inl ⟨id,hcon⟩
  · exact .inr ⟨q,.inr ⟨id,.created,hq,hcon⟩⟩
  · exact .inr ⟨q,.inl (by rw [hq]; rfl)⟩

/-- The others still make sure of the container when `p` has not. -/
theorem covered_of_others (hcontainer : db'.container = c.db.container) (hp : ¬ (c.pc p).Responsible c.db)
    (h : c.db.Runs ∨ ∃ q, (c.pc q).Responsible c.db) (pc' : Pc) :
    db'.Runs ∨ ∃ q, (Function.update c.pc p pc' q).Responsible db' := by
  rcases h with ⟨id,hid⟩ | howner
  · exact .inl ⟨id,hcontainer.trans hid⟩
  · obtain ⟨q,hq⟩ := exists_update hp howner pc'
    exact .inr ⟨q,hq.of_container hcontainer⟩

/-- The cleanup removes a container that does not run; who has made sure of it until then works on. -/
theorem Sound.covered_cleanup (hs : Sound m account old c) {id : ℕ} {s : ContainerStatus}
    (hpc : c.pc p = .cleanup id) (hid : c.db.container = some ⟨id,s⟩) (hr : removable s = true)
    (h : c.db.Runs ∨ ∃ q, (c.pc q).Responsible c.db) : ∃ q, (c.pc q).works = true := by
  rcases h with ⟨i,hi⟩ | ⟨q,hworks | ⟨i,s',hq,hi⟩⟩
  · obtain ⟨rfl,rfl⟩ := Container.mk.inj (Option.some.inj (hid.symm.trans hi))
    cases hr
  · exact ⟨q,hworks⟩
  · obtain ⟨rfl,rfl⟩ := Container.mk.inj (Option.some.inj (hid.symm.trans hi))
    have hstart := hs.knows q
    have hcleanup := hs.knows p
    rw [hq] at hstart
    rw [hpc] at hcleanup
    rcases hs.owned _ hid hstart.1 with h | ⟨h,_⟩ | ⟨_,r,hstop⟩
    · subst h
      cases hr
    · exact absurd h (hcleanup.2 _ hid rfl)
    · exact ⟨r,by rw [hstop]; rfl⟩

theorem Sound.covered_step (hs : Sound m account old c) (h : Does m account c.db (c.pc p) db' pc')
    (hcalled : db'.answers ≠ [] ∨ ∃ q, (Function.update c.pc p pc' q).isCall = true) :
    db'.Runs ∨ ∃ q, (Function.update c.pc p pc' q).Responsible db' := by
  have hknows := hs.knows p
  have mover (h : pc'.Responsible db') : ∃ q, (Function.update c.pc p pc' q).Responsible db' :=
    ⟨p,by rwa [Function.update_self]⟩
  have called (hcall : (c.pc p).isCall = true) : c.db.Runs ∨ ∃ q, (c.pc q).Responsible c.db :=
    hs.covered (.inr ⟨p,hcall⟩)
  -- a process that makes no call has nothing to do with what is called
  have watching (hcall' : pc'.isCall = false) (hanswers : db'.answers = c.db.answers) :
      c.db.Runs ∨ ∃ q, (c.pc q).Responsible c.db := by
    refine hs.covered (hcalled.imp (fun h => hanswers ▸ h) fun ⟨q,hq⟩ => ?_)
    by_cases hqp : q = p
    · rw [hqp,Function.update_self,hcall'] at hq
      cases hq
    · exact ⟨q,by rwa [Function.update_of_ne hqp] at hq⟩
  have owned (con : Container) (hcon : db'.container = some con) (hold : old ≤ con.id) :
      Owned (Function.update c.pc p pc') con := hs.owned_step h hcon hold
  generalize hpc : c.pc p = pc at h hknows
  cases h with
  | onward h => exact .inr (mover (.inl h.works))
  | watch hcall hcall' =>
    refine covered_of_others rfl ?_ (watching hcall' rfl) pc'
    rw [hpc]
    rintro (hworks | ⟨id,s,rfl,_⟩)
    · cases pc with
      | idle | list | cleanup => cases hworks
      | _ => cases hcall
    · cases hcall
  | running hid => exact .inl ⟨_,hid⟩
  | found hid => exact .inl ⟨_,hid⟩
  | fresh =>
    refine covered_of_others container_answer ?_ (called (by rw [hpc]; rfl)) _
    rw [hpc]
    rintro (hworks | ⟨id,s,h,_⟩)
    · cases hworks
    · cases h
  | conflict hcon => exact (owned _ hcon (hknows _ hcon)).covers hcon
  | lost hgone =>
    refine covered_of_others container_answer ?_ (called (by rw [hpc]; rfl)) _
    rw [hpc]
    rintro (hworks | ⟨id,s,h,hid⟩)
    · cases hworks
    · obtain rfl := Pc.start.inj h
      exact status_eq_none.mp hgone _ hid rfl
  | @refused id s hid hr =>
    have hold : old ≤ id := by
      by_contra hlt
      have hremovable := hknows _ hid rfl (Nat.lt_of_not_le hlt)
      rw [hr] at hremovable
      cases hremovable
    exact (owned _ hid hold).covers hid
  | remove | stopRemove => exact .inr (mover (.inl rfl))
  | cleanup hid hr =>
    have hworks := hs.covered_cleanup hpc hid hr (watching rfl rfl)
    have hp : (c.pc p).works ≠ true := by simp [hpc,Pc.works]
    obtain ⟨q,hq⟩ := exists_update (P := fun pc => pc.works = true) hp hworks .idle
    exact .inr ⟨q,.inl hq⟩
  | create => exact .inr (mover (.inr ⟨_,_,rfl,rfl⟩))
  | start => exact .inl ⟨_,rfl⟩
  | stop => exact .inr (mover (.inl rfl))

theorem Sound.next (hs : Sound m account old c) {move : Move Input} (hsteady : steady c move)
    (h : next (machine m account) c move = some c') : Sound m account old c' := by
  obtain ⟨p,inp⟩ := move
  obtain ⟨db',pc',hstep,rfl⟩ := next_eq_some.mp h
  have hdoes : Does m account c.db (c.pc p) db' pc' := by
    obtain ⟨rfl,rfl⟩ := Prod.mk.inj (Option.some.inj hstep)
    exact does_of_step hsteady.1 hsteady.2
  have hlater := later_of_does (hs.knows p) hdoes
  refine ⟨hs.base.step hdoes,fun q => ?_,fun con hcon hold => hs.owned_step hdoes hcon hold,
    fun con hcon hold hrunning => hs.answered_step hdoes hcon hold hrunning,
    fun con hcon hold => hs.untouched_step hdoes hcon hold,hs.covered_step hdoes⟩
  by_cases hq : q = p
  · subst hq
    simp only [Function.update_self]
    exact knows_of_does hs.base (hs.knows q) hdoes
  · simp only [Function.update_of_ne hq]
    exact (hs.knows q).later hs.base hlater

theorem Initial.sound (h : Initial c) : Sound m account c.db.nextId c where
  base := ⟨Nat.le_refl _,h.numbered,fun _ _ _ => rfl⟩
  knows := by
    intro p
    rw [h.idle p]
    trivial
  owned := fun con hcon hold => absurd (h.numbered con hcon) (Nat.not_lt.mpr hold)
  answered := fun con hcon hold => absurd (h.numbered con hcon) (Nat.not_lt.mpr hold)
  untouched := by
    intro con _ _ a ha
    rw [h.unanswered] at ha
    cases ha
  covered := by
    rintro (hcalled | ⟨p,hp⟩)
    · exact absurd h.unanswered hcalled
    · rw [h.idle p] at hp
      cases hp

theorem Pc.Responsible.isCall {db : Db} {pc : Pc} (h : pc.Responsible db) : pc.isCall = true := by
  rcases h with hworks | ⟨id,s,rfl,_⟩
  · cases pc with
    | idle | list | cleanup => cases hworks
    | _ => rfl
  · rfl

/-- However the calls for an account come between each other: when none is under way any more the container
runs, and one of them has answered its address. -/
theorem container_runs_after_calls (hc : Initial c) (h : Reaches (machine m account) steady c c')
    (hcalled : c'.db.answers ≠ []) (hended : ∀ p, (c'.pc p).isCall = false) :
    c'.db.Runs ∧ started m account ∈ c'.db.answers := by
  have hs : Sound m account c.db.nextId c' :=
    h.invariant (fun _ _ _ hs hsteady hnext => hs.next hsteady hnext) hc.sound
  rcases hs.covered (.inl hcalled) with ⟨id,hid⟩ | ⟨p,hp⟩
  · refine ⟨⟨id,hid⟩,?_⟩
    by_cases hold : c.db.nextId ≤ id
    · exact hs.answered _ hid hold rfl
    · obtain ⟨a,ha⟩ := List.exists_mem_of_ne_nil _ hcalled
      exact hs.untouched _ hid (Nat.lt_of_not_le hold) a ha ▸ ha
  · have hcall := hp.isCall
    rw [hended p] at hcall
    cases hcall

end Runs

def exited : Config Db Pc where
  db := ⟨some ⟨0,.exited⟩,1,[]⟩
  pc := fun _ => .idle

def call (p : ℕ) : Move Input := (p,⟨.startContainer,false,false⟩)

/-- The second call removes the container that the first one has made and not yet started. -/
def removedBeforeStart : List (Move Input) :=
  [call 0,call 0,call 0,call 0,call 1,call 1,call 1,call 0,call 1,call 1]

theorem container_runs_after_calls_removed :
    (after (machine .max 5) steady exited removedBeforeStart).db.Runs ∧
      started .max 5 ∈ (after (machine .max 5) steady exited removedBeforeStart).db.answers := by
  refine container_runs_after_calls ⟨fun _ => rfl,rfl,?_⟩ (reaches_after _ steady exited removedBeforeStart) ?_ ?_
  · intro con hcon
    obtain rfl := Option.some.inj hcon
    exact Nat.zero_lt_one
  · exact List.cons_ne_nil _ _
  · intro p
    match p with
    | 0 => rfl
    | 1 => rfl
    | p+2 => rfl

/-- The second call meets the name in use. For WhatsApp it answers nothing. -/
def nameInUse : List (Move Input) := [call 0,call 0,call 0,call 1,call 1,call 0,call 1,call 0]

example : (after (machine .wa 5) steady exited nameInUse).db.answers = [started .wa 5,.ok none] ∧
    (after (machine .max 5) steady exited nameInUse).db.answers = [started .max 5,started .max 5] := ⟨rfl,rfl⟩

end ContainerRaces
end Broadcaster
