import Broadcaster.Interleaving
import Broadcaster.OpsState
import Mathlib.Data.List.Perm.Subperm

/-!
# Dropping one task

`drop_task` reads the beginning of the queue and then removes the bytes it has
found, while the account worker takes tasks from the front, puts them back at
the end, and the dispatcher adds new ones. Every request is a process of its
own; what the worker has in its hand is part of the shared state.
-/

namespace Broadcaster
namespace DropTask

open Interleaving OpsState

variable {Raw : Type}

inductive Outcome
  | removed | missing | unavailable
  deriving DecidableEq

/-- What the account worker has popped and not yet done with. -/
inductive Hand (Raw : Type)
  | empty
  | popped (raw : Raw)
  | attempted (raw : Raw)

def Hand.toList : Hand Raw → List Raw
  | .empty => []
  | .popped raw | .attempted raw => [raw]

structure Shared (Raw : Type) where
  queue : List Raw
  hand : Hand Raw
  /-- The ids for which the worker has made attempts. -/
  attempts : List (Option String)
  /-- The ids of all tasks that were ever in the queue. -/
  used : List String
  /-- The queue at the beginning and after every move. -/
  moments : List (List Raw)

inductive Pc (Raw : Type)
  | worker
  | dispatcher
  | read (taskId : String)
  | lrem (taskId : String) (target : Raw) (readAt : ℕ)
  | answered (taskId : String) (outcome : Outcome) (readAt : ℕ)
  | raised
  deriving DecidableEq

inductive Input (Raw : Type)
  | go
  | notDue
  | skip
  | attempt
  /-- A failed attempt: the task with another count and another delay -/
  | retry (raw : Raw)
  | finish
  | dispatch (raw : Raw)
  | lost (applied : Bool)

namespace Shared

variable (s : Shared Raw)

def record : Shared Raw := { s with moments := s.moments ++ [s.queue] }

def push (raw : Raw) : Shared Raw := { s with queue := s.queue ++ [raw] }

/-- `LREM key 1 target` -/
def lrem [DecidableEq Raw] (target : Raw) : Shared Raw := { s with queue := s.queue.erase target }

def tasks : List Raw := s.queue ++ s.hand.toList

end Shared

section Machine

variable (loads : Loads Raw)

/-- `start_consumer` and `process_task`, as far as the queue is concerned -/
def work (s : Shared Raw) (inp : Input Raw) : Option (Shared Raw) :=
  match s.hand,inp with
  | .empty,.go =>
    match s.queue with
    | [] => none
    | raw::rest => some { s with queue := rest, hand := .popped raw }
  | .popped raw,.notDue => some { s.push raw with hand := .empty }
  | .popped _,.skip => some { s with hand := .empty }
  | .popped raw,.attempt => some { s with hand := .attempted raw, attempts := s.attempts ++ [taskIdOf loads raw] }
  | .attempted raw,.retry raw' =>
    if taskIdOf loads raw' = taskIdOf loads raw then some { s.push raw' with hand := .empty } else none
  | .attempted _,.finish => some { s with hand := .empty }
  | _,_ => none

def dispatch (s : Shared Raw) (raw : Raw) : Option (Shared Raw) :=
  match taskIdOf loads raw with
  | some id => if id ∈ s.used then none else some { s.push raw with used := s.used ++ [id] }
  | none => none

/-- The two steps of `drop_task`; a connection may be lost before or after a command has been carried out. -/
def drop [DecidableEq Raw] (s : Shared Raw) (pc : Pc Raw) (inp : Input Raw) : Option (Shared Raw × Pc Raw) :=
  match pc,inp with
  | .read taskId,.go =>
    match findTask loads taskId (readRaw s.queue queueReadLimit).2 with
    | .error _ => some (s,.raised)
    | .ok none => some (s,.answered taskId .missing s.moments.length)
    | .ok (some target) => some (s,.lrem taskId target s.moments.length)
  | .read taskId,.lost _ => some (s,.answered taskId .unavailable s.moments.length)
  | .lrem taskId target readAt,.go =>
    if target ∈ s.queue then some (s.lrem target,.answered taskId .removed readAt)
    else some (s,.answered taskId .missing readAt)
  | .lrem taskId target readAt,.lost applied =>
    some (if applied then s.lrem target else s,.answered taskId .unavailable readAt)
  | _,_ => none

def machine [DecidableEq Raw] : Machine (Shared Raw) (Pc Raw) (Input Raw) where
  step s _ pc inp :=
    match pc with
    | .worker => (work loads s inp).map fun s' => (s'.record,.worker)
    | .dispatcher =>
      match inp with
      | .dispatch raw => (dispatch loads s raw).map fun s' => (s'.record,.dispatcher)
      | _ => none
    | pc => (drop loads s pc inp).map fun r => (r.1.record,r.2)

def ids (raws : List Raw) : List String := raws.filterMap (taskIdOf loads)

/-- The worker, the dispatcher and any number of requests before their first step. -/
def Pc.Starts : Pc Raw → Prop
  | .worker | .dispatcher | .read _ => True
  | _ => False

def started (queue : List Raw) (roles : ℕ → Pc Raw) : Config (Shared Raw) (Pc Raw) :=
  ⟨⟨queue,.empty,[],ids loads queue,[queue]⟩,roles⟩

/-- A request that reads does not find its task behind what it reads. -/
def visible (c : Config (Shared Raw) (Pc Raw)) (m : Move (Input Raw)) : Prop :=
  match c.pc m.1 with
  | .read taskId => taskId ∉ ids loads (c.db.queue.drop queueReadLimit)
  | _ => True

instance (c : Config (Shared Raw) (Pc Raw)) (m : Move (Input Raw)) : Decidable (visible loads c m) := by
  unfold visible
  split <;> infer_instance

end Machine

inductive Moved (loads : Loads Raw) (s s' : Shared Raw) : Prop
  | kept (hids : (ids loads s'.tasks).Subperm (ids loads s.tasks)) (hused : s'.used = s.used)
      (hattempts : s'.attempts = s.attempts)
  | attempt (raw : Raw) (hmem : raw ∈ s.tasks) (hids : ids loads s'.tasks = ids loads s.tasks)
      (hused : s'.used = s.used) (hattempts : s'.attempts = s.attempts ++ [taskIdOf loads raw])
  | dispatch (id : String) (hfresh : id ∉ s.used) (hids : (ids loads s'.tasks).Perm (id::ids loads s.tasks))
      (hused : s'.used = s.used ++ [id]) (hattempts : s'.attempts = s.attempts)

/-- Something is added at the end of the queue, or one element goes, or nothing happens to it. -/
inductive Requeued (s s' : Shared Raw) : Prop
  | same (h : s'.queue = s.queue)
  | added (raw : Raw) (h : s'.queue = s.queue ++ [raw])
  | gone (raw : Raw) (h : s.queue.Perm (raw::s'.queue))

structure Effect (loads : Loads Raw) (s s' : Shared Raw) : Prop where
  moved : Moved loads s s'
  requeued : Requeued s s'
  moments : s'.moments = s.moments

section Moves

variable {loads : Loads Raw} {s s' : Shared Raw} {inp : Input Raw} {raw : Raw}

theorem ids_subperm {raws raws' : List Raw} (h : raws.Subperm raws') : (ids loads raws).Subperm (ids loads raws') := by
  obtain ⟨part,hperm,hsub⟩ := h
  exact ⟨ids loads part,hperm.filterMap _,hsub.filterMap _⟩

theorem ids_replaced {raw' : Raw} (queue : List Raw) (h : taskIdOf loads raw' = taskIdOf loads raw) :
    ids loads (queue ++ [raw']) = ids loads (queue ++ [raw]) := by
  unfold ids
  rw [List.filterMap_append,List.filterMap_append]
  simp [List.filterMap_cons,h]

theorem emptied_moved (loads : Loads Raw) (s : Shared Raw) : Effect loads s { s with hand := .empty } := by
  refine ⟨.kept (ids_subperm ?_) rfl rfl,.same rfl,rfl⟩
  simp only [Shared.tasks,Hand.toList,List.append_nil]
  exact (List.sublist_append_left _ _).subperm

theorem putBack_moved {raw' : Raw} (hhand : s.hand.toList = [raw]) (hid : taskIdOf loads raw' = taskIdOf loads raw) :
    Effect loads s { s.push raw' with hand := .empty } := by
  have htasks : s.tasks = s.queue ++ [raw] := by
    rw [Shared.tasks,hhand]
  refine ⟨.kept ?_ rfl rfl,.added raw' rfl,rfl⟩
  rw [htasks,← ids_replaced s.queue hid]
  simp [Shared.tasks,Shared.push,Hand.toList,List.Subperm.refl]

theorem work_moved (h : work loads s inp = some s') : Effect loads s s' := by
  unfold work at h
  cases hhand : s.hand with
  | empty =>
    cases inp with
    | go =>
      cases hq : s.queue with
      | nil => simp [hhand,hq] at h
      | cons raw rest =>
        simp only [hhand,hq,Option.some.injEq] at h
        subst h
        refine ⟨.kept (ids_subperm ?_) rfl rfl,.gone raw (by rw [hq]),rfl⟩
        simp only [Shared.tasks,hhand,hq,Hand.toList,List.append_nil]
        exact List.perm_append_comm.subperm
    | _ => simp [hhand] at h
  | popped raw =>
    have hlist : s.hand.toList = [raw] := by
      rw [hhand,Hand.toList]
    cases inp with
    | notDue =>
      simp only [hhand,Option.some.injEq] at h
      subst h
      exact putBack_moved hlist rfl
    | skip =>
      simp only [hhand,Option.some.injEq] at h
      subst h
      exact emptied_moved loads s
    | attempt =>
      simp only [hhand,Option.some.injEq] at h
      subst h
      refine ⟨.attempt raw (by simp [Shared.tasks,hlist]) ?_ rfl rfl,.same rfl,rfl⟩
      rw [Shared.tasks,Shared.tasks,hlist]
      rfl
    | _ => simp [hhand] at h
  | attempted raw =>
    cases inp with
    | retry raw' =>
      simp only [hhand] at h
      split at h
      · rename_i hid
        cases h
        exact putBack_moved (by rw [hhand,Hand.toList]) hid
      · cases h
    | finish =>
      simp only [hhand,Option.some.injEq] at h
      subst h
      exact emptied_moved loads s
    | _ => simp [hhand] at h

theorem dispatch_moved (h : dispatch loads s raw = some s') : Effect loads s s' := by
  unfold dispatch at h
  cases hid : taskIdOf loads raw with
  | none => simp [hid] at h
  | some id =>
    simp only [hid] at h
    split at h
    · cases h
    · rename_i hfresh
      cases h
      refine ⟨.dispatch id hfresh ?_ rfl rfl,.added raw rfl,rfl⟩
      have hperm : ((s.queue ++ [raw]) ++ s.hand.toList).Perm (raw::(s.queue ++ s.hand.toList)) := by
        rw [List.append_assoc]
        exact List.perm_middle
      have hids := hperm.filterMap (taskIdOf loads)
      rw [List.filterMap_cons_some hid] at hids
      exact hids

variable [DecidableEq Raw] {pc pc' : Pc Raw}

theorem lrem_moved (loads : Loads Raw) (s : Shared Raw) (target : Raw) :
    Effect loads s (s.lrem target) := by
  refine ⟨.kept (ids_subperm ?_) rfl rfl,?_,rfl⟩
  · exact (List.erase_sublist.append_right s.hand.toList).subperm
  · by_cases hmem : target ∈ s.queue
    · exact .gone target (List.perm_cons_erase hmem)
    · exact .same (List.erase_of_not_mem hmem)

theorem drop_moved (h : drop loads s pc inp = some (s',pc')) : Effect loads s s' := by
  have hsame : Effect loads s s := ⟨.kept (List.Subperm.refl _) rfl rfl,.same rfl,rfl⟩
  unfold drop at h
  split at h
  · split at h
    · cases h
      exact hsame
    · cases h
      exact hsame
    · cases h
      exact hsame
  · cases h
    exact hsame
  · split at h
    · cases h
      exact lrem_moved loads s _
    · cases h
      exact hsame
  · rename_i applied
    cases applied with
    | false =>
      cases h
      exact hsame
    | true =>
      cases h
      exact lrem_moved loads s _
  · cases h

theorem step_cases {i : ℕ} (h : (machine loads).step s i pc inp = some (s',pc')) :
    (pc' = .worker ∧ ∃ s₁, work loads s inp = some s₁ ∧ s' = s₁.record) ∨
    (pc' = .dispatcher ∧ ∃ raw s₁, dispatch loads s raw = some s₁ ∧ s' = s₁.record) ∨
    ∃ s₁, drop loads s pc inp = some (s₁,pc') ∧ s' = s₁.record := by
  simp only [machine] at h
  split at h
  · obtain ⟨s₁,hwork,hs⟩ := Option.map_eq_some_iff.mp h
    cases hs
    exact .inl ⟨rfl,s₁,hwork,rfl⟩
  · split at h
    · obtain ⟨s₁,hdispatch,hs⟩ := Option.map_eq_some_iff.mp h
      cases hs
      exact .inr (.inl ⟨rfl,_,s₁,hdispatch,rfl⟩)
    · cases h
  · obtain ⟨⟨s₁,pc₁⟩,hdrop,hs⟩ := Option.map_eq_some_iff.mp h
    cases hs
    exact .inr (.inr ⟨s₁,hdrop,rfl⟩)

theorem step_moved {i : ℕ} (h : (machine loads).step s i pc inp = some (s',pc')) :
    Moved loads s s' ∧ Requeued s s' ∧ s'.moments = s.moments ++ [s'.queue] := by
  have hrecord : ∀ s₁, Effect loads s s₁ → Moved loads s s₁.record ∧ Requeued s s₁.record ∧
      s₁.record.moments = s.moments ++ [s₁.record.queue] := by
    intro s₁ heffect
    refine ⟨?_,?_,by simp [Shared.record,heffect.moments]⟩
    · cases heffect.moved with
      | kept hids hused hattempts => exact .kept hids hused hattempts
      | attempt raw hmem hids hused hattempts => exact .attempt raw hmem hids hused hattempts
      | dispatch id hfresh hids hused hattempts => exact .dispatch id hfresh hids hused hattempts
    · cases heffect.requeued with
      | same h => exact .same h
      | added raw h => exact .added raw h
      | gone raw h => exact .gone raw h
  rcases step_cases h with ⟨_,s₁,hwork,rfl⟩ | ⟨_,raw,s₁,hdispatch,rfl⟩ | ⟨s₁,hdrop,rfl⟩
  · exact hrecord s₁ (work_moved hwork)
  · exact hrecord s₁ (dispatch_moved hdispatch)
  · exact hrecord s₁ (drop_moved hdrop)

end Moves

structure Distinct (loads : Loads Raw) (s : Shared Raw) : Prop where
  nodup : (ids loads s.tasks).Nodup
  used : ∀ id ∈ ids loads s.tasks, id ∈ s.used

def AbsentSince (loads : Loads Raw) (id : String) (k : ℕ) (moments : List (List Raw)) : Prop :=
  ∃ n q, k ≤ n ∧ moments[n]? = some q ∧ id ∉ ids loads q

/-- The task is nowhere any more, and no attempt has been made since. -/
structure Gone (loads : Loads Raw) (id : String) (attempts : ℕ) (s : Shared Raw) : Prop where
  absent : id ∉ ids loads s.tasks
  used : id ∈ s.used
  count : s.attempts.count (some id) = attempts

section Invariants

variable {loads : Loads Raw} {s s' : Shared Raw} {id : String} {k : ℕ} {raw : Raw}

theorem Distinct.moved (h : Distinct loads s) (hmoved : Moved loads s s') : Distinct loads s' := by
  cases hmoved with
  | kept hids hused _ =>
    obtain ⟨part,hperm,hsub⟩ := hids
    refine ⟨hperm.nodup_iff.mp (h.nodup.sublist hsub),?_⟩
    intro id hid
    rw [hused]
    exact h.used id (hsub.subset (hperm.mem_iff.mpr hid))
  | attempt _ _ hids hused _ =>
    refine ⟨by rw [hids]; exact h.nodup,?_⟩
    intro id hid
    rw [hids] at hid
    rw [hused]
    exact h.used id hid
  | dispatch new hfresh hids hused _ =>
    refine ⟨hids.nodup_iff.mpr (List.nodup_cons.mpr ⟨fun hmem => hfresh (h.used new hmem),h.nodup⟩),?_⟩
    intro id hid
    rw [hused,List.mem_append]
    rcases List.mem_cons.mp (hids.mem_iff.mp hid) with rfl | hmem
    · exact .inr (List.mem_singleton.mpr rfl)
    · exact .inl (h.used id hmem)

theorem Gone.moved {n : ℕ} (h : Gone loads id n s) (hmoved : Moved loads s s') : Gone loads id n s' := by
  cases hmoved with
  | kept hids hused hattempts =>
    exact ⟨fun hmem => h.absent (hids.subset hmem),hused ▸ h.used,hattempts ▸ h.count⟩
  | attempt raw hmem hids hused hattempts =>
    refine ⟨hids ▸ h.absent,hused ▸ h.used,?_⟩
    have hne : taskIdOf loads raw ≠ some id := fun hid =>
      h.absent (List.mem_filterMap.mpr ⟨raw,hmem,hid⟩)
    rw [hattempts,List.count_append,h.count,List.count_singleton]
    simp [hne]
  | dispatch new hfresh hids hused hattempts =>
    refine ⟨?_,by rw [hused]; exact List.mem_append_left _ h.used,hattempts ▸ h.count⟩
    intro hmem
    rcases List.mem_cons.mp (hids.mem_iff.mp hmem) with rfl | hold
    · exact hfresh h.used
    · exact h.absent hold

theorem AbsentSince.append (h : AbsentSince loads id k s.moments) (q : List Raw) :
    AbsentSince loads id k (s.moments ++ [q]) := by
  obtain ⟨n,old,hk,hn,hid⟩ := h
  obtain ⟨hlt,_⟩ := List.getElem?_eq_some_iff.mp hn
  exact ⟨n,old,hk,by rw [List.getElem?_append_left hlt]; exact hn,hid⟩

theorem absentSince_last (hk : k ≤ s.moments.length) {q : List Raw} (hid : id ∉ ids loads q) :
    AbsentSince loads id k (s.moments ++ [q]) :=
  ⟨s.moments.length,q,hk,List.getElem?_concat_length,hid⟩

/-- The bytes that were read are still in the queue, or the task has been out of it. -/
def StillThere (loads : Loads Raw) (s : Shared Raw) (taskId : String) (target : Raw) (readAt : ℕ) : Prop :=
  taskIdOf loads target = some taskId ∧ readAt ≤ s.moments.length ∧
    (target ∈ s.queue ∨ AbsentSince loads taskId readAt s.moments)

theorem not_mem_of_gone (h : Distinct loads s) (hgone : s.queue.Perm (raw::s'.queue))
    (hid : taskIdOf loads raw = some id) : id ∉ ids loads s'.queue := by
  have hnodup : (ids loads s.queue).Nodup := by
    have hall := h.nodup
    rw [Shared.tasks,ids,List.filterMap_append] at hall
    exact (List.nodup_append.mp hall).1
  have hperm := hgone.filterMap (taskIdOf loads)
  rw [List.filterMap_cons_some hid] at hperm
  exact (List.nodup_cons.mp (hperm.nodup_iff.mp hnodup)).1

theorem StillThere.moved {target : Raw} (h : StillThere loads s id target k) (hdistinct : Distinct loads s)
    (hrequeued : Requeued s s') (hmoments : s'.moments = s.moments ++ [s'.queue]) :
    StillThere loads s' id target k := by
  obtain ⟨hid,hk,hplace⟩ := h
  refine ⟨hid,by rw [hmoments,List.length_append]; omega,?_⟩
  rw [hmoments]
  rcases hplace with hmem | habsent
  · cases hrequeued with
    | same h =>
      rw [h]
      exact .inl hmem
    | added raw h =>
      rw [h]
      exact .inl (List.mem_append_left _ hmem)
    | gone raw h =>
      rcases List.mem_cons.mp (h.mem_iff.mp hmem) with rfl | hstays
      · exact .inr (absentSince_last hk (not_mem_of_gone hdistinct h hid))
      · exact .inl hstays
  · exact .inr (habsent.append _)

end Invariants

section Answers

variable {loads : Loads Raw} {queue : List Raw} {roles : ℕ → Pc Raw}
  {c c' : Config (Shared Raw) (Pc Raw)} {i : ℕ} {inp : Input Raw} {id : String} {readAt : ℕ}

/-- What a request knows between its two commands -/
def Assertion (loads : Loads Raw) (s : Shared Raw) (_ : ℕ) : Pc Raw → Prop
  | .lrem taskId target readAt => StillThere loads s taskId target readAt
  | _ => True

theorem asserted_started (hdistinct : (ids loads queue).Nodup) (hroles : ∀ i, (roles i).Starts) :
    Asserted (Distinct loads) (Assertion loads) (started loads queue roles) where
  store := by
    refine ⟨?_,?_⟩
    · simpa [started,Shared.tasks,Hand.toList] using hdistinct
    · intro id hid
      simpa [started,Shared.tasks,Hand.toList] using hid
  process := by
    intro i
    have hstart := hroles i
    change Assertion loads _ i (roles i)
    cases hpc : roles i with
    | lrem =>
      rw [hpc] at hstart
      exact hstart.elim
    | _ => trivial

variable [DecidableEq Raw]

theorem step_lrem {s s' : Shared Raw} {pc : Pc Raw} {target : Raw}
    (h : (machine loads).step s i pc inp = some (s',.lrem id target readAt)) :
    s' = s.record ∧ findTask loads id (s.queue.take queueReadLimit) = .ok (some target) ∧
      readAt = s.moments.length := by
  rcases step_cases h with ⟨hpc,_⟩ | ⟨hpc,_⟩ | ⟨s₁,hdrop,rfl⟩
  · cases hpc
  · cases hpc
  · unfold drop at hdrop
    split at hdrop
    · split at hdrop
      · cases hdrop
      · cases hdrop
      · rename_i hfound
        cases hdrop
        exact ⟨rfl,hfound,rfl⟩
    · cases hdrop
    · split at hdrop <;> cases hdrop
    · cases hdrop
    · cases hdrop

theorem step_answered {s s' : Shared Raw} {pc : Pc Raw} {outcome : Outcome}
    (h : (machine loads).step s i pc inp = some (s',.answered id outcome readAt)) :
    (outcome = .missing ∧ pc = .read id ∧ s' = s.record ∧ readAt = s.moments.length ∧
      findTask loads id (s.queue.take queueReadLimit) = .ok none) ∨
    (outcome = .removed ∧ ∃ target, pc = .lrem id target readAt ∧ target ∈ s.queue ∧
      s' = (s.lrem target).record) ∨
    (outcome = .missing ∧ ∃ target, pc = .lrem id target readAt ∧ target ∉ s.queue ∧ s' = s.record) ∨
    outcome = .unavailable := by
  rcases step_cases h with ⟨hpc,_⟩ | ⟨hpc,_⟩ | ⟨s₁,hdrop,rfl⟩
  · cases hpc
  · cases hpc
  · unfold drop at hdrop
    split at hdrop
    · split at hdrop
      · cases hdrop
      · rename_i hfound
        cases hdrop
        exact .inl ⟨rfl,rfl,rfl,rfl,hfound⟩
      · cases hdrop
    · cases hdrop
      exact .inr (.inr (.inr rfl))
    · split at hdrop
      · rename_i hmem
        cases hdrop
        exact .inr (.inl ⟨rfl,_,rfl,hmem,rfl⟩)
      · rename_i hmem
        cases hdrop
        exact .inr (.inr (.inl ⟨rfl,_,rfl,hmem,rfl⟩))
    · cases hdrop
      exact .inr (.inr (.inr rfl))
    · cases hdrop

theorem assertion_of_step {s s' : Shared Raw} {pc pc' : Pc Raw}
    (h : (machine loads).step s i pc inp = some (s',pc')) : Assertion loads s' i pc' := by
  cases pc' with
  | lrem taskId target readAt =>
    obtain ⟨rfl,hfound,rfl⟩ := step_lrem h
    obtain ⟨hmem,hid⟩ := findTask_some hfound
    exact ⟨hid,by simp [Shared.record],.inl (List.mem_of_mem_take hmem)⟩
  | _ => trivial

theorem asserted {G : Config (Shared Raw) (Pc Raw) → Move (Input Raw) → Prop}
    (hdistinct : (ids loads queue).Nodup) (hroles : ∀ i, (roles i).Starts)
    (hrun : Reaches (machine loads) G (started loads queue roles) c) :
    Asserted (Distinct loads) (Assertion loads) c := by
  refine asserted_of_reaches ?_ ?_ hrun (asserted_started hdistinct hroles)
  · intro c i inp s' pc' hc _ hstep
    obtain ⟨hmoved,_,_⟩ := step_moved hstep
    exact ⟨hc.store.moved hmoved,assertion_of_step hstep⟩
  · intro c i inp s' pc' j hc _ hstep _
    obtain ⟨_,hrequeued,hmoments⟩ := step_moved hstep
    have hj := hc.process j
    cases hpc : c.pc j with
    | lrem taskId target readAt =>
      rw [hpc] at hj
      exact StillThere.moved hj hc.store hrequeued hmoments
    | _ => trivial

theorem gone_of_removed {s : Shared Raw} {target : Raw} (h : Distinct loads s) (hmem : target ∈ s.queue)
    (hid : taskIdOf loads target = some id) : Gone loads id (s.attempts.count (some id)) (s.lrem target).record := by
  have hperm : s.tasks.Perm (target::(s.queue.erase target ++ s.hand.toList)) :=
    (List.perm_cons_erase hmem).append_right s.hand.toList
  have hids := hperm.filterMap (taskIdOf loads)
  rw [List.filterMap_cons_some hid] at hids
  have hnodup := hids.nodup_iff.mp h.nodup
  exact ⟨(List.nodup_cons.mp hnodup).1,h.used id (hids.mem_iff.mpr List.mem_cons_self),rfl⟩

theorem Gone.reaches {n : ℕ} {c d : Config (Shared Raw) (Pc Raw)} (h : Gone loads id n c.db)
    (hd : Reaches (machine loads) anyMove c d) : Gone loads id n d.db := by
  refine hd.invariant (I := fun c => Gone loads id n c.db) ?_ h
  intro e m e' he _ hm
  obtain ⟨_,_,hs,rfl⟩ := next_eq_some.mp hm
  exact he.moved (step_moved hs).1

/-- Where the request has seen the whole queue, its two answers are true: the task has been removed and is
not attempted again, or it was out of the queue at some moment since the request has read. -/
theorem drop_task_tells_the_truth (hdistinct : (ids loads queue).Nodup) (hroles : ∀ i, (roles i).Starts)
    (hrun : Reaches (machine loads) (visible loads) (started loads queue roles) c)
    (hvisible : visible loads c (i,inp)) (hnext : next (machine loads) c (i,inp) = some c') :
    (c'.pc i = .answered id .removed readAt →
      (∃ before raw after, c.db.queue = before ++ raw::after ∧ c'.db.queue = before ++ after ∧
        taskIdOf loads raw = some id) ∧
      ∀ d, Reaches (machine loads) anyMove c' d →
        d.db.attempts.count (some id) = c'.db.attempts.count (some id)) ∧
    (c'.pc i = .answered id .missing readAt →
      ∃ n q, readAt ≤ n ∧ c'.db.moments[n]? = some q ∧ id ∉ ids loads q) := by
  have hc := asserted hdistinct hroles hrun
  obtain ⟨s',pc',hstep,rfl⟩ := next_eq_some.mp hnext
  simp only [Function.update_self]
  constructor
  · rintro rfl
    obtain ⟨hout,_⟩ | ⟨_,target,hpc,hmem,rfl⟩ | ⟨hout,_⟩ | hout := step_answered hstep
    · cases hout
    · have hthere := hc.process i
      rw [hpc] at hthere
      obtain ⟨before,after,_,hsplit,herase⟩ := List.exists_erase_eq hmem
      refine ⟨⟨before,target,after,hsplit,herase,hthere.1⟩,?_⟩
      intro d hd
      have hgone := gone_of_removed hc.store hmem hthere.1
      exact (hgone.reaches hd).count
    · cases hout
    · cases hout
  · rintro rfl
    obtain ⟨_,hpc,rfl,rfl,hfound⟩ | ⟨hout,_⟩ | ⟨_,target,hpc,hmem,rfl⟩ | hout := step_answered hstep
    · -- the whole queue was seen, and the task was not in it
      refine absentSince_last (le_refl _) ?_
      intro hid
      obtain ⟨raw,hraw,hid⟩ := List.mem_filterMap.mp hid
      rw [← List.take_append_drop queueReadLimit c.db.queue] at hraw
      rcases List.mem_append.mp hraw with hfront | hback
      · exact findTask_none hfound raw hfront hid
      · simp only [visible,hpc] at hvisible
        exact hvisible (List.mem_filterMap.mpr ⟨raw,hback,hid⟩)
    · cases hout
    · have hthere := hc.process i
      rw [hpc] at hthere
      obtain ⟨_,_,hplace⟩ := hthere
      rcases hplace with hin | habsent
      · exact absurd hin hmem
      · exact habsent.append _
    · cases hout

end Answers

def bodyHead : List Char := "\x7b\"task_id\": \"".toList

def named (n : ℕ) : List Char := bodyHead ++ n.repr.toList ++ "\"\x7d".toList

/-- `json.loads` of such a body; anything else is taken for garbage. -/
def loadsNamed : Loads (List Char) := fun raw =>
  if bodyHead.isPrefixOf raw then
    .ok (.obj [("task_id",.str (String.ofList (raw.drop bodyHead.length).dropLast.dropLast))])
  else .error .valueError

def request (taskId : String) : ℕ → Pc (List Char)
  | 0 => .read taskId
  | _ => .worker

def begun : Config (Shared (List Char)) (Pc (List Char)) :=
  after (machine loadsNamed) (visible loadsNamed) (started loadsNamed [named 0,named 1] (request "1"))
    [(0,.go),(1,.go),(1,.attempt)]

theorem request_starts (taskId : String) (i : ℕ) : (request taskId i).Starts := by
  cases i <;> trivial

/-- The answer to a request that has its task removed while the worker sends another one -/
theorem drop_task_tells_the_truth_begun : ∃ c', next (machine loadsNamed) begun (0,.go) = some c' ∧
    c'.pc 0 = .answered "1" .removed 1 ∧ begun.db.queue = [named 1] ∧ c'.db.queue = [] ∧
    ∀ d, Reaches (machine loadsNamed) anyMove c' d →
      d.db.attempts.count (some "1") = c'.db.attempts.count (some "1") := by
  have hdistinct : (ids loadsNamed [named 0,named 1]).Nodup := by
    decide +kernel
  have hvisible : visible loadsNamed begun (0,.go) := by
    decide +kernel
  have hmove : ((next (machine loadsNamed) begun (0,.go)).any fun c' =>
      decide (c'.pc 0 = .answered "1" .removed 1 ∧ c'.db.queue = [])) = true := by
    decide +kernel
  obtain ⟨c',hnext,hc'⟩ := (Option.any_eq_true _ _).mp hmove
  obtain ⟨hanswer,hqueue⟩ := of_decide_eq_true hc'
  have htruth := (drop_task_tells_the_truth hdistinct (request_starts "1") (reaches_after _ _ _ _) hvisible
    hnext).1 hanswer
  exact ⟨c',hnext,hanswer,by decide +kernel,hqueue,htruth.2⟩

/-- A task behind the part that is read: it is in the queue all the time, and the answer is that it is not. -/
theorem drop_task_misses_the_last : ¬∀ (queue : List (List Char)) (roles : ℕ → Pc (List Char))
    (c c' : Config (Shared (List Char)) (Pc (List Char))) (i : ℕ) (inp : Input (List Char)) (id : String) (readAt : ℕ),
    (ids loadsNamed queue).Nodup → (∀ i, (roles i).Starts) →
    Reaches (machine loadsNamed) anyMove (started loadsNamed queue roles) c →
    next (machine loadsNamed) c (i,inp) = some c' → c'.pc i = .answered id .missing readAt →
    ∃ n q, readAt ≤ n ∧ c'.db.moments[n]? = some q ∧ id ∉ ids loadsNamed q := by
  intro hall
  have hdistinct : (ids loadsNamed ((List.range 52).map named)).Nodup := by
    decide +kernel
  have hmove : ((next (machine loadsNamed) (started loadsNamed ((List.range 52).map named) (request "51"))
      (0,.go)).any fun c' => decide (c'.pc 0 = .answered "51" .missing 1 ∧
        ∀ q ∈ c'.db.moments, "51" ∈ ids loadsNamed q)) = true := by
    decide +kernel
  obtain ⟨c',hnext,hc'⟩ := (Option.any_eq_true _ _).mp hmove
  obtain ⟨hanswer,hthere⟩ := of_decide_eq_true hc'
  obtain ⟨n,q,_,hq,habsent⟩ := hall _ _ _ c' 0 .go "51" 1 hdistinct (request_starts "51") (Reaches.refl _) hnext hanswer
  exact habsent (hthere q (List.mem_of_getElem? hq))

end DropTask
end Broadcaster
