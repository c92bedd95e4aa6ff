import Broadcaster.AccountWorker
import Mathlib.Data.List.Nodup
import Mathlib.Data.List.Perm.Basic

/-!
# No task is lost or doubled while Redis answers

A task that has left the queue is in the hands of the consumer until it is back
in the queue or has a result.
-/

namespace Broadcaster
namespace AccountWorker

open Python

def Pc.hands : Pc → List Json
  | .requeue t | .waitForRateLimit t | .sendMessage t | .retry t => [t.id]
  | .publish r => [r.id]
  | _ => []

def Worker.places (w : Worker) : List Json :=
  w.queue.map Task.id ++ w.pc.hands ++ w.results.map SendResult.id

/-- Redis commands succeed, and nobody stops the worker. -/
def undisturbed (_ : Worker) : Move → Prop
  | .consumer inp => inp.redis = .ok
  | .signal => False
  | .exit => False

instance (w : Worker) (move : Move) : Decidable (undisturbed w move) := by
  cases move <;> unfold undisturbed <;> infer_instance

variable {m : Messenger} {w w' : Worker} {t : Task} {inp : Input}

@[simp] theorem again_hands (w : Worker) : w.again.pc.hands = [] := by
  unfold Worker.again
  split <;> rfl

@[simp] theorem again_queue (w : Worker) : w.again.queue = w.queue := rfl

theorem result_id (t : Task) (status : Status) (errorMessage : Option String) (noRetry : Bool)
    (now : ℤ) : (result m t status errorMessage noRetry now).id = t.id := rfl

theorem afterSend_hands (t : Task) (now : ℤ) (error : Option String) :
    (afterSend m t now error).hands = [t.id] := by
  cases error with
  | none => rfl
  | some message =>
    rcases afterSend_cases t now message with ⟨noRetry,hpc⟩ | ⟨_,_,delayUntil,hpc⟩ | ⟨_,_,delayUntil,hpc⟩
    all_goals
      rw [hpc]
      rfl

theorem places_of_hands (ids : List Json) (h : w.pc.hands = ids) :
    w.places = w.queue.map Task.id ++ (ids ++ w.results.map SendResult.id) := by
  unfold Worker.places
  rw [h,List.append_assoc]

theorem again_places (w : Worker) :
    w.again.places = w.queue.map Task.id ++ w.results.map SendResult.id :=
  places_of_hands [] (again_hands w)

theorem places_push (hpc : w.pc.hands = [t.id]) :
    (w.push t).queue.map Task.id ++ (w.push t).results.map SendResult.id = w.places := by
  rw [places_of_hands _ hpc]
  simp [Worker.push]

theorem pushed_of_ok (hredis : inp.redis = .ok) (next : Worker → Worker) :
    w.pushed m inp t next = next (w.push t) := by
  simp only [Worker.pushed,hredis,Reply.applied,if_true]

/-- What the consumer does while Redis answers. -/
inductive Consumed (m : Messenger) (w : Worker) (inp : Input) : Worker → Prop
  | idle (hpc : w.pc = .blpop) (hqueue : w.queue = []) : Consumed m w inp w.idleShutdown
  | again (hpc : w.pc.hands = []) : Consumed m w inp w.again
  | taken {t : Task} {queue : List Task} {pc : Pc} (hpc : w.pc = .blpop) (hqueue : w.queue = t::queue)
      (hnext : pc = .requeue t ∨ pc = .waitForRateLimit t) :
      Consumed m w inp { w with queue := queue, lastTaskTime := inp.now, pc := pc }
  | requeued {t : Task} (hpc : w.pc = .requeue t) : Consumed m w inp (w.push t).again
  | limited {t : Task} {pc : Pc} (timestamps : List ℤ) (hpc : w.pc = .waitForRateLimit t)
      (hnext : pc = .waitForRateLimit t ∨ pc = .sendMessage t) :
      Consumed m w inp { w with timestamps := timestamps, pc := pc }
  | sent {t : Task} (hpc : w.pc = .sendMessage t) :
      Consumed m w inp { w with
        attempts := w.attempts ++ [⟨t.id,inp.error,inp.error.isNone || inp.delivered⟩]
        pc := afterSend m t inp.now inp.error }
  | published {r : SendResult} (hpc : w.pc = .publish r) :
      Consumed m w inp { w.pushResult r with pc := .heartbeat }
  | retried {t : Task} (hpc : w.pc = .retry t) : Consumed m w inp { w.push t with pc := .heartbeat }

theorem consumed_popped (hredis : inp.redis = .ok) (hpc : w.pc = .blpop) :
    Consumed m w inp (w.popped m inp) := by
  unfold Worker.popped
  rw [hredis]
  cases hqueue : w.queue with
  | nil =>
    simp only
    split
    · exact .idle hpc hqueue
    · exact .again (by rw [hpc]; rfl)
  | cons t queue =>
    refine .taken hpc hqueue ?_
    split
    · exact .inl rfl
    · exact .inr rfl

theorem consumed_of_consume (hredis : inp.redis = .ok) (h : consume m w inp = some w') :
    Consumed m w inp w' := by
  unfold consume at h
  cases hpc : w.pc with
  | blpop =>
    rw [hpc] at h
    rw [← Option.some.inj h]
    exact consumed_popped hredis hpc
  | requeue t =>
    rw [hpc] at h
    rw [← Option.some.inj h,pushed_of_ok hredis]
    exact .requeued hpc
  | waitForRateLimit t =>
    rw [hpc] at h
    simp only at h
    split at h
    · rw [← Option.some.inj h]
      exact .limited _ hpc (.inr rfl)
    · rw [← Option.some.inj h]
      exact .limited _ hpc (.inl rfl)
  | sendMessage t =>
    rw [hpc] at h
    rw [← Option.some.inj h]
    exact .sent hpc
  | publish r =>
    rw [hpc] at h
    rw [← Option.some.inj h]
    simp only [hredis,Reply.applied,if_true]
    exact .published hpc
  | retry t =>
    rw [hpc] at h
    rw [← Option.some.inj h,pushed_of_ok hredis]
    exact .retried hpc
  | heartbeat | pause =>
    rw [hpc] at h
    rw [← Option.some.inj h]
    exact .again (by rw [hpc]; rfl)
  | stopped | exited =>
    rw [hpc] at h
    cases h

/-- Only moves between the three places. -/
theorem places_consume (hredis : inp.redis = .ok) (h : consume m w inp = some w') :
    w'.places.Perm w.places := by
  cases consumed_of_consume hredis h with
  | idle hpc hqueue =>
    simp [Worker.places,Worker.idleShutdown,Worker.beginShutdown,hqueue,hpc,Pc.hands]
  | again hpc => rw [again_places,places_of_hands [] hpc,List.nil_append]
  | @taken t queue pc hpc hqueue hnext =>
    have hhands : pc.hands = [t.id] := by
      rcases hnext with rfl | rfl <;> rfl
    rw [places_of_hands _ hhands,places_of_hands [] (by rw [hpc]; rfl),hqueue]
    exact List.perm_append_comm_assoc (queue.map Task.id) [t.id] _
  | requeued hpc => rw [again_places,places_push (by rw [hpc]; rfl)]
  | @limited t pc timestamps hpc hnext =>
    have hhands : pc.hands = w.pc.hands := by
      rw [hpc]
      rcases hnext with rfl | rfl <;> rfl
    rw [places_of_hands _ hhands,places_of_hands w.pc.hands rfl]
  | @sent t hpc =>
    rw [places_of_hands _ (afterSend_hands t inp.now inp.error),
      places_of_hands [t.id] (by rw [hpc]; rfl)]
  | published hpc =>
    simp only [Worker.places,Worker.pushResult,hpc,Pc.hands,List.map_append,List.map_cons,List.map_nil,
      List.append_nil,List.append_assoc]
    exact List.Perm.append_left _ List.perm_append_comm
  | @retried t hpc =>
    have hplaces := places_push (w := w) (t := t) (by rw [hpc]; rfl)
    rw [places_of_hands [] rfl,List.nil_append]
    exact hplaces ▸ List.Perm.refl _

/-- WhatsApp has asked to wait; such an attempt does not count. -/
def rateLimited (m : Messenger) : Option String → Bool
  | none => false
  | some message => !m.isNoRetryError message && decide (0 < m.extractRetryAfter message)

def counted (m : Messenger) (attempts : List Attempt) (id : Json) : ℕ :=
  attempts.countP fun a => a.taskId = id && !rateLimited m a.error

/-- The outcome of the last attempt: `some none` when it has succeeded. -/
def lastOutcome (attempts : List Attempt) (id : Json) : Option (Option String) :=
  (attempts.reverse.find? fun a => a.taskId = id).map Attempt.error

/-- A task that will be sent again knows how often it has been sent. -/
structure Pending (m : Messenger) (attempts : List Attempt) (t : Task) : Prop where
  retries : counted m attempts t.id = t.retries
  left : t.retries ≤ m.maxRetries

structure Finished (m : Messenger) (attempts : List Attempt) (r : SendResult) : Prop where
  bounded : counted m attempts r.id ≤ m.maxRetries+1
  status : r.status = .ok ↔ lastOutcome attempts r.id = some none

def Pc.Sound (m : Messenger) (attempts : List Attempt) : Pc → Prop
  | .requeue t | .waitForRateLimit t | .sendMessage t | .retry t => Pending m attempts t
  | .publish r => Finished m attempts r
  | _ => True

structure Sound (m : Messenger) (w : Worker) : Prop where
  queue : ∀ t ∈ w.queue, Pending m w.attempts t
  results : ∀ r ∈ w.results, Finished m w.attempts r
  pc : w.pc.Sound m w.attempts

theorem counted_append (attempts : List Attempt) (a : Attempt) (id : Json) :
    counted m (attempts ++ [a]) id =
      counted m attempts id + if a.taskId = id ∧ rateLimited m a.error = false then 1 else 0 := by
  simp [counted,List.countP_append,List.countP_singleton]

theorem lastOutcome_append (attempts : List Attempt) (a : Attempt) (id : Json) :
    lastOutcome (attempts ++ [a]) id = if a.taskId = id then some a.error else lastOutcome attempts id := by
  unfold lastOutcome
  rw [List.reverse_append,List.reverse_singleton,List.singleton_append,List.find?_cons]
  by_cases ha : a.taskId = id <;> simp [ha]

theorem Pending.append {attempts : List Attempt} (h : Pending m attempts t) {a : Attempt}
    (hne : a.taskId ≠ t.id) : Pending m (attempts ++ [a]) t := by
  refine ⟨?_,h.left⟩
  rw [counted_append,if_neg (fun he => hne he.1),Nat.add_zero]
  exact h.retries

theorem Finished.append {attempts : List Attempt} {r : SendResult} (h : Finished m attempts r)
    {a : Attempt} (hne : a.taskId ≠ r.id) : Finished m (attempts ++ [a]) r := by
  constructor
  · rw [counted_append,if_neg (fun he => hne he.1),Nat.add_zero]
    exact h.bounded
  · rw [lastOutcome_append,if_neg hne]
    exact h.status

theorem sound_afterSend {attempts : List Attempt} (h : Pending m attempts t) (now : ℤ)
    (error : Option String) (delivered : Bool) :
    (afterSend m t now error).Sound m (attempts ++ [⟨t.id,error,delivered⟩]) := by
  have hcounted := counted_append (m := m) attempts ⟨t.id,error,delivered⟩ t.id
  have hlast := lastOutcome_append attempts ⟨t.id,error,delivered⟩ t.id
  rw [h.retries] at hcounted
  rw [if_pos rfl] at hlast
  have hbounded : counted m (attempts ++ [⟨t.id,error,delivered⟩]) t.id ≤ m.maxRetries+1 := by
    have hleft := h.left
    rw [hcounted]
    split <;> omega
  cases error with
  | none =>
    refine ⟨hbounded,?_⟩
    rw [result_id,hlast]
    simp [result]
  | some message =>
    have hfail : ∀ noRetry, Finished m (attempts ++ [⟨t.id,some message,delivered⟩])
        (result m t .fail (some message) noRetry now) := by
      intro noRetry
      refine ⟨hbounded,?_⟩
      rw [result_id,hlast]
      simp [result]
    rcases afterSend_cases t now message with
      ⟨noRetry,hpc⟩ | ⟨hretry,hwait,delayUntil,hpc⟩ | ⟨hnow,hlt,delayUntil,hpc⟩
    · rw [hpc]
      exact hfail noRetry
    · have hlimited : rateLimited m (some message) = true := by
        simp [rateLimited,hretry,hwait]
      rw [hlimited] at hcounted
      rw [hpc]
      refine ⟨?_,h.left⟩
      simpa [Task.id,Task.retries] using hcounted
    · have hlimited : rateLimited m (some message) = false := by
        simp [rateLimited,hnow]
      rw [hlimited] at hcounted
      rw [hpc]
      refine ⟨?_,hlt⟩
      simpa [Task.id,Task.retries] using hcounted

theorem hands_disjoint (h : w.places.Nodup) (id : Json) (hid : id ∈ w.pc.hands) :
    (∀ t ∈ w.queue, id ≠ t.id) ∧ ∀ r ∈ w.results, id ≠ r.id := by
  unfold Worker.places at h
  obtain ⟨hleft,_,hright⟩ := List.nodup_append.mp h
  obtain ⟨_,_,hqueue⟩ := List.nodup_append.mp hleft
  constructor
  · intro t ht
    exact (hqueue t.id (List.mem_map_of_mem ht) id hid).symm
  · intro r hr
    exact hright id (List.mem_append_right _ hid) r.id (List.mem_map_of_mem hr)

theorem Sound.again (hw : Sound m w) : Sound m w.again := by
  refine ⟨hw.queue,hw.results,?_⟩
  unfold Worker.again
  split <;> trivial

theorem Sound.push (hw : Sound m w) (ht : Pending m w.attempts t) : Sound m (w.push t) := by
  refine ⟨?_,hw.results,hw.pc⟩
  intro u hu
  rcases List.mem_append.mp hu with hu | hu
  · exact hw.queue u hu
  · rw [List.mem_singleton.mp hu]
    exact ht

theorem Sound.pushResult (hw : Sound m w) {r : SendResult} (hr : Finished m w.attempts r) :
    Sound m (w.pushResult r) := by
  refine ⟨hw.queue,?_,hw.pc⟩
  intro s hs
  rcases List.mem_append.mp hs with hs | hs
  · exact hw.results s hs
  · rw [List.mem_singleton.mp hs]
    exact hr

theorem Sound.withPc {pc : Pc} (hw : Sound m w) (hpc : pc.Sound m w.attempts) :
    Sound m { w with pc := pc } :=
  ⟨hw.queue,hw.results,hpc⟩

theorem sound_consume (hredis : inp.redis = .ok) (hw : Sound m w) (hnodup : w.places.Nodup)
    (h : consume m w inp = some w') : Sound m w' := by
  have hpcSound := hw.pc
  cases consumed_of_consume hredis h with
  | idle hpc hqueue => exact ⟨hw.queue,hw.results,trivial⟩
  | again hpc => exact hw.again
  | @taken t queue pc hpc hqueue hnext =>
    have ht := hw.queue t (by rw [hqueue]; exact List.mem_cons_self ..)
    refine ⟨?_,hw.results,?_⟩
    · intro u hu
      exact hw.queue u (by rw [hqueue]; exact List.mem_cons_of_mem _ hu)
    · rcases hnext with rfl | rfl <;> exact ht
  | requeued hpc =>
    rw [hpc] at hpcSound
    exact (hw.push hpcSound).again
  | limited timestamps hpc hnext =>
    rw [hpc] at hpcSound
    refine ⟨hw.queue,hw.results,?_⟩
    rcases hnext with rfl | rfl <;> exact hpcSound
  | @sent t hpc =>
    rw [hpc] at hpcSound
    obtain ⟨hqueue,hresults⟩ := hands_disjoint hnodup t.id (by rw [hpc]; exact List.mem_singleton_self _)
    refine ⟨?_,?_,?_⟩
    · exact fun u hu => (hw.queue u hu).append (hqueue u hu)
    · exact fun r hr => (hw.results r hr).append (hresults r hr)
    · exact sound_afterSend hpcSound inp.now inp.error _
  | published hpc =>
    rw [hpc] at hpcSound
    exact (hw.pushResult hpcSound).withPc trivial
  | retried hpc =>
    rw [hpc] at hpcSound
    exact (hw.push hpcSound).withPc trivial

theorem Initial.places (hw : Initial w) : w.places = w.queue.map Task.id := by
  rw [places_of_hands [] (by rw [hw.pc]; rfl),hw.results]
  simp

theorem Initial.sound (hw : Initial w) : Sound m w := by
  constructor
  · intro t ht
    have hretry := (hw.fresh t ht).1
    constructor
    · simp [counted,hw.attempts,Task.retries,hretry]
    · simp [Task.retries,hretry]
  · rw [hw.results]
    intro r hr
    cases hr
  · rw [hw.pc]
    trivial

/-- What holds at every point of an undisturbed run of a worker with these tasks. -/
structure Conserved (m : Messenger) (ids : List Json) (w : Worker) : Prop where
  places : w.places.Perm ids
  sound : Sound m w

theorem conserved_next {ids : List Json} (hnodup : ids.Nodup) (hw : Conserved m ids w) {move : Move}
    (hg : undisturbed w move) (h : next m w move = some w') : Conserved m ids w' := by
  cases move with
  | consumer inp =>
    have hredis : inp.redis = .ok := hg
    constructor
    · exact (places_consume hredis h).trans hw.places
    · exact sound_consume hredis hw.sound (hw.places.nodup_iff.mpr hnodup) h
  | signal => exact absurd hg id
  | exit => exact absurd hg id

theorem reaches_conserved (hw : Initial w) (h : Reaches m undisturbed w w') :
    Conserved m (w.queue.map Task.id) w' := by
  apply h.invariant
  · intro a move b ha hg hn
    exact conserved_next hw.distinct ha hg hn
  · exact ⟨hw.places ▸ List.Perm.refl _,hw.sound⟩

theorem Pending.bounded {attempts : List Attempt} (h : Pending m attempts t) :
    counted m attempts t.id ≤ m.maxRetries+1 := by
  rw [h.retries]
  exact Nat.le_succ_of_le h.left

theorem Pc.Sound.bounded {attempts : List Attempt} {pc : Pc} (h : pc.Sound m attempts) {id : Json}
    (hid : id ∈ pc.hands) : counted m attempts id ≤ m.maxRetries+1 := by
  cases pc with
  | requeue t | waitForRateLimit t | sendMessage t | retry t =>
    rw [List.mem_singleton.mp hid]
    exact Pending.bounded h
  | publish r =>
    rw [List.mem_singleton.mp hid]
    exact Finished.bounded h
  | blpop | heartbeat | pause | stopped | exited => cases hid

theorem Sound.bounded (hw : Sound m w) {id : Json} (hid : id ∈ w.places) :
    counted m w.attempts id ≤ m.maxRetries+1 := by
  unfold Worker.places at hid
  rcases List.mem_append.mp hid with hid | hid
  · rcases List.mem_append.mp hid with hid | hid
    · obtain ⟨t,ht,rfl⟩ := List.mem_map.mp hid
      exact (hw.queue t ht).bounded
    · exact hw.pc.bounded hid
  · obtain ⟨r,hr,rfl⟩ := List.mem_map.mp hid
    exact (hw.results r hr).bounded

/-- Each task is once in the queue, in the hands of the consumer or in the results, the result tells
how the last attempt ended, and no task is sent more than `MAX_RETRIES + 1` times. -/
theorem tasks_conserved (m : Messenger) (w w' : Worker) (hw : Initial w)
    (h : Reaches m undisturbed w w') :
    (∀ t ∈ w.queue, (w'.queue.map Task.id ++ w'.pc.hands ++ w'.results.map SendResult.id).count t.id = 1) ∧
      (w'.queue.map Task.id ++ w'.pc.hands ++ w'.results.map SendResult.id).length = w.queue.length ∧
      (∀ r ∈ w'.results, r.status = .ok ↔ lastOutcome w'.attempts r.id = some none) ∧
      ∀ t ∈ w.queue, counted m w'.attempts t.id ≤ m.maxRetries+1 := by
  have hc := reaches_conserved hw h
  refine ⟨?_,?_,?_,?_⟩
  · intro t ht
    have hcount := hc.places.count_eq t.id
    rw [List.count_eq_one_of_mem hw.distinct (List.mem_map_of_mem ht)] at hcount
    exact hcount
  · exact hc.places.length_eq.trans (List.length_map ..)
  · exact fun r hr => (hc.sound.results r hr).status
  · intro t ht
    exact hc.sound.bounded (hc.places.mem_iff.mpr (List.mem_map_of_mem ht))

def sampleTask (id : ℕ) : Task where
  data := ⟨.int id,.int 1,.int 2,.int 3,.int 4,.int 5,.str "ad",.str "text",.arr [],.str "group",.str "g@g.us"⟩
  retryCount := none
  delayUntil := none

def sampleWorker : Worker where
  queue := [sampleTask 1,sampleTask 2]
  results := []
  pc := .blpop
  timestamps := []
  lastTaskTime := 0
  consumerRunning := true
  shuttingDown := false
  attempts := []

def sampleInput (now : ℤ) (error : Option String) : Move := .consumer ⟨now,.ok,error,false⟩

def sampleMoves : List Move :=
  [sampleInput 0 none,sampleInput 0 none,sampleInput 5 (some "Timed Out"),sampleInput 5 none,
    sampleInput 5 none,sampleInput 6 none,sampleInput 6 none,sampleInput 9 none,sampleInput 9 none]

def sampleEnd : Worker where
  queue := [{ sampleTask 1 with retryCount := some 1, delayUntil := some 60005 }]
  results := [result (waWorker 300) (sampleTask 2) .ok none false 9]
  pc := .heartbeat
  timestamps := [0,6]
  lastTaskTime := 6
  consumerRunning := true
  shuttingDown := false
  attempts := [⟨.int 1,some "Timed Out",false⟩,⟨.int 2,none,true⟩]

theorem sampleWorker_initial : Initial sampleWorker := by
  refine ⟨by decide,?_,rfl,rfl,rfl,rfl⟩
  intro t ht
  have ht' : t = sampleTask 1 ∨ t = sampleTask 2 := by
    simpa [sampleWorker] using ht
  rcases ht' with rfl | rfl <;> exact ⟨rfl,rfl⟩

theorem sampleMoves_exec :
    exec (waWorker 300) undisturbed sampleWorker sampleMoves = some sampleEnd := by
  decide

theorem tasks_conserved_sample :
    sampleEnd.places.count (.int 1) = 1 ∧ counted (waWorker 300) sampleEnd.attempts (.int 1) ≤ 4 := by
  obtain ⟨hplaces,_,_,hbounded⟩ := tasks_conserved (waWorker 300) sampleWorker sampleEnd
    sampleWorker_initial (reaches_of_exec sampleMoves_exec)
  have hmem : sampleTask 1 ∈ sampleWorker.queue := List.mem_cons_self ..
  exact ⟨hplaces (sampleTask 1) hmem,hbounded (sampleTask 1) hmem⟩

end AccountWorker
end Broadcaster
