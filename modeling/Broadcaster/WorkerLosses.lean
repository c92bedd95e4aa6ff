import Broadcaster.TaskConservation

/-!
# What a stopped worker has lost

The pop takes a task out of Redis, and nothing acknowledges it afterwards. A task
vanishes with a reply that does not arrive, with a push that does not take
effect, and with a process that exits while the consumer holds the task.
-/

namespace Broadcaster
namespace AccountWorker

open Python

def anyMove (_ : Worker) (_ : Move) : Prop := True

instance (w : Worker) (move : Move) : Decidable (anyMove w move) := .isTrue trivial

def Loses (id : Json) (w : Worker) : Move → Prop
  | .consumer inp =>
    match w.pc with
    | .blpop => inp.redis = .failed true ∧ w.queue.head?.map Task.id = some id
    | .requeue t | .retry t => inp.redis = .failed false ∧ t.id = id
    | .publish r => inp.redis = .failed false ∧ r.id = id
    | _ => False
  | .signal => False
  | .exit => id ∈ w.pc.hands

/-- No move of the run makes the task vanish. -/
def Spared (m : Messenger) (id : Json) : Worker → List Move → Prop
  | _, [] => True
  | w, move::moves => ¬Loses id w move ∧ ∀ w', next m w move = some w' → Spared m id w' moves

variable {m : Messenger} {w w' : Worker} {t : Task} {inp : Input}

def Worker.copies (w : Worker) (id : Json) : ℕ := w.places.count id

theorem copies_of_hands (ids : List Json) (h : w.pc.hands = ids) (id : Json) :
    w.copies id = (w.queue.map Task.id).count id + (ids.count id + (w.results.map SendResult.id).count id) := by
  unfold Worker.copies
  rw [places_of_hands ids h,List.count_append,List.count_append]

theorem raised_hands (w : Worker) (now : ℤ) : (w.raised m now).pc.hands = [] := by
  unfold Worker.raised
  split
  · rfl
  · split <;> rfl

theorem raised_queue (w : Worker) (now : ℤ) : (w.raised m now).queue = w.queue := by
  unfold Worker.raised
  split
  · rfl
  · split <;> rfl

theorem raised_results (w : Worker) (now : ℤ) : (w.raised m now).results = w.results := by
  unfold Worker.raised
  split
  · rfl
  · split <;> rfl

theorem copies_raised (w : Worker) (now : ℤ) (id : Json) :
    (w.raised m now).copies id = (w.queue.map Task.id).count id + (w.results.map SendResult.id).count id := by
  rw [copies_of_hands [] (raised_hands w now),raised_queue,raised_results]
  simp

/-- A task vanishes with the move, or nothing happens to it. -/
def Accounted (lost : Prop) (id : Json) (w w' : Worker) : Prop :=
  (lost → w'.copies id + 1 = w.copies id) ∧ (¬ lost → w'.copies id = w.copies id)

theorem accounted_of_perm {lost : Prop} {id : Json} (hlost : ¬ lost) (h : w'.places.Perm w.places) :
    Accounted lost id w w' :=
  ⟨fun hl => absurd hl hlost,fun _ => h.count_eq id⟩

theorem accounted_pushed (hhands : w.pc.hands = [t.id]) {applied : Bool} (hredis : inp.redis = .failed applied)
    (next : Worker → Worker) (id : Json) :
    Accounted (inp.redis = .failed false ∧ t.id = id) id w (w.pushed m inp t next) := by
  have hbefore := copies_of_hands [t.id] hhands id
  cases applied with
  | true =>
    have hafter : (w.pushed m inp t next).copies id = w.copies id := by
      simp only [Worker.pushed,hredis,Reply.applied,if_true,copies_raised,hbefore]
      simp only [Worker.push,List.map_append,List.map_cons,List.map_nil,List.count_append]
      omega
    constructor
    · rintro ⟨he,_⟩
      rw [hredis] at he
      cases he
    · exact fun _ => hafter
  | false =>
    have hafter : (w.pushed m inp t next).copies id =
        (w.queue.map Task.id).count id + (w.results.map SendResult.id).count id := by
      simp [Worker.pushed,hredis,Reply.applied,copies_raised]
    constructor
    · rintro ⟨_,rfl⟩
      rw [hafter,hbefore,List.count_singleton_self]
      omega
    · intro hl
      have hne : t.id ≠ id := fun he => hl ⟨hredis,he⟩
      rw [hafter,hbefore,List.count_singleton,if_neg (by simpa using hne)]
      omega

theorem accounted_popped (hpc : w.pc = .blpop) {applied : Bool} (hredis : inp.redis = .failed applied)
    (id : Json) :
    Accounted (inp.redis = .failed true ∧ w.queue.head?.map Task.id = some id) id w (w.popped m inp) := by
  have hbefore := copies_of_hands [] (by rw [hpc]; rfl : w.pc.hands = []) id
  have hafter : (w.popped m inp).copies id =
      ((if applied then w.queue.tail else w.queue).map Task.id).count id +
        (w.results.map SendResult.id).count id := by
    unfold Worker.popped
    rw [hredis]
    exact copies_raised ..
  cases applied with
  | false =>
    constructor
    · rintro ⟨he,_⟩
      rw [hredis] at he
      cases he
    · intro _
      rw [hafter,hbefore]
      simp
  | true =>
    cases hqueue : w.queue with
    | nil =>
      constructor
      · rintro ⟨_,he⟩
        cases he
      · intro _
        rw [hafter,hbefore,hqueue]
        simp
    | cons t queue =>
      rw [hqueue] at hafter hbefore
      constructor
      · rintro ⟨_,he⟩
        have ht : t.id = id := Option.some.inj he
        rw [hafter,hbefore]
        simp [ht]
        omega
      · intro hl
        have hne : t.id ≠ id := fun he => hl ⟨hredis,congrArg some he⟩
        rw [hafter,hbefore]
        simp [hne]

theorem accounted_publish {r : SendResult} (hpc : w.pc = .publish r) {applied : Bool}
    (hredis : inp.redis = .failed applied) (id : Json) :
    Accounted (inp.redis = .failed false ∧ r.id = id) id w
      { (if inp.redis.applied then w.pushResult r else w) with pc := .heartbeat } := by
  have hbefore := copies_of_hands [r.id] (by rw [hpc]; rfl : w.pc.hands = [r.id]) id
  cases applied with
  | true =>
    constructor
    · rintro ⟨he,_⟩
      rw [hredis] at he
      cases he
    · intro _
      rw [copies_of_hands [] rfl,hbefore,hredis]
      simp only [Reply.applied,if_true,Worker.pushResult,List.map_append,List.map_cons,List.map_nil,
        List.count_append,List.count_nil]
      omega
  | false =>
    rw [hredis]
    constructor
    · rintro ⟨_,rfl⟩
      rw [copies_of_hands [] rfl,hbefore,List.count_singleton_self]
      simp [Reply.applied]
      omega
    · intro hl
      have hne : r.id ≠ id := fun he => hl ⟨rfl,he⟩
      rw [copies_of_hands [] rfl,hbefore,List.count_singleton]
      simp [hne,Reply.applied]

theorem consume_redis (hpc : ∀ r, w.pc ≠ .publish r) (hpc' : ∀ t, w.pc ≠ .requeue t ∧ w.pc ≠ .retry t)
    (hblpop : w.pc ≠ .blpop) : consume m w { inp with redis := .ok } = consume m w inp := by
  unfold consume
  cases hw : w.pc with
  | blpop => exact absurd hw hblpop
  | requeue t => exact absurd hw (hpc' t).1
  | retry t => exact absurd hw (hpc' t).2
  | publish r => exact absurd hw (hpc r)
  | waitForRateLimit t | sendMessage t | heartbeat | pause | stopped | exited => rfl

theorem accounted_consume (h : consume m w inp = some w') (id : Json) :
    Accounted (Loses id w (.consumer inp)) id w w' := by
  cases hredis : inp.redis with
  | ok =>
    refine accounted_of_perm ?_ (places_consume hredis h)
    intro hl
    unfold Loses at hl
    simp only [hredis] at hl
    split at hl <;> simp at hl
  | failed applied =>
    cases hpc : w.pc with
    | blpop =>
      unfold Loses
      simp only [hpc]
      simp only [consume,hpc,Option.some.injEq] at h
      exact h ▸ accounted_popped hpc hredis id
    | requeue t =>
      unfold Loses
      simp only [hpc]
      simp only [consume,hpc,Option.some.injEq] at h
      exact h ▸ accounted_pushed (by rw [hpc]; rfl) hredis _ id
    | retry t =>
      unfold Loses
      simp only [hpc]
      simp only [consume,hpc,Option.some.injEq] at h
      exact h ▸ accounted_pushed (by rw [hpc]; rfl) hredis _ id
    | publish r =>
      unfold Loses
      simp only [hpc]
      simp only [consume,hpc,Option.some.injEq] at h
      exact h ▸ accounted_publish hpc hredis id
    | waitForRateLimit t | sendMessage t | heartbeat | pause | stopped | exited =>
      rw [← consume_redis (by simp [hpc]) (by simp [hpc]) (by simp [hpc])] at h
      refine accounted_of_perm ?_ (places_consume rfl h)
      simp [Loses,hpc]

theorem accounted_exit (id : Json) : Accounted (id ∈ w.pc.hands) id w { w with pc := .exited } := by
  have hbefore := copies_of_hands w.pc.hands rfl id
  have hafter := copies_of_hands (w := { w with pc := .exited }) [] rfl id
  have hone : w.pc.hands.length ≤ 1 := by
    cases w.pc <;> simp [Pc.hands]
  have hcount := List.count_le_length (a := id) (l := w.pc.hands)
  constructor
  · intro hid
    have hpos := List.count_pos_iff.mpr hid
    simp only [List.count_nil] at hafter
    omega
  · intro hid
    have hzero := List.count_eq_zero.mpr hid
    simp only [List.count_nil] at hafter
    omega

theorem accounted_next {move : Move} (h : next m w move = some w') (id : Json) :
    Accounted (Loses id w move) id w w' := by
  cases move with
  | consumer inp => exact accounted_consume h id
  | signal =>
    simp only [next] at h
    split at h
    · cases h
    · have he := Option.some.inj h
      subst he
      refine ⟨fun hl => hl.elim,fun _ => ?_⟩
      split <;> rfl
  | exit =>
    simp only [next] at h
    split at h
    · have he := Option.some.inj h
      subst he
      exact accounted_exit id
    · cases h

theorem exec_cons {move : Move} {moves : List Move} (h : exec m anyMove w (move::moves) = some w') :
    ∃ w₁, next m w move = some w₁ ∧ exec m anyMove w₁ moves = some w' := by
  simp only [exec,anyMove] at h
  exact Option.bind_eq_some_iff.mp h

theorem copies_le {moves : List Move} (h : exec m anyMove w moves = some w') (id : Json) :
    w'.copies id ≤ w.copies id := by
  induction moves generalizing w with
  | nil => exact Option.some.inj h ▸ Nat.le_refl _
  | cons move moves ih =>
    obtain ⟨w₁,hmove,hrun⟩ := exec_cons h
    obtain ⟨hlost,hkept⟩ := accounted_next hmove id
    have hle := ih hrun
    by_cases hl : Loses id w move
    · have hcopies := hlost hl
      omega
    · exact hle.trans (Nat.le_of_eq (hkept hl))

/-- The one copy is there at the end exactly if no move has lost it. -/
theorem copies_eq_one_iff {moves : List Move} {id : Json} (h : exec m anyMove w moves = some w')
    (hone : w.copies id = 1) : w'.copies id = 1 ↔ Spared m id w moves := by
  induction moves generalizing w with
  | nil =>
    have he : w = w' := Option.some.inj h
    exact iff_of_true (he ▸ hone) trivial
  | cons move moves ih =>
    obtain ⟨w₁,hmove,hrun⟩ := exec_cons h
    obtain ⟨hlost,hkept⟩ := accounted_next hmove id
    by_cases hl : Loses id w move
    · have hcopies := hlost hl
      have hle := copies_le hrun id
      exact iff_of_false (by omega) fun hspared => hspared.1 hl
    · rw [ih hrun ((hkept hl).trans hone)]
      constructor
      · intro hspared
        refine ⟨hl,fun w₂ hw₂ => ?_⟩
        rw [hmove] at hw₂
        exact Option.some.inj hw₂ ▸ hspared
      · exact fun hspared => hspared.2 w₁ hmove

/-- After the exit a task of the initial queue is in the queue or has a result exactly if no move of the run has
lost it. -/
theorem task_kept_iff (m : Messenger) (w w' : Worker) (moves : List Move) (hw : Initial w)
    (h : exec m anyMove w moves = some w') (hexited : w'.pc = .exited) (t : Task) (ht : t ∈ w.queue) :
    t.id ∈ w'.queue.map Task.id ∨ t.id ∈ w'.results.map SendResult.id ↔ Spared m t.id w moves := by
  have hone : w.copies t.id = 1 := by
    unfold Worker.copies
    rw [hw.places]
    exact List.count_eq_one_of_mem hw.distinct (List.mem_map_of_mem ht)
  have hcopies := copies_of_hands [] (by rw [hexited]; rfl : w'.pc.hands = []) t.id
  have hle := copies_le h t.id
  rw [← copies_eq_one_iff h hone,← List.count_pos_iff,← List.count_pos_iff]
  simp only [List.count_nil] at hcopies
  omega

def stoppedWorker : Worker where
  queue := [sampleTask 2]
  results := [result (waWorker 300) (sampleTask 1) .ok none false 5]
  pc := .exited
  timestamps := [0]
  lastTaskTime := 0
  consumerRunning := false
  shuttingDown := true
  attempts := [⟨.int 1,none,true⟩]

def stoppedRun : List Move :=
  [sampleInput 0 none,sampleInput 0 none,sampleInput 5 none,sampleInput 5 none,.signal,sampleInput 5 none,.exit]

theorem stoppedWorker_exec : exec (waWorker 300) anyMove sampleWorker stoppedRun = some stoppedWorker := by
  decide

theorem task_kept_iff_stopped : Spared (waWorker 300) (.int 2) sampleWorker stoppedRun := by
  have hkept := task_kept_iff (waWorker 300) sampleWorker stoppedWorker stoppedRun sampleWorker_initial
    stoppedWorker_exec rfl (sampleTask 2) (by decide)
  exact hkept.mp (.inl (by decide))

def lossyWorker : Worker where
  queue := [sampleTask 2]
  results := []
  pc := .exited
  timestamps := []
  lastTaskTime := 0
  consumerRunning := false
  shuttingDown := true
  attempts := []

theorem lossyWorker_exec :
    exec (waWorker 300) anyMove sampleWorker [sampleInput 0 none,.signal,.exit] = some lossyWorker := by
  decide

/-- A task for which nothing has been sent is gone after the exit. -/
theorem task_lost_at_exit : ¬ ∀ (m : Messenger) (w w' : Worker), Initial w → Reaches m anyMove w w' →
    w'.pc = .exited → ∀ t ∈ w.queue, (∀ a ∈ w'.attempts, a.taskId = t.id → a.delivered = false) →
      t.id ∈ w'.queue.map Task.id ∨ t.id ∈ w'.results.map SendResult.id := by
  intro hall
  have hkept := hall (waWorker 300) sampleWorker lossyWorker sampleWorker_initial
    (reaches_of_exec lossyWorker_exec) rfl (sampleTask 1) (by decide) (by decide)
  exact absurd hkept (by decide)

end AccountWorker
end Broadcaster
