import Broadcaster.AccountWorker
import Broadcaster.Interleaving
import Broadcaster.SlidingWindow
import Mathlib.Algebra.Order.Ring.Int
import Mathlib.Algebra.Order.Ring.Rat

/-!
# The rate limiter of the two workers

`wait_for_rate_limit` and `waitForRateLimit` are one loop over a list of
instants that all callers share. A turn of the loop runs without a suspension
point, so callers interleave only where they sleep. The WhatsApp worker counts
milliseconds, the MAX worker seconds with a fraction.
-/

namespace Broadcaster
namespace RateLimiter
open Interleaving SlidingWindow

variable {T : Type} [AddCommGroup T] [LinearOrder T]

structure Limiter (T : Type) [AddCommGroup T] [LinearOrder T] where
  window : T
  /-- What a sleeper adds to the time until the oldest instant leaves. -/
  buffer : T
  /-- `RATE_LIMIT_PER_MINUTE`, any number that the environment may name -/
  limit : ℤ
  buffer_nonneg : 0 ≤ buffer

def waLimiter : Limiter ℤ := ⟨60000,50,8,by decide⟩

def maxLimiter (limit : ℤ) : Limiter ℚ := ⟨60,1/20,limit,by decide +kernel⟩

inductive Outcome (T : Type)
  | granted
  | sleep (wait : T)
  /-- `rate_timestamps[0]` of an empty list -/
  | indexError
  deriving DecidableEq

/-- One turn of the loop: the new list and what becomes of the caller. -/
def turn (l : Limiter T) (now : T) (timestamps : List T) : List T × Outcome T :=
  let timestamps := recent l.window now timestamps
  if timestamps.length < l.limit then (timestamps ++ [now],.granted)
  else
    match timestamps with
    | [] => ([],.indexError)
    | oldest::rest => (oldest::rest,.sleep (l.window-(now-oldest)+l.buffer))

theorem turn_cases (l : Limiter T) (now : T) (ts : List T) :
    ((recent l.window now ts).length < l.limit ∧ turn l now ts = (recent l.window now ts ++ [now],.granted)) ∨
    (¬(recent l.window now ts).length < l.limit ∧
      ((recent l.window now ts = [] ∧ turn l now ts = ([],.indexError)) ∨
        ∃ oldest rest, recent l.window now ts = oldest::rest ∧
          turn l now ts = (oldest::rest,.sleep (l.window-(now-oldest)+l.buffer)))) := by
  by_cases hroom : (recent l.window now ts).length < l.limit
  · exact .inl ⟨hroom,by simp [turn,hroom]⟩
  · refine .inr ⟨hroom,?_⟩
    cases hts : recent l.window now ts with
    | nil =>
      rw [hts] at hroom
      exact .inl ⟨rfl,by simp only [turn,hts,if_neg hroom]⟩
    | cons oldest rest =>
      rw [hts] at hroom
      exact .inr ⟨oldest,rest,rfl,by simp only [turn,hts,if_neg hroom]⟩

inductive Pc (T : Type)
  | ready
  | sleeping (wakeAt : T)
  | granted
  | raised
  deriving DecidableEq

structure Shared (T : Type) where
  clock : T
  timestamps : List T
  grants : List T

def afterTurn (now : T) : Outcome T → Pc T
  | .granted => .granted
  | .sleep wait => .sleeping (now+wait)
  | .indexError => .raised

def Shared.turned (l : Limiter T) (s : Shared T) (now : T) : Shared T × Pc T :=
  let r := turn l now s.timestamps
  (⟨now,r.1,if r.2 matches .granted then s.grants ++ [now] else s.grants⟩,afterTurn now r.2)

/-- The clock of a move never lies before that of the move before it, and a sleeper sleeps its time. -/
def machine (l : Limiter T) : Machine (Shared T) (Pc T) T where
  step s _ pc now :=
    if now < s.clock then none
    else
      match pc with
      | .ready => some (s.turned l now)
      | .sleeping wakeAt => if now < wakeAt then none else some (s.turned l now)
      | .granted => none
      | .raised => none

def started (clock : T) : Config (Shared T) (Pc T) := ⟨⟨clock,[],[]⟩,fun _ => .ready⟩

theorem step_eq_some {l : Limiter T} {s s' : Shared T} {i : ℕ} {pc pc' : Pc T} {now : T}
    (h : (machine l).step s i pc now = some (s',pc')) :
    s.clock ≤ now ∧ (∀ wakeAt, pc = .sleeping wakeAt → wakeAt ≤ now) ∧ (s',pc') = s.turned l now := by
  simp only [machine] at h
  split at h
  · cases h
  · rename_i hclock
    cases pc with
    | ready =>
      exact ⟨not_lt.mp hclock,by simp,(Option.some.inj h).symm⟩
    | sleeping wakeAt =>
      simp only at h
      split at h
      · cases h
      · rename_i hwake
        refine ⟨not_lt.mp hclock,?_,(Option.some.inj h).symm⟩
        rintro _ ⟨⟩
        exact not_lt.mp hwake
    | granted => cases h
    | raised => cases h

/-- The list stands for all that was granted, and no window holds more than the limit. -/
structure Limited (l : Limiter T) (s : Shared T) : Prop where
  list : StandsFor l.window s.clock s.timestamps s.grants
  bound : ∀ a, countFrom l.window a s.grants ≤ l.limit.toNat

theorem limited_started (l : Limiter T) (clock : T) : Limited l (started clock).db where
  list := fun _ _ => rfl
  bound := fun _ => Nat.zero_le _

section Order

variable [IsOrderedAddMonoid T]

theorem Limited.turned {l : Limiter T} {s : Shared T} {now : T} (h : Limited l s) (hnow : s.clock ≤ now) :
    Limited l (s.turned l now).1 := by
  have hforget := h.list.forget hnow
  have hgrants := h.list now hnow
  obtain ⟨hroom,ht⟩ | ⟨_,⟨hempty,ht⟩ | ⟨oldest,rest,hfull,ht⟩⟩ := turn_cases l now s.timestamps
  · simp only [Shared.turned,ht]
    refine ⟨hforget.append [now],?_⟩
    refine countFrom_push_le h.bound ?_
    rw [← hgrants]
    omega
  · simp only [Shared.turned,ht]
    refine ⟨?_,h.bound⟩
    rw [← hempty]
    exact hforget
  · simp only [Shared.turned,ht]
    refine ⟨?_,h.bound⟩
    rw [← hfull]
    exact hforget

theorem limited_of_reaches {l : Limiter T} {clock : T} {c : Config (Shared T) (Pc T)}
    (hrun : Reaches (machine l) anyMove (started clock) c) : Limited l c.db := by
  refine hrun.invariant (I := fun c => Limited l c.db) ?_ (limited_started l clock)
  rintro d ⟨i,now⟩ d' hd _ hm
  obtain ⟨s,pc,hs,rfl⟩ := next_eq_some.mp hm
  obtain ⟨hclock,_,hturn⟩ := step_eq_some hs
  have hdb : s = (d.db.turned l now).1 := congrArg Prod.fst hturn
  rw [hdb]
  exact hd.turned hclock

theorem refused_names_grant {l : Limiter T} {s s' : Shared T} {now wakeAt : T} (h : Limited l s)
    (hnow : s.clock ≤ now) (hturn : s.turned l now = (s',.sleeping wakeAt)) :
    ∃ g ∈ s'.timestamps, g ∈ s'.grants ∧ now-g < l.window ∧ l.window ≤ wakeAt-g := by
  obtain ⟨_,ht⟩ | ⟨_,⟨_,ht⟩ | ⟨oldest,rest,hfull,ht⟩⟩ := turn_cases l now s.timestamps
  · simp [Shared.turned,ht,afterTurn] at hturn
  · simp [Shared.turned,ht,afterTurn] at hturn
  · simp only [Shared.turned,ht,afterTurn,Prod.mk.injEq,Pc.sleeping.injEq] at hturn
    obtain ⟨rfl,rfl⟩ := hturn
    have hmem : oldest ∈ recent l.window now s.grants := by
      rw [← h.list now hnow,hfull]
      exact List.mem_cons_self
    refine ⟨oldest,List.mem_cons_self,(mem_recent.mp hmem).1,(mem_recent.mp hmem).2,?_⟩
    have hleft : now+(l.window-(now-oldest)+l.buffer)-oldest = l.window+l.buffer := by
      abel
    rw [hleft]
    exact le_add_of_nonneg_right l.buffer_nonneg

/-- In every window of the limiter's length lie at most as many grants as the limit allows, and a caller
that is refused sleeps until a recorded grant has left the window. -/
theorem wait_for_rate_limit_limits {l : Limiter T} {clock : T} {c : Config (Shared T) (Pc T)}
    (hrun : Reaches (machine l) anyMove (started clock) c) :
    (∀ a, (c.db.grants.countP fun t => a ≤ t ∧ t < a+l.window) ≤ l.limit.toNat) ∧
    ∀ i now c' wakeAt, next (machine l) c (i,now) = some c' → c'.pc i = .sleeping wakeAt →
      ∃ g ∈ c'.db.timestamps, g ∈ c'.db.grants ∧ now-g < l.window ∧
        ∀ d woken d', Reaches (machine l) anyMove c' d → d.pc i = .sleeping wakeAt →
          next (machine l) d (i,woken) = some d' → l.window ≤ woken-g := by
  have hlimited := limited_of_reaches hrun
  refine ⟨hlimited.bound,?_⟩
  intro i now c' wakeAt hnext hpc
  obtain ⟨s,pc,hs,rfl⟩ := next_eq_some.mp hnext
  obtain ⟨hclock,_,hturn⟩ := step_eq_some hs
  have hsleeping : pc = .sleeping wakeAt := by
    simpa using hpc
  subst hsleeping
  obtain ⟨g,hg,hgrant,hin,hleft⟩ := refused_names_grant hlimited hclock hturn.symm
  refine ⟨g,hg,hgrant,hin,?_⟩
  intro d woken d' _ hasleep hwake
  obtain ⟨_,_,hstep,_⟩ := next_eq_some.mp hwake
  have hlate : wakeAt ≤ woken := (step_eq_some hstep).2.1 wakeAt hasleep
  exact le_trans hleft (sub_le_sub_right hlate g)

end Order

def noon : Config (Shared ℤ) (Pc ℤ) :=
  after (machine waLimiter) anyMove (started 0) ((List.range 8).map fun i => (i,0))

/-- Eight callers are served at once, the ninth comes ten seconds later and sleeps until one has left. -/
theorem wait_for_rate_limit_limits_noon : noon.db.grants = List.replicate 8 0 ∧
    (∀ a, (noon.db.grants.countP fun t => a ≤ t ∧ t < a+60000) ≤ 8) ∧
    ∃ c', next (machine waLimiter) noon (8,10000) = some c' ∧ c'.pc 8 = .sleeping 60050 ∧
      ∃ g ∈ c'.db.grants, ∀ d woken d', Reaches (machine waLimiter) anyMove c' d →
        d.pc 8 = .sleeping 60050 → next (machine waLimiter) d (8,woken) = some d' → 60000 ≤ woken-g := by
  have hlimits := wait_for_rate_limit_limits (reaches_after (machine waLimiter) anyMove (started 0)
    ((List.range 8).map fun i => (i,0)))
  refine ⟨rfl,hlimits.1,_,rfl,rfl,?_⟩
  obtain ⟨g,_,hgrant,_,hleft⟩ := hlimits.2 8 10000 _ 60050 rfl rfl
  exact ⟨g,hgrant,hleft⟩

/-- The limiter of a messenger whose clock ticks `second` times a second -/
def ofMessenger (m : AccountWorker.Messenger) (buffer : ℤ) (hbuffer : 0 ≤ buffer) : Limiter ℤ :=
  ⟨60*m.second,buffer,m.rateLimitPerMinute,hbuffer⟩

/-- What the consumer does while it waits for the limit is a turn of this loop. -/
theorem consume_waitForRateLimit (m : AccountWorker.Messenger) {buffer : ℤ} (hbuffer : 0 ≤ buffer)
    {w : AccountWorker.Worker} {t : AccountWorker.Task} (inp : AccountWorker.Input)
    (hpc : w.pc = .waitForRateLimit t) :
    AccountWorker.consume m w inp =
      some { w with
        timestamps := (turn (ofMessenger m buffer hbuffer) inp.now w.timestamps).1
        pc := if (turn (ofMessenger m buffer hbuffer) inp.now w.timestamps).2 = .granted then
          .sendMessage t else .waitForRateLimit t } := by
  have hlist : recent (60*m.second) inp.now w.timestamps =
      w.timestamps.filter fun s => inp.now-s < 60*m.second := rfl
  unfold AccountWorker.consume
  rw [hpc]
  simp only [← hlist]
  obtain ⟨hroom,ht⟩ | ⟨hfull,hrest⟩ := turn_cases (ofMessenger m buffer hbuffer) inp.now w.timestamps
  · have hlt : (recent (60*m.second) inp.now w.timestamps).length < m.rateLimitPerMinute := by
      exact Int.ofNat_lt.mp hroom
    rw [if_pos hlt,ht,if_pos rfl]
    rfl
  · have hge : ¬(recent (60*m.second) inp.now w.timestamps).length < m.rateLimitPerMinute := by
      exact fun hlt => hfull (Int.ofNat_lt.mpr hlt)
    rw [if_neg hge]
    obtain ⟨hempty,ht⟩ | ⟨oldest,rest,hcons,ht⟩ := hrest
    · rw [ht,if_neg (by simp),← hempty,← hpc]
      rfl
    · rw [ht,if_neg (by simp),← hcons,← hpc]
      rfl

end RateLimiter
end Broadcaster
