import Broadcaster.Interleaving
import Mathlib.Data.List.Pairwise

/-!
# The window of a retry

The handlers of `history_retry` in one web process and the registry
`_RETRY_IN_FLIGHT`. One move is what a handler does between two of its awaits.
Times are microseconds of the monotonic clock. What a handler finds in the
database is an outcome of its awaits.
-/

namespace Broadcaster
namespace RetryWindow

open Interleaving

/-- `RETRY_COOLDOWN_SECONDS`, in microseconds -/
def retryCooldown : ℕ := 60000000

structure Enqueued where
  record : ℕ
  openedAt : ℕ
  time : ℕ
  deriving DecidableEq

/-- The clock, `_RETRY_IN_FLIGHT` and the tasks in the order in which they were enqueued. -/
structure Db where
  clock : ℕ
  inFlight : ℕ → Option ℕ
  enqueued : List Enqueued

/-- What `celery.send_task` does. Only `OperationalError` says that nothing was delivered. -/
inductive SendTask
  | returned | operationalError | raised (delivered : Bool)
  deriving DecidableEq

inductive Pc
  /-- The record has been loaded; it is the user's and has failed. -/
  | claim (record : ℕ)
  | checking (record openedAt : ℕ)
  | checkAccess (record openedAt : ℕ)
  /-- A refusal or an exception is on its way out, before the `finally`. -/
  | leaving (record openedAt : ℕ)
  | ended
  deriving DecidableEq

structure Input where
  now : ℕ
  passed : Bool
  sendTask : SendTask

def sweep (inFlight : ℕ → Option ℕ) (now : ℕ) (record : ℕ) : Option ℕ :=
  (inFlight record).filter fun deadline => now < deadline

def Db.withWindow (db : Db) (record deadline : ℕ) : Db :=
  { db with inFlight := Function.update db.inFlight record (some deadline) }

def Db.swept (db : Db) (now : ℕ) : Db := { db with inFlight := sweep db.inFlight now }

def claimRetrySlot (db : Db) (record now : ℕ) : Db × Bool :=
  if ((db.swept now).inFlight record).any fun deadline => now < deadline then (db.swept now,false)
  else ((db.swept now).withWindow record (now+retryCooldown),true)

def releaseRetrySlot (db : Db) (record : ℕ) : Db :=
  { db with inFlight := Function.update db.inFlight record none }

def enqueue (db : Db) (record openedAt now : ℕ) : Db :=
  { db with enqueued := db.enqueued ++ [⟨record,openedAt,now⟩] }

def statement (db : Db) (pc : Pc) (inp : Input) : Option (Db × Pc) :=
  match pc with
  | .claim record =>
    match claimRetrySlot db record db.clock with
    | (db,true) => some (db,.checking record db.clock)
    | (db,false) => some (db,.ended)
  | .checking record openedAt =>
    some (db,if inp.passed then .checkAccess record openedAt else .leaving record openedAt)
  | .checkAccess record openedAt =>
    if inp.passed then
      match inp.sendTask with
      | .returned | .raised true => some (enqueue db record openedAt db.clock,.ended)
      | .raised false => some (db,.ended)
      | .operationalError => some (releaseRetrySlot db record,.ended)
    else some (db,.leaving record openedAt)
  | .leaving record _ => some (releaseRetrySlot db record,.ended)
  | .ended => none

def step (db : Db) (pc : Pc) (inp : Input) : Option (Db × Pc) :=
  if inp.now < db.clock then none else statement { db with clock := inp.now } pc inp

def machine : Machine Db Pc Input where
  step := fun db _ pc inp => step db pc inp

structure Initial (c : Config Db Pc) : Prop where
  starts : ∀ p, (∃ record, c.pc p = .claim record) ∨ c.pc p = .ended
  inFlight : ∀ record, c.db.inFlight record = none
  enqueued : c.db.enqueued = []

/-- The hold of a request is its own until it leaves. -/
def inTime (db : Db) (record openedAt now : ℕ) : Prop :=
  now < openedAt+retryCooldown ∨ ∀ deadline ∈ db.inFlight record, deadline ≤ now

/-- A task is enqueued before the end of the window that its request has opened, and a request that
releases a window later than that finds no other one. -/
def keepsOwnWindow (c : Config Db Pc) (m : Move Input) : Prop :=
  match c.pc m.1 with
  | .checkAccess record openedAt => m.2.passed = true →
    match m.2.sendTask with
    | .returned | .raised true => m.2.now < openedAt+retryCooldown
    | .raised false => True
    | .operationalError => inTime c.db record openedAt m.2.now
  | .leaving record openedAt => inTime c.db record openedAt m.2.now
  | _ => True

/-- Two tasks of one record come from requests that opened their windows a cooldown apart, the later one
not before the window of the earlier one was over. -/
def Apart (a b : Enqueued) : Prop := a.record = b.record →
  a.openedAt+retryCooldown ≤ b.openedAt ∧ a.openedAt+retryCooldown ≤ b.time

/-- The record and the opening time of the window that a request has still to use or to release. -/
def Pc.holding : Pc → Option (ℕ × ℕ)
  | .checking record openedAt | .checkAccess record openedAt | .leaving record openedAt =>
    some (record,openedAt)
  | .claim _ | .ended => none

/-- An open window is in the registry for one request or one task, and every task of its record is older. -/
structure Window (c : Config Db Pc) : Prop where
  opened : ∀ p r t, (c.pc p).holding = some (r,t) → t ≤ c.db.clock
  held : ∀ p r t, (c.pc p).holding = some (r,t) → c.db.clock < t+retryCooldown →
    c.db.inFlight r = some (t+retryCooldown)
  once : ∀ p q r t, (c.pc p).holding = some (r,t) → (c.pc q).holding = some (r,t) →
    c.db.clock < t+retryCooldown → p = q
  logged : ∀ e ∈ c.db.enqueued, c.db.clock < e.openedAt+retryCooldown →
    c.db.inFlight e.record = some (e.openedAt+retryCooldown)
  older : ∀ p r t, (c.pc p).holding = some (r,t) → c.db.clock < t+retryCooldown →
    ∀ e ∈ c.db.enqueued, e.record = r → e.openedAt+retryCooldown ≤ t
  apart : c.db.enqueued.Pairwise Apart

variable {db : Db} {pcs : ℕ → Pc} {pc' : Pc} {p : ℕ} {r t now : ℕ}

theorem holding_of_update (h : (Function.update pcs p pc' q).holding = some (r,t)) :
    (q = p ∧ pc'.holding = some (r,t)) ∨ (q ≠ p ∧ (pcs q).holding = some (r,t)) := by
  by_cases hq : q = p
  · subst hq
    rw [Function.update_self] at h
    exact .inl ⟨rfl,h⟩
  · rw [Function.update_of_ne hq] at h
    exact .inr ⟨hq,h⟩

theorem Window.tick (h : Window ⟨db,pcs⟩) (hnow : db.clock ≤ now) : Window ⟨{ db with clock := now },pcs⟩ where
  opened := fun p r t hp => Nat.le_trans (h.opened p r t hp) hnow
  held := fun p r t hp hlive => h.held p r t hp (Nat.lt_of_le_of_lt hnow hlive)
  once := fun p q r t hp hq hlive => h.once p q r t hp hq (Nat.lt_of_le_of_lt hnow hlive)
  logged := fun e he hlive => h.logged e he (Nat.lt_of_le_of_lt hnow hlive)
  older := fun p r t hp hlive => h.older p r t hp (Nat.lt_of_le_of_lt hnow hlive)
  apart := h.apart

theorem Window.quiet {inFlight : ℕ → Option ℕ} (h : Window ⟨db,pcs⟩)
    (hpc : ∀ x, pc'.holding = some x → (pcs p).holding = some x)
    (hkept : ∀ r t, db.clock < t+retryCooldown → db.inFlight r = some (t+retryCooldown) →
      ((∃ q, (Function.update pcs p pc' q).holding = some (r,t)) ∨
        ∃ e ∈ db.enqueued, e.record = r ∧ e.openedAt = t) →
      inFlight r = some (t+retryCooldown)) :
    Window ⟨{ db with inFlight := inFlight },Function.update pcs p pc'⟩ := by
  have hbefore : ∀ q r t, (Function.update pcs p pc' q).holding = some (r,t) →
      (pcs q).holding = some (r,t) := by
    intro q r t hq
    rcases holding_of_update hq with ⟨rfl,hnew⟩ | ⟨_,hold⟩
    · exact hpc _ hnew
    · exact hold
  refine ⟨fun q r t hq => h.opened q r t (hbefore q r t hq),fun q r t hq hlive => ?_,
    fun q q' r t hq hq' => h.once q q' r t (hbefore q r t hq) (hbefore q' r t hq'),fun e he hlive => ?_,
    fun q r t hq => h.older q r t (hbefore q r t hq),h.apart⟩
  · exact hkept r t hlive (h.held q r t (hbefore q r t hq) hlive) (.inl ⟨q,hq⟩)
  · exact hkept e.record e.openedAt hlive (h.logged e he hlive) (.inr ⟨e,he,rfl,rfl⟩)

theorem Window.claimed (h : Window ⟨db,pcs⟩) (hfree : ∀ d ∈ db.inFlight r, d ≤ db.clock) :
    Window ⟨(db.swept db.clock).withWindow r (db.clock+retryCooldown),
      Function.update pcs p (.checking r db.clock)⟩ := by
  have hclosed : ∀ t, db.clock < t+retryCooldown → db.inFlight r ≠ some (t+retryCooldown) := by
    intro t hlive hd
    exact absurd (hfree _ hd) (Nat.not_le.mpr hlive)
  have hother : ∀ s t, db.clock < t+retryCooldown → db.inFlight s = some (t+retryCooldown) →
      ((db.swept db.clock).withWindow r (db.clock+retryCooldown)).inFlight s = some (t+retryCooldown) := by
    intro s t hlive hs
    have hne : s ≠ r := by
      rintro rfl
      exact hclosed t hlive hs
    simp only [Db.withWindow,Db.swept,Function.update_of_ne hne,sweep,hs]
    simpa [Option.filter] using hlive
  have hlater : ∀ e ∈ db.enqueued, e.record = r → e.openedAt+retryCooldown ≤ db.clock := by
    intro e he hr
    by_contra hlive
    refine hclosed e.openedAt (by omega) ?_
    rw [← hr]
    exact h.logged e he (Nat.not_le.mp hlive)
  have hnobody : ∀ q t, (pcs q).holding = some (r,t) → ¬ db.clock < t+retryCooldown :=
    fun q t hq hlive => hclosed t hlive (h.held q r t hq hlive)
  refine ⟨fun q s t hq => ?_,fun q s t hq hlive => ?_,fun q q' s t hq hq' hlive => ?_,
    fun e he hlive => hother e.record e.openedAt hlive (h.logged e he hlive),fun q s t hq hlive e he hs => ?_,h.apart⟩
  · rcases holding_of_update hq with ⟨_,hnew⟩ | ⟨_,hold⟩
    · cases hnew
      exact Nat.le_refl _
    · exact h.opened q s t hold
  · rcases holding_of_update hq with ⟨_,hnew⟩ | ⟨_,hold⟩
    · cases hnew
      exact Function.update_self _ _ _
    · exact hother s t hlive (h.held q s t hold hlive)
  · rcases holding_of_update hq with ⟨hqp,hnew⟩ | ⟨_,hold⟩
    · cases hnew
      rcases holding_of_update hq' with ⟨hqp',_⟩ | ⟨_,hold'⟩
      · rw [hqp,hqp']
      · exact absurd hlive (hnobody q' _ hold')
    · rcases holding_of_update hq' with ⟨_,hnew'⟩ | ⟨_,hold'⟩
      · cases hnew'
        exact absurd hlive (hnobody q _ hold)
      · exact h.once q q' s t hold hold' hlive
  · rcases holding_of_update hq with ⟨_,hnew⟩ | ⟨_,hold⟩
    · cases hnew
      exact hlater e he hs
    · exact h.older q s t hold hlive e he hs

theorem Window.sent (h : Window ⟨db,pcs⟩) (hp : (pcs p).holding = some (r,t))
    (hlive : db.clock < t+retryCooldown) :
    Window ⟨enqueue db r t db.clock,Function.update pcs p .ended⟩ := by
  have hother : ∀ q s u, (Function.update pcs p .ended q).holding = some (s,u) →
      q ≠ p ∧ (pcs q).holding = some (s,u) := by
    intro q s u hq
    rcases holding_of_update hq with ⟨_,hnew⟩ | hold
    · cases hnew
    · exact hold
  have hmem : ∀ e ∈ (enqueue db r t db.clock).enqueued, e ∈ db.enqueued ∨ e = ⟨r,t,db.clock⟩ := by
    intro e he
    simpa [enqueue] using he
  have hopened := h.opened p r t hp
  refine ⟨fun q s u hq => h.opened q s u (hother q s u hq).2,
    fun q s u hq => h.held q s u (hother q s u hq).2,
    fun q q' s u hq hq' => h.once q q' s u (hother q s u hq).2 (hother q' s u hq').2,fun e he hl => ?_,
    fun q s u hq hu e he hs => ?_,?_⟩
  · rcases hmem e he with hold | rfl
    · exact h.logged e hold hl
    · exact h.held p r t hp hlive
  · obtain ⟨hqp,hq⟩ := hother q s u hq
    rcases hmem e he with hold | rfl
    · exact h.older q s u hq hu e hold hs
    · -- two open windows of one record would be the same one
      have hheld := h.held p r t hp hlive
      have hheld' := h.held q s u hq hu
      subst hs
      rw [hheld] at hheld'
      have htu : t = u := by
        have heq := Option.some.inj hheld'
        omega
      subst htu
      exact absurd (h.once q p _ t hq hp hlive) hqp
  · refine List.pairwise_append.mpr ⟨h.apart,List.pairwise_singleton _ _,fun a ha b hb hab => ?_⟩
    rw [List.mem_singleton.mp hb] at hab ⊢
    have hbefore := h.older p r t hp hlive a ha hab
    exact ⟨hbefore,Nat.le_trans hbefore hopened⟩

theorem Window.released (h : Window ⟨db,pcs⟩) (hp : (pcs p).holding = some (r,t))
    (hown : inTime db r t db.clock) :
    Window ⟨releaseRetrySlot db r,Function.update pcs p .ended⟩ := by
  refine h.quiet (fun x hx => by cases hx) fun s u hlive hs hneed => ?_
  have hne : s ≠ r := by
    rintro rfl
    rcases hown with hopen | hover
    · have hheld := h.held p s t hp hopen
      rw [hs] at hheld
      have hut : u = t := by
        have heq := Option.some.inj hheld
        omega
      subst hut
      rcases hneed with ⟨q,hq⟩ | ⟨e,he,hes,heu⟩
      · rcases holding_of_update hq with ⟨_,hnew⟩ | ⟨hqp,hold⟩
        · cases hnew
        · exact hqp (h.once q p s u hold hp hlive)
      · have hbefore := h.older p s u hp hopen e he hes
        rw [heu] at hbefore
        unfold retryCooldown at hbefore
        omega
    · exact absurd (hover _ hs) (Nat.not_le.mpr hlive)
  rw [Function.update_of_ne hne]
  exact hs

theorem Window.swept (h : Window ⟨db,pcs⟩) (hpc : ∀ x, pc'.holding = some x → (pcs p).holding = some x) :
    Window ⟨db.swept db.clock,Function.update pcs p pc'⟩ := by
  refine h.quiet hpc fun s u hlive hs _ => ?_
  rw [sweep,hs]
  simpa [Option.filter] using hlive

theorem claimRetrySlot_cases (db : Db) (r : ℕ) : claimRetrySlot db r db.clock = (db.swept db.clock,false) ∨
    (claimRetrySlot db r db.clock = ((db.swept db.clock).withWindow r (db.clock+retryCooldown),true) ∧
      ∀ d ∈ db.inFlight r, d ≤ db.clock) := by
  unfold claimRetrySlot
  split
  · exact .inl rfl
  · rename_i hfree
    refine .inr ⟨rfl,fun d hd => ?_⟩
    by_contra hlive
    refine hfree ?_
    have hd : db.inFlight r = some d := hd
    simp [Db.swept,sweep,hd,Nat.not_le.mp hlive,Option.filter]

theorem Window.statement {db' : Db} {inp : Input} (h : Window ⟨db,pcs⟩) (hnow : inp.now = db.clock)
    (hg : keepsOwnWindow ⟨db,pcs⟩ (p,inp)) (hs : statement db (pcs p) inp = some (db',pc')) :
    Window ⟨db',Function.update pcs p pc'⟩ := by
  unfold keepsOwnWindow at hg
  cases hpc : pcs p with
  | claim r =>
    rw [hpc] at hs
    rcases claimRetrySlot_cases db r with hbusy | ⟨hopen,hfree⟩
    · simp only [RetryWindow.statement,hbusy,Option.some.injEq,Prod.mk.injEq] at hs
      obtain ⟨rfl,rfl⟩ := hs
      exact h.swept fun x hx => by cases hx
    · simp only [RetryWindow.statement,hopen,Option.some.injEq,Prod.mk.injEq] at hs
      obtain ⟨rfl,rfl⟩ := hs
      exact h.claimed hfree
  | checking r t =>
    rw [hpc] at hs
    simp only [RetryWindow.statement,Option.some.injEq,Prod.mk.injEq] at hs
    obtain ⟨rfl,rfl⟩ := hs
    refine h.quiet (fun x hx => ?_) fun _ _ _ hheld _ => hheld
    rw [hpc]
    split at hx <;> exact hx
  | checkAccess r t =>
    have hp : (pcs p).holding = some (r,t) := by rw [hpc]; rfl
    rw [hpc] at hs
    simp only [hpc] at hg
    simp only [RetryWindow.statement] at hs
    split at hs
    · rename_i hpassed
      have hg := hg hpassed
      split at hs
      · rename_i hsend
        cases hs
        rw [hsend] at hg
        exact h.sent hp (hnow ▸ hg)
      · rename_i hsend
        cases hs
        rw [hsend] at hg
        exact h.sent hp (hnow ▸ hg)
      · cases hs
        exact h.quiet (fun x hx => by cases hx) fun _ _ _ hheld _ => hheld
      · rename_i hsend
        cases hs
        rw [hsend] at hg
        exact h.released hp (hnow ▸ hg)
    · cases hs
      refine h.quiet (fun x hx => ?_) fun _ _ _ hheld _ => hheld
      rw [hpc]
      exact hx
  | leaving r t =>
    have hp : (pcs p).holding = some (r,t) := by rw [hpc]; rfl
    rw [hpc] at hs
    simp only [hpc] at hg
    cases hs
    exact h.released hp (hnow ▸ hg)
  | ended =>
    rw [hpc] at hs
    cases hs

theorem Window.next {c c' : Config Db Pc} {m : Move Input} (h : Window c) (hg : keepsOwnWindow c m)
    (hm : next machine c m = some c') : Window c' := by
  obtain ⟨db,pc,hs,rfl⟩ := next_eq_some.mp hm
  have hs : step c.db (c.pc m.1) m.2 = some (db,pc) := hs
  unfold step at hs
  split at hs
  · cases hs
  · rename_i hclock
    have hticked : Window ⟨{ c.db with clock := m.2.now },c.pc⟩ := h.tick (Nat.not_lt.mp hclock)
    exact hticked.statement rfl hg hs

theorem Initial.window {c : Config Db Pc} (h : Initial c) : Window c := by
  have hnobody : ∀ p r t, (c.pc p).holding ≠ some (r,t) := by
    intro p r t hp
    rcases h.starts p with ⟨record,hpc⟩ | hpc <;> rw [hpc] at hp <;> cases hp
  refine ⟨fun p r t hp => absurd hp (hnobody p r t),fun p r t hp => absurd hp (hnobody p r t),
    fun p q r t hp => absurd hp (hnobody p r t),fun e he => ?_,fun p r t hp => absurd hp (hnobody p r t),?_⟩
  · rw [h.enqueued] at he
    cases he
  · rw [h.enqueued]
    exact List.Pairwise.nil

/-- In every run in which no request outlives its own window, two tasks of one record come from requests
that opened their windows a cooldown apart, and the later task comes after the earlier window. -/
theorem retries_apart {a b : Config Db Pc} (ha : Initial a) (hab : Reaches machine keepsOwnWindow a b) :
    b.db.enqueued.Pairwise Apart :=
  (hab.invariant (fun _ _ _ hc hg hm => hc.next hg hm) ha.window).apart

def twoRetries : Config Db Pc where
  db := ⟨0,fun _ => none,[]⟩
  pc := fun
    | 0 => .claim 5
    | 1 => .claim 5
    | _ => .ended

theorem twoRetries_initial : Initial twoRetries := by
  refine ⟨fun p => ?_,fun _ => rfl,rfl⟩
  rcases p with _ | _ | p
  · exact .inl ⟨5,rfl⟩
  · exact .inl ⟨5,rfl⟩
  · exact .inr rfl

def atSecond (seconds p : ℕ) : Move Input := (p,⟨seconds*1000000,true,.returned⟩)

def sendsInTime (c : Config Db Pc) (m : Move Input) : Bool :=
  match c.pc m.1 with
  | .checkAccess _ openedAt => m.2.sendTask = .returned && m.2.now < openedAt+retryCooldown
  | .leaving _ _ => false
  | _ => true

theorem keepsOwnWindow_of_sendsInTime (c : Config Db Pc) (m : Move Input) (h : sendsInTime c m = true) :
    keepsOwnWindow c m := by
  unfold sendsInTime at h
  unfold keepsOwnWindow
  generalize c.pc m.1 = pc at h ⊢
  cases pc with
  | checkAccess r t =>
    simp only [Bool.and_eq_true,decide_eq_true_eq] at h
    intro _
    rw [h.1]
    exact h.2
  | leaving r t => cases h
  | _ => trivial

/-- The first request opens its window at once and enqueues after a second, the second one opens a minute
after the first. -/
def aMinuteApart (G : Config Db Pc → Move Input → Prop) [∀ c m, Decidable (G c m)] : Config Db Pc :=
  after machine G twoRetries [atSecond 0 0,atSecond 1 0,atSecond 1 0,atSecond 60 1,atSecond 60 1,atSecond 60 1]

theorem retries_apart_run : (aMinuteApart fun c m => sendsInTime c m = true).db.enqueued =
      [⟨5,0,1000000⟩,⟨5,60000000,60000000⟩] ∧
    (aMinuteApart fun c m => sendsInTime c m = true).db.enqueued.Pairwise Apart :=
  ⟨by decide,retries_apart twoRetries_initial ((reaches_after _ _ _ _).mono keepsOwnWindow_of_sendsInTime)⟩

/-- The two tasks of these requests, who keep to their windows, are enqueued 59 seconds apart. -/
theorem retries_less_than_cooldown : ¬ ∀ a b : Config Db Pc, Initial a →
    Reaches machine anyMove a b → b.db.enqueued.Pairwise fun e f => e.record = f.record →
      e.time+retryCooldown ≤ f.time := by
  intro hall
  have hpair := hall twoRetries (aMinuteApart anyMove) twoRetries_initial (reaches_after _ _ _ _)
  rw [show (aMinuteApart anyMove).db.enqueued = [⟨5,0,1000000⟩,⟨5,60000000,60000000⟩] by decide] at hpair
  have hapart := List.rel_of_pairwise_cons hpair List.mem_cons_self rfl
  exact absurd hapart (by decide)

end RetryWindow
end Broadcaster
