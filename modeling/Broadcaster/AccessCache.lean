import Broadcaster.PaymentSafety

/-!
# The cached verdict on the access of one user

`check_access_cached` looks for a verdict under the key of the user, otherwise
reads the subscription and fills the key. `handle_webhook` for a subscription
payment and `admin_toggle_free_access` write the subscription, commit, and delete
the key. One move is what happens up to the next `await` that another request
could use; the flush of a row and the COMMIT after it are one move.
-/

namespace Broadcaster
namespace AccessCache

open Calendar SubscriptionPeriod Interleaving PaymentService

def subscriptionIsLive (expiresAt now : DateTime) : Bool :=
  (normalizeUtc now).micros < (normalizeUtc expiresAt).micros

def accessIsOpen (subscription : Option Subscription) (now : DateTime) : Bool :=
  match subscription with
  | none => false
  | some s => s.isActive && (s.hasFreeAccess || subscriptionIsLive s.expiresAt now)

/-- What a check answers: `allowed` and `reason`. -/
abbrev Verdict := Bool × String

def accessClosedReason : String := "access_closed"

def verdict (subscription : Option Subscription) (now : DateTime) : Verdict :=
  if accessIsOpen subscription now then (true,"") else (false,accessClosedReason)

/-- The value of the key `access:{user_id}`. What the row was like when the verdict was read is
recorded for the proofs; no statement looks at it. -/
structure Entry where
  verdict : Verdict
  /-- in microseconds -/
  expiresAt : ℕ
  version : ℕ
  readAt : DateTime

/-- The subscription of the user and the key. The number and the time of the last COMMIT that wrote
the row, and whether its writer has still to delete the key, are a record that no statement reads. -/
structure Db where
  row : Option Subscription
  cache : Option Entry
  clock : DateTime
  version : ℕ
  writtenAt : DateTime
  unsettled : Bool

def Db.activeSubscription (db : Db) : Option Subscription := db.row.filter Subscription.isActive

/-- What `check_access` would answer at this time. -/
def checkAccess (db : Db) (now : DateTime) : Verdict := verdict db.activeSubscription now

inductive Pc
  /-- `handle_webhook` for a payment of the subscription, before `_claim_payment` -/
  | claim
  | extend (now : DateTime)
  | insertSubscription (now : DateTime)
  | reread (now : DateTime)
  | commitExtension (expiry : DateTime)
  /-- `admin_toggle_free_access` -/
  | toggle
  | commitFreeAccess (hasFreeAccess : Bool)
  | invalidate (version : ℕ) (writtenAt : DateTime)
  | returned (version : ℕ) (writtenAt : DateTime)
  | finished
  /-- `check_access_cached` with the action `send` -/
  | check
  | readDatabase
  | decide (subscription : Option Subscription) (version : ℕ)
  | fill (verdict : Verdict) (version : ℕ) (readAt : DateTime)
  | answered (verdict : Verdict)
  deriving DecidableEq

structure Input where
  now : DateTime
  /-- The Redis command takes effect. -/
  ok : Bool
  /-- The conditional update of the payment has found it pending. -/
  claimed : Bool

def Db.write (db : Db) (row : Option Subscription) (now : DateTime) : Db :=
  { db with row := row, version := db.version+1, writtenAt := now, unsettled := true }

def Db.cached (db : Db) (now : DateTime) : Option Entry := db.cache.filter fun e => now.micros < e.expiresAt

def applyExtension (s : Subscription) (now : DateTime) : Pc :=
  match nextExpiry (some s.expiresAt) now with
  | some expiry => .commitExtension expiry
  | none => .finished

variable (user billingCacheTtl : ℕ)

def setex (v : Verdict) (version : ℕ) (readAt now : DateTime) : Entry where
  verdict := v
  expiresAt := now.micros+billingCacheTtl*1000000
  version := version
  readAt := readAt

/-- The next statement of a request, at a time that is not before the last one. -/
def statement (db : Db) (pc : Pc) (inp : Input) : Option (Db × Pc) :=
  match pc with
  | .claim => some (db,if inp.claimed then .extend inp.now else .finished)
  | .extend now =>
    match db.activeSubscription with
    | some s => some (db,applyExtension s now)
    | none => some (db,.insertSubscription now)
  | .insertSubscription now =>
    match nextExpiry none now with
    | none => some (db,.finished)
    | some expiry =>
      if db.activeSubscription.isSome then some (db,.reread now)
      else some (db.write (some (firstSubscription user expiry)) inp.now,
        .invalidate (db.version+1) inp.now)
  | .reread now =>
    match db.activeSubscription with
    | some s => some (db,applyExtension s now)
    | none => some (db,.finished)
  | .commitExtension expiry =>
    some (db.write (db.row.map fun s => s.withExpiry expiry) inp.now,.invalidate (db.version+1) inp.now)
  | .toggle =>
    match db.activeSubscription with
    | some s => some (db,.commitFreeAccess !s.hasFreeAccess)
    | none => some (db,.finished)
  | .commitFreeAccess hasFreeAccess =>
    some (db.write (db.row.map fun s => { s with hasFreeAccess := hasFreeAccess }) inp.now,
      .invalidate (db.version+1) inp.now)
  | .invalidate version writtenAt =>
    some ({ db with
        cache := if inp.ok then none else db.cache
        unsettled := if version = db.version then false else db.unsettled },
      .returned version writtenAt)
  | .returned _ _ => none
  | .finished => none
  | .check =>
    match if inp.ok then db.cached inp.now else none with
    | some e => some (db,.answered e.verdict)
    | none => some (db,.readDatabase)
  | .readDatabase => some (db,.decide db.activeSubscription db.version)
  | .decide subscription version => some (db,.fill (verdict subscription inp.now) version inp.now)
  | .fill v version readAt =>
    some ({ db with cache :=
        if inp.ok then some (setex billingCacheTtl v version readAt inp.now) else db.cache },
      .answered v)
  | .answered _ => none

def step (db : Db) (pc : Pc) (inp : Input) : Option (Db × Pc) :=
  if inp.now.micros < db.clock.micros then none
  else statement user billingCacheTtl { db with clock := inp.now } pc inp

def machine : Machine Db Pc Input where
  step := fun db _ pc inp => step user billingCacheTtl db pc inp

def Current (db : Db) (v : Verdict) (version : ℕ) (readAt : DateTime) : Prop :=
  version ≤ db.version ∧ (version = db.version →
    v = checkAccess db readAt ∧ db.writtenAt.micros ≤ readAt.micros ∧ readAt.micros ≤ db.clock.micros)

def Pc.isCheck : Pc → Bool
  | .check | .finished => true
  | _ => false

def Pc.isStart : Pc → Bool
  | .claim | .toggle | .check | .finished => true
  | _ => false

structure Initial (c : Config Db Pc) : Prop where
  starts : ∀ i, (c.pc i).isStart = true
  clock : c.db.writtenAt.micros ≤ c.db.clock.micros
  settled : c.db.unsettled = false
  cache : ∀ e ∈ c.db.cache, e.version = c.db.version ∧ Current c.db e.verdict e.version e.readAt

/-- A verdict that was read before the last COMMIT reaches the key only while its writer has still to
delete the key, and that deletion does not fail on such a verdict. -/
def Fills (db : Db) (pc : Pc) (inp : Input) : Prop :=
  match pc with
  | .fill _ version _ => inp.ok = true → version = db.version ∨ db.unsettled = true
  | .invalidate version _ => version = db.version →
    inp.ok = true ∨ ∀ e ∈ db.cache, e.version = db.version
  | _ => True

def fillsBeforeInvalidation (c : Config Db Pc) (m : Move Input) : Prop := Fills c.db (c.pc m.1) m.2

variable {user billingCacheTtl : ℕ} {db db' : Db}

theorem accessIsOpen_earlier {subscription : Option Subscription} {now later : DateTime}
    (h : now.micros ≤ later.micros) (hopen : accessIsOpen subscription later = true) :
    accessIsOpen subscription now = true := by
  cases subscription with
  | none => exact hopen
  | some s =>
    simp only [accessIsOpen,subscriptionIsLive,Bool.and_eq_true,Bool.or_eq_true,decide_eq_true_eq]
      at hopen ⊢
    refine ⟨hopen.1,hopen.2.imp id (fun hlive => ?_)⟩
    exact Nat.lt_of_le_of_lt h hlive

theorem verdict_between {subscription : Option Subscription} {early now later : DateTime}
    (hearly : early.micros ≤ now.micros) (hlater : now.micros ≤ later.micros)
    (hsame : verdict subscription early = verdict subscription later) :
    verdict subscription now = verdict subscription later := by
  unfold verdict at hsame ⊢
  cases hopen : accessIsOpen subscription later with
  | true => rw [accessIsOpen_earlier hlater hopen]
  | false =>
    rw [hopen] at hsame
    cases hnow : accessIsOpen subscription now with
    | false => rfl
    | true =>
      rw [accessIsOpen_earlier hearly hnow] at hsame
      cases hsame

/-- Time goes on, and the row is as before or has been written by a later COMMIT. -/
structure Later (db db' : Db) : Prop where
  clock : db.clock.micros ≤ db'.clock.micros
  row : db.version < db'.version ∨
    (db'.version = db.version ∧ db'.row = db.row ∧ db'.writtenAt = db.writtenAt)

theorem Later.version (h : Later db db') : db.version ≤ db'.version := by
  rcases h.row with h | ⟨h,_⟩ <;> omega

theorem Current.later {v : Verdict} {version : ℕ} {readAt : DateTime} (hc : Current db v version readAt)
    (h : Later db db') : Current db' v version readAt := by
  obtain ⟨hle,hread⟩ := hc
  refine ⟨Nat.le_trans hle h.version,fun he => ?_⟩
  rcases h.row with hlt | ⟨hversion,hrow,hwritten⟩
  · omega
  · obtain ⟨hv,hearly,hlate⟩ := hread (by omega)
    refine ⟨?_,?_,Nat.le_trans hlate h.clock⟩
    · rw [hv]
      unfold checkAccess Db.activeSubscription
      rw [hrow]
    · rw [hwritten]
      exact hearly

theorem later_clock (now : DateTime) (h : db.clock.micros ≤ now.micros) : Later db { db with clock := now } :=
  ⟨h,.inr ⟨rfl,rfl,rfl⟩⟩

structure Store (db : Db) : Prop where
  clock : db.writtenAt.micros ≤ db.clock.micros
  current : ∀ e ∈ db.cache, Current db e.verdict e.version e.readAt
  settled : ∀ e ∈ db.cache, e.version = db.version ∨ db.unsettled = true

def Knows (db : Db) : Pc → Prop
  | .decide subscription version =>
    version ≤ db.version ∧ (version = db.version → subscription = db.activeSubscription)
  | .fill v version readAt => Current db v version readAt
  | .invalidate version writtenAt =>
    version ≤ db.version ∧ (version = db.version → writtenAt = db.writtenAt)
  | .returned version writtenAt => version ≤ db.version ∧
    (version = db.version → writtenAt = db.writtenAt ∧ db.unsettled = false)
  | _ => True

variable {pc pc' : Pc} {inp : Input}

theorem step_eq_some (h : step user billingCacheTtl db pc inp = some (db',pc')) :
    db.clock.micros ≤ inp.now.micros ∧
      statement user billingCacheTtl { db with clock := inp.now } pc inp = some (db',pc') := by
  unfold step at h
  split at h
  · cases h
  · exact ⟨by omega,h⟩

def Pc.plain : Pc → Bool
  | .decide _ _ | .fill _ _ _ | .invalidate _ _ | .returned _ _ => false
  | _ => true

theorem knows_of_plain (h : pc.plain = true) : Knows db pc := by
  cases pc with
  | decide _ _ | fill _ _ _ | invalidate _ _ | returned _ _ => cases h
  | claim | extend _ | insertSubscription _ | reread _ | commitExtension _ | toggle
  | commitFreeAccess _ | finished | check | readDatabase | answered _ => trivial

inductive Quiet (db : Db) (inp : Input) : Pc → Pc → Prop
  | read : Quiet db inp .readDatabase (.decide db.activeSubscription db.version)
  | decide (subscription : Option Subscription) (version : ℕ) :
    Quiet db inp (.decide subscription version) (.fill (verdict subscription inp.now) version inp.now)
  | other {pc pc' : Pc} (h : pc'.plain = true) : Quiet db inp pc pc'

inductive Effect (billingCacheTtl : ℕ) (db : Db) (inp : Input) : Pc → Db → Pc → Prop
  | write (pc : Pc) (row : Option Subscription) : Effect billingCacheTtl db inp pc (db.write row inp.now)
    (.invalidate (db.version+1) inp.now)
  | invalidate (version : ℕ) (writtenAt : DateTime) : Effect billingCacheTtl db inp
    (.invalidate version writtenAt)
    { db with
      cache := if inp.ok then none else db.cache
      unsettled := if version = db.version then false else db.unsettled }
    (.returned version writtenAt)
  | fill (v : Verdict) (version : ℕ) (readAt : DateTime) : Effect billingCacheTtl db inp
    (.fill v version readAt)
    { db with cache :=
      if inp.ok then some (setex billingCacheTtl v version readAt inp.now) else db.cache }
    (.answered v)
  | quiet {pc pc' : Pc} (h : Quiet db inp pc pc') : Effect billingCacheTtl db inp pc db pc'

theorem plain_applyExtension (s : Subscription) (now : DateTime) : (applyExtension s now).plain = true := by
  unfold applyExtension
  split <;> rfl

theorem effect_of_statement (h : statement user billingCacheTtl db pc inp = some (db',pc')) :
    Effect billingCacheTtl db inp pc db' pc' := by
  cases pc with
  | claim =>
    simp only [statement,Option.some.injEq,Prod.mk.injEq] at h
    obtain ⟨rfl,rfl⟩ := h
    refine .quiet (.other ?_)
    split <;> rfl
  | extend now =>
    simp only [statement] at h
    split at h
    · cases h
      exact .quiet (.other (plain_applyExtension _ _))
    · cases h
      exact .quiet (.other rfl)
  | insertSubscription now =>
    simp only [statement] at h
    split at h
    · cases h
      exact .quiet (.other rfl)
    · split at h
      · cases h
        exact .quiet (.other rfl)
      · cases h
        exact .write _ _
  | reread now =>
    simp only [statement] at h
    split at h
    · cases h
      exact .quiet (.other (plain_applyExtension _ _))
    · cases h
      exact .quiet (.other rfl)
  | commitExtension expiry =>
    simp only [statement,Option.some.injEq,Prod.mk.injEq] at h
    obtain ⟨rfl,rfl⟩ := h
    exact .write _ _
  | toggle =>
    simp only [statement] at h
    split at h
    · cases h
      exact .quiet (.other rfl)
    · cases h
      exact .quiet (.other rfl)
  | commitFreeAccess hasFreeAccess =>
    simp only [statement,Option.some.injEq,Prod.mk.injEq] at h
    obtain ⟨rfl,rfl⟩ := h
    exact .write _ _
  | invalidate version writtenAt =>
    simp only [statement,Option.some.injEq,Prod.mk.injEq] at h
    obtain ⟨rfl,rfl⟩ := h
    exact .invalidate _ _
  | check =>
    simp only [statement] at h
    split at h
    · cases h
      exact .quiet (.other rfl)
    · cases h
      exact .quiet (.other rfl)
  | readDatabase =>
    simp only [statement,Option.some.injEq,Prod.mk.injEq] at h
    obtain ⟨rfl,rfl⟩ := h
    exact .quiet .read
  | decide subscription version =>
    simp only [statement,Option.some.injEq,Prod.mk.injEq] at h
    obtain ⟨rfl,rfl⟩ := h
    exact .quiet (.decide _ _)
  | fill v version readAt =>
    simp only [statement,Option.some.injEq,Prod.mk.injEq] at h
    obtain ⟨rfl,rfl⟩ := h
    exact .fill _ _ _
  | returned version writtenAt => cases h
  | finished => cases h
  | answered v => cases h

/-- What a step leaves of a store: it is later, and nobody but a COMMIT leaves something to delete. -/
theorem Effect.later (h : Effect billingCacheTtl db inp pc db' pc') :
    Later db db' ∧ (db'.version = db.version → db.unsettled = false → db'.unsettled = false) := by
  cases h with
  | write _ row =>
    have hlt : db.version < (db.write row inp.now).version := Nat.lt_succ_self _
    exact ⟨⟨Nat.le_refl _,.inl hlt⟩,fun he => absurd he (Nat.ne_of_gt hlt)⟩
  | invalidate version writtenAt =>
    refine ⟨⟨Nat.le_refl _,.inr ⟨rfl,rfl,rfl⟩⟩,fun _ hsettled => ?_⟩
    simp only
    split
    · rfl
    · exact hsettled
  | fill v version readAt => exact ⟨⟨Nat.le_refl _,.inr ⟨rfl,rfl,rfl⟩⟩,fun _ hsettled => hsettled⟩
  | quiet _ => exact ⟨⟨Nat.le_refl _,.inr ⟨rfl,rfl,rfl⟩⟩,fun _ hsettled => hsettled⟩

theorem Knows.later (hk : Knows db pc) (h : Later db db')
    (hsettled : db'.version = db.version → db.unsettled = false → db'.unsettled = false) :
    Knows db' pc := by
  have hsame : ∀ version, version ≤ db.version → version = db'.version →
      version = db.version ∧ db'.row = db.row ∧ db'.writtenAt = db.writtenAt := by
    intro version hle he
    rcases h.row with hlt | ⟨hversion,hrow,hwritten⟩
    · omega
    · exact ⟨by omega,hrow,hwritten⟩
  cases pc with
  | decide subscription version =>
    refine ⟨Nat.le_trans hk.1 h.version,fun he => ?_⟩
    obtain ⟨hversion,hrow,_⟩ := hsame version hk.1 he
    rw [hk.2 hversion]
    unfold Db.activeSubscription
    rw [hrow]
  | fill v version readAt => exact Current.later hk h
  | invalidate version writtenAt =>
    refine ⟨Nat.le_trans hk.1 h.version,fun he => ?_⟩
    obtain ⟨hversion,_,hwritten⟩ := hsame version hk.1 he
    rw [hk.2 hversion,hwritten]
  | returned version writtenAt =>
    refine ⟨Nat.le_trans hk.1 h.version,fun he => ?_⟩
    obtain ⟨hversion,_,hwritten⟩ := hsame version hk.1 he
    obtain ⟨hat,hdone⟩ := hk.2 hversion
    exact ⟨hat.trans hwritten.symm,hsettled (by omega) hdone⟩
  | claim | extend _ | insertSubscription _ | reread _ | commitExtension _ | toggle
  | commitFreeAccess _ | finished | check | readDatabase | answered _ => trivial

theorem store_clock (hs : Store db) {now : DateTime} (h : db.clock.micros ≤ now.micros) :
    Store { db with clock := now } :=
  ⟨Nat.le_trans hs.clock h,fun e he => (hs.current e he).later (later_clock now h),hs.settled⟩

theorem store_effect (hs : Store db) (hk : Knows db pc) (hnow : db.clock = inp.now)
    (hg : Fills db pc inp) (h : Effect billingCacheTtl db inp pc db' pc') : Store db' ∧ Knows db' pc' := by
  have hlater := h.later.1
  cases h with
  | write _ row =>
    refine ⟨⟨?_,fun e he => (hs.current e he).later hlater,fun _ _ => .inr rfl⟩,Nat.le_refl _,fun _ => rfl⟩
    simp only [Db.write,hnow,Nat.le_refl]
  | invalidate version writtenAt =>
    have hkept : ∀ e, e ∈ (if inp.ok = true then none else db.cache) → inp.ok ≠ true ∧ e ∈ db.cache := by
      intro e he
      split at he
      · cases he
      · rename_i hok
        exact ⟨hok,he⟩
    refine ⟨⟨hs.clock,fun e he => ?_,fun e he => ?_⟩,hk.1,fun hversion => ?_⟩
    · exact (hs.current e (hkept e he).2).later hlater
    · obtain ⟨hok,hmem⟩ := hkept e he
      by_cases hversion : version = db.version
      · rcases hg hversion with h | h
        · exact absurd h hok
        · exact .inl (h e hmem)
      · simp only [if_neg hversion]
        exact hs.settled e hmem
    · exact ⟨hk.2 hversion,if_pos hversion⟩
  | fill v version readAt =>
    have hfilled : ∀ e, e ∈ (if inp.ok = true then
        some (setex billingCacheTtl v version readAt inp.now) else db.cache) →
        (inp.ok = true ∧ e = setex billingCacheTtl v version readAt inp.now) ∨ e ∈ db.cache := by
      intro e he
      split at he
      · rename_i hok
        exact .inl ⟨hok,(Option.some.inj he).symm⟩
      · exact .inr he
    refine ⟨⟨hs.clock,fun e he => ?_,fun e he => ?_⟩,trivial⟩
    · rcases hfilled e he with ⟨_,rfl⟩ | hmem
      · exact Current.later hk hlater
      · exact (hs.current e hmem).later hlater
    · rcases hfilled e he with ⟨hok,rfl⟩ | hmem
      · exact hg hok
      · exact hs.settled e hmem
  | quiet hq =>
    refine ⟨hs,?_⟩
    cases hq with
    | read => exact ⟨Nat.le_refl _,fun _ => rfl⟩
    | decide subscription version =>
      refine ⟨hk.1,fun he => ⟨?_,?_,?_⟩⟩
      · rw [hk.2 he]
        rfl
      · rw [← hnow]
        exact hs.clock
      · rw [hnow]
    | other hplain => exact knows_of_plain hplain

variable {a b c : Config Db Pc}

theorem asserted_reaches (h : Reaches (machine user billingCacheTtl) fillsBeforeInvalidation a b)
    (ha : Asserted Store (fun db _ pc => Knows db pc) a) :
    Asserted Store (fun db _ pc => Knows db pc) b := by
  apply asserted_of_reaches ?_ ?_ h ha
  · intro c i inp db pc hc hg hs
    obtain ⟨hnow,hstatement⟩ := step_eq_some hs
    have hk : Knows { c.db with clock := inp.now } (c.pc i) :=
      (hc.process i).later (later_clock inp.now hnow) (fun _ h => h)
    exact store_effect (store_clock hc.store hnow) hk rfl hg (effect_of_statement hstatement)
  · intro c i inp db pc j hc _ hs _
    obtain ⟨hnow,hstatement⟩ := step_eq_some hs
    obtain ⟨hlater,hsettled⟩ := (effect_of_statement hstatement).later
    have hk : Knows { c.db with clock := inp.now } (c.pc j) :=
      (hc.process j).later (later_clock inp.now hnow) (fun _ h => h)
    exact hk.later hlater hsettled

theorem Initial.asserted (ha : Initial a) : Asserted Store (fun db _ pc => Knows db pc) a := by
  refine ⟨⟨ha.clock,fun e he => (ha.cache e he).2,fun e he => .inl (ha.cache e he).1⟩,fun i => ?_⟩
  have hstart := ha.starts i
  cases hpc : a.pc i with
  | claim | toggle | check | finished => trivial
  | extend _ | insertSubscription _ | reread _ | commitExtension _ | commitFreeAccess _
  | invalidate _ _ | returned _ _ | readDatabase | decide _ _ | fill _ _ _ | answered _ =>
    rw [hpc] at hstart
    cases hstart

/-- A check that reads no version of the row older than this one. -/
def Reads (version : ℕ) : Pc → Prop
  | .check | .readDatabase | .answered _ => True
  | .decide _ read => version ≤ read
  | .fill _ read _ => version ≤ read
  | _ => False

theorem reads_statement {version : ℕ} (hversion : version ≤ db.version) (hpc : Reads version pc)
    (h : statement user billingCacheTtl db pc inp = some (db',pc')) : Reads version pc' := by
  cases pc with
  | check =>
    simp only [statement] at h
    split at h
    · cases h
      trivial
    · cases h
      trivial
  | readDatabase =>
    simp only [statement,Option.some.injEq,Prod.mk.injEq] at h
    obtain ⟨_,rfl⟩ := h
    exact hversion
  | decide subscription read =>
    simp only [statement,Option.some.injEq,Prod.mk.injEq] at h
    obtain ⟨_,rfl⟩ := h
    exact hpc
  | fill v read readAt =>
    simp only [statement,Option.some.injEq,Prod.mk.injEq] at h
    obtain ⟨_,rfl⟩ := h
    trivial
  | answered v => cases h
  | claim | extend _ | insertSubscription _ | reread _ | commitExtension _ | toggle
  | commitFreeAccess _ | invalidate _ _ | returned _ _ | finished => exact absurd hpc id

/-- Request `w` has returned after its COMMIT, and check `j` has begun since. -/
structure Begun (w j version : ℕ) (writtenAt : DateTime) (c : Config Db Pc) : Prop where
  le : version ≤ c.db.version
  returned : c.pc w = .returned version writtenAt
  reads : Reads version (c.pc j)

theorem begun_reaches {w j version : ℕ} {writtenAt : DateTime}
    (h : Reaches (machine user billingCacheTtl) fillsBeforeInvalidation b c)
    (hb : Begun w j version writtenAt b) : Begun w j version writtenAt c := by
  refine h.invariant ?_ hb
  rintro c ⟨i,inp⟩ c' hc _ hm
  obtain ⟨db,pc,hs,rfl⟩ := next_eq_some.mp hm
  obtain ⟨_,hstatement⟩ := step_eq_some hs
  have hlater := (effect_of_statement hstatement).later.1
  refine ⟨Nat.le_trans hc.le hlater.version,?_,?_⟩
  · have hne : w ≠ i := by
      rintro rfl
      simp only [hc.returned] at hstatement
      cases hstatement
    simpa [Function.update_of_ne hne] using hc.returned
  · by_cases hji : j = i
    · subst hji
      have hle : version ≤ ({ c.db with clock := inp.now } : Db).version := hc.le
      simpa using reads_statement hle hc.reads hstatement
    · simpa [Function.update_of_ne hji] using hc.reads

/-- A check that began after the writer had returned answers by the row that it has written, unless
the row has been written again. -/
theorem answer_of_begun {w j version : ℕ} {writtenAt : DateTime} {v : Verdict}
    (hc : Asserted Store (fun db _ pc => Knows db pc) c) (hbegun : Begun w j version writtenAt c)
    (hs : step user billingCacheTtl c.db (c.pc j) inp = some (db',.answered v))
    (hversion : db'.version = version) :
    ∃ readAt, v = checkAccess db' readAt ∧ writtenAt.micros ≤ readAt.micros ∧
      readAt.micros ≤ db'.clock.micros := by
  obtain ⟨hnow,hstatement⟩ := step_eq_some hs
  have hlater := (effect_of_statement hstatement).later.1
  have hwriter : Knows c.db (c.pc w) := hc.process w
  rw [hbegun.returned] at hwriter
  have hle : version ≤ c.db.version := hbegun.le
  have hstill : c.db.version = version := by
    have hmono : c.db.version ≤ db'.version := hlater.version
    omega
  obtain ⟨hwritten,hsettled⟩ := hwriter.2 hstill.symm
  have hcheck : Knows c.db (c.pc j) := hc.process j
  have hreads := hbegun.reads
  cases hpc : c.pc j with
  | check =>
    rw [hpc] at hstatement
    simp only [statement] at hstatement
    split at hstatement
    · rename_i e he
      cases hstatement
      have hmem : e ∈ c.db.cache := by
        split at he
        · exact (Option.filter_eq_some_iff.mp he).1
        · cases he
      have hcurrent := (hc.store.current e hmem).later (later_clock inp.now hnow)
      have hfresh : e.version = c.db.version := by
        rcases hc.store.settled e hmem with h | h
        · exact h
        · rw [hsettled] at h
          cases h
      obtain ⟨hv,hearly,hlate⟩ := hcurrent.2 hfresh
      exact ⟨e.readAt,hv,hwritten ▸ hearly,hlate⟩
    · cases hstatement
  | fill v' read readAt =>
    rw [hpc] at hstatement hcheck hreads
    simp only [statement,Option.some.injEq,Prod.mk.injEq,Pc.answered.injEq] at hstatement
    obtain ⟨rfl,rfl⟩ := hstatement
    have hread : read = c.db.version := by
      have h₁ : read ≤ c.db.version := hcheck.1
      have h₂ : version ≤ read := hreads
      omega
    obtain ⟨hv,hearly,hlate⟩ := (Current.later hcheck (later_clock inp.now hnow)).2 hread
    exact ⟨readAt,hv,hwritten ▸ hearly,hlate⟩
  | readDatabase | decide _ _ =>
    rw [hpc] at hstatement
    simp [statement] at hstatement
  | answered _ =>
    rw [hpc] at hstatement
    cases hstatement
  | claim | extend _ | insertSubscription _ | reread _ | commitExtension _ | toggle
  | commitFreeAccess _ | invalidate _ _ | returned _ _ | finished =>
    rw [hpc] at hreads
    exact absurd hreads id

structure OnlyWriter (w : ℕ) (c : Config Db Pc) : Prop where
  others : ∀ i, i ≠ w → Reads 0 (c.pc i) ∨ c.pc i = .finished
  last : ∀ version writtenAt, c.pc w = .invalidate version writtenAt ∨ c.pc w = .returned version writtenAt →
    version = c.db.version

theorem version_of_reads (h : Effect billingCacheTtl db inp pc db' pc') (hpc' : Reads 0 pc') :
    db'.version = db.version := by
  cases h with
  | write _ row => exact absurd hpc' id
  | invalidate version writtenAt => rfl
  | fill v version readAt => rfl
  | quiet _ => rfl

theorem last_of_effect (h : Effect billingCacheTtl db inp pc db' pc')
    (hlast : ∀ version writtenAt, pc = .invalidate version writtenAt → version = db.version)
    {version : ℕ} {writtenAt : DateTime}
    (hpc' : pc' = .invalidate version writtenAt ∨ pc' = .returned version writtenAt) :
    version = db'.version := by
  cases h with
  | write _ row =>
    rcases hpc' with he | he <;> cases he
    rfl
  | invalidate version' writtenAt' =>
    rcases hpc' with he | he <;> cases he
    exact hlast _ _ rfl
  | fill v version' readAt => rcases hpc' with he | he <;> cases he
  | quiet hq =>
    cases hq with
    | read => rcases hpc' with he | he <;> cases he
    | decide _ _ => rcases hpc' with he | he <;> cases he
    | other hplain => rcases hpc' with rfl | rfl <;> cases hplain

theorem onlyWriter_reaches {w : ℕ} (h : Reaches (machine user billingCacheTtl) fillsBeforeInvalidation a b)
    (ha : OnlyWriter w a) : OnlyWriter w b := by
  refine h.invariant ?_ ha
  rintro c ⟨i,inp⟩ c' hc _ hm
  obtain ⟨db,pc,hs,rfl⟩ := next_eq_some.mp hm
  obtain ⟨_,hstatement⟩ := step_eq_some hs
  have heffect := effect_of_statement hstatement
  by_cases hi : i = w
  · subst hi
    refine ⟨fun k hk => ?_,fun version writtenAt h => ?_⟩
    · simpa [Function.update_of_ne hk] using hc.others k hk
    · simp only [Function.update_self] at h
      exact last_of_effect heffect (fun _ _ he => hc.last _ _ (.inl he)) h
  · have hreads : Reads 0 pc := by
      rcases hc.others i hi with h | h
      · exact reads_statement (Nat.zero_le _) h hstatement
      · simp only [h] at hstatement
        cases hstatement
    refine ⟨fun k hk => ?_,fun version writtenAt h => ?_⟩
    · by_cases hki : k = i
      · subst hki
        exact .inl (by simpa using hreads)
      · simpa [Function.update_of_ne hki] using hc.others k hk
    · simp only [Function.update_of_ne (Ne.symm hi)] at h
      rw [version_of_reads heffect hreads]
      exact hc.last version writtenAt h

/-- A check that starts after a writer has returned answers by what the writer has stored: it does
not answer that access is closed while it is open if that was the only writer, and it answers the
verdict of the stored row if the row has not been written again and its expiry has not passed. -/
theorem answers_after_writer (user billingCacheTtl : ℕ) (a b c d : Config Db Pc) (w j version : ℕ)
    (writtenAt : DateTime) (inp : Input) (v : Verdict) (ha : Initial a)
    (hab : Reaches (machine user billingCacheTtl) fillsBeforeInvalidation a b)
    (hw : b.pc w = .returned version writtenAt) (hj : b.pc j = .check)
    (hbc : Reaches (machine user billingCacheTtl) fillsBeforeInvalidation b c)
    (hcd : next (machine user billingCacheTtl) c (j,inp) = some d) (hv : d.pc j = .answered v) :
    (a.pc w = .claim → (∀ i, i ≠ w → (a.pc i).isCheck = true) →
      accessIsOpen d.db.activeSubscription d.db.clock = true → v.1 = true) ∧
    (a.pc w = .toggle → d.db.version = version →
      checkAccess d.db writtenAt = checkAccess d.db d.db.clock → v = checkAccess d.db d.db.clock) := by
  have hb := asserted_reaches hab ha.asserted
  have hc := asserted_reaches hbc hb
  have hknows : Knows b.db (b.pc w) := hb.process w
  rw [hw] at hknows
  have hbegun : Begun w j version writtenAt c :=
    begun_reaches hbc ⟨hknows.1,hw,by rw [hj]; trivial⟩
  obtain ⟨db,pc,hs,rfl⟩ := next_eq_some.mp hcd
  simp only [Function.update_self] at hv
  subst hv
  constructor
  · intro hclaim hothers hopen
    have honly : OnlyWriter w c := by
      refine onlyWriter_reaches hbc (onlyWriter_reaches hab ⟨fun i hi => ?_,fun _ _ h => ?_⟩)
      · have hcheck := hothers i hi
        cases hpc : a.pc i <;> rw [hpc] at hcheck <;> first
          | exact .inl trivial
          | exact .inr rfl
          | cases hcheck
      · rw [hclaim] at h
        rcases h with h | h <;> cases h
    have hlast := honly.last version writtenAt (.inr hbegun.returned)
    have hsame := version_of_reads (effect_of_statement (step_eq_some hs).2) trivial
    obtain ⟨readAt,hv,_,hlate⟩ := answer_of_begun hc hbegun hs (hsame.trans hlast.symm)
    rw [hv]
    unfold checkAccess verdict
    rw [accessIsOpen_earlier hlate hopen]
    rfl
  · intro _ hversion hsame
    obtain ⟨readAt,hv,hearly,hlate⟩ := answer_of_begun hc hbegun hs hversion
    exact hv.trans (verdict_between hearly hlate hsame)

def expired : Subscription where
  userId := 1
  expiresAt := noon 1 1 first_of_january
  isActive := true
  hasFreeAccess := false

/-- Two checks and a payment of a user whose subscription has expired. -/
def paymentAndChecks : Config Db Pc where
  db := ⟨some expired,none,noon 1 2 second_of_january,0,noon 1 1 first_of_january,false⟩
  pc := fun i => if i = 1 then .claim else if i = 0 ∨ i = 2 then .check else .finished

theorem paymentAndChecks_initial : Initial paymentAndChecks := by
  refine ⟨fun i => ?_,by decide,rfl,fun e he => by cases he⟩
  simp only [paymentAndChecks]
  split
  · rfl
  · split <;> rfl

def moment (day : ℕ) (h : 1 ≤ 1 ∧ 1 ≤ 12 ∧ 1 ≤ day ∧ day ≤ monthLength 2026 1) : Input where
  now := noon 1 day h
  ok := true
  claimed := true

instance (c : Config Db Pc) (m : Move Input) : Decidable (fillsBeforeInvalidation c m) := by
  unfold fillsBeforeInvalidation Fills
  split <;> infer_instance

def following (c : Config Db Pc) (m : Move Input) : Config Db Pc := (next (machine 1 60) c m).getD c

theorem next_following (c : Config Db Pc) (m : Move Input) (h : (next (machine 1 60) c m).isSome = true) :
    next (machine 1 60) c m = some (following c m) := by
  unfold following
  cases hn : next (machine 1 60) c m with
  | none =>
    rw [hn] at h
    cases h
  | some d => rfl

/-- The first check reads the row before the payment is committed. -/
def readFirst : List (Move Input) :=
  [(0,moment 3 third_of_january),(0,moment 3 third_of_january),(0,moment 3 third_of_january),
    (1,moment 4 fourth_of_january),(1,moment 4 fourth_of_january),(1,moment 4 fourth_of_january)]

def lastMove (j : ℕ) : Move Input := (j,moment 4 fourth_of_january)

/-- The first check fills the key while the webhook has still to delete it. -/
def paidInTime : Config Db Pc :=
  after (machine 1 60) fillsBeforeInvalidation paymentAndChecks (readFirst ++ [lastMove 0,lastMove 1])

def aboutToFill : Config Db Pc :=
  after (machine 1 60) fillsBeforeInvalidation paidInTime [lastMove 2,lastMove 2,lastMove 2]

theorem paymentAndChecks_others (i : ℕ) (hi : i ≠ 1) : (paymentAndChecks.pc i).isCheck = true := by
  simp only [paymentAndChecks,if_neg hi]
  split <;> rfl

set_option maxRecDepth 4000 in
theorem answers_after_writer_inTime : (following aboutToFill (lastMove 2)).pc 2 = .answered (true,"") ∧
    ((true,"") : Verdict).1 = true := by
  have hanswer := answers_after_writer 1 60 paymentAndChecks paidInTime aboutToFill
    (following aboutToFill (lastMove 2)) 1 2 1 (noon 1 4 fourth_of_january) (moment 4 fourth_of_january) (true,"")
    paymentAndChecks_initial (reaches_after _ _ _ _) (by decide) (by decide) (reaches_after _ _ _ _)
    (next_following aboutToFill (lastMove 2) (by decide)) (by decide)
  exact ⟨by decide,hanswer.1 (by decide) paymentAndChecks_others (by decide)⟩

/-- The first check fills the key after the webhook has deleted it. -/
def paid : Config Db Pc := after (machine 1 60) anyMove paymentAndChecks (readFirst ++ [lastMove 1])

def filled : Config Db Pc := after (machine 1 60) anyMove paid [lastMove 0]

set_option maxRecDepth 4000 in
theorem closed_after_payment : ¬ ∀ (user billingCacheTtl : ℕ) (a b c d : Config Db Pc) (w j version : ℕ)
    (writtenAt : DateTime) (inp : Input) (v : Verdict), Initial a →
    Reaches (machine user billingCacheTtl) anyMove a b → b.pc w = .returned version writtenAt →
    b.pc j = .check → Reaches (machine user billingCacheTtl) anyMove b c →
    next (machine user billingCacheTtl) c (j,inp) = some d → d.pc j = .answered v → a.pc w = .claim →
    (∀ i, i ≠ w → (a.pc i).isCheck = true) →
    accessIsOpen d.db.activeSubscription d.db.clock = true → v.1 = true := by
  intro hall
  have hanswer := hall 1 60 paymentAndChecks paid filled (following filled (lastMove 2)) 1 2 1
    (noon 1 4 fourth_of_january) (moment 4 fourth_of_january) (false,accessClosedReason) paymentAndChecks_initial
    (reaches_after _ _ _ _) (by decide) (by decide) (reaches_after _ _ _ _)
    (next_following filled (lastMove 2) (by decide)) (by decide) rfl paymentAndChecks_others (by decide)
  cases hanswer

end AccessCache
end Broadcaster
