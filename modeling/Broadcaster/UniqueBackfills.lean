import Broadcaster.LatestRows
import Broadcaster.ScheduleService
import Broadcaster.TableStatements
import Mathlib.Data.Prod.Lex

/-!
# The rows that are closed before a unique index

`alembic/versions/0018_subscriptions_unique_user.py` and
`0021_payments_open_intent_index.py`. One `UPDATE` closes, for each user, all
open rows but one, and the partial unique index is created over what is left.
The two statements differ in which rows are open, in what they are ordered by and
in how a row is closed. Each row's subquery reads the table before the statement
or the table as updated so far.
-/

namespace Broadcaster
namespace UniqueBackfills

open OffsetPages ScheduleService TableStatements

structure Backfill (Row : Type) where
  isOpen : Row → Bool
  owner : Row → ℕ
  /-- The column of `ORDER BY ... DESC`; the id decides between equals. -/
  rank : Row → Instant
  close : Row → Row
  closed : ∀ r, isOpen (close r) = false

namespace Backfill

variable {Row : Type} (b : Backfill Row)

def key (p : ℕ × Row) : Instant ×ₗ ℕ := toLex (b.rank p.2,p.1)

/-- `WHERE keeper.user_id = user AND keeper.<is open>` -/
def openRows (t : Store Row) (user : ℕ) : List (ℕ × Row) :=
  t.select fun r => b.owner r == user && b.isOpen r

/-- `SELECT keeper.id ... ORDER BY keeper.<rank> DESC, keeper.id DESC LIMIT 1` -/
def keeper (t : Store Row) (user : ℕ) : Option ℕ :=
  ((b.openRows t user).mergeSort fun p q => decide (b.key q ≤ b.key p)).head?.map Prod.fst

/-- `UPDATE ... WHERE <is open> AND id <> (SELECT keeper.id ...)`; nothing differs from `NULL`. -/
def statement : Statement Row := fun t i r =>
  some (if b.isOpen r && (b.keeper t (b.owner r)).any (· ≠ i) then b.close r else r)

/-- `CREATE UNIQUE INDEX ... (user_id) WHERE <is open>` finds no two rows of one user. -/
def createIndex (t : Store Row) : Bool := ((t.select b.isOpen).map fun p => b.owner p.2).Nodup

/-- Row `i` is open and the greatest by rank and id among the open rows of its user. -/
def Greatest (t : Store Row) (user i : ℕ) : Prop :=
  ∃ r, t.row i = some r ∧ b.isOpen r = true ∧ b.owner r = user ∧
    ∀ j q, t.row j = some q → b.isOpen q = true → b.owner q = user →
      b.rank q < b.rank r ∨ b.rank q = b.rank r ∧ j ≤ i

variable {b} {s s' t : Store Row} {user i j : ℕ} {r q : Row}

theorem mem_openRows : (i,r) ∈ b.openRows t user ↔
    t.row i = some r ∧ b.isOpen r = true ∧ b.owner r = user := by
  simp only [openRows,Store.mem_select,Bool.and_eq_true,beq_iff_eq]
  exact and_congr_right fun _ => and_comm

theorem key_le : b.key (j,q) ≤ b.key (i,r) ↔ b.rank q < b.rank r ∨ b.rank q = b.rank r ∧ j ≤ i := by
  simp only [key,Prod.Lex.toLex_le_toLex]

theorem Greatest.unique (hi : b.Greatest t user i) (hj : b.Greatest t user j) : i = j := by
  obtain ⟨r,hr,hro,hru,hrmax⟩ := hi
  obtain ⟨q,hq,hqo,hqu,hqmax⟩ := hj
  have hkey : b.key (i,r) = b.key (j,q) :=
    le_antisymm (key_le.mpr (hqmax i r hr hro hru)) (key_le.mpr (hrmax j q hq hqo hqu))
  exact congrArg (fun k => (ofLex k).2) hkey

theorem keeper_greatest (h : b.keeper t user = some i) : b.Greatest t user i := by
  obtain ⟨⟨j,r⟩,hhead,rfl⟩ := Option.map_eq_some_iff.mp h
  have hordered := ordered_mergeSort b.key (b.openRows t user)
  obtain ⟨rest,hrest⟩ := List.head?_eq_some_iff.mp hhead
  rw [hrest] at hordered
  have hmem : (j,r) ∈ b.openRows t user := hordered.perm.mem_iff.mp (by simp)
  obtain ⟨hr,hopen,huser⟩ := mem_openRows.mp hmem
  refine ⟨r,hr,hopen,huser,fun k q hq hqo hqu => ?_⟩
  have hk : (k,q) ∈ (j,r) :: rest := hordered.perm.mem_iff.mpr (mem_openRows.mpr ⟨hq,hqo,hqu⟩)
  rcases List.mem_cons.mp hk with he | hk
  · cases he
    exact Or.inr ⟨rfl,le_refl _⟩
  · exact key_le.mp ((List.pairwise_cons.mp hordered.sorted).1 _ hk)

theorem keeper_eq_none (h : b.keeper t user = none) : b.openRows t user = [] := by
  have hordered := ordered_mergeSort b.key (b.openRows t user)
  have hnil := List.head?_eq_none_iff.mp (Option.map_eq_none_iff.mp h)
  rw [hnil] at hordered
  exact hordered.perm.nil_eq.symm

/-- The subquery returns the greatest row, and nothing only where there is no open row. -/
theorem keeper_eq_some_iff : b.keeper t user = some i ↔ b.Greatest t user i := by
  refine ⟨keeper_greatest,fun h => ?_⟩
  cases hk : b.keeper t user with
  | some j => rw [(keeper_greatest hk).unique h]
  | none =>
    obtain ⟨r,hr,hopen,huser,_⟩ := h
    have hmem := mem_openRows.mpr ⟨hr,hopen,huser⟩
    rw [keeper_eq_none hk] at hmem
    cases hmem

theorem exists_greatest (hr : t.row i = some r) (hopen : b.isOpen r = true) :
    ∃ k, b.Greatest t (b.owner r) k := by
  cases hk : b.keeper t (b.owner r) with
  | some k => exact ⟨k,keeper_greatest hk⟩
  | none =>
    have hmem := mem_openRows.mpr ⟨hr,hopen,rfl⟩
    rw [keeper_eq_none hk] at hmem
    cases hmem

theorem statement_greatest (h : b.Greatest t (b.owner r) i) : b.statement t i r = some r := by
  rw [statement,keeper_eq_some_iff.mpr h]
  simp

theorem statement_open (h : b.isOpen r = true) (hk : b.Greatest t (b.owner r) j) (hne : i ≠ j) :
    b.statement t i r = some (b.close r) := by
  rw [statement,keeper_eq_some_iff.mpr hk]
  simp [h,hne.symm]

theorem statement_of_closed (h : b.isOpen r = false) : b.statement t i r = some r := by
  simp [statement,h]

theorem partly_open (hpartly : Partly b.statement s t) (hr : t.row i = some r)
    (hopen : b.isOpen r = true) : s.row i = some r := by
  rcases hpartly i with h | h
  · rwa [h] at hr
  · rw [h] at hr
    obtain ⟨q,hq,hstep⟩ := Option.bind_eq_some_iff.mp hr
    simp only [statement,Option.some.injEq] at hstep
    split at hstep
    · rw [← hstep,b.closed] at hopen
      cases hopen
    · rwa [hstep] at hq

theorem partly_greatest (hpartly : Partly b.statement s t) (h : b.Greatest s user i) :
    b.Greatest t user i := by
  have hgreatest := h
  obtain ⟨r,hr,hopen,rfl,hmax⟩ := h
  refine ⟨r,?_,hopen,rfl,fun j q hq hqo => hmax j q (partly_open hpartly hq hqo) hqo⟩
  rcases hpartly i with ht | ht
  · rwa [ht]
  · rw [ht,hr,Option.bind_some,statement_greatest hgreatest]

theorem statement_stable (b : Backfill Row) (s : Store Row) : Stable b.statement s := by
  intro t hpartly i r hr
  cases hopen : b.isOpen r with
  | false => rw [statement_of_closed hopen,statement_of_closed hopen]
  | true =>
    obtain ⟨k,hk⟩ := exists_greatest hr hopen
    simp only [statement,keeper_eq_some_iff.mpr hk,keeper_eq_some_iff.mpr (partly_greatest hpartly hk)]

variable (b) in
structure Settled (s s' : Store Row) : Prop where
  no_new : ∀ i, s.row i = none → s'.row i = none
  /-- the greatest of the open rows of a user stays as it is -/
  kept : ∀ i r, s.row i = some r → b.Greatest s (b.owner r) i → s'.row i = some r
  one_left : ∀ i r, s.row i = some r → b.isOpen r = true → ∃ k, b.Greatest s (b.owner r) k
  once : ∀ i j r q, s'.row i = some r → s'.row j = some q → b.isOpen r = true → b.isOpen q = true →
    b.owner r = b.owner q → i = j
  /-- the others of a user are closed and keep their other columns -/
  closed : ∀ i r, s.row i = some r → b.isOpen r = true → ¬b.Greatest s (b.owner r) i →
    s'.row i = some (b.close r)
  untouched : ∀ i r, s.row i = some r → b.isOpen r = false → s'.row i = some r
  indexed : b.createIndex s' = true

theorem snapshot_open (hr : (snapshot b.statement s).row i = some r) (hopen : b.isOpen r = true) :
    b.Greatest s (b.owner r) i := by
  have hs : s.row i = some r := partly_open (fun _ => Or.inr rfl) hr hopen
  obtain ⟨k,hk⟩ := exists_greatest hs hopen
  by_cases hi : i = k
  · rwa [hi]
  · rw [snapshot,Store.row_rewrite,hs,Option.bind_some,statement_open hopen hk hi] at hr
    rw [← Option.some.inj hr,b.closed] at hopen
    cases hopen

theorem createIndex_of_once (h : ∀ i j r q, t.row i = some r → t.row j = some q → b.isOpen r = true →
    b.isOpen q = true → b.owner r = b.owner q → i = j) : b.createIndex t = true := by
  have hnodup : (t.select b.isOpen).Nodup := List.Nodup.of_map _ (t.select_ids_nodup b.isOpen)
  refine decide_eq_true (List.Nodup.map_on ?_ hnodup)
  rintro ⟨i,r⟩ hr ⟨j,q⟩ hq howner
  obtain ⟨hr,hro⟩ := Store.mem_select.mp hr
  obtain ⟨hq,hqo⟩ := Store.mem_select.mp hq
  have hij := h i j r q hr hq hro hqo howner
  subst hij
  rw [hr] at hq
  rw [Option.some.inj hq]

theorem snapshot_settled (b : Backfill Row) (s : Store Row) : b.Settled s (snapshot b.statement s) := by
  have hrow : ∀ {i r}, s.row i = some r → (snapshot b.statement s).row i = b.statement s i r := by
    intro i r hr
    rw [snapshot,Store.row_rewrite,hr,Option.bind_some]
  have honce : ∀ i j r q, (snapshot b.statement s).row i = some r →
      (snapshot b.statement s).row j = some q → b.isOpen r = true → b.isOpen q = true →
      b.owner r = b.owner q → i = j := by
    intro i j r q hr hq hro hqo howner
    exact (snapshot_open hr hro).unique (howner ▸ snapshot_open hq hqo)
  refine ⟨?_,?_,?_,honce,?_,?_,createIndex_of_once honce⟩
  · intro i hi
    rw [snapshot,Store.row_rewrite,hi]
    rfl
  · intro i r hr hgreatest
    rw [hrow hr,statement_greatest hgreatest]
  · intro i r hr hopen
    exact exists_greatest hr hopen
  · intro i r hr hopen hnot
    obtain ⟨k,hk⟩ := exists_greatest hr hopen
    have hne : i ≠ k := by
      rintro rfl
      exact hnot hk
    rw [hrow hr,statement_open hopen hk hne]
  · intro i r hr hclosed
    rw [hrow hr,statement_of_closed hclosed]

theorem executes_settled (h : Executes b.statement s s') : b.Settled s s' := by
  rw [h.eq_snapshot (statement_stable b s)]
  exact snapshot_settled b s

end Backfill

/-- A row of `subscriptions` with `others` for the columns that no statement reads or writes. -/
structure SubscriptionRow (Columns : Type) where
  userId : ℕ
  plan : String
  expiresAt : Instant
  isActive : Bool
  others : Columns

/-- `_DEACTIVATE_DUPLICATES` and the index `uq_subscriptions_active_user` of revision 0018 -/
def deactivateDuplicates (Columns : Type) : Backfill (SubscriptionRow Columns) where
  isOpen := SubscriptionRow.isActive
  owner := SubscriptionRow.userId
  rank := SubscriptionRow.expiresAt
  close := fun r => { r with isActive := false }
  closed := fun _ => rfl

structure PaymentRow (Columns : Type) where
  userId : ℕ
  kind : String
  status : String
  createdAt : Instant
  others : Columns

/-- `_EXPIRE_OLDER_INTENTS` and the index `uq_payments_open_subscription_intent` of revision 0021 -/
def expireOlderIntents (Columns : Type) : Backfill (PaymentRow Columns) where
  isOpen := fun r => r.kind == "subscription" && r.status == "pending"
  owner := PaymentRow.userId
  rank := PaymentRow.createdAt
  close := fun r => { r with status := "expired" }
  closed := fun _ => by simp

section Upgrades

variable {Columns : Type} {subscriptions subscriptions' : Store (SubscriptionRow Columns)}
  {payments payments' : Store (PaymentRow Columns)}

/-- Whatever the tables hold and in whatever order the rows are updated, one open row of each user is left,
the greatest, and the indexes can be created. -/
theorem upgrades_settle
    (hsubscriptions : Executes (deactivateDuplicates Columns).statement subscriptions subscriptions')
    (hpayments : Executes (expireOlderIntents Columns).statement payments payments') :
    (deactivateDuplicates Columns).Settled subscriptions subscriptions' ∧
      (expireOlderIntents Columns).Settled payments payments' :=
  ⟨Backfill.executes_settled hsubscriptions,Backfill.executes_settled hpayments⟩

end Upgrades

def duplicates : Store (SubscriptionRow Unit) :=
  (((Store.empty _).insert ⟨7,"pro",40,true,()⟩).insert ⟨7,"free",40,true,()⟩).insert ⟨7,"pro",90,false,()⟩

def intents : Store (PaymentRow Unit) :=
  ((Store.empty _).insert ⟨7,"subscription","pending",5,()⟩).insert ⟨7,"subscription","pending",9,()⟩

/-- SQLite visits the subscriptions from the last to the first, PostgreSQL reads the payments first. -/
theorem upgrades_settle_ties :
    (deactivateDuplicates Unit).Settled duplicates
        ([2,1,0].foldl (visit (deactivateDuplicates Unit).statement) duplicates) ∧
      (expireOlderIntents Unit).Settled intents (snapshot (expireOlderIntents Unit).statement intents) := by
  have hall : ∀ i r, duplicates.row i = some r → i ∈ [2,1,0] := by
    intro i r hr
    have hi : i < 3 := Store.row_lt hr
    have : i = 0 ∨ i = 1 ∨ i = 2 := by omega
    rcases this with rfl | rfl | rfl <;> decide
  exact upgrades_settle (.rowByRow [2,1,0] (by decide) hall) .atOnce

end UniqueBackfills
end Broadcaster
