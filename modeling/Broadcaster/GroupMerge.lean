import Broadcaster.Dict
import Broadcaster.ScheduleService
import Broadcaster.TableStatements
import Mathlib.Data.List.Perm.Subperm

/-!
# Folding copies of a group

The statements over `groups` of `alembic/versions/0015_groups_unique_account_external.py`.
Rows of one account and one external id are copies. What the copies say is put
into the one of smallest id, and the others are deleted. The schedules are
remapped in between, from the table before the deletion.
-/

namespace Broadcaster
namespace GroupMerge

open ScheduleService TableStatements

/-- A row of `groups` with `others` for the columns that the revision neither reads nor writes. -/
structure GroupRow (Columns : Type) where
  accountId : ℕ
  groupExternalId : String
  isActive : Bool
  missingSince : Option Instant
  others : Columns

variable {Columns : Type}

/-- What `GROUP BY account_id, group_external_id` groups by. -/
def GroupRow.pair (r : GroupRow Columns) : ℕ × String := (r.accountId,r.groupExternalId)

def copies (t : Store (GroupRow Columns)) (pair : ℕ × String) : List (ℕ × GroupRow Columns) :=
  t.select fun r => r.pair = pair

def minId (t : Store (GroupRow Columns)) (pair : ℕ × String) : Option ℕ :=
  ((copies t pair).map Prod.fst).min?

/-- `SELECT MIN(id) FROM groups GROUP BY account_id, group_external_id HAVING ...` -/
def minIds (having : List (ℕ × GroupRow Columns) → Bool) (t : Store (GroupRow Columns)) : List ℕ :=
  (t.rows.map fun r => r.2.pair).eraseDups.filterMap fun pair =>
    if having (copies t pair) then minId t pair else none

/-- `COUNT(*) > 1` -/
def several (group : List (ℕ × GroupRow Columns)) : Bool := 1 < group.length

/-- `COUNT(*) > 1 AND MIN(CASE WHEN is_active THEN 1 ELSE 0 END) = 0` -/
def severalInactive (group : List (ℕ × GroupRow Columns)) : Bool :=
  several group && (group.map fun g => if g.2.isActive then 1 else 0).min? == some 0

/-- `SELECT MIN(missing_since)` of one group; a `NULL` does not count. -/
def earliest (t : Store (GroupRow Columns)) (pair : ℕ × String) : Option Instant :=
  ((copies t pair).filterMap fun g => g.2.missingSince).min?

def withIsActive (t : Store (GroupRow Columns)) (i : ℕ) (r : GroupRow Columns) : GroupRow Columns :=
  if i ∈ minIds severalInactive t then { r with isActive := false } else r

def mergeIsActive : Statement (GroupRow Columns) := fun t i r => some (withIsActive t i r)

def withMissingSince (t : Store (GroupRow Columns)) (i : ℕ) (r : GroupRow Columns) : GroupRow Columns :=
  if i ∈ minIds several t ∧ (earliest t r.pair).isSome = true
    then { r with missingSince := earliest t r.pair } else r

def mergeMissingSince : Statement (GroupRow Columns) := fun t i r => some (withMissingSince t i r)

def dropDuplicates : Statement (GroupRow Columns) := fun t i r =>
  if i ∈ minIds (fun _ => true) t then some r else none

/-- `_DUPLICATE_MAP`: the rows that are going to be deleted, each with the one that stays. The `JOIN` finds
for a row its own group. -/
def duplicateMap (t : Store (GroupRow Columns)) : List (ℕ × ℕ) :=
  t.rows.filterMap fun d =>
    if several (copies t d.2.pair) then
      (minId t d.2.pair).bind fun keep => if d.1 ≠ keep then some (d.1,keep) else none
    else none

structure Keeper (t : Store (GroupRow Columns)) (pair : ℕ × String) (i : ℕ) : Prop where
  member : ∃ r, t.row i = some r ∧ r.pair = pair
  smallest : ∀ j q, t.row j = some q → q.pair = pair → i ≤ j

variable {s t u : Store (GroupRow Columns)} {pair : ℕ × String} {i j k : ℕ} {r q : GroupRow Columns}

@[simp] theorem mem_copies : (i,r) ∈ copies t pair ↔ t.row i = some r ∧ r.pair = pair := by
  rw [copies,Store.mem_select,decide_eq_true_eq]

theorem minId_eq_some : minId t pair = some i ↔ Keeper t pair i := by
  rw [minId,List.min?_eq_some_iff]
  simp only [List.mem_map,Prod.exists,exists_and_right,exists_eq_right,mem_copies]
  constructor
  · rintro ⟨hmem,hle⟩
    exact ⟨hmem,fun j q hq hp => hle j ⟨q,hq,hp⟩⟩
  · rintro ⟨hmem,hle⟩
    refine ⟨hmem,?_⟩
    rintro j ⟨q,hq,hp⟩
    exact hle j q hq hp

theorem Keeper.unique (hi : Keeper t pair i) (hj : Keeper t pair j) : i = j := by
  obtain ⟨r,hr,hrp⟩ := hi.member
  obtain ⟨q,hq,hqp⟩ := hj.member
  exact le_antisymm (hi.smallest j q hq hqp) (hj.smallest i r hr hrp)

theorem exists_keeper (hr : t.row i = some r) : ∃ k, Keeper t r.pair k := by
  cases hmin : minId t r.pair with
  | some k => exact ⟨k,minId_eq_some.mp hmin⟩
  | none =>
    have hnil : copies t r.pair = [] := by
      simpa [minId,List.min?_eq_none_iff] using hmin
    have hmem : (i,r) ∈ copies t r.pair := mem_copies.mpr ⟨hr,rfl⟩
    rw [hnil] at hmem
    cases hmem

theorem mem_minIds {having : List (ℕ × GroupRow Columns) → Bool} : i ∈ minIds having t ↔
    ∃ pair, having (copies t pair) = true ∧ Keeper t pair i := by
  simp only [minIds,List.mem_filterMap,List.mem_eraseDups,List.mem_map]
  constructor
  · rintro ⟨pair,_,hmin⟩
    split at hmin
    · rename_i hhaving
      exact ⟨pair,hhaving,minId_eq_some.mp hmin⟩
    · cases hmin
  · rintro ⟨pair,hhaving,hkeeper⟩
    obtain ⟨r,hr,hpair⟩ := hkeeper.member
    have hrow : (i,r) ∈ t.rows := List.mem_of_mem_filter (mem_copies.mpr ⟨hr,hpair⟩)
    exact ⟨pair,⟨(i,r),hrow,hpair⟩,by rw [if_pos hhaving,minId_eq_some.mpr hkeeper]⟩

theorem mem_minIds_row {having : List (ℕ × GroupRow Columns) → Bool} (hr : t.row i = some r) :
    i ∈ minIds having t ↔ having (copies t r.pair) = true ∧ Keeper t r.pair i := by
  rw [mem_minIds]
  constructor
  · rintro ⟨pair,hhaving,hkeeper⟩
    obtain ⟨q,hq,rfl⟩ := hkeeper.member
    rw [hr] at hq
    cases hq
    exact ⟨hhaving,hkeeper⟩
  · exact fun h => ⟨r.pair,h⟩

theorem several_iff (hr : t.row i = some r) (hpair : r.pair = pair) :
    several (copies t pair) = true ↔ ∃ j q, t.row j = some q ∧ q.pair = pair ∧ j ≠ i := by
  rw [several,decide_eq_true_eq]
  constructor
  · intro hlength
    by_contra hnone
    have halone : ∀ j q, t.row j = some q → q.pair = pair → j = i := by
      intro j q hq hqp
      by_contra hne
      exact hnone ⟨j,q,hq,hqp,hne⟩
    have honce : t.Once fun q => decide (q.pair = pair) := by
      intro j k q p hq hp hqp hpp
      rw [halone j q hq (of_decide_eq_true hqp),halone k p hp (of_decide_eq_true hpp)]
    exact absurd hlength (not_lt.mpr honce.select_length)
  · rintro ⟨j,q,hq,hqp,hne⟩
    have hsub : [(i,r),(j,q)].Subperm (copies t pair) := by
      refine List.subperm_of_subset ?_ ?_
      · simp [hne.symm]
      · simp [hr,hq,hpair,hqp]
    exact hsub.length_le

theorem severalInactive_iff : severalInactive (copies t pair) = true ↔
    several (copies t pair) = true ∧ ∃ j q, t.row j = some q ∧ q.pair = pair ∧ q.isActive = false := by
  rw [severalInactive,Bool.and_eq_true,beq_iff_eq,List.min?_eq_some_iff]
  refine and_congr_right fun _ => ?_
  simp only [List.mem_map,Prod.exists,mem_copies,Nat.zero_le,implies_true,and_true]
  constructor
  · rintro ⟨j,q,⟨hq,hp⟩,hcase⟩
    refine ⟨j,q,hq,hp,?_⟩
    cases hactive : q.isActive with
    | false => rfl
    | true => simp [hactive] at hcase
  · rintro ⟨j,q,hq,hp,hinactive⟩
    exact ⟨j,q,⟨hq,hp⟩,by simp [hinactive]⟩

/-- Some copy has been missing since `m`, and none for longer. -/
def Earliest (t : Store (GroupRow Columns)) (pair : ℕ × String) (m : Instant) : Prop :=
  (∃ j q, t.row j = some q ∧ q.pair = pair ∧ q.missingSince = some m) ∧
    ∀ j q m', t.row j = some q → q.pair = pair → q.missingSince = some m' → m ≤ m'

theorem earliest_eq_some {m : Instant} : earliest t pair = some m ↔ Earliest t pair m := by
  rw [earliest,List.min?_eq_some_iff]
  simp only [List.mem_filterMap,Prod.exists,mem_copies,Earliest]
  constructor
  · rintro ⟨⟨j,q,⟨hq,hp⟩,hm⟩,hle⟩
    exact ⟨⟨j,q,hq,hp,hm⟩,fun j' q' m' hq' hp' hm' => hle m' ⟨j',q',⟨hq',hp'⟩,hm'⟩⟩
  · rintro ⟨⟨j,q,hq,hp,hm⟩,hle⟩
    refine ⟨⟨j,q,⟨hq,hp⟩,hm⟩,?_⟩
    rintro m' ⟨j',q',⟨hq',hp'⟩,hm'⟩
    exact hle j' q' m' hq' hp' hm'

theorem earliest_eq_none : earliest t pair = none ↔
    ∀ j q, t.row j = some q → q.pair = pair → q.missingSince = none := by
  rw [earliest,List.min?_eq_none_iff,List.filterMap_eq_nil_iff]
  simp only [Prod.forall,mem_copies]
  exact ⟨fun h j q hq hp => h j q ⟨hq,hp⟩,fun h j q hq => h j q hq.1 hq.2⟩

def SameGroups (s t : Store (GroupRow Columns)) : Prop :=
  ∀ i, (t.row i).map GroupRow.pair = (s.row i).map GroupRow.pair

theorem SameGroups.symm (h : SameGroups s t) : SameGroups t s := fun i => (h i).symm

theorem SameGroups.row (h : SameGroups s t) (hr : s.row i = some r) :
    ∃ r', t.row i = some r' ∧ r'.pair = r.pair := by
  have hi := h i
  rw [hr,Option.map_some,Option.map_eq_some_iff] at hi
  exact hi

theorem SameGroups.keeper (h : SameGroups s t) (hk : Keeper s pair i) : Keeper t pair i where
  member := by
    obtain ⟨r,hr,rfl⟩ := hk.member
    exact h.row hr
  smallest := by
    intro j q hq hpair
    obtain ⟨q',hq',hpair'⟩ := h.symm.row hq
    exact hk.smallest j q' hq' (hpair'.trans hpair)

theorem SameGroups.several (h : SameGroups s t) (hr : s.row i = some r) (hpair : r.pair = pair)
    (hs : several (copies s pair) = true) : several (copies t pair) = true := by
  obtain ⟨j,q,hq,hqp,hne⟩ := (several_iff hr hpair).mp hs
  obtain ⟨r',hr',hrp⟩ := h.row hr
  obtain ⟨q',hq',hqp'⟩ := h.row hq
  exact (several_iff hr' (hrp.trans hpair)).mpr ⟨j,q',hq',hqp'.trans hqp,hne⟩

theorem sameGroups_partly {g : Store (GroupRow Columns) → ℕ → GroupRow Columns → GroupRow Columns}
    (hpair : ∀ i r, (g s i r).pair = r.pair) (h : Partly (fun t i r => some (g t i r)) s t) :
    SameGroups s t := by
  intro i
  rcases h i with ht | ht
  · rw [ht]
  · rw [ht]
    cases s.row i with
    | none => rfl
    | some r => simp [hpair]

theorem withIsActive_pair (t : Store (GroupRow Columns)) (i : ℕ) (r : GroupRow Columns) :
    (withIsActive t i r).pair = r.pair := by
  unfold withIsActive
  split <;> rfl

theorem withIsActive_inactive (h : r.isActive = false) : (withIsActive t i r).isActive = false := by
  unfold withIsActive
  split
  · rfl
  · exact h

theorem withIsActive_source (hr : s.row i = some r) (h : (withIsActive s i r).isActive = false) :
    ∃ j q, s.row j = some q ∧ q.pair = r.pair ∧ q.isActive = false := by
  unfold withIsActive at h
  split at h
  · rename_i hmem
    exact (severalInactive_iff.mp ((mem_minIds_row hr).mp hmem).1).2
  · exact ⟨i,r,hr,rfl,h⟩

theorem mergeIsActive_stable (s : Store (GroupRow Columns)) : Stable mergeIsActive s := by
  intro t hpartly i r hr
  have hsame : SameGroups s t := sameGroups_partly (withIsActive_pair s) hpartly
  have hinactive : (∃ j q, t.row j = some q ∧ q.pair = r.pair ∧ q.isActive = false) ↔
      ∃ j q, s.row j = some q ∧ q.pair = r.pair ∧ q.isActive = false := by
    constructor
    · rintro ⟨j,q,hq,hpair,hfalse⟩
      rcases hpartly j with hj | hj
      · exact ⟨j,q,hj ▸ hq,hpair,hfalse⟩
      · rw [hj] at hq
        obtain ⟨q₀,hq₀,hstep⟩ := Option.bind_eq_some_iff.mp hq
        cases Option.some.inj hstep
        rw [withIsActive_pair] at hpair
        obtain ⟨k,p,hp,hpp,hpf⟩ := withIsActive_source hq₀ hfalse
        exact ⟨k,p,hp,hpp.trans hpair,hpf⟩
    · rintro ⟨j,q,hq,hpair,hfalse⟩
      rcases hpartly j with hj | hj
      · exact ⟨j,q,hj.trans hq,hpair,hfalse⟩
      · refine ⟨j,withIsActive s j q,?_,(withIsActive_pair s j q).trans hpair,withIsActive_inactive hfalse⟩
        rw [hj,hq]
        rfl
  have hmem : i ∈ minIds severalInactive t ↔ i ∈ minIds severalInactive s := by
    obtain ⟨r',hr',hpair⟩ := hsame.row hr
    rw [mem_minIds_row hr,mem_minIds_row hr',hpair,severalInactive_iff,severalInactive_iff,hinactive]
    constructor
    · rintro ⟨⟨hs,hi⟩,hk⟩
      exact ⟨⟨hsame.symm.several hr' hpair hs,hi⟩,hsame.symm.keeper hk⟩
    · rintro ⟨⟨hs,hi⟩,hk⟩
      exact ⟨⟨hsame.several hr rfl hs,hi⟩,hsame.keeper hk⟩
  simp only [mergeIsActive,withIsActive,hmem]

/-- The row that stays is inactive exactly if one of the copies was. -/
theorem keeper_inactive_iff (hr : s.row i = some r) (hk : Keeper s r.pair i) :
    (withIsActive s i r).isActive = false ↔
      ∃ j q, s.row j = some q ∧ q.pair = r.pair ∧ q.isActive = false := by
  refine ⟨withIsActive_source hr,?_⟩
  rintro ⟨j,q,hq,hpair,hfalse⟩
  by_cases hs : several (copies s r.pair) = true
  · have hmem : i ∈ minIds severalInactive s :=
      (mem_minIds_row hr).mpr ⟨severalInactive_iff.mpr ⟨hs,j,q,hq,hpair,hfalse⟩,hk⟩
    rw [withIsActive,if_pos hmem]
  · have hj : j = i := by
      by_contra hne
      exact hs ((several_iff hr rfl).mpr ⟨j,q,hq,hpair,hne⟩)
    subst hj
    rw [hr] at hq
    cases hq
    exact withIsActive_inactive hfalse

theorem withMissingSince_pair (t : Store (GroupRow Columns)) (i : ℕ) (r : GroupRow Columns) :
    (withMissingSince t i r).pair = r.pair := by
  unfold withMissingSince
  split <;> rfl

theorem withMissingSince_source {m : Instant} (h : (withMissingSince s i r).missingSince = some m) :
    earliest s r.pair = some m ∨ r.missingSince = some m := by
  unfold withMissingSince at h
  split at h
  · exact Or.inl h
  · exact Or.inr h

theorem earliest_partly (hpartly : Partly mergeMissingSince s t) : earliest t pair = earliest s pair := by
  cases hs : earliest s pair with
  | none =>
    rw [earliest_eq_none] at hs ⊢
    intro j q hq hpair
    cases hm : q.missingSince with
    | none => rfl
    | some m =>
      rcases hpartly j with hj | hj
      · rw [hs j q (hj ▸ hq) hpair] at hm
        cases hm
      · rw [hj] at hq
        obtain ⟨q₀,hq₀,hstep⟩ := Option.bind_eq_some_iff.mp hq
        cases Option.some.inj hstep
        rw [withMissingSince_pair] at hpair
        rcases withMissingSince_source hm with he | he
        · rw [hpair,earliest_eq_none.mpr hs] at he
          cases he
        · rw [hs j q₀ hq₀ hpair] at he
          cases he
  | some m =>
    obtain ⟨⟨j,q,hq,hpair,hm⟩,hle⟩ := earliest_eq_some.mp hs
    rw [earliest_eq_some]
    constructor
    · rcases hpartly j with hj | hj
      · exact ⟨j,q,hj.trans hq,hpair,hm⟩
      · refine ⟨j,withMissingSince s j q,by rw [hj,hq]; rfl,(withMissingSince_pair s j q).trans hpair,?_⟩
        unfold withMissingSince
        split
        · rw [hpair]
          exact hs
        · exact hm
    · intro k p m' hp hpp hm'
      rcases hpartly k with hk | hk
      · exact hle k p m' (hk ▸ hp) hpp hm'
      · rw [hk] at hp
        obtain ⟨p₀,hp₀,hstep⟩ := Option.bind_eq_some_iff.mp hp
        cases Option.some.inj hstep
        rw [withMissingSince_pair] at hpp
        rcases withMissingSince_source hm' with he | he
        · rw [hpp,hs] at he
          exact (Option.some.inj he).le
        · exact hle k p₀ m' hp₀ hpp he

theorem mergeMissingSince_stable (s : Store (GroupRow Columns)) : Stable mergeMissingSince s := by
  intro t hpartly i r hr
  have hsame : SameGroups s t := sameGroups_partly (withMissingSince_pair s) hpartly
  have hmem : i ∈ minIds several t ↔ i ∈ minIds several s := by
    obtain ⟨r',hr',hpair⟩ := hsame.row hr
    rw [mem_minIds_row hr,mem_minIds_row hr',hpair]
    constructor
    · exact fun h => ⟨hsame.symm.several hr' hpair h.1,hsame.symm.keeper h.2⟩
    · exact fun h => ⟨hsame.several hr rfl h.1,hsame.keeper h.2⟩
  simp only [mergeMissingSince,withMissingSince,hmem,earliest_partly hpartly]

/-- The row that stays has been missing since the earliest of the copies. -/
theorem keeper_missingSince (hr : s.row i = some r) (hk : Keeper s r.pair i) :
    (withMissingSince s i r).missingSince = earliest s r.pair := by
  unfold withMissingSince
  split
  · rfl
  · rename_i hcond
    cases he : earliest s r.pair with
    | none => exact earliest_eq_none.mp he i r hr rfl
    | some m =>
      have halone : ∀ j q, s.row j = some q → q.pair = r.pair → j = i := by
        intro j q hq hpair
        by_contra hne
        have hs := (several_iff hr rfl).mpr ⟨j,q,hq,hpair,hne⟩
        exact hcond ⟨(mem_minIds_row hr).mpr ⟨hs,hk⟩,by rw [he]; rfl⟩
      obtain ⟨⟨j,q,hq,hpair,hm⟩,_⟩ := earliest_eq_some.mp he
      cases halone j q hq hpair
      rw [hr] at hq
      cases hq
      exact hm

theorem dropDuplicates_keeper (hr : t.row i = some r) (hk : Keeper t r.pair i) :
    dropDuplicates t i r = some r := by
  rw [dropDuplicates,if_pos ((mem_minIds_row hr).mpr ⟨rfl,hk⟩)]

theorem dropDuplicates_other (hr : t.row i = some r) (hk : ¬Keeper t r.pair i) :
    dropDuplicates t i r = none := by
  rw [dropDuplicates,if_neg fun hmem => hk ((mem_minIds_row hr).mp hmem).2]

theorem dropDuplicates_same (h : dropDuplicates t i r = some q) : q = r := by
  unfold dropDuplicates at h
  split at h
  · exact (Option.some.inj h).symm
  · cases h

theorem partly_dropped (hpartly : Partly dropDuplicates s t) (hq : t.row j = some q) :
    s.row j = some q := by
  rcases hpartly j with hj | hj
  · rwa [hj] at hq
  · rw [hj] at hq
    obtain ⟨q₀,hq₀,hstep⟩ := Option.bind_eq_some_iff.mp hq
    rwa [dropDuplicates_same hstep]

theorem keeper_partly (hpartly : Partly dropDuplicates s t) (hk : Keeper s pair i) : Keeper t pair i where
  member := by
    obtain ⟨r,hr,rfl⟩ := hk.member
    refine ⟨r,?_,rfl⟩
    rcases hpartly i with hi | hi
    · rwa [hi]
    · rw [hi,hr,Option.bind_some,dropDuplicates_keeper hr hk]
  smallest := fun j q hq hpair => hk.smallest j q (partly_dropped hpartly hq) hpair

theorem dropDuplicates_stable (s : Store (GroupRow Columns)) : Stable dropDuplicates s := by
  intro t hpartly i r _
  have hmem : i ∈ minIds (fun _ => true) t ↔ i ∈ minIds (fun _ => true) s := by
    rw [mem_minIds,mem_minIds]
    constructor
    · rintro ⟨pair,_,hk⟩
      obtain ⟨q,hq,rfl⟩ := hk.member
      obtain ⟨k,hks⟩ := exists_keeper (partly_dropped hpartly hq)
      rw [hk.unique (keeper_partly hpartly hks)]
      exact ⟨q.pair,rfl,hks⟩
    · rintro ⟨pair,_,hk⟩
      exact ⟨pair,rfl,keeper_partly hpartly hk⟩
  simp only [dropDuplicates,hmem]

structure Folds (s t u : Store (GroupRow Columns)) : Prop where
  merged : ∃ v, Executes mergeIsActive s v ∧ Executes mergeMissingSince v t
  dropped : Executes dropDuplicates t u

def merged (s : Store (GroupRow Columns)) (i : ℕ) (r : GroupRow Columns) : GroupRow Columns :=
  withMissingSince (snapshot mergeIsActive s) i (withIsActive s i r)

theorem row_mergeIsActive (hr : s.row i = some r) :
    (snapshot mergeIsActive s).row i = some (withIsActive s i r) := by
  rw [snapshot,Store.row_rewrite,hr]
  rfl

theorem sameGroups_mergeIsActive (s : Store (GroupRow Columns)) : SameGroups s (snapshot mergeIsActive s) :=
  sameGroups_partly (withIsActive_pair s) fun _ => Or.inr rfl

theorem merged_pair (s : Store (GroupRow Columns)) (i : ℕ) (r : GroupRow Columns) :
    (merged s i r).pair = r.pair :=
  (withMissingSince_pair _ i _).trans (withIsActive_pair s i r)

theorem row_merged (h : Folds s t u) (i : ℕ) : t.row i = (s.row i).map (merged s i) := by
  obtain ⟨v,hv,ht⟩ := h.merged
  rw [ht.eq_snapshot (mergeMissingSince_stable v),hv.eq_snapshot (mergeIsActive_stable s)]
  cases hr : s.row i with
  | none => simp [snapshot,hr]
  | some r =>
    rw [snapshot,Store.row_rewrite,row_mergeIsActive hr]
    rfl

theorem sameGroups_merged (h : Folds s t u) : SameGroups s t := by
  intro i
  rw [row_merged h i]
  cases s.row i with
  | none => rfl
  | some r => simp [merged_pair]

theorem row_folded (h : Folds s t u) : u.row i = some q ↔
    ∃ r, s.row i = some r ∧ Keeper s r.pair i ∧ q = merged s i r := by
  have hsame := sameGroups_merged h
  rw [h.dropped.eq_snapshot (dropDuplicates_stable t),snapshot,Store.row_rewrite]
  constructor
  · intro hq
    obtain ⟨p,hp,hstep⟩ := Option.bind_eq_some_iff.mp hq
    have hkeeper : Keeper t p.pair i := by
      by_contra hnot
      rw [dropDuplicates_other hp hnot] at hstep
      cases hstep
    rw [dropDuplicates_same hstep]
    rw [row_merged h i] at hp
    obtain ⟨r,hr,rfl⟩ := Option.map_eq_some_iff.mp hp
    rw [merged_pair] at hkeeper
    exact ⟨r,hr,hsame.symm.keeper hkeeper,rfl⟩
  · rintro ⟨r,hr,hkeeper,rfl⟩
    have ht : t.row i = some (merged s i r) := by
      rw [row_merged h i,hr]
      rfl
    rw [ht,Option.bind_some]
    refine dropDuplicates_keeper ht ?_
    rw [merged_pair]
    exact hsame.keeper hkeeper

theorem merged_inactive_iff (hr : s.row i = some r) (hk : Keeper s r.pair i) :
    (merged s i r).isActive = false ↔ ∃ j q, s.row j = some q ∧ q.pair = r.pair ∧ q.isActive = false := by
  rw [← keeper_inactive_iff hr hk,merged,withMissingSince]
  split <;> rfl

theorem withIsActive_missingSince (t : Store (GroupRow Columns)) (i : ℕ) (r : GroupRow Columns) :
    (withIsActive t i r).missingSince = r.missingSince := by
  unfold withIsActive
  split <;> rfl

theorem earliest_mergeIsActive (s : Store (GroupRow Columns)) (pair : ℕ × String) (m : Instant) :
    Earliest (snapshot mergeIsActive s) pair m ↔ Earliest s pair m := by
  have hrow : ∀ {j q}, (snapshot mergeIsActive s).row j = some q →
      ∃ q₀, s.row j = some q₀ ∧ q = withIsActive s j q₀ := by
    intro j q hq
    rw [snapshot,Store.row_rewrite] at hq
    obtain ⟨q₀,hq₀,hstep⟩ := Option.bind_eq_some_iff.mp hq
    exact ⟨q₀,hq₀,(Option.some.inj hstep).symm⟩
  constructor
  · rintro ⟨⟨j,q,hq,hpair,hm⟩,hle⟩
    obtain ⟨q₀,hq₀,rfl⟩ := hrow hq
    rw [withIsActive_pair] at hpair
    rw [withIsActive_missingSince] at hm
    refine ⟨⟨j,q₀,hq₀,hpair,hm⟩,fun k p m' hp hpp hm' => ?_⟩
    exact hle k _ m' (row_mergeIsActive hp) ((withIsActive_pair s k p).trans hpp)
      ((withIsActive_missingSince s k p).trans hm')
  · rintro ⟨⟨j,q,hq,hpair,hm⟩,hle⟩
    refine ⟨⟨j,_,row_mergeIsActive hq,(withIsActive_pair s j q).trans hpair,
      (withIsActive_missingSince s j q).trans hm⟩,fun k p m' hp hpp hm' => ?_⟩
    obtain ⟨p₀,hp₀,rfl⟩ := hrow hp
    rw [withIsActive_pair] at hpp
    rw [withIsActive_missingSince] at hm'
    exact hle k p₀ m' hp₀ hpp hm'

theorem merged_missingSince {m : Instant} (hr : s.row i = some r) (hk : Keeper s r.pair i) :
    (merged s i r).missingSince = some m ↔ Earliest s r.pair m := by
  have hkeeper := (sameGroups_mergeIsActive s).keeper hk
  rw [← withIsActive_pair s i r] at hkeeper
  rw [merged,keeper_missingSince (row_mergeIsActive hr) hkeeper,earliest_eq_some,withIsActive_pair,
    earliest_mergeIsActive]

theorem merged_others (s : Store (GroupRow Columns)) (i : ℕ) (r : GroupRow Columns) :
    (merged s i r).others = r.others := by
  unfold merged withMissingSince withIsActive
  split <;> split <;> rfl

theorem merged_alone (hr : s.row i = some r) (halone : ∀ j q, s.row j = some q → q.pair = r.pair → j = i) :
    merged s i r = r := by
  have hactive : withIsActive s i r = r := by
    rw [withIsActive,if_neg]
    intro hmem
    have hs := (severalInactive_iff.mp ((mem_minIds_row hr).mp hmem).1).1
    obtain ⟨j,q,hq,hpair,hne⟩ := (several_iff hr rfl).mp hs
    exact hne (halone j q hq hpair)
  have hsame := sameGroups_mergeIsActive s
  have hr' := row_mergeIsActive hr
  rw [hactive] at hr'
  rw [merged,hactive,withMissingSince,if_neg]
  rintro ⟨hmem,_⟩
  obtain ⟨j,q,hq,hpair,hne⟩ := (several_iff hr' rfl).mp ((mem_minIds_row hr').mp hmem).1
  obtain ⟨q₀,hq₀,hpair₀⟩ := hsame.symm.row hq
  exact hne (halone j q₀ hq₀ (hpair₀.trans hpair))

theorem mem_duplicateMap : (i,k) ∈ duplicateMap t ↔ ∃ r, t.row i = some r ∧ Keeper t r.pair k ∧ i ≠ k := by
  have hrows : ∀ {j q}, (j,q) ∈ t.rows ↔ t.row j = some q := by
    intro j q
    have hselect : (j,q) ∈ t.select (fun _ => true) ↔ t.row j = some q := by simp
    rwa [Store.select,List.filter_true] at hselect
  simp only [duplicateMap,List.mem_filterMap,Prod.exists,hrows]
  constructor
  · rintro ⟨j,r,hr,hentry⟩
    split at hentry
    · obtain ⟨keep,hkeep,hpair⟩ := Option.bind_eq_some_iff.mp hentry
      split at hpair
      · rename_i hne
        cases hpair
        exact ⟨r,hr,minId_eq_some.mp hkeep,hne⟩
      · cases hpair
    · cases hentry
  · rintro ⟨r,hr,hk,hne⟩
    obtain ⟨q,hq,hpair⟩ := hk.member
    have hs : several (copies t r.pair) = true := (several_iff hr rfl).mpr ⟨k,q,hq,hpair,hne.symm⟩
    exact ⟨i,r,hr,by rw [if_pos hs,minId_eq_some.mpr hk,Option.bind_some,if_pos hne]⟩

theorem duplicateMap_nodup (t : Store (GroupRow Columns)) : ((duplicateMap t).map Prod.fst).Nodup := by
  have hids : (t.rows.map Prod.fst).Nodup := by
    have h := t.select_ids_nodup fun _ => true
    rwa [Store.select,List.filter_true] at h
  have hsub : ((duplicateMap t).map Prod.fst).Sublist (t.rows.map Prod.fst) := by
    unfold duplicateMap
    induction t.rows with
    | nil => exact List.Sublist.refl _
    | cons d rows ih =>
      rw [List.filterMap_cons]
      split
      · exact ih.cons _
      · rename_i entry hentry
        have hfst : entry.1 = d.1 := by
          split at hentry
          · obtain ⟨keep,_,hpair⟩ := Option.bind_eq_some_iff.mp hentry
            split at hpair
            · rw [← Option.some.inj hpair]
            · cases hpair
          · cases hentry
        rw [List.map_cons,List.map_cons,hfst]
        exact ih.cons_cons _
  exact hids.sublist hsub

/-- `{row.dead: row.keep for row in ...}` -/
def mapping (t : Store (GroupRow Columns)) : Dict ℕ ℕ := ⟨duplicateMap t,duplicateMap_nodup t⟩

theorem get_mapping : (mapping t).get i = some k ↔ ∃ r, t.row i = some r ∧ Keeper t r.pair k ∧ i ≠ k :=
  ((mapping t).get_eq_some).trans mem_duplicateMap

theorem get_mapping_eq_none (h : ∀ r k, t.row i = some r → Keeper t r.pair k → i = k) :
    (mapping t).get i = none := by
  refine Option.eq_none_iff_forall_ne_some.mpr fun k hk => ?_
  obtain ⟨r,hr,hkeeper,hne⟩ := get_mapping.mp hk
  exact hne (h r k hr hkeeper)

end GroupMerge
end Broadcaster
