import Mathlib.Data.Int.Notation
import Mathlib.Data.List.Basic
import Mathlib.Data.List.Nodup
import Mathlib.Data.List.Range
import Mathlib.Data.Nat.Notation
import Mathlib.Logic.Function.Basic

/-!
# Tables between transactions

The committed rows by their ids. An id is given out once: the next one is
`size`, also after its row has been deleted.
-/

namespace Broadcaster

structure Store (Row : Type) where
  size : ℕ
  row : ℕ → Option Row
  fresh : ∀ i, size ≤ i → row i = none

namespace Store

variable {Row : Type}

def empty (Row : Type) : Store Row := ⟨0,fun _ => none,fun _ _ => rfl⟩

/-- Look up an integer that may or may not be an id. -/
def find (s : Store Row) : ℤ → Option Row
  | .ofNat i => s.row i
  | .negSucc _ => none

def rows (s : Store Row) : List (ℕ × Row) :=
  (List.range s.size).filterMap fun i => (s.row i).map (i,·)

def select (s : Store Row) (p : Row → Bool) : List (ℕ × Row) := s.rows.filter fun r => p r.2

def insert (s : Store Row) (r : Row) : Store Row where
  size := s.size+1
  row := Function.update s.row s.size (some r)
  fresh := by
    intro i hi
    rw [Function.update_of_ne (by omega)]
    exact s.fresh i (by omega)

def insertAll (s : Store Row) (rs : List Row) : Store Row := rs.foldl insert s

/-- `UPDATE` and `DELETE`: a row becomes what `f` makes of it. -/
def rewrite (s : Store Row) (f : ℕ → Row → Option Row) : Store Row where
  size := s.size
  row := fun i => (s.row i).bind (f i)
  fresh := by
    intro i hi
    rw [s.fresh i hi]
    rfl

def update (s : Store Row) (i : ℕ) (f : Row → Row) : Store Row :=
  s.rewrite fun j r => some (if j = i then f r else r)

def updateWhere (s : Store Row) (p : Row → Bool) (f : Row → Row) : Store Row :=
  s.rewrite fun _ r => some (if p r then f r else r)

def deleteWhere (s : Store Row) (p : ℕ → Row → Bool) : Store Row :=
  s.rewrite fun i r => if p i r then none else some r

variable {s : Store Row} {i j : ℕ} {r r' : Row}

@[simp] theorem find_natCast (s : Store Row) (i : ℕ) : s.find (i : ℤ) = s.row i := rfl

theorem find_eq_some {x : ℤ} (h : s.find x = some r) : ∃ i : ℕ, x = i ∧ s.row i = some r := by
  cases x with
  | ofNat i => exact ⟨i,rfl,h⟩
  | negSucc i => cases h

theorem row_lt (h : s.row i = some r) : i < s.size := by
  by_contra hi
  rw [s.fresh i (by omega)] at h
  cases h

@[simp] theorem mem_select {p : Row → Bool} : (i,r) ∈ s.select p ↔ s.row i = some r ∧ p r = true := by
  simp only [select,rows,List.mem_filter,List.mem_filterMap,List.mem_range,Option.map_eq_some_iff,
    Prod.mk.injEq]
  constructor
  · rintro ⟨⟨j,_,q,hq,rfl,rfl⟩,hp⟩
    exact ⟨hq,hp⟩
  · rintro ⟨hr,hp⟩
    exact ⟨⟨i,row_lt hr,r,hr,rfl,rfl⟩,hp⟩

theorem rows_ids (s : Store Row) :
    s.rows.map Prod.fst = (List.range s.size).filter fun i => (s.row i).isSome := by
  have h : ∀ is : List ℕ, (is.filterMap fun i => (s.row i).map (i,·)).map Prod.fst =
      is.filter fun i => (s.row i).isSome := by
    intro is
    induction is with
    | nil => rfl
    | cons i is ih => cases hr : s.row i <;> simp [hr,ih]
  exact h (List.range s.size)

theorem select_ids_nodup (s : Store Row) (p : Row → Bool) : ((s.select p).map Prod.fst).Nodup := by
  have hrows : (s.rows.map Prod.fst).Nodup := by
    rw [rows_ids]
    exact List.nodup_range.filter _
  exact hrows.sublist (List.Sublist.map _ List.filter_sublist)

theorem ext_row {t : Store Row} (hsize : s.size = t.size) (hrow : s.row = t.row) : s = t := by
  cases s
  cases t
  simp only at hsize hrow
  subst hsize hrow
  rfl

@[simp] theorem row_empty (i : ℕ) : (empty Row).row i = none := rfl

theorem row_insert : (s.insert r).row i = some r' ↔ (i = s.size ∧ r' = r) ∨ s.row i = some r' := by
  by_cases hi : i = s.size
  · have hfresh : s.row s.size = none := s.fresh s.size (le_refl _)
    subst hi
    simp [insert,hfresh,eq_comm]
  · simp [insert,hi]

theorem row_insertAll {rs : List Row} : (s.insertAll rs).row i = some r ↔
    s.row i = some r ∨ ∃ k, i = s.size+k ∧ rs[k]? = some r := by
  induction rs generalizing s with
  | nil => simp [insertAll]
  | cons a rs ih =>
    have hstep : (s.insertAll (a :: rs)).row i = some r ↔ ((s.insert a).insertAll rs).row i = some r := Iff.rfl
    have hsize : (s.insert a).size = s.size+1 := rfl
    rw [hstep,ih,row_insert,hsize]
    constructor
    · rintro ((⟨hi,hr⟩ | hr) | ⟨k,hi,hk⟩)
      · exact Or.inr ⟨0,hi,by simp [hr]⟩
      · exact Or.inl hr
      · exact Or.inr ⟨k+1,by omega,by simpa using hk⟩
    · rintro (hr | ⟨k,hi,hk⟩)
      · exact Or.inl (Or.inr hr)
      · cases k with
        | zero => exact Or.inl (Or.inl ⟨hi,by simpa [eq_comm] using hk⟩)
        | succ k => exact Or.inr ⟨k,by omega,by simpa using hk⟩

@[simp] theorem row_rewrite (f : ℕ → Row → Option Row) : (s.rewrite f).row i = (s.row i).bind (f i) :=
  rfl

theorem row_update {f : Row → Row} : (s.update i f).row j = some r' ↔
    ∃ r, s.row j = some r ∧ (if j = i then f r else r) = r' := by
  simp only [update,row_rewrite,Option.bind_eq_some_iff,Option.some.injEq]

theorem row_update_self {f : Row → Row} (h : s.row i = some r) : (s.update i f).row i = some (f r) := by
  simp [update,h]

theorem row_update_of_ne {f : Row → Row} (h : j ≠ i) : (s.update i f).row j = s.row j := by
  simp [update,h]

theorem row_updateWhere {p : Row → Bool} {f : Row → Row} : (s.updateWhere p f).row j = some r' ↔
    ∃ r, s.row j = some r ∧ (if p r then f r else r) = r' := by
  simp only [updateWhere,row_rewrite,Option.bind_eq_some_iff,Option.some.injEq]

theorem row_deleteWhere {p : ℕ → Row → Bool} : (s.deleteWhere p).row j = some r ↔
    s.row j = some r ∧ p j r = false := by
  simp only [deleteWhere,row_rewrite,Option.bind_eq_some_iff]
  constructor
  · rintro ⟨q,hq,hp⟩
    split at hp
    · cases hp
    · rename_i hn
      have he : q = r := Option.some.inj hp
      rw [← he]
      exact ⟨hq,by simpa using hn⟩
  · rintro ⟨hr,hp⟩
    exact ⟨r,hr,by simp [hp]⟩

def Once (s : Store Row) (p : Row → Bool) : Prop :=
  ∀ i j r q, s.row i = some r → s.row j = some q → p r = true → p q = true → i = j

variable {p : Row → Bool}

theorem once_of_none (h : ∀ i r, s.row i = some r → p r = false) : s.Once p := by
  intro i j r q hr _ hp _
  rw [h i r hr] at hp
  cases hp

theorem Once.imp {p' : Row → Bool} (h : s.Once p) (himp : ∀ r, p' r = true → p r = true) : s.Once p' :=
  fun i j r q hr hq hp hp' => h i j r q hr hq (himp r hp) (himp q hp')

theorem Once.rewrite {f : ℕ → Row → Option Row} (h : s.Once p)
    (hf : ∀ i r r', s.row i = some r → f i r = some r' → p r' = true → p r = true) :
    (s.rewrite f).Once p := by
  intro i j r' q' hr hq hp hp'
  rw [row_rewrite] at hr hq
  obtain ⟨r,hi,hfr⟩ := Option.bind_eq_some_iff.mp hr
  obtain ⟨q,hj,hfq⟩ := Option.bind_eq_some_iff.mp hq
  exact h i j r q hi hj (hf i r r' hi hfr hp) (hf j q q' hj hfq hp')

theorem Once.deleteWhere {d : ℕ → Row → Bool} (h : s.Once p) : (s.deleteWhere d).Once p := by
  refine h.rewrite fun i r r' _ hf hp => ?_
  split at hf
  · cases hf
  · cases hf
    exact hp

theorem Once.update {f : Row → Row} (h : s.Once p)
    (hf : ∀ r, s.row i = some r → p (f r) = true → p r = true) : (s.update i f).Once p := by
  refine h.rewrite fun j r r' hr hf' hp => ?_
  split at hf'
  · rename_i hj
    cases hf'
    exact hf r (hj ▸ hr) hp
  · cases hf'
    exact hp

theorem once_update_of_free {f : Row → Row} (hfree : ∀ j r, j ≠ i → s.row j = some r → p r = false) :
    (s.update i f).Once p := by
  have hother : ∀ j r', (s.update i f).row j = some r' → p r' = true → j = i := by
    intro j r' hr hp
    by_contra hj
    rw [row_update_of_ne hj] at hr
    rw [hfree j r' hj hr] at hp
    cases hp
  intro j k r q hr hq hp hp'
  rw [hother j r hr hp,hother k q hq hp']

theorem Once.insert (h : s.Once p) (hfree : p r = true → ∀ i q, s.row i = some q → p q = false) :
    (s.insert r).Once p := by
  intro i j r' q' hr hq hp hp'
  rcases row_insert.mp hr with ⟨hi,rfl⟩ | hri
  · rcases row_insert.mp hq with ⟨hj,_⟩ | hqj
    · rw [hi,hj]
    · rw [hfree hp j q' hqj] at hp'
      cases hp'
  · rcases row_insert.mp hq with ⟨_,rfl⟩ | hqj
    · rw [hfree hp' i r' hri] at hp
      cases hp
    · exact h i j r' q' hri hqj hp hp'

theorem Once.select_length (h : s.Once p) : (s.select p).length ≤ 1 := by
  cases hrows : s.select p with
  | nil => exact Nat.zero_le 1
  | cons a rows =>
    cases rows with
    | nil => exact Nat.le_refl 1
    | cons b rest =>
      have ha : a ∈ s.select p := by simp [hrows]
      have hb : b ∈ s.select p := by simp [hrows]
      obtain ⟨hra,hpa⟩ := mem_select.mp (show (a.1,a.2) ∈ s.select p from ha)
      obtain ⟨hrb,hpb⟩ := mem_select.mp (show (b.1,b.2) ∈ s.select p from hb)
      have hnodup := s.select_ids_nodup p
      rw [hrows] at hnodup
      simp [h a.1 b.1 a.2 b.2 hra hrb hpa hpb] at hnodup

theorem Once.select_eq (h : s.Once p) (hr : s.row i = some r) (hp : p r = true) :
    s.select p = [(i,r)] := by
  have hlength := h.select_length
  have hmem : (i,r) ∈ s.select p := mem_select.mpr ⟨hr,hp⟩
  cases hrows : s.select p with
  | nil =>
    rw [hrows] at hmem
    cases hmem
  | cons a rows =>
    cases rows with
    | nil =>
      rw [hrows,List.mem_singleton] at hmem
      rw [hmem]
    | cons b rest => simp [hrows] at hlength

theorem select_eq_nil : s.select p = [] ↔ ∀ i r, s.row i = some r → p r = false := by
  rw [List.eq_nil_iff_forall_not_mem]
  constructor
  · intro h i r hr
    by_contra hp
    exact h (i,r) (mem_select.mpr ⟨hr,by simpa using hp⟩)
  · rintro h ⟨i,r⟩ hmem
    obtain ⟨hr,hp⟩ := mem_select.mp hmem
    rw [h i r hr] at hp
    cases hp

end Store
end Broadcaster
