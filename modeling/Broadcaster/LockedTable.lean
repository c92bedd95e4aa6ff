import Mathlib.Data.Nat.Notation
import Mathlib.Logic.Function.Basic
import Mathlib.Data.List.Basic
import Mathlib.Data.List.Nodup
import Mathlib.Data.List.Range

/-!
# Tables under READ COMMITTED

A slot holds the last committed version of a row and, while a transaction has
the row locked, the version that this transaction would commit. At most one
transaction holds a row, so there is room for one draft. A statement reads the
committed versions and the drafts of its own transaction; a write has to wait
while somebody else holds a row that it selects. Ids are given out in order and
never reused, also when the insertion is rolled back.
-/

namespace Broadcaster

structure Slot (Row : Type) where
  committed : Option Row
  draft : Option (ℕ × Option Row)

def Slot.empty (Row : Type) : Slot Row := ⟨none,none⟩

structure Table (Row : Type) where
  size : ℕ
  slot : ℕ → Slot Row
  fresh : ∀ i, size ≤ i → slot i = Slot.empty Row

namespace Table

variable {Row Key : Type}

def committed (t : Table Row) (i : ℕ) : Option Row := (t.slot i).committed

def holder (t : Table Row) (i : ℕ) : Option ℕ := (t.slot i).draft.map Prod.fst

/-- The version of a row that transaction `tx` sees. -/
def view (t : Table Row) (tx i : ℕ) : Option Row :=
  match (t.slot i).draft with
  | some (o,v) => if o = tx then v else (t.slot i).committed
  | none => (t.slot i).committed

def free (t : Table Row) (tx i : ℕ) : Bool :=
  match (t.slot i).draft with
  | some (o,_) => o == tx
  | none => true

def rows (t : Table Row) (tx : ℕ) : List (ℕ × Row) :=
  (List.range t.size).filterMap fun i => (t.view tx i).map (i,·)

def select (t : Table Row) (tx : ℕ) (p : ℕ → Row → Bool) : List (ℕ × Row) :=
  (t.rows tx).filter fun r => p r.1 r.2

theorem view_lt {t : Table Row} {tx i : ℕ} {r : Row} (h : t.view tx i = some r) : i < t.size := by
  by_contra hi
  simp [view,t.fresh i (by omega),Slot.empty] at h

theorem committed_lt {t : Table Row} {i : ℕ} {r : Row} (h : t.committed i = some r) : i < t.size := by
  by_contra hi
  simp [committed,t.fresh i (by omega),Slot.empty] at h

theorem draft_lt {t : Table Row} {i : ℕ} {d : ℕ × Option Row} (h : (t.slot i).draft = some d) :
    i < t.size := by
  by_contra hi
  simp [t.fresh i (by omega),Slot.empty] at h

@[simp] theorem mem_select {t : Table Row} {tx i : ℕ} {r : Row} {p : ℕ → Row → Bool} :
    (i,r) ∈ t.select tx p ↔ t.view tx i = some r ∧ p i r = true := by
  simp only [select,rows,List.mem_filter,List.mem_filterMap,List.mem_range,Option.map_eq_some_iff,
    Prod.mk.injEq]
  constructor
  · rintro ⟨⟨j,_,s,hs,rfl,rfl⟩,hp⟩
    exact ⟨hs,hp⟩
  · rintro ⟨hs,hp⟩
    exact ⟨⟨i,view_lt hs,r,hs,rfl,rfl⟩,hp⟩

theorem rows_nodup (t : Table Row) (tx : ℕ) : (t.rows tx).Nodup := by
  refine List.Nodup.filterMap ?_ List.nodup_range
  intro i j x hi hj
  simp only [Option.mem_def,Option.map_eq_some_iff] at hi hj
  obtain ⟨r,_,rfl⟩ := hi
  obtain ⟨r',_,hr⟩ := hj
  exact (congrArg Prod.fst hr).symm

theorem select_eq_singleton {t : Table Row} {tx i : ℕ} {r : Row} {p : ℕ → Row → Bool}
    (hv : t.view tx i = some r) (hp : p i r = true)
    (hone : ∀ j q, t.view tx j = some q → p j q = true → j = i) : t.select tx p = [(i,r)] := by
  have hnodup : (t.select tx p).Nodup := (t.rows_nodup tx).filter _
  have hmem : ∀ x, x ∈ t.select tx p ↔ x ∈ [(i,r)] := by
    rintro ⟨j,q⟩
    rw [mem_select,List.mem_singleton]
    constructor
    · intro h
      have he := hone j q h.1 h.2
      subst he
      rw [Option.some.inj (h.1.symm.trans hv)]
    · intro h
      cases h
      exact ⟨hv,hp⟩
  have hperm := (List.perm_ext_iff_of_nodup hnodup (List.nodup_singleton _)).mpr hmem
  exact List.perm_singleton.mp hperm

/-- The slot after its row was rewritten by `tx`; deleted where `f` answers `none`. -/
def Slot.written (s : Slot Row) (tx : ℕ) (v : Option Row) : Slot Row := ⟨s.committed,some (tx,v)⟩

/-- `UPDATE`, `DELETE` and `SELECT ... FOR UPDATE`: rewrite every selected row, unless one of
them is held by somebody else. -/
def modify (t : Table Row) (tx : ℕ) (p : ℕ → Row → Bool) (f : Row → Option Row) :
    Option (Table Row) :=
  if (t.select tx p).all fun r => t.free tx r.1 then
    some
      { size := t.size
        slot := fun i =>
          match t.view tx i with
          | some r => if p i r then Slot.written (t.slot i) tx (f r) else t.slot i
          | none => t.slot i
        fresh := by
          intro i hi
          simp [view,t.fresh i hi,Slot.empty] }
  else none

/-- `INSERT` without regard to any index; the new id is `t.size`. -/
def insert (t : Table Row) (tx : ℕ) (r : Row) : Table Row where
  size := t.size+1
  slot := Function.update t.slot t.size ⟨none,some (tx,some r)⟩
  fresh := by
    intro i hi
    rw [Function.update_of_ne (by omega)]
    exact t.fresh i (by omega)

/-- `COMMIT`: the drafts of `tx` become the committed versions. -/
def commit (t : Table Row) (tx : ℕ) : Table Row where
  size := t.size
  slot := fun i => if t.holder i = some tx then ⟨t.view tx i,none⟩ else t.slot i
  fresh := by
    intro i hi
    simp [holder,t.fresh i hi,Slot.empty]

def rollback (t : Table Row) (tx : ℕ) : Table Row where
  size := t.size
  slot := fun i => if t.holder i = some tx then ⟨t.committed i,none⟩ else t.slot i
  fresh := by
    intro i hi
    simp [holder,t.fresh i hi,Slot.empty]

/-- How the row may end: one that somebody else holds as either of its two versions. -/
def versions (t : Table Row) (tx i : ℕ) : List (Option Row) :=
  match (t.slot i).draft with
  | some (o,v) => if o = tx then [v] else [t.committed i,v]
  | none => [t.committed i]

/-- Some row carries the key whatever the open transactions do; `key` is `none` outside the predicate of the index. -/
def taken [DecidableEq Key] (t : Table Row) (tx : ℕ) (key : Row → Option Key) (k : Key) : Bool :=
  (List.range t.size).any fun i => (t.versions tx i).all fun v => v.bind key = some k

/-- Some row carries the key or will carry it, depending on an open transaction. -/
def contested [DecidableEq Key] (t : Table Row) (tx : ℕ) (key : Row → Option Key) (k : Key) : Bool :=
  (List.range t.size).any fun i => (t.versions tx i).any fun v => v.bind key = some k

inductive Insertion (Row : Type)
  | blocked
  | violates
  | inserted (t : Table Row)

/-- `INSERT` into a table with one unique index: an `IntegrityError` when the key is taken, a
wait while it is contested. -/
def insertUnique [DecidableEq Key] (t : Table Row) (tx : ℕ) (key : Row → Option Key) (r : Row) :
    Insertion Row :=
  match key r with
  | none => .inserted (t.insert tx r)
  | some k =>
    if t.taken tx key k then .violates
    else if t.contested tx key k then .blocked
    else .inserted (t.insert tx r)

section Slots

variable {t t' : Table Row} {tx o i : ℕ} {p : ℕ → Row → Bool} {f : Row → Option Row} {r : Row}

theorem view_of_holder_ne (h : t.holder i ≠ some tx) : t.view tx i = t.committed i := by
  unfold view committed
  unfold holder at h
  split
  · rename_i d v hd
    split
    · simp_all
    · rfl
  · rfl

theorem view_of_draft {v : Option Row} (h : (t.slot i).draft = some (tx,v)) : t.view tx i = v := by
  simp [view,h]

theorem holder_eq_some : t.holder i = some tx ↔ ∃ v, (t.slot i).draft = some (tx,v) := by
  simp [holder]

theorem draft_of_holder (h : t.holder i = some tx) : (t.slot i).draft = some (tx,t.view tx i) := by
  obtain ⟨v,hv⟩ := holder_eq_some.mp h
  rw [view_of_draft hv,hv]

theorem free_iff : t.free tx i = true ↔ t.holder i = none ∨ t.holder i = some tx := by
  unfold free holder
  split <;> simp_all

/-- A write succeeds when everything that it selects is free, and then it changes just that. -/
theorem modify_eq_some : t.modify tx p f = some t' ↔
    (∀ i r, t.view tx i = some r → p i r = true → t.free tx i = true) ∧ t'.size = t.size ∧
    ∀ i, t'.slot i = match t.view tx i with
      | some r => if p i r then Slot.written (t.slot i) tx (f r) else t.slot i
      | none => t.slot i := by
  unfold modify
  split
  · rename_i h
    have hall : ∀ i r, t.view tx i = some r → p i r = true → t.free tx i = true := by
      intro i r hv hp
      exact List.all_eq_true.mp h (i,r) (mem_select.mpr ⟨hv,hp⟩)
    constructor
    · intro he
      cases he
      exact ⟨hall,rfl,fun _ => rfl⟩
    · rintro ⟨_,hsize,hslot⟩
      rcases t' with ⟨size,slot,fresh⟩
      simp only at hsize hslot
      subst hsize
      have hs : slot = _ := funext hslot
      subst hs
      rfl
  · rename_i h
    constructor
    · intro he
      cases he
    · rintro ⟨hall,_⟩
      refine absurd (List.all_eq_true.mpr ?_) h
      rintro ⟨i,r⟩ hir
      obtain ⟨hv,hp⟩ := mem_select.mp hir
      exact hall i r hv hp

section Modify

variable (h : t.modify tx p f = some t')
include h

theorem modify_size : t'.size = t.size := (modify_eq_some.mp h).2.1

@[simp] theorem modify_committed (i : ℕ) : t'.committed i = t.committed i := by
  simp only [committed,(modify_eq_some.mp h).2.2 i]
  split
  · split <;> rfl
  · rfl

theorem modify_slot_selected (hv : t.view tx i = some r) (hp : p i r = true) :
    t'.slot i = ⟨t.committed i,some (tx,f r)⟩ := by
  simp [(modify_eq_some.mp h).2.2 i,hv,hp,Slot.written,committed]

theorem modify_slot_other (hn : ∀ r, t.view tx i = some r → p i r = false) :
    t'.slot i = t.slot i := by
  rw [(modify_eq_some.mp h).2.2 i]
  split
  · rename_i r hr
    simp [hn r hr]
  · rfl

theorem modify_slot_cases (i : ℕ) : t'.slot i = t.slot i ∨
    ∃ r, t.view tx i = some r ∧ p i r = true ∧ t.free tx i = true ∧
      t'.slot i = ⟨t.committed i,some (tx,f r)⟩ := by
  cases hv : t.view tx i with
  | none => exact .inl (modify_slot_other h (by simp [hv]))
  | some r =>
    by_cases hp : p i r = true
    · exact .inr ⟨r,rfl,hp,(modify_eq_some.mp h).1 i r hv hp,modify_slot_selected h hv hp⟩
    · exact .inl (modify_slot_other h (by simp [hv,hp]))

theorem modify_slot_of_held (hi : t.holder i = some o) (hne : o ≠ tx) : t'.slot i = t.slot i := by
  rcases modify_slot_cases h i with hs | ⟨r,hv,hp,hf,_⟩
  · exact hs
  · rcases free_iff.mp hf with hn | hn
    · simp [hn] at hi
    · exact absurd (Option.some.inj (hi.symm.trans hn)) hne

end Modify

@[simp] theorem insert_size : (t.insert tx r).size = t.size+1 := rfl

@[simp] theorem insert_slot_new : (t.insert tx r).slot t.size = ⟨none,some (tx,some r)⟩ := by
  simp [insert]

theorem insert_slot_of_lt (hi : i < t.size) : (t.insert tx r).slot i = t.slot i := by
  simp [insert,Function.update_of_ne (Nat.ne_of_lt hi)]

theorem insert_slot_of_ne (hi : i ≠ t.size) : (t.insert tx r).slot i = t.slot i := by
  simp [insert,Function.update_of_ne hi]

@[simp] theorem insert_committed (i : ℕ) : (t.insert tx r).committed i = t.committed i := by
  by_cases hi : i = t.size
  · subst hi
    simp [committed,t.fresh t.size (Nat.le_refl _),Slot.empty]
  · simp [committed,insert_slot_of_ne hi]

@[simp] theorem commit_size : (t.commit tx).size = t.size := rfl

@[simp] theorem commit_committed (i : ℕ) : (t.commit tx).committed i = t.view tx i := by
  by_cases h : t.holder i = some tx
  · simp [committed,commit,h]
  · simp [committed,commit,h,view_of_holder_ne h]

theorem commit_slot_of_holder (h : t.holder i = some tx) :
    (t.commit tx).slot i = ⟨t.view tx i,none⟩ := by
  simp [commit,h]

theorem commit_slot_of_ne (h : t.holder i ≠ some tx) : (t.commit tx).slot i = t.slot i := by
  simp [commit,h]

@[simp] theorem rollback_size : (t.rollback tx).size = t.size := rfl

@[simp] theorem rollback_committed (i : ℕ) : (t.rollback tx).committed i = t.committed i := by
  by_cases h : t.holder i = some tx <;> simp [committed,rollback,h]

theorem rollback_slot_of_holder (h : t.holder i = some tx) :
    (t.rollback tx).slot i = ⟨t.committed i,none⟩ := by
  simp [rollback,h]

theorem rollback_slot_of_ne (h : t.holder i ≠ some tx) : (t.rollback tx).slot i = t.slot i := by
  simp [rollback,h]

theorem commit_draft {v : Option Row} (hd : ((t.commit tx).slot i).draft = some (o,v)) :
    (t.slot i).draft = some (o,v) ∧ o ≠ tx := by
  by_cases hh : t.holder i = some tx
  · simp [commit_slot_of_holder hh] at hd
  · rw [commit_slot_of_ne hh] at hd
    refine ⟨hd,?_⟩
    rintro rfl
    exact hh (holder_eq_some.mpr ⟨v,hd⟩)

theorem rollback_draft {v : Option Row} (hd : ((t.rollback tx).slot i).draft = some (o,v)) :
    (t.slot i).draft = some (o,v) ∧ o ≠ tx := by
  by_cases hh : t.holder i = some tx
  · simp [rollback_slot_of_holder hh] at hd
  · rw [rollback_slot_of_ne hh] at hd
    refine ⟨hd,?_⟩
    rintro rfl
    exact hh (holder_eq_some.mpr ⟨v,hd⟩)

theorem commit_holder (h : (t.commit tx).holder i = some o) : t.holder i = some o ∧ o ≠ tx := by
  obtain ⟨v,hd⟩ := holder_eq_some.mp h
  exact ⟨holder_eq_some.mpr ⟨v,(commit_draft hd).1⟩,(commit_draft hd).2⟩

theorem rollback_holder (h : (t.rollback tx).holder i = some o) : t.holder i = some o ∧ o ≠ tx := by
  obtain ⟨v,hd⟩ := holder_eq_some.mp h
  exact ⟨holder_eq_some.mpr ⟨v,(rollback_draft hd).1⟩,(rollback_draft hd).2⟩

end Slots

/-- `r` is the committed version of the row or the draft of an open transaction. -/
def MayBe (t : Table Row) (i : ℕ) (r : Row) : Prop :=
  t.committed i = some r ∨ ∃ o, (t.slot i).draft = some (o,some r)

section Versions

variable {t t' : Table Row} {tx i : ℕ} {p : ℕ → Row → Bool} {f : Row → Option Row} {r r' : Row}

theorem MayBe.lt (h : t.MayBe i r) : i < t.size := by
  rcases h with h | ⟨o,hd⟩
  · exact committed_lt h
  · exact draft_lt hd

theorem mayBe_of_view (h : t.view tx i = some r) : t.MayBe i r := by
  by_cases hh : t.holder i = some tx
  · have hd := draft_of_holder hh
    rw [h] at hd
    exact .inr ⟨tx,hd⟩
  · rw [view_of_holder_ne hh] at h
    exact .inl h

theorem mayBe_of_slot_eq (h : t'.slot i = t.slot i) (hr : t'.MayBe i r) : t.MayBe i r := by
  simpa [MayBe,committed,h] using hr

theorem mayBe_commit (h : (t.commit tx).MayBe i r) : t.MayBe i r := by
  by_cases hh : t.holder i = some tx
  · have hs := commit_slot_of_holder hh
    rcases h with h | ⟨o,hd⟩
    · have hv : t.view tx i = some r := by simpa using h
      exact mayBe_of_view hv
    · simp [hs] at hd
  · exact mayBe_of_slot_eq (commit_slot_of_ne hh) h

theorem mayBe_rollback (h : (t.rollback tx).MayBe i r) : t.MayBe i r := by
  by_cases hh : t.holder i = some tx
  · have hs := rollback_slot_of_holder hh
    rcases h with h | ⟨o,hd⟩
    · exact .inl (by simpa using h)
    · simp [hs] at hd
  · exact mayBe_of_slot_eq (rollback_slot_of_ne hh) h

theorem mayBe_modify (h : t.modify tx p f = some t') (hr : t'.MayBe i r) :
    t.MayBe i r ∨ ∃ r', t.view tx i = some r' ∧ p i r' = true ∧ f r' = some r := by
  rcases modify_slot_cases h i with hs | ⟨r',hv,hp,_,hs⟩
  · exact .inl (mayBe_of_slot_eq hs hr)
  · rcases hr with hc | ⟨o,hd⟩
    · rw [modify_committed h] at hc
      exact .inl (.inl hc)
    · rw [hs] at hd
      simp only [Option.some.injEq,Prod.mk.injEq] at hd
      exact .inr ⟨r',hv,hp,hd.2⟩

theorem mayBe_insert (h : (t.insert tx r').MayBe i r) : t.MayBe i r ∨ (i = t.size ∧ r = r') := by
  by_cases hi : i = t.size
  · subst hi
    rcases h with h | ⟨o,hd⟩
    · rw [insert_committed] at h
      exact .inl (.inl h)
    · simp only [insert_slot_new,Option.some.injEq,Prod.mk.injEq] at hd
      exact .inr ⟨rfl,hd.2.symm⟩
  · exact .inl (mayBe_of_slot_eq (insert_slot_of_ne hi) h)

end Versions

/-- The effects that one statement of `tx` can have on a table. -/
inductive Statement (tx : ℕ) (t : Table Row) : Table Row → Prop
  | keep : Statement tx t t
  | modify {p : ℕ → Row → Bool} {f : Row → Option Row} {t' : Table Row}
      (h : t.modify tx p f = some t') : Statement tx t t'
  | insert (r : Row) : Statement tx t (t.insert tx r)
  | commit : Statement tx t (t.commit tx)
  | rollback : Statement tx t (t.rollback tx)

section Frame

variable {t t' : Table Row} {tx o i : ℕ}

theorem Statement.size_le (h : Statement tx t t') : t.size ≤ t'.size := by
  cases h with
  | modify h => exact Nat.le_of_eq (modify_size h).symm
  | insert r => exact Nat.le_succ _
  | _ => exact Nat.le_refl _

/-- A row stays as it is while another transaction holds it. -/
theorem Statement.slot_of_held (h : Statement tx t t') (hi : t.holder i = some o) (hne : o ≠ tx) :
    t'.slot i = t.slot i := by
  have hne' : t.holder i ≠ some tx := by
    intro he
    exact hne (Option.some.inj (hi.symm.trans he))
  cases h with
  | keep => rfl
  | modify h => exact modify_slot_of_held h hi hne
  | insert r =>
    obtain ⟨v,hv⟩ := holder_eq_some.mp hi
    exact insert_slot_of_lt (draft_lt hv)
  | commit => exact commit_slot_of_ne hne'
  | rollback => exact rollback_slot_of_ne hne'

theorem Statement.holder_of_ne (h : Statement tx t t') (hne : o ≠ tx)
    (hi : t'.holder i = some o) : t.holder i = some o := by
  have hkeep : t'.slot i = t.slot i → t.holder i = some o := by
    intro hs
    simpa [holder,hs] using hi
  cases h with
  | keep => exact hi
  | modify h =>
    rcases modify_slot_cases h i with hs | ⟨r,_,_,_,hs⟩
    · exact hkeep hs
    · simp [holder,hs] at hi
      exact absurd hi.symm hne
  | insert r =>
    by_cases hn : i = t.size
    · subst hn
      simp [holder] at hi
      exact absurd hi.symm hne
    · exact hkeep (insert_slot_of_ne hn)
  | commit => exact (commit_holder hi).1
  | rollback => exact (rollback_holder hi).1

def HoldsNone (t : Table Row) (tx : ℕ) : Prop := ∀ i, t.holder i ≠ some tx

theorem HoldsNone.view (h : t.HoldsNone tx) (i : ℕ) : t.view tx i = t.committed i :=
  view_of_holder_ne (h i)

theorem HoldsNone.of_statement (h : t.HoldsNone o) (hs : Statement tx t t') (hne : o ≠ tx) :
    t'.HoldsNone o :=
  fun i hi => h i (hs.holder_of_ne hne hi)

theorem holdsNone_commit : (t.commit tx).HoldsNone tx := fun _ hi => (commit_holder hi).2 rfl

def KeepsRows (t : Table Row) : Prop := ∀ i o, (t.slot i).draft ≠ some (o,none)

theorem KeepsRows.of_slot_eq (h : t.KeepsRows) {i : ℕ} (hs : t'.slot i = t.slot i) (o : ℕ) :
    (t'.slot i).draft ≠ some (o,none) := by
  rw [hs]
  exact h i o

theorem KeepsRows.modify {p : ℕ → Row → Bool} {f : Row → Option Row} (h : t.KeepsRows)
    (hm : t.modify tx p f = some t') (hf : ∀ r, (f r).isSome = true) : t'.KeepsRows := by
  intro i o
  rcases modify_slot_cases hm i with hs | ⟨r,_,_,_,hs⟩
  · exact h.of_slot_eq hs o
  · intro hd
    have hr := hf r
    rw [hs] at hd
    simp only [Option.some.injEq,Prod.mk.injEq] at hd
    simp [hd.2] at hr

theorem KeepsRows.insert (h : t.KeepsRows) (r : Row) : (t.insert tx r).KeepsRows := by
  intro i o
  by_cases hi : i = t.size
  · subst hi
    simp
  · exact h.of_slot_eq (insert_slot_of_ne hi) o

theorem KeepsRows.commit (h : t.KeepsRows) : (t.commit tx).KeepsRows :=
  fun i o hd => h i o (commit_draft hd).1

theorem KeepsRows.rollback (h : t.KeepsRows) : (t.rollback tx).KeepsRows :=
  fun i o hd => h i o (rollback_draft hd).1

theorem KeepsRows.view (h : t.KeepsRows) (hc : (t.committed i).isSome = true) :
    (t.view tx i).isSome = true := by
  by_cases hh : t.holder i = some tx
  · have hd := draft_of_holder hh
    cases hv : t.view tx i with
    | none =>
      rw [hv] at hd
      exact absurd hd (h i tx)
    | some r => rfl
  · rw [view_of_holder_ne hh]
    exact hc

theorem KeepsRows.committed (h : t.KeepsRows) (hs : Statement tx t t')
    (hc : (t.committed i).isSome = true) : (t'.committed i).isSome = true := by
  cases hs with
  | keep => exact hc
  | modify hm =>
    rw [modify_committed hm]
    exact hc
  | insert r =>
    rw [insert_committed]
    exact hc
  | commit =>
    rw [commit_committed]
    exact h.view hc
  | rollback =>
    rw [rollback_committed]
    exact hc

end Frame

def Carries (t : Table Row) (key : Row → Option Key) (k : Key) (i : ℕ) : Prop :=
  ∃ r, t.MayBe i r ∧ key r = some k

/-- However the open transactions end, no two rows carry one key. -/
def Unique (t : Table Row) (key : Row → Option Key) : Prop :=
  ∀ k i j, t.Carries key k i → t.Carries key k j → i = j

section Index

variable {t t' : Table Row} {tx i : ℕ} {p : ℕ → Row → Bool} {f : Row → Option Row} {r : Row}
  {key : Row → Option Key} {k : Key}

theorem Unique.mono (h : t.Unique key)
    (hc : ∀ k i, t'.Carries key k i → t.Carries key k i) : t'.Unique key :=
  fun k i j hi hj => h k i j (hc k i hi) (hc k j hj)

theorem carries_insert (h : (t.insert tx r).Carries key k i) :
    t.Carries key k i ∨ (i = t.size ∧ key r = some k) := by
  obtain ⟨r',hr,hk⟩ := h
  rcases mayBe_insert hr with hr | he
  · exact .inl ⟨r',hr,hk⟩
  · exact .inr ⟨he.1,by rw [← he.2]; exact hk⟩

theorem Unique.insert (h : t.Unique key) (hr : key r = none) : (t.insert tx r).Unique key := by
  refine h.mono ?_
  intro k i hc
  rcases carries_insert hc with hc | ⟨_,hk⟩
  · exact hc
  · rw [hr] at hk
    cases hk

theorem unique_of_size_le_one (h : t.size ≤ 1) : t.Unique key := by
  rintro k i j ⟨r,hr,_⟩ ⟨r',hr',_⟩
  have hi := hr.lt
  have hj := hr'.lt
  omega

theorem Unique.commit (h : t.Unique key) : (t.commit tx).Unique key :=
  h.mono fun _ _ ⟨r,hr,hk⟩ => ⟨r,mayBe_commit hr,hk⟩

theorem Unique.rollback (h : t.Unique key) : (t.rollback tx).Unique key :=
  h.mono fun _ _ ⟨r,hr,hk⟩ => ⟨r,mayBe_rollback hr,hk⟩

theorem Unique.modify (h : t.Unique key) (hm : t.modify tx p f = some t')
    (hf : ∀ i r r' k, t.view tx i = some r → p i r = true → f r = some r' → key r' = some k →
      key r = some k) : t'.Unique key := by
  refine h.mono ?_
  rintro k i ⟨r',hr,hk⟩
  rcases mayBe_modify hm hr with hr | ⟨r,hv,hp,hfr⟩
  · exact ⟨r',hr,hk⟩
  · exact ⟨r,mayBe_of_view hv,hf i r r' k hv hp hfr hk⟩

theorem contested_of_carries [DecidableEq Key] (hfree : t.holder i ≠ some tx)
    (h : t.Carries key k i) : t.contested tx key k = true := by
  obtain ⟨r,hr,hk⟩ := h
  refine List.any_eq_true.mpr ⟨i,List.mem_range.mpr hr.lt,?_⟩
  refine List.any_eq_true.mpr ?_
  have hb : (some r).bind key = some k := hk
  rcases hr with hc | ⟨o,hd⟩
  · refine ⟨t.committed i,?_,by simpa [hc] using hk⟩
    unfold versions
    split
    · rename_i o v hd
      have hne : o ≠ tx := by
        rintro rfl
        exact hfree (holder_eq_some.mpr ⟨v,hd⟩)
      simp [hne]
    · simp
  · refine ⟨some r,?_,by simpa using hb⟩
    have hne : o ≠ tx := by
      intro ho
      subst ho
      exact hfree (holder_eq_some.mpr ⟨_,hd⟩)
    simp [versions,hd,hne]

/-- A key that is taken is carried by a row that its reader sees. -/
theorem view_of_taken [DecidableEq Key] (h : t.taken tx key k = true) :
    ∃ i, (t.view tx i).bind key = some k := by
  obtain ⟨i,_,hi⟩ := List.any_eq_true.mp h
  refine ⟨i,?_⟩
  have hall : ∀ v ∈ t.versions tx i, v.bind key = some k := by
    simpa using hi
  unfold versions at hall
  unfold view
  split
  · rename_i o v hd
    rw [hd] at hall
    split
    · rename_i ho
      simp only [ho,if_true] at hall
      exact hall v (by simp)
    · rename_i ho
      simp only [ho,if_false] at hall
      exact hall (t.committed i) (by simp)
  · rename_i hd
    rw [hd] at hall
    exact hall (t.committed i) (by simp)

/-- The index admits a row only when nobody carries its key. -/
theorem insertUnique_inserted [DecidableEq Key] (h : t.insertUnique tx key r = .inserted t') :
    t' = t.insert tx r ∧ ∀ k, key r = some k → t.contested tx key k = false := by
  unfold insertUnique at h
  split at h
  · rename_i hk
    cases h
    exact ⟨rfl,by simp [hk]⟩
  · rename_i k hk
    split at h
    · cases h
    · split at h
      · cases h
      · rename_i hc
        cases h
        refine ⟨rfl,fun k' hk' => ?_⟩
        cases hk.symm.trans hk'
        simpa using hc

theorem insertUnique_violates [DecidableEq Key] (h : t.insertUnique tx key r = .violates) :
    ∃ k, key r = some k ∧ t.taken tx key k = true := by
  unfold insertUnique at h
  split at h
  · cases h
  · rename_i k hk
    split at h
    · rename_i ht
      exact ⟨k,hk,ht⟩
    · split at h <;> cases h

theorem Unique.insertUnique [DecidableEq Key] (h : t.Unique key)
    (hfree : t.HoldsNone tx) (hi : t.insertUnique tx key r = .inserted t') :
    t'.Unique key := by
  obtain ⟨rfl,hk⟩ := insertUnique_inserted hi
  have hnone : ∀ k i, key r = some k → ¬t.Carries key k i := by
    intro k i hr hc
    have hn := hk k hr
    rw [contested_of_carries (hfree i) hc] at hn
    cases hn
  intro k i j hci hcj
  rcases carries_insert hci with hci | ⟨rfl,hr⟩ <;> rcases carries_insert hcj with hcj | ⟨rfl,hr'⟩
  · exact h k i j hci hcj
  · exact absurd hci (hnone k i hr')
  · exact absurd hcj (hnone k j hr)
  · rfl

end Index

end Table
end Broadcaster
