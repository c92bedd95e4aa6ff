import Mathlib.Data.List.Basic

/-!
# Rows on their way into one transaction

A session collects new rows and sends them to the database when it flushes.
After a flush that the database rejected, the session can neither flush nor
commit any more.
-/

namespace Broadcaster

structure Session (Row : Type) where
  flushed : List Row
  pending : List Row
  broken : Bool

namespace Session

variable {Row : Type} {rejects : Row → Bool} {s : Session Row} {rows : List Row}

def empty (Row : Type) : Session Row := ⟨[],[],false⟩

def add (s : Session Row) (r : Row) : Session Row := { s with pending := s.pending ++ [r] }

def flush (rejects : Row → Bool) (s : Session Row) : Session Row :=
  if s.broken || s.pending.any rejects then { s with broken := true }
  else { s with flushed := s.flushed ++ s.pending, pending := [] }

/-- The rows that are stored; none after a rollback. -/
def commit (rejects : Row → Bool) (s : Session Row) : List Row :=
  let s := s.flush rejects
  if s.broken then [] else s.flushed

/-- The session has been given `rows`, and is broken only because one of them was rejected. -/
structure Holds (rejects : Row → Bool) (s : Session Row) (rows : List Row) : Prop where
  accepted : ∀ r ∈ s.flushed, rejects r = false
  complete : s.broken = false → s.flushed ++ s.pending = rows
  rejected : s.broken = true → ∃ r ∈ rows, rejects r = true

theorem holds_empty : (empty Row).Holds rejects [] where
  accepted := by simp [empty]
  complete := by simp [empty]
  rejected := by simp [empty]

theorem Holds.add (h : s.Holds rejects rows) (r : Row) : (s.add r).Holds rejects (rows ++ [r]) where
  accepted := h.accepted
  complete := by
    intro hb
    have hrows := h.complete hb
    simp [Session.add,← hrows]
  rejected := by
    intro hb
    obtain ⟨q,hq,hr⟩ := h.rejected hb
    exact ⟨q,List.mem_append_left _ hq,hr⟩

theorem Holds.ignore (h : s.Holds rejects rows) (hb : s.broken = true) (more : List Row) :
    s.Holds rejects (rows ++ more) where
  accepted := h.accepted
  complete := by simp [hb]
  rejected := by
    intro _
    obtain ⟨q,hq,hr⟩ := h.rejected hb
    exact ⟨q,List.mem_append_left _ hq,hr⟩

theorem Holds.add_of_broken (h : s.Holds rejects rows) (hb : s.broken = true) (r : Row) :
    (s.add r).Holds rejects rows where
  accepted := h.accepted
  complete := by
    intro hb'
    rw [show (s.add r).broken = s.broken from rfl,hb] at hb'
    cases hb'
  rejected := fun _ => h.rejected hb

theorem Holds.flush (h : s.Holds rejects rows) : (s.flush rejects).Holds rejects rows := by
  unfold Session.flush
  by_cases hb : s.broken = true
  · have hs : (if s.broken || s.pending.any rejects then { s with broken := true }
        else { s with flushed := s.flushed ++ s.pending, pending := [] }) = s := by
      cases s
      simp_all
    rw [hs]
    exact h
  · have hb' : s.broken = false := by simpa using hb
    by_cases hp : s.pending.any rejects = true
    · have hbad : ∃ r ∈ rows, rejects r = true := by
        obtain ⟨r,hr,hrej⟩ := List.any_eq_true.mp hp
        refine ⟨r,?_,hrej⟩
        rw [← h.complete hb']
        exact List.mem_append_right _ hr
      simp only [hb',hp,Bool.or_true,if_true]
      exact ⟨h.accepted,by simp,fun _ => hbad⟩
    · have hgood : ∀ r ∈ s.pending, rejects r = false := by
        simpa using hp
      simp only [hb',Bool.false_or,hp]
      refine ⟨?_,?_,by simp⟩
      · intro r hr
        rcases List.mem_append.mp hr with hr | hr
        · exact h.accepted r hr
        · exact hgood r hr
      · intro _
        simpa using h.complete hb'

theorem flush_pending (h : (s.flush rejects).broken = false) : (s.flush rejects).pending = [] := by
  unfold flush at h ⊢
  split
  · rename_i hb
    simp [hb] at h
  · rfl

/-- One rejected row costs all the rows of the session. -/
theorem Holds.commit (h : s.Holds rejects rows) :
    s.commit rejects = if rows.any rejects then [] else rows := by
  have hflush := h.flush
  unfold Session.commit
  cases hb : (s.flush rejects).broken with
  | true =>
    obtain ⟨r,hr,hrej⟩ := hflush.rejected hb
    have hany : rows.any rejects = true := List.any_eq_true.mpr ⟨r,hr,hrej⟩
    simp [hany,hb]
  | false =>
    have hrows := hflush.complete hb
    rw [flush_pending hb,List.append_nil] at hrows
    have hany : rows.any rejects = false := by
      rw [← hrows]
      simpa using hflush.accepted
    simp [hany,hb,hrows]

end Session
end Broadcaster
