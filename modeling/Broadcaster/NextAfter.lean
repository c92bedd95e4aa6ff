import Mathlib.Order.Lattice

/-!
# The next moment of a set

A clock that wakes up at arbitrary moments and each time moves its alarm to the
next moment of a set `S`. Whatever happened before, the alarm has gone off if
and only if some moment of `S` has passed since the last waking, and all of
them are answered at once.
-/

namespace Broadcaster

section

variable {α : Type} [LinearOrder α]

/-- `alarm` is the earliest element of `S` after `now`, `none` when there is none. -/
def IsNext (S : α → Prop) (now : α) : Option α → Prop
  | none => ∀ u, S u → u ≤ now
  | some t => S t ∧ now < t ∧ ∀ u, S u → now < u → t ≤ u

variable {S : α → Prop} {now later : α} {alarm : Option α}

theorem IsNext.lt {t : α} (h : IsNext S now (some t)) : now < t := h.2.1

theorem IsNext.rings_iff (h : IsNext S now alarm) :
    (∃ t, alarm = some t ∧ t ≤ later) ↔ ∃ u, S u ∧ now < u ∧ u ≤ later := by
  cases alarm with
  | none =>
    constructor
    · rintro ⟨t,ht,_⟩
      cases ht
    · rintro ⟨u,hu,hlt,_⟩
      exact absurd (h u hu) (not_le.mpr hlt)
  | some t =>
    obtain ⟨hmem,hlt,hleast⟩ := h
    constructor
    · rintro ⟨t',ht',hle⟩
      have he : t = t' := Option.some.inj ht'
      rw [← he] at hle
      exact ⟨t,hmem,hlt,hle⟩
    · rintro ⟨u,hu,hnow,hle⟩
      exact ⟨t,rfl,le_trans (hleast u hu hnow) hle⟩

theorem IsNext.mono (h : IsNext S now alarm) (hle : now ≤ later)
    (hquiet : ∀ t, alarm = some t → later < t) : IsNext S later alarm := by
  cases alarm with
  | none =>
    intro u hu
    exact le_trans (h u hu) hle
  | some t =>
    obtain ⟨hmem,_,hleast⟩ := h
    refine ⟨hmem,hquiet t rfl,?_⟩
    intro u hu hlt
    exact hleast u hu (lt_of_le_of_lt hle hlt)

end

end Broadcaster
