import Mathlib.Logic.Relation

/-!
# Systems with events

A system is a function that gives the state after an event; `none` means that
the event cannot happen now. A run may be restricted by a condition `G` on each
event and the state before it; the unrestricted runs are those of `anyEvent`.
-/

namespace Broadcaster
namespace Events

variable {State Event : Type} {step : State → Event → Option State} {G : State → Event → Prop}
variable {a b c : State}

def Step (step : State → Event → Option State) (G : State → Event → Prop) (a b : State) : Prop :=
  ∃ e, G a e ∧ step a e = some b

def anyEvent : State → Event → Prop := fun _ _ => True

instance (s : State) (e : Event) : Decidable (anyEvent s e) := .isTrue trivial

def Run (step : State → Event → Option State) (G : State → Event → Prop) : State → State → Prop :=
  Relation.ReflTransGen (Step step G)

namespace Run

theorem refl (a : State) : Run step G a a := Relation.ReflTransGen.refl

/-- What every event preserves holds after every run. -/
theorem invariant {I : State → Prop} (h : Run step G a b)
    (hstep : ∀ s e s', I s → G s e → step s e = some s' → I s') (ha : I a) : I b := by
  induction h with
  | refl => exact ha
  | tail _ hs ih =>
    obtain ⟨e,hg,hs⟩ := hs
    exact hstep _ e _ ih hg hs

end Run

/-- The state after a list of events, each of which has to be possible and to meet the condition. -/
def perform (step : State → Event → Option State) (G : State → Event → Prop) [∀ s e, Decidable (G s e)]
    (s : State) : List Event → Option State
  | [] => some s
  | e::es => if G s e then (step s e).bind fun s' => perform step G s' es else none

theorem run_of_perform [∀ s e, Decidable (G s e)] {es : List Event} (h : perform step G a es = some b) :
    Run step G a b := by
  induction es generalizing a with
  | nil =>
    cases h
    exact Run.refl b
  | cons e es ih =>
    simp only [perform] at h
    split at h
    · rename_i hg
      obtain ⟨s,hs,h⟩ := Option.bind_eq_some_iff.mp h
      exact Relation.ReflTransGen.head ⟨e,hg,hs⟩ (ih h)
    · cases h

def performed (step : State → Event → Option State) (G : State → Event → Prop) [∀ s e, Decidable (G s e)]
    (s : State) (es : List Event) : State := (perform step G s es).getD s

theorem run_performed (step : State → Event → Option State) (G : State → Event → Prop)
    [∀ s e, Decidable (G s e)] (s : State) (es : List Event) : Run step G s (performed step G s es) := by
  unfold performed
  cases h : perform step G s es with
  | none => exact Run.refl s
  | some s' => exact run_of_perform h

end Events
end Broadcaster
