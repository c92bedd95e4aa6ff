import Mathlib.Algebra.Order.Group.Defs
import Mathlib.Algebra.Order.Monoid.Unbundled.Basic
import Mathlib.Algebra.Order.Sub.Defs
import Mathlib.Data.List.Basic
import Mathlib.Tactic.Abel
import Mathlib.Data.Nat.Notation

/-!
# Events in a window of time

A log of instants and a shorter list that stands for it. The shorter list may
forget an instant once it lies a window's length in the past, since then no
later reading can tell the difference.
-/

namespace Broadcaster
namespace SlidingWindow

variable {T : Type} [AddCommGroup T] [LinearOrder T]

/-- The instants that a window of length `w` ending at `now` still holds. -/
def recent (w now : T) (ts : List T) : List T := ts.filter fun t => now-t < w

def countFrom (w a : T) (ts : List T) : ℕ := ts.countP fun t => a ≤ t ∧ t < a+w

/-- From `now` on the list `ts` gives the same readings as the log. -/
def StandsFor (w now : T) (ts log : List T) : Prop :=
  ∀ n, now ≤ n → recent w n ts = recent w n log

theorem mem_recent {w now t : T} {ts : List T} : t ∈ recent w now ts ↔ t ∈ ts ∧ now-t < w := by
  simp [recent]

theorem recent_append (w now : T) (ts us : List T) :
    recent w now (ts++us) = recent w now ts ++ recent w now us := List.filter_append ..

theorem countFrom_append (w a : T) (ts us : List T) :
    countFrom w a (ts++us) = countFrom w a ts + countFrom w a us := List.countP_append ..

theorem StandsFor.append {w now : T} {ts log : List T} (h : StandsFor w now ts log) (us : List T) :
    StandsFor w now (ts++us) (log++us) := by
  intro m hm
  rw [recent_append,recent_append,h m hm]

section Order

variable [IsOrderedAddMonoid T]

theorem recent_recent (w : T) {now n : T} (h : now ≤ n) (ts : List T) :
    recent w n (recent w now ts) = recent w n ts := by
  unfold recent
  rw [List.filter_filter]
  refine List.filter_congr ?_
  intro t _
  have hle : now-t ≤ n-t := sub_le_sub_right h t
  have hiff : (n-t < w ∧ now-t < w) ↔ n-t < w :=
    ⟨fun hboth => hboth.1,fun hlt => ⟨hlt,lt_of_le_of_lt hle hlt⟩⟩
  rw [← Bool.decide_and,decide_eq_decide]
  exact hiff

namespace StandsFor

variable {w now n : T} {ts log : List T}

theorem forget (h : StandsFor w now ts log) (hn : now ≤ n) :
    StandsFor w n (recent w n ts) log := by
  intro m hm
  rw [recent_recent w hm ts]
  exact h m (le_trans hn hm)

end StandsFor

theorem countFrom_le_recent {w a now : T} (hnow : now < a+w) (ts : List T) :
    countFrom w a ts ≤ (recent w now ts).length := by
  unfold countFrom recent
  rw [← List.countP_eq_length_filter]
  refine List.countP_mono_left ?_
  intro t _ ht
  have hat : a ≤ t := (of_decide_eq_true ht).1
  have hlt : now-t < w := by
    rw [sub_lt_iff_lt_add']
    exact lt_of_lt_of_le hnow (add_le_add_left hat w)
  exact decide_eq_true hlt

/-- One more instant keeps the bound on every window when fewer than `k` are recent. -/
theorem countFrom_push_le {w now : T} {k : ℕ} {log : List T} (hbound : ∀ a, countFrom w a log ≤ k)
    (hroom : (recent w now log).length < k) (a : T) : countFrom w a (log++[now]) ≤ k := by
  rw [countFrom_append]
  by_cases hin : a ≤ now ∧ now < a+w
  · have hone : countFrom w a [now] = 1 := by
      simp [countFrom,hin]
    have hold := countFrom_le_recent hin.2 log
    omega
  · have hzero : countFrom w a [now] = 0 := by
      simpa [countFrom] using hin
    have hold := hbound a
    omega

end Order

end SlidingWindow
end Broadcaster
