import Broadcaster.OffsetPages
import Mathlib.Data.List.Perm.Subperm

/-!
# The latest rows of several sources

The `k` rows of largest key may be taken from more than `k` rows of each source
instead of from all of them, provided the rows left out are none of the latest
of their own source.
-/

namespace Broadcaster
namespace LatestRows

open OffsetPages

variable {α K : Type} [LinearOrder K] {key : α → K} {k : ℕ} {rows rows' shown l : List α}

/-- `shown` are `k` rows, or all if there are fewer, the latest first, and nothing later has been left out. -/
structure Latest (key : α → K) (k : ℕ) (rows shown : List α) : Prop where
  length : shown.length = min k rows.length
  sorted : shown.Pairwise fun a b => key b ≤ key a
  none_later : ∃ rest, rows.Perm (shown ++ rest) ∧ ∀ a ∈ shown, ∀ b ∈ rest, key b ≤ key a

theorem latest_take (h : Ordered key rows l) (k : ℕ) : Latest key k rows (l.take k) where
  length := by
    rw [List.length_take,h.length]
  sorted := h.sorted.sublist (List.take_sublist k l)
  none_later := by
    refine ⟨l.drop k,?_,?_⟩
    · rw [List.take_append_drop]
      exact h.perm.symm
    · have hpairs := h.sorted
      rw [← List.take_append_drop k l,List.pairwise_append] at hpairs
      exact hpairs.2.2

namespace Latest

theorem perm (h : Latest key k rows shown) (hperm : rows.Perm rows') : Latest key k rows' shown where
  length := by
    rw [← hperm.length_eq]
    exact h.length
  sorted := h.sorted
  none_later := by
    obtain ⟨rest,hrest,hlater⟩ := h.none_later
    exact ⟨rest,hperm.symm.trans hrest,hlater⟩

theorem subperm (h : Latest key k rows shown) : shown.Subperm rows := by
  obtain ⟨rest,hrest,_⟩ := h.none_later
  exact (List.sublist_append_left shown rest).subperm.trans hrest.symm.subperm

theorem exists_rest {kept rest : List α} (hlen : shown.length ≤ k) (hmany : k < kept.length)
    (hkept : kept.Subperm (shown ++ rest)) : ∃ a ∈ kept, a ∈ rest := by
  classical
  by_contra hnone
  have hall : kept.countP (fun a => decide (a ∉ rest)) = kept.length :=
    List.countP_eq_length.mpr fun a ha => decide_eq_true fun hmem => hnone ⟨a,ha,hmem⟩
  have hrest : rest.countP (fun a => decide (a ∉ rest)) = 0 :=
    List.countP_eq_zero.mpr fun a ha h => of_decide_eq_true h ha
  have hcount := hkept.countP_le fun a => decide (a ∉ rest)
  rw [List.countP_append,hall,hrest] at hcount
  have hshown := List.countP_le_length (p := fun a => decide (a ∉ rest)) (l := shown)
  omega

theorem add_older {kept left : List α} (h : Latest key k rows shown) (hkept : kept.Subperm rows)
    (hmany : k < kept.length) (holder : ∀ a ∈ kept, ∀ b ∈ left, key b ≤ key a) :
    Latest key k (rows ++ left) shown where
  length := by
    have hlen := h.length
    have hle := hkept.length_le
    rw [List.length_append]
    omega
  sorted := h.sorted
  none_later := by
    obtain ⟨rest,hperm,hlater⟩ := h.none_later
    refine ⟨rest ++ left,?_,?_⟩
    · rw [← List.append_assoc]
      exact hperm.append_right left
    · intro a ha b hb
      rcases List.mem_append.mp hb with hb | hb
      · exact hlater a ha b hb
      · have hlen := h.length
        obtain ⟨c,hc,hrest⟩ := exists_rest (by omega) hmany (hkept.trans hperm.subperm)
        exact le_trans (holder c hc b hb) (hlater a ha c hrest)

end Latest

end LatestRows
end Broadcaster
