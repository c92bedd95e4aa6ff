import Mathlib.Data.List.Basic
import Mathlib.Data.List.Nodup

/-!
# First occurrences

A pass over a list that remembers the keys it has met keeps of each key the first
element, and the elements without a key. What it keeps is said by the positions
alone: an element stays when its key stands nowhere before it.
-/

namespace Broadcaster
namespace FirstOccurrences

variable {α K : Type} [DecidableEq K] {key : α → Option K} {seen : List K} {l : List α} {k : K} {v : α}

def firsts (key : α → Option K) : List K → List α → List α
  | _, [] => []
  | seen, v::l =>
    match key v with
    | none => v::firsts key seen l
    | some k => if k ∈ seen then firsts key seen l else v::firsts key (k::seen) l

/-- The elements whose key stands nowhere before them. -/
def firstOccurrences (key : α → Option K) (l : List α) : List α :=
  (l.zipIdx.filter fun p => (key p.1).all fun k => k ∉ (l.take p.2).filterMap key).map Prod.fst

theorem firsts_cons_none (h : key v = none) : firsts key seen (v::l) = v::firsts key seen l := by
  simp only [firsts,h]

theorem firsts_cons_seen (h : key v = some k) (hk : k ∈ seen) :
    firsts key seen (v::l) = firsts key seen l := by
  simp only [firsts,h,if_pos hk]

theorem firsts_cons_new (h : key v = some k) (hk : k ∉ seen) :
    firsts key seen (v::l) = v::firsts key (k::seen) l := by
  simp only [firsts,h,if_neg hk]

theorem firsts_congr {seen' : List K} (h : ∀ k, k ∈ seen ↔ k ∈ seen') :
    firsts key seen l = firsts key seen' l := by
  induction l generalizing seen seen' with
  | nil => rfl
  | cons v l ih =>
    cases hv : key v with
    | none => rw [firsts_cons_none hv,firsts_cons_none hv,ih h]
    | some k =>
      by_cases hk : k ∈ seen
      · rw [firsts_cons_seen hv hk,firsts_cons_seen hv ((h k).mp hk),ih h]
      · have hnext : ∀ k', k' ∈ k::seen ↔ k' ∈ k::seen' := by
          intro k'
          simp only [List.mem_cons,h]
        rw [firsts_cons_new hv hk,firsts_cons_new hv fun h' => hk ((h k).mpr h'),ih hnext]

theorem firsts_sublist (seen : List K) (l : List α) : (firsts key seen l).Sublist l := by
  induction l generalizing seen with
  | nil => exact List.Sublist.refl _
  | cons v l ih =>
    cases hv : key v with
    | none =>
      rw [firsts_cons_none hv]
      exact (ih seen).cons_cons v
    | some k =>
      by_cases hk : k ∈ seen
      · rw [firsts_cons_seen hv hk]
        exact (ih seen).cons v
      · rw [firsts_cons_new hv hk]
        exact (ih _).cons_cons v

theorem mem_keys_firsts (seen : List K) (l : List α) :
    k ∈ (firsts key seen l).filterMap key ↔ k ∈ l.filterMap key ∧ k ∉ seen := by
  induction l generalizing seen with
  | nil => simp [firsts]
  | cons v l ih =>
    cases hv : key v with
    | none => rw [firsts_cons_none hv,List.filterMap_cons_none hv,List.filterMap_cons_none hv,ih]
    | some k' =>
      by_cases hk : k' ∈ seen
      · rw [firsts_cons_seen hv hk,List.filterMap_cons_some hv,ih,List.mem_cons]
        constructor
        · exact fun h => ⟨Or.inr h.1,h.2⟩
        · rintro ⟨rfl | h,hnot⟩
          · exact absurd hk hnot
          · exact ⟨h,hnot⟩
      · rw [firsts_cons_new hv hk,List.filterMap_cons_some hv,List.filterMap_cons_some hv,List.mem_cons,
          ih,List.mem_cons,List.mem_cons]
        constructor
        · rintro (rfl | ⟨h,hnot⟩)
          · exact ⟨Or.inl rfl,hk⟩
          · exact ⟨Or.inr h,fun hs => hnot (Or.inr hs)⟩
        · rintro ⟨rfl | h,hnot⟩
          · exact Or.inl rfl
          · by_cases he : k = k'
            · exact Or.inl he
            · exact Or.inr ⟨h,fun hs => hs.elim he hnot⟩

theorem keys_firsts_nodup (seen : List K) (l : List α) : ((firsts key seen l).filterMap key).Nodup := by
  induction l generalizing seen with
  | nil => exact List.nodup_nil
  | cons v l ih =>
    cases hv : key v with
    | none =>
      rw [firsts_cons_none hv,List.filterMap_cons_none hv]
      exact ih seen
    | some k =>
      by_cases hk : k ∈ seen
      · rw [firsts_cons_seen hv hk]
        exact ih seen
      · rw [firsts_cons_new hv hk,List.filterMap_cons_some hv,List.nodup_cons,mem_keys_firsts]
        exact ⟨fun h => h.2 (by simp),ih _⟩

theorem filter_firsts (seen : List K) (l : List α) :
    (firsts key seen l).filter (fun v => (key v).isNone) = l.filter fun v => (key v).isNone := by
  induction l generalizing seen with
  | nil => rfl
  | cons v l ih =>
    cases hv : key v with
    | none => simp only [firsts_cons_none hv,List.filter_cons,hv,Option.isNone_none,if_true,ih]
    | some k =>
      have hdrop : (key v).isNone = false := by
        rw [hv]
        rfl
      by_cases hk : k ∈ seen
      · simp only [firsts_cons_seen hv hk,List.filter_cons,hdrop,ih,Bool.false_eq_true,if_false]
      · simp only [firsts_cons_new hv hk,List.filter_cons,hdrop,ih,Bool.false_eq_true,if_false]

theorem firsts_eq_filter (before l : List α) :
    firsts key (before.filterMap key) l =
      ((l.zipIdx before.length).filter fun p =>
        (key p.1).all fun k => k ∉ ((before ++ l).take p.2).filterMap key).map Prod.fst := by
  induction l generalizing before with
  | nil => rfl
  | cons v l ih =>
    have hassoc : before ++ v::l = (before ++ [v]) ++ l := by
      simp
    have htake : (before ++ v::l).take before.length = before := by
      simp
    have hnext := ih (before ++ [v])
    rw [← hassoc,List.length_append,List.length_singleton] at hnext
    rw [List.zipIdx_cons,List.filter_cons]
    simp only [htake]
    cases hv : key v with
    | none =>
      have hsame : (before ++ [v]).filterMap key = before.filterMap key := by
        simp [List.filterMap_append,hv]
      rw [hsame] at hnext
      rw [firsts_cons_none hv,hnext]
      rfl
    | some k =>
      have hmore : ∀ k', k' ∈ (before ++ [v]).filterMap key ↔ k' ∈ k::before.filterMap key := by
        intro k'
        simp [List.filterMap_append,hv,or_comm]
      by_cases hk : k ∈ before.filterMap key
      · have hsame : ∀ k', k' ∈ before.filterMap key ↔ k' ∈ (before ++ [v]).filterMap key := by
          intro k'
          rw [hmore,List.mem_cons]
          constructor
          · exact Or.inr
          · rintro (rfl | h)
            · exact hk
            · exact h
        rw [firsts_cons_seen hv hk,firsts_congr hsame,hnext,if_neg]
        simp only [Option.all_some,decide_eq_true_eq]
        exact fun hnot => hnot hk
      · rw [firsts_cons_new hv hk,← firsts_congr hmore,hnext,if_pos]
        · rfl
        · simp only [Option.all_some,decide_eq_true_eq]
          exact hk

/-- The pass keeps the elements whose key stands nowhere before them. -/
theorem firsts_eq_firstOccurrences (key : α → Option K) (l : List α) :
    firsts key [] l = firstOccurrences key l := firsts_eq_filter [] l

end FirstOccurrences
end Broadcaster
