import Mathlib.Data.Nat.Notation
import Mathlib.Order.Lattice
import Mathlib.Tactic.Common

/-!
# Pages behind a key

A query returns the rows behind a key in the order of their keys, and one more
than it is going to show tells it that there is a next page. The next page is
asked for by the key of the last row. Whatever happens to the rows in between,
what has been shown stays in order.
-/

namespace Broadcaster
namespace KeysetPages

variable {α K : Type} [LinearOrder K]

/-- The rows behind the key, at most `limit` of them, and the key of the last one if there are more. -/
def page (key : α → K) (rows : List α) (after : Option K) (limit : ℕ) : List α × Option K :=
  let found := (rows.filter fun a => after.all fun k => decide (k < key a)).take (limit+1)
  let shown := found.take limit
  (shown,if limit < found.length then shown.getLast?.map key else none)

def Ordered (key : α → K) (rows : List α) : Prop := rows.Pairwise fun a b => key a < key b

/-- `shown` is what is to be shown next after what is up to `after`; the rows behind `next` are left. -/
structure Portion (key : α → K) (rows : List α) (after : Option K) (shown : List α) (next : Option K) : Prop where
  ordered : Ordered key shown
  subset : shown ⊆ rows
  behind : ∀ a ∈ shown, ∀ k, after = some k → k < key a
  upTo : ∀ k, next = some k → ∀ a ∈ shown, key a ≤ k
  whole : ∀ a ∈ rows, (∀ k, after = some k → k < key a) → (∀ k, next = some k → key a ≤ k) → a ∈ shown
  forward : ∀ k k', after = some k → next = some k' → k < k'

variable {key : α → K} {rows shown : List α} {after next : Option K} {limit : ℕ}

theorem mem_take_of_le {l : List α} (h : Ordered key l) {n : ℕ} {a b : α} (ha : a ∈ l)
    (hb : (l.take n).getLast? = some b) (hle : key a ≤ key b) : a ∈ l.take n := by
  rw [← List.take_append_drop n l,List.mem_append] at ha
  refine ha.resolve_right fun hdrop => ?_
  have hsplit : Ordered key (l.take n ++ l.drop n) := by
    rwa [List.take_append_drop]
  have hlt := (List.pairwise_append.mp hsplit).2.2 b (List.mem_of_getLast? hb) a hdrop
  exact absurd hle (not_le_of_gt hlt)

theorem le_getLast {l : List α} (h : Ordered key l) {a b : α} (ha : a ∈ l) (hb : l.getLast? = some b) :
    key a ≤ key b := by
  obtain ⟨front,rfl⟩ := List.getLast?_eq_some_iff.mp hb
  rcases List.mem_append.mp ha with hfront | hlast
  · exact le_of_lt ((List.pairwise_append.mp h).2.2 a hfront b List.mem_cons_self)
  · rw [List.mem_singleton.mp hlast]

theorem mem_filter_after {a : α} : a ∈ (rows.filter fun a => after.all fun k => decide (k < key a)) ↔
    a ∈ rows ∧ ∀ k, after = some k → k < key a := by
  rw [List.mem_filter]
  cases after <;> simp

theorem portion_page (h : Ordered key rows) (hlimit : 0 < limit) :
    Portion key rows after (page key rows after limit).1 (page key rows after limit).2 := by
  unfold page
  dsimp only
  generalize hfound : (rows.filter fun a => after.all fun k => decide (k < key a)) = found
  have hmem : ∀ a, a ∈ found ↔ a ∈ rows ∧ ∀ k, after = some k → k < key a := by
    intro a
    rw [← hfound,mem_filter_after]
  have hordered : Ordered key found := by
    rw [← hfound]
    exact h.filter _
  have htake : (found.take (limit+1)).take limit = found.take limit := by
    rw [List.take_take,Nat.min_eq_left (Nat.le_succ limit)]
  have hshown : Ordered key (found.take limit) := hordered.sublist (List.take_sublist _ _)
  have hnext : ∀ k, (if limit < (found.take (limit+1)).length then (found.take limit).getLast?.map key else none) =
      some k → ∃ b, (found.take limit).getLast? = some b ∧ key b = k := by
    intro k hk
    split_ifs at hk with hmore
    exact Option.map_eq_some_iff.mp hk
  rw [htake]
  refine ⟨hshown,?_,?_,?_,?_,?_⟩
  · exact fun a ha => ((hmem a).mp (List.mem_of_mem_take ha)).1
  · exact fun a ha => ((hmem a).mp (List.mem_of_mem_take ha)).2
  · intro k hk a ha
    obtain ⟨b,hb,rfl⟩ := hnext k hk
    exact le_getLast hshown ha hb
  · intro a ha hafter hupTo
    have hfound := (hmem a).mpr ⟨ha,hafter⟩
    by_cases hmore : limit < (found.take (limit+1)).length
    · -- there is a last row, and the key of the next page is its key
      have hlength : (found.take limit).length = limit := by
        rw [List.length_take] at hmore ⊢
        omega
      have hne : found.take limit ≠ [] := by
        intro hnil
        rw [hnil,List.length_nil] at hlength
        omega
      obtain ⟨b,hb⟩ := Option.isSome_iff_exists.mp (List.getLast?_isSome.mpr hne)
      refine mem_take_of_le hordered hfound hb (hupTo (key b) ?_)
      rw [if_pos hmore,hb]
      rfl
    · have hshort : found.length ≤ limit := by
        rw [List.length_take] at hmore
        omega
      rwa [List.take_of_length_le hshort]
  · intro k k' hk hk'
    obtain ⟨b,hb,rfl⟩ := hnext k' hk'
    exact ((hmem b).mp (List.mem_of_mem_take (List.mem_of_getLast? hb))).2 k hk

/-- The keys that are shown, in order, and none behind the cursor. -/
structure Listed (keys : List K) (cursor : Option K) : Prop where
  ordered : keys.Pairwise (· < ·)
  upTo : ∀ c, cursor = some c → ∀ k ∈ keys, k ≤ c

def Covered (keys : List K) (cursor : Option K) (k : K) : Prop := (∀ c, cursor = some c → k ≤ c) → k ∈ keys

variable {keys : List K} {cursor : Option K} {c k : K}

theorem Portion.listed (h : Portion key rows none shown next) : Listed (shown.map key) next where
  ordered := List.pairwise_map.mpr h.ordered
  upTo := fun c hc => List.forall_mem_map.mpr (h.upTo c hc)

theorem Portion.covered (h : Portion key rows none shown next) (hk : k ∈ rows.map key) :
    Covered (shown.map key) next k := by
  obtain ⟨a,ha,rfl⟩ := List.mem_map.mp hk
  exact fun hnext => List.mem_map_of_mem (h.whole a ha (fun k hk => by cases hk) hnext)

theorem Listed.sublist {keys' : List K} (h : Listed keys cursor) (hsub : keys'.Sublist keys) : Listed keys' cursor where
  ordered := h.ordered.sublist hsub
  upTo := fun c hc k hk => h.upTo c hc k (hsub.subset hk)

theorem Listed.append (h : Listed keys (some c)) (hp : Portion key rows (some c) shown next) :
    Listed (keys ++ shown.map key) next where
  ordered := by
    refine List.pairwise_append.mpr ⟨h.ordered,List.pairwise_map.mpr hp.ordered,fun k hk => ?_⟩
    exact List.forall_mem_map.mpr fun a ha => lt_of_le_of_lt (h.upTo c rfl k hk) (hp.behind a ha c rfl)
  upTo := by
    intro c' hc'
    refine List.forall_mem_append.mpr ⟨fun k hk => ?_,List.forall_mem_map.mpr (hp.upTo c' hc')⟩
    exact le_of_lt (lt_of_le_of_lt (h.upTo c rfl k hk) (hp.forward c c' rfl hc'))

end KeysetPages
end Broadcaster
