import Mathlib.Data.List.Sort
import Mathlib.Data.Nat.Notation
import Mathlib.Order.Basic
import Mathlib.Tactic.Common

/-!
# Pages by offset over an order with ties

A query orders its rows by a key, the largest first, skips some and returns some.
Rows of one key may come in any order, and in another one at the next query.
Here `k` counts the requests of one scrolling reader. Between two requests rows
may leave or join at the lower end of the order, where a bound on the key moves.
-/

namespace Broadcaster
namespace OffsetPages

variable {α K : Type} [LinearOrder K]

structure Ordered (key : α → K) (rows l : List α) : Prop where
  perm : l.Perm rows
  sorted : l.Pairwise fun a b => key b ≤ key a

/-- What a query with `ORDER BY key DESC OFFSET offset LIMIT limit` may return. -/
def Answer (key : α → K) (rows : List α) (offset limit : ℕ) (answer : List α) : Prop :=
  ∃ l, Ordered key rows l ∧ answer = (l.drop offset).take limit

/-- Some rows of one key come before position `b` and some after it. -/
def Straddles (key : α → K) (rows : List α) (b : ℕ) : Prop :=
  ∃ t, (rows.countP fun a => t < key a) < b ∧ b < rows.countP fun a => t ≤ key a

/-- Request `k` asks for the rows from `k*size` on and for one more than a page. From request `k` on, until
there is no further page, the rows `shown`; the last request is the one with number `last`. -/
inductive Scroll (key : α → K) (rows : ℕ → List α) (size : ℕ) : ℕ → ℕ → List α → Prop
  | last {k : ℕ} {answer : List α} (hanswer : Answer key (rows k) (k*size) (size+1) answer)
      (hend : answer.length ≤ size) : Scroll key rows size k k (answer.take size)
  | more {k last : ℕ} {answer shown : List α} (hanswer : Answer key (rows k) (k*size) (size+1) answer)
      (hnext : size < answer.length) (hrest : Scroll key rows size (k+1) last shown) :
      Scroll key rows size k last (answer.take size ++ shown)

/-- Request `k` is made: each page before it was full and had a next one. -/
def Asked (rows : ℕ → List α) (size k : ℕ) : Prop := ∀ j, j < k → (j+1)*size < (rows j).length

section Ordered

variable {key : α → K} {rows l l' : List α}

theorem filter_eq_take {p : α → Bool} (h : l.Pairwise fun a b => p b = true → p a = true) :
    l.filter p = l.take (l.countP p) := by
  induction l with
  | nil => rfl
  | cons a l ih =>
    rw [List.pairwise_cons] at h
    cases ha : p a with
    | true =>
      rw [List.filter_cons_of_pos ha,List.countP_cons_of_pos ha,List.take_succ_cons,ih h.2]
    | false =>
      have hnone : ∀ b ∈ l, ¬p b = true := by
        intro b hb hpb
        rw [h.1 b hb hpb] at ha
        cases ha
      have hneg : ¬p a = true := by
        simp [ha]
      rw [List.filter_cons_of_neg hneg,List.countP_cons_of_neg hneg,List.filter_eq_nil_iff.mpr hnone,
        List.countP_eq_zero.mpr hnone,List.take_zero]

def Upper (key : α → K) (p : α → Bool) : Prop := ∀ a b, key a ≤ key b → p a = true → p b = true

theorem upper_lt (key : α → K) (t : K) : Upper key fun a => decide (t < key a) := by
  intro a b hle ha
  exact decide_eq_true (lt_of_lt_of_le (of_decide_eq_true ha) hle)

theorem upper_le (key : α → K) (t : K) : Upper key fun a => decide (t ≤ key a) := by
  intro a b hle ha
  exact decide_eq_true (le_trans (of_decide_eq_true ha) hle)

theorem Ordered.filter_upper {p : α → Bool} (h : Ordered key rows l) (hp : Upper key p) :
    l.filter p = l.take (l.countP p) :=
  filter_eq_take (h.sorted.imp fun {a b} hle hb => hp b a hle hb)

theorem Ordered.length (h : Ordered key rows l) : l.length = rows.length := h.perm.length_eq

theorem Ordered.filter {p : α → Bool} (h : Ordered key rows l) : Ordered key (rows.filter p) (l.filter p) :=
  ⟨h.perm.filter p,h.sorted.filter p⟩

theorem ordered_mergeSort (key : α → K) (rows : List α) :
    Ordered key rows (rows.mergeSort fun a b => decide (key b ≤ key a)) := by
  let le : α → α → Bool := fun a b => decide (key b ≤ key a)
  have htrans : ∀ a b c, le a b = true → le b c = true → le a c = true := by
    intro a b c hab hbc
    exact decide_eq_true (le_trans (of_decide_eq_true hbc) (of_decide_eq_true hab))
  have htotal : ∀ a b, (le a b || le b a) = true := by
    intro a b
    simpa [le] using le_total (key b) (key a)
  exact ⟨List.mergeSort_perm rows le,(List.pairwise_mergeSort htrans htotal rows).imp of_decide_eq_true⟩

theorem flatMap_pages (l : List α) (size n : ℕ) :
    (List.range n).flatMap (fun k => (l.drop (k*size)).take size) = l.take (n*size) := by
  induction n with
  | zero => simp
  | succ n ih => rw [List.range_succ,List.flatMap_append,ih,List.flatMap_singleton,Nat.succ_mul,List.take_add]

theorem exists_ordered (key : α → K) (rows : List α) : ∃ l, Ordered key rows l :=
  ⟨_,ordered_mergeSort key rows⟩

theorem Ordered.extend {p : α → Bool} (h : Ordered key (rows.filter p) l) (hp : Upper key p) :
    ∃ rest, Ordered key rows (l++rest) := by
  obtain ⟨rest,hrest⟩ := exists_ordered key (rows.filter fun a => !p a)
  refine ⟨rest,(h.perm.append hrest.perm).trans (List.filter_append_perm p rows),?_⟩
  rw [List.pairwise_append]
  refine ⟨h.sorted,hrest.sorted,?_⟩
  intro a ha b hb
  have hin : p a = true := (List.mem_filter.mp (h.perm.mem_iff.mp ha)).2
  have hout := (List.mem_filter.mp (hrest.perm.mem_iff.mp hb)).2
  by_contra hle
  have hpb := hp a b (le_of_lt (not_le.mp hle)) hin
  simp [hpb] at hout

theorem Ordered.countP (h : Ordered key rows l) (p : α → Bool) : rows.countP p = l.countP p :=
  (h.perm.countP_eq p).symm

theorem le_countP_of_take {p : α → Bool} {m : ℕ} (hm : m ≤ l.length) (hall : ∀ a ∈ l.take m, p a = true) :
    m ≤ l.countP p := by
  have hcount : (l.take m).countP p = (l.take m).length := List.countP_eq_length.mpr hall
  have hsub := (List.take_sublist m l).countP_le (p := p)
  rw [hcount,List.length_take] at hsub
  omega

theorem Ordered.le_of_mem_take {b i : ℕ} (h : Ordered key rows l) (hi : i < l.length) (hb : b ≤ i+1) {a : α}
    (ha : a ∈ l.take b) : key l[i] ≤ key a := by
  obtain ⟨j,hj,rfl⟩ := List.mem_take_iff_getElem.mp ha
  rcases Nat.lt_or_eq_of_le (show j ≤ i by omega) with hlt | rfl
  · exact List.pairwise_iff_getElem.mp h.sorted j i (by omega) hi hlt
  · exact le_refl _

/-- Two neighbours of one key are what straddles the position between them. -/
theorem Ordered.straddles_iff {b : ℕ} (h : Ordered key rows l) : Straddles key rows b ↔
    ∃ front x y back, l = front ++ x::y::back ∧ front.length+1 = b ∧ key x = key y := by
  constructor
  · rintro ⟨t,habove,hreach⟩
    rw [h.countP] at habove hreach
    have hlen : b < l.length := lt_of_lt_of_le hreach List.countP_le_length
    obtain ⟨m,rfl⟩ : ∃ m, b = m+1 := ⟨b-1,by omega⟩
    have hsplit : l = l.take m ++ l[m] :: l[m+1] :: l.drop (m+2) := by
      rw [← List.drop_eq_getElem_cons,← List.drop_eq_getElem_cons,List.take_append_drop]
    have hstep : key l[m+1] ≤ key l[m] := by
      exact List.pairwise_iff_getElem.mp h.sorted m (m+1) (by omega) hlen (by omega)
    -- the row at `m+1` is still among those from `t` on, the row at `m` no longer above `t`
    have hlow : t ≤ key l[m+1] := by
      have hmem : l[m+1] ∈ l.take (l.countP fun a => decide (t ≤ key a)) :=
        List.mem_take_iff_getElem.mpr ⟨m+1,by omega,rfl⟩
      rw [← h.filter_upper (upper_le key t)] at hmem
      simpa using (List.mem_filter.mp hmem).2
    have hhigh : key l[m] ≤ t := by
      by_contra hlt
      have hall : m+1 ≤ l.countP fun a => decide (t < key a) := by
        refine le_countP_of_take (by omega) ?_
        intro a ha
        exact decide_eq_true (lt_of_lt_of_le (not_le.mp hlt) (h.le_of_mem_take (by omega) (by omega) ha))
      omega
    exact ⟨l.take m,l[m],l[m+1],l.drop (m+2),hsplit,by simp; omega,
      le_antisymm (le_trans hhigh hlow) hstep⟩
  · rintro ⟨front,x,y,back,rfl,rfl,hxy⟩
    have hpairs := List.pairwise_append.mp h.sorted
    have hfront : ∀ a ∈ front, key x ≤ key a := fun a ha => hpairs.2.2 a ha x List.mem_cons_self
    have hback : ∀ a ∈ back, key a ≤ key x := fun a ha =>
      (List.pairwise_cons.mp hpairs.2.1).1 a (List.mem_cons_of_mem y ha)
    refine ⟨key x,?_,?_⟩
    · have hnone : back.countP (fun a => decide (key x < key a)) = 0 :=
        List.countP_eq_zero.mpr fun a ha hlt => not_lt.mpr (hback a ha) (of_decide_eq_true hlt)
      rw [h.countP,List.countP_append,List.countP_cons_of_neg (by simp),
        List.countP_cons_of_neg (by simp [← hxy]),hnone]
      exact Nat.lt_succ_of_le List.countP_le_length
    · have hall : front.countP (fun a => decide (key x ≤ key a)) = front.length :=
        List.countP_eq_length.mpr fun a ha => decide_eq_true (hfront a ha)
      rw [h.countP,List.countP_append,List.countP_cons_of_pos (by simp),
        List.countP_cons_of_pos (by simp [hxy]),hall]
      omega

theorem Ordered.filter_above {b : ℕ} (h : Ordered key rows l) (hb : b < l.length)
    (hfree : ¬Straddles key rows b) : (l.countP fun a => key l[b] < key a) = b := by
  have hreach : b+1 ≤ l.countP fun a => decide (key l[b] ≤ key a) := by
    refine le_countP_of_take hb ?_
    intro a ha
    exact decide_eq_true (h.le_of_mem_take hb (le_refl _) ha)
  have hge : ¬(l.countP fun a => key l[b] < key a) < b := by
    intro hlt
    refine hfree ⟨key l[b],?_,?_⟩
    · rw [h.countP]
      exact hlt
    · rw [h.countP]
      exact hreach
  have hle : ¬b < l.countP fun a => key l[b] < key a := by
    intro hlt
    have hmem : l[b] ∈ l.take (l.countP fun a => decide (key l[b] < key a)) :=
      List.mem_take_iff_getElem.mpr ⟨b,by omega,rfl⟩
    rw [← h.filter_upper (upper_lt key (key l[b]))] at hmem
    simpa using (List.mem_filter.mp hmem).2
  omega

/-- Where no key straddles a position, all orders put the same rows before it. -/
theorem Ordered.take_perm {b : ℕ} (h : Ordered key rows l) (h' : Ordered key rows l')
    (hfree : ¬Straddles key rows b) : (l.take b).Perm (l'.take b) := by
  have hperm : l.Perm l' := h.perm.trans h'.perm.symm
  by_cases hb : b < l.length
  · have hcount := h.filter_above hb hfree
    have hfilter := h.filter_upper (upper_lt key (key l[b]))
    have hfilter' := h'.filter_upper (upper_lt key (key l[b]))
    rw [← hperm.countP_eq,hcount] at hfilter'
    rw [hcount] at hfilter
    rw [← hfilter,← hfilter']
    exact hperm.filter _
  · rw [List.take_of_length_le (by omega),List.take_of_length_le (by rw [← hperm.length_eq]; omega)]
    exact hperm

end Ordered

section Scroll

variable {key : α → K} {base : List α} {p : ℕ → α → Bool} {size k last : ℕ} {shown answer : List α}

theorem Answer.length {rows : List α} {offset limit : ℕ} (h : Answer key rows offset limit answer) :
    answer.length = min limit (rows.length-offset) := by
  obtain ⟨l,hl,rfl⟩ := h
  rw [List.length_take,List.length_drop,hl.length]

theorem asked_succ {rows : ℕ → List α} (h : Asked rows size k) (hnext : (k+1)*size < (rows k).length) :
    Asked rows size (k+1) := by
  intro j hj
  rcases Nat.lt_succ_iff_lt_or_eq.mp hj with hlt | rfl
  · exact h j hlt
  · exact hnext

theorem Answer.whole (hp : Upper key (p k)) (h : Answer key (base.filter (p k)) (k*size) (size+1) answer) :
    ∃ l, Ordered key base l ∧ l.filter (p k) = l.take (base.filter (p k)).length ∧
      answer = ((l.take (base.filter (p k)).length).drop (k*size)).take (size+1) := by
  obtain ⟨part,hpart,rfl⟩ := h
  obtain ⟨rest,hwhole⟩ := hpart.extend hp
  have htake : (part++rest).take (base.filter (p k)).length = part := by
    rw [← hpart.length,List.take_left]
  have hcount : (part++rest).countP (p k) = (base.filter (p k)).length := by
    rw [← hwhole.countP,List.countP_eq_length_filter]
  refine ⟨part++rest,hwhole,?_,by rw [htake]⟩
  rw [hwhole.filter_upper hp,hcount]

theorem straddles_filter {q : α → Bool} {b : ℕ} (hq : Upper key q) (hb : b < (base.filter q).length) :
    Straddles key (base.filter q) b ↔ Straddles key base b := by
  obtain ⟨part,hpart⟩ := exists_ordered key (base.filter q)
  obtain ⟨rest,hwhole⟩ := hpart.extend hq
  rw [hpart.straddles_iff,hwhole.straddles_iff]
  constructor
  · rintro ⟨front,x,y,back,rfl,hlen,hxy⟩
    exact ⟨front,x,y,back++rest,by simp,hlen,hxy⟩
  · rintro ⟨front,x,y,back,hsplit,hlen,hxy⟩
    rw [← hpart.length] at hb
    obtain ⟨m,hm⟩ : ∃ m, part.length-front.length = m+2 := ⟨part.length-front.length-2,by omega⟩
    have hpre : part = (front ++ x::y::back).take part.length := by
      rw [← hsplit,List.take_left]
    rw [List.take_append,List.take_of_length_le (by omega),hm] at hpre
    exact ⟨front,x,y,back.take m,hpre,hlen,hxy⟩

theorem before_perm {before l l' : List α} (hp : Upper key (p k))
    (hfree : 0 < k → ¬Straddles key (base.filter (p k)) (k*size)) (hreach : k*size < (base.filter (p k)).length)
    (hl : Ordered key base l) (hl' : Ordered key base l') (hbefore : before.Perm (l.take (k*size))) :
    before.Perm (l'.take (k*size)) := by
  cases k with
  | zero => simpa using hbefore
  | succ k =>
    refine hbefore.trans (hl.take_perm hl' ?_)
    rw [← straddles_filter hp hreach]
    exact hfree (Nat.succ_pos k)

theorem page_of_part (l : List α) {n : ℕ} (h : (k+1)*size < n) :
    (((l.take n).drop (k*size)).take (size+1)).take size = (l.drop (k*size)).take size := by
  rw [List.take_take,List.drop_take,List.take_take]
  congr 1
  rw [Nat.succ_mul] at h
  omega

theorem last_page_perm {before l : List α} (hl : Ordered key base l)
    (hupper : l.filter (p k) = l.take (base.filter (p k)).length)
    (hpage : answer = ((l.take (base.filter (p k)).length).drop (k*size)).take (size+1))
    (hreach : k*size < (base.filter (p k)).length) (hlast : (base.filter (p k)).length-k*size ≤ size+1)
    (hbefore : before.Perm (l.take (k*size))) : (before++answer).Perm (base.filter (p k)) := by
  have hrest : answer = (l.take (base.filter (p k)).length).drop (k*size) := by
    rw [hpage,List.take_of_length_le]
    rw [List.length_drop,List.length_take,hl.length]
    omega
  have hfront : l.take (k*size) = (l.take (base.filter (p k)).length).take (k*size) := by
    rw [List.take_take,Nat.min_eq_left (Nat.le_of_lt hreach)]
  refine (hbefore.append_right answer).trans ?_
  rw [hrest,hfront,List.take_append_drop,← hupper]
  exact (hl.filter (p := p k)).perm

/-- Untied page ends: the scroll shows no row twice, and every row that its last request may show. -/
theorem Scroll.once (hnodup : base.Nodup) (hp : ∀ k, Upper key (p k))
    (hfree : ∀ k, 0 < k → Asked (fun k => base.filter (p k)) size k →
      ¬Straddles key (base.filter (p k)) (k*size))
    (hscroll : Scroll key (fun k => base.filter (p k)) size k last shown) :
    ∀ before l, Ordered key base l → before.Perm (l.take (k*size)) →
      Asked (fun k => base.filter (p k)) size k →
      (before++shown).Nodup ∧ ∀ a ∈ base.filter (p last), a ∈ before++shown := by
  induction hscroll with
  | @last k answer hanswer hend =>
    intro before l hl hbefore hasked
    obtain ⟨l',hl',hupper,hpage⟩ := hanswer.whole (hp k)
    have hlen := hanswer.length
    rw [List.take_of_length_le hend]
    by_cases hreach : k*size < (base.filter (p k)).length
    · have hbefore' := before_perm (hp k) (fun hk => hfree k hk hasked) hreach hl hl' hbefore
      have hall := last_page_perm hl' hupper hpage hreach (by omega) hbefore'
      exact ⟨hall.nodup_iff.mpr (hnodup.filter _),fun a ha => hall.mem_iff.mpr ha⟩
    · have hempty : answer = [] := List.length_eq_zero_iff.mp (by omega)
      subst hempty
      rw [List.append_nil]
      refine ⟨hbefore.nodup_iff.mpr ((hl.perm.nodup_iff.mpr hnodup).sublist (List.take_sublist _ _)),?_⟩
      intro a ha
      have hmem : a ∈ l.filter (p k) := (hl.filter (p := p k)).perm.mem_iff.mpr ha
      rw [hl.filter_upper (hp k),← hl.countP,List.countP_eq_length_filter] at hmem
      exact hbefore.mem_iff.mpr ((List.take_subset_take_left l (by omega)) hmem)
  | @more k last answer shown hanswer hnext hrest ih =>
    intro before l hl hbefore hasked
    obtain ⟨l',hl',hupper,hpage⟩ := hanswer.whole (hp k)
    have hlen := hanswer.length
    have hfull : (k+1)*size < (base.filter (p k)).length := by
      rw [Nat.succ_mul]
      omega
    rw [← List.append_assoc]
    refine ih _ l' hl' ?_ (asked_succ hasked hfull)
    have hbefore' := before_perm (hp k) (fun hk => hfree k hk hasked) (by rw [Nat.succ_mul] at hfull; omega)
      hl hl' hbefore
    rw [Nat.succ_mul,List.take_add,hpage,page_of_part l' hfull]
    exact hbefore'.append_right _

theorem exists_scroll (rows : ℕ → List α) {n : ℕ} (hsize : 0 < size) (hbound : ∀ k, (rows k).length ≤ n)
    (hanswer : Answer key (rows k) (k*size) (size+1) answer) :
    ∃ last shown, Scroll key rows size k last (answer.take size ++ shown) := by
  induction hd : n-k*size using Nat.strong_induction_on generalizing k answer with
  | _ d ih =>
    by_cases hnext : size < answer.length
    · have hlen := hanswer.length
      have hk := hbound k
      obtain ⟨l,hl⟩ := exists_ordered key (rows (k+1))
      have hshort : n-(k+1)*size < d := by
        rw [Nat.succ_mul]
        omega
      obtain ⟨last,shown,hrest⟩ := ih _ hshort ⟨l,hl,rfl⟩ rfl
      exact ⟨last,_,.more hanswer hnext hrest⟩
    · refine ⟨k,[],?_⟩
      rw [List.append_nil]
      exact .last hanswer (by omega)

/-- One order of the whole may answer all requests up to a given one. -/
theorem Scroll.lead {l : List α} (hp : ∀ k, Upper key (p k)) (hl : Ordered key base l)
    (hasked : Asked (fun k => base.filter (p k)) size k)
    (hscroll : Scroll key (fun k => base.filter (p k)) size k last shown) :
    Scroll key (fun k => base.filter (p k)) size 0 last (l.take (k*size) ++ shown) := by
  induction k generalizing shown with
  | zero => simpa using hscroll
  | succ k ih =>
    have hfull : (k+1)*size < (base.filter (p k)).length := hasked k (Nat.lt_succ_self k)
    have hpart : l.filter (p k) = l.take (base.filter (p k)).length := by
      rw [hl.filter_upper (hp k),← hl.countP,List.countP_eq_length_filter]
    have hanswer : Answer key (base.filter (p k)) (k*size) (size+1)
        (((l.filter (p k)).drop (k*size)).take (size+1)) := ⟨_,hl.filter,rfl⟩
    have hlen := hanswer.length
    have hpage : (((l.filter (p k)).drop (k*size)).take (size+1)).take size = (l.drop (k*size)).take size := by
      rw [hpart,page_of_part l hfull]
    rw [Nat.succ_mul] at hfull
    have hstep : Scroll key (fun k => base.filter (p k)) size k last _ := .more hanswer (by omega) hscroll
    rw [hpage] at hstep
    rw [Nat.succ_mul,List.take_add,List.append_assoc]
    exact ih (fun j hj => hasked j (Nat.lt_succ_of_lt hj)) hstep

/-- A tie at the end of a page: a scroll may show a row on both sides of it. -/
theorem exists_twice (base : List α) (p : ℕ → α → Bool) (hsize : 0 < size) (hp : ∀ k, Upper key (p k))
    (hasked : Asked (fun k => base.filter (p k)) size k)
    (htie : Straddles key (base.filter (p k)) (k*size)) :
    ∃ last shown, Scroll key (fun k => base.filter (p k)) size 0 last shown ∧ ¬shown.Nodup := by
  obtain ⟨part,hpart⟩ := exists_ordered key (base.filter (p k))
  obtain ⟨rest,hwhole⟩ := hpart.extend (hp k)
  obtain ⟨front,x,y,back,rfl,hlen,hxy⟩ := hpart.straddles_iff.mp htie
  have hswap : Ordered key (base.filter (p k)) (front ++ y::x::back) := by
    refine ⟨(List.Perm.append_left front (List.Perm.swap x y back)).trans hpart.perm,?_⟩
    have hpairs := hpart.sorted
    simp only [List.pairwise_append,List.pairwise_cons,List.mem_cons] at hpairs ⊢
    obtain ⟨hfront,⟨hx,hy,hback⟩,hcross⟩ := hpairs
    refine ⟨hfront,⟨?_,fun a ha => hx a (.inr ha),hback⟩,fun a ha b hb => hcross a ha b (or_left_comm.mp hb)⟩
    rintro a (rfl | ha)
    · exact le_of_eq hxy
    · exact hy a ha
  obtain ⟨last,shown,hscroll⟩ := exists_scroll (fun k => base.filter (p k)) hsize
    (fun k => List.length_filter_le (p k) base) ⟨_,hswap,rfl⟩
  refine ⟨last,_,hscroll.lead hp hwhole hasked,?_⟩
  intro hnodup
  have hbefore : x ∈ ((front ++ x::y::back) ++ rest).take (k*size) := by
    rw [← hlen,List.append_assoc,List.take_append,List.take_of_length_le (Nat.le_succ _)]
    simp
  have hafter : x ∈ (((front ++ y::x::back).drop (k*size)).take (size+1)).take size := by
    obtain ⟨m,rfl⟩ : ∃ m, size = m+1 := ⟨size-1,by omega⟩
    rw [← hlen,List.drop_append,List.drop_of_length_le (Nat.le_succ _)]
    simp
  exact (List.nodup_append.mp hnodup).2.2 x hbefore x (List.mem_append_left shown hafter) rfl

/-- Scrolling shows every row that all its requests may show, and no row twice, for all answers of the
database, exactly when no key straddles the end of a page. -/
theorem scroll_once_iff (hsize : 0 < size) (hnodup : base.Nodup) (hp : ∀ k, Upper key (p k)) :
    (∀ last shown, Scroll key (fun k => base.filter (p k)) size 0 last shown →
      shown.Nodup ∧ ∀ a, (∀ k, k ≤ last → a ∈ base.filter (p k)) → a ∈ shown) ↔
    ∀ k, 0 < k → Asked (fun k => base.filter (p k)) size k →
      ¬Straddles key (base.filter (p k)) (k*size) := by
  constructor
  · intro hall k hk hasked htie
    obtain ⟨last,shown,hscroll,htwice⟩ := exists_twice base p hsize hp hasked htie
    exact htwice (hall last shown hscroll).1
  · intro hfree last shown hscroll
    obtain ⟨l,hl⟩ := exists_ordered key base
    obtain ⟨honce,hmem⟩ := hscroll.once hnodup hp hfree [] l hl (by simp) (fun j hj => by cases hj)
    rw [List.nil_append] at honce hmem
    exact ⟨honce,fun a ha => hmem a (ha last (le_refl last))⟩

end Scroll

end OffsetPages
end Broadcaster
