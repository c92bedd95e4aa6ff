import Broadcaster.Store

/-!
# Statements that read the table they rewrite

An `UPDATE` or a `DELETE` whose condition has a subquery over its own table
decides on every row by a reading of that table. What it reads is the table
before the statement, or the table as rewritten so far while the rows are
visited in some order. A statement is stable when no row that has already been
rewritten changes what is decided on another one.
-/

namespace Broadcaster
namespace TableStatements

variable {Row : Type}

/-- What a statement makes of a row when it reads a table; `none` deletes the row. -/
abbrev Statement (Row : Type) := Store Row → ℕ → Row → Option Row

/-- Every row is decided upon by the table before the statement. -/
def snapshot (f : Statement Row) (s : Store Row) : Store Row := s.rewrite (f s)

/-- Row `i` is decided upon by the table as it has become. -/
def visit (f : Statement Row) (t : Store Row) (i : ℕ) : Store Row :=
  t.rewrite fun j r => if j = i then f t j r else some r

inductive Executes (f : Statement Row) (s : Store Row) : Store Row → Prop
  | atOnce : Executes f s (snapshot f s)
  | rowByRow (order : List ℕ) (hnodup : order.Nodup) (hall : ∀ i r, s.row i = some r → i ∈ order) :
      Executes f s (order.foldl (visit f) s)

/-- Each row is as before the statement, or what the table before the statement makes of it. -/
def Partly (f : Statement Row) (s t : Store Row) : Prop :=
  ∀ i, t.row i = s.row i ∨ t.row i = (s.row i).bind (f s i)

def Stable (f : Statement Row) (s : Store Row) : Prop :=
  ∀ t, Partly f s t → ∀ i r, s.row i = some r → f t i r = f s i r

structure Visited (f : Statement Row) (s t : Store Row) (done : List ℕ) : Prop where
  size : t.size = s.size
  row : ∀ i, t.row i = if i ∈ done then (s.row i).bind (f s i) else s.row i

variable {f : Statement Row} {s s' t : Store Row} {done order : List ℕ} {i : ℕ}

theorem visited_nil (f : Statement Row) (s : Store Row) : Visited f s s [] := ⟨rfl,fun _ => by simp⟩

theorem Visited.partly (h : Visited f s t done) : Partly f s t := by
  intro i
  rw [h.row i]
  split
  · exact Or.inr rfl
  · exact Or.inl rfl

theorem Visited.visit (hstable : Stable f s) (h : Visited f s t done) (hi : i ∉ done) :
    Visited f s (visit f t i) (i :: done) where
  size := h.size
  row := by
    intro j
    have hrow := h.row j
    by_cases hj : j = i
    · subst hj
      rw [if_neg hi] at hrow
      simp only [TableStatements.visit,Store.row_rewrite,hrow,List.mem_cons,true_or,if_true]
      cases hr : s.row j with
      | none => rfl
      | some r => exact hstable t h.partly j r hr
    · simp only [TableStatements.visit,Store.row_rewrite,hrow,List.mem_cons,hj,false_or,if_false]
      exact Option.bind_fun_some _

theorem visited_foldl (hstable : Stable f s) (hnodup : order.Nodup) (h : Visited f s t done)
    (hdone : ∀ i ∈ order, i ∉ done) :
    Visited f s (order.foldl (TableStatements.visit f) t) (order.reverse ++ done) := by
  induction order generalizing t done with
  | nil => exact h
  | cons i order ih =>
    rw [List.nodup_cons] at hnodup
    have hnext := h.visit hstable (hdone i (by simp))
    have hfree : ∀ j ∈ order, j ∉ i :: done := by
      intro j hj hmem
      rcases List.mem_cons.mp hmem with rfl | hmem
      · exact hnodup.1 hj
      · exact hdone j (List.mem_cons_of_mem _ hj) hmem
    have hrest := ih hnodup.2 hnext hfree
    rwa [List.reverse_cons,List.append_assoc]

/-- A stable statement does the same in every order of the rows as on the table before it. -/
theorem Executes.eq_snapshot (hstable : Stable f s) (h : Executes f s s') : s' = snapshot f s := by
  cases h with
  | atOnce => rfl
  | rowByRow order hnodup hall =>
    have hvisited := visited_foldl hstable hnodup (visited_nil f s) (by simp)
    refine Store.ext_row hvisited.size ?_
    funext i
    rw [hvisited.row i]
    split
    · rfl
    · rename_i hnot
      cases hr : s.row i with
      | none => simp [snapshot,hr]
      | some r => exact absurd (by simpa using hall i r hr) hnot

theorem stable_of_const (g : ℕ → Row → Option Row) (s : Store Row) : Stable (fun _ => g) s :=
  fun _ _ _ _ _ => rfl

end TableStatements
end Broadcaster
