import Mathlib.Logic.Relation
import Mathlib.Logic.Function.Basic
import Mathlib.Data.List.Induction
import Mathlib.Data.Nat.Notation

/-!
# Sequential processes over one shared store

A machine gives the next atomic statement of each process: what it does to the
store and where the process stands afterwards. `none` means that the statement
cannot run now, because the process has ended or waits for somebody else.
Processes are numbered by naturals, so "any number of concurrent requests" is
one assignment of program counters. A run may be restricted by a condition `G`
on the configuration before each move; the unrestricted runs are those of
`anyMove`.
-/

namespace Broadcaster
namespace Interleaving

structure Machine (Db Pc Inp : Type) where
  step : Db → ℕ → Pc → Inp → Option (Db × Pc)

structure Config (Db Pc : Type) where
  db : Db
  pc : ℕ → Pc

abbrev Move (Inp : Type) := ℕ × Inp

variable {Db Pc Inp : Type}

def next (M : Machine Db Pc Inp) (c : Config Db Pc) (m : Move Inp) : Option (Config Db Pc) :=
  (M.step c.db m.1 (c.pc m.1) m.2).map fun r => ⟨r.1,Function.update c.pc m.1 r.2⟩

theorem next_eq_some {M : Machine Db Pc Inp} {c c' : Config Db Pc} {m : Move Inp} :
    next M c m = some c' ↔ ∃ db pc, M.step c.db m.1 (c.pc m.1) m.2 = some (db,pc) ∧
      c' = ⟨db,Function.update c.pc m.1 pc⟩ := by
  simp only [next,Option.map_eq_some_iff,Prod.exists]
  constructor
  · rintro ⟨db,pc,h,rfl⟩
    exact ⟨db,pc,h,rfl⟩
  · rintro ⟨db,pc,h,rfl⟩
    exact ⟨db,pc,h,rfl⟩

/-- One move of some process that meets the condition `G`. -/
def Step (M : Machine Db Pc Inp) (G : Config Db Pc → Move Inp → Prop) (c c' : Config Db Pc) : Prop :=
  ∃ m, G c m ∧ next M c m = some c'

def anyMove : Config Db Pc → Move Inp → Prop := fun _ _ => True

instance (c : Config Db Pc) (m : Move Inp) : Decidable (anyMove c m) := .isTrue trivial

def Reaches (M : Machine Db Pc Inp) (G : Config Db Pc → Move Inp → Prop) :
    Config Db Pc → Config Db Pc → Prop :=
  Relation.ReflTransGen (Step M G)

namespace Reaches

variable {M : Machine Db Pc Inp} {G : Config Db Pc → Move Inp → Prop} {a b c : Config Db Pc}

theorem refl (c : Config Db Pc) : Reaches M G c c := Relation.ReflTransGen.refl

theorem trans (hab : Reaches M G a b) (hbc : Reaches M G b c) : Reaches M G a c :=
  Relation.ReflTransGen.trans hab hbc

theorem head (h : Step M G a b) (hbc : Reaches M G b c) : Reaches M G a c :=
  Relation.ReflTransGen.head h hbc

theorem mono {G' : Config Db Pc → Move Inp → Prop} (hG : ∀ c m, G c m → G' c m)
    (h : Reaches M G a b) : Reaches M G' a b := by
  refine Relation.ReflTransGen.mono ?_ _ _ h
  rintro c d ⟨m,hg,hm⟩
  exact ⟨m,hG c m hg,hm⟩

/-- What every move preserves holds after every run. -/
theorem invariant {I : Config Db Pc → Prop} (h : Reaches M G a b)
    (hstep : ∀ c m c', I c → G c m → next M c m = some c' → I c') (ha : I a) : I b := by
  induction h with
  | refl => exact ha
  | tail _ hs ih =>
    obtain ⟨m,hg,hm⟩ := hs
    exact hstep _ m _ ih hg hm

end Reaches

def exec (M : Machine Db Pc Inp) (G : Config Db Pc → Move Inp → Prop)
    [∀ c m, Decidable (G c m)] (c : Config Db Pc) : List (Move Inp) → Option (Config Db Pc)
  | [] => some c
  | m::ms => if G c m then (next M c m).bind fun c' => exec M G c' ms else none

theorem reaches_of_exec {M : Machine Db Pc Inp} {G : Config Db Pc → Move Inp → Prop}
    [∀ c m, Decidable (G c m)] {c c' : Config Db Pc} {ms : List (Move Inp)}
    (h : exec M G c ms = some c') : Reaches M G c c' := by
  induction ms generalizing c with
  | nil =>
    simp only [exec,Option.some.injEq] at h
    subst h
    exact Reaches.refl c
  | cons m ms ih =>
    simp only [exec] at h
    split at h
    · rename_i hg
      obtain ⟨d,hd,h⟩ := Option.bind_eq_some_iff.mp h
      exact Reaches.head ⟨m,hg,hd⟩ (ih h)
    · cases h

theorem exec_append {M : Machine Db Pc Inp} {G : Config Db Pc → Move Inp → Prop}
    [∀ c m, Decidable (G c m)] (c : Config Db Pc) (ms ms' : List (Move Inp)) :
    exec M G c (ms ++ ms') = (exec M G c ms).bind fun d => exec M G d ms' := by
  induction ms generalizing c with
  | nil => rfl
  | cons m ms ih =>
    simp only [List.cons_append,exec]
    split
    · cases next M c m with
      | none => rfl
      | some d => exact ih d
    · rfl

def after (M : Machine Db Pc Inp) (G : Config Db Pc → Move Inp → Prop) [∀ c m, Decidable (G c m)]
    (c : Config Db Pc) (ms : List (Move Inp)) : Config Db Pc := (exec M G c ms).getD c

theorem reaches_after (M : Machine Db Pc Inp) (G : Config Db Pc → Move Inp → Prop)
    [∀ c m, Decidable (G c m)] (c : Config Db Pc) (ms : List (Move Inp)) :
    Reaches M G c (after M G c ms) := by
  unfold after
  cases h : exec M G c ms with
  | none => exact Reaches.refl c
  | some c' => exact reaches_of_exec h

/-- What a test finds at the end of a concrete list of moves is found in a reachable state. -/
theorem reaches_of_any {M : Machine Db Pc Inp} {G : Config Db Pc → Move Inp → Prop}
    [∀ c m, Decidable (G c m)] {c : Config Db Pc} {ms : List (Move Inp)} {p : Config Db Pc → Bool}
    (h : (exec M G c ms).any p = true) : ∃ c', Reaches M G c c' ∧ p c' = true := by
  cases he : exec M G c ms with
  | none => simp [he] at h
  | some c' => exact ⟨c',reaches_of_exec he,by simpa [he] using h⟩

/-- A concrete list of moves under a condition that is checked with regard to the first `n` processes;
the others have ended and stay so. -/
theorem reaches_of_check_ended {M : Machine Db Pc Inp} {G : Config Db Pc → Move Inp → Prop} {n : ℕ}
    {fin : Pc} {check : Config Db Pc → Move Inp → Bool} (hfin : ∀ db i inp, M.step db i fin inp = none)
    (hcheck : ∀ c m, (∀ j, n ≤ j → c.pc j = fin) → check c m = true → G c m)
    {c : Config Db Pc} (hc : ∀ j, n ≤ j → c.pc j = fin) {ms : List (Move Inp)} {p : Config Db Pc → Bool}
    (h : (exec M (fun c m => check c m = true) c ms).any p = true) :
    ∃ c', Reaches M G c c' ∧ (∀ j, n ≤ j → c'.pc j = fin) ∧ p c' = true := by
  obtain ⟨c',hreach,hp⟩ := reaches_of_any h
  have hboth : Reaches M G c c' ∧ ∀ j, n ≤ j → c'.pc j = fin := by
    clear hp
    induction hreach with
    | refl => exact ⟨Reaches.refl c,hc⟩
    | tail _ hs ih =>
      obtain ⟨m,hm,hnext⟩ := hs
      obtain ⟨hreach,hended⟩ := ih
      refine ⟨hreach.trans (Reaches.head ⟨m,hcheck _ m hended hm,hnext⟩ (Reaches.refl _)),?_⟩
      obtain ⟨db,pc,hstep,rfl⟩ := next_eq_some.mp hnext
      intro j hj
      have hne : j ≠ m.1 := by
        rintro rfl
        rw [hended _ hj,hfin] at hstep
        cases hstep
      simpa [Function.update_of_ne hne] using hended j hj
  exact ⟨c',hboth.1,hboth.2,hp⟩

theorem reaches_of_check {M : Machine Db Pc Inp} {G : Config Db Pc → Move Inp → Prop} {n : ℕ} {fin : Pc}
    {check : Config Db Pc → Move Inp → Bool} (hfin : ∀ db i inp, M.step db i fin inp = none)
    (hcheck : ∀ c m, (∀ j, n ≤ j → c.pc j = fin) → check c m = true → G c m)
    {c : Config Db Pc} (hc : ∀ j, n ≤ j → c.pc j = fin) {ms : List (Move Inp)} {p : Config Db Pc → Bool}
    (h : (exec M (fun c m => check c m = true) c ms).any p = true) :
    ∃ c', Reaches M G c c' ∧ p c' = true := by
  obtain ⟨c',hreach,_,hp⟩ := reaches_of_check_ended hfin hcheck hc h
  exact ⟨c',hreach,hp⟩

/-! Processes whose moves leave the store alone may be left out of a run. -/

/-- The processes for which `extra` holds are replaced by ended ones. -/
def Config.erase (c : Config Db Pc) (extra : ℕ → Bool) (fin : Pc) : Config Db Pc :=
  ⟨c.db,fun i => if extra i then fin else c.pc i⟩

theorem Config.erase_of_kept {extra : ℕ → Bool} {i : ℕ} (c : Config Db Pc) (fin : Pc)
    (h : extra i = false) : (c.erase extra fin).pc i = c.pc i := by
  simp [Config.erase,h]

theorem Config.erase_update_extra {extra : ℕ → Bool} {i : ℕ} (db : Db) (pcs : ℕ → Pc) (pc fin : Pc)
    (h : extra i = true) :
    Config.erase ⟨db,Function.update pcs i pc⟩ extra fin = Config.erase ⟨db,pcs⟩ extra fin := by
  simp only [Config.erase,Config.mk.injEq,true_and]
  funext j
  by_cases hj : j = i
  · rw [hj,if_pos h,if_pos h]
  · rw [Function.update_of_ne hj]

theorem Config.erase_update_kept {extra : ℕ → Bool} {i : ℕ} (db : Db) (pcs : ℕ → Pc) (pc fin : Pc)
    (h : extra i = false) : Config.erase ⟨db,Function.update pcs i pc⟩ extra fin =
      ⟨db,Function.update (Config.erase ⟨db,pcs⟩ extra fin).pc i pc⟩ := by
  simp only [Config.erase,Config.mk.injEq,true_and]
  funext j
  by_cases hj : j = i
  · rw [hj,Function.update_self,Function.update_self,if_neg (by simp [h])]
  · rw [Function.update_of_ne hj,Function.update_of_ne hj]

theorem exec_anyMove_cons (M : Machine Db Pc Inp) (a : Config Db Pc) (m : Move Inp)
    (ms : List (Move Inp)) :
    exec M anyMove a (m::ms) = (next M a m).bind fun b => exec M anyMove b ms :=
  if_pos trivial

def MovesAt (M : Machine Db Pc Inp) (a : Config Db Pc) (ms : List (Move Inp)) (i : ℕ) (s : Config Db Pc)
    (inp : Inp) : Prop :=
  ∃ before after, ms = before ++ (i,inp) :: after ∧ exec M anyMove a before = some s

section Moves

variable {M : Machine Db Pc Inp} {a c s : Config Db Pc} {ms : List (Move Inp)} {m : Move Inp} {i : ℕ}
  {inp : Inp}

theorem exec_concat (h : exec M anyMove a (ms ++ [m]) = some c) :
    ∃ d, exec M anyMove a ms = some d ∧ next M d m = some c := by
  rw [exec_append] at h
  obtain ⟨d,hd,hm⟩ := Option.bind_eq_some_iff.mp h
  rw [exec_anyMove_cons] at hm
  obtain ⟨e,he,hc⟩ := Option.bind_eq_some_iff.mp hm
  cases hc
  exact ⟨d,hd,he⟩

theorem exec_induction {P : List (Move Inp) → Config Db Pc → Prop} (start : P [] a)
    (move : ∀ ms m d e, exec M anyMove a ms = some d → P ms d → next M d m = some e → P (ms ++ [m]) e)
    (h : exec M anyMove a ms = some c) : P ms c := by
  induction ms using List.reverseRecOn generalizing c with
  | nil =>
    cases h
    exact start
  | append_singleton ms m ih =>
    obtain ⟨d,hd,hm⟩ := exec_concat h
    exact move ms m d c hd (ih hd) hm

theorem movesAt_concat (ha : exec M anyMove a ms = some c) :
    MovesAt M a (ms ++ [m]) i s inp ↔ MovesAt M a ms i s inp ∨ (m = (i,inp) ∧ s = c) := by
  constructor
  · rintro ⟨before,after,hms,hs⟩
    rcases after.eq_nil_or_concat with rfl | ⟨after,last,rfl⟩
    · obtain ⟨rfl,hm⟩ := List.append_inj' hms rfl
      rw [ha] at hs
      exact .inr ⟨(List.cons.inj hm).1,(Option.some.inj hs).symm⟩
    · rw [List.concat_eq_append,← List.cons_append,← List.append_assoc] at hms
      exact .inl ⟨before,after,(List.append_inj' hms rfl).1,hs⟩
  · rintro (⟨before,after,rfl,hs⟩ | ⟨rfl,rfl⟩)
    · exact ⟨before,after ++ [m],by simp,hs⟩
    · exact ⟨ms,[],rfl,ha⟩

end Moves

theorem exec_erase {M : Machine Db Pc Inp} {extra : ℕ → Bool} {fin : Pc} {a c : Config Db Pc}
    {ms : List (Move Inp)} (hrun : exec M anyMove a ms = some c)
    (hquiet : ∀ b m b', Reaches M anyMove a b → next M b m = some b' → Reaches M anyMove b' c →
      extra m.1 = true → b'.db = b.db) :
    exec M anyMove (a.erase extra fin) (ms.filter fun m => !extra m.1) = some (c.erase extra fin) := by
  induction ms generalizing a with
  | nil =>
    cases hrun
    rfl
  | cons m ms ih =>
    rw [exec_anyMove_cons] at hrun
    obtain ⟨b,hb,hrest⟩ := Option.bind_eq_some_iff.mp hrun
    have hstep : Step M anyMove a b := ⟨m,trivial,hb⟩
    have htail := ih hrest fun d m d' hd => hquiet d m d' (Reaches.head hstep hd)
    have hdb := hquiet a m b (Reaches.refl a) hb (reaches_of_exec hrest)
    obtain ⟨db,pc,hs,rfl⟩ := next_eq_some.mp hb
    cases hextra : extra m.1 with
    | true =>
      rw [List.filter_cons_of_neg (by simp [hextra])]
      rw [Config.erase_update_extra _ _ _ _ hextra,show db = a.db from hdb hextra] at htail
      exact htail
    | false =>
      rw [List.filter_cons_of_pos (by simp [hextra]),exec_anyMove_cons]
      rw [Config.erase_update_kept _ _ _ _ hextra] at htail
      refine Option.bind_eq_some_iff.mpr ⟨_,next_eq_some.mpr ⟨db,pc,?_,rfl⟩,htail⟩
      rw [Config.erase_of_kept a fin hextra]
      exact hs

/-! What a process holds is read off its program counter by a function `hold`. -/

section Holding

variable {β : Type} {hold : Pc → Option β} {pcs : ℕ → Pc} {n : ℕ} {pc : Pc} {x : β}

theorem holds_of_update (hnew : hold pc ≠ some x) {j : ℕ}
    (h : hold (Function.update pcs n pc j) = some x) : j ≠ n ∧ hold (pcs j) = some x := by
  by_cases hj : j = n
  · subst hj
    rw [Function.update_self] at h
    exact absurd h hnew
  · rw [Function.update_of_ne hj] at h
    exact ⟨hj,h⟩

theorem not_holds_of_update (hold_n : hold (pcs n) ≠ some x)
    (h : ∀ j, hold (Function.update pcs n pc j) ≠ some x) : ∀ j, hold (pcs j) ≠ some x := by
  intro j hj
  have hne : j ≠ n := by
    rintro rfl
    exact hold_n hj
  refine h j ?_
  rwa [Function.update_of_ne hne]

theorem held_once_of_update (hfree : ∀ x, hold pc = some x → ∀ j, j ≠ n → hold (pcs j) ≠ some x)
    (honce : ∀ j k x, hold (pcs j) = some x → hold (pcs k) = some x → j = k) (j k : ℕ) (x : β)
    (hj : hold (Function.update pcs n pc j) = some x) (hk : hold (Function.update pcs n pc k) = some x) :
    j = k := by
  by_cases hnew : hold pc = some x
  · have hmover : ∀ l, hold (Function.update pcs n pc l) = some x → l = n := by
      intro l hl
      by_contra hln
      rw [Function.update_of_ne hln] at hl
      exact hfree x hnew l hln hl
    rw [hmover j hj,hmover k hk]
  · exact honce j k x (holds_of_update hnew hj).2 (holds_of_update hnew hk).2

end Holding

/-! A store invariant `J` and an assertion `L` at the program counter of each
process. A move has to keep `J`, to establish the assertion of the mover, and
to leave the assertions of all the others true. -/

/-- The store invariant together with all the assertions. -/
structure Asserted (J : Db → Prop) (L : Db → ℕ → Pc → Prop) (c : Config Db Pc) : Prop where
  store : J c.db
  process : ∀ i, L c.db i (c.pc i)

/-- Assertions that no other process can falsify hold throughout a run. -/
theorem asserted_of_reaches {M : Machine Db Pc Inp} {G : Config Db Pc → Move Inp → Prop}
    {J : Db → Prop} {L : Db → ℕ → Pc → Prop}
    (own : ∀ c i inp db pc, Asserted J L c → G c (i,inp) →
      M.step c.db i (c.pc i) inp = some (db,pc) → J db ∧ L db i pc)
    (frame : ∀ c i inp db pc j, Asserted J L c → G c (i,inp) →
      M.step c.db i (c.pc i) inp = some (db,pc) → j ≠ i → L db j (c.pc j))
    {a b : Config Db Pc} (h : Reaches M G a b) (ha : Asserted J L a) : Asserted J L b := by
  refine h.invariant ?_ ha
  rintro c ⟨i,inp⟩ c' hc hg hm
  obtain ⟨db,pc,hs,rfl⟩ := next_eq_some.mp hm
  obtain ⟨hj,hl⟩ := own c i inp db pc hc hg hs
  refine ⟨hj,fun j => ?_⟩
  by_cases hji : j = i
  · subst hji
    simpa using hl
  · simpa [Function.update_of_ne hji] using frame c i inp db pc j hc hg hs hji

end Interleaving
end Broadcaster
