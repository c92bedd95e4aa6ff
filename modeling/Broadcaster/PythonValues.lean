import Mathlib.Data.Rat.Defs
import Mathlib.Data.List.Basic
import Mathlib.Data.List.Forall2

/-!
# Values as Python reads them

What `json` makes of a JSON column, and the operations that a program may apply
to such a value without knowing its shape: truth value, iteration, membership,
`str.split`, `int()` and `datetime.time`. Each of them either returns or raises.
-/

namespace Broadcaster
namespace Python

inductive PyError
  | valueError | typeError | indexError | attributeError | overflowError | osError
  | zoneInfoNotFoundError | integrityError | staleDataError
  deriving DecidableEq

theorem mapM_eq_ok {α β ε : Type} {f : α → Except ε β} {xs : List α} {ys : List β} :
    xs.mapM f = .ok ys ↔ List.Forall₂ (fun x y => f x = .ok y) xs ys := by
  induction xs generalizing ys with
  | nil => cases ys <;> simp [pure,Except.pure]
  | cons x xs ih =>
    rw [List.mapM_cons]
    cases hx : f x with
    | error e => cases ys <;> simp [bind,Except.bind,hx]
    | ok y =>
      cases hxs : xs.mapM f with
      | error e => cases ys <;> simp [bind,Except.bind,hx,← ih,hxs]
      | ok rest => cases ys <;> simp [bind,Except.bind,pure,Except.pure,hx,← ih,hxs]

theorem mem_of_mapM_ok {α β ε : Type} {f : α → Except ε β} {xs : List α} {ys : List β} (h : xs.mapM f = .ok ys)
    {y : β} : y ∈ ys ↔ ∃ x ∈ xs, f x = .ok y := by
  have hpairs := mapM_eq_ok.mp h
  clear h
  induction hpairs with
  | nil => simp
  | cons hx _ ih => simp [ih,hx,eq_comm]

theorem exists_forall₂_iff {α β : Type} {r : α → β → Prop} {xs : List α} :
    (∃ ys, List.Forall₂ r xs ys) ↔ ∀ x ∈ xs, ∃ y, r x y := by
  induction xs with
  | nil => exact ⟨by simp,fun _ => ⟨[],.nil⟩⟩
  | cons x xs ih =>
    rw [List.forall_mem_cons,← ih]
    constructor
    · rintro ⟨_,hx | ⟨hx,hxs⟩⟩
      exact ⟨⟨_,hx⟩,_,hxs⟩
    · rintro ⟨⟨y,hy⟩,ys,hys⟩
      exact ⟨y::ys,.cons hy hys⟩

theorem exists_mapM_ok {α β ε : Type} {f : α → Except ε β} {xs : List α} (h : ∀ x ∈ xs, ∃ y, f x = .ok y) :
    ∃ ys, xs.mapM f = .ok ys := by
  simp only [mapM_eq_ok]
  exact exists_forall₂_iff.mpr h

inductive Json
  | null
  | bool (b : Bool)
  | int (n : ℤ)
  | float (q : ℚ)
  | str (s : String)
  | arr (xs : List Json)
  | obj (fields : List (String × Json))

namespace Json

mutual

def decEq : (a b : Json) → Decidable (a = b)
  | null, null => .isTrue rfl
  | bool a, bool b => decidable_of_iff (a = b) (by simp)
  | int a, int b => decidable_of_iff (a = b) (by simp)
  | float a, float b => decidable_of_iff (a = b) (by simp)
  | str a, str b => decidable_of_iff (a = b) (by simp)
  | arr xs, arr ys => @decidable_of_iff _ (xs = ys) (by simp) (decEqList xs ys)
  | obj xs, obj ys => @decidable_of_iff _ (xs = ys) (by simp) (decEqFields xs ys)
  | null, bool _ | null, int _ | null, float _ | null, str _ | null, arr _ | null, obj _
  | bool _, null | bool _, int _ | bool _, float _ | bool _, str _ | bool _, arr _ | bool _, obj _
  | int _, null | int _, bool _ | int _, float _ | int _, str _ | int _, arr _ | int _, obj _
  | float _, null | float _, bool _ | float _, int _ | float _, str _ | float _, arr _ | float _, obj _
  | str _, null | str _, bool _ | str _, int _ | str _, float _ | str _, arr _ | str _, obj _
  | arr _, null | arr _, bool _ | arr _, int _ | arr _, float _ | arr _, str _ | arr _, obj _
  | obj _, null | obj _, bool _ | obj _, int _ | obj _, float _ | obj _, str _ | obj _, arr _ =>
    .isFalse (by simp)

def decEqList : (xs ys : List Json) → Decidable (xs = ys)
  | [], [] => .isTrue rfl
  | x::xs, y::ys =>
    @decidable_of_iff _ (x = y ∧ xs = ys) (by simp)
      (@instDecidableAnd _ _ (decEq x y) (decEqList xs ys))
  | [], _::_ | _::_, [] => .isFalse (by simp)

def decEqFields : (xs ys : List (String × Json)) → Decidable (xs = ys)
  | [], [] => .isTrue rfl
  | (k,x)::xs, (l,y)::ys =>
    @decidable_of_iff _ ((k = l ∧ x = y) ∧ xs = ys) (by simp)
      (@instDecidableAnd _ _ (@instDecidableAnd _ _ _ (decEq x y)) (decEqFields xs ys))
  | [], _::_ | _::_, [] => .isFalse (by simp)

end

instance : DecidableEq Json := decEq

def ofInts (ns : List ℤ) : Json := .arr (ns.map .int)

def ofStrings (ss : List String) : Json := .arr (ss.map .str)

def truthy : Json → Bool
  | null => false
  | bool b => b
  | int n => n ≠ 0
  | float q => q ≠ 0
  | str s => s ≠ ""
  | arr xs => !xs.isEmpty
  | obj fields => !fields.isEmpty

/-- `iter(value)`; the keys of a dictionary, the characters of a string. -/
def iterate : Json → Except PyError (List Json)
  | arr xs => .ok xs
  | str s => .ok (s.toList.map fun c => str (String.singleton c))
  | obj fields => .ok (fields.map fun f => str f.1)
  | _ => .error .typeError

/-- `n == value` for an integer `n`. -/
def equalsInt (n : ℤ) : Json → Bool
  | int m => n = m
  | float q => q = n
  | bool b => n = if b then 1 else 0
  | _ => false

/-- `n in value` as a predicate of the integer `n`; the error does not depend on `n`. -/
def containsInt : Json → Except PyError (ℤ → Bool)
  | arr xs => .ok fun n => xs.any (equalsInt n)
  | obj _ => .ok fun _ => false
  | _ => .error .typeError

end Json

/-- The zeros of the Unicode scripts with decimal digits; the digits follow them. -/
def decimalZeros : List ℕ :=
  [0x30,0x660,0x6f0,0x7c0,0x966,0x9e6,0xa66,0xae6,0xb66,0xbe6,0xc66,0xce6,0xd66,0xde6,0xe50,0xed0,
   0xf20,0x1040,0x1090,0x17e0,0x1810,0x1946,0x19d0,0x1a80,0x1a90,0x1b50,0x1bb0,0x1c40,0x1c50,0xa620,
   0xa8d0,0xa900,0xa9d0,0xa9f0,0xaa50,0xabf0,0xff10,0x104a0,0x10d30,0x11066,0x110f0,0x11136,0x111d0,
   0x112f0,0x11450,0x114d0,0x11650,0x116c0,0x11730,0x118e0,0x11950,0x11c50,0x11d50,0x11da0,0x11f50,
   0x16a60,0x16ac0,0x16b50,0x1d7ce,0x1d7d8,0x1d7e2,0x1d7ec,0x1d7f6,0x1e140,0x1e2f0,0x1e4f0,0x1e950,
   0x1fbf0]

def decimal (c : Char) : Option ℕ :=
  decimalZeros.findSome? fun z => if z ≤ c.toNat ∧ c.toNat < z+10 then some (c.toNat-z) else none

theorem decimal_lt {c : Char} {d : ℕ} (h : decimal c = some d) : d < 10 := by
  obtain ⟨z,_,hz⟩ := List.exists_of_findSome?_eq_some h
  split at hz
  · have he := Option.some.inj hz
    omega
  · cases hz

/-- What `int()` strips; the separators 0x1c to 0x1f are not among it. -/
def intSpaces : List Char :=
  [0x9,0xa,0xb,0xc,0xd,0x20,0x85,0xa0,0x1680,0x2000,0x2001,0x2002,0x2003,0x2004,0x2005,0x2006,0x2007,
   0x2008,0x2009,0x200a,0x2028,0x2029,0x202f,0x205f,0x3000].map Char.ofNat

/-- What `str.strip` strips. -/
def strSpaces : List Char := [0x1c,0x1d,0x1e,0x1f].map Char.ofNat ++ intSpaces

def stripChars (spaces cs : List Char) : List Char :=
  ((cs.dropWhile spaces.contains).reverse.dropWhile spaces.contains).reverse

/-- Digits, with single underscores between them; `digit` tells whether one has just been read. -/
def decimalDigits : Bool → List Char → Option (List ℕ)
  | digit, [] => if digit then some [] else none
  | digit, c::cs =>
    if digit ∧ c = '_' then decimalDigits false cs
    else (decimal c).bind fun d => (decimalDigits true cs).map (d :: ·)

/-- `sys.get_int_max_str_digits()` -/
def maxStrDigits : ℕ := 4300

def unsigned (cs : List Char) : Option ℕ :=
  (decimalDigits false cs).bind fun ds =>
    if ds.length ≤ maxStrDigits then some (ds.foldl (fun n d => 10*n+d) 0) else none

/-- `none` is a `ValueError`. -/
def int (cs : List Char) : Option ℤ :=
  match stripChars intSpaces cs with
  | '-'::ds => (unsigned ds).map fun n => -(n : ℤ)
  | '+'::ds => (unsigned ds).map fun n => (n : ℤ)
  | ds => (unsigned ds).map fun n => (n : ℤ)

theorem decimal_of_space {c : Char} (h : c ∈ intSpaces) : decimal c = none := by
  have hall : (intSpaces.all fun c => decimal c = none) = true := by decide
  exact of_decide_eq_true (List.all_eq_true.mp hall c h)

theorem not_space_of_decimal {c : Char} {d : ℕ} (h : decimal c = some d) :
    intSpaces.contains c = false := by
  by_contra hc
  have hmem : c ∈ intSpaces := by simpa using hc
  rw [decimal_of_space hmem] at h
  cases h

theorem stripChars_two {spaces : List Char} {a b : Char} (ha : spaces.contains a = false)
    (hb : spaces.contains b = false) : stripChars spaces [a,b] = [a,b] := by
  have ha' : a ∉ spaces := by simpa using ha
  have hb' : b ∉ spaces := by simpa using hb
  simp [stripChars,ha',hb']

theorem stripChars_two_space {spaces : List Char} {a b c : Char} (ha : spaces.contains a = false)
    (hb : spaces.contains b = false) (hc : spaces.contains c = true) :
    stripChars spaces [a,b,c] = [a,b] := by
  have ha' : a ∉ spaces := by simpa using ha
  have hb' : b ∉ spaces := by simpa using hb
  have hc' : c ∈ spaces := by simpa using hc
  simp [stripChars,ha',hb',hc']

theorem int_two_digits {cs : List Char} {a b : Char} {m n : ℕ}
    (hs : stripChars intSpaces cs = [a,b]) (ha : decimal a = some m) (hb : decimal b = some n) :
    int cs = some ((10*m+n : ℕ) : ℤ) := by
  have hsign : ∀ c, decimal c = none → a ≠ c := by
    intro c hc he
    rw [he,hc] at ha
    cases ha
  have hunder : b ≠ '_' := by
    intro he
    have hnone : decimal '_' = none := by decide
    rw [he,hnone] at hb
    cases hb
  have hdigits : decimalDigits false [a,b] = some [m,n] := by
    simp [decimalDigits,ha,hb,hunder]
  have hvalue : unsigned [a,b] = some (10*m+n) := by
    simp [unsigned,hdigits,maxStrDigits]
  rw [int,hs]
  split
  · rename_i h
    exact absurd (List.cons.inj h).1 (hsign '-' (by decide))
  · rename_i h
    exact absurd (List.cons.inj h).1 (hsign '+' (by decide))
  · rw [hvalue]
    rfl

/-- `int(value)`; a fraction is cut off towards zero. -/
def Json.toInt : Json → Except PyError ℤ
  | .int n => .ok n
  | .bool b => .ok (if b then 1 else 0)
  | .float q => .ok (q.num.tdiv q.den)
  | .str s => (Python.int s.toList).elim (.error .valueError) .ok
  | _ => .error .typeError

/-- The range of a C `int`. -/
def cIntMax : ℤ := 2147483647

def minuteMicros : ℤ := 60000000

/-- `time(hour, minute)` in microseconds since midnight. -/
def time (hour minute : ℤ) : Except PyError ℤ :=
  if hour < -cIntMax-1 ∨ cIntMax < hour ∨ minute < -cIntMax-1 ∨ cIntMax < minute then
    .error .overflowError
  else if 0 ≤ hour ∧ hour ≤ 23 ∧ 0 ≤ minute ∧ minute ≤ 59 then
    .ok (minuteMicros*(60*hour+minute))
  else .error .valueError

end Python
end Broadcaster
