import Mathlib.Data.List.Basic
import Mathlib.Data.Nat.Notation

/-!
# Interpreted string literals of Go

Between the double quotes stands any character but a line feed; a backslash
begins an escape. The value of a literal is a list of bytes: characters count
with their UTF-8 encoding, octal and hexadecimal escapes are single bytes.
-/

namespace Broadcaster
namespace GoStrings

/-- `\ooo`, `\xhh`, `\uhhhh`, `\Uhhhhhhhh` -/
inductive Numeric
  | octal | hex | little | big

def Numeric.base : Numeric → ℕ
  | .octal => 8
  | _ => 16

/-- Where the scanner stands: in the text, after a backslash, or before so many digits of a number. -/
inductive Mode
  | text
  | escape
  | digits (kind : Numeric) (left value : ℕ)

def digit (base : ℕ) (c : Char) : Option ℕ :=
  let d := if '0' ≤ c ∧ c ≤ '9' then some (c.toNat-48)
    else if 'a' ≤ c ∧ c ≤ 'f' then some (c.toNat-87)
    else if 'A' ≤ c ∧ c ≤ 'F' then some (c.toNat-55)
    else none
  d.filter (· < base)

def simpleEscape : Char → Option UInt8
  | 'a' => some 7
  | 'b' => some 8
  | 't' => some 9
  | 'n' => some 10
  | 'v' => some 11
  | 'f' => some 12
  | 'r' => some 13
  | '\\' => some 92
  | '"' => some 34
  | _ => none

def numericEscape (c : Char) : Option Mode :=
  match c with
  | 'x' => some (.digits .hex 2 0)
  | 'u' => some (.digits .little 4 0)
  | 'U' => some (.digits .big 8 0)
  | c => (digit 8 c).map (.digits .octal 2)

/-- An octal number above 255 and a number that is no character are refused. -/
def Numeric.bytes : Numeric → ℕ → Option (List UInt8)
  | .octal, value | .hex, value => if value < 256 then some [UInt8.ofNat value] else none
  | .little, value | .big, value => if value.isValidChar then some (String.utf8EncodeChar (Char.ofNat value)) else none

def prepend (bytes : List UInt8) (r : List UInt8 × List Char) : List UInt8 × List Char := (bytes ++ r.1,r.2)

/-- The value of the literal whose opening quote has been read, and what follows its closing quote. -/
def scan : Mode → List Char → Option (List UInt8 × List Char)
  | _, [] => none
  | .text, c::cs =>
    if c = '"' then some ([],cs)
    else if c = '\n' then none
    else if c = '\\' then scan .escape cs
    else (scan .text cs).map (prepend (String.utf8EncodeChar c))
  | .escape, c::cs =>
    match simpleEscape c with
    | some b => (scan .text cs).map (prepend [b])
    | none =>
      match numericEscape c with
      | some mode => scan mode cs
      | none => none
  | .digits kind left value, c::cs =>
    match digit kind.base c with
    | none => none
    | some d =>
      let value := value*kind.base+d
      if left ≤ 1 then
        match kind.bytes value with
        | none => none
        | some bytes => (scan .text cs).map (prepend bytes)
      else scan (.digits kind (left-1) value) cs

def utf8 (cs : List Char) : List UInt8 := cs.flatMap String.utf8EncodeChar

def escapeChar (c : Char) : List Char :=
  if c = '\\' then ['\\','\\'] else if c = '"' then ['\\','"'] else [c]

def escape (cs : List Char) : List Char := cs.flatMap escapeChar

@[simp] theorem escape_cons (c : Char) (cs : List Char) : escape (c::cs) = escapeChar c ++ escape cs := rfl

theorem escape_eq_self {cs : List Char} (h : ∀ c ∈ cs, c ≠ '\\' ∧ c ≠ '"') : escape cs = cs := by
  induction cs with
  | nil => rfl
  | cons c cs ih =>
    obtain ⟨hc,hcs⟩ := List.forall_mem_cons.mp h
    rw [escape_cons,ih hcs]
    simp [escapeChar,hc.1,hc.2]

theorem scan_escapeChar {c : Char} (h : c ≠ '\n') (cs : List Char) :
    scan .text (escapeChar c ++ cs) = (scan .text cs).map (prepend (String.utf8EncodeChar c)) := by
  unfold escapeChar
  split_ifs with hslash hquote
  · subst hslash
    rfl
  · subst hquote
    rfl
  · simp [scan,h,hslash,hquote]

theorem scan_escape {cs : List Char} (h : '\n' ∉ cs) (rest : List Char) :
    scan .text (escape cs ++ '"'::rest) = some (utf8 cs,rest) := by
  induction cs with
  | nil => rfl
  | cons c cs ih =>
    rw [List.mem_cons,not_or] at h
    rw [escape_cons,List.append_assoc,scan_escapeChar (Ne.symm h.1),ih h.2]
    rfl

/-- A line feed ends no literal: nothing is read. -/
theorem scan_escape_newline {cs : List Char} (h : '\n' ∈ cs) (rest : List Char) :
    scan .text (escape cs ++ rest) = none := by
  induction cs with
  | nil => cases h
  | cons c cs ih =>
    by_cases hc : c = '\n'
    · subst hc
      rfl
    · have hcs : '\n' ∈ cs := by
        simpa [Ne.symm hc] using h
      rw [escape_cons,List.append_assoc,scan_escapeChar hc,ih hcs]
      rfl

end GoStrings
end Broadcaster
