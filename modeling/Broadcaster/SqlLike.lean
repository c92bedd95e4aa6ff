import Mathlib.Data.List.Infix

/-!
# `LIKE` with an escape character

A pattern is read into tokens, of which two are wildcards. After the escape
character stands a wildcard or the escape character itself, meant literally;
anything else there is an error. A text that has been escaped is found where it
occurs.
-/

namespace Broadcaster
namespace SqlLike

inductive Token
  | char (c : Char)
  /-- `_` -/
  | anyChar
  /-- `%` -/
  | anyString
  deriving DecidableEq

/-- The characters that are not read as themselves. -/
def isSpecial (esc c : Char) : Bool := c = esc || c = '%' || c = '_'

/-- The pattern of `LIKE pattern ESCAPE esc`, unless it is an error. -/
def tokens (esc : Char) : List Char → Option (List Token)
  | [] => some []
  | c::cs =>
    if c = esc then
      match cs with
      | [] => none
      | d::ds => if isSpecial esc d then (tokens esc ds).map (Token.char d :: ·) else none
    else if c = '%' then (tokens esc cs).map (Token.anyString :: ·)
    else if c = '_' then (tokens esc cs).map (Token.anyChar :: ·)
    else (tokens esc cs).map (Token.char c :: ·)

def fits : List Token → List Char → Bool
  | [], s => s.isEmpty
  | .char c::ts, s =>
    match s with
    | [] => false
    | d::ds => c = d && fits ts ds
  | .anyChar::ts, s =>
    match s with
    | [] => false
    | _::ds => fits ts ds
  | .anyString::ts, s => s.tails.any (fits ts)

def escaped (esc c : Char) : List Char := if isSpecial esc c then [esc,c] else [c]

variable {esc : Char} {text rest s : List Char} {ts : List Token}

theorem tokens_escaped (esc c : Char) (rest : List Char) :
    tokens esc (escaped esc c ++ rest) = (tokens esc rest).map (Token.char c :: ·) := by
  unfold escaped
  by_cases hc : isSpecial esc c = true
  · rw [if_pos hc,List.cons_append,List.singleton_append,tokens.eq_def]
    simp only [if_true,if_pos hc]
  · have hplain : c ≠ esc ∧ c ≠ '%' ∧ c ≠ '_' := by
      simpa [isSpecial,not_or,and_assoc] using hc
    rw [if_neg hc,List.singleton_append,tokens.eq_def]
    simp only [if_neg hplain.1,if_neg hplain.2.1,if_neg hplain.2.2]

theorem tokens_escaped_text (esc : Char) (text rest : List Char) :
    tokens esc (text.flatMap (escaped esc) ++ rest) = (tokens esc rest).map (text.map Token.char ++ ·) := by
  induction text with
  | nil => simp
  | cons c text ih =>
    rw [List.flatMap_cons,List.append_assoc,tokens_escaped,ih,Option.map_map]
    rfl

theorem fits_chars : fits (text.map Token.char ++ ts) s = true ↔ ∃ rest, s = text ++ rest ∧ fits ts rest = true := by
  induction text generalizing s with
  | nil => simp
  | cons c text ih =>
    rw [List.map_cons,List.cons_append]
    cases s with
    | nil => simp [fits]
    | cons d s =>
      simp only [fits,Bool.and_eq_true,decide_eq_true_eq,ih,List.cons_append,List.cons.injEq]
      constructor
      · rintro ⟨rfl,rest,rfl,hrest⟩
        exact ⟨rest,⟨rfl,rfl⟩,hrest⟩
      · rintro ⟨rest,⟨rfl,rfl⟩,hrest⟩
        exact ⟨rfl,rest,rfl,hrest⟩

theorem fits_anyString : fits (.anyString::ts) s = true ↔
    ∃ before after, s = before ++ after ∧ fits ts after = true := by
  simp only [fits,List.any_eq_true,List.mem_tails]
  constructor
  · rintro ⟨after,⟨before,rfl⟩,hafter⟩
    exact ⟨before,after,rfl,hafter⟩
  · rintro ⟨before,after,rfl,hafter⟩
    exact ⟨after,⟨before,rfl⟩,hafter⟩

theorem fits_all (s : List Char) : fits [.anyString] s = true :=
  fits_anyString.mpr ⟨s,[],by simp,rfl⟩

/-- An escaped text between two wildcards is looked for literally. -/
theorem tokens_contains (esc : Char) (hesc : esc ≠ '%') (text : List Char) :
    ∃ ts, tokens esc ('%'::(text.flatMap (escaped esc) ++ ['%'])) = some ts ∧
      ∀ s, fits ts s = true ↔ text <:+: s := by
  have hlast : tokens esc ['%'] = some [.anyString] := by
    simp [tokens,hesc.symm]
  refine ⟨.anyString::(text.map Token.char ++ [.anyString]),?_,fun s => ?_⟩
  · rw [tokens.eq_def]
    simp only [if_neg hesc.symm,if_true]
    rw [tokens_escaped_text,hlast]
    rfl
  · rw [fits_anyString]
    constructor
    · rintro ⟨before,after,rfl,hafter⟩
      obtain ⟨rest,rfl,_⟩ := fits_chars.mp hafter
      exact ⟨before,rest,by simp⟩
    · rintro ⟨before,rest,rfl⟩
      exact ⟨before,text ++ rest,by simp,fits_chars.mpr ⟨rest,rfl,fits_all rest⟩⟩

example : (tokens '\\' ['%','a','\\','_','b','%']).map (fun ts => (fits ts ['x','a','_','b'],fits ts ['a','x','b'])) =
    some (true,false) := by
  decide

end SqlLike
end Broadcaster
