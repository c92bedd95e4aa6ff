import Broadcaster.GoStrings
import Broadcaster.SchedulePages
import Mathlib.Data.Bool.AllAny

/-!
# The log search

The level, the source and the search text arrive from the query string and
leave in a query for Loki. Levels and sources come from closed sets; the text
goes into a string literal of the query.
-/

namespace Broadcaster
namespace LogSearch

open SchedulePages GoStrings

def levelChips : List (String × List String) :=
  [("",[]),("error",["error","critical","fatal"]),("warn",["warn","warning"]),("info",["info"])]

def logSourceTelegramWorker : String := "broadcaster-celery-worker-telegram-1"

def logSourceValues : List String :=
  ["web-broadcaster","celery-beat-broadcaster","celery-worker-default-broadcaster",logSourceTelegramWorker]

def logAnySourceMatcher : String := "container_name=~\".+\""

/-- ASCII digits only -/
def isAccountId (value : String) : Bool := value ≠ "" && value.toList.all Char.isDigit

def cleanLevel : Option String → String
  | none => ""
  | some value =>
    if value = "" then ""
    else if (levelChips.lookup (strip value)).isSome then strip value else ""

def cleanSource : Option String → Option String
  | none => none
  | some value =>
    if value = "" then none
    else if strip value ∈ logSourceValues ∨ isAccountId (strip value) then some (strip value) else none

/-- `text.replace(old,new)` for a single character -/
def replaceChar (old : Char) (new : String) (text : String) : String :=
  String.ofList (text.toList.flatMap fun c => if c = old then new.toList else [c])

def escapeLineFilter (text : String) : String := replaceChar '"' "\\\"" (replaceChar '\\' "\\\\" text)

def buildLogql (level source text : Option String) : String :=
  let matchers :=
    match cleanSource source with
    | none => [logAnySourceMatcher]
    | some source =>
      if isAccountId source then ["account_id=\"" ++ source ++ "\""]
      else ["container_name=\"" ++ source ++ "\""]
  let values := (levelChips.lookup (cleanLevel level)).getD []
  let matchers := if values ≠ [] then matchers ++ ["level=~\"" ++ "|".intercalate values ++ "\""] else matchers
  let selector := "\x7b" ++ ", ".intercalate matchers ++ "\x7d"
  let text := strip (text.getD "")
  if text = "" then selector else selector ++ " |= \"" ++ escapeLineFilter text ++ "\""

inductive MatchOp
  | eq | neq | re | nre
  deriving DecidableEq

structure Matcher where
  label : String
  op : MatchOp
  value : List UInt8
  deriving DecidableEq

inductive LineOp
  | contains | lacks | matches | mismatches
  deriving DecidableEq

structure LineFilter where
  op : LineOp
  value : List UInt8
  deriving DecidableEq

structure Query where
  matchers : List Matcher
  filters : List LineFilter
  deriving DecidableEq

def skip (cs : List Char) : List Char := cs.dropWhile fun c => c = ' ' ∨ c = '\t' ∨ c = '\n' ∨ c = '\r'

def identChar (c : Char) : Bool := c.isAlphanum || c = '_'

def identifier : List Char → Option (String × List Char)
  | [] => none
  | c::cs =>
    if c.isDigit || !identChar c then none
    else some (String.ofList (c::cs.takeWhile identChar),cs.dropWhile identChar)

def matchOp : List Char → Option (MatchOp × List Char)
  | '=' :: '~' :: cs => some (.re,cs)
  | '='::cs => some (.eq,cs)
  | '!' :: '=' :: cs => some (.neq,cs)
  | '!' :: '~' :: cs => some (.nre,cs)
  | _ => none

def lineOp : List Char → Option (LineOp × List Char)
  | '|' :: '=' :: cs => some (.contains,cs)
  | '|' :: '~' :: cs => some (.matches,cs)
  | '!' :: '=' :: cs => some (.lacks,cs)
  | '!' :: '~' :: cs => some (.mismatches,cs)
  | _ => none

def literal : List Char → Option (List UInt8 × List Char)
  | '"'::cs => scan .text cs
  | _ => none

def readMatcher (cs : List Char) : Option (Matcher × List Char) := do
  let (label,cs) ← identifier cs
  let (op,cs) ← matchOp (skip cs)
  let (value,cs) ← literal (skip cs)
  return (⟨label,op,value⟩,skip cs)

/-- The matchers up to the closing brace; at most so many are read. -/
def readMatchers : ℕ → List Char → Option (List Matcher × List Char)
  | 0, _ => none
  | n+1, cs => do
    let (m,cs) ← readMatcher cs
    match cs with
    | '}'::cs => return ([m],cs)
    | ','::cs =>
      let (ms,cs) ← readMatchers n (skip cs)
      return (m::ms,cs)
    | _ => none

def readFilters : ℕ → List Char → Option (List LineFilter)
  | _, [] => some []
  | 0, _ => none
  | n+1, cs => do
    let (op,cs) ← lineOp cs
    let (value,cs) ← literal (skip cs)
    let filters ← readFilters n (skip cs)
    return ⟨op,value⟩::filters

def parse (query : String) : Option Query :=
  match skip query.toList with
  | '{'::cs => do
    let (matchers,cs) ← readMatchers cs.length (skip cs)
    let filters ← readFilters cs.length (skip cs)
    return ⟨matchers,filters⟩
  | _ => none

structure Selection where
  label : String
  op : MatchOp
  value : String

def MatchOp.sign : MatchOp → String
  | .eq => "="
  | .neq => "!="
  | .re => "=~"
  | .nre => "!~"

namespace Selection

def matcher (s : Selection) : Matcher := ⟨s.label,s.op,utf8 s.value.toList⟩

def render (s : Selection) : String := s.label ++ s.op.sign ++ "\"" ++ s.value ++ "\""

def isIdentifier : List Char → Bool
  | [] => false
  | c::cs => !c.isDigit && (c::cs).all identChar

/-- The label is an identifier, and the value needs no escape. -/
structure Plain (s : Selection) : Prop where
  label : isIdentifier s.label.toList = true
  value : ∀ c ∈ s.value.toList, c ≠ '\\' ∧ c ≠ '"' ∧ c ≠ '\n'

theorem Plain.exists_cons {s : Selection} (h : s.Plain) :
    ∃ c cs, s.label.toList = c::cs ∧ c.isDigit = false ∧ ∀ d ∈ c::cs, identChar d = true := by
  have hlabel := h.label
  cases hcs : s.label.toList with
  | nil => simp [hcs,isIdentifier] at hlabel
  | cons c cs =>
    rw [hcs,isIdentifier,Bool.and_eq_true,List.all_eq_true] at hlabel
    exact ⟨c,cs,rfl,by simpa using hlabel.1,hlabel.2⟩

end Selection

theorem not_space_of_identChar {c : Char} (h : identChar c = true) : ¬(c = ' ' ∨ c = '\t' ∨ c = '\n' ∨ c = '\r') := by
  rintro (rfl | rfl | rfl | rfl) <;> exact absurd h (by decide)

section Render

variable {s : Selection} {rest : List Char}

theorem skip_render (h : s.Plain) : skip (s.render.toList ++ rest) = s.render.toList ++ rest := by
  obtain ⟨c,cs,hlabel,-,hident⟩ := h.exists_cons
  have hc := not_space_of_identChar (hident c List.mem_cons_self)
  simp [skip,Selection.render,hlabel,hc]

theorem matchOp_sign (op : MatchOp) (cs : List Char) :
    matchOp (skip (op.sign.toList ++ '"'::cs)) = some (op,'"'::cs) := by
  cases op <;> rfl

theorem identifier_label (h : s.Plain) (cs : List Char) :
    identifier (s.label.toList ++ (s.op.sign.toList ++ '"'::cs)) = some (s.label,s.op.sign.toList ++ '"'::cs) := by
  obtain ⟨c,cs',hlabel,hdigit,hident⟩ := h.exists_cons
  obtain ⟨hc,hcs⟩ := List.forall_mem_cons.mp hident
  have hsign : ∃ d ds, s.op.sign.toList ++ '"'::cs = d::ds ∧ identChar d = false := by
    cases s.op <;> exact ⟨_,_,rfl,by decide⟩
  obtain ⟨d,ds,hsign,hd⟩ := hsign
  rw [hsign,hlabel]
  have htake : (cs' ++ d::ds).takeWhile identChar = cs' := by
    rw [List.takeWhile_append_of_pos hcs]
    simp [hd]
  have hdrop : (cs' ++ d::ds).dropWhile identChar = d::ds := by
    rw [List.dropWhile_append_of_pos hcs]
    simp [hd]
  have hname : String.ofList (c::cs') = s.label := by
    rw [← hlabel,String.ofList_toList]
  simp [identifier,hdigit,hc,htake,hdrop,hname]

theorem readMatcher_render (h : s.Plain) : readMatcher (s.render.toList ++ rest) = some (s.matcher,skip rest) := by
  have hvalue : scan .text (s.value.toList ++ '"'::rest) = some (utf8 s.value.toList,rest) := by
    have hescape := escape_eq_self fun c hc => ⟨(h.value c hc).1,(h.value c hc).2.1⟩
    have hscan := scan_escape (fun hn => (h.value '\n' hn).2.2 rfl) rest
    rwa [hescape] at hscan
  have hrender : s.render.toList ++ rest =
      s.label.toList ++ (s.op.sign.toList ++ '"'::(s.value.toList ++ '"'::rest)) := by
    simp [Selection.render]
  rw [hrender,readMatcher,identifier_label h]
  simp only [Option.bind_eq_bind,Option.bind_some,matchOp_sign]
  have hquote : skip ('"'::(s.value.toList ++ '"'::rest)) = '"'::(s.value.toList ++ '"'::rest) := rfl
  rw [hquote,literal,hvalue]
  rfl

def joined (ms : List Selection) : List Char := (", ".intercalate (ms.map Selection.render)).toList

theorem joined_singleton (m : Selection) : joined [m] = m.render.toList := by
  simp [joined]

theorem joined_cons_cons (m m' : Selection) (ms : List Selection) :
    joined (m::m'::ms) = m.render.toList ++ ',' :: ' ' :: joined (m'::ms) := by
  simp [joined,List.intercalate]

theorem skip_joined {ms : List Selection} (h : ∀ m ∈ ms, m.Plain) (hne : ms ≠ []) :
    skip (joined ms ++ rest) = joined ms ++ rest := by
  match ms, hne with
  | [m], _ => rw [joined_singleton,skip_render (h m List.mem_cons_self)]
  | m::m'::ms, _ => rw [joined_cons_cons,List.append_assoc,skip_render (h m List.mem_cons_self)]

theorem readMatchers_joined {ms : List Selection} (h : ∀ m ∈ ms, m.Plain) (hne : ms ≠ []) {n : ℕ}
    (hn : ms.length ≤ n) : readMatchers n (joined ms ++ '}'::rest) = some (ms.map Selection.matcher,rest) := by
  induction ms generalizing n with
  | nil => exact absurd rfl hne
  | cons m ms ih =>
    obtain ⟨hm,hms⟩ := List.forall_mem_cons.mp h
    obtain ⟨n,rfl⟩ : ∃ k, n = k+1 := ⟨n-1,by simp at hn; omega⟩
    cases ms with
    | nil =>
      rw [joined_singleton,readMatchers,readMatcher_render hm]
      rfl
    | cons m' ms =>
      have hcomma : skip (',' :: ' ' :: (joined (m'::ms) ++ '}' :: rest)) = ',' :: ' ' :: (joined (m'::ms) ++ '}' :: rest) := rfl
      have hblank : skip (' '::(joined (m'::ms) ++ '}'::rest)) = joined (m'::ms) ++ '}'::rest :=
        skip_joined hms (by simp)
      rw [joined_cons_cons,List.append_assoc,List.cons_append,List.cons_append,readMatchers,readMatcher_render hm,hcomma]
      simp only [Option.bind_eq_bind,Option.bind_some,hblank]
      rw [ih hms (by simp) (by simpa using hn)]
      rfl

theorem length_le_joined (ms : List Selection) : ms.length ≤ (joined ms).length+1 := by
  induction ms with
  | nil => simp
  | cons m ms ih =>
    cases ms with
    | nil => simp
    | cons m' ms =>
      rw [joined_cons_cons]
      simp only [List.length_cons,List.length_append] at *
      omega

/-- A query is read back: its selector, and then the line filters. -/
theorem parse_joined {ms : List Selection} (h : ∀ m ∈ ms, m.Plain) (hne : ms ≠ []) (rest : List Char) :
    parse (String.ofList ('{'::(joined ms ++ '}'::rest))) =
      (readFilters rest.length (skip rest)).map (⟨ms.map Selection.matcher,·⟩) := by
  have hlength : ms.length ≤ (joined ms ++ '}'::rest).length := by
    have := length_le_joined ms
    simp only [List.length_append,List.length_cons]
    omega
  have hbrace : skip ('{'::(joined ms ++ '}'::rest)) = '{'::(joined ms ++ '}'::rest) := rfl
  rw [parse,String.toList_ofList,hbrace]
  simp only [skip_joined h hne,readMatchers_joined h hne hlength,Option.bind_eq_bind,Option.bind_some]
  cases readFilters rest.length (skip rest) <;> rfl

end Render

/-- What the selector asks for, for a level and a source -/
def selected (level source : Option String) : List Selection :=
  let values := (levelChips.lookup (cleanLevel level)).getD []
  (match cleanSource source with
    | none => ⟨"container_name",.re,".+"⟩
    | some source => ⟨if isAccountId source then "account_id" else "container_name",.eq,source⟩)::
      if values ≠ [] then [⟨"level",.re,"|".intercalate values⟩] else []

inductive Declared : Selection → Prop
  | anySource : Declared ⟨"container_name",.re,".+"⟩
  | container {name : String} (h : name ∈ logSourceValues) : Declared ⟨"container_name",.eq,name⟩
  | account {id : String} (h : isAccountId id = true) : Declared ⟨"account_id",.eq,id⟩
  | level {chip : String} {values : List String} (h : (chip,values) ∈ levelChips) (hne : values ≠ []) :
      Declared ⟨"level",.re,"|".intercalate values⟩

theorem Declared.plain {s : Selection} (h : Declared s) : s.Plain := by
  cases h with
  | anySource => exact ⟨by decide,List.all_iff_forall_prop.mp (by decide)⟩
  | @container name h =>
    have hall : ∀ name ∈ logSourceValues, name.toList.all (fun c => c ≠ '\\' ∧ c ≠ '"' ∧ c ≠ '\n') = true := by
      decide
    exact ⟨by change Selection.isIdentifier "container_name".toList = true; decide,
      List.all_iff_forall_prop.mp (hall name h)⟩
  | @account id h =>
    refine ⟨by change Selection.isIdentifier "account_id".toList = true; decide,fun c hc => ?_⟩
    have hdigit : c.isDigit = true := by
      simp only [isAccountId,Bool.and_eq_true,List.all_eq_true] at h
      exact h.2 c hc
    refine ⟨?_,?_,?_⟩ <;> rintro rfl <;> exact absurd hdigit (by decide)
  | @level chip values h hne =>
    have hall : ∀ chip ∈ levelChips,
        ("|".intercalate chip.2).toList.all (fun c => c ≠ '\\' ∧ c ≠ '"' ∧ c ≠ '\n') = true := by
      decide
    exact ⟨by change Selection.isIdentifier "level".toList = true; decide,
      List.all_iff_forall_prop.mp (hall (chip,values) h)⟩

theorem cleanSource_some {source : Option String} {name : String} (h : cleanSource source = some name) :
    name ∈ logSourceValues ∨ isAccountId name = true := by
  cases source with
  | none => cases h
  | some value =>
    by_cases hclean : value ≠ "" ∧ (strip value ∈ logSourceValues ∨ isAccountId (strip value) = true)
    · have hname : strip value = name := by
        simpa [cleanSource,hclean] using h
      exact hname ▸ hclean.2
    · rw [not_and_or,ne_eq,not_not] at hclean
      simp only [cleanSource] at h
      split_ifs at h with hempty hdeclared
      exact absurd hclean (not_or.mpr ⟨hempty,not_not.mpr hdeclared⟩)

theorem levelChips_lookup {chip : String} {values : List String} (h : levelChips.lookup chip = some values) :
    (chip,values) ∈ levelChips := by
  obtain ⟨before,after,hsplit,-⟩ := List.lookup_eq_some_iff.mp h
  rw [hsplit]
  simp

theorem selected_ne_nil (level source : Option String) : selected level source ≠ [] := by
  simp [selected]

theorem selected_declared (level source : Option String) : ∀ s ∈ selected level source, Declared s := by
  unfold selected
  refine List.forall_mem_cons.mpr ⟨?_,?_⟩
  · cases hsource : cleanSource source with
    | none => exact .anySource
    | some name =>
      by_cases hid : isAccountId name = true
      · simpa [hid] using Declared.account hid
      · simpa [hid] using Declared.container ((cleanSource_some hsource).resolve_right hid)
  · cases hvalues : levelChips.lookup (cleanLevel level) with
    | none => simp
    | some values =>
      by_cases hne : values = []
      · simp [hne]
      · simpa [hne] using Declared.level (levelChips_lookup hvalues) hne

theorem toList_replaceChar (old : Char) (new text : String) : (replaceChar old new text).toList =
    text.toList.flatMap fun c => if c = old then new.toList else [c] := by
  simp [replaceChar]

theorem escapeLineFilter_eq (text : String) : (escapeLineFilter text).toList = escape text.toList := by
  unfold escapeLineFilter escape
  rw [toList_replaceChar,toList_replaceChar,List.flatMap_assoc]
  congr 1
  funext c
  unfold escapeChar
  split_ifs with hslash hquote
  · rfl
  · simp [hquote]
  · simp [hquote]

theorem map_render_selected (level source : Option String) : (selected level source).map Selection.render =
    let matchers :=
      match cleanSource source with
      | none => [logAnySourceMatcher]
      | some source =>
        if isAccountId source then ["account_id=\"" ++ source ++ "\""]
        else ["container_name=\"" ++ source ++ "\""]
    let values := (levelChips.lookup (cleanLevel level)).getD []
    if values ≠ [] then matchers ++ ["level=~\"" ++ "|".intercalate values ++ "\""] else matchers := by
  have hlevel (v : String) : Selection.render ⟨"level",.re,v⟩ = "level=~\"" ++ v ++ "\"" := rfl
  have hsource : [Selection.render (match cleanSource source with
      | none => ⟨"container_name",.re,".+"⟩
      | some source => ⟨if isAccountId source then "account_id" else "container_name",.eq,source⟩)] =
      match cleanSource source with
      | none => [logAnySourceMatcher]
      | some source =>
        if isAccountId source then ["account_id=\"" ++ source ++ "\""]
        else ["container_name=\"" ++ source ++ "\""] := by
    cases cleanSource source with
    | none => rfl
    | some name =>
      by_cases hid : isAccountId name = true
      · simp only [hid,if_true]
        rfl
      · simp only [hid]
        rfl
  unfold selected
  simp only [← hsource,List.map_cons]
  split_ifs with hvalues
  · rw [List.map_cons,hlevel]
    rfl
  · rfl

theorem buildLogql_eq (level source text : Option String) : buildLogql level source text =
    String.ofList ('{'::(joined (selected level source) ++ '}'::
      if strip (text.getD "") = "" then []
      else " |= \"".toList ++ (escape (strip (text.getD "")).toList ++ ['"']))) := by
  rw [← String.toList_inj,String.toList_ofList,joined,map_render_selected,← escapeLineFilter_eq]
  unfold buildLogql
  by_cases htext : strip (text.getD "") = ""
  · simp only [htext,if_true]
    simp only [String.toList_append]
    rfl
  · simp only [htext,if_false]
    simp only [String.toList_append,List.append_assoc]
    rfl

/-- The query is the declared selector with one filter for the stripped text, or without a filter. -/
def StaysText (level source text : Option String) : Prop :=
  selected level source ≠ [] ∧ (∀ s ∈ selected level source, Declared s) ∧
    parse (buildLogql level source text) = some ⟨(selected level source).map Selection.matcher,
      if strip (text.getD "") = "" then [] else [⟨.contains,utf8 (strip (text.getD "")).toList⟩]⟩

theorem readFilters_contains (n : ℕ) (cs : List Char) : readFilters (n+1) ('|' :: '=' :: ' ' :: '"' :: cs) =
    (scan .text cs).bind fun r => (readFilters n (skip r.2)).map (⟨.contains,r.1⟩::·) := by
  have hquote : skip (' ' :: '"' :: cs) = '"' :: cs := rfl
  simp only [readFilters,lineOp,Option.bind_eq_bind,Option.bind_some,hquote,literal]
  cases scan .text cs with
  | none => rfl
  | some r =>
    simp only [Option.bind_some]
    cases readFilters n (skip r.2) <;> rfl

theorem search_text_stays_text_iff (level source text : Option String) :
    StaysText level source text ↔ '\n' ∉ (strip (text.getD "")).toList := by
  have hselector : selected level source ≠ [] ∧ ∀ s ∈ selected level source, Declared s :=
    ⟨selected_ne_nil level source,selected_declared level source⟩
  unfold StaysText
  rw [← and_assoc,and_iff_right hselector,buildLogql_eq,
    parse_joined (fun s hs => (selected_declared level source s hs).plain) (selected_ne_nil level source)]
  generalize strip (text.getD "") = stripped
  by_cases htext : stripped = ""
  · simp [htext,skip,readFilters]
  · have hskip (cs : List Char) : skip (" |= \"".toList ++ cs) = '|' :: '=' :: ' ' :: '"' :: cs := rfl
    have hlength (cs : List Char) : (" |= \"".toList ++ cs).length = cs.length+4+1 := by
      simp
    rw [if_neg htext,if_neg htext,hskip,hlength,readFilters_contains]
    by_cases hline : '\n' ∈ stripped.toList
    · rw [scan_escape_newline hline]
      simp [hline]
    · rw [scan_escape hline]
      simp [hline,skip,readFilters]

/-- A text of two lines -/
theorem search_text_of_two_lines : ¬∀ level source text, StaysText level source text := by
  intro h
  obtain ⟨-,-,hparse⟩ := h none none (some "a\nb")
  have hnone : parse (buildLogql none none (some "a\nb")) = none := by
    decide +kernel
  rw [hnone] at hparse
  cases hparse

end LogSearch
end Broadcaster
