import Mathlib.Data.List.Basic

/-!
# Delimited text

The writer and the reader of the module `csv` of Python, for any delimiter, with
`QUOTE_MINIMAL`, doubled quotes and records that end in CR LF. The reader goes
over lines, which end with LF, one character after the other and then the end of
the line. What the writer has written is read back.
-/

namespace Broadcaster
namespace Csv

/-- A field that holds one of these is quoted. -/
def isSpecial (delimiter c : Char) : Bool := c = delimiter || c = '"' || c = '\r' || c = '\n'

def double (c : Char) : List Char := if c = '"' then ['"','"'] else [c]

def quoted (field : List Char) : List Char := '"' :: (field.flatMap double++['"'])

def writeField (delimiter : Char) (field : List Char) : List Char :=
  if field.any (isSpecial delimiter) then quoted field else field

def writeFields (delimiter : Char) (fields : List (List Char)) : List Char :=
  fields.flatMap fun field => delimiter :: writeField delimiter field

/-- `writer.writerow(fields)`; a single empty field is quoted, so that the line is not empty. -/
def writeRow (delimiter : Char) : List (List Char) → List Char
  | [] => ['\r','\n']
  | [[]] => ['"','"','\r','\n']
  | field::fields => writeField delimiter field++(writeFields delimiter fields++['\r','\n'])

inductive State
  | startRecord
  | startField
  | inField
  | inQuotedField
  | quoteInQuotedField
  | eatCrnl
  deriving DecidableEq

/-- The records that are complete, and the record and the field that are being read. -/
structure Reader where
  records : List (List (List Char))
  fields : List (List Char)
  field : List Char
  state : State

namespace Reader

def addChar (r : Reader) (c : Char) (state : State) : Reader := { r with field := r.field++[c], state := state }

def saveField (r : Reader) (state : State) : Reader :=
  { r with fields := r.fields++[r.field], field := [], state := state }

def emit (r : Reader) : Reader := ⟨r.records++[r.fields],[],[],.startRecord⟩

end Reader

def isNewline (c : Char) : Bool := c = '\r' || c = '\n'

def firstChar (delimiter : Char) (r : Reader) (c : Char) : Reader :=
  if isNewline c then r.saveField .eatCrnl
  else if c = '"' then { r with state := .inQuotedField }
  else if c = delimiter then r.saveField .startField
  else r.addChar c .inField

/-- `parse_process_char`; `none` is an error. -/
def readChar (delimiter : Char) (r : Reader) (c : Char) : Option Reader :=
  match r.state with
  | .startRecord =>
    if isNewline c then some { r with state := .eatCrnl } else some (firstChar delimiter r c)
  | .startField => some (firstChar delimiter r c)
  | .inField =>
    if isNewline c then some (r.saveField .eatCrnl)
    else if c = delimiter then some (r.saveField .startField)
    else some (r.addChar c .inField)
  | .inQuotedField =>
    if c = '"' then some { r with state := .quoteInQuotedField } else some (r.addChar c .inQuotedField)
  | .quoteInQuotedField =>
    if c = '"' then some (r.addChar c .inQuotedField)
    else if c = delimiter then some (r.saveField .startField)
    else if isNewline c then some (r.saveField .eatCrnl)
    else some (r.addChar c .inField)
  | .eatCrnl => if isNewline c then some r else none

def endLine (r : Reader) : Reader :=
  match r.state with
  | .startRecord => r.emit
  | .startField => (r.saveField .startRecord).emit
  | .inField => (r.saveField .startRecord).emit
  | .inQuotedField => r
  | .quoteInQuotedField => (r.saveField .startRecord).emit
  | .eatCrnl => r.emit

def next (delimiter : Char) (r : Reader) (c : Char) : Option Reader :=
  (readChar delimiter r c).map fun r => if c = '\n' then endLine r else r

def run (delimiter : Char) (r : Reader) (text : List Char) : Option Reader := text.foldlM (next delimiter) r

/-- The last line need not end with LF, and quotes may be left open. -/
def finish (text : List Char) (r : Reader) : List (List (List Char)) :=
  let r := if text = [] ∨ text.getLast? = some '\n' then r else endLine r
  if r.field ≠ [] ∨ r.state = .inQuotedField then (r.saveField .startRecord).emit.records else r.records

/-- `list(csv.reader(io.StringIO(text)))`; `none` is a `csv.Error`. -/
def read (delimiter : Char) (text : List Char) : Option (List (List (List Char))) :=
  (run delimiter ⟨[],[],[],.startRecord⟩ text).map (finish text)

section

variable {delimiter : Char}

theorem run_append (r : Reader) (s t : List Char) :
    run delimiter r (s++t) = (run delimiter r s).bind fun r' => run delimiter r' t := List.foldlM_append

theorem run_cons (r : Reader) (c : Char) (t : List Char) :
    run delimiter r (c::t) = (next delimiter r c).bind fun r' => run delimiter r' t := List.foldlM_cons

/-- A delimiter that is neither a quote nor the end of a line. -/
structure Proper (delimiter : Char) : Prop where
  quote : delimiter ≠ '"'
  newline : isNewline delimiter = false

theorem not_special {c : Char} (h : isSpecial delimiter c = false) :
    c ≠ delimiter ∧ c ≠ '"' ∧ isNewline c = false ∧ c ≠ '\n' := by
  simp only [isSpecial,Bool.or_eq_false_iff,decide_eq_false_iff_not] at h
  obtain ⟨⟨⟨hdelimiter,hquote⟩,hreturn⟩,hfeed⟩ := h
  exact ⟨hdelimiter,hquote,by simp [isNewline,hreturn,hfeed],hfeed⟩

theorem next_inField {records : List (List (List Char))} {fields : List (List Char)} {field : List Char} {c : Char}
    (hc : isSpecial delimiter c = false) :
    next delimiter ⟨records,fields,field,.inField⟩ c = some ⟨records,fields,field++[c],.inField⟩ := by
  obtain ⟨hdelimiter,_,hnewline,hfeed⟩ := not_special hc
  simp [next,readChar,hdelimiter,hnewline,hfeed,Reader.addChar]

theorem run_plain {records : List (List (List Char))} {fields : List (List Char)} {cs : List Char}
    (hcs : cs.any (isSpecial delimiter) = false) (field : List Char) :
    run delimiter ⟨records,fields,field,.inField⟩ cs = some ⟨records,fields,field++cs,.inField⟩ := by
  induction cs generalizing field with
  | nil => simp [run]
  | cons c cs ih =>
    rw [List.any_cons,Bool.or_eq_false_iff] at hcs
    rw [run_cons,next_inField hcs.1,Option.bind_some,ih hcs.2]
    simp

theorem next_quoted {records : List (List (List Char))} {fields : List (List Char)} {field : List Char} {c : Char}
    (hc : c ≠ '"') :
    next delimiter ⟨records,fields,field,.inQuotedField⟩ c = some ⟨records,fields,field++[c],.inQuotedField⟩ := by
  simp [next,readChar,hc,Reader.addChar,endLine]

theorem run_double {records : List (List (List Char))} {fields : List (List Char)} {field : List Char} (c : Char) :
    run delimiter ⟨records,fields,field,.inQuotedField⟩ (double c)
      = some ⟨records,fields,field++[c],.inQuotedField⟩ := by
  unfold double
  split
  next hc =>
    subst hc
    simp [run,next,readChar,Reader.addChar]
  next hc =>
    rw [run_cons,next_quoted hc]
    rfl

theorem run_doubled {records : List (List (List Char))} {fields : List (List Char)} (cs field : List Char) :
    run delimiter ⟨records,fields,field,.inQuotedField⟩ (cs.flatMap double)
      = some ⟨records,fields,field++cs,.inQuotedField⟩ := by
  induction cs generalizing field with
  | nil => simp [run]
  | cons c cs ih =>
    rw [List.flatMap_cons,run_append,run_double,Option.bind_some,ih]
    simp

inductive Ends (delimiter : Char) : Char → State → Prop
  | field : Ends delimiter delimiter .startField
  | record : Ends delimiter '\r' .eatCrnl

theorem next_end {records : List (List (List Char))} {fields : List (List Char)} {field : List Char} {state : State}
    (hd : Proper delimiter) {c : Char} {after : State} (hc : Ends delimiter c after)
    (hstate : state = .inField ∨ state = .quoteInQuotedField ∨ state = .startField ∧ field = []) :
    next delimiter ⟨records,fields,field,state⟩ c = some ⟨records,fields++[field],[],after⟩ := by
  have hfeed : delimiter ≠ '\n' := by
    rintro rfl
    exact absurd hd.newline (by decide)
  have hreturn : delimiter ≠ '\r' := by
    rintro rfl
    exact absurd hd.newline (by decide)
  cases hc with
  | field =>
    rcases hstate with rfl | rfl | ⟨rfl,rfl⟩ <;>
      simp [next,readChar,firstChar,hd.newline,hd.quote,hfeed,Reader.saveField]
  | record =>
    rcases hstate with rfl | rfl | ⟨rfl,rfl⟩ <;>
      simp [next,readChar,firstChar,isNewline,hreturn.symm,Reader.saveField]

theorem run_field {records : List (List (List Char))} {fields : List (List Char)} (hd : Proper delimiter)
    {c : Char} {after : State} (hc : Ends delimiter c after) (cs t : List Char) :
    run delimiter ⟨records,fields,[],.startField⟩ (writeField delimiter cs++c::t)
      = run delimiter ⟨records,fields++[cs],[],after⟩ t := by
  unfold writeField
  split
  · have hopen : next delimiter ⟨records,fields,[],.startField⟩ '"' = some ⟨records,fields,[],.inQuotedField⟩ := by
      simp [next,readChar,firstChar,isNewline]
    have hclose : next delimiter ⟨records,fields,cs,.inQuotedField⟩ '"'
        = some ⟨records,fields,cs,.quoteInQuotedField⟩ := by
      simp [next,readChar]
    rw [quoted,List.cons_append,run_cons,hopen,Option.bind_some,List.append_assoc,run_append,run_doubled,
      Option.bind_some,List.nil_append,List.singleton_append,run_cons,hclose,Option.bind_some,run_cons,
      next_end hd hc (.inr (.inl rfl)),Option.bind_some]
  next hplain =>
    rw [Bool.not_eq_true] at hplain
    cases cs with
    | nil =>
      rw [List.nil_append,run_cons,next_end hd hc (.inr (.inr ⟨rfl,rfl⟩)),Option.bind_some]
    | cons a as =>
      rw [List.any_cons,Bool.or_eq_false_iff] at hplain
      obtain ⟨hdelimiter,hquote,hnewline,hfeed⟩ := not_special hplain.1
      have hfirst : next delimiter ⟨records,fields,[],.startField⟩ a = some ⟨records,fields,[a],.inField⟩ := by
        simp [next,readChar,firstChar,hdelimiter,hquote,hnewline,hfeed,Reader.addChar]
      rw [List.cons_append,run_cons,hfirst,Option.bind_some,run_append,run_plain hplain.2,Option.bind_some,
        run_cons,next_end hd hc (.inl rfl),Option.bind_some]
      rfl

theorem run_lineEnd {records : List (List (List Char))} {fields : List (List Char)} (t : List Char) :
    run delimiter ⟨records,fields,[],.eatCrnl⟩ ('\n'::t) = run delimiter ⟨records++[fields],[],[],.startRecord⟩ t := by
  rw [run_cons]
  rfl

theorem run_fields {records : List (List (List Char))} (hd : Proper delimiter) (field : List Char)
    (fields read : List (List Char)) (t : List Char) :
    run delimiter ⟨records,read,[],.startField⟩
        (writeField delimiter field++(writeFields delimiter fields++ '\r' :: '\n' :: t))
      = run delimiter ⟨records++[read++field::fields],[],[],.startRecord⟩ t := by
  induction fields generalizing field read with
  | nil =>
    rw [writeFields,List.flatMap_nil,List.nil_append,run_field hd .record,run_lineEnd]
  | cons next fields ih =>
    rw [writeFields,List.flatMap_cons,List.cons_append,List.cons_append,run_field hd .field,List.append_assoc]
    have h := ih next (read++[field])
    rw [writeFields] at h
    rw [h]
    simp

theorem run_startRecord {records : List (List (List Char))} {c : Char} (hc : isNewline c = false) (t : List Char) :
    run delimiter ⟨records,[],[],.startRecord⟩ (c::t) = run delimiter ⟨records,[],[],.startField⟩ (c::t) := by
  have hsame : firstChar delimiter ⟨records,[],[],.startRecord⟩ c = firstChar delimiter ⟨records,[],[],.startField⟩ c := by
    simp [firstChar,Reader.saveField,Reader.addChar]
  rw [run_cons,run_cons]
  simp [next,readChar,hc,hsame]

theorem exists_head (hd : Proper delimiter) {field : List Char} {fields : List (List Char)}
    (h : field ≠ [] ∨ fields ≠ []) (t : List Char) : ∃ c s, isNewline c = false ∧
      writeField delimiter field++(writeFields delimiter fields++t) = c::s := by
  unfold writeField
  split
  · exact ⟨'"',_,rfl,rfl⟩
  next hplain =>
    cases field with
    | cons c cs =>
      rw [Bool.not_eq_true,List.any_cons,Bool.or_eq_false_iff] at hplain
      exact ⟨c,_,(not_special hplain.1).2.2.1,rfl⟩
    | nil =>
      cases fields with
      | nil => simp at h
      | cons field fields => exact ⟨delimiter,_,hd.newline,rfl⟩

theorem run_writeRow {records : List (List (List Char))} (hd : Proper delimiter) {row : List (List Char)}
    (hrow : row ≠ []) (t : List Char) :
    run delimiter ⟨records,[],[],.startRecord⟩ (writeRow delimiter row++t)
      = run delimiter ⟨records++[row],[],[],.startRecord⟩ t := by
  match row with
  | [] => exact absurd rfl hrow
  | [[]] =>
    have hquotes : run delimiter ⟨records,[],[],.startRecord⟩ ['"','"']
        = some ⟨records,[],[],.quoteInQuotedField⟩ := by
      simp [run,next,readChar,firstChar,isNewline]
    have hsplit : writeRow delimiter [[]]++t = ['"','"']++ '\r' :: '\n' :: t := rfl
    rw [hsplit,run_append,hquotes,Option.bind_some,run_cons,next_end hd .record (.inr (.inl rfl)),
      Option.bind_some,run_lineEnd]
    rfl
  | (c::cs)::fields =>
    have hwrite : writeRow delimiter ((c::cs)::fields)++t
        = writeField delimiter (c::cs)++(writeFields delimiter fields++ '\r' :: '\n' :: t) := by
      simp [writeRow]
    obtain ⟨d,s,hdNewline,hs⟩ := exists_head hd (.inl (List.cons_ne_nil c cs)) ('\r' :: '\n' :: t)
    rw [hwrite,hs,run_startRecord hdNewline,← hs,run_fields hd]
    rfl
  | []::field::fields =>
    have hwrite : writeRow delimiter ([]::field::fields)++t
        = writeField delimiter []++(writeFields delimiter (field::fields)++ '\r' :: '\n' :: t) := by
      simp [writeRow]
    obtain ⟨d,s,hdNewline,hs⟩ := exists_head hd (.inr (List.cons_ne_nil field fields)) ('\r' :: '\n' :: t)
    rw [hwrite,hs,run_startRecord hdNewline,← hs,run_fields hd]
    rfl

theorem run_rows (hd : Proper delimiter) {rows : List (List (List Char))} (hrows : ∀ row ∈ rows, row ≠ [])
    (records : List (List (List Char))) :
    run delimiter ⟨records,[],[],.startRecord⟩ (rows.flatMap (writeRow delimiter))
      = some ⟨records++rows,[],[],.startRecord⟩ := by
  induction rows generalizing records with
  | nil => simp [run]
  | cons row rows ih =>
    obtain ⟨hrow,hrest⟩ := List.forall_mem_cons.mp hrows
    rw [List.flatMap_cons,run_writeRow hd hrow,ih hrest]
    simp

theorem getLast_writeRow (row : List (List Char)) : ∃ s, writeRow delimiter row = s++['\n'] := by
  match row with
  | [] => exact ⟨['\r'],rfl⟩
  | [[]] => exact ⟨['"','"','\r'],rfl⟩
  | (c::cs)::fields =>
    exact ⟨writeField delimiter (c::cs)++(writeFields delimiter fields++['\r']),by simp [writeRow]⟩
  | []::field::fields =>
    exact ⟨writeField delimiter []++(writeFields delimiter (field::fields)++['\r']),by simp [writeRow]⟩

theorem getLast_rows (rows : List (List (List Char))) :
    rows.flatMap (writeRow delimiter) = [] ∨ (rows.flatMap (writeRow delimiter)).getLast? = some '\n' := by
  rcases List.eq_nil_or_concat rows with rfl | ⟨rows,row,rfl⟩
  · exact .inl rfl
  · have hrow : ∃ s, writeRow delimiter row = s++['\n'] := getLast_writeRow row
    obtain ⟨s,hs⟩ := hrow
    right
    simp [hs]

/-- Rows with at least one field each are read back as they were written. -/
theorem read_write (hd : Proper delimiter) {rows : List (List (List Char))} (hrows : ∀ row ∈ rows, row ≠ []) :
    read delimiter (rows.flatMap (writeRow delimiter)) = some rows := by
  unfold read
  rw [run_rows hd hrows,Option.map_some,finish,if_pos (getLast_rows rows)]
  simp

end

end Csv
end Broadcaster
