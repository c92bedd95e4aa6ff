import Broadcaster.SchedulePages
import Mathlib.Tactic.IntervalCases

/-!
# The spellings of a time of day

`TIME_OF_DAY_RE` is meant to leave one spelling for each time: two digits, a
colon, two digits. It accepts a digit of any script in the second and in the
fifth place, and a line break at the end.
-/

namespace Broadcaster
namespace ScheduleRules

open Python ScheduleService ScheduleRoutes SchedulePages

def twoDigits (n : ℕ) : List Char := [Nat.digitChar (n/10),Nat.digitChar (n%10)]

def timeText (hour minute : ℕ) : String := String.ofList (twoDigits hour ++ ':'::twoDigits minute)

/-- Five ASCII characters that spell a time of the day. -/
def Canonical (s : String) : Prop := ∃ hour minute, hour < 24 ∧ minute < 60 ∧ s = timeText hour minute

/-- A time that is written with a digit of another script, or with a line break behind it. -/
def OtherSpelling (s : String) : Prop :=
  ∃ a b c d tail, s.toList = a::b:: ':'::c::d::tail ∧ (tail = [] ∨ tail = ['\n']) ∧
    matchesHour a b = true ∧ matchesMinute c d = true ∧
    (b.isDigit = false ∨ d.isDigit = false ∨ tail = ['\n'])

variable {a b c d : Char} {k l m n : ℕ}

theorem decimal_digitChar (h : n < 10) : decimal (Nat.digitChar n) = some n := by
  have hall : ∀ i ∈ List.range 10, decimal (Nat.digitChar i) = some i := by decide
  exact hall n (List.mem_range.mpr h)

theorem isDigit_digitChar (h : n < 10) : (Nat.digitChar n).isDigit = true := by
  have hall : ∀ i ∈ List.range 10, (Nat.digitChar i).isDigit = true := by decide
  exact hall n (List.mem_range.mpr h)

theorem exists_digitChar (h : c.isDigit = true) : ∃ i, i < 10 ∧ c = Nat.digitChar i := by
  have hrange : 48 ≤ c.toNat ∧ c.toNat ≤ 57 := by
    simp only [Char.isDigit,Bool.and_eq_true,decide_eq_true_eq] at h
    exact ⟨h.1,h.2⟩
  have hall : ∀ i ∈ List.range 10, Char.ofNat (48+i) = Nat.digitChar i := by decide
  have hc := hall (c.toNat-48) (List.mem_range.mpr (by omega))
  rw [Nat.add_sub_cancel' hrange.1,Char.ofNat_toNat] at hc
  exact ⟨c.toNat-48,by omega,hc⟩

theorem eq_digitChar (h : c.isDigit = true) (hc : decimal c = some n) : c = Nat.digitChar n := by
  obtain ⟨i,hi,rfl⟩ := exists_digitChar h
  rw [decimal_digitChar hi] at hc
  rw [Option.some.inj hc]

theorem isDigit_of_mem {cs : List Char} (hall : cs.all Char.isDigit = true) (h : cs.contains c = true) :
    c.isDigit = true :=
  List.all_eq_true.mp hall c (List.contains_iff_mem.mp h)

theorem isDigit_hour (h : matchesHour a b = true) : a.isDigit = true := by
  simp only [matchesHour,Bool.or_eq_true,Bool.and_eq_true] at h
  rcases h with ⟨ha,_⟩ | ⟨ha,_⟩
  · exact isDigit_of_mem (by decide) ha
  · rw [eq_of_beq ha]
    decide

theorem isDigit_minute (h : matchesMinute c d = true) : c.isDigit = true := by
  rw [matchesMinute,Bool.and_eq_true] at h
  exact isDigit_of_mem (by decide) h.1

theorem twoDigits_digits (hn : n < 10) : twoDigits (10*m+n) = [Nat.digitChar m,Nat.digitChar n] := by
  have hdiv : (10*m+n)/10 = m := by omega
  have hmod : (10*m+n)%10 = n := by omega
  rw [twoDigits,hdiv,hmod]

theorem matchesHour_twoDigits {hour : ℕ} (h : hour < 24) :
    matchesHour (Nat.digitChar (hour/10)) (Nat.digitChar (hour%10)) = true := by
  interval_cases hour <;> decide

theorem matchesMinute_twoDigits {minute : ℕ} (h : minute < 60) :
    matchesMinute (Nat.digitChar (minute/10)) (Nat.digitChar (minute%10)) = true := by
  interval_cases minute <;> decide

theorem toList_timeText (hour minute : ℕ) : (timeText hour minute).toList =
    Nat.digitChar (hour/10)::Nat.digitChar (hour%10):: ':'::Nat.digitChar (minute/10)::
      Nat.digitChar (minute%10)::[] := by
  rw [timeText,String.toList_ofList]
  rfl

theorem parseTime_timeText {hour minute : ℕ} (hh : hour < 24) (hm : minute < 60) :
    parseTime (.str (timeText hour minute)) = .ok (minuteMicros*(60*hour+minute)) := by
  have hc : decimal (Nat.digitChar (minute/10)) = some (minute/10) := decimal_digitChar (by omega)
  have hd : decimal (Nat.digitChar (minute%10)) = some (minute%10) := decimal_digitChar (by omega)
  obtain ⟨hstrip,hcolon⟩ := strip_minutes hc hd (.inl rfl)
  have hparse := parseTime_digits (toList_timeText hour minute) hstrip hcolon
    (decimal_digitChar (by omega)) (decimal_digitChar (by omega)) hc hd (by omega) (by omega)
  rw [hparse,Nat.div_add_mod hour 10,Nat.div_add_mod minute 10]

theorem valid_of_canonical {s : String} (h : Canonical s) : isValidTimeOfDay (.str s) = true := by
  obtain ⟨hour,minute,hh,hm,rfl⟩ := h
  exact matchesTimeOfDay_iff.mpr ⟨_,_,_,_,[],toList_timeText hour minute,.inl rfl,
    matchesHour_twoDigits hh,matchesMinute_twoDigits hm⟩

theorem not_otherSpelling_of_canonical {s : String} (h : Canonical s) : ¬ OtherSpelling s := by
  obtain ⟨hour,minute,hh,hm,rfl⟩ := h
  rintro ⟨a,b,c,d,tail,hs,_,_,_,hother⟩
  rw [toList_timeText] at hs
  injection hs with _ hs
  injection hs with hb hs
  injection hs with _ hs
  injection hs with _ hs
  injection hs with hd htail
  rcases hother with hfalse | hfalse | hbreak
  · rw [← hb,isDigit_digitChar (by omega)] at hfalse
    cases hfalse
  · rw [← hd,isDigit_digitChar (by omega)] at hfalse
    cases hfalse
  · rw [hbreak] at htail
    cases htail

theorem canonical_or_otherSpelling {s : String} (h : isValidTimeOfDay (.str s) = true) :
    Canonical s ∨ OtherSpelling s := by
  obtain ⟨a,b,c,d,tail,hs,htail,hhour,hminute⟩ := matchesTimeOfDay_iff.mp h
  by_cases hb : b.isDigit = true
  · by_cases hd : d.isDigit = true
    · rcases htail with rfl | rfl
      · obtain ⟨m,n,ham,hbn,hle⟩ := matchesHour_value hhour
        obtain ⟨k,l,hck,hdl,hle'⟩ := matchesMinute_value hminute
        refine .inl ⟨10*m+n,10*k+l,by omega,by omega,?_⟩
        rw [timeText,twoDigits_digits (decimal_lt hbn),
          twoDigits_digits (decimal_lt hdl),← eq_digitChar (isDigit_hour hhour) ham,
          ← eq_digitChar hb hbn,← eq_digitChar (isDigit_minute hminute) hck,← eq_digitChar hd hdl]
        exact String.toList_injective (hs.trans (String.toList_ofList).symm)
      · exact .inr ⟨a,b,c,d,_,hs,.inr rfl,hhour,hminute,.inr (.inr rfl)⟩
    · exact .inr ⟨a,b,c,d,tail,hs,htail,hhour,hminute,.inr (.inl (by simpa using hd))⟩
  · exact .inr ⟨a,b,c,d,tail,hs,htail,hhour,hminute,.inl (by simpa using hb)⟩

theorem valid_of_otherSpelling {s : String} (h : OtherSpelling s) : isValidTimeOfDay (.str s) = true := by
  obtain ⟨a,b,c,d,tail,hs,htail,hhour,hminute,_⟩ := h
  exact matchesTimeOfDay_iff.mpr ⟨a,b,c,d,tail,hs,htail,hhour,hminute⟩

/-- Among the accepted strings the canonical ones are those that are no other spelling. -/
theorem canonical_iff {s : String} (h : isValidTimeOfDay (.str s) = true) : Canonical s ↔ ¬ OtherSpelling s :=
  ⟨not_otherSpelling_of_canonical,(canonical_or_otherSpelling h).resolve_right⟩

theorem canonical_eq {s s' : String} (h : Canonical s) (h' : Canonical s')
    (htime : parseTime (.str s) = parseTime (.str s')) : s = s' := by
  obtain ⟨hour,minute,hh,hm,rfl⟩ := h
  obtain ⟨hour',minute',hh',hm',rfl⟩ := h'
  rw [parseTime_timeText hh hm,parseTime_timeText hh' hm'] at htime
  have hmicros := Except.ok.inj htime
  unfold minuteMicros at hmicros
  have hhour : hour = hour' := by omega
  have hminute : minute = minute' := by omega
  rw [hhour,hminute]

theorem exists_canonical {s : String} (h : isValidTimeOfDay (.str s) = true) :
    ∃ s', Canonical s' ∧ parseTime (.str s') = parseTime (.str s) := by
  obtain ⟨a,b,c,d,tail,hs,htail,hhour,hminute⟩ := matchesTimeOfDay_iff.mp h
  obtain ⟨m,n,ha,hb,hle⟩ := matchesHour_value hhour
  obtain ⟨k,l,hc,hd,hle'⟩ := matchesMinute_value hminute
  obtain ⟨hstrip,hcolon⟩ := strip_minutes hc hd htail
  have hh : 10*m+n < 24 := by omega
  have hm : 10*k+l < 60 := by omega
  refine ⟨timeText (10*m+n) (10*k+l),⟨_,_,hh,hm,rfl⟩,?_⟩
  rw [parseTime_timeText hh hm,parseTime_digits hs hstrip hcolon ha hb hc hd hle hle']

/-- One spelling for each time: what is accepted is canonical, no two accepted strings have one time, and what
the JSON routes and the forms store is canonical, in each case exactly unless another spelling is at hand. -/
theorem one_spelling (s : String) (times values : List String) :
    ((isValidTimeOfDay (.str s) = true ↔ Canonical s) ↔ ¬ OtherSpelling s) ∧
    (isValidTimeOfDay (.str s) = true →
      ((∀ s', Canonical s' → parseTime (.str s') = parseTime (.str s) → s' = s) ↔ ¬ OtherSpelling s)) ∧
    (∀ s', isValidTimeOfDay (.str s) = true → isValidTimeOfDay (.str s') = true → ¬ OtherSpelling s →
      ¬ OtherSpelling s' → parseTime (.str s) = parseTime (.str s') → s = s') ∧
    (validTimes times = true → ((∀ s ∈ times, Canonical s) ↔ ∀ s ∈ times, ¬ OtherSpelling s)) ∧
    ((∀ s ∈ cleanTimes values, Canonical s) ↔ ∀ value ∈ values, ¬ OtherSpelling (strip value)) := by
  refine ⟨?_,fun hs => ?_,fun s' hs hs' hone hone' htime => ?_,fun htimes => ?_,?_⟩
  · constructor
    · intro hiff hother
      exact not_otherSpelling_of_canonical (hiff.mp (valid_of_otherSpelling hother)) hother
    · intro hone
      exact ⟨fun hs => (canonical_iff hs).mpr hone,valid_of_canonical⟩
  · obtain ⟨s',hcanonical,htime⟩ := exists_canonical hs
    constructor
    · intro hall hother
      have he := hall s' hcanonical htime
      rw [he] at hcanonical
      exact not_otherSpelling_of_canonical hcanonical hother
    · intro hone s'' hcanonical' htime'
      exact canonical_eq hcanonical' ((canonical_iff hs).mpr hone) htime'
  · exact canonical_eq ((canonical_iff hs).mpr hone) ((canonical_iff hs').mpr hone') htime
  · have hvalid : ∀ s ∈ times, isValidTimeOfDay (.str s) = true := List.all_eq_true.mp htimes
    exact ⟨fun h s hs => (canonical_iff (hvalid s hs)).mp (h s hs),
      fun h s hs => (canonical_iff (hvalid s hs)).mpr (h s hs)⟩
  · constructor
    · intro h value hvalue hother
      have hmem : strip value ∈ cleanTimes values :=
        List.mem_filter.mpr ⟨List.mem_map_of_mem hvalue,valid_of_otherSpelling hother⟩
      exact not_otherSpelling_of_canonical (h _ hmem) hother
    · intro h s hs
      obtain ⟨hmem,hvalid⟩ := List.mem_filter.mp hs
      obtain ⟨value,hvalue,rfl⟩ := List.mem_map.mp hmem
      exact (canonical_iff hvalid).mpr (h value hvalue)

theorem one_spelling_nine : isValidTimeOfDay (.str "09:00") = true ∧
    ∀ s, Canonical s → parseTime (.str s) = parseTime (.str "09:00") → s = "09:00" := by
  have hcanonical : Canonical "09:00" := ⟨9,0,by decide,by decide,by decide⟩
  have hvalid := valid_of_canonical hcanonical
  exact ⟨hvalid,((one_spelling "09:00" [] []).2.1 hvalid).mpr (not_otherSpelling_of_canonical hcanonical)⟩

/-- A line break after the time is accepted. -/
theorem one_spelling_line_break : ¬ ∀ s, isValidTimeOfDay (.str s) = true ↔ Canonical s := by
  intro hall
  have hother : OtherSpelling "09:00\n" :=
    ⟨'0','9','0','0',['\n'],by decide,.inr rfl,by decide,by decide,.inr (.inr rfl)⟩
  have hcanonical := (hall "09:00\n").mp (valid_of_otherSpelling hother)
  exact not_otherSpelling_of_canonical hcanonical hother

end ScheduleRules
end Broadcaster
