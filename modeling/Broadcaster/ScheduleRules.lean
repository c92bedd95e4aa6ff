import Broadcaster.Models

/-!
# Rules for schedules

The rules that the JSON routes and the pages share. Values that pass the checks
are within the domain of the computation, which then cannot raise.
-/

namespace Broadcaster
namespace ScheduleRules

open Python ScheduleService

def validTimezones : List String :=
  ["Europe/Kaliningrad","Europe/Moscow","Europe/Samara","Asia/Yekaterinburg","Asia/Novosibirsk",
   "Asia/Krasnoyarsk","Asia/Irkutsk","Asia/Yakutsk","Asia/Vladivostok","Asia/Magadan",
   "Asia/Kamchatka","UTC"]

def dayOfWeekMin : ℤ := 0

def dayOfWeekMax : ℤ := 6

def isValidDayOfWeek : Json → Bool
  | .int n => dayOfWeekMin ≤ n && n ≤ dayOfWeekMax
  | _ => false

/-- `\d` matches the digits of every script. -/
def isDigit (c : Char) : Bool := (decimal c).isSome

def matchesHour (a b : Char) : Bool :=
  (['0','1'].contains a && isDigit b) || (a == '2' && ['0','1','2','3'].contains b)

def matchesMinute (a b : Char) : Bool := ['0','1','2','3','4','5'].contains a && isDigit b

/-- `TIME_OF_DAY_RE`; `$` also matches before a final line break. -/
def matchesTimeOfDay : List Char → Bool
  | [a,b,':',c,d] => matchesHour a b && matchesMinute c d
  | [a,b,':',c,d,'\n'] => matchesHour a b && matchesMinute c d
  | _ => false

def isValidTimeOfDay : Json → Bool
  | .str s => matchesTimeOfDay s.toList
  | _ => false

/-- `bool(account_id and group_ids and days_of_week and times_of_day)` -/
def isScheduleComplete (accountId : Option ℕ) (groupIds : List ℤ) (daysOfWeek timesOfDay : Json) :
    Bool :=
  accountId.any (· ≠ 0) && !groupIds.isEmpty && daysOfWeek.truthy && timesOfDay.truthy

/-- The members of `group_ids` that are groups of the user and of the account. -/
def ownedGroupIds (groups : Store Group) (userId : ℕ) (accountId : Option ℕ) (groupIds : List ℤ) :
    List ℤ :=
  match accountId with
  | none => []
  | some accountId =>
    groupIds.filter fun g =>
      (groups.find g).any fun group => group.userId = userId && group.accountId = accountId

def unrunnableStoredValueErrors : List PyError :=
  [.valueError,.typeError,.indexError,.attributeError,.zoneInfoNotFoundError]

def orEmpty (value : Json) : Json := if value.truthy then value else .arr []

def nextRunOrNone (zoneInfo : String → Except PyError Zone) (s : Schedule) (now : Instant) :
    Except PyError (Option Instant) :=
  match computeNextRunAt zoneInfo (orEmpty s.daysOfWeek) (orEmpty s.timesOfDay) s.timezone now with
  | .ok t => .ok t
  | .error e => if unrunnableStoredValueErrors.contains e then .ok none else .error e

def profileTimezoneOrUtc (userTimezone : String) : String :=
  if validTimezones.contains userTimezone then userTimezone else "UTC"

theorem nextRunOrNone_eq_some {zoneInfo : String → Except PyError Zone} {s : Schedule}
    {now t : Instant} (h : nextRunOrNone zoneInfo s now = .ok (some t)) :
    computeNextRunAt zoneInfo s.daysOfWeek s.timesOfDay s.timezone now = .ok (some t) := by
  unfold nextRunOrNone at h
  cases hc : computeNextRunAt zoneInfo (orEmpty s.daysOfWeek) (orEmpty s.timesOfDay) s.timezone now with
  | error e =>
    rw [hc] at h
    simp only at h
    split at h <;> cases h
  | ok r =>
    rw [hc] at h
    have he : r = some t := Except.ok.inj h
    rw [he] at hc
    -- an empty list in the place of a false value gives no moment
    cases hd : s.daysOfWeek.truthy with
    | false =>
      have hnil : orEmpty s.daysOfWeek = .arr [] := by simp [orEmpty,hd]
      rw [hnil] at hc
      cases hc
    | true =>
      have hdays : orEmpty s.daysOfWeek = s.daysOfWeek := by simp [orEmpty,hd]
      cases ht : s.timesOfDay.truthy with
      | false =>
        have hnil : orEmpty s.timesOfDay = .arr [] := by simp [orEmpty,ht]
        rw [hdays,hnil] at hc
        simp [computeNextRunAt,Json.truthy] at hc
      | true =>
        have htimes : orEmpty s.timesOfDay = s.timesOfDay := by simp [orEmpty,ht]
        rw [hdays,htimes] at hc
        exact hc

theorem decimal_le_of_mem {cs : List Char} {c : Char} {k : ℕ}
    (hall : (cs.all fun c => (decimal c).any fun n => n ≤ k) = true) (h : c ∈ cs) :
    ∃ n, decimal c = some n ∧ n ≤ k := by
  obtain ⟨n,hn,hle⟩ := (Option.any_eq_true ..).mp (List.all_eq_true.mp hall c h)
  exact ⟨n,hn,of_decide_eq_true hle⟩

theorem matchesHour_value {a b : Char} (h : matchesHour a b = true) :
    ∃ m n, decimal a = some m ∧ decimal b = some n ∧ 10*m+n ≤ 23 := by
  simp only [matchesHour,Bool.or_eq_true,Bool.and_eq_true,List.contains_iff_mem] at h
  rcases h with ⟨ha,hb⟩ | ⟨ha,hb⟩
  · obtain ⟨n,hn⟩ := Option.isSome_iff_exists.mp hb
    have hlt := decimal_lt hn
    obtain ⟨m,hm,hle⟩ : ∃ m, decimal a = some m ∧ m ≤ 1 := decimal_le_of_mem (by decide) ha
    exact ⟨m,n,hm,hn,by omega⟩
  · obtain ⟨n,hn,hle⟩ : ∃ n, decimal b = some n ∧ n ≤ 3 := decimal_le_of_mem (by decide) hb
    have htwo : decimal a = some 2 := by
      have he : a = '2' := by simpa using ha
      rw [he]
      decide
    exact ⟨2,n,htwo,hn,by omega⟩

theorem matchesMinute_value {a b : Char} (h : matchesMinute a b = true) :
    ∃ m n, decimal a = some m ∧ decimal b = some n ∧ 10*m+n ≤ 59 := by
  simp only [matchesMinute,Bool.and_eq_true,List.contains_iff_mem] at h
  obtain ⟨m,hm,hle⟩ : ∃ m, decimal a = some m ∧ m ≤ 5 := decimal_le_of_mem (by decide) h.1
  obtain ⟨n,hn⟩ := Option.isSome_iff_exists.mp h.2
  have hlt := decimal_lt hn
  exact ⟨m,n,hm,hn,by omega⟩

theorem ne_colon_of_decimal {c : Char} {n : ℕ} (h : decimal c = some n) : c ≠ ':' := by
  intro he
  have hnone : decimal ':' = none := by decide
  rw [he,hnone] at h
  cases h

theorem time_ok {hour minute : ℕ} (hh : hour ≤ 23) (hm : minute ≤ 59) :
    time hour minute = .ok (minuteMicros*(60*hour+minute)) := by
  unfold time cIntMax
  rw [if_neg (by omega),if_pos (by omega)]

theorem splitOn_time {a b : Char} {rest : List Char} (ha : a ≠ ':') (hb : b ≠ ':')
    (hrest : ':' ∉ rest) : (a::b:: ':'::rest).splitOn ':' = [[a,b],rest] := by
  have hhour : ':' ∉ [a,b] := by simp [Ne.symm ha,Ne.symm hb]
  have hsplit := List.splitOn_append_cons_self_of_not_mem hhour rest
  rw [List.splitOn_eq_singleton hrest] at hsplit
  exact hsplit

theorem parseTime_digits {s : String} {a b : Char} {minutes : List Char} {c d : Char} {m n k l : ℕ}
    (hs : s.toList = a::b:: ':'::minutes) (hstrip : stripChars intSpaces minutes = [c,d])
    (hcolon : ':' ∉ minutes) (ha : decimal a = some m) (hb : decimal b = some n) (hc : decimal c = some k)
    (hd : decimal d = some l) (hhour : 10*m+n ≤ 23) (hminute : 10*k+l ≤ 59) :
    parseTime (.str s) = .ok (minuteMicros*(60*(10*m+n : ℕ)+(10*k+l : ℕ))) := by
  have hsplit : s.toList.splitOn ':' = [[a,b],minutes] := by
    rw [hs]
    exact splitOn_time (ne_colon_of_decimal ha) (ne_colon_of_decimal hb) hcolon
  have hstripHour : stripChars intSpaces [a,b] = [a,b] :=
    stripChars_two (not_space_of_decimal ha) (not_space_of_decimal hb)
  simp only [parseTime,hsplit,int_two_digits hstripHour ha hb,int_two_digits hstrip hc hd]
  exact time_ok hhour hminute

theorem strip_minutes {c d : Char} {tail : List Char} {k l : ℕ} (hc : decimal c = some k)
    (hd : decimal d = some l) (htail : tail = [] ∨ tail = ['\n']) :
    stripChars intSpaces (c::d::tail) = [c,d] ∧ ':' ∉ c::d::tail := by
  have hcolon := Ne.symm (ne_colon_of_decimal hc)
  have hcolon' := Ne.symm (ne_colon_of_decimal hd)
  rcases htail with rfl | rfl
  · exact ⟨stripChars_two (not_space_of_decimal hc) (not_space_of_decimal hd),by simp [hcolon,hcolon']⟩
  · refine ⟨stripChars_two_space (not_space_of_decimal hc) (not_space_of_decimal hd) (by decide),?_⟩
    simp [hcolon,hcolon']

/-- The strings that the expression matches. -/
theorem matchesTimeOfDay_iff {cs : List Char} : matchesTimeOfDay cs = true ↔ ∃ a b c d tail,
    cs = a::b:: ':'::c::d::tail ∧ (tail = [] ∨ tail = ['\n']) ∧ matchesHour a b = true ∧
      matchesMinute c d = true := by
  constructor
  · intro h
    unfold matchesTimeOfDay at h
    split at h
    · rename_i a b c d
      rw [Bool.and_eq_true] at h
      exact ⟨a,b,c,d,[],rfl,.inl rfl,h.1,h.2⟩
    · rename_i a b c d
      rw [Bool.and_eq_true] at h
      exact ⟨a,b,c,d,['\n'],rfl,.inr rfl,h.1,h.2⟩
    · cases h
  · rintro ⟨a,b,c,d,tail,rfl,rfl | rfl,hhour,hminute⟩
    · simp [matchesTimeOfDay,hhour,hminute]
    · simp [matchesTimeOfDay,hhour,hminute]

end ScheduleRules
end Broadcaster
