import Mathlib.Data.Nat.Notation
import Mathlib.Tactic.NormNum

/-!
# The proleptic Gregorian calendar of `datetime`

Dates carry the range checks of the `datetime` constructor as fields, so a date
outside the calendar cannot be built. Moments are compared by the microseconds
since the start of year 1. An aware moment is one in UTC: the database returns
no other.
-/

namespace Broadcaster
namespace Calendar

def maxYear : ℕ := 9999

def isLeap (year : ℕ) : Bool :=
  year % 4 == 0 && (year % 100 != 0 || year % 400 == 0)

/-- `calendar.monthrange(year, month)[1]` -/
def monthLength (year month : ℕ) : ℕ :=
  match month with
  | 2 => if isLeap year then 29 else 28
  | 4 | 6 | 9 | 11 => 30
  | _ => 31

theorem monthLength_pos (year month : ℕ) : 28 ≤ monthLength year month := by
  unfold monthLength
  split
  · split <;> omega
  all_goals omega

structure Date where
  year : ℕ
  month : ℕ
  day : ℕ
  year_pos : 1 ≤ year
  year_le : year ≤ maxYear
  month_pos : 1 ≤ month
  month_le : month ≤ 12
  day_pos : 1 ≤ day
  day_le : day ≤ monthLength year month
  deriving DecidableEq

def daysBeforeYear (year : ℕ) : ℕ :=
  (year-1)*365 + (year-1)/4 - (year-1)/100 + (year-1)/400

def daysBeforeMonth (year month : ℕ) : ℕ :=
  ((List.range (month-1)).map fun m => monthLength year (m+1)).sum

/-- `date.toordinal`: the first of January of year 1 is day 1. -/
def Date.ordinal (d : Date) : ℕ :=
  daysBeforeYear d.year + daysBeforeMonth d.year d.month + d.day

def dayMicros : ℕ := 86400000000

def hourMicros : ℕ := 3600000000

structure DateTime where
  date : Date
  /-- microseconds since midnight -/
  timeOfDay : ℕ
  aware : Bool
  timeOfDay_lt : timeOfDay < dayMicros
  deriving DecidableEq

def DateTime.micros (t : DateTime) : ℕ := dayMicros * t.date.ordinal + t.timeOfDay

/-- The same day of the next month, or the last day of a shorter one; `none` after year 9999. -/
def Date.nextMonth (d : Date) : Option Date :=
  let year := d.year + (if d.month = 12 then 1 else 0)
  let month := d.month % 12 + 1
  if h : year ≤ maxYear then
    some
      { year := year
        month := month
        day := min d.day (monthLength year month)
        year_pos := Nat.le_add_right_of_le d.year_pos
        year_le := h
        month_pos := Nat.le_add_left 1 _
        month_le := Nat.mod_lt _ (by omega)
        day_pos := le_min d.day_pos ((by omega : 1 ≤ 28).trans (monthLength_pos _ _))
        day_le := min_le_right _ _ }
  else none

/-- `value.replace(year=..., month=..., day=...)` keeps the time of day and the zone. -/
def DateTime.nextMonth (t : DateTime) : Option DateTime :=
  t.date.nextMonth.map fun d => { t with date := d }

end Calendar
end Broadcaster
