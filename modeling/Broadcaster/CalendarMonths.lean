import Broadcaster.Calendar
import Mathlib.Algebra.BigOperators.Group.List.Basic
import Mathlib.Order.Basic

/-!
# Months in the order of time

The months are numbered through from the first one of year 0 on. A month starts
where the one before it ends, so dates are ordered as their months are, and
within a month as their days are.
-/

namespace Broadcaster
namespace Calendar

def Date.monthIndex (d : Date) : ℕ := 12*d.year+(d.month-1)

def monthStart (n : ℕ) : ℕ := daysBeforeYear (n/12) + daysBeforeMonth (n/12) (n%12+1)

def monthDays (n : ℕ) : ℕ := monthLength (n/12) (n%12+1)

theorem monthLength_le (year month : ℕ) : monthLength year month ≤ 31 := by
  unfold monthLength
  split
  · split <;> omega
  all_goals omega

theorem daysBeforeMonth_succ (year : ℕ) {month : ℕ} (h : 1 ≤ month) :
    daysBeforeMonth year (month+1) = daysBeforeMonth year month + monthLength year month := by
  obtain ⟨m,rfl⟩ : ∃ m, month = m+1 := ⟨month-1,by omega⟩
  unfold daysBeforeMonth
  rw [Nat.add_sub_cancel,Nat.add_sub_cancel,List.range_succ,List.map_append,List.sum_append]
  simp

theorem daysBeforeMonth_thirteen (year : ℕ) :
    daysBeforeMonth year 13 = if isLeap year then 366 else 365 := by
  have hall : ∀ b, monthLength year 2 = b → daysBeforeMonth year 13 = 337+b := by
    rintro b rfl
    simp [daysBeforeMonth,List.range_succ,monthLength]
    omega
  rw [hall _ rfl]
  unfold monthLength
  simp only
  split <;> rfl

theorem daysBeforeYear_succ {year : ℕ} (h : 1 ≤ year) :
    daysBeforeYear (year+1) = daysBeforeYear year + daysBeforeMonth year 13 := by
  obtain ⟨y,rfl⟩ : ∃ y, year = y+1 := ⟨year-1,by omega⟩
  have hstep : ∀ k, (y+1)/(k+1) = y/(k+1) + if (y+1)%(k+1) = 0 then 1 else 0 := by
    intro k
    rw [Nat.succ_div]
    simp only [Nat.dvd_iff_mod_eq_zero]
  have h4 : (y+1)%100 = 0 → (y+1)%4 = 0 := by omega
  have h100 : (y+1)%400 = 0 → (y+1)%100 = 0 := by omega
  have hle : y/100 ≤ y/4 := by omega
  rw [daysBeforeMonth_thirteen]
  unfold daysBeforeYear isLeap
  rw [Nat.add_sub_cancel,Nat.add_sub_cancel,hstep 3,hstep 99,hstep 399]
  generalize y/(3+1) = quarters at *
  by_cases hq : (y+1)%4 = 0
  · by_cases hc : (y+1)%100 = 0
    · by_cases hf : (y+1)%400 = 0
      · simp [hq,hc,hf]
        omega
      · simp [hq,hc,hf]
        omega
    · have hf : (y+1)%400 ≠ 0 := fun hf => hc (h100 hf)
      simp [hq,hc,hf]
      omega
  · have hc : (y+1)%100 ≠ 0 := fun hc => hq (h4 hc)
    have hf : (y+1)%400 ≠ 0 := fun hf => hc (h100 hf)
    simp [hq,hc,hf]
    omega

theorem monthStart_succ {n : ℕ} (h : 12 ≤ n) : monthStart (n+1) = monthStart n + monthDays n := by
  unfold monthStart monthDays
  by_cases hlast : n%12 = 11
  · -- December: the next month is the first of the next year
    have hyear : (n+1)/12 = n/12+1 := by omega
    have hmonth : (n+1)%12 = 0 := by omega
    have hdecember : daysBeforeMonth (n/12) 13 = daysBeforeMonth (n/12) (11+1) + monthLength (n/12) (11+1) :=
      daysBeforeMonth_succ (n/12) (Nat.le_add_left 1 11)
    have hjanuary : daysBeforeMonth (n/12+1) (0+1) = 0 := rfl
    rw [hyear,hmonth,hlast,daysBeforeYear_succ (by omega),hdecember,hjanuary]
    exact (Nat.add_assoc _ _ _).symm
  · have hyear : (n+1)/12 = n/12 := by omega
    have hmonth : (n+1)%12 = n%12+1 := by omega
    rw [hyear,hmonth,daysBeforeMonth_succ _ (by omega),Nat.add_assoc]

theorem monthStart_mono {m n : ℕ} (h : 12 ≤ m) (hmn : m ≤ n) : monthStart m ≤ monthStart n := by
  induction n, hmn using Nat.le_induction with
  | base => exact Nat.le_refl _
  | succ n hmn ih =>
    rw [monthStart_succ (h.trans hmn)]
    exact Nat.le_add_right_of_le ih

variable {d e : Date}

theorem Date.monthIndex_ge (d : Date) : 12 ≤ d.monthIndex := by
  have hyear := d.year_pos
  unfold monthIndex
  omega

theorem Date.year_eq (d : Date) : d.monthIndex/12 = d.year := by
  have hpos := d.month_pos
  have hle := d.month_le
  unfold monthIndex
  omega

theorem Date.month_eq (d : Date) : d.monthIndex%12+1 = d.month := by
  have hpos := d.month_pos
  have hle := d.month_le
  unfold monthIndex
  omega

theorem Date.monthDays_eq (d : Date) : monthDays d.monthIndex = monthLength d.year d.month := by
  rw [monthDays,d.year_eq,d.month_eq]

theorem Date.ordinal_eq (d : Date) : d.ordinal = monthStart d.monthIndex + d.day := by
  rw [ordinal,monthStart,d.year_eq,d.month_eq]

theorem Date.day_le_monthDays (d : Date) : d.day ≤ monthDays d.monthIndex := by
  rw [d.monthDays_eq]
  exact d.day_le

theorem ordinal_lt_of_monthIndex_lt (h : d.monthIndex < e.monthIndex) : d.ordinal < e.ordinal := by
  rw [d.ordinal_eq,e.ordinal_eq]
  calc monthStart d.monthIndex + d.day
    _ ≤ monthStart d.monthIndex + monthDays d.monthIndex := Nat.add_le_add_left d.day_le_monthDays _
    _ = monthStart (d.monthIndex+1) := (monthStart_succ d.monthIndex_ge).symm
    _ ≤ monthStart e.monthIndex := monthStart_mono (Nat.le_succ_of_le d.monthIndex_ge) h
    _ < monthStart e.monthIndex + e.day := Nat.lt_add_of_pos_right e.day_pos

theorem ordinal_le_iff (h : d.monthIndex = e.monthIndex) : d.ordinal ≤ e.ordinal ↔ d.day ≤ e.day := by
  rw [d.ordinal_eq,e.ordinal_eq,h]
  exact Nat.add_le_add_iff_left

theorem monthIndex_le_of_ordinal_le (h : d.ordinal ≤ e.ordinal) : d.monthIndex ≤ e.monthIndex := by
  by_contra hlt
  exact absurd h (Nat.not_le.mpr (ordinal_lt_of_monthIndex_lt (Nat.lt_of_not_le hlt)))

theorem date_eq_of_monthIndex (h : d.monthIndex = e.monthIndex) (hday : d.day = e.day) : d = e := by
  have hyear : d.year = e.year := by rw [← d.year_eq,h,e.year_eq]
  have hmonth : d.month = e.month := by rw [← d.month_eq,h,e.month_eq]
  cases d
  cases e
  cases hyear
  cases hmonth
  cases hday
  rfl

theorem date_eq_of_ordinal_eq (h : d.ordinal = e.ordinal) : d = e := by
  have hmonth : d.monthIndex = e.monthIndex :=
    le_antisymm (monthIndex_le_of_ordinal_le h.le) (monthIndex_le_of_ordinal_le h.ge)
  have hday : d.day = e.day :=
    le_antisymm ((ordinal_le_iff hmonth).mp h.le) ((ordinal_le_iff hmonth.symm).mp h.ge)
  exact date_eq_of_monthIndex hmonth hday

theorem exists_nextMonth_iff : (∃ e, d.nextMonth = some e) ↔ d.monthIndex < 12*maxYear+11 := by
  have hpos := d.month_pos
  have hmonth := d.month_le
  have hyear := d.year_le
  have hroom : d.year + (if d.month = 12 then 1 else 0) ≤ maxYear ↔ d.monthIndex < 12*maxYear+11 := by
    unfold Date.monthIndex
    split <;> omega
  unfold Date.nextMonth
  simp only
  rw [← hroom]
  constructor
  · rintro ⟨e,he⟩
    by_contra hlast
    rw [dif_neg hlast] at he
    cases he
  · intro h
    exact ⟨_,dif_pos h⟩

theorem nextMonth_eq_some (h : d.nextMonth = some e) :
    e.monthIndex = d.monthIndex+1 ∧ e.day = min d.day (monthDays e.monthIndex) := by
  have hpos := d.month_pos
  have hle := d.month_le
  unfold Date.nextMonth at h
  by_cases hyear : d.year + (if d.month = 12 then 1 else 0) ≤ maxYear
  · simp only [dif_pos hyear] at h
    have he := Option.some.inj h
    have hday : e.day = min d.day (monthLength e.year e.month) := by rw [← he]
    rw [e.monthDays_eq]
    have hmonth : e.month = d.month%12+1 := by rw [← he]
    have hyear : e.year = d.year + (if d.month = 12 then 1 else 0) := by rw [← he]
    refine ⟨?_,hday⟩
    unfold Date.monthIndex
    rw [hmonth,hyear]
    split <;> omega
  · simp only [dif_neg hyear] at h
    cases h

/-- The next date is as many days later as the month has, less the days that are cut off. -/
theorem ordinal_nextMonth (h : d.nextMonth = some e) :
    e.ordinal + d.day = d.ordinal + monthDays d.monthIndex + e.day := by
  rw [e.ordinal_eq,d.ordinal_eq,(nextMonth_eq_some h).1,monthStart_succ d.monthIndex_ge]
  omega

theorem nextMonth_bounds (h : d.nextMonth = some e) : d.ordinal+28 ≤ e.ordinal ∧ e.ordinal ≤ d.ordinal+31 := by
  have hord := ordinal_nextMonth h
  have hday := (nextMonth_eq_some h).2
  have hcut := d.day_le_monthDays
  have hlong : monthDays d.monthIndex ≤ 31 := monthLength_le _ _
  have hshort : 28 ≤ monthDays d.monthIndex := monthLength_pos _ _
  have hnext : 28 ≤ monthDays e.monthIndex := monthLength_pos _ _
  omega

theorem nextMonth_mono {d' e' : Date} (hde : d.ordinal ≤ e.ordinal) (hd : d.nextMonth = some d')
    (he : e.nextMonth = some e') : d'.ordinal ≤ e'.ordinal := by
  obtain ⟨hdm,hdd⟩ := nextMonth_eq_some hd
  obtain ⟨hem,hed⟩ := nextMonth_eq_some he
  rcases (monthIndex_le_of_ordinal_le hde).lt_or_eq with hlt | hsame
  · exact (ordinal_lt_of_monthIndex_lt (by omega)).le
  · have hmonth : d'.monthIndex = e'.monthIndex := by rw [hdm,hem,hsame]
    rw [ordinal_le_iff hmonth,hdd,hed,hmonth]
    exact min_le_min_right _ ((ordinal_le_iff hsame).mp hde)

/-- Two dates are followed by the same one when they are equal, or when both are cut off to the last day of
the month after theirs. -/
theorem nextMonth_eq_iff {d' e' : Date} (hd : d.nextMonth = some d') (he : e.nextMonth = some e') :
    d' = e' ↔ d = e ∨ d.monthIndex = e.monthIndex ∧ monthDays (d.monthIndex+1) ≤ d.day ∧
      monthDays (d.monthIndex+1) ≤ e.day := by
  obtain ⟨hdm,hdd⟩ := nextMonth_eq_some hd
  obtain ⟨hem,hed⟩ := nextMonth_eq_some he
  rw [hdm] at hdd
  rw [hem] at hed
  constructor
  · rintro rfl
    have hsame : d.monthIndex = e.monthIndex := by omega
    rw [← hsame] at hed
    by_cases hday : d.day = e.day
    · exact .inl (date_eq_of_monthIndex hsame hday)
    · exact .inr ⟨hsame,by omega,by omega⟩
  · rintro (rfl | ⟨hsame,hcut,hcut'⟩)
    · exact Option.some.inj (hd.symm.trans he)
    · refine date_eq_of_monthIndex (by omega) ?_
      rw [← hsame] at hed
      omega

end Calendar
end Broadcaster
