import Broadcaster.CalendarMonths
import Broadcaster.SubscriptionPeriod

/-!
# What one paid month amounts to

The new expiry of a subscription is the same day of the month after the later of
its expiry and today, at the same time of the day, or the last day of a shorter
month.
-/

namespace Broadcaster
namespace SubscriptionPeriod

open Calendar

def days (n : ℕ) : ℕ := dayMicros*n

theorem micros_le_of_ordinal_lt {a b : DateTime} (h : a.date.ordinal < b.date.ordinal) :
    a.micros ≤ b.micros := by
  have hlt := a.timeOfDay_lt
  unfold DateTime.micros dayMicros at *
  omega

theorem ordinal_le_of_micros_le {a b : DateTime} (h : a.micros ≤ b.micros) :
    a.date.ordinal ≤ b.date.ordinal := by
  have ha := a.timeOfDay_lt
  have hb := b.timeOfDay_lt
  unfold DateTime.micros dayMicros at *
  omega

theorem micros_le_iff {a b : DateTime} (h : a.date = b.date) : a.micros ≤ b.micros ↔ a.timeOfDay ≤ b.timeOfDay := by
  unfold DateTime.micros
  rw [h]
  exact Nat.add_le_add_iff_left

theorem addOneMonth_eq_some {base expiry : DateTime} : addOneMonth base = some expiry ↔
    ∃ d, base.date.nextMonth = some d ∧ expiry = { base with date := d } := by
  unfold addOneMonth DateTime.nextMonth
  rw [Option.map_eq_some_iff]
  simp only [eq_comm]

/-- The base is today or the current expiry, whichever is later. -/
theorem countdownBase_cases (current : Option DateTime) (now : DateTime) :
    (countdownBase current now = normalizeUtc now ∧ ∀ c ∈ current, c.micros ≤ now.micros) ∨
      ∃ c ∈ current, countdownBase current now = normalizeUtc c ∧ now.micros < c.micros := by
  unfold countdownBase
  cases current with
  | none => exact .inl ⟨rfl,fun c hc => by cases hc⟩
  | some c =>
    have hmicros : ∀ t : DateTime, (normalizeUtc t).micros = t.micros := fun _ => rfl
    simp only [hmicros]
    by_cases hle : c.micros ≤ now.micros
    · refine .inl ⟨if_pos hle,fun c' hc' => ?_⟩
      rw [← Option.some.inj hc']
      exact hle
    · exact .inr ⟨c,rfl,if_neg hle,Nat.lt_of_not_le hle⟩

theorem micros_le_countdownBase (current : Option DateTime) (now : DateTime) :
    now.micros ≤ (countdownBase current now).micros ∧
      ∀ c ∈ current, c.micros ≤ (countdownBase current now).micros := by
  rcases countdownBase_cases current now with ⟨hbase,hle⟩ | ⟨c,hc,hbase,hlt⟩
  · rw [hbase]
    exact ⟨Nat.le_refl _,hle⟩
  · rw [hbase]
    refine ⟨hlt.le,fun c' hc' => ?_⟩
    rw [Option.some.inj (hc'.symm.trans hc)]
    exact Nat.le_refl _

theorem year_month_of_monthIndex {d e : Date} (h : e.monthIndex = d.monthIndex+1) :
    e.year = d.year + (if d.month = 12 then 1 else 0) ∧ e.month = d.month%12+1 := by
  have h₁ := d.month_pos
  have h₂ := d.month_le
  have h₃ := e.month_pos
  have h₄ := e.month_le
  unfold Date.monthIndex at h
  split <;> omega

theorem micros_bounds (base : DateTime) {d : Date} {least most : ℕ} (hleast : base.date.ordinal+least ≤ d.ordinal)
    (hmost : d.ordinal ≤ base.date.ordinal+most) :
    base.micros+days least ≤ ({ base with date := d } : DateTime).micros ∧
      ({ base with date := d } : DateTime).micros ≤ base.micros+days most := by
  unfold DateTime.micros days dayMicros
  simp only
  omega

/-- A month is paid for: the new expiry exists, it has the time of day of the base and lies in the month after
it, and it is 28 to 31 days later. -/
theorem paid_month (current : Option DateTime) (now : DateTime) (hnow : now.date.year < maxYear)
    (hcurrent : ∀ c ∈ current, c.date.year < maxYear) :
    ∃ expiry, nextExpiry current now = some expiry ∧
      let base := countdownBase current now
      (base = normalizeUtc now ∨ ∃ c ∈ current, base = normalizeUtc c) ∧
      now.micros ≤ base.micros ∧ (∀ c ∈ current, c.micros ≤ base.micros) ∧
      expiry.timeOfDay = base.timeOfDay ∧
      expiry.date.year = base.date.year + (if base.date.month = 12 then 1 else 0) ∧
      expiry.date.month = base.date.month%12+1 ∧
      expiry.date.day = min base.date.day (monthLength expiry.date.year expiry.date.month) ∧
      base.micros+days 28 ≤ expiry.micros ∧ expiry.micros ≤ base.micros+days 31 ∧
      now.micros < expiry.micros ∧ ∀ c ∈ current, c.micros+days 28 ≤ expiry.micros := by
  have hbase : countdownBase current now = normalizeUtc now ∨
      ∃ c ∈ current, countdownBase current now = normalizeUtc c := by
    rcases countdownBase_cases current now with ⟨h,_⟩ | ⟨c,hc,h,_⟩
    · exact .inl h
    · exact .inr ⟨c,hc,h⟩
  have hyear : (countdownBase current now).date.year < maxYear := by
    rcases hbase with h | ⟨c,hc,h⟩
    · rw [h]
      exact hnow
    · rw [h]
      exact hcurrent c hc
  obtain ⟨hlate,hlater⟩ := micros_le_countdownBase current now
  unfold nextExpiry
  generalize countdownBase current now = base at *
  have hroom : base.date.monthIndex < 12*maxYear+11 := by
    have hmonth := base.date.month_le
    unfold Date.monthIndex
    omega
  obtain ⟨d,hd⟩ := exists_nextMonth_iff.mpr hroom
  obtain ⟨hindex,hday⟩ := nextMonth_eq_some hd
  obtain ⟨hshort,hlong⟩ := nextMonth_bounds hd
  rw [d.monthDays_eq] at hday
  obtain ⟨hyears,hmonths⟩ := year_month_of_monthIndex hindex
  obtain ⟨h28,h31⟩ := micros_bounds base hshort hlong
  have hpos : 0 < days 28 := by decide
  refine ⟨_,addOneMonth_eq_some.mpr ⟨d,hd,rfl⟩,hbase,hlate,hlater,rfl,hyears,hmonths,hday,h28,h31,
    by omega,fun c hc => ?_⟩
  exact (Nat.add_le_add_right (hlater c hc) _).trans h28

def lateJanuary : DateTime :=
  ⟨⟨2025,1,31,by decide,by decide,by decide,by decide,by decide,by decide⟩,hourMicros,true,by decide⟩

def eveningBefore : DateTime :=
  ⟨⟨2025,1,30,by decide,by decide,by decide,by decide,by decide,by decide⟩,23*hourMicros,false,by decide⟩

theorem paid_month_lateJanuary : ∃ expiry, nextExpiry (some eveningBefore) lateJanuary = some expiry ∧
    expiry.date.day = 28 ∧ lateJanuary.micros < expiry.micros := by
  obtain ⟨expiry,hexpiry,_,_,_,_,_,_,hday,_,_,hlater,_⟩ :=
    paid_month (some eveningBefore) lateJanuary (by decide) (by decide)
  refine ⟨expiry,hexpiry,?_,hlater⟩
  have hconcrete : (nextExpiry (some eveningBefore) lateJanuary).map (fun t => t.date.day) = some 28 := by decide
  rw [hexpiry] at hconcrete
  exact Option.some.inj hconcrete

/-- Two days of one month that the next month does not have, the earlier one with the later time. -/
def CutOff (a b : DateTime) : Prop :=
  a.date.monthIndex = b.date.monthIndex ∧ monthDays (a.date.monthIndex+1) ≤ a.date.day ∧
    a.date.day < b.date.day ∧ b.timeOfDay < a.timeOfDay

instance (a b : DateTime) : Decidable (CutOff a b) := inferInstanceAs (Decidable (_ ∧ _))

/-- With a later base the month still exists, it ends on no earlier day, and unless both days are cut off to
the same one it ends no earlier. -/
theorem addOneMonth_mono {a b b' : DateTime} (hab : a.micros ≤ b.micros) (hb : addOneMonth b = some b') :
    ∃ a', addOneMonth a = some a' ∧ a'.date.ordinal ≤ b'.date.ordinal ∧
      (a'.micros ≤ b'.micros ↔ ¬ CutOff a b) := by
  obtain ⟨e,he,rfl⟩ := addOneMonth_eq_some.mp hb
  have hdays := ordinal_le_of_micros_le hab
  have hroom : a.date.monthIndex < 12*maxYear+11 :=
    (monthIndex_le_of_ordinal_le hdays).trans_lt (exists_nextMonth_iff.mp ⟨e,he⟩)
  obtain ⟨d,hd⟩ := exists_nextMonth_iff.mpr hroom
  refine ⟨_,addOneMonth_eq_some.mpr ⟨d,hd,rfl⟩,nextMonth_mono hdays hd he,?_⟩
  rcases (nextMonth_mono hdays hd he).lt_or_eq with hlt | hsame
  · -- different days
    refine iff_of_true (micros_le_of_ordinal_lt hlt) ?_
    rintro ⟨hindex,hcut,hday,_⟩
    have hboth := (nextMonth_eq_iff hd he).mpr (.inr ⟨hindex,hcut,hcut.trans hday.le⟩)
    rw [hboth] at hlt
    exact absurd hlt (Nat.lt_irrefl _)
  · have hdate := date_eq_of_ordinal_eq hsame
    rw [micros_le_iff hdate]
    rcases (nextMonth_eq_iff hd he).mp hdate with hequal | ⟨hindex,hcut,_⟩
    · refine iff_of_true ((micros_le_iff hequal).mp hab) ?_
      rintro ⟨_,_,hday,_⟩
      rw [hequal] at hday
      exact absurd hday (Nat.lt_irrefl _)
    · constructor
      · rintro htime ⟨_,_,_,hlater⟩
        exact absurd htime (Nat.not_le.mpr hlater)
      · intro hcutOff
        by_contra htime
        have hday : a.date.day ≤ b.date.day := (ordinal_le_iff hindex).mp hdays
        refine hcutOff ⟨hindex,hcut,hday.lt_of_ne fun hequal => ?_,Nat.lt_of_not_le htime⟩
        exact htime ((micros_le_iff (date_eq_of_monthIndex hindex hequal)).mp hab)

def NoEarlier (c₁ c₂ : Option DateTime) : Prop := ∀ t₁ ∈ c₁, ∃ t₂ ∈ c₂, t₁.micros ≤ t₂.micros

theorem countdownBase_mono {c₁ c₂ : Option DateTime} {n₁ n₂ : DateTime} (hc : NoEarlier c₁ c₂)
    (hn : n₁.micros ≤ n₂.micros) : (countdownBase c₁ n₁).micros ≤ (countdownBase c₂ n₂).micros := by
  obtain ⟨hnow,hcurrent⟩ := micros_le_countdownBase c₂ n₂
  rcases countdownBase_cases c₁ n₁ with ⟨hbase,_⟩ | ⟨t₁,ht₁,hbase,_⟩
  · rw [hbase]
    exact hn.trans hnow
  · obtain ⟨t₂,ht₂,hle⟩ := hc t₁ ht₁
    rw [hbase]
    exact hle.trans (hcurrent t₂ ht₂)

/-- Paying later, or with more unused time, gives an expiry on no earlier day; it is no earlier at all exactly
unless both bases are cut off to the last day of the same month and the earlier one has the later time. -/
theorem later_base (c₁ c₂ : Option DateTime) (n₁ n₂ e₂ : DateTime) (hc : NoEarlier c₁ c₂)
    (hn : n₁.micros ≤ n₂.micros) (he : nextExpiry c₂ n₂ = some e₂) :
    ∃ e₁, nextExpiry c₁ n₁ = some e₁ ∧ e₁.date.ordinal ≤ e₂.date.ordinal ∧
      (e₁.micros ≤ e₂.micros ↔ ¬ CutOff (countdownBase c₁ n₁) (countdownBase c₂ n₂)) :=
  addOneMonth_mono (countdownBase_mono hc hn) he

def inFebruary : DateTime :=
  ⟨⟨2025,2,10,by decide,by decide,by decide,by decide,by decide,by decide⟩,0,false,by decide⟩

/-- Paid on the evening of January the 30th without an expiry, and on the 31st with one in February. -/
theorem later_base_lateJanuary : ∃ e₁ e₂, nextExpiry none eveningBefore = some e₁ ∧
    nextExpiry (some inFebruary) lateJanuary = some e₂ ∧ e₁.micros ≤ e₂.micros ∧ e₁ ≠ e₂ := by
  obtain ⟨e₂,he₂⟩ := Option.isSome_iff_exists.mp (by decide : (nextExpiry (some inFebruary) lateJanuary).isSome)
  obtain ⟨e₁,he₁,_,hle⟩ := later_base none (some inFebruary) eveningBefore lateJanuary e₂
    (fun t ht => by cases ht) (by decide) he₂
  refine ⟨e₁,e₂,he₁,he₂,hle.mpr (by decide),?_⟩
  rintro rfl
  have hne : nextExpiry none eveningBefore ≠ nextExpiry (some inFebruary) lateJanuary := by decide
  exact hne (he₁.trans he₂.symm)

/-- Paid on the evening of January the 30th the month ends later than paid on the 31st. -/
theorem later_base_earlier_expiry : ¬ ∀ (c₁ c₂ : Option DateTime) (n₁ n₂ : DateTime),
    NoEarlier c₁ c₂ → n₁.micros ≤ n₂.micros → ∀ e₁ e₂, nextExpiry c₁ n₁ = some e₁ →
    nextExpiry c₂ n₂ = some e₂ → e₁.micros ≤ e₂.micros := by
  intro hall
  have hcurrent : NoEarlier (some eveningBefore) (some eveningBefore) :=
    fun t ht => ⟨t,ht,Nat.le_refl _⟩
  have hearlier : (nextExpiry (some eveningBefore) eveningBefore).any (fun e₁ =>
      (nextExpiry (some eveningBefore) lateJanuary).any fun e₂ => e₂.micros < e₁.micros) = true := by decide
  simp only [Option.any_eq_true,decide_eq_true_eq] at hearlier
  obtain ⟨e₁,he₁,e₂,he₂,hlt⟩ := hearlier
  have hle := hall (some eveningBefore) (some eveningBefore) eveningBefore lateJanuary hcurrent
    (by decide) e₁ e₂ he₁ he₂
  exact absurd hlt (Nat.not_lt.mpr hle)

end SubscriptionPeriod
end Broadcaster
