import Broadcaster.PythonValues
import Mathlib.Data.List.MinMax
import Mathlib.Tactic.NormNum

/-!
# The next run of a schedule

Moments are microseconds since the first of January of year 1, a Monday: in UTC
for an `Instant`, on the clock of the wall for the local time of a zone. `zoneInfo`
stands for the zone database. The search looks at the eight days from today on
and takes the earliest listed time that lies ahead; the theorems say that this
is the earliest slot of all.
-/

namespace Broadcaster
namespace ScheduleService

open Python

abbrev Instant := ℤ

/-- `fromUtc` is `astimezone(tz)`, `toUtc` is `astimezone(timezone.utc)` of a wall time. -/
structure Zone where
  fromUtc : Instant → ℤ
  toUtc : ℤ → Instant

def Zone.fixed (offset : ℤ) : Zone := ⟨fun t => t+offset,fun t => t-offset⟩

def dayLength : ℤ := 86400000000

def dayOf (t : ℤ) : ℤ := t/dayLength

/-- 0 is Monday. -/
def weekday (day : ℤ) : ℤ := day%7

/-- `parts = t_str.split(":")`, then `time(int(parts[0]), int(parts[1]))`. -/
def parseTime : Json → Except PyError ℤ
  | .str s =>
    match s.toList.splitOn ':' with
    | [] => .error .indexError
    | first::rest =>
      match int first with
      | none => .error .valueError
      | some hour =>
        match rest with
        | [] => .error .indexError
        | second::_ =>
          match int second with
          | none => .error .valueError
          | some minute => time hour minute
  | _ => .error .attributeError

def parseTimes (times : Json) : Except PyError (List ℤ) :=
  times.iterate >>= List.mapM parseTime

def candidates (listed : ℤ → Bool) (parsed : List ℤ) (now : ℤ) : List ℤ :=
  (List.range 8).flatMap fun (k : ℕ) =>
    let day := dayOf now+(k : ℤ)
    if listed (weekday day) then (parsed.map fun t => dayLength*day+t).filter fun c => now < c else []

def computeNextRunAt (zoneInfo : String → Except PyError Zone) (daysOfWeek timesOfDay : Json)
    (tzName : String) (now : Instant) : Except PyError (Option Instant) :=
  if !daysOfWeek.truthy || !timesOfDay.truthy then .ok none
  else do
    let tz ← zoneInfo tzName
    let parsed ← parseTimes timesOfDay
    -- the first of the eight days already raises when the days are no container
    let listed ← daysOfWeek.containsInt
    return (candidates listed parsed (tz.fromUtc now)).min?.map tz.toUtc

/-- A listed time on a listed weekday. -/
def IsSlot (listed : ℤ → Bool) (parsed : List ℤ) (t : ℤ) : Prop :=
  ∃ day time, listed (weekday day) = true ∧ time ∈ parsed ∧ t = dayLength*day+time

section Candidates

variable {listed : ℤ → Bool} {parsed : List ℤ} {now t : ℤ}

theorem mem_candidates : t ∈ candidates listed parsed now ↔
    ∃ k, k < 8 ∧ ∃ time ∈ parsed, listed (weekday (dayOf now+(k : ℕ))) = true ∧
      t = dayLength*(dayOf now+k)+time ∧ now < t := by
  simp only [candidates,List.mem_flatMap,List.mem_range]
  constructor
  · rintro ⟨k,hk,hmem⟩
    split at hmem
    · rename_i hlisted
      obtain ⟨hmap,hlt⟩ := List.mem_filter.mp hmem
      obtain ⟨time,htime,rfl⟩ := List.mem_map.mp hmap
      exact ⟨k,hk,time,htime,hlisted,rfl,by simpa using hlt⟩
    · cases hmem
  · rintro ⟨k,hk,time,htime,hlisted,rfl,hlt⟩
    refine ⟨k,hk,?_⟩
    rw [if_pos hlisted]
    exact List.mem_filter.mpr ⟨List.mem_map.mpr ⟨time,htime,rfl⟩,by simpa using hlt⟩

/-- Eight days are enough: every later slot is preceded by a candidate. -/
theorem exists_candidate_le (htimes : ∀ time ∈ parsed, 0 ≤ time ∧ time < dayLength)
    (hs : IsSlot listed parsed t) (hlt : now < t) : ∃ c ∈ candidates listed parsed now, c ≤ t := by
  obtain ⟨day,time,hlisted,htime,rfl⟩ := hs
  have hrange := htimes time htime
  have hnow : dayLength*dayOf now ≤ now ∧ now < dayLength*dayOf now+dayLength := by
    unfold dayOf dayLength
    omega
  have hday : dayOf now ≤ day := by
    unfold dayLength at *
    omega
  -- the first day from today on that has the weekday of the slot
  obtain ⟨k,hk⟩ : ∃ k : ℕ, (k : ℤ) = (day-dayOf now)%7 := by
    refine ⟨((day-dayOf now)%7).toNat,?_⟩
    omega
  have hweek : ∀ j : ℤ, j%7 = (day-dayOf now)%7 → weekday (dayOf now+j) = weekday day := by
    intro j hj
    unfold weekday
    omega
  by_cases hahead : now < dayLength*(dayOf now+k)+time
  · refine ⟨dayLength*(dayOf now+k)+time,mem_candidates.mpr ⟨k,by omega,time,htime,?_,rfl,hahead⟩,?_⟩
    · rw [hweek k (by omega)]
      exact hlisted
    · unfold dayLength at *
      omega
  · -- today's slot has passed, so the slot is at least a week away
    have hzero : (k : ℤ) = 0 := by
      unfold dayLength at *
      omega
    have hnext : now < dayLength*(dayOf now+(7 : ℕ))+time := by
      unfold dayLength at *
      omega
    refine ⟨dayLength*(dayOf now+(7 : ℕ))+time,
      mem_candidates.mpr ⟨7,by omega,time,htime,?_,rfl,hnext⟩,?_⟩
    · rw [hweek ((7 : ℕ) : ℤ) (by omega)]
      exact hlisted
    · unfold dayLength at *
      omega

theorem isSlot_of_candidate (h : t ∈ candidates listed parsed now) :
    IsSlot listed parsed t ∧ now < t := by
  obtain ⟨k,_,time,htime,hlisted,he,hlt⟩ := mem_candidates.mp h
  exact ⟨⟨dayOf now+k,time,hlisted,htime,he⟩,hlt⟩

theorem min_candidates (htimes : ∀ time ∈ parsed, 0 ≤ time ∧ time < dayLength)
    (h : (candidates listed parsed now).min? = some t) :
    IsSlot listed parsed t ∧ now < t ∧ ∀ u, IsSlot listed parsed u → now < u → t ≤ u := by
  have hmem := List.min?_mem h
  have hslot := isSlot_of_candidate hmem
  refine ⟨hslot.1,hslot.2,?_⟩
  intro u hu hlt
  obtain ⟨c,hc,hcu⟩ := exists_candidate_le htimes hu hlt
  have hle : t ≤ c := (List.le_min?_iff h).mp (le_refl t) c hc
  exact le_trans hle hcu

theorem no_slot_of_min_none (htimes : ∀ time ∈ parsed, 0 ≤ time ∧ time < dayLength)
    (h : (candidates listed parsed now).min? = none) : ¬∃ u, IsSlot listed parsed u ∧ now < u := by
  rintro ⟨u,hu,hlt⟩
  obtain ⟨c,hc,_⟩ := exists_candidate_le htimes hu hlt
  rw [List.min?_eq_none_iff.mp h] at hc
  cases hc

theorem exists_min_candidates (htimes : ∀ time ∈ parsed, 0 ≤ time ∧ time < dayLength)
    {day : ℤ} (hday : 0 ≤ day ∧ day < 7) (hlisted : listed day = true) (hne : parsed ≠ []) (now : ℤ) :
    ∃ t, (candidates listed parsed now).min? = some t := by
  cases hmin : (candidates listed parsed now).min? with
  | some t => exact ⟨t,rfl⟩
  | none =>
    have hno := no_slot_of_min_none htimes hmin
    obtain ⟨time,htime⟩ := List.exists_mem_of_ne_nil parsed hne
    have hrange := htimes time htime
    -- that weekday in the week after the current one
    have hweek : weekday (7*(dayOf now/7+1)+day) = day := by
      unfold weekday
      omega
    have hslot : IsSlot listed parsed (dayLength*(7*(dayOf now/7+1)+day)+time) :=
      ⟨_,time,by rw [hweek]; exact hlisted,htime,rfl⟩
    have hlt : now < dayLength*(7*(dayOf now/7+1)+day)+time := by
      unfold dayOf dayLength at *
      omega
    exact absurd ⟨_,hslot,hlt⟩ hno

end Candidates

theorem time_range {hour minute t : ℤ} (h : time hour minute = .ok t) : 0 ≤ t ∧ t < dayLength := by
  unfold time at h
  split at h
  · cases h
  · split at h
    · have he := Except.ok.inj h
      unfold minuteMicros at he
      unfold dayLength
      omega
    · cases h

theorem parseTime_range {v : Json} {t : ℤ} (h : parseTime v = .ok t) : 0 ≤ t ∧ t < dayLength := by
  unfold parseTime at h
  split at h
  · split at h
    · cases h
    · split at h
      · cases h
      · split at h
        · cases h
        · split at h
          · cases h
          · exact time_range h
  · cases h

theorem parseTimes_range {times : Json} {parsed : List ℤ} (h : parseTimes times = .ok parsed) :
    ∀ time ∈ parsed, 0 ≤ time ∧ time < dayLength := by
  unfold parseTimes at h
  cases hit : times.iterate with
  | error e => rw [hit] at h; cases h
  | ok vs =>
    rw [hit] at h
    intro time htime
    obtain ⟨v,_,hv⟩ := (mem_of_mapM_ok h).mp htime
    exact parseTime_range hv

/-- `t` is a slot of the stored days, times and zone. -/
def IsRunOf (zoneInfo : String → Except PyError Zone) (daysOfWeek timesOfDay : Json) (tzName : String)
    (t : Instant) : Prop :=
  ∃ tz listed parsed wall, zoneInfo tzName = .ok tz ∧ daysOfWeek.containsInt = .ok listed ∧
    parseTimes timesOfDay = .ok parsed ∧ IsSlot listed parsed wall ∧ t = tz.toUtc wall

/-- The stored values determine a next run, whatever the clock says. -/
structure Runnable (zoneInfo : String → Except PyError Zone) (daysOfWeek timesOfDay : Json)
    (tzName : String) : Prop where
  zone : ∃ tz, zoneInfo tzName = .ok tz
  times : ∃ parsed, parseTimes timesOfDay = .ok parsed ∧ parsed ≠ []
  days : ∃ listed, daysOfWeek.containsInt = .ok listed ∧ ∃ day, (0 ≤ day ∧ day < 7) ∧ listed day = true

section Compute

variable {zoneInfo : String → Except PyError Zone} {days times : Json} {tzName : String} {now : Instant}

theorem computeNextRunAt_of_values {tz : Zone} {listed : ℤ → Bool} {parsed : List ℤ}
    (hz : zoneInfo tzName = .ok tz) (hd : days.containsInt = .ok listed)
    (hp : parseTimes times = .ok parsed) (hdays : days.truthy = true) (htimes : times.truthy = true) :
    computeNextRunAt zoneInfo days times tzName now =
      .ok ((candidates listed parsed (tz.fromUtc now)).min?.map tz.toUtc) := by
  simp only [computeNextRunAt,hdays,htimes,hz,hd,hp]
  rfl

theorem computeNextRunAt_eq_some {t : Instant}
    (h : computeNextRunAt zoneInfo days times tzName now = .ok (some t)) :
    ∃ tz listed parsed wall, zoneInfo tzName = .ok tz ∧ days.containsInt = .ok listed ∧
      parseTimes times = .ok parsed ∧ (candidates listed parsed (tz.fromUtc now)).min? = some wall ∧
      t = tz.toUtc wall := by
  unfold computeNextRunAt at h
  split at h
  · cases h
  · cases hz : zoneInfo tzName with
    | error e => rw [hz] at h; cases h
    | ok tz =>
      cases hp : parseTimes times with
      | error e => rw [hz,hp] at h; cases h
      | ok parsed =>
        cases hd : days.containsInt with
        | error e => rw [hz,hp,hd] at h; cases h
        | ok listed =>
          rw [hz,hp,hd] at h
          have he := Except.ok.inj h
          obtain ⟨wall,hmin,hwall⟩ := Option.map_eq_some_iff.mp he
          exact ⟨tz,listed,parsed,wall,rfl,rfl,rfl,hmin,hwall.symm⟩

theorem isRunOf_computeNextRunAt {t : Instant}
    (h : computeNextRunAt zoneInfo days times tzName now = .ok (some t)) :
    IsRunOf zoneInfo days times tzName t := by
  obtain ⟨tz,listed,parsed,wall,hz,hd,hp,hmin,ht⟩ := computeNextRunAt_eq_some h
  have hslot := (min_candidates (parseTimes_range hp) hmin).1
  exact ⟨tz,listed,parsed,wall,hz,hd,hp,hslot,ht⟩

theorem truthy_of_parseTimes {parsed : List ℤ} (h : parseTimes times = .ok parsed) (hne : parsed ≠ []) :
    times.truthy = true := by
  by_contra hfalse
  have hempty : times.iterate = .ok [] ∨ ∃ e, times.iterate = .error e := by
    cases times <;> simp_all [Json.truthy,Json.iterate]
  rcases hempty with he | ⟨e,he⟩
  · simp only [parseTimes,he] at h
    exact hne (Except.ok.inj h).symm
  · simp only [parseTimes,he] at h
    cases h

theorem truthy_of_containsInt {listed : ℤ → Bool} {day : ℤ} (h : days.containsInt = .ok listed)
    (hday : listed day = true) : days.truthy = true := by
  cases days with
  | arr xs =>
    have he : (fun n => xs.any (Json.equalsInt n)) = listed := Except.ok.inj h
    rw [← he] at hday
    cases xs with
    | nil => cases hday
    | cons x xs => rfl
  | obj fields =>
    have he : (fun _ => false) = listed := Except.ok.inj h
    rw [← he] at hday
    cases hday
  | _ => cases h

/-- The stored values alone decide whether there is a next run. -/
theorem exists_computeNextRunAt_iff : (∃ t, computeNextRunAt zoneInfo days times tzName now = .ok (some t)) ↔
    Runnable zoneInfo days times tzName := by
  constructor
  · rintro ⟨t,h⟩
    obtain ⟨tz,listed,parsed,wall,hz,hd,hp,hmin,_⟩ := computeNextRunAt_eq_some h
    obtain ⟨⟨day,time,hlisted,htime,_⟩,_⟩ := min_candidates (parseTimes_range hp) hmin
    have hday : 0 ≤ weekday day ∧ weekday day < 7 := by
      unfold weekday
      omega
    exact ⟨⟨tz,hz⟩,⟨parsed,hp,List.ne_nil_of_mem htime⟩,⟨listed,hd,weekday day,hday,hlisted⟩⟩
  · rintro ⟨⟨tz,hz⟩,⟨parsed,hp,hne⟩,⟨listed,hd,day,hday,hlisted⟩⟩
    obtain ⟨wall,hmin⟩ := exists_min_candidates (parseTimes_range hp) hday hlisted hne (tz.fromUtc now)
    refine ⟨tz.toUtc wall,?_⟩
    rw [computeNextRunAt_of_values hz hd hp (truthy_of_containsInt hd hlisted)
      (truthy_of_parseTimes hp hne),hmin]
    rfl

end Compute

/-- What is ahead on the clock of the zone at `now` is ahead in UTC: `now` is in no hour that the clock shows
for the second time. -/
def Zone.ForwardAt (tz : Zone) (now : Instant) : Prop := ∀ wall, tz.fromUtc now < wall → now < tz.toUtc wall

theorem forwardAt_fixed (offset : ℤ) (now : Instant) : (Zone.fixed offset).ForwardAt now := by
  intro wall h
  have hlt : now+offset < wall := h
  have hsub : now < wall-offset := lt_sub_iff_add_lt.mpr hlt
  exact hsub

theorem lt_computeNextRunAt {zoneInfo : String → Except PyError Zone} {days times : Json}
    {tzName : String} {now t : Instant} (hforward : ∀ tz, zoneInfo tzName = .ok tz → tz.ForwardAt now)
    (h : computeNextRunAt zoneInfo days times tzName now = .ok (some t)) : now < t := by
  obtain ⟨tz,listed,parsed,wall,hz,_,hp,hmin,ht⟩ := computeNextRunAt_eq_some h
  have hlt := (min_candidates (parseTimes_range hp) hmin).2.1
  rw [ht]
  exact hforward tz hz wall hlt

end ScheduleService
end Broadcaster
