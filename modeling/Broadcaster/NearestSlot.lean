import Broadcaster.TimeSpelling

/-!
# The nearest slot

What `compute_next_run_at` returns, told on the clock of the zone: the first
moment after `now` at which the local weekday and the local time are listed.
-/

namespace Broadcaster
namespace NearestSlot

open Python ScheduleService ScheduleRules

def hourMicros : ℤ := 60*minuteMicros

/-- `%H` of a local time -/
def hourOf (wall : ℤ) : ℕ := (wall%dayLength/hourMicros).toNat

/-- `%M` of a local time -/
def minuteOf (wall : ℤ) : ℕ := (wall%hourMicros/minuteMicros).toNat

def IsListed (days : List ℤ) (times : List String) (wall : ℤ) : Prop :=
  weekday (dayOf wall) ∈ days ∧ timeText (hourOf wall) (minuteOf wall) ∈ times ∧ wall%minuteMicros = 0

/-- The offset from UTC is the same on the eight days after `now`, whether it is read for a moment or for a
local time. -/
structure Steady (tz : Zone) (now offset : ℤ) : Prop where
  fromUtc : ∀ u : ℤ, now ≤ u → u ≤ now+8*dayLength → tz.fromUtc u = u+offset
  toUtc : ∀ wall, now+offset ≤ wall → wall ≤ now+offset+8*dayLength → tz.toUtc wall = wall-offset

theorem steady_fixed (now offset : ℤ) : Steady (Zone.fixed offset) now offset :=
  ⟨fun _ _ _ => rfl,fun _ _ _ => rfl⟩

section Clock

variable {wall : ℤ} {hour minute : ℕ}

theorem clock_of_slot (day : ℤ) (hh : hour < 24) (hm : minute < 60) :
    dayOf (dayLength*day+minuteMicros*(60*hour+minute)) = day ∧
      hourOf (dayLength*day+minuteMicros*(60*hour+minute)) = hour ∧
      minuteOf (dayLength*day+minuteMicros*(60*hour+minute)) = minute ∧
      (dayLength*day+minuteMicros*(60*hour+minute))%minuteMicros = 0 := by
  unfold dayOf hourOf minuteOf hourMicros dayLength minuteMicros
  refine ⟨?_,?_,?_,?_⟩ <;> omega

theorem slot_of_clock (hs : wall%minuteMicros = 0) : hourOf wall < 24 ∧ minuteOf wall < 60 ∧
    wall = dayLength*dayOf wall+minuteMicros*(60*(hourOf wall : ℤ)+(minuteOf wall : ℤ)) := by
  unfold dayOf hourOf minuteOf hourMicros dayLength minuteMicros at *
  refine ⟨?_,?_,?_⟩ <;> omega

end Clock

theorem containsInt_ofInts (days : List ℤ) : ∃ listed, (Json.ofInts days).containsInt = .ok listed ∧
    ∀ n, listed n = true ↔ n ∈ days := by
  refine ⟨_,rfl,?_⟩
  intro n
  simp [Json.equalsInt]

theorem parseTimes_ofStrings {times : List String} (h : ∀ s ∈ times, Canonical s) :
    ∃ parsed, parseTimes (.ofStrings times) = .ok parsed ∧ (times ≠ [] → parsed ≠ []) ∧
      ∀ t, t ∈ parsed ↔ ∃ hour minute : ℕ, hour < 24 ∧ minute < 60 ∧ timeText hour minute ∈ times ∧
        t = minuteMicros*(60*hour+minute) := by
  obtain ⟨parsed,hparsed⟩ : ∃ parsed, (times.map Json.str).mapM parseTime = .ok parsed := by
    refine exists_mapM_ok fun v hv => ?_
    obtain ⟨s,hs,rfl⟩ := List.mem_map.mp hv
    obtain ⟨hour,minute,hh,hm,rfl⟩ := h s hs
    exact ⟨_,parseTime_timeText hh hm⟩
  refine ⟨parsed,hparsed,?_,?_⟩
  · rintro hne rfl
    have hlength := (mapM_eq_ok.mp hparsed).length_eq
    rw [List.length_map] at hlength
    exact hne (List.length_eq_zero_iff.mp hlength)
  · intro t
    rw [mem_of_mapM_ok hparsed]
    constructor
    · rintro ⟨v,hv,ht⟩
      obtain ⟨s,hs,rfl⟩ := List.mem_map.mp hv
      obtain ⟨hour,minute,hh,hm,rfl⟩ := h s hs
      rw [parseTime_timeText hh hm] at ht
      exact ⟨hour,minute,hh,hm,hs,(Except.ok.inj ht).symm⟩
    · rintro ⟨hour,minute,hh,hm,hs,rfl⟩
      exact ⟨_,List.mem_map_of_mem hs,parseTime_timeText hh hm⟩

/-- The slots of the search are the listed moments. -/
theorem isSlot_iff {days : List ℤ} {times : List String} {listed : ℤ → Bool} {parsed : List ℤ} {wall : ℤ}
    (hlisted : ∀ n, listed n = true ↔ n ∈ days)
    (hparsed : ∀ t, t ∈ parsed ↔ ∃ hour minute : ℕ, hour < 24 ∧ minute < 60 ∧ timeText hour minute ∈ times ∧
      t = minuteMicros*(60*hour+minute)) :
    IsSlot listed parsed wall ↔ IsListed days times wall := by
  constructor
  · rintro ⟨day,time,hday,htime,rfl⟩
    obtain ⟨hour,minute,hh,hm,hs,rfl⟩ := (hparsed time).mp htime
    obtain ⟨hdayOf,hhour,hminute,hzero⟩ := clock_of_slot day hh hm
    rw [IsListed,hdayOf,hhour,hminute]
    exact ⟨(hlisted _).mp hday,hs,hzero⟩
  · rintro ⟨hday,hs,hzero⟩
    obtain ⟨hh,hm,he⟩ := slot_of_clock hzero
    exact ⟨dayOf wall,_,(hlisted _).mpr hday,(hparsed _).mpr ⟨_,_,hh,hm,hs,rfl⟩,he⟩

theorem candidate_lt {listed : ℤ → Bool} {parsed : List ℤ} {now t : ℤ}
    (hrange : ∀ time ∈ parsed, 0 ≤ time ∧ time < dayLength) (h : t ∈ candidates listed parsed now) :
    t < now+8*dayLength := by
  obtain ⟨k,hk,time,htime,_,he,_⟩ := mem_candidates.mp h
  have htime := (hrange time htime).2
  unfold dayOf dayLength at *
  omega

/-- The search finds the nearest slot: a listed moment after `now`, and none is listed in between. -/
theorem nearest_slot {zoneInfo : String → Except PyError Zone} {tzName : String} {tz : Zone} {now offset : ℤ}
    {days : List ℤ} {times : List String} (hzone : zoneInfo tzName = .ok tz)
    (hsteady : Steady tz now offset) (hdays : days ≠ []) (hweek : ∀ day ∈ days, 0 ≤ day ∧ day ≤ 6)
    (htimes : times ≠ []) (hcanonical : ∀ s ∈ times, Canonical s) :
    ∃ t : ℤ, computeNextRunAt zoneInfo (.ofInts days) (.ofStrings times) tzName now = .ok (some t) ∧ now < t ∧
      IsListed days times (tz.fromUtc t) ∧
      ∀ u : ℤ, now < u → u < t → ¬ IsListed days times (tz.fromUtc u) := by
  obtain ⟨listed,hlisted,hmem⟩ := containsInt_ofInts days
  obtain ⟨parsed,hparsed,hne,htime⟩ := parseTimes_ofStrings hcanonical
  have hrange := parseTimes_range hparsed
  have hlocal : tz.fromUtc now = now+offset := hsteady.fromUtc now (le_refl _) (by unfold dayLength; omega)
  obtain ⟨day,hday⟩ := List.exists_mem_of_ne_nil days hdays
  have hbound := hweek day hday
  obtain ⟨wall,hmin⟩ := exists_min_candidates hrange ⟨hbound.1,by omega⟩ ((hmem day).mpr hday) (hne htimes)
    (now+offset)
  obtain ⟨hslot,hlt,hleast⟩ := min_candidates hrange hmin
  have hnear := candidate_lt hrange (List.min?_mem hmin)
  have hutc : tz.toUtc wall = wall-offset := hsteady.toUtc wall (le_of_lt hlt) (le_of_lt hnear)
  have hback : tz.fromUtc (wall-offset) = wall := by
    rw [hsteady.fromUtc (wall-offset) (by omega) (by omega)]
    omega
  refine ⟨wall-offset,?_,by omega,?_,?_⟩
  · have htruthy : (Json.ofInts days).truthy = true := truthy_of_containsInt hlisted ((hmem day).mpr hday)
    rw [computeNextRunAt_of_values hzone hlisted hparsed htruthy (truthy_of_parseTimes hparsed (hne htimes)),
      hlocal,hmin,Option.map_some,hutc]
  · rw [hback]
    exact (isSlot_iff hmem htime).mp hslot
  · intro u hu hut hlistedAt
    rw [hsteady.fromUtc u (le_of_lt hu) (by omega)] at hlistedAt
    have hle := hleast (u+offset) ((isSlot_iff hmem htime).mpr hlistedAt) (by omega)
    omega

/-- Monday at nine exactly, in a zone three hours ahead, with nine on Monday as the only slot. -/
theorem nearest_slot_sameTime :
    ∃ t, computeNextRunAt (fun _ => .ok (.fixed 10800000000)) (.ofInts [0,0]) (.ofStrings ["09:00","09:00"])
      "Europe/Moscow" 21600000000 = .ok (some t) ∧ 21600000000 < t ∧
      IsListed [0,0] ["09:00","09:00"] ((Zone.fixed 10800000000).fromUtc t) ∧
      ∀ u, 21600000000 < u → u < t → ¬ IsListed [0,0] ["09:00","09:00"] ((Zone.fixed 10800000000).fromUtc u) :=
  nearest_slot rfl (steady_fixed _ _) (by decide) (by decide) (by decide) fun s hs => by
    have he : s = "09:00" := by simpa using hs
    rw [he]
    exact ⟨9,0,by decide,by decide,by decide⟩

end NearestSlot
end Broadcaster
