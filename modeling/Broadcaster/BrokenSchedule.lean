import Broadcaster.PlannerRun

/-!
# One broken schedule among the due ones

The routes take care of stored values that cannot be run, the planner does not:
it computes every next run unguarded, before its only commit. A run serves its
well-formed schedules exactly when there is no other schedule among the due.
-/

namespace Broadcaster
namespace Scheduling

open Python ScheduleService

def WellFormed (env : Environment) (s : Schedule) : Prop :=
  Runnable env.zoneInfo s.daysOfWeek s.timesOfDay s.timezone

/-- The run returns; of every well-formed due schedule it dispatches the tasks and commits the
next run. -/
def Serves (env : Environment) (w : World) (schedules : Store Schedule) (now : Instant)
    (due : List (ℕ × Schedule)) : Prop :=
  ∃ schedules' tasks, checkSchedules env w schedules now due = .ok (schedules',tasks) ∧
    ∀ i s, (i,s) ∈ due → WellFormed env s → tasksOf i tasks = batch env w (i,s) ∧
      ∃ t, nextRunOf env s now = .ok (some t) ∧ schedules'.row i = some (s.withNextRun (some t))

section Tasks

variable {env : Environment} {w : World}

theorem scheduleId_of_mem_batch {row : ℕ × Schedule} {task : DispatchTask}
    (h : task ∈ batch env w row) : task.scheduleId = some row.1 := by
  unfold batch at h
  split at h
  · cases h
  · split at h
    · obtain ⟨groupId,_,hgroup⟩ := List.mem_filterMap.mp h
      obtain ⟨group,_,hbuilt⟩ := Option.bind_eq_some_iff.mp hgroup
      split at hbuilt
      · rw [← Option.some.inj hbuilt,scheduleId_buildDispatchTask]
      · cases hbuilt
    · cases h

theorem tasksOf_batch (row : ℕ × Schedule) : tasksOf row.1 (batch env w row) = batch env w row := by
  apply List.filter_eq_self.mpr
  intro task htask
  simp [scheduleId_of_mem_batch htask]

theorem tasksOf_batch_of_ne {i : ℕ} {row : ℕ × Schedule} (h : row.1 ≠ i) :
    tasksOf i (batch env w row) = [] := by
  apply List.filter_eq_nil_iff.mpr
  intro task htask
  simp [scheduleId_of_mem_batch htask,h]

theorem tasksOf_append (i : ℕ) (xs ys : List DispatchTask) :
    tasksOf i (xs ++ ys) = tasksOf i xs ++ tasksOf i ys := List.filter_append xs ys

theorem tasksOf_flatMap_of_notMem {i : ℕ} {due : List (ℕ × Schedule)} (h : i ∉ due.map Prod.fst) :
    tasksOf i (due.flatMap (batch env w)) = [] := by
  induction due with
  | nil => rfl
  | cons row due ih =>
    rw [List.map_cons,List.mem_cons,not_or] at h
    have hrow : tasksOf i (batch env w row) = [] := tasksOf_batch_of_ne (Ne.symm h.1)
    have hdue : tasksOf i (due.flatMap (batch env w)) = [] := ih h.2
    rw [List.flatMap_cons,tasksOf_append,hrow,hdue,List.append_nil]

/-- A due schedule is responsible for its own tasks only. -/
theorem tasksOf_flatMap {due : List (ℕ × Schedule)} (hnodup : (due.map Prod.fst).Nodup)
    {row : ℕ × Schedule} (hmem : row ∈ due) :
    tasksOf row.1 (due.flatMap (batch env w)) = batch env w row := by
  induction due with
  | nil => cases hmem
  | cons first due ih =>
    rw [List.map_cons,List.nodup_cons] at hnodup
    rw [List.flatMap_cons,tasksOf_append]
    cases hmem with
    | head => rw [tasksOf_batch,tasksOf_flatMap_of_notMem hnodup.1,List.append_nil]
    | tail _ hmem =>
      have hne : first.1 ≠ row.1 := by
        intro he
        exact hnodup.1 (he ▸ List.mem_map_of_mem hmem)
      rw [tasksOf_batch_of_ne hne,ih hnodup.2 hmem,List.nil_append]

end Tasks

/-- A run serves the well-formed schedules among the due ones if and only if all of them are. -/
theorem serves_iff_all_wellFormed {env : Environment} {w : World} {schedules : Store Schedule}
    {now : Instant} {due : List (ℕ × Schedule)} (hsel : Selects schedules now due) :
    Serves env w schedules now due ↔ ∀ row ∈ due, WellFormed env row.2 := by
  constructor
  · rintro ⟨schedules',tasks,hrun,_⟩ row hrow
    have hresult := runResult_of_checkSchedules hsel hrun
    exact exists_computeNextRunAt_iff.mp (hresult.computed row hrow)
  · intro hall
    have hcomputed : ∀ row ∈ due, ∃ t, nextRunOf env row.2 now = .ok (some t) := by
      intro row hrow
      exact exists_computeNextRunAt_iff.mpr (hall row hrow)
    obtain ⟨schedules',tasks,hrun⟩ := exists_checkSchedules (w := w) hsel hcomputed
    have hresult := runResult_of_checkSchedules hsel hrun
    refine ⟨schedules',tasks,hrun,?_⟩
    intro i s hmem _
    refine ⟨?_,?_⟩
    · rw [hresult.dispatched]
      exact tasksOf_flatMap hsel.nodup hmem
    · obtain ⟨t,ht⟩ := hcomputed (i,s) hmem
      have hstored := hresult.stored i s hmem
      rw [nextRun_of_ok ht] at hstored
      exact ⟨t,ht,hstored⟩

/-! A publisher with two schedules that are due at the first moment of year 1. -/

def utc : Environment := ⟨fun _ => .ok (Zone.fixed 0),""⟩

def publisher : World where
  user := fun _ => some ⟨false,"UTC"⟩
  ad := fun _ => some ⟨1,"title","text",[],"published"⟩
  account := fun _ => some ⟨1,"tg_user","active"⟩
  group := fun _ => some ⟨1,1,"chat","group",true,none⟩
  checkLimit := fun _ => (true,"")

def mondays (times : List String) : Schedule where
  adId := 1
  accountId := some 1
  groupIds := [1]
  daysOfWeek := .arr [.int 0]
  timesOfDay := .arr (times.map Json.str)
  timezone := "UTC"
  isActive := true
  nextRunAt := some 0

def healthyTable : Store Schedule := (Store.empty Schedule).insert (mondays ["09:00"])

def brokenTable : Store Schedule := healthyTable.insert (mondays ["25:00"])

theorem wellFormed_mondays : WellFormed utc (mondays ["09:00"]) := by
  refine ⟨⟨_,rfl⟩,⟨_,rfl,by decide⟩,⟨_,rfl,0,by decide,rfl⟩⟩

theorem serves_iff_all_wellFormed_healthy :
    Serves utc publisher healthyTable 0 (healthyTable.select (isDue 0)) := by
  refine (serves_iff_all_wellFormed (List.Perm.refl _)).mpr ?_
  intro row hrow
  have hrows : healthyTable.select (isDue 0) = [(0,mondays ["09:00"])] := by decide
  rw [hrows,List.mem_singleton] at hrow
  rw [hrow]
  exact wellFormed_mondays

/-- The broken row comes last, and still the first one is not served. -/
theorem broken_schedule_stops_the_run : Selects brokenTable 0 (brokenTable.select (isDue 0)) ∧
    (∃ row ∈ brokenTable.select (isDue 0), WellFormed utc row.2) ∧
    ¬Serves utc publisher brokenTable 0 (brokenTable.select (isDue 0)) := by
  refine ⟨List.Perm.refl _,?_,?_⟩
  · have hrows : (0,mondays ["09:00"]) ∈ brokenTable.select (isDue 0) := by decide
    exact ⟨(0,mondays ["09:00"]),hrows,wellFormed_mondays⟩
  · rintro ⟨schedules',tasks,hrun,_⟩
    have herror : checkSchedules utc publisher brokenTable 0 (brokenTable.select (isDue 0)) =
      .error .valueError := by rfl
    rw [herror] at hrun
    cases hrun

end Scheduling
end Broadcaster
