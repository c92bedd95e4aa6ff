import Broadcaster.BrokenSchedule
import Broadcaster.NextAfter

/-!
# The slots of a schedule over a sequence of runs

Every branch of the loop moves `next_run_at`, so after each run it is the next
slot after that run, whether the schedule was selected or not. Slots that lie
between two runs are answered together, and a skipped one never comes back.
-/

namespace Broadcaster
namespace Scheduling

open Python ScheduleService

/-- In a zone of constant offset the computation finds the next slot. -/
theorem isNext_nextRunOf {env : Environment} {s : Schedule} {offset : ℤ} {now : Instant}
    {t : Option Instant} (hzone : env.zoneInfo s.timezone = .ok (Zone.fixed offset))
    (h : nextRunOf env s now = .ok t) : IsNext (slots env s) now t := by
  cases t with
  | some t =>
    have hslot := isRunOf_computeNextRunAt h
    obtain ⟨tz,listed,parsed,wall,hz,hd,hp,hmin,ht⟩ := computeNextRunAt_eq_some h
    rw [hzone] at hz
    have hfixed : Zone.fixed offset = tz := Except.ok.inj hz
    subst hfixed
    obtain ⟨_,hlt,hleast⟩ := min_candidates (parseTimes_range hp) hmin
    have hwall : wall = t+offset := by
      rw [ht]
      exact (sub_add_cancel wall offset).symm
    rw [hwall] at hlt hleast
    refine ⟨hslot,lt_of_add_lt_add_right hlt,?_⟩
    rintro u ⟨tz',listed',parsed',wall',hz',hd',hp',hslot',hu⟩ hnow
    have hfixed' : Zone.fixed offset = tz' := Except.ok.inj (hzone.symm.trans hz')
    have hlisted : listed = listed' := Except.ok.inj (hd.symm.trans hd')
    have hparsed : parsed = parsed' := Except.ok.inj (hp.symm.trans hp')
    subst hfixed' hlisted hparsed
    have hwall' : wall' = u+offset := by
      rw [hu]
      exact (sub_add_cancel wall' offset).symm
    rw [hwall'] at hslot'
    have hle := hleast (u+offset) hslot' (add_lt_add_left hnow offset)
    exact le_of_add_le_add_right hle
  | none =>
    -- a slot would make the stored values runnable
    rintro u ⟨tz,listed,parsed,wall,hz,hd,hp,⟨day,time,hlisted,htime,_⟩,_⟩
    have hday : 0 ≤ weekday day ∧ weekday day < 7 := by
      unfold weekday
      omega
    have hrunnable : Runnable env.zoneInfo s.daysOfWeek s.timesOfDay s.timezone :=
      ⟨⟨tz,hz⟩,⟨parsed,hp,List.ne_nil_of_mem htime⟩,⟨listed,hd,weekday day,hday,hlisted⟩⟩
    obtain ⟨v,hv⟩ := exists_computeNextRunAt_iff.mpr hrunnable
    have hnone : computeNextRunAt env.zoneInfo s.daysOfWeek s.timesOfDay s.timezone now = .ok none := h
    rw [hnone] at hv
    cases hv

/-- One completed run. The other schedules of `before` are arbitrary. -/
structure Tick (env : Environment) where
  now : Instant
  world : World
  before : Store Schedule
  due : List (ℕ × Schedule)
  after : Store Schedule
  tasks : List DispatchTask
  selects : Selects before now due
  ran : checkSchedules env world before now due = .ok (after,tasks)

theorem Tick.result {env : Environment} (tick : Tick env) :
    RunResult env tick.world tick.before tick.now tick.due tick.after tick.tasks :=
  runResult_of_checkSchedules tick.selects tick.ran

/-- Runs one after the other, between which nobody writes schedule `i`; `s` is its row before
the first of them, which comes later than `t`. -/
inductive Unedited (env : Environment) (i : ℕ) : Instant → Schedule → List (Tick env) → Prop
  | nil (t : Instant) (s : Schedule) : Unedited env i t s []
  | cons {t : Instant} {s s' : Schedule} {tick : Tick env} {ticks : List (Tick env)}
      (later : t < tick.now) (read : tick.before.row i = some s) (left : tick.after.row i = some s')
      (rest : Unedited env i tick.now s' ticks) : Unedited env i t s (tick::ticks)

/-- `s` is the schedule `s₀`, but for `next_run_at`, which is the next slot after `t`. -/
structure Armed (env : Environment) (s₀ : Schedule) (t : Instant) (s : Schedule) : Prop where
  active : s₀.isActive = true
  fixed : ∃ offset, env.zoneInfo s₀.timezone = .ok (Zone.fixed offset)
  row : s = s₀.withNextRun s.nextRunAt
  next : IsNext (slots env s₀) t s.nextRunAt

def Tick.selected {env : Environment} (tick : Tick env) (i : ℕ) : Prop := ∃ s, (i,s) ∈ tick.due

/-- A draft, a missing or inactive account, a blocked user or a closed access. -/
def Skipped (w : World) (s : Schedule) : Prop :=
  ∀ sender, senderOf w s = some sender → (userSendVerdict w sender.1.2.userId).1 = false

section Step

variable {env : Environment} {i : ℕ} {t : Instant} {s₀ s s' : Schedule} {tick : Tick env}

theorem Armed.isActive (h : Armed env s₀ t s) : s.isActive = true := by
  rw [h.row]
  exact h.active

theorem selected_iff_isDue (hread : tick.before.row i = some s) :
    tick.selected i ↔ isDue tick.now s = true := by
  constructor
  · rintro ⟨r,hmem⟩
    obtain ⟨hrow,hdue⟩ := tick.selects.mem_iff.mp hmem
    rw [hread] at hrow
    rw [Option.some.inj hrow]
    exact hdue
  · intro hdue
    exact ⟨s,tick.selects.mem_iff.mpr ⟨hread,hdue⟩⟩

theorem isDue_iff (hactive : s.isActive = true) (now : Instant) :
    isDue now s = true ↔ ∃ v, s.nextRunAt = some v ∧ v ≤ now := by
  rw [isDue,hactive,Bool.true_and,Option.any_eq_true]
  constructor
  · rintro ⟨v,hv,hle⟩
    exact ⟨v,hv,by simpa using hle⟩
  · rintro ⟨v,hv,hle⟩
    exact ⟨v,hv,by simpa using hle⟩

theorem mem_due_of_selected (hread : tick.before.row i = some s) (h : tick.selected i) :
    (i,s) ∈ tick.due := by
  have hdue := (selected_iff_isDue hread).mp h
  exact tick.selects.mem_iff.mpr ⟨hread,hdue⟩

theorem notMem_due_of_not_selected (h : ¬tick.selected i) : i ∉ tick.due.map Prod.fst := by
  intro hmem
  obtain ⟨⟨j,r⟩,hr,he⟩ := List.mem_map.mp hmem
  have hj : j = i := he
  subst hj
  exact h ⟨r,hr⟩

theorem Armed.selected_iff (h : Armed env s₀ t s) (hread : tick.before.row i = some s) :
    tick.selected i ↔ ∃ u, slots env s₀ u ∧ t < u ∧ u ≤ tick.now := by
  rw [selected_iff_isDue hread,isDue_iff h.isActive]
  exact h.next.rings_iff

/-- A run that selects the schedule moves its next run ahead of the run. -/
theorem Armed.step_of_selected (h : Armed env s₀ t s) (hread : tick.before.row i = some s)
    (hleft : tick.after.row i = some s') (hselected : tick.selected i) :
    Armed env s₀ tick.now s' ∧ ∃ v, s'.nextRunAt = some v ∧ tick.now < v := by
  have hmem := mem_due_of_selected hread hselected
  obtain ⟨v,hv⟩ := tick.result.computed (i,s) hmem
  have hstored := tick.result.stored i s hmem
  rw [hleft,nextRun_of_ok hv,h.row] at hstored
  have he : s' = s₀.withNextRun (some v) := Option.some.inj hstored
  obtain ⟨offset,hzone⟩ := h.fixed
  have hcomputed : nextRunOf env s₀ tick.now = .ok (some v) := by
    rw [h.row] at hv
    exact hv
  have hnext := isNext_nextRunOf hzone hcomputed
  rw [he]
  exact ⟨⟨h.active,h.fixed,rfl,hnext⟩,v,rfl,hnext.lt⟩

theorem Armed.step_of_not_selected (h : Armed env s₀ t s) (hle : t < tick.now)
    (hread : tick.before.row i = some s) (hleft : tick.after.row i = some s')
    (hselected : ¬tick.selected i) : Armed env s₀ tick.now s' := by
  have hsame := tick.result.untouched i (notMem_due_of_not_selected hselected)
  rw [hleft,hread] at hsame
  have he : s' = s := Option.some.inj hsame
  rw [he]
  refine ⟨h.active,h.fixed,h.row,h.next.mono (le_of_lt hle) ?_⟩
  intro v hv
  by_contra hnot
  have hdue := (isDue_iff h.isActive tick.now).mpr ⟨v,hv,not_lt.mp hnot⟩
  exact hselected ((selected_iff_isDue hread).mpr hdue)

theorem Armed.step (h : Armed env s₀ t s) (hle : t < tick.now) (hread : tick.before.row i = some s)
    (hleft : tick.after.row i = some s') : Armed env s₀ tick.now s' := by
  by_cases hselected : tick.selected i
  · exact (h.step_of_selected hread hleft hselected).1
  · exact h.step_of_not_selected hle hread hleft hselected

end Step

/-- The time of the last of some runs that started after `t`. -/
def lastRun {env : Environment} (t : Instant) (ticks : List (Tick env)) : Instant :=
  (ticks.map Tick.now).getLastD t

theorem lastRun_cons {env : Environment} (t : Instant) (tick : Tick env) (ticks : List (Tick env)) :
    lastRun t (tick::ticks) = lastRun tick.now ticks := by
  cases ticks with
  | nil => rfl
  | cons next ticks => simp [lastRun,List.getLastD]

theorem Unedited.armed {env : Environment} {i : ℕ} {t : Instant} {s₀ s : Schedule}
    {earlier later : List (Tick env)} {tick : Tick env}
    (h : Unedited env i t s (earlier ++ tick::later)) (ha : Armed env s₀ t s) :
    ∃ r r', tick.before.row i = some r ∧ tick.after.row i = some r' ∧
      Armed env s₀ (lastRun t earlier) r ∧ lastRun t earlier < tick.now ∧
      Unedited env i tick.now r' later := by
  induction earlier generalizing t s with
  | nil =>
    cases h with
    | cons hlt hread hleft hrest => exact ⟨s,_,hread,hleft,ha,hlt,hrest⟩
  | cons first earlier ih =>
    cases h with
    | cons hlt hread hleft hrest =>
      rw [lastRun_cons]
      exact ih hrest (ha.step hlt hread hleft)

theorem Unedited.due_after {env : Environment} {i : ℕ} {t : Instant} {s₀ s : Schedule}
    {ticks : List (Tick env)} (h : Unedited env i t s ticks) (ha : Armed env s₀ t s) :
    ∀ tick ∈ ticks, ∀ r v, (i,r) ∈ tick.due → r.nextRunAt = some v → t < v := by
  induction h with
  | nil => simp
  | @cons t s s' tick ticks hlt hread hleft _ ih =>
    intro other hother r v hmem hv
    cases hother with
    | head =>
      have hrow := (tick.selects.mem_iff.mp hmem).1
      rw [hread] at hrow
      have hnext := ha.next
      rw [Option.some.inj hrow,hv] at hnext
      exact hnext.lt
    | tail _ hin => exact lt_trans hlt (ih (ha.step hlt hread hleft) other hin r v hmem hv)

section Batch

variable {env : Environment} {w : World} {s : Schedule}

theorem batch_of_skipped (h : Skipped w s) (i : ℕ) : batch env w (i,s) = [] := by
  unfold batch
  cases hs : senderOf w s with
  | none => rfl
  | some sender =>
    have hrefused := h sender hs
    simp [hrefused]

theorem batch_of_not_skipped (env : Environment) (h : ¬Skipped w s) (i : ℕ) :
    ∃ sender, senderOf w s = some sender ∧ batch env w (i,s) = groupTasks env w sender i s.groupIds := by
  unfold Skipped at h
  push Not at h
  obtain ⟨sender,hs,hallowed⟩ := h
  refine ⟨sender,hs,?_⟩
  have htrue : (userSendVerdict w sender.1.2.userId).1 = true := by simpa using hallowed
  simp [batch,hs,htrue]

/-- One task for each entry that is an active group, in the order of the entries. -/
theorem groupIds_groupTasks (env : Environment) (w : World)
    (sender : (ℕ × Ad) × (ℕ × MessengerAccount)) (i : ℕ) (groupIds : List ℤ) :
    (groupTasks env w sender i groupIds).map DispatchTask.groupId =
      groupIds.filter fun g => (w.group g).any Group.isActive := by
  induction groupIds with
  | nil => rfl
  | cons g groupIds ih =>
    unfold groupTasks at ih ⊢
    cases hg : w.group g with
    | none => simp [hg,ih]
    | some group =>
      cases hactive : group.isActive with
      | true => simp [hg,hactive,ih]
      | false => simp [hg,hactive,ih]

theorem batch_withNextRun (t : Option Instant) (i : ℕ) :
    batch env w (i,s.withNextRun t) = batch env w (i,s) := rfl

end Batch

/-- What a run does for schedule `i`; `previous` is the run before it, `later` are those after. -/
structure Coalesced (env : Environment) (i : ℕ) (s : Schedule) (previous : Instant) (tick : Tick env)
    (later : List (Tick env)) : Prop where
  selected_iff : tick.selected i ↔ ∃ u, slots env s u ∧ previous < u ∧ u ≤ tick.now
  unselected : ¬tick.selected i → tasksOf i tick.tasks = []
  skipped : tick.selected i → Skipped tick.world s → tasksOf i tick.tasks = []
  oneBatch : tick.selected i → ¬Skipped tick.world s → ∃ sender,
    senderOf tick.world s = some sender ∧
      tasksOf i tick.tasks = groupTasks env tick.world sender i s.groupIds ∧
      (tasksOf i tick.tasks).map DispatchTask.groupId =
        s.groupIds.filter fun g => (tick.world.group g).any Group.isActive
  ahead : tick.selected i → ∃ r v, tick.after.row i = some r ∧ r.nextRunAt = some v ∧ tick.now < v
  neverLater : ∀ other ∈ later, ∀ r v, (i,r) ∈ other.due → r.nextRunAt = some v → tick.now < v

theorem slots_coalesce {env : Environment} {i : ℕ} {s : Schedule} {t₀ : Instant} {offset : ℤ}
    {ticks : List (Tick env)} (hactive : s.isActive = true)
    (hzone : env.zoneInfo s.timezone = .ok (Zone.fixed offset))
    (hcomputed : nextRunOf env s t₀ = .ok s.nextRunAt) (hruns : Unedited env i t₀ s ticks) :
    ∀ earlier tick later, ticks = earlier ++ tick::later →
      Coalesced env i s (lastRun t₀ earlier) tick later := by
  intro earlier tick later hsplit
  have harmed : Armed env s t₀ s := ⟨hactive,⟨offset,hzone⟩,rfl,isNext_nextRunOf hzone hcomputed⟩
  rw [hsplit] at hruns
  obtain ⟨r,r',hread,hleft,ha,hlt,hrest⟩ := hruns.armed harmed
  have hbatch : batch env tick.world (i,r) = batch env tick.world (i,s) := by
    rw [ha.row,batch_withNextRun]
  have htasks : tick.selected i → tasksOf i tick.tasks = batch env tick.world (i,s) := by
    intro hselected
    have hmem := mem_due_of_selected hread hselected
    rw [tick.result.dispatched,← hbatch]
    exact tasksOf_flatMap tick.selects.nodup hmem
  refine ⟨ha.selected_iff hread,?_,?_,?_,?_,?_⟩
  · intro hselected
    rw [tick.result.dispatched]
    exact tasksOf_flatMap_of_notMem (notMem_due_of_not_selected hselected)
  · intro hselected hskipped
    rw [htasks hselected]
    exact batch_of_skipped hskipped i
  · intro hselected hskipped
    obtain ⟨sender,hs,hb⟩ := batch_of_not_skipped env hskipped i
    refine ⟨sender,hs,?_,?_⟩
    · rw [htasks hselected]
      exact hb
    · rw [htasks hselected,hb]
      exact groupIds_groupTasks env tick.world sender i s.groupIds
  · intro hselected
    obtain ⟨_,v,hv,hnow⟩ := ha.step_of_selected hread hleft hselected
    exact ⟨r',v,hleft,hv,hnow⟩
  · exact hrest.due_after (ha.step hlt hread hleft)

def firstMonday : Instant := 32400000000

def weekly : Schedule := (mondays ["09:00"]).withNextRun (some firstMonday)

def lateOnMonday (n : ℤ) : Instant := firstMonday+3600000000+n*604800000000

def weeklyAt (n : ℤ) : Schedule := weekly.withNextRun (some (firstMonday+n*604800000000))

def onlyWeekly (n : ℤ) : Store Schedule := (Store.empty Schedule).insert (weeklyAt n)

/-- The first Monday passes without a run; the run on the second is late. -/
def secondMonday : Tick utc where
  now := lateOnMonday 1
  world := publisher
  before := onlyWeekly 0
  due := [(0,weeklyAt 0)]
  after := (onlyWeekly 0).update 0 fun _ => weeklyAt 2
  tasks := batch utc publisher (0,weeklyAt 0)
  selects := by decide
  ran := by rfl

/-- The third Monday passes too. -/
def fourthMonday : Tick utc where
  now := lateOnMonday 3
  world := publisher
  before := onlyWeekly 2
  due := [(0,weeklyAt 2)]
  after := (onlyWeekly 2).update 0 fun _ => weeklyAt 4
  tasks := batch utc publisher (0,weeklyAt 2)
  selects := by decide
  ran := by rfl

/-- Two runs, each of which answers two slots. -/
theorem slots_coalesce_weekly : Coalesced utc 0 (weeklyAt 0) 0 secondMonday [fourthMonday] ∧
    Coalesced utc 0 (weeklyAt 0) (lateOnMonday 1) fourthMonday [] := by
  have hleft : secondMonday.after.row 0 = some (weeklyAt 2) := by rfl
  have hleft' : fourthMonday.after.row 0 = some (weeklyAt 4) := by rfl
  have hruns : Unedited utc 0 0 (weeklyAt 0) [secondMonday,fourthMonday] :=
    .cons (by decide) rfl hleft (.cons (by decide) rfl hleft' (.nil _ _))
  have hcomputed : nextRunOf utc (weeklyAt 0) 0 = .ok (weeklyAt 0).nextRunAt := by rfl
  have hcoalesce := slots_coalesce rfl rfl hcomputed hruns
  exact ⟨hcoalesce [] secondMonday [fourthMonday] rfl,hcoalesce [secondMonday] fourthMonday [] rfl⟩

end Scheduling
end Broadcaster
