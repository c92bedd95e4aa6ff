import Broadcaster.ScheduleChange

/-!
# Active schedules can run

Every entry point that writes an active row has checked that the row is complete
and has computed its next run. The removal of a deleted group from `group_ids`
checks neither.
-/

namespace Broadcaster
namespace ScheduleSystem

open Python ScheduleService ScheduleRules Scheduling ScheduleRoutes SchedulePages
open ScheduleMachine (settle_sound toggle_sound)

/-- An active schedule is complete and has a next run. -/
def Ready (s : Schedule) : Prop :=
  s.isActive = true → rowComplete s = true ∧ s.nextRunAt ≠ none

def AllReady (db : Database) : Prop := ∀ i s, db.schedules.row i = some s → Ready s

section Ready

variable {env : Environment} {db : Database} {now : Instant} {op : Operation} {i : ℕ}
  {s s' : Schedule}

theorem truthy_orEmpty (value : Json) : (orEmpty value).truthy = value.truthy := by
  unfold orEmpty
  split
  · rfl
  · rename_i h
    exact (Bool.eq_false_iff.mpr h).symm

theorem isComplete_eq (s : Schedule) : isComplete s = rowComplete s := by
  simp only [isComplete,rowComplete,isScheduleComplete,truthy_orEmpty]

theorem ready_of_inactive (h : s.isActive = false) : Ready s := by
  intro hactive
  rw [h] at hactive
  cases hactive

theorem settle_ready {r : Response} (h : settle env now r s = .commit s') : Ready s' := by
  unfold settle at h
  split at h
  · have he := Decision.commit.inj h
    rw [← he]
    exact ready_of_inactive rfl
  · rename_i hcomplete
    have hrow : rowComplete s = true := by
      rw [← isComplete_eq]
      simpa using hcomplete
    split at h
    · split at h
      · cases h
      · cases h
      · have he := Decision.commit.inj h
        rw [← he]
        exact fun _ => ⟨hrow,Option.some_ne_none _⟩
    · rename_i hpaused
      have he := Decision.commit.inj h
      rw [← he]
      exact ready_of_inactive (Bool.eq_false_iff.mpr hpaused)

theorem toggle_ready {r r' : Response} (h : toggle env now r r' s = .commit s') : Ready s' := by
  unfold toggle at h
  split at h
  · have he := Decision.commit.inj h
    rw [← he]
    exact ready_of_inactive rfl
  · split at h
    · cases h
    · rename_i hcomplete
      have hrow : rowComplete s = true := by
        rw [← isComplete_eq]
        simpa using hcomplete
      split at h
      · cases h
      · cases h
      · have he := Decision.commit.inj h
        rw [← he]
        exact fun _ => ⟨hrow,Option.some_ne_none _⟩

theorem settle_of_updateDecision {userId : ℕ} {data : UpdateScheduleRequest}
    (h : ScheduleRoutes.updateDecision env db userId data now s = .commit s') :
    ∃ r, settle env now r (data.assign s) = .commit s' := by
  unfold ScheduleRoutes.updateDecision at h
  split at h
  · cases h
  · exact ⟨_,h⟩

theorem settle_of_pageDecision {userId : ℕ} {profile : String} {form : ScheduleForm}
    (h : SchedulePages.updateDecision env db userId profile form now s = .commit s') :
    ownershipVerdict db userId form.adId form.accountId = .ok ∧
      ∃ r, settle env now r (assignForm db userId form (storedTimezone s profile) s) = .commit s' := by
  unfold SchedulePages.updateDecision at h
  split at h
  · cases h
  · cases h
  · rename_i hverdict
    exact ⟨hverdict,_,h⟩

theorem groupFor_eq_some {userId g : ℕ} {accountId groupId : ℤ} {group : Group}
    (h : groupFor db userId accountId groupId = some (g,group)) : groupId = g ∧
      db.groups.row g = some group ∧ group.userId = userId ∧ (group.accountId : ℤ) = accountId := by
  unfold groupFor at h
  split at h
  · obtain ⟨r,hr,he⟩ := Option.map_eq_some_iff.mp h
    obtain ⟨hfind,howns⟩ := Option.filter_eq_some_iff.mp hr
    obtain ⟨hi,hgroup⟩ := Prod.mk.inj he
    obtain ⟨n,hn,hrow⟩ := Store.find_eq_some hfind
    have hng : n = g := by
      rw [← hi,hn]
      rfl
    rw [Bool.and_eq_true,decide_eq_true_iff,decide_eq_true_iff] at howns
    rw [hgroup] at hrow howns
    rw [hng] at hn hrow
    exact ⟨hn,hrow,howns.1,howns.2⟩
  · cases h

/-- No group deletion takes the last group of an active schedule of its user. -/
def keepsAGroup (db : Database) (_ : Instant) (op : Operation) : Prop :=
  match op with
  | .deleteGroup userId accountId groupId =>
    (groupFor db userId accountId groupId).isSome = true →
      ∀ r ∈ db.schedules.select Schedule.isActive, db.ownsAd userId r.2.adId = true →
        ∃ x ∈ r.2.groupIds, x ≠ groupId
  | _ => True

theorem ready_ungroup {userId g : ℕ} {accountId groupId : ℤ} {group : Group}
    (hgroup : groupFor db userId accountId groupId = some (g,group)) (hs : Loads db userId i s)
    (hc : keepsAGroup db now (.deleteGroup userId accountId groupId)) (hready : Ready s) :
    Ready { s with groupIds := s.groupIds.filter fun x => !List.contains [(g : ℤ)] x } := by
  intro hactive
  have hbefore := hready hactive
  refine ⟨?_,hbefore.2⟩
  have hselected : (i,s) ∈ db.schedules.select Schedule.isActive :=
    Store.mem_select.mpr ⟨hs.1,hactive⟩
  have hfound : (groupFor db userId accountId groupId).isSome = true := by rw [hgroup]; rfl
  obtain ⟨x,hx,hne⟩ := hc hfound (i,s) hselected hs.2
  rw [(groupFor_eq_some hgroup).1] at hne
  have hkept : x ∈ s.groupIds.filter fun x => !List.contains [(g : ℤ)] x := by
    refine List.mem_filter.mpr ⟨hx,?_⟩
    simpa using hne
  have hnonempty : (s.groupIds.filter fun x => !List.contains [(g : ℤ)] x).isEmpty = false := by
    rw [List.isEmpty_eq_false_iff]
    exact List.ne_nil_of_mem hkept
  have hcomplete := hbefore.1
  simp only [rowComplete,isScheduleComplete,Bool.and_eq_true] at hcomplete ⊢
  exact ⟨⟨⟨hcomplete.1.1.1,by rw [hnonempty]; rfl⟩,hcomplete.1.2⟩,hcomplete.2⟩

theorem ready_of_rowChange (h : RowChange env db now op i s') (hready : AllReady db)
    (hc : keepsAGroup db now op) : Ready s' := by
  cases h with
  | same hs => exact hready i s' hs
  | @create userId data nextRun _ _ _ _ _ hnext =>
    intro hactive
    have hrow : rowComplete data.row = true := hactive
    refine ⟨hrow,?_⟩
    simp only [hrow,if_true]
    exact Option.isSome_iff_ne_none.mp (hnext hrow)
  | @createForm userId form user t _ _ _ =>
    split
    · rename_i hrow
      exact fun _ => ⟨hrow,Option.some_ne_none _⟩
    · exact ready_of_inactive rfl
  | update _ _ hd =>
    obtain ⟨r,hsettle⟩ := settle_of_updateDecision hd
    exact settle_ready hsettle
  | updateForm _ _ hd =>
    obtain ⟨_,r,hsettle⟩ := settle_of_pageDecision hd
    exact settle_ready hsettle
  | toggle _ hd => exact toggle_ready hd
  | detach _ _ => exact ready_of_inactive rfl
  | ungroup hop hgroup hs =>
    rw [hop] at hc
    exact ready_ungroup hgroup hs hc (hready i _ hs.1)
  | plan hs _ =>
    intro hactive
    exact ⟨(hready i _ hs hactive).1,Option.some_ne_none _⟩

theorem nextRunAt_of_switchedOff (h : RowChange env db now op i s') (hs : db.schedules.row i = some s)
    (hbefore : s.isActive = true) (hafter : s'.isActive = false) : s'.nextRunAt = none := by
  cases h with
  | same hs' =>
    rw [hs] at hs'
    rw [Option.some.inj hs',hafter] at hbefore
    cases hbefore
  | create _ _ hi _ _ _ _ =>
    rw [hs] at hi
    cases hi
  | createForm _ _ _ hi _ =>
    rw [hs] at hi
    cases hi
  | update _ _ hd =>
    obtain ⟨r,hsettle⟩ := settle_of_updateDecision hd
    exact (settle_sound hsettle).paused hafter
  | updateForm _ _ hd =>
    obtain ⟨_,r,hsettle⟩ := settle_of_pageDecision hd
    exact (settle_sound hsettle).paused hafter
  | toggle _ hd => exact (toggle_sound hd).paused hafter
  | detach _ _ => rfl
  | ungroup _ _ hs' =>
    have hsame := Option.some.inj (hs.symm.trans hs'.1)
    rw [hsame] at hbefore
    exact absurd (hbefore.symm.trans hafter) (by decide)
  | plan hs' hactive =>
    exact absurd (hactive.symm.trans hafter) (by decide)

end Ready

/-- In every sequence of operations that leave active schedules a group. -/
theorem active_schedules_ready {env : Environment} {a b : Database} (ha : AllReady a)
    (h : Reaches env keepsAGroup a b) : AllReady b ∧
      ∀ now op i s s', b.schedules.row i = some s → s.isActive = true →
        (perform env b now op).schedules.row i = some s' → s'.isActive = false → s'.nextRunAt = none := by
  refine ⟨?_,?_⟩
  · refine h.invariant ?_ ha
    intro db now op hready hc i s' hs'
    exact ready_of_rowChange (rowChange_of_perform hs') hready hc
  · intro now op i s s' hs hbefore hs' hafter
    exact nextRunAt_of_switchedOff (rowChange_of_perform hs') hs hbefore hafter

def withGroups (groupIds : List ℤ) : Database := { ScheduleMachine.office with
  schedules := (Store.empty Schedule).insert { mondays ["09:00"] with groupIds := groupIds } }

theorem allReady_withGroups {groupIds : List ℤ} (h : groupIds.isEmpty = false) : AllReady (withGroups groupIds) := by
  intro i s hs _
  rcases Store.row_insert.mp hs with ⟨_,hrow⟩ | hrow
  · rw [hrow]
    refine ⟨?_,by simp [mondays]⟩
    simp only [rowComplete,isScheduleComplete,h]
    decide
  · cases hrow

/-- One of two groups is deleted, and then the planner runs. -/
def deletedAndPlanned : Database :=
  perform utc (perform utc (withGroups [0,1]) 0 (.deleteGroup 1 1 1)) 0
    (.checkSchedules (fun _ => (true,"")) [(0,{ mondays ["09:00"] with groupIds := [0] })])

theorem active_schedules_ready_oneGroup : AllReady deletedAndPlanned ∧
    (deletedAndPlanned.schedules.row 0).map (fun s => (s.groupIds,s.isActive,s.nextRunAt)) =
      some ([0],true,some 32400000000) := by
  have hkeeps : keepsAGroup (withGroups [0,1]) 0 (.deleteGroup 1 1 1) := by
    unfold keepsAGroup
    decide
  have hdeleted : Reaches utc keepsAGroup (withGroups [0,1])
      (perform utc (withGroups [0,1]) 0 (.deleteGroup 1 1 1)) := Relation.ReflTransGen.single ⟨0,_,hkeeps,rfl⟩
  have hplanned : Reaches utc keepsAGroup (withGroups [0,1]) deletedAndPlanned :=
    hdeleted.tail ⟨0,.checkSchedules (fun _ => (true,"")) [(0,{ mondays ["09:00"] with groupIds := [0] })],trivial,rfl⟩
  exact ⟨(active_schedules_ready (allReady_withGroups rfl) hplanned).1,by decide⟩

/-- Its group is deleted, and it stays active with a next run and without a group. -/
theorem active_schedule_without_groups : AllReady (withGroups [1]) ∧
    ∃ s, (perform utc (withGroups [1]) 0 (.deleteGroup 1 1 1)).schedules.row 0 = some s ∧
      s.isActive = true ∧ s.groupIds = [] ∧ s.nextRunAt ≠ none ∧ ¬Ready s := by
  have hrow : (perform utc (withGroups [1]) 0 (.deleteGroup 1 1 1)).schedules.row 0 =
      some { mondays ["09:00"] with groupIds := [] } := by decide
  refine ⟨allReady_withGroups rfl,_,hrow,rfl,rfl,by decide,?_⟩
  intro hready
  have hcomplete := (hready rfl).1
  cases hcomplete

end ScheduleSystem
end Broadcaster
