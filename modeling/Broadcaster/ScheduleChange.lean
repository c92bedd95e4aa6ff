import Broadcaster.ScheduleEdits
import Broadcaster.ScheduleSystem

/-!
# What an operation does to a schedule

Every row after an operation is the row before it, a new row that has passed
the checks of its entry point, what a request has decided about it, or what a
bulk update has made of it. All that holds over whole histories is read off this
classification.
-/

namespace Broadcaster
namespace ScheduleSystem

open Python ScheduleService ScheduleRules Scheduling ScheduleRoutes SchedulePages
open ScheduleMachine (settle_sound toggle_sound Sound)

/-- The entry point has found the schedule for the user. -/
def Loads (db : Database) (userId : ℕ) (i : ℕ) (s : Schedule) : Prop :=
  db.schedules.row i = some s ∧ db.ownsAd userId s.adId = true

/-- The row of a form, before the next run is known. -/
def formRow (db : Database) (userId : ℕ) (user : User) (form : ScheduleForm) : Schedule :=
  assignForm db userId form (profileTimezoneOrUtc user.timezone) blankSchedule

def rowComplete (s : Schedule) : Bool :=
  isScheduleComplete s.accountId s.groupIds s.daysOfWeek s.timesOfDay

inductive RowChange (env : Environment) (db : Database) (now : Instant) (op : Operation) (i : ℕ) :
    Schedule → Prop
  | same {s : Schedule} (h : db.schedules.row i = some s) : RowChange env db now op i s
  | create {userId : ℕ} {data : CreateScheduleRequest} (nextRun : Option Instant)
      (hop : op = .createSchedule userId data) (hi : db.schedules.row i = none)
      (had : db.ownsAd userId data.adId = true) (haccount : db.ownsAccount userId data.accountId = true)
      (hgroups : asksForeignGroup db userId (some data.accountId.toNat) data.groupIds = false)
      (hactive : rowComplete data.row = true → nextRun.isSome = true) :
      RowChange env db now op i
        { data.row with
          isActive := rowComplete data.row
          nextRunAt := if rowComplete data.row then nextRun else none }
  | createForm {userId : ℕ} {form : ScheduleForm} (user : User) (t : Instant)
      (hop : op = .schedulesCreate userId form) (hi : db.schedules.row i = none)
      (hverdict : ownershipVerdict db userId form.adId form.accountId = .ok) :
      RowChange env db now op i
        (if rowComplete (formRow db userId user form) then (formRow db userId user form).resumed t
        else formRow db userId user form)
  | update {userId : ℕ} {data : UpdateScheduleRequest} {s s' : Schedule}
      (hop : op = .updateSchedule userId i data) (hs : Loads db userId i s)
      (h : ScheduleRoutes.updateDecision env db userId data now s = .commit s') :
      RowChange env db now op i s'
  | updateForm {userId : ℕ} {profile : String} {form : ScheduleForm} {s s' : Schedule}
      (hop : op = .schedulesUpdate userId i form) (hs : Loads db userId i s)
      (h : SchedulePages.updateDecision env db userId profile form now s = .commit s') :
      RowChange env db now op i s'
  | toggle {userId : ℕ} {s s' : Schedule} {r r' : Response} (hs : Loads db userId i s)
      (h : toggle env now r r' s = .commit s') : RowChange env db now op i s'
  | detach {userId : ℕ} {accountId : ℤ} {s : Schedule} (hop : op = .deleteAccount userId accountId)
      (hs : db.schedules.row i = some s) :
      RowChange env db now op i { s.paused with accountId := none }
  | ungroup {userId g : ℕ} {accountId groupId : ℤ} {group : Group} {s : Schedule}
      (hop : op = .deleteGroup userId accountId groupId)
      (hgroup : groupFor db userId accountId groupId = some (g,group)) (hs : Loads db userId i s) :
      RowChange env db now op i { s with groupIds := s.groupIds.filter fun x => !List.contains [(g : ℤ)] x }
  | plan {s : Schedule} {t : Instant} (hs : db.schedules.row i = some s) (hactive : s.isActive = true) :
      RowChange env db now op i (s.withNextRun (some t))

section Change

variable {env : Environment} {db db' : Database} {now : Instant} {i : ℕ} {s s' : Schedule}

theorem scheduleFor_eq_some {userId : ℕ} {scheduleId : ℤ}
    (h : db.scheduleFor userId scheduleId = some (i,s)) : scheduleId = i ∧ Loads db userId i s := by
  obtain ⟨r,hr,he⟩ := Option.map_eq_some_iff.mp h
  obtain ⟨hfind,howns⟩ := Option.filter_eq_some_iff.mp hr
  obtain ⟨hi,hs⟩ := Prod.mk.inj he
  obtain ⟨n,hn,hrow⟩ := Store.find_eq_some hfind
  have hin : n = i := by
    rw [← hi,hn]
    rfl
  rw [← hs,← hin]
  exact ⟨hn,hrow,by simpa using howns⟩

theorem row_conclude {loaded : Schedule} {done r : Response} {d : Decision}
    (hi : db.schedules.row i = some loaded) (h : conclude db i loaded done d = .ok (db',r)) :
    db' = db ∨ ∃ s', d = .commit s' ∧ db'.schedules.row i = some s' ∧
      ∀ j, j ≠ i → db'.schedules.row j = db.schedules.row j := by
  cases d with
  | commit new =>
    simp only [conclude] at h
    cases hf : flushRow db.schedules ⟨i,loaded,new⟩ with
    | error e =>
      rw [hf] at h
      cases h
    | ok schedules =>
      rw [hf] at h
      have he := (Prod.mk.inj (Except.ok.inj h)).1
      obtain ⟨_,hself,hothers⟩ := flushRow_eq_ok (l := ⟨i,loaded,new⟩) hi hf
      rw [← he]
      exact .inr ⟨new,rfl,hself,hothers⟩
  | refuse r' =>
    have he := (Prod.mk.inj (Except.ok.inj h)).1
    exact .inl he.symm
  | raise e => cases h

theorem row_committed_conclude {loaded : Schedule} {done : Response} {d : Decision} {j : ℕ}
    (hi : db.schedules.row i = some loaded)
    (h : (committed db (conclude db i loaded done d)).schedules.row j = some s') :
    db.schedules.row j = some s' ∨ (j = i ∧ d = .commit s') := by
  cases hc : conclude db i loaded done d with
  | error e =>
    rw [hc] at h
    exact .inl h
  | ok r =>
    rw [hc] at h
    rcases row_conclude hi hc with hsame | ⟨new,hd,hself,hothers⟩
    · have hrow : r.1.schedules.row j = some s' := h
      rw [hsame] at hrow
      exact .inl hrow
    · by_cases hji : j = i
      · have hrow : r.1.schedules.row j = some s' := h
        rw [hji,hself] at hrow
        rw [← Option.some.inj hrow]
        exact .inr ⟨hji,hd⟩
      · have hrow : r.1.schedules.row j = some s' := h
        rw [hothers j hji] at hrow
        exact .inl hrow

theorem row_committed_insert {new : Schedule} {done : Response}
    (h : (committed db (insertSchedule db new done)).schedules.row i = some s') :
    db.schedules.row i = some s' ∨
      (db.schedules.row i = none ∧ s' = new ∧ new.unchecked = false) := by
  unfold insertSchedule at h
  split at h
  · exact .inl h
  · rename_i hchecked
    rcases Store.row_insert.mp h with ⟨hi,hs⟩ | hold
    · refine .inr ⟨?_,hs,by simpa using hchecked⟩
      rw [hi]
      exact db.schedules.fresh _ (le_refl _)
    · exact .inl hold

theorem row_delete {p : ℕ → Schedule → Bool} (h : (db.schedules.deleteWhere p).row i = some s) :
    db.schedules.row i = some s := (Store.row_deleteWhere.mp h).1

/-- What an operation does that writes no other table than the schedules, or the users. -/
inductive Edit (env : Environment) (db : Database) (now : Instant) (op : Operation) : Database → Prop
  | unchanged : Edit env db now op db
  | registered (users : Store User) : Edit env db now op { db with users := users }
  | created {s : Schedule} {done : Response}
      (h : ∀ i, db.schedules.row i = none → s.unchecked = false → RowChange env db now op i s) :
      Edit env db now op (committed db (insertSchedule db s done))
  | decided {userId i : ℕ} {s : Schedule} {done : Response} {d : Decision} (hs : Loads db userId i s)
      (h : ∀ s', d = .commit s' → RowChange env db now op i s') :
      Edit env db now op (committed db (conclude db i s done d))
  | rewritten {schedules : Store Schedule}
      (h : ∀ i s', schedules.row i = some s' → RowChange env db now op i s') :
      Edit env db now op { db with schedules := schedules }

theorem Edit.rowChange {op : Operation} (hedit : Edit env db now op db')
    (hrow : db'.schedules.row i = some s') : RowChange env db now op i s' := by
  cases hedit with
  | unchanged => exact .same hrow
  | registered users => exact .same hrow
  | created h =>
    rcases row_committed_insert hrow with hold | ⟨hnone,rfl,hchecked⟩
    · exact .same hold
    · exact h i hnone hchecked
  | decided hs h =>
    rcases row_committed_conclude hs.1 hrow with hold | ⟨rfl,hd⟩
    · exact .same hold
    · exact h s' hd
  | rewritten h => exact h i s' hrow

theorem edit_delete {op : Operation} {p : ℕ → Schedule → Bool} :
    Edit env db now op { db with schedules := db.schedules.deleteWhere p } :=
  .rewritten fun _ _ h => .same (row_delete h)

theorem edit_createSchedule {userId : ℕ} {data : CreateScheduleRequest} :
    Edit env db now (.createSchedule userId data) (perform env db now (.createSchedule userId data)) := by
  unfold perform createSchedule
  simp only
  split
  · exact .unchanged
  · split
    · exact .unchanged
    · rename_i had
      split
      · exact .unchanged
      · rename_i haccount
        split
        · exact .unchanged
        · rename_i hgroups
          have hpass : db.ownsAd userId data.adId = true ∧ db.ownsAccount userId data.accountId = true ∧
              asksForeignGroup db userId (some data.accountId.toNat) data.groupIds = false :=
            ⟨by simpa using had,by simpa using haccount,by simpa using hgroups⟩
          split
          · rename_i hcomplete
            have hrow : rowComplete data.row = true := hcomplete
            split
            · exact .unchanged
            · rename_i nextRun hnext
              refine .created fun i hnone hchecked => ?_
              have hsome : nextRun.isSome = true := by
                simpa [Schedule.unchecked] using hchecked
              have hchange : RowChange env db now (.createSchedule userId data) i _ :=
                .create nextRun rfl hnone hpass.1 hpass.2.1 hpass.2.2 fun _ => hsome
              rw [hrow,if_pos rfl] at hchange
              exact hchange
          · rename_i hcomplete
            have hrow : rowComplete data.row = false := Bool.eq_false_iff.mpr hcomplete
            refine .created fun i hnone _ => ?_
            have hchange : RowChange env db now (.createSchedule userId data) i _ :=
              .create none rfl hnone hpass.1 hpass.2.1 hpass.2.2 fun hc => by rw [hrow] at hc; cases hc
            rw [hrow] at hchange
            exact hchange

theorem edit_schedulesCreate {userId : ℕ} {form : ScheduleForm} :
    Edit env db now (.schedulesCreate userId form) (perform env db now (.schedulesCreate userId form)) := by
  unfold perform schedulesCreate
  simp only
  split
  · exact .unchanged
  · rename_i user _
    split
    · exact .unchanged
    · exact .unchanged
    · rename_i hverdict
      split
      · rename_i hcomplete
        have hrow : rowComplete (formRow db userId user form) = true := hcomplete
        split
        · exact .unchanged
        · exact .unchanged
        · rename_i t _
          refine .created fun i hnone _ => ?_
          have hchange : RowChange env db now (.schedulesCreate userId form) i _ :=
            .createForm user t rfl hnone hverdict
          rw [if_pos hrow] at hchange
          exact hchange
      · rename_i hcomplete
        have hrow : ¬rowComplete (formRow db userId user form) = true := hcomplete
        refine .created fun i hnone _ => ?_
        have hchange : RowChange env db now (.schedulesCreate userId form) i _ :=
          .createForm user 0 rfl hnone hverdict
        rw [if_neg hrow] at hchange
        exact hchange

theorem edit_checkSchedules {checkLimit : ℕ → Bool × String} {due : List (ℕ × Schedule)}
    {op : Operation} : Edit env db now op (perform env db now (.checkSchedules checkLimit due)) := by
  unfold perform
  simp only
  split
  · rename_i hsel
    split
    · rename_i r hrun
      have hresult := runResult_of_checkSchedules hsel hrun
      refine .rewritten fun i s' h => ?_
      by_cases hmem : i ∈ due.map Prod.fst
      · obtain ⟨⟨j,s⟩,hrow,he⟩ := List.mem_map.mp hmem
        have hj : j = i := he
        subst hj
        obtain ⟨t,ht⟩ := hresult.computed (j,s) hrow
        have hstored := hresult.stored j s hrow
        rw [nextRun_of_ok ht] at hstored
        have hs' : s.withNextRun (some t) = s' := Option.some.inj (hstored.symm.trans h)
        obtain ⟨hi,hdue⟩ := hsel.mem_iff.mp hrow
        rw [← hs']
        exact .plan hi (isActive_of_isDue hdue).1
      · have hsame := hresult.untouched i hmem
        exact .same (hsame.symm.trans h)
    · exact .unchanged
  · exact .unchanged

theorem ite_scheduleFor_eq_some {userId : ℕ} {scheduleId : ℤ} {p : Prop} [Decidable p]
    (h : (if p then db.scheduleFor userId scheduleId else none) = some (i,s)) :
    scheduleId = i ∧ Loads db userId i s := by
  split at h
  · exact scheduleFor_eq_some h
  · cases h

def Operation.onSchedules : Operation → Bool
  | createSchedule _ _ | updateSchedule _ _ _ | toggleSchedule _ _ | deleteSchedule _ _
  | schedulesCreate _ _ | schedulesUpdate _ _ _ | schedulesToggle _ _ | schedulesDelete _ _ _
  | checkSchedules _ _ | registerUser _ => true
  | _ => false

theorem edit_of_perform {op : Operation} (h : op.onSchedules = true) :
    Edit env db now op (perform env db now op) := by
  cases op with
  | registerUser timezone => exact .registered _
  | createSchedule userId data => exact edit_createSchedule
  | schedulesCreate userId form => exact edit_schedulesCreate
  | updateSchedule userId scheduleId data =>
    unfold perform ScheduleRoutes.updateSchedule
    simp only
    split
    · exact .unchanged
    · split
      · exact .unchanged
      · rename_i i s hfound
        obtain ⟨rfl,hs⟩ := scheduleFor_eq_some hfound
        exact .decided hs fun s' hd => .update rfl hs hd
  | schedulesUpdate userId scheduleId form =>
    unfold perform SchedulePages.schedulesUpdate
    simp only
    split
    · exact .unchanged
    · split
      · split
        · exact .unchanged
        · exact .unchanged
      · rename_i i s hfound
        obtain ⟨rfl,hs⟩ := ite_scheduleFor_eq_some hfound
        exact .decided hs fun s' hd => .updateForm rfl hs hd
  | toggleSchedule userId scheduleId =>
    unfold perform ScheduleRoutes.toggleSchedule
    simp only
    split
    · exact .unchanged
    · split
      · exact .unchanged
      · rename_i i s hfound
        have hs := (scheduleFor_eq_some hfound).2
        exact .decided hs fun s' hd => .toggle hs hd
  | schedulesToggle userId scheduleId =>
    unfold perform SchedulePages.schedulesToggle
    simp only
    split
    · exact .unchanged
    · split
      · exact .unchanged
      · rename_i i s hfound
        have hs := (ite_scheduleFor_eq_some hfound).2
        exact .decided hs fun s' hd => .toggle hs hd
  | deleteSchedule userId scheduleId =>
    unfold perform ScheduleRoutes.deleteSchedule
    simp only
    split
    · exact .unchanged
    · split
      · exact .unchanged
      · exact edit_delete
  | schedulesDelete userId sameOrigin scheduleId =>
    unfold perform SchedulePages.schedulesDelete
    simp only
    split
    · exact .unchanged
    · split
      · exact .unchanged
      · split
        · exact .unchanged
        · exact edit_delete
  | checkSchedules checkLimit due => exact edit_checkSchedules
  | _ => cases h

theorem rowChange_of_perform {op : Operation}
    (h : (perform env db now op).schedules.row i = some s') : RowChange env db now op i s' := by
  cases op with
  | createAd userId title text images status => exact .same h
  | createAccount userId type => exact .same h
  | accountStatus accountId status => exact .same h
  | saveAd userId adId title text images status =>
    unfold perform ScheduleSystem.saveAd at h
    simp only at h
    split at h
    · exact .same h
    · exact .same h
  | deleteAd userId adId =>
    unfold perform ScheduleSystem.deleteAd at h
    simp only at h
    split at h
    · exact .same h
    · exact .same (row_delete h)
  | resync accountId fetched allowFullWipe =>
    unfold perform resyncAccount at h
    simp only at h
    split at h
    · exact .same h
    · exact .same h
  | deleteAccount userId accountId =>
    unfold perform ScheduleSystem.deleteAccount detachSchedulesFromAccount at h
    simp only at h
    split at h
    · exact .same h
    · obtain ⟨s,hs,he⟩ := Store.row_updateWhere.mp h
      split at he
      · rw [← he]
        exact .detach rfl hs
      · rw [← he]
        exact .same hs
  | deleteGroup userId accountId groupId =>
    unfold perform accountGroupsDelete at h
    simp only at h
    split at h
    · exact .same h
    · rename_i g group hgroup
      have hrow : (removeGroupIds db userId [(g : ℤ)]).row i = some s' := h
      unfold removeGroupIds at hrow
      obtain ⟨s,hs,he⟩ := Store.row_updateWhere.mp hrow
      split at he
      · rename_i howns
        rw [← he]
        exact .ungroup rfl hgroup ⟨hs,howns⟩
      · rw [← he]
        exact .same hs
  | _ => exact (edit_of_perform rfl).rowChange h

end Change

end ScheduleSystem
end Broadcaster
