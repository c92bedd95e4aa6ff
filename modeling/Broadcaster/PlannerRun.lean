import Broadcaster.Scheduling

/-!
# What one run of the planner does

The loop is a fold whose memory of verdicts changes nothing: the tasks are those
of each schedule by itself, one after the other. Since the run has read the rows
that it writes, its flush stores exactly the next runs that it has computed.
-/

namespace Broadcaster
namespace Scheduling

open Python ScheduleService

/-- The tasks of one due schedule; none when the schedule is skipped. -/
def batch (env : Environment) (w : World) (row : ℕ × Schedule) : List DispatchTask :=
  match senderOf w row.2 with
  | none => []
  | some sender =>
    if (userSendVerdict w sender.1.2.userId).1 then groupTasks env w sender row.1 row.2.groupIds else []

/-- `none` also stands for an exception. -/
def nextRun (env : Environment) (now : Instant) (s : Schedule) : Option Instant :=
  (nextRunOf env s now).toOption.join

def assigned (env : Environment) (now : Instant) (row : ℕ × Schedule) : Loaded :=
  ⟨row.1,row.2,row.2.withNextRun (nextRun env now row.2)⟩

theorem nextRun_of_ok {env : Environment} {now : Instant} {s : Schedule} {t : Option Instant}
    (h : nextRunOf env s now = .ok t) : nextRun env now s = t := by
  rw [nextRun,h]
  rfl

def Remembers (w : World) (checked : CheckedUsers) : Prop :=
  ∀ userId verdict, checked.lookup userId = some verdict → verdict = userSendVerdict w userId

section Collect

variable {env : Environment} {w : World} {now : Instant}

theorem remembers_nil : Remembers w [] := by
  intro userId verdict h
  cases h

theorem checkUser_verdict {checked : CheckedUsers} (h : Remembers w checked) (userId : ℕ) :
    (checkUser w checked userId).1 = userSendVerdict w userId := by
  unfold checkUser
  cases hl : checked.lookup userId with
  | none => rfl
  | some verdict => exact h userId verdict hl

theorem Remembers.checkUser {checked : CheckedUsers} (h : Remembers w checked) (userId : ℕ) :
    Remembers w (checkUser w checked userId).2 := by
  unfold Scheduling.checkUser
  cases hl : checked.lookup userId with
  | some verdict => exact h
  | none =>
    intro other verdict hv
    have hcons : ((userId,userSendVerdict w userId)::checked).lookup other = some verdict := hv
    rw [List.lookup_cons] at hcons
    split at hcons
    · rename_i heq
      have hother : other = userId := by simpa using heq
      rw [hother]
      exact (Option.some.inj hcons).symm
    · exact h other verdict hcons

theorem collectSchedule_eq (env : Environment) (now : Instant) (row : ℕ × Schedule) {c : Collected}
    (h : Remembers w c.checkedUsers) :
    ∃ checked, Remembers w checked ∧ collectSchedule env w now c row =
      (nextRunOf env row.2 now).map fun t =>
        ⟨c.tasks ++ batch env w row,checked,c.rows ++ [⟨row.1,row.2,row.2.withNextRun t⟩]⟩ := by
  unfold collectSchedule batch
  cases hs : senderOf w row.2 with
  | none =>
    refine ⟨c.checkedUsers,h,?_⟩
    simp
  | some sender =>
    refine ⟨(checkUser w c.checkedUsers sender.1.2.userId).2,h.checkUser _,?_⟩
    simp only [checkUser_verdict h]
    cases (userSendVerdict w sender.1.2.userId).1 <;> simp

theorem foldlM_collectSchedule {due : List (ℕ × Schedule)} {c c' : Collected}
    (h : Remembers w c.checkedUsers)
    (hf : due.foldlM (collectSchedule env w now) c = .ok c') :
    (∀ row ∈ due, ∃ t, nextRunOf env row.2 now = .ok t) ∧
      c'.tasks = c.tasks ++ due.flatMap (batch env w) ∧
      c'.rows = c.rows ++ due.map (assigned env now) := by
  induction due generalizing c with
  | nil =>
    have he : c = c' := Except.ok.inj hf
    rw [← he]
    simp
  | cons row due ih =>
    obtain ⟨checked,hchecked,heq⟩ := collectSchedule_eq env now row h
    rw [List.foldlM_cons,heq] at hf
    cases hn : nextRunOf env row.2 now with
    | error e =>
      rw [hn] at hf
      cases hf
    | ok t =>
      rw [hn] at hf
      obtain ⟨hall,htasks,hrows⟩ := ih hchecked hf
      refine ⟨?_,?_,?_⟩
      · intro r hr
        cases hr with
        | head => exact ⟨t,hn⟩
        | tail _ hmem => exact hall r hmem
      · rw [htasks,List.flatMap_cons,List.append_assoc]
      · rw [hrows,List.map_cons,assigned,nextRun_of_ok hn,List.append_assoc]
        rfl

theorem foldlM_collectSchedule_ok {due : List (ℕ × Schedule)} {c : Collected}
    (h : Remembers w c.checkedUsers) (hall : ∀ row ∈ due, ∃ t, nextRunOf env row.2 now = .ok t) :
    ∃ c', due.foldlM (collectSchedule env w now) c = .ok c' := by
  induction due generalizing c with
  | nil => exact ⟨c,rfl⟩
  | cons row due ih =>
    obtain ⟨checked,hchecked,heq⟩ := collectSchedule_eq env now row h
    obtain ⟨t,ht⟩ := hall row List.mem_cons_self
    obtain ⟨c',hc'⟩ := ih (c := ⟨_,checked,_⟩) hchecked fun r hr => hall r (List.mem_cons_of_mem _ hr)
    refine ⟨c',?_⟩
    rw [List.foldlM_cons,heq,ht]
    exact hc'

theorem collect_eq_ok {due : List (ℕ × Schedule)} {c : Collected} (h : collect env w now due = .ok c) :
    (∀ row ∈ due, ∃ t, nextRunOf env row.2 now = .ok t) ∧ c.tasks = due.flatMap (batch env w) ∧
      c.rows = due.map (assigned env now) := by
  have hall := foldlM_collectSchedule (c := ⟨[],[],[]⟩) remembers_nil h
  simpa using hall

end Collect

section Flush

variable {schedules schedules' : Store Schedule}

theorem flushRow_eq_ok {l : Loaded} (hrow : schedules.row l.id = some l.loaded)
    (h : flushRow schedules l = .ok schedules') :
    (l.changed = true → l.current.unchecked = false) ∧ schedules'.row l.id = some l.current ∧
      ∀ j, j ≠ l.id → schedules'.row j = schedules.row j := by
  unfold flushRow at h
  rw [hrow] at h
  split at h
  · simp only [Loaded.merge_loaded] at h
    split at h
    · cases h
    · rename_i hchecked
      have he := Except.ok.inj h
      rw [← he]
      refine ⟨fun _ => by simpa using hchecked,Store.row_update_self hrow,?_⟩
      intro j hj
      exact Store.row_update_of_ne hj
  · rename_i hsame
    have he := Except.ok.inj h
    have hequal : l.loaded = l.current := by simpa [Loaded.changed] using hsame
    rw [← he,hrow,hequal]
    exact ⟨fun hc => absurd hc hsame,rfl,fun _ _ => rfl⟩

theorem exists_flushRow {l : Loaded} (hrow : schedules.row l.id = some l.loaded)
    (hc : l.current.unchecked = false) : ∃ schedules', flushRow schedules l = .ok schedules' := by
  unfold flushRow
  rw [hrow]
  split
  · simp [Loaded.merge_loaded,hc]
  · exact ⟨schedules,rfl⟩

theorem rows_of_frame {l : Loaded} {ls : List Loaded} (hl : l.id ∉ ls.map Loaded.id)
    (hrows : ∀ m ∈ l::ls, schedules.row m.id = some m.loaded)
    (hframe : ∀ j, j ≠ l.id → schedules'.row j = schedules.row j) :
    ∀ m ∈ ls, schedules'.row m.id = some m.loaded := by
  intro m hm
  have hne : m.id ≠ l.id := by
    intro he
    exact hl (he ▸ List.mem_map_of_mem hm)
  rw [hframe m.id hne]
  exact hrows m (List.mem_cons_of_mem _ hm)

theorem flush_eq_ok {ls : List Loaded} (hnodup : (ls.map Loaded.id).Nodup)
    (hrows : ∀ l ∈ ls, schedules.row l.id = some l.loaded) (h : flush schedules ls = .ok schedules') :
    (∀ l ∈ ls, (l.changed = true → l.current.unchecked = false) ∧
      schedules'.row l.id = some l.current) ∧
      ∀ j, j ∉ ls.map Loaded.id → schedules'.row j = schedules.row j := by
  induction ls generalizing schedules with
  | nil =>
    have he : schedules = schedules' := Except.ok.inj h
    rw [he]
    simp
  | cons l ls ih =>
    rw [List.map_cons,List.nodup_cons] at hnodup
    rw [flush,List.foldlM_cons] at h
    cases hl : flushRow schedules l with
    | error e =>
      rw [hl] at h
      cases h
    | ok next =>
      rw [hl] at h
      obtain ⟨hchecked,hself,hframe⟩ := flushRow_eq_ok (hrows l List.mem_cons_self) hl
      have hnext := rows_of_frame hnodup.1 hrows hframe
      obtain ⟨hall,hrest⟩ := ih hnodup.2 hnext h
      refine ⟨?_,?_⟩
      · intro m hm
        cases hm with
        | head =>
          refine ⟨hchecked,?_⟩
          rw [hrest l.id hnodup.1]
          exact hself
        | tail _ hmem => exact hall m hmem
      · intro j hj
        rw [List.map_cons,List.mem_cons,not_or] at hj
        rw [hrest j hj.2]
        exact hframe j hj.1

theorem exists_flush {ls : List Loaded} (hnodup : (ls.map Loaded.id).Nodup)
    (hrows : ∀ l ∈ ls, schedules.row l.id = some l.loaded)
    (hchecked : ∀ l ∈ ls, l.current.unchecked = false) :
    ∃ schedules', flush schedules ls = .ok schedules' := by
  induction ls generalizing schedules with
  | nil => exact ⟨schedules,rfl⟩
  | cons l ls ih =>
    rw [List.map_cons,List.nodup_cons] at hnodup
    obtain ⟨next,hl⟩ := exists_flushRow (hrows l List.mem_cons_self) (hchecked l List.mem_cons_self)
    obtain ⟨_,_,hframe⟩ := flushRow_eq_ok (hrows l List.mem_cons_self) hl
    have hnext := rows_of_frame hnodup.1 hrows hframe
    obtain ⟨schedules',hs⟩ := ih hnodup.2 hnext fun m hm => hchecked m (List.mem_cons_of_mem _ hm)
    refine ⟨schedules',?_⟩
    rw [flush,List.foldlM_cons,hl]
    exact hs

end Flush

section Run

variable {env : Environment} {w : World} {now : Instant} {schedules schedules' : Store Schedule}
  {due : List (ℕ × Schedule)} {tasks : List DispatchTask}

theorem Selects.mem_iff (h : Selects schedules now due) {i : ℕ} {s : Schedule} :
    (i,s) ∈ due ↔ schedules.row i = some s ∧ isDue now s = true := by
  rw [List.Perm.mem_iff h,Store.mem_select]

theorem Selects.nodup (h : Selects schedules now due) : (due.map Prod.fst).Nodup := by
  have hperm := List.Perm.map Prod.fst h
  exact hperm.nodup_iff.mpr (schedules.select_ids_nodup (isDue now))

theorem ids_assigned (due : List (ℕ × Schedule)) :
    (due.map (assigned env now)).map Loaded.id = due.map Prod.fst := by
  rw [List.map_map]
  rfl

/-- A run that returns: what it stores, what it leaves alone and what it dispatches. -/
structure RunResult (env : Environment) (w : World) (schedules : Store Schedule) (now : Instant)
    (due : List (ℕ × Schedule)) (schedules' : Store Schedule) (tasks : List DispatchTask) : Prop where
  computed : ∀ row ∈ due, ∃ t, nextRunOf env row.2 now = .ok (some t)
  stored : ∀ i s, (i,s) ∈ due → schedules'.row i = some (s.withNextRun (nextRun env now s))
  untouched : ∀ i, i ∉ due.map Prod.fst → schedules'.row i = schedules.row i
  dispatched : tasks = due.flatMap (batch env w)

theorem loaded_assigned (hsel : Selects schedules now due) :
    ∀ l ∈ due.map (assigned env now), schedules.row l.id = some l.loaded := by
  intro l hl
  obtain ⟨⟨i,s⟩,hmem,he⟩ := List.mem_map.mp hl
  rw [← he]
  exact (hsel.mem_iff.mp hmem).1

theorem isActive_of_isDue {s : Schedule} (h : isDue now s = true) :
    s.isActive = true ∧ ∃ t, s.nextRunAt = some t ∧ t ≤ now := by
  unfold isDue at h
  rw [Bool.and_eq_true,Option.any_eq_true] at h
  obtain ⟨hactive,t,ht,hle⟩ := h
  exact ⟨hactive,t,ht,by simpa using hle⟩

theorem runResult_of_checkSchedules (hsel : Selects schedules now due)
    (h : checkSchedules env w schedules now due = .ok (schedules',tasks)) :
    RunResult env w schedules now due schedules' tasks := by
  unfold checkSchedules collectDueSchedules at h
  split at h
  · rename_i hempty
    have hnil : due = [] := by simpa using hempty
    have he := Prod.mk.inj (Except.ok.inj h)
    subst hnil
    rw [← he.1,← he.2]
    exact ⟨by simp,by simp,by simp,rfl⟩
  · cases hc : collect env w now due with
    | error e =>
      rw [hc] at h
      cases h
    | ok c =>
      rw [hc] at h
      obtain ⟨hall,htasks,hrows⟩ := collect_eq_ok hc
      cases hf : flush schedules c.rows with
      | error e =>
        have hbind : (flush schedules c.rows >>= fun committed => .ok (committed,c.tasks)) =
          .ok (schedules',tasks) := h
        rw [hf] at hbind
        cases hbind
      | ok committed =>
        have hbind : (flush schedules c.rows >>= fun committed => .ok (committed,c.tasks)) =
          .ok (schedules',tasks) := h
        rw [hf] at hbind
        have he := Prod.mk.inj (Except.ok.inj hbind)
        rw [hrows] at hf
        have hnodup : ((due.map (assigned env now)).map Loaded.id).Nodup := by
          rw [ids_assigned]
          exact hsel.nodup
        obtain ⟨hflushed,hframe⟩ := flush_eq_ok hnodup (loaded_assigned hsel) hf
        rw [← he.1,← he.2]
        refine ⟨?_,?_,?_,htasks⟩
        · rintro ⟨i,s⟩ hmem
          obtain ⟨t,ht⟩ := hall (i,s) hmem
          have hdue := isActive_of_isDue (hsel.mem_iff.mp hmem).2
          obtain ⟨v,hv,_⟩ := hdue.2
          have hl := (hflushed (assigned env now (i,s)) (List.mem_map_of_mem hmem)).1
          cases t with
          | some t => exact ⟨t,ht⟩
          | none =>
            -- the row would be active without a next run
            have hnone : nextRun env now s = none := nextRun_of_ok ht
            have hchanged : (assigned env now (i,s)).changed = true := by
              have hne : s ≠ s.withNextRun none := by
                intro hs
                have hcol := congrArg Schedule.nextRunAt hs
                rw [hv] at hcol
                cases hcol
              simpa [assigned,Loaded.changed,hnone] using hne
            have hviolates := hl hchanged
            simp [assigned,hnone,Schedule.unchecked,Schedule.withNextRun,hdue.1] at hviolates
        · intro i s hmem
          exact (hflushed (assigned env now (i,s)) (List.mem_map_of_mem hmem)).2
        · intro i hi
          apply hframe
          rw [ids_assigned]
          exact hi

theorem exists_checkSchedules (hsel : Selects schedules now due)
    (hall : ∀ row ∈ due, ∃ t, nextRunOf env row.2 now = .ok (some t)) :
    ∃ schedules' tasks, checkSchedules env w schedules now due = .ok (schedules',tasks) := by
  unfold checkSchedules collectDueSchedules
  split
  · exact ⟨schedules,[],rfl⟩
  · have hcomputed : ∀ row ∈ due, ∃ t, nextRunOf env row.2 now = .ok t := by
      intro row hrow
      obtain ⟨t,ht⟩ := hall row hrow
      exact ⟨some t,ht⟩
    obtain ⟨c,hc⟩ := foldlM_collectSchedule_ok (w := w) (c := ⟨[],[],[]⟩) remembers_nil hcomputed
    have hrows := (collect_eq_ok hc).2.2
    have hnodup : ((due.map (assigned env now)).map Loaded.id).Nodup := by
      rw [ids_assigned]
      exact hsel.nodup
    have hchecked : ∀ l ∈ due.map (assigned env now), l.current.unchecked = false := by
      intro l hl
      obtain ⟨row,hrow,he⟩ := List.mem_map.mp hl
      obtain ⟨t,ht⟩ := hall row hrow
      rw [← he]
      simp [assigned,nextRun_of_ok ht,Schedule.unchecked,Schedule.withNextRun]
    obtain ⟨schedules',hs⟩ := exists_flush hnodup (loaded_assigned hsel) hchecked
    refine ⟨schedules',c.tasks,?_⟩
    have hcollect : collect env w now due = .ok c := hc
    rw [hcollect]
    show (flush schedules c.rows >>= fun committed => .ok (committed,c.tasks)) = _
    rw [hrows,hs]
    rfl

end Run

end Scheduling
end Broadcaster
