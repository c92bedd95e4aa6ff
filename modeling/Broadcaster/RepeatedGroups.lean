import Broadcaster.PlannerRuns
import Broadcaster.ScheduleOwnership

/-!
# Group ids that are posted twice

`group_ids` is stored as it is posted, after the ownership of its members has
been checked, and the planner sends one task for each entry. Nothing on the way
collapses repetitions: a group that is posted twice gets each ad twice.
-/

namespace Broadcaster
namespace ScheduleSystem

open Python ScheduleService ScheduleRules Scheduling ScheduleRoutes SchedulePages

/-- At most one task for each pair of a schedule and a group. -/
def OncePerGroup (tasks : List DispatchTask) : Prop :=
  (tasks.map fun task => (task.scheduleId,task.groupId)).Nodup

/-- The request passes the checks of ownership, and `ids` is what it writes to `group_ids`. -/
inductive Posts (db : Database) : Operation → List ℤ → Prop
  | createSchedule {userId : ℕ} {data : CreateScheduleRequest} (had : db.ownsAd userId data.adId = true)
      (haccount : db.ownsAccount userId data.accountId = true)
      (hgroups : asksForeignGroup db userId (some data.accountId.toNat) data.groupIds = false) :
      Posts db (.createSchedule userId data) data.groupIds
  | updateSchedule {userId i : ℕ} {data : UpdateScheduleRequest} {s : Schedule} {ids : List ℤ}
      (hs : Loads db userId i s) (hdata : data.groupIds = some ids)
      (hgroups : asksForeignGroup db userId s.accountId ids = false) :
      Posts db (.updateSchedule userId i data) ids
  | schedulesCreate {userId : ℕ} {form : ScheduleForm}
      (hverdict : ownershipVerdict db userId form.adId form.accountId = .ok) :
      Posts db (.schedulesCreate userId form) (formValues db userId form).1
  | schedulesUpdate {userId i : ℕ} {form : ScheduleForm} {s : Schedule} (hs : Loads db userId i s)
      (hverdict : ownershipVerdict db userId form.adId form.accountId = .ok) :
      Posts db (.schedulesUpdate userId i form) (formValues db userId form).1

def distinctPosts (db : Database) (_ : Instant) (op : Operation) : Prop := ∀ ids, Posts db op ids → ids.Nodup

def AllDistinct (db : Database) : Prop := ∀ i s, db.schedules.row i = some s → s.groupIds.Nodup

section Stored

variable {env : Environment} {db : Database} {now : Instant} {s' : Schedule} {i : ℕ}

theorem groupsOfAccount_nodup (db : Database) (userId : ℕ) (accountId : Option ℤ) :
    (groupsOfAccount db userId accountId).Nodup := by
  unfold groupsOfAccount
  split
  · exact List.nodup_nil
  · rename_i id
    have hids := db.groups.select_ids_nodup fun group => (group.accountId : ℤ) = id && group.userId = userId
    rw [← Function.comp_def (fun n : ℕ => (n : ℤ)) Prod.fst,← List.map_map]
    exact hids.map Nat.cast_injective

/-- The preset "all" and posted ids without repetitions leave none. -/
theorem formValues_nodup {userId : ℕ} {form : ScheduleForm}
    (h : form.groupsPreset ≠ some "all" → (cleanInts form.groupIds none none).Nodup) :
    (formValues db userId form).1.Nodup := by
  unfold formValues applyNamedActions
  apply List.Nodup.filter
  simp only
  split
  · exact groupsOfAccount_nodup db userId form.accountId
  · rename_i hall
    split
    · exact List.nodup_nil
    · exact h hall

/-- One row after one operation: it has lost ids, or it has the ids that were posted. -/
theorem groupIds_of_rowChange {op : Operation} (h : RowChange env db now op i s') :
    (∃ s, db.schedules.row i = some s ∧ s'.groupIds.Sublist s.groupIds) ∨ Posts db op s'.groupIds := by
  cases h with
  | same hs => exact .inl ⟨s',hs,List.Sublist.refl _⟩
  | create nextRun hop _ had haccount hgroups _ =>
    rw [hop]
    exact .inr (.createSchedule had haccount hgroups)
  | @createForm userId form user t hop _ hverdict =>
    have hids : (if rowComplete (formRow db userId user form) then (formRow db userId user form).resumed t
        else formRow db userId user form).groupIds = (formValues db userId form).1 := by
      split
      · rfl
      · rfl
    rw [hop,hids]
    exact .inr (.schedulesCreate hverdict)
  | @update userId data s _ hop hs hd =>
    unfold ScheduleRoutes.updateDecision at hd
    split at hd
    · cases hd
    · rename_i hforeign
      have hids : s'.groupIds = data.groupIds.getD s.groupIds := (settle_sameTargets hd).groups
      cases hdata : data.groupIds with
      | none =>
        rw [hdata] at hids
        exact .inl ⟨s,hs.1,hids ▸ List.Sublist.refl _⟩
      | some ids =>
        have hpass : asksForeignGroup db userId s.accountId ids = false := by
          rw [hdata] at hforeign
          simpa using hforeign
        rw [hdata] at hids
        rw [hop,hids]
        exact .inr (.updateSchedule hs hdata hpass)
  | updateForm hop hs hd =>
    obtain ⟨hverdict,r,hsettle⟩ := settle_of_pageDecision hd
    have hids := (settle_sameTargets hsettle).groups
    rw [hop,hids]
    exact .inr (.schedulesUpdate hs hverdict)
  | toggle hs hd =>
    rw [(toggle_sameTargets hd).groups]
    exact .inl ⟨_,hs.1,List.Sublist.refl _⟩
  | detach _ hs => exact .inl ⟨_,hs,List.Sublist.refl _⟩
  | ungroup _ _ hs => exact .inl ⟨_,hs.1,List.filter_sublist⟩
  | plan hs _ => exact .inl ⟨_,hs,List.Sublist.refl _⟩

theorem allDistinct_perform {op : Operation} (hall : AllDistinct db) (hop : distinctPosts db now op) :
    AllDistinct (perform env db now op) := by
  intro i s' hs'
  rcases groupIds_of_rowChange (rowChange_of_perform hs') with ⟨s,hs,hsub⟩ | hposts
  · exact (hall i s hs).sublist hsub
  · exact hop _ hposts

theorem allDistinct_of_reaches (h : Reaches env distinctPosts Database.empty db) : AllDistinct db := by
  refine h.invariant ?_ ?_
  · intro db now op hall hop
    exact allDistinct_perform hall hop
  · intro i s hs
    cases hs

end Stored

section Sent

variable {env : Environment} {w : World} {now : Instant} {schedules schedules' : Store Schedule}
  {due : List (ℕ × Schedule)} {tasks : List DispatchTask}

def taskKey (task : DispatchTask) : Option ℕ × ℤ := (task.scheduleId,task.groupId)

def activeIds (w : World) (s : Schedule) : List ℤ :=
  s.groupIds.filter fun g => (w.group g).any Group.isActive

/-- The tasks of one schedule are distinct when its active groups are, or when it is skipped. -/
theorem keys_batch_nodup (env : Environment) (w : World) (row : ℕ × Schedule) :
    ((batch env w row).map taskKey).Nodup ↔ Skipped w row.2 ∨ (activeIds w row.2).Nodup := by
  by_cases hskip : Skipped w row.2
  · have hnil : batch env w row = [] := batch_of_skipped hskip row.1
    simp [hnil,hskip]
  · obtain ⟨sender,_,hbatch⟩ := batch_of_not_skipped env hskip row.1
    have hkeys : (batch env w row).map taskKey = (activeIds w row.2).map fun g => (some row.1,g) := by
      have hids : (batch env w row).map DispatchTask.groupId = activeIds w row.2 := by
        rw [show batch env w row = _ from hbatch]
        exact groupIds_groupTasks env w sender row.1 row.2.groupIds
      rw [← hids,List.map_map]
      apply List.map_congr_left
      intro task htask
      exact Prod.ext (scheduleId_of_mem_batch htask) rfl
    have hinj : Function.Injective fun g : ℤ => (some row.1,g) := by
      intro g g' he
      exact (Prod.mk.inj he).2
    rw [hkeys,List.nodup_map_iff hinj]
    simp [hskip]

theorem keys_disjoint (hnodup : (due.map Prod.fst).Nodup) :
    due.Pairwise (Function.onFun List.Disjoint fun row => (batch env w row).map taskKey) := by
  have hpairs : due.Pairwise fun row row' => row.1 ≠ row'.1 := List.pairwise_map.mp hnodup
  refine hpairs.imp ?_
  intro row row' hne key hkey hkey'
  obtain ⟨task,htask,rfl⟩ := List.mem_map.mp hkey
  obtain ⟨task',htask',he⟩ := List.mem_map.mp hkey'
  have hid : task'.scheduleId = task.scheduleId := congrArg Prod.fst he
  rw [scheduleId_of_mem_batch htask,scheduleId_of_mem_batch htask'] at hid
  exact hne (Option.some.inj hid).symm

theorem oncePerGroup_iff (hsel : Selects schedules now due)
    (hrun : collectDueSchedules env w schedules now due = .ok (schedules',tasks)) :
    OncePerGroup tasks ↔ ∀ row ∈ due, Skipped w row.2 ∨ (activeIds w row.2).Nodup := by
  have hresult := runResult_of_checkSchedules hsel hrun
  have hkeys : tasks.map taskKey = due.flatMap fun row => (batch env w row).map taskKey := by
    rw [hresult.dispatched,List.map_flatMap]
  have hsplit : OncePerGroup tasks ↔ ∀ row ∈ due, ((batch env w row).map taskKey).Nodup := by
    unfold OncePerGroup
    rw [show tasks.map (fun task => (task.scheduleId,task.groupId)) = tasks.map taskKey from rfl,hkeys,
      List.nodup_flatMap]
    exact and_iff_left (keys_disjoint hsel.nodup)
  rw [hsplit]
  exact forall₂_congr fun row _ => keys_batch_nodup env w row

end Sent

/-- Requests that name no group twice leave one task for each schedule and group; a run of the planner sends two
exactly when a schedule that is not skipped names an active group twice. -/
theorem one_task_per_group (env : Environment) (db : Database) :
    (Reaches env distinctPosts Database.empty db → ∀ now checkLimit due schedules tasks,
      Selects db.schedules now due →
      collectDueSchedules env (worldOf db checkLimit) db.schedules now due = .ok (schedules,tasks) →
      OncePerGroup tasks) ∧
    ∀ w schedules now due schedules' tasks, Selects schedules now due →
      collectDueSchedules env w schedules now due = .ok (schedules',tasks) →
      (OncePerGroup tasks ↔ ∀ row ∈ due, Skipped w row.2 ∨ (activeIds w row.2).Nodup) := by
  refine ⟨?_,fun w schedules now due schedules' tasks hsel hrun => oncePerGroup_iff hsel hrun⟩
  intro hreach now checkLimit due schedules tasks hsel hrun
  refine (oncePerGroup_iff hsel hrun).mpr ?_
  rintro ⟨i,s⟩ hrow
  have hdistinct := allDistinct_of_reaches hreach i s (hsel.mem_iff.mp hrow).1
  exact .inr (hdistinct.filter _)

def stepsFor (groupIds : List ℤ) : List Operation :=
  [.registerUser "UTC",.registerUser "UTC",.createAd 1 "a" "t" [] "published",
   .createAd 1 "b" "t" [] "published",.createAccount 1 "wa",.createAccount 1 "wa",.accountStatus 1 "active",
   .resync 1 (some [some ⟨some "x",none⟩,some ⟨some "y",some "why"⟩]) false,
   .createSchedule 1 ⟨1,1,groupIds,[0],["09:00"],"UTC"⟩]

def runAtNine (db : Database) : Except PyError (Store Schedule × List DispatchTask) :=
  collectDueSchedules utc (worldOf db fun _ => (true,"")) db.schedules firstMonday
    (db.schedules.select (isDue firstMonday))

theorem ok_of_toOption {ε α : Type} {x : Except ε α} {a : α} (h : x.toOption = some a) : x = .ok a := by
  cases x with
  | error e => cases h
  | ok b => rw [Option.some.inj h]

theorem reaches_stepsFor : Reaches utc distinctPosts Database.empty (history utc (stepsFor [1])) := by
  have hfold : ∀ (ops : List Operation) (db : Database), (∀ op ∈ ops, ∀ db, distinctPosts db 0 op) →
      Reaches utc distinctPosts db (ops.foldl (fun db op => perform utc db 0 op) db) := by
    intro ops
    induction ops with
    | nil => exact fun db _ => Relation.ReflTransGen.refl
    | cons op ops ih =>
      intro db h
      exact Relation.ReflTransGen.head ⟨0,op,h op List.mem_cons_self db,rfl⟩
        (ih _ fun op hop => h op (List.mem_cons_of_mem _ hop))
  refine hfold _ _ ?_
  intro op hop db ids hposts
  cases hposts with
  | createSchedule had haccount hgroups =>
    simp only [stepsFor,List.mem_cons,List.not_mem_nil,or_false,reduceCtorEq,false_or,
      Operation.createSchedule.injEq] at hop
    rw [hop.2]
    exact List.nodup_singleton _
  | _ => simp [stepsFor] at hop

theorem one_task_per_group_once : ∃ schedules tasks,
    runAtNine (history utc (stepsFor [1])) = .ok (schedules,tasks) ∧ tasks.length = 1 ∧
      OncePerGroup tasks := by
  have hrun : ((runAtNine (history utc (stepsFor [1]))).toOption.map fun r => r.2.length) = some 1 := by
    decide
  obtain ⟨⟨schedules,tasks⟩,hresult,hlength⟩ := Option.map_eq_some_iff.mp hrun
  have hok := ok_of_toOption hresult
  exact ⟨schedules,tasks,hok,hlength,(one_task_per_group utc _).1 reaches_stepsFor firstMonday _ _ schedules tasks
    (List.Perm.refl _) hok⟩

/-- A group that is posted twice gets two tasks of one run. -/
theorem one_task_per_group_twice : ¬ ∀ env db, Reaches env anyOperation Database.empty db →
    ∀ now checkLimit due schedules tasks, Selects db.schedules now due →
      collectDueSchedules env (worldOf db checkLimit) db.schedules now due = .ok (schedules,tasks) →
      OncePerGroup tasks := by
  intro hall
  have hrun : ((runAtNine (history utc (stepsFor [1,1]))).toOption.map fun r => r.2.map taskKey) =
      some [(some 0,1),(some 0,1)] := by
    decide
  obtain ⟨⟨schedules,tasks⟩,hresult,hkeys⟩ := Option.map_eq_some_iff.mp hrun
  have hok := ok_of_toOption hresult
  have honce := hall utc _ (reaches_history utc (stepsFor [1,1])) firstMonday _ _ schedules tasks
    (List.Perm.refl _) hok
  have hnodup : [(some 0,(1 : ℤ)),(some 0,1)].Nodup := by
    rw [← hkeys]
    exact honce
  exact absurd hnodup (by decide)

end ScheduleSystem
end Broadcaster
