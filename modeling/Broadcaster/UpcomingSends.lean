import Broadcaster.BrokenSchedule
import Broadcaster.PlannerRun

/-!
# What the dashboard announces

The block of the next sends of `send_analytics.py` names for each schedule the
reason for which it will not fire. It is compared with a run of the planner over
the same tables: with what the run dispatches for the schedule.
-/

namespace Broadcaster
namespace UpcomingSends

open Scheduling ScheduleService

def reasonAdDraft : String := "Объявление в черновике"

def reasonAccountOff : String := "Аккаунт отключён"

def reasonGroupsOff : String := "Все группы выключены"

def upcomingLimit : ℕ := 8

structure UpcomingSend where
  scheduleId : ℕ
  adId : ℕ
  adTitle : String
  nextRunAt : Option Instant
  groupCount : ℕ
  messengerType : Option String
  reason : String
  deriving DecidableEq

/-- A schedule with its ad, and what the outer join has found for its account. -/
abbrev Row := (ℕ × Schedule) × Ad × Option MessengerAccount

variable (db : Database) (userId : ℕ)

/-- The join of one schedule; `none` drops it. -/
def joined (row : ℕ × Schedule) : Option Row :=
  ((db.ads.row row.2.adId).filter fun ad => ad.userId = userId).map fun ad =>
    (row,ad,row.2.accountId.bind db.accounts.row)

/-- The active schedules of the user that have a next run. -/
def candidates : List Row :=
  (db.schedules.select fun s => s.isActive && s.nextRunAt.isSome).filterMap (joined db userId)

def Row.nextRunAt (r : Row) : Instant := r.1.2.nextRunAt.getD 0

/-- `ORDER BY next_run_at ASC LIMIT limit` -/
def Answer (limit : ℕ) (rows : List Row) : Prop :=
  ∃ l : List Row, l.Perm (candidates db userId) ∧ l.Pairwise (fun a b => Row.nextRunAt a ≤ Row.nextRunAt b) ∧
    rows = l.take limit

/-- `group_active`: the flags of the groups of the user among those that the rows name. -/
def groupActive (rows : List Row) (groupId : ℤ) : Bool :=
  (rows.flatMap fun r => r.1.2.groupIds).contains groupId &&
    (db.groups.find groupId).any fun group => group.userId = userId && group.isActive

def reasonOf (ad : Ad) (account : Option MessengerAccount) (anyGroupOn : Bool) : String :=
  if effectiveAdStatus ad = adStatusDraft then reasonAdDraft
  else if account.all fun a => a.status ≠ "active" then reasonAccountOff
  else if anyGroupOn then ""
  else reasonGroupsOff

def itemOf (rows : List Row) (r : Row) : UpcomingSend where
  scheduleId := r.1.1
  adId := r.1.2.adId
  adTitle := r.2.1.title
  nextRunAt := r.1.2.nextRunAt
  groupCount := r.1.2.groupIds.length
  messengerType := r.2.2.map (·.type)
  reason := reasonOf r.2.1 r.2.2 (r.1.2.groupIds.any (groupActive db userId rows))

/-- `upcoming_sends`, on the answer to its query. -/
def upcomingSends (rows : List Row) : List UpcomingSend := rows.map (itemOf db userId rows)

section

variable {db : Database} {userId limit : ℕ} {rows : List Row} {r : Row}

structure Candidate (db : Database) (userId : ℕ) (r : Row) : Prop where
  schedule : db.schedules.row r.1.1 = some r.1.2
  active : r.1.2.isActive = true
  ad : db.ads.row r.1.2.adId = some r.2.1
  own : r.2.1.userId = userId
  account : r.2.2 = r.1.2.accountId.bind db.accounts.row
  next : ∃ t, r.1.2.nextRunAt = some t

theorem mem_candidates : r ∈ candidates db userId ↔ Candidate db userId r := by
  unfold candidates joined
  rw [List.mem_filterMap]
  constructor
  · rintro ⟨⟨i,s⟩,hmem,hjoined⟩
    obtain ⟨hrow,hactive⟩ := Store.mem_select.mp hmem
    rw [Bool.and_eq_true,Option.isSome_iff_exists] at hactive
    obtain ⟨ad,had,rfl⟩ := Option.map_eq_some_iff.mp hjoined
    obtain ⟨hfound,hown⟩ := Option.filter_eq_some_iff.mp had
    exact ⟨hrow,hactive.1,hfound,by simpa using hown,rfl,hactive.2⟩
  · intro h
    obtain ⟨t,ht⟩ := h.next
    refine ⟨r.1,Store.mem_select.mpr ⟨h.schedule,by simp [h.active,ht]⟩,?_⟩
    rw [h.ad,Option.filter_some,if_pos (by simpa using h.own),Option.map_some,← h.account]

theorem Answer.mem (h : Answer db userId limit rows) (hr : r ∈ rows) : Candidate db userId r := by
  obtain ⟨l,hperm,_,rfl⟩ := h
  exact mem_candidates.mp (hperm.mem_iff.mp (List.mem_of_mem_take hr))

theorem Answer.shown_or_full (h : Answer db userId limit rows) (hr : Candidate db userId r) :
    r ∈ rows ∨ rows.length = limit ∧ ∀ shown ∈ rows, Row.nextRunAt shown ≤ Row.nextRunAt r := by
  obtain ⟨l,hperm,hsorted,rfl⟩ := h
  have hmem : r ∈ l := hperm.mem_iff.mpr (mem_candidates.mpr hr)
  rw [← List.take_append_drop limit l,List.mem_append] at hmem
  rcases hmem with hmem | hmem
  · exact .inl hmem
  · right
    have hlt : limit < l.length := by
      have hpos := List.length_pos_of_mem hmem
      rw [List.length_drop] at hpos
      omega
    rw [← List.take_append_drop limit l] at hsorted
    refine ⟨by rw [List.length_take]; omega,fun shown hshown => ?_⟩
    exact (List.pairwise_append.mp hsorted).2.2 shown hshown r hmem

theorem groupActive_of_mem (hr : r ∈ rows) {groupId : ℤ} (hg : groupId ∈ r.1.2.groupIds) :
    groupActive db userId rows groupId
      = (db.groups.find groupId).any fun group => group.userId = userId && group.isActive := by
  have hcontains : (rows.flatMap fun r => r.1.2.groupIds).contains groupId = true := by
    rw [List.contains_iff_mem,List.mem_flatMap]
    exact ⟨r,hr,hg⟩
  rw [groupActive,hcontains,Bool.true_and]

def SendsTo (db : Database) (s : Schedule) (group : Group) : Prop :=
  ∃ groupId ∈ s.groupIds, db.groups.find groupId = some group ∧ group.isActive = true

theorem anyGroupOn_iff (hr : r ∈ rows) :
    r.1.2.groupIds.any (groupActive db userId rows) = true ↔
      ∃ group, SendsTo db r.1.2 group ∧ group.userId = userId := by
  rw [List.any_eq_true]
  constructor
  · rintro ⟨groupId,hg,hon⟩
    rw [groupActive_of_mem hr hg,Option.any_eq_true] at hon
    obtain ⟨group,hfound,hgroup⟩ := hon
    rw [Bool.and_eq_true] at hgroup
    exact ⟨group,⟨groupId,hg,hfound,hgroup.2⟩,by simpa using hgroup.1⟩
  · rintro ⟨group,⟨groupId,hg,hfound,hactive⟩,hown⟩
    refine ⟨groupId,hg,?_⟩
    rw [groupActive_of_mem hr hg,Option.any_eq_true]
    exact ⟨group,hfound,by simp [hactive,hown]⟩

def Ready (r : Row) : Prop :=
  effectiveAdStatus r.2.1 ≠ adStatusDraft ∧ ∃ account, r.2.2 = some account ∧ account.status = "active"

theorem reason_of_not_ready (h : ¬Ready r) (anyGroupOn : Bool) :
    reasonOf r.2.1 r.2.2 anyGroupOn ≠ "" ∧ reasonOf r.2.1 r.2.2 anyGroupOn ≠ reasonGroupsOff := by
  unfold reasonOf
  split
  · exact ⟨by decide,by decide⟩
  next hdraft =>
  split
  · exact ⟨by decide,by decide⟩
  next haccount =>
  refine absurd ⟨hdraft,?_⟩ h
  cases hr : r.2.2 with
  | none => simp [hr] at haccount
  | some account => exact ⟨account,rfl,by simpa [hr] using haccount⟩

theorem reason_of_ready (h : Ready r) (anyGroupOn : Bool) :
    reasonOf r.2.1 r.2.2 anyGroupOn = if anyGroupOn then "" else reasonGroupsOff := by
  obtain ⟨hdraft,account,haccount,hactive⟩ := h
  unfold reasonOf
  rw [if_neg hdraft,if_neg (by simp [haccount,hactive])]

variable {env : Environment} {checkLimit : ℕ → Bool × String}

theorem senderOf_candidate (h : Candidate db userId r) :
    (Ready r → ∃ sender, senderOf (worldOf db checkLimit) r.1.2 = some sender ∧ sender.1.2.userId = userId) ∧
    (¬Ready r → senderOf (worldOf db checkLimit) r.1.2 = none) := by
  have had : (worldOf db checkLimit).ad r.1.2.adId = some r.2.1 := h.ad
  have haccounts : ∀ i, (worldOf db checkLimit).account i = db.accounts.row i := fun _ => rfl
  have haccount := h.account
  unfold senderOf
  rw [had]
  constructor
  · rintro ⟨hdraft,account,hfound,hactive⟩
    rw [hfound] at haccount
    obtain ⟨accountId,hid,hrow⟩ := Option.bind_eq_some_iff.mp haccount.symm
    rw [hid]
    dsimp only
    rw [haccounts,hrow]
    refine ⟨((r.1.2.adId,r.2.1),(accountId,account)),?_,h.own⟩
    dsimp only
    rw [if_neg (by simp [hactive,hdraft])]
  · intro hready
    cases hid : r.1.2.accountId with
    | none => rfl
    | some accountId =>
      dsimp only
      rw [haccounts]
      cases hrow : db.accounts.row accountId with
      | none => rfl
      | some account =>
        dsimp only
        rw [if_pos]
        by_contra hboth
        rw [not_or,not_not] at hboth
        exact hready ⟨hboth.2,account,by rw [haccount,hid,Option.bind_some,hrow],hboth.1⟩

theorem groupTasks_ne_nil {sender : (ℕ × Ad) × (ℕ × MessengerAccount)} {scheduleId : ℕ} {s : Schedule} :
    groupTasks env (worldOf db checkLimit) sender scheduleId s.groupIds ≠ [] ↔ ∃ group, SendsTo db s group := by
  have hgroups : ∀ g, (worldOf db checkLimit).group g = db.groups.find g := fun _ => rfl
  unfold groupTasks
  rw [← List.length_pos_iff,List.length_pos_iff_exists_mem]
  constructor
  · rintro ⟨task,hmem⟩
    obtain ⟨groupId,hg,htask⟩ := List.mem_filterMap.mp hmem
    obtain ⟨group,hfound,hbuilt⟩ := Option.bind_eq_some_iff.mp htask
    split at hbuilt
    next hactive => exact ⟨group,groupId,hg,(hgroups groupId).symm.trans hfound,hactive⟩
    · cases hbuilt
  · rintro ⟨group,groupId,hg,hfound,hactive⟩
    refine ⟨buildDispatchTask env sender.1.1 sender.1.2 groupId group sender.2.1 sender.2.2 (some scheduleId),?_⟩
    refine List.mem_filterMap.mpr ⟨groupId,hg,?_⟩
    rw [hgroups,hfound,Option.bind_some,if_pos hactive]

theorem batch_ne_nil (h : Candidate db userId r) :
    batch env (worldOf db checkLimit) r.1 ≠ [] ↔
      Ready r ∧ (userSendVerdict (worldOf db checkLimit) userId).1 = true ∧ ∃ group, SendsTo db r.1.2 group := by
  obtain ⟨hready,hnot⟩ := senderOf_candidate h
  unfold batch
  by_cases hr : Ready r
  · obtain ⟨sender,hsender,hown⟩ := hready hr
    rw [hsender]
    dsimp only
    rw [hown]
    by_cases hallowed : (userSendVerdict (worldOf db checkLimit) userId).1 = true
    · rw [if_pos hallowed,groupTasks_ne_nil]
      simp [hr,hallowed]
    · rw [if_neg hallowed]
      simp [hallowed]
  · rw [hnot hr]
    simp [hr]

theorem tasksOf_due {now : Instant} {due : List (ℕ × Schedule)} {after : Store Schedule} {tasks : List DispatchTask}
    (hselects : Selects db.schedules now due)
    (hran : checkSchedules env (worldOf db checkLimit) db.schedules now due = .ok (after,tasks))
    (h : Candidate db userId r) (hdue : Row.nextRunAt r ≤ now) :
    tasksOf r.1.1 tasks = batch env (worldOf db checkLimit) r.1 := by
  obtain ⟨t,ht⟩ := h.next
  have hle : t ≤ now := by simpa [Row.nextRunAt,ht] using hdue
  have hmem : r.1 ∈ due := hselects.mem_iff.mpr ⟨h.schedule,by simp [isDue,h.active,ht,hle]⟩
  rw [(runResult_of_checkSchedules hselects hran).dispatched]
  exact tasksOf_flatMap hselects.nodup hmem

end

theorem announced {db : Database} {userId limit : ℕ} {rows : List Row} (hanswer : Answer db userId limit rows)
    {env : Environment} {checkLimit : ℕ → Bool × String} {now : Instant} {due : List (ℕ × Schedule)}
    {after : Store Schedule} {tasks : List DispatchTask} (hselects : Selects db.schedules now due)
    (hran : checkSchedules env (worldOf db checkLimit) db.schedules now due = .ok (after,tasks)) {r : Row}
    (hr : r ∈ rows) (hdue : Row.nextRunAt r ≤ now) :
    tasksOf (itemOf db userId rows r).scheduleId tasks ≠ [] ↔
      (userSendVerdict (worldOf db checkLimit) userId).1 = true ∧
      ((itemOf db userId rows r).reason = "" ∨ (itemOf db userId rows r).reason = reasonGroupsOff ∧
        ∃ group, SendsTo db r.1.2 group ∧ group.userId ≠ userId) := by
  have hcandidate := hanswer.mem hr
  have hreason : (itemOf db userId rows r).reason
      = reasonOf r.2.1 r.2.2 (r.1.2.groupIds.any (groupActive db userId rows)) := rfl
  have hid : (itemOf db userId rows r).scheduleId = r.1.1 := rfl
  rw [hid,tasksOf_due hselects hran hcandidate hdue,batch_ne_nil hcandidate,hreason]
  by_cases hready : Ready r
  · rw [reason_of_ready hready]
    by_cases hany : r.1.2.groupIds.any (groupActive db userId rows) = true
    · obtain ⟨group,hgroup,_⟩ := (anyGroupOn_iff hr).mp hany
      rw [if_pos hany]
      exact ⟨fun h => ⟨h.2.1,.inl rfl⟩,fun h => ⟨hready,h.1,group,hgroup⟩⟩
    · rw [if_neg hany]
      constructor
      · rintro ⟨_,hopen,group,hgroup⟩
        refine ⟨hopen,.inr ⟨rfl,group,hgroup,fun hown => ?_⟩⟩
        exact hany ((anyGroupOn_iff hr).mpr ⟨group,hgroup,hown⟩)
      · rintro ⟨hopen,hempty | ⟨_,group,hgroup,_⟩⟩
        · exact absurd hempty (by decide)
        · exact ⟨hready,hopen,group,hgroup⟩
  · obtain ⟨hne,hneGroups⟩ := reason_of_not_ready hready (r.1.2.groupIds.any (groupActive db userId rows))
    constructor
    · exact fun h => absurd h.1 hready
    · rintro ⟨_,hempty | ⟨hgroups,_⟩⟩
      · exact absurd hempty hne
      · exact absurd hgroups hneGroups

theorem candidate_of_tasks {db : Database} {userId : ℕ} {env : Environment} {checkLimit : ℕ → Bool × String}
    {now : Instant} {due : List (ℕ × Schedule)} {after : Store Schedule} {tasks : List DispatchTask}
    (hselects : Selects db.schedules now due)
    (hran : checkSchedules env (worldOf db checkLimit) db.schedules now due = .ok (after,tasks))
    {i : ℕ} {s : Schedule} {ad : Ad} (hrow : db.schedules.row i = some s) (had : db.ads.row s.adId = some ad)
    (hown : ad.userId = userId) (htasks : tasksOf i tasks ≠ []) :
    Candidate db userId ((i,s),ad,s.accountId.bind db.accounts.row) := by
  have hmem : i ∈ due.map Prod.fst := by
    by_contra hnot
    rw [(runResult_of_checkSchedules hselects hran).dispatched] at htasks
    exact htasks (tasksOf_flatMap_of_notMem hnot)
  obtain ⟨⟨j,s'⟩,hdue,hj⟩ := List.mem_map.mp hmem
  obtain ⟨hrow',hisDue⟩ := hselects.mem_iff.mp hdue
  dsimp only at hj
  subst hj
  obtain rfl := Option.some.inj (hrow.symm.trans hrow')
  obtain ⟨hactive,t,ht,_⟩ := isActive_of_isDue hisDue
  exact ⟨hrow,hactive,had,hown,rfl,t,ht⟩

/-- The block against a run of the planner over the same tables. For a schedule that is due the run
dispatches something exactly when the access of the user is open and the block gives no reason, or
gives the reason that all groups are off while an active group of somebody else stands in the
schedule. A schedule of the user that the run dispatches for is in the block, unless the block is
full of schedules that are not later. -/
theorem upcoming_agrees_with_planner {db : Database} {userId limit : ℕ} {rows : List Row}
    (hanswer : Answer db userId limit rows) {env : Environment} {checkLimit : ℕ → Bool × String} {now : Instant}
    {due : List (ℕ × Schedule)} {after : Store Schedule} {tasks : List DispatchTask}
    (hselects : Selects db.schedules now due)
    (hran : checkSchedules env (worldOf db checkLimit) db.schedules now due = .ok (after,tasks)) :
    (∀ item ∈ upcomingSends db userId rows, ∃ s t, db.schedules.row item.scheduleId = some s ∧
      item.nextRunAt = some t ∧ (t ≤ now → (tasksOf item.scheduleId tasks ≠ [] ↔
        (userSendVerdict (worldOf db checkLimit) userId).1 = true ∧
        (item.reason = "" ∨ item.reason = reasonGroupsOff ∧
          ∃ group, SendsTo db s group ∧ group.userId ≠ userId)))) ∧
    ∀ i s ad, db.schedules.row i = some s → db.ads.row s.adId = some ad → ad.userId = userId →
      tasksOf i tasks ≠ [] → (∃ item ∈ upcomingSends db userId rows, item.scheduleId = i) ∨
        (upcomingSends db userId rows).length = limit ∧
          ∀ shown ∈ upcomingSends db userId rows, shown.nextRunAt.getD 0 ≤ s.nextRunAt.getD 0 := by
  constructor
  · intro item hitem
    obtain ⟨r,hr,rfl⟩ := List.mem_map.mp hitem
    have hcandidate := hanswer.mem hr
    obtain ⟨t,ht⟩ := hcandidate.next
    refine ⟨r.1.2,t,hcandidate.schedule,ht,fun hdue => announced hanswer hselects hran hr ?_⟩
    simpa [Row.nextRunAt,ht] using hdue
  · intro i s ad hrow had hown htasks
    have hcandidate := candidate_of_tasks hselects hran hrow had hown htasks
    rcases hanswer.shown_or_full hcandidate with hshown | ⟨hfull,hbefore⟩
    · exact .inl ⟨_,List.mem_map_of_mem hshown,rfl⟩
    · exact .inr ⟨(List.length_map _).trans hfull,List.forall_mem_map.mpr hbefore⟩

def oneMonday : Database where
  users := .empty User
  ads := ((Store.empty Ad).insert ⟨1,"a","",[],"draft"⟩).insert ⟨1,"title","text",[],"published"⟩
  accounts := ((Store.empty MessengerAccount).insert ⟨1,"wa","off"⟩).insert ⟨1,"tg_user","active"⟩
  groups := ((Store.empty Group).insert ⟨1,1,"c","g",false,none⟩).insert ⟨1,1,"chat","group",true,none⟩
  schedules := healthyTable

def mondayRow : Row := ((0,mondays ["09:00"]),⟨1,"title","text",[],"published"⟩,some ⟨1,"tg_user","active"⟩)

def mondayItem : UpcomingSend := ⟨0,1,"title",some 0,1,some "tg_user",""⟩

theorem upcoming_agrees_with_planner_monday : ∃ after tasks,
    checkSchedules utc (worldOf oneMonday fun _ => (true,"")) healthyTable 0 [(0,mondays ["09:00"])]
      = .ok (after,tasks) ∧ upcomingSends oneMonday 1 [mondayRow] = [mondayItem] ∧ tasksOf 0 tasks ≠ [] := by
  have hselects : Selects oneMonday.schedules 0 [(0,mondays ["09:00"])] := by decide
  have hanswer : Answer oneMonday 1 upcomingLimit [mondayRow] :=
    ⟨[mondayRow],.of_eq (by rfl),List.pairwise_singleton _ _,rfl⟩
  have hnext : ∀ row ∈ [(0,mondays ["09:00"])], ∃ t, nextRunOf utc row.2 0 = .ok (some t) := by
    intro row hrow
    rw [List.mem_singleton.mp hrow]
    exact ⟨32400000000,by rfl⟩
  obtain ⟨after,tasks,hran⟩ := exists_checkSchedules hselects hnext
  have hitem : upcomingSends oneMonday 1 [mondayRow] = [mondayItem] := by rfl
  obtain ⟨_,t,_,ht,hiff⟩ := (upcoming_agrees_with_planner hanswer hselects hran).1 mondayItem
    (hitem ▸ List.mem_cons_self)
  obtain rfl : 0 = t := Option.some.inj ht
  exact ⟨after,tasks,hran,hitem,(hiff (le_refl _)).mpr ⟨by rfl,.inl rfl⟩⟩

end UpcomingSends
end Broadcaster
