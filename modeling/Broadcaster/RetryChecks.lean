import Broadcaster.RetryWindow
import Broadcaster.ScheduleRoutes
import Broadcaster.Scheduling

/-!
# The three checks of a retry

The button of a journal record, the handler of the button and the task that the
handler enqueues each decide whether the record can be sent again. The broker
takes what it is given, and the verdict on the access is the same for all three.
-/

namespace Broadcaster
namespace RetryChecks

open ScheduleRoutes Scheduling

def statusOk : String := "ok"

/-- `ad_id` and `group_id` are plain integers and may lead to any row or to none. -/
structure SendLog where
  userId : ℕ
  scheduleId : Option ℕ
  adId : Option ℤ
  groupId : Option ℤ
  status : String
  deriving DecidableEq

/-- The ids of a table are positive and fit into their column. -/
def InColumn {Row : Type} (s : Store Row) : Prop :=
  ∀ i row, s.row i = some row → idInColumn i = true

structure Journal where
  db : Database
  logs : Store SendLog
  groupIds : InColumn db.groups
  accountIds : InColumn db.accounts
  logIds : InColumn logs

/-- A value that is an `if` of its own: neither `None` nor zero. -/
def given (x : Option ℤ) : Option ℤ := x.filter fun i => i ≠ 0

inductive RetryReason
  | adGone | adDraft | groupGone | groupOff | accountGone | accountOff
  deriving DecidableEq

def RetryReason.text : RetryReason → String
  | .adGone => "Объявление удалено"
  | .adDraft => "Объявление в черновике"
  | .groupGone => "Группа удалена"
  | .groupOff => "Группа выключена"
  | .accountGone => "Аккаунт удалён"
  | .accountOff => "Аккаунт отключён"

/-- A record of a page with its id, and what the outer join has found for its group. -/
abbrev Row := (ℕ × SendLog) × Option Group

/-- The records of a page, all of one user, in the order in which they are listed. -/
structure Page (j : Journal) (userId : ℕ) where
  logs : List (ℕ × SendLog)
  stored : ∀ r ∈ logs, j.logs.row r.1 = some r.2
  owned : ∀ r ∈ logs, r.2.userId = userId

def outerJoin (db : Database) (logs : List (ℕ × SendLog)) : List Row :=
  logs.map fun r => (r,r.2.groupId.bind db.groups.find)

/-- The statuses of the ads that the page names and the user has. -/
def liveAds (db : Database) (candidates : List Row) (userId : ℕ) (adId : ℤ) : Option String :=
  if adId ∈ candidates.filterMap fun r => given r.1.2.adId then
    ((db.ads.find adId).filter fun ad => ad.userId = userId).map Ad.status
  else none

/-- The statuses of the accounts that the groups of the page name and the user has. -/
def accountStatus (db : Database) (candidates : List Row) (userId accountId : ℕ) : Option String :=
  if accountId ∈ (candidates.filterMap Prod.snd).filterMap
      (fun group => if group.accountId = 0 then none else some group.accountId) then
    ((db.accounts.row accountId).filter fun account => account.userId = userId).map MessengerAccount.status
  else none

def blocker (ads : ℤ → Option String) (accounts : ℕ → Option String) (log : SendLog)
    (group : Option Group) : Option RetryReason :=
  match (given log.adId).bind ads with
  | none => some .adGone
  | some adStatus =>
    if effectiveStatusValue adStatus = adStatusDraft then some .adDraft
    else match group with
      | none => some .groupGone
      | some group =>
        if ¬ group.isActive then some .groupOff
        else match if group.accountId = 0 then none else accounts group.accountId with
          | none => some .accountGone
          | some status => if status ≠ "active" then some .accountOff else none

/-- The dictionary of verdicts: no entry for a record that is not asked about. -/
def retryAvailability (db : Database) (rows : List Row) (userId : ℕ) : ℕ → Option (Option RetryReason) :=
  let candidates := rows.filter fun r => r.1.2.status ≠ statusOk
  candidates.foldl (fun verdict r => Function.update verdict r.1.1
    (some (blocker (liveAds db candidates userId) (accountStatus db candidates userId) r.1.2 r.2)))
    fun _ => none

inductive Reply
  | history | retryBusy | retryGone | retryAccessClosed | retryQueued
  deriving DecidableEq

/-- The handler from the reading of the record on. The registry and the queue are those of the window. -/
def historyRetry (j : Journal) (checkLimit : ℕ → Bool × String) (w : RetryWindow.Db) (userId : ℕ)
    (logId : ℤ) : RetryWindow.Db × Reply :=
  match if idInColumn logId then j.logs.find logId else none with
  | none => (w,.history)
  | some log =>
    if log.userId ≠ userId then (w,.history)
    else if log.status = statusOk then (w,.history)
    else match RetryWindow.claimRetrySlot w logId.toNat w.clock with
      | (w,false) => (w,.retryBusy)
      | (w,true) =>
        let group := ((given log.groupId).bind j.db.groups.find).filter fun group => group.userId = userId
        let ad := ((given log.adId).bind j.db.ads.find).filter fun ad => ad.userId = userId
        let account := (group.bind fun group =>
          if group.accountId = 0 then none else j.db.accounts.row group.accountId).filter
            fun account => account.userId = userId
        match ad, group, account with
        | some ad, some group, some account =>
          if effectiveAdStatus ad = adStatusDraft ∨ ¬ group.isActive ∨ account.status ≠ "active" then
            (RetryWindow.releaseRetrySlot w logId.toNat,.retryGone)
          else if (checkLimit userId).1 then
            (RetryWindow.enqueue w logId.toNat w.clock w.clock,.retryQueued)
          else (RetryWindow.releaseRetrySlot w logId.toNat,.retryAccessClosed)
        | _, _, _ => (RetryWindow.releaseRetrySlot w logId.toNat,.retryGone)

inductive Queue
  | telegram | wa (accountId : ℕ) | max (accountId : ℕ)
  deriving DecidableEq

def queueOf (task : DispatchTask) : Option Queue :=
  if task.type = "tg_user" then some .telegram
  else if task.type = "wa" then some (.wa task.accountId)
  else if task.type = "max" then some (.max task.accountId)
  else none

/-- What is appended to each queue, and the number of tasks that found one. -/
def dispatchSendTasks (tasks : List DispatchTask) : (Queue → List DispatchTask) × ℕ :=
  (fun queue => tasks.filter fun task => queueOf task = some queue,
    (tasks.filter fun task => (queueOf task).isSome).length)

inductive Stop
  | logNotOwned | missingEntity | accountNotActive | adIsDraft | groupInactive | accessClosed
  | unroutedAccountType
  deriving DecidableEq

def retrySend (env : Environment) (j : Journal) (checkLimit : ℕ → Bool × String) (logId userId : ℕ) :
    Except Stop (Queue → List DispatchTask) :=
  match j.logs.row logId with
  | none => .error .logNotOwned
  | some log =>
    if log.userId ≠ userId then .error .logNotOwned
    else
      let group := (given log.groupId).bind j.db.groups.find
      let ad := (given log.adId).bind j.db.ads.find
      let account := group.bind fun group => j.db.accounts.row group.accountId
      match ad, group, account with
      | some ad, some group, some account =>
        if account.status ≠ "active" then .error .accountNotActive
        else if effectiveAdStatus ad = adStatusDraft then .error .adIsDraft
        else if ¬ group.isActive then .error .groupInactive
        else if ¬ (checkLimit userId).1 then .error .accessClosed
        else
          let task := buildDispatchTask env (log.adId.getD 0).toNat ad (log.groupId.getD 0) group
            group.accountId account log.scheduleId
          let dispatched := dispatchSendTasks [task]
          if dispatched.2 = 0 then .error .unroutedAccountType else .ok dispatched.1
      | _, _, _ => .error .missingEntity

/-- The three entities that a record leads to, whoever they belong to. -/
structure Entities where
  ad : Ad
  group : Group
  account : MessengerAccount

def entitiesOf (db : Database) (log : SendLog) : Option Entities := do
  let ad ← (given log.adId).bind db.ads.find
  let group ← log.groupId.bind db.groups.find
  let account ← db.accounts.row group.accountId
  return ⟨ad,group,account⟩

structure Entities.On (e : Entities) : Prop where
  published : effectiveAdStatus e.ad ≠ adStatusDraft
  switchedOn : e.group.isActive = true
  connected : e.account.status = "active"

theorem Entities.on_iff {e : Entities} : e.On ↔ ¬ (effectiveAdStatus e.ad = adStatusDraft ∨
    ¬ e.group.isActive = true ∨ e.account.status ≠ "active") := by
  constructor
  · rintro ⟨hpublished,hactive,hconnected⟩ (h | h | h)
    · exact hpublished h
    · exact h hactive
    · exact h hconnected
  · intro h
    simp only [not_or,ne_eq,Decidable.not_not] at h
    exact ⟨h.1,h.2.1,h.2.2⟩

def Entities.routed (e : Entities) : Prop :=
  e.account.type = "tg_user" ∨ e.account.type = "wa" ∨ e.account.type = "max"

/-- No request for the record holds its window. -/
def windowFree (w : RetryWindow.Db) (logId : ℕ) : Prop := ∀ deadline ∈ w.inFlight logId, deadline ≤ w.clock

def agreesOn (userId logId : ℕ) (w : RetryWindow.Db) (e : Entities) : Prop :=
  (e.ad.userId = userId ∧ e.group.userId = userId ∧ e.account.userId = userId ∧ e.routed ∧
    windowFree w logId) ∨
  (¬ (e.ad.userId = userId ∧ e.account.userId = userId) ∧ ¬ e.routed)

variable {Row' : Type} {j : Journal} {checkLimit : ℕ → Bool × String} {w : RetryWindow.Db}
variable {env : Environment} {userId i : ℕ} {log : SendLog} {db : Database} {candidates : List Row}

theorem given_eq_some {x : Option ℤ} {n : ℤ} : given x = some n ↔ x = some n ∧ n ≠ 0 := by
  simp [given,Option.filter_eq_some_iff]

theorem InColumn.ne_zero {s : Store Row'} {n : ℕ} {row : Row'} (h : InColumn s) (hn : s.row n = some row) :
    n ≠ 0 := by
  rintro rfl
  exact absurd (h 0 row hn) (by decide)

/-- No row has the id that an `if` takes for a missing one. -/
theorem InColumn.given_bind_find {s : Store Row'} (h : InColumn s) (x : Option ℤ) :
    (given x).bind s.find = x.bind s.find := by
  cases x with
  | none => rfl
  | some n =>
    by_cases hn : n = 0
    · subst hn
      cases hrow : s.row 0 with
      | none => exact hrow.symm
      | some row => exact absurd rfl (h.ne_zero hrow)
    · rw [given_eq_some.mpr ⟨rfl,hn⟩]

theorem entitiesOf_eq_some {e : Entities} : entitiesOf db log = some e ↔
    (given log.adId).bind db.ads.find = some e.ad ∧ log.groupId.bind db.groups.find = some e.group ∧
      db.accounts.row e.group.accountId = some e.account := by
  unfold entitiesOf
  simp only [Option.bind_eq_bind,Option.bind_eq_some_iff,Option.pure_def,Option.some.injEq]
  constructor
  · rintro ⟨ad,had,group,hgroup,account,haccount,rfl⟩
    exact ⟨had,hgroup,haccount⟩
  · rintro ⟨had,hgroup,haccount⟩
    exact ⟨e.ad,had,e.group,hgroup,e.account,haccount,rfl⟩

theorem entities_exists_iff {P : Entities → Prop} : (∃ e, entitiesOf db log = some e ∧ P e) ↔
    ∃ ad, (given log.adId).bind db.ads.find = some ad ∧ ∃ group, log.groupId.bind db.groups.find = some group ∧
      ∃ account, db.accounts.row group.accountId = some account ∧ P ⟨ad,group,account⟩ := by
  constructor
  · rintro ⟨e,he,hP⟩
    obtain ⟨had,hgroup,haccount⟩ := entitiesOf_eq_some.mp he
    exact ⟨e.ad,had,e.group,hgroup,e.account,haccount,hP⟩
  · rintro ⟨ad,had,group,hgroup,account,haccount,hP⟩
    exact ⟨⟨ad,group,account⟩,entitiesOf_eq_some.mpr ⟨had,hgroup,haccount⟩,hP⟩

theorem liveAds_eq_some {r : Row} {adId : ℤ} {status : String} (hr : r ∈ candidates)
    (hgiven : given r.1.2.adId = some adId) : liveAds db candidates userId adId = some status ↔
      ∃ ad, db.ads.find adId = some ad ∧ ad.userId = userId ∧ ad.status = status := by
  have hmem : adId ∈ candidates.filterMap fun r => given r.1.2.adId :=
    List.mem_filterMap.mpr ⟨r,hr,hgiven⟩
  rw [liveAds,if_pos hmem]
  simp [Option.filter_eq_some_iff,and_assoc]

theorem accountStatus_eq_some {r : Row} {group : Group} {status : String} (hr : r ∈ candidates)
    (hgroup : r.2 = some group) (hid : group.accountId ≠ 0) :
    accountStatus db candidates userId group.accountId = some status ↔
      ∃ account, db.accounts.row group.accountId = some account ∧ account.userId = userId ∧
        account.status = status := by
  have hmem : group.accountId ∈ (candidates.filterMap Prod.snd).filterMap
      (fun group => if group.accountId = 0 then none else some group.accountId) :=
    List.mem_filterMap.mpr ⟨group,List.mem_filterMap.mpr ⟨r,hr,hgroup⟩,if_neg hid⟩
  rw [accountStatus,if_pos hmem]
  simp [Option.filter_eq_some_iff,and_assoc]

theorem blocker_eq_none {ads : ℤ → Option String} {accounts : ℕ → Option String} {group : Option Group} :
    blocker ads accounts log group = none ↔ ∃ adStatus g, (given log.adId).bind ads = some adStatus ∧
      effectiveStatusValue adStatus ≠ adStatusDraft ∧ group = some g ∧ g.isActive = true ∧
        g.accountId ≠ 0 ∧ accounts g.accountId = some "active" := by
  unfold blocker
  cases (given log.adId).bind ads with
  | none => simp
  | some adStatus =>
    by_cases hdraft : effectiveStatusValue adStatus = adStatusDraft
    · simp [hdraft]
    · cases group with
      | none => simp [hdraft]
      | some g =>
        cases hactive : g.isActive with
        | false => simp [hdraft,hactive]
        | true =>
          by_cases hid : g.accountId = 0
          · simp [hdraft,hactive,hid]
          · cases haccount : accounts g.accountId <;> simp [hdraft,hactive,hid,haccount]

theorem blocker_eq_none_iff {r : Row} (haccounts : InColumn db.accounts) (hr : r ∈ candidates)
    (hjoin : r.2 = r.1.2.groupId.bind db.groups.find) :
    blocker (liveAds db candidates userId) (accountStatus db candidates userId) r.1.2 r.2 = none ↔
      ∃ e, entitiesOf db r.1.2 = some e ∧ e.On ∧ e.ad.userId = userId ∧ e.account.userId = userId := by
  rw [blocker_eq_none]
  constructor
  · rintro ⟨adStatus,group,hads,hdraft,hgroup,hactive,hid,haccount⟩
    obtain ⟨adId,hgiven,hlive⟩ := Option.bind_eq_some_iff.mp hads
    obtain ⟨ad,had,hadOwner,rfl⟩ := (liveAds_eq_some hr hgiven).mp hlive
    obtain ⟨account,hrow,howner,hstatus⟩ := (accountStatus_eq_some hr hgroup hid).mp haccount
    have hfound : (given r.1.2.adId).bind db.ads.find = some ad :=
      Option.bind_eq_some_iff.mpr ⟨adId,hgiven,had⟩
    refine ⟨⟨ad,group,account⟩,entitiesOf_eq_some.mpr ⟨hfound,?_,hrow⟩,⟨hdraft,hactive,hstatus⟩,hadOwner,howner⟩
    rw [← hjoin]
    exact hgroup
  · rintro ⟨e,he,hon,hadOwner,howner⟩
    obtain ⟨had,hgroup,hrow⟩ := entitiesOf_eq_some.mp he
    obtain ⟨adId,hgiven,hfound⟩ := Option.bind_eq_some_iff.mp had
    have hlive := (liveAds_eq_some hr hgiven).mpr ⟨e.ad,hfound,hadOwner,rfl⟩
    have hid := haccounts.ne_zero hrow
    have hgroup : r.2 = some e.group := hjoin.trans hgroup
    refine ⟨e.ad.status,e.group,Option.bind_eq_some_iff.mpr ⟨adId,hgiven,hlive⟩,hon.published,hgroup,
      hon.switchedOn,hid,?_⟩
    exact (accountStatus_eq_some hr hgroup hid).mpr ⟨e.account,hrow,howner,hon.connected⟩

theorem foldl_update_eq_some {α β : Type} {key : α → ℕ} {value : α → β} {v : β} (rows : List α)
    (hsame : ∀ r ∈ rows, key r = i → value r = v) (d : ℕ → Option β)
    (hsome : d i = some v ∨ ∃ r ∈ rows, key r = i) :
    rows.foldl (fun d r => Function.update d (key r) (some (value r))) d i = some v := by
  induction rows generalizing d with
  | nil =>
    rcases hsome with hd | ⟨r,hr,_⟩
    · exact hd
    · cases hr
  | cons r rows ih =>
    refine ih (fun s hs => hsame s (List.mem_cons_of_mem r hs)) _ ?_
    by_cases hkey : key r = i
    · refine .inl ?_
      show Function.update d (key r) (some (value r)) i = some v
      rw [hkey,Function.update_self,hsame r List.mem_cons_self hkey]
    · show Function.update d (key r) (some (value r)) i = some v ∨ _
      rw [Function.update_of_ne (Ne.symm hkey)]
      rcases hsome with hd | ⟨s,hs,hi⟩
      · exact .inl hd
      · rcases List.mem_cons.mp hs with rfl | hs
        · exact absurd hi hkey
        · exact .inr ⟨s,hs,hi⟩

theorem retryAvailability_iff (page : Page j userId) (hmem : (i,log) ∈ page.logs)
    (hfailed : log.status ≠ statusOk) :
    retryAvailability j.db (outerJoin j.db page.logs) userId i = some none ↔
      ∃ e, entitiesOf j.db log = some e ∧ e.On ∧ e.ad.userId = userId ∧ e.account.userId = userId := by
  let candidates := (outerJoin j.db page.logs).filter fun r => r.1.2.status ≠ statusOk
  let row : Row := ((i,log),log.groupId.bind j.db.groups.find)
  have hrow : row ∈ candidates := by
    refine List.mem_filter.mpr ⟨List.mem_map.mpr ⟨(i,log),hmem,rfl⟩,?_⟩
    simpa using hfailed
  have hsame : ∀ r ∈ candidates, r.1.1 = i →
      blocker (liveAds j.db candidates userId) (accountStatus j.db candidates userId) r.1.2 r.2 =
        blocker (liveAds j.db candidates userId) (accountStatus j.db candidates userId) log row.2 := by
    intro r hr hi
    obtain ⟨s,hs,rfl⟩ := List.mem_map.mp (List.mem_filter.mp hr).1
    obtain ⟨n,stored⟩ := s
    have hi : n = i := hi
    subst hi
    have hlog : stored = log := Option.some.inj ((page.stored _ hs).symm.trans (page.stored _ hmem))
    rw [hlog]
  have hentry : retryAvailability j.db (outerJoin j.db page.logs) userId i =
      some (blocker (liveAds j.db candidates userId) (accountStatus j.db candidates userId) log row.2) :=
    foldl_update_eq_some candidates hsame _ (.inr ⟨row,hrow,rfl⟩)
  rw [hentry,Option.some.injEq]
  exact blocker_eq_none_iff (r := row) j.accountIds hrow rfl

theorem claimRetrySlot_snd (w : RetryWindow.Db) (i : ℕ) :
    (RetryWindow.claimRetrySlot w i w.clock).2 = true ↔ windowFree w i := by
  unfold RetryWindow.claimRetrySlot windowFree
  cases hin : w.inFlight i with
  | none => simp [RetryWindow.Db.swept,RetryWindow.sweep,hin]
  | some deadline =>
    by_cases hlive : w.clock < deadline
    · simp [RetryWindow.Db.swept,RetryWindow.sweep,hin,hlive,Option.filter]
    · simp [RetryWindow.Db.swept,RetryWindow.sweep,hin,hlive,Option.filter,Nat.not_lt.mp hlive]

theorem historyRetry_iff (hlog : j.logs.row i = some log) (howner : log.userId = userId)
    (hfailed : log.status ≠ statusOk) (hopen : (checkLimit userId).1 = true) :
    (historyRetry j checkLimit w userId i).2 = .retryQueued ↔ windowFree w i ∧
      ∃ e, entitiesOf j.db log = some e ∧ e.On ∧ e.ad.userId = userId ∧ e.group.userId = userId ∧
        e.account.userId = userId := by
  have hread : (if idInColumn (i : ℤ) then j.logs.find i else none) = some log := by
    rw [if_pos (j.logIds i log hlog)]
    exact hlog
  rw [← claimRetrySlot_snd]
  unfold historyRetry
  rw [hread]
  simp only [howner,hfailed,hopen,ne_eq,not_true_eq_false,if_false,if_true,Int.toNat_natCast,
    j.groupIds.given_bind_find]
  rcases hclaim : RetryWindow.claimRetrySlot w i w.clock with ⟨w',free⟩
  cases free with
  | false => simp
  | true =>
    rw [entities_exists_iff]
    cases had : (given log.adId).bind j.db.ads.find with
    | none => simp
    | some ad =>
      cases hgroup : log.groupId.bind j.db.groups.find with
      | none => simp
      | some group =>
        by_cases hadOwner : ad.userId = userId
        · by_cases hgroupOwner : group.userId = userId
          · cases haccount : j.db.accounts.row group.accountId with
            | none => simp [hadOwner,hgroupOwner,haccount,Option.filter]
            | some account =>
              have hid := j.accountIds.ne_zero haccount
              by_cases haccountOwner : account.userId = userId
              · have hfilters : ((some ad).filter fun ad => ad.userId = userId) = some ad ∧
                    ((some group).filter fun group => group.userId = userId) = some group ∧
                    ((some account).filter fun account => account.userId = userId) = some account := by
                  simp [hadOwner,hgroupOwner,haccountOwner,Option.filter]
                simp only [hfilters,haccount,Option.bind_some,if_neg hid,Option.some.injEq,exists_eq_left',
                  Entities.on_iff,hadOwner,hgroupOwner,haccountOwner,and_true,true_and]
                split
                · rename_i hoff
                  exact ⟨fun h => (by cases h),fun h => absurd hoff h⟩
                · rename_i hon
                  exact ⟨fun _ => hon,fun _ => rfl⟩
              · simp [hadOwner,hgroupOwner,haccount,haccountOwner,hid,Option.filter]
          · simp [hadOwner,hgroupOwner,Option.filter]
        · simp [hadOwner,Option.filter]

theorem dispatchSendTasks_eq_zero (task : DispatchTask) : (dispatchSendTasks [task]).2 = 0 ↔
    ¬ (task.type = "tg_user" ∨ task.type = "wa" ∨ task.type = "max") := by
  unfold dispatchSendTasks queueOf
  by_cases htg : task.type = "tg_user"
  · simp [htg]
  · by_cases hwa : task.type = "wa"
    · simp [hwa]
    · by_cases hmax : task.type = "max" <;> simp [htg,hwa,hmax]

theorem retrySend_iff (hlog : j.logs.row i = some log) (howner : log.userId = userId)
    (hopen : (checkLimit userId).1 = true) :
    (∃ queued, retrySend env j checkLimit i userId = .ok queued) ↔
      ∃ e, entitiesOf j.db log = some e ∧ e.On ∧ e.routed := by
  unfold retrySend
  rw [hlog,entities_exists_iff]
  simp only [howner,hopen,ne_eq,not_true_eq_false,if_false,j.groupIds.given_bind_find]
  cases had : (given log.adId).bind j.db.ads.find with
  | none => simp
  | some ad =>
    cases hgroup : log.groupId.bind j.db.groups.find with
    | none => simp
    | some group =>
      cases haccount : j.db.accounts.row group.accountId with
      | none => simp [haccount]
      | some account =>
        simp only [Option.bind_some,haccount,dispatchSendTasks_eq_zero,Option.some.injEq,exists_eq_left']
        by_cases hconnected : account.status = "active"
        · by_cases hdraft : effectiveAdStatus ad = adStatusDraft
          · simp [Entities.on_iff,hconnected,hdraft]
          · cases hactive : group.isActive with
            | false => simp [Entities.on_iff,hconnected,hdraft,hactive]
            | true =>
              have hon : Entities.On ⟨ad,group,account⟩ := ⟨hdraft,hactive,hconnected⟩
              have htype : (buildDispatchTask env (log.adId.getD 0).toNat ad (log.groupId.getD 0) group
                  group.accountId account log.scheduleId).type = account.type := rfl
              simp only [hon,hconnected,hdraft,true_and,not_true_eq_false,if_false,htype]
              by_cases hrouted : account.type = "tg_user" ∨ account.type = "wa" ∨ account.type = "max"
              · rw [if_neg (not_not_intro hrouted)]
                exact ⟨fun _ => hrouted,fun _ => ⟨_,rfl⟩⟩
              · rw [if_pos hrouted]
                exact ⟨fun ⟨_,h⟩ => (by cases h),fun h => absurd h hrouted⟩
        · simp [Entities.on_iff,hconnected]

theorem verdicts_agree_iff {ad group account routed free : Prop} :
    ((ad ∧ account ↔ free ∧ ad ∧ group ∧ account) ∧ (free ∧ ad ∧ group ∧ account ↔ routed)) ↔
      (ad ∧ group ∧ account ∧ routed ∧ free) ∨ (¬ (ad ∧ account) ∧ ¬ routed) := by
  constructor
  · rintro ⟨hbutton,htask⟩
    by_cases hmine : ad ∧ account
    · obtain ⟨hfree,had,hgroup,haccount⟩ := hbutton.mp hmine
      exact .inl ⟨had,hgroup,haccount,htask.mp ⟨hfree,had,hgroup,haccount⟩,hfree⟩
    · exact .inr ⟨hmine,fun hrouted => hmine (hbutton.mpr (htask.mpr hrouted))⟩
  · rintro (⟨had,hgroup,haccount,hrouted,hfree⟩ | ⟨hmine,hrouted⟩)
    · exact ⟨⟨fun _ => ⟨hfree,had,hgroup,haccount⟩,fun _ => ⟨had,haccount⟩⟩,
        ⟨fun _ => hrouted,fun _ => ⟨hfree,had,hgroup,haccount⟩⟩⟩
    · have hnot : ¬ (free ∧ ad ∧ group ∧ account) := fun h => hmine ⟨h.2.1,h.2.2.2⟩
      exact ⟨⟨fun h => absurd h hmine,fun h => absurd h hnot⟩,
        ⟨fun h => absurd h hnot,fun h => absurd h hrouted⟩⟩

/-- The button is offered, the handler enqueues the task and the task dispatches in the same cases, for a
failed record of the user on any page of its journal, exactly when an ad, a group and an account that
could be sent with are either all the user's, of a routed type and in a free window, or else of a type
that is not routed and not the user's as far as the button looks. -/
theorem retry_checks_agree_iff (j : Journal) (checkLimit : ℕ → Bool × String) (env : Environment)
    (w : RetryWindow.Db) (userId : ℕ) (page : Page j userId) (i : ℕ) (log : SendLog)
    (hmem : (i,log) ∈ page.logs) (hfailed : log.status ≠ statusOk) (hopen : (checkLimit userId).1 = true) :
    ((retryAvailability j.db (outerJoin j.db page.logs) userId i = some none ↔
        (historyRetry j checkLimit w userId i).2 = .retryQueued) ∧
      ((historyRetry j checkLimit w userId i).2 = .retryQueued ↔
        ∃ queued, retrySend env j checkLimit i userId = .ok queued)) ↔
    ∀ e, entitiesOf j.db log = some e → e.On → agreesOn userId i w e := by
  have hlog := page.stored _ hmem
  have howner := page.owned _ hmem
  rw [retryAvailability_iff page hmem hfailed,historyRetry_iff hlog howner hfailed hopen,
    retrySend_iff hlog howner hopen]
  cases he : entitiesOf j.db log with
  | none => simp
  | some e =>
    by_cases hon : e.On
    · simp only [Option.some.injEq,exists_eq_left',forall_eq',hon,true_and,true_implies,agreesOn]
      exact verdicts_agree_iff
    · simp [hon]

def rowOne {Row : Type} (row : Row) : Store Row where
  size := 2
  row := fun i => if i = 1 then some row else none
  fresh := by
    intro i hi
    rw [if_neg (by omega)]

theorem inColumn_rowOne {Row : Type} (row : Row) : InColumn (rowOne row) := by
  intro i r hr
  by_cases hi : i = 1
  · subst hi
    decide
  · have hnone : (rowOne row).row i = none := if_neg hi
    rw [hnone] at hr
    cases hr

def failedLog : SendLog := ⟨1,none,some 1,some 1,"failed"⟩

def journalOf (owner : ℕ) : Journal where
  db := { Database.empty with
    ads := rowOne ⟨1,"title","text",[],"published"⟩
    groups := rowOne ⟨owner,1,"chat","group",true,none⟩
    accounts := rowOne ⟨owner,"tg_user","active"⟩ }
  logs := rowOne failedLog
  groupIds := inColumn_rowOne _
  accountIds := inColumn_rowOne _
  logIds := inColumn_rowOne _

def pageOf (owner : ℕ) : Page (journalOf owner) 1 where
  logs := [(1,failedLog)]
  stored := fun r hr => by rw [List.mem_singleton.mp hr]; rfl
  owned := fun r hr => by rw [List.mem_singleton.mp hr]; rfl

def openAccess (_ : ℕ) : Bool × String := (true,"")

def noZones : Environment := ⟨fun _ => .error .integrityError,""⟩

def noWindow : RetryWindow.Db := ⟨0,fun _ => none,[]⟩

theorem retry_checks_agree_own :
    (retryAvailability (journalOf 1).db (outerJoin (journalOf 1).db (pageOf 1).logs) 1 1 = some none ↔
      (historyRetry (journalOf 1) openAccess noWindow 1 1).2 = .retryQueued) ∧
    ((historyRetry (journalOf 1) openAccess noWindow 1 1).2 = .retryQueued ↔
      ∃ queued, retrySend noZones (journalOf 1) openAccess 1 1 = .ok queued) := by
  refine (retry_checks_agree_iff (journalOf 1) openAccess noZones noWindow 1 (pageOf 1) 1 failedLog
    List.mem_cons_self (by decide) rfl).mpr fun e he _ => ?_
  cases he
  refine .inl ⟨rfl,rfl,rfl,.inl rfl,fun _ h => ?_⟩
  cases h

/-- The handler refuses the record whose group is another user's, and the task sends it. -/
theorem foreign_group_sent : ¬ ∀ (j : Journal) (checkLimit : ℕ → Bool × String) (env : Environment)
    (w : RetryWindow.Db) (userId : ℕ) (page : Page j userId) (i : ℕ) (log : SendLog),
    (i,log) ∈ page.logs → log.status ≠ statusOk → (checkLimit userId).1 = true →
    (retryAvailability j.db (outerJoin j.db page.logs) userId i = some none ↔
      (historyRetry j checkLimit w userId i).2 = .retryQueued) ∧
    ((historyRetry j checkLimit w userId i).2 = .retryQueued ↔
      ∃ queued, retrySend env j checkLimit i userId = .ok queued) := by
  intro hall
  obtain ⟨_,htask⟩ := hall (journalOf 2) openAccess noZones noWindow 1 (pageOf 2) 1 failedLog
    List.mem_cons_self (by decide) rfl
  have hqueued := htask.mpr ⟨_,rfl⟩
  exact absurd hqueued (by decide)

end RetryChecks
end Broadcaster
