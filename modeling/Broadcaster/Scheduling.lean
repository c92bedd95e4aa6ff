import Broadcaster.Models

/-!
# Collecting the due schedules

`World` is what a run of the planner reads besides the schedules. A run reads
each entity at most once (the session keeps what it has loaded, the verdicts are
memoised), so one function for each kind of entity describes all its reads,
whenever they happen. A run that raises commits nothing.
-/

namespace Broadcaster
namespace Scheduling

open Python ScheduleService

def adStatusDraft : String := "draft"

def adStatusPublished : String := "published"

def effectiveStatusValue (status : String) : String :=
  if status = adStatusPublished then adStatusPublished else adStatusDraft

def effectiveAdStatus (ad : Ad) : String := effectiveStatusValue ad.status

structure DispatchTask where
  type : String
  adId : ℕ
  groupId : ℤ
  accountId : ℕ
  scheduleId : Option ℕ
  userId : Option ℕ
  adText : Option String
  adTitle : Option String
  adImages : Option (List String)
  groupExternalId : Option String
  groupName : Option String
  deriving DecidableEq

/-- The zone database and the setting `s3_public_url`. -/
structure Environment where
  zoneInfo : String → Except PyError Zone
  s3PublicUrl : String

structure World where
  user : ℕ → Option User
  ad : ℕ → Option Ad
  account : ℕ → Option MessengerAccount
  group : ℤ → Option Group
  checkLimit : ℕ → Bool × String

def worldOf (db : Database) (checkLimit : ℕ → Bool × String) : World where
  user := db.users.row
  ad := db.ads.row
  account := db.accounts.row
  group := db.groups.find
  checkLimit := checkLimit

/-- `s3_public_url.rstrip("/")` -/
def stripSlashes (s : String) : String :=
  String.ofList ((s.toList.reverse.dropWhile (· == '/')).reverse)

def getImageUrl (key s3PublicUrl : String) : String :=
  if key = "" then "" else stripSlashes s3PublicUrl ++ "/" ++ key

def buildDispatchTask (env : Environment) (adId : ℕ) (ad : Ad) (groupId : ℤ) (group : Group)
    (accountId : ℕ) (account : MessengerAccount) (scheduleId : Option ℕ) : DispatchTask :=
  let queued := account.type = "wa" ∨ account.type = "max"
  { type := account.type
    adId := adId
    groupId := groupId
    accountId := accountId
    scheduleId := scheduleId
    userId := if queued then some ad.userId else none
    adText := if queued then some ad.text else none
    adTitle := if queued then some ad.title else none
    adImages :=
      if queued then some (ad.images.map fun key => getImageUrl key env.s3PublicUrl) else none
    groupExternalId := if queued then some group.groupExternalId else none
    groupName := if queued then some group.name else none }

@[simp] theorem groupId_buildDispatchTask (env : Environment) (adId : ℕ) (ad : Ad) (groupId : ℤ)
    (group : Group) (accountId : ℕ) (account : MessengerAccount) (scheduleId : Option ℕ) :
    (buildDispatchTask env adId ad groupId group accountId account scheduleId).groupId = groupId := rfl

@[simp] theorem scheduleId_buildDispatchTask (env : Environment) (adId : ℕ) (ad : Ad) (groupId : ℤ)
    (group : Group) (accountId : ℕ) (account : MessengerAccount) (scheduleId : Option ℕ) :
    (buildDispatchTask env adId ad groupId group accountId account scheduleId).scheduleId =
      scheduleId := rfl

def userSendVerdict (w : World) (userId : ℕ) : Bool × String :=
  match w.user userId with
  | some user => if user.isBlocked then (false,"user_blocked") else w.checkLimit userId
  | none => w.checkLimit userId

abbrev CheckedUsers := List (ℕ × Bool × String)

def checkUser (w : World) (checked : CheckedUsers) (userId : ℕ) : (Bool × String) × CheckedUsers :=
  match checked.lookup userId with
  | some verdict => (verdict,checked)
  | none => (userSendVerdict w userId,(userId,userSendVerdict w userId)::checked)

/-- What the loop over the due schedules has gathered. -/
structure Collected where
  tasks : List DispatchTask
  checkedUsers : CheckedUsers
  rows : List Loaded

/-- The ad and the account, with their ids, unless the schedule has to be skipped for them. -/
def senderOf (w : World) (s : Schedule) : Option ((ℕ × Ad) × (ℕ × MessengerAccount)) :=
  match w.ad s.adId, s.accountId with
  | some ad, some accountId =>
    match w.account accountId with
    | some account =>
      if account.status ≠ "active" ∨ effectiveAdStatus ad = adStatusDraft then none
      else some ((s.adId,ad),(accountId,account))
    | none => none
  | _, _ => none

/-- One task for each entry of `group_ids` whose group exists and is active. -/
def groupTasks (env : Environment) (w : World) (sender : (ℕ × Ad) × (ℕ × MessengerAccount))
    (scheduleId : ℕ) (groupIds : List ℤ) : List DispatchTask :=
  groupIds.filterMap fun groupId =>
    (w.group groupId).bind fun group =>
      if group.isActive then
        some (buildDispatchTask env sender.1.1 sender.1.2 groupId group sender.2.1 sender.2.2
          (some scheduleId))
      else none

def nextRunOf (env : Environment) (s : Schedule) (now : Instant) : Except PyError (Option Instant) :=
  computeNextRunAt env.zoneInfo s.daysOfWeek s.timesOfDay s.timezone now

def slots (env : Environment) (s : Schedule) : Instant → Prop :=
  IsRunOf env.zoneInfo s.daysOfWeek s.timesOfDay s.timezone

/-- The body of the loop; every branch ends with the assignment of `next_run_at`. -/
def collectSchedule (env : Environment) (w : World) (now : Instant) (c : Collected)
    (row : ℕ × Schedule) : Except PyError Collected :=
  let assign (c : Collected) : Except PyError Collected :=
    (nextRunOf env row.2 now).map fun t =>
      { c with rows := c.rows ++ [⟨row.1,row.2,row.2.withNextRun t⟩] }
  match senderOf w row.2 with
  | none => assign c
  | some sender =>
    let checked := checkUser w c.checkedUsers sender.1.2.userId
    if checked.1.1 then
      assign { c with
        tasks := c.tasks ++ groupTasks env w sender row.1 row.2.groupIds
        checkedUsers := checked.2 }
    else assign { c with checkedUsers := checked.2 }

def collect (env : Environment) (w : World) (now : Instant) (due : List (ℕ × Schedule)) :
    Except PyError Collected :=
  due.foldlM (collectSchedule env w now) ⟨[],[],[]⟩

def isDue (now : Instant) (s : Schedule) : Bool :=
  s.isActive && s.nextRunAt.any fun t => t ≤ now

/-- `UPDATE` of one row, which the database checks. -/
def flushRow (schedules : Store Schedule) (l : Loaded) : Except PyError (Store Schedule) :=
  if l.changed then
    match schedules.row l.id with
    | none => .error .staleDataError
    | some stored =>
      if (l.merge stored).unchecked then .error .integrityError
      else .ok (schedules.update l.id fun _ => l.merge stored)
  else .ok schedules

def flush (schedules : Store Schedule) (rows : List Loaded) : Except PyError (Store Schedule) :=
  rows.foldlM flushRow schedules

/-- The rows that `SELECT` returns, in any order. -/
def Selects (schedules : Store Schedule) (now : Instant) (due : List (ℕ × Schedule)) : Prop :=
  due.Perm (schedules.select (isDue now))

instance (schedules : Store Schedule) (now : Instant) (due : List (ℕ × Schedule)) :
    Decidable (Selects schedules now due) :=
  inferInstanceAs (Decidable (List.Perm _ _))

/-- `due` is the answer to the selection. -/
def collectDueSchedules (env : Environment) (w : World) (schedules : Store Schedule) (now : Instant)
    (due : List (ℕ × Schedule)) : Except PyError (Store Schedule × List DispatchTask) :=
  if due.isEmpty then .ok (schedules,[])
  else do
    let collected ← collect env w now due
    let committed ← flush schedules collected.rows
    return (committed,collected.tasks)

def tasksOf (i : ℕ) (tasks : List DispatchTask) : List DispatchTask :=
  tasks.filter fun task => task.scheduleId = some i

/-- The new state of the table and the tasks that go to `dispatch_send_tasks`. -/
def checkSchedules (env : Environment) (w : World) (schedules : Store Schedule) (now : Instant)
    (due : List (ℕ × Schedule)) : Except PyError (Store Schedule × List DispatchTask) :=
  collectDueSchedules env w schedules now due

end Scheduling
end Broadcaster
