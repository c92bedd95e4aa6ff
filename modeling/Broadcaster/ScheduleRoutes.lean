import Broadcaster.ScheduleRules
import Broadcaster.Scheduling

/-!
# The JSON routes of the schedules

What a handler decides about a loaded row is a function of its own: the same
decision is taken by a request that runs alone and by one whose statements
interleave with others. An exception answers 500 and leaves the data as it was.
-/

namespace Broadcaster
namespace ScheduleRoutes

open Python ScheduleService ScheduleRules Scheduling

def idMax : ℤ := 2147483647

def idInColumn (value : ℤ) : Bool := 1 ≤ value && value ≤ idMax

inductive Notice
  | scheduleAccountGone | scheduleAdMissing | scheduleValuesOutOfDomain
  deriving DecidableEq

inductive Screen
  | login | schedules | editor (adId : ℤ) | saved
  deriving DecidableEq

inductive Response
  | success (status : ℕ)
  | httpException (status : ℕ) (detail : String)
  | unprocessable
  | forbidden
  | redirect (target : Screen) (notice : Option Notice)
  deriving DecidableEq

def notFound (entity : String) : Response := .httpException 404 (entity ++ " not found")

/-- The detail of both refusals of stored values that cannot be run. -/
def unrunnableDetail : String :=
  "Дни или часы расписания заданы значениями, которых система исполнить не может — " ++
    "откройте расписание в редакторе объявления и сохраните дни и время заново"

def incompleteDetail : String := "Сначала дозаполните расписание в редакторе объявления"

/-- What becomes of a loaded row. -/
inductive Decision
  | commit (s : Schedule)
  | refuse (r : Response)
  | raise (e : PyError)
  deriving DecidableEq

def isComplete (s : Schedule) : Bool :=
  isScheduleComplete s.accountId s.groupIds (orEmpty s.daysOfWeek) (orEmpty s.timesOfDay)

/-- The end of an update: `s` carries the new values. -/
def settle (env : Environment) (now : Instant) (unrunnable : Response) (s : Schedule) : Decision :=
  if !isComplete s then .commit s.paused
  else if s.isActive then
    match nextRunOrNone env.zoneInfo s now with
    | .error e => .raise e
    | .ok none => .refuse unrunnable
    | .ok (some t) => .commit (s.withNextRun (some t))
  else .commit (s.withNextRun none)

def toggle (env : Environment) (now : Instant) (incomplete unrunnable : Response) (s : Schedule) :
    Decision :=
  if s.isActive then .commit s.paused
  else if !isComplete s then .refuse incomplete
  else
    match nextRunOrNone env.zoneInfo s now with
    | .error e => .raise e
    | .ok none => .refuse unrunnable
    | .ok (some t) => .commit (s.resumed t)

def conclude (db : Database) (i : ℕ) (loaded : Schedule) (done : Response) :
    Decision → Except PyError (Database × Response)
  | .commit s => (flushRow db.schedules ⟨i,loaded,s⟩).map fun schedules =>
      ({ db with schedules := schedules },done)
  | .refuse r => .ok (db,r)
  | .raise e => .error e

def insertSchedule (db : Database) (s : Schedule) (done : Response) :
    Except PyError (Database × Response) :=
  if s.unchecked then .error .integrityError
  else .ok ({ db with schedules := db.schedules.insert s },done)

def validDays (days : List ℤ) : Bool := days.all fun d => isValidDayOfWeek (.int d)

def validTimes (times : List String) : Bool := times.all fun t => isValidTimeOfDay (.str t)

structure CreateScheduleRequest where
  adId : ℤ
  accountId : ℤ
  groupIds : List ℤ
  daysOfWeek : List ℤ
  timesOfDay : List String
  timezone : String

def CreateScheduleRequest.valid (data : CreateScheduleRequest) : Bool :=
  idInColumn data.adId && idInColumn data.accountId && data.groupIds.all idInColumn &&
    validTimezones.contains data.timezone && validDays data.daysOfWeek && validTimes data.timesOfDay

/-- `set(requested) - owned` is not empty. -/
def asksForeignGroup (db : Database) (userId : ℕ) (accountId : Option ℕ) (requested : List ℤ) : Bool :=
  requested.any fun g => !(ownedGroupIds db.groups userId accountId requested).contains g

def CreateScheduleRequest.row (data : CreateScheduleRequest) : Schedule where
  adId := data.adId.toNat
  accountId := some data.accountId.toNat
  groupIds := data.groupIds
  daysOfWeek := .ofInts data.daysOfWeek
  timesOfDay := .ofStrings data.timesOfDay
  timezone := data.timezone
  isActive := false
  nextRunAt := none

def createSchedule (env : Environment) (db : Database) (userId : ℕ) (data : CreateScheduleRequest)
    (now : Instant) : Except PyError (Database × Response) :=
  if !data.valid then .ok (db,.unprocessable)
  else if !db.ownsAd userId data.adId then .ok (db,notFound "Ad")
  else if !db.ownsAccount userId data.accountId then .ok (db,notFound "Account")
  else if asksForeignGroup db userId (some data.accountId.toNat) data.groupIds then
    .ok (db,notFound "Group")
  else
    let s := data.row
    if isScheduleComplete s.accountId s.groupIds s.daysOfWeek s.timesOfDay then
      match computeNextRunAt env.zoneInfo s.daysOfWeek s.timesOfDay s.timezone now with
      | .error e => .error e
      | .ok nextRun => insertSchedule db { s with isActive := true, nextRunAt := nextRun } (.success 201)
    else insertSchedule db s (.success 201)

/-- `none` is an omitted key; an explicit null does not pass the validation. -/
structure UpdateScheduleRequest where
  groupIds : Option (List ℤ)
  daysOfWeek : Option (List ℤ)
  timesOfDay : Option (List String)
  timezone : Option String

def UpdateScheduleRequest.valid (data : UpdateScheduleRequest) : Bool :=
  data.groupIds.all (fun ids => ids.all idInColumn) && data.timezone.all validTimezones.contains &&
    data.daysOfWeek.all validDays && data.timesOfDay.all validTimes

/-- `setattr(schedule, field, value)` for the given fields. -/
def UpdateScheduleRequest.assign (data : UpdateScheduleRequest) (s : Schedule) : Schedule :=
  { s with
    groupIds := data.groupIds.getD s.groupIds
    daysOfWeek := (data.daysOfWeek.map Json.ofInts).getD s.daysOfWeek
    timesOfDay := (data.timesOfDay.map Json.ofStrings).getD s.timesOfDay
    timezone := data.timezone.getD s.timezone }

/-- `update_schedule` once the row is loaded; it reads the groups. -/
def updateDecision (env : Environment) (db : Database) (userId : ℕ) (data : UpdateScheduleRequest)
    (now : Instant) (s : Schedule) : Decision :=
  if data.groupIds.any fun requested => asksForeignGroup db userId s.accountId requested then
    .refuse (notFound "Group")
  else settle env now (.httpException 400 unrunnableDetail) (data.assign s)

def updateSchedule (env : Environment) (db : Database) (userId : ℕ) (scheduleId : ℤ)
    (data : UpdateScheduleRequest) (now : Instant) : Except PyError (Database × Response) :=
  if !idInColumn scheduleId || !data.valid then .ok (db,.unprocessable)
  else
    match db.scheduleFor userId scheduleId with
    | none => .ok (db,notFound "Schedule")
    | some (i,s) => conclude db i s (.success 200) (updateDecision env db userId data now s)

def deleteSchedule (db : Database) (userId : ℕ) (scheduleId : ℤ) : Database × Response :=
  if !idInColumn scheduleId then (db,.unprocessable)
  else
    match db.scheduleFor userId scheduleId with
    | none => (db,notFound "Schedule")
    | some (i,_) =>
      ({ db with schedules := db.schedules.deleteWhere fun j _ => j = i },.success 204)

def toggleDecision (env : Environment) (now : Instant) (s : Schedule) : Decision :=
  toggle env now (.httpException 400 incompleteDetail) (.httpException 400 unrunnableDetail) s

def toggleSchedule (env : Environment) (db : Database) (userId : ℕ) (scheduleId : ℤ) (now : Instant) :
    Except PyError (Database × Response) :=
  if !idInColumn scheduleId then .ok (db,.unprocessable)
  else
    match db.scheduleFor userId scheduleId with
    | none => .ok (db,notFound "Schedule")
    | some (i,s) => conclude db i s (.success 200) (toggleDecision env now s)

end ScheduleRoutes
end Broadcaster
