import Broadcaster.ScheduleRoutes

/-!
# The page forms of the schedules

A page drops what it cannot use and keeps the rest, where a JSON route refuses.
A form posts strings; of the response only the screen and the notice are kept,
`Screen.saved` standing for whatever follows a successful save.
-/

namespace Broadcaster
namespace SchedulePages

open Python ScheduleService ScheduleRules Scheduling ScheduleRoutes

def defaultTime : String := "09:00"

def strip (value : String) : String := String.ofList (stripChars strSpaces value.toList)

def cleanTimes (values : List String) : List String :=
  (values.map strip).filter fun v => isValidTimeOfDay (.str v)

def cleanInts (values : List String) (low high : Option ℤ) : List ℤ :=
  (values.filterMap fun v => int v.toList).filter fun n =>
    low.all (fun l => l ≤ n) && high.all (fun h => n ≤ h)

/-- The fields of the form; `none` for a field that is not in it. -/
structure ScheduleForm where
  adId : ℤ
  accountId : Option ℤ
  groupIds : List String
  daysOfWeek : List String
  timesOfDay : List String
  timezone : Option String
  daysPreset : Option String
  groupsPreset : Option String
  removeTime : Option String
  addTime : Bool

/-- Group ids, days and times after the named actions of the form. -/
def applyNamedActions (form : ScheduleForm) (groupIds daysOfWeek : List ℤ) (timesOfDay : List String)
    (available : List ℤ) : List ℤ × List ℤ × List String :=
  let days :=
    if form.daysPreset = some "workdays" then [0,1,2,3,4]
    else if form.daysPreset = some "everyday" then [0,1,2,3,4,5,6]
    else daysOfWeek
  let groups :=
    if form.groupsPreset = some "all" then available
    else if form.groupsPreset = some "none" then []
    else groupIds
  let left :=
    match form.removeTime with
    | some removed => if removed ≠ "" then timesOfDay.erase removed else timesOfDay
    | none => timesOfDay
  (groups,days,if form.addTime then left ++ [defaultTime] else left)

inductive OwnershipVerdict
  | ok | adDenied | accountDenied
  deriving DecidableEq

def accountUsable (accountId : Option ℤ) : Bool := accountId.all idInColumn

def ownershipVerdict (db : Database) (userId : ℕ) (adId : ℤ) (accountId : Option ℤ) :
    OwnershipVerdict :=
  if !idInColumn adId then .adDenied
  else if !db.ownsAd userId adId then .adDenied
  else if !accountUsable accountId then .accountDenied
  else
    match accountId with
    | none => .ok
    | some id => if db.ownsAccount userId id then .ok else .accountDenied

def groupsOfAccount (db : Database) (userId : ℕ) (accountId : Option ℤ) : List ℤ :=
  match accountId with
  | none => []
  | some id =>
    (db.groups.select fun group => (group.accountId : ℤ) = id && group.userId = userId).map
      fun r => (r.1 : ℤ)

def formValues (db : Database) (userId : ℕ) (form : ScheduleForm) : List ℤ × List ℤ × List String :=
  let available := groupsOfAccount db userId form.accountId
  let values := applyNamedActions form (cleanInts form.groupIds none none)
    (cleanInts form.daysOfWeek (some dayOfWeekMin) (some dayOfWeekMax)) (cleanTimes form.timesOfDay)
    available
  (values.1.filter available.contains,values.2)

def formTimezone (form : ScheduleForm) (fallback : String) : String :=
  let tz := form.timezone.getD fallback
  if validTimezones.contains tz then tz else fallback

def assignForm (db : Database) (userId : ℕ) (form : ScheduleForm) (fallback : String) (s : Schedule) :
    Schedule :=
  let values := formValues db userId form
  { s with
    adId := form.adId.toNat
    accountId := form.accountId.map Int.toNat
    groupIds := values.1
    daysOfWeek := .ofInts values.2.1
    timesOfDay := .ofStrings values.2.2
    timezone := formTimezone form fallback }

def blankSchedule : Schedule := ⟨0,none,[],.arr [],.arr [],"UTC",false,none⟩

def toEditor (adId : ℤ) (notice : Option Notice) : Response := .redirect (.editor adId) notice

def schedulesCreate (env : Environment) (db : Database) (userId : ℕ) (form : ScheduleForm)
    (now : Instant) : Except PyError (Database × Response) :=
  match db.users.row userId with
  | none => .ok (db,.redirect .login none)
  | some user =>
    match ownershipVerdict db userId form.adId form.accountId with
    | .adDenied => .ok (db,.redirect .schedules none)
    | .accountDenied => .ok (db,toEditor form.adId (some .scheduleAccountGone))
    | .ok =>
      let s := assignForm db userId form (profileTimezoneOrUtc user.timezone) blankSchedule
      if isScheduleComplete s.accountId s.groupIds s.daysOfWeek s.timesOfDay then
        match nextRunOrNone env.zoneInfo s now with
        | .error e => .error e
        | .ok none => .ok (db,toEditor form.adId (some .scheduleValuesOutOfDomain))
        | .ok (some t) => insertSchedule db (s.resumed t) (.redirect .saved none)
      else insertSchedule db s (.redirect .saved none)

/-- The stored zone, when it is a valid one. -/
def storedTimezone (s : Schedule) (profile : String) : String :=
  if validTimezones.contains s.timezone then s.timezone else profileTimezoneOrUtc profile

/-- `schedules_update` once the row is loaded; it reads the ads, the accounts and the groups. -/
def updateDecision (env : Environment) (db : Database) (userId : ℕ) (profile : String)
    (form : ScheduleForm) (now : Instant) (s : Schedule) : Decision :=
  match ownershipVerdict db userId form.adId form.accountId with
  | .adDenied => .refuse (.redirect .schedules none)
  | .accountDenied => .refuse (toEditor form.adId (some .scheduleAccountGone))
  | .ok =>
    settle env now (toEditor form.adId (some .scheduleValuesOutOfDomain))
      (assignForm db userId form (storedTimezone s profile) s)

def schedulesUpdate (env : Environment) (db : Database) (userId : ℕ) (scheduleId : ℤ)
    (form : ScheduleForm) (now : Instant) : Except PyError (Database × Response) :=
  match db.users.row userId with
  | none => .ok (db,.redirect .login none)
  | some user =>
    match if idInColumn scheduleId then db.scheduleFor userId scheduleId else none with
    | none =>
      if idInColumn form.adId && db.ownsAd userId form.adId then
        .ok (db,toEditor form.adId (some .scheduleAdMissing))
      else .ok (db,.redirect .schedules none)
    | some (i,s) =>
      conclude db i s (.redirect .saved none) (updateDecision env db userId user.timezone form now s)

/-- An incomplete schedule is left alone without a word. -/
def toggleDecision (env : Environment) (now : Instant) (s : Schedule) : Decision :=
  toggle env now (.redirect .saved none) (toEditor s.adId (some .scheduleValuesOutOfDomain)) s

def schedulesToggle (env : Environment) (db : Database) (userId : ℕ) (scheduleId : ℤ) (now : Instant) :
    Except PyError (Database × Response) :=
  match db.users.row userId with
  | none => .ok (db,.redirect .login none)
  | some _ =>
    match if idInColumn scheduleId then db.scheduleFor userId scheduleId else none with
    | none => .ok (db,.redirect .saved none)
    | some (i,s) => conclude db i s (.redirect .saved none) (toggleDecision env now s)

def schedulesDelete (db : Database) (userId : ℕ) (sameOrigin : Bool) (scheduleId : ℤ) :
    Database × Response :=
  match db.users.row userId with
  | none => (db,.redirect .login none)
  | some _ =>
    if !sameOrigin then (db,.forbidden)
    else
      match if idInColumn scheduleId then db.scheduleFor userId scheduleId else none with
      | none => (db,.redirect .saved none)
      | some (i,_) =>
        ({ db with schedules := db.schedules.deleteWhere fun j _ => j = i },.redirect .saved none)

end SchedulePages
end Broadcaster
