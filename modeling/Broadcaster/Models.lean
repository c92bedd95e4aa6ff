import Broadcaster.ScheduleService
import Broadcaster.Store

/-!
# Rows of the scheduling tables

A row does not contain its id, which is the key of the table. `group_ids`,
`days_of_week` and `times_of_day` are JSON columns; every writer of `group_ids`
stores a list of integers, the other two hold whatever has been stored.
-/

namespace Broadcaster

open Python ScheduleService

structure User where
  isBlocked : Bool
  timezone : String
  deriving DecidableEq

structure Ad where
  userId : ℕ
  title : String
  text : String
  images : List String
  status : String
  deriving DecidableEq

structure MessengerAccount where
  userId : ℕ
  type : String
  status : String
  deriving DecidableEq

structure Group where
  userId : ℕ
  accountId : ℕ
  groupExternalId : String
  name : String
  isActive : Bool
  missingSince : Option Instant
  deriving DecidableEq

structure Schedule where
  adId : ℕ
  accountId : Option ℕ
  groupIds : List ℤ
  daysOfWeek : Json
  timesOfDay : Json
  timezone : String
  isActive : Bool
  nextRunAt : Option Instant
  deriving DecidableEq

namespace Schedule

/-- Violates `ACTIVE_REQUIRES_NEXT_RUN`. -/
def unchecked (s : Schedule) : Bool := s.isActive && s.nextRunAt.isNone

def withNextRun (s : Schedule) (t : Option Instant) : Schedule := { s with nextRunAt := t }

def paused (s : Schedule) : Schedule := { s with isActive := false, nextRunAt := none }

def resumed (s : Schedule) (t : Instant) : Schedule := { s with isActive := true, nextRunAt := some t }

end Schedule

/-- A row of a session: as it was loaded, and with what has been assigned to it since. -/
structure Loaded where
  id : ℕ
  loaded : Schedule
  current : Schedule
  deriving DecidableEq

namespace Loaded

def changed (l : Loaded) : Bool := l.loaded ≠ l.current

/-- `UPDATE` sets the columns whose values differ from the loaded ones. -/
def merge (l : Loaded) (stored : Schedule) : Schedule where
  adId := if l.loaded.adId = l.current.adId then stored.adId else l.current.adId
  accountId := if l.loaded.accountId = l.current.accountId then stored.accountId else l.current.accountId
  groupIds := if l.loaded.groupIds = l.current.groupIds then stored.groupIds else l.current.groupIds
  daysOfWeek :=
    if l.loaded.daysOfWeek = l.current.daysOfWeek then stored.daysOfWeek else l.current.daysOfWeek
  timesOfDay :=
    if l.loaded.timesOfDay = l.current.timesOfDay then stored.timesOfDay else l.current.timesOfDay
  timezone := if l.loaded.timezone = l.current.timezone then stored.timezone else l.current.timezone
  isActive := if l.loaded.isActive = l.current.isActive then stored.isActive else l.current.isActive
  nextRunAt := if l.loaded.nextRunAt = l.current.nextRunAt then stored.nextRunAt else l.current.nextRunAt

theorem merge_loaded (l : Loaded) : l.merge l.loaded = l.current := by
  have hcolumn : ∀ {α : Type} [DecidableEq α] (a b : α), (if a = b then a else b) = b := by
    intro α _ a b
    split
    · assumption
    · rfl
  simp only [merge,hcolumn]

end Loaded

structure Database where
  users : Store User
  ads : Store Ad
  accounts : Store MessengerAccount
  groups : Store Group
  schedules : Store Schedule

namespace Database

def empty : Database := ⟨.empty _,.empty _,.empty _,.empty _,.empty _⟩

def ownsAd (db : Database) (userId : ℕ) (adId : ℤ) : Bool :=
  (db.ads.find adId).any fun ad => ad.userId = userId

def ownsAccount (db : Database) (userId : ℕ) (accountId : ℤ) : Bool :=
  (db.accounts.find accountId).any fun account => account.userId = userId

/-- `get_for_user`: the schedule, when its ad belongs to the user. -/
def scheduleFor (db : Database) (userId : ℕ) (scheduleId : ℤ) : Option (ℕ × Schedule) :=
  ((db.schedules.find scheduleId).filter fun s => db.ownsAd userId s.adId).map (scheduleId.toNat,·)

end Database

end Broadcaster
