import Broadcaster.Calendar

/-! Where the paid period of a subscription starts and ends. -/

namespace Broadcaster
namespace SubscriptionPeriod

open Calendar

/-- A moment without a zone is read as UTC. -/
def normalizeUtc (value : DateTime) : DateTime := { value with aware := true }

/-- `none` is the `ValueError` of a year past the calendar. -/
def addOneMonth (value : DateTime) : Option DateTime := value.nextMonth

/-- The later of the current expiry and today. -/
def countdownBase (current : Option DateTime) (now : DateTime) : DateTime :=
  let nowUtc := normalizeUtc now
  match current with
  | none => nowUtc
  | some expiry =>
    let base := normalizeUtc expiry
    if base.micros ≤ nowUtc.micros then nowUtc else base

def nextExpiry (current : Option DateTime) (now : DateTime) : Option DateTime :=
  addOneMonth (countdownBase current now)

end SubscriptionPeriod
end Broadcaster
