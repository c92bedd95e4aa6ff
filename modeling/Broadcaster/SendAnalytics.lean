import Broadcaster.Models
import Mathlib.Data.List.Dedup

/-!
# The journal in numbers

The tiles of the dashboard and the filters of the history ask the same journal
about today. The tiles count what lies in a window with two ends, the filter
takes whatever lies at or after local midnight.
-/

namespace Broadcaster
namespace SendAnalytics

open Python ScheduleService

def statusOk : String := "ok"

/-- A record of `send_logs`. `group_id` is a plain integer and may lead to any row or to none. -/
structure SendLog where
  userId : ℕ
  groupId : Option ℤ
  status : String
  messengerType : Option String
  sentAt : Instant
  deriving DecidableEq

structure Journal where
  logs : Store SendLog
  groups : Store Group

def getTimezoneForUser (zoneInfo : String → Except PyError Zone) (user : User) : Zone :=
  if user.timezone = "" then Zone.fixed 0
  else
    match zoneInfo user.timezone with
    | .ok tz => tz
    | .error _ => Zone.fixed 0

/-- Local midnight, `replace(hour=0, minute=0, second=0, microsecond=0)` -/
def midnight (wall : ℤ) : ℤ := dayLength*dayOf wall

def localDayStartUtc (tz : Zone) (now : Instant) : Instant := tz.toUtc (midnight (tz.fromUtc now))

structure MetricsBounds where
  currentStart : Instant
  currentEnd : Instant
  previousStart : Instant
  previousEnd : Instant

namespace MetricsBounds

variable (b : MetricsBounds)

/-- The current window has both its ends. -/
def inCurrent (log : SendLog) : Bool := b.currentStart ≤ log.sentAt && log.sentAt ≤ b.currentEnd

def inPrevious (log : SendLog) : Bool := b.previousStart ≤ log.sentAt && log.sentAt < b.previousEnd

end MetricsBounds

def localDayBounds (tz : Zone) (now : Instant) : MetricsBounds where
  currentStart := localDayStartUtc tz now
  currentEnd := now
  previousStart := tz.toUtc (midnight (tz.fromUtc now)-dayLength)
  previousEnd := tz.toUtc (tz.fromUtc now-dayLength)

structure SendMetrics where
  total : ℕ
  ok : ℕ
  failed : ℕ
  groups : ℕ
  totalPrev : ℕ
  okPrev : ℕ
  failedPrev : ℕ
  groupsPrev : ℕ
  deriving DecidableEq

/-- `COUNT(DISTINCT CASE WHEN window THEN group_id END)` -/
def distinctGroups (window : SendLog → Bool) (logs : List SendLog) : ℕ :=
  ((logs.filter window).filterMap SendLog.groupId).dedup.length

/-- Without a user the records of all. -/
def sendMetrics (j : Journal) (userId : Option ℕ) (bounds : MetricsBounds) : SendMetrics :=
  let logs := (j.logs.rows.map Prod.snd).filter fun log =>
    userId.all (log.userId = ·) && (bounds.previousStart ≤ log.sentAt && log.sentAt ≤ bounds.currentEnd)
  let isOk : SendLog → Bool := fun log => log.status = statusOk
  { total := logs.countP bounds.inCurrent
    ok := logs.countP fun log => bounds.inCurrent log && isOk log
    failed := logs.countP fun log => bounds.inCurrent log && !isOk log
    groups := distinctGroups bounds.inCurrent logs
    totalPrev := logs.countP bounds.inPrevious
    okPrev := logs.countP fun log => bounds.inPrevious log && isOk log
    failedPrev := logs.countP fun log => bounds.inPrevious log && !isOk log
    groupsPrev := distinctGroups bounds.inPrevious logs }

/-- A record with its id, and what the outer join has found for its group. -/
abbrev Row := (ℕ × SendLog) × Option Group

def Row.log (r : Row) : SendLog := r.1.2

def Row.sentAt (r : Row) : Instant := (Row.log r).sentAt

/-- `select(SendLog, Group).outerjoin(Group, ...).where(SendLog.user_id == user_id)` -/
def Journal.recordsOf (j : Journal) (userId : ℕ) : List Row :=
  (j.logs.select fun log => log.userId = userId).map fun r => (r,r.2.groupId.bind j.groups.find)

structure Filters where
  status : Option String
  messengerType : Option String
  accountId : Option ℤ
  period : Option String

/-- The empty string is no value. -/
def given (value : Option String) : Option String := value.filter fun s => s ≠ ""

def periodCutoff (period : Option String) (tz : Zone) (now : Instant) : Option Instant :=
  if period = some "today" then some (localDayStartUtc tz now)
  else if period = some "7d" then some (now-7*dayLength)
  else if period = some "30d" then some (now-30*dayLength)
  else none

/-- The axes that do not depend on the time. -/
def Filters.keeps (f : Filters) (r : Row) : Bool :=
  (given f.status).all (fun s => (Row.log r).status = s) &&
    (given f.messengerType).all (fun m => (Row.log r).messengerType = some m) &&
    f.accountId.all fun a => r.2.any fun g => (g.accountId : ℤ) = a

def atOrAfter (cutoff : Option Instant) (r : Row) : Bool := cutoff.all fun c => c ≤ Row.sentAt r

def applyHistoryFilters (f : Filters) (tz : Zone) (now : Instant) (rows : List Row) : List Row :=
  (rows.filter f.keeps).filter (atOrAfter (periodCutoff f.period tz now))

def historyCount (j : Journal) (userId : ℕ) (f : Filters) (tz : Zone) (now : Instant) : ℕ :=
  (applyHistoryFilters f tz now (j.recordsOf userId)).length

section Windows

variable {bounds : MetricsBounds} {j : Journal} {userId : Option ℕ}

theorem countP_split (logs : List SendLog) (window isOk : SendLog → Bool) : logs.countP window =
    (logs.countP fun log => window log && isOk log) + logs.countP fun log => window log && !isOk log := by
  induction logs with
  | nil => rfl
  | cons log logs ih =>
    cases hw : window log <;> cases ho : isOk log <;> simp [hw,ho,ih] <;> omega

theorem sendMetrics_total (j : Journal) (userId : Option ℕ) (bounds : MetricsBounds) :
    (sendMetrics j userId bounds).total =
      (sendMetrics j userId bounds).ok + (sendMetrics j userId bounds).failed :=
  countP_split _ bounds.inCurrent _

theorem sendMetrics_totalPrev (j : Journal) (userId : Option ℕ) (bounds : MetricsBounds) :
    (sendMetrics j userId bounds).totalPrev =
      (sendMetrics j userId bounds).okPrev + (sendMetrics j userId bounds).failedPrev :=
  countP_split _ bounds.inPrevious _

theorem not_both (h : bounds.previousEnd ≤ bounds.currentStart) (log : SendLog) :
    ¬(bounds.inCurrent log = true ∧ bounds.inPrevious log = true) := by
  simp only [MetricsBounds.inCurrent,MetricsBounds.inPrevious,Bool.and_eq_true,decide_eq_true_eq]
  rintro ⟨⟨hstart,_⟩,_,hend⟩
  exact absurd (Int.le_trans h hstart) (Int.not_le.mpr hend)

theorem midnight_le (wall : ℤ) : midnight wall ≤ wall := by
  unfold midnight dayOf dayLength
  omega

theorem lt_midnight_add (wall : ℤ) : wall < midnight wall+dayLength := by
  unfold midnight dayOf dayLength
  omega

/-- In a zone of constant offset the day begins before now and after the same moment of yesterday. -/
theorem localDayBounds_fixed (offset now : ℤ) :
    (localDayBounds (Zone.fixed offset) now).previousEnd ≤ (localDayBounds (Zone.fixed offset) now).currentStart ∧
    (localDayBounds (Zone.fixed offset) now).currentStart ≤ (localDayBounds (Zone.fixed offset) now).currentEnd ∧
    (localDayBounds (Zone.fixed offset) now).previousStart ≤
      (localDayBounds (Zone.fixed offset) now).currentStart := by
  have hle := midnight_le (now+offset)
  have hlt := lt_midnight_add (now+offset)
  have hpos : (0 : ℤ) < dayLength := by decide
  refine ⟨?_,?_,?_⟩
  · change (now+offset-dayLength-offset : ℤ) ≤ midnight (now+offset)-offset
    omega
  · change (midnight (now+offset)-offset : ℤ) ≤ now
    omega
  · change (midnight (now+offset)-dayLength-offset : ℤ) ≤ midnight (now+offset)-offset
    omega

end Windows

def today : Filters := ⟨none,none,none,some "today"⟩

theorem historyCount_today (j : Journal) (userId : ℕ) (tz : Zone) (now : Instant) :
    historyCount j userId today tz now =
      (j.logs.rows.map Prod.snd).countP fun log => log.userId = userId && localDayStartUtc tz now ≤ log.sentAt := by
  have hkeeps : ∀ r : Row, today.keeps r = true := by
    intro r
    rfl
  have hcutoff : periodCutoff today.period tz now = some (localDayStartUtc tz now) := rfl
  unfold historyCount applyHistoryFilters
  rw [hcutoff,List.filter_eq_self.mpr fun r _ => hkeeps r,← List.countP_eq_length_filter]
  simp only [Journal.recordsOf,Store.select,List.countP_map,List.countP_filter]
  refine List.countP_congr ?_
  intro r _
  rw [Bool.and_comm]
  rfl

/-- The tile of today counts what the history finds for today; all is either sent or failed, and no record
lies in both windows. -/
theorem dashboard_and_history_agree {zoneInfo : String → Except PyError Zone} {user : User} {offset : ℤ}
    (hzone : getTimezoneForUser zoneInfo user = Zone.fixed offset) (j : Journal) (userId : ℕ) (now : Instant)
    (hpast : ∀ r ∈ j.logs.rows, r.2.sentAt ≤ now) :
    let tz := getTimezoneForUser zoneInfo user
    let bounds := localDayBounds tz now
    let metrics := sendMetrics j (some userId) bounds
    metrics.total = historyCount j userId today tz now ∧
      metrics.total = metrics.ok+metrics.failed ∧ metrics.totalPrev = metrics.okPrev+metrics.failedPrev ∧
      bounds.previousEnd ≤ bounds.currentStart ∧ bounds.currentStart ≤ bounds.currentEnd ∧
      ∀ log, ¬(bounds.inCurrent log = true ∧ bounds.inPrevious log = true) := by
  intro tz bounds metrics
  have hbounds := localDayBounds_fixed offset now
  rw [← hzone] at hbounds
  obtain ⟨hprev,hstart,hfirst⟩ := hbounds
  refine ⟨?_,sendMetrics_total j _ bounds,sendMetrics_totalPrev j _ bounds,hprev,hstart,not_both hprev⟩
  rw [historyCount_today]
  simp only [metrics,sendMetrics,List.countP_filter]
  refine List.countP_congr ?_
  intro log hlog
  obtain ⟨r,hrow,rfl⟩ := List.mem_map.mp hlog
  have hend : r.2.sentAt ≤ bounds.currentEnd := hpast r hrow
  have hcurrent : bounds.inCurrent r.2 = decide (localDayStartUtc tz now ≤ r.2.sentAt) := by
    simp only [MetricsBounds.inCurrent,decide_eq_true hend,Bool.and_true]
    rfl
  rw [hcurrent]
  by_cases hday : localDayStartUtc tz now ≤ r.2.sentAt
  · have hprevious : bounds.previousStart ≤ r.2.sentAt := Int.le_trans hfirst hday
    simp [hday,hprevious,hend]
  · simp [hday]

def moscow : Journal where
  logs := ((Store.empty SendLog).insert ⟨1,none,"ok",some "wa",dayLength⟩).insert
    ⟨1,some 5,"fail",some "max",2*dayLength⟩
  groups := Store.empty Group

/-- In Moscow at nine in the morning -/
theorem dashboard_and_history_agree_moscow :
    let tz := getTimezoneForUser (fun _ => .ok (Zone.fixed 10800000000)) ⟨false,"Europe/Moscow"⟩
    let metrics := sendMetrics moscow (some 1) (localDayBounds tz (2*dayLength+21600000000))
    metrics.total = 1 ∧ metrics.total = historyCount moscow 1 today tz (2*dayLength+21600000000) := by
  intro tz metrics
  have hzone : tz = Zone.fixed 10800000000 := rfl
  have h := dashboard_and_history_agree hzone moscow 1 (2*dayLength+21600000000) (by decide)
  exact ⟨by decide,h.1⟩

end SendAnalytics
end Broadcaster
