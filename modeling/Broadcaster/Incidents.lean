import Broadcaster.Dict
import Broadcaster.LatestRows
import Broadcaster.SendAnalytics

/-!
# The incident board

Five rules say what is broken now. `collect_incidents` reads two of their
sources only in part, one row more than the board shows; what the rules say
about all the data is `allIncidents`.
-/

namespace Broadcaster
namespace Incidents

open ScheduleService OffsetPages LatestRows
open SendAnalytics (SendLog)

inductive Kind
  | workerStuck | accountDown | failureSpike | paymentStuck | beatSilent
  deriving DecidableEq

def incidentListCap : ℕ := 20

def accountDownStatuses : List String := ["disconnected","sync_failed"]
def statusAccountDisconnected : String := "account_disconnected"
def failedStatuses : List String := ["fail",statusAccountDisconnected]
def awaitingStatuses : List String := ["pending"]
def second : ℤ := 1000000
def hour : ℤ := 3600*second
def pendingIntentTtlHours : ℕ := 24
def failureSpikeWindow : ℤ := 60*60*second
def failureSpikeMinTotal : ℕ := 20
/-- In percent; the source divides floating point numbers, which rounds to no other verdict. -/
def failureSpikeRatio : ℕ := 30
def celeryBeatIntervalSec : ℤ := 30

/-- `beat_silent_overdue_sec`: ten ticks, but at least five minutes -/
def beatSilentOverdueSec (beatIntervalSec : ℤ) : ℤ := max (beatIntervalSec*10) 300

structure WorkerLiveness where
  queueDepth : ℤ
  heartbeatFresh : Bool
  lastSeenAt : Option Instant

/-- `at` is `seenAt`: the moment of the last trace of the failure. -/
structure Incident where
  kind : Kind
  text : String
  seenAt : Instant
  href : String
  subjectId : Option ℤ
  deriving DecidableEq

structure IncidentBoard where
  incidents : List Incident
  capped : Bool
  deriving DecidableEq

def hrefWorkers : String := "/admin/workers"
def hrefUserCard (userId : ℕ) : String := "/admin/users/" ++ toString userId
def hrefPayments : String := "/admin/payments"
def hrefServiceErrors : String := "/admin/logs?level=error"

/-- `sorted(liveness.items())`; the keys are distinct. -/
def sortedItems (liveness : Dict ℤ WorkerLiveness) : List (ℤ × WorkerLiveness) :=
  liveness.entries.mergeSort fun a b => a.1 ≤ b.1

def detectWorkerStuck (liveness : Dict ℤ WorkerLiveness) (now : Instant) : List Incident :=
  (sortedItems liveness).filterMap fun (accountId,worker) =>
    if worker.queueDepth ≤ 0 || worker.heartbeatFresh then none
    else some
      { kind := .workerStuck
        text := s!"Воркер аккаунта {accountId} не забирает работу: в очереди {worker.queueDepth}, отклика нет"
        seenAt := worker.lastSeenAt.getD now
        href := hrefWorkers
        subjectId := some accountId }

structure DownAccountRow where
  accountId : ℕ
  userId : ℕ
  messengerType : Option String
  status : String
  lastSyncedAt : Option Instant

def detectAccountDown (accounts : List DownAccountRow) (traces : ℕ × Option String → Option Instant)
    (now : Instant) : List Incident :=
  accounts.filterMap fun row =>
    if row.status ∉ accountDownStatuses then none
    else some
      { kind := .accountDown
        text := s!"Аккаунт {row.accountId} пользователя {row.userId} отвалился ({row.status})"
        seenAt := ((traces (row.userId,row.messengerType)).or row.lastSyncedAt).getD now
        href := hrefUserCard row.userId
        subjectId := some row.accountId }

/-- `share` is `round(failed / total * 100)` of floating point numbers. -/
def detectFailureSpike (share : ℕ → ℕ → ℕ) (total failed : ℕ) (lastFailureAt : Option Instant) (now : Instant) :
    Option Incident :=
  if total < failureSpikeMinTotal then none
  else if 100*failed < failureSpikeRatio*total then none
  else some
    { kind := .failureSpike
      text := s!"Всплеск отказов отправки: {failed} из {total} за последний час ({share failed total}%)"
      seenAt := lastFailureAt.getD now
      href := hrefServiceErrors
      subjectId := none }

structure UnclosedPaymentRow where
  paymentId : ℕ
  userId : ℕ
  createdAt : Option Instant

def paymentStuckBefore (now : Instant) : Instant := now-pendingIntentTtlHours*hour

def detectPaymentStuck (payments : List UnclosedPaymentRow) (now : Instant) : List Incident :=
  payments.filterMap fun row => row.createdAt.bind fun created =>
    if paymentStuckBefore now < created then none
    else some
      { kind := .paymentStuck
        text := s!"Платёж {row.paymentId} пользователя {row.userId} не закрыт дольше {pendingIntentTtlHours} ч"
        seenAt := created
        href := hrefPayments
        subjectId := some row.paymentId }

def detectBeatSilent (overdueCount : ℕ) (latestOverdueAt : Option Instant) (thresholdSec : ℤ) (now : Instant) :
    Option Incident :=
  if overdueCount = 0 then none
  else some
    { kind := .beatSilent
      text := s!"Планировщик не просыпается: {overdueCount} расписаний просрочено дольше {thresholdSec/60} мин"
      seenAt := latestOverdueAt.getD now
      href := hrefWorkers
      subjectId := none }

structure MessengerAccount where
  userId : ℕ
  type : String
  status : String
  lastSyncedAt : Option Instant

structure Payment where
  userId : ℕ
  status : String
  createdAt : Instant

structure Schedule where
  isActive : Bool
  nextRunAt : Option Instant

structure Database where
  accounts : Store MessengerAccount
  logs : Store SendLog
  payments : Store Payment
  schedules : Store Schedule

section Queries

variable (db : Database) (now : Instant)

/-- `WHERE status IN (...)` -/
def downAccounts : List (ℕ × MessengerAccount) := db.accounts.select fun a => a.status ∈ accountDownStatuses

def syncedLater (a b : ℕ × MessengerAccount) : Bool :=
  match a.2.lastSyncedAt,b.2.lastSyncedAt with
  | some s,some t => t < s || (s = t && b.1 ≤ a.1)
  | some _,none => true
  | none,some _ => false
  | none,none => b.1 ≤ a.1

def downRow (r : ℕ × MessengerAccount) : DownAccountRow :=
  ⟨r.1,r.2.userId,some r.2.type,r.2.status,r.2.lastSyncedAt⟩

/-- `max(sent_at)` of the traces, grouped by user and channel -/
def traces (key : ℕ × Option String) : Option Instant :=
  (((db.logs.rows.map Prod.snd).filter fun log => log.status = statusAccountDisconnected &&
    (log.userId,log.messengerType) = key).map SendLog.sentAt).max?

def failed (log : SendLog) : Bool := log.status ∈ failedStatuses

/-- The records of the last hour, and those from the future -/
def windowLogs : List SendLog :=
  (db.logs.rows.map Prod.snd).filter fun log => now-failureSpikeWindow ≤ log.sentAt

def spike (share : ℕ → ℕ → ℕ) : Option Incident :=
  detectFailureSpike share (windowLogs db now).length ((windowLogs db now).countP failed)
    (((windowLogs db now).filter failed).map SendLog.sentAt).max? now

def unclosedPayments (before : Instant) : List (ℕ × Payment) :=
  db.payments.select fun p => p.status ∈ awaitingStatuses && p.createdAt ≤ before

def createdLater (a b : ℕ × Payment) : Bool :=
  b.2.createdAt < a.2.createdAt || (a.2.createdAt = b.2.createdAt && b.1 ≤ a.1)

def paymentRow (r : ℕ × Payment) : UnclosedPaymentRow := ⟨r.1,r.2.userId,some r.2.createdAt⟩

def beat (thresholdSec : ℤ) : Option Incident :=
  let overdue := (db.schedules.rows.map Prod.snd).filter fun s =>
    s.isActive && s.nextRunAt.any fun t => t < now-thresholdSec*second
  detectBeatSilent overdue.length (overdue.filterMap Schedule.nextRunAt).max? thresholdSec now

def bySeenAt (incidents : List Incident) : List Incident :=
  incidents.mergeSort fun a b => b.seenAt ≤ a.seenAt

def downSorted : List (ℕ × MessengerAccount) := (downAccounts db).mergeSort syncedLater

def unclosedSorted : List (ℕ × Payment) := (unclosedPayments db (paymentStuckBefore now)).mergeSort createdLater

def incidents (share : ℕ → ℕ → ℕ) (liveness : Dict ℤ WorkerLiveness) (thresholdSec : ℤ)
    (downRows : List (ℕ × MessengerAccount)) (paymentRows : List (ℕ × Payment)) : List Incident :=
  detectWorkerStuck liveness now ++
    detectAccountDown (downRows.map downRow) (traces db) now ++
    (spike db now share).toList ++
    detectPaymentStuck (paymentRows.map paymentRow) now ++
    (beat db now thresholdSec).toList

def collectIncidents (share : ℕ → ℕ → ℕ) (liveness : Dict ℤ WorkerLiveness) (beatIntervalSec : Option ℤ) :
    IncidentBoard :=
  let thresholdSec := beatSilentOverdueSec (beatIntervalSec.getD celeryBeatIntervalSec)
  let downRows := (downSorted db).take (incidentListCap+1)
  let paymentRows := (unclosedSorted db now).take (incidentListCap+1)
  let found := incidents db now share liveness thresholdSec downRows paymentRows
  { incidents := (bySeenAt found).take incidentListCap
    capped := incidentListCap < found.length ||
      (incidentListCap < downRows.length || incidentListCap < paymentRows.length) }

def allIncidents (share : ℕ → ℕ → ℕ) (liveness : Dict ℤ WorkerLiveness) (beatIntervalSec : Option ℤ) :
    List Incident :=
  incidents db now share liveness (beatSilentOverdueSec (beatIntervalSec.getD celeryBeatIntervalSec))
    (downAccounts db) (unclosedPayments db (paymentStuckBefore now))

end Queries

section Board

variable {db : Database} {now : Instant}

theorem length_detectAccountDown {rows : List (ℕ × MessengerAccount)} (h : ∀ r ∈ rows, r ∈ downAccounts db) :
    (detectAccountDown (rows.map downRow) (traces db) now).length = rows.length := by
  unfold detectAccountDown
  rw [List.length_filterMap_eq_countP,List.countP_eq_length.mpr,List.length_map]
  intro row hrow
  obtain ⟨r,hr,rfl⟩ := List.mem_map.mp hrow
  have hdown : r.2.status ∈ accountDownStatuses := by
    simpa using (Store.mem_select.mp (h r hr)).2
  simp [downRow,hdown]

theorem length_detectPaymentStuck (db : Database) {rows : List (ℕ × Payment)}
    (h : ∀ r ∈ rows, r ∈ unclosedPayments db (paymentStuckBefore now)) :
    (detectPaymentStuck (rows.map paymentRow) now).length = rows.length := by
  unfold detectPaymentStuck
  rw [List.length_filterMap_eq_countP,List.countP_eq_length.mpr,List.length_map]
  intro row hrow
  obtain ⟨r,hr,rfl⟩ := List.mem_map.mp hrow
  have hold : r.2.createdAt ≤ paymentStuckBefore now := by
    have hboth := (Store.mem_select.mp (h r hr)).2
    simp only [Bool.and_eq_true,decide_eq_true_eq] at hboth
    exact hboth.2
  have hnot : ¬paymentStuckBefore now < r.2.createdAt := Int.not_lt.mpr hold
  simp [paymentRow,hnot]

theorem seenAt_detectPaymentStuck {rows : List (ℕ × Payment)} {i : Incident}
    (h : i ∈ detectPaymentStuck (rows.map paymentRow) now) : ∃ r ∈ rows, i.seenAt = r.2.createdAt := by
  obtain ⟨row,hrow,hi⟩ := List.mem_filterMap.mp h
  obtain ⟨r,hr,rfl⟩ := List.mem_map.mp hrow
  obtain ⟨created,hcreated,hi⟩ := Option.bind_eq_some_iff.mp hi
  have hsome : r.2.createdAt = created := Option.some.inj hcreated
  split at hi
  · cases hi
  · cases hi
    exact ⟨r,hr,hsome.symm⟩

theorem createdLater_iff {a b : ℕ × Payment} : createdLater a b = true ↔
    (b.2.createdAt : ℤ) < a.2.createdAt ∨ (a.2.createdAt = b.2.createdAt ∧ b.1 ≤ a.1) := by
  simp [createdLater]

theorem createdLater_sorted (rows : List (ℕ × Payment)) :
    (rows.mergeSort createdLater).Pairwise fun a b => b.2.createdAt ≤ a.2.createdAt := by
  have htrans : ∀ a b c, createdLater a b = true → createdLater b c = true → createdLater a c = true := by
    intro a b c hab hbc
    rw [createdLater_iff] at hab hbc ⊢
    rcases hab with hab | ⟨hab,_⟩
    · rcases hbc with hbc | ⟨hbc,_⟩
      · exact .inl (Int.lt_trans hbc hab)
      · rw [← hbc]
        exact .inl hab
    · rw [hab]
      rcases hbc with hbc | ⟨hbc,_⟩
      · exact .inl hbc
      · exact .inr ⟨hbc,by omega⟩
  have htotal : ∀ a b, (createdLater a b || createdLater b a) = true := by
    intro a b
    rw [Bool.or_eq_true,createdLater_iff,createdLater_iff]
    rcases Int.lt_trichotomy a.2.createdAt b.2.createdAt with hlt | heq | hgt
    · exact .inr (.inl hlt)
    · rcases Nat.le_total b.1 a.1 with hle | hle
      · exact .inl (.inr ⟨heq,hle⟩)
      · exact .inr (.inr ⟨heq.symm,hle⟩)
    · exact .inl (.inl hgt)
  refine (List.pairwise_mergeSort htrans htotal rows).imp ?_
  intro a b h
  rcases createdLater_iff.mp h with hlt | ⟨heq,_⟩
  · exact Int.le_of_lt hlt
  · exact Int.le_of_eq heq.symm

theorem ordered_bySeenAt (found : List Incident) : Ordered Incident.seenAt found (bySeenAt found) :=
  ordered_mergeSort Incident.seenAt found

theorem incidents_perm {share : ℕ → ℕ → ℕ} {liveness : Dict ℤ WorkerLiveness} {thresholdSec : ℤ}
    {down kept left : List (ℕ × MessengerAccount)} {unclosed kept' left' : List (ℕ × Payment)}
    (hdown : down.Perm (kept ++ left)) (hunclosed : unclosed.Perm (kept' ++ left')) :
    (incidents db now share liveness thresholdSec down unclosed).Perm
      (incidents db now share liveness thresholdSec kept kept' ++
        (detectAccountDown (left.map downRow) (traces db) now ++ detectPaymentStuck (left'.map paymentRow) now)) := by
  have haccounts : (detectAccountDown (down.map downRow) (traces db) now).Perm
      (detectAccountDown (kept.map downRow) (traces db) now ++
        detectAccountDown (left.map downRow) (traces db) now) := by
    unfold detectAccountDown
    rw [← List.filterMap_append,← List.map_append]
    exact (hdown.map downRow).filterMap _
  have hpayments : (detectPaymentStuck (unclosed.map paymentRow) now).Perm
      (detectPaymentStuck (kept'.map paymentRow) now ++ detectPaymentStuck (left'.map paymentRow) now) := by
    unfold detectPaymentStuck
    rw [← List.filterMap_append,← List.map_append]
    exact (hunclosed.map paymentRow).filterMap _
  refine List.perm_iff_count.mpr ?_
  intro i
  have hcount := haccounts.count_eq i
  have hcount' := hpayments.count_eq i
  simp only [incidents,List.count_append] at hcount hcount' ⊢
  omega

/-- The whole, as it is cut into what the queries return and what they leave. -/
theorem allIncidents_perm (db : Database) (now : Instant) (share : ℕ → ℕ → ℕ) (liveness : Dict ℤ WorkerLiveness)
    (beatIntervalSec : Option ℤ) :
    (allIncidents db now share liveness beatIntervalSec).Perm
      (incidents db now share liveness (beatSilentOverdueSec (beatIntervalSec.getD celeryBeatIntervalSec))
          ((downSorted db).take (incidentListCap+1)) ((unclosedSorted db now).take (incidentListCap+1)) ++
        (detectAccountDown (((downSorted db).drop (incidentListCap+1)).map downRow) (traces db) now ++
          detectPaymentStuck (((unclosedSorted db now).drop (incidentListCap+1)).map paymentRow) now)) := by
  refine incidents_perm ?_ ?_
  · rw [List.take_append_drop]
    exact (List.mergeSort_perm _ _).symm
  · rw [List.take_append_drop]
    exact (List.mergeSort_perm _ _).symm

theorem length_read (db : Database) (now : Instant) {rows : List (ℕ × MessengerAccount)}
    (h : rows.Sublist (downSorted db)) :
    (detectAccountDown (rows.map downRow) (traces db) now).length = rows.length :=
  length_detectAccountDown fun _ hr => (List.mergeSort_perm _ _).mem_iff.mp (h.subset hr)

theorem length_read' (db : Database) (now : Instant) {rows : List (ℕ × Payment)}
    (h : rows.Sublist (unclosedSorted db now)) :
    (detectPaymentStuck (rows.map paymentRow) now).length = rows.length :=
  length_detectPaymentStuck db fun _ hr => (List.mergeSort_perm _ _).mem_iff.mp (h.subset hr)

theorem length_incidents (db : Database) (now : Instant) (share : ℕ → ℕ → ℕ) (liveness : Dict ℤ WorkerLiveness)
    (thresholdSec : ℤ)
    {down : List (ℕ × MessengerAccount)} {unclosed : List (ℕ × Payment)} (hdown : down.Sublist (downSorted db))
    (hunclosed : unclosed.Sublist (unclosedSorted db now)) :
    down.length + unclosed.length ≤ (incidents db now share liveness thresholdSec down unclosed).length := by
  simp only [incidents,List.length_append,length_read db now hdown,length_read' db now hunclosed]
  omega

theorem latest_of_found {share : ℕ → ℕ → ℕ} {liveness : Dict ℤ WorkerLiveness} {thresholdSec : ℤ}
    {down : List (ℕ × MessengerAccount)} {shown : List Incident}
    (h : Latest Incident.seenAt incidentListCap (incidents db now share liveness thresholdSec down
      ((unclosedSorted db now).take (incidentListCap+1))) shown) :
    Latest Incident.seenAt incidentListCap (incidents db now share liveness thresholdSec down
      ((unclosedSorted db now).take (incidentListCap+1)) ++
        detectPaymentStuck (((unclosedSorted db now).drop (incidentListCap+1)).map paymentRow) now) shown := by
  by_cases hmany : incidentListCap < ((unclosedSorted db now).take (incidentListCap+1)).length
  · have hkept : (detectPaymentStuck (((unclosedSorted db now).take (incidentListCap+1)).map paymentRow) now).Sublist
        (incidents db now share liveness thresholdSec down ((unclosedSorted db now).take (incidentListCap+1))) :=
      (List.sublist_append_right _ _).trans (List.sublist_append_left _ _)
    refine h.add_older hkept.subperm ?_ ?_
    · rw [length_read' db now (List.take_sublist _ _)]
      exact hmany
    · intro i hi j hj
      obtain ⟨r,hr,hi⟩ := seenAt_detectPaymentStuck hi
      obtain ⟨r',hr',hj⟩ := seenAt_detectPaymentStuck hj
      have hsorted := createdLater_sorted (unclosedPayments db (paymentStuckBefore now))
      rw [← List.take_append_drop (incidentListCap+1) (List.mergeSort _ _),List.pairwise_append] at hsorted
      rw [hi,hj]
      exact hsorted.2.2 r hr r' hr'
  · have hempty : (unclosedSorted db now).drop (incidentListCap+1) = [] := by
      refine List.drop_eq_nil_of_le ?_
      rw [List.length_take] at hmany
      omega
    rw [hempty]
    simpa [detectPaymentStuck] using h

end Board

/-- The board shows incidents of the five rules only, twenty or all of them, the latest first, and says
exactly when there are more; with at most twenty accounts down it shows the latest. -/
theorem incident_board_honest (db : Database) (now : Instant) (share : ℕ → ℕ → ℕ) (liveness : Dict ℤ WorkerLiveness)
    (beatIntervalSec : Option ℤ) :
    let all := allIncidents db now share liveness beatIntervalSec
    let board := collectIncidents db now share liveness beatIntervalSec
    board.incidents.Subperm all ∧ board.incidents.length = min 20 all.length ∧
      board.incidents.Pairwise (fun a b => b.seenAt ≤ a.seenAt) ∧ (board.capped = true ↔ 20 < all.length) ∧
      ((downAccounts db).length ≤ 20 → ∃ rest, all.Perm (board.incidents ++ rest) ∧
        ∀ a ∈ board.incidents, ∀ b ∈ rest, b.seenAt ≤ a.seenAt) := by
  intro all board
  have hall := allIncidents_perm db now share liveness beatIntervalSec
  have hshown : Latest Incident.seenAt incidentListCap _ board.incidents := latest_take (ordered_bySeenAt _) _
  have hread := length_incidents db now share liveness
    (beatSilentOverdueSec (beatIntervalSec.getD celeryBeatIntervalSec))
    (List.take_sublist (incidentListCap+1) _) (List.take_sublist (incidentListCap+1) _)
  have hlen := hall.length_eq
  simp only [List.length_append,length_read db now (List.drop_sublist _ _),
    length_read' db now (List.drop_sublist _ _),List.length_drop] at hlen
  simp only [List.length_take] at hread
  refine ⟨?_,?_,hshown.sorted,?_,?_⟩
  · exact (hshown.subperm.trans (List.sublist_append_left _ _).subperm).trans hall.symm.subperm
  · rw [hshown.length]
    change min 20 _ = min 20 (allIncidents db now share liveness beatIntervalSec).length
    unfold incidentListCap at *
    omega
  · change (decide _ || (decide _ || decide _)) = true ↔ 20 < (allIncidents db now share liveness beatIntervalSec).length
    simp only [Bool.or_eq_true,decide_eq_true_eq,List.length_take]
    unfold incidentListCap at *
    omega
  · intro hfew
    have hempty : (downSorted db).drop (incidentListCap+1) = [] := by
      refine List.drop_eq_nil_of_le ?_
      rw [downSorted,List.length_mergeSort]
      unfold incidentListCap
      omega
    rw [hempty] at hall
    exact ((latest_of_found hshown).perm hall.symm).none_later

end Incidents
end Broadcaster
