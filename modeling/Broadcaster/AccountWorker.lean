import Broadcaster.PythonValues
import Mathlib.Logic.Relation
import Mathlib.Data.List.Infix

/-!
# The worker of one messenger account

The consumer loop of `wa_worker/index.js` and of `max_worker/main.py`: pop a task
from the queue of the account, put it back while it is not due, wait for the
rate limit, send, publish a result or put the task back for another try. One
move is what happens up to the next `await`. A Redis command may fail, before or
after it has taken effect, and the process may be told to shut down.
-/

namespace Broadcaster
namespace AccountWorker

open Python

/-- The fields of a task that the worker only passes on. -/
structure TaskData where
  taskId : Json
  accountId : Json
  adId : Json
  groupId : Json
  scheduleId : Json
  userId : Json
  adTitle : Json
  adText : Json
  adImages : Json
  groupName : Json
  groupExternalId : Json
  deriving DecidableEq

/-- An element of the queue, with its fields `_retry_count` and `_delay_until`. -/
structure Task where
  data : TaskData
  retryCount : Option ℕ
  delayUntil : Option ℤ
  deriving DecidableEq

def Task.id (t : Task) : Json := t.data.taskId

def Task.retries (t : Task) : ℕ := t.retryCount.getD 0

/-- Not due yet; a `_delay_until` of 0 counts as none. -/
def Task.delayed (t : Task) (now : ℤ) : Bool := t.delayUntil.any fun d => d ≠ 0 && now < d

inductive Status
  | ok | fail
  deriving DecidableEq

structure SendResult where
  data : TaskData
  status : Status
  errorMessage : Option String
  noRetry : Bool
  messengerType : String
  sentAt : ℤ
  deriving DecidableEq

def SendResult.id (r : SendResult) : Json := r.data.taskId

/-- In what the two workers differ. The clock ticks `second` times a second. -/
structure Messenger where
  messengerType : String
  retryDelays : List ℕ
  second : ℤ
  rateLimitPerMinute : ℕ
  /-- `IDLE_SHUTDOWN_SEC`; `none` when an idle worker stays. -/
  idleShutdownSec : Option ℤ
  isNoRetryError : String → Bool
  /-- The seconds that WhatsApp asks to wait, or 0. -/
  extractRetryAfter : String → ℕ
  /-- What `publish_result` makes of `ad_title`, `ad_text` and `group_name`. -/
  text : Json → Json
  images : Json → Json

namespace Messenger

def maxRetries (m : Messenger) : ℕ := m.retryDelays.length

end Messenger

def lower (s : String) : List Char := s.toList.map Char.toLower

def containsText (needle : String) (cs : List Char) : Bool := cs.tails.any needle.toList.isPrefixOf

def afterPrefix (p cs : List Char) : Option (List Char) :=
  if p.isPrefixOf cs then some (cs.drop p.length) else none

def digits (cs : List Char) : List Char := cs.takeWhile Char.isDigit

def digitsValue (cs : List Char) : ℕ := cs.foldl (fun n c => 10*n+(c.toNat - '0'.toNat)) 0

/-- `wait of (\d+) seconds? is required`, at the beginning of the text -/
def retryAfterHere (cs : List Char) : Option ℕ :=
  (afterPrefix "wait of ".toList cs).bind fun rest =>
    let ds := digits rest
    let tail := rest.drop ds.length
    if !ds.isEmpty && (" seconds is required".toList.isPrefixOf tail ||
        " second is required".toList.isPrefixOf tail) then
      some (digitsValue ds)
    else none

def waExtractRetryAfter (message : String) : ℕ :=
  ((lower message).tails.findSome? retryAfterHere).getD 0

def waIsNoRetryError (message : String) : Bool :=
  lower message = "forbidden".toList || containsText "session not available" (lower message)

def maxIsNoRetryError (message : String) : Bool :=
  let lowered := lower message
  containsText "forbidden" lowered ||
    (containsText "session not available" lowered && !containsText "timeout" lowered) ||
    containsText "not a member" lowered || containsText "banned" lowered

/-- `value || other` in JavaScript, where arrays and objects are true -/
def jsOr (value other : Json) : Json :=
  match value with
  | .arr _ | .obj _ => value
  | value => if value.truthy then value else other

def waWorker (idleShutdownSec : ℤ) : Messenger where
  messengerType := "wa"
  retryDelays := [60,180,300]
  second := 1000
  rateLimitPerMinute := 8
  idleShutdownSec := some idleShutdownSec
  isNoRetryError := waIsNoRetryError
  extractRetryAfter := waExtractRetryAfter
  text := fun value => jsOr value .null
  images := fun value => jsOr value (.arr [])

/-- The clock is taken in microseconds. -/
def maxWorker (idleShutdownSec : ℤ) (rateLimitPerMinute : ℕ) : Messenger where
  messengerType := "max"
  retryDelays := [15,60,180]
  second := 1000000
  rateLimitPerMinute := rateLimitPerMinute
  idleShutdownSec := if 0 < idleShutdownSec then some idleShutdownSec else none
  isNoRetryError := maxIsNoRetryError
  extractRetryAfter := fun _ => 0
  text := fun value => value
  images := fun value => if value.truthy then value else .arr []

/-- Where the consumer waits. -/
inductive Pc
  | blpop
  /-- `rpush` of a task that is not due -/
  | requeue (t : Task)
  | waitForRateLimit (t : Task)
  | sendMessage (t : Task)
  | publish (r : SendResult)
  /-- `rpush` of a task for another try -/
  | retry (t : Task)
  | heartbeat
  | pause
  | stopped
  | exited
  deriving DecidableEq

/-- A call of `sendMessage`; `delivered` tells whether any message has gone out. -/
structure Attempt where
  taskId : Json
  error : Option String
  delivered : Bool
  deriving DecidableEq

structure Worker where
  queue : List Task
  results : List SendResult
  pc : Pc
  timestamps : List ℤ
  lastTaskTime : ℤ
  consumerRunning : Bool
  shuttingDown : Bool
  attempts : List Attempt
  deriving DecidableEq

inductive Reply
  | ok
  | failed (applied : Bool)
  deriving DecidableEq

def Reply.applied : Reply → Bool
  | ok => true
  | failed applied => applied

structure Input where
  now : ℤ
  redis : Reply
  error : Option String
  /-- whether a failing `sendMessage` has sent something before -/
  delivered : Bool

variable (m : Messenger)

def result (t : Task) (status : Status) (errorMessage : Option String) (noRetry : Bool) (now : ℤ) :
    SendResult where
  data := { t.data with
    adTitle := m.text t.data.adTitle
    adText := m.text t.data.adText
    adImages := m.images t.data.adImages
    groupName := m.text t.data.groupName }
  status := status
  errorMessage := errorMessage
  noRetry := noRetry
  messengerType := m.messengerType
  sentAt := now

/-- `processTask` after `sendMessage` has returned or raised. -/
def afterSend (t : Task) (now : ℤ) : Option String → Pc
  | none => .publish (result m t .ok none false now)
  | some message =>
    if m.isNoRetryError message then .publish (result m t .fail (some message) true now)
    else if 0 < m.extractRetryAfter message then
      .retry { t with
        retryCount := some t.retries
        delayUntil := some (now+m.extractRetryAfter message*m.second) }
    else
      match m.retryDelays[t.retries]? with
      | some delay => .retry { t with
          retryCount := some (t.retries+1)
          delayUntil := some (now+delay*m.second) }
      | none => .publish (result m t .fail (some message) false now)

variable {m} in
/-- A failure is final, or it waits as long as WhatsApp asks, or it uses up one of the retries. -/
theorem afterSend_cases (t : Task) (now : ℤ) (message : String) :
    (∃ noRetry, afterSend m t now (some message) = .publish (result m t .fail (some message) noRetry now)) ∨
    (m.isNoRetryError message = false ∧ 0 < m.extractRetryAfter message ∧ ∃ delayUntil,
      afterSend m t now (some message) =
        .retry { t with retryCount := some t.retries, delayUntil := delayUntil }) ∨
    (m.extractRetryAfter message = 0 ∧ t.retries < m.maxRetries ∧ ∃ delayUntil,
      afterSend m t now (some message) =
        .retry { t with retryCount := some (t.retries+1), delayUntil := delayUntil }) := by
  unfold afterSend
  by_cases hfinal : m.isNoRetryError message = true
  · exact .inl ⟨true,if_pos hfinal⟩
  · have hother : m.isNoRetryError message = false := by
      simpa using hfinal
    by_cases hwait : 0 < m.extractRetryAfter message
    · simp only [if_neg hfinal,if_pos hwait]
      exact .inr (.inl ⟨hother,hwait,_,rfl⟩)
    · simp only [if_neg hfinal,if_neg hwait]
      cases hdelay : m.retryDelays[t.retries]? with
      | none => exact .inl ⟨false,rfl⟩
      | some delay =>
        obtain ⟨hlt,_⟩ := List.getElem?_eq_some_iff.mp hdelay
        exact .inr (.inr ⟨Nat.eq_zero_of_not_pos hwait,hlt,_,rfl⟩)

namespace Worker

def again (w : Worker) : Worker := { w with pc := if w.consumerRunning then .blpop else .stopped }

def isIdle (w : Worker) (now : ℤ) : Bool :=
  m.idleShutdownSec.any fun idle => idle*m.second ≤ now-w.lastTaskTime

/-- `gracefulShutdown`, up to its first `await` -/
def beginShutdown (w : Worker) : Worker := { w with shuttingDown := true, consumerRunning := false }

/-- `gracefulShutdown('idle'); return` -/
def idleShutdown (w : Worker) : Worker := { w.beginShutdown with pc := .stopped }

def raised (w : Worker) (now : ℤ) : Worker :=
  if !w.consumerRunning then { w with pc := .stopped }
  else if w.isIdle m now then w.idleShutdown
  else { w with pc := .pause }

def push (w : Worker) (t : Task) : Worker := { w with queue := w.queue ++ [t] }

def pushResult (w : Worker) (r : SendResult) : Worker := { w with results := w.results ++ [r] }

/-- The reply of `blpop`; without an element it has timed out. -/
def popped (w : Worker) (inp : Input) : Worker :=
  match inp.redis, w.queue with
  | .failed applied, queue => { w with queue := if applied then queue.tail else queue }.raised m inp.now
  | .ok, [] => if w.isIdle m inp.now then w.idleShutdown else w.again
  | .ok, t::queue =>
    { w with
      queue := queue
      lastTaskTime := inp.now
      pc := if t.delayed inp.now then .requeue t else .waitForRateLimit t }

/-- The reply of `rpush` to the queue, from which the loop goes on at `next`. -/
def pushed (w : Worker) (inp : Input) (t : Task) (next : Worker → Worker) : Worker :=
  let w' := if inp.redis.applied then w.push t else w
  match inp.redis with
  | .ok => next w'
  | .failed _ => w'.raised m inp.now

end Worker

def consume (w : Worker) (inp : Input) : Option Worker :=
  match w.pc with
  | .blpop => some (w.popped m inp)
  | .requeue t => some (w.pushed m inp t Worker.again)
  | .waitForRateLimit t =>
    let timestamps := w.timestamps.filter fun s => inp.now-s < 60*m.second
    if timestamps.length < m.rateLimitPerMinute then
      some { w with timestamps := timestamps ++ [inp.now], pc := .sendMessage t }
    else some { w with timestamps := timestamps }
  | .sendMessage t => some { w with
      attempts := w.attempts ++ [⟨t.id,inp.error,inp.error.isNone || inp.delivered⟩]
      pc := afterSend m t inp.now inp.error }
  | .publish r =>
    let w' := if inp.redis.applied then w.pushResult r else w
    some { w' with pc := .heartbeat }
  | .retry t => some (w.pushed m inp t fun w => { w with pc := .heartbeat })
  | .heartbeat => some w.again
  | .pause => some w.again
  | .stopped => none
  | .exited => none

inductive Move
  | consumer (inp : Input)
  /-- SIGTERM or SIGINT -/
  | signal
  /-- the end of `gracefulShutdown` -/
  | exit

def next (w : Worker) : Move → Option Worker
  | .consumer inp => consume m w inp
  | .signal => if w.pc = .exited then none else some (if w.shuttingDown then w else w.beginShutdown)
  | .exit => if w.shuttingDown && w.pc ≠ .exited then some { w with pc := .exited } else none

def Step (G : Worker → Move → Prop) (w w' : Worker) : Prop := ∃ move, G w move ∧ next m w move = some w'

def Reaches (G : Worker → Move → Prop) : Worker → Worker → Prop := Relation.ReflTransGen (Step m G)

/-- A worker that starts on tasks without retry fields. -/
structure Initial (w : Worker) : Prop where
  distinct : (w.queue.map Task.id).Nodup
  fresh : ∀ t ∈ w.queue, t.retryCount = none ∧ t.delayUntil = none
  results : w.results = []
  attempts : w.attempts = []
  pc : w.pc = .blpop
  running : w.consumerRunning = true

theorem Reaches.invariant {m : Messenger} {G : Worker → Move → Prop} {I : Worker → Prop} {a b : Worker}
    (h : Reaches m G a b) (hstep : ∀ w move w', I w → G w move → next m w move = some w' → I w')
    (ha : I a) : I b := by
  induction h with
  | refl => exact ha
  | tail _ hs ih =>
    obtain ⟨move,hg,hm⟩ := hs
    exact hstep _ move _ ih hg hm

def exec (G : Worker → Move → Prop) [∀ w move, Decidable (G w move)] (w : Worker) :
    List Move → Option Worker
  | [] => some w
  | move::moves => if G w move then (next m w move).bind fun w' => exec G w' moves else none

theorem reaches_of_exec {m : Messenger} {G : Worker → Move → Prop} [∀ w move, Decidable (G w move)]
    {w w' : Worker} {moves : List Move} (h : exec m G w moves = some w') : Reaches m G w w' := by
  induction moves generalizing w with
  | nil =>
    have he := Option.some.inj h
    subst he
    exact Relation.ReflTransGen.refl
  | cons move moves ih =>
    simp only [exec] at h
    split at h
    · rename_i hg
      obtain ⟨v,hv,h⟩ := Option.bind_eq_some_iff.mp h
      exact Relation.ReflTransGen.head ⟨move,hg,hv⟩ (ih h)
    · cases h

end AccountWorker
end Broadcaster
