import Mathlib.Algebra.BigOperators.Group.Finset.Basic
import Mathlib.Algebra.GroupWithZero.Nat
import Mathlib.Algebra.Order.Group.Nat
import Mathlib.Algebra.BigOperators.Group.List.Basic

/-!
# The session of a WhatsApp worker

A worker of `wa_worker/index.js` holds at most one session. Requests, sockets and
timers act on it in any order; what happens between two awaits is one step here.
A caller that awaits `readyPromise` runs right after the promise has settled, so
it belongs to the step that settles it. Baileys, the library of the sockets, lies
outside the repository: a socket may report that it is open any number of times,
and reports its end once and nothing after that.
-/

namespace Broadcaster
namespace WaSession

def maxReconnectAttempts : ℕ := 5

/-- `DisconnectReason.loggedOut`, `DisconnectReason.forbidden` and 405. -/
def unrecoverable : List ℕ := [401,403,405]

def isUnrecoverable (statusCode : Option ℕ) : Bool := statusCode.any (unrecoverable.contains ·)

/-- Milliseconds before a reconnection. -/
def backoff (reconnectAttempts : ℕ) : ℕ := min (1000*2^(reconnectAttempts-1)) 30000

inductive Ready
  | pending
  | resolved
  | rejected
  deriving DecidableEq

namespace Ready

def resolve : Ready → Ready
  | .pending => .resolved
  | r => r

def reject : Ready → Ready
  | .pending => .rejected
  | r => r

end Ready

structure SessionState where
  isConnected : Bool
  initializing : Bool
  reconnectAttempts : ℕ
  intentionalClose : Bool
  readyPromise : Ready
  /-- `_readyTimeout` has neither fired nor been cleared -/
  timeoutSet : Bool
  ended : Bool
  deriving DecidableEq

namespace SessionState

def new (reconnectAttempts : ℕ) : SessionState := ⟨false,true,reconnectAttempts,false,.pending,true,false⟩

def opened (s : SessionState) : SessionState :=
  { s with
    isConnected := true
    initializing := false
    reconnectAttempts := 0
    timeoutSet := false
    readyPromise := s.readyPromise.resolve }

/-- The end of a socket that the worker itself has closed. -/
def closed (s : SessionState) : SessionState := { s with isConnected := false, ended := true }

def terminated (s : SessionState) : SessionState :=
  { s.closed with initializing := false, timeoutSet := false, readyPromise := s.readyPromise.reject }

/-- The end of a socket that is to be replaced; its promise stays as it is. -/
def retried (s : SessionState) : SessionState :=
  { s.closed with
    initializing := false
    timeoutSet := false
    reconnectAttempts := s.reconnectAttempts+1 }

def timedOut (s : SessionState) : SessionState :=
  { s with initializing := false, timeoutSet := false, readyPromise := s.readyPromise.reject }

end SessionState

/-- A call of `createSocket` that waits for `useMultiFileAuthState`, by its caller. -/
inductive Creation
  | start
  | load
  | reconnect (prevAttempts : ℕ)
  deriving DecidableEq

namespace Creation

def attempts : Creation → ℕ
  | .reconnect prevAttempts => prevAttempts
  | _ => 0

end Creation

structure Timer where
  state : ℕ
  backoff : ℕ
  deriving DecidableEq

inductive Loading
  | creating
  | waiting (i : ℕ)
  deriving DecidableEq

structure Worker where
  states : ℕ → SessionState
  made : ℕ
  session : Option ℕ
  onDisk : Bool
  creations : List Creation
  timers : List Timer
  loadingPromise : Option Loading
  logouts : ℕ

namespace Worker

def new (onDisk : Bool) : Worker := ⟨fun _ => .new 0,0,none,onDisk,[],[],none,0⟩

def update (w : Worker) (i : ℕ) (f : SessionState → SessionState) : Worker :=
  { w with states := Function.update w.states i (f (w.states i)) }

def isConnected (w : Worker) : Bool := w.session.any fun i => (w.states i).isConnected

/-- The promise of a session has settled: a load that waits for it ends. -/
def settled (w : Worker) (i : ℕ) : Worker :=
  { w with loadingPromise := if w.loadingPromise = some (.waiting i) then none else w.loadingPromise }

/-- `POST /api/sessions/:id/start`. -/
def start (w : Worker) : Worker :=
  match w.session with
  | none => { w with creations := w.creations++[.start] }
  | some i =>
    if (w.states i).isConnected then w
    else if (w.states i).initializing then w
    else { w with session := none, creations := w.creations++[.start] }

/-- What a call of `ensureSession` gets or waits for. -/
inductive Answer
  | session (i : ℕ)
  | whenReady (i : ℕ)
  | unavailable
  | whenLoaded
  deriving DecidableEq

def load (w : Worker) : Worker × Answer :=
  if w.onDisk then
    if w.loadingPromise.isSome then (w,.whenLoaded)
    else ({ w with loadingPromise := some .creating, creations := w.creations++[.load] },.whenLoaded)
  else (w,.unavailable)

def ensureSession (w : Worker) : Worker × Answer :=
  match w.session with
  | none => w.load
  | some i =>
    if (w.states i).isConnected then (w,.session i)
    else if (w.states i).initializing then (w,.whenReady i)
    else w.load

def destroySession (w : Worker) : Worker :=
  match w.session with
  | none => { w with onDisk := false }
  | some i => { w.update i (fun s => { s with intentionalClose := true }) with logouts := w.logouts+1 }

def loggedOut (w : Worker) : Worker :=
  { w with session := none, onDisk := false, logouts := w.logouts-1 }

/-- The rest of `createSocket`, and what its caller does with the new state. -/
def created (w : Worker) (c : Creation) : Worker :=
  { w with
    states := Function.update w.states w.made (.new c.attempts)
    made := w.made+1
    session := some w.made
    creations := w.creations.erase c
    loadingPromise := if c = .load then some (.waiting w.made) else w.loadingPromise }

def notCreated (w : Worker) (c : Creation) : Worker :=
  { w with
    session := if c = .start then w.session else none
    creations := w.creations.erase c
    loadingPromise := if c = .load then none else w.loadingPromise }

def opened (w : Worker) (i : ℕ) : Worker := (w.update i SessionState.opened).settled i

/-- The session cannot come back. -/
def dropped (w : Worker) (i : ℕ) : Worker :=
  { (w.update i SessionState.terminated).settled i with session := none }

def closed (w : Worker) (i : ℕ) (statusCode : Option ℕ) : Worker :=
  if (w.states i).intentionalClose then w.update i SessionState.closed
  else if isUnrecoverable statusCode then { w.dropped i with onDisk := false }
  else if (w.states i).reconnectAttempts < maxReconnectAttempts then
    { w.update i SessionState.retried with
      timers := w.timers++[⟨i,WaSession.backoff ((w.states i).reconnectAttempts+1)⟩] }
  else w.dropped i

def readyTimeout (w : Worker) (i : ℕ) : Worker :=
  { (w.update i SessionState.timedOut).settled i with session := none }

/-- The callback of the timer of a reconnection. -/
def backoffOver (w : Worker) (t : Timer) : Worker :=
  if w.isConnected then { w with timers := w.timers.erase t }
  else { w with
    session := none
    timers := w.timers.erase t
    creations := w.creations++[.reconnect (w.states t.state).reconnectAttempts] }

def listens (w : Worker) (i : ℕ) : Prop := i < w.made ∧ (w.states i).ended = false

instance (w : Worker) (i : ℕ) : Decidable (w.listens i) := inferInstanceAs (Decidable (_ ∧ _))

def awaits (w : Worker) (i : ℕ) : Prop := i < w.made ∧ (w.states i).timeoutSet = true

instance (w : Worker) (i : ℕ) : Decidable (w.awaits i) := inferInstanceAs (Decidable (_ ∧ _))

end Worker

inductive Event
  | start
  | ensureSession
  | destroySession
  | loggedOut
  | saveCreds
  | created (c : Creation)
  | notCreated (c : Creation)
  | opened (i : ℕ)
  | closed (i : ℕ) (statusCode : Option ℕ)
  | readyTimeout (i : ℕ)
  | backoffOver (t : Timer)
  deriving DecidableEq

def step (w : Worker) : Event → Option Worker
  | .start => some w.start
  | .ensureSession => some w.ensureSession.1
  | .destroySession => some w.destroySession
  | .loggedOut => if 0 < w.logouts then some w.loggedOut else none
  | .saveCreds => some { w with onDisk := true }
  | .created c => if c ∈ w.creations then some (w.created c) else none
  | .notCreated c => if c ∈ w.creations then some (w.notCreated c) else none
  | .opened i => if w.listens i then some (w.opened i) else none
  | .closed i statusCode => if w.listens i then some (w.closed i statusCode) else none
  | .readyTimeout i => if w.awaits i then some (w.readyTimeout i) else none
  | .backoffOver t => if t ∈ w.timers then some (w.backoffOver t) else none

def exec : Worker → List Event → Option Worker
  | w, [] => some w
  | w, e::es => (step w e).bind fun w' => exec w' es

theorem exec_induction {P : Worker → Prop} (hstep : ∀ w e w', P w → step w e = some w' → P w')
    {w w' : Worker} {es : List Event} (hw : P w) (hrun : exec w es = some w') : P w' := by
  induction es generalizing w with
  | nil => exact Option.some.inj hrun ▸ hw
  | cons e es ih =>
    obtain ⟨w₁,hw₁,hrun⟩ := Option.bind_eq_some_iff.mp hrun
    exact ih (hstep w e w₁ hw hw₁) hrun

section Frames

variable {w : Worker} {i j : ℕ} {f : SessionState → SessionState}

@[simp] theorem update_self : (w.update i f).states i = f (w.states i) := by simp [Worker.update]

@[simp] theorem update_of_ne (h : j ≠ i) : (w.update i f).states j = w.states j := by
  simp [Worker.update,h]

@[simp] theorem update_made : (w.update i f).made = w.made := rfl
@[simp] theorem update_creations : (w.update i f).creations = w.creations := rfl
@[simp] theorem update_timers : (w.update i f).timers = w.timers := rfl
@[simp] theorem update_loadingPromise : (w.update i f).loadingPromise = w.loadingPromise := rfl

@[simp] theorem settled_states : (w.settled i).states = w.states := rfl
@[simp] theorem settled_made : (w.settled i).made = w.made := rfl
@[simp] theorem settled_creations : (w.settled i).creations = w.creations := rfl
@[simp] theorem settled_timers : (w.settled i).timers = w.timers := rfl

theorem settled_loadingPromise :
    (w.settled i).loadingPromise = if w.loadingPromise = some (.waiting i) then none else w.loadingPromise := rfl

end Frames

/-- What a load waits for: its promise is open, its socket has reported nothing or its end. -/
structure Waits (s : SessionState) : Prop where
  pending : s.readyPromise = .pending
  ended : s.timeoutSet = false → s.ended = true
  fresh : s.ended = false → s.reconnectAttempts = 0

structure Timed (w : Worker) (t : Timer) : Prop where
  made : t.state < w.made
  ended : (w.states t.state).ended = true
  positive : 0 < (w.states t.state).reconnectAttempts
  backoff : t.backoff = WaSession.backoff (w.states t.state).reconnectAttempts

structure Sound (w : Worker) : Prop where
  attempts : ∀ i, (w.states i).reconnectAttempts ≤ maxReconnectAttempts
  creations : ∀ c ∈ w.creations, c.attempts ≤ maxReconnectAttempts
  timers : ∀ t ∈ w.timers, Timed w t
  loads : w.creations.count .load = if w.loadingPromise = some .creating then 1 else 0
  loader : ∀ i, w.loadingPromise = some (.waiting i) → i < w.made ∧ Waits (w.states i)

structure Evolves (s s' : SessionState) : Prop where
  attempts : s'.reconnectAttempts ≤ maxReconnectAttempts
  ended : s.ended = true → s'.ended = true ∧ s'.reconnectAttempts = s.reconnectAttempts

section

variable {w w' : Worker} {i : ℕ} {f : SessionState → SessionState} {t : Timer} {c : Creation}

theorem Timed.update (ht : Timed w t) (hf : Evolves (w.states i) (f (w.states i))) :
    Timed (w.update i f) t := by
  by_cases hi : t.state = i
  · subst hi
    obtain ⟨hended,hsame⟩ := hf.ended ht.ended
    exact ⟨ht.made,by rwa [update_self],by rw [update_self,hsame]; exact ht.positive,
      by rw [update_self,hsame]; exact ht.backoff⟩
  · exact ⟨ht.made,by rw [update_of_ne hi]; exact ht.ended,by rw [update_of_ne hi]; exact ht.positive,
      by rw [update_of_ne hi]; exact ht.backoff⟩

theorem attempts_update (hw : Sound w) (hf : Evolves (w.states i) (f (w.states i))) (j : ℕ) :
    ((w.update i f).states j).reconnectAttempts ≤ maxReconnectAttempts := by
  by_cases hj : j = i
  · subst hj
    rw [update_self]
    exact hf.attempts
  · rw [update_of_ne hj]
    exact hw.attempts j

namespace Sound

theorem new (onDisk : Bool) : Sound (.new onDisk) where
  attempts _ := Nat.zero_le _
  creations _ hc := (List.not_mem_nil hc).elim
  timers _ ht := (List.not_mem_nil ht).elim
  loads := rfl
  loader i hi := by cases hi

theorem congr (hw : Sound w) (session : Option ℕ) (onDisk : Bool) (logouts : ℕ) :
    Sound { w with session := session, onDisk := onDisk, logouts := logouts } :=
  ⟨hw.attempts,hw.creations,fun t ht => ⟨(hw.timers t ht).made,(hw.timers t ht).ended,
    (hw.timers t ht).positive,(hw.timers t ht).backoff⟩,hw.loads,hw.loader⟩

theorem update (hw : Sound w) (hf : Evolves (w.states i) (f (w.states i)))
    (hwaits : w.loadingPromise = some (.waiting i) → Waits (w.states i) → Waits (f (w.states i))) :
    Sound (w.update i f) where
  attempts := attempts_update hw hf
  creations := hw.creations
  timers t ht := (hw.timers t ht).update hf
  loads := hw.loads
  loader j hj := by
    obtain ⟨hmade,hwait⟩ := hw.loader j hj
    by_cases hji : j = i
    · subst hji
      exact ⟨hmade,by rw [update_self]; exact hwaits hj hwait⟩
    · exact ⟨hmade,by rwa [update_of_ne hji]⟩

theorem settled (hw : Sound w) (hf : Evolves (w.states i) (f (w.states i))) :
    Sound ((w.update i f).settled i) where
  attempts := attempts_update hw hf
  creations := hw.creations
  timers t ht := by
    have h := (hw.timers t ht).update hf
    exact ⟨h.made,h.ended,h.positive,h.backoff⟩
  loads := by
    rw [settled_creations,update_creations,settled_loadingPromise,update_loadingPromise,hw.loads]
    split <;> simp_all
  loader j hj := by
    rw [settled_loadingPromise,update_loadingPromise] at hj
    split at hj
    · cases hj
    next hne =>
      have hji : j ≠ i := fun h => hne (h ▸ hj)
      rw [settled_states,update_of_ne hji]
      exact hw.loader j hj

theorem create (hw : Sound w) (hc : c ≠ .load) (hattempts : c.attempts ≤ maxReconnectAttempts) :
    Sound { w with creations := w.creations++[c] } where
  attempts := hw.attempts
  creations d hd := by
    rcases List.mem_append.mp hd with hd | hd
    · exact hw.creations d hd
    · exact List.mem_singleton.mp hd ▸ hattempts
  timers t ht := ⟨(hw.timers t ht).made,(hw.timers t ht).ended,(hw.timers t ht).positive,
    (hw.timers t ht).backoff⟩
  loads := by
    dsimp only
    rw [List.count_append,List.count_singleton,if_neg (by simpa using hc),hw.loads,Nat.add_zero]
  loader := hw.loader

theorem load (hw : Sound w) : Sound w.load.1 := by
  unfold Worker.load
  split
  · cases hloading : w.loadingPromise with
    | some l => exact hw
    | none =>
      refine ⟨hw.attempts,?_,?_,?_,?_⟩
      · intro c hc
        rcases List.mem_append.mp hc with hc | hc
        · exact hw.creations c hc
        · exact List.mem_singleton.mp hc ▸ Nat.zero_le _
      · intro t ht
        exact ⟨(hw.timers t ht).made,(hw.timers t ht).ended,(hw.timers t ht).positive,(hw.timers t ht).backoff⟩
      · have hnone : w.creations.count .load = 0 := by rw [hw.loads,hloading]; rfl
        simp [List.count_append,hnone]
      · intro i hi
        cases hi
  · exact hw

theorem ensureSession (hw : Sound w) : Sound w.ensureSession.1 := by
  unfold Worker.ensureSession
  split
  · exact hw.load
  · split
    · exact hw
    split
    · exact hw
    · exact hw.load

theorem start (hw : Sound w) : Sound w.start := by
  have hcreate := hw.create (c := .start) nofun (Nat.zero_le _)
  unfold Worker.start
  split
  · exact hcreate
  · split
    · exact hw
    split
    · exact hw
    · exact hcreate.congr none w.onDisk w.logouts

theorem destroySession (hw : Sound w) : Sound w.destroySession := by
  unfold Worker.destroySession
  split
  · exact hw.congr w.session false w.logouts
  next i _ =>
    have h := hw.update (i := i) (f := fun s => { s with intentionalClose := true })
      ⟨hw.attempts i,fun hended => ⟨hended,rfl⟩⟩ fun _ h => ⟨h.pending,h.ended,h.fresh⟩
    exact h.congr w.session w.onDisk (w.logouts+1)

theorem created (hw : Sound w) (hc : c ∈ w.creations) : Sound (w.created c) where
  attempts j := by
    by_cases hj : j = w.made
    · subst hj
      simpa [Worker.created,SessionState.new] using hw.creations c hc
    · simpa [Worker.created,hj] using hw.attempts j
  creations d hd := hw.creations d (List.mem_of_mem_erase hd)
  timers t ht := by
    have h := hw.timers t ht
    have hne : t.state ≠ w.made := Nat.ne_of_lt h.made
    exact ⟨Nat.lt_succ_of_lt h.made,by simpa [Worker.created,hne] using h.ended,
      by simpa [Worker.created,hne] using h.positive,by simpa [Worker.created,hne] using h.backoff⟩
  loads := by
    have hloads := hw.loads
    by_cases hload : c = .load
    · subst hload
      have hpos : 0 < w.creations.count .load := List.count_pos_iff.mpr hc
      have hone : w.creations.count .load = 1 := by
        rw [hloads] at hpos ⊢
        split at hpos <;> simp_all
      simp [Worker.created,List.count_erase_self,hone]
    · simpa [Worker.created,hload,List.count_erase_of_ne (Ne.symm hload)] using hloads
  loader i hi := by
    by_cases hload : c = .load
    · subst hload
      have hmade : i = w.made := by simpa [Worker.created,eq_comm] using hi
      subst hmade
      refine ⟨Nat.lt_succ_self _,?_⟩
      simpa [Worker.created,Creation.attempts] using (⟨rfl,nofun,fun _ => rfl⟩ : Waits (.new 0))
    · obtain ⟨hmade,hwait⟩ := hw.loader i (by simpa [Worker.created,hload] using hi)
      refine ⟨Nat.lt_succ_of_lt hmade,?_⟩
      simpa [Worker.created,Nat.ne_of_lt hmade] using hwait

theorem notCreated (hw : Sound w) (hc : c ∈ w.creations) : Sound (w.notCreated c) where
  attempts := hw.attempts
  creations d hd := hw.creations d (List.mem_of_mem_erase hd)
  timers t ht := ⟨(hw.timers t ht).made,(hw.timers t ht).ended,(hw.timers t ht).positive,
    (hw.timers t ht).backoff⟩
  loads := by
    have hloads := hw.loads
    by_cases hload : c = .load
    · subst hload
      have hpos : 0 < w.creations.count .load := List.count_pos_iff.mpr hc
      have hone : w.creations.count .load = 1 := by
        rw [hloads] at hpos ⊢
        split at hpos <;> simp_all
      simp [Worker.notCreated,List.count_erase_self,hone]
    · simpa [Worker.notCreated,hload,List.count_erase_of_ne (Ne.symm hload)] using hloads
  loader i hi := by
    by_cases hload : c = .load
    · simp [Worker.notCreated,hload] at hi
    · exact hw.loader i (by simpa [Worker.notCreated,hload] using hi)

theorem opened (hw : Sound w) (hi : w.listens i) : Sound (w.opened i) :=
  hw.settled ⟨Nat.zero_le _,fun hended => by simp [hi.2] at hended⟩

theorem dropped (hw : Sound w) : Sound (w.dropped i) := by
  have h := hw.settled (i := i) (f := SessionState.terminated) ⟨hw.attempts i,fun _ => ⟨rfl,rfl⟩⟩
  exact h.congr none w.onDisk w.logouts

theorem retried (hw : Sound w) (hi : w.listens i)
    (hlt : (w.states i).reconnectAttempts < maxReconnectAttempts) :
    Sound { w.update i SessionState.retried with
      timers := w.timers++[⟨i,WaSession.backoff ((w.states i).reconnectAttempts+1)⟩] } := by
  have hevolves : Evolves (w.states i) (w.states i).retried := ⟨hlt,fun hended => by simp [hi.2] at hended⟩
  have h := hw.update hevolves fun _ h => ⟨h.pending,fun _ => rfl,nofun⟩
  refine ⟨h.attempts,h.creations,?_,h.loads,h.loader⟩
  intro t ht
  rcases List.mem_append.mp ht with ht | ht
  · have htimed := h.timers t ht
    exact ⟨htimed.made,htimed.ended,htimed.positive,htimed.backoff⟩
  · rw [List.mem_singleton.mp ht]
    exact ⟨hi.1,by simp [SessionState.retried,SessionState.closed],
      by simp [SessionState.retried],by simp [SessionState.retried]⟩

theorem closed (hw : Sound w) (hi : w.listens i) (statusCode : Option ℕ) : Sound (w.closed i statusCode) := by
  unfold Worker.closed
  split
  · exact hw.update ⟨hw.attempts i,fun _ => ⟨rfl,rfl⟩⟩ fun _ h => ⟨h.pending,fun _ => rfl,nofun⟩
  split
  · exact hw.dropped.congr none false w.logouts
  split
  next hlt => exact hw.retried hi hlt
  · exact hw.dropped

theorem readyTimeout (hw : Sound w) : Sound (w.readyTimeout i) := by
  have h := hw.settled (i := i) (f := SessionState.timedOut) ⟨hw.attempts i,fun hended => ⟨hended,rfl⟩⟩
  exact h.congr none w.onDisk w.logouts

theorem backoffOver (hw : Sound w) : Sound (w.backoffOver t) := by
  have herase : Sound { w with timers := w.timers.erase t } :=
    ⟨hw.attempts,hw.creations,fun u hu =>
      have h := hw.timers u (List.mem_of_mem_erase hu)
      ⟨h.made,h.ended,h.positive,h.backoff⟩,hw.loads,hw.loader⟩
  unfold Worker.backoffOver
  split
  · exact herase
  · have hcreate := herase.create (c := .reconnect (w.states t.state).reconnectAttempts) nofun (hw.attempts _)
    exact hcreate.congr none w.onDisk w.logouts

theorem step {e : Event} (hw : Sound w) (hstep : step w e = some w') : Sound w' := by
  cases e with
  | start => exact Option.some.inj hstep ▸ hw.start
  | ensureSession => exact Option.some.inj hstep ▸ hw.ensureSession
  | destroySession => exact Option.some.inj hstep ▸ hw.destroySession
  | saveCreds => exact Option.some.inj hstep ▸ hw.congr w.session true w.logouts
  | loggedOut =>
    obtain ⟨_,hw'⟩ := Option.ite_none_right_eq_some.mp hstep
    exact Option.some.inj hw' ▸ hw.congr none false (w.logouts-1)
  | created c =>
    obtain ⟨hc,hw'⟩ := Option.ite_none_right_eq_some.mp hstep
    exact Option.some.inj hw' ▸ hw.created hc
  | notCreated c =>
    obtain ⟨hc,hw'⟩ := Option.ite_none_right_eq_some.mp hstep
    exact Option.some.inj hw' ▸ hw.notCreated hc
  | opened i =>
    obtain ⟨hi,hw'⟩ := Option.ite_none_right_eq_some.mp hstep
    exact Option.some.inj hw' ▸ hw.opened hi
  | closed i statusCode =>
    obtain ⟨hi,hw'⟩ := Option.ite_none_right_eq_some.mp hstep
    exact Option.some.inj hw' ▸ hw.closed hi statusCode
  | readyTimeout i =>
    obtain ⟨_,hw'⟩ := Option.ite_none_right_eq_some.mp hstep
    exact Option.some.inj hw' ▸ hw.readyTimeout
  | backoffOver t =>
    obtain ⟨_,hw'⟩ := Option.ite_none_right_eq_some.mp hstep
    exact Option.some.inj hw' ▸ hw.backoffOver

end Sound

theorem sound_exec {onDisk : Bool} {es : List Event} (hrun : exec (.new onDisk) es = some w) : Sound w :=
  exec_induction (fun _ _ _ hw hstep => hw.step hstep) (Sound.new onDisk) hrun

end

/-- The sockets that a session can still bring about before it is open. -/
def SessionState.credit (s : SessionState) : ℕ :=
  if s.ended then 0 else maxReconnectAttempts-s.reconnectAttempts

def Creation.credit : Creation → ℕ
  | .reconnect prevAttempts => maxReconnectAttempts-prevAttempts+1
  | _ => 0

namespace Worker

def timerCredit (w : Worker) (t : Timer) : ℕ :=
  maxReconnectAttempts-(w.states t.state).reconnectAttempts+1

def credit (w : Worker) : ℕ :=
  (∑ i ∈ Finset.range w.made, (w.states i).credit)+(w.timers.map w.timerCredit).sum
    +(w.creations.map Creation.credit).sum

end Worker

/-- What a step may add: a session that is not a reconnection, or one that has come up, has all
its attempts before it. -/
def Event.grant : Event → ℕ
  | .created (.reconnect _) => 0
  | .created _ => maxReconnectAttempts+1
  | .opened _ => maxReconnectAttempts
  | _ => 0

section

variable {w w' : Worker} {i : ℕ} {f : SessionState → SessionState} {t : Timer} {c : Creation}

theorem sum_credit_update {n : ℕ} (states : ℕ → SessionState) (hi : i < n) (s : SessionState) :
    (∑ j ∈ Finset.range n, (Function.update states i s j).credit)+(states i).credit
      = (∑ j ∈ Finset.range n, (states j).credit)+s.credit := by
  have hmem : i ∈ Finset.range n := Finset.mem_range.mpr hi
  have hrest : ∑ j ∈ (Finset.range n).erase i, (Function.update states i s j).credit
      = ∑ j ∈ (Finset.range n).erase i, (states j).credit := by
    refine Finset.sum_congr rfl fun j hj => ?_
    rw [Function.update_of_ne (Finset.ne_of_mem_erase hj)]
  rw [← Finset.add_sum_erase _ _ hmem,← Finset.add_sum_erase _ (fun j => (states j).credit) hmem,hrest,
    Function.update_self]
  omega

theorem timerCredit_update (hw : Sound w) (hf : Evolves (w.states i) (f (w.states i))) (ht : t ∈ w.timers) :
    (w.update i f).timerCredit t = w.timerCredit t := by
  unfold Worker.timerCredit
  by_cases hi : t.state = i
  · subst hi
    rw [update_self,(hf.ended (hw.timers t ht).ended).2]
  · rw [update_of_ne hi]

theorem credit_update (hw : Sound w) (hi : i < w.made) (hf : Evolves (w.states i) (f (w.states i))) :
    (w.update i f).credit+(w.states i).credit = w.credit+(f (w.states i)).credit := by
  have hstates := sum_credit_update w.states hi (f (w.states i))
  have htimers : w.timers.map (w.update i f).timerCredit = w.timers.map w.timerCredit :=
    List.map_congr_left fun t ht => timerCredit_update hw hf ht
  unfold Worker.credit
  rw [update_made,update_timers,update_creations,htimers]
  change (∑ j ∈ Finset.range w.made, (Function.update w.states i (f (w.states i)) j).credit)+_+_+_ = _
  omega

theorem credit_create (c : Creation) :
    Worker.credit { w with creations := w.creations++[c] } = w.credit+c.credit := by
  change _+_+((w.creations++[c]).map Creation.credit).sum = _
  rw [List.map_append,List.sum_append,List.map_singleton,List.sum_singleton,← Nat.add_assoc]
  rfl

theorem credit_load : w.load.1.made = w.made ∧ w.load.1.credit = w.credit := by
  unfold Worker.load
  split
  · split
    · exact ⟨rfl,rfl⟩
    · exact ⟨rfl,credit_create .load⟩
  · exact ⟨rfl,rfl⟩

theorem credit_ensureSession : w.ensureSession.1.made = w.made ∧ w.ensureSession.1.credit = w.credit := by
  unfold Worker.ensureSession
  split
  · exact credit_load
  · split
    · exact ⟨rfl,rfl⟩
    split
    · exact ⟨rfl,rfl⟩
    · exact credit_load

theorem credit_start : w.start.made = w.made ∧ w.start.credit = w.credit := by
  unfold Worker.start
  split
  · exact ⟨rfl,credit_create .start⟩
  · split
    · exact ⟨rfl,rfl⟩
    split
    · exact ⟨rfl,rfl⟩
    · exact ⟨rfl,credit_create .start⟩

theorem sum_erase_timer (ht : t ∈ w.timers) :
    w.timerCredit t+((w.timers.erase t).map w.timerCredit).sum = (w.timers.map w.timerCredit).sum :=
  List.sum_map_erase _ ht

theorem credit_created (hw : Sound w) (hc : c ∈ w.creations) :
    (w.created c).credit+c.credit = w.credit+(maxReconnectAttempts-c.attempts) := by
  have hstates : ∑ i ∈ Finset.range (w.made+1), ((w.created c).states i).credit
      = (∑ i ∈ Finset.range w.made, (w.states i).credit)+(maxReconnectAttempts-c.attempts) := by
    rw [Finset.sum_range_succ]
    congr 1
    · refine Finset.sum_congr rfl fun i hi => ?_
      have hne : i ≠ w.made := Nat.ne_of_lt (Finset.mem_range.mp hi)
      simp [Worker.created,hne]
    · simp [Worker.created,SessionState.credit,SessionState.new]
  have htimers : w.timers.map (w.created c).timerCredit = w.timers.map w.timerCredit := by
    refine List.map_congr_left fun t ht => ?_
    have hne : t.state ≠ w.made := Nat.ne_of_lt (hw.timers t ht).made
    simp [Worker.timerCredit,Worker.created,hne]
  have hcreations : c.credit+((w.creations.erase c).map Creation.credit).sum
      = (w.creations.map Creation.credit).sum := List.sum_map_erase _ hc
  unfold Worker.credit
  change (∑ i ∈ Finset.range (w.made+1), ((w.created c).states i).credit)
    +(w.timers.map (w.created c).timerCredit).sum+((w.creations.erase c).map Creation.credit).sum+_ = _
  rw [hstates,htimers]
  omega

theorem credit_congr (hcredit : (f (w.states i)).credit = (w.states i).credit)
    (hattempts : (f (w.states i)).reconnectAttempts = (w.states i).reconnectAttempts) :
    (w.update i f).credit = w.credit := by
  have hstates : ∀ j, ((w.update i f).states j).credit = (w.states j).credit := by
    intro j
    by_cases hj : j = i
    · rw [hj,update_self,hcredit]
    · rw [update_of_ne hj]
  have htimers : (w.update i f).timerCredit = w.timerCredit := by
    funext t
    unfold Worker.timerCredit
    by_cases ht : t.state = i
    · rw [ht,update_self,hattempts]
    · rw [update_of_ne ht]
  unfold Worker.credit
  rw [htimers,Finset.sum_congr rfl fun j _ => hstates j]
  rfl

theorem credit_destroySession : w.destroySession.made = w.made ∧ w.destroySession.credit = w.credit := by
  unfold Worker.destroySession
  split
  · exact ⟨rfl,rfl⟩
  · exact ⟨rfl,credit_congr (f := fun s => { s with intentionalClose := true }) rfl rfl⟩

theorem credit_notCreated (hc : c ∈ w.creations) : (w.notCreated c).credit+c.credit = w.credit := by
  have hcreations : c.credit+((w.creations.erase c).map Creation.credit).sum
      = (w.creations.map Creation.credit).sum := List.sum_map_erase _ hc
  change _+_+((w.creations.erase c).map Creation.credit).sum+_ = _
  rw [Nat.add_assoc,Nat.add_comm _ c.credit,hcreations]
  rfl

theorem credit_opened (hw : Sound w) (hi : w.listens i) : (w.opened i).credit ≤ w.credit+maxReconnectAttempts := by
  have hupdate := credit_update (f := SessionState.opened) hw hi.1
    ⟨Nat.zero_le _,fun hended => by simp [hi.2] at hended⟩
  have hopened : (w.states i).opened.credit ≤ maxReconnectAttempts := by
    unfold SessionState.credit
    split <;> omega
  change (w.update i SessionState.opened).credit ≤ _
  omega

theorem credit_dropped (hw : Sound w) (hi : i < w.made) : (w.dropped i).credit ≤ w.credit := by
  have hupdate := credit_update (f := SessionState.terminated) hw hi ⟨hw.attempts i,fun _ => ⟨rfl,rfl⟩⟩
  have hended : (w.states i).terminated.credit = 0 := rfl
  change (w.update i SessionState.terminated).credit ≤ _
  omega

theorem credit_closed (hw : Sound w) (hi : w.listens i) (statusCode : Option ℕ) :
    (w.closed i statusCode).credit ≤ w.credit := by
  unfold Worker.closed
  split
  · have hupdate := credit_update (f := SessionState.closed) hw hi.1 ⟨hw.attempts i,fun _ => ⟨rfl,rfl⟩⟩
    have hended : (w.states i).closed.credit = 0 := rfl
    omega
  split
  · exact credit_dropped hw hi.1
  split
  next hlt =>
    have hupdate := credit_update (f := SessionState.retried) hw hi.1
      ⟨hlt,fun hended => by simp [hi.2] at hended⟩
    have hended : (w.states i).retried.credit = 0 := rfl
    have hcredit : (w.states i).credit = maxReconnectAttempts-(w.states i).reconnectAttempts := by
      simp [SessionState.credit,hi.2]
    have hattempts : ((w.update i SessionState.retried).states i).reconnectAttempts
        = (w.states i).reconnectAttempts+1 := by rw [update_self]; rfl
    change _+((w.timers++[_]).map (w.update i SessionState.retried).timerCredit).sum+_ ≤ _
    rw [List.map_append,List.sum_append,List.map_singleton,List.sum_singleton]
    have htimer : (w.update i SessionState.retried).timerCredit
        ⟨i,WaSession.backoff ((w.states i).reconnectAttempts+1)⟩ = (w.states i).credit := by
      change maxReconnectAttempts-((w.update i SessionState.retried).states i).reconnectAttempts+1 = _
      rw [hattempts,hcredit]
      omega
    rw [htimer]
    unfold Worker.credit at hupdate ⊢
    simp only [update_made,update_timers,update_creations] at hupdate ⊢
    omega
  · exact credit_dropped hw hi.1

theorem credit_readyTimeout : (w.readyTimeout i).credit = w.credit :=
  credit_congr (f := SessionState.timedOut) rfl rfl

theorem credit_backoffOver (ht : t ∈ w.timers) : (w.backoffOver t).credit ≤ w.credit := by
  have herase := sum_erase_timer ht
  have htimers : Worker.credit { w with timers := w.timers.erase t }
      = (∑ i ∈ Finset.range w.made, (w.states i).credit)+((w.timers.erase t).map w.timerCredit).sum
        +(w.creations.map Creation.credit).sum := rfl
  have hcredit : Worker.credit { w with timers := w.timers.erase t }+w.timerCredit t = w.credit := by
    rw [htimers]
    unfold Worker.credit
    omega
  unfold Worker.backoffOver
  split
  · omega
  · have hcreate := credit_create (w := { w with session := none, timers := w.timers.erase t })
      (.reconnect (w.states t.state).reconnectAttempts)
    exact Nat.le_of_eq (hcreate.trans hcredit)

/-- A step makes no more sockets than the worker had before it and the step adds. -/
theorem step_credit {e : Event} (hw : Sound w) (hstep : step w e = some w') :
    w'.made+w'.credit ≤ w.made+w.credit+e.grant := by
  cases e with
  | start =>
    obtain ⟨hmade,hcredit⟩ := credit_start (w := w)
    rw [← Option.some.inj hstep,hmade,hcredit]
    omega
  | ensureSession =>
    obtain ⟨hmade,hcredit⟩ := credit_ensureSession (w := w)
    rw [← Option.some.inj hstep,hmade,hcredit]
    omega
  | destroySession =>
    obtain ⟨hmade,hcredit⟩ := credit_destroySession (w := w)
    rw [← Option.some.inj hstep,hmade,hcredit]
    omega
  | saveCreds => exact Option.some.inj hstep ▸ Nat.le_refl _
  | loggedOut =>
    obtain ⟨_,hw'⟩ := Option.ite_none_right_eq_some.mp hstep
    exact Option.some.inj hw' ▸ Nat.le_refl _
  | created c =>
    obtain ⟨hc,hw'⟩ := Option.ite_none_right_eq_some.mp hstep
    have hcredit := credit_created hw hc
    have hattempts := hw.creations c hc
    have hmade : (w.created c).made = w.made+1 := rfl
    rw [← Option.some.inj hw',hmade]
    cases c with
    | start => simp only [Creation.credit,Creation.attempts,Event.grant] at *; omega
    | load => simp only [Creation.credit,Creation.attempts,Event.grant] at *; omega
    | reconnect p => simp only [Creation.credit,Creation.attempts,Event.grant] at *; omega
  | notCreated c =>
    obtain ⟨hc,hw'⟩ := Option.ite_none_right_eq_some.mp hstep
    have hcredit := credit_notCreated hc
    have hmade : (w.notCreated c).made = w.made := rfl
    rw [← Option.some.inj hw',hmade]
    omega
  | opened i =>
    obtain ⟨hi,hw'⟩ := Option.ite_none_right_eq_some.mp hstep
    have hcredit := credit_opened hw hi
    have hmade : (w.opened i).made = w.made := rfl
    rw [← Option.some.inj hw',hmade]
    simp only [Event.grant]
    omega
  | closed i statusCode =>
    obtain ⟨hi,hw'⟩ := Option.ite_none_right_eq_some.mp hstep
    have hcredit := credit_closed hw hi statusCode
    have hmade : (w.closed i statusCode).made = w.made := by
      unfold Worker.closed
      split
      · rfl
      split
      · rfl
      split <;> rfl
    rw [← Option.some.inj hw',hmade]
    omega
  | readyTimeout i =>
    obtain ⟨_,hw'⟩ := Option.ite_none_right_eq_some.mp hstep
    have hcredit := credit_readyTimeout (w := w) (i := i)
    have hmade : (w.readyTimeout i).made = w.made := rfl
    rw [← Option.some.inj hw',hmade]
    omega
  | backoffOver t =>
    obtain ⟨ht,hw'⟩ := Option.ite_none_right_eq_some.mp hstep
    have hcredit := credit_backoffOver ht
    have hmade : (w.backoffOver t).made = w.made := by
      unfold Worker.backoffOver
      split <;> rfl
    rw [← Option.some.inj hw',hmade]
    omega

theorem exec_credit {es : List Event} (hw : Sound w) (hrun : exec w es = some w') :
    w'.made+w'.credit ≤ w.made+w.credit+(es.map Event.grant).sum := by
  induction es generalizing w with
  | nil => exact Option.some.inj hrun ▸ Nat.le_add_right _ _
  | cons e es ih =>
    obtain ⟨w₁,hw₁,hrun⟩ := Option.bind_eq_some_iff.mp hrun
    have hstep := step_credit hw hw₁
    have hrest := ih (hw.step hw₁) hrun
    rw [List.map_cons,List.sum_cons]
    omega

end

def Event.isFresh : Event → Bool
  | .created .start => true
  | .created .load => true
  | _ => false

def Event.isOpened : Event → Bool
  | .opened _ => true
  | _ => false

theorem sum_grant (es : List Event) :
    (es.map Event.grant).sum
      = (maxReconnectAttempts+1)*es.countP Event.isFresh+maxReconnectAttempts*es.countP Event.isOpened := by
  induction es with
  | nil => rfl
  | cons e es ih =>
    have hgrant : e.grant = (maxReconnectAttempts+1)*(if e.isFresh then 1 else 0)
        +maxReconnectAttempts*(if e.isOpened then 1 else 0) := by
      cases e with
      | created c => cases c <;> rfl
      | _ => rfl
    rw [List.map_cons,List.sum_cons,ih,hgrant,List.countP_cons,List.countP_cons,Nat.mul_add,Nat.mul_add]
    omega

theorem backoff_eq {n : ℕ} (hn : n < maxReconnectAttempts) : backoff (n+1) = 1000*2^n := by
  have hpow : 2^n ≤ 2^4 := Nat.pow_le_pow_right (by decide) (Nat.le_of_lt_succ hn)
  simp only [backoff,Nat.add_sub_cancel]
  omega

/-- Reconnections end. A session that is not a reconnection brings at most six sockets about, itself
included, and each time that a socket opens at most five more. The delay of a reconnection doubles
from a second to sixteen and never reaches its cap. -/
theorem reconnections_are_bounded {onDisk : Bool} {es : List Event} {w : Worker}
    (hrun : exec (.new onDisk) es = some w) :
    w.made ≤ 6*es.countP Event.isFresh+5*es.countP Event.isOpened ∧
    ∀ t ∈ w.timers, ∃ n < 5, t.backoff = 1000*2^n ∧ (w.states t.state).reconnectAttempts = n+1 := by
  have hsound := sound_exec hrun
  refine ⟨?_,fun t ht => ?_⟩
  · have hcredit := exec_credit (Sound.new onDisk) hrun
    rw [sum_grant] at hcredit
    have hnew : (Worker.new onDisk).made+(Worker.new onDisk).credit = 0 := rfl
    simp only [maxReconnectAttempts] at hcredit
    omega
  · have htimed := hsound.timers t ht
    obtain ⟨n,hn⟩ := Nat.exists_eq_add_one.mpr htimed.positive
    have hlt : n < maxReconnectAttempts := by
      have h := hsound.attempts t.state
      omega
    exact ⟨n,hlt,by rw [htimed.backoff,hn,backoff_eq hlt],hn⟩

def twoLosses : List Event :=
  [.start,.created .start,.opened 0,.closed 0 none,.backoffOver ⟨0,1000⟩,.created (.reconnect 1),.closed 1 none]

theorem reconnections_are_bounded_two : ∃ w, exec (.new false) twoLosses = some w ∧
    (w.made ≤ 11 ∧
    ∀ t ∈ w.timers, ∃ n < 5, t.backoff = 1000*2^n ∧ (w.states t.state).reconnectAttempts = n+1) ∧
    w.made = 2 ∧ w.timers = [⟨1,2000⟩] := by
  have hrun : (exec (.new false) twoLosses).map (fun w => (w.made,w.timers)) = some (2,[⟨1,2000⟩]) := by decide
  obtain ⟨w,hw,hvalues⟩ := Option.map_eq_some_iff.mp hrun
  obtain ⟨hmade,htimers⟩ := Prod.mk.inj hvalues
  exact ⟨w,hw,reconnections_are_bounded hw,hmade,htimers⟩

/-- The load waits for a promise that nothing settles any more. -/
structure Hanging (w : Worker) (i : ℕ) : Prop where
  waiting : w.loadingPromise = some (.waiting i)
  ended : (w.states i).ended = true
  cleared : (w.states i).timeoutSet = false

section

variable {w w' : Worker} {i j : ℕ} {f : SessionState → SessionState} {c : Creation}

theorem load_of_loading (hloading : w.loadingPromise.isSome = true) : w.load.1 = w := by
  unfold Worker.load
  split
  · rfl
  · rfl

theorem ensureSession_of_loading (hloading : w.loadingPromise.isSome = true) : w.ensureSession.1 = w := by
  unfold Worker.ensureSession
  split
  · exact load_of_loading hloading
  · split
    · rfl
    split
    · rfl
    · exact load_of_loading hloading

theorem load_notMem (hw : Sound w) (hwaiting : w.loadingPromise = some (.waiting i)) : .load ∉ w.creations := by
  have hcount : w.creations.count .load = 0 := by
    rw [hw.loads,hwaiting,if_neg nofun]
  exact List.count_eq_zero.mp hcount

namespace Hanging

theorem update (h : Hanging w i) (hj : j ≠ i) : Hanging (w.update j f) i :=
  ⟨h.waiting,by rw [update_of_ne hj.symm]; exact h.ended,by rw [update_of_ne hj.symm]; exact h.cleared⟩

theorem settled (h : Hanging w i) (hj : j ≠ i) : Hanging (w.settled j) i := by
  refine ⟨?_,h.ended,h.cleared⟩
  rw [settled_loadingPromise,h.waiting,if_neg]
  intro heq
  exact hj (by simpa using heq.symm)

theorem congr (h : Hanging w i) (session : Option ℕ) (onDisk : Bool) (creations : List Creation)
    (timers : List Timer) (logouts : ℕ) : Hanging { w with
      session := session, onDisk := onDisk, creations := creations, timers := timers, logouts := logouts } i :=
  ⟨h.waiting,h.ended,h.cleared⟩

theorem start (h : Hanging w i) : Hanging w.start i := by
  unfold Worker.start
  split
  · exact h.congr w.session w.onDisk _ w.timers w.logouts
  · split
    · exact h
    split
    · exact h
    · exact h.congr none w.onDisk _ w.timers w.logouts

theorem destroySession (h : Hanging w i) : Hanging w.destroySession i := by
  unfold Worker.destroySession
  split
  · exact h.congr w.session false w.creations w.timers w.logouts
  next j _ =>
    by_cases hj : j = i
    · subst hj
      exact ⟨h.waiting,by simpa using h.ended,by simpa using h.cleared⟩
    · exact (h.update hj).congr w.session w.onDisk w.creations w.timers (w.logouts+1)

theorem created (h : Hanging w i) (hw : Sound w) (hc : c ∈ w.creations) : Hanging (w.created c) i := by
  have hload : c ≠ .load := fun hload => load_notMem hw h.waiting (hload ▸ hc)
  have hne : i ≠ w.made := Nat.ne_of_lt (hw.loader i h.waiting).1
  exact ⟨by simpa [Worker.created,hload] using h.waiting,by simpa [Worker.created,hne] using h.ended,
    by simpa [Worker.created,hne] using h.cleared⟩

theorem notCreated (h : Hanging w i) (hw : Sound w) (hc : c ∈ w.creations) : Hanging (w.notCreated c) i := by
  have hload : c ≠ .load := fun hload => load_notMem hw h.waiting (hload ▸ hc)
  exact ⟨by simpa [Worker.notCreated,hload] using h.waiting,h.ended,h.cleared⟩

theorem dropped (h : Hanging w i) (hj : j ≠ i) : Hanging (w.dropped j) i :=
  ((h.update hj).settled hj).congr none w.onDisk w.creations w.timers w.logouts

theorem closed (h : Hanging w i) (hj : j ≠ i) (statusCode : Option ℕ) : Hanging (w.closed j statusCode) i := by
  unfold Worker.closed
  split
  · exact h.update hj
  split
  · exact (h.dropped hj).congr none false w.creations w.timers w.logouts
  split
  · exact (h.update hj).congr w.session w.onDisk w.creations _ w.logouts
  · exact h.dropped hj

theorem ne_of_listens (h : Hanging w i) (hj : w.listens j) : j ≠ i := by
  rintro rfl
  exact absurd hj.2 (by simp [h.ended])

theorem ne_of_awaits (h : Hanging w i) (hj : w.awaits j) : j ≠ i := by
  rintro rfl
  exact absurd hj.2 (by simp [h.cleared])

theorem step {e : Event} (h : Hanging w i) (hw : Sound w) (hstep : step w e = some w') : Hanging w' i := by
  cases e with
  | start => exact Option.some.inj hstep ▸ h.start
  | ensureSession =>
    have hsame := ensureSession_of_loading (w := w) (by simp [h.waiting])
    exact Option.some.inj hstep ▸ hsame.symm ▸ h
  | destroySession => exact Option.some.inj hstep ▸ h.destroySession
  | saveCreds => exact Option.some.inj hstep ▸ h.congr w.session true w.creations w.timers w.logouts
  | loggedOut =>
    obtain ⟨_,hw'⟩ := Option.ite_none_right_eq_some.mp hstep
    exact Option.some.inj hw' ▸ h.congr none false w.creations w.timers (w.logouts-1)
  | created c =>
    obtain ⟨hc,hw'⟩ := Option.ite_none_right_eq_some.mp hstep
    exact Option.some.inj hw' ▸ h.created hw hc
  | notCreated c =>
    obtain ⟨hc,hw'⟩ := Option.ite_none_right_eq_some.mp hstep
    exact Option.some.inj hw' ▸ h.notCreated hw hc
  | opened j =>
    obtain ⟨hj,hw'⟩ := Option.ite_none_right_eq_some.mp hstep
    exact Option.some.inj hw' ▸ (h.update (h.ne_of_listens hj)).settled (h.ne_of_listens hj)
  | closed j statusCode =>
    obtain ⟨hj,hw'⟩ := Option.ite_none_right_eq_some.mp hstep
    exact Option.some.inj hw' ▸ h.closed (h.ne_of_listens hj) statusCode
  | readyTimeout j =>
    obtain ⟨hj,hw'⟩ := Option.ite_none_right_eq_some.mp hstep
    have hne := h.ne_of_awaits hj
    exact Option.some.inj hw' ▸
      ((h.update hne).settled hne).congr none w.onDisk w.creations w.timers w.logouts
  | backoffOver t =>
    obtain ⟨_,hw'⟩ := Option.ite_none_right_eq_some.mp hstep
    rw [← Option.some.inj hw']
    unfold Worker.backoffOver
    split
    · exact h.congr w.session w.onDisk w.creations _ w.logouts
    · exact h.congr none w.onDisk _ _ w.logouts

theorem exec {es : List Event} (h : Hanging w i) (hw : Sound w) (hrun : exec w es = some w') : Hanging w' i :=
  (exec_induction (P := fun w => Sound w ∧ Hanging w i)
    (fun _ _ _ hboth hstep => ⟨hboth.1.step hstep,hboth.2.step hboth.1 hstep⟩) ⟨hw,h⟩ hrun).2

end Hanging

/-- A load that waits for its session either still has the timeout that ends it, or never ends. -/
theorem hangs_iff (hw : Sound w) (hwaiting : w.loadingPromise = some (.waiting i)) :
    (∀ es w', exec w es = some w' → w'.loadingPromise = some (.waiting i))
      ↔ (w.states i).timeoutSet = false := by
  obtain ⟨hmade,hwait⟩ := hw.loader i hwaiting
  constructor
  · intro hnever
    cases hset : (w.states i).timeoutSet with
    | false => rfl
    | true =>
      have hstep : exec w [.readyTimeout i] = some (w.readyTimeout i) := by
        simp [exec,step,Worker.awaits,hmade,hset]
      have hended : (w.readyTimeout i).loadingPromise = none := by
        simp [Worker.readyTimeout,settled_loadingPromise,hwaiting]
      rw [hnever _ _ hstep] at hended
      cases hended
  · intro hcleared es w' hrun
    exact (Hanging.exec ⟨hwaiting,hwait.ended hcleared,hcleared⟩ hw hrun).waiting

theorem hangs_closed (hw : Sound w) (hwaiting : w.loadingPromise = some (.waiting i)) (hlistens : w.listens i)
    (hintended : (w.states i).intentionalClose = false) {statusCode : Option ℕ}
    (hcode : isUnrecoverable statusCode = false) : Hanging (w.closed i statusCode) i := by
  have hfresh := (hw.loader i hwaiting).2.fresh hlistens.2
  have hclosed : w.closed i statusCode = { w.update i SessionState.retried with
      timers := w.timers++[⟨i,WaSession.backoff ((w.states i).reconnectAttempts+1)⟩] } := by
    simp [Worker.closed,hintended,hcode,hfresh,maxReconnectAttempts]
  rw [hclosed]
  exact ⟨hwaiting,by simp [SessionState.retried,SessionState.closed],by simp [SessionState.retried]⟩

end

/-- A load whose socket ends before it opens, for a reason after which the worker reconnects, never
ends, whatever happens later, and as long as it does no other load begins. Such a load hangs exactly
when its timeout has been cleared. -/
theorem load_hangs {onDisk : Bool} {es : List Event} {w : Worker} {i : ℕ}
    (hrun : exec (.new onDisk) es = some w) (hwaiting : w.loadingPromise = some (.waiting i)) :
    ((∀ es' w', exec w es' = some w' → w'.loadingPromise = some (.waiting i))
      ↔ (w.states i).timeoutSet = false) ∧
    ∀ statusCode w₁, step w (.closed i statusCode) = some w₁ → (w.states i).intentionalClose = false →
      isUnrecoverable statusCode = false → ∀ es' w', exec w₁ es' = some w' →
        w'.loadingPromise = some (.waiting i) ∧ w'.ensureSession.1 = w' ∧ .load ∉ w'.creations := by
  have hsound := sound_exec hrun
  refine ⟨hangs_iff hsound hwaiting,?_⟩
  intro statusCode w₁ hstep hintended hcode es' w' hrun'
  obtain ⟨hlistens,hw₁⟩ := Option.ite_none_right_eq_some.mp hstep
  have hsound₁ := hsound.step hstep
  have hhanging : Hanging w₁ i := Option.some.inj hw₁ ▸ hangs_closed hsound hwaiting hlistens hintended hcode
  have hwaiting' := (hhanging.exec hsound₁ hrun').waiting
  have hsound' : Sound w' := exec_induction (fun _ _ _ hw hstep => hw.step hstep) hsound₁ hrun'
  exact ⟨hwaiting',ensureSession_of_loading (by simp [hwaiting']),load_notMem hsound' hwaiting'⟩

def firstLoad : List Event := [.ensureSession,.created .load]

theorem load_hangs_first : ∃ w, exec (.new true) firstLoad = some w ∧
    ((∀ es' w', exec w es' = some w' → w'.loadingPromise = some (.waiting 0))
      ↔ (w.states 0).timeoutSet = false) ∧
    ∃ w₁, step w (.closed 0 (some 515)) = some w₁ ∧ ∀ es' w', exec w₁ es' = some w' →
      w'.loadingPromise = some (.waiting 0) ∧ w'.ensureSession.1 = w' ∧ .load ∉ w'.creations := by
  have hrun : (exec (.new true) firstLoad).map (fun w =>
      (w.loadingPromise,w.states 0,(step w (.closed 0 (some 515))).isSome))
      = some (some (.waiting 0),.new 0,true) := by decide
  obtain ⟨w,hw,hvalues⟩ := Option.map_eq_some_iff.mp hrun
  obtain ⟨hwaiting,hvalues⟩ := Prod.mk.inj hvalues
  obtain ⟨hstate,hsome⟩ := Prod.mk.inj hvalues
  obtain ⟨w₁,hw₁⟩ := Option.isSome_iff_exists.mp hsome
  obtain ⟨hiff,hhangs⟩ := load_hangs hw hwaiting
  exact ⟨w,hw,hiff,w₁,hw₁,hhangs (some 515) w₁ hw₁ (by rw [hstate]; rfl) (by decide)⟩

end WaSession
end Broadcaster
