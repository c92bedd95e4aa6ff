import Broadcaster.Interleaving
import Mathlib.Data.Int.Notation
import Mathlib.Data.List.Basic

/-!
# Logging in to Telegram with a QR code

The sessions of `telegram_user.py` and the coroutines that share them: the start
of a login, the background task that waits for the scan, and the requests of the
owner. One move is what a coroutine does between two of its awaits. Session ids
are given out in order; an id that was removed from the registry is not given
out again.
-/

namespace Broadcaster
namespace QrSessions

open Interleaving

def qrSessionTtl : ℤ := 300000000

inductive Status
  | waiting | qrExpired | needs2fa | success | error
  deriving DecidableEq

/-- The task `_wait_for_qr` until its first step, and then in `qr_login.wait()`. -/
inductive WaitTask
  | created | waiting
  deriving DecidableEq

structure QrAuthState where
  userId : ℕ
  status : Status
  sessionString : Option String
  error : Option String
  createdAt : ℤ
  /-- `none` when the task has ended or is cancelled -/
  waitTask : Option WaitTask
  /-- whether it is in `_qr_sessions` -/
  registered : Bool
  deriving DecidableEq

structure Db where
  sessions : List QrAuthState

inductive Waited
  | scanned (sessionString : String)
  | timeout
  | passwordNeeded
  | failed (message : String)
  deriving DecidableEq

inductive Reply
  | gone
  | expired
  | status (s : Status) (error : Option String)
  deriving DecidableEq

inductive Pc
  | startQrAuth (user : ℕ)
  | connecting (user : ℕ)
  /-- `client.qr_login()` -/
  | loggingIn (user : ℕ)
  | started (x : ℕ)
  | waitForQr (x : ℕ)
  | getQrStatus (x user : ℕ)
  | replied (reply : Reply)
  | refreshQr (x user : ℕ)
  | recreating (x : ℕ)
  | refreshed (done : Bool)
  | submit2fa (x user : ℕ)
  | signingIn (x : ℕ)
  | signedIn (sessionString : String)
  | completeAuth (x user : ℕ)
  /-- `client.disconnect()`, with the string that will be returned -/
  | disconnecting (x user : ℕ) (sessionString : Option String)
  | completed (x user : ℕ) (sessionString : Option String)
  | raised
  deriving DecidableEq

structure Input where
  now : ℤ
  ok : Bool
  waited : Waited
  /-- the session after `sign_in`, or none when it raises -/
  signIn : Option String

namespace QrAuthState

def expired (s : QrAuthState) (now : ℤ) : Bool := qrSessionTtl < now-s.createdAt

/-- Taken out of the registry, and its task cancelled. -/
def release (s : QrAuthState) : QrAuthState := { s with registered := false, waitTask := none }

/-- The first step of `_wait_for_qr`. -/
def beginWait (s : QrAuthState) : QrAuthState :=
  { s with waitTask := if s.registered then some .waiting else none }

/-- The rest of `_wait_for_qr`. -/
def endWait (s : QrAuthState) (waited : Waited) : QrAuthState :=
  match waited with
  | .scanned sessionString =>
    { s with waitTask := none, sessionString := some sessionString, status := .success }
  | .timeout => { s with waitTask := none, status := .qrExpired }
  | .passwordNeeded => { s with waitTask := none, status := .needs2fa }
  | .failed message => { s with waitTask := none, status := .error, error := some message }

/-- `refresh_qr` after `recreate()` -/
def renew (s : QrAuthState) (now : ℤ) : QrAuthState :=
  { s with status := .waiting, createdAt := now, waitTask := some .created }

/-- `submit_2fa` after `sign_in` -/
def signIn (s : QrAuthState) (sessionString : String) : QrAuthState :=
  { s with sessionString := some sessionString, status := .success }

end QrAuthState

namespace Db

def modify (db : Db) (x : ℕ) (f : QrAuthState → QrAuthState) : Db := ⟨db.sessions.modify x f⟩

def cleanupExpiredSessions (db : Db) (now : ℤ) : Db :=
  ⟨db.sessions.map fun s => if s.registered && s.expired now then s.release else s⟩

def register (db : Db) (user : ℕ) (now : ℤ) : Db := ⟨db.sessions ++ [{
  userId := user
  status := .waiting
  sessionString := none
  error := none
  createdAt := now
  waitTask := some .created
  registered := true }]⟩

def owned (db : Db) (x user : ℕ) : Option QrAuthState :=
  db.sessions[x]?.filter fun s => s.registered && s.userId = user

end Db

def getQrStatus (db : Db) (x user : ℕ) (now : ℤ) : Reply :=
  match db.owned x user with
  | none => .gone
  | some s =>
    if s.status = .success then .status .success none
    else if s.expired now then .expired
    else .status s.status (s.error.filter fun e => e ≠ "")

def step (db : Db) (pc : Pc) (inp : Input) : Option (Db × Pc) :=
  match pc with
  | .startQrAuth user => some (db.cleanupExpiredSessions inp.now,.connecting user)
  | .connecting user => some (db,if inp.ok then .loggingIn user else .raised)
  | .loggingIn user =>
    if inp.ok then some (db.register user inp.now,.started db.sessions.length) else some (db,.raised)
  | .waitForQr x =>
    match db.sessions[x]?.bind QrAuthState.waitTask with
    | some .created => some (db.modify x QrAuthState.beginWait,.waitForQr x)
    | some .waiting => some (db.modify x fun s => s.endWait inp.waited,.waitForQr x)
    | none => none
  | .getQrStatus x user => some (db,.replied (getQrStatus db x user inp.now))
  | .refreshQr x user =>
    match db.owned x user with
    | none => some (db,.refreshed false)
    | some s =>
      if s.status ≠ .qrExpired then some (db,.refreshed false)
      else if s.expired inp.now then some (db,.refreshed false)
      else some (db,.recreating x)
  | .recreating x =>
    if inp.ok then some (db.modify x fun s => s.renew inp.now,.refreshed true)
    else some (db,.refreshed false)
  | .submit2fa x user => some (db,if (db.owned x user).isSome then .signingIn x else .raised)
  | .signingIn x =>
    match inp.signIn with
    | some sessionString => some (db.modify x fun s => s.signIn sessionString,.signedIn sessionString)
    | none => some (db,.raised)
  | .completeAuth x user =>
    match db.owned x user with
    | none => some (db,.completed x user none)
    | some s =>
      if s.status = .success then
        some (db.modify x QrAuthState.release,.disconnecting x user s.sessionString)
      else some (db,.completed x user none)
  | .disconnecting x user sessionString => some (db,.completed x user sessionString)
  | .started _ | .replied _ | .refreshed _ | .signedIn _ | .completed _ _ _ | .raised => none

def machine : Machine Db Pc Input where
  step := fun db _ pc inp => step db pc inp

/-- Requests that are still to come, and background tasks. -/
def Pc.isStart : Pc → Bool
  | .startQrAuth _ | .waitForQr _ | .getQrStatus _ _ | .refreshQr _ _ | .submit2fa _ _
  | .completeAuth _ _ | .raised => true
  | _ => false

structure Initial (c : Config Db Pc) : Prop where
  sessions : c.db.sessions = []
  starts : ∀ i, (c.pc i).isStart = true

def QrAuthState.finished (s : QrAuthState) : Bool := s.registered && s.status = .success

def Db.finished (db : Db) (x : ℕ) : Bool := db.sessions[x]?.any QrAuthState.finished

def Pc.TookBy (x user : ℕ) : Pc → Prop
  | .disconnecting y u (some _) => y = x ∧ u = user
  | .completed y u (some _) => y = x ∧ u = user
  | _ => False

def TakenBy (c : Config Db Pc) (x user : ℕ) : Prop := ∃ i, (c.pc i).TookBy x user

/-- No start sweeps a finished session away, no `recreate()` and no `wait()` with another outcome than a
scan comes back when the session is finished, and no `sign_in` when it has been swept away unfinished. -/
def keepsFinished (c : Config Db Pc) (m : Move Input) : Prop :=
  match c.pc m.1 with
  | .startQrAuth _ => ∀ s ∈ c.db.sessions, s.finished = true → s.expired m.2.now = false
  | .recreating x => m.2.ok = true → c.db.finished x = false
  | .waitForQr x => c.db.sessions[x]?.bind QrAuthState.waitTask = some .waiting →
    (∃ sessionString, m.2.waited = .scanned sessionString) ∨ c.db.finished x = false
  | .signingIn x => m.2.signIn.isSome = true →
    ∀ s ∈ c.db.sessions[x]?, s.registered = true ∨ s.status = .success ∨ TakenBy c x s.userId
  | _ => True

def Pc.plain : Pc → Bool
  | .disconnecting _ _ _ | .completed _ _ _ => false
  | _ => true

def Pc.Took (x : ℕ) : Pc → Prop
  | .disconnecting y _ _ => y = x
  | .completed y _ (some _) => y = x
  | _ => False

/-- The call returns the string, now or when it has disconnected. -/
def Pc.Returns (x user : ℕ) (string : String) : Pc → Prop
  | .disconnecting y u r | .completed y u r => y = x ∧ u = user ∧ r = some string
  | _ => False

/-- A call of `user` pops the finished session in a step of the run from `a` to `c`, and returns the session
string that the session has at that moment. -/
structure PoppedAt (G : Config Db Pc → Move Input → Prop) (a c : Config Db Pc) (i x user : ℕ)
    (b b' : Config Db Pc) (s : QrAuthState) (string : String) : Prop where
  before : Reaches machine G a b
  begins : b.pc i = .completeAuth x user
  owned : b.db.owned x user = some s
  success : s.status = .success
  sessionString : s.sessionString = some string
  pops : ∃ inp, G b (i,inp) ∧ next machine b (i,inp) = some b'
  gone : b'.db.owned x user = none
  afterwards : Reaches machine G b' c
  returns : (c.pc i).Returns x user string

def ReturnsItsString (G : Config Db Pc → Move Input → Prop) (a c : Config Db Pc) (i x user : ℕ) : Prop :=
  ∃ b b' s string, PoppedAt G a c i x user b b' s string

variable {db db' : Db} {pc pc' : Pc} {inp : Input} {x y user : ℕ} {s : QrAuthState}

theorem modify_get (db : Db) (x y : ℕ) (f : QrAuthState → QrAuthState) :
    (db.modify x f).sessions[y]? = if x = y then db.sessions[y]?.map f else db.sessions[y]? := by
  unfold Db.modify
  rw [List.getElem?_modify]
  split <;> simp

theorem sweep_get (db : Db) (now : ℤ) (y : ℕ) : (db.cleanupExpiredSessions now).sessions[y]? =
    db.sessions[y]?.map fun s => if s.registered && s.expired now then s.release else s := by
  unfold Db.cleanupExpiredSessions
  rw [List.getElem?_map]

theorem register_get (user : ℕ) (now : ℤ) (h : db.sessions[y]? = some s) :
    (db.register user now).sessions[y]? = some s := by
  unfold Db.register
  rw [List.getElem?_append_left (List.getElem?_eq_some_iff.mp h).1]
  exact h

theorem owned_eq_some : db.owned x user = some s ↔
    db.sessions[x]? = some s ∧ s.registered = true ∧ s.userId = user := by
  simp [Db.owned,Option.filter_eq_some_iff]

inductive Effect (db : Db) (inp : Input) : Pc → Db → Pc → Prop
  | sweep (user : ℕ) :
    Effect db inp (.startQrAuth user) (db.cleanupExpiredSessions inp.now) (.connecting user)
  | register (user : ℕ) :
    Effect db inp (.loggingIn user) (db.register user inp.now) (.started db.sessions.length)
  | beginWait (x : ℕ) : Effect db inp (.waitForQr x) (db.modify x QrAuthState.beginWait) (.waitForQr x)
  | endWait (x : ℕ) (h : db.sessions[x]?.bind QrAuthState.waitTask = some .waiting) :
    Effect db inp (.waitForQr x) (db.modify x fun s => s.endWait inp.waited) (.waitForQr x)
  | renew (x : ℕ) (h : inp.ok = true) :
    Effect db inp (.recreating x) (db.modify x fun s => s.renew inp.now) (.refreshed true)
  | signIn (x : ℕ) (sessionString : String) (h : inp.signIn = some sessionString) :
    Effect db inp (.signingIn x) (db.modify x fun s => s.signIn sessionString) (.signedIn sessionString)
  | take (x user : ℕ) (s : QrAuthState) (howned : db.owned x user = some s) (hstatus : s.status = .success) :
    Effect db inp (.completeAuth x user) (db.modify x QrAuthState.release)
      (.disconnecting x user s.sessionString)
  | disconnect (x user : ℕ) (sessionString : Option String) :
    Effect db inp (.disconnecting x user sessionString) db (.completed x user sessionString)
  | refuse (x user : ℕ) (h : ∀ s, db.owned x user = some s → s.status ≠ .success) :
    Effect db inp (.completeAuth x user) db (.completed x user none)
  | quiet {pc pc' : Pc} (hpc : pc.plain = true) (hpc' : pc'.plain = true) : Effect db inp pc db pc'

theorem effect_of_step (h : step db pc inp = some (db',pc')) : Effect db inp pc db' pc' := by
  cases pc with
  | startQrAuth user =>
    simp only [step,Option.some.injEq,Prod.mk.injEq] at h
    obtain ⟨rfl,rfl⟩ := h
    exact .sweep user
  | connecting user =>
    simp only [step,Option.some.injEq,Prod.mk.injEq] at h
    obtain ⟨rfl,rfl⟩ := h
    refine .quiet rfl ?_
    split <;> rfl
  | loggingIn user =>
    simp only [step] at h
    split at h
    · cases h
      exact .register user
    · cases h
      exact .quiet rfl rfl
  | waitForQr x =>
    simp only [step] at h
    split at h
    · cases h
      exact .beginWait x
    · rename_i hwaiting
      cases h
      exact .endWait x hwaiting
    · cases h
  | getQrStatus x user =>
    simp only [step,Option.some.injEq,Prod.mk.injEq] at h
    obtain ⟨rfl,rfl⟩ := h
    exact .quiet rfl rfl
  | refreshQr x user =>
    simp only [step] at h
    split at h
    · cases h
      exact .quiet rfl rfl
    · split at h
      · cases h
        exact .quiet rfl rfl
      · split at h
        · cases h
          exact .quiet rfl rfl
        · cases h
          exact .quiet rfl rfl
  | recreating x =>
    simp only [step] at h
    split at h
    · rename_i hok
      cases h
      exact .renew x hok
    · cases h
      exact .quiet rfl rfl
  | submit2fa x user =>
    simp only [step,Option.some.injEq,Prod.mk.injEq] at h
    obtain ⟨rfl,rfl⟩ := h
    refine .quiet rfl ?_
    split <;> rfl
  | signingIn x =>
    simp only [step] at h
    split at h
    · rename_i hsignIn
      cases h
      exact .signIn x _ hsignIn
    · cases h
      exact .quiet rfl rfl
  | completeAuth x user =>
    simp only [step] at h
    split at h
    · rename_i hnone
      cases h
      exact .refuse x user (fun s hs => by rw [hnone] at hs; cases hs)
    · rename_i s howned
      split at h
      · rename_i hstatus
        cases h
        exact .take x user s howned hstatus
      · rename_i hstatus
        cases h
        refine .refuse x user (fun s' hs => ?_)
        rw [howned] at hs
        cases hs
        exact hstatus
  | disconnecting x user sessionString =>
    simp only [step,Option.some.injEq,Prod.mk.injEq] at h
    obtain ⟨rfl,rfl⟩ := h
    exact .disconnect x user sessionString
  | started x => cases h
  | replied reply => cases h
  | refreshed done => cases h
  | signedIn sessionString => cases h
  | completed x user sessionString => cases h
  | raised => cases h

inductive Change (inp : Input) (pc pc' : Pc) (y : ℕ) (s : QrAuthState) : QrAuthState → Prop
  | same : Change inp pc pc' y s s
  | swept (user : ℕ) (hpc : pc = .startQrAuth user) (hregistered : s.registered = true)
    (hexpired : s.expired inp.now = true) : Change inp pc pc' y s s.release
  | began : Change inp pc pc' y s s.beginWait
  | ended (hpc : pc = .waitForQr y) (hwaiting : s.waitTask = some .waiting) :
    Change inp pc pc' y s (s.endWait inp.waited)
  | renewed (hpc : pc = .recreating y) (hok : inp.ok = true) : Change inp pc pc' y s (s.renew inp.now)
  | signedIn (sessionString : String) (hpc : pc = .signingIn y) (h : inp.signIn = some sessionString) :
    Change inp pc pc' y s (s.signIn sessionString)
  | taken (user : ℕ) (huser : s.userId = user) (hstatus : s.status = .success)
    (hpc' : pc' = .disconnecting y user s.sessionString) : Change inp pc pc' y s s.release

theorem change_modify {f : QrAuthState → QrAuthState} (h : db.sessions[y]? = some s)
    (hf : x = y → Change inp pc pc' y s (f s)) :
    ∃ s', (db.modify x f).sessions[y]? = some s' ∧ Change inp pc pc' y s s' := by
  rw [modify_get,h]
  split
  · rename_i hxy
    exact ⟨f s,rfl,hf hxy⟩
  · exact ⟨s,rfl,.same⟩

theorem Effect.change (he : Effect db inp pc db' pc') (h : db.sessions[y]? = some s) :
    ∃ s', db'.sessions[y]? = some s' ∧ Change inp pc pc' y s s' := by
  cases he with
  | sweep user =>
    rw [sweep_get,h]
    refine ⟨_,rfl,?_⟩
    simp only
    split
    · rename_i hswept
      simp only [Bool.and_eq_true] at hswept
      exact .swept user rfl hswept.1 hswept.2
    · exact .same
  | register user => exact ⟨s,register_get user inp.now h,.same⟩
  | beginWait x => exact change_modify h fun _ => .began
  | endWait x hwaiting =>
    refine change_modify h fun hxy => ?_
    subst hxy
    rw [h] at hwaiting
    exact .ended rfl hwaiting
  | renew x hok => exact change_modify h fun hxy => .renewed (hxy ▸ rfl) hok
  | signIn x sessionString hsignIn =>
    exact change_modify h fun hxy => .signedIn sessionString (hxy ▸ rfl) hsignIn
  | take x user s' howned hstatus =>
    refine change_modify h fun hxy => ?_
    subst hxy
    obtain ⟨hs',_,huser⟩ := owned_eq_some.mp howned
    rw [h] at hs'
    cases hs'
    exact .taken user huser hstatus rfl
  | disconnect _ _ _ => exact ⟨s,h,.same⟩
  | refuse _ _ _ => exact ⟨s,h,.same⟩
  | quiet _ _ => exact ⟨s,h,.same⟩

variable {s' : QrAuthState}

theorem Change.userId (h : Change inp pc pc' y s s') : s'.userId = s.userId := by
  cases h with
  | ended _ _ => unfold QrAuthState.endWait; split <;> rfl
  | same | swept _ _ _ _ | began | renewed _ _ | signedIn _ _ _ | taken _ _ _ _ => rfl

theorem Change.registered (h : Change inp pc pc' y s s') (hafter : s'.registered = true) :
    s.registered = true := by
  cases h with
  | swept _ _ hregistered _ => exact hregistered
  | taken _ _ _ _ => cases hafter
  | ended _ _ =>
    unfold QrAuthState.endWait at hafter
    split at hafter <;> exact hafter
  | same | began | renewed _ _ | signedIn _ _ _ => exact hafter

theorem Change.string (h : Change inp pc pc' y s s')
    (hbefore : s.status = .success → s.sessionString.isSome = true) (hafter : s'.status = .success) :
    s'.sessionString.isSome = true := by
  cases h with
  | ended _ _ =>
    unfold QrAuthState.endWait at hafter ⊢
    split at hafter
    · rfl
    all_goals cases hafter
  | renewed _ _ => cases hafter
  | signedIn _ _ _ => rfl
  | same | swept _ _ _ _ | began | taken _ _ _ _ => exact hbefore hafter

/-- A session is created only at the end of `start_qr_auth`. -/
theorem Effect.length (he : Effect db inp pc db' pc') :
    db'.sessions.length = db.sessions.length ∨ ∃ user, db' = db.register user inp.now := by
  have hmodify : ∀ x (f : QrAuthState → QrAuthState),
      (db.modify x f).sessions.length = db.sessions.length := fun x f => List.length_modify f _ x
  cases he with
  | sweep _ => exact .inl (List.length_map _)
  | register user => exact .inr ⟨user,rfl⟩
  | beginWait _ => exact .inl (hmodify _ _)
  | endWait _ _ => exact .inl (hmodify _ _)
  | renew _ _ => exact .inl (hmodify _ _)
  | signIn _ _ _ => exact .inl (hmodify _ _)
  | take _ _ _ _ _ => exact .inl (hmodify _ _)
  | disconnect _ _ _ => exact .inl rfl
  | refuse _ _ _ => exact .inl rfl
  | quiet _ _ => exact .inl rfl

theorem Effect.created (he : Effect db inp pc db' pc') (hnone : db.sessions[y]? = none)
    (h : db'.sessions[y]? = some s) : s.status = .waiting ∧ s.waitTask = some .created := by
  have hlt := (List.getElem?_eq_some_iff.mp h).1
  have hge := List.getElem?_eq_none_iff.mp hnone
  rcases he.length with hsame | ⟨user,rfl⟩
  · omega
  · have hlast : y = db.sessions.length := by
      simp only [Db.register,List.length_append,List.length_singleton] at hlt
      omega
    subst hlast
    simp only [Db.register,List.getElem?_concat_length,Option.some.injEq] at h
    subst h
    exact ⟨rfl,rfl⟩

/-- A session after a step is a new one, or what the step has made of one that was there. -/
theorem Effect.origin (he : Effect db inp pc db' pc') (h : db'.sessions[y]? = some s) :
    (s.status = .waiting ∧ s.waitTask = some .created) ∨
      ∃ s₀, db.sessions[y]? = some s₀ ∧ Change inp pc pc' y s₀ s := by
  cases hbefore : db.sessions[y]? with
  | none => exact .inl (he.created hbefore h)
  | some s₀ =>
    obtain ⟨s',hs',hchange⟩ := he.change hbefore
    rw [h] at hs'
    cases hs'
    exact .inr ⟨s₀,rfl,hchange⟩

/-- A finished session has its string, a session that was taken is out of the registry, its owner has
taken it, and two calls have not taken the same one. -/
structure Taken (c : Config Db Pc) : Prop where
  string : ∀ (x : ℕ) (s : QrAuthState), c.db.sessions[x]? = some s → s.status = .success → s.sessionString.isSome = true
  carried : ∀ i x user sessionString, c.pc i = .disconnecting x user sessionString →
    sessionString.isSome = true
  gone : ∀ i x, (c.pc i).Took x → ∃ s : QrAuthState, c.db.sessions[x]? = some s ∧ s.registered = false ∧
    (c.pc i).TookBy x s.userId
  once : ∀ i j x, (c.pc i).Took x → (c.pc j).Took x → i = j

theorem not_took_of_plain (h : pc.plain = true) : ¬ pc.Took y := by
  cases pc <;> first
    | exact id
    | cases h

theorem Effect.took (he : Effect db inp pc db' pc') (h : pc'.Took y)
    (hcarried : ∀ x user sessionString, pc = .disconnecting x user sessionString →
      sessionString.isSome = true) :
    pc.Took y ∨ ∃ user s, pc = .completeAuth y user ∧ db.owned y user = some s ∧ s.status = .success ∧
      db' = db.modify y QrAuthState.release ∧ pc' = .disconnecting y user s.sessionString := by
  cases he with
  | take x user s howned hstatus =>
    cases h
    exact .inr ⟨user,s,rfl,howned,hstatus,rfl,rfl⟩
  | disconnect x user sessionString =>
    obtain ⟨string,rfl⟩ := Option.isSome_iff_exists.mp (hcarried x user sessionString rfl)
    exact .inl h
  | refuse x user _ => exact absurd h id
  | sweep user => exact absurd h id
  | register user => exact absurd h id
  | beginWait x => exact absurd h id
  | endWait x _ => exact absurd h id
  | renew x _ => exact absurd h id
  | signIn x sessionString _ => exact absurd h id
  | quiet _ hplain => exact absurd h (not_took_of_plain hplain)

theorem not_tookBy_of_plain (h : pc.plain = true) : ¬ pc.TookBy x user := by
  cases pc <;> first
    | exact id
    | cases h

theorem Effect.tookBy (he : Effect db inp pc db' pc') (h : pc.TookBy x user) : pc'.TookBy x user := by
  cases he with
  | disconnect y u sessionString =>
    cases sessionString with
    | none => exact absurd h id
    | some string => exact h
  | sweep _ => exact absurd h id
  | register _ => exact absurd h id
  | beginWait _ => exact absurd h id
  | endWait _ _ => exact absurd h id
  | renew _ _ => exact absurd h id
  | signIn _ _ _ => exact absurd h id
  | take _ _ _ _ _ => exact absurd h id
  | refuse _ _ _ => exact absurd h id
  | quiet hplain _ => exact absurd h (not_tookBy_of_plain hplain)

theorem not_returns_of_plain {string : String} (h : pc.plain = true) : ¬ pc.Returns x user string := by
  cases pc <;> first
    | exact id
    | cases h

theorem Effect.returns {string : String} (he : Effect db inp pc db' pc') (h : pc.Returns x user string) :
    pc'.Returns x user string := by
  cases he with
  | disconnect y u sessionString => exact h
  | sweep _ => exact absurd h id
  | register _ => exact absurd h id
  | beginWait _ => exact absurd h id
  | endWait _ _ => exact absurd h id
  | renew _ _ => exact absurd h id
  | signIn _ _ _ => exact absurd h id
  | take _ _ _ _ _ => exact absurd h id
  | refuse _ _ _ => exact absurd h id
  | quiet hplain _ => exact absurd h (not_returns_of_plain hplain)

theorem Effect.disconnecting {sessionString : Option String}
    (he : Effect db inp pc db' (.disconnecting y user sessionString)) :
    ∃ s, db.owned y user = some s ∧ s.status = .success ∧ sessionString = s.sessionString := by
  cases he with
  | take _ _ s howned hstatus => exact ⟨s,howned,hstatus,rfl⟩
  | quiet _ hplain => cases hplain

theorem Effect.gone {user : ℕ} (he : Effect db inp pc db' pc')
    (h : ∃ s, db.sessions[y]? = some s ∧ s.registered = false ∧ s.userId = user) :
    ∃ s, db'.sessions[y]? = some s ∧ s.registered = false ∧ s.userId = user := by
  obtain ⟨s,hs,hgone,huser⟩ := h
  obtain ⟨s',hs',hchange⟩ := he.change hs
  refine ⟨s',hs',?_,hchange.userId.trans huser⟩
  cases hregistered : s'.registered with
  | false => rfl
  | true =>
    rw [hchange.registered hregistered] at hgone
    cases hgone

theorem release_gone (h : db.owned y user = some s) :
    ∃ s', (db.modify y QrAuthState.release).sessions[y]? = some s' ∧ s'.registered = false ∧
      s'.userId = user := by
  refine ⟨s.release,?_,rfl,(owned_eq_some.mp h).2.2⟩
  rw [modify_get,if_pos rfl,(owned_eq_some.mp h).1]
  rfl

theorem Taken.not_owned {c : Config Db Pc} {i : ℕ} (hc : Taken c) (h : (c.pc i).Took x) :
    ¬ ∃ user s, c.db.owned x user = some s := by
  rintro ⟨user,s,howned⟩
  obtain ⟨s',hs',hgone,_⟩ := hc.gone i x h
  obtain ⟨hsome,hregistered,_⟩ := owned_eq_some.mp howned
  rw [hs'] at hsome
  cases hsome
  rw [hregistered] at hgone
  cases hgone

theorem Taken.took {c : Config Db Pc} {m : Move Input} {i : ℕ} (hc : Taken c)
    (he : Effect c.db m.2 (c.pc m.1) db' pc') (h : (Function.update c.pc m.1 pc' i).Took x) :
    (c.pc i).Took x ∨ (i = m.1 ∧ ∃ user s, c.pc i = .completeAuth x user ∧
      c.db.owned x user = some s ∧ s.status = .success ∧
      db' = c.db.modify x QrAuthState.release ∧ pc' = .disconnecting x user s.sessionString) := by
  by_cases him : i = m.1
  · subst him
    simp only [Function.update_self] at h
    exact (he.took h (hc.carried m.1)).imp_right fun htook => ⟨rfl,htook⟩
  · simp only [Function.update_of_ne him] at h
    exact .inl h

theorem Taken.gone_next {c : Config Db Pc} {m : Move Input} (hc : Taken c)
    (he : Effect c.db m.2 (c.pc m.1) db' pc') (i x : ℕ)
    (h : (Function.update c.pc m.1 pc' i).Took x) : ∃ s : QrAuthState, db'.sessions[x]? = some s ∧
      s.registered = false ∧ (Function.update c.pc m.1 pc' i).TookBy x s.userId := by
  rcases hc.took he h with hi | ⟨rfl,user,s,_,howned,hstatus,rfl,rfl⟩
  · obtain ⟨s,hx,hgone,htook⟩ := hc.gone i x hi
    obtain ⟨s',hx',hgone',huser⟩ := he.gone ⟨s,hx,hgone,rfl⟩
    refine ⟨s',hx',hgone',?_⟩
    rw [huser]
    by_cases him : i = m.1
    · subst him
      simpa only [Function.update_self] using he.tookBy htook
    · simpa only [Function.update_of_ne him] using htook
  · obtain ⟨s',hx',hgone',huser⟩ := release_gone howned
    obtain ⟨string,hstring⟩ :=
      Option.isSome_iff_exists.mp (hc.string x s (owned_eq_some.mp howned).1 hstatus)
    refine ⟨s',hx',hgone',?_⟩
    simp only [Function.update_self,hstring]
    exact ⟨rfl,huser.symm⟩

theorem Taken.next {c c' : Config Db Pc} {m : Move Input} (hc : Taken c)
    (h : next machine c m = some c') : Taken c' := by
  obtain ⟨db,pc,hs,rfl⟩ := next_eq_some.mp h
  have he := effect_of_step hs
  refine ⟨fun x s hx hsuccess => ?_,fun i x user sessionString hi => ?_,hc.gone_next he,
    fun i j x hi hj => ?_⟩
  · rcases he.origin hx with ⟨hnew,_⟩ | ⟨s₀,hbefore,hchange⟩
    · rw [hnew] at hsuccess
      cases hsuccess
    · exact hchange.string (hc.string x s₀ hbefore) hsuccess
  · by_cases him : i = m.1
    · subst him
      simp only [Function.update_self] at hi
      subst hi
      obtain ⟨s,howned,hstatus,rfl⟩ := he.disconnecting
      exact hc.string x s (owned_eq_some.mp howned).1 hstatus
    · simp only [Function.update_of_ne him] at hi
      exact hc.carried i x user sessionString hi
  · -- a session that was taken before is not in the registry to be taken now
    rcases hc.took he hi with htooki | ⟨rfl,user,s,_,howned,_⟩
    · rcases hc.took he hj with htookj | ⟨rfl,user,s,_,howned,_⟩
      · exact hc.once i j x htooki htookj
      · exact absurd ⟨user,s,howned⟩ (hc.not_owned htooki)
    · rcases hc.took he hj with htookj | ⟨hjm,_⟩
      · exact absurd ⟨user,s,howned⟩ (hc.not_owned htookj)
      · exact hjm.symm

theorem Initial.not_took {a : Config Db Pc} (ha : Initial a) (i x : ℕ) : ¬ (a.pc i).Took x := by
  have hstart := ha.starts i
  cases hpc : a.pc i <;> rw [hpc] at hstart <;> first
    | exact id
    | cases hstart

theorem Initial.taken {a : Config Db Pc} (ha : Initial a) : Taken a := by
  have hnobody := ha.not_took
  refine ⟨fun x s hx => ?_,fun i x user sessionString hi => ?_,fun i x hi => absurd hi (hnobody i x),
    fun i j x hi => absurd hi (hnobody i x)⟩
  · rw [ha.sessions] at hx
    cases hx
  · exact absurd (show (a.pc i).Took x by rw [hi]; rfl) (hnobody i x)

theorem PoppedAt.next {G : Config Db Pc → Move Input → Prop} {a b b' c c' : Config Db Pc} {i : ℕ}
    {string : String} {m : Move Input} (hp : PoppedAt G a c i x user b b' s string) (hg : G c m)
    (h : next machine c m = some c') : PoppedAt G a c' i x user b b' s string := by
  refine { hp with afterwards := hp.afterwards.trans (.head ⟨m,hg,h⟩ (.refl c')), returns := ?_ }
  obtain ⟨db,pc,hs,rfl⟩ := next_eq_some.mp h
  by_cases him : i = m.1
  · subst him
    simpa only [Function.update_self] using (effect_of_step hs).returns hp.returns
  · simpa only [Function.update_of_ne him] using hp.returns

/-- Whoever has taken a session has popped it in the run, and returns the string that it had then. -/
theorem returnsItsString_of_took {G : Config Db Pc → Move Input → Prop} {a c : Config Db Pc} {i : ℕ}
    (ha : Initial a) (h : Reaches machine G a c) (hi : (c.pc i).Took x) :
    ∃ user, ReturnsItsString G a c i x user := by
  induction h with
  | refl => exact absurd hi (ha.not_took i x)
  | @tail b c hab hstep ih =>
    obtain ⟨m,hg,hm⟩ := hstep
    have htaken : Taken b := Reaches.invariant hab (fun _ _ _ hd _ hm => hd.next hm) ha.taken
    obtain ⟨db,pc,hs,hc⟩ := next_eq_some.mp hm
    rw [hc] at hi
    rcases htaken.took (effect_of_step hs) hi with hbefore | ⟨rfl,user,s,hbegins,howned,hstatus,rfl,rfl⟩
    · obtain ⟨user,d,d',s,string,hp⟩ := ih hbefore
      exact ⟨user,d,d',s,string,hp.next hg hm⟩
    · obtain ⟨string,hstring⟩ :=
        Option.isSome_iff_exists.mp (htaken.string x s (owned_eq_some.mp howned).1 hstatus)
      refine ⟨user,b,c,s,string,⟨hab,hbegins,howned,hstatus,hstring,⟨m.2,hg,hm⟩,?_,.refl c,?_⟩⟩
      · obtain ⟨s',hs',hgone,_⟩ := release_gone howned
        rw [hc]
        simp [Db.owned,hs',hgone]
      · simp only [hc,Function.update_self]
        exact ⟨rfl,rfl,hstring⟩

theorem ReturnsItsString.of_tookBy {G : Config Db Pc → Move Input → Prop} {a c : Config Db Pc} {i u : ℕ}
    (h : ReturnsItsString G a c i x user) (ht : (c.pc i).TookBy x u) : ReturnsItsString G a c i x u := by
  obtain ⟨b,b',s,string,hp⟩ := h
  have hreturns := hp.returns
  have huser : user = u := by
    cases hpc : c.pc i with
    | disconnecting y v r =>
      rw [hpc] at ht hreturns
      obtain ⟨_,rfl,rfl⟩ := hreturns
      exact ht.2
    | completed y v r =>
      rw [hpc] at ht hreturns
      obtain ⟨_,rfl,rfl⟩ := hreturns
      exact ht.2
    | _ =>
      rw [hpc] at hreturns
      exact absurd hreturns id
  exact huser ▸ ⟨b,b',s,string,hp⟩

theorem TakenBy.next {c c' : Config Db Pc} {m : Move Input} (hc : TakenBy c x user)
    (h : next machine c m = some c') : TakenBy c' x user := by
  obtain ⟨i,hi⟩ := hc
  obtain ⟨db,pc,hs,rfl⟩ := next_eq_some.mp h
  refine ⟨i,?_⟩
  by_cases him : i = m.1
  · subst him
    simpa using (effect_of_step hs).tookBy hi
  · simpa [Function.update_of_ne him] using hi

def Ready (db : Db) (x user : ℕ) : Prop := ∃ s, db.owned x user = some s ∧ s.status = .success

theorem getQrStatus_of_ready (h : Ready db x user) (now : ℤ) :
    getQrStatus db x user now = .status .success none := by
  obtain ⟨s,howned,hstatus⟩ := h
  simp only [getQrStatus,howned,hstatus,if_true]

theorem Change.ready {c : Config Db Pc} {m : Move Input} (h : Change m.2 (c.pc m.1) pc' y s s')
    (hg : keepsFinished c m) (hs : c.db.sessions[y]? = some s) (hregistered : s.registered = true)
    (hstatus : s.status = .success) :
    (s'.registered = true ∧ s'.status = .success) ∨
      pc' = .disconnecting y s.userId s.sessionString := by
  have hfinished : s.finished = true := by
    simp [QrAuthState.finished,hregistered,hstatus]
  have hdb : c.db.finished y = true := by
    simpa [Db.finished,hs] using hfinished
  unfold keepsFinished at hg
  cases h with
  | same => exact .inl ⟨hregistered,hstatus⟩
  | swept user hpc _ hexpired =>
    rw [hpc] at hg
    rw [hg s (List.mem_of_getElem? hs) hfinished] at hexpired
    cases hexpired
  | began => exact .inl ⟨hregistered,hstatus⟩
  | ended hpc hwaiting =>
    rw [hpc] at hg
    rcases hg (by rw [hs]; exact hwaiting) with ⟨string,hscanned⟩ | hnot
    · rw [hscanned]
      exact .inl ⟨hregistered,rfl⟩
    · rw [hdb] at hnot
      cases hnot
  | renewed hpc hok =>
    rw [hpc] at hg
    rw [hg hok] at hdb
    cases hdb
  | signedIn _ _ _ => exact .inl ⟨hregistered,rfl⟩
  | taken user huser _ hpc' => exact .inr (huser ▸ hpc')

theorem ready_step {c : Config Db Pc} {m : Move Input} (hg : keepsFinished c m) (ht : Taken c)
    (hs : step c.db (c.pc m.1) m.2 = some (db',pc')) (h : Ready c.db y user) :
    Ready db' y user ∨ pc'.TookBy y user := by
  obtain ⟨s,howned,hstatus⟩ := h
  obtain ⟨hbefore,hregistered,huser⟩ := owned_eq_some.mp howned
  obtain ⟨s',hafter,hchange⟩ := (effect_of_step hs).change hbefore
  rcases hchange.ready hg hbefore hregistered hstatus with ⟨hr,hst⟩ | hpc'
  · exact .inl ⟨s',owned_eq_some.mpr ⟨hafter,hr,hchange.userId.trans huser⟩,hst⟩
  · obtain ⟨string,hstring⟩ := Option.isSome_iff_exists.mp (ht.string y s hbefore hstatus)
    rw [hpc',hstring]
    exact .inr ⟨rfl,huser⟩

def Kept (c : Config Db Pc) (x user : ℕ) : Prop := Ready c.db x user ∨ TakenBy c x user

theorem Kept.next {c c' : Config Db Pc} {m : Move Input} (hc : Kept c x user) (ht : Taken c)
    (hg : keepsFinished c m) (h : next machine c m = some c') : Kept c' x user := by
  rcases hc with hready | htaken
  · obtain ⟨db,pc,hs,rfl⟩ := next_eq_some.mp h
    rcases ready_step hg ht hs hready with hready | htook
    · exact .inl hready
    · exact .inr ⟨m.1,by simpa using htook⟩
  · exact .inr (htaken.next h)

theorem Change.waits (h : Change inp pc pc' y s s')
    (hwaits : s.waitTask = some .waiting → s.registered = true)
    (hafter : s'.waitTask = some .waiting) : s'.registered = true := by
  cases h with
  | same => exact hwaits hafter
  | began =>
    simp only [QrAuthState.beginWait] at hafter ⊢
    split at hafter
    · assumption
    · cases hafter
  | ended _ _ =>
    unfold QrAuthState.endWait at hafter
    split at hafter <;> cases hafter
  | signedIn _ _ _ => exact hwaits hafter
  | swept _ _ _ _ | renewed _ _ | taken _ _ _ _ => cases hafter

/-- A session that becomes successful is in the registry, or its owner has taken it. -/
theorem Change.success {c : Config Db Pc} {m : Move Input} (h : Change m.2 (c.pc m.1) pc' y s s')
    (hg : keepsFinished c m) (hs : c.db.sessions[y]? = some s)
    (hwaits : s.waitTask = some .waiting → s.registered = true) (hbefore : s.status ≠ .success)
    (hafter : s'.status = .success) : s'.registered = true ∨ TakenBy c y s.userId := by
  unfold keepsFinished at hg
  cases h with
  | ended hpc hwaiting =>
    have hregistered := hwaits hwaiting
    left
    unfold QrAuthState.endWait
    split <;> exact hregistered
  | signedIn string hpc hsignIn =>
    rw [hpc] at hg
    have hkept := hg (by rw [hsignIn]; rfl) s (by rw [hs]; exact Option.mem_some_self s)
    rcases hkept with hregistered | hsuccess | htaken
    · exact .inl hregistered
    · exact absurd hsuccess hbefore
    · exact .inr htaken
  | renewed _ _ => cases hafter
  | same | swept _ _ _ _ | began | taken _ _ _ _ => exact absurd hafter hbefore

/-- Only registered sessions wait, and every successful session is kept. -/
structure Logins (c : Config Db Pc) : Prop where
  taken : Taken c
  waits : ∀ (x : ℕ) (s : QrAuthState), c.db.sessions[x]? = some s → s.waitTask = some .waiting →
    s.registered = true
  kept : ∀ (x : ℕ) (s : QrAuthState), c.db.sessions[x]? = some s → s.status = .success →
    Kept c x s.userId

theorem Logins.next {c c' : Config Db Pc} {m : Move Input} (hc : Logins c) (hg : keepsFinished c m)
    (h : next machine c m = some c') : Logins c' := by
  have hkept : ∀ x user, Kept c x user → Kept c' x user := fun x user hk => hk.next hc.taken hg h
  have htaken := hc.taken.next h
  obtain ⟨db,pc,hs,rfl⟩ := next_eq_some.mp h
  have he := effect_of_step hs
  refine ⟨htaken,fun x s hx hwaiting => ?_,fun x s hx hsuccess => ?_⟩
  · rcases he.origin hx with ⟨_,hnew⟩ | ⟨s₀,hbefore,hchange⟩
    · rw [hnew] at hwaiting
      cases hwaiting
    · exact hchange.waits (hc.waits x s₀ hbefore) hwaiting
  · rcases he.origin hx with ⟨hnew,_⟩ | ⟨s₀,hbefore,hchange⟩
    · rw [hnew] at hsuccess
      cases hsuccess
    · by_cases hstatus : s₀.status = .success
      · rw [hchange.userId]
        exact hkept x s₀.userId (hc.kept x s₀ hbefore hstatus)
      · rcases hchange.success hg hbefore (hc.waits x s₀ hbefore) hstatus hsuccess with hregistered | htook
        · exact .inl ⟨s,owned_eq_some.mpr ⟨hx,hregistered,rfl⟩,hsuccess⟩
        · rw [hchange.userId]
          exact hkept x s₀.userId (.inr htook)

theorem Initial.logins {a : Config Db Pc} (ha : Initial a) : Logins a := by
  refine ⟨ha.taken,fun x s hx => ?_,fun x s hx => ?_⟩
  · rw [ha.sessions] at hx
    cases hx
  · rw [ha.sessions] at hx
    cases hx

theorem logins_of_reaches {a b : Config Db Pc} (h : Reaches machine keepsFinished a b) (ha : Logins a) :
    Logins b :=
  h.invariant (fun _ _ _ hc hg hm => hc.next hg hm) ha

/-- Kept, with a call of the owner that has still to begin; or taken. -/
def Due (c : Config Db Pc) (k x user : ℕ) : Prop :=
  (Ready c.db x user ∧ c.pc k = .completeAuth x user) ∨ TakenBy c x user

theorem completeAuth_takes (ht : Db.owned db x user = some s) (hstatus : s.status = .success)
    (hstring : s.sessionString.isSome = true) (h : step db (.completeAuth x user) inp = some (db',pc')) :
    pc'.TookBy x user := by
  obtain ⟨string,hstring⟩ := Option.isSome_iff_exists.mp hstring
  simp only [step,ht,hstatus,if_true,Option.some.injEq,Prod.mk.injEq] at h
  rw [← h.2,hstring]
  exact ⟨rfl,rfl⟩

theorem Due.next {c c' : Config Db Pc} {m : Move Input} {k : ℕ} (hc : Due c k x user) (ht : Taken c)
    (hg : keepsFinished c m) (h : next machine c m = some c') : Due c' k x user := by
  rcases hc with ⟨hready,hk⟩ | htaken
  · obtain ⟨db,pc,hs,rfl⟩ := next_eq_some.mp h
    by_cases hkm : k = m.1
    · subst hkm
      obtain ⟨s,howned,hstatus⟩ := hready
      rw [hk] at hs
      have hstring := ht.string x s (owned_eq_some.mp howned).1 hstatus
      have hstep : step c.db (.completeAuth x user) m.2 = some (db,pc) := hs
      have htook := completeAuth_takes howned hstatus hstring hstep
      exact .inr ⟨m.1,by simpa using htook⟩
    · rcases ready_step hg ht hs hready with hready | htook
      · exact .inl ⟨hready,by simpa [Function.update_of_ne hkm] using hk⟩
      · exact .inr ⟨m.1,by simpa using htook⟩
  · exact .inr (htaken.next h)

theorem owner_of_reaches {G : Config Db Pc → Move Input → Prop} {a b : Config Db Pc}
    (h : Reaches machine G a b) (ha : ∃ s, a.db.sessions[x]? = some s ∧ s.userId = user) :
    ∃ s, b.db.sessions[x]? = some s ∧ s.userId = user := by
  refine h.invariant (I := fun c => ∃ s, c.db.sessions[x]? = some s ∧ s.userId = user) ?_ ha
  rintro c m c' ⟨s,hs,huser⟩ _ hm
  obtain ⟨db,pc,hstep,rfl⟩ := next_eq_some.mp hm
  obtain ⟨s',hs',hchange⟩ := (effect_of_step hstep).change hs
  exact ⟨s',hs',hchange.userId.trans huser⟩

/-- Under the condition a finished session answers success until one call of its owner takes it; at most
one call takes it, and it is its owner's and returns the session string that the session had at the pop; and a
call of its owner that comes later finds it taken or takes it. -/
theorem finished_login_kept {a b c : Config Db Pc} {x : ℕ} {s : QrAuthState} (ha : Initial a)
    (hab : Reaches machine keepsFinished a b) (hs : b.db.sessions[x]? = some s)
    (hsuccess : s.status = .success) (hbc : Reaches machine keepsFinished b c) :
    ((∀ now, getQrStatus c.db x s.userId now = .status .success none) ∨ TakenBy c x s.userId) ∧
    (∀ i j, (c.pc i).Took x → (c.pc j).Took x → i = j) ∧
    (∀ i, (c.pc i).Took x → ReturnsItsString keepsFinished a c i x s.userId) ∧
    ∀ k, b.pc k = .completeAuth x s.userId → c.pc k ≠ .completeAuth x s.userId →
      TakenBy c x s.userId := by
  have hb := logins_of_reaches hab ha.logins
  have hc := logins_of_reaches hbc hb
  have hkept : Kept c x s.userId := by
    refine (hbc.invariant (I := fun d => Taken d ∧ Kept d x s.userId) ?_ ⟨hb.taken,hb.kept x s hs hsuccess⟩).2
    rintro d m d' ⟨htaken,hkept⟩ hg hm
    exact ⟨htaken.next hm,hkept.next htaken hg hm⟩
  have hdue : ∀ k, b.pc k = .completeAuth x s.userId → Due c k x s.userId := by
    intro k hk
    have hdueb : Due b k x s.userId := (hb.kept x s hs hsuccess).imp_left fun hready => ⟨hready,hk⟩
    refine (hbc.invariant (I := fun d => Taken d ∧ Due d k x s.userId) ?_ ⟨hb.taken,hdueb⟩).2
    rintro d m d' ⟨htaken,hdue⟩ hg hm
    exact ⟨htaken.next hm,hdue.next htaken hg hm⟩
  obtain ⟨s',hs',huser⟩ := owner_of_reaches hbc ⟨s,hs,rfl⟩
  refine ⟨hkept.imp_left getQrStatus_of_ready,fun i j => hc.taken.once i j x,fun i hi => ?_,
    fun k hk hmoved => ?_⟩
  · obtain ⟨s'',hs'',_,htook⟩ := hc.taken.gone i x hi
    rw [hs'] at hs''
    cases hs''
    obtain ⟨user,hreturns⟩ := returnsItsString_of_took ha (hab.trans hbc) hi
    exact hreturns.of_tookBy (huser ▸ htook)
  · rcases hdue k hk with ⟨_,hwaiting⟩ | htaken
    · exact absurd hwaiting hmoved
    · exact htaken

def twoUsers : Config Db Pc where
  db := ⟨[]⟩
  pc := fun
    | 0 => .startQrAuth 7
    | 1 => .waitForQr 0
    | 2 => .completeAuth 0 7
    | 3 => .startQrAuth 8
    | _ => .raised

theorem twoUsers_initial : Initial twoUsers := by
  refine ⟨rfl,fun i => ?_⟩
  unfold twoUsers
  rcases i with _ | _ | _ | _ | i <;> rfl

/-- A move of process `i`, the given number of seconds after the first. -/
def atSecond (seconds : ℤ) (i : ℕ) : Move Input := (i,{
  now := seconds*1000000
  ok := true
  waited := .scanned "session"
  signIn := none })

def scannedAfter (G : Config Db Pc → Move Input → Prop) [∀ c m, Decidable (G c m)] : Config Db Pc :=
  after machine G twoUsers [atSecond 0 0,atSecond 0 0,atSecond 0 0,atSecond 0 1,atSecond 10 1]

def scannedSession : QrAuthState where
  userId := 7
  status := .success
  sessionString := some "session"
  error := none
  createdAt := 0
  waitTask := none
  registered := true

def sweepsNothing (c : Config Db Pc) (m : Move Input) : Bool :=
  match c.pc m.1 with
  | .startQrAuth _ => c.db.sessions.all fun s => !s.expired m.2.now
  | .waitForQr _ => m.2.waited = .scanned "session"
  | .recreating _ | .signingIn _ => false
  | _ => true

theorem keepsFinished_of_sweepsNothing (c : Config Db Pc) (m : Move Input)
    (h : sweepsNothing c m = true) : keepsFinished c m := by
  unfold sweepsNothing at h
  unfold keepsFinished
  generalize c.pc m.1 = pc at h ⊢
  cases pc with
  | startQrAuth user =>
    intro s hs _
    simpa using List.all_eq_true.mp h s hs
  | waitForQr x =>
    intro _
    exact .inl ⟨"session",of_decide_eq_true h⟩
  | recreating x => cases h
  | signingIn x => cases h
  | _ => trivial

/-- User 8 starts after 299 seconds, and user 7 completes the login after that. -/
theorem finished_login_kept_run :
    TakenBy (after machine (fun c m => sweepsNothing c m = true)
      (scannedAfter fun c m => sweepsNothing c m = true) [atSecond 299 3,atSecond 400 2,atSecond 400 2]) 0 7 := by
  refine (finished_login_kept (s := scannedSession) twoUsers_initial
    ((reaches_after _ _ _ _).mono keepsFinished_of_sweepsNothing) ?_ rfl
    ((reaches_after _ _ (scannedAfter fun c m => sweepsNothing c m = true) _).mono
      keepsFinished_of_sweepsNothing)).2.2.2 2 ?_ ?_
  all_goals decide

/-- User 8 starts after 301 seconds, when user 7 has not yet completed the login. -/
def sweptAfter : Config Db Pc := after machine anyMove (scannedAfter anyMove) [atSecond 301 3]

theorem swept_login_lost : ¬ ∀ (a b c : Config Db Pc) (x : ℕ) (s : QrAuthState), Initial a →
    Reaches machine anyMove a b → b.db.sessions[x]? = some s → s.status = .success →
    Reaches machine anyMove b c →
    ((∀ now, getQrStatus c.db x s.userId now = .status .success none) ∨ TakenBy c x s.userId) ∧
    (∀ i j, (c.pc i).Took x → (c.pc j).Took x → i = j) ∧
    (∀ i, (c.pc i).Took x → ReturnsItsString anyMove a c i x s.userId) ∧
    ∀ k, b.pc k = .completeAuth x s.userId → c.pc k ≠ .completeAuth x s.userId →
      TakenBy c x s.userId := by
  intro hall
  have hkept := (hall twoUsers (scannedAfter anyMove) sweptAfter 0 scannedSession twoUsers_initial
    (reaches_after _ _ _ _) (by decide) rfl (reaches_after _ _ _ _)).1
  rcases hkept with hsuccess | ⟨i,htook⟩
  · have hgone : getQrStatus sweptAfter.db 0 7 301000000 = .gone := by decide
    have hanswer := hsuccess 301000000
    rw [show scannedSession.userId = 7 from rfl,hgone] at hanswer
    cases hanswer
  · rcases i with _ | _ | _ | _ | i <;> exact htook

end QrSessions
end Broadcaster
