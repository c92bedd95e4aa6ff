import Broadcaster.PythonValues
import Broadcaster.Scheduling
import Broadcaster.Transcripts

/-!
# A send through Telegram

The adapter of `messengers/telegram_user.py` makes one client for each send. What
Telegram and the image store answer is not known: it may depend on everything
asked before. `send_message_once` writes what has come of a send.
-/

namespace Broadcaster
namespace TelegramSend

open Transcripts ScheduleService

/-- The exceptions that the adapter tells apart, with their texts. `ChatWriteForbiddenError` is a
`ForbiddenError`. -/
inductive Failure
  | valueError (text : String)
  | slowModeWait (text : String)
  | forbidden (text : String)
  | userBannedInChannel (text : String)
  | peerIdInvalid (text : String)
  | peerUnreachable (text : String)
  | other (text : String)
  deriving DecidableEq

structure Response (Content : Type) where
  statusCode : ℕ
  content : Content

structure File (Content : Type) where
  name : String
  content : Content

inductive Payload (Content : Type)
  | single (file : File Content)
  | album (files : List (File Content))

inductive Call (Peer Content : Type)
  | connect
  | getInputEntity (peerId : ℤ)
  | getDialogs
  | get (url : String)
  | sendFile (peer : Peer) (payload : Payload Content) (caption : String)
  | sendMessage (peer : Peer) (text : String)
  | disconnect

variable {Peer Content : Type}

namespace Call

def Value : Call Peer Content → Type
  | .getInputEntity _ => Peer
  | .get _ => Response Content
  | _ => Unit

end Call

abbrev Client (Peer Content α : Type) := Program (@Call.Value Peer Content) Failure α

namespace Client

def connect : Client Peer Content Unit := Program.call Call.connect
def getInputEntity (peerId : ℤ) : Client Peer Content Peer := Program.call (Call.getInputEntity peerId)
def getDialogs : Client Peer Content Unit := Program.call Call.getDialogs
def get (url : String) : Client Peer Content (Response Content) := Program.call (Call.get url)
def sendFile (peer : Peer) (payload : Payload Content) (caption : String) : Client Peer Content Unit :=
  Program.call (Call.sendFile peer payload caption)
def sendMessage (peer : Peer) (text : String) : Client Peer Content Unit :=
  Program.call (Call.sendMessage peer text)
def disconnect : Client Peer Content Unit := Program.call Call.disconnect

end Client

open Client

/-- The texts of the exceptions that Python and httpx raise. -/
structure Texts where
  invalidLiteral : String → String
  badStatus : String → ℕ → String

def peerUnreachableMessage : String :=
  "Аккаунт больше не имеет доступа к этой группе — пересинхронизируйте группы аккаунта."

variable (texts : Texts)

def resolveAgain (peerId : ℤ) : Client Peer Content Peer := do
  getDialogs
  (getInputEntity peerId).handle fun
    | .valueError _ => Program.raise (.peerUnreachable peerUnreachableMessage)
    | e => Program.raise e

/-- `_resolve_peer`; the dialogs are read once at most. -/
def resolvePeer (groupId : String) : Client Peer Content Peer :=
  match Python.int groupId.toList with
  | none => Program.raise (.valueError (texts.invalidLiteral groupId))
  | some peerId =>
    (getInputEntity peerId).handle fun
      | .valueError _ => resolveAgain peerId
      | e => Program.raise e

/-- `PurePosixPath(url.split("?")[0]).name or "image.jpg"` -/
def fileName (url : String) : String :=
  let parts := ((url.toList.takeWhile (· ≠ '?')).splitOn '/').filter fun part => part ≠ [] ∧ part ≠ ['.']
  match parts.getLast? with
  | some name => String.ofList name
  | none => "image.jpg"

def download (url : String) : Client Peer Content (File Content) := do
  let response ← get url
  if 200 ≤ response.statusCode ∧ response.statusCode < 300 then pure ⟨fileName url,response.content⟩
  else Program.raise (.other (texts.badStatus url response.statusCode))

/-- One file travels alone, several as an album. -/
def payloadOf : List (File Content) → Payload Content
  | [file] => .single file
  | files => .album files

/-- A file that may not be sent is replaced by its text. -/
def post (peer : Peer) (text : String) (payload : Payload Content) : Client Peer Content Unit :=
  (sendFile peer payload text).handle fun
    | .forbidden _ => Client.sendMessage peer text
    | e => Program.raise e

/-- The body of `send_message`. -/
def deliver (groupId text : String) (images : List String) : Client Peer Content Unit := do
  connect
  let peer ← resolvePeer texts groupId
  match images with
  | [] => Client.sendMessage peer text
  | images =>
    let files ← Program.each (download texts) images
    post peer text (payloadOf files)

structure SendResult where
  ok : Bool
  error : Option String
  noRetry : Bool
  deriving DecidableEq

/-- The `except` clauses of `send_message`. -/
def refusal : Failure → SendResult
  | .slowModeWait text => ⟨false,some text,true⟩
  | .forbidden text => ⟨false,some text,true⟩
  | .userBannedInChannel text => ⟨false,some text,true⟩
  | .peerIdInvalid _ => ⟨false,some peerUnreachableMessage,true⟩
  | .peerUnreachable _ => ⟨false,some peerUnreachableMessage,true⟩
  | .valueError text => ⟨false,some text,true⟩
  | .other text => ⟨false,some text,true⟩

def answerOf (body : Client Peer Content Unit) : Client Peer Content SendResult :=
  Program.handle (do let _ ← body; pure ⟨true,none,false⟩) fun e => pure (refusal e)

def leave : Client Peer Content Unit := disconnect.handle fun _ => pure ()

def sendMessage (groupId text : String) (images : List String) : Client Peer Content SendResult :=
  (answerOf (deliver texts groupId text images)).lastly leave

abbrev Entry (Peer Content : Type) := Transcripts.Entry (@Call.Value Peer Content) Failure

abbrev Conversation (Peer Content : Type) := List (Entry Peer Content)

namespace Call

def isDisconnect : Call Peer Content → Bool
  | .disconnect => true
  | _ => false

def isGetDialogs : Call Peer Content → Bool
  | .getDialogs => true
  | _ => false

def isGetInputEntity : Call Peer Content → Bool
  | .getInputEntity _ => true
  | _ => false

def sends : Call Peer Content → Option (Peer × String)
  | .sendFile peer _ caption => some (peer,caption)
  | .sendMessage peer text => some (peer,text)
  | _ => none

end Call

/-- Something has been sent, and Telegram has taken it. -/
def accepted (e : Entry Peer Content) : Bool := e.1.sends.isSome && e.2.isOk

/-- Nothing has been sent yet; the dialogs have been read once and the group looked up twice at most. -/
structure Prepared (t : Conversation Peer Content) : Prop where
  silent : ∀ e ∈ t, e.1.sends = none ∧ e.1.isDisconnect = false
  dialogs : t.countP (·.1.isGetDialogs) ≤ 1
  lookups : t.countP (·.1.isGetInputEntity) ≤ 2

/-- The peer is what Telegram has answered for the number of the group. -/
def Resolves (groupId : String) (t : Conversation Peer Content) (peer : Peer) : Prop :=
  ∃ peerId, Python.int groupId.toList = some peerId ∧
    (⟨Call.getInputEntity peerId,.ok peer⟩ : Entry Peer Content) ∈ t

theorem resolveAgain_leaves {groupId : String} {peerId : ℤ} (h : Python.int groupId.toList = some peerId) :
    Leaves (resolveAgain peerId : Client Peer Content Peer) fun t r =>
      (t.countP (·.1.isGetDialogs) ≤ 1 ∧ t.countP (·.1.isGetInputEntity) ≤ 1 ∧
        ∀ e ∈ t, e.1.sends = none ∧ e.1.isDisconnect = false) ∧
      ∀ peer, r = .ok peer → Resolves groupId t peer := by
  have hdialogs : Leaves (getDialogs : Client Peer Content Unit) fun t _ => ∃ answer, t = [⟨Call.getDialogs,answer⟩] :=
    leaves_call fun answer => ⟨answer,rfl⟩
  have hlookup : Leaves (getInputEntity peerId : Client Peer Content Peer) fun t r =>
      t = [⟨Call.getInputEntity peerId,r⟩] := leaves_call fun answer => rfl
  refine hdialogs.bind ?_ ?_
  · rintro _ e ⟨answer,rfl⟩
    refine ⟨⟨by simp [Call.isGetDialogs],by simp [Call.isGetInputEntity],?_⟩,nofun⟩
    simp [Call.sends,Call.isDisconnect]
  · rintro _ _ ⟨answer,rfl⟩
    refine hlookup.handle ?_ ?_
    · rintro _ peer rfl
      refine ⟨⟨by simp [Call.isGetDialogs],by simp [Call.isGetInputEntity],?_⟩,?_⟩
      · simp [Call.sends,Call.isDisconnect]
      · intro peer' hpeer
        cases hpeer
        exact ⟨peerId,h,.tail _ (.head _)⟩
    · rintro _ e rfl
      split
      all_goals
        refine leaves_raise ⟨⟨by simp [Call.isGetDialogs],by simp [Call.isGetInputEntity],?_⟩,nofun⟩
        simp [Call.sends,Call.isDisconnect]

theorem resolvePeer_leaves (groupId : String) :
    Leaves (resolvePeer texts groupId : Client Peer Content Peer) fun t r =>
      Prepared t ∧ ∀ peer, r = .ok peer → Resolves groupId t peer := by
  unfold resolvePeer
  split
  · exact leaves_raise ⟨⟨nofun,Nat.zero_le _,Nat.zero_le _⟩,nofun⟩
  next peerId h =>
    have hlookup : Leaves (getInputEntity peerId : Client Peer Content Peer) fun t r =>
        t = [⟨Call.getInputEntity peerId,r⟩] := leaves_call fun answer => rfl
    have hone : ∀ r : Except Failure Peer,
        Prepared ([⟨Call.getInputEntity peerId,r⟩] : Conversation Peer Content) := fun r =>
      ⟨by simp [Call.sends,Call.isDisconnect],by simp [Call.isGetDialogs],by simp [Call.isGetInputEntity]⟩
    refine hlookup.handle ?_ ?_
    · rintro _ peer rfl
      refine ⟨hone _,fun peer' hpeer => ?_⟩
      cases hpeer
      exact ⟨peerId,h,.head _⟩
    · rintro _ e rfl
      split
      · refine (resolveAgain_leaves h).mono ?_
        rintro t r ⟨⟨hdialogs,hlookups,hsilent⟩,hresolves⟩
        refine ⟨⟨?_,?_,?_⟩,fun peer hpeer => ?_⟩
        · exact List.forall_mem_append.mpr ⟨(hone _).silent,hsilent⟩
        · rw [List.countP_append]
          simpa [Call.isGetDialogs] using hdialogs
        · rw [List.singleton_append,List.countP_cons]
          exact Nat.succ_le_succ hlookups
        · obtain ⟨n,hn,hmem⟩ := hresolves peer hpeer
          exact ⟨n,hn,List.mem_append_right _ hmem⟩
      · exact leaves_raise ⟨by simpa using hone _,nofun⟩

def Downloads (e : Entry Peer Content) : Prop := ∃ url, e.1 = Call.get url

theorem download_leaves (url : String) :
    Leaves (download texts url : Client Peer Content (File Content)) fun t _ => ∀ e ∈ t, Downloads e := by
  have hget : Leaves (Client.get url : Client Peer Content (Response Content)) fun t _ => ∀ e ∈ t, Downloads e := by
    refine leaves_call fun answer e he => ?_
    rw [List.mem_singleton.mp he]
    exact ⟨url,rfl⟩
  refine hget.bind (fun t e ht => ht) fun t response ht => ?_
  split
  · exact leaves_pure (by simpa using ht)
  · exact leaves_raise (by simpa using ht)

theorem Prepared.append {t t' : Conversation Peer Content} (h : Prepared t) (h' : ∀ e ∈ t', Downloads e) :
    Prepared (t++t') := by
  have hzero : ∀ p : Call Peer Content → Bool, (∀ url, p (.get url) = false) → t'.countP (fun e => p e.1) = 0 := by
    intro p hp
    rw [List.countP_eq_zero]
    intro e he
    obtain ⟨url,hurl⟩ := h' e he
    simp [hurl,hp]
  refine ⟨List.forall_mem_append.mpr ⟨h.silent,fun e he => ?_⟩,?_,?_⟩
  · obtain ⟨url,hurl⟩ := h' e he
    rw [hurl]
    exact ⟨rfl,rfl⟩
  · rw [List.countP_append,hzero Call.isGetDialogs fun _ => rfl]
    exact h.dialogs
  · rw [List.countP_append,hzero Call.isGetInputEntity fun _ => rfl]
    exact h.lookups

theorem Prepared.connected {t : Conversation Peer Content} (h : Prepared t) (answer : Except Failure Unit) :
    Prepared ((⟨Call.connect,answer⟩ : Entry Peer Content)::t) := by
  refine ⟨List.forall_mem_cons.mpr ⟨⟨rfl,rfl⟩,h.silent⟩,?_,?_⟩
  · rw [List.countP_cons]
    exact h.dialogs
  · rw [List.countP_cons]
    exact h.lookups

theorem Resolves.append {groupId : String} {t t' : Conversation Peer Content} {peer : Peer}
    (h : Resolves groupId t peer) : Resolves groupId (t++t') peer := by
  obtain ⟨peerId,hint,hmem⟩ := h
  exact ⟨peerId,hint,List.mem_append_left _ hmem⟩

inductive Posting (peer : Peer) (text : String) : Conversation Peer Content → Except Failure Unit → Prop
  | message (answer : Except Failure Unit) : Posting peer text [⟨.sendMessage peer text,answer⟩] answer
  | file (payload : Payload Content) (answer : Except Failure Unit) :
    Posting peer text [⟨.sendFile peer payload text,answer⟩] answer
  | instead (payload : Payload Content) (reason : String) (answer : Except Failure Unit) :
    Posting peer text [⟨.sendFile peer payload text,.error (.forbidden reason)⟩,
      ⟨.sendMessage peer text,answer⟩] answer

theorem post_leaves (peer : Peer) (text : String) (payload : Payload Content) :
    Leaves (post peer text payload) (Posting peer text) := by
  have hfile : Leaves (Client.sendFile peer payload text) fun t r => t = [⟨Call.sendFile peer payload text,r⟩] :=
    leaves_call fun answer => rfl
  refine hfile.handle ?_ ?_
  · rintro _ ⟨⟩ rfl
    exact .file payload _
  · rintro _ e rfl
    split
    · exact leaves_call fun answer => .instead payload _ answer
    · exact leaves_raise (.file payload _)

structure Delivered (groupId text : String) (t : Conversation Peer Content) (r : Except Failure Unit) : Prop where
  accepted : t.countP accepted = if r.isOk then 1 else 0
  addressed : ∀ e ∈ t, ∀ peer words, e.1.sends = some (peer,words) → Resolves groupId t peer ∧ words = text
  dialogs : t.countP (·.1.isGetDialogs) ≤ 1
  lookups : t.countP (·.1.isGetInputEntity) ≤ 2
  posts : t.countP (·.1.sends.isSome) ≤ 2
  connected : ∀ e ∈ t, e.1.isDisconnect = false

theorem countP_silent {t : Conversation Peer Content} (h : Prepared t) :
    t.countP accepted = 0 ∧ t.countP (·.1.sends.isSome) = 0 := by
  constructor
  · rw [List.countP_eq_zero]
    intro e he
    simp [accepted,(h.silent e he).1]
  · rw [List.countP_eq_zero]
    intro e he
    simp [(h.silent e he).1]

theorem Prepared.failed {groupId text : String} {t : Conversation Peer Content} (h : Prepared t) (e : Failure) :
    Delivered groupId text t (.error e) where
  accepted := (countP_silent h).1
  addressed e he peer words hsends := by
    rw [(h.silent e he).1] at hsends
    cases hsends
  dialogs := h.dialogs
  lookups := h.lookups
  posts := by
    rw [(countP_silent h).2]
    exact Nat.zero_le _
  connected e he := (h.silent e he).2

theorem Posting.counts {peer : Peer} {text : String} {t : Conversation Peer Content} {r : Except Failure Unit}
    (h : Posting peer text t r) : t.countP accepted = (if r.isOk then 1 else 0) ∧
      t.countP (·.1.isGetDialogs) = 0 ∧ t.countP (·.1.isGetInputEntity) = 0 ∧ t.countP (·.1.sends.isSome) ≤ 2 := by
  cases h with
  | message answer =>
    cases r <;> simp [accepted,Call.sends,Call.isGetDialogs,Call.isGetInputEntity,Except.isOk,Except.toBool]
  | file payload answer =>
    cases r <;> simp [accepted,Call.sends,Call.isGetDialogs,Call.isGetInputEntity,Except.isOk,Except.toBool]
  | instead payload reason answer =>
    cases r <;> simp [accepted,Call.sends,Call.isGetDialogs,Call.isGetInputEntity,Except.isOk,Except.toBool]

theorem Posting.sends {peer : Peer} {text : String} {t : Conversation Peer Content} {r : Except Failure Unit}
    (h : Posting peer text t r) : ∀ e ∈ t, e.1.sends = some (peer,text) ∧ e.1.isDisconnect = false := by
  cases h with
  | message answer => simp [Call.sends,Call.isDisconnect]
  | file payload answer => simp [Call.sends,Call.isDisconnect]
  | instead payload reason answer => simp [Call.sends,Call.isDisconnect]

theorem Prepared.posted {groupId text : String} {t t' : Conversation Peer Content} {peer : Peer}
    {r : Except Failure Unit} (h : Prepared t) (hpeer : Resolves groupId t peer) (hpost : Posting peer text t' r) :
    Delivered groupId text (t++t') r := by
  obtain ⟨haccepted,hdialogs,hlookups,hposts⟩ := hpost.counts
  obtain ⟨hzero,hnone⟩ := countP_silent h
  constructor
  · rw [List.countP_append,hzero,haccepted,Nat.zero_add]
  · intro e he peer' words hsends
    rcases List.mem_append.mp he with he | he
    · rw [(h.silent e he).1] at hsends
      cases hsends
    · rw [(hpost.sends e he).1] at hsends
      cases hsends
      exact ⟨hpeer.append,rfl⟩
  · rw [List.countP_append,hdialogs]
    exact h.dialogs
  · rw [List.countP_append,hlookups]
    exact h.lookups
  · rw [List.countP_append,hnone,Nat.zero_add]
    exact hposts
  · exact List.forall_mem_append.mpr ⟨fun e he => (h.silent e he).2,fun e he => (hpost.sends e he).2⟩

theorem deliver_leaves (groupId text : String) (images : List String) :
    Leaves (deliver texts groupId text images : Client Peer Content Unit) (Delivered groupId text) := by
  have hconnect : Leaves (connect : Client Peer Content Unit) fun t r => t = [⟨Call.connect,r⟩] :=
    leaves_call fun answer => rfl
  have hempty : Prepared ([] : Conversation Peer Content) := ⟨nofun,Nat.zero_le _,Nat.zero_le _⟩
  refine hconnect.bind ?_ ?_
  · rintro _ e rfl
    exact (hempty.connected (.error e)).failed e
  rintro _ ⟨⟩ rfl
  refine (resolvePeer_leaves texts groupId).bind (fun t e ht => (ht.1.connected _).failed e) ?_
  rintro t peer ⟨hprepared,hresolves⟩
  obtain hpeer := hresolves peer rfl
  have hconnected := hprepared.connected (.ok ())
  have hmem : Resolves groupId ((⟨Call.connect,.ok ()⟩ : Entry Peer Content)::t) peer := by
    obtain ⟨peerId,hint,hmem⟩ := hpeer
    exact ⟨peerId,hint,.tail _ hmem⟩
  split
  · exact leaves_call fun answer => hconnected.posted hmem (.message answer)
  · refine (leaves_each (download_leaves texts) images).bind (fun t' e ht' => ?_) fun t' files ht' => ?_
    · exact (hconnected.append ht').failed e
    · refine (post_leaves peer text (payloadOf files)).mono fun t'' r hpost => ?_
      have h := (hconnected.append ht').posted hmem.append hpost
      simpa using h

/-- What the adapter returns agrees with what Telegram has taken; a failure is final. -/
structure Settled (groupId text : String) (t : Conversation Peer Content) (result : SendResult) : Prop where
  accepted : t.countP accepted = if result.ok then 1 else 0
  final : result.ok = false → result.noRetry = true ∧ result.error.isSome = true
  success : result.ok = true → result.error = none
  addressed : ∀ e ∈ t, ∀ peer words, e.1.sends = some (peer,words) → Resolves groupId t peer ∧ words = text
  dialogs : t.countP (·.1.isGetDialogs) ≤ 1
  lookups : t.countP (·.1.isGetInputEntity) ≤ 2
  posts : t.countP (·.1.sends.isSome) ≤ 2

theorem refusal_final (e : Failure) :
    (refusal e).ok = false ∧ (refusal e).noRetry = true ∧ (refusal e).error.isSome = true := by
  cases e <;> exact ⟨rfl,rfl,rfl⟩

theorem answerOf_leaves (groupId text : String) (images : List String) :
    Leaves (answerOf (deliver texts groupId text images) : Client Peer Content SendResult) fun t r =>
      ∃ result, r = .ok result ∧ Settled groupId text t result ∧ ∀ e ∈ t, e.1.isDisconnect = false := by
  have hbody : Leaves (do let _ ← deliver texts groupId text images; pure ⟨true,none,false⟩ :
      Client Peer Content SendResult) fun t r => (∃ e, r = .error e ∧ Delivered groupId text t (.error e)) ∨
        r = .ok ⟨true,none,false⟩ ∧ Delivered groupId text t (.ok ()) := by
    refine (deliver_leaves texts groupId text images).bind (fun t e h => .inl ⟨e,rfl,h⟩) ?_
    rintro t ⟨⟩ h
    exact leaves_pure (.inr ⟨rfl,by simpa using h⟩)
  refine hbody.handle ?_ ?_
  · rintro t result (⟨e,he,_⟩ | ⟨hresult,h⟩)
    · cases he
    · cases hresult
      exact ⟨_,rfl,⟨h.accepted,nofun,fun _ => rfl,h.addressed,h.dialogs,h.lookups,h.posts⟩,h.connected⟩
  · rintro t e (⟨e',he,h⟩ | ⟨hresult,_⟩)
    · cases he
      obtain ⟨hok,hfinal⟩ := refusal_final e
      refine leaves_pure ?_
      rw [List.append_nil]
      refine ⟨_,rfl,⟨?_,fun _ => hfinal,?_,h.addressed,h.dialogs,h.lookups,h.posts⟩,h.connected⟩
      · rw [h.accepted,hok]
        rfl
      · rw [hok]
        nofun
    · cases hresult

theorem leave_leaves : Leaves (leave : Client Peer Content Unit) fun t r =>
    (∃ answer, t = [⟨Call.disconnect,answer⟩]) ∧ r = .ok () := by
  have hdisconnect : Leaves (disconnect : Client Peer Content Unit) fun t _ =>
      ∃ answer, t = [⟨Call.disconnect,answer⟩] := leaves_call fun answer => ⟨answer,rfl⟩
  refine hdisconnect.handle ?_ ?_
  · rintro t ⟨⟩ h
    exact ⟨h,rfl⟩
  · rintro t e ⟨answer,rfl⟩
    exact leaves_pure ⟨⟨answer,rfl⟩,rfl⟩

theorem Settled.left {groupId text : String} {t : Conversation Peer Content} {result : SendResult}
    (h : Settled groupId text t result) (answer : Except Failure Unit) :
    Settled groupId text (t++[⟨Call.disconnect,answer⟩]) result := by
  refine ⟨?_,h.final,h.success,?_,?_,?_,?_⟩
  · rw [List.countP_append]
    exact h.accepted
  · intro e he peer words hsends
    rcases List.mem_append.mp he with he | he
    · obtain ⟨hresolves,hwords⟩ := h.addressed e he peer words hsends
      exact ⟨hresolves.append,hwords⟩
    · rw [List.mem_singleton.mp he] at hsends
      cases hsends
  · rw [List.countP_append]
    exact h.dialogs
  · rw [List.countP_append]
    exact h.lookups
  · rw [List.countP_append]
    exact h.posts

theorem sendMessage_leaves (groupId text : String) (images : List String) :
    Leaves (sendMessage texts groupId text images : Client Peer Content SendResult) fun t r =>
      ∃ t' answer result, r = .ok result ∧ t = t'++[⟨Call.disconnect,answer⟩] ∧
        (∀ e ∈ t', e.1.isDisconnect = false) ∧ Settled groupId text t result := by
  refine (answerOf_leaves texts groupId text images).lastly leave_leaves ?_
  rintro t _ _ ⟨result,rfl,hsettled,hconnected⟩ ⟨answer,rfl⟩
  exact ⟨t,answer,result,rfl,rfl,hconnected,hsettled.left answer⟩

/-- A send through Telegram raises nothing. Of its one or two posts at most one is taken, and the
result says whether one has been; every post goes to what Telegram has answered for the number of
the group and carries the text of the ad. It reads the dialogs at most once, looks the group up at
most twice, and disconnects at its end whatever has happened. -/
theorem telegram_send_is_honest (groupId text : String) (images : List String)
    (server : Server (@Call.Value Peer Content) Failure) (past : Conversation Peer Content) :
    ∃ t answer result, sendMessage texts groupId text images server past
        = (.ok result,past++(t++[⟨Call.disconnect,answer⟩])) ∧
      (∀ e ∈ t, e.1.isDisconnect = false) ∧ Settled groupId text (t++[⟨Call.disconnect,answer⟩]) result := by
  obtain ⟨t,ht,t',answer,result,hresult,rfl,hconnected,hsettled⟩ :=
    sendMessage_leaves texts groupId text images server past
  exact ⟨t',answer,result,Prod.ext hresult ht,hconnected,hsettled⟩

/-- A row of `send_logs`, as `send_message_once` writes it. -/
structure SendLog where
  userId : ℕ
  scheduleId : Option ℤ
  adId : ℤ
  groupId : ℤ
  adTitle : Option String
  adText : Option String
  adImages : Option (List String)
  groupName : Option String
  messengerType : Option String
  taskId : Option String
  status : String
  errorMessage : Option String
  deriving DecidableEq

structure Journal where
  logs : List SendLog
  lastError : ℤ → Option String
  errorAt : ℤ → Option Instant

structure SendTask where
  adId : ℤ
  groupId : ℤ
  accountId : ℤ
  scheduleId : Option ℤ
  taskId : Option String

abbrev Messenger (Peer Content : Type) := String → String → List String → Client Peer Content SendResult

/-- The adapters. `opens` tells why the session string of an account is no good; what the adapters
of the other messengers do is left open. -/
structure Adapters (Peer Content : Type) where
  opens : MessengerAccount → Option String
  whatsApp : Messenger Peer Content
  max : Messenger Peer Content

/-- `create_messenger`; an error is a `ValueError`. -/
def createMessenger (adapters : Adapters Peer Content) (account : MessengerAccount) :
    Except String (Messenger Peer Content) :=
  if account.type = "tg_user" then
    match adapters.opens account with
    | some text => .error text
    | none => .ok (sendMessage texts)
  else if account.type = "wa" then .ok adapters.whatsApp
  else if account.type = "max" then .ok adapters.max
  else .error ("Unknown account type: " ++ account.type)

def logOf (task : SendTask) (ad : Ad) (group : Group) (account : MessengerAccount) (status : String)
    (errorMessage : Option String) : SendLog where
  userId := ad.userId
  scheduleId := task.scheduleId
  adId := task.adId
  groupId := task.groupId
  adTitle := some ad.title
  adText := some ad.text
  adImages := some ad.images
  groupName := some group.name
  messengerType := some account.type
  taskId := task.taskId
  status := status
  errorMessage := errorMessage

def missingLog (task : SendTask) (ad : Option Ad) (group : Option Group) (account : Option MessengerAccount) :
    SendLog where
  userId := (ad.map (·.userId)).getD 0
  scheduleId := task.scheduleId
  adId := task.adId
  groupId := task.groupId
  adTitle := ad.map (·.title)
  adText := ad.map (·.text)
  adImages := ad.map (·.images)
  groupName := group.map (·.name)
  messengerType := account.map (·.type)
  taskId := task.taskId
  status := "fail"
  errorMessage := some "Missing ad, group, or account"

namespace Journal

def add (j : Journal) (row : SendLog) : Journal := { j with logs := j.logs++[row] }

def setError (j : Journal) (groupId : ℤ) (error : Option String) (errorAt : Option Instant) : Journal :=
  { j with
    lastError := Function.update j.lastError groupId error
    errorAt := Function.update j.errorAt groupId errorAt }

/-- `if group.last_error` -/
def marked (j : Journal) (groupId : ℤ) : Bool := (j.lastError groupId).any (· ≠ "")

end Journal

/-- The journal afterwards, and the text of the exception that leaves the function. -/
abbrev Sent := Journal × Option String

/-- From the answer of the messenger on. -/
def record (task : SendTask) (ad : Ad) (group : Group) (account : MessengerAccount) (now : Instant)
    (j : Journal) (result : SendResult) : Sent :=
  let j := j.add (logOf task ad group account (if result.ok then "ok" else "fail") result.error)
  if result.ok then
    (if j.marked task.groupId then j.setError task.groupId none none else j,none)
  else if result.noRetry then (j.setError task.groupId result.error (some now),none)
  else (j,some ("Send failed: " ++ result.error.getD "None"))

def sendMessageOnce (adapters : Adapters Peer Content) (s3PublicUrl : String) (db : Database) (task : SendTask)
    (now : Instant) (j : Journal) : Client Peer Content Sent :=
  match db.ads.find task.adId,db.groups.find task.groupId,db.accounts.find task.accountId with
  | some ad,some group,some account =>
    if Scheduling.effectiveAdStatus ad = Scheduling.adStatusDraft then
      pure (j.add (logOf task ad group account "fail" (some ("Ad " ++ toString task.adId ++ " is a draft"))),none)
    else if account.status ≠ "active" then
      pure (j.add (logOf task ad group account "account_disconnected"
        (some ("Account " ++ toString task.accountId ++ " is " ++ account.status))),none)
    else
      match createMessenger texts adapters account with
      | .error text => pure (j.add (logOf task ad group account "fail" (some text)),none)
      | .ok send => do
        let images := ad.images.map fun key => Scheduling.getImageUrl key s3PublicUrl
        let result ← send group.groupExternalId ad.text images
        pure (record task ad group account now j result)
  | ad,group,account => pure (j.add (missingLog task ad group account),none)

structure Reported (db : Database) (task : SendTask) (j : Journal) (t : Conversation Peer Content)
    (j' : Journal) (row : SendLog) : Prop where
  logs : j'.logs = j.logs++[row]
  names : row.adId = task.adId ∧ row.groupId = task.groupId ∧ row.scheduleId = task.scheduleId ∧
    row.taskId = task.taskId
  accepted : t.countP accepted = if row.status = "ok" then 1 else 0
  asked : t ≠ [] → ∃ ad group account, db.ads.find task.adId = some ad ∧ db.groups.find task.groupId = some group ∧
    db.accounts.find task.accountId = some account ∧
    Scheduling.effectiveAdStatus ad ≠ Scheduling.adStatusDraft ∧ account.status = "active" ∧
    ∀ e ∈ t, ∀ peer words, e.1.sends = some (peer,words) → Resolves group.groupExternalId t peer ∧ words = ad.text
  cleared : row.status = "ok" → j'.marked task.groupId = false
  marked : t ≠ [] → row.status ≠ "ok" → j'.lastError task.groupId = row.errorMessage ∧ row.errorMessage.isSome = true
  quiet : t = [] → j'.lastError = j.lastError ∧ j'.errorAt = j.errorAt
  others : ∀ g, g ≠ task.groupId → j'.lastError g = j.lastError g ∧ j'.errorAt g = j.errorAt g

theorem reported_unasked (db : Database) (task : SendTask) (j : Journal) {row : SendLog}
    (hnames : row.adId = task.adId ∧ row.groupId = task.groupId ∧ row.scheduleId = task.scheduleId ∧
      row.taskId = task.taskId) (hstatus : row.status ≠ "ok") :
    Reported db task j ([] : Conversation Peer Content) (j.add row) row where
  logs := rfl
  names := hnames
  accepted := by rw [if_neg hstatus]; rfl
  asked h := absurd rfl h
  cleared h := absurd h hstatus
  marked h := absurd rfl h
  quiet _ := ⟨rfl,rfl⟩
  others _ _ := ⟨rfl,rfl⟩

theorem Journal.setError_self (j : Journal) (groupId : ℤ) (error : Option String) (errorAt : Option Instant) :
    (j.setError groupId error errorAt).lastError groupId = error := Function.update_self ..

theorem Journal.setError_of_ne (j : Journal) {groupId g : ℤ} (hg : g ≠ groupId) (error : Option String)
    (errorAt : Option Instant) : (j.setError groupId error errorAt).lastError g = j.lastError g ∧
      (j.setError groupId error errorAt).errorAt g = j.errorAt g :=
  ⟨Function.update_of_ne hg ..,Function.update_of_ne hg ..⟩

theorem reported_recorded {db : Database} {task : SendTask} {ad : Ad} {group : Group} {account : MessengerAccount}
    (hrows : db.ads.find task.adId = some ad ∧ db.groups.find task.groupId = some group ∧
      db.accounts.find task.accountId = some account)
    (hpublished : Scheduling.effectiveAdStatus ad ≠ Scheduling.adStatusDraft) (hactive : account.status = "active")
    {t : Conversation Peer Content} {result : SendResult}
    (hsettled : Settled group.groupExternalId ad.text t result) (hasked : t ≠ []) (now : Instant) (j : Journal) :
    (record task ad group account now j result).2 = none ∧
    Reported db task j t (record task ad group account now j result).1
      (logOf task ad group account (if result.ok then "ok" else "fail") result.error) := by
  have hrowsAsked : ∃ ad group account, db.ads.find task.adId = some ad ∧ db.groups.find task.groupId = some group ∧
      db.accounts.find task.accountId = some account ∧
      Scheduling.effectiveAdStatus ad ≠ Scheduling.adStatusDraft ∧ account.status = "active" ∧
      ∀ e ∈ t, ∀ peer words, e.1.sends = some (peer,words) →
        Resolves group.groupExternalId t peer ∧ words = ad.text :=
    ⟨ad,group,account,hrows.1,hrows.2.1,hrows.2.2,hpublished,hactive,hsettled.addressed⟩
  cases hok : result.ok with
  | true =>
    have hrecord : record task ad group account now j result =
        (if (j.add (logOf task ad group account "ok" result.error)).marked task.groupId then
          (j.add (logOf task ad group account "ok" result.error)).setError task.groupId none none
        else j.add (logOf task ad group account "ok" result.error),none) := by
      simp [record,hok]
    rw [hrecord]
    refine ⟨rfl,?_,⟨rfl,rfl,rfl,rfl⟩,?_,fun _ => hrowsAsked,?_,?_,fun h => absurd h hasked,?_⟩
    · dsimp only
      split <;> rfl
    · rw [hsettled.accepted,hok]
      rfl
    · intro _
      dsimp only
      split
      · simp [Journal.marked,Journal.setError_self]
      next hmarked => simpa using hmarked
    · intro _ hstatus
      exact absurd rfl hstatus
    · intro g hg
      dsimp only
      split
      · exact Journal.setError_of_ne _ hg none none
      · exact ⟨rfl,rfl⟩
  | false =>
    obtain ⟨hretry,herror⟩ := hsettled.final hok
    have hrecord : record task ad group account now j result =
        ((j.add (logOf task ad group account "fail" result.error)).setError task.groupId result.error (some now),
          none) := by
      simp [record,hok,hretry]
    rw [hrecord]
    refine ⟨rfl,rfl,⟨rfl,rfl,rfl,rfl⟩,?_,fun _ => hrowsAsked,?_,?_,fun h => absurd h hasked,?_⟩
    · rw [hsettled.accepted,hok]
      rfl
    · intro hstatus
      simp [logOf] at hstatus
    · exact fun _ _ => ⟨Journal.setError_self ..,herror⟩
    · exact fun g hg => Journal.setError_of_ne _ hg result.error (some now)

variable (adapters : Adapters Peer Content)

theorem createMessenger_telegram {account : MessengerAccount} (h : account.type = "tg_user") :
    createMessenger texts adapters account = .ok (sendMessage texts) ∨
      ∃ text, createMessenger texts adapters account = .error text := by
  unfold createMessenger
  rw [if_pos h]
  cases adapters.opens account with
  | none => exact .inl rfl
  | some text => exact .inr ⟨text,rfl⟩

theorem sendMessageOnce_leaves (s3PublicUrl : String) (db : Database) (task : SendTask) (now : Instant) (j : Journal)
    (htype : ∀ account, db.accounts.find task.accountId = some account → account.type = "tg_user") :
    Leaves (sendMessageOnce texts adapters s3PublicUrl db task now j) fun t r =>
      ∃ j' row, r = .ok (j',none) ∧ Reported db task j t j' row := by
  unfold sendMessageOnce
  split
  next ad group account had hgroup haccount =>
    split
    · exact leaves_pure ⟨_,_,rfl,reported_unasked db task j ⟨rfl,rfl,rfl,rfl⟩ (by simp [logOf])⟩
    next hpublished =>
    split
    · exact leaves_pure ⟨_,_,rfl,reported_unasked db task j ⟨rfl,rfl,rfl,rfl⟩ (by simp [logOf])⟩
    next hactive =>
    rcases createMessenger_telegram texts adapters (htype account haccount) with hsend | ⟨text,herror⟩
    · rw [hsend]
      refine (sendMessage_leaves texts group.groupExternalId ad.text _).bind ?_ ?_
      · rintro t e ⟨_,_,result,hresult,_⟩
        cases hresult
      · rintro t _ ⟨t',answer,result,⟨⟩,rfl,_,hsettled⟩
        obtain ⟨hnone,hreported⟩ := reported_recorded ⟨had,hgroup,haccount⟩ hpublished (not_not.mp hactive)
          hsettled (by simp) now j
        refine leaves_pure ⟨_,_,?_,by simpa using hreported⟩
        rw [← hnone]
    · rw [herror]
      exact leaves_pure ⟨_,_,rfl,reported_unasked db task j ⟨rfl,rfl,rfl,rfl⟩ (by simp [logOf])⟩
  · exact leaves_pure ⟨_,_,rfl,reported_unasked db task j ⟨rfl,rfl,rfl,rfl⟩ (by simp [missingLog])⟩

/-- A task of a Telegram account ends without an exception, whatever Telegram answers, and adds one
row to the journal: `ok` when Telegram has taken the ad, which it does at most once. For a draft or
an account that is not active nothing is asked; whenever something is, the error of the group is set or cleared, and
otherwise it stays. -/
theorem telegram_journal_is_honest (s3PublicUrl : String) (db : Database) (task : SendTask) (now : Instant)
    (j : Journal) (htype : ∀ account, db.accounts.find task.accountId = some account → account.type = "tg_user")
    (server : Server (@Call.Value Peer Content) Failure) (past : Conversation Peer Content) :
    ∃ t j' row, sendMessageOnce texts adapters s3PublicUrl db task now j server past = (.ok (j',none),past++t) ∧
      Reported db task j t j' row := by
  obtain ⟨t,ht,j',row,hresult,hreported⟩ :=
    sendMessageOnce_leaves texts adapters s3PublicUrl db task now j htype server past
  exact ⟨t,j',row,Prod.ext hresult ht,hreported⟩

def onePhoto : Database where
  users := .empty User
  ads := (Store.empty Ad).insert ⟨1,"Sale","All for 5",["ads/1/a.jpg"],"published"⟩
  accounts := (Store.empty MessengerAccount).insert ⟨1,"tg_user","active"⟩
  groups := (Store.empty Group).insert ⟨1,0,"-1001","Market",true,none⟩
  schedules := .empty Schedule

def photosForbidden : Server (@Call.Value ℕ Unit) Failure := fun past c =>
  match c with
  | .getInputEntity _ =>
    if past.any fun e => e.1.isGetDialogs then .ok (7 : ℕ) else .error (.valueError "Could not find the input entity")
  | .sendFile _ _ _ => .error (.forbidden "CHAT_SEND_PHOTOS_FORBIDDEN")
  | .get _ => .ok ⟨200,()⟩
  | .connect => .ok ()
  | .getDialogs => .ok ()
  | .sendMessage _ _ => .ok ()
  | .disconnect => .ok ()

def onlyTelegram : Adapters ℕ Unit :=
  ⟨fun _ => none,fun _ _ _ => Program.raise (.other ""),fun _ _ _ => Program.raise (.other "")⟩

def plainTexts : Texts := ⟨fun s => "invalid literal for int() with base 10: " ++ s,fun url _ => "Client error for " ++ url⟩

theorem telegram_journal_is_honest_photo : ∃ t j' row,
    sendMessageOnce plainTexts onlyTelegram "https://s3" onePhoto ⟨0,0,0,none,none⟩ 5 ⟨[],fun _ => none,fun _ => none⟩
      photosForbidden [] = (.ok (j',none),[]++t) ∧
    Reported onePhoto ⟨0,0,0,none,none⟩ ⟨[],fun _ => none,fun _ => none⟩ t j' row := by
  refine telegram_journal_is_honest plainTexts onlyTelegram "https://s3" onePhoto ⟨0,0,0,none,none⟩ 5
    ⟨[],fun _ => none,fun _ => none⟩ ?_ photosForbidden []
  intro account haccount
  have hrow : onePhoto.accounts.find 0 = some ⟨1,"tg_user","active"⟩ := rfl
  rw [← Option.some.inj (hrow.symm.trans haccount)]

end TelegramSend
end Broadcaster
