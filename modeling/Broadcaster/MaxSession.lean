import Mathlib.Data.Finset.Card
import Mathlib.Data.Finset.Range
import Broadcaster.ChatPages

/-!
# The session of a MAX worker

A worker of `max_worker/main.py` holds at most one session. Requests, the client
of the session and the tasks that sync its groups act on it in any order; what
happens between two awaits is one step here. After an await the code reads the
global `session` again, and by then this may be another one. PyMax, the library
of the clients, lies outside the repository: a client may report any number of
times that it has started, names whatever chats it likes, and may fail.
-/

namespace Broadcaster
namespace MaxSession

open Python ChatPages

inductive SyncState
  | syncing
  | ready
  | failed
  deriving DecidableEq

def SyncState.text : SyncState → String
  | .syncing => "syncing"
  | .ready => "ready"
  | .failed => "failed"

structure SessionState where
  isConnected : Bool
  initializing : Bool
  syncState : Option SyncState
  groups : Option (List GroupRecord)

namespace SessionState

def new : SessionState := ⟨false,true,none,none⟩

/-- No sync has begun, or the last one has failed. -/
def unsynced (s : SessionState) : Bool := s.syncState = none ∨ s.syncState = some .failed

def started (s : SessionState) : SessionState :=
  { s with
    isConnected := true
    initializing := false
    syncState := if s.unsynced then some .ready else s.syncState }

def startFailed (s : SessionState) : SessionState := { s with isConnected := false, initializing := false }

end SessionState

/-- A coroutine that waits for the end of `client.close()`. -/
inductive Closing
  | destroy
  /-- `start_session` with a stale session -/
  | replace
  /-- `graceful_shutdown` -/
  | shutdown
  deriving DecidableEq

inductive Syncing
  | created
  | delayed
  | fetching (attempt client : ℕ) (groups : Dict String GroupRecord) (marker : Option ℤ)
  | retrying (attempt : ℕ)

inductive Shutdown
  | none
  /-- the keys in Redis are being deleted -/
  | begun
  | leaving
  | exited
  deriving DecidableEq

structure Worker where
  states : ℕ → SessionState
  made : ℕ
  session : Option ℕ
  running : ℕ → Bool
  /-- the clients on which `close()` has been called -/
  asked : List ℕ
  closings : List (ℕ × Closing)
  syncs : ℕ → Option Syncing
  tasks : ℕ
  /-- calls of `get_sync_status` that wait for a session to be ready -/
  reloads : List ℕ
  onDisk : Bool
  shutdown : Shutdown
  /-- the chats that the clients have named, page after page -/
  named : List (ℕ × List Chat)

def retryDelays : ℕ := 3

/-- What `GET /sync-status` answers. -/
structure Answer where
  state : String
  groups : Option (List GroupRecord)
  deriving DecidableEq

namespace Worker

def update (w : Worker) (i : ℕ) (f : SessionState → SessionState) : Worker :=
  { w with states := Function.update w.states i (f (w.states i)) }

def createClient (w : Worker) : Worker :=
  { w with
    states := Function.update w.states w.made .new
    made := w.made+1
    session := some w.made
    running := Function.update w.running w.made true }

def blank (onDisk : Bool) : Worker :=
  ⟨fun _ => .new,0,none,fun _ => false,[],[],fun _ => none,0,[],onDisk,.none,[]⟩

/-- The worker as `lifespan` leaves it. -/
def new (onDisk : Bool) : Worker := if onDisk then (blank onDisk).createClient else blank onDisk

/-- `asyncio.create_task(_safe_group_sync())` -/
def newTask (w : Worker) : Worker :=
  { w with syncs := Function.update w.syncs w.tasks (some .created), tasks := w.tasks+1 }

def setSync (w : Worker) (k : ℕ) (s : Option Syncing) : Worker :=
  { w with syncs := Function.update w.syncs k s }

def name (w : Worker) (i : ℕ) (chats : List Chat) : Worker := { w with named := w.named++[(i,chats)] }

def isConnected (w : Worker) : Bool := w.session.any fun i => (w.states i).isConnected

def beginClosing (w : Worker) (i : ℕ) (c : Closing) : Worker :=
  { w with asked := w.asked++[i], closings := w.closings++[(i,c)] }

/-- `POST /start` -/
def startSession (w : Worker) : Worker :=
  match w.session with
  | none => w.createClient
  | some i =>
    if (w.states i).isConnected then w
    else if (w.states i).initializing then w
    else w.beginClosing i .replace

/-- `DELETE` -/
def deleteSession (w : Worker) : Worker :=
  match w.session with
  | none => { w with onDisk := false }
  | some i => w.beginClosing i .destroy

/-- `graceful_shutdown` after the keys: the process no longer needs a session. -/
def keysDeleted (w : Worker) : Worker :=
  match w.session with
  | none => { w with shutdown := .leaving }
  | some i => { w.beginClosing i .shutdown with shutdown := .leaving }

def endClosing (w : Worker) (i : ℕ) (c : Closing) : Worker :=
  { w with session := none, closings := w.closings.erase (i,c) }

/-- `close()` has returned, has raised or has taken too long. -/
def closed (w : Worker) (i : ℕ) (c : Closing) : Worker :=
  match c with
  | .destroy => { w.endClosing i c with onDisk := false }
  | .replace => (w.endClosing i c).createClient
  | .shutdown => w.endClosing i c

def retrySync (w : Worker) : Worker :=
  match w.session with
  | none => w
  | some i =>
    if (w.states i).isConnected then
      if (w.states i).syncState = some .syncing then w
      else (w.update i fun s => { s with syncState := none, groups := none }).newTask
    else w

def view (w : Worker) : Answer :=
  match w.session with
  | none => ⟨"not_found",none⟩
  | some i => ⟨((w.states i).syncState.map SyncState.text).getD "none",(w.states i).groups⟩

/-- `GET /sync-status`; without an answer it waits for the session that it has made. -/
def getSyncStatus (w : Worker) : Worker × Option Answer :=
  match w.session with
  | none =>
    if w.onDisk then ({ w.createClient with reloads := w.reloads++[w.made] },none)
    else (w,some w.view)
  | some _ => (w,some w.view)

/-- `GET /sync-status` after its wait. -/
def reloaded (w : Worker) (i : ℕ) : Worker × Answer :=
  let w' := { w with reloads := w.reloads.erase i }
  if (w.states i).isConnected && (w.states i).unsynced then (w'.newTask,⟨"syncing",none⟩)
  else if w.isConnected then (w',w.view)
  else (w',⟨"unknown",none⟩)

def onStart (w : Worker) (i : ℕ) : Worker :=
  if (w.states i).unsynced then (w.update i SessionState.started).newTask
  else w.update i SessionState.started

def startFailed (w : Worker) (i : ℕ) : Worker :=
  { w.update i SessionState.startFailed with running := Function.update w.running i false }

def startReturned (w : Worker) (i : ℕ) : Worker := { w with running := Function.update w.running i false }

def syncBegins (w : Worker) (k : ℕ) : Worker :=
  match w.session with
  | none => w.setSync k none
  | some i => (w.update i fun s => { s with syncState := some .syncing }).setSync k (some .delayed)

def attemptFailed (w : Worker) (k attempt : ℕ) : Worker :=
  if attempt < retryDelays then w.setSync k (some (.retrying attempt))
  else match w.session with
    | none => w.setSync k none
    | some i => (w.update i fun s => { s with syncState := some .failed }).setSync k none

/-- An attempt begins; `chats` are the ones that the client of the session knows already. -/
def attempt (w : Worker) (k attempt : ℕ) (chats : List Chat) : Worker :=
  match w.session with
  | none => w.setSync k none
  | some i =>
    if (w.states i).isConnected then
      (w.name i chats).setSync k (some (.fetching attempt i (groupRecords chats) none))
    else w.setSync k none

def publish (w : Worker) (k attempt : ℕ) (groups : Dict String GroupRecord) : Worker :=
  match w.session with
  | none => w.attemptFailed k attempt
  | some i =>
    (w.update i fun s => { s with syncState := some .ready, groups := some groups.values }).setSync k none

/-- A fetch has ended. The next page is asked of the session that there is by now. -/
def fetched (w : Worker) (k attempt client : ℕ) (groups : Dict String GroupRecord) (marker : Option ℤ) :
    Except PyError (List Chat) → Worker
  | .error _ => w.attemptFailed k attempt
  | .ok page =>
    let w' := w.name client page
    if page.isEmpty then w'.publish k attempt groups
    else
      let groups' := groups.update (groupRecords page)
      match nextChatMarker page marker with
      | .error _ => w'.attemptFailed k attempt
      | .ok none => w'.publish k attempt groups'
      | .ok (some next) =>
        match w.session with
        | none => w'.attemptFailed k attempt
        | some i => w'.setSync k (some (.fetching attempt i groups' (some next)))

end Worker

inductive Event
  | startSession
  | deleteSession
  | getSyncStatus
  | retrySync
  | gracefulShutdown
  | keysDeleted
  | closed (i : ℕ) (c : Closing)
  | exited
  | reloaded (i : ℕ)
  | onStart (i : ℕ)
  | startFailed (i : ℕ)
  | startReturned (i : ℕ)
  | stored
  | syncBegins (k : ℕ)
  | attempt (k : ℕ) (chats : List Chat)
  | fetched (k : ℕ) (answer : Except PyError (List Chat))

def act (w : Worker) : Event → Option Worker
  | .startSession => some w.startSession
  | .deleteSession => some w.deleteSession
  | .getSyncStatus => some w.getSyncStatus.1
  | .retrySync => some w.retrySync
  | .gracefulShutdown => some (if w.shutdown = .none then { w with shutdown := .begun } else w)
  | .keysDeleted => if w.shutdown = .begun then some w.keysDeleted else none
  | .closed i c => if (i,c) ∈ w.closings then some (w.closed i c) else none
  | .exited =>
    if w.shutdown = .leaving ∧ ∀ c ∈ w.closings, c.2 ≠ .shutdown then some { w with shutdown := .exited } else none
  | .reloaded i => if i ∈ w.reloads then some (w.reloaded i).1 else none
  | .onStart i => if i < w.made ∧ w.running i then some (w.onStart i) else none
  | .startFailed i => if i < w.made ∧ w.running i then some (w.startFailed i) else none
  | .startReturned i => if i < w.made ∧ w.running i then some (w.startReturned i) else none
  | .stored => some { w with onDisk := true }
  | .syncBegins k => match w.syncs k with
    | some .created => some (w.syncBegins k)
    | _ => none
  | .attempt k chats => match w.syncs k with
    | some .delayed => some (w.attempt k 0 chats)
    | some (.retrying attempt) => some (w.attempt k (attempt+1) chats)
    | _ => none
  | .fetched k answer => match w.syncs k with
    | some (.fetching attempt client groups marker) => some (w.fetched k attempt client groups marker answer)
    | _ => none

def step (w : Worker) (e : Event) : Option Worker := if w.shutdown = .exited then none else act w e

def exec : Worker → List Event → Option Worker
  | w, [] => some w
  | w, e::es => (step w e).bind fun w' => exec w' es

theorem exec_induction {P : Worker → Prop} (hstep : ∀ w e w', P w → act w e = some w' → P w')
    {w w' : Worker} {es : List Event} (hw : P w) (hrun : exec w es = some w') : P w' := by
  induction es generalizing w with
  | nil => exact Option.some.inj hrun ▸ hw
  | cons e es ih =>
    obtain ⟨w₁,hw₁,hrun⟩ := Option.bind_eq_some_iff.mp hrun
    exact ih (hstep w e w₁ hw (Option.ite_none_left_eq_some.mp hw₁).2) hrun

section Frames

variable {w : Worker} {f : SessionState → SessionState} {s : Option Syncing} {i j k : ℕ}

@[simp] theorem states_update_self : (w.update i f).states i = f (w.states i) := by simp [Worker.update]

@[simp] theorem states_update_of_ne (h : j ≠ i) : (w.update i f).states j = w.states j := by
  simp [Worker.update,h]

@[simp] theorem syncs_setSync_self : (w.setSync k s).syncs k = s := by simp [Worker.setSync]

@[simp] theorem syncs_setSync_of_ne (h : j ≠ k) : (w.setSync k s).syncs j = w.syncs j := by
  simp [Worker.setSync,h]

@[simp] theorem syncs_newTask_self : w.newTask.syncs w.tasks = some .created := by simp [Worker.newTask]

@[simp] theorem syncs_newTask_of_ne (h : j ≠ w.tasks) : w.newTask.syncs j = w.syncs j := by
  simp [Worker.newTask,h]

@[simp] theorem states_setSync : (w.setSync k s).states = w.states := rfl
@[simp] theorem states_newTask : w.newTask.states = w.states := rfl
@[simp] theorem states_name {chats : List Chat} : (w.name i chats).states = w.states := rfl
@[simp] theorem syncs_update : (w.update i f).syncs = w.syncs := rfl
@[simp] theorem syncs_name {chats : List Chat} : (w.name i chats).syncs = w.syncs := rfl
@[simp] theorem session_update : (w.update i f).session = w.session := rfl
@[simp] theorem session_setSync : (w.setSync k s).session = w.session := rfl

end Frames

def Names (w : Worker) (i : ℕ) (chat : Chat) : Prop := ∃ page, (i,page) ∈ w.named ∧ chat ∈ page

def Own (w : Worker) (i : ℕ) (groups : List GroupRecord) : Prop :=
  ∃ chats, Kept chats groups ∧ ∀ chat ∈ chats, Names w i chat

def Gathered (w : Worker) (i : ℕ) (groups : Dict String GroupRecord) : Prop :=
  ∃ chats, Holds chats groups ∧ ∀ chat ∈ chats, Names w i chat

/-- Every attempt asks the client of the session. -/
structure Owned (i : ℕ) (w : Worker) : Prop where
  made : i < w.made
  fetching : w.session = some i → ∀ k a client groups marker,
    w.syncs k = some (.fetching a client groups marker) → client = i ∧ Gathered w i groups
  groups : w.session = some i → ∀ groups, (w.states i).groups = some groups → Own w i groups

def Syncing.isFetching : Syncing → Bool
  | .fetching _ _ _ _ => true
  | _ => false

namespace Worker

def begins (w : Worker) : Event → Bool
  | .startSession => w.session.any fun i => !(w.states i).isConnected && !(w.states i).initializing
  | .deleteSession => w.session.isSome
  | .keysDeleted => w.session.isSome
  | _ => false

def core (w : Worker) : Option ℕ × ℕ × List ℕ × List (ℕ × Closing) × (ℕ → SessionState) × (ℕ → Option Syncing) ×
    List (ℕ × List Chat) :=
  (w.session,w.made,w.asked,w.closings,w.states,w.syncs,w.named)

end Worker

/-- What an event comes to, and whether it begins to close a client. -/
inductive Effect (w : Worker) : Worker → Bool → Prop
  | same : Effect w w false
  | created (hnone : w.session = none) : Effect w w.createClient false
  | begun (i : ℕ) (c : Closing) (hsession : w.session = some i) : Effect w (w.beginClosing i c) true
  | ended (i : ℕ) (c : Closing) (hmem : (i,c) ∈ w.closings) : Effect w (w.endClosing i c) false
  | replaced (i : ℕ) (c : Closing) (hmem : (i,c) ∈ w.closings) : Effect w (w.endClosing i c).createClient false
  | moved (j : ℕ) (f : SessionState → SessionState)
      (hf : ∀ s, (f s).syncState = s.syncState ∧ (f s).groups = s.groups) : Effect w (w.update j f) false
  | tasked (j : ℕ) (f : SessionState → SessionState)
      (hf : ∀ s groups, (f s).groups = some groups → s.groups = some groups) : Effect w (w.update j f).newTask false
  | paused (k : ℕ) (s : Option Syncing) (hs : s.all (!·.isFetching))
      (hk : w.syncs k = some .created → w.session = none) : Effect w (w.setSync k s) false
  | told (k j : ℕ) (f : SessionState → SessionState) (s : Option Syncing) (hs : s.all (!·.isFetching))
      (hsession : w.session = some j) (hf : ∀ s, (f s).syncState ≠ some .ready ∧ (f s).groups = s.groups) :
      Effect w ((w.update j f).setSync k s) false
  | asks (k a j : ℕ) (groups : Dict String GroupRecord) (marker : Option ℤ) (hsession : w.session = some j)
      (hk : w.syncs k ≠ some .created) (hgroups : Owned j w → Gathered w j groups) :
      Effect w (w.setSync k (some (.fetching a j groups marker))) false
  | published (k j : ℕ) (groups : Dict String GroupRecord) (hsession : w.session = some j)
      (hk : w.syncs k ≠ some .created) (hgroups : Owned j w → Gathered w j groups) :
      Effect w ((w.update j fun s => { s with syncState := some .ready, groups := some groups.values }).setSync k
        none) false

inductive Heard (w : Worker) : Worker → Prop
  | nothing : Heard w w
  | page (i : ℕ) (chats : List Chat) : Heard w (w.name i chats)

/-- Up to what nothing here depends on, an event is an effect. -/
def Does (w w' : Worker) (b : Bool) : Prop := ∃ u v, Heard w u ∧ Effect u v b ∧ w'.core = v.core

section Effects

variable {w w' v : Worker} {e : Event} {i k a : ℕ} {b : Bool} {groups : Dict String GroupRecord}
  {page : List Chat} {marker : Option ℤ}

theorem does_of_effect (h : Effect w v b) (hcore : w'.core = v.core) : Does w w' b := ⟨w,v,.nothing,h,hcore⟩

theorem does_same (hcore : w'.core = w.core) : Does w w' false := does_of_effect .same hcore

theorem gathered_page (h : (i,page) ∈ w.named) : Gathered w i (groupRecords page) :=
  ⟨page,holds_groupRecords page,fun _ hchat => ⟨page,h,hchat⟩⟩

theorem Gathered.update (h : Gathered w i groups) (hpage : (i,page) ∈ w.named) :
    Gathered w i (groups.update (groupRecords page)) := by
  obtain ⟨chats,hholds,hnames⟩ := h
  refine ⟨chats++page,hholds.update page,fun chat hchat => ?_⟩
  rcases List.mem_append.mp hchat with hchat | hchat
  · exact hnames chat hchat
  · exact ⟨page,hpage,hchat⟩

theorem mem_name : (i,page) ∈ (w.name i page).named := List.mem_append_right _ (List.mem_singleton_self _)

theorem effect_startSession : Effect w w.startSession (w.begins .startSession) := by
  cases hsession : w.session with
  | none =>
    simp only [Worker.startSession,Worker.begins,hsession]
    exact .created hsession
  | some i =>
    simp only [Worker.startSession,Worker.begins,hsession,Option.any_some]
    cases (w.states i).isConnected with
    | true => exact .same
    | false =>
      cases (w.states i).initializing with
      | true => exact .same
      | false => exact .begun i .replace hsession

theorem does_deleteSession : Does w w.deleteSession (w.begins .deleteSession) := by
  cases hsession : w.session with
  | none =>
    rw [Worker.begins,hsession]
    refine does_same ?_
    rw [Worker.deleteSession,hsession,Worker.core,Worker.core,hsession]
  | some i =>
    simp only [Worker.deleteSession,Worker.begins,hsession]
    exact does_of_effect (.begun i .destroy hsession) rfl

theorem does_keysDeleted : Does w w.keysDeleted (w.begins .keysDeleted) := by
  cases hsession : w.session with
  | none =>
    rw [Worker.begins,hsession]
    refine does_same ?_
    rw [Worker.keysDeleted,hsession,Worker.core,Worker.core,hsession]
  | some i =>
    simp only [Worker.keysDeleted,Worker.begins,hsession]
    exact does_of_effect (.begun i .shutdown hsession) rfl

theorem does_getSyncStatus : Does w w.getSyncStatus.1 false := by
  unfold Worker.getSyncStatus
  split
  · rename_i hsession
    split
    · exact does_of_effect (.created hsession) rfl
    · exact does_same rfl
  · exact does_same rfl

theorem effect_retrySync : Effect w w.retrySync false := by
  unfold Worker.retrySync
  split
  · exact .same
  · split
    · split
      · exact .same
      · exact .tasked _ _ fun _ _ h => by cases h
    · exact .same

theorem does_closed {c : Closing} (hmem : (i,c) ∈ w.closings) : Does w (w.closed i c) false := by
  cases c with
  | destroy => exact does_of_effect (.ended i _ hmem) rfl
  | replace => exact does_of_effect (.replaced i _ hmem) rfl
  | shutdown => exact does_of_effect (.ended i _ hmem) rfl

theorem does_reloaded : Does w (w.reloaded i).1 false := by
  have hid : Effect w (w.update i id).newTask false := .tasked i id fun _ _ h => h
  simp only [Worker.reloaded]
  split
  · refine does_of_effect hid ?_
    simp [Worker.core,Worker.newTask,Worker.update]
  · split
    · exact does_same rfl
    · exact does_same rfl

theorem effect_onStart : Effect w (w.onStart i) false := by
  cases hunsynced : (w.states i).unsynced with
  | true =>
    simp only [Worker.onStart,hunsynced]
    exact .tasked i _ fun _ _ h => h
  | false =>
    have hstarted : w.onStart i = w.update i fun s => { s with isConnected := true, initializing := false } := by
      simp [Worker.onStart,hunsynced,Worker.update,SessionState.started]
    rw [hstarted]
    exact .moved i _ fun _ => ⟨rfl,rfl⟩

theorem effect_syncBegins : Effect w (w.syncBegins k) false := by
  unfold Worker.syncBegins
  split
  · rename_i hnone
    exact .paused k none rfl fun _ => hnone
  · rename_i i hsession
    exact .told k i _ (some .delayed) rfl hsession fun _ => ⟨by simp,rfl⟩

theorem effect_attemptFailed (hk : w.syncs k ≠ some .created) : Effect w (w.attemptFailed k a) false := by
  unfold Worker.attemptFailed
  split
  · exact .paused k (some (.retrying a)) rfl fun h => absurd h hk
  · split
    · exact .paused k none rfl fun h => absurd h hk
    · rename_i i hsession
      exact .told k i _ none rfl hsession fun _ => ⟨by simp,rfl⟩

theorem effect_publish (hk : w.syncs k ≠ some .created)
    (hgroups : ∀ j, w.session = some j → Owned j w → Gathered w j groups) :
    Effect w (w.publish k a groups) false := by
  unfold Worker.publish
  split
  · exact effect_attemptFailed hk
  · rename_i i hsession
    exact .published k i groups hsession hk (hgroups i hsession)

theorem does_attempt (hk : w.syncs k ≠ some .created) (chats : List Chat) : Does w (w.attempt k a chats) false := by
  unfold Worker.attempt
  split
  · exact does_of_effect (.paused k none rfl fun h => absurd h hk) rfl
  · rename_i i hsession
    split
    · exact ⟨_,_,.page i chats,.asks k a i _ none hsession hk fun _ => gathered_page mem_name,rfl⟩
    · exact does_of_effect (.paused k none rfl fun h => absurd h hk) rfl

theorem does_fetched {client : ℕ} (hk : w.syncs k = some (.fetching a client groups marker))
    (answer : Except PyError (List Chat)) : Does w (w.fetched k a client groups marker answer) false := by
  have hcreated : w.syncs k ≠ some .created := by
    rw [hk]
    exact fun h => by cases h
  cases answer with
  | error e => exact does_of_effect (effect_attemptFailed hcreated) rfl
  | ok page =>
    have hgathered : ∀ j, w.session = some j → Owned j (w.name client page) →
        client = j ∧ Gathered (w.name client page) j groups :=
      fun j hsession howned => howned.fetching hsession k a client groups marker hk
    have hgrown : ∀ j, w.session = some j → Owned j (w.name client page) →
        Gathered (w.name client page) j (groups.update (groupRecords page)) := by
      intro j hsession howned
      obtain ⟨rfl,hg⟩ := hgathered j hsession howned
      exact hg.update mem_name
    simp only [Worker.fetched]
    split
    · exact ⟨_,_,.page client page,effect_publish hcreated fun j hs ho => (hgathered j hs ho).2,rfl⟩
    · split
      · exact ⟨_,_,.page client page,effect_attemptFailed hcreated,rfl⟩
      · exact ⟨_,_,.page client page,effect_publish hcreated hgrown,rfl⟩
      · split
        · exact ⟨_,_,.page client page,effect_attemptFailed hcreated,rfl⟩
        · rename_i j hsession
          exact ⟨_,_,.page client page,.asks k a j _ _ hsession hcreated (hgrown j hsession),rfl⟩

theorem does_act (h : act w e = some w') : Does w w' (w.begins e) := by
  cases e with
  | startSession => exact Option.some.inj h ▸ does_of_effect effect_startSession rfl
  | deleteSession => exact Option.some.inj h ▸ does_deleteSession
  | getSyncStatus => exact Option.some.inj h ▸ does_getSyncStatus
  | retrySync => exact Option.some.inj h ▸ does_of_effect effect_retrySync rfl
  | gracefulShutdown =>
    refine Option.some.inj h ▸ does_same ?_
    split <;> rfl
  | keysDeleted =>
    obtain ⟨_,hw'⟩ := Option.ite_none_right_eq_some.mp h
    exact Option.some.inj hw' ▸ does_keysDeleted
  | closed i c =>
    obtain ⟨hmem,hw'⟩ := Option.ite_none_right_eq_some.mp h
    exact Option.some.inj hw' ▸ does_closed hmem
  | exited =>
    obtain ⟨_,hw'⟩ := Option.ite_none_right_eq_some.mp h
    exact Option.some.inj hw' ▸ does_same rfl
  | reloaded i =>
    obtain ⟨_,hw'⟩ := Option.ite_none_right_eq_some.mp h
    exact Option.some.inj hw' ▸ does_reloaded
  | onStart i =>
    obtain ⟨_,hw'⟩ := Option.ite_none_right_eq_some.mp h
    exact Option.some.inj hw' ▸ does_of_effect effect_onStart rfl
  | startFailed i =>
    obtain ⟨_,hw'⟩ := Option.ite_none_right_eq_some.mp h
    exact Option.some.inj hw' ▸ does_of_effect (.moved i SessionState.startFailed fun _ => ⟨rfl,rfl⟩) rfl
  | startReturned i =>
    obtain ⟨_,hw'⟩ := Option.ite_none_right_eq_some.mp h
    exact Option.some.inj hw' ▸ does_same rfl
  | stored => exact Option.some.inj h ▸ does_same rfl
  | syncBegins k =>
    simp only [act] at h
    split at h
    · exact Option.some.inj h ▸ does_of_effect effect_syncBegins rfl
    · cases h
  | attempt k chats =>
    simp only [act] at h
    split at h
    · rename_i hk
      exact Option.some.inj h ▸ does_attempt (by simp [hk]) chats
    · rename_i hk
      exact Option.some.inj h ▸ does_attempt (by simp [hk]) chats
    · cases h
  | fetched k answer =>
    simp only [act] at h
    split at h
    · rename_i hk
      exact Option.some.inj h ▸ does_fetched hk answer
    · cases h

end Effects

namespace Worker

/-- The clients that are not the one of the session and have never been asked to close. -/
def abandoned (w : Worker) : Finset ℕ := (Finset.range w.made).filter fun i => w.session ≠ some i ∧ i ∉ w.asked

def ending (w : Worker) : Bool := w.closings.any fun p => decide (w.session = some p.1)

/-- The closings that may yet leave a client behind, and the clients that have been left behind. -/
def potential (w : Worker) : ℕ := w.closings.length-w.ending.toNat+w.abandoned.card

end Worker

/-- The closings of a run that begin while another one goes on. -/
def overlaps : Worker → List Event → ℕ
  | _, [] => 0
  | w, e::es =>
    (if w.begins e && !w.closings.isEmpty then 1 else 0)+((step w e).map fun w' => overlaps w' es).getD 0

structure Numbered (w : Worker) : Prop where
  session : ∀ i, w.session = some i → i < w.made
  closings : ∀ p ∈ w.closings, p.1 < w.made ∧ p.1 ∈ w.asked

section Closings

variable {w w' u v : Worker} {e : Event} {es : List Event} {i : ℕ} {c : Closing} {b onDisk : Bool}

theorem mem_abandoned : i ∈ w.abandoned ↔ i < w.made ∧ w.session ≠ some i ∧ i ∉ w.asked := by
  simp [Worker.abandoned]

namespace Numbered

theorem new : Numbered (.new onDisk) := by
  cases onDisk with
  | false => exact ⟨(fun _ h => by cases h),(fun _ h => by cases h)⟩
  | true =>
    refine ⟨?_,fun _ h => by cases h⟩
    rintro i ⟨⟩
    exact Nat.lt_succ_self _

theorem createClient (hw : Numbered w) : Numbered w.createClient := by
  refine ⟨?_,fun p hp => ⟨Nat.lt_succ_of_lt (hw.closings p hp).1,(hw.closings p hp).2⟩⟩
  rintro i ⟨⟩
  exact Nat.lt_succ_self _

theorem endClosing (hw : Numbered w) : Numbered (w.endClosing i c) :=
  ⟨(fun _ h => by cases h),fun p hp => hw.closings p (List.mem_of_mem_erase hp)⟩

theorem beginClosing (hw : Numbered w) (hsession : w.session = some i) : Numbered (w.beginClosing i c) := by
  refine ⟨hw.session,fun p hp => ?_⟩
  rcases List.mem_append.mp hp with hp | hp
  · exact ⟨(hw.closings p hp).1,List.mem_append_left _ (hw.closings p hp).2⟩
  · rw [List.mem_singleton.mp hp]
    exact ⟨hw.session i hsession,List.mem_append_right _ (List.mem_singleton_self i)⟩

theorem effect (hw : Numbered w) (h : Effect w v b) : Numbered v := by
  cases h with
  | same => exact hw
  | created => exact hw.createClient
  | begun i c hsession => exact hw.beginClosing hsession
  | ended i c => exact hw.endClosing
  | replaced i c => exact hw.endClosing.createClient
  | _ => exact ⟨hw.session,hw.closings⟩

theorem act (hw : Numbered w) (h : act w e = some w') : Numbered w' := by
  obtain ⟨u,v,hheard,heffect,hcore⟩ := does_act h
  have hu : Numbered u := by
    cases hheard with
    | nothing => exact hw
    | page i chats => exact ⟨hw.session,hw.closings⟩
  have hv := hu.effect heffect
  simp only [Worker.core,Prod.mk.injEq] at hcore
  obtain ⟨hsession,hmade,hasked,hclosings,_⟩ := hcore
  constructor
  · rw [hsession,hmade]
    exact hv.session
  · rw [hclosings,hmade,hasked]
    exact hv.closings

theorem exec (hrun : exec (.new onDisk) es = some w) : Numbered w :=
  exec_induction (fun _ _ _ hw h => hw.act h) new hrun

end Numbered

theorem ending_of_none (h : w.session = none) : w.ending = false := by
  simp [Worker.ending,h]

theorem ending_createClient (hw : Numbered w) : w.createClient.ending = false := by
  simp only [Worker.ending,Worker.createClient,List.any_eq_false,decide_eq_true_eq,Option.some.injEq]
  exact fun p hp h => absurd (hw.closings p hp).1 (by omega)

theorem abandoned_createClient (hnone : w.session = none) : w.createClient.abandoned = w.abandoned := by
  ext j
  rw [mem_abandoned,mem_abandoned,hnone]
  simp only [Worker.createClient,ne_eq,Option.some.injEq,reduceCtorEq,not_false_eq_true,true_and]
  constructor
  · rintro ⟨hlt,hne,hnot⟩
    exact ⟨by omega,hnot⟩
  · rintro ⟨hlt,hnot⟩
    exact ⟨by omega,by omega,hnot⟩

theorem potential_createClient (hw : Numbered w) (hnone : w.session = none) :
    w.createClient.potential = w.potential := by
  rw [Worker.potential,Worker.potential,ending_createClient hw,ending_of_none hnone,abandoned_createClient hnone]
  rfl

/-- A closing that ends can leave one client behind, the one of the session, and only if it was about another. -/
theorem potential_endClosing (hw : Numbered w) (hmem : (i,c) ∈ w.closings) :
    (w.endClosing i c).potential ≤ w.potential := by
  have hending : (w.endClosing i c).ending = false := ending_of_none rfl
  have hlength : (w.endClosing i c).closings.length = w.closings.length-1 := List.length_erase_of_mem hmem
  have hpos : 0 < w.closings.length := List.length_pos_of_mem hmem
  have hleft : ∀ j ∈ (w.endClosing i c).abandoned, j ∈ w.abandoned ∨ w.session = some j ∧ j ∉ w.asked := by
    intro j hj
    obtain ⟨hlt,_,hnot⟩ := mem_abandoned.mp hj
    by_cases hsession : w.session = some j
    · exact .inr ⟨hsession,hnot⟩
    · exact .inl (mem_abandoned.mpr ⟨hlt,hsession,hnot⟩)
  rw [Worker.potential,Worker.potential,hending,hlength]
  cases hold : w.ending with
  | true =>
    obtain ⟨p,hp,hsession⟩ := List.any_eq_true.mp hold
    have hsub : (w.endClosing i c).abandoned ⊆ w.abandoned := by
      intro j hj
      refine (hleft j hj).resolve_right ?_
      rintro ⟨hj,hnot⟩
      rw [of_decide_eq_true hsession] at hj
      exact hnot (Option.some.inj hj ▸ (hw.closings p hp).2)
    have hcard := Finset.card_le_card hsub
    simp only [Bool.toNat_false,Bool.toNat_true]
    omega
  | false =>
    have hcard : (w.endClosing i c).abandoned.card ≤ w.abandoned.card+1 := by
      cases hsession : w.session with
      | none =>
        refine Nat.le_succ_of_le (Finset.card_le_card fun j hj => ?_)
        exact (hleft j hj).resolve_right fun hj => by simp [hsession] at hj
      | some i =>
        refine Nat.le_trans (Finset.card_le_card fun j hj => ?_) (Finset.card_insert_le i w.abandoned)
        rcases hleft j hj with hj | ⟨hj,_⟩
        · exact Finset.mem_insert_of_mem hj
        · rw [hsession] at hj
          exact Option.some.inj hj ▸ Finset.mem_insert_self i _
    simp only [Bool.toNat_false]
    omega

theorem potential_beginClosing (hsession : w.session = some i) :
    (w.beginClosing i c).potential ≤ w.potential+(if w.closings.isEmpty then 0 else 1) := by
  have hending : (w.beginClosing i c).ending = true := by
    simp [Worker.ending,Worker.beginClosing,hsession]
  have hlength : (w.beginClosing i c).closings.length = w.closings.length+1 := by
    simp [Worker.beginClosing]
  have hcard : (w.beginClosing i c).abandoned.card ≤ w.abandoned.card := by
    refine Finset.card_le_card fun j hj => ?_
    obtain ⟨hlt,hne,hnot⟩ := mem_abandoned.mp hj
    exact mem_abandoned.mpr ⟨hlt,hne,fun h => hnot (List.mem_append_left _ h)⟩
  have hone : w.ending.toNat ≤ 1 := Bool.toNat_le _
  rw [Worker.potential,Worker.potential,hending,hlength,Bool.toNat_true]
  cases hempty : w.closings with
  | nil =>
    simp only [List.length_nil,List.isEmpty_nil,if_true]
    omega
  | cons p ps =>
    simp only [List.length_cons,List.isEmpty_cons,Bool.false_eq_true,if_false]
    omega

theorem potential_effect (hw : Numbered w) (h : Effect w v b) :
    v.potential ≤ w.potential+(if b && !w.closings.isEmpty then 1 else 0) := by
  cases h with
  | same => exact Nat.le_refl _
  | created hnone => exact Nat.le_of_eq (potential_createClient hw hnone)
  | begun i c hsession =>
    have h := @potential_beginClosing w i c hsession
    cases hempty : w.closings.isEmpty with
    | true => simpa [hempty] using h
    | false => simpa [hempty] using h
  | ended i c hmem => exact potential_endClosing hw hmem
  | replaced i c hmem =>
    refine Nat.le_trans (Nat.le_of_eq ?_) (potential_endClosing hw hmem)
    exact potential_createClient hw.endClosing rfl
  | _ => exact Nat.le_refl _

theorem potential_congr (h : w'.core = v.core) : w'.potential = v.potential := by
  simp only [Worker.core,Prod.mk.injEq] at h
  obtain ⟨hsession,hmade,hasked,hclosings,_⟩ := h
  simp only [Worker.potential,Worker.ending,Worker.abandoned,hsession,hmade,hasked,hclosings]

theorem potential_act (hw : Numbered w) (h : act w e = some w') :
    w'.potential ≤ w.potential+(if w.begins e && !w.closings.isEmpty then 1 else 0) := by
  obtain ⟨u,v,hheard,heffect,hcore⟩ := does_act h
  rw [potential_congr hcore]
  cases hheard with
  | nothing => exact potential_effect hw heffect
  | page i chats => exact potential_effect (w := w.name i chats) ⟨hw.session,hw.closings⟩ heffect

theorem potential_exec (hw : Numbered w) (hrun : exec w es = some w') :
    w'.potential ≤ w.potential+overlaps w es := by
  induction es generalizing w with
  | nil =>
    obtain rfl := Option.some.inj hrun
    exact Nat.le_refl _
  | cons e es ih =>
    obtain ⟨w₁,hw₁,hrun⟩ := Option.bind_eq_some_iff.mp hrun
    have hact := (Option.ite_none_left_eq_some.mp hw₁).2
    have hrest := ih (hw.act hact) hrun
    have hfirst := potential_act hw hact
    have hover : overlaps w (e::es) = (if w.begins e && !w.closings.isEmpty then 1 else 0)+overlaps w₁ es := by
      rw [overlaps,hw₁]
      rfl
    omega

/-- Only the client of the session is ever asked to close, and one that has been replaced does not come back. -/
theorem abandoned_effect (h : Effect w v b) (hi : i ∈ w.abandoned) : i ∈ v.abandoned := by
  obtain ⟨hlt,hne,hnot⟩ := mem_abandoned.mp hi
  have hnew : some w.made ≠ some i := fun h => absurd (Option.some.inj h) (Nat.ne_of_gt hlt)
  cases h with
  | created => exact mem_abandoned.mpr ⟨Nat.lt_succ_of_lt hlt,hnew,hnot⟩
  | begun j c hsession =>
    have hj : i ≠ j := fun hj => hne (hj ▸ hsession)
    exact mem_abandoned.mpr ⟨hlt,hne,by simp [Worker.beginClosing,hnot,hj]⟩
  | ended j c => exact mem_abandoned.mpr ⟨hlt,(fun h => by cases h),hnot⟩
  | replaced j c => exact mem_abandoned.mpr ⟨Nat.lt_succ_of_lt hlt,hnew,hnot⟩
  | _ => exact hi

theorem abandoned_act (h : act w e = some w') (hi : i ∈ w.abandoned) : i ∈ w'.abandoned := by
  obtain ⟨u,v,hheard,heffect,hcore⟩ := does_act h
  have hv : i ∈ v.abandoned := by
    cases hheard with
    | nothing => exact abandoned_effect heffect hi
    | page j chats => exact abandoned_effect (w := w.name j chats) heffect hi
  simp only [Worker.core,Prod.mk.injEq] at hcore
  obtain ⟨hsession,hmade,hasked,_⟩ := hcore
  rwa [mem_abandoned,hsession,hmade,hasked,← mem_abandoned]

end Closings

/-- A client that has been replaced without having been closed is never closed later. In every run
there are at most as many of them as closings that have begun while another one went on; so
there are none where closings do not overlap. -/
theorem abandoned_clients_are_bounded {onDisk : Bool} {es : List Event} {w : Worker}
    (hrun : exec (.new onDisk) es = some w) :
    w.abandoned.card ≤ overlaps (.new onDisk) es ∧
    ∀ es' w', exec w es' = some w' → w.abandoned ⊆ w'.abandoned := by
  constructor
  · have hpotential := potential_exec Numbered.new hrun
    have hzero : (Worker.new onDisk).potential = 0 := by
      cases onDisk with
      | false => rfl
      | true => rfl
    have hcard : w.abandoned.card ≤ w.potential := Nat.le_add_left _ _
    omega
  · intro es' w' hrun' i hi
    exact exec_induction (P := fun w => i ∈ w.abandoned) (fun _ _ _ hw h => abandoned_act h hw) hi hrun'

def twoStarts : List Event :=
  [.startSession,.startFailed 0,.startSession,.startSession,.closed 0 .replace,.closed 0 .replace]

theorem abandoned_clients_are_bounded_two : ∃ w, exec (.new false) twoStarts = some w ∧ 1 ∈ w.abandoned ∧
    w.abandoned.card ≤ 1 ∧ ∀ es' w', exec w es' = some w' → w.abandoned ⊆ w'.abandoned := by
  have hleft : (exec (.new false) twoStarts).any (fun w => decide (1 ∈ w.abandoned)) = true := by decide
  obtain ⟨w,hw,hmem⟩ := (Option.any_eq_true _ _).mp hleft
  obtain ⟨hbound,hstay⟩ := abandoned_clients_are_bounded hw
  have hone : overlaps (.new false) twoStarts = 1 := by decide
  exact ⟨w,hw,of_decide_eq_true hmem,hone ▸ hbound,hstay⟩

/-- The session says that its groups are ready and shows none, and no sync is about to begin. -/
def Announced (w : Worker) : Prop := ∀ i, w.session = some i → (w.states i).syncState = some .ready →
  (w.states i).groups = none → ∃ k, w.syncs k = some .created

section Groups

variable {w w' u v : Worker} {e : Event} {i j k a client : ℕ} {b : Bool} {groups : Dict String GroupRecord}
  {marker : Option ℤ} {s : Option Syncing}

theorem Gathered.mono (h : Gathered w i groups) (hnamed : w.named ⊆ w'.named) : Gathered w' i groups := by
  obtain ⟨chats,hholds,hnames⟩ := h
  refine ⟨chats,hholds,fun chat hchat => ?_⟩
  obtain ⟨page,hpage,hmem⟩ := hnames chat hchat
  exact ⟨page,hnamed hpage,hmem⟩

theorem Own.mono {l : List GroupRecord} (h : Own w i l) (hnamed : w.named ⊆ w'.named) : Own w' i l := by
  obtain ⟨chats,hkept,hnames⟩ := h
  refine ⟨chats,hkept,fun chat hchat => ?_⟩
  obtain ⟨page,hpage,hmem⟩ := hnames chat hchat
  exact ⟨page,hnamed hpage,hmem⟩

theorem Gathered.own (h : Gathered w i groups) : Own w i groups.values := by
  obtain ⟨chats,hholds,hnames⟩ := h
  exact ⟨chats,hholds.kept,hnames⟩

theorem syncs_setSync_of_not_fetching (hs : s.all (!·.isFetching)) {k' : ℕ}
    (h : (w.setSync k s).syncs k' = some (.fetching a client groups marker)) :
    w.syncs k' = some (.fetching a client groups marker) := by
  by_cases hk : k' = k
  · rw [hk,syncs_setSync_self] at h
    rw [h] at hs
    cases hs
  · rwa [syncs_setSync_of_ne hk] at h

theorem syncs_newTask_fetching (h : w.newTask.syncs k = some (.fetching a client groups marker)) :
    w.syncs k = some (.fetching a client groups marker) := by
  by_cases hk : k = w.tasks
  · rw [hk,syncs_newTask_self] at h
    cases h
  · rwa [syncs_newTask_of_ne hk] at h

theorem groups_of_update {f : SessionState → SessionState} {l : List GroupRecord}
    (hf : ∀ s l, (f s).groups = some l → s.groups = some l) (h : ((w.update j f).states i).groups = some l) :
    (w.states i).groups = some l := by
  by_cases hj : i = j
  · subst hj
    rw [states_update_self] at h
    exact hf _ _ h
  · rwa [states_update_of_ne hj] at h

namespace Owned

theorem keep (h : Owned i w) (hmade : w.made ≤ v.made) (hsession : v.session = some i → w.session = some i)
    (hsyncs : ∀ k a client groups marker, v.syncs k = some (.fetching a client groups marker) →
      w.syncs k = some (.fetching a client groups marker))
    (hgroups : ∀ l, (v.states i).groups = some l → (w.states i).groups = some l) (hnamed : w.named ⊆ v.named) :
    Owned i v where
  made := Nat.lt_of_lt_of_le h.made hmade
  fetching := fun hs k a client groups marker hk => by
    obtain ⟨rfl,hgathered⟩ := h.fetching (hsession hs) k a client groups marker (hsyncs _ _ _ _ _ hk)
    exact ⟨rfl,hgathered.mono hnamed⟩
  groups := fun hs l hl => (h.groups (hsession hs) l (hgroups l hl)).mono hnamed

theorem heard (h : Owned i w) (hheard : Heard w u) : Owned i u := by
  cases hheard with
  | nothing => exact h
  | page j chats =>
    exact h.keep (Nat.le_refl _) id (fun _ _ _ _ _ hk => hk) (fun _ hl => hl) (List.subset_append_left _ _)

theorem createClient (hi : i < w.made) : Owned i w.createClient := by
  have hne : w.made ≠ i := Nat.ne_of_gt hi
  refine ⟨Nat.lt_succ_of_lt hi,fun hs => ?_,fun hs => ?_⟩
  · exact absurd (Option.some.inj hs) hne
  · exact absurd (Option.some.inj hs) hne

theorem effect (h : Owned i w) (heffect : Effect w v b) : Owned i v := by
  cases heffect with
  | same => exact h
  | created => exact createClient h.made
  | begun j c => exact ⟨h.made,h.fetching,h.groups⟩
  | ended j c => exact ⟨h.made,(fun hs => by cases hs),fun hs => by cases hs⟩
  | replaced j c => exact createClient h.made
  | moved j f hf =>
    exact h.keep (Nat.le_refl _) id (fun _ _ _ _ _ hk => hk)
      (fun l hl => groups_of_update (fun s l hs => (hf s).2 ▸ hs) hl) fun _ hp => hp
  | tasked j f hf =>
    exact h.keep (Nat.le_refl _) id (fun _ _ _ _ _ hk => syncs_newTask_fetching hk)
      (fun l hl => groups_of_update hf hl) fun _ hp => hp
  | paused k s hs =>
    exact h.keep (Nat.le_refl _) id (fun _ _ _ _ _ hk => syncs_setSync_of_not_fetching hs hk)
      (fun _ hl => hl) fun _ hp => hp
  | told k j f s hs _ hf =>
    exact h.keep (Nat.le_refl _) id (fun _ _ _ _ _ hk => syncs_setSync_of_not_fetching hs hk)
      (fun l hl => groups_of_update (fun s l hs => (hf s).2 ▸ hs) hl) fun _ hp => hp
  | asks k a j groups marker hsession _ hgroups =>
    refine ⟨h.made,fun hs k' a' client groups' marker' hk => ?_,h.groups⟩
    by_cases hkk : k' = k
    · rw [hkk,syncs_setSync_self] at hk
      cases hk
      obtain rfl : j = i := Option.some.inj (hsession.symm.trans hs)
      exact ⟨rfl,hgroups h⟩
    · rw [syncs_setSync_of_ne hkk] at hk
      exact h.fetching hs k' a' client groups' marker' hk
  | published k j groups hsession _ hgroups =>
    refine ⟨h.made,fun hs k' a' client groups' marker' hk => ?_,fun hs l hl => ?_⟩
    · exact h.fetching hs k' a' client groups' marker' (syncs_setSync_of_not_fetching rfl hk)
    · obtain rfl : j = i := Option.some.inj (hsession.symm.trans hs)
      rw [states_setSync,states_update_self] at hl
      exact Option.some.inj hl ▸ (hgroups h).own

theorem act (h : Owned i w) (hact : act w e = some w') : Owned i w' := by
  obtain ⟨u,v,hheard,heffect,hcore⟩ := does_act hact
  have hv := (h.heard hheard).effect heffect
  simp only [Worker.core,Prod.mk.injEq] at hcore
  obtain ⟨hsession,hmade,_,_,hstates,hsyncs,hnamed⟩ := hcore
  exact hv.keep (Nat.le_of_eq hmade.symm) (fun hs => hsession ▸ hs) (fun _ _ _ _ _ hk => hsyncs ▸ hk)
    (fun _ hl => hstates ▸ hl) (fun _ hp => hnamed ▸ hp)

end Owned

namespace Announced

theorem newTask : Announced w.newTask := fun _ _ _ _ => ⟨w.tasks,syncs_newTask_self⟩

theorem createClient : Announced w.createClient := by
  intro i hs hready
  obtain rfl := Option.some.inj hs
  simp [Worker.createClient,SessionState.new] at hready

theorem setSync (h : Announced w) (hk : w.syncs k = some .created → w.session = none) :
    Announced (w.setSync k s) := by
  intro i hs hready hgroups
  obtain ⟨k',hk'⟩ := h i hs hready hgroups
  have hne : k' ≠ k := by
    rintro rfl
    rw [session_setSync,hk hk'] at hs
    cases hs
  exact ⟨k',by rwa [syncs_setSync_of_ne hne]⟩

theorem effect (h : Announced w) (heffect : Effect w v b) : Announced v := by
  cases heffect with
  | same => exact h
  | created => exact createClient
  | begun j c => exact h
  | ended j c => exact fun _ hs => by cases hs
  | replaced j c => exact createClient
  | moved j f hf =>
    intro i hs hready hgroups
    by_cases hj : i = j
    · subst hj
      rw [states_update_self] at hready hgroups
      exact h i hs ((hf _).1 ▸ hready) ((hf _).2 ▸ hgroups)
    · rw [states_update_of_ne hj] at hready hgroups
      exact h i hs hready hgroups
  | tasked j f hf => exact newTask
  | paused k s _ hk => exact h.setSync hk
  | told k j f s _ hsession hf =>
    intro i hs hready
    obtain rfl : j = i := Option.some.inj (hsession.symm.trans hs)
    rw [states_setSync,states_update_self] at hready
    exact absurd hready (hf _).1
  | asks k a j groups marker _ hk _ => exact h.setSync fun hcreated => absurd hcreated hk
  | published k j groups hsession =>
    intro i hs _ hgroups
    obtain rfl : j = i := Option.some.inj (hsession.symm.trans hs)
    rw [states_setSync,states_update_self] at hgroups
    cases hgroups

theorem act (h : Announced w) (hact : act w e = some w') : Announced w' := by
  obtain ⟨u,v,hheard,heffect,hcore⟩ := does_act hact
  have hu : Announced u := by
    cases hheard with
    | nothing => exact h
    | page j chats => exact h
  have hv := hu.effect heffect
  simp only [Worker.core,Prod.mk.injEq] at hcore
  obtain ⟨hsession,_,_,_,hstates,hsyncs,_⟩ := hcore
  intro i hs hready hgroups
  rw [hsyncs]
  exact hv i (hsession ▸ hs) (hstates ▸ hready) (hstates ▸ hgroups)

theorem new {onDisk : Bool} : Announced (.new onDisk) := by
  cases onDisk with
  | false => exact fun _ hs => by cases hs
  | true => exact createClient

end Announced

end Groups

def answerOf (w : Worker) : Event → Option Answer
  | .getSyncStatus => w.getSyncStatus.2
  | .reloaded i => some (w.reloaded i).2
  | _ => none

/-- An answer with groups, or one that says that they are ready, is about the session. -/
theorem answer_cases {w : Worker} {e : Event} {answer : Answer} (h : answerOf w e = some answer) :
    answer.groups = none ∧ answer.state ≠ "ready" ∨ ∃ i, w.session = some i ∧ answer.groups = (w.states i).groups ∧
      answer.state = ((w.states i).syncState.map SyncState.text).getD "none" := by
  have hview : w.view.groups = none ∧ w.view.state ≠ "ready" ∨ ∃ i, w.session = some i ∧
      w.view.groups = (w.states i).groups ∧
      w.view.state = ((w.states i).syncState.map SyncState.text).getD "none" := by
    unfold Worker.view
    split
    · exact .inl ⟨rfl,by simp⟩
    · rename_i i hsession
      exact .inr ⟨i,hsession,rfl,rfl⟩
  cases e with
  | getSyncStatus =>
    simp only [answerOf,Worker.getSyncStatus] at h
    split at h
    · split at h
      · cases h
      · exact Option.some.inj h ▸ hview
    · exact Option.some.inj h ▸ hview
  | reloaded i =>
    simp only [answerOf,Worker.reloaded] at h
    split at h
    · exact Option.some.inj h ▸ .inl ⟨rfl,by simp⟩
    · split at h
      · exact Option.some.inj h ▸ hview
      · exact Option.some.inj h ▸ .inl ⟨rfl,by simp⟩
  | _ => cases h

theorem ready_of_text {s : Option SyncState} (h : (s.map SyncState.text).getD "none" = "ready") : s = some .ready := by
  cases s with
  | none => simp at h
  | some s =>
    cases s with
    | ready => rfl
    | syncing => simp [SyncState.text] at h
    | failed => simp [SyncState.text] at h

def Worker.Unasked (w : Worker) : Prop :=
  ∀ k a client groups marker, w.syncs k ≠ some (.fetching a client groups marker)

/-- What `GET /sync-status` answers. The groups that a session shows are those of chats that its own client has
named, if at some time it had none yet and no attempt was asking. A session that says that its groups are ready
shows them, unless a sync is about to begin. -/
theorem groups_are_own {onDisk : Bool} {es : List Event} {w' : Worker} (hrun : exec (.new onDisk) es = some w')
    {e : Event} {answer : Answer} (hanswer : answerOf w' e = some answer) :
    (∀ es₁ es₂ w i, exec (.new onDisk) es₁ = some w → exec w es₂ = some w' → w.session = some i →
      (w.states i).groups = none → w.Unasked → w'.session = some i →
      ∀ groups, answer.groups = some groups → Own w' i groups) ∧
    (answer.state = "ready" → answer.groups = none → ∃ k, w'.syncs k = some .created) := by
  have hannounced : Announced w' := exec_induction (fun _ _ _ hw h => hw.act h) Announced.new hrun
  constructor
  · intro es₁ es₂ w i hrun₁ hrun₂ hsession hnone hquiet hsession' groups hg
    have hfirst : Owned i w := by
      refine ⟨(Numbered.exec hrun₁).session i hsession,fun _ k a client groups marker hk => ?_,fun _ l hl => ?_⟩
      · exact absurd hk (hquiet k a client groups marker)
      · rw [hnone] at hl
        cases hl
    have howned : Owned i w' := exec_induction (P := Owned i) (fun _ _ _ hw h => hw.act h) hfirst hrun₂
    rcases answer_cases hanswer with ⟨hgroups,_⟩ | ⟨j,hj,hgroups,_⟩
    · rw [hgroups] at hg
      cases hg
    · obtain rfl : i = j := Option.some.inj (hsession'.symm.trans hj)
      exact howned.groups hsession' groups (hgroups ▸ hg)
  · intro hready hnot
    rcases answer_cases hanswer with ⟨_,hstate⟩ | ⟨j,hj,hgroups,hstate⟩
    · exact absurd hready hstate
    · exact hannounced j hj (ready_of_text (hstate ▸ hready)) (hgroups ▸ hnot)

def startedClient : Worker := ((Worker.blank false).createClient).onStart 0

def market : Chat := ⟨true,"1","Market",.ok 5⟩

def oneGroup : List Event := [.syncBegins 0,.attempt 0 [market],.fetched 0 (.ok [])]

theorem groups_are_own_market : ∃ w', exec startedClient oneGroup = some w' ∧
    answerOf w' .getSyncStatus = some ⟨"ready",some [⟨"1","Market"⟩]⟩ ∧ Own w' 0 [⟨"1","Market"⟩] := by
  have hstarted : exec (.new false) [.startSession,.onStart 0] = some startedClient := rfl
  have hquiet : startedClient.Unasked := by
    intro k a client groups marker hk
    have hold : (Worker.blank false).syncs k = some (.fetching a client groups marker) := syncs_newTask_fetching hk
    cases hold
  have hrun : (exec startedClient oneGroup).any (fun w => decide (w.session = some 0 ∧
      answerOf w .getSyncStatus = some ⟨"ready",some [⟨"1","Market"⟩]⟩)) = true := by decide
  obtain ⟨w',hw',hanswer⟩ := (Option.any_eq_true _ _).mp hrun
  obtain ⟨hsession,hanswer⟩ := of_decide_eq_true hanswer
  have hwhole : exec (.new false) ([.startSession,.onStart 0] ++ oneGroup) = some w' := hw'
  exact ⟨w',hw',hanswer,(groups_are_own hwhole hanswer).1 _ _ _ 0 hstarted hw' rfl rfl hquiet hsession _ rfl⟩

/-- The session is deleted and another one made while a page is on its way from the client of the first. -/
def lateGroup : List Event :=
  [.syncBegins 0,.attempt 0 [market],.deleteSession,.closed 0 .destroy,.startSession,.onStart 1,.fetched 0 (.ok [])]

/-- Then the second session shows the groups of the first. -/
example : (exec startedClient lateGroup).any (fun w => decide (w.session = some 1 ∧
    answerOf w .getSyncStatus = some ⟨"ready",some [⟨"1","Market"⟩]⟩ ∧ w.named.map Prod.fst = [0,0])) = true := by
  decide

end MaxSession
end Broadcaster
