import Broadcaster.SchedulePages

/-!
# Connecting WhatsApp and MAX

The pages and polls of the two connect wizards, the retry of a failed group
sync, the outcome of a sync task and the deletion of an account, for the rows of
one user in `messenger_accounts`. Requests come one after the other.
-/

namespace Broadcaster
namespace ConnectWizard

open ScheduleRoutes SchedulePages

inductive AccountType
  | tgUser | wa | max
  deriving DecidableEq

inductive AccountStatus
  | disconnected | connecting | syncing | active | syncFailed
  deriving DecidableEq

structure Account where
  userId : ℕ
  type : AccountType
  credentials : String
  status : AccountStatus
  deriving DecidableEq

abbrev Accounts := Store Account

inductive Exception
  | multipleResultsFound | bridgeError
  deriving DecidableEq

inductive Bridge
  | raised | answered (ok : Bool)
  deriving DecidableEq

/-- The statuses that the wizards treat as a working account. -/
def liveStatuses : List AccountStatus := [.active,.syncing]

/-- The statuses whose rows a new attempt deletes. -/
def staleStatuses : List AccountStatus := [.connecting,.syncFailed]

def isOf (user : ℕ) (type : AccountType) (statuses : List AccountStatus) (a : Account) : Bool :=
  a.userId = user && a.type = type && statuses.contains a.status

def scalarOneOrNone : List (ℕ × Account) → Except Exception (Option (ℕ × Account))
  | [] => .ok none
  | [r] => .ok (some r)
  | _::_::_ => .error .multipleResultsFound

def Account.withCredentials (credentials : String) (a : Account) : Account :=
  { a with credentials := credentials }

def Account.withStatus (status : AccountStatus) (a : Account) : Account := { a with status := status }

def pendingAccount (user : ℕ) (type : AccountType) (credentials : String) : Account where
  userId := user
  type := type
  credentials := credentials
  status := .connecting

section Handlers

variable (user : ℕ) (db : Accounts)

/-- The rows without the stale ones; `none` when a live account sends the user to the list. -/
def clearStale (type : AccountType) : Except Exception (Option Accounts) := do
  let existing ← scalarOneOrNone (db.select (isOf user type liveStatuses))
  if existing.isSome then return none
  return some (db.deleteWhere fun _ a => isOf user type staleStatuses a)

def accountsConnectWaPage : Except Exception Accounts := do
  match ← clearStale user db .wa with
  | none => return db
  | some cleared => return cleared.insert (pendingAccount user .wa "pending")

def accountsConnectMaxPage : Except Exception Accounts := do
  return (← clearStale user db .max).getD db

def accountsConnectMaxStart (submitted : String) : Except Exception Accounts :=
  let phone := strip submitted
  if phone = "" then .ok db
  else
    match db.select (isOf user .max [.connecting]) with
    | (i,_)::_ => .ok (db.update i (Account.withCredentials phone))
    | [] => .ok (db.insert (pendingAccount user .max phone))

/-- The status poll of a wizard. An exception of the bridge is answered with a notice. -/
def connectStatus (type : AccountType) (bridge : Bridge) : Except Exception Accounts := do
  match ← scalarOneOrNone (db.select (isOf user type [.connecting])) with
  | none => return db
  | some (i,_) =>
    match bridge with
    | .answered true =>
      return db.update i fun a => (a.withCredentials (toString i)).withStatus .syncing
    | .answered false | .raised => return db

def accountsConnectWaStatus (bridge : Bridge) : Except Exception Accounts :=
  connectStatus user db .wa bridge

def accountsConnectMaxStatus (bridge : Bridge) : Except Exception Accounts :=
  connectStatus user db .max bridge

def syncedAccount (accountId : ℤ) : Option (ℕ × Account) :=
  if idInColumn accountId then
    ((db.find accountId).filter fun a => a.userId = user && [AccountType.wa,.max].contains a.type).map
      (accountId.toNat,·)
  else none

def accountsRetrySync (accountId : ℤ) (bridge : Bridge) : Except Exception Accounts :=
  match syncedAccount user db accountId with
  | none => .ok db
  | some (i,_) =>
    match bridge with
    | .raised => .error .bridgeError
    | .answered _ => .ok (db.update i (Account.withStatus .syncing))

/-- How a sync task ends that finds the account waiting for it. -/
def finishSync (ready : Bool) (a : Account) : Account :=
  if a.status = .syncing then a.withStatus (if ready then .active else .syncFailed) else a

def deleteAccount (accountId : ℤ) : Accounts :=
  if idInColumn accountId then
    db.deleteWhere fun i a => (i : ℤ) = accountId && a.userId = user
  else db

end Handlers

inductive Request
  | connectWaPage
  | connectMaxPage
  | connectMaxStart (phone : String)
  | connectWaStatus (bridge : Bridge)
  | connectMaxStatus (bridge : Bridge)
  | retrySync (accountId : ℤ) (bridge : Bridge)
  | syncEnds (account : ℕ) (ready : Bool)
  | delete (accountId : ℤ)
  deriving DecidableEq

def handle (user : ℕ) (db : Accounts) : Request → Except Exception Accounts
  | .connectWaPage => accountsConnectWaPage user db
  | .connectMaxPage => accountsConnectMaxPage user db
  | .connectMaxStart phone => accountsConnectMaxStart user db phone
  | .connectWaStatus bridge => accountsConnectWaStatus user db bridge
  | .connectMaxStatus bridge => accountsConnectMaxStatus user db bridge
  | .retrySync accountId bridge => accountsRetrySync user db accountId bridge
  | .syncEnds account ready => .ok (db.update account (finishSync ready))
  | .delete accountId => .ok (deleteAccount user db accountId)

/-- A request that raises leaves the rows as they were. -/
def step (user : ℕ) (db : Accounts) (r : Request) : Accounts :=
  match handle user db r with
  | .ok db' => db'
  | .error _ => db

def states (user : ℕ) (db : Accounts) : List Request → List Accounts
  | [] => [db]
  | r::rs => db :: states user (step user db r) rs

/-- One live account of a type and one that is being connected, and no query of the wizards that expects
one row finds two. -/
structure Unique (user : ℕ) (db : Accounts) : Prop where
  live : ∀ type ∈ [AccountType.wa,.max], db.Once (isOf user type liveStatuses)
  connecting : ∀ type ∈ [AccountType.wa,.max], db.Once (isOf user type [.connecting])
  found : ∀ r, handle user db r ≠ .error .multipleResultsFound

/-- A MAX account starts to sync only when no other one of the user is live. -/
def Meets (user : ℕ) (db : Accounts) : Request → Prop
  | .connectMaxStatus (.answered true) => ∀ r ∈ db.select (isOf user .max [.connecting]),
    ∀ q ∈ db.select (isOf user .max liveStatuses), q.1 = r.1
  | .retrySync accountId (.answered _) => ∀ r ∈ syncedAccount user db accountId, r.2.type = .max →
    ∀ q ∈ db.select (isOf user .max liveStatuses), q.1 = r.1
  | _ => True

instance (user : ℕ) (db : Accounts) (r : Request) : Decidable (Meets user db r) := by
  unfold Meets
  split <;> infer_instance

def AllMeet (user : ℕ) (db : Accounts) : List Request → Prop
  | [] => True
  | r::rs => Meets user db r ∧ AllMeet user (step user db r) rs

/-- The user has connected neither WhatsApp nor MAX yet. -/
def Initial (user : ℕ) (db : Accounts) : Prop := ∀ i a, db.row i = some a → a.userId = user → a.type = .tgUser

variable {user : ℕ} {db : Accounts} {type : AccountType}

theorem scalarOneOrNone_of_once {p : Account → Bool} (h : db.Once p) :
    scalarOneOrNone (db.select p) = .ok (db.select p).head? := by
  have hlength := h.select_length
  cases hrows : db.select p with
  | nil => rfl
  | cons a rows =>
    cases rows with
    | nil => rfl
    | cons b rest => simp [hrows] at hlength

theorem isOf_iff {statuses : List AccountStatus} {a : Account} : isOf user type statuses a = true ↔
    a.userId = user ∧ a.type = type ∧ a.status ∈ statuses := by
  simp [isOf,and_assoc]

/-- What holds of the rows of the user at every time; there is no second WhatsApp row of any status. -/
structure Wizard (user : ℕ) (db : Accounts) : Prop where
  wa : db.Once fun a => a.userId = user && a.type = .wa
  known : ∀ i a, db.row i = some a → a.userId = user → a.type = .wa → a.status ≠ .disconnected
  connecting : db.Once (isOf user .max [.connecting])
  live : db.Once (isOf user .max liveStatuses)

theorem Wizard.of_wa (h : Wizard user db) (statuses : List AccountStatus) :
    db.Once (isOf user .wa statuses) := by
  refine h.wa.imp fun a ha => ?_
  obtain ⟨huser,htype,_⟩ := isOf_iff.mp ha
  simp [huser,htype]

theorem Wizard.onceLive (h : Wizard user db) : ∀ type ∈ [AccountType.wa,.max],
    db.Once (isOf user type liveStatuses) := by
  intro type htype
  rcases List.mem_cons.mp htype with rfl | htype
  · exact h.of_wa liveStatuses
  · rw [List.mem_singleton.mp htype]
    exact h.live

theorem Wizard.onceConnecting (h : Wizard user db) : ∀ type ∈ [AccountType.wa,.max],
    db.Once (isOf user type [.connecting]) := by
  intro type htype
  rcases List.mem_cons.mp htype with rfl | htype
  · exact h.of_wa [.connecting]
  · rw [List.mem_singleton.mp htype]
    exact h.connecting

theorem clearStale_eq (h : db.Once (isOf user type liveStatuses)) : clearStale user db type =
    .ok (if (db.select (isOf user type liveStatuses)).head?.isSome then none
      else some (db.deleteWhere fun _ a => isOf user type staleStatuses a)) := by
  rw [clearStale,scalarOneOrNone_of_once h]
  cases (db.select (isOf user type liveStatuses)).head? <;> rfl

theorem connectStatus_eq (bridge : Bridge) (h : db.Once (isOf user type [.connecting])) :
    connectStatus user db type bridge = .ok (match (db.select (isOf user type [.connecting])).head?,bridge with
      | some (i,_), .answered true =>
        db.update i fun a => (a.withCredentials (toString i)).withStatus .syncing
      | _, _ => db) := by
  rw [connectStatus,scalarOneOrNone_of_once h]
  cases (db.select (isOf user type [.connecting])).head? with
  | none => rfl
  | some r =>
    cases bridge with
    | raised => rfl
    | answered ok => cases ok <;> rfl

theorem Wizard.deleteWhere {d : ℕ → Account → Bool} (h : Wizard user db) :
    Wizard user (db.deleteWhere d) where
  wa := h.wa.deleteWhere
  known := fun i a ha => h.known i a (Store.row_deleteWhere.mp ha).1
  connecting := h.connecting.deleteWhere
  live := h.live.deleteWhere

theorem Wizard.known_insert (h : Wizard user db) {credentials : String} (i : ℕ) (a : Account)
    (ha : (db.insert (pendingAccount user type credentials)).row i = some a) (huser : a.userId = user)
    (hwa : a.type = .wa) : a.status ≠ .disconnected := by
  rcases Store.row_insert.mp ha with ⟨_,rfl⟩ | ha
  · exact AccountStatus.noConfusion
  · exact h.known i a ha huser hwa

theorem Wizard.insertWa (h : Wizard user db) (credentials : String)
    (hfree : ∀ i a, db.row i = some a → a.userId = user → a.type ≠ .wa) :
    Wizard user (db.insert (pendingAccount user .wa credentials)) where
  wa := h.wa.insert fun _ i a ha => by
    by_contra hwa
    simp only [Bool.not_eq_false,Bool.and_eq_true,decide_eq_true_eq] at hwa
    exact hfree i a ha hwa.1 hwa.2
  known := h.known_insert
  connecting := h.connecting.insert fun hp => by simp [isOf,pendingAccount] at hp
  live := h.live.insert fun hp => by simp [isOf,pendingAccount] at hp

theorem Wizard.insertMax (h : Wizard user db) (credentials : String)
    (hfree : ∀ i a, db.row i = some a → isOf user .max [.connecting] a = false) :
    Wizard user (db.insert (pendingAccount user .max credentials)) where
  wa := h.wa.insert fun hp => by simp [pendingAccount] at hp
  known := h.known_insert
  connecting := h.connecting.insert fun _ => hfree
  live := h.live.insert fun hp => by simp [isOf,pendingAccount,liveStatuses] at hp

/-- One row changes; it does not begin to connect, and it becomes live only where no other MAX row is. -/
theorem Wizard.update {i : ℕ} {f : Account → Account} (h : Wizard user db)
    (hf : ∀ a, (f a).userId = a.userId ∧ (f a).type = a.type)
    (hknown : ∀ a, a.status ≠ .disconnected → (f a).status ≠ .disconnected)
    (hconnecting : ∀ a, (f a).status = .connecting → a.status = .connecting)
    (hlive : (∀ a, db.row i = some a → isOf user .max liveStatuses (f a) = true →
        isOf user .max liveStatuses a = true) ∨
      ∀ j b, j ≠ i → db.row j = some b → isOf user .max liveStatuses b = false) :
    Wizard user (db.update i f) where
  wa := h.wa.update fun a _ ha => by
    rw [(hf a).1,(hf a).2] at ha
    exact ha
  known := by
    intro j b hb huser htype
    obtain ⟨a,ha,hfa⟩ := Store.row_update.mp hb
    split at hfa
    · rw [← hfa] at huser htype ⊢
      rw [(hf a).1] at huser
      rw [(hf a).2] at htype
      exact hknown a (h.known j a ha huser htype)
    · rw [← hfa] at huser htype ⊢
      exact h.known j a ha huser htype
  connecting := h.connecting.update fun a _ ha => by
    obtain ⟨huser,htype,hstatus⟩ := isOf_iff.mp ha
    rw [(hf a).1] at huser
    rw [(hf a).2] at htype
    exact isOf_iff.mpr ⟨huser,htype,by simpa using hconnecting a (by simpa using hstatus)⟩
  live := by
    rcases hlive with hkept | hfree
    · exact h.live.update hkept
    · exact Store.once_update_of_free hfree

theorem Wizard.sync {i : ℕ} {f : Account → Account} (h : Wizard user db)
    (hf : ∀ a, (f a).userId = a.userId ∧ (f a).type = a.type ∧ (f a).status = .syncing)
    (hfree : ∀ a, db.row i = some a → a.type = .max →
      ∀ j b, db.row j = some b → isOf user .max liveStatuses b = true → j = i) :
    Wizard user (db.update i f) := by
  refine h.update (fun a => ⟨(hf a).1,(hf a).2.1⟩) (fun a _ => ?_) (fun a ha => ?_) ?_
  · rw [(hf a).2.2]
    exact AccountStatus.noConfusion
  · rw [(hf a).2.2] at ha
    cases ha
  · by_cases hmax : ∃ a, db.row i = some a ∧ a.type = .max
    · obtain ⟨a,ha,htype⟩ := hmax
      refine .inr fun j b hj hb => ?_
      by_contra hlive
      exact hj (hfree a ha htype j b hb (by simpa using hlive))
    · refine .inl fun a ha hlive => ?_
      obtain ⟨_,htype,_⟩ := isOf_iff.mp hlive
      exact absurd ⟨a,ha,(hf a).2.1.symm.trans htype⟩ hmax

theorem head?_select {p : Account → Bool} {i : ℕ} {a : Account} (h : (db.select p).head? = some (i,a)) :
    db.row i = some a ∧ p a = true :=
  Store.mem_select.mp (List.mem_of_head? h)

theorem Wizard.clearStale (h : Wizard user db) {cleared : Option Accounts}
    (hc : clearStale user db type = .ok cleared) (htype : type ∈ [AccountType.wa,.max]) :
    ∀ db', cleared = some db' → Wizard user db' ∧ ∀ i a, db'.row i = some a →
      a.userId = user → a.type = type → a.status = .disconnected := by
  intro db' hdb'
  rw [clearStale_eq (h.onceLive type htype)] at hc
  subst hdb'
  split at hc
  · cases hc
  · rename_i hlive
    cases hc
    refine ⟨h.deleteWhere,fun i a ha huser hat => ?_⟩
    obtain ⟨ha,hstale⟩ := Store.row_deleteWhere.mp ha
    have hnil : db.select (isOf user type liveStatuses) = [] := by simpa using hlive
    have hnone := Store.select_eq_nil.mp hnil i a ha
    simp only [isOf,huser,hat,decide_true,Bool.true_and] at hstale hnone
    cases hstatus : a.status with
    | disconnected => rfl
    | _ => simp [hstatus,liveStatuses,staleStatuses] at hstale hnone

theorem Wizard.waPage {db' : Accounts} (h : Wizard user db) (hdb' : accountsConnectWaPage user db = .ok db') :
    Wizard user db' := by
  cases hc : ConnectWizard.clearStale user db .wa with
  | error e =>
    rw [accountsConnectWaPage,hc] at hdb'
    cases hdb'
  | ok cleared =>
    rw [accountsConnectWaPage,hc] at hdb'
    cases cleared with
    | none =>
      cases hdb'
      exact h
    | some db₀ =>
      cases hdb'
      obtain ⟨hcleared,hnone⟩ := h.clearStale hc (by simp) db₀ rfl
      exact hcleared.insertWa "pending" fun i a ha huser htype =>
        hcleared.known i a ha huser htype (hnone i a ha huser htype)

theorem Wizard.maxPage {db' : Accounts} (h : Wizard user db) (hdb' : accountsConnectMaxPage user db = .ok db') :
    Wizard user db' := by
  cases hc : ConnectWizard.clearStale user db .max with
  | error e =>
    rw [accountsConnectMaxPage,hc] at hdb'
    cases hdb'
  | ok cleared =>
    rw [accountsConnectMaxPage,hc] at hdb'
    cases cleared with
    | none =>
      cases hdb'
      exact h
    | some db₀ =>
      cases hdb'
      exact (h.clearStale hc (by simp) db₀ rfl).1

theorem Wizard.maxStart {db' : Accounts} {submitted : String} (h : Wizard user db)
    (hdb' : accountsConnectMaxStart user db submitted = .ok db') : Wizard user db' := by
  unfold accountsConnectMaxStart at hdb'
  generalize strip submitted = phone at hdb'
  simp only at hdb'
  split at hdb'
  · cases hdb'
    exact h
  · split at hdb'
    · cases hdb'
      exact h.update (fun _ => ⟨rfl,rfl⟩) (fun _ hs => hs) (fun _ hs => hs) (.inl fun _ _ hs => hs)
    · rename_i hnil
      cases hdb'
      exact h.insertMax _ (Store.select_eq_nil.mp hnil)

theorem Wizard.status {db' : Accounts} {bridge : Bridge} (h : Wizard user db)
    (htype : type ∈ [AccountType.wa,.max]) (hdb' : connectStatus user db type bridge = .ok db')
    (hfree : type = .max → bridge = .answered true → ∀ i a, db.row i = some a →
      isOf user .max [.connecting] a = true →
      ∀ j b, db.row j = some b → isOf user .max liveStatuses b = true → j = i) : Wizard user db' := by
  rw [connectStatus_eq bridge (h.onceConnecting type htype)] at hdb'
  cases hfound : (db.select (isOf user type [.connecting])).head? with
  | none =>
    rw [hfound] at hdb'
    cases hdb'
    exact h
  | some r =>
    obtain ⟨i,a⟩ := r
    rw [hfound] at hdb'
    obtain ⟨ha,hconnecting⟩ := head?_select hfound
    cases bridge with
    | raised =>
      cases hdb'
      exact h
    | answered ok =>
      cases ok with
      | false =>
        cases hdb'
        exact h
      | true =>
        cases hdb'
        refine h.sync (fun _ => ⟨rfl,rfl,rfl⟩) fun b hb hmax => ?_
        rw [ha] at hb
        cases hb
        have hat : type = .max := (isOf_iff.mp hconnecting).2.1.symm.trans hmax
        subst hat
        exact hfree rfl rfl i a ha hconnecting

theorem syncedAccount_eq_some {accountId : ℤ} {i : ℕ} {a : Account}
    (h : syncedAccount user db accountId = some (i,a)) :
    db.row i = some a ∧ a.userId = user ∧ (a.type = .wa ∨ a.type = .max) := by
  unfold syncedAccount at h
  split at h
  · obtain ⟨b,hb,hi⟩ := Option.map_eq_some_iff.mp h
    cases hi
    obtain ⟨hfind,hown⟩ := Option.filter_eq_some_iff.mp hb
    obtain ⟨n,rfl,hn⟩ := Store.find_eq_some hfind
    simp only [Bool.and_eq_true,decide_eq_true_eq,List.contains_cons,List.contains_nil,Bool.or_false,
      Bool.or_eq_true,beq_iff_eq] at hown
    exact ⟨hn,hown⟩
  · cases h

theorem Wizard.retry {db' : Accounts} {accountId : ℤ} {bridge : Bridge} (h : Wizard user db)
    (hdb' : accountsRetrySync user db accountId bridge = .ok db')
    (hm : Meets user db (.retrySync accountId bridge)) : Wizard user db' := by
  unfold accountsRetrySync at hdb'
  split at hdb'
  · cases hdb'
    exact h
  · rename_i i a hfound
    cases bridge with
    | raised => cases hdb'
    | answered ok =>
      cases hdb'
      refine h.sync (fun _ => ⟨rfl,rfl,rfl⟩) fun b hb hmax j c hc hlive => ?_
      rw [(syncedAccount_eq_some hfound).1] at hb
      cases hb
      exact hm (i,a) hfound hmax (j,c) (Store.mem_select.mpr ⟨hc,hlive⟩)

theorem finishSync_status (ready : Bool) (a : Account) : (finishSync ready a).status = a.status ∨
    (a.status = .syncing ∧ (finishSync ready a).status = if ready then .active else .syncFailed) := by
  unfold finishSync
  split
  · rename_i hs
    exact .inr ⟨hs,rfl⟩
  · exact .inl rfl

theorem Wizard.syncEnds (h : Wizard user db) (account : ℕ) (ready : Bool) :
    Wizard user (db.update account (finishSync ready)) := by
  have hkeeps : ∀ a, (finishSync ready a).userId = a.userId ∧ (finishSync ready a).type = a.type := by
    intro a
    unfold finishSync
    split <;> exact ⟨rfl,rfl⟩
  refine h.update hkeeps (fun a ha => ?_) (fun a ha => ?_) (.inl fun a _ hlive => ?_)
  · rcases finishSync_status ready a with hs | ⟨_,hs⟩
    · rwa [hs]
    · rw [hs]
      cases ready <;> exact AccountStatus.noConfusion
  · rcases finishSync_status ready a with hs | ⟨_,hs⟩
    · rwa [hs] at ha
    · rw [hs] at ha
      cases ready <;> cases ha
  · obtain ⟨huser,htype,hstatus⟩ := isOf_iff.mp hlive
    rw [(hkeeps a).1] at huser
    rw [(hkeeps a).2] at htype
    refine isOf_iff.mpr ⟨huser,htype,?_⟩
    rcases finishSync_status ready a with hs | ⟨hs,_⟩
    · rwa [hs] at hstatus
    · rw [hs]
      decide

theorem Wizard.delete (h : Wizard user db) (accountId : ℤ) :
    Wizard user (deleteAccount user db accountId) := by
  unfold deleteAccount
  split
  · exact h.deleteWhere
  · exact h

theorem Wizard.step {r : Request} (h : Wizard user db) (hm : Meets user db r) :
    Wizard user (step user db r) := by
  unfold ConnectWizard.step
  cases hdb' : handle user db r with
  | error e => exact h
  | ok db' =>
    cases r with
    | connectWaPage => exact h.waPage hdb'
    | connectMaxPage => exact h.maxPage hdb'
    | connectMaxStart phone =>
      unfold handle at hdb'
      exact h.maxStart hdb'
    | connectWaStatus bridge => exact h.status (by simp) hdb' fun hmax => by cases hmax
    | connectMaxStatus bridge =>
      refine h.status (by simp) hdb' fun _ hbridge i a ha hconnecting j b hb hlive => ?_
      subst hbridge
      exact hm (i,a) (Store.mem_select.mpr ⟨ha,hconnecting⟩) (j,b) (Store.mem_select.mpr ⟨hb,hlive⟩)
    | retrySync accountId bridge => exact h.retry hdb' hm
    | syncEnds account ready =>
      cases hdb'
      exact h.syncEnds account ready
    | delete accountId =>
      cases hdb'
      exact h.delete accountId

theorem Wizard.found (h : Wizard user db) (r : Request) :
    handle user db r ≠ .error .multipleResultsFound := by
  have hstatus : ∀ type ∈ [AccountType.wa,.max], ∀ bridge,
      connectStatus user db type bridge ≠ .error .multipleResultsFound := by
    intro type htype bridge
    rw [connectStatus_eq bridge (h.onceConnecting type htype)]
    exact nofun
  have hclear : ∀ type ∈ [AccountType.wa,.max], ∃ cleared, ConnectWizard.clearStale user db type = .ok cleared := by
    intro type htype
    exact ⟨_,clearStale_eq (h.onceLive type htype)⟩
  cases r with
  | connectWaPage =>
    obtain ⟨cleared,hc⟩ := hclear .wa (by simp)
    simp only [handle,accountsConnectWaPage,hc]
    cases cleared <;> exact nofun
  | connectMaxPage =>
    obtain ⟨cleared,hc⟩ := hclear .max (by simp)
    simp only [handle,accountsConnectMaxPage,hc]
    exact nofun
  | connectMaxStart phone =>
    simp only [handle,accountsConnectMaxStart]
    split
    · exact nofun
    · split <;> exact nofun
  | connectWaStatus bridge => exact hstatus .wa (by simp) bridge
  | connectMaxStatus bridge => exact hstatus .max (by simp) bridge
  | retrySync accountId bridge =>
    simp only [handle,accountsRetrySync]
    split
    · exact nofun
    · cases bridge <;> exact nofun
  | syncEnds account ready => exact nofun
  | delete accountId => exact nofun

theorem Wizard.unique (h : Wizard user db) : Unique user db := ⟨h.onceLive,h.onceConnecting,h.found⟩

theorem Initial.wizard (h : Initial user db) : Wizard user db := by
  have hnone : ∀ i a, db.row i = some a → ∀ statuses, isOf user .max statuses a = false := by
    intro i a ha statuses
    by_contra hmax
    obtain ⟨huser,htype,_⟩ := isOf_iff.mp (by simpa using hmax)
    rw [h i a ha huser] at htype
    cases htype
  refine ⟨Store.once_of_none fun i a ha => ?_,fun i a ha huser htype => ?_,
    Store.once_of_none fun i a ha => hnone i a ha _,Store.once_of_none fun i a ha => hnone i a ha _⟩
  · by_contra hwa
    simp only [Bool.not_eq_false,Bool.and_eq_true,decide_eq_true_eq] at hwa
    have htype := h i a ha hwa.1
    rw [hwa.2] at htype
    cases htype
  · rw [h i a ha huser] at htype
    cases htype

theorem not_unique_of_sync {i j : ℕ} {a b : Account} {f : Account → Account} (ha : db.row i = some a)
    (huser : (f a).userId = user) (htype : (f a).type = .max) (hstatus : (f a).status = .syncing)
    (hb : db.row j = some b) (hlive : isOf user .max liveStatuses b = true) (hij : j ≠ i) :
    ¬ Unique user (db.update i f) := by
  intro hunique
  have hi := Store.row_update_self (f := f) ha
  have hj : (db.update i f).row j = some b := by rw [Store.row_update_of_ne hij,hb]
  have hnew : isOf user .max liveStatuses (f a) = true := isOf_iff.mpr ⟨huser,htype,by simp [hstatus,liveStatuses]⟩
  exact hij (hunique.live .max (by simp) j i b (f a) hj hi hlive hnew)

theorem not_unique_of_not_meets {r : Request} (h : Wizard user db) (hm : ¬ Meets user db r) :
    ¬ Unique user (step user db r) := by
  cases r with
  | connectMaxStatus bridge =>
    cases bridge with
    | raised => exact absurd trivial hm
    | answered ok =>
      cases ok with
      | false => exact absurd trivial hm
      | true =>
        simp only [Meets,not_forall] at hm
        obtain ⟨⟨i,a⟩,hi,⟨j,b⟩,hj,hij⟩ := hm
        obtain ⟨ha,hconnecting⟩ := Store.mem_select.mp hi
        obtain ⟨hb,hlive⟩ := Store.mem_select.mp hj
        have hselect := h.connecting.select_eq ha hconnecting
        obtain ⟨huser,htype,_⟩ := isOf_iff.mp hconnecting
        have hstep : step user db (.connectMaxStatus (.answered true)) =
            db.update i fun a => (a.withCredentials (toString i)).withStatus .syncing := by
          simp only [step,handle,accountsConnectMaxStatus,connectStatus_eq _ h.connecting,hselect,
            List.head?_cons]
        rw [hstep]
        exact not_unique_of_sync ha huser htype rfl hb hlive hij
  | retrySync accountId bridge =>
    cases bridge with
    | raised => exact absurd trivial hm
    | answered ok =>
      simp only [Meets,not_forall] at hm
      obtain ⟨⟨i,a⟩,hfound,htype,⟨j,b⟩,hj,hij⟩ := hm
      have hfound : syncedAccount user db accountId = some (i,a) := hfound
      obtain ⟨hb,hlive⟩ := Store.mem_select.mp hj
      obtain ⟨ha,huser,_⟩ := syncedAccount_eq_some hfound
      have hstep : step user db (.retrySync accountId (.answered ok)) =
          db.update i (Account.withStatus .syncing) := by
        simp only [step,handle,accountsRetrySync,hfound]
      rw [hstep]
      exact not_unique_of_sync ha huser htype rfl hb hlive hij
  | connectWaPage => exact absurd trivial hm
  | connectMaxPage => exact absurd trivial hm
  | connectMaxStart phone => exact absurd trivial hm
  | connectWaStatus bridge => exact absurd trivial hm
  | syncEnds account ready => exact absurd trivial hm
  | delete accountId => exact absurd trivial hm

theorem mem_states_self (user : ℕ) (db : Accounts) (rs : List Request) : db ∈ states user db rs := by
  cases rs with
  | nil => exact List.mem_singleton.mpr rfl
  | cons r rs => exact List.mem_cons_self

theorem foldl_mem_states (user : ℕ) (db : Accounts) (rs : List Request) :
    rs.foldl (step user) db ∈ states user db rs := by
  induction rs generalizing db with
  | nil => exact List.mem_singleton.mpr rfl
  | cons r rs ih => exact List.mem_cons_of_mem _ (ih (step user db r))

theorem Wizard.unique_iff (h : Wizard user db) (rs : List Request) :
    (∀ d ∈ states user db rs, Unique user d) ↔ AllMeet user db rs := by
  induction rs generalizing db with
  | nil =>
    refine iff_of_true (fun d hd => ?_) trivial
    rw [List.mem_singleton.mp hd]
    exact h.unique
  | cons r rs ih =>
    constructor
    · intro hall
      have hmeets : Meets user db r := by
        by_contra hm
        exact not_unique_of_not_meets h hm
          (hall _ (List.mem_cons_of_mem _ (mem_states_self user _ rs)))
      exact ⟨hmeets,(ih (h.step hmeets)).mp fun d hd => hall d (List.mem_cons_of_mem _ hd)⟩
    · rintro ⟨hmeets,hrest⟩ d hd
      rcases List.mem_cons.mp hd with rfl | hd
      · exact h.unique
      · exact (ih (h.step hmeets)).mpr hrest d hd

/-- From no account on, the rows of the user are unique in every state of a run exactly when every request
of the run meets the condition. -/
theorem one_account_each_iff (user : ℕ) (db : Accounts) (h : Initial user db) (rs : List Request) :
    (∀ d ∈ states user db rs, Unique user d) ↔ AllMeet user db rs :=
  h.wizard.unique_iff rs

def noAccounts : Accounts := ⟨1,fun _ => none,fun _ _ => rfl⟩

instance allMeetDecidable (user : ℕ) (db : Accounts) (rs : List Request) : Decidable (AllMeet user db rs) :=
  match rs with
  | [] => .isTrue trivial
  | r::rs =>
    have := allMeetDecidable user (step user db r) rs
    inferInstanceAs (Decidable (Meets user db r ∧ AllMeet user (step user db r) rs))

theorem noAccounts_initial : Initial 7 noAccounts := by
  intro i a ha
  cases ha

/-- MAX is connected, its sync fails and is retried, and WhatsApp is connected too. -/
def bothConnected : List Request :=
  [.connectMaxPage,.connectMaxStart "79001112233",.connectMaxStatus (.answered true),.syncEnds 1 false,
    .retrySync 1 (.answered true),.syncEnds 1 true,.connectWaPage,.connectWaPage,
    .connectWaStatus (.answered true),.syncEnds 3 true]

theorem one_account_each_iff_bothConnected : AllMeet 7 noAccounts bothConnected ∧
    ∀ d ∈ states 7 noAccounts bothConnected, Unique 7 d := by
  have hmeet : AllMeet 7 noAccounts bothConnected := by decide
  exact ⟨hmeet,(one_account_each_iff 7 noAccounts noAccounts_initial bothConnected).mpr hmeet⟩

/-- Two tabs have the phone step open; the second starts when the account of the first is active. -/
def secondTab : List Request :=
  [.connectMaxPage,.connectMaxPage,.connectMaxStart "79001112233",.connectMaxStatus (.answered true),
    .syncEnds 1 true,.connectMaxStart "79001112233",.connectMaxStatus (.answered true)]

def afterSecondTab : Accounts := secondTab.foldl (step 7) noAccounts

theorem two_max_accounts : ¬ ∀ (user : ℕ) (db : Accounts) (rs : List Request), Initial user db →
    ∀ d ∈ states user db rs, Unique user d := by
  intro hall
  have hmem : afterSecondTab ∈ states 7 noAccounts secondTab := foldl_mem_states 7 noAccounts secondTab
  have hunique := hall 7 noAccounts secondTab noAccounts_initial afterSecondTab hmem
  exact hunique.found .connectMaxPage rfl

end ConnectWizard
end Broadcaster
