import Broadcaster.ConnectWizard
import Broadcaster.Interleaving

/-!
# Who finishes a group sync

The status polls of the connect wizards and the retry commit the status
`syncing` and dispatch a sync task afterwards; `_sync_groups_async` takes the
status back. One move is what a handler or a task does up to its next call of
the bridge, of the broker or of the database. The status is the only column of
an account that these steps decide on.
-/

namespace Broadcaster
namespace GroupSync

open Interleaving ConnectWizard

/-- The accounts, and the sync tasks that wait in the broker, each by the id it was dispatched for. -/
structure Db where
  accounts : Accounts
  queue : List ℕ

def maxPolls : ℕ := 40

/-- What `get_sync_status` does: the field `state` of its answer, if it has one. -/
inductive SyncStatus
  | raised | answered (state : Option String)
  deriving DecidableEq

inductive Pc
  /-- `accounts_connect_wa_status` or `accounts_connect_max_status` -/
  | connectStatus (type : AccountType) (user : ℕ)
  | checking (account : ℕ)
  | retrySync (user : ℕ) (accountId : ℤ)
  /-- in `retry_sync` of the bridge, with the status that was loaded -/
  | retrying (account : ℕ) (loaded : AccountStatus)
  | dispatching (account : ℕ)
  | ended
  | worker
  | polling (account attempt : ℕ)
  | ready (account : ℕ)
  | applying (account : ℕ)
  /-- The bridge has failed, the time is up or something was raised; the account has still to be loaded. -/
  | failed (account : ℕ)
  | failing (account : ℕ)
  deriving DecidableEq

structure Input where
  bridge : Bridge
  sent : Bool
  task : ℕ
  poll : SyncStatus
  applied : Bool

def Db.write (db : Db) (account : ℕ) (f : Account → Account) : Db :=
  { db with accounts := db.accounts.update account f }

def Db.setStatus (db : Db) (account : ℕ) (status : AccountStatus) : Db :=
  db.write account (Account.withStatus status)

def Db.isSyncing (db : Db) (account : ℕ) : Bool :=
  (db.accounts.row account).any fun a => a.status = .syncing

/-- The bridge has answered a poll with one of its final failures. -/
def failedStates : List String := ["failed","not_found","unknown"]

def afterPoll (account attempt : ℕ) : SyncStatus → Pc
  | .raised => .failed account
  | .answered state =>
    if state = some "ready" then .ready account
    else if state.any failedStates.contains then .failed account
    else if attempt+1 < maxPolls then .polling account (attempt+1)
    else .failed account

def step (db : Db) (pc : Pc) (inp : Input) : Option (Db × Pc) :=
  match pc with
  | .connectStatus type user =>
    match scalarOneOrNone (db.accounts.select (isOf user type [.connecting])) with
    | .ok (some (account,_)) => some (db,.checking account)
    | .ok none | .error _ => some (db,.ended)
  | .checking account =>
    match inp.bridge with
    | .answered true =>
      some (db.write account fun a => (a.withCredentials (toString account)).withStatus .syncing,
        .dispatching account)
    | .answered false | .raised => some (db,.ended)
  | .retrySync user accountId =>
    match syncedAccount user db.accounts accountId with
    | some (account,a) => some (db,.retrying account a.status)
    | none => some (db,.ended)
  | .retrying account loaded =>
    match inp.bridge with
    | .raised => some (db,.ended)
    -- a value that has not changed is not written
    | .answered _ =>
      some (if loaded = .syncing then db else db.setStatus account .syncing,.dispatching account)
  | .dispatching account =>
    some (if inp.sent then { db with queue := db.queue ++ [account] } else db,.ended)
  | .worker =>
    match db.queue[inp.task]? with
    | some account => some ({ db with queue := db.queue.eraseIdx inp.task },.polling account 0)
    | none => none
  | .polling account attempt => some (db,afterPoll account attempt inp.poll)
  | .ready account => some (db,if db.isSyncing account then .applying account else .worker)
  | .applying account =>
    if inp.applied then some (db.setStatus account .active,.worker) else some (db,.failed account)
  | .failed account => some (db,if db.isSyncing account then .failing account else .worker)
  | .failing account => some (db.setStatus account .syncFailed,.worker)
  | .ended => none

def machine : Machine Db Pc Input where
  step := fun db _ pc inp => step db pc inp

def Pc.handles : Pc → Option ℕ
  | .checking account | .retrying account _ | .dispatching account => some account
  | _ => none

def Pc.syncs : Pc → Option ℕ
  | .polling account _ | .ready account | .applying account | .failed account | .failing account =>
    some account
  | _ => none

/-- The account that the process is still going to finish, or to dispatch a task for. -/
def Pc.attends : Pc → Option ℕ
  | .dispatching account => some account
  | pc => pc.syncs

def Finished (c : Config Db Pc) : Prop := ∀ account, c.db.isSyncing account = true →
  (∃ p, (c.pc p).handles = some account) ∨ account ∈ c.db.queue ∨ ∃ p, (c.pc p).syncs = some account

def Pc.isStart : Pc → Bool
  | .connectStatus _ _ | .retrySync _ _ | .worker | .ended => true
  | _ => false

/-- Handlers are still to come, and a task waits for every account that is syncing. -/
structure Initial (c : Config Db Pc) : Prop where
  starts : ∀ p, (c.pc p).isStart = true
  queued : ∀ account, c.db.isSyncing account = true → account ∈ c.db.queue

/-- `send_task` does not raise when the account is syncing and nobody else attends to it. -/
def dispatches (c : Config Db Pc) (m : Move Input) : Prop :=
  ∀ account, c.pc m.1 = .dispatching account → m.2.sent = false → c.db.isSyncing account = true →
    account ∈ c.db.queue ∨ ∃ p, p ≠ m.1 ∧ (c.pc p).attends = some account

variable {db db' : Db} {pc pc' : Pc} {inp : Input} {account i : ℕ} {status : AccountStatus}

theorem isSyncing_write_of_ne {f : Account → Account} (h : i ≠ account) :
    (db.write account f).isSyncing i = db.isSyncing i := by
  rw [Db.isSyncing,Db.write,Store.row_update_of_ne h,Db.isSyncing]

theorem isSyncing_setStatus_self (h : status ≠ .syncing) :
    (db.setStatus account status).isSyncing account = false := by
  rw [Db.isSyncing,Db.setStatus,Db.write]
  cases hrow : db.accounts.row account with
  | none =>
    rw [Store.update,Store.row_rewrite,hrow]
    rfl
  | some a =>
    rw [Store.row_update_self hrow]
    simpa [Account.withStatus] using h

theorem syncs_afterPoll (attempt : ℕ) (poll : SyncStatus) :
    (afterPoll account attempt poll).syncs = some account := by
  cases poll with
  | raised => rfl
  | answered state =>
    simp only [afterPoll]
    split
    · rfl
    · split
      · rfl
      · split <;> rfl

theorem attends_of_syncs (h : pc.syncs = some account) : pc.attends = some account := by
  cases pc with
  | dispatching a => cases h
  | _ => exact h

theorem afterPoll_attends (attempt : ℕ) (poll : SyncStatus) :
    (afterPoll account attempt poll).attends = some account := attends_of_syncs (syncs_afterPoll attempt poll)

/-- After a step that leaves the account syncing: the mover attends to it, or it was syncing before and the
mover has taken nothing away from it, or the mover has failed to dispatch a task for it. -/
inductive Leaves (db : Db) (inp : Input) (i : ℕ) (pc : Pc) (db' : Db) (pc' : Pc) : Prop
  | attended (h : pc'.attends = some i)
  | queued (h : i ∈ db'.queue)
  | untouched (hbefore : db.isSyncing i = true) (hpc : pc.attends ≠ some i)
    (hqueue : i ∈ db.queue → i ∈ db'.queue)
  | undispatched (hpc : pc = .dispatching i) (hsent : inp.sent = false) (hdb : db' = db)

theorem leaves_of_write {f : Account → Account} (hpc : pc.attends = none ∨ pc.attends = some account)
    (hwrite : pc'.attends = some account ∨ (db.write account f).isSyncing account = false)
    (hi : (db.write account f).isSyncing i = true) : Leaves db inp i pc (db.write account f) pc' := by
  by_cases hia : i = account
  · subst hia
    rcases hwrite with hattends | hnot
    · exact .attended hattends
    · rw [hnot] at hi
      cases hi
  · rw [isSyncing_write_of_ne hia] at hi
    refine .untouched hi ?_ fun hq => hq
    rcases hpc with hnone | hsome
    · rw [hnone]
      exact nofun
    · rw [hsome]
      exact fun h => hia (Option.some.inj h).symm

theorem leaves_of_quiet (hpc : pc.attends = none ∨ ∃ account, pc.attends = some account ∧
      (pc'.attends = some account ∨ db.isSyncing account = false))
    (hi : db.isSyncing i = true) : Leaves db inp i pc db pc' := by
  rcases hpc with hnone | ⟨account,hsome,hstays⟩
  · exact .untouched hi (by rw [hnone]; exact nofun) fun hq => hq
  · by_cases hia : i = account
    · subst hia
      rcases hstays with hattends | hnot
      · exact .attended hattends
      · rw [hnot] at hi
        cases hi
    · refine .untouched hi ?_ fun hq => hq
      rw [hsome]
      exact fun h => hia (Option.some.inj h).symm

theorem leaves_of_load (hpc : pc.attends = some account) (hgoes : pc'.attends = some account)
    (hi : db.isSyncing i = true) : Leaves db inp i pc db (if db.isSyncing account then pc' else .worker) := by
  refine leaves_of_quiet (.inr ⟨account,hpc,?_⟩) hi
  cases hs : db.isSyncing account with
  | true => exact .inl hgoes
  | false => exact .inr rfl

theorem leaves_of_step (h : step db pc inp = some (db',pc')) (hi : db'.isSyncing i = true) :
    Leaves db inp i pc db' pc' := by
  cases pc with
  | connectStatus type user =>
    simp only [step] at h
    split at h <;> cases h <;> exact leaves_of_quiet (.inl rfl) hi
  | checking account =>
    simp only [step] at h
    split at h
    · cases h
      exact leaves_of_write (.inl rfl) (.inl rfl) hi
    · cases h
      exact leaves_of_quiet (.inl rfl) hi
    · cases h
      exact leaves_of_quiet (.inl rfl) hi
  | retrySync user accountId =>
    simp only [step] at h
    split at h <;> cases h <;> exact leaves_of_quiet (.inl rfl) hi
  | retrying account loaded =>
    simp only [step] at h
    split at h
    · cases h
      exact leaves_of_quiet (.inl rfl) hi
    · cases h
      split at hi
      · rename_i hloaded
        rw [if_pos hloaded]
        exact leaves_of_quiet (.inl rfl) hi
      · rename_i hloaded
        rw [if_neg hloaded]
        exact leaves_of_write (.inl rfl) (.inl rfl) hi
  | dispatching account =>
    simp only [step,Option.some.injEq,Prod.mk.injEq] at h
    obtain ⟨rfl,rfl⟩ := h
    cases hsent : inp.sent with
    | true =>
      rw [hsent,if_pos rfl] at hi
      by_cases hia : i = account
      · exact .queued (by simp [hia])
      · refine .untouched hi (fun h => hia (Option.some.inj h).symm) fun hq => ?_
        simp [hq]
    | false =>
      rw [hsent,if_neg Bool.false_ne_true] at hi
      rw [if_neg Bool.false_ne_true]
      by_cases hia : i = account
      · exact .undispatched (by rw [hia]) hsent rfl
      · exact .untouched hi (fun h => hia (Option.some.inj h).symm) fun hq => hq
  | worker =>
    simp only [step] at h
    split at h
    · rename_i account htask
      cases h
      by_cases hia : i = account
      · exact .attended (by rw [hia]; rfl)
      · refine .untouched hi nofun fun hq => ?_
        obtain ⟨j,hj⟩ := List.mem_iff_getElem?.mp hq
        refine List.mem_eraseIdx_iff_getElem?.mpr ⟨j,?_,hj⟩
        rintro rfl
        rw [htask] at hj
        exact hia (Option.some.inj hj).symm
    · cases h
  | polling account attempt =>
    cases h
    exact leaves_of_quiet (.inr ⟨account,rfl,.inl (afterPoll_attends attempt inp.poll)⟩) hi
  | ready account =>
    cases h
    exact leaves_of_load rfl rfl hi
  | applying account =>
    simp only [step] at h
    split at h
    · cases h
      exact leaves_of_write (.inr rfl) (.inr (isSyncing_setStatus_self nofun)) hi
    · cases h
      exact leaves_of_quiet (.inr ⟨account,rfl,.inl rfl⟩) hi
  | failed account =>
    cases h
    exact leaves_of_load rfl rfl hi
  | failing account =>
    cases h
    exact leaves_of_write (.inr rfl) (.inr (isSyncing_setStatus_self nofun)) hi
  | ended => cases h

/-- Every syncing account waits in the broker or has somebody who attends to it. -/
def Attended (c : Config Db Pc) : Prop := ∀ account, c.db.isSyncing account = true →
  account ∈ c.db.queue ∨ ∃ p, (c.pc p).attends = some account

theorem Attended.next {c c' : Config Db Pc} {m : Move Input} (hc : Attended c) (hg : dispatches c m)
    (h : next machine c m = some c') : Attended c' := by
  obtain ⟨db,pc,hs,rfl⟩ := next_eq_some.mp h
  intro account hi
  have hothers : ∀ p, p ≠ m.1 → (c.pc p).attends = some account →
      ∃ p, (Function.update c.pc m.1 pc p).attends = some account := by
    intro p hp hattends
    exact ⟨p,by rwa [Function.update_of_ne hp]⟩
  cases leaves_of_step hs hi with
  | attended hattends => exact .inr ⟨m.1,by simpa using hattends⟩
  | queued hq => exact .inl hq
  | untouched hbefore hpc hqueue =>
    rcases hc account hbefore with hq | ⟨p,hp⟩
    · exact .inl (hqueue hq)
    · refine .inr (hothers p ?_ hp)
      rintro rfl
      exact hpc hp
  | undispatched hpc hsent hdb =>
    subst hdb
    rcases hg account hpc hsent hi with hq | ⟨p,hp,hattends⟩
    · exact .inl hq
    · exact .inr (hothers p hp hattends)

theorem Attended.finished {c : Config Db Pc} (hc : Attended c) : Finished c := by
  intro account hi
  rcases hc account hi with hq | ⟨p,hp⟩
  · exact .inr (.inl hq)
  · cases hpc : c.pc p with
    | dispatching a =>
      rw [hpc] at hp
      exact .inl ⟨p,by rw [hpc]; exact hp⟩
    | _ =>
      rw [hpc] at hp
      exact .inr (.inr ⟨p,by rw [hpc]; exact hp⟩)

/-- Under the condition no account stays syncing when its handlers and its tasks have ended. -/
theorem syncing_account_finished {a b : Config Db Pc} (ha : Initial a)
    (hab : Reaches machine dispatches a b) : Finished b := by
  have hstart : Attended a := fun account hi => .inl (ha.queued account hi)
  exact (hab.invariant (fun _ _ _ hc hg hm => hc.next hg hm) hstart).finished

def oneTab : Config Db Pc where
  db := ⟨noAccounts.insert (pendingAccount 7 .wa "pending"),[]⟩
  pc := fun
    | 0 => .connectStatus .wa 7
    | 1 => .worker
    | _ => .ended

theorem oneTab_initial : Initial oneTab := by
  refine ⟨fun p => ?_,fun account hi => ?_⟩
  · unfold oneTab
    rcases p with _ | _ | p <;> rfl
  · have hnot : oneTab.db.isSyncing account = false := by
      rcases account with _ | _ | account
      · rfl
      · rfl
      · simp [oneTab,Db.isSyncing,Store.insert,noAccounts]
    rw [hnot] at hi
    cases hi

def pollMove (p : ℕ) (sent : Bool) (state : String) : Move Input := (p,{
  bridge := .answered true
  sent := sent
  task := 0
  poll := .answered (some state)
  applied := true })

def sends (_ : Config Db Pc) (m : Move Input) : Prop := m.2.sent = true

instance (c : Config Db Pc) (m : Move Input) : Decidable (sends c m) := by
  unfold sends
  infer_instance

theorem dispatches_of_sends (c : Config Db Pc) (m : Move Input) (h : sends c m) : dispatches c m := by
  intro account _ hnot
  rw [show m.2.sent = true from h] at hnot
  cases hnot

def synced : Config Db Pc := after machine sends oneTab
  [pollMove 0 true "",pollMove 0 true "",pollMove 0 true "",pollMove 1 true "",pollMove 1 true "syncing",
    pollMove 1 true "ready",pollMove 1 true "",pollMove 1 true ""]

theorem syncing_account_finished_synced :
    (synced.db.accounts.row 1).map Account.status = some .active ∧ Finished synced :=
  ⟨by decide,syncing_account_finished oneTab_initial ((reaches_after _ _ _ _).mono dispatches_of_sends)⟩

/-- The broker is away when the poll has committed the status. -/
def undispatched : Config Db Pc := after machine anyMove oneTab
  [pollMove 0 true "",pollMove 0 true "",pollMove 0 false ""]

theorem syncing_forever : ¬ ∀ a b : Config Db Pc, Initial a → Reaches machine anyMove a b → Finished b := by
  intro hall
  have hfinished := hall oneTab undispatched oneTab_initial (reaches_after _ _ _ _) 1 (by decide)
  have hidle : ∀ p, undispatched.pc p = .ended ∨ undispatched.pc p = .worker := by
    intro p
    rcases p with _ | _ | p
    · exact .inl rfl
    · exact .inr rfl
    · exact .inl rfl
  rcases hfinished with ⟨p,hp⟩ | hq | ⟨p,hp⟩
  · rcases hidle p with hpc | hpc <;> rw [hpc] at hp <;> cases hp
  · cases hq
  · rcases hidle p with hpc | hpc <;> rw [hpc] at hp <;> cases hp

end GroupSync
end Broadcaster
