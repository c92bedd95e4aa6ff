import Broadcaster.Interleaving
import Broadcaster.ResyncFuse

/-!
# Resyncs of the groups that run at the same time

The button on the groups page runs a resync within the request, under a claim in
`_SYNC_IN_FLIGHT` of the web process; the background tasks for WhatsApp and MAX
run theirs without it. A resync reads the rows of the account, goes over the
answer of the messenger in memory and writes what has changed at its COMMIT.
-/

namespace Broadcaster
namespace ResyncRaces

open Interleaving Python ScheduleService GroupResync
open ScheduleSystem (GroupResyncResult)

/-- A row of `messenger_accounts`, as far as a resync reads and writes it. -/
structure AccountRow where
  userId : ℕ
  type : String
  status : String
  lastSyncedAt : Option Instant
  lastSyncResult : Option GroupResyncResult
  deriving DecidableEq

def AccountRow.account (a : ℕ) (row : AccountRow) : Account :=
  ⟨a,row.userId,row.lastSyncedAt,row.lastSyncResult⟩

/-- The last three fields are written for the statements only. -/
structure Db where
  groups : Store GroupRow
  accounts : ℕ → Option AccountRow
  syncInFlight : List ℕ
  /-- the names by external id of the last answer that has been applied and committed, and the time -/
  told : ℕ → Option (List (String × String) × Instant)
  /-- the groups deleted since the rows were read for that answer -/
  deleted : ℕ → List String
  /-- the groups deleted since the rows were last read -/
  meanwhile : ℕ → List String

inductive Caller
  | page
  /-- `_sync_groups_async` -/
  | task
  deriving DecidableEq

inductive Pc
  | idle
  /-- in `get_groups`; the row of the account has been loaded -/
  | getGroups (a : ℕ) (account : AccountRow)
  /-- before the SELECT of `apply_group_resync` -/
  | resync (caller : Caller) (a : ℕ) (account : AccountRow) (fetched : Json)
  | commit (caller : Caller) (a : ℕ) (account : AccountRow) (fetched : Json) (loaded : Store GroupRow)
  | failing (a : ℕ) (account : AccountRow) (message : String)
  /-- after an `IntegrityError` -/
  | rollback (a : ℕ)
  /-- in the outer `finally` -/
  | leaving (a : ℕ)
  | taskFailed (a : ℕ) (message : String)
  | taskFailing (a : ℕ) (account : AccountRow) (message : String)

/-- What an idle process sets about; the last five are done at once. -/
inductive Request
  | syncGroups (a : ℕ)
  | taskReady (a : ℕ) (groups : Json)
  | taskFails (a : ℕ) (message : String)
  | setActive (i : ℕ) (isActive : Bool)
  | setError (i : ℕ) (lastError : Option String) (errorAt : Option Instant)
  | setStatus (a : ℕ) (status : String)
  | deleteGroup (i : ℕ)
  | deleteAccount (a : ℕ)

inductive Fetch
  | groups (fetched : Json)
  | fetchError (text : String)
  | raised

structure Input where
  request : Request
  fetch : Fetch
  now : Instant
  /-- The request is cancelled or the statement raises; for a COMMIT, an UPDATE that meets no row counts. -/
  raises : Bool

def unexpectedFailureMessage : String := "Синхронизация не удалась из-за внутренней ошибки — повторите попытку"

def conflictMessage : String := "Синхронизация уже выполнялась — откройте экран заново"

/-- `str(e) or e.__class__.__name__` -/
def fetchErrorText (text : String) : String := if text = "" then "MessengerFetchError" else text

/-- A column of an object that is set to `value`; what has not changed is not written. -/
def column {α : Type} [DecidableEq α] (loaded value current : α) : α := if value = loaded then current else value

@[simp] theorem column_self {α : Type} [DecidableEq α] (value current : α) : column current value current = value := by
  unfold column
  split <;> simp_all

/-- The UPDATE of a group that has been loaded and gone over. -/
def updated (loaded value current : GroupRow) : GroupRow :=
  { current with
    name := column loaded.name value.name current.name
    missingSince := column loaded.missingSince value.missingSince current.missingSince }

def updateGroups (a : ℕ) (loaded value current : Store GroupRow) : Store GroupRow :=
  current.rewrite fun i g => some (match loaded.row i, value.row i with
    | some l, some v => if l.accountId = a then updated l v g else g
    | _, _ => g)

def added (loaded value : Store GroupRow) : List GroupRow :=
  (value.rows.filter fun r => loaded.size ≤ r.1).map Prod.snd

def insertGroups (groups : Store GroupRow) : List GroupRow → Option (Store GroupRow)
  | [] => some groups
  | g::gs =>
    if (groups.select fun h => h.accountId = g.accountId && h.groupExternalId = g.groupExternalId).isEmpty then
      insertGroups (groups.insert g) gs
    else none

variable (repr : Json → String)

def applied (a : ℕ) (account : AccountRow) (fetched : Json) (loaded : Store GroupRow) (now : Instant) :
    State × GroupResyncResult :=
  applyGroupResync repr ⟨loaded,.empty Schedule,account.account a⟩ fetched account.type false now

def names : Json → List (String × String)
  | .arr items => answer repr items
  | _ => []

def written (db : Db) (caller : Caller) (a : ℕ) (account row : AccountRow) (fetched : Json) (now : Instant)
    (r : State × GroupResyncResult) (groups : Store GroupRow) : Db :=
  { db with
    groups := groups
    accounts := Function.update db.accounts a (some { row with
      status := if caller = .task then column account.status "active" row.status else row.status
      lastSyncedAt := column account.lastSyncedAt r.1.account.lastSyncedAt row.lastSyncedAt
      lastSyncResult := column account.lastSyncResult r.1.account.lastSyncResult row.lastSyncResult })
    told := if r.2.error = none then Function.update db.told a (some (names repr fetched,now)) else db.told
    deleted := if r.2.error = none then Function.update db.deleted a (db.meanwhile a) else db.deleted }

def recordSyncFailure (db : Db) (a : ℕ) (account : AccountRow) (message : String) (status : Option String) : Db :=
  match db.accounts a with
  | none => db
  | some row =>
    { db with accounts := Function.update db.accounts a (some { row with
        status := (status.map fun status => column account.status status row.status).getD row.status
        lastSyncResult := column account.lastSyncResult (some ⟨0,0,0,0,some message⟩) row.lastSyncResult }) }

def deleteGroups (db : Db) (p : ℕ → GroupRow → Bool) : Db :=
  let gone := fun a => ((groupsOf db.groups a).filter fun r => p r.1 r.2).map fun r => r.2.groupExternalId
  { db with
    groups := db.groups.deleteWhere p
    deleted := fun a => gone a++db.deleted a
    meanwhile := fun a => gone a++db.meanwhile a }

def begin (db : Db) : Request → Db × Pc
  | .syncGroups a =>
    match db.accounts a with
    | none => (db,.idle)
    | some account =>
      if account.type ≠ "tg_user" ∧ account.type ≠ "wa" ∧ account.type ≠ "max" then (db,.idle)
      else if account.status = "syncing" then (db,.idle)
      else if a ∈ db.syncInFlight then (db,.idle)
      else ({ db with syncInFlight := a::db.syncInFlight },.getGroups a account)
  | .taskReady a groups =>
    match db.accounts a with
    | none => (db,.idle)
    | some account =>
      if account.status = "syncing" then (db,.resync .task a account (if groups.truthy then groups else .arr []))
      else (db,.idle)
  | .taskFails a message => (db,.taskFailed a message)
  | .setActive i isActive => ({ db with groups := db.groups.update i fun g => { g with isActive := isActive } },.idle)
  | .setError i lastError errorAt =>
    ({ db with groups := db.groups.update i fun g => { g with lastError := lastError, errorAt := errorAt } },.idle)
  | .setStatus a status => ({ db with
      accounts := Function.update db.accounts a ((db.accounts a).map fun row => { row with status := status }) },.idle)
  | .deleteGroup i => (deleteGroups db fun j _ => j = i,.idle)
  | .deleteAccount a => ({ deleteGroups db fun _ g => g.accountId = a with
      accounts := Function.update db.accounts a none },.idle)

def Caller.raised (a : ℕ) : Caller → Pc
  | .page => .leaving a
  | .task => .taskFailed a unexpectedFailureMessage

def Caller.conflict (a : ℕ) : Caller → Pc
  | .page => .rollback a
  | .task => .taskFailed a unexpectedFailureMessage

def Caller.done (a : ℕ) : Caller → Pc
  | .page => .leaving a
  | .task => .idle

def step (db : Db) (pc : Pc) (inp : Input) : Db × Pc :=
  match pc with
  | .idle => begin db inp.request
  | .getGroups a account =>
    (db,if inp.raises then .leaving a else match inp.fetch with
      | .groups fetched => .resync .page a account fetched
      | .fetchError text => .failing a account (fetchErrorText text)
      | .raised => .failing a account unexpectedFailureMessage)
  | .resync caller a account fetched =>
    if inp.raises then (db,caller.raised a)
    else ({ db with meanwhile := Function.update db.meanwhile a [] },.commit caller a account fetched db.groups)
  | .commit caller a account fetched loaded =>
    if inp.raises then (db,caller.raised a)
    else
      match db.accounts a with
      | none => (db,caller.raised a)
      | some row =>
        let r := applied repr a account fetched loaded inp.now
        match insertGroups (updateGroups a loaded r.1.groups db.groups) (added loaded r.1.groups) with
        | none => (db,caller.conflict a)
        | some groups => (written repr db caller a account row fetched inp.now r groups,caller.done a)
  | .failing a account message =>
    (if inp.raises then db else recordSyncFailure db a account message none,.leaving a)
  | .rollback a => (db,if inp.raises then .leaving a else match db.accounts a with
      | none => .leaving a
      | some row => .failing a row conflictMessage)
  | .leaving a => ({ db with syncInFlight := db.syncInFlight.erase a },.idle)
  | .taskFailed a message => (db,if inp.raises then .idle else match db.accounts a with
      | none => .idle
      | some row => if row.status = "syncing" then .taskFailing a row message else .idle)
  | .taskFailing a account message =>
    (if inp.raises then db else recordSyncFailure db a account message (some "sync_failed"),.idle)

def machine : Machine Db Pc Input where
  step := fun db _ pc inp => some (step repr db pc inp)

/-- The second table comes of the first by statements: a group keeps its account and external id, and an id is not
given out twice. -/
structure Kept (s s' : Store GroupRow) : Prop where
  size : s.size ≤ s'.size
  same : ∀ i g g', s.row i = some g → s'.row i = some g' →
    g'.accountId = g.accountId ∧ g'.groupExternalId = g.groupExternalId
  gone : ∀ i, i < s.size → s.row i = none → s'.row i = none

section Kept

variable {s s' s'' : Store GroupRow} {f : ℕ → GroupRow → Option GroupRow} {g : GroupRow} {gs : List GroupRow}

theorem Kept.refl (s : Store GroupRow) : Kept s s := by
  refine ⟨le_refl _,fun i g g' hg hg' => ?_,fun _ _ h => h⟩
  rw [hg] at hg'
  obtain rfl := Option.some.inj hg'
  exact ⟨rfl,rfl⟩

theorem Kept.trans (h : Kept s s') (h' : Kept s' s'') : Kept s s'' := by
  refine ⟨h.size.trans h'.size,fun i g g'' hg hg'' => ?_,fun i hi hnone => ?_⟩
  · cases hrow : s'.row i with
    | none =>
      rw [h'.gone i ((Store.row_lt hg).trans_le h.size) hrow] at hg''
      cases hg''
    | some g' =>
      obtain ⟨ha,hid⟩ := h.same i g g' hg hrow
      obtain ⟨ha',hid'⟩ := h'.same i g' g'' hrow hg''
      exact ⟨ha'.trans ha,hid'.trans hid⟩
  · exact h'.gone i (hi.trans_le h.size) (h.gone i hi hnone)

theorem Kept.rewrite (hf : ∀ i g g', f i g = some g' →
    g'.accountId = g.accountId ∧ g'.groupExternalId = g.groupExternalId) : Kept s (s.rewrite f) := by
  refine ⟨le_refl _,fun i g g' hg hg' => ?_,fun i _ hnone => ?_⟩
  · rw [Store.row_rewrite,hg] at hg'
    exact hf i g g' hg'
  · rw [Store.row_rewrite,hnone]
    rfl

theorem Kept.insert (s : Store GroupRow) (g : GroupRow) : Kept s (s.insert g) := by
  have hold : ∀ i, i < s.size → (s.insert g).row i = s.row i := fun i hi => Function.update_of_ne hi.ne _ _
  refine ⟨Nat.le_succ _,fun i h h' hh hh' => ?_,fun i hi hnone => ?_⟩
  · rw [hold i (Store.row_lt hh),hh] at hh'
    obtain rfl := Option.some.inj hh'
    exact ⟨rfl,rfl⟩
  · rw [hold i hi,hnone]

theorem insertGroups_eq (h : insertGroups s gs = some s') : s' = s.insertAll gs := by
  induction gs generalizing s with
  | nil => exact (Option.some.inj h).symm
  | cons g gs ih =>
    simp only [insertGroups] at h
    split at h
    · exact ih h
    · cases h

theorem Kept.insertAll (s : Store GroupRow) (gs : List GroupRow) : Kept s (s.insertAll gs) := by
  induction gs generalizing s with
  | nil => exact Kept.refl s
  | cons g gs ih => exact (Kept.insert s g).trans (ih (s.insert g))

theorem distinct_insertGroups (hs : ∀ a, DistinctIds s a) (h : insertGroups s gs = some s') :
    ∀ a, DistinctIds s' a := by
  induction gs generalizing s with
  | nil => exact Option.some.inj h ▸ hs
  | cons g gs ih =>
    simp only [insertGroups] at h
    split at h
    · rename_i hfree
      refine ih (fun a => ?_) h
      have hnone : ∀ i h, s.row i = some h → h.accountId = g.accountId →
          h.groupExternalId ≠ g.groupExternalId := by
        intro i h hh ha hid
        have hmem : (i,h) ∈ s.select fun h => h.accountId = g.accountId && h.groupExternalId = g.groupExternalId :=
          Store.mem_select.mpr ⟨hh,by simp [ha,hid]⟩
        rw [List.isEmpty_iff.mp hfree] at hmem
        cases hmem
      intro i j u v hi hj hu hv hid
      rcases Store.row_insert.mp hi with ⟨hsize,rfl⟩ | hold
      · rcases Store.row_insert.mp hj with ⟨hsize',_⟩ | hold'
        · exact hsize.trans hsize'.symm
        · exact absurd hid.symm (hnone j v hold' (hv.trans hu.symm))
      · rcases Store.row_insert.mp hj with ⟨_,rfl⟩ | hold'
        · exact absurd hid (hnone i u hold (hu.trans hv.symm))
        · exact hs a i j u v hold hold' hu hv hid
    · cases h

theorem insertGroups_of_new (hnew : ∀ g ∈ gs, ∀ i h, s.row i = some h → h.accountId = g.accountId →
      h.groupExternalId ≠ g.groupExternalId)
    (hpairwise : gs.Pairwise fun g h => g.accountId = h.accountId → g.groupExternalId ≠ h.groupExternalId) :
    insertGroups s gs = some (s.insertAll gs) := by
  induction gs generalizing s with
  | nil => rfl
  | cons g gs ih =>
    obtain ⟨hg,hpairwise⟩ := List.pairwise_cons.mp hpairwise
    have hfree : (s.select fun h => h.accountId = g.accountId && h.groupExternalId = g.groupExternalId).isEmpty := by
      rw [List.isEmpty_iff,Store.select_eq_nil]
      intro i h hh
      by_cases ha : h.accountId = g.accountId
      · simp [hnew g List.mem_cons_self i h hh ha]
      · simp [ha]
    rw [insertGroups,if_pos hfree]
    refine ih (fun k hk i h hh ha => ?_) hpairwise
    rcases Store.row_insert.mp hh with ⟨rfl,rfl⟩ | hh
    · exact hg k hk ha
    · exact hnew k (List.mem_cons_of_mem _ hk) i h hh ha

theorem mem_added : g ∈ added s s' ↔ ∃ i, s.size ≤ i ∧ s'.row i = some g := by
  simp only [added,List.mem_map,List.mem_filter,decide_eq_true_iff,Prod.exists,exists_eq_right]
  refine exists_congr fun i => ?_
  have hmem : (i,g) ∈ s'.rows ↔ s'.row i = some g := by
    have h := Store.mem_select (s := s') (i := i) (r := g) (p := fun _ => true)
    simpa [Store.select] using h
  rw [hmem,and_comm]

theorem added_pairwise {a : ℕ} (hdistinct : DistinctIds s' a) (hmem : ∀ g ∈ added s s', g.accountId = a) :
    (added s s').Pairwise fun g h => g.accountId = h.accountId → g.groupExternalId ≠ h.groupExternalId := by
  have hids : (s'.rows.map Prod.fst).Nodup := by
    rw [Store.rows_ids]
    exact List.nodup_range.filter _
  have hrows := (List.pairwise_map.mp hids).filter fun r => s.size ≤ r.1
  refine List.pairwise_map.mpr (hrows.imp_of_mem fun {r q} hr hq hne _ hid => ?_)
  have hrow : ∀ r ∈ s'.rows.filter fun r => s.size ≤ r.1, s'.row r.1 = some r.2 ∧ r.2.accountId = a := by
    intro r hr
    have hr' : r ∈ s'.select fun _ => true := by
      simpa [Store.select] using (List.mem_filter.mp hr).1
    exact ⟨(Store.mem_select.mp hr').1,hmem r.2 (List.mem_map_of_mem hr)⟩
  obtain ⟨hr,hra⟩ := hrow r hr
  obtain ⟨hq,hqa⟩ := hrow q hq
  exact hne (hdistinct r.1 q.1 r.2 q.2 hr hq hra hqa hid)

end Kept

section Applied

variable {repr} {a b : ℕ} {account : AccountRow} {fetched : Json} {loaded groups : Store GroupRow} {now : Instant}
  {items : List Json} {s : State} {g : GroupRow}

theorem kept_resyncItem (account : Account) (messengerType : String) (existing : List (ℕ × GroupRow)) (r : Resync)
    (item : Json) : Kept r.groups (resyncItem repr account messengerType existing r item).groups := by
  rw [resyncItem_eq]
  cases usable repr item with
  | none => exact Kept.refl _
  | some p =>
    simp only [visit]
    split
    · exact Kept.refl _
    · split
      · exact Kept.insert _ _
      · refine Kept.rewrite fun j g g' h => ?_
        obtain rfl := Option.some.inj h
        split <;> exact ⟨rfl,rfl⟩

theorem kept_foldl (account : Account) (messengerType : String) (existing : List (ℕ × GroupRow)) (r : Resync)
    (items : List Json) :
    Kept r.groups (items.foldl (resyncItem repr account messengerType existing) r).groups := by
  induction items generalizing r with
  | nil => exact Kept.refl _
  | cons item items ih => exact (kept_resyncItem account messengerType existing r item).trans (ih _)

theorem kept_applied : Kept loaded (applied repr a account fetched loaded now).1.groups := by
  cases fetched with
  | arr items =>
    have hloop : Kept loaded (items.foldl (resyncItem repr (account.account a) account.type (groupsOf loaded a))
        ⟨loaded,[],0,0⟩).groups := kept_foldl (account.account a) account.type (groupsOf loaded a) ⟨loaded,[],0,0⟩ items
    simp only [applied,applyGroupResync]
    split
    · exact hloop
    · refine hloop.trans (Kept.rewrite fun i g g' h => ?_)
      obtain rfl := Option.some.inj h
      split <;> exact ⟨rfl,rfl⟩
  | _ => exact Kept.refl _

structure Refused (account : AccountRow) (loaded : Store GroupRow) (r : State × GroupResyncResult) : Prop where
  groups : r.1.groups = loaded
  error : r.2.error ≠ none
  lastSyncedAt : r.1.account.lastSyncedAt = account.lastSyncedAt
  lastSyncResult : r.1.account.lastSyncResult = some r.2

structure Accepted (repr : Json → String) (a : ℕ) (account : AccountRow) (fetched : Json) (loaded : Store GroupRow)
    (now : Instant) (r : State × GroupResyncResult) : Prop where
  groups : ∃ items, fetched = .arr items ∧
    Reconciled repr items account.type now (account.account a) loaded r.1.groups
  error : r.2.error = none
  found : r.2.found = ((names repr fetched).map Prod.fst).dedup.length
  lastSyncedAt : r.1.account.lastSyncedAt = some now
  lastSyncResult : r.1.account.lastSyncResult = some r.2

theorem applied_of_blown (hids : usableIds repr items = []) (hknown : ∃ id, Known s.groups s.account.id id)
    (messengerType : String) (now : Instant) : applyGroupResync repr s (.arr items) messengerType false now =
      ({ s with account := { s.account with lastSyncResult := some ⟨0,0,0,0,some
          ScheduleSystem.emptyResponseMessage⟩ } },⟨0,0,0,0,some ScheduleSystem.emptyResponseMessage⟩) := by
  obtain ⟨_,i,g,hg,ha,_⟩ := hknown
  have hexisting : (groupsOf s.groups s.account.id).isEmpty = false :=
    List.isEmpty_eq_false_iff.mpr (List.ne_nil_of_mem (mem_groupsOf.mpr ⟨hg,ha⟩))
  have hend := loopEnd_of_nil s messengerType hids
  rw [loopEnd] at hend
  simp only [applyGroupResync,hend,hexisting,List.isEmpty_nil,Bool.not_false,Bool.and_self,if_true]

theorem applied_cases (hdistinct : DistinctIds loaded a) :
    Refused account loaded (applied repr a account fetched loaded now) ∨
      Accepted repr a account fetched loaded now (applied repr a account fetched loaded now) := by
  cases fetched with
  | arr items =>
    by_cases hpass : Passes repr ⟨loaded,.empty Schedule,account.account a⟩ items false
    · have hsynced := applyGroupResync_passes (s := ⟨loaded,.empty Schedule,account.account a⟩) account.type now
        hdistinct hpass
      have hreconciled := reconciled_loopEnd (s := ⟨loaded,.empty Schedule,account.account a⟩) repr items
        account.type now hdistinct
      refine .inr ?_
      rw [applied,hsynced]
      exact ⟨⟨items,rfl,hreconciled⟩,rfl,rfl,rfl,rfl⟩
    · simp only [Passes,Classical.not_imp,ne_eq,not_not] at hpass
      obtain ⟨hknown,_,hids⟩ := hpass
      refine .inl ?_
      rw [applied,applied_of_blown hids hknown]
      exact ⟨rfl,by simp,rfl,rfl⟩
  | _ => exact .inl ⟨rfl,by simp [applied,applyGroupResync],rfl,rfl⟩

theorem accountId_added (hdistinct : DistinctIds loaded a) (hg : g ∈ added loaded
    (applied repr a account fetched loaded now).1.groups) : g.accountId = a ∧ ¬ Known loaded a g.groupExternalId := by
  obtain ⟨i,hi,hrow⟩ := mem_added.mp hg
  have hcases : Refused account loaded (applied repr a account fetched loaded now) ∨
      Accepted repr a account fetched loaded now (applied repr a account fetched loaded now) := applied_cases hdistinct
  rcases hcases with h | h
  · rw [h.groups,loaded.fresh i hi] at hrow
    cases hrow
  · obtain ⟨items,_,hreconciled⟩ := h.groups
    obtain ⟨id,name,_,hunknown,rfl⟩ := hreconciled.created i g (loaded.fresh i hi) hrow
    exact ⟨rfl,hunknown⟩

theorem row_updateGroups (value : Store GroupRow) (i : ℕ) : (updateGroups a loaded value groups).row i =
    (groups.row i).map fun g => match loaded.row i, value.row i with
      | some l, some v => if l.accountId = a then updated l v g else g
      | _, _ => g := by
  rw [updateGroups,Store.row_rewrite]
  cases groups.row i <;> rfl

theorem kept_updateGroups (value : Store GroupRow) : Kept groups (updateGroups a loaded value groups) := by
  refine Kept.rewrite fun i g g' h => ?_
  obtain rfl := Option.some.inj h
  split
  · split <;> exact ⟨rfl,rfl⟩
  · exact ⟨rfl,rfl⟩

theorem distinct_updateGroups (hdistinct : DistinctIds groups b) (value : Store GroupRow) :
    DistinctIds (updateGroups a loaded value groups) b := by
  refine hdistinct.rewrite fun i g g' h => ?_
  obtain rfl := Option.some.inj h
  split
  · split <;> exact ⟨rfl,rfl⟩
  · exact ⟨rfl,rfl⟩

end Applied

/-- The columns that a resync goes by. -/
structure Same (g g' : GroupRow) : Prop where
  accountId : g'.accountId = g.accountId
  groupExternalId : g'.groupExternalId = g.groupExternalId
  name : g'.name = g.name
  missingSince : g'.missingSince = g.missingSince

theorem Same.refl (g : GroupRow) : Same g g := ⟨rfl,rfl,rfl,rfl⟩

theorem Same.trans {g g' g'' : GroupRow} (h : Same g g') (h' : Same g' g'') : Same g g'' :=
  ⟨h'.accountId.trans h.accountId,h'.groupExternalId.trans h.groupExternalId,h'.name.trans h.name,
    h'.missingSince.trans h.missingSince⟩

/-- Nothing happens to the groups of the account but switches, errors and deletions. -/
structure Calm (a : ℕ) (db db' : Db) : Prop where
  kept : Kept db.groups db'.groups
  rows : ∀ i g, db.groups.row i = some g → g.accountId = a → (∃ g', db'.groups.row i = some g' ∧ Same g g') ∨
    (g.groupExternalId ∈ db'.deleted a ∧ g.groupExternalId ∈ db'.meanwhile a)
  back : ∀ i g', db'.groups.row i = some g' → g'.accountId = a → ∃ g, db.groups.row i = some g ∧ Same g g'
  told : db'.told a = db.told a
  deleted : db.deleted a ⊆ db'.deleted a
  meanwhile : db.meanwhile a ⊆ db'.meanwhile a
  account : ∀ row', db'.accounts a = some row' → ∃ row, db.accounts a = some row ∧
    row'.lastSyncedAt = row.lastSyncedAt ∧ row'.lastSyncResult = row.lastSyncResult

section Calm

variable {repr} {a b : ℕ} {db : Db} {account row : AccountRow} {loaded groups : Store GroupRow} {now : Instant}

theorem Calm.of_groups {accounts : ℕ → Option AccountRow} {syncInFlight : List ℕ} {meanwhile : ℕ → List String}
    (hmeanwhile : meanwhile a = db.meanwhile a) (haccount : ∀ row', accounts a = some row' →
      ∃ row, db.accounts a = some row ∧ row'.lastSyncedAt = row.lastSyncedAt ∧
        row'.lastSyncResult = row.lastSyncResult) :
    Calm a db { db with accounts := accounts, syncInFlight := syncInFlight, meanwhile := meanwhile } where
  kept := Kept.refl _
  rows := fun _ g hg _ => .inl ⟨g,hg,Same.refl g⟩
  back := fun _ g hg _ => ⟨g,hg,Same.refl g⟩
  told := rfl
  deleted := fun _ h => h
  meanwhile := by
    simp only [hmeanwhile]
    exact List.Subset.refl _
  account := haccount

theorem Calm.refl (db : Db) : Calm a db db := .of_groups rfl fun row h => ⟨row,h,rfl,rfl⟩

theorem Calm.update {f : GroupRow → GroupRow} (hf : ∀ g, Same g (f g)) (i : ℕ) :
    Calm a db { db with groups := db.groups.update i f } := by
  have hrow : ∀ j g, db.groups.row j = some g → ∃ g', (db.groups.update i f).row j = some g' ∧ Same g g' := by
    intro j g hg
    by_cases hj : j = i
    · subst hj
      exact ⟨f g,Store.row_update_self hg,hf g⟩
    · exact ⟨g,(Store.row_update_of_ne hj).trans hg,Same.refl g⟩
  refine ⟨Kept.rewrite fun j g g' h => ?_,fun j g hg _ => .inl (hrow j g hg),fun j g' hg' _ => ?_,rfl,
    fun _ h => h,fun _ h => h,fun row h => ⟨row,h,rfl,rfl⟩⟩
  · obtain rfl := Option.some.inj h
    split
    · exact ⟨(hf g).accountId,(hf g).groupExternalId⟩
    · exact ⟨rfl,rfl⟩
  · obtain ⟨g,hg,_⟩ := Store.row_update.mp hg'
    obtain ⟨g'',hg'',hsame⟩ := hrow j g hg
    obtain rfl := Option.some.inj (hg''.symm.trans hg')
    exact ⟨g,hg,hsame⟩

theorem Calm.deleteGroups (p : ℕ → GroupRow → Bool) : Calm a db (deleteGroups db p) := by
  have hgone : ∀ i g, db.groups.row i = some g → g.accountId = a → p i g = true →
      g.groupExternalId ∈ ((groupsOf db.groups a).filter fun r => p r.1 r.2).map fun r => r.2.groupExternalId :=
    fun i g hg ha hp =>
      List.mem_map.mpr ⟨(i,g),List.mem_filter.mpr ⟨mem_groupsOf.mpr ⟨hg,ha⟩,hp⟩,rfl⟩
  refine ⟨Kept.rewrite fun i g g' h => ?_,fun i g hg ha => ?_,fun i g' hg' _ => ?_,rfl,
    List.subset_append_right _ _,List.subset_append_right _ _,fun row h => ⟨row,h,rfl,rfl⟩⟩
  · split at h
    · cases h
    · obtain rfl := Option.some.inj h
      exact ⟨rfl,rfl⟩
  · cases hp : p i g with
    | true =>
      exact .inr ⟨List.mem_append_left _ (hgone i g hg ha hp),List.mem_append_left _ (hgone i g hg ha hp)⟩
    | false => exact .inl ⟨g,Store.row_deleteWhere.mpr ⟨hg,hp⟩,Same.refl g⟩
  · exact ⟨g',(Store.row_deleteWhere.mp hg').1,Same.refl g'⟩

theorem Calm.written (hne : b ≠ a) (hkept : Kept loaded db.groups) (hdistinct : DistinctIds loaded b)
    {fetched : Json} (caller : Caller) (hinsert : insertGroups (updateGroups b loaded
      (applied repr b account fetched loaded now).1.groups db.groups)
      (added loaded (applied repr b account fetched loaded now).1.groups) = some groups) :
    Calm a db (written repr db caller b account row fetched now (applied repr b account fetched loaded now)
      groups) := by
  obtain rfl := insertGroups_eq hinsert
  have hupdated : ∀ i g, db.groups.row i = some g → ∃ g', (updateGroups b loaded
      (applied repr b account fetched loaded now).1.groups db.groups).row i = some g' ∧
      g'.accountId = g.accountId ∧ (g.accountId = a → g' = g) := by
    intro i g hg
    refine ⟨_,by rw [row_updateGroups,hg]; rfl,?_,?_⟩
    · split
      · split <;> rfl
      · rfl
    · intro ha
      split
      · rename_i l v hl _
        have hla := (hkept.same i l g hl hg).1
        exact if_neg fun he => hne (he.symm.trans (hla.symm.trans ha))
      · rfl
  refine ⟨(kept_updateGroups _).trans (Kept.insertAll _ _),fun i g hg ha => ?_,fun i g' hg' ha => ?_,?_,?_,
    fun _ h => h,fun row' h => ?_⟩
  · obtain ⟨g',hg',_,hsame⟩ := hupdated i g hg
    obtain rfl := hsame ha
    exact .inl ⟨g',Store.row_insertAll.mpr (.inl hg'),Same.refl g'⟩
  · rcases Store.row_insertAll.mp hg' with hold | ⟨k,_,hnew⟩
    · have hrow := hold
      rw [row_updateGroups] at hrow
      cases hg : db.groups.row i with
      | none =>
        rw [hg] at hrow
        cases hrow
      | some g =>
        obtain ⟨g'',hg'',hga,hsame⟩ := hupdated i g hg
        obtain rfl := Option.some.inj (hold.symm.trans hg'')
        obtain rfl := hsame (hga.symm.trans ha)
        exact ⟨g',rfl,Same.refl g'⟩
    · exact absurd ((accountId_added hdistinct (List.mem_of_getElem? hnew)).1.symm.trans ha) hne
  · simp only [ResyncRaces.written]
    split
    · exact Function.update_of_ne hne.symm _ _
    · rfl
  · simp only [ResyncRaces.written]
    split
    · rw [Function.update_of_ne hne.symm]
      exact List.Subset.refl _
    · exact List.Subset.refl _
  · simp only [ResyncRaces.written,Function.update_of_ne hne.symm] at h
    exact ⟨row',h,rfl,rfl⟩

theorem Calm.recordSyncFailure (hne : b ≠ a) (message : String) (status : Option String) :
    Calm a db (recordSyncFailure db b account message status) := by
  unfold ResyncRaces.recordSyncFailure
  split
  · exact Calm.refl db
  · refine .of_groups rfl fun row' h => ?_
    rw [Function.update_of_ne hne.symm] at h
    exact ⟨row',h,rfl,rfl⟩

/-- The account whose groups or result the next statement writes. -/
def Pc.writes : Pc → Option ℕ
  | .resync _ a _ _ | .commit _ a _ _ _ | .failing a _ _ | .taskFailing a _ _ => some a
  | _ => none

/-- A resync works on rows of the table, from the time when it has read them. -/
def Pc.Reads (db : Db) : Pc → Prop
  | .commit _ b _ _ loaded => Kept loaded db.groups ∧ DistinctIds loaded b
  | _ => True

theorem Calm.begin (request : Request) : Calm a db (begin db request).1 := by
  cases request with
  | syncGroups b =>
    simp only [ResyncRaces.begin]
    split
    · exact Calm.refl db
    · split
      · exact Calm.refl db
      · split
        · exact Calm.refl db
        · split
          · exact Calm.refl db
          · exact .of_groups rfl fun row h => ⟨row,h,rfl,rfl⟩
  | taskReady b groups =>
    simp only [ResyncRaces.begin]
    split
    · exact Calm.refl db
    · split <;> exact Calm.refl db
  | taskFails b message => exact Calm.refl db
  | setActive i isActive =>
    exact Calm.update (f := fun g => { g with isActive := isActive }) (fun _ => ⟨rfl,rfl,rfl,rfl⟩) i
  | setError i lastError errorAt =>
    exact Calm.update (f := fun g => { g with lastError := lastError, errorAt := errorAt })
      (fun _ => ⟨rfl,rfl,rfl,rfl⟩) i
  | setStatus b status =>
    refine .of_groups rfl fun row' h => ?_
    by_cases hb : a = b
    · subst hb
      rw [Function.update_self] at h
      obtain ⟨row,hrow,rfl⟩ := Option.map_eq_some_iff.mp h
      exact ⟨row,hrow,rfl,rfl⟩
    · rw [Function.update_of_ne hb] at h
      exact ⟨row',h,rfl,rfl⟩
  | deleteGroup i => exact Calm.deleteGroups _
  | deleteAccount b =>
    have hcalm : Calm a db (ResyncRaces.deleteGroups db fun _ g => g.accountId = b) := Calm.deleteGroups _
    refine ⟨hcalm.kept,hcalm.rows,hcalm.back,hcalm.told,hcalm.deleted,hcalm.meanwhile,fun row' h => ?_⟩
    by_cases hb : a = b
    · subst hb
      simp only [ResyncRaces.begin,Function.update_self] at h
      cases h
    · simp only [ResyncRaces.begin,Function.update_of_ne hb] at h
      exact ⟨row',h,rfl,rfl⟩

theorem Calm.step {pc : Pc} (hpc : pc.writes ≠ some a) (hreads : pc.Reads db) (inp : Input) :
    Calm a db (step repr db pc inp).1 := by
  cases pc with
  | idle => exact Calm.begin inp.request
  | resync caller b account fetched =>
    have hne : a ≠ b := fun h => hpc (congrArg some h.symm)
    simp only [ResyncRaces.step]
    split
    · exact Calm.refl db
    · exact .of_groups (Function.update_of_ne hne _ _) fun row h => ⟨row,h,rfl,rfl⟩
  | commit caller b account fetched loaded =>
    have hne : b ≠ a := fun h => hpc (congrArg some h)
    simp only [ResyncRaces.step]
    split
    · exact Calm.refl db
    · split
      · exact Calm.refl db
      · split
        · exact Calm.refl db
        · rename_i hinsert
          exact Calm.written hne hreads.1 hreads.2 caller hinsert
  | failing b account message =>
    have hne : b ≠ a := fun h => hpc (congrArg some h)
    simp only [ResyncRaces.step]
    split
    · exact Calm.refl db
    · exact Calm.recordSyncFailure hne message none
  | leaving b => exact .of_groups rfl fun row h => ⟨row,h,rfl,rfl⟩
  | taskFailing b account message =>
    have hne : b ≠ a := fun h => hpc (congrArg some h)
    simp only [ResyncRaces.step]
    split
    · exact Calm.refl db
    · exact Calm.recordSyncFailure hne message _
  | getGroups b account | rollback b | taskFailed b message => exact Calm.refl db

end Calm

structure Agrees (db : Db) (a : ℕ) (told : List (String × String)) (syncedAt : Instant) : Prop where
  returned : ∀ i g name, db.groups.row i = some g → g.accountId = a → told.lookup g.groupExternalId = some name →
    g.name = name ∧ g.missingSince = none
  missing : ∀ i g, db.groups.row i = some g → g.accountId = a → told.lookup g.groupExternalId = none →
    g.missingSince.isSome = true
  stored : ∀ id name, told.lookup id = some name → Known db.groups a id ∨ id ∈ db.deleted a
  account : ∀ row, db.accounts a = some row → row.lastSyncedAt = some syncedAt ∧ ∃ r, row.lastSyncResult = some r ∧
    (r.error = none → r.found = (told.map Prod.fst).dedup.length)

/-- Since the rows have been read no other resync of the account has been committed. -/
structure Unmoved (a : ℕ) (loaded : Store GroupRow) (db : Db) : Prop where
  rows : ∀ i l, loaded.row i = some l → l.accountId = a →
    (∃ g, db.groups.row i = some g ∧ Same l g) ∨ l.groupExternalId ∈ db.meanwhile a
  back : ∀ i g, db.groups.row i = some g → g.accountId = a → ∃ l, loaded.row i = some l ∧ Same l g

def UpToDate (a : ℕ) (account : AccountRow) (db : Db) : Prop := ∀ row, db.accounts a = some row →
  row.lastSyncedAt = account.lastSyncedAt ∧ row.lastSyncResult = account.lastSyncResult

section Commit

variable {repr} {a : ℕ} {db db' : Db} {account row : AccountRow} {loaded groups : Store GroupRow} {now : Instant}
  {fetched : Json} {told : List (String × String)} {syncedAt : Instant}

theorem Agrees.calm (h : Agrees db a told syncedAt) (hcalm : Calm a db db') : Agrees db' a told syncedAt where
  returned := by
    intro i g' name hg' ha hname
    obtain ⟨g,hg,hsame⟩ := hcalm.back i g' hg' ha
    obtain ⟨hn,hm⟩ := h.returned i g name hg (hsame.accountId.symm.trans ha) (hsame.groupExternalId ▸ hname)
    exact ⟨hsame.name.trans hn,hsame.missingSince.trans hm⟩
  missing := by
    intro i g' hg' ha hname
    obtain ⟨g,hg,hsame⟩ := hcalm.back i g' hg' ha
    rw [hsame.missingSince]
    exact h.missing i g hg (hsame.accountId.symm.trans ha) (hsame.groupExternalId ▸ hname)
  stored := by
    intro id name hname
    rcases h.stored id name hname with ⟨i,g,hg,ha,rfl⟩ | hdeleted
    · rcases hcalm.rows i g hg ha with ⟨g',hg',hsame⟩ | ⟨hgone,_⟩
      · exact .inl ⟨i,g',hg',hsame.accountId.trans ha,hsame.groupExternalId⟩
      · exact .inr hgone
    · exact .inr (hcalm.deleted hdeleted)
  account := by
    intro row' hrow'
    obtain ⟨row,hrow,hat,hresult⟩ := hcalm.account row' hrow'
    rw [hat,hresult]
    exact h.account row hrow

theorem Unmoved.calm (h : Unmoved a loaded db) (hcalm : Calm a db db') : Unmoved a loaded db' where
  rows := by
    intro i l hl ha
    rcases h.rows i l hl ha with ⟨g,hg,hsame⟩ | hgone
    · rcases hcalm.rows i g hg (hsame.accountId.trans ha) with ⟨g',hg',hsame'⟩ | ⟨_,hgone⟩
      · exact .inl ⟨g',hg',hsame.trans hsame'⟩
      · exact .inr (hsame.groupExternalId ▸ hgone)
    · exact .inr (hcalm.meanwhile hgone)
  back := by
    intro i g' hg' ha
    obtain ⟨g,hg,hsame'⟩ := hcalm.back i g' hg' ha
    obtain ⟨l,hl,hsame⟩ := h.back i g hg (hsame'.accountId.symm.trans ha)
    exact ⟨l,hl,hsame.trans hsame'⟩

theorem UpToDate.calm (h : UpToDate a account db) (hcalm : Calm a db db') : UpToDate a account db' := by
  intro row' hrow'
  obtain ⟨row,hrow,hat,hresult⟩ := hcalm.account row' hrow'
  obtain ⟨hsyncedAt,hresult'⟩ := h row hrow
  exact ⟨hat.trans hsyncedAt,hresult.trans hresult'⟩

theorem insert_of_unmoved (hunmoved : Unmoved a loaded db) (hdistinct : DistinctIds loaded a) :
    insertGroups (updateGroups a loaded (applied repr a account fetched loaded now).1.groups db.groups)
        (added loaded (applied repr a account fetched loaded now).1.groups) =
      some ((updateGroups a loaded (applied repr a account fetched loaded now).1.groups db.groups).insertAll
        (added loaded (applied repr a account fetched loaded now).1.groups)) := by
  have hadded := fun g (hg : g ∈ added loaded (applied repr a account fetched loaded now).1.groups) =>
    accountId_added hdistinct hg
  refine insertGroups_of_new (fun g hg i h hh ha hid => ?_) (added_pairwise ?_ fun g hg => (hadded g hg).1)
  · obtain ⟨hga,hunknown⟩ := hadded g hg
    rw [row_updateGroups] at hh
    obtain ⟨c,hc,_⟩ := Option.map_eq_some_iff.mp hh
    have hkept : Kept db.groups
        (updateGroups a loaded (applied repr a account fetched loaded now).1.groups db.groups) := kept_updateGroups _
    have hsame := hkept.same i c h hc (by rw [row_updateGroups]; exact hh)
    obtain ⟨l,hl,hlc⟩ := hunmoved.back i c hc (hsame.1.symm.trans (ha.trans hga))
    refine hunknown ⟨i,l,hl,?_,?_⟩
    · exact hlc.accountId.symm.trans (hsame.1.symm.trans (ha.trans hga))
    · exact hlc.groupExternalId.symm.trans (hsame.2.symm.trans hid)
  · have hcases : Refused account loaded (applied repr a account fetched loaded now) ∨
        Accepted repr a account fetched loaded now (applied repr a account fetched loaded now) :=
      applied_cases hdistinct
    rcases hcases with h | h
    · rw [h.groups]
      exact hdistinct
    · obtain ⟨items,_,hreconciled⟩ := h.groups
      exact hreconciled.distinct

theorem column_same {α : Type} [DecidableEq α] (loaded current : α) : column loaded loaded current = current :=
  if_pos rfl

theorem updateGroups_self : updateGroups a loaded loaded groups = groups := by
  refine Store.ext_row rfl (funext fun i => ?_)
  rw [row_updateGroups]
  cases hg : groups.row i with
  | none => rfl
  | some g =>
    cases hl : loaded.row i with
    | none => rfl
    | some l => simp [updated,column_same]

theorem added_self : added loaded loaded = [] := by
  refine List.eq_nil_iff_forall_not_mem.mpr fun g hg => ?_
  obtain ⟨i,hi,hrow⟩ := mem_added.mp hg
  rw [loaded.fresh i hi] at hrow
  cases hrow

theorem row_of_unmoved {i : ℕ} {l v g : GroupRow} (value : Store GroupRow) (hl : loaded.row i = some l)
    (ha : l.accountId = a) (hv : value.row i = some v) (hg : db.groups.row i = some g) (hsame : Same l g) :
    (updateGroups a loaded value db.groups).row i = some { g with name := v.name, missingSince := v.missingSince } := by
  simp only [row_updateGroups,hg,hl,hv,Option.map_some,if_pos ha,updated,hsame.name,hsame.missingSince,column_self]

section Committed

variable {items : List Json} {value : Store GroupRow}

/-- A group of the account that is there after the COMMIT has been loaded, or has just been added. -/
theorem committed_cases (hunmoved : Unmoved a loaded db)
    (hreconciled : Reconciled repr items account.type now (account.account a) loaded value) {i : ℕ} {g : GroupRow}
    (hg : ((updateGroups a loaded value db.groups).insertAll (added loaded value)).row i = some g)
    (ha : g.accountId = a) :
    (∃ l v c : GroupRow, loaded.row i = some l ∧ l.accountId = a ∧ value.row i = some v ∧
      c.groupExternalId = l.groupExternalId ∧ g = { c with name := v.name, missingSince := v.missingSince }) ∨
    ∃ id name, (answer repr items).lookup id = some name ∧ g = newGroup (account.account a) account.type id name := by
  rcases Store.row_insertAll.mp hg with hold | ⟨k,_,hnew⟩
  · have hcurrent := hold
    rw [row_updateGroups] at hcurrent
    obtain ⟨c,hc,_⟩ := Option.map_eq_some_iff.mp hcurrent
    have hkept : Kept db.groups (updateGroups a loaded value db.groups) := kept_updateGroups value
    have hca := (hkept.same i c g hc hold).1
    obtain ⟨l,hl,hsame⟩ := hunmoved.back i c hc (hca.symm.trans ha)
    have hla : l.accountId = a := hsame.accountId.symm.trans (hca.symm.trans ha)
    have hv : ∃ v, value.row i = some v := by
      cases hname : (answer repr items).lookup l.groupExternalId with
      | some name => exact ⟨_,hreconciled.returned i l name hl hla hname⟩
      | none =>
        refine ⟨_,hreconciled.missing i l hl hla fun hmem => ?_⟩
        rw [mem_usableIds,hname] at hmem
        cases hmem
    obtain ⟨v,hv⟩ := hv
    rw [row_of_unmoved value hl hla hv hc hsame] at hold
    exact .inl ⟨l,v,c,hl,hla,hv,hsame.groupExternalId,(Option.some.inj hold).symm⟩
  · obtain ⟨j,hj,hrowj⟩ := mem_added.mp (List.mem_of_getElem? hnew)
    obtain ⟨id,name,hname,_,hnewGroup⟩ := hreconciled.created j g (loaded.fresh j hj) hrowj
    exact .inr ⟨id,name,hname,hnewGroup⟩

theorem committed_known (hunmoved : Unmoved a loaded db) (hvalue : Kept loaded value) {id : String}
    (hknown : Known value a id) :
    Known ((updateGroups a loaded value db.groups).insertAll (added loaded value)) a id ∨ id ∈ db.meanwhile a := by
  obtain ⟨j,v,hv,hva,rfl⟩ := hknown
  cases hl : loaded.row j with
  | some l =>
    obtain ⟨hla,hid⟩ := hvalue.same j l v hl hv
    rcases hunmoved.rows j l hl (hla.symm.trans hva) with ⟨g,hg,hsame⟩ | hgone
    · have hrowg := row_of_unmoved value hl (hla.symm.trans hva) hv hg hsame
      refine .inl ⟨j,_,Store.row_insertAll.mpr (.inl hrowg),?_,?_⟩
      · exact hsame.accountId.trans (hla.symm.trans hva)
      · exact hsame.groupExternalId.trans hid.symm
    · rw [hid]
      exact .inr hgone
  | none =>
    have hj : loaded.size ≤ j := by
      by_contra hlt
      rw [hvalue.gone j (Nat.lt_of_not_le hlt) hl] at hv
      cases hv
    obtain ⟨k,hk⟩ := List.mem_iff_getElem?.mp (mem_added.mpr ⟨j,hj,hv⟩)
    exact .inl ⟨_,v,Store.row_insertAll.mpr (.inr ⟨k,rfl,hk⟩),hva,rfl⟩

end Committed

theorem agrees_of_accepted (hunmoved : Unmoved a loaded db) (huptodate : UpToDate a account db)
    (hrow : db.accounts a = some row)
    {r : State × GroupResyncResult} (hvalue : Kept loaded r.1.groups)
    (haccepted : Accepted repr a account fetched loaded now r) (caller : Caller) :
    Agrees (written repr db caller a account row fetched now r
      ((updateGroups a loaded r.1.groups db.groups).insertAll (added loaded r.1.groups))) a
      (names repr fetched) now := by
  obtain ⟨items,rfl,hreconciled⟩ := haccepted.groups
  refine ⟨fun i g name hg ha hname => ?_,fun i g hg ha hname => ?_,fun id name hname => ?_,fun row' hrow' => ?_⟩
  · rcases committed_cases hunmoved hreconciled hg ha with ⟨l,v,c,hl,hla,hv,hid,rfl⟩ | ⟨id,name',hname',rfl⟩
    · have hreturned := hreconciled.returned i l name hl hla (hid ▸ hname)
      obtain rfl := Option.some.inj (hv.symm.trans hreturned)
      exact ⟨rfl,rfl⟩
    · have hsame : some name' = some name := hname'.symm.trans hname
      exact ⟨Option.some.inj hsame,rfl⟩
  · rcases committed_cases hunmoved hreconciled hg ha with ⟨l,v,c,hl,hla,hv,hid,rfl⟩ | ⟨id,name',hname',rfl⟩
    · have hunanswered : (answer repr items).lookup l.groupExternalId = none := hid ▸ hname
      have hmissing := hreconciled.missing i l hl hla fun hmem => by
        rw [mem_usableIds,hunanswered] at hmem
        cases hmem
      obtain rfl := Option.some.inj (hv.symm.trans hmissing)
      rfl
    · have hnone : (answer repr items).lookup id = none := hname
      rw [hname'] at hnone
      cases hnone
  · have hanswered : (answer repr items).lookup id = some name := hname
    have hmem : id ∈ usableIds repr items := by
      rw [mem_usableIds,hanswered]
      rfl
    refine (committed_known hunmoved hvalue (hreconciled.stored id hmem)).imp_right fun hgone => ?_
    simp only [written,haccepted.error,if_true,Function.update_self]
    exact hgone
  · obtain ⟨hat,hresult⟩ := huptodate row hrow
    simp only [written,Function.update_self,Option.some.injEq] at hrow'
    subst hrow'
    simp only [hat,hresult,column_self,haccepted.lastSyncedAt,haccepted.lastSyncResult]
    exact ⟨trivial,_,rfl,fun _ => haccepted.found⟩

theorem agrees_of_refused (huptodate : UpToDate a account db) (hrow : db.accounts a = some row)
    {r : State × GroupResyncResult} (hrefused : Refused account loaded r) (caller : Caller)
    (hagrees : Agrees db a told syncedAt) :
    Agrees (written repr db caller a account row fetched now r
      ((updateGroups a loaded r.1.groups db.groups).insertAll (added loaded r.1.groups))) a told syncedAt := by
  have hgroups : (updateGroups a loaded r.1.groups db.groups).insertAll (added loaded r.1.groups) = db.groups := by
    rw [hrefused.groups,updateGroups_self,added_self]
    rfl
  rw [hgroups]
  refine ⟨hagrees.returned,hagrees.missing,?_,fun row' hrow' => ?_⟩
  · simp only [written,if_neg hrefused.error]
    exact hagrees.stored
  · obtain ⟨hat,hresult⟩ := huptodate row hrow
    simp only [written,Function.update_self,Option.some.injEq] at hrow'
    subst hrow'
    simp only [hresult,column_self,hrefused.lastSyncedAt,hrefused.lastSyncResult,column_same]
    exact ⟨(hagrees.account row hrow).1,_,rfl,fun h => absurd h hrefused.error⟩

theorem agrees_of_failure (huptodate : UpToDate a account db) (message : String) (status : Option String)
    (hagrees : Agrees db a told syncedAt) :
    Agrees (recordSyncFailure db a account message status) a told syncedAt := by
  unfold recordSyncFailure
  split
  · exact hagrees
  · rename_i row hrow
    obtain ⟨_,hresult⟩ := huptodate row hrow
    refine ⟨hagrees.returned,hagrees.missing,hagrees.stored,fun row' hrow' => ?_⟩
    simp only [Function.update_self,Option.some.injEq] at hrow'
    subst hrow'
    simp only [hresult,column_self]
    exact ⟨(hagrees.account row hrow).1,_,rfl,fun h => by cases h⟩

end Commit

def Pc.claims : Pc → Option ℕ
  | .getGroups a _ | .resync .page a _ _ | .commit .page a _ _ _ | .failing a _ _ | .rollback a | .leaving a => some a
  | _ => none

/-- The registry holds the claims of the processes, and no two of them the same. -/
structure Claimed (syncInFlight : List ℕ) (claims : ℕ → Option ℕ) : Prop where
  claimed : ∀ a, a ∈ syncInFlight ↔ ∃ p, claims p = some a
  alone : ∀ a p q, claims p = some a → claims q = some a → p = q
  nodup : syncInFlight.Nodup

section Claimed

variable {syncInFlight : List ℕ} {claims claims' : ℕ → Option ℕ} {a p : ℕ}

theorem Claimed.take (h : Claimed syncInFlight claims) (hfree : a ∉ syncInFlight) (hnone : claims p = none)
    (htaken : claims' p = some a) (hothers : ∀ q, q ≠ p → claims' q = claims q) :
    Claimed (a::syncInFlight) claims' := by
  have hunclaimed : ∀ q, claims q ≠ some a := fun q hq => hfree ((h.claimed a).mpr ⟨q,hq⟩)
  refine ⟨fun b => ?_,fun b q q' hq hq' => ?_,List.nodup_cons.mpr ⟨hfree,h.nodup⟩⟩
  · rw [List.mem_cons,h.claimed b]
    constructor
    · rintro (rfl | ⟨q,hq⟩)
      · exact ⟨p,htaken⟩
      · have hne : q ≠ p := fun he => by
          rw [he,hnone] at hq
          cases hq
        exact ⟨q,(hothers q hne).trans hq⟩
    · rintro ⟨q,hq⟩
      by_cases hqp : q = p
      · rw [hqp,htaken] at hq
        exact .inl (Option.some.inj hq).symm
      · exact .inr ⟨q,(hothers q hqp).symm.trans hq⟩
  · by_cases hqp : q = p
    · by_cases hqp' : q' = p
      · exact hqp.trans hqp'.symm
      · rw [hqp,htaken] at hq
        exact absurd ((hothers q' hqp').symm.trans (hq'.trans hq.symm)) (hunclaimed q')
    · by_cases hqp' : q' = p
      · rw [hqp',htaken] at hq'
        exact absurd ((hothers q hqp).symm.trans (hq.trans hq'.symm)) (hunclaimed q)
      · exact h.alone b q q' ((hothers q hqp).symm.trans hq) ((hothers q' hqp').symm.trans hq')

theorem Claimed.release (h : Claimed syncInFlight claims) (howned : claims p = some a) (hnone : claims' p = none)
    (hothers : ∀ q, q ≠ p → claims' q = claims q) : Claimed (syncInFlight.erase a) claims' := by
  have hold : ∀ b q, claims' q = some b → q ≠ p ∧ claims q = some b := by
    intro b q hq
    have hne : q ≠ p := fun he => by
      rw [he,hnone] at hq
      cases hq
    exact ⟨hne,(hothers q hne).symm.trans hq⟩
  refine ⟨fun b => ?_,fun b q q' hq hq' => h.alone b q q' (hold b q hq).2 (hold b q' hq').2,h.nodup.erase a⟩
  rw [h.nodup.mem_erase_iff,h.claimed b]
  constructor
  · rintro ⟨hne,q,hq⟩
    have hqp : q ≠ p := fun he => by
      rw [he,howned] at hq
      exact hne (Option.some.inj hq).symm
    exact ⟨q,(hothers q hqp).trans hq⟩
  · rintro ⟨q,hq⟩
    obtain ⟨hqp,hq⟩ := hold b q hq
    exact ⟨fun he => hqp (h.alone b q p hq (he ▸ howned)),q,hq⟩

end Claimed

/-- What the process relies on, while no task resyncs the account. -/
def Pc.Sound (a : ℕ) (db : Db) : Pc → Prop
  | .getGroups b account | .failing b account _ | .resync .page b account _ => b = a → UpToDate a account db
  | .commit .page b account _ loaded => b = a → UpToDate a account db ∧ Unmoved a loaded db
  | .resync .task b _ _ | .commit .task b _ _ _ | .rollback b | .taskFailed b _ | .taskFailing b _ _ => b ≠ a
  | .idle | .leaving _ => True

/-- What holds whoever resyncs. -/
structure Ordered (c : Config Db Pc) : Prop where
  claimed : Claimed c.db.syncInFlight fun p => (c.pc p).claims
  distinct : ∀ b, DistinctIds c.db.groups b
  reads : ∀ p, (c.pc p).Reads c.db

structure Sound (a : ℕ) (c : Config Db Pc) : Prop where
  ordered : Ordered c
  sound : ∀ p, (c.pc p).Sound a c.db
  agrees : ∀ told syncedAt, c.db.told a = some (told,syncedAt) → Agrees c.db a told syncedAt

def Request.isTask (a : ℕ) : Request → Bool
  | .taskReady b _ | .taskFails b _ => b = a
  | _ => false

def untasked (a : ℕ) (_ : Config Db Pc) (m : Move Input) : Prop := m.2.request.isTask a = false

instance (a : ℕ) (c : Config Db Pc) (m : Move Input) : Decidable (untasked a c m) := by
  unfold untasked
  infer_instance

structure Initial (c : Config Db Pc) : Prop where
  idle : ∀ p, c.pc p = .idle
  unclaimed : c.db.syncInFlight = []
  untold : ∀ a, c.db.told a = none
  distinct : ∀ a, DistinctIds c.db.groups a

section Runs

variable {repr} {a b : ℕ} {c c' : Config Db Pc} {db : Db} {pc : Pc} {inp : Input} {p : ℕ}

theorem Initial.ordered (h : Initial c) : Ordered c where
  claimed := by
    have hnone : ∀ p, (c.pc p).claims = none := fun p => by
      rw [h.idle p]
      rfl
    refine ⟨fun a => ?_,fun a p q hp _ => ?_,?_⟩
    · rw [h.unclaimed]
      simp [hnone]
    · rw [hnone p] at hp
      cases hp
    · rw [h.unclaimed]
      exact List.nodup_nil
  distinct := h.distinct
  reads := fun p => by
    rw [h.idle p]
    trivial

theorem Initial.sound (h : Initial c) (a : ℕ) : Sound a c where
  ordered := h.ordered
  sound := fun p => by
    rw [h.idle p]
    trivial
  agrees := fun told syncedAt ht => by
    rw [h.untold a] at ht
    cases ht

theorem syncInFlight_recordSyncFailure (db : Db) (a : ℕ) (account : AccountRow) (message : String)
    (status : Option String) : (recordSyncFailure db a account message status).syncInFlight = db.syncInFlight := by
  unfold recordSyncFailure
  split <;> rfl

theorem claims_step (repr : Json → String) (db : Db) (pc : Pc) (inp : Input) :
    ((step repr db pc inp).1.syncInFlight = db.syncInFlight ∧ (step repr db pc inp).2.claims = pc.claims) ∨
    (∃ a, a ∉ db.syncInFlight ∧ pc.claims = none ∧ (step repr db pc inp).1.syncInFlight = a::db.syncInFlight ∧
      (step repr db pc inp).2.claims = some a) ∨
    ∃ a, pc.claims = some a ∧ (step repr db pc inp).1.syncInFlight = db.syncInFlight.erase a ∧
      (step repr db pc inp).2.claims = none := by
  cases pc with
  | idle =>
    simp only [step]
    cases inp.request with
    | syncGroups b =>
      simp only [begin]
      split
      · exact .inl ⟨rfl,rfl⟩
      · split
        · exact .inl ⟨rfl,rfl⟩
        · split
          · exact .inl ⟨rfl,rfl⟩
          · split
            · exact .inl ⟨rfl,rfl⟩
            · rename_i hfree
              exact .inr (.inl ⟨b,hfree,rfl,rfl,rfl⟩)
    | taskReady b groups =>
      simp only [begin]
      split
      · exact .inl ⟨rfl,rfl⟩
      · split <;> exact .inl ⟨rfl,rfl⟩
    | _ => exact .inl ⟨rfl,rfl⟩
  | getGroups b account =>
    refine .inl ⟨rfl,?_⟩
    simp only [step]
    split
    · rfl
    · split <;> rfl
  | resync caller b account fetched =>
    simp only [step]
    cases caller <;> split <;> exact .inl ⟨rfl,rfl⟩
  | commit caller b account fetched loaded =>
    simp only [step]
    cases caller <;> split
    · exact .inl ⟨rfl,rfl⟩
    · split
      · exact .inl ⟨rfl,rfl⟩
      · split <;> exact .inl ⟨rfl,rfl⟩
    · exact .inl ⟨rfl,rfl⟩
    · split
      · exact .inl ⟨rfl,rfl⟩
      · split <;> exact .inl ⟨rfl,rfl⟩
  | failing b account message =>
    refine .inl ⟨?_,rfl⟩
    simp only [step]
    split
    · rfl
    · exact syncInFlight_recordSyncFailure ..
  | rollback b =>
    refine .inl ⟨rfl,?_⟩
    simp only [step]
    split
    · rfl
    · split <;> rfl
  | leaving b => exact .inr (.inr ⟨b,rfl,rfl,rfl⟩)
  | taskFailed b message =>
    refine .inl ⟨rfl,?_⟩
    simp only [step]
    split
    · rfl
    · split
      · rfl
      · split <;> rfl
  | taskFailing b account message =>
    refine .inl ⟨?_,rfl⟩
    simp only [step]
    split
    · rfl
    · exact syncInFlight_recordSyncFailure ..

theorem Claimed.step (hc : Claimed c.db.syncInFlight fun p => (c.pc p).claims) (p : ℕ) (inp : Input) :
    Claimed (step repr c.db (c.pc p) inp).1.syncInFlight
      fun q => (Function.update c.pc p (step repr c.db (c.pc p) inp).2 q).claims := by
  have hothers : ∀ q, q ≠ p → (Function.update c.pc p (ResyncRaces.step repr c.db (c.pc p) inp).2 q).claims =
      (c.pc q).claims := fun q hq => by rw [Function.update_of_ne hq]
  rcases claims_step repr c.db (c.pc p) inp with
    ⟨hslots,hsame⟩ | ⟨a,hfree,hnone,hslots,htaken⟩ | ⟨a,howned,hslots,hnone⟩
  · have hclaims : (fun q => (Function.update c.pc p (ResyncRaces.step repr c.db (c.pc p) inp).2 q).claims) =
        fun q => (c.pc q).claims := by
      funext q
      by_cases hq : q = p
      · rw [hq,Function.update_self,hsame]
      · exact hothers q hq
    rw [hslots,hclaims]
    exact hc
  · rw [hslots]
    refine hc.take hfree hnone ?_ hothers
    rw [Function.update_self]
    exact htaken
  · rw [hslots]
    refine hc.release howned ?_ hothers
    rw [Function.update_self]
    exact hnone

theorem exists_unwritten (pc : Pc) : ∃ a, pc.writes ≠ some a := by
  cases h : pc.writes with
  | none => exact ⟨0,fun h => by cases h⟩
  | some b => exact ⟨b+1,fun h => Nat.succ_ne_self b (Option.some.inj h).symm⟩

theorem kept_step (hreads : pc.Reads db) (inp : Input) : Kept db.groups (step repr db pc inp).1.groups := by
  obtain ⟨a,ha⟩ := exists_unwritten pc
  exact (Calm.step ha hreads inp).kept

theorem Calm.distinct {db' : Db} (h : Calm b db db') (hdistinct : DistinctIds db.groups b) :
    DistinctIds db'.groups b := by
  intro i j g' k' hg' hk' hg hk hid
  obtain ⟨g,hrow,hsame⟩ := h.back i g' hg' hg
  obtain ⟨k,hrow',hsame'⟩ := h.back j k' hk' hk
  exact hdistinct i j g k hrow hrow' (hsame.accountId.symm.trans hg) (hsame'.accountId.symm.trans hk)
    (hsame.groupExternalId.symm.trans (hid.trans hsame'.groupExternalId))

theorem recordSyncFailure_groups (db : Db) (a : ℕ) (account : AccountRow) (message : String) (status : Option String) :
    (recordSyncFailure db a account message status).groups = db.groups := by
  unfold recordSyncFailure
  split <;> rfl

theorem distinct_step (hreads : pc.Reads db) (hdistinct : ∀ b, DistinctIds db.groups b) (inp : Input) (b : ℕ) :
    DistinctIds (step repr db pc inp).1.groups b := by
  cases pc with
  | commit caller a account fetched loaded =>
    simp only [step]
    split
    · exact hdistinct b
    · split
      · exact hdistinct b
      · split
        · exact hdistinct b
        · rename_i hinsert
          exact distinct_insertGroups (fun b => distinct_updateGroups (hdistinct b) _) hinsert b
  | resync caller a account fetched =>
    simp only [step]
    split <;> exact hdistinct b
  | failing a account message | taskFailing a account message =>
    simp only [step]
    split
    · exact hdistinct b
    · rw [recordSyncFailure_groups]
      exact hdistinct b
  | idle | getGroups a account | rollback a | leaving a | taskFailed a message =>
    exact (Calm.step (fun h => by cases h) hreads inp).distinct (hdistinct b)

theorem reads_later {db' : Db} (hkept : Kept db.groups db'.groups) (h : pc.Reads db) : pc.Reads db' := by
  cases pc with
  | commit caller b account fetched loaded => exact ⟨h.1.trans hkept,h.2⟩
  | _ => trivial

theorem reads_step (hdistinct : ∀ b, DistinctIds db.groups b) (inp : Input) :
    (step repr db pc inp).2.Reads (step repr db pc inp).1 := by
  cases pc with
  | idle =>
    simp only [step]
    cases inp.request with
    | syncGroups b =>
      simp only [begin]
      split
      · trivial
      · split
        · trivial
        · split
          · trivial
          · split <;> trivial
    | taskReady b groups =>
      simp only [begin]
      split
      · trivial
      · split <;> trivial
    | _ => trivial
  | getGroups b account =>
    simp only [step]
    split
    · trivial
    · split <;> trivial
  | resync caller b account fetched =>
    simp only [step]
    split
    · cases caller <;> trivial
    · exact ⟨Kept.refl _,hdistinct b⟩
  | commit caller b account fetched loaded =>
    simp only [step]
    split
    · cases caller <;> trivial
    · split
      · cases caller <;> trivial
      · split <;> cases caller <;> trivial
  | rollback b =>
    simp only [step]
    split
    · trivial
    · split <;> trivial
  | taskFailed b message =>
    simp only [step]
    split
    · trivial
    · split
      · trivial
      · split <;> trivial
  | failing b account message | leaving b | taskFailing b account message => trivial

theorem Pc.Sound.calm {db' : Db} (h : pc.Sound a db) (hcalm : Calm a db db') : pc.Sound a db' := by
  cases pc with
  | getGroups b account | failing b account message => exact fun hb => (h hb).calm hcalm
  | resync caller b account fetched =>
    cases caller with
    | page => exact fun hb => (h hb).calm hcalm
    | task => exact h
  | commit caller b account fetched loaded =>
    cases caller with
    | page => exact fun hb => ⟨(h hb).1.calm hcalm,(h hb).2.calm hcalm⟩
    | task => exact h
  | idle | leaving b | rollback b | taskFailed b message | taskFailing b account message => exact h

theorem Pc.Sound.unclaimed {db' : Db} (h : pc.Sound a db) (hclaims : pc.claims ≠ some a) : pc.Sound a db' := by
  cases pc with
  | getGroups b account | failing b account message => exact fun hb => absurd (congrArg some hb) hclaims
  | resync caller b account fetched =>
    cases caller with
    | page => exact fun hb => absurd (congrArg some hb) hclaims
    | task => exact h
  | commit caller b account fetched loaded =>
    cases caller with
    | page => exact fun hb => absurd (congrArg some hb) hclaims
    | task => exact h
  | idle | leaving b | rollback b | taskFailed b message | taskFailing b account message => exact h

/-- Where no task resyncs the account, only the owner of its claim writes for it. -/
theorem Pc.Sound.claims_of_writes (h : pc.Sound a db) (hwrites : pc.writes = some a) : pc.claims = some a := by
  cases pc with
  | resync caller b account fetched | commit caller b account fetched loaded =>
    cases caller with
    | page => exact hwrites
    | task => exact absurd (Option.some.inj hwrites) h
  | failing b account message => exact hwrites
  | taskFailing b account message => exact absurd (Option.some.inj hwrites) h
  | idle | getGroups b account | leaving b | rollback b | taskFailed b message => cases hwrites

theorem Unmoved.load (db : Db) : Unmoved a db.groups db where
  rows := fun _ g hg _ => .inl ⟨g,hg,Same.refl g⟩
  back := fun _ g hg _ => ⟨g,hg,Same.refl g⟩

theorem sound_begin {request : Request} (huntasked : request.isTask a = false) :
    (begin db request).2.Sound a (begin db request).1 := by
  cases request with
  | syncGroups b =>
    simp only [begin]
    split
    · trivial
    · rename_i account hload
      split
      · trivial
      · split
        · trivial
        · split
          · trivial
          · intro hb
            subst hb
            intro row' hrow'
            obtain rfl := Option.some.inj (hload.symm.trans hrow')
            exact ⟨rfl,rfl⟩
  | taskReady b groups =>
    have hne : b ≠ a := of_decide_eq_false huntasked
    simp only [begin]
    split
    · trivial
    · split
      · exact hne
      · trivial
  | taskFails b message => exact (of_decide_eq_false huntasked : b ≠ a)
  | setActive i isActive | setError i lastError errorAt | setStatus b status | deleteGroup i | deleteAccount b =>
    trivial

theorem sound_caller_raised {caller : Caller} (h : caller = .task → b ≠ a) : (caller.raised b).Sound a db := by
  cases caller with
  | page => trivial
  | task => exact h rfl

theorem sound_step (h : pc.Sound a db) (hreads : pc.Reads db)
    (huntasked : inp.request.isTask a = false) :
    (step repr db pc inp).2.Sound a (step repr db pc inp).1 := by
  cases pc with
  | idle => exact sound_begin huntasked
  | getGroups b account =>
    simp only [step]
    split
    · trivial
    · split <;> exact h
  | resync caller b account fetched =>
    have htask : caller = .task → b ≠ a := fun hcaller => by
      subst hcaller
      exact h
    simp only [step]
    split
    · exact sound_caller_raised htask
    · cases caller with
      | page => exact fun hb => ⟨fun row hrow => h hb row hrow,
          Unmoved.load { db with meanwhile := Function.update db.meanwhile b [] }⟩
      | task => exact htask rfl
  | commit caller b account fetched loaded =>
    have htask : caller = .task → b ≠ a := fun hcaller => by
      subst hcaller
      exact h
    simp only [step]
    split
    · exact sound_caller_raised htask
    · split
      · exact sound_caller_raised htask
      · split
        · rename_i hconflict
          cases caller with
          | page =>
            intro hb
            subst hb
            rw [insert_of_unmoved (h rfl).2 hreads.2] at hconflict
            cases hconflict
          | task => exact htask rfl
        · cases caller <;> trivial
  | rollback b =>
    simp only [step]
    split
    · trivial
    · split
      · trivial
      · exact fun hb => absurd hb h
  | taskFailed b message =>
    simp only [step]
    split
    · trivial
    · split
      · trivial
      · split
        · exact h
        · trivial
  | failing b account message | leaving b | taskFailing b account message => trivial

theorem agrees_step (h : pc.Sound a db) (hreads : pc.Reads db)
    (hagrees : ∀ told syncedAt, db.told a = some (told,syncedAt) → Agrees db a told syncedAt) (inp : Input) :
    ∀ told syncedAt, (step repr db pc inp).1.told a = some (told,syncedAt) →
      Agrees (step repr db pc inp).1 a told syncedAt := by
  by_cases hwrites : pc.writes = some a
  · cases pc with
    | resync caller b account fetched =>
      obtain rfl : b = a := Option.some.inj hwrites
      simp only [step]
      split
      · exact hagrees
      · intro told syncedAt htold
        have hold := hagrees told syncedAt htold
        exact ⟨hold.returned,hold.missing,hold.stored,hold.account⟩
    | commit caller b account fetched loaded =>
      obtain rfl : b = a := Option.some.inj hwrites
      cases caller with
      | task => exact absurd rfl h
      | page =>
        obtain ⟨huptodate,hunmoved⟩ := h rfl
        simp only [step]
        split
        · exact hagrees
        · split
          · exact hagrees
          · rename_i row hrow
            split
            · exact hagrees
            · rename_i groups hinsert
              rw [insertGroups_eq hinsert]
              have hcases : Refused account loaded (applied repr b account fetched loaded inp.now) ∨
                  Accepted repr b account fetched loaded inp.now (applied repr b account fetched loaded inp.now) :=
                applied_cases hreads.2
              rcases hcases with hrefused | haccepted
              · intro told syncedAt htold
                have hsame : db.told b = some (told,syncedAt) := by
                  simpa only [written,if_neg hrefused.error] using htold
                exact agrees_of_refused huptodate hrow hrefused .page (hagrees told syncedAt hsame)
              · intro told syncedAt htold
                have htold : some (names repr fetched,inp.now) = some (told,syncedAt) := by
                  simpa only [written,if_pos haccepted.error,Function.update_self] using htold
                obtain ⟨rfl,rfl⟩ := Prod.mk.inj (Option.some.inj htold)
                exact agrees_of_accepted hunmoved huptodate hrow kept_applied haccepted .page
    | failing b account message =>
      obtain rfl : b = a := Option.some.inj hwrites
      simp only [step]
      split
      · exact hagrees
      · intro told syncedAt htold
        refine agrees_of_failure (h rfl) message none (hagrees told syncedAt ?_)
        unfold recordSyncFailure at htold
        split at htold <;> exact htold
    | taskFailing b account message => exact absurd (Option.some.inj hwrites) h
    | idle | getGroups b account | leaving b | rollback b | taskFailed b message => cases hwrites
  · have hcalm : Calm a db (step repr db pc inp).1 := Calm.step hwrites hreads inp
    intro told syncedAt htold
    exact (hagrees told syncedAt (hcalm.told ▸ htold)).calm hcalm

theorem next_machine (c : Config Db Pc) (p : ℕ) (inp : Input) : next (machine repr) c (p,inp) =
    some ⟨(step repr c.db (c.pc p) inp).1,Function.update c.pc p (step repr c.db (c.pc p) inp).2⟩ := rfl

theorem Ordered.next (hs : Ordered c) {m : Move Input} (h : next (machine repr) c m = some c') : Ordered c' := by
  obtain ⟨p,inp⟩ := m
  obtain rfl := Option.some.inj ((next_machine c p inp).symm.trans h)
  have hkept : Kept c.db.groups (step repr c.db (c.pc p) inp).1.groups := kept_step (hs.reads p) inp
  refine ⟨hs.claimed.step p inp,distinct_step (hs.reads p) hs.distinct inp,fun q => ?_⟩
  by_cases hq : q = p
  · subst hq
    simp only [Function.update_self]
    exact reads_step hs.distinct inp
  · simp only [Function.update_of_ne hq]
    exact reads_later hkept (hs.reads q)

theorem Sound.next (hs : Sound a c) {m : Move Input} (hm : untasked a c m) (h : next (machine repr) c m = some c') :
    Sound a c' := by
  have hordered := hs.ordered.next h
  obtain ⟨p,inp⟩ := m
  obtain rfl := Option.some.inj ((next_machine c p inp).symm.trans h)
  have hreads := hs.ordered.reads p
  refine ⟨hordered,fun q => ?_,agrees_step (hs.sound p) hreads hs.agrees inp⟩
  by_cases hq : q = p
  · subst hq
    simp only [Function.update_self]
    exact sound_step (hs.sound q) hreads hm
  · simp only [Function.update_of_ne hq]
    by_cases hwrites : (c.pc p).writes = some a
    · have hp := (hs.sound p).claims_of_writes hwrites
      exact (hs.sound q).unclaimed fun hclaims => hq (hs.ordered.claimed.alone a q p hclaims hp)
    · exact (hs.sound q).calm (Calm.step hwrites hreads inp)

/-- A claim is held by one request at most and never without one, and the groups of an account have different ids,
whoever resyncs. While no task resyncs the account, no resync of a request meets the groups of another one, and the
groups agree with the last answer that has been applied: a group is marked as missing exactly if the answer does not
name it, it has the name that the answer gives it, and every group of the answer is there unless it has been deleted
since. -/
theorem page_resyncs_agree (hc : Initial c) (h : Reaches (machine repr) anyMove c c') :
    (∀ b, b ∈ c'.db.syncInFlight ↔ ∃ p, (c'.pc p).claims = some b) ∧
    (∀ b p q, (c'.pc p).claims = some b → (c'.pc q).claims = some b → p = q) ∧
    (∀ b, DistinctIds c'.db.groups b) ∧
    ∀ a, Reaches (machine repr) (untasked a) c c' → (∀ p, c'.pc p ≠ .rollback a) ∧
      ∀ told syncedAt, c'.db.told a = some (told,syncedAt) → Agrees c'.db a told syncedAt := by
  have hordered : Ordered c' := h.invariant (fun _ _ _ hs _ hnext => hs.next hnext) hc.ordered
  refine ⟨hordered.claimed.claimed,hordered.claimed.alone,hordered.distinct,fun a ha => ?_⟩
  have hs : Sound a c' := ha.invariant (fun _ _ _ hs hm hnext => hs.next hm hnext) (hc.sound a)
  refine ⟨fun p hp => ?_,hs.agrees⟩
  have hsound := hs.sound p
  rw [hp] at hsound
  exact hsound rfl

end Runs

def shop : Config Db Pc where
  db :=
    { groups := (Store.empty GroupRow).insert ⟨1,1,"wa","a","Sales",true,none,none,none⟩
        |>.insert ⟨1,1,"wa","b","Support",true,none,none,none⟩
      accounts := fun _ => some ⟨1,"wa","active",none,none⟩
      syncInFlight := []
      told := fun _ => none
      deleted := fun _ => []
      meanwhile := fun _ => [] }
  pc := fun _ => .idle

theorem shop_initial : Initial shop where
  idle := fun _ => rfl
  unclaimed := rfl
  untold := fun _ => rfl
  distinct := by
    intro a i j g h hg hh _ _ hid
    have hcases : ∀ i g, shop.db.groups.row i = some g →
        i = 1 ∧ g.groupExternalId = "b" ∨ i = 0 ∧ g.groupExternalId = "a" := by
      intro i g hg
      rcases Store.row_insert.mp hg with ⟨hi,rfl⟩ | hg
      · exact .inl ⟨hi,rfl⟩
      · rcases Store.row_insert.mp hg with ⟨hi,rfl⟩ | hg
        · exact .inr ⟨hi,rfl⟩
        · cases hg
    rcases hcases i g hg with ⟨hi,hg⟩ | ⟨hi,hg⟩ <;> rcases hcases j h hh with ⟨hj,hh⟩ | ⟨hj,hh⟩
    · exact hi.trans hj.symm
    · simp [hg,hh] at hid
    · simp [hg,hh] at hid
    · exact hi.trans hj.symm

def chat (id name : String) : Json := .obj [("id",.str id),("name",.str name)]

def moveOf (p : ℕ) (request : Request) (chats : List Json) (now : Instant) : Move Input :=
  (p,⟨request,.groups (.arr chats),now,false⟩)

def pressed : List (Move Input) :=
  List.replicate 5 (moveOf 0 (.syncGroups 1) [chat "a" "Sales 2",chat "c" "Stock"] 9)

theorem page_resyncs_agree_pressed :
    Agrees (after (machine fun _ => "") (untasked 1) shop pressed).db 1 [("a","Sales 2"),("c","Stock")] 9 := by
  have huntasked := reaches_after (machine fun _ => "") (untasked 1) shop pressed
  obtain ⟨_,_,_,hagrees⟩ := page_resyncs_agree shop_initial (huntasked.mono fun _ _ _ => trivial)
  exact (hagrees 1 huntasked).2 _ _ (by decide)

/-- A task of the account overtakes a request: what the request has been told comes last, and does not count. -/
def overtaken : List (Move Input) :=
  List.replicate 3 (moveOf 0 (.syncGroups 1) [chat "a" "Sales",chat "b" "Support"] 5)
    ++[moveOf 1 (.setStatus 1 "syncing") [] 6]
    ++List.replicate 3 (moveOf 1 (.taskReady 1 (.arr [chat "a" "Sales"])) [] 7)
    ++[moveOf 0 (.syncGroups 1) [] 8]

example : ((after (machine fun _ => "") anyMove shop overtaken).db.told 1).map Prod.fst
      = some [("a","Sales"),("b","Support")] ∧
    ((after (machine fun _ => "") anyMove shop overtaken).db.groups.row 1).bind GroupRow.missingSince = some 7 := by
  decide

end ResyncRaces
end Broadcaster
