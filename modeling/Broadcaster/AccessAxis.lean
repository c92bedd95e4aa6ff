import Broadcaster.AccessCache
import Broadcaster.Models
import Broadcaster.SubscriptionExtension

/-!
# The access rule as clauses of a query

`access_is_open` decides on one loaded subscription. The lists and counts of the
administrator decide the same in SQL: the clauses of the access axis select
users by `EXISTS` over the whole history of their subscriptions, the clauses of
the overview and of the payments page select subscriptions.
-/

namespace Broadcaster
namespace AccessAxis

open Calendar PaymentService AccessCache

/-- The tables `users` and `subscriptions` between two transactions. -/
structure Tables where
  users : Store User
  subscriptions : Store Subscription
  /-- the foreign key of `subscriptions.user_id` -/
  user_exists : ∀ i s, subscriptions.row i = some s → (users.row s.userId).isSome = true
  /-- `uq_subscriptions_active_user` -/
  one_active : ∀ i j s t user, subscriptions.row i = some s → subscriptions.row j = some t →
    activeUserKey s = some user → activeUserKey t = some user → i = j

/-- `t > now` of two columns or parameters -/
def isAfter (t now : DateTime) : Bool := now.micros < t.micros

namespace Tables

def userIds (db : Tables) : List ℕ := db.users.rows.map Prod.fst

def hasActiveSubscription (db : Tables) (condition : Subscription → Bool) (user : ℕ) : Bool :=
  !(db.subscriptions.select fun s => isActiveOf user 0 s && condition s).isEmpty

def comped (db : Tables) (user : ℕ) : Bool := db.hasActiveSubscription Subscription.hasFreeAccess user

def liveByTerm (db : Tables) (now : DateTime) (user : ℕ) : Bool :=
  db.hasActiveSubscription (fun s => isAfter s.expiresAt now) user

def accessOpen (db : Tables) (now : DateTime) (user : ℕ) : Bool :=
  db.hasActiveSubscription (fun s => s.hasFreeAccess || isAfter s.expiresAt now) user

/-- The clause of a value of the query string; an unknown value gives none. -/
def accessAxisClause (value : Option String) (now : DateTime) : Option (Tables → ℕ → Bool) :=
  match value.getD "" with
  | "comped" => some fun db user => db.comped user
  | "open" => some fun db user => db.liveByTerm now user && !db.comped user
  | "expired" => some fun db user => !db.accessOpen now user
  | _ => none

/-- `apply_user_filters` with the access axis alone -/
def usersWith (db : Tables) (access : Option String) (now : DateTime) : List ℕ :=
  match accessAxisClause access now with
  | some clause => db.userIds.filter (clause db)
  | none => db.userIds

/-- The row that `check_access` reads. -/
def subscriptionOf (db : Tables) (user : ℕ) : Option Subscription :=
  ((db.subscriptions.select (isActiveOf user 0)).argmax fun r => r.2.expiresAt.micros).map Prod.snd

def checkAccess (db : Tables) (user : ℕ) (now : DateTime) : Verdict := verdict (db.subscriptionOf user) now

end Tables

def payingSubscriptionClauses (now : DateTime) (s : Subscription) : Bool :=
  s.isActive && !s.hasFreeAccess && isAfter s.expiresAt now

def expiredNotRenewedClauses (now since : DateTime) (s : Subscription) : Bool :=
  s.isActive && !s.hasFreeAccess && !isAfter s.expiresAt now && isAfter s.expiresAt since

namespace Tables

def payingTotal (db : Tables) (now : DateTime) : ℕ :=
  (db.subscriptions.select (payingSubscriptionClauses now)).length

def usersOf (db : Tables) (clauses : Subscription → Bool) : List ℕ :=
  (db.subscriptions.select clauses).map fun r => r.2.userId

def IsActiveRow (db : Tables) (user : ℕ) (row : Option Subscription) : Prop :=
  match row with
  | some s => ∃ i, db.subscriptions.row i = some s ∧ activeUserKey s = some user
  | none => ∀ i s, db.subscriptions.row i = some s → activeUserKey s ≠ some user

variable {db : Tables} {user : ℕ} {now : DateTime}

theorem mem_userIds : user ∈ db.userIds ↔ (db.users.row user).isSome = true := by
  rw [userIds,Store.rows_ids,List.mem_filter,List.mem_range]
  constructor
  · exact fun h => h.2
  · intro h
    obtain ⟨u,hu⟩ := Option.isSome_iff_exists.mp h
    exact ⟨Store.row_lt hu,h⟩

theorem userIds_nodup (db : Tables) : db.userIds.Nodup := by
  rw [userIds,Store.rows_ids]
  exact List.nodup_range.filter _

theorem hasActiveSubscription_iff {condition : Subscription → Bool} :
    db.hasActiveSubscription condition user = true ↔
      ∃ i s, db.subscriptions.row i = some s ∧ activeUserKey s = some user ∧ condition s = true := by
  have hmem : ∀ i s, (i,s) ∈ (db.subscriptions.select fun s => isActiveOf user 0 s && condition s) ↔
      db.subscriptions.row i = some s ∧ activeUserKey s = some user ∧ condition s = true := by
    intro i s
    rw [Store.mem_select,Bool.and_eq_true,isActiveOf_iff]
  simp only [hasActiveSubscription,Bool.not_eq_true',List.isEmpty_eq_false_iff_exists_mem,Prod.exists,
    hmem]

theorem active_unique {i j : ℕ} {s t : Subscription} (hs : db.subscriptions.row i = some s)
    (ht : db.subscriptions.row j = some t) (hsu : activeUserKey s = some user)
    (htu : activeUserKey t = some user) : s = t := by
  have hij := db.one_active i j s t user hs ht hsu htu
  rw [hij,ht] at hs
  exact (Option.some.inj hs).symm

theorem isActiveRow_unique {row row' : Option Subscription} (h : db.IsActiveRow user row)
    (h' : db.IsActiveRow user row') : row = row' := by
  cases row with
  | none =>
    cases row' with
    | none => rfl
    | some t =>
      obtain ⟨j,ht,htu⟩ := h'
      exact absurd htu (h j t ht)
  | some s =>
    obtain ⟨i,hs,hsu⟩ := h
    cases row' with
    | none => exact absurd hsu (h' i s hs)
    | some t =>
      obtain ⟨j,ht,htu⟩ := h'
      rw [active_unique hs ht hsu htu]

theorem isActiveRow_subscriptionOf (db : Tables) (user : ℕ) : db.IsActiveRow user (db.subscriptionOf user) := by
  unfold subscriptionOf
  cases hlast : (db.subscriptions.select (isActiveOf user 0)).argmax fun r => r.2.expiresAt.micros with
  | none =>
    intro i s hs hsu
    have hnil := List.argmax_eq_none.mp hlast
    have hmem : (i,s) ∈ db.subscriptions.select (isActiveOf user 0) :=
      Store.mem_select.mpr ⟨hs,isActiveOf_iff.mpr hsu⟩
    rw [hnil] at hmem
    cases hmem
  | some r =>
    obtain ⟨i,s⟩ := r
    have hmem := Store.mem_select.mp (List.argmax_mem hlast)
    exact ⟨i,hmem.1,isActiveOf_iff.mp hmem.2⟩

/-- An `EXISTS` over the rows of a user is a condition on the active row. -/
theorem hasActiveSubscription_eq {condition : Subscription → Bool} {row : Option Subscription}
    (h : db.IsActiveRow user row) : db.hasActiveSubscription condition user = row.any condition := by
  rw [Bool.eq_iff_iff,hasActiveSubscription_iff]
  cases row with
  | none =>
    refine iff_of_false ?_ (by simp)
    rintro ⟨i,s,hs,hsu,_⟩
    exact h i s hs hsu
  | some s =>
    obtain ⟨i,hs,hsu⟩ := h
    simp only [Option.any_some]
    constructor
    · rintro ⟨j,t,ht,htu,hcondition⟩
      rwa [active_unique hs ht hsu htu]
    · intro hcondition
      exact ⟨i,s,hs,hsu,hcondition⟩

theorem accessOpen_eq {row : Option Subscription} (h : db.IsActiveRow user row) :
    db.accessOpen now user = accessIsOpen row now := by
  rw [accessOpen,hasActiveSubscription_eq h]
  cases row with
  | none => rfl
  | some s =>
    obtain ⟨_,_,hsu⟩ := h
    -- the comparison in SQL is that of `subscription_is_live`
    have hlive : isAfter s.expiresAt now = subscriptionIsLive s.expiresAt now := rfl
    simp [accessIsOpen,hlive,(activeUserKey_eq_some.mp hsu).1]

theorem accessOpen_eq_or (db : Tables) (user : ℕ) (now : DateTime) :
    db.accessOpen now user = (db.comped user || db.liveByTerm now user) := by
  have h := isActiveRow_subscriptionOf db user
  rw [accessOpen,comped,liveByTerm,hasActiveSubscription_eq h,hasActiveSubscription_eq h,
    hasActiveSubscription_eq h]
  cases db.subscriptionOf user <;> rfl

theorem mem_usersWith_comped : user ∈ db.usersWith (some "comped") now ↔
    user ∈ db.userIds ∧ db.comped user = true := List.mem_filter

theorem mem_usersWith_open : user ∈ db.usersWith (some "open") now ↔
    user ∈ db.userIds ∧ db.liveByTerm now user = true ∧ db.comped user = false := by
  refine List.mem_filter.trans ?_
  rw [Bool.and_eq_true,Bool.not_eq_true']

theorem mem_usersWith_expired : user ∈ db.usersWith (some "expired") now ↔
    user ∈ db.userIds ∧ db.accessOpen now user = false := by
  refine List.mem_filter.trans ?_
  rw [Bool.not_eq_true']

theorem mem_usersOf {clauses : Subscription → Bool} : user ∈ db.usersOf clauses ↔
    ∃ i s, db.subscriptions.row i = some s ∧ clauses s = true ∧ s.userId = user := by
  simp only [usersOf,List.mem_map,Prod.exists,Store.mem_select,and_assoc]

theorem user_of_row {i : ℕ} {s : Subscription} (h : db.subscriptions.row i = some s) :
    s.userId ∈ db.userIds :=
  mem_userIds.mpr (db.user_exists i s h)

theorem isActiveRow_of_row {i : ℕ} {s : Subscription} (h : db.subscriptions.row i = some s)
    (hactive : s.isActive = true) : db.IsActiveRow s.userId (some s) :=
  ⟨i,h,activeUserKey_eq_some.mpr ⟨hactive,rfl⟩⟩

theorem usersOf_nodup {clauses : Subscription → Bool} (h : ∀ s, clauses s = true → s.isActive = true) :
    (db.usersOf clauses).Nodup := by
  refine List.Nodup.map_on ?_ (List.Nodup.of_map Prod.fst (db.subscriptions.select_ids_nodup clauses))
  rintro ⟨i,s⟩ hs ⟨j,t⟩ ht huser
  obtain ⟨hs,hsc⟩ := Store.mem_select.mp hs
  obtain ⟨ht,htc⟩ := Store.mem_select.mp ht
  have hij : i = j := db.one_active i j s t t.userId hs ht
    (activeUserKey_eq_some.mpr ⟨h s hsc,huser⟩) (activeUserKey_eq_some.mpr ⟨h t htc,rfl⟩)
  subst hij
  rw [hs] at ht
  cases ht
  rfl

theorem paying_isActive {s : Subscription} (h : payingSubscriptionClauses now s = true) :
    s.isActive = true := by
  simp only [payingSubscriptionClauses,Bool.and_eq_true] at h
  exact h.1.1

theorem mem_usersOf_paying :
    user ∈ db.usersOf (payingSubscriptionClauses now) ↔ user ∈ db.usersWith (some "open") now := by
  rw [mem_usersOf,mem_usersWith_open]
  constructor
  · rintro ⟨i,s,hs,hpaying,rfl⟩
    have hrow := isActiveRow_of_row hs (paying_isActive hpaying)
    simp only [payingSubscriptionClauses,Bool.and_eq_true,Bool.not_eq_true'] at hpaying
    refine ⟨user_of_row hs,?_,?_⟩
    · rw [liveByTerm,hasActiveSubscription_eq hrow]
      exact hpaying.2
    · rw [comped,hasActiveSubscription_eq hrow]
      exact hpaying.1.2
  · rintro ⟨_,hlive,hcomped⟩
    obtain ⟨i,s,hs,hsu,hlive⟩ := hasActiveSubscription_iff.mp hlive
    obtain ⟨hactive,huser⟩ := activeUserKey_eq_some.mp hsu
    have hrow : db.IsActiveRow user (some s) := ⟨i,hs,hsu⟩
    rw [comped,hasActiveSubscription_eq hrow] at hcomped
    refine ⟨i,s,hs,?_,huser⟩
    simp only [Option.any_some] at hcomped
    simp [payingSubscriptionClauses,hactive,hcomped,hlive]

theorem payingTotal_eq (db : Tables) (now : DateTime) :
    db.payingTotal now = (db.usersWith (some "open") now).length := by
  have hnodup : (db.usersOf (payingSubscriptionClauses now)).Nodup := usersOf_nodup fun _ => paying_isActive
  have hopen : (db.usersWith (some "open") now).Nodup := db.userIds_nodup.filter _
  have hperm := (List.perm_ext_iff_of_nodup hnodup hopen).mpr fun _ => mem_usersOf_paying
  rw [← hperm.length_eq,usersOf,List.length_map]
  rfl

theorem expiredNotRenewed_subset {since : DateTime}
    (h : user ∈ db.usersOf (expiredNotRenewedClauses now since)) :
    user ∈ db.usersWith (some "expired") now := by
  obtain ⟨i,s,hs,hclauses,rfl⟩ := mem_usersOf.mp h
  simp only [expiredNotRenewedClauses,Bool.and_eq_true,Bool.not_eq_true'] at hclauses
  obtain ⟨⟨⟨hactive,hfree⟩,hdead⟩,_⟩ := hclauses
  refine mem_usersWith_expired.mpr ⟨user_of_row hs,?_⟩
  rw [accessOpen,hasActiveSubscription_eq (isActiveRow_of_row hs hactive)]
  simp [hfree,hdead]

theorem verdict_fst (row : Option Subscription) (now : DateTime) :
    (verdict row now).1 = accessIsOpen row now := by
  unfold verdict
  split
  · rename_i h
    exact h.symm
  · rename_i h
    exact (Bool.eq_false_iff.mpr h).symm

def accessValues : List String := ["comped","open","expired"]

theorem usersWith_partition (db : Tables) (now : DateTime) (user : ℕ) :
    (user ∈ db.userIds ↔ ∃ value ∈ accessValues, user ∈ db.usersWith (some value) now) ∧
    ∀ v ∈ accessValues, ∀ w ∈ accessValues, user ∈ db.usersWith (some v) now →
      user ∈ db.usersWith (some w) now → v = w := by
  have hor := accessOpen_eq_or db user now
  simp only [accessValues,List.forall_mem_cons,List.exists_mem_cons_iff,List.not_mem_nil,
    mem_usersWith_comped,mem_usersWith_open,mem_usersWith_expired,hor]
  cases db.comped user <;> cases db.liveByTerm now user <;> simp

theorem open_iff_allowed {row : Option Subscription} (huser : user ∈ db.userIds)
    (hrow : db.IsActiveRow user row) :
    ((user ∈ db.usersWith (some "comped") now ∨ user ∈ db.usersWith (some "open") now) ↔
      accessIsOpen row now = true) ∧
    (accessIsOpen row now = true ↔ (db.checkAccess user now).1 = true) := by
  have hread := isActiveRow_unique hrow (isActiveRow_subscriptionOf db user)
  refine ⟨?_,by rw [checkAccess,verdict_fst,hread]⟩
  rw [mem_usersWith_comped,mem_usersWith_open,← accessOpen_eq hrow,accessOpen_eq_or]
  cases db.comped user <;> cases db.liveByTerm now user <;> simp [huser]

end Tables

/-- The clauses of the access axis, the verdict on the active row, the answer of a check and the clauses on
subscriptions say the same about every content of the two tables. -/
theorem one_access_rule (db : Tables) (now : DateTime) :
    (∀ user, (user ∈ db.userIds ↔ ∃ value ∈ ["comped","open","expired"],
        user ∈ db.usersWith (some value) now) ∧
      ∀ v ∈ ["comped","open","expired"], ∀ w ∈ ["comped","open","expired"],
        user ∈ db.usersWith (some v) now → user ∈ db.usersWith (some w) now → v = w) ∧
    (∀ user ∈ db.userIds, ∀ row, db.IsActiveRow user row →
      ((user ∈ db.usersWith (some "comped") now ∨ user ∈ db.usersWith (some "open") now) ↔
        accessIsOpen row now = true) ∧
      (accessIsOpen row now = true ↔ (db.checkAccess user now).1 = true)) ∧
    (db.payingTotal now = (db.usersWith (some "open") now).length ∧
      (db.usersOf (payingSubscriptionClauses now)).Nodup ∧
      ∀ user, user ∈ db.usersOf (payingSubscriptionClauses now) ↔
        user ∈ db.usersWith (some "open") now) ∧
    ∀ since, ∀ user ∈ db.usersOf (expiredNotRenewedClauses now since),
      user ∈ db.usersWith (some "expired") now := by
  refine ⟨fun user => Tables.usersWith_partition db now user,fun user huser row hrow => ?_,⟨?_,?_,?_⟩,?_⟩
  · exact Tables.open_iff_allowed huser hrow
  · exact Tables.payingTotal_eq db now
  · exact Tables.usersOf_nodup fun _ => Tables.paying_isActive
  · exact fun _ => Tables.mem_usersOf_paying
  · exact fun _ _ => Tables.expiredNotRenewed_subset

/-! Four users on the second of January: free access with a dead date, a period that ends at this very
moment beside a later one that was deactivated, a live period, and no subscription. -/

def someRows : List Subscription :=
  [⟨0,noon 1 1 first_of_january,true,true⟩,⟨1,noon 1 2 second_of_january,true,false⟩,
    ⟨1,noon 1 3 third_of_january,false,false⟩,⟨2,noon 1 3 third_of_january,true,false⟩]

def listed {Row : Type} (rows : List Row) : Store Row :=
  ⟨rows.length,fun i => rows[i]?,fun _ hi => List.getElem?_eq_none hi⟩

def someUsers : List User := [⟨false,"UTC"⟩,⟨false,"UTC"⟩,⟨false,"UTC"⟩,⟨false,"UTC"⟩]

theorem someRows_users : ∀ s ∈ someRows, someUsers[s.userId]?.isSome = true := by decide

theorem someRows_active : ∀ i < 4, ∀ j < 4, (someRows[i]?.bind activeUserKey).isSome = true →
    someRows[i]?.bind activeUserKey = someRows[j]?.bind activeUserKey → i = j := by decide

def someTables : Tables where
  users := listed someUsers
  subscriptions := listed someRows
  user_exists := fun _ s hs => someRows_users s (List.mem_of_getElem? hs)
  one_active := by
    intro i j s t user hs ht hsu htu
    have hs : someRows[i]? = some s := hs
    have ht : someRows[j]? = some t := ht
    refine someRows_active i (List.getElem?_eq_some_iff.mp hs).1 j (List.getElem?_eq_some_iff.mp ht).1
      ?_ ?_
    · rw [hs,Option.bind_some,hsu]
      rfl
    · rw [hs,ht,Option.bind_some,Option.bind_some,hsu,htu]

theorem one_access_rule_someTables :
    someTables.usersWith (some "comped") (noon 1 2 second_of_january) = [0] ∧
    someTables.usersWith (some "open") (noon 1 2 second_of_january) = [2] ∧
    someTables.usersWith (some "expired") (noon 1 2 second_of_january) = [1,3] ∧
    someTables.payingTotal (noon 1 2 second_of_january) = 1 := by
  refine ⟨by decide,by decide,by decide,?_⟩
  rw [(one_access_rule someTables (noon 1 2 second_of_january)).2.2.1.1]
  decide

end AccessAxis
end Broadcaster
