import Broadcaster.UniqueBackfills

/-!
# The move to the flat subscription

The data steps of `alembic/versions/0020_flat_subscription.py`: active rows of the
free plan are pulled forward to a window that opens at the moment of execution,
and users without an active row are given one. Both moments come from a single
reading of the clock. The logged readings change nothing and are left out.
-/

namespace Broadcaster
namespace FlatSubscription

open ScheduleService TableStatements UniqueBackfills

def freePlan : String := "free"

def trialDays : ℤ := 5

/-- `now + timedelta(days=TRIAL_DAYS)` -/
def trialExpiresAt (now : Instant) : Instant := now + trialDays*dayLength

variable {Columns : Type}

def resetFreeExpiry (deadline : Instant) : Statement (SubscriptionRow Columns) := fun _ _ r =>
  some (if r.isActive && r.plan == freePlan && decide (r.expiresAt < deadline)
    then { r with expiresAt := deadline } else r)

/-- `WHERE s.user_id = u.id AND s.is_active` -/
def activeOf (user : ℕ) (r : SubscriptionRow Columns) : Bool := r.userId == user && r.isActive

def lacksActive (s : Store (SubscriptionRow Columns)) (user : ℕ) : Bool := (s.select (activeOf user)).isEmpty

/-- The row that is inserted; the columns it does not name take their defaults. -/
def trialRow (deadline : Instant) (defaults : Columns) (user : ℕ) : SubscriptionRow Columns :=
  ⟨user,freePlan,deadline,true,defaults⟩

/-- `_INSERT_MISSING_SUBSCRIPTIONS`, the users read in some order -/
def insertMissing (deadline : Instant) (defaults : Columns) (users : List ℕ)
    (s : Store (SubscriptionRow Columns)) : Store (SubscriptionRow Columns) :=
  s.insertAll ((users.filter (lacksActive s)).map (trialRow deadline defaults))

/-- `upgrade` at the moment `now`, with what it may leave in `subscriptions`. -/
inductive Upgrades {U : Type} (now : Instant) (defaults : Columns) (users : Store U)
    (s : Store (SubscriptionRow Columns)) : Store (SubscriptionRow Columns) → Prop
  | upgrade {t : Store (SubscriptionRow Columns)} {order : List ℕ}
      (hreset : Executes (resetFreeExpiry (trialExpiresAt now)) s t)
      (horder : order.Perm (users.rows.map Prod.fst)) :
      Upgrades now defaults users s (insertMissing (trialExpiresAt now) defaults order t)

variable {U : Type} {now deadline : Instant} {defaults : Columns} {users : Store U} {user i : ℕ}
  {order : List ℕ} {s t s' : Store (SubscriptionRow Columns)} {r : SubscriptionRow Columns}

theorem row_reset (h : Executes (resetFreeExpiry deadline) s t) (i : ℕ) :
    t.row i = (s.row i).bind (resetFreeExpiry deadline s i) := by
  rw [h.eq_snapshot (stable_of_const _ s)]
  rfl

theorem resetFreeExpiry_free (h : r.isActive = true) (hfree : r.plan = freePlan) :
    resetFreeExpiry deadline s i r = some { r with expiresAt := max r.expiresAt deadline } := by
  by_cases hlt : r.expiresAt < deadline
  · simp [resetFreeExpiry,h,hfree,hlt,max_eq_right hlt.le]
  · rw [max_eq_left (not_lt.mp hlt)]
    simp [resetFreeExpiry,hlt]

theorem resetFreeExpiry_other (h : ¬(r.isActive = true ∧ r.plan = freePlan)) :
    resetFreeExpiry deadline s i r = some r := by
  simp only [resetFreeExpiry,Bool.and_eq_true,beq_iff_eq]
  rw [if_neg]
  exact fun hcond => h hcond.1

theorem reset_activeOf (user : ℕ) (h : Executes (resetFreeExpiry deadline) s t) (hr : t.row i = some r) :
    ∃ q, s.row i = some q ∧ activeOf user q = activeOf user r := by
  rw [row_reset h i] at hr
  obtain ⟨q,hq,hstep⟩ := Option.bind_eq_some_iff.mp hr
  refine ⟨q,hq,?_⟩
  simp only [resetFreeExpiry,Option.some.injEq] at hstep
  rw [← hstep]
  split <;> rfl

theorem reset_once (h : Executes (resetFreeExpiry deadline) s t) (honce : s.Once (activeOf user)) :
    t.Once (activeOf user) := by
  intro i j r q hr hq hra hqa
  obtain ⟨r',hr',her⟩ := reset_activeOf user h hr
  obtain ⟨q',hq',heq⟩ := reset_activeOf user h hq
  exact honce i j r' q' hr' hq' (her.trans hra) (heq.trans hqa)

theorem lacksActive_iff : lacksActive s user = true ↔ ∀ i r, s.row i = some r → activeOf user r = false := by
  rw [lacksActive,List.isEmpty_iff,Store.select_eq_nil]

theorem lacksActive_reset (h : Executes (resetFreeExpiry deadline) s t)
    (hlacks : lacksActive s user = true) : lacksActive t user = true := by
  rw [lacksActive_iff] at *
  intro i r hr
  obtain ⟨q,hq,he⟩ := reset_activeOf user h hr
  rw [← he,hlacks i q hq]

theorem row_insertMissing : (insertMissing deadline defaults order t).row i = some r ↔
    t.row i = some r ∨ ∃ k user, i = t.size+k ∧ (order.filter (lacksActive t))[k]? = some user ∧
      r = trialRow deadline defaults user := by
  rw [insertMissing,Store.row_insertAll]
  refine or_congr Iff.rfl (exists_congr fun k => ?_)
  simp only [List.getElem?_map,Option.map_eq_some_iff]
  constructor
  · rintro ⟨hi,user,huser,hr⟩
    exact ⟨user,hi,huser,hr.symm⟩
  · rintro ⟨user,hi,huser,hr⟩
    exact ⟨hi,user,huser,hr.symm⟩

theorem insertMissing_given (deadline : Instant) (defaults : Columns) (hnodup : order.Nodup)
    (hmem : user ∈ order) (hlacks : lacksActive t user = true) :
    ∃ i, t.row i = none ∧
      (insertMissing deadline defaults order t).row i = some (trialRow deadline defaults user) ∧
      ∀ j q, (insertMissing deadline defaults order t).row j = some q → activeOf user q = true → j = i := by
  have hgiven : user ∈ order.filter (lacksActive t) := List.mem_filter.mpr ⟨hmem,hlacks⟩
  obtain ⟨k,hk⟩ := List.mem_iff_getElem?.mp hgiven
  refine ⟨t.size+k,t.fresh _ (by omega),row_insertMissing.mpr (Or.inr ⟨k,user,rfl,hk,rfl⟩),?_⟩
  intro j q hq hactive
  rcases row_insertMissing.mp hq with hold | ⟨k',user',rfl,hk',rfl⟩
  · rw [lacksActive_iff.mp hlacks j q hold] at hactive
    cases hactive
  · have huser : user' = user := by simpa [activeOf,trialRow] using hactive
    subst huser
    obtain ⟨hlt,_⟩ := List.getElem?_eq_some_iff.mp hk'
    have hkk : k' = k := (List.getElem?_inj hlt (hnodup.filter _)).mp (hk'.trans hk.symm)
    rw [hkk]

theorem insertMissing_kept (honce : t.Once (activeOf user)) (hr : t.row i = some r)
    (hactive : activeOf user r = true) :
    ∀ j q, (insertMissing deadline defaults order t).row j = some q → activeOf user q = true → j = i := by
  intro j q hq hqa
  rcases row_insertMissing.mp hq with hold | ⟨k,user',rfl,hk,rfl⟩
  · exact honce j i q r hold hr hqa hactive
  · have huser : user' = user := by simpa [activeOf,trialRow] using hqa
    subst huser
    have hlacks := (List.mem_filter.mp (List.mem_of_getElem? hk)).2
    rw [lacksActive_iff.mp hlacks i r hr] at hactive
    cases hactive

structure NothingTaken (now : Instant) (defaults : Columns) (users : Store U)
    (s s' : Store (SubscriptionRow Columns)) : Prop where
  one_active : ∀ user u, users.row user = some u →
    ∃ i r, s'.row i = some r ∧ activeOf user r = true ∧
      ∀ j q, s'.row j = some q → activeOf user q = true → j = i
  not_earlier : ∀ i r, s.row i = some r → r.isActive = true →
    ∃ r', s'.row i = some r' ∧ r'.isActive = true ∧ r'.userId = r.userId ∧ r.expiresAt ≤ r'.expiresAt
  paid_untouched : ∀ i r, s.row i = some r → r.plan ≠ freePlan → s'.row i = some r
  inactive_untouched : ∀ i r, s.row i = some r → r.isActive = false → s'.row i = some r
  free_extended : ∀ i r, s.row i = some r → r.isActive = true → r.plan = freePlan →
    s'.row i = some { r with expiresAt := max r.expiresAt (trialExpiresAt now) }
  missing_given : ∀ user u, users.row user = some u →
    (∀ i r, s.row i = some r → activeOf user r = false) →
    ∃ i, s.row i = none ∧ s'.row i = some (trialRow (trialExpiresAt now) defaults user)

theorem mem_users {u : U} (h : users.row user = some u) : user ∈ users.rows.map Prod.fst := by
  rw [Store.rows_ids,List.mem_filter,List.mem_range]
  exact ⟨Store.row_lt h,by simp [h]⟩

theorem users_nodup (users : Store U) : (users.rows.map Prod.fst).Nodup := by
  rw [Store.rows_ids]
  exact List.nodup_range.filter _

theorem row_upgrade_free (h : Upgrades now defaults users s s') (hr : s.row i = some r)
    (hactive : r.isActive = true) (hfree : r.plan = freePlan) :
    s'.row i = some { r with expiresAt := max r.expiresAt (trialExpiresAt now) } := by
  obtain ⟨hreset,horder⟩ := h
  refine row_insertMissing.mpr (Or.inl ?_)
  rw [row_reset hreset,hr,Option.bind_some,resetFreeExpiry_free hactive hfree]

theorem row_upgrade_other (h : Upgrades now defaults users s s') (hr : s.row i = some r)
    (hother : ¬(r.isActive = true ∧ r.plan = freePlan)) : s'.row i = some r := by
  obtain ⟨hreset,horder⟩ := h
  refine row_insertMissing.mpr (Or.inl ?_)
  rw [row_reset hreset,hr,Option.bind_some,resetFreeExpiry_other hother]

theorem upgrade_not_earlier (h : Upgrades now defaults users s s') (hr : s.row i = some r)
    (hactive : r.isActive = true) :
    ∃ r', s'.row i = some r' ∧ r'.isActive = true ∧ r'.userId = r.userId ∧ r.expiresAt ≤ r'.expiresAt := by
  by_cases hfree : r.plan = freePlan
  · exact ⟨_,row_upgrade_free h hr hactive hfree,hactive,rfl,le_max_left _ _⟩
  · exact ⟨r,row_upgrade_other h hr fun hc => hfree hc.2,hactive,rfl,le_refl _⟩

theorem upgrade_given (h : Upgrades now defaults users s s') {u : U} (hu : users.row user = some u)
    (hlacks : ∀ i r, s.row i = some r → activeOf user r = false) :
    ∃ i, s.row i = none ∧ s'.row i = some (trialRow (trialExpiresAt now) defaults user) ∧
      ∀ j q, s'.row j = some q → activeOf user q = true → j = i := by
  obtain ⟨hreset,horder⟩ := h
  rename_i t order
  have hnone := lacksActive_reset hreset (lacksActive_iff.mpr hlacks)
  obtain ⟨i,hfree,hrow,hunique⟩ := insertMissing_given (trialExpiresAt now) defaults
    (horder.nodup_iff.mpr (users_nodup users)) (horder.mem_iff.mpr (mem_users hu)) hnone
  refine ⟨i,?_,hrow,hunique⟩
  cases hr : s.row i with
  | none => rfl
  | some r =>
    rw [row_reset hreset,hr,Option.bind_some] at hfree
    simp [resetFreeExpiry] at hfree

theorem upgrade_one_active (honce : ∀ user, s.Once (activeOf user)) (h : Upgrades now defaults users s s')
    {u : U} (hu : users.row user = some u) :
    ∃ i r, s'.row i = some r ∧ activeOf user r = true ∧
      ∀ j q, s'.row j = some q → activeOf user q = true → j = i := by
  by_cases hlacks : ∀ i r, s.row i = some r → activeOf user r = false
  · obtain ⟨i,_,hrow,hunique⟩ := upgrade_given h hu hlacks
    exact ⟨i,_,hrow,by simp [activeOf,trialRow],hunique⟩
  · obtain ⟨i,hlacks⟩ := not_forall.mp hlacks
    obtain ⟨r,hlacks⟩ := not_forall.mp hlacks
    obtain ⟨hr,hactive⟩ := Classical.not_imp.mp hlacks
    obtain ⟨hreset,horder⟩ := h
    rename_i t order
    have hstep : ∃ q, t.row i = some q ∧ activeOf user q = true := by
      rw [row_reset hreset,hr,Option.bind_some]
      refine ⟨_,rfl,?_⟩
      split
      · simpa [activeOf] using hactive
      · simpa using hactive
    obtain ⟨q,hq,hqa⟩ := hstep
    exact ⟨i,q,row_insertMissing.mpr (Or.inl hq),hqa,
      insertMissing_kept (reset_once hreset (honce user)) hq hqa⟩

/-- Nobody loses access, whatever the tables hold and whenever the revision runs. -/
theorem upgrade_takes_nothing (honce : ∀ user, s.Once (activeOf user))
    (h : Upgrades now defaults users s s') : NothingTaken now defaults users s s' where
  one_active := fun _ _ hu => upgrade_one_active honce h hu
  not_earlier := fun _ _ hr hactive => upgrade_not_earlier h hr hactive
  paid_untouched := fun _ _ hr hpaid => row_upgrade_other h hr fun hc => hpaid hc.2
  inactive_untouched := fun _ _ hr hinactive => row_upgrade_other h hr fun hc => by simp [hinactive] at hc
  free_extended := fun _ _ hr hactive hfree => row_upgrade_free h hr hactive hfree
  missing_given := by
    intro user u hu hlacks
    obtain ⟨i,hnone,hrow,_⟩ := upgrade_given h hu hlacks
    exact ⟨i,hnone,hrow⟩

/-- A free row whose term is over, a paid one whose term is over, and a user with history only. -/
def someSubscriptions : Store (SubscriptionRow Unit) :=
  (((Store.empty _).insert ⟨0,"free",-1,true,()⟩).insert ⟨1,"pro",-1,true,()⟩).insert ⟨2,"pro",-1,false,()⟩

def someUsers : Store Unit := (((Store.empty _).insert ()).insert ()).insert ()

theorem upgrade_takes_nothing_of_three : NothingTaken 0 () someUsers someSubscriptions
    (insertMissing (trialExpiresAt 0) () [2,0,1]
      (snapshot (resetFreeExpiry (trialExpiresAt 0)) someSubscriptions)) := by
  have honce : ∀ user, someSubscriptions.Once (activeOf user) := by
    intro user i j r q hr hq hra hqa
    have hi : i < 3 := Store.row_lt hr
    have hj : j < 3 := Store.row_lt hq
    have hactive : ∀ k < 3, ∀ r, someSubscriptions.row k = some r → r.isActive = true → r.userId = k := by
      intro k hk
      have : k = 0 ∨ k = 1 ∨ k = 2 := by omega
      rcases this with rfl | rfl | rfl
      all_goals
        rintro r ⟨⟩ _
        rfl
    simp only [activeOf,Bool.and_eq_true,beq_iff_eq] at hra hqa
    rw [← hactive i hi r hr hra.2,← hactive j hj q hq hqa.2,hra.1,hqa.1]
  exact upgrade_takes_nothing honce (.upgrade .atOnce (by decide))

end FlatSubscription
end Broadcaster
