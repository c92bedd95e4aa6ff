import Broadcaster.SubscriptionExtension
import Broadcaster.CalendarMonths

/-!
# The trial of a new user

`start_trial` inserts a subscription while a webhook may insert one for the same
user. Only the unique index decides between them; who loses looks for the row of
the other. The processes are those of the payments, and the end of the
registrations from `start_trial` on.
-/

namespace Broadcaster

namespace Table

variable {Row Key : Type}

/-- However the open transactions end, a committed row keeps its key. -/
def KeepsKeys (t : Table Row) (key : Row → Option Key) : Prop :=
  ∀ i k, (t.committed i).bind key = some k → ∀ o v, (t.slot i).draft = some (o,v) → v.bind key = some k

section Keys

variable {t t' : Table Row} {tx o i : ℕ} {key : Row → Option Key} {k : Key} {r : Row}

theorem KeepsKeys.view (h : t.KeepsKeys key) (hc : (t.committed i).bind key = some k) (tx : ℕ) :
    (t.view tx i).bind key = some k := by
  by_cases hh : t.holder i = some tx
  · exact h i k hc tx _ (draft_of_holder hh)
  · rwa [view_of_holder_ne hh]

theorem KeepsKeys.modify {p : ℕ → Row → Bool} {f : Row → Option Row} (h : t.KeepsKeys key)
    (hm : t.modify tx p f = some t') (hf : ∀ r, (f r).bind key = key r) : t'.KeepsKeys key := by
  intro i k hc o v hd
  rw [modify_committed hm] at hc
  rcases modify_slot_cases hm i with hs | ⟨r,hv,_,_,hs⟩
  · rw [hs] at hd
    exact h i k hc o v hd
  · rw [hs] at hd
    obtain ⟨rfl,rfl⟩ := Prod.mk.inj (Option.some.inj hd)
    have hview := h.view hc tx
    rw [hv] at hview
    rw [hf]
    exact hview

theorem KeepsKeys.insert (h : t.KeepsKeys key) (tx : ℕ) (r : Row) : (t.insert tx r).KeepsKeys key := by
  intro i k hc o v hd
  rw [insert_committed] at hc
  obtain ⟨row,hrow,_⟩ := Option.bind_eq_some_iff.mp hc
  rw [insert_slot_of_lt (committed_lt hrow)] at hd
  exact h i k hc o v hd

theorem KeepsKeys.commit (h : t.KeepsKeys key) (tx : ℕ) : (t.commit tx).KeepsKeys key := by
  intro i k hc o v hd
  obtain ⟨hbefore,hne⟩ := commit_draft hd
  have hother : t.holder i ≠ some tx := by
    rw [holder,hbefore]
    exact fun he => hne (Option.some.inj he)
  rw [commit_committed,view_of_holder_ne hother] at hc
  exact h i k hc o v hbefore

theorem KeepsKeys.rollback (h : t.KeepsKeys key) (tx : ℕ) : (t.rollback tx).KeepsKeys key := by
  intro i k hc o v hd
  rw [rollback_committed] at hc
  exact h i k hc o v (rollback_draft hd).1

theorem KeepsKeys.committed (h : t.KeepsKeys key) (hs : Statement tx t t')
    (hc : (t.committed i).bind key = some k) : (t'.committed i).bind key = some k := by
  cases hs with
  | keep => exact hc
  | modify hm => rwa [modify_committed hm]
  | insert r => rwa [insert_committed]
  | commit =>
    rw [commit_committed]
    exact h.view hc tx
  | rollback => rwa [rollback_committed]

theorem KeepsKeys.view_of_ne (h : t.KeepsKeys key) (hs : Statement tx t t') (hne : o ≠ tx)
    (hv : (t.view o i).bind key = some k) : (t'.view o i).bind key = some k := by
  by_cases hh : t.holder i = some o
  · have hslot := hs.slot_of_held hh hne
    unfold Table.view at hv ⊢
    rwa [hslot]
  · rw [view_of_holder_ne hh] at hv
    rw [view_of_holder_ne fun hh' => hh (hs.holder_of_ne hne hh')]
    exact h.committed hs hv

theorem holdsNone_rollback : (t.rollback tx).HoldsNone tx := fun _ hi => (rollback_holder hi).2 rfl

end Keys

end Table

namespace TrialRaces

open Calendar Interleaving PaymentService

def trialDays : ℕ := 5

def nextDay (d : Date) : Option Date :=
  if h : d.day < monthLength d.year d.month then some { d with day := d.day+1, day_pos := Nat.succ_pos _, day_le := h }
  else d.nextMonth.map fun e =>
    { e with day := 1, day_pos := Nat.one_pos, day_le := Nat.le_trans (Nat.le_add_left 1 27) (monthLength_pos _ _) }

def daysLater : ℕ → Date → Option Date
  | 0, d => some d
  | n+1, d => (nextDay d).bind (daysLater n)

/-- `now + timedelta(days=TRIAL_DAYS)`; `none` is an `OverflowError`. -/
def trialExpiresAt (now : DateTime) : Option DateTime :=
  (daysLater trialDays now.date).map fun d => { now with date := d }

theorem ordinal_nextDay {d e : Date} (h : nextDay d = some e) : e.ordinal = d.ordinal+1 := by
  unfold nextDay at h
  split at h
  · obtain rfl := Option.some.inj h
    exact (Nat.add_assoc _ d.day 1).symm
  · rename_i hlast
    obtain ⟨f,hf,rfl⟩ := Option.map_eq_some_iff.mp h
    have hday : d.day = monthLength d.year d.month := le_antisymm d.day_le (Nat.not_lt.mp hlast)
    have hnext := ordinal_nextMonth hf
    have hlength := d.monthDays_eq
    simp only [Date.ordinal] at hnext ⊢
    omega

theorem ordinal_daysLater {n : ℕ} {d e : Date} (h : daysLater n d = some e) : e.ordinal = d.ordinal+n := by
  induction n generalizing d with
  | zero =>
    obtain rfl := Option.some.inj h
    rfl
  | succ n ih =>
    obtain ⟨f,hf,he⟩ := Option.bind_eq_some_iff.mp h
    rw [ih he,ordinal_nextDay hf]
    omega

theorem micros_trialExpiresAt {now t : DateTime} (h : trialExpiresAt now = some t) :
    t.micros = now.micros + trialDays*dayMicros := by
  obtain ⟨d,hd,rfl⟩ := Option.map_eq_some_iff.mp h
  simp only [DateTime.micros,ordinal_daysLater hd]
  rw [Nat.mul_add,Nat.mul_comm dayMicros trialDays]
  omega

inductive Exception
  | integrityError | overflowError
  deriving DecidableEq

/-- A process of the payments, or one that registers a user. -/
inductive Pc
  | payment (pc : PaymentService.Pc)
  | startTrial (user : ℕ) | reread (user : ℕ) | commit (user : ℕ)
  | raised (e : Exception)
  | finished (user : ℕ)
  deriving DecidableEq

/-- The next statement. A rejected insertion is rolled back to its savepoint. -/
def step (db : Db) (tx : ℕ) (pc : Pc) (inp : Input) : Option (Db × Pc) :=
  match pc with
  | .payment pc => (PaymentService.step db tx pc inp).map fun r => (r.1,.payment r.2)
  | .startTrial user =>
    match trialExpiresAt inp.now with
    | none => some (db,.raised .overflowError)
    | some expiry =>
      match db.subscriptions.insertUnique tx activeUserKey (firstSubscription user expiry) with
      | .blocked => none
      | .violates => some (db,.reread user)
      | .inserted t => some (db.setSubscriptions t,.commit user)
  | .reread user =>
    if (db.subscriptions.select tx (isActiveOf user)).isEmpty then some (db,.raised .integrityError)
    else some (db,.commit user)
  | .commit user => some (db.commit tx,.finished user)
  | .raised _ | .finished _ => none

def machine : Machine Db Pc Input := ⟨step⟩

structure Initial (c : Config Db Pc) : Prop where
  closed : ∀ i, (c.db.subscriptions.slot i).draft = none
  index : c.db.subscriptions.Unique activeUserKey
  starts : ∀ p, (∃ user, c.pc p = .startTrial user) ∨ ∃ pc, c.pc p = .payment pc ∧ pc.isStart = true

/-- The process may have written to the subscriptions and has not ended its transaction. -/
def Pc.mayHold : Pc → Bool
  | .payment (.commitExtension _ _) | .payment (.closing _) | .commit _ => true
  | _ => false

/-- The user of whom the process relies on an active subscription. -/
def Pc.reliesOn : Pc → Option ℕ
  | .payment (.reread _ user _) | .reread user | .commit user | .finished user => some user
  | _ => none

structure Store (db : Db) : Prop where
  keys : db.subscriptions.KeepsKeys activeUserKey
  index : db.subscriptions.Unique activeUserKey

def Sees (db : Db) (tx user : ℕ) : Prop :=
  ∃ i, (db.subscriptions.view tx i).bind activeUserKey = some user

structure Sound (db : Db) (tx : ℕ) (pc : Pc) : Prop where
  free : pc.mayHold = false → db.subscriptions.HoldsNone tx
  sees : ∀ user, pc.reliesOn = some user → Sees db tx user
  accepted : pc ≠ .raised .integrityError

section Step

variable {db db' : Db} {tx o user : ℕ} {inp : Input} {expiry : DateTime} {t : Table Subscription}

theorem Sees.row (h : Sees db tx user) :
    ∃ i s, db.subscriptions.view tx i = some s ∧ activeUserKey s = some user := by
  obtain ⟨i,hi⟩ := h
  obtain ⟨s,hs,hkey⟩ := Option.bind_eq_some_iff.mp hi
  exact ⟨i,s,hs,hkey⟩

theorem Sees.active (h : Sees db tx user) : activeSubscription db tx user ≠ none := by
  intro hnone
  obtain ⟨i,s,hs,hkey⟩ := h.row
  exact activeSubscription_eq_none hnone hs hkey

theorem Sees.commit (h : Sees db tx user) : Sees (db.commit tx) tx user := by
  obtain ⟨i,hi⟩ := h
  refine ⟨i,?_⟩
  rw [Db.commit,Table.holdsNone_commit.view,Table.commit_committed]
  exact hi

/-- Whoever is rejected by the index sees the row that was there first. -/
theorem sees_of_violates
    (h : db.subscriptions.insertUnique tx activeUserKey (firstSubscription user expiry) = .violates) :
    Sees db tx user := by
  obtain ⟨k,hk,htaken⟩ := Table.insertUnique_violates h
  have hkey : activeUserKey (firstSubscription user expiry) = some user := rfl
  obtain rfl := Option.some.inj (hkey.symm.trans hk)
  exact Table.view_of_taken htaken

theorem sees_of_inserted
    (h : db.subscriptions.insertUnique tx activeUserKey (firstSubscription user expiry) = .inserted t) :
    Sees (db.setSubscriptions t) tx user := by
  obtain ⟨rfl,_⟩ := Table.insertUnique_inserted h
  refine ⟨db.subscriptions.size,?_⟩
  simp [Db.setSubscriptions,Table.view,Table.insert,firstSubscription,activeUserKey]

/-- The row of a trial ends five days of 24 hours after its insertion. -/
def TrialRow (db : Db) (tx user : ℕ) (now : DateTime) : Prop :=
  ∃ i s, db.subscriptions.view tx i = some s ∧ activeUserKey s = some user ∧
    s.expiresAt.micros = now.micros + trialDays*dayMicros

theorem trialRow_of_inserted {now : DateTime} (he : trialExpiresAt now = some expiry)
    (h : db.subscriptions.insertUnique tx activeUserKey (firstSubscription user expiry) = .inserted t) :
    TrialRow (db.setSubscriptions t) tx user now := by
  obtain ⟨rfl,_⟩ := Table.insertUnique_inserted h
  refine ⟨db.subscriptions.size,firstSubscription user expiry,?_,rfl,micros_trialExpiresAt he⟩
  simp [Db.setSubscriptions,Table.view,Table.insert]

theorem Store.inserted (hs : Store db) (hfree : db.subscriptions.HoldsNone tx)
    (h : db.subscriptions.insertUnique tx activeUserKey (firstSubscription user expiry) = .inserted t) :
    Store (db.setSubscriptions t) := by
  have hunique := hs.index.insertUnique hfree h
  obtain ⟨rfl,_⟩ := Table.insertUnique_inserted h
  exact ⟨hs.keys.insert tx _,hunique⟩

theorem Store.commit (hs : Store db) (tx : ℕ) : Store (db.commit tx) :=
  ⟨hs.keys.commit tx,hs.index.commit⟩

theorem Store.change {pc : PaymentService.Pc} (hs : Store db) (hp : Sound db tx (.payment pc))
    (h : SubscriptionsChange db tx pc t) : Store (db.setSubscriptions t) := by
  cases h with
  | keep => exact ⟨hs.keys,hs.index⟩
  | create _ hi => exact hs.inserted (hp.free rfl) hi
  | move hm =>
    refine ⟨hs.keys.modify hm fun _ => rfl,hs.index.modify hm ?_⟩
    intro i r r' k _ _ hr hk
    obtain rfl := Option.some.inj hr
    exact hk
  | commit => exact ⟨hs.keys.commit tx,hs.index.commit⟩
  | rollback => exact ⟨hs.keys.rollback tx,hs.index.rollback⟩

theorem payment_free {pc pc' : PaymentService.Pc} (hp : Sound db tx (.payment pc))
    (h : PaymentService.step db tx pc inp = some (db',pc'))
    (hm : (Pc.payment pc').mayHold = false) : db'.subscriptions.HoldsNone tx := by
  by_cases hpc : (Pc.payment pc).mayHold = true
  · cases pc with
    | commitExtension payment now =>
      obtain ⟨rfl,_⟩ := Prod.mk.inj (Option.some.inj h)
      exact Table.holdsNone_commit
    | closing outcome =>
      obtain ⟨rfl,_⟩ := Prod.mk.inj (Option.some.inj h)
      exact Table.holdsNone_rollback
    | _ => cases hpc
  · have hfree := hp.free (Bool.eq_false_iff.mpr hpc)
    have hchange := step_subscriptions h
    generalize db'.subscriptions = t at hchange ⊢
    cases hchange with
    | keep => exact hfree
    | create he hi =>
      simp only [PaymentService.step,he,hi,Option.some.injEq,Prod.mk.injEq] at h
      obtain ⟨_,rfl⟩ := h
      cases hm
    | move hw =>
      simp only [PaymentService.step,hw,Option.map_some,Option.some.injEq,Prod.mk.injEq] at h
      obtain ⟨_,rfl⟩ := h
      split at hm <;> cases hm
    | commit => exact Table.holdsNone_commit
    | rollback => exact Table.holdsNone_rollback

theorem step_reread {pc pc' : PaymentService.Pc} {payment : ℕ} {now : DateTime}
    (h : PaymentService.step db tx pc inp = some (db',pc')) (hc : pc' = .reread payment user now) :
    db' = db ∧ ∃ expiry, db.subscriptions.insertUnique tx activeUserKey
      (firstSubscription user expiry) = .violates := by
  revert h
  fun_cases PaymentService.step db tx pc inp <;> intro h <;>
    try simp only [Option.some.injEq,Prod.mk.injEq,Option.map_eq_some_iff,Prod.exists,reduceCtorEq] at h
  case case4 =>
    rcases receive_next h with ⟨_,rfl⟩ | ⟨_,_,_,_,rfl⟩ <;> cases hc
  case case5 =>
    obtain ⟨d,w,_,_,rfl⟩ := h
    split at hc <;> cases hc
  case case7 =>
    obtain ⟨d,w,_,_,rfl⟩ := h
    split at hc
    · split at hc <;> cases hc
    · cases hc
  case case9 | case15 =>
    obtain ⟨_,rfl⟩ := h
    rcases applyExtension_cases _ _ _ _ with ⟨e,_,he⟩ | he <;> rw [he] at hc <;> cases hc
  case case13 expiry _ hv =>
    obtain ⟨rfl,rfl⟩ := h
    cases hc
    exact ⟨rfl,expiry,hv⟩
  case case17 =>
    obtain ⟨t,_,_,rfl⟩ := h
    split at hc <;> cases hc
  case case22 | case33 | case35 =>
    obtain ⟨t,_,_,rfl⟩ := h
    cases hc
  case case30 =>
    obtain ⟨_,rfl⟩ := h
    split at hc <;> cases hc
  all_goals
    obtain ⟨_,rfl⟩ := h
    cases hc

theorem payment_own {pc pc' : PaymentService.Pc} (hs : Store db) (hp : Sound db tx (.payment pc))
    (h : PaymentService.step db tx pc inp = some (db',pc')) :
    Store db' ∧ Sound db' tx (.payment pc') := by
  have hstore := hs.change hp (step_subscriptions h)
  refine ⟨⟨hstore.keys,hstore.index⟩,payment_free hp h,?_,Pc.noConfusion⟩
  intro user hu
  cases pc' with
  | reread payment u now =>
    obtain rfl := Option.some.inj hu
    obtain ⟨rfl,expiry,hv⟩ := step_reread h rfl
    exact sees_of_violates hv
  | _ => cases hu

theorem step_startTrial {pc' : Pc} (h : step db tx (.startTrial user) inp = some (db',pc')) :
    (db' = db ∧ pc' = .raised .overflowError) ∨
    ∃ expiry, trialExpiresAt inp.now = some expiry ∧
      ((db.subscriptions.insertUnique tx activeUserKey (firstSubscription user expiry) = .violates ∧
        db' = db ∧ pc' = .reread user) ∨
      ∃ t, db.subscriptions.insertUnique tx activeUserKey (firstSubscription user expiry) = .inserted t ∧
        db' = db.setSubscriptions t ∧ pc' = .commit user) := by
  simp only [step] at h
  split at h
  · obtain ⟨rfl,rfl⟩ := Prod.mk.inj (Option.some.inj h)
    exact .inl ⟨rfl,rfl⟩
  · rename_i expiry he
    refine .inr ⟨expiry,he,?_⟩
    split at h
    · cases h
    · rename_i hv
      obtain ⟨rfl,rfl⟩ := Prod.mk.inj (Option.some.inj h)
      exact .inl ⟨hv,rfl,rfl⟩
    · rename_i t ht
      obtain ⟨rfl,rfl⟩ := Prod.mk.inj (Option.some.inj h)
      exact .inr ⟨t,ht,rfl,rfl⟩

theorem startTrial_own {pc' : Pc} (hs : Store db) (hp : Sound db tx (.startTrial user))
    (h : step db tx (.startTrial user) inp = some (db',pc')) : Store db' ∧ Sound db' tx pc' := by
  have hfree := hp.free rfl
  rcases step_startTrial h with ⟨rfl,rfl⟩ | ⟨expiry,_,⟨hv,rfl,rfl⟩ | ⟨t,ht,rfl,rfl⟩⟩
  · exact ⟨hs,fun _ => hfree,fun u hu => (by cases hu),by decide⟩
  · refine ⟨hs,fun _ => hfree,fun u hu => ?_,Pc.noConfusion⟩
    obtain rfl := Option.some.inj hu
    exact sees_of_violates hv
  · refine ⟨hs.inserted hfree ht,fun hm => (by cases hm),fun u hu => ?_,Pc.noConfusion⟩
    obtain rfl := Option.some.inj hu
    exact sees_of_inserted ht

theorem trialRow_of_step (h : step db tx (.startTrial user) inp = some (db',.commit user)) :
    TrialRow db' tx user inp.now := by
  rcases step_startTrial h with ⟨_,hpc⟩ | ⟨expiry,he,⟨_,_,hpc⟩ | ⟨t,ht,rfl,_⟩⟩
  · cases hpc
  · cases hpc
  · exact trialRow_of_inserted he ht

theorem own {pc pc' : Pc} (hs : Store db) (hp : Sound db tx pc)
    (h : step db tx pc inp = some (db',pc')) : Store db' ∧ Sound db' tx pc' := by
  cases pc with
  | payment pc =>
    obtain ⟨⟨d,p⟩,hd,he⟩ := Option.map_eq_some_iff.mp h
    obtain ⟨rfl,rfl⟩ := Prod.mk.inj he
    exact payment_own hs hp hd
  | startTrial user => exact startTrial_own hs hp h
  | reread user =>
    have hsees := hp.sees user rfl
    simp only [step] at h
    split at h
    · rename_i hempty
      -- the row that rejected the insertion is still there
      have hnil := List.isEmpty_iff.mp hempty
      exact absurd (List.argmax_eq_none.mpr hnil) hsees.active
    · obtain ⟨rfl,rfl⟩ := Prod.mk.inj (Option.some.inj h)
      exact ⟨hs,fun hm => (by cases hm),hp.sees,Pc.noConfusion⟩
  | commit user =>
    obtain ⟨rfl,rfl⟩ := Prod.mk.inj (Option.some.inj h)
    refine ⟨hs.commit tx,fun _ => Table.holdsNone_commit,fun u hu => ?_,Pc.noConfusion⟩
    exact (hp.sees u hu).commit
  | raised e => cases h
  | finished user => cases h

theorem statement_of_step {pc pc' : Pc} (h : step db tx pc inp = some (db',pc')) :
    Table.Statement tx db.subscriptions db'.subscriptions := by
  cases pc with
  | payment pc =>
    obtain ⟨⟨d,p⟩,hd,he⟩ := Option.map_eq_some_iff.mp h
    obtain ⟨rfl,_⟩ := Prod.mk.inj he
    exact (step_subscriptions hd).statement
  | startTrial user =>
    rcases step_startTrial h with ⟨rfl,_⟩ | ⟨expiry,_,⟨_,rfl,_⟩ | ⟨t,ht,rfl,_⟩⟩
    · exact .keep
    · exact .keep
    · obtain ⟨rfl,_⟩ := Table.insertUnique_inserted ht
      exact .insert _
  | reread user =>
    simp only [step] at h
    split at h <;> obtain ⟨rfl,_⟩ := Prod.mk.inj (Option.some.inj h) <;> exact .keep
  | commit user =>
    obtain ⟨rfl,_⟩ := Prod.mk.inj (Option.some.inj h)
    exact .commit
  | raised e => cases h
  | finished user => cases h

theorem Sound.frame {pc : Pc} (hp : Sound db o pc) (hs : Store db)
    (h : Table.Statement tx db.subscriptions db'.subscriptions) (hne : o ≠ tx) : Sound db' o pc := by
  refine ⟨fun hm => (hp.free hm).of_statement h hne,fun user hu => ?_,hp.accepted⟩
  obtain ⟨i,hi⟩ := hp.sees user hu
  exact ⟨i,hs.keys.view_of_ne h hne hi⟩

end Step

section Runs

variable {init c : Config Db Pc}

theorem storeSound_of_initial (hi : Initial init) : Asserted Store Sound init := by
  have hfree : ∀ p, init.db.subscriptions.HoldsNone p := by
    intro p i
    simp [Table.holder,hi.closed i]
  refine ⟨⟨?_,hi.index⟩,fun p => ?_⟩
  · intro i k _ o v hd
    rw [hi.closed i] at hd
    cases hd
  · rcases hi.starts p with ⟨user,hpc⟩ | ⟨pc,hpc,hstart⟩
    · rw [hpc]
      exact ⟨fun _ => hfree p,fun u hu => (by cases hu),Pc.noConfusion⟩
    · rw [hpc]
      refine ⟨fun _ => hfree p,fun user hu => ?_,Pc.noConfusion⟩
      cases pc with
      | reread payment u now => cases hstart
      | _ => cases hu

theorem storeSound_of_reaches (hi : Initial init) (h : Reaches machine anyMove init c) :
    Asserted Store Sound c := by
  refine asserted_of_reaches ?_ ?_ h (storeSound_of_initial hi)
  · intro c p inp db pc ha _ hs
    exact own ha.store (ha.process p) hs
  · intro c p inp db pc q ha _ hs hne
    exact (ha.process q).frame ha.store (statement_of_step hs) hne

/-- However registrations and payments of one user meet, there is one active subscription: no trial is
refused, no paid extension misses the row it was rejected for, and a finished trial is in the table. The row that
a registration inserts ends five days of 24 hours later. -/
theorem trials_and_payments_agree (hi : Initial init) (h : Reaches machine anyMove init c) :
    c.db.subscriptions.Unique activeUserKey ∧
    (∀ p, c.pc p ≠ .raised .integrityError) ∧
    (∀ p payment user now, c.pc p = .payment (.reread payment user now) →
      (activeSubscription c.db p user).isSome = true) ∧
    (∀ p user, c.pc p = .finished user → ∃ i s, ActiveRow c.db user i s) ∧
    ∀ m user c', c.pc m.1 = .startTrial user → next machine c m = some c' → c'.pc m.1 = .commit user →
      TrialRow c'.db m.1 user m.2.now := by
  have ha := storeSound_of_reaches hi h
  refine ⟨ha.store.index,fun p => (ha.process p).accepted,?_,?_,?_⟩
  · intro p payment user now hpc
    have hsees := (ha.process p).sees user (by rw [hpc]; rfl)
    exact Option.isSome_iff_ne_none.mpr hsees.active
  · intro p user hpc
    obtain ⟨i,s,hv,hkey⟩ := ((ha.process p).sees user (by rw [hpc]; rfl)).row
    have hfree := (ha.process p).free (by rw [hpc]; rfl)
    rw [hfree.view i] at hv
    exact ⟨i,s,hv,hkey⟩
  · intro m user c' hpc hnext hcommit
    obtain ⟨db,pc,hs,rfl⟩ := next_eq_some.mp hnext
    simp only [Function.update_self] at hcommit
    subst hcommit
    rw [hpc] at hs
    exact trialRow_of_step hs

end Runs

/-! A payment of a user whose registration has not come to its trial yet. -/

def paidBeforeTrial : Config Db Pc where
  db := ⟨paymentTable [openIntent],noSubscription,[],fun _ => none,[]⟩
  pc := fun p =>
    match p with
    | 0 => .payment (.webhook .paymentSucceeded (some "2f1a"))
    | 1 => .startTrial 1
    | _ => .payment (.finished (.answered false))

theorem initial_paidBeforeTrial : Initial paidBeforeTrial := by
  refine ⟨fun _ => rfl,Table.unique_of_size_le_one (by decide),fun p => ?_⟩
  match p with
  | 0 => exact .inr ⟨_,rfl,rfl⟩
  | 1 => exact .inl ⟨1,rfl⟩
  | _+2 => exact .inr ⟨_,rfl,rfl⟩

set_option maxRecDepth 4000 in
/-- The trial is inserted between the read of the webhook and its insertion, which is rejected. -/
theorem trials_and_payments_agree_paidBeforeTrial : ∃ c : Config Db Pc,
    c.db.subscriptions.Unique activeUserKey ∧
    c.pc 1 = .finished 1 ∧ (∃ i s, ActiveRow c.db 1 i s) ∧
    ∃ now, c.pc 0 = .payment (.reread 0 1 now) ∧ (activeSubscription c.db 0 1).isSome = true := by
  have hrun : (exec machine anyMove paidBeforeTrial (moves [0,0,0,1,1,0])).any (fun c =>
      c.pc 0 = .payment (.reread 0 1 (noon 1 3 third_of_january)) && c.pc 1 = .finished 1) = true := by decide
  obtain ⟨c,hc,htest⟩ := reaches_of_any hrun
  simp only [Bool.and_eq_true,decide_eq_true_eq] at htest
  obtain ⟨hunique,_,hreread,hrow,_⟩ := trials_and_payments_agree initial_paidBeforeTrial hc
  exact ⟨c,hunique,htest.2,hrow 1 1 htest.2,_,htest.1,hreread 0 0 1 _ htest.1⟩

end TrialRaces
end Broadcaster
