import Broadcaster.PaymentSafety
import Mathlib.Algebra.Group.Nat.Defs

/-!
# Concurrent payments for one subscription

An extension reads `expires_at` in one statement and writes the moved value in
another. When every write still finds the value that was read, the committed
expiry is at all times the result of the committed extensions, applied one after
the other; so nothing that was paid is lost.
-/

namespace Broadcaster
namespace PaymentService

open Calendar SubscriptionPeriod Interleaving

/-- The successive extensions of an expiry; `none` when a year leaves the calendar. -/
def extendAll (start : Option DateTime) (times : List DateTime) : Option (Option DateTime) :=
  times.foldlM (fun expiry now => (nextExpiry expiry now).map some) start

theorem extendAll_append (start : Option DateTime) (times : List DateTime) (now : DateTime) :
    extendAll start (times ++ [now]) =
      (extendAll start times).bind fun expiry => (nextExpiry expiry now).map some := by
  simp [extendAll,List.foldlM_append]

theorem extendAll_ne_none {start : Option DateTime} {times : List DateTime} (h : times ≠ []) :
    extendAll start times ≠ some none := by
  rcases times.eq_nil_or_concat with hnil | ⟨first,last,hlast⟩
  · exact absurd hnil h
  rw [hlast,List.concat_eq_append,extendAll_append]
  intro he
  obtain ⟨expiry,_,hmap⟩ := Option.bind_eq_some_iff.mp he
  obtain ⟨t,_,ht⟩ := Option.map_eq_some_iff.mp hmap
  cases ht

/-- The row carries the subscription that `user` pays for. -/
def ActiveRow (db : Db) (user i : ℕ) (s : Subscription) : Prop :=
  db.subscriptions.committed i = some s ∧ activeUserKey s = some user

theorem activeUserKey_eq_some {s : Subscription} {user : ℕ} :
    activeUserKey s = some user ↔ s.isActive = true ∧ s.userId = user := by
  simp [activeUserKey]

theorem isActiveOf_iff {s : Subscription} {user i : ℕ} :
    isActiveOf user i s = true ↔ activeUserKey s = some user := by
  simp [isActiveOf,activeUserKey_eq_some,and_comm]

theorem activeSubscription_eq_some {db : Db} {tx user i : ℕ} {s : Subscription}
    (h : activeSubscription db tx user = some (i,s)) :
    db.subscriptions.view tx i = some s ∧ activeUserKey s = some user := by
  have hmem : (i,s) ∈ db.subscriptions.select tx (isActiveOf user) := List.argmax_mem h
  have hrow := Table.mem_select.mp hmem
  exact ⟨hrow.1,isActiveOf_iff.mp hrow.2⟩

theorem activeSubscription_eq_none {db : Db} {tx user i : ℕ} {s : Subscription}
    (h : activeSubscription db tx user = none) (hv : db.subscriptions.view tx i = some s) :
    activeUserKey s ≠ some user := by
  intro hkey
  have hnil : db.subscriptions.select tx (isActiveOf user) = [] := List.argmax_eq_none.mp h
  have hmem : (i,s) ∈ db.subscriptions.select tx (isActiveOf user) :=
    Table.mem_select.mpr ⟨hv,isActiveOf_iff.mpr hkey⟩
  rw [hnil] at hmem
  cases hmem

/-- The write of an extension finds the expiry that the extension was computed from. -/
def ExtendsFreshExpiry (c : Config Db Pc) (m : Move Input) : Prop :=
  match c.pc m.1 with
  | .moveExpiry _ _ subscription read _ =>
    (c.db.subscriptions.view m.1 subscription).all (fun s => s.expiresAt = read) = true
  | _ => True

instance (m : Move Input) (c : Config Db Pc) : Decidable (ExtendsFreshExpiry c m) := by
  unfold ExtendsFreshExpiry
  split <;> infer_instance

structure Notice where
  yookassaId : String
  payment : ℕ
  row : Payment

/-- `n` different subscription payments of one user, each notified of once. -/
structure Notified (user n : ℕ) (notice : ℕ → Notice) (init : Config Db Pc) : Prop where
  quiet : Quiet init
  index : init.db.subscriptions.Unique activeUserKey
  delivered : ∀ i, i < n → init.pc i = .webhook .paymentSucceeded (some (notice i).yookassaId)
  nonempty : ∀ i, i < n → (notice i).yookassaId ≠ ""
  row : ∀ i, i < n → init.db.payments.committed (notice i).payment = some (notice i).row
  found : ∀ i, i < n → (notice i).row.yookassaPaymentId = some (notice i).yookassaId
  sole : ∀ i, i < n → ∀ j p, init.db.payments.committed j = some p →
    p.yookassaPaymentId = some (notice i).yookassaId → j = (notice i).payment
  subscription : ∀ i, i < n → (notice i).row.kind = .subscription
  owner : ∀ i, i < n → (notice i).row.userId = user
  unpaid : ∀ i, i < n → (notice i).row.status.terminal = false
  distinct : ∀ i j, i < n → j < n → (notice i).payment = (notice j).payment → i = j
  others : ∀ i, n ≤ i → ∃ outcome, init.pc i = .finished outcome

def startingExpiry (init : Config Db Pc) (user : ℕ) : Option DateTime :=
  (activeSubscription init.db 0 user).map fun r => r.2.expiresAt

section Run

variable (user n : ℕ) (notice : ℕ → Notice) (init : Config Db Pc)

/-- The committed expiry is the result of the committed extensions. -/
structure Balanced (db : Db) : Prop where
  expiry : ∀ i s, ActiveRow db user i s →
    extendAll (startingExpiry init user) (db.extensions.map Extension.now) = some (some s.expiresAt)
  absent : (∀ i s, ¬ActiveRow db user i s) →
    extendAll (startingExpiry init user) (db.extensions.map Extension.now) = some none

structure ExtensionStore (db : Db) : Prop where
  index : db.subscriptions.Unique activeUserKey
  ids : ∀ i p, db.payments.MayBe i p → ∃ q, init.db.payments.committed i = some q ∧
    p.yookassaPaymentId = q.yookassaPaymentId
  held : ∀ i o, db.payments.holder i = some o → o < n ∧ i = (notice o).payment
  balanced : Balanced user init db
  credited : ∀ e ∈ db.extensions, (∃ i, i < n ∧ e.payment = (notice i).payment) ∧
    ∃ p, db.payments.committed e.payment = some p ∧ p.confirmedAt = some e.now
  once : (db.extensions.map Extension.payment).Nodup

/-- The transaction is about to commit an extension by `nextExpiry`, computed from the committed
row, and nothing else. -/
def Prepared (db : Db) (tx : ℕ) (now : DateTime) : Prop :=
  ∃ i s, (db.subscriptions.slot i).draft = some (tx,some s) ∧ activeUserKey s = some user ∧
    (∀ j, j ≠ i → db.subscriptions.holder j ≠ some tx) ∧
    ((∃ r, ActiveRow db user i r ∧ nextExpiry (some r.expiresAt) now = some s.expiresAt) ∨
      (db.subscriptions.committed i = none ∧ nextExpiry none now = some s.expiresAt))

def Unlogged (db : Db) (tx : ℕ) : Prop :=
  (notice tx).payment ∉ db.extensions.map Extension.payment

/-- The claimed payment was confirmed at the moment from which its period is counted. -/
def ConfirmedAt (db : Db) (tx : ℕ) (now : DateTime) : Prop :=
  ∃ p, (db.payments.slot (notice tx).payment).draft = some (tx,some p) ∧ p.confirmedAt = some now

def ExtensionAssert (db : Db) (tx : ℕ) : Pc → Prop
  | .webhook event yookassaId =>
    tx < n ∧ event = .paymentSucceeded ∧ yookassaId = some (notice tx).yookassaId ∧
      db.payments.slot (notice tx).payment = ⟨some (notice tx).row,none⟩ ∧
      db.subscriptions.HoldsNone tx ∧ Unlogged notice db tx
  | .claim event yookassaId payment row =>
    tx < n ∧ event = .paymentSucceeded ∧ yookassaId = (notice tx).yookassaId ∧
      payment = (notice tx).payment ∧ row = (notice tx).row ∧
      db.payments.slot (notice tx).payment =
        ⟨some (notice tx).row,some (tx,some (notice tx).row)⟩ ∧
      db.subscriptions.HoldsNone tx ∧ Unlogged notice db tx
  | .extend payment u now | .insertSubscription payment u now | .reread payment u now =>
    tx < n ∧ payment = (notice tx).payment ∧ u = user ∧ db.subscriptions.HoldsNone tx ∧
      Unlogged notice db tx ∧ ConfirmedAt notice db tx now
  | .moveExpiry payment now i read expiry =>
    tx < n ∧ payment = (notice tx).payment ∧ db.subscriptions.HoldsNone tx ∧
      Unlogged notice db tx ∧ ConfirmedAt notice db tx now ∧
      nextExpiry (some read) now = some expiry ∧ ∃ s, ActiveRow db user i s
  | .commitExtension payment now =>
    tx < n ∧ payment = (notice tx).payment ∧ Unlogged notice db tx ∧
      ConfirmedAt notice db tx now ∧ Prepared user db tx now
  | .closing (.raised _) => tx < n
  | .finished (.answered true) =>
    tx < n → (notice tx).payment ∈ db.extensions.map Extension.payment
  | .finished _ => True
  | _ => False

end Run

section Store

variable {user n : ℕ} {notice : ℕ → Notice} {init : Config Db Pc} {db db' : Db} {tx o : ℕ}
  {pc pc' : Pc} {inp : Input}

theorem Balanced.of_committed (hb : Balanced user init db)
    (hc : ∀ i, db'.subscriptions.committed i = db.subscriptions.committed i)
    (he : db'.extensions = db.extensions) : Balanced user init db' := by
  have hrow : ∀ i s, ActiveRow db' user i s ↔ ActiveRow db user i s := by
    intro i s
    rw [ActiveRow,ActiveRow,hc i]
  refine ⟨?_,?_⟩
  · intro i s hs
    rw [he]
    exact hb.expiry i s ((hrow i s).mp hs)
  · intro hnone
    rw [he]
    exact hb.absent fun i s hs => hnone i s ((hrow i s).mpr hs)

theorem payment_of_id (hn : Notified user n notice init) (hj : ExtensionStore user n notice init db)
    (htx : tx < n) {i : ℕ} {p : Payment} (hv : db.payments.view o i = some p)
    (hid : byYookassaId (notice tx).yookassaId i p = true) : i = (notice tx).payment := by
  obtain ⟨q,hq,hpq⟩ := hj.ids i p (Table.mayBe_of_view hv)
  refine hn.sole tx htx i q hq ?_
  rw [← hpq]
  simpa [byYookassaId] using hid

theorem ExtensionStore.setPayments (hj : ExtensionStore user n notice init db) (htx : tx < n)
    {sel : ℕ → Payment → Bool} {f : Payment → Option Payment} {t : Table Payment}
    (ht : db.payments.modify tx sel f = some t)
    (hsel : ∀ i p, db.payments.view tx i = some p → sel i p = true → i = (notice tx).payment)
    (hid : ∀ p q, f p = some q → q.yookassaPaymentId = p.yookassaPaymentId) :
    ExtensionStore user n notice init (db.setPayments t) := by
  have hcredited : ∀ e ∈ db.extensions, (∃ i, i < n ∧ e.payment = (notice i).payment) ∧
      ∃ p, t.committed e.payment = some p ∧ p.confirmedAt = some e.now := by
    intro e he
    rw [Table.modify_committed ht]
    exact hj.credited e he
  refine ⟨hj.index,?_,?_,hj.balanced.of_committed (fun _ => rfl) rfl,hcredited,hj.once⟩
  · intro i p hp
    rcases Table.mayBe_modify ht hp with hp | ⟨q,hv,_,hq⟩
    · exact hj.ids i p hp
    · obtain ⟨r,hr,hqr⟩ := hj.ids i q (Table.mayBe_of_view hv)
      exact ⟨r,hr,(hid q p hq).trans hqr⟩
  · intro i o hi
    have hslot := Table.modify_slot_cases ht i
    rcases hslot with hs | ⟨p,hv,hp,_,hs⟩
    · refine hj.held i o ?_
      simpa [Db.setPayments,Table.holder,hs] using hi
    · have ho : tx = o := by simpa [Db.setPayments,Table.holder,hs] using hi
      subst ho
      exact ⟨htx,hsel i p hv hp⟩

theorem ExtensionStore.setSubscriptions (hj : ExtensionStore user n notice init db)
    {t : Table Subscription} (hu : t.Unique activeUserKey)
    (hc : ∀ i, t.committed i = db.subscriptions.committed i) :
    ExtensionStore user n notice init (db.setSubscriptions t) :=
  ⟨hu,hj.ids,hj.held,hj.balanced.of_committed hc rfl,hj.credited,hj.once⟩

theorem ExtensionStore.rollback (hj : ExtensionStore user n notice init db) :
    ExtensionStore user n notice init (db.rollback tx) := by
  have hheld : ∀ i o, (db.payments.rollback tx).holder i = some o → db.payments.holder i = some o := by
    intro i o hi
    exact (Table.rollback_holder hi).1
  have hcredited : ∀ e ∈ db.extensions, (∃ i, i < n ∧ e.payment = (notice i).payment) ∧
      ∃ p, (db.payments.rollback tx).committed e.payment = some p ∧ p.confirmedAt = some e.now := by
    intro e he
    rw [Table.rollback_committed]
    exact hj.credited e he
  exact ⟨hj.index.rollback,fun i p hp => hj.ids i p (Table.mayBe_rollback hp),
    fun i o hi => hj.held i o (hheld i o hi),
    hj.balanced.of_committed (fun i => Table.rollback_committed i) rfl,hcredited,hj.once⟩

theorem Prepared.commit {now : DateTime} (hu : db.subscriptions.Unique activeUserKey)
    (hp : Prepared user db tx now) :
    ∃ i s, (db.subscriptions.commit tx).committed i = some s ∧ activeUserKey s = some user ∧
      (∀ j, j ≠ i → (db.subscriptions.commit tx).committed j = db.subscriptions.committed j) ∧
      (∀ j r, ActiveRow db user j r → j = i) ∧
      ((∃ r, ActiveRow db user i r ∧ nextExpiry (some r.expiresAt) now = some s.expiresAt) ∨
        ((∀ j r, ¬ActiveRow db user j r) ∧ nextExpiry none now = some s.expiresAt)) := by
  obtain ⟨i,s,hd,hkey,hothers,hcases⟩ := hp
  have hsole : ∀ j r, ActiveRow db user j r → j = i := by
    intro j r hr
    exact hu user j i ⟨r,.inl hr.1,hr.2⟩ ⟨s,.inr ⟨tx,hd⟩,hkey⟩
  refine ⟨i,s,?_,hkey,?_,hsole,?_⟩
  · rw [Table.commit_committed]
    exact Table.view_of_draft hd
  · intro j hne
    rw [Table.commit_committed]
    exact Table.view_of_holder_ne (hothers j hne)
  · rcases hcases with hr | ⟨hnone,he⟩
    · exact .inl hr
    · refine .inr ⟨?_,he⟩
      intro j r hr
      rw [ActiveRow,hsole j r hr,hnone] at hr
      cases hr.1

theorem Balanced.commit {payment : ℕ} {now : DateTime} (hu : db.subscriptions.Unique activeUserKey)
    (hb : Balanced user init db) (hp : Prepared user db tx now) :
    Balanced user init ((db.commit tx).logExtension ⟨payment,now⟩) := by
  obtain ⟨i,s,hi,hkey,hothers,hsole,hcases⟩ := hp.commit hu
  have hlog : ((db.commit tx).logExtension ⟨payment,now⟩).extensions.map Extension.now =
      db.extensions.map Extension.now ++ [now] := by
    simp [Db.logExtension,Db.commit]
  have hfold : extendAll (startingExpiry init user) (db.extensions.map Extension.now ++ [now]) =
      some (some s.expiresAt) := by
    rw [extendAll_append]
    rcases hcases with ⟨r,hr,he⟩ | ⟨hnone,he⟩
    · rw [hb.expiry i r hr,Option.bind_some,he,Option.map_some]
    · rw [hb.absent hnone,Option.bind_some,he,Option.map_some]
  refine ⟨?_,?_⟩
  · intro j r hr
    have hji : j = i := by
      by_contra hne
      have hold : ActiveRow db user j r := ⟨(hothers j hne).symm.trans hr.1,hr.2⟩
      exact hne (hsole j r hold)
    have hrs : r = s := by
      rw [hji] at hr
      exact Option.some.inj (hr.1.symm.trans hi)
    rw [hlog,hrs,hfold]
  · intro hnone
    exact absurd ⟨hi,hkey⟩ (hnone i s)

theorem ExtensionStore.commit {now : DateTime} (hj : ExtensionStore user n notice init db)
    (htx : tx < n) (hu : Unlogged notice db tx) (hc : ConfirmedAt notice db tx now)
    (hp : Prepared user db tx now) :
    ExtensionStore user n notice init ((db.commit tx).logExtension ⟨(notice tx).payment,now⟩) := by
  have hheld : ∀ i o, (db.payments.commit tx).holder i = some o → db.payments.holder i = some o := by
    intro i o hi
    exact (Table.commit_holder hi).1
  refine ⟨hj.index.commit,fun i p hm => hj.ids i p (Table.mayBe_commit hm),
    fun i o hi => hj.held i o (hheld i o hi),hj.balanced.commit hj.index hp,?_,?_⟩
  · intro e he
    rcases List.mem_append.mp he with he | he
    · have hother : db.payments.holder e.payment ≠ some tx := by
        intro hh
        refine hu (List.mem_map.mpr ⟨e,he,?_⟩)
        exact (hj.held e.payment tx hh).2
      have hsame : (db.payments.commit tx).committed e.payment = db.payments.committed e.payment := by
        rw [Table.commit_committed,Table.view_of_holder_ne hother]
      obtain ⟨hi,p,hpc,hnow⟩ := hj.credited e he
      exact ⟨hi,p,hsame.trans hpc,hnow⟩
    · obtain ⟨p,hd,hnow⟩ := hc
      rw [List.mem_singleton.mp he]
      refine ⟨⟨tx,htx,rfl⟩,p,?_,hnow⟩
      have hv := Table.view_of_draft hd
      rw [← Table.commit_committed] at hv
      exact hv
  · have hlog : ((db.commit tx).logExtension ⟨(notice tx).payment,now⟩).extensions.map
        Extension.payment = db.extensions.map Extension.payment ++ [(notice tx).payment] := by
      simp [Db.logExtension,Db.commit]
    rw [hlog,List.nodup_append]
    refine ⟨hj.once,List.nodup_singleton _,?_⟩
    intro a ha b hb hab
    rw [List.mem_singleton.mp hb] at hab
    rw [hab] at ha
    exact hu ha

/-- The store invariant after a move, and the assertion that the mover has reached. -/
def Established (user n : ℕ) (notice : ℕ → Notice) (init : Config Db Pc) (db : Db) (tx : ℕ) (pc : Pc) :
    Prop :=
  ExtensionStore user n notice init db ∧ ExtensionAssert user n notice db tx pc

theorem extension_webhook (hn : Notified user n notice init)
    (hj : ExtensionStore user n notice init db) {event : WebhookEvent} {yookassaId : Option String}
    (hl : ExtensionAssert user n notice db tx (.webhook event yookassaId))
    (h : step db tx (.webhook event yookassaId) inp = some (db',pc')) :
    Established user n notice init db' tx pc' := by
  obtain ⟨htx,rfl,rfl,hslot,hfree,hlog⟩ := hl
  have hrow : db.payments.view tx (notice tx).payment = some (notice tx).row := by
    simp [Table.view,hslot]
  have hid : byYookassaId (notice tx).yookassaId (notice tx).payment (notice tx).row = true := by
    simp [byYookassaId,hn.found tx htx]
  have hsel : db.payments.select tx (byYookassaId (notice tx).yookassaId) =
      [((notice tx).payment,(notice tx).row)] :=
    Table.select_eq_singleton hrow hid fun j q hv hq => payment_of_id hn hj htx hv hq
  simp only [step,reduceCtorEq,if_false,hn.nonempty tx htx,receive,hsel,Option.map_eq_some_iff,
    Prod.mk.injEq,hn.unpaid tx htx,Bool.false_eq_true] at h
  obtain ⟨t,ht,rfl,rfl⟩ := h
  have hnew := Table.modify_slot_selected ht hrow hid
  refine ⟨hj.setPayments htx ht (fun i p hv hp => payment_of_id hn hj htx hv hp) ?_,?_⟩
  · intro p q hq
    rw [Option.some.inj hq]
  · refine ⟨htx,rfl,rfl,rfl,rfl,?_,hfree,hlog⟩
    rw [Db.setPayments,hnew]
    simp [Table.committed,hslot]

theorem extension_claim (hn : Notified user n notice init)
    (hj : ExtensionStore user n notice init db) {event : WebhookEvent} {yookassaId : String}
    {payment : ℕ} {row : Payment}
    (hl : ExtensionAssert user n notice db tx (.claim event yookassaId payment row))
    (h : step db tx (.claim event yookassaId payment row) inp = some (db',pc')) :
    Established user n notice init db' tx pc' := by
  obtain ⟨htx,rfl,rfl,rfl,rfl,hslot,hfree,hlog⟩ := hl
  have hrow : db.payments.view tx (notice tx).payment = some (notice tx).row := by
    simp [Table.view,hslot]
  have hclaim : claimable (notice tx).yookassaId (notice tx).payment (notice tx).row = true := by
    simp [claimable,byYookassaId,hn.found tx htx,hn.unpaid tx htx]
  have hmine : ∀ i p, db.payments.view tx i = some p → claimable (notice tx).yookassaId i p = true →
      i = (notice tx).payment := by
    intro i p hv hp
    exact payment_of_id hn hj htx hv (Bool.and_eq_true_iff.mp hp).1
  have hsel : db.payments.select tx (claimable (notice tx).yookassaId) =
      [((notice tx).payment,(notice tx).row)] := Table.select_eq_singleton hrow hclaim hmine
  simp only [step,reduceCtorEq,if_false,hn.subscription tx htx,ne_eq,not_true_eq_false,false_and,
    claimPayment,hsel,Option.map_map,Option.map_eq_some_iff,Function.comp,Prod.mk.injEq,
    List.length_singleton,beq_self_eq_true,if_true] at h
  obtain ⟨t,ht,rfl,rfl⟩ := h
  have hnew := Table.modify_slot_selected ht hrow hclaim
  refine ⟨hj.setPayments htx ht hmine ?_,htx,rfl,hn.owner tx htx,hfree,hlog,
    (notice tx).row.claimed .succeeded inp.now,by simp [Db.setPayments,hnew],rfl⟩
  intro p q hq
  rw [← Option.some.inj hq]
  rfl

theorem extension_read (hj : ExtensionStore user n notice init db) {i : ℕ} {s : Subscription}
    {now : DateTime} (hread : activeSubscription db tx user = some (i,s)) (htx : tx < n)
    (hfree : db.subscriptions.HoldsNone tx) (hlog : Unlogged notice db tx)
    (hc : ConfirmedAt notice db tx now) :
    Established user n notice init db tx (applyExtension (notice tx).payment now i s) := by
  have hrow := activeSubscription_eq_some hread
  rw [hfree.view i] at hrow
  rcases applyExtension_cases (notice tx).payment now i s with ⟨expiry,he,hpc⟩ | hpc
  · rw [hpc]
    exact ⟨hj,htx,rfl,hfree,hlog,hc,he,s,hrow⟩
  · rw [hpc]
    exact ⟨hj,htx⟩

theorem extension_insert (hj : ExtensionStore user n notice init db) {payment u : ℕ} {now : DateTime}
    (hl : ExtensionAssert user n notice db tx (.insertSubscription payment u now))
    (h : step db tx (.insertSubscription payment u now) inp = some (db',pc')) :
    Established user n notice init db' tx pc' := by
  obtain ⟨htx,rfl,rfl,hfree,hlog,hc⟩ := hl
  simp only [step] at h
  split at h
  · cases h
    exact ⟨hj,htx⟩
  · rename_i expiry he
    split at h
    · cases h
    · cases h
      exact ⟨hj,htx,rfl,rfl,hfree,hlog,hc⟩
    · rename_i t ht
      cases h
      have hu := hj.index.insertUnique hfree ht
      obtain ⟨rfl,_⟩ := Table.insertUnique_inserted ht
      refine ⟨hj.setSubscriptions hu fun i => Table.insert_committed i,htx,rfl,hlog,hc,?_⟩
      refine ⟨db.subscriptions.size,firstSubscription u expiry,by simp [Db.setSubscriptions],
        by simp [activeUserKey,firstSubscription],?_,?_⟩
      · intro j hne hj'
        have hold : db.subscriptions.holder j = some tx := by
          simpa [Db.setSubscriptions,Table.holder,Table.insert_slot_of_ne hne] using hj'
        exact hfree j hold
      · right
        refine ⟨?_,he⟩
        rw [Db.setSubscriptions,Table.insert_committed]
        by_contra hsome
        obtain ⟨r,hr⟩ := Option.ne_none_iff_exists'.mp hsome
        exact absurd (Table.committed_lt hr) (Nat.lt_irrefl _)

theorem extension_move (hj : ExtensionStore user n notice init db) {payment i : ℕ}
    {now read expiry : DateTime}
    (hl : ExtensionAssert user n notice db tx (.moveExpiry payment now i read expiry))
    (hfresh : (db.subscriptions.view tx i).all (fun s => s.expiresAt = read) = true)
    (h : step db tx (.moveExpiry payment now i read expiry) inp = some (db',pc')) :
    Established user n notice init db' tx pc' := by
  obtain ⟨htx,rfl,hfree,hlog,hc,he,s,hrow⟩ := hl
  have hv : db.subscriptions.view tx i = some s := (hfree.view i).trans hrow.1
  have hread : s.expiresAt = read := by simpa [hv] using hfresh
  simp only [step,hv,Option.isSome_some,if_true,Option.map_eq_some_iff,Prod.mk.injEq] at h
  obtain ⟨t,ht,rfl,rfl⟩ := h
  have hslot := Table.modify_slot_selected ht hv (by simp [hasId])
  have hu : t.Unique activeUserKey := by
    refine hj.index.modify ht ?_
    intro j r r' k _ _ hr hk
    rw [← Option.some.inj hr] at hk
    exact hk
  refine ⟨hj.setSubscriptions hu (Table.modify_committed ht),htx,rfl,hlog,hc,?_⟩
  refine ⟨i,s.withExpiry expiry,by simp [Db.setSubscriptions,hslot],hrow.2,?_,?_⟩
  · intro j hne hheld
    have hother : t.slot j = db.subscriptions.slot j := by
      refine Table.modify_slot_other ht ?_
      intro r _
      simp [hasId,hne]
    have hold : db.subscriptions.holder j = some tx := by
      simpa [Db.setSubscriptions,Table.holder,hother] using hheld
    exact hfree j hold
  · left
    refine ⟨s,⟨(Table.modify_committed ht i).trans hrow.1,hrow.2⟩,?_⟩
    rw [hread]
    exact he

theorem extension_own (hn : Notified user n notice init) (hj : ExtensionStore user n notice init db)
    (hl : ExtensionAssert user n notice db tx pc)
    (hg : ∀ payment now i read expiry, pc = .moveExpiry payment now i read expiry →
      (db.subscriptions.view tx i).all (fun s => s.expiresAt = read) = true)
    (h : step db tx pc inp = some (db',pc')) : Established user n notice init db' tx pc' := by
  cases pc with
  | webhook event yookassaId => exact extension_webhook hn hj hl h
  | claim event yookassaId payment row => exact extension_claim hn hj hl h
  | extend payment u now =>
    obtain ⟨htx,rfl,rfl,hfree,hlog,hc⟩ := hl
    simp only [step] at h
    split at h
    · rename_i i s hread
      cases h
      exact extension_read hj hread htx hfree hlog hc
    · cases h
      exact ⟨hj,htx,rfl,rfl,hfree,hlog,hc⟩
  | insertSubscription payment u now => exact extension_insert hj hl h
  | reread payment u now =>
    obtain ⟨htx,rfl,rfl,hfree,hlog,hc⟩ := hl
    simp only [step] at h
    split at h
    · rename_i i s hread
      cases h
      exact extension_read hj hread htx hfree hlog hc
    · cases h
      exact ⟨hj,htx⟩
  | moveExpiry payment now i read expiry =>
    exact extension_move hj hl (hg payment now i read expiry rfl) h
  | commitExtension payment now =>
    obtain ⟨htx,rfl,hlog,hc,hp⟩ := hl
    cases h
    exact ⟨hj.commit htx hlog hc hp,fun _ => by simp [Db.logExtension,Db.commit]⟩
  | closing outcome =>
    cases h
    cases outcome with
    | answered _ => exact hl.elim
    | created _ => exact hl.elim
    | raised _ => exact ⟨hj.rollback,trivial⟩
  | finished outcome => cases h
  | _ => exact hl.elim

theorem payments_frame (hn : Notified user n notice init) (hj : ExtensionStore user n notice init db)
    (hl : ExtensionAssert user n notice db tx pc) (h : step db tx pc inp = some (db',pc')) {i : ℕ}
    (hne : i ≠ (notice tx).payment) : db'.payments.slot i = db.payments.slot i := by
  have hs := step_payments h
  have hheld : db.payments.holder i ≠ some tx := fun hh => hne (hj.held i tx hh).2
  generalize db'.payments = t at hs
  cases hs with
  | keep => rfl
  | lock hm =>
    obtain ⟨htx,rfl,hid,_⟩ := hl
    rcases Table.modify_slot_cases hm i with hs | ⟨p,hv,hp,_⟩
    · exact hs
    · rw [Option.some.inj hid] at hp
      exact absurd (payment_of_id hn hj htx hv hp) hne
  | claim _ hm =>
    obtain ⟨htx,rfl,rfl,_⟩ := hl
    rcases Table.modify_slot_cases hm i with hs | ⟨p,hv,hp,_⟩
    · exact hs
    · exact absurd (payment_of_id hn hj htx hv (Bool.and_eq_true_iff.mp hp).1) hne
  | commit => exact Table.commit_slot_of_ne hheld
  | rollback => exact Table.rollback_slot_of_ne hheld
  | _ => exact hl.elim

theorem extensions_frame (hl : ExtensionAssert user n notice db tx pc)
    (h : step db tx pc inp = some (db',pc')) :
    db'.extensions = db.extensions ∨ ∃ now, db'.extensions = db.extensions ++ [⟨(notice tx).payment,now⟩] ∧
      tx < n ∧ Prepared user db tx now ∧
      db'.subscriptions = db.subscriptions.commit tx := by
  rcases step_extensions h with he | ⟨payment,now,rfl,_,rfl⟩
  · exact .inl he
  · obtain ⟨htx,rfl,_,_,hp⟩ := hl
    exact .inr ⟨now,rfl,htx,hp,rfl⟩

theorem activeRow_frame (hj : ExtensionStore user n notice init db)
    (hl : ExtensionAssert user n notice db tx pc) (h : step db tx pc inp = some (db',pc')) {i : ℕ}
    {s : Subscription} (hs : ActiveRow db user i s) : ∃ r, ActiveRow db' user i r := by
  have hsub := step_subscriptions h
  have hsame : (∀ j, db'.subscriptions.committed j = db.subscriptions.committed j) →
      ∃ r, ActiveRow db' user i r := by
    intro hc
    exact ⟨s,(hc i).trans hs.1,hs.2⟩
  generalize hd : db'.subscriptions = t at hsub hsame
  cases hsub with
  | keep => exact hsame fun _ => rfl
  | create _ h =>
    obtain ⟨rfl,_⟩ := Table.insertUnique_inserted h
    exact hsame Table.insert_committed
  | move h => exact hsame (Table.modify_committed h)
  | rollback => exact hsame Table.rollback_committed
  | commit hc =>
    cases pc with
    | commitExtension payment now =>
      obtain ⟨_,_,_,_,hp⟩ := hl
      obtain ⟨j,r,hr,hkey,_,hsole,_⟩ := hp.commit hj.index
      have he : i = j := hsole i s hs
      refine ⟨r,?_,hkey⟩
      rw [hd,he]
      exact hr
    | commitClaim => exact hl.elim
    | sweepCommit user stale => exact hl.elim
    | reserveCommit user reserved => exact hl.elim
    | recordCommit yookassaId => exact hl.elim
    | expireCommit => exact hl.elim
    | packageCommit yookassaId => exact hl.elim
    | _ => cases hc

theorem prepared_frame {now : DateTime} (hne : o ≠ tx) (hp : Prepared user db o now)
    (h : step db tx pc inp = some (db',pc')) : Prepared user db' o now := by
  have hs := (step_subscriptions h).statement
  obtain ⟨i,s,hd,hkey,hothers,hcases⟩ := hp
  have hslot : db'.subscriptions.slot i = db.subscriptions.slot i :=
    hs.slot_of_held (Table.holder_eq_some.mpr ⟨_,hd⟩) hne
  have hc : db'.subscriptions.committed i = db.subscriptions.committed i := by
    rw [Table.committed,Table.committed,hslot]
  refine ⟨i,s,by rw [hslot]; exact hd,hkey,?_,?_⟩
  · intro j hji hheld
    exact hothers j hji (hs.holder_of_ne hne hheld)
  · rcases hcases with ⟨r,hr,he⟩ | ⟨hnone,he⟩
    · exact .inl ⟨r,⟨hc.trans hr.1,hr.2⟩,he⟩
    · exact .inr ⟨hc.trans hnone,he⟩

theorem extension_frame (hn : Notified user n notice init) (hj : ExtensionStore user n notice init db)
    (hl : ExtensionAssert user n notice db tx pc) (hne : o ≠ tx) {pco : Pc}
    (ho : ExtensionAssert user n notice db o pco) (h : step db tx pc inp = some (db',pc')) :
    ExtensionAssert user n notice db' o pco := by
  have hfree : db.subscriptions.HoldsNone o → db'.subscriptions.HoldsNone o :=
    fun hf => hf.of_statement (step_subscriptions h).statement hne
  have hslot : o < n → db'.payments.slot (notice o).payment = db.payments.slot (notice o).payment := by
    intro hon
    by_cases htx : tx < n
    · refine payments_frame hn hj hl h ?_
      intro he
      exact hne (hn.distinct o tx hon htx he)
    · -- the processes from `n` on have nothing left to do
      cases pc with
      | webhook event yookassaId => exact absurd hl.1 htx
      | claim event yookassaId payment row => exact absurd hl.1 htx
      | extend payment u now => exact absurd hl.1 htx
      | insertSubscription payment u now => exact absurd hl.1 htx
      | reread payment u now => exact absurd hl.1 htx
      | moveExpiry payment now i read expiry => exact absurd hl.1 htx
      | commitExtension payment now => exact absurd hl.1 htx
      | closing outcome =>
        match outcome, hl with
        | .raised _, hl => exact absurd hl htx
      | finished outcome => cases h
      | _ => exact hl.elim
  have hconf : ∀ now, o < n → ConfirmedAt notice db o now → ConfirmedAt notice db' o now := by
    rintro now hon ⟨p,hd,hp⟩
    exact ⟨p,by rw [hslot hon]; exact hd,hp⟩
  have hlog : o < n → Unlogged notice db o → Unlogged notice db' o := by
    intro hon hu
    rcases extensions_frame hl h with he | ⟨now,he,htx,_⟩
    · rw [Unlogged,he]
      exact hu
    · rw [Unlogged,he]
      simp only [List.map_append,List.map_cons,List.map_nil,List.mem_append,List.mem_singleton]
      rintro (hmem | heq)
      · exact hu hmem
      · exact hne (hn.distinct o tx hon htx heq)
  have hlogged : ∀ p, p ∈ db.extensions.map Extension.payment →
      p ∈ db'.extensions.map Extension.payment := by
    intro p hp
    rcases extensions_frame hl h with he | ⟨now,he,_⟩
    · rw [he]
      exact hp
    · rw [he]
      simp [hp]
  cases pco with
  | webhook event yookassaId =>
    obtain ⟨hon,hev,hid,hs,hf,hu⟩ := ho
    exact ⟨hon,hev,hid,(hslot hon).trans hs,hfree hf,hlog hon hu⟩
  | claim event yookassaId payment row =>
    obtain ⟨hon,hev,hid,hp,hr,hs,hf,hu⟩ := ho
    exact ⟨hon,hev,hid,hp,hr,(hslot hon).trans hs,hfree hf,hlog hon hu⟩
  | extend payment u now =>
    obtain ⟨hon,hp,hus,hf,hu,hc⟩ := ho
    exact ⟨hon,hp,hus,hfree hf,hlog hon hu,hconf _ hon hc⟩
  | insertSubscription payment u now =>
    obtain ⟨hon,hp,hus,hf,hu,hc⟩ := ho
    exact ⟨hon,hp,hus,hfree hf,hlog hon hu,hconf _ hon hc⟩
  | reread payment u now =>
    obtain ⟨hon,hp,hus,hf,hu,hc⟩ := ho
    exact ⟨hon,hp,hus,hfree hf,hlog hon hu,hconf _ hon hc⟩
  | moveExpiry payment now i read expiry =>
    obtain ⟨hon,hp,hf,hu,hc,he,s,hs⟩ := ho
    exact ⟨hon,hp,hfree hf,hlog hon hu,hconf now hon hc,he,activeRow_frame hj hl h hs⟩
  | commitExtension payment now =>
    obtain ⟨hon,hp,hu,hc,hprep⟩ := ho
    exact ⟨hon,hp,hlog hon hu,hconf now hon hc,prepared_frame hne hprep h⟩
  | closing outcome =>
    match outcome, ho with
    | .raised _, ho => exact ho
  | finished outcome =>
    match outcome, ho with
    | .answered true, ho => exact fun hon => hlogged _ (ho hon)
    | .answered false, _ | .created _, _ | .raised _, _ => trivial
  | _ => exact ho.elim

end Store

section Runs

variable {user n : ℕ} {notice : ℕ → Notice} {init c : Config Db Pc}

theorem balanced_of_quiet (hq : Quiet init) (hu : init.db.subscriptions.Unique activeUserKey) :
    Balanced user init init.db := by
  have hview : ∀ i, init.db.subscriptions.view 0 i = init.db.subscriptions.committed i := by
    intro i
    simp [Table.view,Table.committed,hq.subscriptions i]
  refine ⟨?_,?_⟩
  · intro i s hs
    cases hread : activeSubscription init.db 0 user with
    | none => exact absurd hs.2 (activeSubscription_eq_none hread ((hview i).trans hs.1))
    | some r =>
      obtain ⟨j,r⟩ := r
      have hr := activeSubscription_eq_some hread
      rw [hview j] at hr
      have hij : i = j := hu user i j ⟨s,.inl hs.1,hs.2⟩ ⟨r,.inl hr.1,hr.2⟩
      subst hij
      have hsr : s = r := Option.some.inj (hs.1.symm.trans hr.1)
      simp [hq.extensions,startingExpiry,hread,hsr,extendAll]
  · intro hnone
    cases hread : activeSubscription init.db 0 user with
    | none => simp [hq.extensions,startingExpiry,hread,extendAll]
    | some r =>
      obtain ⟨j,r⟩ := r
      have hr := activeSubscription_eq_some hread
      rw [hview j] at hr
      exact absurd hr (hnone j r)

theorem extensionAsserted_of_notified (hn : Notified user n notice init) :
    Asserted (ExtensionStore user n notice init) (ExtensionAssert user n notice) init := by
  have hq := hn.quiet
  have hfree : ∀ i, init.db.subscriptions.HoldsNone i := by
    intro i j
    simp [Table.holder,hq.subscriptions j]
  refine ⟨⟨hn.index,?_,?_,balanced_of_quiet hq hn.index,?_,?_⟩,fun i => ?_⟩
  · intro i p hp
    rcases hp with hp | ⟨o,hd⟩
    · exact ⟨p,hp,rfl⟩
    · simp [hq.payments i] at hd
  · intro i o hi
    simp [Table.holder,hq.payments i] at hi
  · simp [hq.extensions]
  · simp [hq.extensions]
  · by_cases hi : i < n
    · rw [hn.delivered i hi]
      have hrow := hn.row i hi
      have hslot : init.db.payments.slot (notice i).payment = ⟨some (notice i).row,none⟩ := by
        rw [← hrow,← hq.payments (notice i).payment]
        rfl
      exact ⟨hi,rfl,rfl,hslot,hfree i,by simp [Unlogged,hq.extensions]⟩
    · obtain ⟨outcome,ho⟩ := hn.others i (by omega)
      rw [ho]
      match outcome with
      | .answered true => exact fun h => absurd h hi
      | .answered false | .created _ | .raised _ => trivial

theorem extensionAsserted_of_reaches (hn : Notified user n notice init)
    (h : Reaches machine ExtendsFreshExpiry init c) :
    Asserted (ExtensionStore user n notice init) (ExtensionAssert user n notice) c := by
  refine asserted_of_reaches ?_ ?_ h (extensionAsserted_of_notified hn)
  · intro c i inp db pc ha hg hs
    refine extension_own hn ha.store (ha.process i) ?_ hs
    intro payment now j read expiry hpc
    simpa [ExtendsFreshExpiry,hpc] using hg
  · intro c i inp db pc j ha _ hs hji
    exact extension_frame hn ha.store (ha.process i) hji (ha.process j) hs

def confirmations (db : Db) (payments : List ℕ) : List DateTime :=
  payments.filterMap fun i => (db.payments.committed i).bind Payment.confirmedAt

/-- The user has one active subscription, and its expiry is `start` extended once for each of the
payments, one after the other in some order. -/
def EveryMonthPaid (user : ℕ) (payments : List ℕ) (start : Option DateTime) (db : Db) : Prop :=
  ∃ i s order, ActiveRow db user i s ∧ (∀ j r, ActiveRow db user j r → j = i) ∧
    order.Perm payments ∧ extendAll start (confirmations db order) = some (some s.expiresAt)

/-- When every write of an extension finds the expiry that was read, no paid month is lost. -/
theorem no_paid_month_lost (hn : Notified user n notice init) (hpos : 0 < n)
    (h : Reaches machine ExtendsFreshExpiry init c)
    (hdone : ∀ i, i < n → c.pc i = .finished (.answered true)) :
    EveryMonthPaid user ((List.range n).map fun i => (notice i).payment)
      (startingExpiry init user) c.db := by
  have ha := extensionAsserted_of_reaches hn h
  have hlogged : ∀ i, i < n → (notice i).payment ∈ c.db.extensions.map Extension.payment := by
    intro i hi
    have hp := ha.process i
    rw [hdone i hi] at hp
    exact hp hi
  have hnodup : ((List.range n).map fun i => (notice i).payment).Nodup := by
    refine List.Nodup.map_on ?_ List.nodup_range
    intro i hi j hj he
    exact hn.distinct i j (List.mem_range.mp hi) (List.mem_range.mp hj) he
  have hperm : (c.db.extensions.map Extension.payment).Perm
      ((List.range n).map fun i => (notice i).payment) := by
    refine (List.perm_ext_iff_of_nodup ha.store.once hnodup).mpr ?_
    intro p
    constructor
    · intro hp
      obtain ⟨e,he,rfl⟩ := List.mem_map.mp hp
      obtain ⟨⟨i,hi,hei⟩,_⟩ := ha.store.credited e he
      exact List.mem_map.mpr ⟨i,List.mem_range.mpr hi,hei.symm⟩
    · intro hp
      obtain ⟨i,hi,rfl⟩ := List.mem_map.mp hp
      exact hlogged i (List.mem_range.mp hi)
  have htimes : confirmations c.db (c.db.extensions.map Extension.payment) =
      c.db.extensions.map Extension.now := by
    rw [confirmations,List.filterMap_map,← List.filterMap_eq_map]
    refine List.filterMap_congr ?_
    intro e he
    obtain ⟨_,p,hp,hnow⟩ := ha.store.credited e he
    simp [hp,hnow]
  have hlog : c.db.extensions.map Extension.now ≠ [] := by
    intro hnil
    have hmem := hlogged 0 hpos
    rw [List.map_eq_nil_iff.mp hnil] at hmem
    cases hmem
  have hactive : ∃ i s, ActiveRow c.db user i s := by
    by_contra hex
    have hnone : ∀ i s, ¬ActiveRow c.db user i s := fun i s hs => hex ⟨i,s,hs⟩
    exact extendAll_ne_none hlog (ha.store.balanced.absent hnone)
  obtain ⟨i,s,hs⟩ := hactive
  refine ⟨i,s,_,hs,?_,hperm,?_⟩
  · intro j r hr
    exact ha.store.index user j i ⟨r,.inl hr.1,hr.2⟩ ⟨s,.inl hs.1,hs.2⟩
  · rw [htimes]
    exact ha.store.balanced.expiry i s hs

end Runs

/-! Two payments of one user for a subscription that runs until the first of February. -/

def liveUntilFebruary : Subscription where
  userId := 1
  expiresAt := noon 2 1 (by decide)
  isActive := true
  hasFreeAccess := false

theorem oneSubscription_fresh (i : ℕ) (hi : 1 ≤ i) :
    (⟨[liveUntilFebruary][i]?,none⟩ : Slot Subscription) = Slot.empty Subscription := by
  have hne : i ≠ 0 := by omega
  simp [Slot.empty,hne]

def oneSubscription : Table Subscription where
  size := 1
  slot := fun i => ⟨[liveUntilFebruary][i]?,none⟩
  fresh := oneSubscription_fresh

def secondIntent : Payment := { openIntent with yookassaPaymentId := some "3b2c" }

def twoNotices : ℕ → Notice
  | 0 => ⟨"2f1a",0,openIntent⟩
  | _ => ⟨"3b2c",1,secondIntent⟩

def twoPayments : Config Db Pc where
  db := ⟨paymentTable [openIntent,secondIntent],oneSubscription,[],fun _ => none,[]⟩
  pc := fun i =>
    if i < 2 then .webhook .paymentSucceeded (some (twoNotices i).yookassaId)
    else .finished (.answered false)

theorem notified_twoPayments : Notified 1 2 twoNotices twoPayments := by
  have hcases : ∀ i, i < 2 → i = 0 ∨ i = 1 := by omega
  have hrows : ∀ j p, twoPayments.db.payments.committed j = some p →
      (j = 0 ∧ p = openIntent) ∨ (j = 1 ∧ p = secondIntent) := by
    intro j p hp
    have hlt : j < 2 := Table.committed_lt hp
    rcases hcases j hlt with rfl | rfl
    · exact .inl ⟨rfl,(Option.some.inj hp).symm⟩
    · exact .inr ⟨rfl,(Option.some.inj hp).symm⟩
  have hwebhook : ∀ i, i < 2 →
      twoPayments.pc i = .webhook .paymentSucceeded (some (twoNotices i).yookassaId) := fun i hi => if_pos hi
  have hanswered : ∀ i, 2 ≤ i → twoPayments.pc i = .finished (.answered false) :=
    fun i hi => if_neg (Nat.not_lt.mpr hi)
  have hquiet : Quiet twoPayments := by
    refine ⟨fun _ => rfl,fun _ => rfl,rfl,fun _ => rfl,rfl,fun i => ?_⟩
    rcases Nat.lt_or_ge i 2 with hi | hi
    · rw [hwebhook i hi]
      rfl
    · rw [hanswered i hi]
      rfl
  refine ⟨hquiet,Table.unique_of_size_le_one (by decide),hwebhook,
    ?_,?_,?_,?_,?_,?_,?_,?_,fun i hi => ⟨.answered false,hanswered i hi⟩⟩
  · intro i hi
    rcases hcases i hi with rfl | rfl <;> decide
  · intro i hi
    rcases hcases i hi with rfl | rfl <;> rfl
  · intro i hi
    rcases hcases i hi with rfl | rfl <;> rfl
  · intro i hi j p hp hid
    rcases hcases i hi with rfl | rfl <;> rcases hrows j p hp with ⟨rfl,rfl⟩ | ⟨rfl,rfl⟩
    · rfl
    · exact absurd hid (by decide)
    · exact absurd hid (by decide)
    · rfl
  · intro i hi
    rcases hcases i hi with rfl | rfl <;> rfl
  · intro i hi
    rcases hcases i hi with rfl | rfl <;> rfl
  · intro i hi
    rcases hcases i hi with rfl | rfl <;> rfl
  · intro i j hi hj he
    rcases hcases i hi with rfl | rfl <;> rcases hcases j hj with rfl | rfl
    · rfl
    · exact absurd he (by decide)
    · exact absurd he (by decide)
    · rfl

set_option maxRecDepth 4000 in
/-- One notification after the other: two months are added. -/
theorem no_paid_month_lost_twoPayments : ∃ c : Config Db Pc,
    c.pc 1 = .finished (.answered true) ∧
    (c.db.subscriptions.committed 0).map Subscription.expiresAt = some (noon 4 1 (by decide)) ∧
    EveryMonthPaid 1 ((List.range 2).map fun i => (twoNotices i).payment)
      (startingExpiry twoPayments 1) c.db := by
  have hrun : (exec machine ExtendsFreshExpiry twoPayments
      (moves [0,0,0,0,0,1,1,1,1,1])).any (fun c =>
        c.pc 0 = .finished (.answered true) && (c.pc 1 = .finished (.answered true) &&
        (c.db.subscriptions.committed 0).map Subscription.expiresAt =
          some (noon 4 1 (by decide)))) = true := by decide
  obtain ⟨c,hc,htest⟩ := reaches_of_any hrun
  simp only [Bool.and_eq_true,decide_eq_true_eq] at htest
  refine ⟨c,htest.2.1,htest.2.2,no_paid_month_lost notified_twoPayments (by decide) hc ?_⟩
  intro i hi
  have hi' : i = 0 ∨ i = 1 := by omega
  rcases hi' with rfl | rfl
  · exact htest.1
  · exact htest.2.1

set_option maxRecDepth 4000 in
/-- Both webhooks read the first of February before either of them writes: both write the first of
March, and one of the two months is lost. -/
theorem paid_month_lost : ∃ c, Reaches machine anyMove twoPayments c ∧
    (∀ i, i < 2 → c.pc i = .finished (.answered true)) ∧
    ¬EveryMonthPaid 1 ((List.range 2).map fun i => (twoNotices i).payment)
      (startingExpiry twoPayments 1) c.db := by
  have hrun : (exec machine anyMove twoPayments (moves [0,0,0,1,1,1,0,0,1,1])).any (fun c =>
      c.pc 0 = .finished (.answered true) && (c.pc 1 = .finished (.answered true) &&
      ((c.db.subscriptions.committed 0).map (fun s => (s.expiresAt,s.isActive,s.userId)) =
          some (noon 3 1 (by decide),true,1) &&
        confirmations c.db [0,1] = [noon 1 3 (by decide),noon 1 3 (by decide)]))) = true := by decide
  obtain ⟨c,hc,htest⟩ := reaches_of_any hrun
  simp only [Bool.and_eq_true,decide_eq_true_eq] at htest
  obtain ⟨hzero,hone,hexpiry,htimes⟩ := htest
  refine ⟨c,hc,?_,?_⟩
  · intro i hi
    have hi' : i = 0 ∨ i = 1 := by omega
    rcases hi' with rfl | rfl
    · exact hzero
    · exact hone
  · rintro ⟨i,s,order,hs,hsole,hperm,hfold⟩
    obtain ⟨r,hr,hre⟩ := Option.map_eq_some_iff.mp hexpiry
    simp only [Prod.mk.injEq] at hre
    have hactive : ActiveRow c.db 1 0 r := ⟨hr,activeUserKey_eq_some.mpr hre.2⟩
    have hi : 0 = i := hsole 0 r hactive
    subst hi
    have hrs : r = s := Option.some.inj (hr.symm.trans hs.1)
    -- both payments were confirmed at the same moment, so every order gives the same list
    have hsame : confirmations c.db order =
        List.replicate 2 (noon 1 3 (by decide)) := by
      refine List.perm_replicate.mp ?_
      have hp : (confirmations c.db order).Perm (confirmations c.db [0,1]) := hperm.filterMap _
      rw [htimes] at hp
      exact hp
    rw [hsame,← hrs,hre.1] at hfold
    exact absurd hfold (by decide)

end PaymentService
end Broadcaster
