import Broadcaster.PaymentService

/-!
# What one statement of a request can do

Every invariant of the payment tables is derived from the two inductives below,
which list the writes to `payments` and to `subscriptions` with the program
counter that makes them. The lemmas after them say how a request comes to hold
a claimed payment or a reserved one.
-/

namespace Broadcaster
namespace PaymentService

open Calendar SubscriptionPeriod Interleaving

def Pc.commits : Pc → Bool
  | .commitClaim | .commitExtension _ _ | .sweepCommit _ _ | .reserveCommit _ _ | .recordCommit _
  | .expireCommit | .packageCommit _ => true
  | _ => false

inductive PaymentsChange (db : Db) (tx : ℕ) : Pc → Table Payment → Prop
  | keep (pc : Pc) : PaymentsChange db tx pc db.payments
  | lock {event : WebhookEvent} {yookassaId : String} {t : Table Payment}
      (h : db.payments.modify tx (byYookassaId yookassaId) some = some t) :
      PaymentsChange db tx (.webhook event (some yookassaId)) t
  | claim {event : WebhookEvent} {yookassaId : String} {payment : ℕ} {row : Payment} {status : Status}
      {now : DateTime} {t : Table Payment} (hs : status.terminal = true)
      (h : db.payments.modify tx (claimable yookassaId) (fun p => some (p.claimed status now)) =
        some t) : PaymentsChange db tx (.claim event yookassaId payment row) t
  | sweep {user : ℕ} {stale : List ℕ} {t : Table Payment}
      (h : db.payments.modify tx (hasId stale) (fun p => some p.expire) = some t) :
      PaymentsChange db tx (.sweepUpdate user stale) t
  | reserve {user : ℕ} {stale : List ℕ} {now : DateTime} {t : Table Payment}
      (h : db.payments.insertUnique tx openIntentKey (reservedPayment user now) = .inserted t) :
      PaymentsChange db tx (.reserve user stale) t
  | record {reserved : ℕ} {yookassaId : String} {t : Table Payment}
      (h : db.payments.modify tx (hasId [reserved]) (fun p => some (p.withYookassaId yookassaId)) =
        some t) : PaymentsChange db tx (.recordId reserved yookassaId) t
  | expire {reserved : ℕ} {t : Table Payment}
      (h : db.payments.modify tx (hasId [reserved]) (fun p => some p.expire) = some t) :
      PaymentsChange db tx (.expireReserve reserved) t
  | package {user : ℕ} {kind : Kind} {messagesCount : Option ℤ} {yookassaId : String} {now : DateTime}
      {t : Table Payment}
      (h : db.payments.insertUnique tx Payment.yookassaPaymentId
        (packagePayment user kind messagesCount yookassaId now) = .inserted t) :
      PaymentsChange db tx (.insertPackage user kind messagesCount yookassaId) t
  | commit {pc : Pc} (hc : pc.commits = true) : PaymentsChange db tx pc (db.payments.commit tx)
  | rollback (outcome : Outcome) : PaymentsChange db tx (.closing outcome) (db.payments.rollback tx)

/-- The payment that this webhook has claimed and not committed yet. -/
def Pc.claimedPayment : Pc → Option ℕ
  | .extend payment _ _ | .insertSubscription payment _ _ | .reread payment _ _
  | .moveExpiry payment _ _ _ _ | .commitExtension payment _ => some payment
  | _ => none

/-- The row that this call has reserved and not given a provider's id yet. -/
def Pc.reservedPayment : Pc → Option ℕ
  | .reserveCommit _ reserved | .callSdk _ _ _ (some reserved)
  | .recordId reserved _ | .expireReserve reserved => some reserved
  | _ => none

inductive SubscriptionsChange (db : Db) (tx : ℕ) : Pc → Table Subscription → Prop
  | keep (pc : Pc) : SubscriptionsChange db tx pc db.subscriptions
  | create {payment user : ℕ} {now expiry : DateTime} {t : Table Subscription}
      (he : nextExpiry none now = some expiry)
      (h : db.subscriptions.insertUnique tx activeUserKey (firstSubscription user expiry) =
        .inserted t) : SubscriptionsChange db tx (.insertSubscription payment user now) t
  | move {payment : ℕ} {now : DateTime} {subscription : ℕ} {read expiry : DateTime}
      {t : Table Subscription}
      (h : db.subscriptions.modify tx (hasId [subscription]) (fun s => some (s.withExpiry expiry)) =
        some t) : SubscriptionsChange db tx (.moveExpiry payment now subscription read expiry) t
  | commit {pc : Pc} (hc : pc.commits = true) :
      SubscriptionsChange db tx pc (db.subscriptions.commit tx)
  | rollback (outcome : Outcome) :
      SubscriptionsChange db tx (.closing outcome) (db.subscriptions.rollback tx)

section Step

variable {db db' : Db} {tx : ℕ} {pc pc' : Pc} {inp : Input}

theorem receive_eq_some {event : WebhookEvent} {yookassaId : String}
    (h : receive db tx event yookassaId = some (db',pc')) :
    ∃ t, db.payments.modify tx (byYookassaId yookassaId) some = some t ∧ db' = db.setPayments t := by
  simp only [receive,Option.map_eq_some_iff,Prod.mk.injEq] at h
  obtain ⟨t,ht,he,_⟩ := h
  exact ⟨t,ht,he.symm⟩

theorem receive_next {event : WebhookEvent} {yookassaId : String}
    (h : receive db tx event yookassaId = some (db',pc')) :
    (∃ outcome, pc' = .closing outcome) ∨ ∃ payment row, row.status.terminal = false ∧
      db.payments.select tx (byYookassaId yookassaId) = [(payment,row)] ∧
      pc' = .claim event yookassaId payment row := by
  simp only [receive,Option.map_eq_some_iff,Prod.mk.injEq] at h
  obtain ⟨t,_,_,hpc⟩ := h
  split at hpc
  · exact .inl ⟨_,hpc.symm⟩
  · rename_i hs
    split at hpc
    · exact .inl ⟨_,hpc.symm⟩
    · rename_i hterm
      exact .inr ⟨_,_,by simpa using hterm,hs,hpc.symm⟩
  · exact .inl ⟨_,hpc.symm⟩

theorem claimPayment_eq_some {yookassaId : String} {status : Status} {now : DateTime} {won : Bool}
    (h : claimPayment db tx yookassaId status now = some (db',won)) :
    ∃ t, db.payments.modify tx (claimable yookassaId) (fun p => some (p.claimed status now)) = some t ∧
      db' = db.setPayments t ∧
      won = ((db.payments.select tx (claimable yookassaId)).length == 1) := by
  simp only [claimPayment,Option.map_eq_some_iff,Prod.mk.injEq] at h
  obtain ⟨t,ht,he,hw⟩ := h
  exact ⟨t,ht,he.symm,hw.symm⟩

theorem applyExtension_cases (payment : ℕ) (now : DateTime) (subscription : ℕ) (s : Subscription) :
    (∃ expiry, nextExpiry (some s.expiresAt) now = some expiry ∧
      applyExtension payment now subscription s =
        .moveExpiry payment now subscription s.expiresAt expiry) ∨
    applyExtension payment now subscription s = .closing (.raised .valueError) := by
  unfold applyExtension
  cases nextExpiry (some s.expiresAt) now with
  | none => exact .inr rfl
  | some expiry => exact .inl ⟨expiry,rfl,rfl⟩

theorem step_payments (h : step db tx pc inp = some (db',pc')) :
    PaymentsChange db tx pc db'.payments := by
  revert h
  fun_cases step db tx pc inp <;> intro h <;>
    try simp only [Option.some.injEq,Prod.mk.injEq,Option.map_eq_some_iff,Prod.exists,reduceCtorEq] at h
  case case4 =>
    obtain ⟨t,ht,rfl⟩ := receive_eq_some h
    exact .lock ht
  case case5 | case7 =>
    obtain ⟨d,w,hc,rfl,_⟩ := h
    obtain ⟨t,ht,rfl,_⟩ := claimPayment_eq_some hc
    exact .claim (by decide) ht
  case case17 =>
    obtain ⟨t,ht,rfl,_⟩ := h
    exact .keep _
  case case22 =>
    obtain ⟨t,ht,rfl,_⟩ := h
    exact .sweep ht
  case case26 ht =>
    obtain ⟨rfl,_⟩ := h
    exact .reserve ht
  case case33 =>
    obtain ⟨t,ht,rfl,_⟩ := h
    exact .record ht
  case case35 =>
    obtain ⟨t,ht,rfl,_⟩ := h
    exact .expire ht
  case case39 ht =>
    obtain ⟨rfl,_⟩ := h
    exact .package ht
  all_goals obtain ⟨rfl,_⟩ := h
  case case8 | case18 | case23 | case29 | case34 | case36 | case40 => exact .commit rfl
  case case41 => exact .rollback _
  all_goals exact .keep _

theorem step_subscriptions (h : step db tx pc inp = some (db',pc')) :
    SubscriptionsChange db tx pc db'.subscriptions := by
  revert h
  fun_cases step db tx pc inp <;> intro h <;>
    try simp only [Option.some.injEq,Prod.mk.injEq,Option.map_eq_some_iff,Prod.exists,reduceCtorEq] at h
  case case4 =>
    obtain ⟨t,ht,rfl⟩ := receive_eq_some h
    exact .keep _
  case case5 | case7 =>
    obtain ⟨d,w,hc,rfl,_⟩ := h
    obtain ⟨t,ht,rfl,_⟩ := claimPayment_eq_some hc
    exact .keep _
  case case14 he t ht =>
    obtain ⟨rfl,_⟩ := h
    exact .create he ht
  case case17 =>
    obtain ⟨t,ht,rfl,_⟩ := h
    exact .move ht
  case case22 | case33 | case35 =>
    obtain ⟨t,ht,rfl,_⟩ := h
    exact .keep _
  all_goals obtain ⟨rfl,_⟩ := h
  case case8 | case18 | case23 | case29 | case34 | case36 | case40 => exact .commit rfl
  case case41 => exact .rollback _
  all_goals exact .keep _

/-- What is recorded of a run beside the tables changes in three places only. -/
theorem step_records (h : step db tx pc inp = some (db',pc')) :
    (db'.extensions = db.extensions ∧ db'.author = db.author ∧ db'.sdkCalls = db.sdkCalls) ∨
    (∃ payment now, pc = .commitExtension payment now ∧ pc' = .finished (.answered true) ∧
      db' = (db.commit tx).logExtension ⟨payment,now⟩) ∨
    (∃ p, db' = db.withAuthor tx (db.payments.insert tx p)) ∨
    (db'.extensions = db.extensions ∧ db'.author = db.author ∧ db'.sdkCalls = db.sdkCalls ++ [tx]) := by
  revert h
  fun_cases step db tx pc inp <;> intro h <;>
    try simp only [Option.some.injEq,Prod.mk.injEq,Option.map_eq_some_iff,Prod.exists,reduceCtorEq] at h
  case case4 =>
    obtain ⟨t,_,rfl⟩ := receive_eq_some h
    exact .inl ⟨rfl,rfl,rfl⟩
  case case5 | case7 =>
    obtain ⟨d,w,hc,rfl,_⟩ := h
    obtain ⟨t,_,rfl,_⟩ := claimPayment_eq_some hc
    exact .inl ⟨rfl,rfl,rfl⟩
  case case17 | case22 | case33 | case35 =>
    obtain ⟨t,_,rfl,_⟩ := h
    exact .inl ⟨rfl,rfl,rfl⟩
  case case18 payment now => exact .inr (.inl ⟨payment,now,rfl,h.2.symm,h.1.symm⟩)
  case case26 ht | case39 ht =>
    obtain ⟨rfl,_⟩ := h
    obtain ⟨rfl,_⟩ := Table.insertUnique_inserted ht
    exact .inr (.inr (.inl ⟨_,rfl⟩))
  case case30 =>
    obtain ⟨rfl,_⟩ := h
    exact .inr (.inr (.inr ⟨rfl,rfl,rfl⟩))
  all_goals
    obtain ⟨rfl,_⟩ := h
    exact .inl ⟨rfl,rfl,rfl⟩

theorem step_extensions (h : step db tx pc inp = some (db',pc')) :
    db'.extensions = db.extensions ∨ ∃ payment now, pc = .commitExtension payment now ∧
      pc' = .finished (.answered true) ∧
      db' = (db.commit tx).logExtension ⟨payment,now⟩ := by
  rcases step_records h with ⟨hsame,_⟩ | hcommit | ⟨p,rfl⟩ | ⟨hsame,_⟩
  · exact .inl hsame
  · exact .inr hcommit
  · exact .inl rfl
  · exact .inl hsame

theorem step_author (h : step db tx pc inp = some (db',pc')) :
    db'.author = db.author ∨ db'.payments.size = db.payments.size+1 ∧
      db'.author = Function.update db.author db.payments.size (some tx) := by
  rcases step_records h with ⟨_,hsame,_⟩ | ⟨_,_,_,_,rfl⟩ | ⟨p,rfl⟩ | ⟨_,hsame,_⟩
  · exact .inl hsame
  · exact .inl rfl
  · exact .inr ⟨rfl,rfl⟩
  · exact .inl hsame

theorem step_locked {event : WebhookEvent} {yookassaId : String} {payment : ℕ} {row : Payment}
    (h : step db tx pc inp = some (db',pc')) (hc : pc' = .claim event yookassaId payment row) :
    pc = .webhook event (some yookassaId) ∧ row.status.terminal = false ∧
      db.payments.select tx (byYookassaId yookassaId) = [(payment,row)] ∧
      ∃ t, db.payments.modify tx (byYookassaId yookassaId) some = some t ∧ db' = db.setPayments t := by
  revert h
  fun_cases step db tx pc inp <;> intro h <;>
    try simp only [Option.some.injEq,Prod.mk.injEq,Option.map_eq_some_iff,Prod.exists,reduceCtorEq] at h
  case case4 ev _ id _ =>
    have hlocked := receive_eq_some h
    rcases receive_next h with ⟨_,rfl⟩ | ⟨_,_,hterm,hs,rfl⟩ <;> cases hc
    exact ⟨rfl,hterm,hs,hlocked⟩
  case case5 =>
    obtain ⟨d,w,_,_,rfl⟩ := h
    split at hc <;> cases hc
  case case7 =>
    obtain ⟨d,w,_,_,rfl⟩ := h
    split at hc
    · split at hc <;> cases hc
    · cases hc
  case case9 | case15 =>
    obtain ⟨_,rfl⟩ := h
    rcases applyExtension_cases _ _ _ _ with ⟨e,_,he⟩ | he <;> rw [he] at hc <;> cases hc
  case case17 =>
    obtain ⟨t,_,_,rfl⟩ := h
    split at hc <;> cases hc
  case case22 | case33 | case35 =>
    obtain ⟨t,_,_,rfl⟩ := h
    cases hc
  case case30 =>
    obtain ⟨_,rfl⟩ := h
    split at hc <;> cases hc
  all_goals
    obtain ⟨_,rfl⟩ := h
    cases hc

theorem step_claimed {payment : ℕ} (h : step db tx pc inp = some (db',pc'))
    (hc : pc'.claimedPayment = some payment) :
    (pc.claimedPayment = some payment ∧ db'.payments = db.payments) ∨
    ∃ event yookassaId row t, pc = .claim event yookassaId payment row ∧
      event ≠ .paymentCanceled ∧ row.kind = .subscription ∧
      pc' = .extend payment row.userId inp.now ∧ db' = db.setPayments t ∧
      db.payments.modify tx (claimable yookassaId) (fun p => some (p.claimed .succeeded inp.now)) =
        some t ∧ (db.payments.select tx (claimable yookassaId)).length = 1 := by
  revert h
  fun_cases step db tx pc inp <;> intro h <;>
    try simp only [Option.some.injEq,Prod.mk.injEq,Option.map_eq_some_iff,Prod.exists,reduceCtorEq] at h
  case case4 =>
    rcases receive_next h with ⟨_,rfl⟩ | ⟨_,_,_,_,rfl⟩ <;> cases hc
  case case5 =>
    obtain ⟨d,w,_,_,rfl⟩ := h
    split at hc <;> cases hc
  case case7 ev id pid row hev _ =>
    obtain ⟨d,w,hcl,rfl,rfl⟩ := h
    obtain ⟨t,ht,rfl,hw⟩ := claimPayment_eq_some hcl
    split at hc
    · rename_i hwon
      split at hc
      · rename_i hk
        cases hc
        refine .inr ⟨ev,id,row,t,rfl,hev,hk,by simp [hwon,hk],rfl,ht,?_⟩
        simpa [hwon] using hw
      · cases hc
    · cases hc
  case case9 | case15 =>
    obtain ⟨rfl,rfl⟩ := h
    rcases applyExtension_cases _ _ _ _ with ⟨e,_,he⟩ | he <;> rw [he] at hc <;> cases hc
    exact .inl ⟨rfl,rfl⟩
  case case10 | case13 | case14 =>
    obtain ⟨rfl,rfl⟩ := h
    cases hc
    exact .inl ⟨rfl,rfl⟩
  case case17 =>
    obtain ⟨t,_,rfl,rfl⟩ := h
    split at hc <;> cases hc
    exact .inl ⟨rfl,rfl⟩
  case case22 | case33 | case35 =>
    obtain ⟨t,_,_,rfl⟩ := h
    cases hc
  case case30 =>
    obtain ⟨_,rfl⟩ := h
    split at hc <;> cases hc
  all_goals
    obtain ⟨_,rfl⟩ := h
    cases hc

theorem step_reserved {reserved : ℕ} (h : step db tx pc inp = some (db',pc'))
    (hc : pc'.reservedPayment = some reserved) :
    (pc.reservedPayment = some reserved ∧ db'.author = db.author ∧
      (db'.payments = db.payments ∨ db'.payments = db.payments.commit tx)) ∨
    ∃ user stale, pc = .reserve user stale ∧ pc' = .reserveCommit user reserved ∧
      reserved = db.payments.size ∧
      db' = db.withAuthor tx (db.payments.insert tx (reservedPayment user inp.now)) := by
  revert h
  fun_cases step db tx pc inp <;> intro h <;>
    try simp only [Option.some.injEq,Prod.mk.injEq,Option.map_eq_some_iff,Prod.exists,reduceCtorEq] at h
  case case4 =>
    rcases receive_next h with ⟨_,rfl⟩ | ⟨_,_,_,_,rfl⟩ <;> cases hc
  case case5 =>
    obtain ⟨d,w,_,_,rfl⟩ := h
    split at hc <;> cases hc
  case case7 =>
    obtain ⟨d,w,_,_,rfl⟩ := h
    split at hc
    · split at hc <;> cases hc
    · cases hc
  case case9 | case15 =>
    obtain ⟨_,rfl⟩ := h
    rcases applyExtension_cases _ _ _ _ with ⟨e,_,he⟩ | he <;> rw [he] at hc <;> cases hc
  case case17 =>
    obtain ⟨t,_,_,rfl⟩ := h
    split at hc <;> cases hc
  case case22 | case33 | case35 =>
    obtain ⟨t,_,_,rfl⟩ := h
    cases hc
  case case26 user stale t ht =>
    obtain ⟨rfl,rfl⟩ := h
    obtain ⟨rfl,_⟩ := Table.insertUnique_inserted ht
    cases hc
    exact .inr ⟨user,stale,rfl,rfl,rfl,rfl⟩
  case case29 =>
    obtain ⟨rfl,rfl⟩ := h
    cases hc
    exact .inl ⟨rfl,rfl,.inr rfl⟩
  case case30 =>
    obtain ⟨rfl,rfl⟩ := h
    split at hc <;> cases hc
    · exact .inl ⟨rfl,rfl,.inl rfl⟩
    · exact .inl ⟨rfl,rfl,.inl rfl⟩
  all_goals
    obtain ⟨_,rfl⟩ := h
    cases hc

theorem PaymentsChange.statement {t : Table Payment} (h : PaymentsChange db tx pc t) :
    Table.Statement tx db.payments t := by
  cases h with
  | keep => exact .keep
  | lock h | claim _ h | sweep h | record h | expire h => exact .modify h
  | reserve h | package h =>
    obtain ⟨rfl,_⟩ := Table.insertUnique_inserted h
    exact .insert _
  | commit => exact .commit
  | rollback => exact .rollback

/-- What every write keeps true of the versions of one row. -/
theorem PaymentsChange.mayBe {t : Table Payment} {i : ℕ} {P : Payment → Prop}
    (h : PaymentsChange db tx pc t) (hlt : i < db.payments.size)
    (hP : ∀ p, db.payments.MayBe i p → P p)
    (hclaim : ∀ p yookassaId status now, p.yookassaPaymentId = some yookassaId →
      status.terminal = true → P p → P (p.claimed status now))
    (hexpire : ∀ p, P p → P p.expire)
    (hrecord : ∀ p yookassaId, pc = .recordId i yookassaId → P p → P (p.withYookassaId yookassaId)) :
    ∀ p, t.MayBe i p → P p := by
  intro p hm
  cases h with
  | keep => exact hP p hm
  | lock h =>
    rcases Table.mayBe_modify h hm with hm | ⟨r,hv,_,hr⟩
    · exact hP p hm
    · rw [← Option.some.inj hr]
      exact hP r (Table.mayBe_of_view hv)
  | claim hs h =>
    rcases Table.mayBe_modify h hm with hm | ⟨r,hv,hsel,hr⟩
    · exact hP p hm
    · have hid : byYookassaId _ i r = true := (Bool.and_eq_true_iff.mp hsel).1
      rw [← Option.some.inj hr]
      exact hclaim r _ _ _ (by simpa [byYookassaId] using hid) hs (hP r (Table.mayBe_of_view hv))
  | sweep h | expire h =>
    rcases Table.mayBe_modify h hm with hm | ⟨r,hv,_,hr⟩
    · exact hP p hm
    · rw [← Option.some.inj hr]
      exact hexpire r (hP r (Table.mayBe_of_view hv))
  | @record reserved yookassaId t h =>
    rcases Table.mayBe_modify h hm with hm | ⟨r,hv,hsel,hr⟩
    · exact hP p hm
    · have hi : i = reserved := by simpa [hasId] using hsel
      subst hi
      rw [← Option.some.inj hr]
      exact hrecord r yookassaId rfl (hP r (Table.mayBe_of_view hv))
  | reserve h | package h =>
    obtain ⟨rfl,_⟩ := Table.insertUnique_inserted h
    rcases Table.mayBe_insert hm with hm | ⟨he,_⟩
    · exact hP p hm
    · exact absurd he (Nat.ne_of_lt hlt)
  | commit => exact hP p (Table.mayBe_commit hm)
  | rollback => exact hP p (Table.mayBe_rollback hm)

theorem SubscriptionsChange.statement {t : Table Subscription} (h : SubscriptionsChange db tx pc t) :
    Table.Statement tx db.subscriptions t := by
  cases h with
  | keep => exact .keep
  | create _ h =>
    obtain ⟨rfl,_⟩ := Table.insertUnique_inserted h
    exact .insert _
  | move h => exact .modify h
  | commit => exact .commit
  | rollback => exact .rollback

end Step

end PaymentService
end Broadcaster
