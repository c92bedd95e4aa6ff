import Broadcaster.ReservedIntent

/-!
# A terminal payment stays terminal

The sweep reads the open intents in one statement and overwrites their status in
another, without asking again what the status is. As long as no row of a sweep
became terminal between the two, a payment that reached `succeeded` or `canceled`
keeps its status, and every payment extends the subscription at most once.
-/

namespace Broadcaster
namespace PaymentService

open Calendar Interleaving

/-- A transaction that holds a terminal row is going to leave its status alone. -/
def TerminalKept (t : Table Payment) : Prop :=
  ∀ i p o v, t.committed i = some p → p.status.terminal = true → (t.slot i).draft = some (o,v) →
    ∃ q, v = some q ∧ q.status = p.status

namespace TerminalKept

variable {t t' : Table Payment} {tx i : ℕ} {p : Payment}

theorem view (ht : TerminalKept t) (hc : t.committed i = some p) (hp : p.status.terminal = true) :
    ∃ q, t.view tx i = some q ∧ q.status = p.status := by
  by_cases hh : t.holder i = some tx
  · exact ht i p tx _ hc hp (Table.draft_of_holder hh)
  · rw [Table.view_of_holder_ne hh]
    exact ⟨p,hc,rfl⟩

theorem committed_stable (ht : TerminalKept t) (hs : Table.Statement tx t t')
    (hc : t.committed i = some p) (hp : p.status.terminal = true) :
    ∃ q, t'.committed i = some q ∧ q.status = p.status := by
  cases hs with
  | keep => exact ⟨p,hc,rfl⟩
  | modify h => exact ⟨p,by rw [Table.modify_committed h]; exact hc,rfl⟩
  | insert r => exact ⟨p,by rw [Table.insert_committed]; exact hc,rfl⟩
  | commit =>
    rw [Table.commit_committed]
    exact ht.view hc hp
  | rollback => exact ⟨p,by rw [Table.rollback_committed]; exact hc,rfl⟩

theorem of_slot_eq (ht : TerminalKept t) {i : ℕ} (hs : t'.slot i = t.slot i) {p : Payment} {o : ℕ}
    {v : Option Payment} (hc : t'.committed i = some p) (hp : p.status.terminal = true)
    (hd : (t'.slot i).draft = some (o,v)) : ∃ q, v = some q ∧ q.status = p.status := by
  have hc' : t.committed i = some p := by simpa [Table.committed,hs] using hc
  rw [hs] at hd
  exact ht i p o v hc' hp hd

theorem commit (ht : TerminalKept t) : TerminalKept (t.commit tx) := by
  intro i p o v hc hp hd
  obtain ⟨hbefore,hne⟩ := Table.commit_draft hd
  have hother : t.holder i ≠ some tx := by
    rw [Table.holder,hbefore]
    exact fun he => hne (Option.some.inj he)
  exact ht.of_slot_eq (Table.commit_slot_of_ne hother) hc hp hd

theorem rollback (ht : TerminalKept t) : TerminalKept (t.rollback tx) := by
  intro i p o v hc hp hd
  rw [Table.rollback_committed] at hc
  exact ht i p o v hc hp (Table.rollback_draft hd).1

theorem insert (ht : TerminalKept t) (r : Payment) : TerminalKept (t.insert tx r) := by
  intro i p o v hc hp hd
  by_cases hi : i = t.size
  · subst hi
    rw [Table.insert_committed] at hc
    exact absurd (Table.committed_lt hc) (Nat.lt_irrefl _)
  · exact ht.of_slot_eq (Table.insert_slot_of_ne hi) hc hp hd

theorem modify {sel : ℕ → Payment → Bool} {f : Payment → Option Payment} (ht : TerminalKept t)
    (hm : t.modify tx sel f = some t')
    (hf : ∀ i p r, t.committed i = some p → p.status.terminal = true → t.view tx i = some r →
      r.status.terminal = true → sel i r = true → ∃ q, f r = some q ∧ q.status = r.status) :
    TerminalKept t' := by
  intro i p o v hc hp hd
  rcases Table.modify_slot_cases hm i with hs | ⟨r,hv,hsel,_,hs⟩
  · exact ht.of_slot_eq hs hc hp hd
  · rw [Table.modify_committed hm] at hc
    have hview : ∃ q, t.view tx i = some q ∧ q.status = p.status := ht.view hc hp
    obtain ⟨r',hv',hst⟩ := hview
    have he : r' = r := Option.some.inj (hv'.symm.trans hv)
    subst he
    have hterm : r'.status.terminal = true := by rw [hst]; exact hp
    obtain ⟨q,hq,hqs⟩ := hf i p r' hc hp hv hterm hsel
    rw [hs] at hd
    simp only [Option.some.injEq,Prod.mk.injEq] at hd
    exact ⟨q,by rw [← hd.2,hq],hqs.trans hst⟩

end TerminalKept

structure Guarded (db : Db) : Prop where
  terminal : TerminalKept db.payments
  credited : ∀ e ∈ db.extensions, ∃ p, db.payments.committed e.payment = some p ∧
    p.status = .succeeded
  once : (db.extensions.map Extension.payment).Nodup
  authored : AuthorBelow db

/-- The row is held by `tx` in the version that its webhook read under the lock. -/
def LockedBy (db : Db) (tx : ℕ) (yookassaId : String) (payment : ℕ) : Prop :=
  ∃ row, (db.payments.slot payment).draft = some (tx,some row) ∧
    row.yookassaPaymentId = some yookassaId ∧ row.status.terminal = false

/-- The row is held by `tx`, succeeded in its draft and not terminal before. -/
def ClaimedBy (db : Db) (tx payment : ℕ) : Prop :=
  (∀ p, db.payments.committed payment = some p → p.status.terminal = false) ∧
    ∃ q, (db.payments.slot payment).draft = some (tx,some q) ∧ q.status = .succeeded

structure PcSafe (db : Db) (tx : ℕ) (pc : Pc) : Prop where
  locked : ∀ event yookassaId payment row, pc = .claim event yookassaId payment row →
    LockedBy db tx yookassaId payment
  claimed : ∀ payment, pc.claimedPayment = some payment → ClaimedBy db tx payment
  reserved : ∀ reserved, pc.reservedPayment = some reserved → ReservedBy db tx reserved

/-- No row that a sweep is about to expire has become terminal since the sweep read it. -/
def SweepsOpenRows (c : Config Db Pc) (m : Move Input) : Prop :=
  match c.pc m.1 with
  | .sweepUpdate _ stale => ∀ i ∈ stale,
      (c.db.payments.committed i).all (fun p => !p.status.terminal) = true
  | _ => True

instance (c : Config Db Pc) (m : Move Input) : Decidable (SweepsOpenRows c m) := by
  unfold SweepsOpenRows
  split <;> infer_instance

section Step

variable {db db' : Db} {tx o : ℕ} {pc pc' : Pc} {inp : Input}

theorem terminalKept_step (hj : Guarded db) (hl : PcSafe db tx pc)
    (hg : ∀ user stale, pc = .sweepUpdate user stale → ∀ i ∈ stale,
      (db.payments.committed i).all (fun p => !p.status.terminal) = true)
    {t : Table Payment} (hs : PaymentsChange db tx pc t) : TerminalKept t := by
  cases hs with
  | keep => exact hj.terminal
  | lock h => exact hj.terminal.modify h fun _ _ r _ _ _ _ _ => ⟨r,rfl,rfl⟩
  | claim _ h =>
    refine hj.terminal.modify h ?_
    intro i p r _ _ _ hterm hsel
    simp [claimable,hterm] at hsel
  | sweep h =>
    refine hj.terminal.modify h ?_
    intro i p r hc hp _ _ hsel
    have hi := hg _ _ rfl i (by simpa [hasId] using hsel)
    simp [hc,hp] at hi
  | reserve h | package h =>
    obtain ⟨rfl,_⟩ := Table.insertUnique_inserted h
    exact hj.terminal.insert _
  | record h => exact hj.terminal.modify h fun _ _ r _ _ _ _ _ => ⟨_,rfl,rfl⟩
  | @expire reserved t h =>
    refine hj.terminal.modify h ?_
    intro i p r _ _ hv hterm hsel
    have hi : i = reserved := by simpa [hasId] using hsel
    subst hi
    have hopen := ((hl.reserved i rfl).2 r (Table.mayBe_of_view hv)).2
    rw [hterm] at hopen
    cases hopen
  | commit => exact hj.terminal.commit
  | rollback => exact hj.terminal.rollback

/-- The commit of an extension is the only one for its payment. -/
theorem guarded_step (hj : Guarded db) (hl : PcSafe db tx pc)
    (hg : ∀ user stale, pc = .sweepUpdate user stale → ∀ i ∈ stale,
      (db.payments.committed i).all (fun p => !p.status.terminal) = true)
    (h : step db tx pc inp = some (db',pc')) : Guarded db' := by
  have hs := step_payments h
  have hstable : ∀ i p, db.payments.committed i = some p → p.status = .succeeded →
      ∃ q, db'.payments.committed i = some q ∧ q.status = .succeeded := by
    intro i p hc hp
    have hterm : p.status.terminal = true := by rw [hp]; decide
    obtain ⟨q,hq,hqs⟩ := hj.terminal.committed_stable hs.statement hc hterm
    exact ⟨q,hq,hqs.trans hp⟩
  have hold : ∀ e ∈ db.extensions, ∃ p, db'.payments.committed e.payment = some p ∧
      p.status = .succeeded := by
    intro e he
    obtain ⟨p,hc,hp⟩ := hj.credited e he
    exact hstable e.payment p hc hp
  have hauthor := authorBelow_step hj.authored h
  rcases step_extensions h with he | ⟨payment,now,rfl,_,rfl⟩
  · exact ⟨terminalKept_step hj hl hg hs,by rw [he]; exact hold,by rw [he]; exact hj.once,hauthor⟩
  · obtain ⟨hopen,q,hd,hq⟩ := hl.claimed payment rfl
    have hnew : payment ∉ db.extensions.map Extension.payment := by
      intro hmem
      obtain ⟨e,he,rfl⟩ := List.mem_map.mp hmem
      obtain ⟨p,hc,hp⟩ := hj.credited e he
      have hp' := hopen p hc
      rw [hp] at hp'
      cases hp'
    refine ⟨hj.terminal.commit,?_,?_,hauthor⟩
    · intro e he
      rcases List.mem_append.mp he with he | he
      · exact hold e he
      · rw [List.mem_singleton.mp he]
        exact ⟨q,by simpa [Db.logExtension,Db.commit] using Table.view_of_draft hd,hq⟩
    · simp only [Db.logExtension,Db.commit,List.map_append,List.map_cons,List.map_nil]
      rw [List.nodup_append]
      refine ⟨hj.once,by simp,?_⟩
      intro a ha b hb hab
      rw [List.mem_singleton.mp hb] at hab
      exact hnew (hab ▸ ha)

theorem pcSafe_own (hj : Guarded db) (hl : PcSafe db tx pc)
    (h : step db tx pc inp = some (db',pc')) : PcSafe db' tx pc' := by
  refine ⟨?_,?_,?_⟩
  · intro event yookassaId payment row hpc
    obtain ⟨rfl,hterm,hsel,t,ht,rfl⟩ := step_locked h hpc
    have hmem : (payment,row) ∈ db.payments.select tx (byYookassaId yookassaId) := by simp [hsel]
    obtain ⟨hv,hid⟩ := Table.mem_select.mp hmem
    have hslot := Table.modify_slot_selected ht hv hid
    exact ⟨row,by simp [Db.setPayments,hslot],by simpa [byYookassaId] using hid,hterm⟩
  · intro payment hpc
    rcases step_claimed h hpc with ⟨hc,hp⟩ | ⟨event,yookassaId,row,t,rfl,_,_,_,rfl,ht,_⟩
    · have hold := hl.claimed payment hc
      simpa [ClaimedBy,hp] using hold
    · obtain ⟨row',hd,hid,hopen⟩ := hl.locked event yookassaId payment row rfl
      have hv : db.payments.view tx payment = some row' := Table.view_of_draft hd
      have hslot := Table.modify_slot_selected ht hv (by simp [claimable,byYookassaId,hid,hopen])
      refine ⟨?_,row'.claimed .succeeded inp.now,by simp [Db.setPayments,hslot],rfl⟩
      intro p hc
      have hc' : db.payments.committed payment = some p := by
        simpa [Db.setPayments,Table.modify_committed ht] using hc
      by_contra hterm
      obtain ⟨q,hq,hqs⟩ := hj.terminal payment p tx _ hc' (by simpa using hterm) hd
      cases hq
      rw [hqs] at hopen
      exact hterm hopen
  · intro reserved hpc
    exact reservedBy_own hl.reserved h hpc

theorem pcSafe_frame (hj : Guarded db) (hl : PcSafe db tx pc) (hne : o ≠ tx) {pco : Pc}
    (ho : PcSafe db o pco) (h : step db tx pc inp = some (db',pc')) : PcSafe db' o pco := by
  have hs := step_payments h
  have hheld : ∀ payment v, (db.payments.slot payment).draft = some (o,v) →
      db'.payments.slot payment = db.payments.slot payment := by
    intro payment v hd
    exact hs.statement.slot_of_held (Table.holder_eq_some.mpr ⟨v,hd⟩) hne
  refine ⟨?_,?_,?_⟩
  · intro event yookassaId payment row hpc
    obtain ⟨row',hd,hrow⟩ := ho.locked event yookassaId payment row hpc
    exact ⟨row',by rw [hheld payment _ hd]; exact hd,hrow⟩
  · intro payment hpc
    obtain ⟨hopen,q,hd,hq⟩ := ho.claimed payment hpc
    have hslot := hheld payment _ hd
    refine ⟨?_,q,by rw [hslot]; exact hd,hq⟩
    intro p hc
    exact hopen p (by simpa [Table.committed,hslot] using hc)
  · intro reserved hpc
    exact reservedBy_frame hj.authored hl.reserved hne (ho.reserved reserved hpc) h

end Step

theorem guarded_of_quiet {c : Config Db Pc} (h : Quiet c) : Asserted Guarded PcSafe c := by
  have hstore : Guarded c.db := by
    refine ⟨?_,by simp [h.extensions],by simp [h.extensions],by simp [AuthorBelow,h.author]⟩
    intro i p o v _ _ hd
    simp [h.payments i] at hd
  refine ⟨hstore,fun i => ?_⟩
  have hstart := h.starts i
  refine ⟨?_,?_,?_⟩
  · intro event yookassaId payment row hpc
    simp [hpc,Pc.isStart] at hstart
  · intro payment hpc
    revert hstart hpc
    cases c.pc i <;> simp [Pc.isStart,Pc.claimedPayment]
  · intro reserved hpc
    revert hstart hpc
    cases c.pc i <;> simp [Pc.isStart,Pc.reservedPayment]

theorem guarded_of_reaches {c c' : Config Db Pc} (h : Reaches machine SweepsOpenRows c c')
    (hc : Asserted Guarded PcSafe c) : Asserted Guarded PcSafe c' := by
  have hsweep : ∀ (c : Config Db Pc) i (inp : Input), SweepsOpenRows c (i,inp) →
      ∀ user stale, c.pc i = .sweepUpdate user stale → ∀ j ∈ stale,
        (c.db.payments.committed j).all (fun p => !p.status.terminal) = true := by
    intro c i inp hg user stale hpc
    simpa [SweepsOpenRows,hpc] using hg
  refine asserted_of_reaches ?_ ?_ h hc
  · intro c i inp db pc ha hg hs
    exact ⟨guarded_step ha.store (ha.process i) (hsweep c i inp hg) hs,
      pcSafe_own ha.store (ha.process i) hs⟩
  · intro c i inp db pc j ha _ hs hji
    exact pcSafe_frame ha.store (ha.process i) hji (ha.process j) hs

def TerminalFinal (c c' : Config Db Pc) : Prop :=
  ∀ i p, c.db.payments.committed i = some p → p.status.terminal = true →
    ∃ q, c'.db.payments.committed i = some q ∧ q.status = p.status

def ExtendedOnce (c : Config Db Pc) : Prop := (c.db.extensions.map Extension.payment).Nodup

theorem terminalFinal_of_reaches {c c' : Config Db Pc} (h : Reaches machine SweepsOpenRows c c')
    (hc : Asserted Guarded PcSafe c) : TerminalFinal c c' := by
  intro i p hp hterm
  induction h with
  | refl => exact ⟨p,hp,rfl⟩
  | tail hr hs ih =>
    obtain ⟨q,hq,hqs⟩ := ih
    have ha := guarded_of_reaches hr hc
    obtain ⟨m,_,hm⟩ := hs
    obtain ⟨db,pc,hstep,rfl⟩ := next_eq_some.mp hm
    have hqt : q.status.terminal = true := by rw [hqs]; exact hterm
    have hstmt := (step_payments hstep).statement
    obtain ⟨q',hq',hqs'⟩ := ha.store.terminal.committed_stable hstmt hq hqt
    exact ⟨q',hq',hqs'.trans hqs⟩

/-- In every run whose sweeps expire open rows only, a terminal status is final and each payment
extends the subscription at most once. -/
theorem payment_credited_once {init c c' : Config Db Pc} (hq : Quiet init)
    (hc : Reaches machine SweepsOpenRows init c) (hc' : Reaches machine SweepsOpenRows c c') :
    TerminalFinal c c' ∧ ExtendedOnce c' := by
  have hmid := guarded_of_reaches hc (guarded_of_quiet hq)
  have hend := guarded_of_reaches hc' hmid
  exact ⟨terminalFinal_of_reaches hc' hmid,hend.store.once⟩

/-! One open intent, two deliveries of its notification and one new intent of the user. -/

def noon (month day : ℕ) (h : 1 ≤ month ∧ month ≤ 12 ∧ 1 ≤ day ∧ day ≤ monthLength 2026 month) :
    DateTime where
  date := ⟨2026,month,day,by omega,by decide,h.1,h.2.1,h.2.2.1,h.2.2.2⟩
  timeOfDay := 12*hourMicros
  aware := true
  timeOfDay_lt := by decide

theorem first_of_january : 1 ≤ 1 ∧ 1 ≤ 12 ∧ 1 ≤ 1 ∧ 1 ≤ monthLength 2026 1 := by decide

theorem second_of_january : 1 ≤ 1 ∧ 1 ≤ 12 ∧ 1 ≤ 2 ∧ 2 ≤ monthLength 2026 1 := by decide

theorem third_of_january : 1 ≤ 1 ∧ 1 ≤ 12 ∧ 1 ≤ 3 ∧ 3 ≤ monthLength 2026 1 := by decide

theorem fourth_of_january : 1 ≤ 1 ∧ 1 ≤ 12 ∧ 1 ≤ 4 ∧ 4 ≤ monthLength 2026 1 := by decide

def openIntent : Payment where
  userId := 1
  yookassaPaymentId := some "2f1a"
  status := .pending
  kind := .subscription
  messagesCount := none
  createdAt := noon 1 1 first_of_january
  confirmedAt := none

def paymentTable (ps : List Payment) : Table Payment where
  size := ps.length
  slot := fun i => ⟨ps[i]?,none⟩
  fresh := by
    intro i hi
    simp [Slot.empty,hi]

def noSubscription : Table Subscription := ⟨0,fun _ => ⟨none,none⟩,fun _ _ => rfl⟩

def twoDeliveries : Config Db Pc where
  db := ⟨paymentTable [openIntent],noSubscription,[],fun _ => none,[]⟩
  pc := fun i =>
    match i with
    | 0 | 2 => .webhook .paymentSucceeded (some "2f1a")
    | 1 => .createPayment 1 .subscription none
    | _ => .finished (.answered false)

theorem quiet_twoDeliveries : Quiet twoDeliveries := by
  refine ⟨fun _ => rfl,fun _ => rfl,rfl,fun _ => rfl,rfl,fun i => ?_⟩
  match i with
  | 0 | 1 | 2 => rfl
  | _+3 => rfl

/-- Each move is made at noon of the third of January. -/
def moves (processes : List ℕ) : List (Move Input) :=
  processes.map fun i => (i,⟨noon 1 3 (by decide),none⟩)

theorem payment_credited_once_twoDeliveries : ∃ c c',
    c.db.payments.committed 0 = some { openIntent with
      status := .succeeded, confirmedAt := some (noon 1 3 (by decide)) } ∧
    c'.pc 2 = .finished (.answered true) ∧ TerminalFinal c c' ∧ ExtendedOnce c' := by
  have hrun : (exec machine SweepsOpenRows twoDeliveries (moves [1,1,1,0,0,0,0,0])).any (fun c =>
      c.db.payments.committed 0 = some { openIntent with
        status := .succeeded, confirmedAt := some (noon 1 3 (by decide)) } &&
      (exec machine SweepsOpenRows c (moves [1,2,2])).any
        fun c' => c'.pc 2 = .finished (.answered true)) = true := by decide
  obtain ⟨c,hc,htest⟩ := reaches_of_any hrun
  simp only [Bool.and_eq_true,decide_eq_true_eq] at htest
  obtain ⟨c',hc',hend⟩ := reaches_of_any htest.2
  exact ⟨c,c',htest.1,by simpa using hend,payment_credited_once quiet_twoDeliveries hc hc'⟩

/-- The notification is handled between the `SELECT` and the `UPDATE` of the sweep: the payment
goes from `succeeded` back to `expired`, and its second notification extends once more. -/
theorem late_sweep_reopens_payment : ∃ init c c' c'', Quiet init ∧
    Reaches machine anyMove init c ∧ Reaches machine anyMove c c' ∧ Reaches machine anyMove c' c'' ∧
    ¬TerminalFinal c c' ∧ ¬ExtendedOnce c'' := by
  have hrun : (exec machine anyMove twoDeliveries (moves [1,0,0,0,0,0])).any (fun c =>
      (c.db.payments.committed 0).map Payment.status = some .succeeded &&
      (exec machine anyMove c (moves [1,1])).any fun c' =>
        (c'.db.payments.committed 0).map Payment.status = some .expired &&
        (exec machine anyMove c' (moves [2,2,2,2,2])).any fun c'' =>
          c''.db.extensions.map Extension.payment = [0,0]) = true := by decide
  obtain ⟨c,hc,h⟩ := reaches_of_any hrun
  simp only [Bool.and_eq_true,decide_eq_true_eq] at h
  obtain ⟨c',hc',h'⟩ := reaches_of_any h.2
  simp only [Bool.and_eq_true,decide_eq_true_eq] at h'
  obtain ⟨c'',hc'',h''⟩ := reaches_of_any h'.2
  refine ⟨twoDeliveries,c,c',c'',quiet_twoDeliveries,hc,hc',hc'',?_,?_⟩
  · intro hfinal
    obtain ⟨p,hp,hps⟩ := Option.map_eq_some_iff.mp h.1
    obtain ⟨q,hq,hqs⟩ := hfinal 0 p hp (by rw [hps]; decide)
    have hexp : some q.status = some Status.expired := by simpa [hq] using h'.1
    rw [hqs,hps] at hexp
    exact absurd hexp (by decide)
  · intro honce
    have hlog : c''.db.extensions.map Extension.payment = [0,0] := by simpa using h''
    rw [ExtendedOnce,hlog] at honce
    exact absurd honce (by decide)

end PaymentService
end Broadcaster
