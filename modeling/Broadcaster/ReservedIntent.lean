import Broadcaster.PaymentStep

/-!
# The row that a subscription call reserves

A reserved row has no id of the provider, so no notification can find it, and
only the call that inserted it writes to it, a sweep apart.
-/

namespace Broadcaster
namespace PaymentService

open Calendar Interleaving

def AuthorBelow (db : Db) : Prop := ∀ i o, db.author i = some o → i < db.payments.size

/-- The row was inserted by `tx` and nobody can have claimed it: it has no id of the provider. -/
def ReservedBy (db : Db) (tx reserved : ℕ) : Prop :=
  db.author reserved = some tx ∧ ∀ p, db.payments.MayBe reserved p →
    p.yookassaPaymentId = none ∧ p.status.terminal = false

section Step

variable {db db' : Db} {tx o : ℕ} {pc pc' : Pc} {inp : Input}

theorem authorBelow_step (ha : AuthorBelow db) (h : step db tx pc inp = some (db',pc')) :
    AuthorBelow db' := by
  have hsize := (step_payments h).statement.size_le
  intro i o hi
  rcases step_author h with he | ⟨hnew,he⟩
  · rw [he] at hi
    exact Nat.lt_of_lt_of_le (ha i o hi) hsize
  · by_cases hn : i = db.payments.size
    · omega
    · rw [he,Function.update_of_ne hn] at hi
      have hlt := ha i o hi
      omega

theorem author_stable {i : ℕ} (ha : AuthorBelow db) (h : step db tx pc inp = some (db',pc'))
    (hi : db.author i = some o) : db'.author i = some o := by
  rcases step_author h with he | ⟨_,he⟩
  · rw [he]
    exact hi
  · rw [he,Function.update_of_ne (Nat.ne_of_lt (ha i o hi))]
    exact hi

theorem reservedBy_own {reserved : ℕ}
    (hl : ∀ r, pc.reservedPayment = some r → ReservedBy db tx r)
    (h : step db tx pc inp = some (db',pc')) (hpc : pc'.reservedPayment = some reserved) :
    ReservedBy db' tx reserved := by
  rcases step_reserved h hpc with ⟨hr,ha,hp⟩ | ⟨user,stale,rfl,_,rfl,rfl⟩
  · obtain ⟨hauthor,hfree⟩ := hl reserved hr
    refine ⟨by rw [ha]; exact hauthor,?_⟩
    intro p hm
    rcases hp with hp | hp
    · rw [hp] at hm
      exact hfree p hm
    · rw [hp] at hm
      exact hfree p (Table.mayBe_commit hm)
  · refine ⟨by simp [Db.withAuthor],?_⟩
    intro p hm
    rcases Table.mayBe_insert hm with hm | ⟨_,rfl⟩
    · exact absurd hm.lt (Nat.lt_irrefl _)
    · exact ⟨rfl,rfl⟩

/-- No other request gets at a reserved row, except that a sweep may expire it. -/
theorem reservedBy_frame {reserved : ℕ} (ha : AuthorBelow db)
    (hl : ∀ r, pc.reservedPayment = some r → ReservedBy db tx r) (hne : o ≠ tx)
    (ho : ReservedBy db o reserved) (h : step db tx pc inp = some (db',pc')) :
    ReservedBy db' o reserved := by
  obtain ⟨hauthor,hfree⟩ := ho
  have hlt := ha reserved o hauthor
  have hother : ∀ r, pc.reservedPayment = some r → reserved ≠ r := by
    intro r hr he
    have hr' := (hl r hr).1
    rw [← he,hauthor] at hr'
    exact hne (Option.some.inj hr')
  refine ⟨author_stable ha h hauthor,?_⟩
  refine (step_payments h).mayBe hlt hfree ?_ ?_ ?_
  · intro p yookassaId status now hid _ hp
    rw [hp.1] at hid
    cases hid
  · intro p hp
    exact ⟨hp.1,rfl⟩
  · intro p yookassaId hpc _
    rw [hpc] at hother
    exact absurd rfl (hother reserved rfl)

end Step

end PaymentService
end Broadcaster
