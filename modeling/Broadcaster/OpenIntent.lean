import Broadcaster.PaymentSafety

/-!
# The cap on open subscription intents

A subscription call sweeps the stale intents of its user, reserves a row under
the partial unique index, calls the provider and, when the provider fails,
expires the row again. The assertion at each program counter says what the call
already knows about the rows of its sweep and about its own row; no other
request can falsify it.
-/

namespace Broadcaster
namespace PaymentService

open Calendar Interleaving

/-- The call has neither inserted a row nor spoken to the provider. -/
def Untouched (db : Db) (tx : ℕ) : Prop := (∀ r, db.author r ≠ some tx) ∧ tx ∉ db.sdkCalls

section Step

variable {db db' : Db} {tx o : ℕ} {pc pc' : Pc} {inp : Input}

end Step

def OpenIntent (db : Db) (user i : ℕ) (p : Payment) : Prop :=
  db.payments.committed i = some p ∧ p.userId = user ∧ p.isOpenIntent = true

def StaleIntent (db : Db) (user : ℕ) (now : DateTime) (i : ℕ) : Prop :=
  ∃ p, OpenIntent db user i p ∧ p.olderThanTtl now = true

/-- In the run `ms` the call selects what it has to sweep in the state `s`, by a clock that shows `now`. -/
def SweepsAt (init : Config Db Pc) (ms : List (Move Input)) (tx user : ℕ) (s : Config Db Pc)
    (now : DateTime) : Prop :=
  ∃ inp messagesCount, MovesAt machine init ms tx s inp ∧
    s.pc tx = .createPayment user .subscription messagesCount ∧ inp.now = now

/-- The call has made its selection, and `stale` is what it found. -/
structure Swept (init : Config Db Pc) (ms : List (Move Input)) (tx user : ℕ) (stale : List ℕ) : Prop where
  made : ∃ s now, SweepsAt init ms tx user s now
  found : ∀ s now, SweepsAt init ms tx user s now → ∀ i, i ∈ stale ↔ StaleIntent s.db user now i

/-- When the call came to insert, the user had an open intent that had not been found by its sweep: it was
not older than the TTL then, or not open, or not visible. -/
def Refused (init : Config Db Pc) (ms : List (Move Input)) (tx user : ℕ) : Prop :=
  ∃ s now, SweepsAt init ms tx user s now ∧
    ∃ d inp stale, MovesAt machine init ms tx d inp ∧ d.pc tx = .reserve user stale ∧
      ∃ i p, OpenIntent d.db user i p ∧ ¬StaleIntent s.db user now i

section History

variable {init c s : Config Db Pc} {ms : List (Move Input)} {m : Move Input} {tx user : ℕ} {now : DateTime}
  {stale : List ℕ}

theorem SweepsAt.concat (hc : exec machine anyMove init ms = some c)
    (h : SweepsAt init ms tx user s now) : SweepsAt init (ms ++ [m]) tx user s now := by
  obtain ⟨inp,n,hm,hrest⟩ := h
  exact ⟨inp,n,(movesAt_concat hc).mpr (.inl hm),hrest⟩

theorem sweepsAt_of_concat (hc : exec machine anyMove init ms = some c)
    (hother : m.1 = tx → ∀ u kind n, c.pc tx ≠ .createPayment u kind n)
    (h : SweepsAt init (ms ++ [m]) tx user s now) : SweepsAt init ms tx user s now := by
  obtain ⟨inp,n,hm,hpc,hnow⟩ := h
  rcases (movesAt_concat hc).mp hm with hm | ⟨rfl,rfl⟩
  · exact ⟨inp,n,hm,hpc,hnow⟩
  · exact absurd hpc (hother rfl _ _ _)

theorem Swept.concat (h : Swept init ms tx user stale) (hc : exec machine anyMove init ms = some c)
    (hother : m.1 = tx → ∀ u kind n, c.pc tx ≠ .createPayment u kind n) :
    Swept init (ms ++ [m]) tx user stale := by
  obtain ⟨s,now,hs⟩ := h.made
  refine ⟨⟨s,now,hs.concat hc⟩,fun s now hs => h.found s now ?_⟩
  exact sweepsAt_of_concat hc hother hs

theorem Refused.concat (h : Refused init ms tx user) (hc : exec machine anyMove init ms = some c) :
    Refused init (ms ++ [m]) tx user := by
  obtain ⟨s,now,hs,d,inp,stale,hd,hrest⟩ := h
  exact ⟨s,now,hs.concat hc,d,inp,stale,(movesAt_concat hc).mpr (.inl hd),hrest⟩

end History

end PaymentService
end Broadcaster
