import Broadcaster.Interleaving
import Broadcaster.VerificationCodes

/-!
# Guessing a code, with many requests at once

The statements of the verify, send and resend requests under READ COMMITTED.
`UPDATE` and `INSERT` are sent by the commit itself and set constants, so that
they and the commit are one move. `wrong` counts the guesses that each code has
been compared with in vain.
-/

namespace Broadcaster
namespace CodeGuesses

open Python ScheduleService VerificationCodes Interleaving

structure Db where
  now : Instant
  codes : Store EmailVerificationCode
  wrong : ℕ → ℕ

/-- Where a request stands; the token of the request has been decoded to the e-mail. -/
inductive Pc
  /-- `now = datetime.now(timezone.utc)` of a verification -/
  | verify (purpose : Purpose) (email guess : String)
  | selectCode (purpose : Purpose) (email guess : String) (now : Instant)
  | countAttempt (i attempts : ℕ)
  | confirm (i : ℕ) (now : Instant)
  | sendCode (purpose : Purpose) (email code : String)
  /-- the newest code; begins the transaction of a resend -/
  | selectNewest (purpose : Purpose) (email code : String) (begun : Option Instant)
  | checkCooldown (purpose : Purpose) (email code : String) (begun : Instant)
      (last : Option (ℕ × EmailVerificationCode))
  | createCode (purpose : Purpose) (email code : String) (begun now : Instant)
  | finished
  deriving DecidableEq

structure Input where
  elapsed : ℕ
  /-- which of the newest rows the database returns -/
  pick : Option ℕ
  refused : Bool

def statement (db : Db) : Pc → Input → Option (Db × Pc)
  | .verify purpose email guess, _ => some (db,.selectCode purpose email guess db.now)
  | .selectCode purpose email guess now, inp =>
    (newest db.codes (EmailVerificationCode.confirmable purpose email now) inp.pick).map fun
      | none => (db,.finished)
      | some (i,c) =>
        if c.isGuessed guess then (db,.confirm i now)
        else ({ db with wrong := Function.update db.wrong i (db.wrong i+1) },.countAttempt i c.attempts)
  | .countAttempt i attempts, _ =>
    some ({ db with codes := db.codes.update i fun c => { c with attempts := attempts+1 } },.finished)
  | .confirm i now, _ =>
    some ({ db with codes := db.codes.update i fun c => { c with verifiedAt := some now } },.finished)
  | .sendCode purpose email code, inp =>
    some (db,if inp.refused then .finished else .selectNewest purpose email code (some db.now))
  | .selectNewest purpose email code begun, inp =>
    (newest db.codes (EmailVerificationCode.issuedFor purpose email) inp.pick).map fun last =>
      (db,.checkCooldown purpose email code (begun.getD db.now) last)
  | .checkCooldown purpose email code begun last, _ =>
    some (db,if coolingDown db.now last then .finished else .createCode purpose email code begun db.now)
  | .createCode purpose email code begun now, _ =>
    some ({ db with codes := db.codes.insert (newCode purpose email code now begun) },.finished)
  | .finished, _ => none

/-- Time passes before each statement. -/
def Db.wait (db : Db) (elapsed : ℕ) : Db := { db with now := db.now+elapsed }

def machine : Machine Db Pc Input where
  step db _ pc inp := statement (db.wait inp.elapsed) pc inp

def Pc.isStart : Pc → Bool
  | verify .. | sendCode .. | selectNewest _ _ _ none | finished => true
  | _ => false

structure Initial (c : Config Db Pc) : Prop where
  codes : ∀ i, c.db.codes.row i = none
  wrong : ∀ i, c.db.wrong i = 0
  pc : ∀ i, (c.pc i).isStart = true

def Bounded (db : Db) : Prop := ∀ i, db.wrong i ≤ codeMaxAttempts

/-- Codes for one e-mail and purpose, by the times of their creation. -/
def Spaced (db : Db) : Prop :=
  ∀ i j c d, i ≠ j → db.codes.row i = some c → db.codes.row j = some d →
    c.purpose = d.purpose → c.email = d.email →
    c.createdAt+codeResendCooldown ≤ d.createdAt ∨ d.createdAt+codeResendCooldown ≤ c.createdAt

/-- The code whose wrong guess has been found but not counted yet. -/
def Pc.counting : Pc → Option ℕ
  | countAttempt i _ => some i
  | _ => none

/-- For whom a code will be created, its age having been checked. -/
def Pc.creating : Pc → Option (Purpose × String)
  | createCode purpose email _ _ _ => some (purpose,email)
  | _ => none

/-- No code was committed that is newer than the selected one. -/
def NothingNewer (codes : Store EmailVerificationCode) (purpose : Purpose) (email : String)
    (last : Option (ℕ × EmailVerificationCode)) : Prop :=
  ∀ i c, codes.row i = some c → c.issuedFor purpose email = true →
    ∃ j d, last = some (j,d) ∧ c.createdAt ≤ d.createdAt

/-- A verification selects no code with an uncounted wrong guess. A request passes the cooldown only
when nobody else of its e-mail and purpose is between the check and the commit, no code has been
committed since it selected the newest one, and that one was old enough when its transaction began. -/
def Apart (c : Config Db Pc) (m : Move Input) : Prop :=
  match c.pc m.1 with
  | .selectCode .. => ∀ i, m.2.pick = some i → ∀ j, (c.pc j).counting ≠ some i
  | .checkCooldown purpose email _ begun last =>
    coolingDown (c.db.now+m.2.elapsed) last = true ∨
      ((∀ j, (c.pc j).creating ≠ some (purpose,email)) ∧ NothingNewer c.db.codes purpose email last ∧
        coolingDown begun last = false)
  | _ => True

inductive Transition (db : Db) (inp : Input) : Pc → Db → Pc → Prop
  | quiet {pc pc' : Pc} (counting : pc'.counting = none) (creating : pc'.creating = none)
      (same : pc.counting = none ∧ pc.creating = none) : Transition db inp pc db pc'
  | guessed {purpose : Purpose} {email guess : String} {now : Instant} {i : ℕ}
      {c : EmailVerificationCode} (pick : inp.pick = some i) (row : db.codes.row i = some c)
      (left : c.attempts < codeMaxAttempts) :
      Transition db inp (.selectCode purpose email guess now)
        { db with wrong := Function.update db.wrong i (db.wrong i+1) } (.countAttempt i c.attempts)
  | counted {i attempts : ℕ} :
      Transition db inp (.countAttempt i attempts)
        { db with codes := db.codes.update i fun c => { c with attempts := attempts+1 } } .finished
  | confirmed {i : ℕ} {now : Instant} :
      Transition db inp (.confirm i now)
        { db with codes := db.codes.update i fun c => { c with verifiedAt := some now } } .finished
  | passed {purpose : Purpose} {email code : String} {begun : Instant}
      {last : Option (ℕ × EmailVerificationCode)} (old : coolingDown db.now last = false) :
      Transition db inp (.checkCooldown purpose email code begun last) db
        (.createCode purpose email code begun db.now)
  | created {purpose : Purpose} {email code : String} {begun now : Instant} :
      Transition db inp (.createCode purpose email code begun now)
        { db with codes := db.codes.insert (newCode purpose email code now begun) } .finished

theorem pick_of_newest {codes : Store EmailVerificationCode} {p : EmailVerificationCode → Bool}
    {pick : Option ℕ} {i : ℕ} {c : EmailVerificationCode} (h : newest codes p pick = some (some (i,c))) :
    pick = some i := by
  cases pick with
  | none =>
    simp only [newest] at h
    split at h <;> cases h
  | some j =>
    obtain ⟨d,_,hif⟩ := Option.bind_eq_some_iff.mp h
    split at hif
    · cases hif
      rfl
    · cases hif

theorem transition_of_statement {db db' : Db} {inp : Input} {pc pc' : Pc}
    (h : statement db pc inp = some (db',pc')) : Transition db inp pc db' pc' := by
  cases pc with
  | verify purpose email guess =>
    obtain ⟨rfl,rfl⟩ := Prod.mk.inj (Option.some.inj h)
    exact .quiet rfl rfl ⟨rfl,rfl⟩
  | selectCode purpose email guess now =>
    obtain ⟨last,hnewest,hlast⟩ := Option.map_eq_some_iff.mp h
    cases last with
    | none =>
      obtain ⟨rfl,rfl⟩ := Prod.mk.inj hlast
      exact .quiet rfl rfl ⟨rfl,rfl⟩
    | some r =>
      obtain ⟨i,c⟩ := r
      obtain ⟨hrow,hp,_⟩ := newest_eq_some hnewest
      have hleft : c.attempts < codeMaxAttempts := by
        simp only [EmailVerificationCode.confirmable,Bool.and_eq_true,decide_eq_true_eq] at hp
        exact hp.2
      simp only at hlast
      split at hlast <;> obtain ⟨rfl,rfl⟩ := Prod.mk.inj hlast
      · exact .quiet rfl rfl ⟨rfl,rfl⟩
      · exact .guessed (pick_of_newest hnewest) hrow hleft
  | countAttempt i attempts =>
    obtain ⟨rfl,rfl⟩ := Prod.mk.inj (Option.some.inj h)
    exact .counted
  | confirm i now =>
    obtain ⟨rfl,rfl⟩ := Prod.mk.inj (Option.some.inj h)
    exact .confirmed
  | sendCode purpose email code =>
    obtain ⟨rfl,rfl⟩ := Prod.mk.inj (Option.some.inj h)
    cases inp.refused <;> exact .quiet rfl rfl ⟨rfl,rfl⟩
  | selectNewest purpose email code begun =>
    obtain ⟨last,_,hlast⟩ := Option.map_eq_some_iff.mp h
    obtain ⟨rfl,rfl⟩ := Prod.mk.inj hlast
    exact .quiet rfl rfl ⟨rfl,rfl⟩
  | checkCooldown purpose email code begun last =>
    obtain ⟨rfl,rfl⟩ := Prod.mk.inj (Option.some.inj h)
    split
    · exact .quiet rfl rfl ⟨rfl,rfl⟩
    · rename_i hold
      exact .passed (by simpa using hold)
  | createCode purpose email code begun now =>
    obtain ⟨rfl,rfl⟩ := Prod.mk.inj (Option.some.inj h)
    exact .created
  | finished => cases h

/-- The guesses of a code are its attempts, and one more while a wrong guess is being counted. -/
structure Counted (c : Config Db Pc) : Prop where
  pending : ∀ j i a, c.pc j = .countAttempt i a →
    ∃ code, c.db.codes.row i = some code ∧ code.attempts = a ∧ c.db.wrong i = a+1 ∧ a < codeMaxAttempts
  alone : ∀ j k i, (c.pc j).counting = some i → (c.pc k).counting = some i → j = k
  settled : ∀ i code, c.db.codes.row i = some code → (∀ j, (c.pc j).counting ≠ some i) →
    c.db.wrong i = code.attempts
  attempts : ∀ i code, c.db.codes.row i = some code → code.attempts ≤ codeMaxAttempts
  absent : ∀ i, c.db.codes.row i = none → c.db.wrong i = 0

theorem counting_eq_some {pc : Pc} {i : ℕ} (h : pc.counting = some i) : ∃ a, pc = .countAttempt i a := by
  cases pc <;> simp [Pc.counting] at h
  subst h
  exact ⟨_,rfl⟩

theorem Counted.bounded {c : Config Db Pc} (h : Counted c) : Bounded c.db := by
  intro i
  cases hrow : c.db.codes.row i with
  | none =>
    rw [h.absent i hrow]
    exact Nat.zero_le _
  | some code =>
    by_cases hpending : ∃ j, (c.pc j).counting = some i
    · obtain ⟨j,hj⟩ := hpending
      obtain ⟨a,ha⟩ := counting_eq_some hj
      obtain ⟨_,_,_,hwrong,hlt⟩ := h.pending j i a ha
      omega
    · rw [h.settled i code hrow fun j hj => hpending ⟨j,hj⟩]
      exact h.attempts i code hrow

def KeepsAttempts (codes codes' : Store EmailVerificationCode) : Prop :=
  ∀ i, (codes'.row i).map EmailVerificationCode.attempts = (codes.row i).map EmailVerificationCode.attempts ∨
    (codes.row i = none ∧ (codes'.row i).map EmailVerificationCode.attempts = some 0)

theorem keepsAttempts_refl (codes : Store EmailVerificationCode) : KeepsAttempts codes codes :=
  fun _ => .inl rfl

theorem keepsAttempts_confirm (codes : Store EmailVerificationCode) (i : ℕ) (now : Instant) :
    KeepsAttempts codes (codes.update i fun c => { c with verifiedAt := some now }) := by
  intro j
  left
  by_cases hj : j = i
  · subst hj
    cases hrow : codes.row j <;> simp [Store.update,hrow]
  · rw [Store.row_update_of_ne hj]

theorem keepsAttempts_insert (codes : Store EmailVerificationCode) (purpose : Purpose)
    (email code : String) (now begun : Instant) :
    KeepsAttempts codes (codes.insert (newCode purpose email code now begun)) := by
  intro j
  by_cases hj : j = codes.size
  · subst hj
    exact .inr ⟨codes.fresh _ (le_refl _),by simp [Store.insert,newCode]⟩
  · exact .inl (by simp [Store.insert,hj])

theorem Counted.quiet {c : Config Db Pc} (h : Counted c) {db : Db} {n : ℕ} {pc : Pc}
    (hcodes : KeepsAttempts c.db.codes db.codes) (hwrong : db.wrong = c.db.wrong)
    (hold : (c.pc n).counting = none) (hnew : pc.counting = none) :
    Counted ⟨db,Function.update c.pc n pc⟩ := by
  constructor <;> simp only [hwrong]
  · intro j i a hj
    have hcount : (Function.update c.pc n pc j).counting = some i := by
      rw [hj]
      rfl
    rw [Function.update_of_ne (holds_of_update (by simp [hnew]) hcount).1] at hj
    obtain ⟨code,hrow,hattempts,hrest⟩ := h.pending j i a hj
    rcases hcodes i with hkeep | ⟨habsent,_⟩
    · rw [hrow,Option.map_some,hattempts] at hkeep
      obtain ⟨code',hrow',hattempts'⟩ := Option.map_eq_some_iff.mp hkeep
      exact ⟨code',hrow',hattempts',hrest⟩
    · rw [hrow] at habsent
      cases habsent
  · exact held_once_of_update (by simp [hnew]) h.alone
  · intro i code' hrow' hnone
    rcases hcodes i with hkeep | ⟨habsent,hzero⟩
    · rw [hrow',Option.map_some] at hkeep
      obtain ⟨code,hrow,hattempts⟩ := Option.map_eq_some_iff.mp hkeep.symm
      rw [← hattempts]
      exact h.settled i code hrow (not_holds_of_update (by simp [hold]) hnone)
    · rw [hrow'] at hzero
      rw [h.absent i habsent,Option.some.inj hzero]
  · intro i code' hrow'
    rcases hcodes i with hkeep | ⟨_,hzero⟩
    · rw [hrow',Option.map_some] at hkeep
      obtain ⟨code,hrow,hattempts⟩ := Option.map_eq_some_iff.mp hkeep.symm
      rw [← hattempts]
      exact h.attempts i code hrow
    · rw [hrow'] at hzero
      rw [Option.some.inj hzero]
      exact Nat.zero_le _
  · intro i hnone
    rcases hcodes i with hkeep | ⟨habsent,_⟩
    · rw [hnone] at hkeep
      exact h.absent i (Option.map_eq_none_iff.mp hkeep.symm)
    · exact h.absent i habsent

theorem Counted.guessed {c : Config Db Pc} (h : Counted c) {n i : ℕ} {db : Db}
    {code : EmailVerificationCode} (hcodes : db.codes = c.db.codes)
    (hwrong : db.wrong = Function.update c.db.wrong i (c.db.wrong i+1))
    (hold : (c.pc n).counting = none) (hrow : c.db.codes.row i = some code)
    (hleft : code.attempts < codeMaxAttempts) (hfree : ∀ j, (c.pc j).counting ≠ some i) :
    Counted ⟨db,Function.update c.pc n (.countAttempt i code.attempts)⟩ := by
  have hsettled := h.settled i code hrow hfree
  constructor <;> simp only [hcodes,hwrong]
  · intro j k a hj
    by_cases hjn : j = n
    · subst hjn
      rw [Function.update_self] at hj
      cases hj
      refine ⟨code,hrow,rfl,?_,hleft⟩
      rw [Function.update_self,hsettled]
    · rw [Function.update_of_ne hjn] at hj
      have hki : k ≠ i := by
        rintro rfl
        exact hfree j (by rw [hj]; rfl)
      rw [Function.update_of_ne hki]
      exact h.pending j k a hj
  · refine held_once_of_update ?_ h.alone
    intro x hx j _
    rw [← Option.some.inj hx]
    exact hfree j
  · intro k code' hrow' hnone
    have hki : k ≠ i := by
      rintro rfl
      exact hnone n (by rw [Function.update_self]; rfl)
    rw [Function.update_of_ne hki]
    exact h.settled k code' hrow' (not_holds_of_update (by simp [hold]) hnone)
  · exact h.attempts
  · intro k hk
    have hki : k ≠ i := by
      rintro rfl
      rw [hrow] at hk
      cases hk
    rw [Function.update_of_ne hki]
    exact h.absent k hk

theorem Counted.counted {c : Config Db Pc} (h : Counted c) {n i a : ℕ} {db : Db}
    (hold : c.pc n = .countAttempt i a)
    (hcodes : db.codes = c.db.codes.update i fun code => { code with attempts := a+1 })
    (hwrong : db.wrong = c.db.wrong) : Counted ⟨db,Function.update c.pc n .finished⟩ := by
  obtain ⟨code,hrow,_,hcount,hlt⟩ := h.pending n i a hold
  have hother : ∀ j, j ≠ n → (c.pc j).counting ≠ some i := by
    intro j hj hcounting
    exact hj (h.alone j n i hcounting (by rw [hold]; rfl))
  have hself : db.codes.row i = some { code with attempts := a+1 } := by
    rw [hcodes]
    exact Store.row_update_self hrow
  have hrest : ∀ k, k ≠ i → db.codes.row k = c.db.codes.row k := by
    intro k hk
    rw [hcodes]
    exact Store.row_update_of_ne hk
  constructor <;> simp only [hwrong]
  · intro j k b hj
    have hcounting : (Function.update c.pc n .finished j).counting = some k := by
      rw [hj]
      rfl
    obtain ⟨hjn,hcounting⟩ := holds_of_update (by simp [Pc.counting]) hcounting
    rw [Function.update_of_ne hjn] at hj
    have hki : k ≠ i := by
      rintro rfl
      exact hother j hjn hcounting
    rw [hrest k hki]
    exact h.pending j k b hj
  · exact held_once_of_update (fun x hx => nomatch hx) h.alone
  · intro k code' hrow' hnone
    by_cases hki : k = i
    · subst hki
      rw [hself] at hrow'
      cases hrow'
      exact hcount
    · rw [hrest k hki] at hrow'
      refine h.settled k code' hrow' (not_holds_of_update ?_ hnone)
      rw [hold]
      exact fun he => hki (Option.some.inj he).symm
  · intro k code' hrow'
    by_cases hki : k = i
    · subst hki
      rw [hself] at hrow'
      cases hrow'
      exact hlt
    · rw [hrest k hki] at hrow'
      exact h.attempts k code' hrow'
  · intro k hk
    by_cases hki : k = i
    · subst hki
      rw [hself] at hk
      cases hk
    · rw [hrest k hki] at hk
      exact h.absent k hk

theorem Counted.step {c : Config Db Pc} (h : Counted c) {n : ℕ} {inp : Input} {db : Db} {pc : Pc}
    (hg : Apart c (n,inp)) (ht : Transition (c.db.wait inp.elapsed) inp (c.pc n) db pc) :
    Counted ⟨db,Function.update c.pc n pc⟩ := by
  generalize hpc : c.pc n = old at ht
  cases ht with
  | quiet counting _ same => exact h.quiet (keepsAttempts_refl _) rfl (hpc ▸ same.1) counting
  | guessed pick row left =>
    have hfree := hg
    simp only [Apart,hpc] at hfree
    exact h.guessed rfl rfl (by rw [hpc]; rfl) row left (hfree _ pick)
  | counted => exact h.counted hpc rfl rfl
  | confirmed => exact h.quiet (keepsAttempts_confirm _ _ _) rfl (by rw [hpc]; rfl) rfl
  | passed _ => exact h.quiet (keepsAttempts_refl _) rfl (by rw [hpc]; rfl) rfl
  | created => exact h.quiet (keepsAttempts_insert _ _ _ _ _ _) rfl (by rw [hpc]; rfl) rfl

structure Separated (c : Config Db Pc) : Prop where
  spaced : Spaced c.db
  ready : ∀ j purpose email code begun now, c.pc j = .createCode purpose email code begun now →
    ∀ i d, c.db.codes.row i = some d → d.issuedFor purpose email = true →
      d.createdAt+codeResendCooldown ≤ begun
  alone : ∀ j k x, (c.pc j).creating = some x → (c.pc k).creating = some x → j = k

theorem issuedFor_iff {purpose : Purpose} {email : String} {c : EmailVerificationCode} :
    c.issuedFor purpose email = true ↔ c.email = email ∧ c.purpose = purpose := by
  simp [EmailVerificationCode.issuedFor]

def KeepsCreation (codes codes' : Store EmailVerificationCode) : Prop :=
  ∀ i d, codes'.row i = some d → ∃ c, codes.row i = some c ∧ c.email = d.email ∧
    c.purpose = d.purpose ∧ c.createdAt = d.createdAt

theorem keepsCreation_refl (codes : Store EmailVerificationCode) : KeepsCreation codes codes :=
  fun _ d hd => ⟨d,hd,rfl,rfl,rfl⟩

theorem keepsCreation_update {codes : Store EmailVerificationCode} {i : ℕ}
    {f : EmailVerificationCode → EmailVerificationCode}
    (hf : ∀ c, (f c).email = c.email ∧ (f c).purpose = c.purpose ∧ (f c).createdAt = c.createdAt) :
    KeepsCreation codes (codes.update i f) := by
  intro j d hd
  obtain ⟨c,hc,rfl⟩ := Store.row_update.mp hd
  refine ⟨c,hc,?_⟩
  split
  · obtain ⟨he,hp,ht⟩ := hf c
    exact ⟨he.symm,hp.symm,ht.symm⟩
  · exact ⟨rfl,rfl,rfl⟩

theorem Separated.quiet {c : Config Db Pc} (h : Separated c) {db : Db} {n : ℕ} {pc : Pc}
    (hcodes : KeepsCreation c.db.codes db.codes) (hnew : pc.creating = none) :
    Separated ⟨db,Function.update c.pc n pc⟩ := by
  constructor
  · intro i j d e hne hd he hp hm
    obtain ⟨d',hd',hde,hdp,hdt⟩ := hcodes i d hd
    obtain ⟨e',he',hee,hep,het⟩ := hcodes j e he
    have hpurpose : d'.purpose = e'.purpose := hdp.trans (hp.trans hep.symm)
    have hemail : d'.email = e'.email := hde.trans (hm.trans hee.symm)
    rw [← hdt,← het]
    exact h.spaced i j d' e' hne hd' he' hpurpose hemail
  · intro j purpose email code begun now hj i d hd hfor
    obtain ⟨d',hd',hde,hdp,hdt⟩ := hcodes i d hd
    have hj' : Function.update c.pc n pc j = .createCode purpose email code begun now := hj
    have hcreating : (Function.update c.pc n pc j).creating = some (purpose,email) := by
      rw [hj']
      rfl
    rw [Function.update_of_ne (holds_of_update (by simp [hnew]) hcreating).1] at hj'
    obtain ⟨hemail,hpurpose⟩ := issuedFor_iff.mp hfor
    rw [← hdt]
    exact h.ready j purpose email code begun now hj' i d' hd'
      (issuedFor_iff.mpr ⟨hde.trans hemail,hdp.trans hpurpose⟩)
  · exact held_once_of_update (by simp [hnew]) h.alone

theorem coolingDown_eq_false {now : Instant} {i : ℕ} {c : EmailVerificationCode}
    (h : coolingDown now (some (i,c)) = false) : c.createdAt+codeResendCooldown ≤ now := by
  simp only [coolingDown,Option.any_some,decide_eq_false_iff_not,not_lt] at h
  exact le_sub_iff_add_le'.mp h

theorem Separated.passed {c : Config Db Pc} (h : Separated c) {n : ℕ} {db : Db} {purpose : Purpose}
    {email code : String} {begun now : Instant} {last : Option (ℕ × EmailVerificationCode)}
    (hcodes : db.codes = c.db.codes) (halone : ∀ j, (c.pc j).creating ≠ some (purpose,email))
    (hnewer : NothingNewer c.db.codes purpose email last) (hold : coolingDown begun last = false) :
    Separated ⟨db,Function.update c.pc n (.createCode purpose email code begun now)⟩ := by
  have hspaced : Spaced db := by
    unfold Spaced
    rw [hcodes]
    exact h.spaced
  refine ⟨hspaced,?_,?_⟩
  · simp only [hcodes]
    intro j purpose' email' code' begun' now' hj i d hd hfor
    by_cases hjn : j = n
    · subst hjn
      rw [Function.update_self] at hj
      cases hj
      obtain ⟨k,e,rfl,hle⟩ := hnewer i d hd hfor
      have hready := coolingDown_eq_false hold
      exact le_trans (add_le_add_left hle _) hready
    · rw [Function.update_of_ne hjn] at hj
      exact h.ready j purpose' email' code' begun' now' hj i d hd hfor
  · refine held_once_of_update ?_ h.alone
    intro x hx j _
    rw [← Option.some.inj hx]
    exact halone j

theorem Separated.created {c : Config Db Pc} (h : Separated c) {n : ℕ} {db : Db} {purpose : Purpose}
    {email code : String} {begun now : Instant}
    (hold : c.pc n = .createCode purpose email code begun now)
    (hcodes : db.codes = c.db.codes.insert (newCode purpose email code now begun)) :
    Separated ⟨db,Function.update c.pc n .finished⟩ := by
  have hready := h.ready n purpose email code begun now hold
  have hrow : ∀ i d, db.codes.row i = some d →
      (i = c.db.codes.size ∧ d = newCode purpose email code now begun) ∨ c.db.codes.row i = some d := by
    intro i d hd
    rw [hcodes] at hd
    exact Store.row_insert.mp hd
  refine ⟨?_,?_,?_⟩
  · intro i j d e hne hd he hp hm
    rcases hrow i d hd with ⟨hi,rfl⟩ | hd
    · rcases hrow j e he with ⟨hj,_⟩ | he
      · exact absurd (hi.trans hj.symm) hne
      · exact .inr (hready j e he (issuedFor_iff.mpr ⟨hm.symm,hp.symm⟩))
    · rcases hrow j e he with ⟨_,rfl⟩ | he
      · exact .inl (hready i d hd (issuedFor_iff.mpr ⟨hm,hp⟩))
      · exact h.spaced i j d e hne hd he hp hm
  · intro j purpose' email' code' begun' now' hj i d hd hfor
    have hj' : Function.update c.pc n .finished j = .createCode purpose' email' code' begun' now' := hj
    have hcreating : (Function.update c.pc n .finished j).creating = some (purpose',email') := by
      rw [hj']
      rfl
    obtain ⟨hjn,hcreating⟩ := holds_of_update (by simp [Pc.creating]) hcreating
    rw [Function.update_of_ne hjn] at hj'
    rcases hrow i d hd with ⟨_,rfl⟩ | hd
    · obtain ⟨hemail,hpurpose⟩ := issuedFor_iff.mp hfor
      have hmine : (c.pc n).creating = some (purpose',email') := by
        rw [hold,← hemail,← hpurpose]
        rfl
      exact absurd (h.alone j n _ hcreating hmine) hjn
    · exact h.ready j purpose' email' code' begun' now' hj' i d hd hfor
  · exact held_once_of_update (fun x hx => nomatch hx) h.alone

theorem Separated.step {c : Config Db Pc} (h : Separated c) {n : ℕ} {inp : Input} {db : Db} {pc : Pc}
    (hg : Apart c (n,inp)) (ht : Transition (c.db.wait inp.elapsed) inp (c.pc n) db pc) :
    Separated ⟨db,Function.update c.pc n pc⟩ := by
  generalize hpc : c.pc n = old at ht
  cases ht with
  | quiet _ creating _ => exact h.quiet (keepsCreation_refl _) creating
  | guessed pick row left => exact h.quiet (keepsCreation_refl _) rfl
  | counted => exact h.quiet (keepsCreation_update fun _ => ⟨rfl,rfl,rfl⟩) rfl
  | confirmed => exact h.quiet (keepsCreation_update fun _ => ⟨rfl,rfl,rfl⟩) rfl
  | passed old =>
    have hcond := hg
    simp only [Apart,hpc] at hcond
    obtain ⟨halone,hnewer,hbegun⟩ := hcond.resolve_left (by simpa [Db.wait] using old)
    exact h.passed rfl halone hnewer hbegun
  | created => exact h.created hpc rfl

theorem counted_initial {c : Config Db Pc} (h : Initial c) : Counted c := by
  have hnone : ∀ j, (c.pc j).counting = none := by
    intro j
    have hstart := h.pc j
    cases hpc : c.pc j <;> simp_all [Pc.isStart,Pc.counting]
  constructor
  · intro j i a hj
    have hcount := hnone j
    rw [hj] at hcount
    cases hcount
  · intro j k i hj
    rw [hnone j] at hj
    cases hj
  · intro i code hrow
    rw [h.codes i] at hrow
    cases hrow
  · intro i code hrow
    rw [h.codes i] at hrow
    cases hrow
  · exact fun i _ => h.wrong i

theorem separated_initial {c : Config Db Pc} (h : Initial c) : Separated c := by
  have hnone : ∀ j, (c.pc j).creating = none := by
    intro j
    have hstart := h.pc j
    cases hpc : c.pc j <;> simp_all [Pc.isStart,Pc.creating]
  constructor
  · intro i j d e _ hd
    rw [h.codes i] at hd
    cases hd
  · intro j _ _ _ _ _ hj
    have hcreate := hnone j
    rw [hj] at hcreate
    cases hcreate
  · intro j k x hj
    rw [hnone j] at hj
    cases hj

/-- Where the requests keep apart, no code is compared with more than five wrong guesses, and codes for
one e-mail and purpose are created at least a minute apart. -/
theorem limits_of_apart {a b : Config Db Pc} (ha : Initial a) (h : Reaches machine Apart a b) :
    Bounded b.db ∧ Spaced b.db := by
  have hboth : Counted b ∧ Separated b := by
    refine h.invariant (I := fun c => Counted c ∧ Separated c) ?_
      ⟨counted_initial ha,separated_initial ha⟩
    rintro c ⟨n,inp⟩ c' ⟨hcounted,hseparated⟩ hg hnext
    obtain ⟨db,pc,hstep,rfl⟩ := next_eq_some.mp hnext
    have ht := transition_of_statement hstep
    exact ⟨hcounted.step hg ht,hseparated.step hg ht⟩
  exact ⟨hboth.1.bounded,hboth.2.spaced⟩

def apartUpTo (n : ℕ) (c : Config Db Pc) (m : Move Input) : Bool :=
  match c.pc m.1 with
  | .selectCode .. => m.2.pick.all fun i => (List.range n).all fun j => (c.pc j).counting ≠ some i
  | .checkCooldown purpose email _ begun last =>
    coolingDown (c.db.now+m.2.elapsed) last ||
      ((List.range n).all (fun j => (c.pc j).creating ≠ some (purpose,email)) &&
        (c.db.codes.select (EmailVerificationCode.issuedFor purpose email)).all (fun r =>
          last.any fun l => r.2.createdAt ≤ l.2.createdAt) && !coolingDown begun last)
  | _ => true

theorem apart_of_upTo {n : ℕ} (c : Config Db Pc) (m : Move Input)
    (hended : ∀ j, n ≤ j → c.pc j = .finished) (h : apartUpTo n c m = true) : Apart c m := by
  unfold apartUpTo at h
  unfold Apart
  cases hpc : c.pc m.1 <;> rw [hpc] at h <;> try trivial
  · intro i hi j
    simp only [hi,Option.all_some,List.all_eq_true,List.mem_range,decide_eq_true_eq] at h
    by_cases hj : j < n
    · exact h j hj
    · rw [hended j (Nat.not_lt.mp hj)]
      exact fun he => by cases he
  · rename_i purpose email code begun last
    simp only [Bool.or_eq_true,Bool.and_eq_true,List.all_eq_true,List.mem_range,decide_eq_true_eq,
      Bool.not_eq_true'] at h
    rcases h with h | ⟨⟨hcreating,hnewer⟩,hbegun⟩
    · exact .inl h
    · refine .inr ⟨?_,?_,hbegun⟩
      · intro j
        by_cases hj : j < n
        · exact hcreating j hj
        · rw [hended j (Nat.not_lt.mp hj)]
          exact fun he => by cases he
      · intro i d hd hfor
        have hlater := hnewer (i,d) (Store.mem_select.mpr ⟨hd,hfor⟩)
        rw [Option.any_eq_true] at hlater
        obtain ⟨⟨k,e⟩,hlast,hle⟩ := hlater
        exact ⟨k,e,hlast,by simpa using hle⟩

/-- The requests of a list, at time 0 on an empty table. -/
def requests (pcs : List Pc) : Config Db Pc :=
  ⟨⟨0,.empty _,fun _ => 0⟩,fun i => pcs.getD i .finished⟩

theorem initial_requests {pcs : List Pc} (h : pcs.all Pc.isStart = true) : Initial (requests pcs) := by
  refine ⟨fun _ => rfl,fun _ => rfl,?_⟩
  intro i
  show (pcs.getD i .finished).isStart = true
  rw [List.getD_eq_getElem?_getD]
  cases hi : pcs[i]? with
  | none => rfl
  | some pc => exact List.all_eq_true.mp h pc (List.mem_of_getElem? hi)

def resend : Pc := .selectNewest .passwordReset "e" "111111" none

def wrongGuess : Pc := .verify .passwordReset "e" "222222"

def moveOf (i : ℕ) (pick : Option ℕ) : Move Input := (i,⟨0,pick,false⟩)

/-- One code and one wrong guess. -/
theorem limits_of_apart_one_guess : ∃ b, Reaches machine Apart (requests [resend,wrongGuess]) b ∧
    b.db.wrong 0 = 1 ∧ b.db.wrong 0 ≤ codeMaxAttempts := by
  have hrun : (exec machine (fun c m => apartUpTo 2 c m = true) (requests [resend,wrongGuess])
      [moveOf 0 none,moveOf 0 none,moveOf 0 none,moveOf 1 none,moveOf 1 (some 0),moveOf 1 none]).any
        (fun b => decide (b.db.wrong 0 = 1)) = true := by decide
  have hended : ∀ j, 2 ≤ j → (requests [resend,wrongGuess]).pc j = .finished := by
    intro j hj
    show [resend,wrongGuess].getD j .finished = .finished
    rw [List.getD_eq_getElem?_getD,List.getElem?_eq_none hj]
    rfl
  obtain ⟨b,hb,hwrong⟩ := reaches_of_check (fun _ _ _ => rfl) apart_of_upTo hended hrun
  have hlimits := limits_of_apart (initial_requests (by decide)) hb
  exact ⟨b,hb,by simpa using hwrong,hlimits.1 0⟩

/-- Six requests select the code before any of them counts its guess; two requests find no code and
create one each. -/
theorem six_guesses_and_two_codes :
    ¬ (∀ a b, Initial a → Reaches machine anyMove a b → Bounded b.db) ∧
    ¬ (∀ a b, Initial a → Reaches machine anyMove a b → Spaced b.db) := by
  constructor
  · intro h
    have hrun : (exec machine anyMove
        (requests [resend,wrongGuess,wrongGuess,wrongGuess,wrongGuess,wrongGuess,wrongGuess])
        ([moveOf 0 none,moveOf 0 none,moveOf 0 none] ++ [1,2,3,4,5,6].map (moveOf · none) ++
          [1,2,3,4,5,6].map (moveOf · (some 0)))).any
          (fun b => decide (b.db.wrong 0 = 6)) = true := by decide
    obtain ⟨b,hb,hwrong⟩ := reaches_of_any hrun
    have hbound := h _ b (initial_requests (by decide)) hb 0
    have hsix : b.db.wrong 0 = 6 := by simpa using hwrong
    rw [hsix] at hbound
    exact absurd hbound (by decide)
  · intro h
    have hrun : (exec machine anyMove (requests [resend,resend])
        ([0,1,0,1,0,1].map (moveOf · none))).any
          (fun b => decide ((b.db.codes.row 0).map EmailVerificationCode.createdAt = some 0 ∧
            b.db.codes.row 1 = b.db.codes.row 0)) = true := by decide
    obtain ⟨b,hb,hrows⟩ := reaches_of_any hrun
    obtain ⟨hzero,hone⟩ := of_decide_eq_true hrows
    obtain ⟨c,hc,_⟩ := Option.map_eq_some_iff.mp hzero
    have hspaced := h _ b (initial_requests (by decide)) hb 0 1 c c (by decide) hc (hone.trans hc) rfl rfl
    have hpos : ¬ c.createdAt+codeResendCooldown ≤ c.createdAt := by
      have hcooldown : (0 : ℤ) < codeResendCooldown := by decide
      exact not_le.mpr (lt_add_of_pos_right _ hcooldown)
    exact hspaced.elim hpos hpos

end CodeGuesses
end Broadcaster
