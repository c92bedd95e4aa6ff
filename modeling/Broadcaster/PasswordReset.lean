import Broadcaster.VerificationCodes
import Mathlib.Data.List.Forall2
import Mathlib.Data.List.Nodup
import Mathlib.Logic.Relation

/-!
# Registration and recovery of a password

The handlers of both flows, one request after another, on everything they read
and write. A client may present any token that the server has issued before, or
something else. The log records what a later change of a password can rest on.
-/

namespace Broadcaster
namespace PasswordReset

open Python ScheduleService VerificationCodes

inductive AuthScreen
  | register | registerVerify | registerComplete
  | forgotPassword | forgotPasswordVerify | forgotPasswordReset
  | login | dashboard
  deriving DecidableEq

structure Response where
  screen : AuthScreen
  token : Option VerificationToken
  error : Option String
  deriving DecidableEq

inductive Event
  | confirmed (purpose : Purpose) (email : String) (code : ℕ) (time : Instant)
  | shortPassword (email : String) (time : Instant) (token : VerificationToken)
  | changed (email : String) (time : Instant) (token : VerificationToken)
  deriving DecidableEq

structure Site where
  now : Instant
  codes : Store EmailVerificationCode
  /-- `password_hash` of the user with this e-mail -/
  passwordHash : String → Option String
  issued : List VerificationToken
  log : List Event

def verifyScreen : Purpose → AuthScreen
  | .registration => .registerVerify
  | .passwordReset => .forgotPasswordVerify

def passwordScreen : Purpose → AuthScreen
  | .registration => .registerComplete
  | .passwordReset => .forgotPasswordReset

def staleLink : Purpose → Response
  | .registration => ⟨.register,none,some "Ссылка устарела. Начните регистрацию заново."⟩
  | .passwordReset => ⟨.forgotPassword,none,some "Ссылка устарела. Начните сброс пароля заново."⟩

def refusedEmail : Purpose → Response
  | .registration => ⟨.register,none,some "Этот email уже зарегистрирован"⟩
  | .passwordReset => ⟨.forgotPassword,none,some "Пользователь с таким email не найден"⟩

def minPasswordLength : ℕ := 6

def shortPasswordText : String := "Пароль должен быть не менее 6 символов"

namespace Site

def hasUser (s : Site) (email : String) : Bool := (s.passwordHash email).isSome

/-- The response carries a token made for it. -/
def issue (s : Site) (screen : AuthScreen) (t : VerificationToken) (error : Option String) :
    Site × Response :=
  ({ s with issued := t::s.issued },⟨screen,some t,error⟩)

def addCode (s : Site) (purpose : Purpose) (email code : String) : Site :=
  { s with codes := s.codes.insert (newCode purpose email code s.now s.now) }

def countAttempt (s : Site) (i : ℕ) : Site :=
  { s with codes := s.codes.update i fun c => { c with attempts := c.attempts+1 } }

def confirm (s : Site) (purpose : Purpose) (email : String) (i : ℕ) : Site :=
  { s with
    codes := s.codes.update i fun c => { c with verifiedAt := some s.now }
    log := s.log ++ [.confirmed purpose email i s.now] }

def setPassword (s : Site) (email hash : String) : Site :=
  { s with passwordHash := fun e => if e = email then some hash else s.passwordHash e }

def record (s : Site) (e : Event) : Site := { s with log := s.log ++ [e] }

end Site

/-- `register_send_code` and `forgot_password_send_code` -/
def sendCode (purpose : Purpose) (s : Site) (email : String) (pick : Option ℕ) (code : String) :
    Option (Site × Response) :=
  if s.hasUser email = decide (purpose = .registration) then some (s,refusedEmail purpose)
  else
    (newest s.codes (EmailVerificationCode.issuedFor purpose email) pick).map fun last =>
      let t := createVerificationToken s.now email false purpose.token
      if coolingDown s.now last then
        s.issue (verifyScreen purpose) t
          (some "Код уже отправлен. Подождите минуту перед повторной отправкой.")
      else (s.addCode purpose email code).issue (verifyScreen purpose) t none

/-- `register_resend_code` and `forgot_password_resend_code` -/
def resendCode (purpose : Purpose) (s : Site) (token : Option VerificationToken) (pick : Option ℕ)
    (code : String) : Option (Site × Response) :=
  match (decodeVerificationToken s.now token).filter purpose.accepts with
  | none => some (s,staleLink purpose)
  | some payload =>
    (newest s.codes (EmailVerificationCode.issuedFor purpose payload.email) pick).map fun last =>
      if coolingDown s.now last then
        (s,⟨verifyScreen purpose,token,some "Подождите минуту перед повторной отправкой."⟩)
      else
        (s.addCode purpose payload.email code).issue (verifyScreen purpose)
          (createVerificationToken s.now payload.email false purpose.token) none

/-- `register_verify` and `forgot_password_verify` -/
def verify (purpose : Purpose) (s : Site) (token : Option VerificationToken) (guess : String)
    (pick : Option ℕ) : Option (Site × Response) :=
  match (decodeVerificationToken s.now token).filter purpose.accepts with
  | none => some (s,staleLink purpose)
  | some payload =>
    (newest s.codes (EmailVerificationCode.confirmable purpose payload.email s.now) pick).map fun
      | none => (s,⟨verifyScreen purpose,token,
          some "Код истёк или превышено число попыток. Отправьте код заново."⟩)
      | some (i,c) =>
        if c.isGuessed guess then
          (s.confirm purpose payload.email i).issue (passwordScreen purpose)
            (createVerificationToken s.now payload.email true purpose.token) none
        else
          (s.countAttempt i,⟨verifyScreen purpose,token,
            some s!"Неверный код. Осталось попыток: {codeMaxAttempts-(c.attempts+1)}"⟩)

/-- The token of the last step: confirmed, and of the flow itself. -/
def confirmedToken (purpose : Purpose) (now : Instant) (token : Option VerificationToken) :
    Option VerificationToken :=
  (decodeVerificationToken now token).filter fun t => t.verified && t.purpose = purpose.token

variable (hashPassword : String → String)

def registerComplete (s : Site) (token : Option VerificationToken) (password : String) :
    Site × Response :=
  match confirmedToken .registration s.now token with
  | none => (s,staleLink .registration)
  | some payload =>
    if s.hasUser payload.email then (s,⟨.register,none,some "Этот email уже зарегистрирован"⟩)
    else if password.length < minPasswordLength then
      s.issue .registerComplete (createVerificationToken s.now payload.email true .emailVerification)
        (some shortPasswordText)
    else (s.setPassword payload.email (hashPassword password),⟨.dashboard,none,none⟩)

def forgotPasswordReset (s : Site) (token : Option VerificationToken) (password : String) :
    Site × Response :=
  match confirmedToken .passwordReset s.now token with
  | none => (s,staleLink .passwordReset)
  | some payload =>
    if !s.hasUser payload.email then (s,⟨.forgotPassword,none,some "Пользователь не найден."⟩)
    else if password.length < minPasswordLength then
      (s.record (.shortPassword payload.email s.now payload)).issue .forgotPasswordReset
        (createVerificationToken s.now payload.email true .passwordReset) (some shortPasswordText)
    else
      ((s.setPassword payload.email (hashPassword password)).record (.changed payload.email s.now payload),
        ⟨.login,none,none⟩)

inductive Request
  | sendCode (purpose : Purpose) (email : String) (pick : Option ℕ) (code : String)
  | resendCode (purpose : Purpose) (token : Option VerificationToken) (pick : Option ℕ) (code : String)
  | verify (purpose : Purpose) (token : Option VerificationToken) (guess : String) (pick : Option ℕ)
  | registerComplete (token : Option VerificationToken) (password : String)
  | forgotPasswordReset (token : Option VerificationToken) (password : String)

def Request.token : Request → Option VerificationToken
  | sendCode .. => none
  | resendCode _ token _ _ | verify _ token _ _ | registerComplete token _ | forgotPasswordReset token _ =>
    token

def handle (s : Site) : Request → Option (Site × Response)
  | .sendCode purpose email pick code => PasswordReset.sendCode purpose s email pick code
  | .resendCode purpose token pick code => PasswordReset.resendCode purpose s token pick code
  | .verify purpose token guess pick => PasswordReset.verify purpose s token guess pick
  | .registerComplete token password => some (PasswordReset.registerComplete hashPassword s token password)
  | .forgotPasswordReset token password =>
    some (PasswordReset.forgotPasswordReset hashPassword s token password)

/-- Time passes, and a request is handled whose token the server has issued, if it is a token. -/
def next (s : Site) (elapsed : ℕ) (r : Request) : Option Site :=
  let s := { s with now := s.now+elapsed }
  if r.token.all fun t => t ∈ s.issued then (handle hashPassword s r).map Prod.fst else none

def Step (s s' : Site) : Prop := ∃ elapsed r, next hashPassword s elapsed r = some s'

def Reaches : Site → Site → Prop := Relation.ReflTransGen (Step hashPassword)

/-- No token has been issued yet; codes and users may exist. -/
def Initial (s : Site) : Prop := s.issued = [] ∧ s.log = []

def Opens (email : String) (now : Instant) (t : VerificationToken) : Prop :=
  t.email = email ∧ t.verified = true ∧ t.purpose = .passwordReset ∧ now ≤ t.exp

def resetToken (now : Instant) (email : String) : VerificationToken :=
  createVerificationToken now email true .passwordReset

/-- The request gets as far as changing a password with the token. -/
def Request.Changes (s : Site) (t : VerificationToken) : Request → Prop
  | forgotPasswordReset token password =>
    confirmedToken .passwordReset s.now token = some t ∧ s.hasUser t.email = true ∧
      minPasswordLength ≤ password.length
  | _ => False

/-- The users that exist keep their passwords, but for those that `other` leaves out. -/
def KeepsPasswords (s s' : Site) (other : String → Prop) : Prop :=
  ∀ email, s.hasUser email = true → other email → s'.passwordHash email = s.passwordHash email

inductive Transition (r : Request) (s s' : Site) : Prop
  | quiet (issued : s'.issued = s.issued) (log : s'.log = s.log) (kept : KeepsPasswords s s' fun _ => True)
  | issued (t : VerificationToken) (other : ¬ (t.verified = true ∧ t.purpose = .passwordReset))
      (issued : s'.issued = t::s.issued) (log : s'.log = s.log) (kept : KeepsPasswords s s' fun _ => True)
  | registered (email : String) (i : ℕ) (t : VerificationToken) (other : t.purpose ≠ .passwordReset)
      (issued : s'.issued = t::s.issued) (log : s'.log = s.log ++ [.confirmed .registration email i s.now])
      (kept : KeepsPasswords s s' fun _ => True)
  | confirmed (email : String) (i : ℕ) (issued : s'.issued = resetToken s.now email::s.issued)
      (log : s'.log = s.log ++ [.confirmed .passwordReset email i s.now])
      (kept : KeepsPasswords s s' fun _ => True)
  | short (email : String) (t : VerificationToken) (mem : t ∈ s.issued) (opens : Opens email s.now t)
      (issued : s'.issued = resetToken s.now email::s.issued)
      (log : s'.log = s.log ++ [.shortPassword email s.now t]) (kept : KeepsPasswords s s' fun _ => True)
  | changed (email : String) (t : VerificationToken) (mem : t ∈ s.issued) (opens : Opens email s.now t)
      (changes : r.Changes s t) (issued : s'.issued = s.issued)
      (log : s'.log = s.log ++ [.changed email s.now t]) (kept : KeepsPasswords s s' fun e => e ≠ email)

section Transitions

variable {hashPassword : String → String} {s s' : Site} {purpose : Purpose}
  {token : Option VerificationToken} {r : Response} {request : Request}

theorem keepsPasswords_of_eq (h : s'.passwordHash = s.passwordHash) (other : String → Prop) :
    KeepsPasswords s s' other := fun email _ _ => congrFun h email

theorem transition_sendCode {email code : String} {pick : Option ℕ}
    (h : sendCode purpose s email pick code = some (s',r)) : Transition request s s' ∧ s'.now = s.now := by
  unfold sendCode at h
  split at h
  · cases h
    exact ⟨.quiet rfl rfl (keepsPasswords_of_eq rfl _),rfl⟩
  · obtain ⟨last,_,hlast⟩ := Option.map_eq_some_iff.mp h
    have hother : ¬ ((createVerificationToken s.now email false purpose.token).verified = true ∧
        (createVerificationToken s.now email false purpose.token).purpose = .passwordReset) := by
      simp [createVerificationToken]
    split at hlast <;> cases hlast
    · exact ⟨.issued _ hother rfl rfl (keepsPasswords_of_eq rfl _),rfl⟩
    · exact ⟨.issued _ hother rfl rfl (keepsPasswords_of_eq rfl _),rfl⟩

theorem transition_resendCode {code : String} {pick : Option ℕ}
    (h : resendCode purpose s token pick code = some (s',r)) : Transition request s s' ∧ s'.now = s.now := by
  unfold resendCode at h
  split at h
  · cases h
    exact ⟨.quiet rfl rfl (keepsPasswords_of_eq rfl _),rfl⟩
  · rename_i payload _
    obtain ⟨last,_,hlast⟩ := Option.map_eq_some_iff.mp h
    split at hlast <;> cases hlast
    · exact ⟨.quiet rfl rfl (keepsPasswords_of_eq rfl _),rfl⟩
    · have hother : ¬ ((createVerificationToken s.now payload.email false purpose.token).verified = true ∧
          (createVerificationToken s.now payload.email false purpose.token).purpose = .passwordReset) := by
        simp [createVerificationToken]
      exact ⟨.issued _ hother rfl rfl (keepsPasswords_of_eq rfl _),rfl⟩

theorem transition_verify {guess : String} {pick : Option ℕ}
    (h : verify purpose s token guess pick = some (s',r)) : Transition request s s' ∧ s'.now = s.now := by
  unfold verify at h
  split at h
  · cases h
    exact ⟨.quiet rfl rfl (keepsPasswords_of_eq rfl _),rfl⟩
  · rename_i payload _
    obtain ⟨last,_,hlast⟩ := Option.map_eq_some_iff.mp h
    split at hlast
    · cases hlast
      exact ⟨.quiet rfl rfl (keepsPasswords_of_eq rfl _),rfl⟩
    · rename_i i c _
      split at hlast <;> cases hlast
      · cases purpose with
        | registration =>
          have hother : (createVerificationToken s.now payload.email true
              Purpose.registration.token).purpose ≠ .passwordReset := by
            simp [createVerificationToken,Purpose.token]
          exact ⟨.registered payload.email i _ hother rfl rfl (keepsPasswords_of_eq rfl _),rfl⟩
        | passwordReset => exact ⟨.confirmed payload.email i rfl rfl (keepsPasswords_of_eq rfl _),rfl⟩
      · exact ⟨.quiet rfl rfl (keepsPasswords_of_eq rfl _),rfl⟩

theorem confirmedToken_eq_some {now : Instant} {t : VerificationToken}
    (h : confirmedToken purpose now token = some t) :
    token = some t ∧ now ≤ t.exp ∧ t.verified = true ∧ t.purpose = purpose.token := by
  simp only [confirmedToken,decodeVerificationToken,Option.filter_eq_some_iff,Bool.and_eq_true,
    decide_eq_true_eq] at h
  obtain ⟨⟨ht,hexp⟩,hverified,hpurpose⟩ := h
  exact ⟨ht,hexp,hverified,hpurpose⟩

theorem transition_registerComplete {password : String}
    (h : registerComplete hashPassword s token password = (s',r)) :
    Transition request s s' ∧ s'.now = s.now := by
  unfold registerComplete at h
  split at h
  · cases h
    exact ⟨.quiet rfl rfl (keepsPasswords_of_eq rfl _),rfl⟩
  · rename_i payload _
    split at h
    · cases h
      exact ⟨.quiet rfl rfl (keepsPasswords_of_eq rfl _),rfl⟩
    · rename_i hnew
      split at h <;> cases h
      · have hother : ¬ ((createVerificationToken s.now payload.email true
            .emailVerification).verified = true ∧ (createVerificationToken s.now payload.email true
            .emailVerification).purpose = .passwordReset) := by
          simp [createVerificationToken]
        exact ⟨.issued _ hother rfl rfl (keepsPasswords_of_eq rfl _),rfl⟩
      · refine ⟨.quiet rfl rfl ?_,rfl⟩
        intro email huser _
        have hne : email ≠ payload.email := by
          rintro rfl
          exact hnew huser
        exact if_neg hne

theorem transition_forgotPasswordReset {password : String}
    (hissued : ∀ t, token = some t → t ∈ s.issued)
    (h : forgotPasswordReset hashPassword s token password = (s',r)) :
    Transition (.forgotPasswordReset token password) s s' ∧ s'.now = s.now := by
  unfold forgotPasswordReset at h
  split at h
  · cases h
    exact ⟨.quiet rfl rfl (keepsPasswords_of_eq rfl _),rfl⟩
  · rename_i payload hpayload
    obtain ⟨htoken,hexp,hverified,hpurpose⟩ := confirmedToken_eq_some hpayload
    have hopens : Opens payload.email s.now payload := ⟨rfl,hverified,hpurpose,hexp⟩
    split at h
    · cases h
      exact ⟨.quiet rfl rfl (keepsPasswords_of_eq rfl _),rfl⟩
    · rename_i huser
      split at h
      · cases h
        exact ⟨.short payload.email payload (hissued payload htoken) hopens rfl rfl (keepsPasswords_of_eq rfl _),
          rfl⟩
      · rename_i hlong
        cases h
        have hchanges : Request.Changes s payload (.forgotPasswordReset token password) :=
          ⟨hpayload,by simpa using huser,Nat.not_lt.mp hlong⟩
        refine ⟨.changed payload.email payload (hissued payload htoken) hopens hchanges rfl rfl ?_,rfl⟩
        intro email _ hne
        exact if_neg hne

theorem transition_of_next {elapsed : ℕ}
    (h : next hashPassword s elapsed request = some s') :
    Transition request { s with now := s.now+elapsed } s' ∧ s'.now = s.now+elapsed := by
  simp only [next] at h
  split at h
  · rename_i hissued
    obtain ⟨⟨s₁,r⟩,hhandle,hs⟩ := Option.map_eq_some_iff.mp h
    have he : s₁ = s' := hs
    subst he
    cases request with
    | sendCode purpose email pick code => exact transition_sendCode hhandle
    | resendCode purpose token pick code => exact transition_resendCode hhandle
    | verify purpose token guess pick => exact transition_verify hhandle
    | registerComplete token password => exact transition_registerComplete (Option.some.inj hhandle)
    | forgotPasswordReset token password =>
      refine transition_forgotPasswordReset ?_ (Option.some.inj hhandle)
      intro t ht
      have hall : (token.all fun t => decide (t ∈ s.issued)) = true := hissued
      simpa [ht] using hall
  · cases h

end Transitions

/-- The token was issued at `at₁` and goes back to the code `i`, confirmed at `t₀`, through resets with a
password that was too short, each with the token before. -/
inductive Descends (log : List Event) (email : String) (i : ℕ) (t₀ : Instant) : VerificationToken → Prop
  | confirmed (mem : .confirmed .passwordReset email i t₀ ∈ log) : Descends log email i t₀ (resetToken t₀ email)
  | reissued {t : VerificationToken} {at₁ : Instant} (descends : Descends log email i t₀ t) (le : t₀ ≤ at₁)
      (soon : at₁ ≤ t.exp) (mem : .shortPassword email at₁ t ∈ log) :
      Descends log email i t₀ (resetToken at₁ email)

theorem Descends.mono {log log' : List Event} {email : String} {i : ℕ} {t₀ : Instant} {t : VerificationToken}
    (h : Descends log email i t₀ t) (hlog : log ⊆ log') : Descends log' email i t₀ t := by
  induction h with
  | confirmed mem => exact .confirmed (hlog mem)
  | reissued _ le soon mem ih => exact .reissued ih le soon (hlog mem)

theorem Descends.confirmed_mem {log : List Event} {email : String} {i : ℕ} {t₀ : Instant}
    {t : VerificationToken} (h : Descends log email i t₀ t) : .confirmed .passwordReset email i t₀ ∈ log := by
  induction h with
  | confirmed mem => exact mem
  | reissued _ _ _ _ ih => exact ih

def Grounded (log : List Event) (email : String) (now : Instant) (t : VerificationToken) : Prop :=
  ∃ i t₀, Descends log email i t₀ t ∧ t₀ ≤ now ∧ now ≤ t.exp

theorem Grounded.mono {log log' : List Event} {email : String} {now : Instant} {t : VerificationToken}
    (h : Grounded log email now t) (hlog : log ⊆ log') : Grounded log' email now t := by
  obtain ⟨i,t₀,ht,hle,hsoon⟩ := h
  exact ⟨i,t₀,ht.mono hlog,hle,hsoon⟩

def Justified (s : Site) (t : VerificationToken) : Prop :=
  ∃ i t₀, Descends s.log t.email i t₀ t ∧ t₀ ≤ s.now

structure Invariant (s : Site) : Prop where
  tokens : ∀ t ∈ s.issued, t.verified = true → t.purpose = .passwordReset → Justified s t
  changes : ∀ email now t, .changed email now t ∈ s.log → Grounded s.log email now t

theorem invariant_initial {s : Site} (h : Initial s) : Invariant s := by
  obtain ⟨hissued,hlog⟩ := h
  constructor
  · simp [hissued]
  · simp [hlog]

theorem Invariant.wait {s : Site} (h : Invariant s) (elapsed : ℕ) :
    Invariant { s with now := s.now+elapsed } := by
  refine ⟨?_,h.changes⟩
  intro t ht hv hp
  obtain ⟨i,t₀,hdescends,hle⟩ := h.tokens t ht hv hp
  have hlater : t₀ ≤ s.now+elapsed := Int.le_trans hle (Int.le_add_of_nonneg_right elapsed.cast_nonneg)
  exact ⟨i,t₀,hdescends,hlater⟩

theorem Invariant.opens {s : Site} (h : Invariant s) {email : String} {t : VerificationToken}
    (ht : t ∈ s.issued) (hopens : Opens email s.now t) : Grounded s.log email s.now t := by
  obtain ⟨rfl,hv,hp,hexp⟩ := hopens
  obtain ⟨i,t₀,hdescends,hle⟩ := h.tokens t ht hv hp
  exact ⟨i,t₀,hdescends,hle,hexp⟩

theorem Invariant.justified {s s' : Site} (h : Invariant s) (hlog : s.log ⊆ s'.log)
    (hnow : s'.now = s.now) {t : VerificationToken} (ht : t ∈ s.issued) (hv : t.verified = true)
    (hp : t.purpose = .passwordReset) : Justified s' t := by
  obtain ⟨i,t₀,hdescends,hle⟩ := h.tokens t ht hv hp
  exact ⟨i,t₀,hdescends.mono hlog,hnow ▸ hle⟩

theorem Invariant.justified_cons {s s' : Site} (h : Invariant s) (hlog : s.log ⊆ s'.log)
    (hnow : s'.now = s.now) {new : VerificationToken}
    (hnew : new.verified = true → new.purpose = .passwordReset → Justified s' new) :
    ∀ t ∈ new::s.issued, t.verified = true → t.purpose = .passwordReset → Justified s' t := by
  intro t ht hv hp
  rcases List.mem_cons.mp ht with rfl | ht
  · exact hnew hv hp
  · exact h.justified hlog hnow ht hv hp

theorem Invariant.changes_append {s : Site} (h : Invariant s) {e : Event}
    (hnew : ∀ email now t, e = .changed email now t → Grounded s.log email now t) (email : String)
    (now : Instant) (t : VerificationToken) (hmem : .changed email now t ∈ s.log ++ [e]) :
    Grounded (s.log ++ [e]) email now t := by
  have hsub : s.log ⊆ s.log ++ [e] := List.subset_append_left _ _
  rcases List.mem_append.mp hmem with hmem | hmem
  · exact (h.changes email now t hmem).mono hsub
  · exact (hnew email now t (List.mem_singleton.mp hmem).symm).mono hsub

theorem Invariant.step {s s' : Site} {r : Request} (h : Invariant s) (hs : Transition r s s') (hnow : s'.now = s.now) :
    Invariant s' := by
  cases hs with
  | quiet issued log _ =>
    have hsub : s.log ⊆ s'.log := by rw [log]; exact fun _ => id
    refine ⟨?_,?_⟩
    · rw [issued]
      exact fun t ht hv hp => h.justified hsub hnow ht hv hp
    · rw [log]
      exact h.changes
  | issued t other issued log _ =>
    have hsub : s.log ⊆ s'.log := by rw [log]; exact fun _ => id
    refine ⟨?_,?_⟩
    · rw [issued]
      exact h.justified_cons hsub hnow fun hv hp => absurd ⟨hv,hp⟩ other
    · rw [log]
      exact h.changes
  | registered email i t other issued log _ =>
    have hsub : s.log ⊆ s'.log := by rw [log]; exact List.subset_append_left _ _
    refine ⟨?_,?_⟩
    · rw [issued]
      exact h.justified_cons hsub hnow fun _ hp => absurd hp other
    · rw [log]
      apply h.changes_append
      intro _ _ _ he
      cases he
  | confirmed email i issued log _ =>
    have hsub : s.log ⊆ s'.log := by rw [log]; exact List.subset_append_left _ _
    refine ⟨?_,?_⟩
    · rw [issued]
      have hmem : .confirmed .passwordReset email i s.now ∈ s'.log := by rw [log]; simp
      exact h.justified_cons hsub hnow fun _ _ => ⟨i,s.now,.confirmed hmem,hnow ▸ le_refl _⟩
    · rw [log]
      apply h.changes_append
      intro _ _ _ he
      cases he
  | short email t mem opens issued log _ =>
    have hsub : s.log ⊆ s'.log := by rw [log]; exact List.subset_append_left _ _
    refine ⟨?_,?_⟩
    · rw [issued]
      obtain ⟨i,t₀,hdescends,hle,hsoon⟩ := h.opens mem opens
      have hmem : .shortPassword email s.now t ∈ s'.log := by rw [log]; simp
      have hnext := (hdescends.mono hsub).reissued hle hsoon hmem
      exact h.justified_cons hsub hnow fun _ _ => ⟨i,t₀,hnext,hnow ▸ hle⟩
    · rw [log]
      apply h.changes_append
      intro _ _ _ he
      cases he
  | changed email t mem opens _ issued log _ =>
    have hsub : s.log ⊆ s'.log := by rw [log]; exact List.subset_append_left _ _
    have hgrounded := h.opens mem opens
    refine ⟨?_,?_⟩
    · rw [issued]
      exact fun u hu hv hp => h.justified hsub hnow hu hv hp
    · rw [log]
      apply h.changes_append
      intro _ _ _ he
      cases he
      exact hgrounded

variable {hashPassword : String → String}

theorem invariant_of_reaches {s s' : Site} (hs : Initial s) (h : Reaches hashPassword s s') :
    Invariant s' := by
  induction h with
  | refl => exact invariant_initial hs
  | tail _ hstep ih =>
    obtain ⟨elapsed,r,hr⟩ := hstep
    obtain ⟨htransition,hnow⟩ := transition_of_next hr
    exact (ih.wait elapsed).step htransition hnow

/-- Every code from which the token descends was confirmed at most 30 minutes ago, and no password has been
changed by way of it. -/
def Fresh (s : Site) (t : VerificationToken) : Prop :=
  ∀ i t₀, Descends s.log t.email i t₀ t → s.now ≤ t₀+tokenLifetime ∧
    ∀ now u t₁, .changed t.email now u ∈ s.log → ¬Descends s.log t.email i t₁ u

/-- If the request changes a password, it does so with the token of a fresh code. -/
def ChangesFresh (s : Site) (r : Request) : Prop := ∀ t, r.Changes s t → Fresh s t

def FreshStep (hashPassword : String → String) (s s' : Site) : Prop :=
  ∃ elapsed r, ChangesFresh { s with now := s.now+(elapsed : ℕ) } r ∧ next hashPassword s elapsed r = some s'

def FreshlyReaches (hashPassword : String → String) : Site → Site → Prop :=
  Relation.ReflTransGen (FreshStep hashPassword)

def changesOf (email : String) (log : List Event) : List (Instant × VerificationToken) :=
  log.filterMap fun
    | .changed e now t => if e = email then some (now,t) else none
    | _ => none

def Recent (log : List Event) (email : String) (now : Instant) (code : ℕ × Instant) : Prop :=
  .confirmed .passwordReset email code.1 code.2 ∈ log ∧ code.2 ≤ now ∧ now ≤ code.2+tokenLifetime

/-- Each change of a password has a code of its own, confirmed at most 30 minutes before. -/
def CodeForEachChange (log : List Event) : Prop :=
  ∀ email, ∃ codes : List (ℕ × Instant), (codes.map Prod.fst).Nodup ∧
    List.Forall₂ (fun change code => Recent log email change.1 code) (changesOf email log) codes

section Changes

variable {s s' : Site} {log : List Event} {email : String} {now : Instant} {t : VerificationToken} {e : Event}

theorem mem_changesOf : (now,t) ∈ changesOf email log ↔ .changed email now t ∈ log := by
  simp only [changesOf,List.mem_filterMap]
  constructor
  · rintro ⟨e,hmem,he⟩
    cases e with
    | changed e' now' t' =>
      obtain ⟨rfl,hchange⟩ := Option.ite_none_right_eq_some.mp he
      cases hchange
      exact hmem
    | confirmed | shortPassword => cases he
  · intro hmem
    exact ⟨_,hmem,if_pos rfl⟩

theorem changesOf_concat (email : String) (log : List Event) (e : Event) :
    changesOf email (log ++ [e]) = changesOf email log ++ changesOf email [e] := List.filterMap_append

def Answers (log : List Event) (email : String) (change : Instant × VerificationToken)
    (code : ℕ × Instant) : Prop :=
  Recent log email change.1 code ∧ Descends log email code.1 code.2 change.2

def Matched (log : List Event) (email : String) : Prop :=
  ∃ codes : List (ℕ × Instant), (codes.map Prod.fst).Nodup ∧
    List.Forall₂ (Answers log email) (changesOf email log) codes

theorem exists_answers {codes : List (ℕ × Instant)} {changes : List (Instant × VerificationToken)}
    (h : List.Forall₂ (Answers log email) changes codes) {code : ℕ × Instant} (hcode : code ∈ codes) :
    ∃ change ∈ changes, Answers log email change code := by
  induction h with
  | nil => cases hcode
  | cons ha _ ih =>
    rcases List.mem_cons.mp hcode with rfl | hcode
    · exact ⟨_,List.mem_cons_self,ha⟩
    · obtain ⟨change,hchange,ha⟩ := ih hcode
      exact ⟨change,List.mem_cons_of_mem _ hchange,ha⟩

theorem Answers.mono {log' : List Event} {change : Instant × VerificationToken} {code : ℕ × Instant}
    (h : Answers log email change code) (hlog : log ⊆ log') : Answers log' email change code :=
  ⟨⟨hlog h.1.1,h.1.2⟩,h.2.mono hlog⟩

theorem Matched.concat (h : Matched log email) (he : changesOf email [e] = []) :
    Matched (log ++ [e]) email := by
  obtain ⟨codes,hnodup,hall⟩ := h
  refine ⟨codes,hnodup,?_⟩
  rw [changesOf_concat,he,List.append_nil]
  exact hall.imp fun _ _ ha => ha.mono (List.subset_append_left _ _)

/-- A change with the token of a fresh code takes a code that no change has taken. -/
theorem Matched.changed (h : Matched s.log t.email) (hgrounded : Grounded s.log t.email s.now t)
    (hfresh : Fresh s t) : Matched (s.log ++ [.changed t.email s.now t]) t.email := by
  obtain ⟨codes,hnodup,hall⟩ := h
  obtain ⟨i,t₀,hdescends,hle,_⟩ := hgrounded
  obtain ⟨hrecent,hunused⟩ := hfresh i t₀ hdescends
  have hsub : s.log ⊆ s.log ++ [.changed t.email s.now t] := List.subset_append_left _ _
  have hnew : i ∉ codes.map Prod.fst := by
    intro hmem
    obtain ⟨code,hcode,rfl⟩ := List.mem_map.mp hmem
    obtain ⟨change,hchange,hanswers⟩ := exists_answers hall hcode
    exact hunused change.1 change.2 code.2 (mem_changesOf.mp hchange) hanswers.2
  refine ⟨codes ++ [(i,t₀)],?_,?_⟩
  · rw [List.map_append,List.map_singleton]
    exact hnodup.append (List.nodup_singleton i) (by simpa using hnew)
  · have hlast : changesOf t.email [.changed t.email s.now t] = [(s.now,t)] := by simp [changesOf]
    rw [changesOf_concat,hlast]
    refine List.rel_append (hall.imp fun _ _ ha => ha.mono hsub) ?_
    exact .cons ⟨⟨hsub hdescends.confirmed_mem,hle,hrecent⟩,hdescends.mono hsub⟩ .nil

theorem Matched.step {r : Request} (h : ∀ email, Matched s.log email) (hi : Invariant s)
    (hfresh : ChangesFresh s r) (hs : Transition r s s') (email : String) : Matched s'.log email := by
  cases hs with
  | quiet _ log | issued _ _ _ log =>
    rw [log]
    exact h email
  | registered _ _ _ _ _ log | confirmed _ _ _ log | short _ _ _ _ _ log =>
    rw [log]
    exact (h email).concat rfl
  | changed e t mem opens changes _ log =>
    obtain rfl := opens.1
    rw [log]
    by_cases he : t.email = email
    · subst he
      exact (h t.email).changed (hi.opens mem opens) (hfresh t changes)
    · exact (h email).concat (by simp [changesOf,he])

variable {hashPassword : String → String}

theorem reaches_of_freshlyReaches (h : FreshlyReaches hashPassword s s') : Reaches hashPassword s s' := by
  refine Relation.ReflTransGen.mono ?_ _ _ h
  rintro a b ⟨elapsed,r,_,hr⟩
  exact ⟨elapsed,r,hr⟩

theorem matched_of_freshlyReaches (hs : Initial s) (h : FreshlyReaches hashPassword s s') (email : String) :
    Matched s'.log email := by
  induction h generalizing email with
  | refl =>
    rw [hs.2]
    exact ⟨[],List.nodup_nil,.nil⟩
  | @tail b _ hreach hstep ih =>
    obtain ⟨elapsed,r,hfresh,hr⟩ := hstep
    have hi := (invariant_of_reaches hs (reaches_of_freshlyReaches hreach)).wait elapsed
    have hmatched : ∀ email, Matched { b with now := b.now+elapsed }.log email := ih
    exact Matched.step hmatched hi hfresh (transition_of_next hr).1 email

theorem changed_of_passwordHash {elapsed : ℕ} {r : Request} (h : next hashPassword s elapsed r = some s')
    (huser : s.hasUser email = true) (hne : s'.passwordHash email ≠ s.passwordHash email) :
    ∃ t, s'.log = s.log ++ [.changed email s'.now t] := by
  obtain ⟨htransition,hnow⟩ := transition_of_next h
  cases htransition with
  | quiet _ _ kept | issued _ _ _ _ kept | registered _ _ _ _ _ _ kept | confirmed _ _ _ _ kept
  | short _ _ _ _ _ _ kept => exact absurd (kept email huser trivial) hne
  | changed e t _ _ _ _ log kept =>
    obtain rfl : email = e := by
      by_contra hother
      exact hne (kept email huser hother)
    exact ⟨t,by rw [log,hnow]⟩

/-- Whoever changes a password holds a token that goes back, through resets with a password that was
too short and in steps of at most 30 minutes, to a code that was confirmed for this e-mail. If each change is
made with the token of a fresh code, each has a code of its own, confirmed at most 30 minutes before. -/
theorem password_change_rests_on_confirmed_code (hs : Initial s) :
    (Reaches hashPassword s s' → ∀ email now t, .changed email now t ∈ s'.log →
      Grounded s'.log email now t) ∧
    (FreshlyReaches hashPassword s s' → CodeForEachChange s'.log) ∧
    ∀ elapsed r s'', next hashPassword s' elapsed r = some s'' → ∀ email, s'.hasUser email = true →
      s''.passwordHash email ≠ s'.passwordHash email → ∃ t, s''.log = s'.log ++ [.changed email s''.now t] := by
  refine ⟨fun h => (invariant_of_reaches hs h).changes,fun h email => ?_,?_⟩
  · obtain ⟨codes,hnodup,hall⟩ := matched_of_freshlyReaches hs h email
    exact ⟨codes,hnodup,hall.imp fun _ _ ha => ha.1⟩
  · intro elapsed r s'' h email huser hne
    exact changed_of_passwordHash h huser hne

end Changes

def run (hashPassword : String → String) (s : Site) : List (ℕ × Request) → Option Site
  | [] => some s
  | (elapsed,r)::rs => (next hashPassword s elapsed r).bind fun s => run hashPassword s rs

theorem reaches_of_run {hashPassword : String → String} {s s' : Site} {rs : List (ℕ × Request)}
    (h : run hashPassword s rs = some s') : Reaches hashPassword s s' := by
  induction rs generalizing s with
  | nil =>
    have he : s = s' := Option.some.inj h
    subst he
    exact Relation.ReflTransGen.refl
  | cons r rs ih =>
    obtain ⟨s₁,hnext,hrun⟩ := Option.bind_eq_some_iff.mp h
    exact Relation.ReflTransGen.head ⟨r.1,r.2,hnext⟩ (ih hrun)

theorem freshlyReaches_of_run {hashPassword : String → String} {s s' : Site} {rs : List (ℕ × Request)}
    (h : run hashPassword s rs = some s') (hquiet : ∀ r ∈ rs, ∀ s t, ¬r.2.Changes s t) :
    FreshlyReaches hashPassword s s' := by
  induction rs generalizing s with
  | nil =>
    have he : s = s' := Option.some.inj h
    subst he
    exact Relation.ReflTransGen.refl
  | cons r rs ih =>
    obtain ⟨s₁,hnext,hrun⟩ := Option.bind_eq_some_iff.mp h
    have hfresh : ChangesFresh { s with now := s.now+r.1 } r.2 := fun t ht =>
      absurd ht (hquiet r List.mem_cons_self _ t)
    refine Relation.ReflTransGen.head ⟨r.1,r.2,hfresh,hnext⟩ ?_
    exact ih hrun fun r hr => hquiet r (List.mem_cons_of_mem _ hr)

def oneUser : Site := ⟨0,.empty _,fun e => if e = "e" then some "old" else none,[],[]⟩

def minutes (n : ℕ) : ℕ := n*60000000

def tokenUntil (n : ℕ) : VerificationToken := ⟨"e",true,minutes n,.passwordReset⟩

def confirmRequests : List (ℕ × Request) :=
  [(0,.sendCode .passwordReset "e" none "123456"),
   (0,.verify .passwordReset (some ⟨"e",false,1800000000,.passwordReset⟩) "123456" (some 0))]

/-- The password is too short after five minutes. -/
def slipRequests : List (ℕ × Request) :=
  confirmRequests ++ [(minutes 5,.forgotPasswordReset (some (tokenUntil 30)) "short")]

def slipLog : List Event :=
  [.confirmed .passwordReset "e" 0 0,.shortPassword "e" 300000000 (tokenUntil 30)]

theorem slip_changes_nothing : ∀ r ∈ slipRequests, ∀ s t, ¬r.2.Changes s t := by
  intro r hr s t hchanges
  simp only [slipRequests,confirmRequests,List.cons_append,List.nil_append,List.mem_cons,List.not_mem_nil,
    or_false] at hr
  obtain rfl | rfl | rfl := hr
  · exact hchanges
  · exact hchanges
  · exact absurd hchanges.2.2 (by decide)

theorem exists_slip : ∃ s, FreshlyReaches id oneUser s ∧
    s.log = slipLog ++ [.changed "e" 600000000 (tokenUntil 35)] := by
  have hrun : ((run id oneUser slipRequests).bind fun s =>
      (next id s (minutes 5) (.forgotPasswordReset (some (tokenUntil 35)) "longer")).map fun s' =>
        (s.now,s.log,s'.log)) =
      some (300000000,slipLog,slipLog ++ [.changed "e" 600000000 (tokenUntil 35)]) := by decide
  obtain ⟨s,hs,hlast⟩ := Option.bind_eq_some_iff.mp hrun
  obtain ⟨s',hs',hlogs⟩ := Option.map_eq_some_iff.mp hlast
  obtain ⟨hnow,hlog,hlog'⟩ : s.now = 300000000 ∧ s.log = slipLog ∧
      s'.log = slipLog ++ [.changed "e" 600000000 (tokenUntil 35)] := by simpa using hlogs
  refine ⟨s',Relation.ReflTransGen.tail (freshlyReaches_of_run hs slip_changes_nothing) ?_,hlog'⟩
  refine ⟨minutes 5,_,?_,hs'⟩
  rintro t ⟨ht,-,-⟩
  obtain rfl : tokenUntil 35 = t := Option.some.inj (confirmedToken_eq_some ht).1
  intro i t₀ hdescends
  have hconfirmed := hdescends.confirmed_mem
  simp only [hlog,slipLog,List.mem_cons,Event.confirmed.injEq,reduceCtorEq,List.not_mem_nil,or_false,
    true_and] at hconfirmed
  obtain ⟨-,rfl,rfl⟩ := hconfirmed
  refine ⟨?_,fun now u t₁ hmem => ?_⟩
  · simp only [hnow]
    decide
  · simp [hlog,slipLog] at hmem

theorem password_change_rests_on_confirmed_code_slip : ∃ s, FreshlyReaches id oneUser s ∧
    s.log = slipLog ++ [.changed "e" 600000000 (tokenUntil 35)] ∧ CodeForEachChange s.log ∧
    Grounded s.log "e" 600000000 (tokenUntil 35) := by
  obtain ⟨s,hreach,hlog⟩ := exists_slip
  obtain ⟨hgrounded,hcodes,_⟩ := @password_change_rests_on_confirmed_code oneUser s id
    ⟨rfl,rfl⟩
  have hmem : .changed "e" 600000000 (tokenUntil 35) ∈ s.log := by
    rw [hlog]
    exact List.mem_append_right _ List.mem_cons_self
  exact ⟨s,hreach,hlog,hcodes hreach,hgrounded (reaches_of_freshlyReaches hreach) "e" _ _ hmem⟩

/-- The password is too short after 29 minutes and long enough after 58. -/
def lateRequests : List (ℕ × Request) :=
  confirmRequests ++ [(minutes 29,.forgotPasswordReset (some (tokenUntil 30)) "short"),
    (minutes 29,.forgotPasswordReset (some (tokenUntil 59)) "longer")]

def lateLog : List Event :=
  [.confirmed .passwordReset "e" 0 0,.shortPassword "e" 1740000000 (tokenUntil 30),
   .changed "e" 3480000000 (tokenUntil 59)]

theorem late_run : (run id oneUser lateRequests).map Site.log = some lateLog := by decide

/-- The password is changed twice with one token. -/
def twiceRequests : List (ℕ × Request) :=
  confirmRequests ++ [(0,.forgotPasswordReset (some (tokenUntil 30)) "first1"),
    (0,.forgotPasswordReset (some (tokenUntil 30)) "second")]

def twiceLog : List Event :=
  [.confirmed .passwordReset "e" 0 0,.changed "e" 0 (tokenUntil 30),.changed "e" 0 (tokenUntil 30)]

theorem twice_run : (run id oneUser twiceRequests).map Site.log = some twiceLog := by decide

theorem exists_of_log {rs : List (ℕ × Request)} {log : List Event}
    (h : (run id oneUser rs).map Site.log = some log) : ∃ s, Reaches id oneUser s ∧ s.log = log := by
  obtain ⟨s,hrun,hs⟩ := Option.map_eq_some_iff.mp h
  exact ⟨s,reaches_of_run hrun,hs⟩

/-- A code was confirmed in the last 30 minutes. -/
def FreshlyConfirmed (log : List Event) : Prop :=
  ∀ email now t, .changed email now t ∈ log → ∃ code, Recent log email now code

theorem late_change_and_second_change :
    ¬ (∀ s s', Initial s → Reaches id s s' → FreshlyConfirmed s'.log) ∧
    ∃ s, Reaches id oneUser s ∧ FreshlyConfirmed s.log ∧ ¬CodeForEachChange s.log := by
  constructor
  · obtain ⟨s,hreach,hlog⟩ := exists_of_log late_run
    intro h
    have hfresh := h oneUser s ⟨rfl,rfl⟩ hreach
    rw [hlog] at hfresh
    obtain ⟨⟨i,t₀⟩,hmem,_,hsoon⟩ := hfresh "e" 3480000000 (tokenUntil 59) (by decide)
    have hcode : i = 0 ∧ t₀ = 0 := by simpa [lateLog] using hmem
    obtain ⟨rfl,rfl⟩ := hcode
    exact absurd hsoon (by decide)
  · obtain ⟨s,hreach,hlog⟩ := exists_of_log twice_run
    refine ⟨s,hreach,?_,?_⟩
    · rw [hlog]
      intro email now t hmem
      obtain ⟨rfl,rfl,_⟩ : email = "e" ∧ now = 0 ∧ t = tokenUntil 30 := by simpa [twiceLog] using hmem
      exact ⟨(0,0),by decide,by decide,by decide⟩
    · rw [hlog]
      intro h
      obtain ⟨codes,hnodup,hall⟩ := h "e"
      have hfirst : ∀ {now code}, Recent twiceLog "e" now code → code.1 = 0 := by
        rintro now ⟨i,t₀⟩ ⟨hmem,_⟩
        have hcode : i = 0 ∧ t₀ = 0 := by simpa [twiceLog] using hmem
        exact hcode.1
      have hchanges : changesOf "e" twiceLog = [(0,tokenUntil 30),(0,tokenUntil 30)] := by decide
      rw [hchanges] at hall
      cases hall with
      | cons h₁ hall =>
        cases hall with
        | cons h₂ _ => simp [hfirst h₁,hfirst h₂] at hnodup

end PasswordReset
end Broadcaster
