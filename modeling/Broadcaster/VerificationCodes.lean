import Broadcaster.PythonValues
import Broadcaster.ScheduleService
import Broadcaster.Store

/-!
# Confirmation codes and verification tokens

The data behind the registration and the recovery of a password: the table of
six-digit codes, and the signed tokens that carry an e-mail from screen to
screen. The two flows differ in their texts and in whether they look at the
purpose of a token.
-/

namespace Broadcaster
namespace VerificationCodes

open Python ScheduleService

def secondMicros : ℤ := 1000000

def codeTtlMinutes : ℤ := 10

def codeMaxAttempts : ℕ := 5

def codeResendCooldownSeconds : ℤ := 60

/-- `expires_minutes` of a verification token -/
def tokenMinutes : ℤ := 30

def tokenLifetime : ℤ := tokenMinutes*minuteMicros

def codeResendCooldown : ℤ := codeResendCooldownSeconds*secondMicros

inductive Purpose
  | registration | passwordReset
  deriving DecidableEq

inductive TokenPurpose
  | emailVerification | passwordReset
  deriving DecidableEq

def Purpose.token : Purpose → TokenPurpose
  | .registration => .emailVerification
  | .passwordReset => .passwordReset

structure EmailVerificationCode where
  email : String
  code : String
  purpose : Purpose
  attempts : ℕ
  verifiedAt : Option Instant
  expiresAt : Instant
  createdAt : Instant
  deriving DecidableEq

structure VerificationToken where
  email : String
  verified : Bool
  exp : Instant
  purpose : TokenPurpose
  deriving DecidableEq

def createVerificationToken (now : Instant) (email : String) (verified : Bool) (purpose : TokenPurpose) :
    VerificationToken :=
  ⟨email,verified,now+tokenLifetime,purpose⟩

/-- `none` stands for anything that the server has not issued as a verification token. -/
def decodeVerificationToken (now : Instant) (token : Option VerificationToken) :
    Option VerificationToken :=
  token.filter fun t => now ≤ t.exp

/-- `register_verify` and `register_resend_code` take a token of either purpose. -/
def Purpose.accepts : Purpose → VerificationToken → Bool
  | .registration, _ => true
  | .passwordReset, t => t.purpose = .passwordReset

def newCode (purpose : Purpose) (email code : String) (now createdAt : Instant) : EmailVerificationCode where
  email := email
  code := code
  purpose := purpose
  attempts := 0
  verifiedAt := none
  expiresAt := now+codeTtlMinutes*minuteMicros
  createdAt := createdAt

namespace EmailVerificationCode

def issuedFor (purpose : Purpose) (email : String) (c : EmailVerificationCode) : Bool :=
  c.email = email && c.purpose = purpose

def confirmable (purpose : Purpose) (email : String) (now : Instant) (c : EmailVerificationCode) : Bool :=
  c.issuedFor purpose email && c.verifiedAt.isNone && decide (now < c.expiresAt) &&
    decide (c.attempts < codeMaxAttempts)

/-- `code_record.code == code.strip()` -/
def isGuessed (c : EmailVerificationCode) (guess : String) : Bool :=
  c.code.toList = stripChars strSpaces guess.toList

end EmailVerificationCode

/-- `ORDER BY created_at DESC LIMIT 1`. Which of several newest rows the database picks is open;
`pick` is its choice. -/
def newest (codes : Store EmailVerificationCode) (p : EmailVerificationCode → Bool) :
    Option ℕ → Option (Option (ℕ × EmailVerificationCode))
  | none => if (codes.select p).isEmpty then some none else none
  | some i => (codes.row i).bind fun c =>
      if p c && (codes.select p).all fun r => r.2.createdAt ≤ c.createdAt then some (some (i,c)) else none

def coolingDown (now : Instant) (last : Option (ℕ × EmailVerificationCode)) : Bool :=
  last.any fun r => now-r.2.createdAt < codeResendCooldown

variable {codes : Store EmailVerificationCode} {p : EmailVerificationCode → Bool} {pick : Option ℕ}

theorem newest_eq_some {i : ℕ} {c : EmailVerificationCode} (h : newest codes p pick = some (some (i,c))) :
    codes.row i = some c ∧ p c = true ∧
      ∀ j d, codes.row j = some d → p d = true → d.createdAt ≤ c.createdAt := by
  cases pick with
  | none =>
    simp only [newest] at h
    split at h <;> cases h
  | some j =>
    obtain ⟨d,hd,hif⟩ := Option.bind_eq_some_iff.mp h
    split at hif
    · rename_i hall
      cases hif
      rw [Bool.and_eq_true,List.all_eq_true] at hall
      refine ⟨hd,hall.1,?_⟩
      intro k e he hp
      simpa using hall.2 (k,e) (Store.mem_select.mpr ⟨he,hp⟩)
    · cases hif

end VerificationCodes
end Broadcaster
