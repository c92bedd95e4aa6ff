import Broadcaster.Interleaving
import Broadcaster.LockedTable
import Broadcaster.SubscriptionPeriod
import Mathlib.Data.List.MinMax

/-!
# Payments and the subscriptions they extend

`handle_webhook` and `create_payment` as sequences of database statements over
the tables `payments` and `subscriptions`. Every constructor of `Pc` stands
before one statement, or before the call of the payment provider; what the
Python code computes between two statements is done in the move of the first of
them. A request that returns or raises without a commit closes its session,
which rolls its transaction back.
-/

namespace Broadcaster
namespace PaymentService

open Calendar SubscriptionPeriod Interleaving

inductive Status
  | pending | succeeded | canceled | expired
  deriving DecidableEq

def terminalStatuses : List Status := [.succeeded,.canceled]

def Status.terminal (s : Status) : Bool := terminalStatuses.contains s

inductive Kind
  | package | subscription
  deriving DecidableEq

def pendingIntentTtlHours : ℕ := 24

structure Payment where
  userId : ℕ
  yookassaPaymentId : Option String
  status : Status
  kind : Kind
  messagesCount : Option ℤ
  createdAt : DateTime
  confirmedAt : Option DateTime
  deriving DecidableEq

structure Subscription where
  userId : ℕ
  expiresAt : DateTime
  isActive : Bool
  hasFreeAccess : Bool
  deriving DecidableEq

def Payment.isOpenIntent (p : Payment) : Bool :=
  p.kind = .subscription && p.status = .pending

def openIntentKey (p : Payment) : Option ℕ := if p.isOpenIntent then some p.userId else none

def activeUserKey (s : Subscription) : Option ℕ := if s.isActive then some s.userId else none

/-- One committed extension of `subscriptions.expires_at`. -/
structure Extension where
  payment : ℕ
  now : DateTime
  deriving DecidableEq

/-- The two tables, and a record of the run that no statement reads: the committed extensions
in their order, the process that inserted a payment, the processes that called the provider. -/
structure Db where
  payments : Table Payment
  subscriptions : Table Subscription
  extensions : List Extension
  author : ℕ → Option ℕ
  sdkCalls : List ℕ

def Db.commit (db : Db) (tx : ℕ) : Db :=
  { db with payments := db.payments.commit tx, subscriptions := db.subscriptions.commit tx }

def Db.rollback (db : Db) (tx : ℕ) : Db :=
  { db with payments := db.payments.rollback tx, subscriptions := db.subscriptions.rollback tx }

def Db.setPayments (db : Db) (t : Table Payment) : Db := { db with payments := t }

def Db.setSubscriptions (db : Db) (t : Table Subscription) : Db := { db with subscriptions := t }

def Db.withAuthor (db : Db) (tx : ℕ) (t : Table Payment) : Db :=
  { db with payments := t, author := Function.update db.author db.payments.size (some tx) }

def Db.logExtension (db : Db) (e : Extension) : Db := { db with extensions := db.extensions ++ [e] }

def Db.logSdkCall (db : Db) (tx : ℕ) : Db := { db with sdkCalls := db.sdkCalls ++ [tx] }

inductive WebhookEvent
  | paymentSucceeded | paymentCanceled | other
  deriving DecidableEq

inductive Exception
  | pendingIntentCapError | paymentCreationError
  | integrityError | valueError | multipleResultsFound | staleDataError
  deriving DecidableEq

inductive Outcome
  | answered (accepted : Bool)
  | created (yookassaId : String)
  | raised (e : Exception)
  deriving DecidableEq

inductive Pc
  /- `handle_webhook` -/
  | webhook (event : WebhookEvent) (yookassaId : Option String)
  | claim (event : WebhookEvent) (yookassaId : String) (payment : ℕ) (row : Payment)
  | commitClaim
  | extend (payment user : ℕ) (now : DateTime)
  | insertSubscription (payment user : ℕ) (now : DateTime)
  | reread (payment user : ℕ) (now : DateTime)
  | moveExpiry (payment : ℕ) (now : DateTime) (subscription : ℕ) (read expiry : DateTime)
  | commitExtension (payment : ℕ) (now : DateTime)
  /- `create_payment` -/
  | createPayment (user : ℕ) (kind : Kind) (messagesCount : Option ℤ)
  | sweepUpdate (user : ℕ) (stale : List ℕ)
  | sweepCommit (user : ℕ) (stale : List ℕ)
  | reserve (user : ℕ) (stale : List ℕ)
  | capCheck (user : ℕ)
  | reserveCommit (user reserved : ℕ)
  | callSdk (user : ℕ) (kind : Kind) (messagesCount : Option ℤ) (reserved : Option ℕ)
  | recordId (reserved : ℕ) (yookassaId : String)
  | recordCommit (yookassaId : String)
  | expireReserve (reserved : ℕ)
  | expireCommit
  | insertPackage (user : ℕ) (kind : Kind) (messagesCount : Option ℤ) (yookassaId : String)
  | packageCommit (yookassaId : String)
  /- the session is closed without a commit -/
  | closing (outcome : Outcome)
  | finished (outcome : Outcome)
  deriving DecidableEq

/-- The reading of the clock at a statement, and the answer of the payment provider: the id of
the created payment, or an exception. -/
structure Input where
  now : DateTime
  sdk : Option String

def byYookassaId (yookassaId : String) (_ : ℕ) (p : Payment) : Bool :=
  p.yookassaPaymentId = some yookassaId

def claimable (yookassaId : String) (i : ℕ) (p : Payment) : Bool :=
  byYookassaId yookassaId i p && !p.status.terminal

def Payment.claimed (p : Payment) (status : Status) (now : DateTime) : Payment :=
  { p with status := status, confirmedAt := some now }

def Payment.expire (p : Payment) : Payment := { p with status := .expired }

def Payment.withYookassaId (p : Payment) (yookassaId : String) : Payment :=
  { p with yookassaPaymentId := some yookassaId }

def Subscription.withExpiry (s : Subscription) (expiry : DateTime) : Subscription :=
  { s with expiresAt := expiry }

/-- `Payment.id.in_(ids)`, and the `WHERE` of a flush of one row. -/
def hasId {Row : Type} (ids : List ℕ) (i : ℕ) (_ : Row) : Bool := ids.contains i

/-- The claim is a conditional update; it is won when exactly one row was updated. -/
def claimPayment (db : Db) (tx : ℕ) (yookassaId : String) (status : Status) (now : DateTime) :
    Option (Db × Bool) :=
  (db.payments.modify tx (claimable yookassaId) fun p => some (p.claimed status now)).map
    fun t => (db.setPayments t,(db.payments.select tx (claimable yookassaId)).length == 1)

def isActiveOf (user : ℕ) (_ : ℕ) (s : Subscription) : Bool := s.userId = user && s.isActive

/-- The active subscription with the latest expiry. -/
def activeSubscription (db : Db) (tx user : ℕ) : Option (ℕ × Subscription) :=
  (db.subscriptions.select tx (isActiveOf user)).argmax fun r => r.2.expiresAt.micros

/-- `_apply_extension` computes the literal that the flush will write. -/
def applyExtension (payment : ℕ) (now : DateTime) (subscription : ℕ) (s : Subscription) : Pc :=
  match nextExpiry (some s.expiresAt) now with
  | some expiry => .moveExpiry payment now subscription s.expiresAt expiry
  | none => .closing (.raised .valueError)

def isOpenIntentOf (user : ℕ) (_ : ℕ) (p : Payment) : Bool := p.userId = user && p.isOpenIntent

def Payment.olderThanTtl (p : Payment) (now : DateTime) : Bool :=
  pendingIntentTtlHours*hourMicros + p.createdAt.micros < now.micros

def staleSubscriptionIntents (db : Db) (tx user : ℕ) (now : DateTime) : List ℕ :=
  ((db.payments.select tx (isOpenIntentOf user)).filter fun r => r.2.olderThanTtl now).map Prod.fst

def reservedPayment (user : ℕ) (now : DateTime) : Payment where
  userId := user
  yookassaPaymentId := none
  status := .pending
  kind := .subscription
  messagesCount := none
  createdAt := now
  confirmedAt := none

def packagePayment (user : ℕ) (kind : Kind) (messagesCount : Option ℤ) (yookassaId : String)
    (now : DateTime) : Payment where
  userId := user
  yookassaPaymentId := some yookassaId
  status := .pending
  kind := kind
  messagesCount := messagesCount
  createdAt := now
  confirmedAt := none

def firstSubscription (user : ℕ) (expiry : DateTime) : Subscription where
  userId := user
  expiresAt := expiry
  isActive := true
  hasFreeAccess := false

/-- `handle_webhook` up to the answer of `SELECT ... FOR UPDATE`. -/
def receive (db : Db) (tx : ℕ) (event : WebhookEvent) (yookassaId : String) : Option (Db × Pc) :=
  (db.payments.modify tx (byYookassaId yookassaId) some).map fun t =>
    (db.setPayments t,
      match db.payments.select tx (byYookassaId yookassaId) with
      | [] => .closing (.answered false)
      | [(payment,row)] =>
        if row.status.terminal then .closing (.answered true)
        else .claim event yookassaId payment row
      | _ => .closing (.raised .multipleResultsFound))

def step (db : Db) (tx : ℕ) (pc : Pc) (inp : Input) : Option (Db × Pc) :=
  match pc with
  | .webhook event yookassaId =>
    if event = .other then some (db,.finished (.answered false))
    else
      match yookassaId with
      | none => some (db,.finished (.answered false))
      | some id =>
        if id = "" then some (db,.finished (.answered false)) else receive db tx event id
  | .claim event yookassaId payment row =>
    if event = .paymentCanceled then
      (claimPayment db tx yookassaId .canceled inp.now).map fun r =>
        (r.1,if r.2 then .commitClaim else .closing (.answered true))
    else if row.kind ≠ .subscription ∧ (row.messagesCount = none ∨ row.messagesCount = some 0) then
      some (db,.closing (.answered false))
    else
      (claimPayment db tx yookassaId .succeeded inp.now).map fun r =>
        (r.1,
          if r.2 then
            if row.kind = .subscription then .extend payment row.userId inp.now else .commitClaim
          else .closing (.answered true))
  | .commitClaim => some (db.commit tx,.finished (.answered true))
  | .extend payment user now =>
    match activeSubscription db tx user with
    | some (subscription,s) => some (db,applyExtension payment now subscription s)
    | none => some (db,.insertSubscription payment user now)
  | .insertSubscription payment user now =>
    match nextExpiry none now with
    | none => some (db,.closing (.raised .valueError))
    | some expiry =>
      match db.subscriptions.insertUnique tx activeUserKey (firstSubscription user expiry) with
      | .blocked => none
      | .violates => some (db,.reread payment user now)
      | .inserted t => some (db.setSubscriptions t,.commitExtension payment now)
  | .reread payment user now =>
    match activeSubscription db tx user with
    | some (subscription,s) => some (db,applyExtension payment now subscription s)
    | none => some (db,.closing (.raised .integrityError))
  | .moveExpiry payment now subscription _ expiry =>
    (db.subscriptions.modify tx (hasId [subscription]) fun s => some (s.withExpiry expiry)).map fun t =>
        (db.setSubscriptions t,
          if (db.subscriptions.view tx subscription).isSome then .commitExtension payment now
          else .closing (.raised .staleDataError))
  | .commitExtension payment now =>
    some ((db.commit tx).logExtension ⟨payment,now⟩,
      .finished (.answered true))
  | .createPayment user kind messagesCount =>
    if kind = .subscription then
      match staleSubscriptionIntents db tx user inp.now with
      | [] => some (db,.reserve user [])
      | stale => some (db,.sweepUpdate user stale)
    else some (db,.callSdk user kind messagesCount none)
  | .sweepUpdate user stale =>
    (db.payments.modify tx (hasId stale) fun p => some p.expire).map fun t =>
        (db.setPayments t,.sweepCommit user stale)
  | .sweepCommit user stale => some (db.commit tx,.reserve user stale)
  | .reserve user _ =>
    match db.payments.insertUnique tx openIntentKey (reservedPayment user inp.now) with
    | .blocked => none
    | .violates => some (db,.capCheck user)
    | .inserted t => some (db.withAuthor tx t,.reserveCommit user db.payments.size)
  | .capCheck user =>
    if (db.payments.select tx (isOpenIntentOf user)).isEmpty then
      some (db,.closing (.raised .integrityError))
    else some (db,.closing (.raised .pendingIntentCapError))
  | .reserveCommit user reserved =>
    some (db.commit tx,.callSdk user .subscription none (some reserved))
  | .callSdk user kind messagesCount reserved =>
    some (db.logSdkCall tx,
      match inp.sdk, reserved with
      | some yookassaId, some r => .recordId r yookassaId
      | some yookassaId, none => .insertPackage user kind messagesCount yookassaId
      | none, some r => .expireReserve r
      | none, none => .closing (.raised .paymentCreationError))
  | .recordId reserved yookassaId =>
    if db.payments.taken tx Payment.yookassaPaymentId yookassaId then
      some (db,.closing (.raised .integrityError))
    else if db.payments.contested tx Payment.yookassaPaymentId yookassaId then none
    else
      (db.payments.modify tx (hasId [reserved]) fun p => some (p.withYookassaId yookassaId)).map fun t =>
          (db.setPayments t,.recordCommit yookassaId)
  | .recordCommit yookassaId => some (db.commit tx,.finished (.created yookassaId))
  | .expireReserve reserved =>
    (db.payments.modify tx (hasId [reserved]) fun p => some p.expire).map fun t =>
        (db.setPayments t,.expireCommit)
  | .expireCommit => some (db.commit tx,.finished (.raised .paymentCreationError))
  | .insertPackage user kind messagesCount yookassaId =>
    match db.payments.insertUnique tx Payment.yookassaPaymentId
        (packagePayment user kind messagesCount yookassaId inp.now) with
    | .blocked => none
    | .violates => some (db,.closing (.raised .integrityError))
    | .inserted t => some (db.withAuthor tx t,.packageCommit yookassaId)
  | .packageCommit yookassaId => some (db.commit tx,.finished (.created yookassaId))
  | .closing outcome => some (db.rollback tx,.finished outcome)
  | .finished _ => none

def machine : Machine Db Pc Input := ⟨step⟩

def Pc.isStart : Pc → Bool
  | .webhook _ _ | .createPayment _ _ _ | .finished _ => true
  | _ => false

structure Quiet (c : Config Db Pc) : Prop where
  payments : ∀ i, (c.db.payments.slot i).draft = none
  subscriptions : ∀ i, (c.db.subscriptions.slot i).draft = none
  extensions : c.db.extensions = []
  author : ∀ i, c.db.author i = none
  sdkCalls : c.db.sdkCalls = []
  starts : ∀ i, (c.pc i).isStart = true

end PaymentService
end Broadcaster
