import Blindport.Conc.Discipline
import Blindport.Conc.Store
import Blindport.Backend.Statements

/-!
# Blindport.Backend.Session

The database sessions the services run in, and everything outside that they
read.

Every SQL statement, `commit` and `rollback` is one action, and so is every
clock reading and every call of an adapter; between two of them other sessions
run.  A session is the number of the thread that uses it.  PostgreSQL's READ
COMMITTED is `Conc.Table`: a statement sees what is committed when it starts
and the session's own changes, and waits for a row another session has.

`World.history` is the record of what happened, newest first: what was read off
the clock, what each adapter was asked and answered, each `UPDATE payment` that
hit with the row it hit, each version of a payment a commit published, and each
assignment a reservation tried.
Nothing in the services reads it.
-/

namespace Backend

open Conc

/-! ## what the adapters answer -/

/-- `LightningInvoiceState`. -/
inductive LightningInvoiceState where
  | «open»
  | accepted
  | settled
  | canceled
deriving DecidableEq

/-- `NwcLookupState`. -/
inductive NwcLookupState where
  | settled
  | pending
  | failed
  | notFound
  | unknown
  | unsupported
deriving DecidableEq

/-- `NwcLookupState.value` as it is stored. -/
def NwcLookupState.value : NwcLookupState → NwcState
  | settled => .settled
  | pending => .pending
  | failed => .failed
  | notFound => .notFound
  | unknown => .unknown
  | unsupported => .unsupported

/-- `NwcPaymentState`. -/
inductive NwcPaymentState where
  | settled
  | pending
  | failed
  | unknown
deriving DecidableEq

/-- `NwcPaymentState.value` as it is stored. -/
def NwcPaymentState.value : NwcPaymentState → NwcState
  | settled => .settled
  | pending => .pending
  | failed => .failed
  | unknown => .unknown

/-- `ClinkPaymentState`. -/
inductive ClinkPaymentState where
  | settled
  | pending
deriving DecidableEq

/-- `ClinkPaymentState.value` as it is stored. -/
def ClinkPaymentState.value : ClinkPaymentState → ClinkState
  | settled => .settled
  | pending => .pending

/-- The answer to `lookup_invoice`: a result, `NwcAdapterError`, or some other
exception. -/
inductive NwcLookupAnswer where
  | result (state : NwcLookupState) (paymentHash preimage : Option String)
      (feesPaidMsats : Option Int)
  | error (code : String)
  | crash
deriving DecidableEq

/-- The answer to the NWC `pay_invoice`. -/
inductive NwcPayAnswer where
  | result (state : NwcPaymentState) (preimage : Option String) (feesPaidMsats : Option Int)
  | error (code : String) (retryable : Bool)
  | crash
deriving DecidableEq

/-- The answer to the CLINK `pay_invoice`. -/
inductive ClinkPayAnswer where
  | result (state : ClinkPaymentState) (preimage : Option String)
  | error (code : String) (retryable walletRejection : Bool)
  | crash
deriving DecidableEq

/-- A definitive, non-retryable rejection by the wallet. -/
def ClinkPayAnswer.definitive : ClinkPayAnswer → Option String
  | error code retryable walletRejection =>
      if walletRejection ∧ ¬ retryable ∧ code ∈ clinkDefinitiveRejectionCodes then some code
      else none
  | _ => none

/-- An invoice an adapter returns. -/
structure Invoice where
  paymentRequest : String
  paymentHash : String
  verifyUrl : String
  expiresAt : Datetime
  expiresInSeconds : Int

/-- What one action may read from outside. -/
structure Input where
  /-- `_utcnow()`. -/
  clock : Datetime := 0
  /-- `_nwc_database_clock`. -/
  dbNow : Datetime := 0
  /-- `uuid4()`. -/
  uuid : String := ""
  /-- `invoice_state`; `none` is an exception. -/
  invoiceState : Option LightningInvoiceState := none
  /-- `is_invoice_paid`. -/
  invoicePaid : Option Bool := none
  /-- `lookup_invoice` of LND. -/
  lookupInvoice : Option (Option Invoice) := none
  /-- `create_or_lookup_invoice` of LND. -/
  createInvoice : Option Invoice := none
  /-- `create_invoice` of LNURL. -/
  lnurlInvoice : Option Invoice := none
  nwcLookup : NwcLookupAnswer := .crash
  nwcPay : NwcPayAnswer := .crash
  clinkPay : ClinkPayAnswer := .crash
  /-- `decrypt_nwc_credential` and `decrypt_clink_credential` succeed. -/
  credential : Bool := false
  /-- `queue_notification` succeeds. -/
  notified : Bool := false
  /-- `allocate_relay_pool_domain`. -/
  poolDomain : Option String := none
  /-- `secrets.randbelow`. -/
  random : Nat := 0
  /-- `uuid4()` for a public identifier. -/
  publicId : Uuid := ⟨List.replicate 32 0, Uuid.length_zeros⟩
  /-- `require_product_available` and the checks of a host name pass. -/
  available : Bool := false

/-! ## errors -/

/-- What the services raise. -/
inductive Error where
  | valueError (message : String)
  | disabledPaymentMethod (method : PaymentMethod)
  | openPaymentConflict (payment : Payment)
  | paymentProvider (message : String)
  | noCapacity (message : String)
  | accountLimit (message : String)
  | cancellationConflict (message : String)
  | integrity
  | runtime (message : String)
  | recursion
  | adapter

/-- `except ValueError`. -/
def Error.isValueError : Error → Bool
  | valueError _ | disabledPaymentMethod _ | openPaymentConflict _ => true
  | _ => false

/-! ## the shared state -/

/-- One entry of the record. -/
inductive Event where
  /-- A clock reading. -/
  | clock (i : Nat) (t : Datetime)
  /-- `create_invoice` of LNURL was called. -/
  | lnurlCreate (i pid : Nat)
  /-- The LUD-21 verification of a payment was asked and answered. -/
  | lnurlState (i pid : Nat) (state : LightningInvoiceState)
  /-- The CLINK `pay_invoice` was called, with what came of it. -/
  | clinkPay (i pid : Nat) (answer : ClinkPayAnswer)
  /-- The reload at the end of `_claim_nwc_lease` by the worker that stored
  `token`. -/
  | nwcLeased (i pid : Nat) (token : String) (row : Payment)
  /-- A wallet lookup by a worker whose object holds `token`. -/
  | nwcLookup (i pid : Nat) (token : Option String) (answer : NwcLookupAnswer)
  /-- The NWC `pay_invoice` was called. -/
  | nwcPay (i pid : Nat)
  /-- The subscription `_finalize_payment` loaded for a payment. -/
  | settling (i pid : Nat) (sub : Subscription)
  /-- The subscription as it was when the changes of a settlement were sent. -/
  | extending (i pid : Nat) (row : Subscription)
  /-- An `UPDATE payment` hit `row`. -/
  | executed (i pid : Nat) (s : PaymentUpdate) (row : Payment)
  /-- A commit replaced `old` by `new`. -/
  | published (i pid : Nat) (old : Option Payment) (new : Payment)
  /-- A nested transaction for the assignment of a subscription was begun. -/
  | tried (i sid : Nat) (ip : String) (port : Option Nat)

/-- The thread that made the entry. -/
def Event.thread : Event → Nat
  | clock i _ | lnurlCreate i _ | lnurlState i _ _ | clinkPay i _ _ | nwcLeased i _ _ _
  | nwcLookup i _ _ _ | nwcPay i _ | settling i _ _ | extending i _ _ | executed i _ _ _
  | published i _ _ _ | tried i _ _ _ => i

/-- The database and the record. -/
structure World where
  users : Table User
  subscriptions : Table Subscription
  payments : Table Payment
  leases : Table IPLease
  credits : Table ReferralCredit
  orders : List AgentOrder
  history : List Event

namespace World

/-- Add an entry to the record. -/
def note (e : Event) (g : World) : World := { g with history := e :: g.history }

/-- The version of a payment a commit of session `i` publishes. -/
def version (i : Nat) (g : World) (pid : Nat) : Option Event :=
  match (g.payments.cell pid).pending with
  | some (j, new) =>
      if j = i then some (.published i pid (g.payments.cell pid).committed new) else none
  | none => none

/-- Everything a commit of session `i` publishes. -/
def published (i : Nat) (g : World) : List Event :=
  (List.range g.payments.next).filterMap (g.version i)

def commit (i : Nat) (g : World) : World :=
  { g with
    users := g.users.commit i
    subscriptions := g.subscriptions.commit i
    payments := g.payments.commit i
    leases := g.leases.commit i
    credits := g.credits.commit i
    history := g.published i ++ g.history }

def rollback (i : Nat) (g : World) : World :=
  { g with
    users := g.users.rollback i
    subscriptions := g.subscriptions.rollback i
    payments := g.payments.rollback i
    leases := g.leases.rollback i
    credits := g.credits.rollback i }

end World

/-- A service running in a session. -/
abbrev Db := Prog Input World Error

/-- The deployment: its settings, the hash functions it calls and the depth to
which its functions may call each other. -/
structure App where
  cfg : Settings
  /-- `hashlib.sha256(bytes.fromhex(preimage)).hexdigest()`; `none` where
  `fromhex` fails. -/
  preimageHash : String → Option String
  /-- The hash of the invoice with this identity; `none` for a text that is no
  UUID. -/
  invoiceHash : String → Option String
  /-- How often `_check_lnurl_payment` may be re-entered. -/
  depth : Nat

/-! ## statements -/

/-- A statement that only reads. -/
def query {α : Type} (f : World → α) : Db α := .atomic fun _ g => some (g, f g)

/-- A value from outside that leaves no entry. -/
def input {α : Type} (f : Input → α) : Db α := .atomic fun ω g => some (g, f ω)

/-- Add an entry to the record with what an adapter answered. -/
def call {α : Type} (f : Input → α) (e : α → Event) : Db α :=
  .atomic fun ω g => some (g.note (e (f ω)), f ω)

/-- `_utcnow()`. -/
def utcnow (i : Nat) : Db Datetime := call Input.clock (.clock i)

def commit (i : Nat) : Db Unit := .atomic fun _ g => some (g.commit i, ())

def rollback (i : Nat) : Db Unit := .atomic fun _ g => some (g.rollback i, ())

/-- `_reload_payment`. -/
def reloadPayment (i pid : Nat) : Db Payment := do
  match ← query (·.payments.get i pid) with
  | some payment => pure payment
  | none => .raise (.runtime "payment disappeared")

/-- `_lock_payment`. -/
def lockPayment (i pid : Nat) : Db Payment := do
  match ← .atomic fun _ g => (g.payments.lock i pid).map fun (t, row) =>
      ({ g with payments := t }, row) with
  | some payment => pure payment
  | none => .raise (.runtime "payment disappeared")

/-- One `UPDATE payment`: whether a row was matched. -/
def execute (i pid : Nat) (s : PaymentUpdate) : Db Bool :=
  .atomic fun _ g =>
    match g.payments.get i pid, g.payments.update i pid s.selects s.set with
    | some row, some (t, true) =>
        some (({ g with payments := t } : World).note (.executed i pid s row), true)
    | _, some (_, _) => some (g, false)
    | _, none => none

/-- `session.get(Subscription, id)`. -/
def getSubscription (i id : Nat) : Db (Option Subscription) := query (·.subscriptions.get i id)

/-- `select(Subscription).where(…)`. -/
def selectSubscriptions (i : Nat) (p : Subscription → Bool) : Db (List Subscription) :=
  query fun g => (g.subscriptions.rows i).filter p

/-- `select(Payment).where(…)`. -/
def selectPayments (i : Nat) (p : Payment → Bool) : Db (List Payment) :=
  query fun g => (g.payments.rows i).filter p

/-- The open payments of a subscription. -/
def openPayments (i id : Nat) : Db (List Payment) :=
  selectPayments i fun p => p.subscriptionId = id ∧ p.status.isOpen

/-- `session.get(User, id)`. -/
def getUser (i id : Nat) : Db (Option User) := query (·.users.get i id)

/-- `select(User).where(User.id == id).with_for_update()`. -/
def lockUser (i id : Nat) : Db Unit := do
  match ← .atomic fun _ g => (g.users.lock i id).map fun (t, row) =>
      ({ g with users := t }, row) with
  | some _ => pure ()
  | none => .raise (.runtime "no row was found")

/-- `select(Subscription).where(Subscription.id == id).with_for_update()`. -/
def lockSubscription (i id : Nat) : Db (Option Subscription) :=
  .atomic fun _ g => (g.subscriptions.lock i id).map fun (t, row) =>
    ({ g with subscriptions := t }, row)

/-- `UPDATE subscription … WHERE id = … AND p`. -/
def updateSubscription (i id : Nat) (p : World → Subscription → Bool)
    (f : Subscription → Subscription) : Db Bool :=
  .atomic fun _ g => (g.subscriptions.update i id (p g) f).map fun (t, hit) =>
    ({ g with subscriptions := t }, hit)

/-- The value an ORM flush leaves in a column: what was assigned, where that
differs from what was loaded. -/
def flushed {α : Type} [DecidableEq α] (loaded assigned row : α) : α :=
  if assigned = loaded then row else assigned

/-- The row after an ORM flush of `assigned`, which was loaded as `loaded`. -/
def Subscription.flush (loaded assigned row : Subscription) : Subscription :=
  { row with
    status := flushed loaded.status assigned.status row.status
    assignedIp := flushed loaded.assignedIp assigned.assignedIp row.assignedIp
    assignedPort := flushed loaded.assignedPort assigned.assignedPort row.assignedPort
    domain := flushed loaded.domain assigned.domain row.domain
    relayPoolDomain :=
      flushed loaded.relayPoolDomain assigned.relayPoolDomain row.relayPoolDomain
    domainIsManaged :=
      flushed loaded.domainIsManaged assigned.domainIsManaged row.domainIsManaged
    domainVerificationToken :=
      flushed loaded.domainVerificationToken assigned.domainVerificationToken
        row.domainVerificationToken
    domainVerifiedAt :=
      flushed loaded.domainVerifiedAt assigned.domainVerifiedAt row.domainVerifiedAt
    domainClaimExpiresAt :=
      flushed loaded.domainClaimExpiresAt assigned.domainClaimExpiresAt row.domainClaimExpiresAt
    domainRenewalGraceExpiresAt :=
      flushed loaded.domainRenewalGraceExpiresAt assigned.domainRenewalGraceExpiresAt
        row.domainRenewalGraceExpiresAt
    reservationExpiresAt :=
      flushed loaded.reservationExpiresAt assigned.reservationExpiresAt row.reservationExpiresAt
    reservationPaymentId :=
      flushed loaded.reservationPaymentId assigned.reservationPaymentId row.reservationPaymentId
    resourceQuarantinedUntil :=
      flushed loaded.resourceQuarantinedUntil assigned.resourceQuarantinedUntil
        row.resourceQuarantinedUntil
    billingTerm := flushed loaded.billingTerm assigned.billingTerm row.billingTerm
    currentPeriodStart :=
      flushed loaded.currentPeriodStart assigned.currentPeriodStart row.currentPeriodStart
    currentPeriodEnd :=
      flushed loaded.currentPeriodEnd assigned.currentPeriodEnd row.currentPeriodEnd
    autoRenew := flushed loaded.autoRenew assigned.autoRenew row.autoRenew
    upgradeFromSubscriptionId :=
      flushed loaded.upgradeFromSubscriptionId assigned.upgradeFromSubscriptionId
        row.upgradeFromSubscriptionId
    upgradeCreditSats :=
      flushed loaded.upgradeCreditSats assigned.upgradeCreditSats row.upgradeCreditSats
    upgradeSourcePeriodEnd :=
      flushed loaded.upgradeSourcePeriodEnd assigned.upgradeSourcePeriodEnd
        row.upgradeSourcePeriodEnd
    updatedAt := flushed loaded.updatedAt assigned.updatedAt row.updatedAt }

/-- The flush of a changed subscription. -/
def flushSubscription (i : Nat) (loaded assigned : Subscription) : Db Unit := do
  let _ ← updateSubscription i loaded.id (fun _ _ => true) (Subscription.flush loaded assigned)

/-- `queue_notification`. -/
def queueNotification : Db Unit := do
  if ← input Input.notified then pure () else .raise (.valueError "notification was not queued")

end Backend
