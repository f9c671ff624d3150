import Blindport.Backend.Settings

/-!
# Blindport.Backend.Lifecycle

`services/subscriptions.py` and `services/ip_leases.py`, row by row: what each
lifecycle operation reads off a subscription or a lease and the column values
it gives them.  The statements that carry these values to the database, and
the order they are issued in, are in the modules above.
-/

namespace Backend

/-- `billing_period_days`. -/
def billingPeriodDays : BillingTerm → Int
  | .monthly => 30
  | .yearly => 365

/-- `ProductType.value`. -/
def ProductType.value : ProductType → String
  | .ip => "ip"
  | .port => "port"
  | .relay => "relay"

/-- `_SCARCE_PRODUCTS`. -/
def ProductType.scarce : ProductType → Bool
  | .ip | .port => true
  | .relay => false

/-! ## expiry -/

/-- The test of `expire_elapsed_subscriptions`: active, and without a period
end in the future. -/
def Subscription.elapsed (now : Datetime) (sub : Subscription) : Bool :=
  sub.status = .active ∧ sub.currentPeriodEnd.all (· ≤ now)

/-- The hold of an expired assignment: the safety quarantine and the owner's
renewal opportunity, neither shortening the other. -/
def quarantineUntil (cfg : Settings) (now : Datetime) (sub : Subscription) : Datetime :=
  let quarantineSeconds :=
    if sub.product = .ip then cfg.ipReuseQuarantineSeconds else cfg.resourceReuseQuarantineSeconds
  max (now + seconds quarantineSeconds) (sub.currentPeriodEnd.getD now + days 7)

/-- The values of the expiry update, computed from the loaded `sub`. -/
def expiryValues (cfg : Settings) (now : Datetime) (sub row : Subscription) : Subscription :=
  let row := { row with
    status := .expired
    reservationExpiresAt := none
    reservationPaymentId := none
    updatedAt := now }
  if sub.product.scarce ∧ sub.assignedIp.isSome then
    { row with resourceQuarantinedUntil := some (quarantineUntil cfg now sub) }
  else if sub.product = .relay then
    { row with
      domainRenewalGraceExpiresAt :=
        some (sub.currentPeriodEnd.getD now + seconds cfg.relayRenewalGraceSeconds) }
  else row

/-! ## deadlines of a payment -/

/-- `domain_payment_eligibility_deadline`. -/
def Subscription.domainPaymentEligibilityDeadline (cfg : Settings) (sub : Subscription) :
    Option Datetime :=
  if sub.product ≠ .relay then none
  else match sub.status with
    | .pending => sub.domainClaimExpiresAt
    | .expired => sub.domainRenewalGraceExpiresAt
    | .active => sub.currentPeriodEnd.map (· + seconds cfg.relayRenewalGraceSeconds)
    | .cancelled => none

/-- `_payment_eligibility_deadline`. -/
def Subscription.paymentEligibilityDeadline (cfg : Settings) (sub : Subscription) :
    Option Datetime :=
  List.min? ([sub.reservationExpiresAt,
    if sub.status = .expired then sub.resourceQuarantinedUntil else none,
    sub.domainPaymentEligibilityDeadline cfg,
    if sub.upgradeFromSubscriptionId.isSome then sub.upgradeSourcePeriodEnd else none].filterMap
      fun d => d)

/-- `require_domain_payment_settlement_ready`: what it raises. -/
def Subscription.settlementReadyError (cfg : Settings) (sub : Subscription) (payment : Payment) :
    Option String :=
  if sub.product ≠ .relay then none
  else if sub.status = .cancelled ∨ sub.domain.isNone then
    some "Blindport Relay domain expired and was released; create a new subscription"
  else if ¬ sub.domainIsManaged ∧ sub.domainVerifiedAt.isNone then
    some "domain ownership must be verified before payment"
  else if (sub.domainPaymentEligibilityDeadline cfg).all (· < payment.createdAt) then
    some "payment was not created during Blindport Relay domain eligibility"
  else none

/-! ## the period -/

/-- The assignments of `activate_subscription`. -/
def Subscription.activated (now : Datetime) (periodDays : Int) (sub : Subscription) :
    Subscription :=
  { sub with
    status := .active
    currentPeriodStart := some now
    currentPeriodEnd := some (now + days periodDays)
    domainClaimExpiresAt := none
    domainRenewalGraceExpiresAt := none
    reservationExpiresAt := none
    reservationPaymentId := none
    resourceQuarantinedUntil := none
    updatedAt := now }

/-- The instant a renewal extends from. -/
def Subscription.renewalBase (now : Datetime) (sub : Subscription) : Datetime :=
  match sub.currentPeriodEnd with
  | some periodEnd => if now < periodEnd then periodEnd else now
  | none => now

/-- The assignments of `renew_subscription`. -/
def Subscription.renewed (now : Datetime) (periodDays : Int) (sub : Subscription) : Subscription :=
  { sub with
    currentPeriodStart := some now
    currentPeriodEnd := some (sub.renewalBase now + days periodDays)
    status := .active
    domainRenewalGraceExpiresAt := none
    resourceQuarantinedUntil := none
    updatedAt := now }

/-- `is_renewal` of `_finalize_payment`. -/
def Payment.isRenewal (payment : Payment) (sub : Subscription) : Bool :=
  sub.status = .active ∨
    (sub.product.scarce ∧ sub.resourceQuarantinedUntil.isSome ∧ sub.reservationPaymentId.isNone ∧
      (sub.currentPeriodEnd.any (payment.createdAt ≤ ·) ∨
        sub.resourceQuarantinedUntil.any (payment.createdAt ≤ ·)))

/-- The assignments of `release_reservation`. -/
def Subscription.unreserved (now : Datetime) (sub : Subscription) : Subscription :=
  { sub with
    assignedIp := none
    assignedPort := none
    reservationExpiresAt := none
    reservationPaymentId := none
    updatedAt := now }

/-- The values with which a domain claim is given up: by the domain reaper, by
a cancellation, and for the source of a settled upgrade. -/
def Subscription.domainReleased (now : Datetime) (sub : Subscription) : Subscription :=
  { sub with
    status := .cancelled
    domain := none
    relayPoolDomain := none
    domainIsManaged := false
    domainVerificationToken := none
    domainVerifiedAt := none
    domainClaimExpiresAt := none
    domainRenewalGraceExpiresAt := none
    autoRenew := false
    updatedAt := now }

/-- The values with which an upgrade claim is given up. -/
def Subscription.upgradeReleased (sub : Subscription) : Subscription :=
  { sub with
    upgradeFromSubscriptionId := none
    upgradeCreditSats := 0
    upgradeSourcePeriodEnd := none }

/-! ## leases -/

/-- `ip_leases.quarantine` on the current lease. -/
def IPLease.quarantine (now until_ : Datetime) (lease : IPLease) : IPLease :=
  { lease with
    state := .quarantined
    expiredAt := lease.expiredAt.or (some now)
    quarantinedAt := some now
    quarantineUntil := some until_
    reservationPaymentId := none
    smtpEnabled := false
    updatedAt := now }

/-- `ip_leases.activate` on the current lease. -/
def IPLease.activate (now : Datetime) (lease : IPLease) : IPLease :=
  { lease with
    state := .active
    activatedAt := lease.activatedAt.or (some now)
    expiredAt := none
    quarantinedAt := none
    quarantineUntil := none
    reservationPaymentId := none
    updatedAt := now }

/-- `ip_leases.release` on the current lease. -/
def IPLease.release (now : Datetime) (lease : IPLease) : IPLease :=
  { lease with
    state := .released
    releasedAt := some now
    reservationPaymentId := none
    smtpEnabled := false
    updatedAt := now }

end Backend
