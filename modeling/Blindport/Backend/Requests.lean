import Mathlib.Data.List.Dedup
import Blindport.Backend.Reaping

/-!
# Blindport.Backend.Requests

The requests of an account: `create_payment` of `services/payments.py`, and
`create_subscription`, `create_wildcard_upgrade` and
`cancel_pending_subscription` of `services/subscriptions.py`.  They are
serialized per account by a lock on its `User` row, which the next commit or
rollback of the session gives up.
-/

namespace Backend

open Conc

/-! ## subscriptions -/

/-- `has_pending_upgrade`. -/
def hasPendingUpgrade (i id : Nat) : Db Bool := do
  let targets ← selectSubscriptions i fun sub =>
    sub.upgradeFromSubscriptionId = some id ∧ sub.status = .pending
  pure (!targets.isEmpty)

/-- What is asked of `create_subscription`; the domain is canonical. -/
structure SubscriptionRequest where
  product : ProductType
  domain : Option String
  managed : Bool
  transport : Transport
  delivery : DeliveryMode
  billingTerm : BillingTerm
  scope : RelayHostnameScope
  referralAddress : Option String

/-- `require_product_billing_term`, `require_billing_term_enabled` and the
checks of `create_subscription` that read only the request. -/
def SubscriptionRequest.error (cfg : Settings) (req : SubscriptionRequest) : Option String :=
  if req.product = .ip ∧ req.delivery ≠ .wireguard then
    some "Blindport IP is available with WireGuard delivery only"
  else if req.product = .ip ∧ req.billingTerm ≠ .yearly then
    some "WireGuard Blindport IP is available with yearly billing only"
  else if req.billingTerm = .yearly ∧ ¬ cfg.billingYearlyEnabled then
    some "yearly billing is not enabled"
  else if req.transport ≠ .tcp ∧ req.product ≠ .port then
    some "UDP transport is supported only for Blindport Port subscriptions"
  else if req.delivery ≠ .framed ∧ req.product ≠ .ip then
    some "WireGuard delivery is supported only for Blindport IP subscriptions"
  else if req.delivery = .wireguard ∧ cfg.wireguardPublicIps.isEmpty then
    some "WireGuard Blindport IP delivery is not configured"
  else if req.product = .relay ∧ req.domain.isNone then
    some "domain is required for Blindport Relay subscriptions"
  else if req.scope ≠ .exact ∧ req.product ≠ .relay then
    some "wildcard hostname scope is supported only for Blindport Relay subscriptions"
  else if req.scope = .wildcard ∧ req.managed then
    some "wildcard Relay hostnames must use a customer-owned base domain"
  else none

/-- The prices `create_subscription` gives the row. -/
def SubscriptionRequest.prices (cfg : Settings) (req : SubscriptionRequest) : Int × Int :=
  match req.product, req.scope with
  | .ip, _ => (0, cfg.ipYearlySats)
  | .port, _ => (cfg.portMonthlySats, cfg.portYearlySats)
  | .relay, .wildcard => (cfg.relayWildcardMonthlySats, cfg.relayWildcardYearlySats)
  | .relay, .exact => (cfg.relayMonthlySats, cfg.relayYearlySats)

/-- The row `create_subscription` inserts. -/
def SubscriptionRequest.row (cfg : Settings) (req : SubscriptionRequest) (userId : Nat)
    (publicId : Uuid) (now : Datetime) (poolDomain token : Option String) (id : Nat) :
    Subscription where
  id := id
  publicId := publicId
  userId := userId
  product := req.product
  delivery := req.delivery
  status := .pending
  assignedIp := none
  assignedPort := none
  transport := req.transport
  domain := if req.product = .relay then req.domain else none
  relayHostnameScope := if req.product = .relay then req.scope else .exact
  relayPoolDomain := poolDomain
  domainIsManaged := req.product = .relay ∧ req.managed
  domainVerificationToken := token
  domainVerifiedAt := if req.product = .relay ∧ req.managed then some now else none
  domainClaimExpiresAt :=
    if req.product = .relay then some (now + domainClaimTtl cfg req.managed) else none
  domainRenewalGraceExpiresAt := none
  reservationExpiresAt := none
  reservationPaymentId := none
  resourceQuarantinedUntil := none
  billingTerm := req.billingTerm
  monthlyPriceSats := (req.prices cfg).1
  yearlyPriceSats := (req.prices cfg).2
  currentPeriodStart := none
  currentPeriodEnd := none
  autoRenew := false
  referralAddress := req.referralAddress
  upgradeFromSubscriptionId := none
  upgradeCreditSats := 0
  upgradeSourcePeriodEnd := none
  createdAt := now
  updatedAt := now

/-- Two host names one of which lies under the other. -/
def domainUnder (child parent : String) : Bool :=
  ('.' :: parent.toList).isSuffixOf child.toList

/-- `_relay_domain_conflict` of a request with a live claim. -/
def SubscriptionRequest.conflicts (req : SubscriptionRequest) (sub : Subscription) : Bool :=
  match sub.product, req.domain, sub.domain with
  | .relay, some domain, some other =>
      match req.scope, sub.relayHostnameScope with
      | .wildcard, .wildcard =>
          other = domain ∨ domainUnder other domain ∨ domainUnder domain other
      | .wildcard, .exact => domainUnder other domain
      | .exact, .wildcard => domainUnder domain other
      | .exact, .exact => false
  | _, _, _ => false

/-- The account limits of `create_subscription`. -/
def requireAccountCapacity (cfg : Settings) (i userId : Nat) (product : ProductType)
    (additional : Nat) : Db Unit := do
  let held ← selectSubscriptions i fun sub => sub.userId = userId ∧ sub.status ≠ .cancelled
  if cfg.accountMaxNonCancelledSubscriptions + additional ≤ held.length then
    .raise (.accountLimit "account has reached the non-cancelled subscription limit")
  else
    let claims ← selectSubscriptions i fun sub =>
      sub.userId = userId ∧ sub.product = .relay ∧ sub.status = .pending ∧ sub.domain.isSome
    if product = .relay ∧ cfg.accountMaxPendingRelayClaims ≤ claims.length then
      .raise (.accountLimit "account has reached the unpaid Relay claim limit")
    else pure ()

/-- The insert of `create_subscription`; the host name is unique. -/
def insertSubscription (i : Nat) (row : Nat → Subscription) : Db Nat := do
  match ← .atomic fun _ g =>
      let id := g.subscriptions.next
      let rival (sub : Subscription) : Bool :=
        (row id).domain.isSome ∧ sub.domain = (row id).domain
      (g.subscriptions.clash i id rival rival).map fun taken =>
        if taken then (g, none)
        else ({ g with subscriptions := g.subscriptions.insert i row }, some id) with
  | none => .raise .integrity
  | some id => pure id

/-- The claim texts `create_subscription` allocates for a customer's domain. -/
def claimTexts (req : SubscriptionRequest) : Db (Option String × Option String) := do
  if req.product ≠ .relay ∨ req.managed then pure (none, none)
  else
    match ← input fun ω => (ω.poolDomain, ω.uuid) with
    | (none, _) => .raise (.noCapacity "no Blindport Relay pool configured")
    | (some poolDomain, token) =>
        pure (some poolDomain, if req.scope = .wildcard then some token else none)

/-- `create_subscription`, under the account lock and without its commit. -/
def stageSubscription (app : App) (i userId : Nat) (req : SubscriptionRequest)
    (excluded : Option Nat) (additional : Nat) : Db Nat := do
  lockUser i userId
  requireAccountCapacity app.cfg i userId req.product additional
  if ← input Input.available then
    let rivals ← selectSubscriptions i fun sub =>
      (req.domain.isSome ∧ sub.domain = req.domain) ∨ (some sub.id ≠ excluded ∧ req.conflicts sub)
    if req.product = .relay ∧ ¬ rivals.isEmpty then
      .raise (.valueError "domain conflicts with an existing Relay hostname scope")
    else
      let (poolDomain, token) ← claimTexts req
      let now ← utcnow i
      let publicId ← input Input.publicId
      insertSubscription i (req.row app.cfg userId publicId now poolDomain token)
  else .raise (.valueError "product is not available")

/-- `create_subscription`. -/
def createSubscription (app : App) (i userId : Nat) (req : SubscriptionRequest) : Db Nat := do
  match req.error app.cfg with
  | some message => .raise (.valueError message)
  | none =>
      reapForClaim
      let id ← stageSubscription app i userId req none 0
      commit i
      pure id
where
  /-- A new claim reaps the elapsed ones first. -/
  reapForClaim : Db Unit :=
    if req.product = .relay then reapExpiredDomainClaims app i else pure ()

/-- The source may be upgraded to a wildcard. -/
def Subscription.upgradeSource (now : Datetime) (source : Subscription) : Bool :=
  source.product = .relay ∧ source.relayHostnameScope = .exact ∧ source.status = .active ∧
    source.domain.isSome ∧ ¬ source.domainIsManaged ∧ source.currentPeriodEnd.any (now < ·)

/-- The credit of an upgrade: the unused part of what the source paid. -/
def Subscription.upgradeCredit (now : Datetime) (source : Subscription) : Int :=
  let remainingSeconds := max 0 ((source.currentPeriodEnd.getD now - now) / 1000000)
  remainingSeconds * source.priceSats source.billingTerm /
    (billingPeriodDays source.billingTerm * 86400)

/-- The wildcard claim an upgrade asks for. -/
def upgradeRequest (source : Subscription) (term : BillingTerm) : SubscriptionRequest where
  product := .relay
  domain := source.domain.map parentDomain
  managed := false
  transport := .tcp
  delivery := .framed
  billingTerm := term
  scope := .wildcard
  referralAddress := source.referralAddress

/-- `create_wildcard_upgrade`, the link of the target to its source. -/
def linkUpgrade (app : App) (i : Nat) (source : Subscription) (term : BillingTerm)
    (now : Datetime) : Db Nat := do
  let req := upgradeRequest source term
  match req.error app.cfg with
  | some message => .raise (.valueError message)
  | none =>
      let id ← stageSubscription app i source.userId req (some source.id) 1
      let target ← refreshSubscription i id
      flushSubscription i target
        { target with
          upgradeFromSubscriptionId := some source.id
          upgradeCreditSats := min (source.upgradeCredit now) (target.priceSats term)
          upgradeSourcePeriodEnd := source.currentPeriodEnd }
      commit i
      pure id

/-- `create_wildcard_upgrade`. -/
def createWildcardUpgrade (app : App) (i userId sourceId : Nat) (term : BillingTerm) : Db Nat := do
  reapExpiredDomainClaims app i
  lockUser i userId
  match ← lockSubscription i sourceId with
  | none => .raise (.valueError "subscription not found")
  | some source =>
      if source.userId ≠ userId then .raise (.valueError "subscription not found")
      else
        let now ← utcnow i
        if ¬ source.upgradeSource now then
          .raise (.valueError ("only an active customer-owned exact Relay subscription " ++
            "with remaining service can upgrade"))
        else if ← hasPendingUpgrade i source.id then
          .raise (.valueError "subscription already has a pending wildcard upgrade")
        else
          let openPayment ← openPayments i source.id
          if ¬ openPayment.isEmpty then
            .raise (.valueError "subscription has an open payment and cannot upgrade")
          else linkUpgrade app i source term now

/-! ## cancellation -/

/-- The values of a cancellation. -/
def Subscription.cancelled (now : Datetime) (sub : Subscription) : Subscription :=
  { (sub.domainReleased now).upgradeReleased with
    assignedIp := none
    assignedPort := none
    reservationExpiresAt := none
    reservationPaymentId := none
    resourceQuarantinedUntil := none }

/-- `cancel_pending_subscription`: every open payment is reconciled first. -/
def settleOpen (app : App) (i : Nat) : List Payment → Db Unit
  | [] => pure ()
  | payment :: rest => do
      if payment.status = .processing then
        .raise (.cancellationConflict "payment processing is in progress; wait before cancelling")
      else
        let reconciled ← checkAndSettlePayment app i payment
        if reconciled.status.isOpen then
          .raise (.cancellationConflict
            "a payment is still pending; complete it or wait for it to expire")
        else settleOpen app i rest

/-- The statement of `cancel_pending_subscription`. -/
def cancelStatement (i : Nat) (now : Datetime) (id : Nat) : Db Bool :=
  updateSubscription i id
    (fun g row => row.status = .pending ∧ ¬ openPaymentExists i id g)
    (Subscription.cancelled now)

/-- `cancel_pending_subscription`, under the account lock taken again. -/
def cancelLocked (i : Nat) (current : Subscription) : Db Unit := do
  if current.status ≠ .pending then
    .raise (.cancellationConflict
      "payment settled while cancellation was requested; subscription was not cancelled")
  else
    let now ← utcnow i
    if ← cancelStatement i now current.id then
      releaseLease i current
      commit i
    else
      rollback i
      .raise (.cancellationConflict
        "a payment is still pending; complete it or wait for it to expire")

/-- `cancel_pending_subscription`. -/
def cancelPendingSubscription (app : App) (i : Nat) (sub : Subscription) : Db Unit := do
  lockUser i sub.userId
  match ← getSubscription i sub.id with
  | none => .raise (.valueError "subscription not found")
  | some current =>
      if current.status ≠ .pending then
        .raise (.valueError "only pending subscriptions can be cancelled")
      else
        let payments ← openPayments i current.id
        settleOpen app i payments
        -- Payment reconciliation may have committed.
        lockUser i current.userId
        match ← getSubscription i current.id with
        | none => .raise (.valueError "subscription not found")
        | some current => cancelLocked i current

/-! ## payments -/

/-- What is asked of `create_payment`. -/
structure PaymentRequest where
  method : PaymentMethod
  billingTerm : Option BillingTerm
  agentOrderId : Option Nat
  automaticRenewal : Bool

/-- The checks of `create_payment` that read only the request and the
subscription. -/
def Subscription.paymentError (sub : Subscription) (term : BillingTerm) : Option String :=
  if sub.upgradeInitial ∧ term ≠ sub.billingTerm then
    some "wildcard upgrade payment must use the selected upgrade billing term"
  else if sub.product = .ip ∧ sub.delivery ≠ .wireguard then
    some "Blindport IP is available with WireGuard delivery only"
  else if sub.product = .ip ∧ (sub.billingTerm ≠ .yearly ∨ term ≠ .yearly) then
    some "WireGuard Blindport IP is available with yearly billing only"
  else none

/-- The payment an agent order already has. -/
def resumeOrder (app : App) (i : Nat) (sub : Subscription) (req : PaymentRequest)
    (term : BillingTerm) : Db (Option Payment) := do
  match req.agentOrderId with
  | none => pure none
  | some orderId =>
      let order ← query fun g => g.orders.find? (·.id = orderId)
      if order.all (·.subscriptionId ≠ sub.id) then
        .raise (.valueError "agent order does not belong to the subscription")
      else
        match (← selectPayments i (·.agentOrderId = some orderId)).head? with
        | none => pure none
        | some linked =>
            if linked.subscriptionId ≠ sub.id ∨ linked.method ≠ req.method ∨
                linked.billingTerm ≠ term then
              .raise (.valueError "agent order already has an incompatible payment")
            else if linked.status = .pending then
              let settled ← checkAndSettlePayment app i linked
              pure (some settled)
            else pure (some linked)

/-- The open payment a subscription already has. -/
def resumeOpen (app : App) (i : Nat) (req : PaymentRequest) (term : BillingTerm) :
    List Payment → Db (Option Payment)
  | [] => pure none
  | existing :: rest => do
      if req.agentOrderId.isSome ∧ existing.agentOrderId ≠ req.agentOrderId then
        .raise (.valueError "subscription already has an unrelated open payment")
      else if existing.status = .processing then .raise (.openPaymentConflict existing)
      else
        let existing ← checkAndSettlePayment app i existing
        if existing.status = .pending then
          if existing.method = req.method ∧ existing.billingTerm = term then pure (some existing)
          else .raise (.openPaymentConflict existing)
        else resumeOpen app i req term rest

/-- The account lock of `create_payment` and what is checked under it. -/
def lockAccount (app : App) (i : Nat) (sub : Subscription) (term : BillingTerm) :
    Db Subscription := do
  if term = .yearly ∧ ¬ app.cfg.billingYearlyEnabled then
    .raise (.valueError "yearly billing is not enabled")
  else
    lockUser i sub.userId
    let sub ← refreshSubscription i sub.id
    if ← hasPendingUpgrade i sub.id then
      .raise (.valueError "subscription has a pending wildcard upgrade")
    else
      let opened ← query fun g => (g.payments.rows i).filter fun p =>
        p.status.isOpen ∧ (g.subscriptions.get i p.subscriptionId).any (·.userId = sub.userId)
      let reserving ← selectSubscriptions i fun s =>
        s.userId = sub.userId ∧ s.reservationPaymentId.isSome
      let ids := opened.map (·.id) ++ reserving.filterMap (·.reservationPaymentId)
      if app.cfg.accountMaxOpenPayments ≤ ids.dedup.length then
        .raise (.accountLimit "account has reached the open payment/reservation limit")
      else pure sub

/-- The row `create_payment` inserts. -/
def PaymentRequest.row (cfg : Settings) (req : PaymentRequest) (sub : Subscription)
    (term : BillingTerm) (quote : Quote) (now : Datetime) (id : Nat) : Payment where
  id := id
  subscriptionId := sub.id
  agentOrderId := req.agentOrderId
  method := req.method
  status := .pending
  billingTerm := term
  periodDays := quote.periodDays
  amountSats := quote.amountSats
  markupSats := quote.markupSats
  servicePriceSats := quote.servicePriceSats
  discountSats := quote.discountSats
  stablecoinSurchargeSats := quote.surchargeSats
  stablecoinProvider := quote.provider
  invoice := none
  paymentHash := none
  invoiceIdempotencyKey := none
  invoiceProvider := none
  lnurlAttemptedAt := none
  lnurlVerifyUrl := none
  settlementVerifiedAt := none
  settlementReviewRequired := false
  lnurlLastCheckedAt := none
  referralAddress := sub.referralAddress
  referralCommissionBps := if sub.referralAddress.isSome then cfg.referralCommissionBps else 0
  nwcState := none
  nwcAttemptCount := 0
  nwcFirstAttemptAt := none
  nwcLastAttemptAt := none
  nwcNextAttemptAt := none
  nwcLastLookupAt := none
  nwcLeaseUntil := none
  nwcLeaseToken := none
  nwcErrorCode := none
  nwcPreimageHash := none
  nwcFeesPaidMsats := none
  nwcCredentialGeneration := none
  clinkState := none
  clinkAttemptCount := 0
  clinkAttemptedAt := none
  clinkLeaseUntil := none
  clinkLeaseToken := none
  clinkErrorCode := none
  clinkPreimageHash := none
  clinkCredentialGeneration := none
  clinkNwcFallback := false
  automaticRenewal := req.automaticRenewal
  automaticRenewalPeriodEnd := if req.automaticRenewal then sub.currentPeriodEnd else none
  createdAt := now
  paidAt := none
  expiresAt := none

/-- A payment that may not stand beside `row`: another open payment of the
subscription, or one of the same agent order. -/
def Payment.rivals (row p : Payment) : Bool :=
  (p.subscriptionId = row.subscriptionId ∧ p.status.isOpen) ∨
    (row.agentOrderId.isSome ∧ p.agentOrderId = row.agentOrderId)

/-- An undecided insert that may have been such a payment. -/
def Payment.mayRival (row p : Payment) : Bool :=
  p.subscriptionId = row.subscriptionId ∨
    (row.agentOrderId.isSome ∧ p.agentOrderId = row.agentOrderId)

/-- The insert of `create_payment`. -/
def insertPayment (i : Nat) (row : Nat → Payment) : Db Payment := do
  match ← .atomic fun _ g =>
      let id := g.payments.next
      (g.payments.clash i id (Payment.rivals (row id)) (Payment.mayRival (row id))).map fun taken =>
        if taken then (g, none)
        else ({ g with payments := g.payments.insert i row }, some (row id)) with
  | none => .raise .integrity
  | some payment => pure payment

/-- The wallet a method is paid with: the generations the payment records. -/
def walletGenerations (cfg : Settings) (i : Nat) (sub : Subscription) (method : PaymentMethod) :
    Db (Option Nat × Option Nat) := do
  match method with
  | .lightning | .stablecoinSwap => pure (none, none)
  | .nwc =>
      match ← getUser i sub.userId with
      | some user =>
          if user.hasNwc then pure (some user.nwcGeneration, none)
          else .raise (.valueError "user has no NWC wallet configured")
      | none => .raise (.valueError "user has no NWC wallet configured")
  | .clink =>
      match ← getUser i sub.userId with
      | some user =>
          if user.hasClink then
            pure (if user.hasNwc ∧ cfg.methodEnabled .nwc then some user.nwcGeneration else none,
              some user.clinkGeneration)
          else .raise (.valueError "user has no CLINK wallet configured")
      | none => .raise (.valueError "user has no CLINK wallet configured")
  | .cashu => .raise (.valueError "unsupported payment method")

/-- `create_payment`, from the staged invoice on. -/
def driveNewPayment (app : App) (i : Nat) (payment : Payment) : Db Payment := do
  let payment ← ensureLightningInvoice app i payment
  match payment.method with
  | .nwc => reconcileNwcPayment app (checkLnurlPayment app i app.depth) i payment
  | .clink => reconcileClinkPayment app (checkLnurlPayment app i app.depth) i payment
  | _ => pure payment

/-- `create_payment`, the body of its `try`. -/
def issuePayment (app : App) (i : Nat) (sub : Subscription) (upgradeInitial : Bool)
    (row : Nat → Payment) : Db Payment := do
  let payment ← insertPayment i row
  let sub ← reserveSubscriptionResource app.cfg i sub payment.id
  if payment.servicePriceSats - payment.discountSats = 0 then
    if upgradeInitial then
      finalizePayment app (checkLnurlPayment app i app.depth) i payment .none
    else .raise (.valueError "only a fully credited wildcard upgrade can have a zero payment")
  else
    let deadline := sub.paymentEligibilityDeadline app.cfg
    let invoiceExpiry ← boundedInvoiceExpiry app.cfg i deadline
    let (nwcGeneration, clinkGeneration) ← walletGenerations app.cfg i sub payment.method
    stageLightningInvoice app i payment deadline invoiceExpiry nwcGeneration clinkGeneration
    driveNewPayment app i payment

/-- `create_payment`, the payment that won a race for a unique index. -/
def adoptCompeting (app : App) (i : Nat) (sub : Subscription) (req : PaymentRequest)
    (term : BillingTerm) : Db Payment := do
  match ← linkedPayment with
  | some linked =>
      if linked.subscriptionId = sub.id ∧ linked.method = req.method ∧
          linked.billingTerm = term then
        if linked.status = .pending then checkAndSettlePayment app i linked else pure linked
      else .raise (.valueError "agent order already has an incompatible payment")
  | none =>
      match (← openPayments i sub.id).head? with
      | none => .raise .integrity
      | some competing =>
          if req.agentOrderId.isSome then
            .raise (.valueError "subscription already has an unrelated open payment")
          else if competing.status = .pending ∧ competing.method = req.method ∧
              competing.billingTerm = term then
            checkAndSettlePayment app i competing
          else .raise (.openPaymentConflict competing)
where
  /-- The payment of the agent order. -/
  linkedPayment : Db (Option Payment) :=
    match req.agentOrderId with
    | none => pure none
    | some orderId => do
        let linked ← selectPayments i (·.agentOrderId = some orderId)
        pure linked.head?

/-- `create_payment`, after the account lock. -/
def placePayment (app : App) (i : Nat) (sub : Subscription) (req : PaymentRequest)
    (term : BillingTerm) (upgradeInitial : Bool) : Db Payment := do
  let _ ← expireElapsedSubscriptions app.cfg i [sub]
  reapElapsedResourceHolds app i
  let sub ← refreshSubscription i sub.id
  requireDomainPaymentReady app.cfg i sub
  if sub.status = .cancelled then
    .raise (.valueError "cancelled subscription cannot be paid; create a new subscription")
  else
    match sub.quote app.cfg req.method term upgradeInitial with
    | .error message => .raise (.valueError message)
    | .ok quote =>
        let now ← utcnow i
        (issuePayment app i sub upgradeInitial (req.row app.cfg sub term quote now)).tryCatch
          fun e => match e with
            | .integrity => do
                rollback i
                adoptCompeting app i sub req term
            | e => do
                rollback i
                .raise e

/-- `create_payment`. -/
def createPayment (app : App) (i : Nat) (sub : Subscription) (req : PaymentRequest) :
    Db Payment := do
  if ¬ app.cfg.methodEnabled req.method then .raise (.disabledPaymentMethod req.method)
  else
    reapExpiredDomainClaims app i
    let sub ← refreshSubscription i sub.id
    let term := req.billingTerm.getD sub.billingTerm
    match sub.paymentError term with
    | some message => .raise (.valueError message)
    | none =>
        match ← resumeOrder app i sub req term with
        | some payment => pure payment
        | none =>
            let existing ← openPayments i sub.id
            match ← resumeOpen app i req term existing with
            | some payment => pure payment
            | none =>
                let locked ← lockAccount app i sub term
                placePayment app i locked req term sub.upgradeInitial

/-! ## the system -/

/-- A request or one round of a worker. -/
inductive Entry where
  | createPayment (subscriptionId : Nat) (req : PaymentRequest)
  | checkPayment (paymentId : Nat)
  | expirePayment (paymentId : Nat)
  | cancelSubscription (subscriptionId : Nat)
  | upgrade (userId subscriptionId : Nat) (term : BillingTerm)
  | createSubscription (userId : Nat) (req : SubscriptionRequest)
  | expireElapsed (userId : Nat)
  | reapDomains
  | reapHolds

/-- Load a subscription for a request. -/
def withSubscription (i id : Nat) (body : Subscription → Db Unit) : Db Unit := do
  match ← getSubscription i id with
  | some sub => body sub
  | none => pure ()

/-- Load a payment for a request. -/
def withPayment (i id : Nat) (body : Payment → Db Unit) : Db Unit := do
  match ← query (·.payments.get i id) with
  | some payment => body payment
  | none => pure ()

/-- What a request runs in session `i`. -/
def program (app : App) (i : Nat) : Entry → Db Unit
  | .createPayment id req =>
      withSubscription i id fun sub => do let _ ← createPayment app i sub req
  | .checkPayment id =>
      withPayment i id fun payment => do let _ ← checkAndSettlePayment app i payment
  | .expirePayment id =>
      withPayment i id fun payment => do let _ ← expirePendingPayment i payment
  | .cancelSubscription id => withSubscription i id (cancelPendingSubscription app i)
  | .upgrade userId id term => do let _ ← createWildcardUpgrade app i userId id term
  | .createSubscription userId req => do let _ ← createSubscription app i userId req
  | .expireElapsed userId => do
      let rows ← selectSubscriptions i (·.userId = userId)
      let _ ← expireElapsedSubscriptions app.cfg i rows
  | .reapDomains => reapExpiredDomainClaims app i
  | .reapHolds => reapElapsedResourceHolds app i

/-- The backend: any number of replicas, requests and worker rounds over one
database.  A session that ends, and one whose process dies, is rolled back. -/
def backend (app : App) : Conc.System Input World Error Entry where
  program := program app
  close := World.rollback

end Backend
