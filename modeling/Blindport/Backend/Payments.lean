import Mathlib.Algebra.Group.Int.Defs
import Blindport.Backend.Subscriptions

/-!
# Blindport.Backend.Payments

`services/payments.py`: invoices, the wallet state machines and settlement, as
sequences of statements.

`_finalize_payment` hands an LNURL payment to `_check_lnurl_payment`, which
calls the wallet state machines, which call `_finalize_payment`: the functions
on that circle take `_check_lnurl_payment` as the argument `recheck`, and
`checkLnurlPayment` ties the knot with the depth Python allows.

The wallet columns an object holds unsent travel with it as `unsent` and are
sent before the next statement of the session.
-/

namespace Backend

open Conc

/-- `_LND_BACKED_METHODS`. -/
def PaymentMethod.lndBacked : PaymentMethod → Bool
  | .lightning | .nwc | .clink | .stablecoinSwap => true
  | .cashu => false

/-- The wallet columns of the object go out before the next statement. -/
def sendUnsent (i : Nat) (payment : Payment) (unsent : Unsent) : Db Unit := do
  if unsent = .none then pure ()
  else
    let _ ← execute i payment.id (.flushNwc payment.nwcLeaseToken unsent)

/-! ## local expiry -/

/-- `_expire_payment`. -/
def expirePayment (i : Nat) (payment : Payment) : Db Payment := do
  if ← execute i payment.id .expire then
    releaseExpired i payment
    commit i
    reloadPayment i payment.id
  else
    rollback i
    reloadPayment i payment.id
where
  /-- The reservation of an expired payment. -/
  releaseExpired (i : Nat) (payment : Payment) : Db Unit := do
    match ← getSubscription i payment.subscriptionId with
    | none => pure ()
    | some sub =>
        match ← releaseReservation i sub payment.id with
        | some assigned => flushSubscription i sub assigned
        | none => pure ()

/-- `expire_pending_payment`. -/
def expirePendingPayment (i : Nat) (payment : Payment) : Db Payment := do
  let current ← reloadPayment i payment.id
  if current.status ≠ .pending then pure current else expirePayment i current

/-! ## invoices -/

/-- `_bounded_invoice_expiry`. -/
def boundedInvoiceExpiry (cfg : Settings) (i : Nat) (deadline : Option Datetime) :
    Db (Option Int) := do
  match deadline with
  | none => pure none
  | some deadline =>
      let now ← utcnow i
      let expiry := (deadline - now) / 1000000 - cfg.paymentExpirySafetySeconds
      if expiry < cfg.paymentMinPayableSeconds then
        .raise (.valueError
          "payment eligibility window is too short to create a payable invoice")
      else pure (some expiry)

/-- `_local_expiry`. -/
def localExpiry (i : Nat) (deadline : Option Datetime) (n : Int) : Db Datetime := do
  let now ← utcnow i
  pure (match deadline with
    | some deadline => min (now + seconds n) deadline
    | none => now + seconds n)

/-- `_stage_lightning_invoice`, with the wallet generations `create_payment`
gave the object before it. -/
def stageLightningInvoice (app : App) (i : Nat) (payment : Payment)
    (deadline : Option Datetime) (invoiceExpiry : Option Int)
    (nwcGeneration clinkGeneration : Option Nat) : Db Unit := do
  let configured :=
    if payment.method = .stablecoinSwap then app.cfg.stablecoinSwapInvoiceExpirySeconds
    else if app.cfg.lnurlAdapter then app.cfg.lnurlCheckoutSeconds
    else app.cfg.lndInvoiceExpirySeconds
  let requested := min configured ((invoiceExpiry.filter (· ≠ 0)).getD configured)
  let key ← input Input.uuid
  if app.cfg.lnurlAdapter then
    let expiresAt ← localExpiry i deadline requested
    let _ ← execute i payment.id
      (.stage (some .lnurl) key none expiresAt nwcGeneration clinkGeneration)
    commit i
  else
    match app.invoiceHash key with
    | none => .raise (.runtime "Lightning payment has an invalid invoice identity")
    | some hash =>
        let expiresAt ← localExpiry i deadline requested
        let _ ← execute i payment.id
          (.stage none key (some hash) expiresAt nwcGeneration clinkGeneration)
        commit i

/-- `_bind_invoice`. -/
def bindInvoice (app : App) (i : Nat) (payment : Payment) (invoice : Invoice) : Db Payment := do
  if some invoice.paymentHash ≠ payment.paymentHash then
    .raise (.runtime "provider invoice hash does not match payment outbox")
  else
    let now ← utcnow i
    match ← getSubscription i payment.subscriptionId with
    | none => .raise (.runtime "payment subscription disappeared")
    | some sub =>
        let providerDeadline := now + seconds invoice.expiresInSeconds
        let expiresAt := match sub.paymentEligibilityDeadline app.cfg with
          | some deadline => min providerDeadline deadline
          | none => providerDeadline
        if ← execute i payment.id
            (.bindInvoice invoice.paymentRequest invoice.paymentHash expiresAt) then
          commit i
          reloadPayment i payment.id
        else
          rollback i
          reloadPayment i payment.id

/-- The statement that stores an LNURL invoice; the payment hash is unique. -/
def storeLnurlInvoice (i pid : Nat) (invoice : Invoice) (expiresAt : Datetime) : Db Unit := do
  let rival (p : Payment) : Bool := p.paymentHash = some invoice.paymentHash
  let taken ← .atomic fun _ g => (g.payments.clash i pid rival rival).map fun b => (g, b)
  if taken then .raise .integrity
  else
    let _ ← execute i pid
      (.storeLnurl invoice.paymentRequest invoice.paymentHash invoice.verifyUrl expiresAt)

/-- `_ensure_lnurl_invoice`. -/
def ensureLnurlInvoice (i : Nat) (payment : Payment) : Db Payment := do
  match payment.expiresAt with
  | none => .raise (.paymentProvider "LNURL payment has no checkout deadline")
  | some deadline =>
      let now ← utcnow i
      if deadline ≤ now then expirePayment i payment
      else
        let now ← utcnow i
        let claimed ← execute i payment.id (.claimLnurl now)
        commit i
        if ¬ claimed then
          -- A crash or timeout proves nothing about creation. Never issue again.
          let now ← utcnow i
          let _ ← execute i payment.id (.touchLnurl now)
          commit i
          reloadPayment i payment.id
        else
          match ← call Input.lnurlInvoice fun _ => .lnurlCreate i payment.id with
          | none =>
              .raise (.paymentProvider
                "LNURL invoice creation failed; this attempt will not be retried")
          | some invoice =>
              storeLnurlInvoice i payment.id invoice (min deadline invoice.expiresAt)
              commit i
              let payment ← reloadPayment i payment.id
              match payment.expiresAt with
              | none => .raise (.runtime "expires_at is not comparable")
              | some expiresAt =>
                  let now ← utcnow i
                  if expiresAt ≤ now ∧ payment.status = .pending then expirePayment i payment
                  else pure payment

/-- The identity and the hash of a durable LND invoice agree. -/
def invoiceIdentityError (app : App) (payment : Payment) : Option String :=
  match payment.invoiceIdempotencyKey with
  | none => some "Lightning payment has no durable invoice identity"
  | some key =>
      match app.invoiceHash key with
      | none => some "Lightning payment has an invalid invoice identity"
      | some hash =>
          if payment.paymentHash ≠ some hash then
            some "Lightning payment hash does not match durable invoice identity"
          else none

/-- The part of `ensure_lightning_invoice` under the row lock. -/
def issueLndInvoice (app : App) (i : Nat) (payment : Payment) : Db Payment := do
  match ← getSubscription i payment.subscriptionId with
  | none => .raise (.runtime "payment subscription disappeared")
  | some _ =>
      match invoiceIdentityError app payment with
      | some message => .raise (.runtime message)
      | none =>
          let now ← utcnow i
          let remaining := payment.expiresAt.elim 0 fun deadline => (deadline - now) / 1000000
          if remaining ≤ 0 then
            match ← input Input.lookupInvoice with
            | none => .raise (.paymentProvider "Lightning invoice provider is unavailable")
            | some none =>
                (expirePayment i payment).tryCatch fun _ =>
                  .raise (.paymentProvider "Lightning invoice provider is unavailable")
            | some (some invoice) => bindInvoice app i payment invoice
          else
            match ← input Input.createInvoice with
            | none => .raise (.paymentProvider "Lightning invoice provider is unavailable")
            | some invoice => bindInvoice app i payment invoice

/-- `ensure_lightning_invoice`. -/
def ensureLightningInvoice (app : App) (i : Nat) (payment : Payment) : Db Payment := do
  if ¬ payment.method.lndBacked then pure payment
  else
    let payment ← reloadPayment i payment.id
    if payment.status ≠ .pending ∨ payment.invoice.isSome then pure payment
    else if payment.invoiceProvider = some .lnurl then ensureLnurlInvoice i payment
    else if app.cfg.lnurlAdapter then
      .raise (.paymentProvider
        "legacy invoices must be reconciled with their original LND provider")
    else
      let payment ← lockPayment i payment.id
      if payment.status ≠ .pending ∨ payment.invoice.isSome then pure payment
      else issueLndInvoice app i payment

/-- `_lnd_invoice_state`. -/
def lndInvoiceState (app : App) (i : Nat) (payment : Payment) : Db LightningInvoiceState := do
  if payment.paymentHash.isNone then
    .raise (.runtime "LND-backed payment has no payment hash")
  else if payment.invoiceProvider = some .lnurl then
    if payment.invoice.isNone ∨ payment.lnurlVerifyUrl.isNone then
      .raise (.paymentProvider "Lightning invoice provider is unavailable")
    else lnurlInvoiceState i payment
  else if app.cfg.lnurlAdapter then
    .raise (.paymentProvider "Lightning invoice provider is unavailable")
  else
    match ← input Input.invoiceState with
    | none => .raise (.paymentProvider "Lightning invoice provider is unavailable")
    | some state => pure state
where
  /-- `get_lnurl_adapter().invoice_state`. -/
  lnurlInvoiceState (i : Nat) (payment : Payment) : Db LightningInvoiceState := do
    match ← .atomic fun ω g => some (match ω.invoiceState with
        | some state => (g.note (.lnurlState i payment.id state), some state)
        | none => (g, none)) with
    | none => .raise (.paymentProvider "Lightning invoice provider is unavailable")
    | some state => pure state

/-! ## settlement -/

/-- The load of the subscription by `_finalize_payment`. -/
def loadSettling (i : Nat) (payment : Payment) : Db (Option Subscription) :=
  .atomic fun _ g => some (match g.subscriptions.get i payment.subscriptionId with
    | some sub => (g.note (.settling i payment.id sub), some sub)
    | none => (g, none))

/-- The flush of the subscription by `_finalize_payment`. -/
def extendSubscription (i pid : Nat) (loaded assigned : Subscription) : Db Unit :=
  .atomic fun _ g =>
    match g.subscriptions.get i loaded.id,
      g.subscriptions.update i loaded.id (fun _ => true) (Subscription.flush loaded assigned) with
    | some row, some (t, _) =>
        some (({ g with subscriptions := t } : World).note (.extending i pid row), ())
    | none, some _ => some (g, ())
    | _, none => none

/-- The host name without its first label. -/
def parentDomain (domain : String) : String :=
  String.ofList ((domain.toList.dropWhile (· ≠ '.')).drop 1)

/-- The source of a wildcard upgrade may still be replaced by its target. -/
def Subscription.upgradable (sub source : Subscription) : Bool :=
  source.userId = sub.userId ∧ source.product = .relay ∧ source.relayHostnameScope = .exact ∧
    (source.status = .active ∨ source.status = .expired) ∧ source.domain.isSome ∧
    ¬ source.domainIsManaged ∧ source.domain.map parentDomain = sub.domain ∧
    source.currentPeriodEnd = sub.upgradeSourcePeriodEnd

/-- The end of the source when the target of a wildcard upgrade settles. -/
def cancelUpgradeSource (i : Nat) (sub : Subscription) : Db Unit := do
  match sub.upgradeFromSubscriptionId, sub.upgradeInitial with
  | some id, true =>
      match ← lockSubscription i id with
      | none =>
          rollback i
          .raise (.valueError "wildcard upgrade source changed before settlement")
      | some source =>
          if sub.upgradable source then
            let now ← utcnow i
            flushSubscription i source (source.domainReleased now)
          else
            rollback i
            .raise (.valueError "wildcard upgrade source changed before settlement")
  | _, _ => pure ()

/-- `credit_settled_payment`. -/
def creditSettledPayment (i : Nat) (payment : Payment) : Db Unit := do
  match payment.referralCredit with
  | .error message => .raise (.valueError message)
  | .ok none => pure ()
  | .ok (some credit) =>
      match ← query (·.credits.get i credit.paymentId) with
      | some _ => pure ()
      | none =>
          .atomic fun _ g =>
            let cell := g.credits.cell credit.paymentId
            if cell.lockedByOther i then none
            else some
              ({ g with credits := g.credits.set credit.paymentId (cell.write i credit) }, ())

/-- The period a settled payment grants. -/
def grantPeriod (i : Nat) (payment : Payment) (sub : Subscription) : Db Subscription :=
  let sub := { sub with billingTerm := payment.billingTerm }
  if payment.isRenewal sub then renewSubscription i sub payment.periodDays
  else activateSubscription i sub payment.id payment.periodDays

/-- The end of `_finalize_payment`, from the loaded subscription on. -/
def settleSubscription (app : App) (i : Nat) (payment : Payment) (sub : Subscription) :
    Db Payment := do
  match payment.subscriptionError app.cfg sub with
  | some message =>
      rollback i
      .raise (.valueError message)
  | none =>
      let assigned ← grantPeriod i payment sub
      extendSubscription i payment.id sub assigned
      activateLease i assigned
      cancelUpgradeSource i sub
      notifyOwner app.cfg i assigned
      creditSettledPayment i payment
      commit i
      reloadPayment i payment.id

/-- `_finalize_payment` of a payment whose settlement may be granted. -/
def settlePayment (app : App) (i : Nat) (payment : Payment) (unsent : Unsent)
    (verifiedAt : Option Datetime) : Db Payment := do
  let paidAt ← utcnow i
  sendUnsent i payment unsent
  if ← execute i payment.id (.settle paidAt verifiedAt) then
    let payment ← reloadPayment i payment.id
    match payment.snapshotError with
    | some message =>
        rollback i
        .raise (.valueError message)
    | none =>
        match ← loadSettling i payment with
        | none =>
            rollback i
            .raise (.runtime "payment subscription disappeared")
        | some sub => settleSubscription app i payment sub
  else
    rollback i
    reloadPayment i payment.id

/-- `_finalize_payment(session, payment, PaymentStatus.PENDING)`: customer
wallet responses never substitute for merchant LUD-21 proof. -/
def finalizePayment (app : App) (recheck : Payment → Unsent → Db Payment) (i : Nat)
    (payment : Payment) (unsent : Unsent) : Db Payment :=
  if payment.invoiceProvider = some .lnurl then recheck payment unsent
  else settlePayment app i payment unsent none

/-! ## failed wallet payments -/

/-- `_queue_automatic_renewal_failure_notification`. -/
def queueRenewalFailure (cfg : Settings) (i : Nat) (payment : Payment) (sub : Subscription) :
    Db Unit := do
  if payment.automaticRenewal ∧ payment.automaticRenewalPeriodEnd.isSome ∧
      (sub.status = .active ∨ sub.status = .expired) ∧
      sub.currentPeriodEnd = payment.automaticRenewalPeriodEnd then
    match ← getUser i sub.userId with
    | none => pure ()
    | some user =>
        if cfg.reminderEmailEnabled ∧ ¬ user.isSuspended ∧ user.hasNotificationEmail ∧
            1 ≤ user.notificationEmailGeneration then
          queueNotification
        else pure ()
  else pure ()

/-- The subscription of a payment that failed for good. -/
def releaseFailed (cfg : Settings) (i : Nat) (payment : Payment) : Db Unit := do
  match ← getSubscription i payment.subscriptionId with
  | none => pure ()
  | some loaded =>
      let sub := { loaded with autoRenew := false }
      let released ← releaseReservation i sub payment.id
      flushSubscription i loaded (released.getD sub)
      queueRenewalFailure cfg i payment (released.getD sub)

/-- The statement of a failure and what follows it. -/
def failPayment (cfg : Settings) (i : Nat) (payment : Payment) (s : PaymentUpdate) :
    Db Payment := do
  if ← execute i payment.id s then
    releaseFailed cfg i payment
    commit i
    reloadPayment i payment.id
  else
    rollback i
    reloadPayment i payment.id

/-- A conditional statement that is committed when it hits. -/
def observe (i pid : Nat) (s : PaymentUpdate) : Db Payment := do
  if ← execute i pid s then
    commit i
    reloadPayment i pid
  else
    rollback i
    reloadPayment i pid

/-- `_save_nwc_observation`. -/
def saveNwcObservation (i : Nat) (payment : Payment) (unsent : Unsent) (state : NwcState)
    (code : Option String) : Db Payment :=
  let held := unsent.flush payment
  observe i payment.id (.saveNwc payment.nwcLeaseToken state code held.nwcLastLookupAt
    held.nwcPreimageHash held.nwcFeesPaidMsats)

/-- `_save_clink_observation`. -/
def saveClinkObservation (i : Nat) (payment : Payment) (preimageHash : Option String)
    (state : ClinkState) (code : Option String) : Db Payment :=
  observe i payment.id (.saveClink payment.clinkLeaseToken state code
    (preimageHash.or payment.clinkPreimageHash))

/-- The failing statement of `_release_failed_nwc_payment`. -/
def failNwcPayment (app : App) (i : Nat) (payment : Payment) (unsent : Unsent) (code : String)
    (requireLease : Bool) : Db Payment := do
  if requireLease ∧ payment.nwcLeaseToken.isNone then
    sendUnsent i payment unsent
    reloadPayment i payment.id
  else
    failPayment app.cfg i payment
      (.failNwc code (if requireLease then payment.nwcLeaseToken else none) unsent)

/-- `_release_failed_nwc_payment`. -/
def releaseFailedNwcPayment (app : App) (recheck : Payment → Unsent → Db Payment) (i : Nat)
    (payment : Payment) (unsent : Unsent) (code : String) (requireLease : Bool) : Db Payment := do
  if payment.paymentHash.isSome then
    match ← lndInvoiceState app i payment with
    | .settled => finalizePayment app recheck i payment unsent
    | .accepted => saveNwcObservation i payment unsent .pending none
    | _ => failNwcPayment app i payment unsent code requireLease
  else failNwcPayment app i payment unsent code requireLease

/-- The failing statement of `_release_failed_clink_payment`. -/
def failClinkPayment (app : App) (i : Nat) (payment : Payment) (code : String)
    (requireLease : Bool) : Db Payment := do
  if requireLease ∧ payment.clinkLeaseToken.isNone then reloadPayment i payment.id
  else
    failPayment app.cfg i payment
      (.failClink code (if requireLease then payment.clinkLeaseToken else none))

/-- `_release_failed_clink_payment`. -/
def releaseFailedClinkPayment (app : App) (recheck : Payment → Unsent → Db Payment) (i : Nat)
    (payment : Payment) (code : String) (requireLease : Bool) : Db Payment := do
  if payment.paymentHash.isSome then
    match ← lndInvoiceState app i payment with
    | .settled => finalizePayment app recheck i payment .none
    | .accepted => saveClinkObservation i payment none .pending none
    | _ => failClinkPayment app i payment code requireLease
  else failClinkPayment app i payment code requireLease

/-! ## NWC -/

/-- The reload that ends `_claim_nwc_lease`. -/
def reloadLeased (i pid : Nat) (token : String) : Db Payment := do
  match ← .atomic fun _ g => some (match g.payments.get i pid with
      | some row => (g.note (.nwcLeased i pid token row), some row)
      | none => (g, none)) with
  | some payment => pure payment
  | none => .raise (.runtime "payment disappeared")

/-- `_claim_nwc_lease`. -/
def claimNwcLease (app : App) (i : Nat) (payment : Payment) : Db (Option Payment) := do
  let (now, token) ← input fun ω => (ω.dbNow, ω.uuid)
  if ← execute i payment.id
      (.claimNwc now (now + seconds app.cfg.nwcPaymentLeaseSeconds) token) then
    commit i
    let payment ← reloadLeased i payment.id token
    pure (some payment)
  else
    rollback i
    pure none

/-- `_record_nwc_send_attempt`. -/
def recordNwcSendAttempt (app : App) (i : Nat) (payment : Payment) (unsent : Unsent) :
    Db (Option Payment) := do
  match payment.nwcLeaseToken with
  | none => pure none
  | some token =>
      let now ← input Input.dbNow
      let nextAttemptAt :=
        now + seconds (app.cfg.nwcRetryBaseSeconds * 2 ^ payment.nwcAttemptCount)
      if ← execute i payment.id (.recordNwc token now nextAttemptAt unsent) then
        commit i
        let payment ← reloadPayment i payment.id
        pure (some payment)
      else
        rollback i
        pure none

/-- `_verify_nwc_result`: the saved observation of an invalid result, or the
columns the result assigns. -/
def verifyNwcResult (app : App) (i : Nat) (payment : Payment) (unsent : Unsent)
    (returnedPaymentHash preimage : Option String) (feesPaidMsats : Option Int) :
    Db (Payment ⊕ Unsent) := do
  if returnedPaymentHash.isSome ∧ returnedPaymentHash ≠ payment.paymentHash then
    let saved ← saveNwcObservation i payment unsent .unknown (some "payment_hash_mismatch")
    pure (.inl saved)
  else
    let fees := feesPaidMsats.or unsent.feesPaidMsats
    match preimage with
    | none => pure (.inr { unsent with feesPaidMsats := fees })
    | some preimage =>
        match app.preimageHash preimage with
        | none =>
            let saved ← saveNwcObservation i payment unsent .unknown (some "invalid_preimage")
            pure (.inl saved)
        | some hash =>
            if some hash ≠ payment.paymentHash then
              let saved ← saveNwcObservation i payment unsent .unknown (some "preimage_mismatch")
              pure (.inl saved)
            else pure (.inr { unsent with preimageHash := some hash, feesPaidMsats := fees })

/-- `_nwc_user` and the decryption of the wallet credential: whether it is
available. -/
def walletCredential (i : Nat) (payment : Payment) : Db (User × Bool) := do
  match ← getSubscription i payment.subscriptionId with
  | none => .raise (.runtime "payment account disappeared")
  | some sub =>
      match ← getUser i sub.userId with
      | none => .raise (.runtime "payment account disappeared")
      | some user =>
          let available ← input Input.credential
          pure (user, available)

/-- After an observation was saved, LND alone decides. -/
def settleObserved (app : App) (recheck : Payment → Unsent → Db Payment) (i : Nat)
    (payment : Payment) : Db Payment := do
  match ← lndInvoiceState app i payment with
  | .settled => finalizePayment app recheck i payment .none
  | _ => pure payment

/-- `_reconcile_nwc_payment`, from the send attempt on. -/
def sendNwcPayment (app : App) (recheck : Payment → Unsent → Db Payment) (i : Nat)
    (payment : Payment) (unsent : Unsent) : Db Payment := do
  match ← recordNwcSendAttempt app i payment unsent with
  | none => reloadPayment i payment.id
  | some payment =>
      match ← call Input.nwcPay fun _ => .nwcPay i payment.id with
      | .crash => .raise .adapter
      | .error code retryable =>
          if ¬ retryable ∧ code ∈ definitivePayRejectionCodes then
            releaseFailedNwcPayment app recheck i payment .none code true
          else
            let _ ← saveNwcObservation i payment .none .unknown (some code)
            .raise (.paymentProvider "NWC payment provider is unavailable")
      | .result state preimage feesPaidMsats =>
          match ← verifyNwcResult app i payment .none none preimage feesPaidMsats with
          | .inl invalid => pure invalid
          | .inr unsent =>
              let payment ← saveNwcObservation i payment unsent state.value none
              settleObserved app recheck i payment

/-- `_reconcile_nwc_payment`, what a valid lookup result leads to. -/
def resolveNwcLookup (app : App) (recheck : Payment → Unsent → Db Payment) (i : Nat)
    (payment : Payment) (unsent : Unsent) (state : NwcLookupState) : Db Payment := do
  match state with
  | .settled | .pending =>
      let payment ← saveNwcObservation i payment unsent state.value none
      settleObserved app recheck i payment
  | .unknown | .unsupported => saveNwcObservation i payment unsent state.value none
  | .failed | .notFound =>
      if payment.retryBlocked then
        saveNwcObservation i payment unsent .unknown (some "settlement_unconfirmed")
      else
        let now ← utcnow i
        if payment.nwcNextAttemptAt.any (now < ·) then
          saveNwcObservation i payment unsent state.value none
        else if app.cfg.nwcMaxPaymentAttempts ≤ payment.nwcAttemptCount then
          releaseFailedNwcPayment app recheck i payment unsent "attempts_exhausted" true
        else sendNwcPayment app recheck i payment unsent

/-- `_reconcile_nwc_payment`, the lookup before a retry. -/
def lookupNwcPayment (app : App) (recheck : Payment → Unsent → Db Payment) (i : Nat)
    (payment : Payment) : Db Payment := do
  match ← call Input.nwcLookup (.nwcLookup i payment.id payment.nwcLeaseToken) with
  | .crash => .raise .adapter
  | .error code =>
      let now ← utcnow i
      let _ ← saveNwcObservation i payment ⟨some now, none, none⟩ .unknown (some code)
      .raise (.paymentProvider "NWC payment lookup is unavailable")
  | .result state paymentHash preimage feesPaidMsats =>
      let now ← utcnow i
      match ← verifyNwcResult app i payment ⟨some now, none, none⟩ paymentHash preimage
          feesPaidMsats with
      | .inl invalid => pure invalid
      | .inr unsent => resolveNwcLookup app recheck i payment unsent state

/-- `_reconcile_nwc_payment`, under the lease. -/
def driveNwcPayment (app : App) (recheck : Payment → Unsent → Db Payment) (i : Nat)
    (payment : Payment) : Db Payment := do
  let (_, available) ← walletCredential i payment
  if ¬ available then
    if payment.nwcAttemptCount = 0 then
      releaseFailedNwcPayment app recheck i payment .none "credential_unavailable" true
    else saveNwcObservation i payment .none .unknown (some "credential_unavailable")
  else if 0 < payment.nwcAttemptCount then lookupNwcPayment app recheck i payment
  else sendNwcPayment app recheck i payment .none

/-- The payment is driven by NWC. -/
def Payment.usesNwc (payment : Payment) : Bool :=
  payment.method = .nwc ∨ (payment.method = .clink ∧ payment.clinkNwcFallback)

/-- `_reconcile_nwc_payment`, the lease. -/
def leaseNwcPayment (app : App) (recheck : Payment → Unsent → Db Payment) (i : Nat)
    (payment : Payment) : Db Payment := do
  match ← claimNwcLease app i payment with
  | none => reloadPayment i payment.id
  | some payment => driveNwcPayment app recheck i payment

/-- `_reconcile_nwc_payment`. -/
def reconcileNwcPayment (app : App) (recheck : Payment → Unsent → Db Payment) (i : Nat)
    (payment : Payment) : Db Payment := do
  if ¬ payment.usesNwc ∨ payment.status ≠ .pending then pure payment
  else if payment.invoice.isNone ∨ payment.paymentHash.isNone then pure payment
  else
    match ← lndInvoiceState app i payment with
    | .settled => finalizePayment app recheck i payment .none
    | .canceled =>
        releaseFailedNwcPayment app recheck i payment .none "lnd_invoice_canceled" false
    | .accepted => saveNwcObservation i payment .none .pending none
    | .open =>
        if 0 < payment.nwcAttemptCount ∧ payment.nwcLastLookupAt.isSome then
          let now ← utcnow i
          if payment.nwcLastLookupAt.any
              (now < · + seconds app.cfg.nwcLookupIntervalSeconds) then
            reloadPayment i payment.id
          else leaseNwcPayment app recheck i payment
        else leaseNwcPayment app recheck i payment

/-! ## CLINK -/

/-- `_claim_clink_lease`. -/
def claimClinkLease (app : App) (i : Nat) (payment : Payment) : Db (Option Payment) := do
  let (now, token) ← input fun ω => (ω.dbNow, ω.uuid)
  if ← execute i payment.id
      (.claimClink now (now + seconds app.cfg.clinkPaymentLeaseSeconds) token) then
    commit i
    let payment ← reloadPayment i payment.id
    pure (some payment)
  else
    rollback i
    pure none

/-- `_record_clink_send_attempt`. -/
def recordClinkSendAttempt (i : Nat) (payment : Payment) : Db (Option Payment) := do
  match payment.clinkLeaseToken with
  | none => pure none
  | some token =>
      let now ← input Input.dbNow
      if ← execute i payment.id (.recordClink token now) then
        commit i
        let payment ← reloadPayment i payment.id
        pure (some payment)
      else
        rollback i
        pure none

/-- `_clink_can_fallback_to_nwc`. -/
def clinkCanFallbackToNwc (cfg : Settings) (user : User) (payment : Payment) : Bool :=
  cfg.methodEnabled .nwc ∧ user.hasNwc ∧ payment.nwcCredentialGeneration = some user.nwcGeneration

/-- `_start_nwc_fallback`. -/
def startNwcFallback (app : App) (recheck : Payment → Unsent → Db Payment) (i : Nat)
    (payment : Payment) (user : User) (code : String) : Db Payment := do
  if ¬ clinkCanFallbackToNwc app.cfg user payment then
    releaseFailedClinkPayment app recheck i payment code payment.clinkLeaseToken.isSome
  else if ← execute i payment.id (.startFallback code payment.clinkLeaseToken) then
    commit i
    let payment ← reloadPayment i payment.id
    reconcileNwcPayment app recheck i payment
  else
    rollback i
    reloadPayment i payment.id

/-- `_verify_clink_result`: the saved observation of an invalid preimage, or
the hash of a valid one. -/
def verifyClinkResult (app : App) (i : Nat) (payment : Payment) (preimage : Option String) :
    Db (Payment ⊕ Option String) := do
  match preimage with
  | none => pure (.inr none)
  | some preimage =>
      match app.preimageHash preimage with
      | none =>
          let saved ← saveClinkObservation i payment none .unknown (some "invalid_preimage")
          pure (.inl saved)
      | some hash =>
          if some hash ≠ payment.paymentHash then
            let saved ← saveClinkObservation i payment none .unknown (some "preimage_mismatch")
            pure (.inl saved)
          else pure (.inr (some hash))

/-- `_reconcile_clink_payment`, from the recorded attempt on. -/
def sendClinkPayment (app : App) (recheck : Payment → Unsent → Db Payment) (i : Nat)
    (payment : Payment) (user : User) : Db Payment := do
  let answer ← call Input.clinkPay (.clinkPay i payment.id)
  match answer.definitive with
  | some code => startNwcFallback app recheck i payment user code
  | none =>
      match answer with
      | .crash => .raise .adapter
      | .error code _ _ =>
          let _ ← saveClinkObservation i payment none .unknown (some code)
          .raise (.paymentProvider "CLINK payment provider is unavailable")
      | .result state preimage =>
          match ← verifyClinkResult app i payment preimage with
          | .inl invalid => pure invalid
          | .inr preimageHash =>
              let payment ← saveClinkObservation i payment preimageHash state.value none
              settleObserved app recheck i payment

/-- `_reconcile_clink_payment`, under the lease. -/
def driveClinkPayment (app : App) (recheck : Payment → Unsent → Db Payment) (i : Nat)
    (payment : Payment) : Db Payment := do
  let (user, available) ← walletCredential i payment
  if ¬ available then
    releaseFailedClinkPayment app recheck i payment "credential_unavailable" true
  else
    match ← recordClinkSendAttempt i payment with
    | none => reloadPayment i payment.id
    | some payment => sendClinkPayment app recheck i payment user

/-- `_reconcile_clink_payment`. -/
def reconcileClinkPayment (app : App) (recheck : Payment → Unsent → Db Payment) (i : Nat)
    (payment : Payment) : Db Payment := do
  if payment.method ≠ .clink ∨ payment.status ≠ .pending then pure payment
  else if payment.invoice.isNone ∨ payment.paymentHash.isNone then pure payment
  else
    match ← lndInvoiceState app i payment with
    | .settled => finalizePayment app recheck i payment .none
    | .canceled => releaseFailedClinkPayment app recheck i payment "lnd_invoice_canceled" false
    | .accepted => saveClinkObservation i payment none .pending none
    | .open =>
        if payment.clinkNwcFallback then reconcileNwcPayment app recheck i payment
        -- CLINK v1 has no lookup operation or mandatory idempotency.
        else if 0 < payment.clinkAttemptCount then reloadPayment i payment.id
        else
          match ← claimClinkLease app i payment with
          | none => reloadPayment i payment.id
          | some payment => driveClinkPayment app recheck i payment

/-! ## LNURL -/

/-- `_check_lnurl_payment`, for a settlement that may no longer be granted. -/
def reviewLnurlPayment (i : Nat) (payment : Payment) : Db Payment := do
  let payment ← expireOpen i payment
  let now ← utcnow i
  let _ ← execute i payment.id (.review now)
  commit i
  reloadPayment i payment.id
where
  /-- Expire the payment if it is still pending. -/
  expireOpen (i : Nat) (payment : Payment) : Db Payment :=
    if payment.status = .pending then expirePayment i payment else pure payment

/-- `_check_lnurl_payment`, under the row lock after a settled verification. -/
def settleLnurlPayment (app : App) (i : Nat) (payment : Payment) : Db Payment := do
  let now ← utcnow i
  if payment.status = .pending ∧ payment.expiresAt.any (now < ·) then
    let verifiedAt ← utcnow i
    (settlePayment app i payment .none (some verifiedAt)).tryCatch fun e =>
      if e.isValueError then do
        -- A reservation or domain may have ceased to be eligible. Preserve the
        -- receipt without granting capacity or commission twice.
        rollback i
        let payment ← lockPayment i payment.id
        reviewLnurlPayment i payment
      else .raise e
  else reviewLnurlPayment i payment

/-- `_check_lnurl_payment`, after an unsettled verification. -/
def driveLnurlPayment (app : App) (recheck : Payment → Unsent → Db Payment) (i : Nat)
    (payment : Payment) : Db Payment := do
  let now ← utcnow i
  if payment.status = .pending ∧ payment.expiresAt.any (· ≤ now) then expirePayment i payment
  else
    rollback i
    let payment ← reloadPayment i payment.id
    if payment.status = .pending ∧ payment.method = .nwc ∧ app.cfg.methodEnabled .nwc then
      reconcileNwcPayment app recheck i payment
    else if payment.status = .pending ∧ payment.method = .clink ∧ app.cfg.methodEnabled .clink then
      reconcileClinkPayment app recheck i payment
    else pure payment

/-- `_check_lnurl_payment`, from the throttle on. -/
def verifyLnurlPayment (app : App) (recheck : Payment → Unsent → Db Payment) (i : Nat)
    (payment : Payment) : Db Payment := do
  if payment.paymentHash.isNone ∨ payment.lnurlVerifyUrl.isNone then
    .raise (.paymentProvider "LNURL invoice verification data is incomplete")
  else
    let now ← utcnow i
    let claimed ← execute i payment.id (.throttleLnurl now)
    commit i
    if ¬ claimed then reloadPayment i payment.id
    else
      let state ← lndInvoiceState.lnurlInvoiceState i payment
      let payment ← lockPayment i payment.id
      if payment.status = .paid ∨ payment.settlementReviewRequired then pure payment
      else if state = .settled then settleLnurlPayment app i payment
      else driveLnurlPayment app recheck i payment

/-- `_check_lnurl_payment`. -/
def checkLnurlPayment (app : App) (i : Nat) : Nat → Payment → Unsent → Db Payment
  | 0, _, _ => .raise .recursion
  | depth + 1, payment, unsent => do
      sendUnsent i payment unsent
      let payment ← reloadPayment i payment.id
      if payment.status = .paid ∨ payment.settlementReviewRequired then pure payment
      else if payment.invoice.isSome then
        verifyLnurlPayment app (checkLnurlPayment app i depth) i payment
      else
        let payment ← ensureLightningInvoice app i payment
        if payment.invoice.isNone then pure payment
        else verifyLnurlPayment app (checkLnurlPayment app i depth) i payment

/-! ## polling -/

/-- `check_and_settle_payment`, for an invoice that is paid by hand. -/
def pollInvoice (app : App) (i : Nat) (payment : Payment) : Db Payment := do
  if app.cfg.lnurlAdapter then
    .raise (.paymentProvider "Lightning invoice provider is unavailable")
  else
    match ← input fun ω => if payment.paymentHash.isSome then ω.invoicePaid else some false with
    | none => .raise (.paymentProvider "Lightning invoice provider is unavailable")
    | some true =>
        finalizePayment app (checkLnurlPayment app i app.depth) i payment .none
    | some false =>
        let now ← utcnow i
        if payment.expiresAt.any (· ≤ now) then expirePayment i payment
        else reloadPayment i payment.id

/-- `check_and_settle_payment`. -/
def checkAndSettlePayment (app : App) (i : Nat) (payment : Payment) : Db Payment := do
  if ¬ payment.method.lndBacked then pure payment
  else if payment.invoiceProvider = some .lnurl then
    checkLnurlPayment app i app.depth payment .none
  else if payment.method ≠ .stablecoinSwap ∧ ¬ app.cfg.methodEnabled payment.method then
    .raise (.disabledPaymentMethod payment.method)
  else if payment.status ≠ .pending then pure payment
  else
    let payment ← ensureLightningInvoice app i payment
    if payment.status ≠ .pending then pure payment
    else if payment.method = .nwc then
      reconcileNwcPayment app (checkLnurlPayment app i app.depth) i payment
    else if payment.method = .clink then
      reconcileClinkPayment app (checkLnurlPayment app i app.depth) i payment
    else pollInvoice app i payment

end Backend
