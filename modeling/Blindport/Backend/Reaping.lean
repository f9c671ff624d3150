import Blindport.Backend.Payments

/-!
# Blindport.Backend.Reaping

`services/subscriptions.py`: the two reapers.  Both settle or expire the open
payment of what they are about to release first, and both commit after every
row they change.
-/

namespace Backend

open Conc

/-- The subscription has an open payment, as session `i` sees it. -/
def openPaymentExists (i id : Nat) (g : World) : Bool :=
  (g.payments.rows i).any fun p => p.subscriptionId = id ∧ p.status.isOpen

/-- Run a reconciliation whose failure is logged and rolled back: whether it
succeeded. -/
def attempt {α : Type} (i : Nat) (p : Db α) : Db Bool :=
  (do let _ ← p; pure true).tryCatch fun _ => do
    rollback i
    pure false

/-! ## domain claims -/

/-- `_reconcile_domain_payment`. -/
def reconcileDomainPayment (app : App) (i : Nat) (payment : Payment) : Db Payment := do
  if payment.status = .processing then pure payment
  else if payment.method.lndBacked then checkAndSettlePayment app i payment
  else expirePendingPayment i payment

/-- `_domain_claim_ttl`. -/
def domainClaimTtl (cfg : Settings) (managed : Bool) : Int :=
  seconds
    (if managed then cfg.relayManagedDomainClaimTtlSeconds else cfg.relayDomainClaimTtlSeconds)

/-- Run a conditional update for every row: whether one of them hit. -/
def updateEach (f : Subscription → Db Bool) : List Subscription → Db Bool
  | [] => pure false
  | sub :: rest => do
      let hit ← f sub
      let more ← updateEach f rest
      pure (hit || more)

/-- Commit if something was changed. -/
def commitIf (i : Nat) (changed : Bool) : Db Unit := if changed then commit i else pure ()

/-- A pending claim without a deadline gets one. -/
def initializeClaim (cfg : Settings) (i : Nat) (now : Datetime) (sub : Subscription) : Db Bool :=
  updateSubscription i sub.id
    (fun _ row => row.status = .pending ∧ row.domain.isSome ∧ row.domainClaimExpiresAt.isNone)
    fun row =>
      { row with
        domainClaimExpiresAt := some (sub.createdAt + domainClaimTtl cfg sub.domainIsManaged)
        updatedAt := now }

/-- An expired claim without a renewal deadline gets one, anchored to the
recorded period end. -/
def initializeGrace (cfg : Settings) (i : Nat) (now : Datetime) (sub : Subscription) : Db Bool :=
  updateSubscription i sub.id
    (fun _ row => row.status = .expired ∧ row.domain.isSome ∧
      row.domainRenewalGraceExpiresAt.isNone)
    fun row =>
      { row with
        domainRenewalGraceExpiresAt :=
          some (sub.currentPeriodEnd.getD sub.updatedAt + seconds cfg.relayRenewalGraceSeconds)
        updatedAt := now }

/-- A domain claim whose deadline has passed. -/
def Subscription.claimElapsed (now : Datetime) (sub : Subscription) : Bool :=
  (sub.status = .pending ∧ sub.domainClaimExpiresAt.any (· ≤ now)) ∨
    (sub.status = .expired ∧ sub.domainRenewalGraceExpiresAt.any (· ≤ now))

/-- The release statement of `reap_expired_domain_claims`. -/
def releaseClaim (i : Nat) (now : Datetime) (current : Subscription) : Db Bool :=
  updateSubscription i current.id
    (fun g row => row.status = current.status ∧ row.domain.isSome ∧ row.claimElapsed now ∧
      ¬ openPaymentExists i current.id g)
    fun row => (row.domainReleased now).upgradeReleased

/-- `reap_expired_domain_claims`, one candidate after its payment. -/
def releaseElapsedClaim (i : Nat) (now : Datetime) (id : Nat) : Db Bool := do
  match ← getSubscription i id with
  | none => pure false
  | some current =>
      if current.domain.isSome ∧ (current.status = .pending ∨ current.status = .expired) then
        if ← releaseClaim i now current then
          commit i
          pure true
        else
          rollback i
          pure false
      else pure false

/-- `reap_expired_domain_claims`, one candidate. -/
def reapClaim (app : App) (i : Nat) (now : Datetime) (sub : Subscription) : Db Bool := do
  match (← openPayments i sub.id).head? with
  | none => releaseElapsedClaim i now sub.id
  | some payment =>
      if payment.status = .processing then pure false
      else if ← attempt i (reconcileDomainPayment app i payment) then
        releaseElapsedClaim i now sub.id
      else pure false

/-- `reap_expired_domain_claims`. -/
def reapExpiredDomainClaims (app : App) (i : Nat) : Db Unit := do
  let now ← utcnow i
  let elapsedActive ← selectSubscriptions i fun sub =>
    sub.product = .relay ∧ sub.status = .active ∧ sub.currentPeriodEnd.all (· ≤ now)
  let _ ← expireElapsedSubscriptions app.cfg i elapsedActive
  let pending ← selectSubscriptions i fun sub =>
    sub.product = .relay ∧ sub.status = .pending ∧ sub.domain.isSome ∧
      sub.domainClaimExpiresAt.isNone
  let initialized ← updateEach (initializeClaim app.cfg i now) pending
  commitIf i initialized
  let expired ← selectSubscriptions i fun sub =>
    sub.product = .relay ∧ sub.status = .expired ∧ sub.domain.isSome ∧
      sub.domainRenewalGraceExpiresAt.isNone
  let initialized ← updateEach (initializeGrace app.cfg i now) expired
  commitIf i initialized
  let candidates ← selectSubscriptions i fun sub =>
    sub.product = .relay ∧ sub.domain.isSome ∧ sub.claimElapsed now
  let _ ← updateEach (reapClaim app i now) candidates

/-! ## scarce resources -/

/-- A hold without the assignment it is for. -/
def Subscription.unassigned (sub : Subscription) : Bool :=
  sub.assignedIp.isNone ∨ (sub.product = .port ∧ sub.assignedPort.isNone)

/-- `reap_elapsed_resource_holds`: the shorter hold of an old installation is
extended to the renewal opportunity. -/
def extendHold (i : Nat) (now : Datetime) (sub : Subscription) (renewalEnd : Datetime) :
    Db Unit := do
  if ← updateSubscription i sub.id
      (fun _ row => row.status = .expired ∧
        row.resourceQuarantinedUntil = sub.resourceQuarantinedUntil)
      (fun row => { row with resourceQuarantinedUntil := some renewalEnd, updatedAt := now }) then
    extendLease i sub renewalEnd
    commit i
  else rollback i
where
  /-- The lease of the extended hold. -/
  extendLease (i : Nat) (sub : Subscription) (renewalEnd : Datetime) : Db Unit := do
    if sub.product ≠ .ip then pure ()
    else match ← currentLease i sub.id with
      | none => pure ()
      | some lease =>
          if some lease.address = sub.assignedIp then
            updateLease i lease.id fun row => { row with quarantineUntil := some renewalEnd }
          else pure ()

/-- `reap_elapsed_resource_holds`: the statement that releases a hold. -/
def releaseHold (i : Nat) (now : Datetime) (sub : Subscription) : Db Bool :=
  updateSubscription i sub.id
    (fun g row => row.status = .expired ∧
      row.resourceQuarantinedUntil = sub.resourceQuarantinedUntil ∧
      row.resourceQuarantinedUntil.any (· ≤ now) ∧ row.updatedAt = sub.updatedAt ∧
      ¬ openPaymentExists i sub.id g)
    fun row =>
      { row with
        assignedIp := none
        assignedPort := none
        resourceQuarantinedUntil := none
        updatedAt := now }

/-- `reap_elapsed_resource_holds`, one hold after its payment. -/
def reapHold (i : Nat) (now deadline : Datetime) (id : Nat) : Db Unit := do
  let sub ← refreshSubscription i id
  if sub.status ≠ .expired ∨ sub.unassigned then pure ()
  else match sub.currentPeriodEnd with
    | none => pure ()
    | some periodEnd =>
        if deadline < periodEnd + days 7 then extendHold i now sub (periodEnd + days 7)
        else if now < deadline then pure ()
        else
          let sub ← refreshSubscription i id
          if ← releaseHold i now sub then
            releaseLease i sub
            commit i
          else rollback i

/-- The hold is neither elapsed nor shorter than the renewal opportunity. -/
def Subscription.holdLasts (now deadline : Datetime) (sub : Subscription) : Bool :=
  now < deadline ∧
    (sub.currentPeriodEnd.all (· + days 7 ≤ deadline) ∨ sub.unassigned)

/-- `reap_elapsed_resource_holds`, one hold. -/
def reapQuarantine (app : App) (i : Nat) (now : Datetime) (sub : Subscription) : Db Unit := do
  match sub.resourceQuarantinedUntil with
  | none => pure ()
  | some deadline =>
      if sub.status ≠ .expired ∨ sub.holdLasts now deadline then pure ()
      else if now < deadline then reapHold i now deadline sub.id
      else
        match (← openPayments i sub.id).head? with
        | none => reapHold i now deadline sub.id
        | some payment =>
            if payment.status = .processing then pure ()
            else if ← attempt i (checkAndSettlePayment app i payment) then
              reapHold i now deadline sub.id
            else pure ()

/-- A reservation no payment owns. -/
def releaseOrphan (i : Nat) (now : Datetime) (sub : Subscription) : Db Unit := do
  releaseLease i sub
  flushSubscription i sub
    { sub with
      assignedIp := none, assignedPort := none, reservationExpiresAt := none, updatedAt := now }
  commit i

/-- `reap_elapsed_resource_holds`, one reservation of a payment. -/
def reapOwned (app : App) (i : Nat) (sub : Subscription) (pid : Nat) : Db Unit := do
  match ← query (·.payments.get i pid) with
  | none => releaseOwned
  | some payment =>
      match payment.status with
      | .paid | .expired | .failed => releaseOwned
      | .processing => pure ()
      | .pending =>
          (do let _ ← checkAndSettlePayment app i payment).tryCatch fun e =>
            match e with
            | .disabledPaymentMethod _ => rollback i
            | e => .raise e
where
  /-- The reservation of a payment that has ended. -/
  releaseOwned : Db Unit := do
    match ← releaseReservation i sub pid with
    | some assigned =>
        flushSubscription i sub assigned
        commit i
    | none => pure ()

/-- `reap_elapsed_resource_holds`, one reservation. -/
def reapReservation (app : App) (i : Nat) (now : Datetime) (sub : Subscription) : Db Unit := do
  if sub.reservationExpiresAt.all (now < ·) then pure ()
  else match sub.reservationPaymentId with
    | none => releaseOrphan i now sub
    | some pid => reapOwned app i sub pid

/-- `reap_elapsed_resource_holds`. -/
def reapElapsedResourceHolds (app : App) (i : Nat) : Db Unit := do
  let now ← utcnow i
  let quarantined ← selectSubscriptions i (·.resourceQuarantinedUntil.isSome)
  .forEach quarantined (reapQuarantine app i now)
  let reservations ← selectSubscriptions i (·.reservationExpiresAt.isSome)
  .forEach reservations (reapReservation app i now)

end Backend
