import Blindport.Backend.Billing
import Blindport.Backend.Session

/-!
# Blindport.Backend.Subscriptions

`services/subscriptions.py` and `services/ip_leases.py` as sequences of
statements: expiry, the reservation and release of scarce resources, and the
activation and renewal of a period.
-/

namespace Backend

open Conc

/-! ## leases -/

/-- `ip_leases.current_lease`. -/
def currentLease (i id : Nat) : Db (Option IPLease) :=
  query fun g => (g.leases.rows i).find? fun lease =>
    lease.subscriptionId = id ∧ lease.releasedAt.isNone

/-- The flush of a changed lease. -/
def updateLease (i id : Nat) (f : IPLease → IPLease) : Db Unit :=
  .atomic fun _ g => (g.leases.update i id (fun _ => true) f).map fun (t, _) =>
    ({ g with leases := t }, ())

/-- `ip_leases.quarantine`. -/
def quarantineLease (i : Nat) (sub : Subscription) (until_ : Datetime) : Db Unit := do
  if sub.product ≠ .ip then pure ()
  else match ← currentLease i sub.id with
    | none => pure ()
    | some lease =>
        let now ← utcnow i
        updateLease i lease.id (IPLease.quarantine now until_)

/-- `ip_leases.activate`. -/
def activateLease (i : Nat) (sub : Subscription) : Db Unit := do
  if sub.product ≠ .ip then pure ()
  else match ← currentLease i sub.id with
    | none => .raise (.valueError "Blindport IP lease is no longer available")
    | some lease =>
        if some lease.address ≠ sub.assignedIp then
          .raise (.valueError "Blindport IP lease is no longer available")
        else
          let now ← utcnow i
          updateLease i lease.id (IPLease.activate now)

/-- `ip_leases.release`. -/
def releaseLease (i : Nat) (sub : Subscription) : Db Unit := do
  if sub.product ≠ .ip then pure ()
  else match ← currentLease i sub.id with
    | none => pure ()
    | some lease =>
        let now ← utcnow i
        updateLease i lease.id (IPLease.release now)

/-- `session.refresh(sub)`. -/
def refreshSubscription (i id : Nat) : Db Subscription := do
  match ← getSubscription i id with
  | some sub => pure sub
  | none => .raise (.runtime "could not refresh instance")

/-! ## expiry -/

/-- The notice that goes with a change of a subscription's state. -/
def notifyOwner (cfg : Settings) (i : Nat) (sub : Subscription) : Db Unit := do
  match ← getUser i sub.userId with
  | none => pure ()
  | some user =>
      if cfg.reminderEmailEnabled ∧ ¬ user.isSuspended ∧ user.hasNotificationEmail ∧
          sub.currentPeriodEnd.isSome then
        queueNotification
      else pure ()

/-- The statement of `expire_elapsed_subscriptions` for one loaded row. -/
def expireSubscription (cfg : Settings) (i : Nat) (now : Datetime) (sub : Subscription) : Db Bool :=
  updateSubscription i sub.id
    (fun _ row => row.status = .active ∧ row.currentPeriodEnd = sub.currentPeriodEnd)
    (expiryValues cfg now sub)

/-- The lease of an expired subscription.  `quarantine_until` is assigned only
where the subscription has an address. -/
def quarantineExpired (cfg : Settings) (i : Nat) (now : Datetime) (sub : Subscription) : Db Unit :=
  if sub.product ≠ .ip then pure ()
  else if sub.assignedIp.isNone then .raise (.runtime "quarantine_until is not assigned")
  else quarantineLease i sub (quarantineUntil cfg now sub)

/-- The loop of `expire_elapsed_subscriptions`: whether some row was expired. -/
def expireEach (cfg : Settings) (i : Nat) (now : Datetime) : List Subscription → Db Bool
  | [] => pure false
  | sub :: rest => do
      if sub.elapsed now then
        if ← expireSubscription cfg i now sub then
          quarantineExpired cfg i now sub
          notifyOwner cfg i sub
          let _ ← expireEach cfg i now rest
          pure true
        else expireEach cfg i now rest
      else expireEach cfg i now rest

/-- Refresh every loaded row. -/
def refreshEach (i : Nat) : List Subscription → Db (List Subscription)
  | [] => pure []
  | sub :: rest => do
      let sub ← refreshSubscription i sub.id
      let rest ← refreshEach i rest
      pure (sub :: rest)

/-- `expire_elapsed_subscriptions`. -/
def expireElapsedSubscriptions (cfg : Settings) (i : Nat) (rows : List Subscription) :
    Db (List Subscription) := do
  let now ← utcnow i
  if ← expireEach cfg i now rows then
    commit i
    refreshEach i rows
  else pure rows

/-! ## reservations -/

/-- `release_reservation`: the object with its reservation given up, when
`payment_id` owns one. -/
def releaseReservation (i : Nat) (sub : Subscription) (pid : Nat) : Db (Option Subscription) := do
  if sub.status = .active ∨ sub.reservationPaymentId ≠ some pid ∨
      sub.reservationExpiresAt.isNone then
    pure none
  else
    releaseLease i sub
    let now ← utcnow i
    pure (some (sub.unreserved now))

/-- Two subscriptions that may not both have their assignment: the dedicated
address of two IP subscriptions, or one address, port and transport. -/
def Subscription.sameAssignment (a b : Subscription) : Bool :=
  (a.product = .ip ∧ b.product = .ip ∧ a.assignedIp.isSome ∧ b.assignedIp = a.assignedIp) ∨
    (a.assignedIp.isSome ∧ a.assignedPort.isSome ∧ b.assignedIp = a.assignedIp ∧
      b.assignedPort = a.assignedPort ∧ b.transport = a.transport)

/-- The assignments of `reserve_subscription_resource` for one candidate. -/
def Subscription.reserved (cfg : Settings) (now : Datetime) (pid : Nat) (ip : String)
    (port : Option Nat) (sub : Subscription) : Subscription :=
  { sub with
    assignedIp := some ip
    assignedPort := port
    reservationExpiresAt := some (now + seconds cfg.resourceReservationTtlSeconds)
    reservationPaymentId := some pid
    resourceQuarantinedUntil := none
    updatedAt := now }

/-- The lease `ip_leases.reserve` inserts. -/
def IPLease.reserved (now : Datetime) (sub : Subscription) (pid : Nat) (ip : String) (id : Nat) :
    IPLease where
  id := id
  subscriptionId := sub.id
  reservationPaymentId := some pid
  address := ip
  delivery := sub.delivery
  state := .reserved
  reservedAt := now
  activatedAt := none
  expiredAt := none
  quarantinedAt := none
  quarantineUntil := none
  releasedAt := none
  smtpEnabled := false
  smtpReviewedAt := none
  smtpRevokedAt := none
  updatedAt := now

/-- A lease that may not stand beside the lease of `ip` to `sub`. -/
def IPLease.excludes (sub : Subscription) (ip : String) (lease : IPLease) : Bool :=
  lease.releasedAt.isNone ∧ (lease.address = ip ∨ lease.subscriptionId = sub.id)

/-- `session.begin_nested` for one candidate. -/
def beginNested (i : Nat) (sub : Subscription) (ip : String) (port : Option Nat) : Db Unit :=
  call (fun _ => ()) fun _ => .tried i sub.id ip port

/-- The nested transaction of `reserve_subscription_resource` for one
candidate: `none` where a unique index refuses it. -/
def reserveCandidate (cfg : Settings) (i : Nat) (sub : Subscription) (pid : Nat) (ip : String)
    (port : Option Nat) : Db (Option Subscription) := do
  beginNested i sub ip port
  let now ← utcnow i
  let leasedAt ← utcnow i
  let assigned := sub.reserved cfg now pid ip port
  .atomic fun _ g =>
    let leaseClash :=
      if sub.product = .ip then
        g.leases.clash i g.leases.next (IPLease.excludes sub ip) (IPLease.excludes sub ip)
      else some false
    let rival := Subscription.sameAssignment assigned
    match g.subscriptions.clash i sub.id rival rival, leaseClash with
    | some false, some false =>
        (g.subscriptions.update i sub.id (fun _ => true) (Subscription.flush sub assigned)).map
          fun (t, _) =>
            ({ g with
              subscriptions := t
              leases :=
                if sub.product = .ip then g.leases.insert i (IPLease.reserved leasedAt sub pid ip)
                else g.leases },
              some assigned)
    | some _, some _ => some (g, none)
    | _, _ => none

/-- The candidate loop of `reserve_subscription_resource`. -/
def reserveFirst (cfg : Settings) (i pid : Nat) (noCapacity : String) :
    Subscription → List (String × Option Nat) → Db Subscription
  | _, [] => .raise (.noCapacity noCapacity)
  | sub, (ip, port) :: rest => do
      match ← reserveCandidate cfg i sub pid ip port with
      | some assigned => pure assigned
      | none =>
          let sub ← refreshSubscription i sub.id
          reserveFirst cfg i pid noCapacity sub rest

/-- The shared sockets in the order they are tried. -/
def portCandidates (ips : List String) (ports : List Nat) (start : Nat) :
    List (String × Option Nat) :=
  let raw := ips.length * ports.length
  (List.range raw).map fun offset =>
    let index := (start + offset) % raw
    (ips.getD (index / ports.length) "", some (ports.getD (index % ports.length) 0))

/-- `_held_port_assignment_count`. -/
def heldPortAssignmentCount (i : Nat) (transport : Transport) (ips : List String)
    (ports : List Nat) : Db Nat := do
  let held ← selectSubscriptions i fun sub =>
    sub.product = .port ∧ sub.transport = transport ∧ sub.assignedIp.any (· ∈ ips) ∧
      sub.assignedPort.any (· ∈ ports)
  pure held.length

/-- The statement of `reserve_subscription_resource` that claims an existing
hold for a renewal payment. -/
def claimHold (i : Nat) (sub : Subscription) (now : Datetime) : Db Bool :=
  updateSubscription i sub.id
    (fun _ row => row.status = .expired ∧ row.assignedIp = sub.assignedIp ∧
      row.assignedPort = sub.assignedPort ∧
      row.resourceQuarantinedUntil = sub.resourceQuarantinedUntil ∧
      row.resourceQuarantinedUntil.any (now < ·) ∧ row.updatedAt = sub.updatedAt ∧
      row.reservationPaymentId.isNone ∧ row.reservationExpiresAt.isNone)
    fun row => { row with updatedAt := now }

/-- The lease of a held IP subscription is its own. -/
def requireHeldLease (i : Nat) (sub : Subscription) : Db Unit := do
  if sub.product ≠ .ip then pure ()
  else match ← currentLease i sub.id with
    | none => .raise (.noCapacity "Blindport IP lease is no longer available")
    | some lease =>
        if some lease.address ≠ sub.assignedIp then
          .raise (.noCapacity "Blindport IP lease is no longer available")
        else pure ()

/-- The inventory of a product, as the candidates to try; the message is for
when there is none left. -/
def resourceCandidates (cfg : Settings) (i : Nat) (sub : Subscription) :
    Db (String × List (String × Option Nat)) := do
  match sub.product with
  | .ip =>
      let ips := match sub.delivery with
        | .wireguard => cfg.wireguardPublicIpsList
        | .framed => cfg.relayPublicIpsList
      pure ("no Blindport IP capacity", ips.map fun ip => (ip, none))
  | .port =>
      let ips := cfg.relaySharedIpsList
      let ports := match sub.transport with
        | .udp => cfg.relaySharedUdpPortRange
        | .tcp => cfg.relaySharedTcpPortRange
      let configured := match sub.transport with
        | .udp => cfg.portUdpCapacity
        | .tcp => cfg.portTcpCapacity
      let raw := ips.length * ports.length
      let held ← heldPortAssignmentCount i sub.transport ips ports
      if min raw configured ≤ held then .raise (.noCapacity "no Blindport Port capacity")
      else
        let random ← input Input.random
        let start := if min raw configured < raw then random % raw else 0
        pure ("no Blindport Port capacity", portCandidates ips ports start)
  | .relay => pure ("", [])

/-- `reserve_subscription_resource`: the object as it is afterwards. -/
def reserveSubscriptionResource (cfg : Settings) (i : Nat) (sub : Subscription) (pid : Nat) :
    Db Subscription := do
  if sub.status = .active ∨ sub.product = .relay then pure sub
  else if sub.status = .expired ∧ sub.assignedIp.isSome ∧ sub.resourceQuarantinedUntil.isSome then
    let now ← utcnow i
    if sub.resourceQuarantinedUntil.any (now < ·) ∧
        (sub.product = .ip ∨ (sub.product = .port ∧ sub.assignedPort.isSome)) ∧
        sub.reservationPaymentId.isNone ∧ sub.reservationExpiresAt.isNone then
      requireHeldLease i sub
      let now ← utcnow i
      if ← claimHold i sub now then refreshSubscription i sub.id
      else .raise (.noCapacity "held assignment changed before renewal payment")
    else .raise (.noCapacity (sub.product.value ++ " assignment is quarantined"))
  else if sub.assignedIp.isSome ∨ sub.reservationExpiresAt.isSome ∨
      sub.reservationPaymentId.isSome then
    .raise (.noCapacity (sub.product.value ++ " assignment is not yet reusable"))
  else
    let (noCapacity, candidates) ← resourceCandidates cfg i sub
    reserveFirst cfg i pid noCapacity sub candidates

/-! ## the period -/

/-- What `activate_subscription` raises before it assigns anything. -/
def Subscription.activationError (sub : Subscription) (pid : Nat) : Option Error :=
  if sub.product.scarce ∧ sub.reservationPaymentId ≠ some pid then
    some (.noCapacity (sub.product.value ++ " reservation is no longer available"))
  else if sub.product = .ip ∧ sub.assignedIp.isNone then
    some (.noCapacity "Blindport IP reservation is no longer available")
  else if sub.product = .port ∧ ¬ (sub.assignedIp.isSome ∧ sub.assignedPort.isSome) then
    some (.noCapacity "Blindport Port reservation is no longer available")
  else if sub.product = .relay ∧
      (sub.domain.isNone ∨ (¬ sub.domainIsManaged ∧ sub.domainVerifiedAt.isNone)) then
    some (.valueError "Blindport Relay domain ownership is not eligible for activation")
  else none

/-- The assignments of `activate_subscription`. -/
def activateSubscription (i : Nat) (sub : Subscription) (pid : Nat) (periodDays : Int) :
    Db Subscription := do
  match sub.activationError pid with
  | some e => .raise e
  | none =>
      if sub.product = .relay ∧ sub.relayPoolDomain.isNone then
        match ← input Input.poolDomain with
        | none => .raise (.noCapacity "no Blindport Relay pool configured")
        | some poolDomain =>
            let now ← utcnow i
            pure ({ sub with relayPoolDomain := some poolDomain }.activated now periodDays)
      else
        let now ← utcnow i
        pure (sub.activated now periodDays)

/-- The assignments of `renew_subscription`. -/
def renewSubscription (i : Nat) (sub : Subscription) (periodDays : Int) : Db Subscription := do
  let now ← utcnow i
  pure (sub.renewed now periodDays)

/-- `require_domain_payment_ready`. -/
def requireDomainPaymentReady (cfg : Settings) (i : Nat) (sub : Subscription) : Db Unit := do
  if sub.product ≠ .relay then pure ()
  else if sub.status = .cancelled ∨ sub.domain.isNone then
    .raise
      (.valueError "Blindport Relay domain expired and was released; create a new subscription")
  else
    let now ← utcnow i
    let late := (sub.domainPaymentEligibilityDeadline cfg).all (· ≤ now)
    if sub.status = .pending ∧ late then
      .raise (.valueError "Blindport Relay domain claim expired; create a new subscription")
    else if sub.status = .expired ∧ late then
      .raise (.valueError "Blindport Relay renewal grace expired; create a new subscription")
    else if ¬ sub.domainIsManaged ∧ sub.domainVerifiedAt.isNone then
      .raise (.valueError "domain ownership must be verified before payment")
    else pure ()

end Backend
