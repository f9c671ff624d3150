import Blindport.Data.Except
import Blindport.Conc.Machine
import Blindport.Entitlement.Verify
import Blindport.Relay.Accounting

/-!
# Blindport.Relay.Reauthorization

`main.go` and `offline.go` of `blindport-relay`: an open tunnel is authorized again at
every tick of `watchAuthorization`.  The answers of the resolver and the readings of
the clock are the events of the machine, in any order.

`Confirms` is what a successful answer has to say, and `lastConfirmed` the time of the
last one that says it.  `reauthorization` is the result: a tunnel that is open after a
tick was confirmed less than the maximum staleness ago, or an outage is going on and
its offline entitlement verifies at that instant.
-/

namespace Relay.Reauthorization

open Protocol Entitlement

/-! ## the resolver -/

/-- `relayauth.ErrorKind`. -/
inductive ErrorKind where
  | denied
  | secret
  | infrastructure
  | protocol
deriving DecidableEq

/-- What `Resolve` fails with; `none` is an error that is no `relayauth.Error`. -/
structure ResolveError where
  kind : Option ErrorKind
  status : Nat := 0
deriving DecidableEq

/-- `IsKind`. -/
def ResolveError.isKind (err : ResolveError) (kind : ErrorKind) : Bool := err.kind = some kind

/-- `relayauth.PortLease`. -/
structure PortLease where
  assignedIP : String
  assignedPort : UInt16
  transport : String
deriving DecidableEq

/-- `relayauth.AuthorizedRelayClaim`. -/
structure AuthorizedRelayClaim where
  domain : String
  scope : HostnameScope
deriving DecidableEq

/-- `relayauth.Resolution`, with Go's zero values. -/
structure Resolution where
  accountID : String := ""
  subscriptionID : String := ""
  subscriptionAuthoritative : Bool := false
  userID : Int := 0
  ips : List String := []
  relayDomains : List String := []
  relayClaims : List AuthorizedRelayClaim := []
  portLeases : List PortLease := []
deriving DecidableEq

/-- The endpoints of `Resolve`, newest first. -/
inductive Endpoint where
  | v3
  | v2
  | v1
deriving DecidableEq

/-- `Resolve`, where `post` is what `postJSON` gets from an endpoint. -/
def resolve (post : Endpoint → Except ResolveError Resolution) (claim : Claim) :
    Except ResolveError Resolution :=
  match post .v3 with
  | .ok out => .ok { out with subscriptionAuthoritative := true }
  | .error err =>
      if err.kind = none ∨ err.status ≠ 404 then .error err
      else if claim.scope = .wildcard then .error { kind := some .denied, status := 404 }
      else
        match post .v2 with
        | .ok out => .ok { out with subscriptionAuthoritative := false }
        | .error err =>
            if err.kind = none ∨ err.status ≠ 404 then .error err
            else
              match post .v1 with
              | .ok out => .ok { out with subscriptionAuthoritative := false }
              | .error err => .error err

/-! ## claims -/

/-- `relayClaimAllowed`. -/
def relayClaimAllowed (lib : GoJson) (res : Resolution) (claim : Claim) : Bool :=
  let want := lib.go.toLower claim.domain
  (claim.scope = .exact && res.relayDomains.any fun domain => lib.go.toLower domain == want) ||
    res.relayClaims.any fun authorized =>
      let candidate : Claim :=
        { kind := .relay, domain := authorized.domain, scope := authorized.scope }
      validateClaim lib.go (some candidate) = .ok () && candidate.scope == claim.scope &&
        candidate.domain == want

/-- `claimAllowed`. -/
def claimAllowed (lib : GoJson) (res : Resolution) (c : Claim) : Bool :=
  match c.kind with
  | .ip => res.ips.any (· == c.ip)
  | .port => res.portLeases.any fun lease =>
      lease.assignedIP == c.ip && lease.assignedPort == c.port &&
        lease.transport == c.transport.text
  | .relay => relayClaimAllowed lib res c
  | .unknown _ => false

/-! ## identities -/

/-- `parseCanonicalUUID`. -/
def parseCanonicalUUID (value : String) : Option Uuid :=
  if Uuid.canonical value then
    let nibbles := (value.toList.filterMap Hextet.value?).map (Fin.ofNat 16)
    if h : nibbles.length = 32 then some ⟨nibbles, h⟩ else none
  else none

/-- The array of sixteen zeros. -/
def zeroUUID : Uuid := ⟨List.replicate 32 0, Uuid.length_zeros⟩

/-- `clientIdentityKind`. -/
inductive ClientIdentityKind where
  | account
  | user
deriving DecidableEq

/-- `clientIdentity`. -/
structure ClientIdentity where
  kind : ClientIdentityKind
  accountID : Uuid := zeroUUID
  userID : Int := 0
  instanceID : Uuid := zeroUUID
  clientPublicKey : List UInt8 := []
  offlineV2 : Bool := false
deriving DecidableEq

/-- `matchesResolution`. -/
def ClientIdentity.matchesResolution (i : ClientIdentity) (res : Resolution) : Bool :=
  match i.kind with
  | .account => parseCanonicalUUID res.accountID = some i.accountID
  | .user => res.userID > 0 ∧ res.userID = i.userID

/-! ## the offline entitlement -/

/-- `offlineEntitlementConfig`. -/
structure OfflineEntitlementConfig where
  keyring : List (String × List UInt8)
  maxGrace : Int
  edgeID : String

/-- `offlineAuthorization`. -/
structure OfflineAuthorization where
  artifact : String
  identity : ClientIdentity

/-- `verifyOfflineEntitlement`. -/
def verifyOfflineEntitlement (ed : Ed25519) (lib : GoJson)
    (offlineEntitlements : Option OfflineEntitlementConfig) (artifact : String) (claim : Claim)
    (identity : ClientIdentity) (now : Int) : Except String Verified :=
  match offlineEntitlements, identity.offlineV2 with
  | some config, true => do
      let verified ← verify ed lib
        { keyring := config.keyring, edge := config.edgeID, claim := claim,
          clientPublicKey := identity.clientPublicKey, maxGrace := config.maxGrace }
        artifact.toList now
      if parseCanonicalUUID verified.account ≠ some identity.accountID then
        .error "offline entitlement account does not match certificate"
      else if parseCanonicalUUID verified.instanceId ≠ some identity.instanceID then
        .error "offline entitlement instance does not match certificate"
      else .ok verified
  | _, _ => .error "offline entitlement is unavailable"

theorem verifyTimes_time {value : Payload} {now allowedGrace : Int} {verified : Verified}
    (h : verifyTimes value now allowedGrace = .ok verified) : now ≤ verified.graceThrough := by
  unfold verifyTimes at h
  split at h
  · contradiction
  · split at h
    · contradiction
    · split at h
      · contradiction
      · rename_i hvalid
        obtain rfl := Except.ok.inj h
        exact Int.not_lt.mp (not_or.mp hvalid).2

theorem verify_time {ed : Ed25519} {lib : GoJson} {options : VerifyOptions} {artifact : List Char}
    {now : Int} {verified : Verified} (h : verify ed lib options artifact now = .ok verified) :
    now ≤ verified.graceThrough := by
  obtain ⟨-, -, h⟩ := Except.bind_eq_ok h
  obtain ⟨⟨rawPayload, signature⟩, -, h⟩ := Except.bind_eq_ok h
  obtain ⟨claim, -, h⟩ := Except.bind_eq_ok h
  split at h
  · contradiction
  · split at h
    · contradiction
    · obtain ⟨-, -, h⟩ := Except.bind_eq_ok h
      split at h
      · contradiction
      · split at h
        · contradiction
        · exact verifyTimes_time h

/-- What verifies at an instant has not reached the end of its grace. -/
theorem verifyOfflineEntitlement_time {ed : Ed25519} {lib : GoJson}
    {offlineEntitlements : Option OfflineEntitlementConfig} {artifact : String} {claim : Claim}
    {identity : ClientIdentity} {now : Int} {verified : Verified}
    (h : verifyOfflineEntitlement ed lib offlineEntitlements artifact claim identity now =
      .ok verified) : now ≤ verified.graceThrough := by
  unfold verifyOfflineEntitlement at h
  split at h
  · obtain ⟨v, hverify, h⟩ := Except.bind_eq_ok h
    split at h
    · contradiction
    · split at h
      · contradiction
      · obtain rfl := Except.ok.inj h
        exact verify_time hverify
  · contradiction

/-! ## the decision -/

/-- `reauthorizationRequiresClose`. -/
def reauthorizationRequiresClose (lib : GoJson) (res : Except ResolveError (Option Resolution))
    (claim : Claim) (peerIdentity : Option ClientIdentity)
    (lastAuthorized now maxStaleness : Int) (offlineProofValid hasOfflineProof : Bool) : Bool :=
  match res with
  | .error err =>
      if err.isKind .denied || err.isKind .secret || err.isKind .protocol then true
      else if err.isKind .infrastructure && hasOfflineProof then !offlineProofValid
      else !decide (now < lastAuthorized + maxStaleness)
  | .ok none => true
  | .ok (some res) =>
      if claimAllowed lib res claim = false then true
      else peerIdentity.any fun identity => !identity.matchesResolution res

/-- `subscriptionAttributionRequiresClose`. -/
def subscriptionAttributionRequiresClose (res : Option Resolution) (subscriptionID : String) :
    Bool :=
  res.any fun res => res.subscriptionAuthoritative &&
    (!canonicalSubscriptionID res.subscriptionID || res.subscriptionID ≠ subscriptionID)

/-- `validateReauthorizationConfig`. -/
def validateReauthorizationConfig (interval maxStaleness : Int) : Except String Unit :=
  if interval ≤ 0 then .error "reauthorization interval must be positive"
  else if maxStaleness < interval then
    .error ("maximum reauthorization staleness " ++ toString maxStaleness ++
      " must be at least one interval " ++ toString interval)
  else .ok ()

/-! ## the watch -/

/-- A tunnel and what the relay keeps to authorize it again.  The relay starts with a
valid configuration only. -/
structure Watch where
  ed : Ed25519
  lib : GoJson
  offlineEntitlements : Option OfflineEntitlementConfig
  reauthInterval : Int
  reauthMaxStale : Int
  valid : validateReauthorizationConfig reauthInterval reauthMaxStale = .ok ()
  claim : Claim
  peerIdentity : Option ClientIdentity
  offlineProof : Option OfflineAuthorization
  subscriptionID : String

/-- What `watchAuthorization` waits for. -/
inductive Event where
  /-- A tick, with the outcome of `Resolve` and the reading of the clock after it. -/
  | tick (res : Except ResolveError (Option Resolution)) (now : Int)
  /-- The context ends. -/
  | done

namespace Watch

variable (w : Watch)

/-- `r.verifyOfflineEntitlement` with the proof of the tunnel. -/
def verifyProof (now : Int) : Except String Verified :=
  match w.offlineProof with
  | some proof =>
      verifyOfflineEntitlement w.ed w.lib w.offlineEntitlements proof.artifact w.claim
        proof.identity now
  | none => .error "no offline entitlement"

/-- One turn of the loop: the new `lastAuthorized`, or `none` when the tunnel is closed
and the loop ends. -/
def turn (lastAuthorized : Int) : Event → Option Int
  | .done => none
  | .tick res now =>
      let outage := match res with
        | .error err => err.isKind .infrastructure
        | .ok _ => false
      let offlineProofValid := outage && w.offlineProof.isSome && (w.verifyProof now).toBool
      if reauthorizationRequiresClose w.lib res w.claim w.peerIdentity lastAuthorized now
          w.reauthMaxStale offlineProofValid w.offlineProof.isSome then none
      else
        match res with
        | .error _ => some lastAuthorized
        | .ok res =>
            if subscriptionAttributionRequiresClose res w.subscriptionID then none
            else if res = none then none
            else some now

/-- `watchAuthorization`, from the time it starts. -/
def watchAuthorization (start : Int) (es : List Event) : Option Int := Conc.exec w.turn start es

/-! ## what an answer has to say -/

/-- The answer allows the claim, to the identity of the certificate if the tunnel has
one, and for the subscription of the tunnel if it is authoritative about it. -/
structure Confirms (res : Resolution) : Prop where
  claim : claimAllowed w.lib res w.claim = true
  identity : ∀ i ∈ w.peerIdentity, i.matchesResolution res = true
  subscription : res.subscriptionAuthoritative = true →
    canonicalSubscriptionID res.subscriptionID = true ∧ res.subscriptionID = w.subscriptionID

instance (res : Resolution) : Decidable (w.Confirms res) :=
  decidable_of_iff (claimAllowed w.lib res w.claim = true ∧
      w.peerIdentity.all (·.matchesResolution res) = true ∧
      (res.subscriptionAuthoritative = true →
        canonicalSubscriptionID res.subscriptionID = true ∧
          res.subscriptionID = w.subscriptionID)) <| by
    have hall : w.peerIdentity.all (·.matchesResolution res) = true ↔
        ∀ i ∈ w.peerIdentity, i.matchesResolution res = true := by
      cases w.peerIdentity <;> simp
    rw [hall]
    constructor
    · intro ⟨hclaim, hidentity, hsubscription⟩
      exact ⟨hclaim, hidentity, hsubscription⟩
    · intro h
      exact ⟨h.claim, h.identity, h.subscription⟩

/-- The time of the last answer that confirmed the tunnel, or the start. -/
def lastConfirmed (last : Int) : List Event → Int
  | [] => last
  | .tick (.ok (some res)) now :: es =>
      if w.Confirms res then lastConfirmed now es else lastConfirmed last es
  | _ :: es => lastConfirmed last es

variable {w} {last last' now : Int} {es : List Event}

/-! ## one turn -/

/-- The errors an open tunnel survives. -/
theorem not_requiresClose_error {err : ResolveError} {valid hasProof : Bool}
    (h : reauthorizationRequiresClose w.lib (.error err) w.claim w.peerIdentity last now
      w.reauthMaxStale valid hasProof = false) :
    (err.kind = none ∨ err.kind = some .infrastructure) ∧
      ((err.kind = some .infrastructure ∧ hasProof = true ∧ valid = true) ∨
        now < last + w.reauthMaxStale) := by
  obtain ⟨kind, status⟩ := err
  cases kind with
  | none =>
      refine ⟨.inl rfl, .inr ?_⟩
      simpa [reauthorizationRequiresClose, ResolveError.isKind] using h
  | some kind =>
      cases kind with
      | infrastructure =>
          refine ⟨.inr rfl, ?_⟩
          cases hasProof with
          | true =>
              have hvalid : valid = true := by
                simpa [reauthorizationRequiresClose, ResolveError.isKind] using h
              exact .inl ⟨rfl, rfl, hvalid⟩
          | false =>
              right
              simpa [reauthorizationRequiresClose, ResolveError.isKind] using h
      | denied => contradiction
      | secret => contradiction
      | protocol => contradiction

/-- A successful answer leaves the tunnel open iff it confirms it. -/
theorem not_requiresClose_ok {answer : Option Resolution} :
    (reauthorizationRequiresClose w.lib (.ok answer) w.claim w.peerIdentity last now
        w.reauthMaxStale false w.offlineProof.isSome = false ∧
      subscriptionAttributionRequiresClose answer w.subscriptionID = false) ↔
    ∃ res, answer = some res ∧ w.Confirms res := by
  cases answer with
  | none => simp [reauthorizationRequiresClose]
  | some res =>
      have hidentity : (w.peerIdentity.any fun i => !i.matchesResolution res) = false ↔
          ∀ i ∈ w.peerIdentity, i.matchesResolution res = true := by
        cases w.peerIdentity <;> simp
      have hclaim : reauthorizationRequiresClose w.lib (.ok (some res)) w.claim w.peerIdentity last
          now w.reauthMaxStale false w.offlineProof.isSome = false ↔
          claimAllowed w.lib res w.claim = true ∧
            ∀ i ∈ w.peerIdentity, i.matchesResolution res = true := by
        rw [← hidentity, reauthorizationRequiresClose]
        cases claimAllowed w.lib res w.claim <;> simp
      have hsubscription :
          subscriptionAttributionRequiresClose (some res) w.subscriptionID = false ↔
          (res.subscriptionAuthoritative = true →
            canonicalSubscriptionID res.subscriptionID = true ∧
              res.subscriptionID = w.subscriptionID) := by
        cases hauth : res.subscriptionAuthoritative <;>
          simp [subscriptionAttributionRequiresClose, hauth]
      rw [hclaim, hsubscription]
      constructor
      · intro ⟨⟨hclaim, hidentity⟩, hsubscription⟩
        exact ⟨res, rfl, hclaim, hidentity, hsubscription⟩
      · intro ⟨res', heq, h⟩
        obtain rfl := Option.some.inj heq
        exact ⟨⟨h.claim, h.identity⟩, h.subscription⟩

/-- What a turn of the loop does to an open tunnel that stays open. -/
inductive Turned (w : Watch) (last : Int) : Event → Int → Prop where
  | confirmed {res : Resolution} {now : Int} (h : w.Confirms res) :
      Turned w last (.tick (.ok (some res)) now) now
  | offline {err : ResolveError} {now : Int} {v : Verified}
      (herr : err.kind = some .infrastructure) (hverify : w.verifyProof now = .ok v) :
      Turned w last (.tick (.error err) now) last
  | fresh {err : ResolveError} {now : Int}
      (herr : err.kind = none ∨ err.kind = some .infrastructure)
      (hfresh : now < last + w.reauthMaxStale) : Turned w last (.tick (.error err) now) last

/-- **Inversion** of a turn. -/
theorem turn_cases {e : Event} (h : w.turn last e = some last') : Turned w last e last' := by
  cases e with
  | done => contradiction
  | tick res now =>
      cases res with
      | error err =>
          simp only [turn] at h
          split at h
          · contradiction
          · rename_i hopen
            obtain rfl := Option.some.inj h
            obtain ⟨hkind, hproof | hfresh⟩ := not_requiresClose_error (by simpa using hopen)
            · obtain ⟨hinfra, -, hvalid⟩ := hproof
              rw [Bool.and_eq_true] at hvalid
              cases hverify : w.verifyProof now with
              | error e =>
                  rw [hverify] at hvalid
                  cases hvalid.2
              | ok v => exact .offline hinfra hverify
            · exact .fresh hkind hfresh
      | ok answer =>
          simp only [turn] at h
          split at h
          · contradiction
          · rename_i hopen
            split at h
            · contradiction
            · rename_i hsubscription
              split at h
              · contradiction
              · obtain rfl := Option.some.inj h
                obtain ⟨res, rfl, hconfirms⟩ := not_requiresClose_ok.mp
                  ⟨by simpa using hopen, by simpa using hsubscription⟩
                exact .confirmed hconfirms

/-! ## runs -/

/-- The loop keeps the time of the last confirmation. -/
theorem watchAuthorization_eq (h : w.watchAuthorization last es = some last') :
    last' = w.lastConfirmed last es := by
  induction es generalizing last with
  | nil => exact (Option.some.inj h).symm
  | cons e es ih =>
      obtain ⟨mid, hturn, hrest⟩ := Conc.exec_cons h
      have hmid := ih hrest
      cases turn_cases hturn with
      | confirmed hconfirms => rw [hmid, lastConfirmed, if_pos hconfirms]
      | offline herr hverify => exact hmid
      | fresh herr hfresh => exact hmid

theorem reauthMaxStale_pos (w : Watch) : 0 < w.reauthMaxStale := by
  have hvalid := w.valid
  unfold validateReauthorizationConfig at hvalid
  split at hvalid
  · contradiction
  · split at hvalid
    · contradiction
    · omega

theorem verifyProof_time {v : Verified} (h : w.verifyProof now = .ok v) :
    now ≤ v.graceThrough := by
  unfold verifyProof at h
  split at h
  · exact verifyOfflineEntitlement_time h
  · contradiction

/-- **Reauthorization does not outlive authority.**  After a tick an open tunnel was
confirmed less than the maximum staleness ago, or an outage is going on and its offline
entitlement verifies at that instant, which is not past the end of its grace.  A denied,
secret or protocol error closes it, and so does a successful answer that does not
confirm it. -/
theorem reauthorization (w : Watch) (start : Int) (es : List Event)
    (res : Except ResolveError (Option Resolution)) (now : Int) :
    (∀ last, w.watchAuthorization start (es ++ [.tick res now]) = some last →
      now < w.lastConfirmed start (es ++ [.tick res now]) + w.reauthMaxStale ∨
        ∃ err v, res = .error err ∧ err.kind = some .infrastructure ∧
          w.verifyProof now = .ok v ∧ now ≤ v.graceThrough) ∧
    ((∃ err kind, res = .error err ∧ err.kind = some kind ∧ kind ≠ .infrastructure) ∨
        (∃ answer, res = .ok answer ∧ ∀ r, answer = some r → ¬ w.Confirms r) →
      w.watchAuthorization start (es ++ [.tick res now]) = none) := by
  constructor
  · intro last hrun
    obtain ⟨before, -, hturn⟩ := Conc.exec_snoc hrun
    have hpos := w.reauthMaxStale_pos
    rw [← watchAuthorization_eq hrun]
    cases turn_cases hturn with
    | confirmed hconfirms => exact .inl (by omega)
    | offline herr hverify => exact .inr ⟨_, _, rfl, herr, hverify, verifyProof_time hverify⟩
    | fresh herr hfresh => exact .inl hfresh
  · intro hcause
    cases hrun : w.watchAuthorization start (es ++ [.tick res now]) with
    | none => rfl
    | some last =>
        obtain ⟨before, -, hturn⟩ := Conc.exec_snoc hrun
        cases turn_cases hturn with
        | confirmed hconfirms => grind
        | offline herr hverify => grind
        | fresh herr hfresh => grind

end Watch

/-! ## a legacy answer -/

/-- A signature scheme with one key. -/
def oneKey : Ed25519 where
  PrivateKey := Unit
  publicKey _ := List.replicate 32 0
  sign _ _ := List.replicate 64 0
  verify _ _ signature := signature == List.replicate 64 0
  length_publicKey _ := by simp
  length_sign _ _ := by simp
  verify_sign _ _ := by simp

/-- The tunnel of a dedicated address, with the default intervals. -/
def dedicated : Watch where
  ed := oneKey
  lib := ⟨fun c => [c], fun _ => none, fun _ => none, id⟩
  offlineEntitlements := none
  reauthInterval := 45 * second
  reauthMaxStale := 90 * second
  valid := by decide
  claim := { kind := .ip, ip := "203.0.113.10" }
  peerIdentity := some { kind := .user, userID := 7 }
  offlineProof := none
  subscriptionID := "018f47b8-2c36-7d4e-9a51-123456789abc"

/-- What the endpoints before v3 answer: no subscription. -/
def legacyAnswer : Resolution := { userID := 7, ips := ["203.0.113.10"] }

/-- Where v3 is not found, an answer without the subscription keeps the tunnel open,
also when what authorized it before is older than the maximum staleness. -/
theorem legacy_answer_keeps_open :
    resolve (fun endpoint => if endpoint = .v3 then
        .error { kind := some .denied, status := 404 } else .ok legacyAnswer) dedicated.claim =
      .ok legacyAnswer ∧
    dedicated.watchAuthorization 0 [.tick (.ok (some legacyAnswer)) (200 * second)] =
      some (200 * second) ∧
    legacyAnswer.subscriptionID ≠ dedicated.subscriptionID ∧
    dedicated.reauthMaxStale ≤ 200 * second - 0 := by
  decide +kernel

end Relay.Reauthorization
