import Blindport.Backend.Models
import Blindport.Protocol.Claim
import Blindport.Text.Base64
import Blindport.Text.IPv6
import Blindport.Text.Json

/-!
# Blindport.Entitlement.Issue

`services/offline_entitlements.py`: the signed artifact that lets a relay accept
a tunnel while the backend is out of reach.  `claimForSubscription` and
`entitlementIssuedAt` take what is signed from the subscription and the client
credential, and `issue` writes the canonical payload and signs it.

The libraries come in as parameters: `Ed25519` with the laws of a signature
scheme, and `Python` with what the code leaves to the interpreter.
-/

namespace Entitlement

open Backend (ProductType RelayHostnameScope Subscription Datetime)

/-! ## the libraries -/

/-- Ed25519: what a private key signs, its public key verifies. -/
structure Ed25519 where
  PrivateKey : Type
  publicKey : PrivateKey → List UInt8
  sign : PrivateKey → List UInt8 → List UInt8
  verify : List UInt8 → List UInt8 → List UInt8 → Bool
  length_publicKey : ∀ key, (publicKey key).length = 32
  length_sign : ∀ key message, (sign key message).length = 64
  verify_sign : ∀ key message, verify (publicKey key) message (sign key message) = true

/-- What the code leaves to Python: how `json.dumps` writes a character that is not
plain, how an IPv4-mapped address is printed, the `idna` codec and whether it
decodes a label. -/
structure Python where
  escape : Char → List Char
  mappedText : IPv6 → List Char
  idna : String → Option String
  idnaDecodes : List Char → Bool

/-- The scope ids `ip_address` takes. -/
def pyZone (zone : List Char) : Bool := '%' ∉ zone ∧ '/' ∉ zone

/-- `ip_address`. -/
def ipAddress (s : String) : Option IpAddr := IpAddr.parse pyZone s.toList

/-- `str` of an address. -/
def Python.strIp (py : Python) (addr : IpAddr) : String :=
  String.ofList (addr.pyChars py.mappedText)

/-- The bytes of an ASCII text. -/
def asciiBytes (cs : List Char) : List UInt8 := cs.map fun c => UInt8.ofNat c.toNat

/-! ## identifiers -/

/-- `[a-z0-9][a-z0-9._-]{0,n}`: `_OFFLINE_EDGE_ID_RE`, `stableID` and
`entitlementStableID`. -/
def stableID (n : Nat) : List Char → Bool
  | [] => false
  | c :: rest =>
      Protocol.alphanumeric c && rest.length ≤ n &&
        rest.all fun c => Protocol.alphanumeric c || c == '.' || c == '_' || c == '-'

/-- An edge or key identifier, as `config.py` accepts it. -/
structure StableId where
  text : String
  stable : stableID 31 text.toList = true
deriving DecidableEq

/-! ## host names -/

/-- `canonicalize_hostname`. -/
def canonicalizeHostname (py : Python) (value : String) : Except String String :=
  match py.idna value with
  | none => .error "domain must be a valid hostname"
  | some encoded =>
      let lower := encoded.toList.map Char.toLower
      let hostname := String.ofList (if lower.getLast? = some '.' then lower.dropLast else lower)
      if hostname = "" then .error "domain must be a valid hostname"
      else if 253 < hostname.toList.length then
        .error "domain must be at most 253 ASCII characters"
      else if (ipAddress hostname).isSome then
        .error "domain must be a hostname, not an IP address"
      else if (Hostname.labels hostname).any fun label =>
          63 < label.length || !Protocol.hostnameLabel label then
        .error "domain contains an invalid hostname label"
      else if (Hostname.labels hostname).any fun label => !py.idnaDecodes label then
        .error "domain contains an invalid IDNA label"
      else .ok hostname

/-! ## claims -/

/-- `EntitlementClaim`; of the two edges only the identifier is signed. -/
structure EntitlementClaim where
  account : Uuid
  subscription : Uuid
  instanceId : Uuid
  clientPk : List UInt8
  edge : StableId
  kind : ProductType
  ip : String := ""
  port : Nat := 0
  transport : String := ""
  domain : String := ""
  paidThrough : Int := 0
  relayHostnameScope : RelayHostnameScope := .exact

/-- `_unix_seconds`: whole seconds, toward zero. -/
def unixSeconds (t : Datetime) : Int := t.tdiv 1000000

/-- `Transport(...).value`. -/
def transportValue : Backend.Transport → String
  | .tcp => "tcp"
  | .udp => "udp"

/-- `ProductType.value`. -/
def kindValue : ProductType → String
  | .ip => "ip"
  | .port => "port"
  | .relay => "relay"

/-- `claim_for_subscription`. -/
def claimForSubscription (py : Python) (subscription : Subscription) (account instanceId : Uuid)
    (clientPk : List UInt8) (edge : StableId) (relayEdgeIp : String) :
    Except String EntitlementClaim :=
  match subscription.currentPeriodEnd with
  | none => .error "subscription has no active paid-through time"
  | some periodEnd =>
      let paidThrough := unixSeconds periodEnd
      match subscription.product with
      | .port =>
          match subscription.assignedPort, subscription.assignedIp with
          | some port, some _ =>
              if port = 0 then .error "Port subscription has no assigned tuple"
              else
                match ipAddress relayEdgeIp with
                | none => .error (relayEdgeIp ++ " does not appear to be an IPv4 or IPv6 address")
                | some addr => .ok
                    { account, subscription := subscription.publicId, instanceId, clientPk, edge
                      kind := .port
                      ip := py.strIp addr
                      port
                      transport := transportValue subscription.transport
                      paidThrough }
          | _, _ => .error "Port subscription has no assigned tuple"
      | .ip =>
          match subscription.assignedIp with
          | none => .error "Blindport IP subscription has no assigned address"
          | some assignedIp =>
              match ipAddress assignedIp with
              | none => .error (assignedIp ++ " does not appear to be an IPv4 or IPv6 address")
              | some addr => .ok
                  { account, subscription := subscription.publicId, instanceId, clientPk, edge
                    kind := .ip
                    ip := py.strIp addr
                    paidThrough }
      | .relay =>
          match subscription.domain with
          | none => .error "Blindport Relay subscription has no domain"
          | some domain => do
              let domain ← canonicalizeHostname py domain
              .ok
                { account, subscription := subscription.publicId, instanceId, clientPk, edge
                  kind := .relay
                  domain
                  paidThrough
                  relayHostnameScope := subscription.relayHostnameScope }

/-- `entitlement_issued_at`, in seconds; `notBefore` is the credential's. -/
def entitlementIssuedAt (subscription : Subscription) (notBefore now : Datetime) :
    Except String Int :=
  match subscription.currentPeriodEnd with
  | none => .error "subscription has no active paid-through time"
  | some periodEnd =>
      let issuedAt := match subscription.currentPeriodStart with
        | none => notBefore
        | some start => max notBefore start
      if now < issuedAt then .error "entitlement issue time is in the future"
      else if unixSeconds periodEnd < unixSeconds issuedAt then
        .error "entitlement issue time is after paid-through"
      else .ok (unixSeconds issuedAt)

/-! ## the payload -/

/-- `_MAX_UNIX_SECONDS`. -/
def maxUnixSeconds : Nat := (2 ^ 63 - 1) / 2 ^ 31

/-- `entitlement_generation`. -/
def entitlementGeneration (paidThrough credentialGeneration : Int) : Except String Nat :=
  if ¬ (0 ≤ paidThrough ∧ paidThrough ≤ maxUnixSeconds) then
    .error "paid_through is outside the entitlement generation range"
  else if ¬ (1 ≤ credentialGeneration ∧ credentialGeneration ≤ 2 ^ 31 - 1) then
    .error "credential generation is outside the entitlement generation range"
  else .ok (paidThrough.toNat <<< 31 ||| credentialGeneration.toNat)

/-- The result of `_canonical_claim_fields`. -/
structure ClaimFields where
  kind : String
  ip : String
  port : Nat
  transport : String
  domain : String
  scope : RelayHostnameScope

/-- `_canonical_claim_fields`. -/
def canonicalClaimFields (py : Python) (claim : EntitlementClaim) : Except String ClaimFields :=
  let scope := claim.relayHostnameScope
  match claim.kind with
  | .port =>
      if scope ≠ .exact ∨ ¬ (1 ≤ claim.port ∧ claim.port ≤ 65535) ∨
          (claim.transport ≠ "tcp" ∧ claim.transport ≠ "udp") then
        .error "Port claim is invalid"
      else
        match ipAddress claim.ip with
        | none => .error "Port claim is invalid"
        | some addr => .ok ⟨kindValue .port, py.strIp addr, claim.port, claim.transport, "", scope⟩
  | .ip =>
      if scope ≠ .exact ∨ claim.port ≠ 0 ∨ claim.transport ≠ "" ∨ claim.domain ≠ "" then
        .error "Blindport IP claim is invalid"
      else
        match ipAddress claim.ip with
        | none => .error "Blindport IP claim is invalid"
        | some addr => .ok ⟨kindValue .ip, py.strIp addr, 0, "", "", scope⟩
  | .relay =>
      if claim.ip ≠ "" ∨ claim.port ≠ 0 ∨ claim.transport ≠ "" then
        .error "Blindport Relay claim is invalid"
      else
        match canonicalizeHostname py claim.domain with
        | .error _ => .error "Blindport Relay claim is invalid"
        | .ok domain => .ok ⟨kindValue .relay, "", 0, "", domain, scope⟩

/-- `OfflineEntitlementSigner`. -/
structure Signer (ed : Ed25519) where
  key : ed.PrivateKey
  keyId : StableId
  graceSeconds : Nat

/-- The payload `issue` builds, in the order of the dictionary. -/
def payloadFields (keyId : StableId) (claim : EntitlementClaim) (fields : ClaimFields)
    (issuedAt graceThrough generation : Nat) (jti : List UInt8) : Json.Fields :=
  ([("typ", .text "blindport-offline-entitlement"),
    ("v", .number (if fields.scope = .wildcard then 2 else 1)),
    ("kid", .text keyId.text),
    ("account", .text claim.account.text),
    ("subscription", .text claim.subscription.text),
    ("instance", .text claim.instanceId.text),
    ("client_pk", .text (String.ofList (Base64.urlsafeStripped claim.clientPk))),
    ("edge", .text claim.edge.text),
    ("kind", .text fields.kind),
    ("ip", .text fields.ip),
    ("port", .number fields.port),
    ("transport", .text fields.transport),
    ("domain", .text fields.domain)] : Json.Fields) ++
  (if fields.scope = .wildcard then [("scope", .text "wildcard")] else [] : Json.Fields) ++
  ([("iat", .number issuedAt),
    ("nbf", .number issuedAt),
    ("paid_through", .number claim.paidThrough.toNat),
    ("grace_through", .number graceThrough),
    ("generation", .number generation),
    ("jti", .text (String.ofList (Base64.urlsafeStripped jti)))] : Json.Fields)

/-- `OfflineEntitlementSigner.issue`: the artifact and its payload. -/
def Signer.issue {ed : Ed25519} (py : Python) (signer : Signer ed) (claim : EntitlementClaim)
    (credentialGeneration issuedAt : Int) (jti : List UInt8) :
    Except String (List Char × Json.Fields) :=
  if claim.clientPk.length ≠ 32 then .error "client public key must be 32 raw bytes"
  else do
    let generation ← entitlementGeneration claim.paidThrough credentialGeneration
    if ¬ (0 ≤ issuedAt ∧ issuedAt ≤ maxUnixSeconds) then
      .error "iat and nbf are outside the entitlement range"
    else if jti.length ≠ 16 then .error "jti must contain 16 raw bytes"
    else do
      let fields ← canonicalClaimFields py claim
      let graceThrough := claim.paidThrough.toNat + signer.graceSeconds
      if maxUnixSeconds < graceThrough then
        .error "grace_through is outside the entitlement range"
      else
        let payload := payloadFields signer.keyId claim fields issuedAt.toNat graceThrough
          generation jti
        let rawPayload := asciiBytes (Json.render py.escape payload)
        let signature := ed.sign signer.key rawPayload
        let artifact := "v1".toList ++ '.' :: Base64.urlsafeStripped rawPayload ++
          '.' :: Base64.urlsafeStripped signature
        if 2048 < artifact.length then .error "entitlement artifact exceeds 2048 bytes"
        else .ok (artifact, payload)

end Entitlement
