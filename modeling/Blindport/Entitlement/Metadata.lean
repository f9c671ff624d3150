import Blindport.Entitlement.Verify

/-!
# Blindport.Entitlement.Metadata

The part of `provisioning_v2.go` with which the agent looks at an artifact before
it caches it: `parseEntitlementMetadata` and `validateEntitlementMetadata`.  The
agent has no key ring, so it checks the form, the times and the claim, and leaves
the signature to the relay.
-/

namespace Entitlement

open Protocol

/-- `decodeCanonicalRawBase64`, with the strict decoder. -/
def decodeCanonicalRawBase64 (value : List Char) (length : Option Nat) : Option (List UInt8) :=
  if value = [] ∨ value.all base64URLChar = false then none
  else
    match Base64.decodeRaw true value with
    | none => none
    | some decoded =>
        if Base64.encodeRaw decoded ≠ value ∨ length.any (· ≠ decoded.length) then none
        else some decoded

/-- The names of a JSON object's fields, in order. -/
def GoJson.keys (lib : GoJson) (cs : List Char) : Option (List String) :=
  match Json.read cs with
  | some fields => some (fields.map Prod.fst)
  | none => lib.otherKeys cs

/-- The names `UnmarshalJSON` wants, for a version of the payload. -/
def metadataNames (version : Nat) : List String :=
  ["typ", "v", "kid", "account", "subscription", "instance", "client_pk", "edge", "kind", "ip",
    "port", "transport", "domain", "iat", "nbf", "paid_through", "grace_through", "generation",
    "jti"] ++ if version = 2 then ["scope"] else []

/-- `hasExactJSONFields`. -/
def hasExactJSONFields (keys names : List String) : Bool :=
  keys.dedup.length == names.length && names.all fun name => name ∈ keys

/-- `parseEntitlementMetadata`. -/
def parseEntitlementMetadata (lib : GoJson) (value : List Char) : Except String Payload :=
  let invalid := .error "invalid"
  if value = [] ∨ 2048 < value.length ∨ value.any (128 ≤ ·.toNat) then invalid
  else
    match value.splitOn '.' with
    | [version, payload, signature] =>
        if version ≠ "v1".toList then invalid
        else
          match decodeCanonicalRawBase64 payload none with
          | none => invalid
          | some payloadBytes =>
              let chars := asciiChars payloadBytes
              match lib.keys chars, lib.unmarshal chars with
              | some keys, some decoded =>
                  if payloadBytes = [] ∨ 1024 < payloadBytes.length ∨ ¬ keys.Nodup ∨
                      isASCII payloadBytes = false then invalid
                  else if decodeCanonicalRawBase64 signature (some 64) = none then invalid
                  else if hasExactJSONFields keys (metadataNames decoded.version) = false then
                    invalid
                  else if asciiBytes (Json.render lib.escape decoded.fields) ≠ payloadBytes then
                    invalid
                  else .ok decoded
              | _, _ => invalid
    | _ => invalid

/-- `isCanonicalInstanceID`: dashes in place, lowercase, and 16 bytes of
hexadecimal digits without them. -/
def isCanonicalInstanceID (lib : GoJson) (value : String) : Bool :=
  let cs := value.toList
  cs.length = 36 && cs[8]? == some '-' && cs[13]? == some '-' && cs[18]? == some '-' &&
    cs[23]? == some '-' && lib.go.toLower value == value &&
    (cs.filter (· ≠ '-')).length = 32 &&
    (cs.filter (· ≠ '-')).all fun c => (Hextet.value? c).isSome

/-- `canonicalIP` of the agent. -/
def agentCanonicalIP (value : String) : Bool :=
  match IpAddr.parse (fun _ => true) value.toList with
  | none => false
  | some address => address.netipChars == value.toList

/-- `validateEntitlementMetadata`. -/
def validateEntitlementMetadata (lib : GoJson) (payload : Payload) (now : Int) :
    Except String Unit :=
  let invalid := .error "invalid"
  if payload.typ ≠ "blindport-offline-entitlement" ∨
      (payload.version ≠ 1 ∧ payload.version ≠ 2) ∨
      stableID 63 payload.keyID.toList = false ∨
      isCanonicalInstanceID lib payload.account = false ∨
      isCanonicalInstanceID lib payload.subscription = false ∨
      isCanonicalInstanceID lib payload.instanceId = false ∨
      stableID 63 payload.edge.toList = false ∨ 45 < payload.ip.utf8ByteSize ∨
      253 < payload.domain.utf8ByteSize ∨ timesInvalid payload (7 * 24 * 3600) ∨
      generationInvalid payload ∨ now + 60 * second < unixTime payload.issuedAt ∨
      unixTime payload.graceThrough < now then invalid
  else if (payload.version = 1 ∧ payload.scope ≠ "") ∨
      (payload.version = 2 ∧ (payload.scope ≠ "wildcard" ∨ payload.kind ≠ "relay")) then invalid
  else if decodeCanonicalRawBase64 payload.clientKey.toList (some 32) = none then invalid
  else if decodeCanonicalRawBase64 payload.tokenID.toList (some 16) = none then invalid
  else
    let claim := payload.claim (if payload.version = 2 then .wildcard else .exact)
    if validateClaim lib.go (some claim) ≠ .ok () ∨
        (claim.ip ≠ "" ∧ agentCanonicalIP claim.ip = false) then invalid
    else .ok ()

end Entitlement
