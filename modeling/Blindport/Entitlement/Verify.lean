import Blindport.Entitlement.Issue

/-!
# Blindport.Entitlement.Verify

`entitlement.go`: `Verify`, with which the relay checks an artifact against the
edge, the claim and the client key at hand.  The payload is read as JSON, written
again in the canonical form and compared byte by byte, so nothing but the
canonical form passes (`decodePayload`).

An instant is a number of nanoseconds.  `Json.read` stands for the decoder on
compact objects of plain texts; what the library does with every other text is
the parameter `GoJson.other`.
-/

namespace Entitlement

open Protocol

/-! ## the library -/

/-- `payload`, the fields of the struct in order. -/
structure Payload where
  typ : String := ""
  version : Nat := 0
  keyID : String := ""
  account : String := ""
  subscription : String := ""
  instanceId : String := ""
  clientKey : String := ""
  edge : String := ""
  kind : String := ""
  ip : String := ""
  port : Nat := 0
  transport : String := ""
  domain : String := ""
  scope : String := ""
  issuedAt : Nat := 0
  notBefore : Nat := 0
  paidThrough : Nat := 0
  graceThrough : Nat := 0
  generation : Nat := 0
  tokenID : String := ""
deriving DecidableEq

/-- What is left to Go's `encoding/json` and `unicode`: how `Marshal` writes a
character that is not plain, how it decodes a text that is not a compact object
of plain texts, and `unicode.ToLower` outside ASCII. -/
structure GoJson where
  escape : Char → List Char
  other : List Char → Option Payload
  otherKeys : List Char → Option (List String)
  lowerRune : Char → Char

/-- Go's `net` and `unicode` for the claims. -/
def GoJson.go (lib : GoJson) : Go := ⟨IpAddr.parseIP, lib.lowerRune⟩

@[simp] theorem GoJson.go_parseIP (lib : GoJson) (s : String) :
    lib.go.parseIP s = IpAddr.parseIP s := rfl

/-- `json.Marshal`'s fields; an empty scope is left out. -/
def Payload.fields (p : Payload) : Json.Fields :=
  ([("typ", .text p.typ), ("v", .number p.version), ("kid", .text p.keyID),
    ("account", .text p.account), ("subscription", .text p.subscription),
    ("instance", .text p.instanceId), ("client_pk", .text p.clientKey), ("edge", .text p.edge),
    ("kind", .text p.kind), ("ip", .text p.ip), ("port", .number p.port),
    ("transport", .text p.transport), ("domain", .text p.domain)] : Json.Fields) ++
  (if p.scope = "" then [] else [("scope", .text p.scope)] : Json.Fields) ++
  ([("iat", .number p.issuedAt), ("nbf", .number p.notBefore),
    ("paid_through", .number p.paidThrough), ("grace_through", .number p.graceThrough),
    ("generation", .number p.generation), ("jti", .text p.tokenID)] : Json.Fields)

/-- A number that fits the field's unsigned type. -/
def bounded (limit n : Nat) (p : Payload) : Option Payload := if n < limit then some p else none

/-- Decode one field into the struct.  Unknown names are refused; a name in another
case is refused as well, which the comparison with the canonical form does in the
source. -/
def Payload.setField (p : Payload) : String × Json.Value → Option Payload
  | ("typ", .text s) => some { p with typ := s }
  | ("v", .number n) => bounded (2 ^ 64) n { p with version := n }
  | ("kid", .text s) => some { p with keyID := s }
  | ("account", .text s) => some { p with account := s }
  | ("subscription", .text s) => some { p with subscription := s }
  | ("instance", .text s) => some { p with instanceId := s }
  | ("client_pk", .text s) => some { p with clientKey := s }
  | ("edge", .text s) => some { p with edge := s }
  | ("kind", .text s) => some { p with kind := s }
  | ("ip", .text s) => some { p with ip := s }
  | ("port", .number n) => bounded (2 ^ 16) n { p with port := n }
  | ("transport", .text s) => some { p with transport := s }
  | ("domain", .text s) => some { p with domain := s }
  | ("scope", .text s) => some { p with scope := s }
  | ("iat", .number n) => bounded (2 ^ 64) n { p with issuedAt := n }
  | ("nbf", .number n) => bounded (2 ^ 64) n { p with notBefore := n }
  | ("paid_through", .number n) => bounded (2 ^ 64) n { p with paidThrough := n }
  | ("grace_through", .number n) => bounded (2 ^ 64) n { p with graceThrough := n }
  | ("generation", .number n) => bounded (2 ^ 64) n { p with generation := n }
  | ("jti", .text s) => some { p with tokenID := s }
  | _ => none

/-- `json.Unmarshal` of a whole text into the struct. -/
def GoJson.unmarshal (lib : GoJson) (cs : List Char) : Option Payload :=
  match Json.read cs with
  | some fields => fields.foldlM Payload.setField {}
  | none => lib.other cs

/-! ## texts -/

/-- `isASCII`. -/
def isASCII (bs : List UInt8) : Bool := bs.all fun b => b.toNat ≤ 0x7f

/-- The characters of ASCII bytes. -/
def asciiChars (bs : List UInt8) : List Char := bs.map fun b => Char.ofNat b.toNat

/-- A character of the base64url alphabet. -/
def base64URLChar (c : Char) : Bool :=
  ('A' ≤ c && c ≤ 'Z') || ('a' ≤ c && c ≤ 'z') || ('0' ≤ c && c ≤ '9') || c == '-' || c == '_'

/-- `decodeRawBase64`; no length means any. -/
def decodeRawBase64 (value : List Char) (length : Option Nat) : Option (List UInt8) :=
  if value = [] ∨ '=' ∈ value ∨ value.all base64URLChar = false then none
  else
    match Base64.decodeRaw false value with
    | none => none
    | some decoded =>
        if Base64.encodeRaw decoded ≠ value ∨ length.any (· ≠ decoded.length) then none
        else some decoded

/-- `validStableID`. -/
def validStableID (value : String) : Bool :=
  value.utf8ByteSize ≤ 32 && stableID 31 value.toList

/-- `validUUID`. -/
def validUUID (value : String) : Bool :=
  value.toList.length = 36 &&
    value.toList.zipIdx.all fun x =>
      if x.2 = 8 ∨ x.2 = 13 ∨ x.2 = 18 ∨ x.2 = 23 then x.1 == '-' else Uuid.isLowerHex x.1

/-! ## the artifact -/

/-- `parseArtifact`: the payload's bytes and the signature. -/
def parseArtifact (artifact : List Char) : Except String (List UInt8 × List UInt8) :=
  let invalid := .error "invalid entitlement artifact"
  if artifact = [] ∨ 2048 < artifact.length ∨ artifact.any (128 ≤ ·.toNat) then invalid
  else
    match artifact.splitOn '.' with
    | [version, payload, signature] =>
        if version ≠ "v1".toList then invalid
        else
          match decodeRawBase64 payload none, decodeRawBase64 signature (some 64) with
          | some payload, some signature =>
              if payload = [] ∨ 1024 < payload.length then invalid else .ok (payload, signature)
          | _, _ => invalid
    | _ => invalid

/-- `decodePayload`. -/
def decodePayload (lib : GoJson) (raw : List UInt8) : Except String Payload :=
  if isASCII raw = false then .error "invalid entitlement payload"
  else
    match lib.unmarshal (asciiChars raw) with
    | none => .error "invalid entitlement payload"
    | some value =>
        if asciiBytes (Json.render lib.escape value.fields) ≠ raw then
          .error "invalid entitlement payload"
        else .ok value

/-! ## the payload -/

/-- `canonicalClaim`. -/
def canonicalClaim (value : Payload) : Bool :=
  (match ClaimKind.ofText value.kind with
    | .ip | .port =>
        match IpAddr.parse (fun _ => true) value.ip.toList with
        | none => false
        | some address => address.canonicalIP == value.ip.toList
    | .relay => value.ip == ""
    | .unknown _ => true) &&
  (value.kind ≠ "ip" || value.transport == "") && (value.kind ≠ "relay" || value.transport == "")

/-- The claim a payload is about. -/
def Payload.claim (value : Payload) (scope : HostnameScope) : Claim where
  kind := ClaimKind.ofText value.kind
  ip := value.ip
  port := UInt16.ofNat value.port
  transport := ClaimTransport.ofText value.transport
  domain := value.domain
  scope := scope

/-- `validatePayload`. -/
def validatePayload (lib : GoJson) (value : Payload) : Except String Unit :=
  let invalid := .error "invalid entitlement payload"
  if value.typ ≠ "blindport-offline-entitlement" ∨ (value.version ≠ 1 ∧ value.version ≠ 2) ∨
      validStableID value.keyID = false ∨ validStableID value.edge = false ∨
      validUUID value.account = false ∨ validUUID value.subscription = false ∨
      validUUID value.instanceId = false ∨ 45 < value.ip.utf8ByteSize ∨
      253 < value.domain.utf8ByteSize ∨ value.clientKey.utf8ByteSize ≠ 43 ∨
      value.tokenID.utf8ByteSize ≠ 22 then invalid
  else if decodeRawBase64 value.clientKey.toList (some 32) = none then invalid
  else if decodeRawBase64 value.tokenID.toList (some 16) = none then invalid
  else
    let check (scope : HostnameScope) : Except String Unit :=
      if validateClaim lib.go (some (value.claim scope)) ≠ .ok () ∨ canonicalClaim value = false
      then invalid else .ok ()
    if value.version = 2 then
      if value.scope ≠ "wildcard" ∨ value.kind ≠ "relay" then invalid else check .wildcard
    else if value.scope ≠ "" then invalid
    else check .exact

/-- `sameClaim`. -/
def sameClaim (value : Payload) (expected : Claim) : Bool :=
  let scope : HostnameScope := if value.version = 2 then .wildcard else .exact
  value.kind == expected.kind.text && value.ip == expected.ip &&
    value.port == expected.port.toNat && value.transport == expected.transport.text &&
    value.domain == expected.domain && scope == expected.scope

/-! ## times -/

/-- A second in nanoseconds. -/
def second : Int := 1000000000

/-- `time.Unix(seconds, 0)`. -/
def unixTime (seconds : Nat) : Int := seconds * second

/-- `Status`. -/
inductive Status
  | paid
  | grace
deriving DecidableEq

/-- `Verified`. -/
structure Verified where
  account : String
  subscription : String
  instanceId : String
  generation : Nat
  paidThrough : Int
  graceThrough : Int
  status : Status
deriving DecidableEq

/-- The checks `verifyTimes` makes on the payload alone. -/
def timesInvalid (value : Payload) (allowedGrace : Nat) : Prop :=
  maxUnixSeconds < value.issuedAt ∨ maxUnixSeconds < value.notBefore ∨
    maxUnixSeconds < value.paidThrough ∨ maxUnixSeconds < value.graceThrough ∨
    value.issuedAt ≠ value.notBefore ∨ value.paidThrough < value.issuedAt ∨
    value.graceThrough < value.paidThrough ∨
    allowedGrace < value.graceThrough - value.paidThrough

instance (value : Payload) (allowedGrace : Nat) : Decidable (timesInvalid value allowedGrace) :=
  inferInstanceAs (Decidable (_ ∨ _))

/-- The generation does not pack the paid-through time and a credential number. -/
def generationInvalid (value : Payload) : Prop :=
  2 ^ 63 - 1 < value.generation ∨ value.generation &&& (2 ^ 31 - 1) = 0 ∨
    value.generation ≠ (value.paidThrough <<< 31) % 2 ^ 64 ||| value.generation &&& (2 ^ 31 - 1)

instance (value : Payload) : Decidable (generationInvalid value) :=
  inferInstanceAs (Decidable (_ ∨ _))

/-- `verifyTimes`. -/
def verifyTimes (value : Payload) (now allowedGrace : Int) : Except String Verified :=
  if timesInvalid value (allowedGrace / second).toNat then .error "invalid entitlement times"
  else if generationInvalid value then .error "invalid entitlement generation"
  else if now + 60 * second < unixTime value.issuedAt ∨ unixTime value.graceThrough < now then
    .error "entitlement is not currently valid"
  else .ok
    { account := value.account
      subscription := value.subscription
      instanceId := value.instanceId
      generation := value.generation
      paidThrough := unixTime value.paidThrough
      graceThrough := unixTime value.graceThrough
      status := if unixTime value.paidThrough < now then .grace else .paid }

/-! ## verification -/

/-- `VerifyOptions` without the artifact and the time. -/
structure VerifyOptions where
  keyring : List (String × List UInt8)
  edge : String
  claim : Claim
  clientPublicKey : List UInt8
  maxGrace : Int

/-- `time.Time{}`, the start of year 1. -/
def zeroTime : Int := -62135596800 * second

/-- `validateOptions`. -/
def validateOptions (lib : GoJson) (options : VerifyOptions) (now : Int) : Except String Unit :=
  let invalid := .error "invalid entitlement verification options"
  if options.keyring.length = 0 ∨ 16 < options.keyring.length ∨
      validStableID options.edge = false ∨ options.clientPublicKey.length ≠ 32 ∨
      now = zeroTime ∨ options.maxGrace < 0 ∨ 7 * 24 * 3600 * second < options.maxGrace then invalid
  else if options.keyring.any fun entry => !validStableID entry.1 || entry.2.length ≠ 32 then
    invalid
  else if validateClaim lib.go (some options.claim) ≠ .ok () then invalid
  else .ok ()

/-- `Verify`. -/
def verify (ed : Ed25519) (lib : GoJson) (options : VerifyOptions) (artifact : List Char)
    (now : Int) : Except String Verified := do
  validateOptions lib options now
  let (rawPayload, signature) ← parseArtifact artifact
  let claim ← decodePayload lib rawPayload
  match options.keyring.lookup claim.keyID with
  | none => .error "invalid entitlement signature"
  | some key =>
      if key.length ≠ 32 ∨ ed.verify key rawPayload signature = false then
        .error "invalid entitlement signature"
      else do
        validatePayload lib claim
        if claim.edge ≠ options.edge ∨ sameClaim claim options.claim = false then
          .error "entitlement binding mismatch"
        else if decodeRawBase64 claim.clientKey.toList (some 32) ≠ some options.clientPublicKey then
          .error "entitlement binding mismatch"
        else verifyTimes claim now options.maxGrace

end Entitlement
