import Blindport.Entitlement.Decode

/-!
# Blindport.Entitlement.Agreement

Issuer and verifiers agree: an artifact the backend issues for a framed
subscription is accepted by the relay and the agent from a minute before its
issue time through its grace time, and not after it, and all three read the same
identity, generation and times from it (`entitlement_agrees_iff`).

The condition is on the configured address.  `ip_address` takes an IPv6 address
with a scope id, prints it, and the backend signs that text; `net.ParseIP` takes
none, so no relay accepts a claim on it.
-/

namespace Entitlement

open Protocol
open Backend (ProductType RelayHostnameScope Subscription Datetime)

/-! ## requests -/

/-- What an artifact is issued from: the subscription and its user, the client's
credential, the edge and the clock. -/
structure Request (ed : Ed25519) where
  signer : Signer ed
  subscription : Subscription
  account : Uuid
  instanceId : Uuid
  clientPk : List UInt8
  credentialGeneration : Int
  notBefore : Datetime
  edge : StableId
  relayEdgeIp : String
  jti : List UInt8
  now : Datetime

/-- `issue_subscription_entitlement` at the time `entitlement_issued_at` gives. -/
def Request.issue {ed : Ed25519} (r : Request ed) (py : Python) :
    Except String (List Char × Json.Fields) := do
  let claim ← claimForSubscription py r.subscription r.account r.instanceId r.clientPk r.edge
    r.relayEdgeIp
  let issuedAt ← entitlementIssuedAt r.subscription r.notBefore r.now
  r.signer.issue py claim r.credentialGeneration issuedAt r.jti

/-- The address the claim is on; a Relay claim is on none. -/
def Request.address {ed : Ed25519} (r : Request ed) : Option IpAddr :=
  match r.subscription.product with
  | .port => ipAddress r.relayEdgeIp
  | .ip => r.subscription.assignedIp.bind ipAddress
  | .relay => none

/-- What issuer and verifiers must agree on. -/
structure Summary where
  account : String
  subscription : String
  instanceId : String
  generation : Nat
  paidThrough : Int
  graceThrough : Int
deriving DecidableEq

/-- What the relay returns. -/
def Verified.summary (v : Verified) : Summary :=
  ⟨v.account, v.subscription, v.instanceId, v.generation, v.paidThrough, v.graceThrough⟩

/-- What the agent reads. -/
def Payload.summary (p : Payload) : Summary :=
  ⟨p.account, p.subscription, p.instanceId, p.generation, unixTime p.paidThrough,
    unixTime p.graceThrough⟩

/-- The paid-through time of the subscription, in seconds. -/
def Request.paidThrough {ed : Ed25519} (r : Request ed) : Nat :=
  (unixSeconds (r.subscription.currentPeriodEnd.getD 0)).toNat

/-- The end of the grace period, in seconds. -/
def Request.graceThrough {ed : Ed25519} (r : Request ed) : Nat :=
  r.paidThrough + r.signer.graceSeconds

/-- What the backend means. -/
def Request.summary {ed : Ed25519} (r : Request ed) : Summary where
  account := r.account.text
  subscription := r.subscription.publicId.text
  instanceId := r.instanceId.text
  generation := r.paidThrough <<< 31 ||| r.credentialGeneration.toNat
  paidThrough := unixTime r.paidThrough
  graceThrough := unixTime r.graceThrough

/-- A text of the payload. -/
def fieldText (payload : Json.Fields) (name : String) : String :=
  match payload.lookup name with
  | some (.text s) => s
  | _ => ""

/-- A number of the payload. -/
def fieldNumber (payload : Json.Fields) (name : String) : Nat :=
  match payload.lookup name with
  | some (.number n) => n
  | _ => 0

/-- `RelayHostnameScope` in the protocol. -/
def protocolScope : RelayHostnameScope → HostnameScope
  | .exact => .exact
  | .wildcard => .wildcard

/-- The claim the provisioning response carries next to the artifact, and with
which the agent connects. -/
def Request.claim {ed : Ed25519} (r : Request ed) (payload : Json.Fields) : Claim where
  kind := ClaimKind.ofText (fieldText payload "kind")
  ip := fieldText payload "ip"
  port := UInt16.ofNat (fieldNumber payload "port")
  transport := ClaimTransport.ofText (fieldText payload "transport")
  domain := fieldText payload "domain"
  scope := if r.subscription.product = .relay then protocolScope r.subscription.relayHostnameScope
    else .exact

/-- The relay's side of a request: its edge, the client's key, the claim, a key
ring with the signer's key, and a grace limit that covers the signer's. -/
structure Matches {ed : Ed25519} (r : Request ed) (payload : Json.Fields)
    (options : VerifyOptions) : Prop where
  edge : options.edge = r.edge.text
  claim : options.claim = r.claim payload
  clientKey : options.clientPublicKey = r.clientPk
  keyring_pos : 0 < options.keyring.length
  keyring_le : options.keyring.length ≤ 16
  keyring_ok : ∀ entry ∈ options.keyring, validStableID entry.1 = true ∧ entry.2.length = 32
  key : options.keyring.lookup r.signer.keyId.text = some (ed.publicKey r.signer.key)
  grace : r.signer.graceSeconds * second ≤ options.maxGrace
  maxGrace : options.maxGrace ≤ 7 * 24 * 3600 * second

/-- The verifiers take the artifact from a minute before the issue time through the
end of grace with the issuer's meaning, and not after it. -/
def Agrees {ed : Ed25519} (lib : GoJson) (r : Request ed) (options : VerifyOptions)
    (artifact : List Char) (issuedAt : Int) : Prop :=
  (∀ now, issuedAt * second - 60 * second ≤ now → now ≤ unixTime r.graceThrough →
    (∃ v, verify ed lib options artifact now = .ok v ∧ v.summary = r.summary) ∧
    ∃ p, parseEntitlementMetadata lib artifact = .ok p ∧ p.summary = r.summary ∧
      validateEntitlementMetadata lib p now = .ok ()) ∧
  ∀ now, unixTime r.graceThrough < now →
    (∀ v, verify ed lib options artifact now ≠ .ok v) ∧
    ∀ p, parseEntitlementMetadata lib artifact = .ok p →
      validateEntitlementMetadata lib p now ≠ .ok ()

/-! ## what was signed -/

/-- What `issue` has checked and written. -/
structure Issued {ed : Ed25519} (py : Python) (r : Request ed) (issuedAt : Int)
    (claim : EntitlementClaim) (fields : ClaimFields) (artifact : List Char)
    (payload : Json.Fields) : Prop where
  claimed : claimForSubscription py r.subscription r.account r.instanceId r.clientPk r.edge
    r.relayEdgeIp = .ok claim
  issued : entitlementIssuedAt r.subscription r.notBefore r.now = .ok issuedAt
  canonical : canonicalClaimFields py claim = .ok fields
  clientPk : claim.clientPk.length = 32
  paid_nonneg : 0 ≤ claim.paidThrough
  generation_pos : 1 ≤ r.credentialGeneration
  generation_le : r.credentialGeneration ≤ 2 ^ 31 - 1
  issued_nonneg : 0 ≤ issuedAt
  jti : r.jti.length = 16
  grace_le : claim.paidThrough.toNat + r.signer.graceSeconds ≤ maxUnixSeconds
  payload_eq : payload = (issuedPayload r.signer.keyId claim fields issuedAt.toNat
    (claim.paidThrough.toNat + r.signer.graceSeconds)
    (claim.paidThrough.toNat <<< 31 ||| r.credentialGeneration.toNat) r.jti).fields
  artifact_eq : artifact = artifactOf (asciiBytes (Json.render py.escape payload))
    (ed.sign r.signer.key (asciiBytes (Json.render py.escape payload)))
  size : artifact.length ≤ 2048

theorem entitlementGeneration_ok {paid gen : Int} {n : Nat}
    (h : entitlementGeneration paid gen = .ok n) :
    0 ≤ paid ∧ 1 ≤ gen ∧ gen ≤ 2 ^ 31 - 1 ∧ n = paid.toNat <<< 31 ||| gen.toNat := by
  unfold entitlementGeneration at h
  split at h
  · cases h
  · rename_i hpaid
    split at h
    · cases h
    · rename_i hgen
      rw [not_not] at hpaid hgen
      exact ⟨hpaid.1, hgen.1, hgen.2, (Except.ok.inj h).symm⟩

/-- Everything an issued artifact stands for. -/
theorem issued_of_issue {ed : Ed25519} {py : Python} {r : Request ed} {artifact : List Char}
    {payload : Json.Fields} (h : r.issue py = .ok (artifact, payload)) :
    ∃ issuedAt claim fields, Issued py r issuedAt claim fields artifact payload := by
  unfold Request.issue at h
  cases hclaim : claimForSubscription py r.subscription r.account r.instanceId r.clientPk r.edge
      r.relayEdgeIp with
  | error e => rw [hclaim] at h; cases h
  | ok claim =>
      cases hat : entitlementIssuedAt r.subscription r.notBefore r.now with
      | error e => rw [hclaim, hat] at h; cases h
      | ok issuedAt =>
          rw [hclaim, hat] at h
          replace h : r.signer.issue py claim r.credentialGeneration issuedAt r.jti =
              .ok (artifact, payload) := h
          unfold Signer.issue at h
          split at h
          · cases h
          rename_i hpk
          cases hgen : entitlementGeneration claim.paidThrough r.credentialGeneration with
          | error e => rw [hgen] at h; cases h
          | ok generation =>
              rw [hgen] at h
              simp only [Except.bind, bind] at h
              split at h
              · cases h
              rename_i hissued
              split at h
              · cases h
              rename_i hjti
              cases hfields : canonicalClaimFields py claim with
              | error e => rw [hfields] at h; cases h
              | ok fields =>
                  rw [hfields] at h
                  dsimp only at h
                  split at h
                  · cases h
                  rename_i hgrace
                  split at h
                  · cases h
                  rename_i hsize
                  obtain ⟨hart, hpay⟩ := Prod.mk.inj (Except.ok.inj h)
                  obtain ⟨hpaid, hgpos, hgle, rfl⟩ := entitlementGeneration_ok hgen
                  rw [payloadFields_eq] at hart hpay hsize
                  simp only [Base64.urlsafeStripped_eq] at hart hsize
                  rw [not_not] at hissued
                  refine ⟨issuedAt, claim, fields, hclaim, hat, hfields, not_not.mp hpk, hpaid,
                    hgpos, hgle, hissued.1, not_not.mp hjti, by omega, hpay.symm, ?_, ?_⟩
                  · rw [← hpay]
                    exact hart.symm
                  · rw [← hart]
                    omega

/-- The parts of a claim that every product takes over as they are. -/
structure Carries {ed : Ed25519} (r : Request ed) (claim : EntitlementClaim) : Prop where
  account : claim.account = r.account
  subscription : claim.subscription = r.subscription.publicId
  instanceId : claim.instanceId = r.instanceId
  clientPk : claim.clientPk = r.clientPk
  edge : claim.edge = r.edge
  paidThrough : claim.paidThrough = unixSeconds (r.subscription.currentPeriodEnd.getD 0)

/-- The signed fields, product by product.  An address is read and printed twice. -/
inductive FieldsOf {ed : Ed25519} (py : Python) (r : Request ed) : ClaimFields → Prop
  | port {addr addr' : IpAddr} {port : Nat} (product : r.subscription.product = .port)
      (address : r.address = some addr) (again : ipAddress (py.strIp addr) = some addr')
      (pos : 1 ≤ port) (le : port ≤ 65535) :
      FieldsOf py r
        ⟨"port", py.strIp addr', port, transportValue r.subscription.transport, "", .exact⟩
  | ip {addr addr' : IpAddr} (product : r.subscription.product = .ip)
      (address : r.address = some addr) (again : ipAddress (py.strIp addr) = some addr') :
      FieldsOf py r ⟨"ip", py.strIp addr', 0, "", "", .exact⟩
  | relay {value domain : String} (product : r.subscription.product = .relay)
      (address : r.address = none) (host : canonicalizeHostname py value = .ok domain) :
      FieldsOf py r ⟨"relay", "", 0, "", domain, r.subscription.relayHostnameScope⟩

theorem Issued.carries_fieldsOf {ed : Ed25519} {py : Python} {r : Request ed} {issuedAt : Int}
    {claim : EntitlementClaim} {fields : ClaimFields} {artifact : List Char}
    {payload : Json.Fields} (h : Issued py r issuedAt claim fields artifact payload) :
    Carries r claim ∧ FieldsOf py r fields := by
  have hclaim := h.claimed
  have hfields := h.canonical
  unfold claimForSubscription at hclaim
  split at hclaim
  · cases hclaim
  rename_i periodEnd hend
  have hpaid : unixSeconds periodEnd = unixSeconds (r.subscription.currentPeriodEnd.getD 0) := by
    rw [hend, Option.getD_some]
  dsimp only at hclaim
  split at hclaim
  · rename_i hproduct
    split at hclaim
    · rename_i port _ _ _
      split at hclaim
      · cases hclaim
      rename_i hport
      split at hclaim
      · cases hclaim
      rename_i addr haddr
      obtain rfl := Except.ok.inj hclaim
      refine ⟨⟨rfl, rfl, rfl, rfl, rfl, hpaid⟩, ?_⟩
      simp only [canonicalClaimFields] at hfields
      split at hfields
      · cases hfields
      rename_i hcheck
      simp only [not_or, not_not] at hcheck
      split at hfields
      · cases hfields
      rename_i addr' haddr'
      obtain rfl := Except.ok.inj hfields
      exact .port hproduct (by rw [Request.address, hproduct, haddr]) haddr' hcheck.2.1.1
        hcheck.2.1.2
    · cases hclaim
  · rename_i hproduct
    split at hclaim
    · cases hclaim
    rename_i assignedIp hassigned
    split at hclaim
    · cases hclaim
    rename_i addr haddr
    obtain rfl := Except.ok.inj hclaim
    refine ⟨⟨rfl, rfl, rfl, rfl, rfl, hpaid⟩, ?_⟩
    simp only [canonicalClaimFields] at hfields
    split at hfields
    · cases hfields
    split at hfields
    · cases hfields
    rename_i addr' haddr'
    obtain rfl := Except.ok.inj hfields
    exact .ip hproduct
      (by rw [Request.address, hproduct, hassigned, Option.bind_some, haddr]) haddr'
  · rename_i hproduct
    split at hclaim
    · cases hclaim
    rename_i value hvalue
    cases hhost : canonicalizeHostname py value with
    | error e => rw [hhost] at hclaim; cases hclaim
    | ok domain =>
        rw [hhost] at hclaim
        obtain rfl := Except.ok.inj hclaim
        refine ⟨⟨rfl, rfl, rfl, rfl, rfl, hpaid⟩, ?_⟩
        simp only [canonicalClaimFields] at hfields
        split at hfields
        · cases hfields
        split at hfields
        · cases hfields
        rename_i domain' hdomain'
        obtain rfl := Except.ok.inj hfields
        exact .relay hproduct (by rw [Request.address, hproduct]) hdomain'

/-- The claim the signed fields spell out. -/
def ClaimFields.claim (f : ClaimFields) : Claim where
  kind := ClaimKind.ofText f.kind
  ip := f.ip
  port := UInt16.ofNat f.port
  transport := ClaimTransport.ofText f.transport
  domain := f.domain
  scope := protocolScope f.scope

/-- What both verifiers want of the claim's fields. -/
structure ClaimFields.Accepted (lib : GoJson) (f : ClaimFields) : Prop where
  kind : Json.PlainText f.kind ∧ f.kind.toList.length ≤ 5
  ip : Json.PlainText f.ip ∧ f.ip.toList.length ≤ 45
  transport : Json.PlainText f.transport ∧ f.transport.toList.length ≤ 3
  domain : Json.PlainText f.domain ∧ f.domain.toList.length ≤ 253
  port : f.port < 2 ^ 16
  valid : f.claim.Valid lib.go
  canonical : ∀ p : Payload, p.kind = f.kind → p.ip = f.ip → p.transport = f.transport →
    canonicalClaim p = true
  agent : f.ip ≠ "" → agentCanonicalIP f.ip = true
  wildcard : f.scope = .wildcard → f.kind = "relay"

private theorem plain_transportValue (t : Backend.Transport) :
    Json.PlainText (transportValue t) ∧ (transportValue t).toList.length ≤ 3 := by
  cases t <;> exact ⟨Json.plainText_of_all (by decide), by decide⟩

private theorem plain_kindValue (k : ProductType) :
    Json.PlainText (kindValue k) ∧ (kindValue k).toList.length ≤ 5 := by
  cases k <;> exact ⟨Json.plainText_of_all (by decide), by decide⟩

/-- Without a scope id the signed fields pass. -/
theorem FieldsOf.accepted {ed : Ed25519} {py : Python} {r : Request ed} {f : ClaimFields}
    (h : FieldsOf py r f) (hmapped : ∀ addr, r.address = some addr → addr.is4In6 = false)
    (hzone : ∀ addr, r.address = some addr → addr.zone = none) (lib : GoJson) :
    f.Accepted lib := by
  have hempty : Json.PlainText "" ∧ "".toList.length ≤ 45 ∧ "".toList.length ≤ 253 ∧
      "".toList.length ≤ 3 := by
    exact ⟨Json.plainText_of_all (by decide), by decide, by decide, by decide⟩
  cases h with
  | @port addr addr' port product address again pos le =>
      obtain ⟨hplain, hlen, hparse, hread, hcanonical, hnetip, hsame⟩ :=
        @strIp_spec py addr (hmapped addr address) (hzone addr address)
      obtain rfl : addr' = addr := Option.some_inj.mp (again.symm.trans hsame)
      have htransport := plain_transportValue r.subscription.transport
      constructor
      · exact plain_kindValue .port
      · exact ⟨hplain, hlen⟩
      · exact htransport
      · exact ⟨hempty.1, hempty.2.2.1⟩
      · simp only
        omega
      · have hport : UInt16.ofNat port ≠ 0 := by
          intro h0
          have := congrArg UInt16.toNat h0
          rw [UInt16.toNat_ofNat', Nat.mod_eq_of_lt (by omega)] at this
          have hz : (0 : UInt16).toNat = 0 := rfl
          omega
        refine .port rfl hparse rfl hport ?_ rfl
        cases r.subscription.transport
        · exact Or.inl rfl
        · exact Or.inr rfl
      · intro p hkind hip htr
        simp only [canonicalClaim, hkind, hip, htr]
        rw [show ClaimKind.ofText "port" = .port from rfl]
        simp [hread, hcanonical]
      · intro _
        rw [agentCanonicalIP]
        simp [hread, hnetip]
      · intro hscope
        cases hscope
  | @ip addr addr' product address again =>
      obtain ⟨hplain, hlen, hparse, hread, hcanonical, hnetip, hsame⟩ :=
        @strIp_spec py addr (hmapped addr address) (hzone addr address)
      obtain rfl : addr' = addr := Option.some_inj.mp (again.symm.trans hsame)
      constructor
      · exact plain_kindValue .ip
      · exact ⟨hplain, hlen⟩
      · exact ⟨hempty.1, hempty.2.2.2⟩
      · exact ⟨hempty.1, hempty.2.2.1⟩
      · exact (by decide : 0 < 2 ^ 16)
      · exact .ip rfl hparse rfl rfl (Or.inl rfl) rfl
      · intro p hkind hip htr
        simp only [canonicalClaim, hkind, hip, htr]
        rw [show ClaimKind.ofText "ip" = .ip from rfl]
        simp [hread, hcanonical]
      · intro _
        rw [agentCanonicalIP]
        simp [hread, hnetip]
      · intro hscope
        cases hscope
  | relay product address host =>
      obtain ⟨hvalid, hplain, hlen⟩ := canonicalizeHostname_spec host lib
      constructor
      · exact plain_kindValue .relay
      · exact ⟨hempty.1, hempty.2.1⟩
      · exact ⟨hempty.1, hempty.2.2.2⟩
      · exact ⟨hplain, hlen⟩
      · exact (by decide : 0 < 2 ^ 16)
      · refine .relay rfl hvalid rfl rfl (Or.inl rfl) ?_
        simp only [ClaimFields.claim]
        cases r.subscription.relayHostnameScope
        · exact Or.inl rfl
        · exact Or.inr rfl
      · intro p hkind hip htr
        simp only [canonicalClaim, hkind, hip, htr]
        rw [show ClaimKind.ofText "relay" = .relay from rfl]
        simp
      · intro hne
        exact absurd rfl hne
      · intro _
        rfl

/-! ## the struct that was signed -/

/-- The struct of a request's payload. -/
def Request.payload {ed : Ed25519} (r : Request ed) (issuedAt : Int) (claim : EntitlementClaim)
    (fields : ClaimFields) : Payload :=
  issuedPayload r.signer.keyId claim fields issuedAt.toNat
    (claim.paidThrough.toNat + r.signer.graceSeconds)
    (claim.paidThrough.toNat <<< 31 ||| r.credentialGeneration.toNat) r.jti

theorem entitlementIssuedAt_le {subscription : Subscription} {notBefore now : Datetime}
    {issuedAt : Int} (h : entitlementIssuedAt subscription notBefore now = .ok issuedAt) :
    issuedAt ≤ unixSeconds (subscription.currentPeriodEnd.getD 0) := by
  unfold entitlementIssuedAt at h
  split at h
  · cases h
  · rename_i periodEnd hend
    rw [hend, Option.getD_some]
    have hbound : ∀ start : Datetime,
        (if now < start then .error "entitlement issue time is in the future"
        else if unixSeconds periodEnd < unixSeconds start then
          .error "entitlement issue time is after paid-through"
        else .ok (unixSeconds start) : Except String Int) = .ok issuedAt →
          issuedAt ≤ unixSeconds periodEnd := by
      intro start hstart
      split at hstart
      · cases hstart
      split at hstart
      · cases hstart
      obtain rfl := Except.ok.inj hstart
      omega
    exact hbound _ h

/-- The generation packs its two parts. -/
theorem generation_eq {paid g : Nat} (hg : g < 2 ^ 31) :
    paid <<< 31 ||| g = paid * 2 ^ 31 + g := by
  rw [← Nat.shiftLeft_add_eq_or_of_lt hg, Nat.shiftLeft_eq]

section Signed

variable {ed : Ed25519} {py : Python} {r : Request ed} {issuedAt : Int} {claim : EntitlementClaim}
  {fields : ClaimFields} {artifact : List Char} {payload : Json.Fields} {lib : GoJson}

theorem maxUnixSeconds_eq : maxUnixSeconds = 4294967295 := by decide

/-- The bounds of the signed numbers. -/
theorem Issued.bounds (h : Issued py r issuedAt claim fields artifact payload) :
    issuedAt.toNat ≤ claim.paidThrough.toNat ∧
      claim.paidThrough.toNat + r.signer.graceSeconds ≤ 4294967295 ∧
      1 ≤ r.credentialGeneration.toNat ∧ r.credentialGeneration.toNat < 2 ^ 31 := by
  have hissued := entitlementIssuedAt_le h.issued
  rw [← h.carries_fieldsOf.1.paidThrough] at hissued
  have hgrace := h.grace_le
  rw [maxUnixSeconds_eq] at hgrace
  have hpos := h.generation_pos
  have hle := h.generation_le
  have hnonneg := h.issued_nonneg
  exact ⟨by omega, hgrace, by omega, by omega⟩

theorem length_encoded {bs : List UInt8} {n : Nat} (h : bs.length = n) :
    (String.ofList (Base64.encodeRaw bs)).toList.length = (4 * n + 2) / 3 := by
  rw [String.toList_ofList, Base64.length_encodeRaw, h]

theorem Issued.fits (h : Issued py r issuedAt claim fields artifact payload)
    (hok : fields.Accepted lib) : (r.payload issuedAt claim fields).Fits := by
  obtain ⟨hissued, hgrace, hgpos, hglt⟩ := h.bounds
  have hclient := length_encoded h.clientPk
  have hjti := length_encoded h.jti
  have hgeneration : claim.paidThrough.toNat <<< 31 ||| r.credentialGeneration.toNat < 2 ^ 63 := by
    rw [generation_eq hglt]
    omega
  have hplain : Json.PlainFields (r.payload issuedAt claim fields).fields := by
    apply Payload.plainFields
    · apply Json.plainText_of_all
      simp only [Request.payload, issuedPayload]
      decide
    · exact r.signer.keyId.plain
    · exact plain_uuid _
    · exact plain_uuid _
    · exact plain_uuid _
    · exact plain_encodeRaw _
    · exact claim.edge.plain
    · exact hok.kind.1
    · exact hok.ip.1
    · exact hok.transport.1
    · exact hok.domain.1
    · apply Json.plainText_of_all
      simp only [Request.payload, issuedPayload]
      split <;> decide
    · exact plain_encodeRaw _
  have hversion : (r.payload issuedAt claim fields).version < 10 := by
    simp only [Request.payload, issuedPayload]
    split <;> omega
  have hport := hok.port
  have hscope : (r.payload issuedAt claim fields).scope.toList.length ≤ 8 := by
    simp only [Request.payload, issuedPayload]
    split <;> decide
  refine ⟨hplain, by omega, hport, ?_, ?_, ?_, ?_, ?_, ?_⟩
  · simp only [Request.payload, issuedPayload]
    omega
  · simp only [Request.payload, issuedPayload]
    omega
  · simp only [Request.payload, issuedPayload]
    omega
  · simp only [Request.payload, issuedPayload]
    omega
  · simp only [Request.payload, issuedPayload]
    omega
  · intro escape
    apply Payload.size_le hplain
    · simp only [Request.payload, issuedPayload]
      decide
    · exact hversion
    · exact r.signer.keyId.length_le
    · exact Nat.le_of_eq (length_uuid _)
    · exact Nat.le_of_eq (length_uuid _)
    · exact Nat.le_of_eq (length_uuid _)
    · exact Nat.le_of_eq hclient
    · exact claim.edge.length_le
    · exact hok.kind.2
    · exact hok.ip.2
    · simp only [Request.payload, issuedPayload]
      omega
    · exact hok.transport.2
    · exact hok.domain.2
    · exact hscope
    · simp only [Request.payload, issuedPayload]
      omega
    · simp only [Request.payload, issuedPayload]
      omega
    · simp only [Request.payload, issuedPayload]
      omega
    · simp only [Request.payload, issuedPayload]
      omega
    · simp only [Request.payload, issuedPayload]
      omega
    · exact Nat.le_of_eq hjti

end Signed

/-! ## the checks -/

@[simp] theorem ClaimKind.text_ofText (s : String) : (ClaimKind.ofText s).text = s := by
  unfold ClaimKind.ofText
  split
  · simp_all [ClaimKind.text]
  split
  · simp_all [ClaimKind.text]
  split
  · simp_all [ClaimKind.text]
  · rfl

@[simp] theorem ClaimTransport.text_ofText (s : String) :
    (ClaimTransport.ofText s).text = s := by
  unfold ClaimTransport.ofText
  split
  · simp_all [ClaimTransport.text]
  split
  · simp_all [ClaimTransport.text]
  split
  · simp_all [ClaimTransport.text]
  · rfl

section Checks

variable {ed : Ed25519} {py : Python} {r : Request ed} {issuedAt : Int} {claim : EntitlementClaim}
  {fields : ClaimFields} {artifact : List Char} {payload : Json.Fields} {lib : GoJson}

/-- Version and scope of the payload go together. -/
theorem payload_version (r : Request ed) (issuedAt : Int) (claim : EntitlementClaim)
    (fields : ClaimFields) :
    (fields.scope = .wildcard ∧ (r.payload issuedAt claim fields).version = 2 ∧
      (r.payload issuedAt claim fields).scope = "wildcard") ∨
    (fields.scope = .exact ∧ (r.payload issuedAt claim fields).version = 1 ∧
      (r.payload issuedAt claim fields).scope = "") := by
  cases hscope : fields.scope with
  | exact => exact Or.inr ⟨rfl, by simp [Request.payload, issuedPayload, hscope]⟩
  | wildcard => exact Or.inl ⟨rfl, by simp [Request.payload, issuedPayload, hscope]⟩

theorem payload_claim (r : Request ed) (issuedAt : Int) (claim : EntitlementClaim)
    (fields : ClaimFields) :
    (r.payload issuedAt claim fields).claim (protocolScope fields.scope) = fields.claim := rfl

/-- The times and the generation are in order. -/
theorem Issued.times (h : Issued py r issuedAt claim fields artifact payload) {allowed : Nat}
    (hallowed : r.signer.graceSeconds ≤ allowed) :
    ¬ timesInvalid (r.payload issuedAt claim fields) allowed ∧
      ¬ generationInvalid (r.payload issuedAt claim fields) := by
  obtain ⟨hissued, hgrace, hgpos, hglt⟩ := h.bounds
  constructor
  · simp only [timesInvalid, Request.payload, issuedPayload, maxUnixSeconds_eq]
    omega
  · have hshift : (claim.paidThrough.toNat <<< 31) % 2 ^ 64 = claim.paidThrough.toNat <<< 31 := by
      rw [Nat.shiftLeft_eq]
      exact Nat.mod_eq_of_lt (by omega)
    have hlow : (claim.paidThrough.toNat <<< 31 ||| r.credentialGeneration.toNat) &&&
        (2 ^ 31 - 1) = r.credentialGeneration.toNat := by
      rw [Nat.and_two_pow_sub_one_eq_mod, generation_eq hglt]
      omega
    simp only [generationInvalid, Request.payload, issuedPayload, hlow, hshift, ne_eq,
      not_true_eq_false, or_false, not_or]
    refine ⟨?_, by omega⟩
    rw [generation_eq hglt]
    omega

theorem utf8ByteSize_plain {s : String} (h : Json.PlainText s) :
    s.utf8ByteSize = s.toList.length :=
  utf8ByteSize_of_ascii (ascii_of_plain h)

/-- The relay's checks of the payload. -/
theorem Issued.validatePayload (h : Issued py r issuedAt claim fields artifact payload)
    (hok : fields.Accepted lib) :
    validatePayload lib (r.payload issuedAt claim fields) = .ok () := by
  have hclient : decodeRawBase64 (r.payload issuedAt claim fields).clientKey.toList (some 32) =
      some claim.clientPk := by
    rw [Request.payload, issuedPayload, String.toList_ofList]
    apply decodeRawBase64_encodeRaw
    · intro hnil
      have := h.clientPk
      simp [hnil] at this
    · simp [h.clientPk]
  have hjti : decodeRawBase64 (r.payload issuedAt claim fields).tokenID.toList (some 16) =
      some r.jti := by
    rw [Request.payload, issuedPayload, String.toList_ofList]
    apply decodeRawBase64_encodeRaw
    · intro hnil
      have := h.jti
      simp [hnil] at this
    · simp [h.jti]
  have hform : ¬ ((r.payload issuedAt claim fields).typ ≠ "blindport-offline-entitlement" ∨
      ((r.payload issuedAt claim fields).version ≠ 1 ∧
        (r.payload issuedAt claim fields).version ≠ 2) ∨
      validStableID (r.payload issuedAt claim fields).keyID = false ∨
      validStableID (r.payload issuedAt claim fields).edge = false ∨
      validUUID (r.payload issuedAt claim fields).account = false ∨
      validUUID (r.payload issuedAt claim fields).subscription = false ∨
      validUUID (r.payload issuedAt claim fields).instanceId = false ∨
      45 < (r.payload issuedAt claim fields).ip.utf8ByteSize ∨
      253 < (r.payload issuedAt claim fields).domain.utf8ByteSize ∨
      (r.payload issuedAt claim fields).clientKey.utf8ByteSize ≠ 43 ∨
      (r.payload issuedAt claim fields).tokenID.utf8ByteSize ≠ 22) := by
    simp only [not_or, ne_eq, not_not, Bool.not_eq_false]
    refine ⟨rfl, ?_, r.signer.keyId.validStableID, claim.edge.validStableID, validUUID_text _,
      validUUID_text _, validUUID_text _, ?_, ?_, ?_, ?_⟩
    · obtain ⟨-, hv, -⟩ | ⟨-, hv, -⟩ := payload_version r issuedAt claim fields <;> omega
    · have := utf8ByteSize_plain hok.ip.1
      have := hok.ip.2
      simp only [Request.payload, issuedPayload]
      omega
    · have := utf8ByteSize_plain hok.domain.1
      have := hok.domain.2
      simp only [Request.payload, issuedPayload]
      omega
    · rw [Request.payload, issuedPayload, utf8ByteSize_plain (plain_encodeRaw _),
        length_encoded h.clientPk]
    · rw [Request.payload, issuedPayload, utf8ByteSize_plain (plain_encodeRaw _),
        length_encoded h.jti]
  have hvalid := validateClaim_ok_iff.mpr hok.valid
  have hcanonical : canonicalClaim (r.payload issuedAt claim fields) = true :=
    hok.canonical _ rfl rfl rfl
  rw [Entitlement.validatePayload, if_neg hform, hclient, hjti]
  simp only [reduceCtorEq, if_false]
  obtain ⟨hs, hv, hscope⟩ | ⟨hs, hv, hscope⟩ := payload_version r issuedAt claim fields
  · have hkind : (r.payload issuedAt claim fields).kind = "relay" := hok.wildcard hs
    have hclaim := payload_claim r issuedAt claim fields
    rw [hs, protocolScope] at hclaim
    simp only [hv, hscope, hkind, hclaim, hvalid, hcanonical, if_true, ne_eq, not_true_eq_false,
      or_self, if_false, Bool.true_eq_false]
  · have hclaim := payload_claim r issuedAt claim fields
    rw [hs, protocolScope] at hclaim
    simp only [hv, hscope, hclaim, hvalid, hcanonical, ne_eq, not_true_eq_false,
      or_self, if_false, Bool.true_eq_false, OfNat.one_ne_ofNat]

/-- The agent's checks of the payload, which leave only the instant. -/
theorem Issued.validateMetadata (h : Issued py r issuedAt claim fields artifact payload)
    (hok : fields.Accepted lib) (hgrace : r.signer.graceSeconds ≤ 7 * 24 * 3600) (now : Int) :
    validateEntitlementMetadata lib (r.payload issuedAt claim fields) now = .ok () ↔
      ¬ (now + 60 * second < unixTime issuedAt.toNat ∨
        unixTime (claim.paidThrough.toNat + r.signer.graceSeconds) < now) := by
  have hclient : decodeCanonicalRawBase64 (r.payload issuedAt claim fields).clientKey.toList
      (some 32) = some claim.clientPk := by
    rw [Request.payload, issuedPayload, String.toList_ofList]
    apply decodeCanonicalRawBase64_encodeRaw
    · intro hnil
      have := h.clientPk
      simp [hnil] at this
    · simp [h.clientPk]
  have hjti : decodeCanonicalRawBase64 (r.payload issuedAt claim fields).tokenID.toList
      (some 16) = some r.jti := by
    rw [Request.payload, issuedPayload, String.toList_ofList]
    apply decodeCanonicalRawBase64_encodeRaw
    · intro hnil
      have := h.jti
      simp [hnil] at this
    · simp [h.jti]
  obtain ⟨htimes, hgeneration⟩ := h.times hgrace
  have hform : ∀ P : Prop, ((r.payload issuedAt claim fields).typ ≠
        "blindport-offline-entitlement" ∨
      ((r.payload issuedAt claim fields).version ≠ 1 ∧
        (r.payload issuedAt claim fields).version ≠ 2) ∨
      stableID 63 (r.payload issuedAt claim fields).keyID.toList = false ∨
      isCanonicalInstanceID lib (r.payload issuedAt claim fields).account = false ∨
      isCanonicalInstanceID lib (r.payload issuedAt claim fields).subscription = false ∨
      isCanonicalInstanceID lib (r.payload issuedAt claim fields).instanceId = false ∨
      stableID 63 (r.payload issuedAt claim fields).edge.toList = false ∨
      45 < (r.payload issuedAt claim fields).ip.utf8ByteSize ∨
      253 < (r.payload issuedAt claim fields).domain.utf8ByteSize ∨
      timesInvalid (r.payload issuedAt claim fields) (7 * 24 * 3600) ∨
      generationInvalid (r.payload issuedAt claim fields) ∨ P) ↔ P := by
    intro P
    have hversion : ¬ ((r.payload issuedAt claim fields).version ≠ 1 ∧
        (r.payload issuedAt claim fields).version ≠ 2) := by
      obtain ⟨-, hv, -⟩ | ⟨-, hv, -⟩ := payload_version r issuedAt claim fields <;> omega
    have hip : ¬ 45 < (r.payload issuedAt claim fields).ip.utf8ByteSize := by
      have := utf8ByteSize_plain hok.ip.1
      have := hok.ip.2
      simp only [Request.payload, issuedPayload]
      omega
    have hdomain : ¬ 253 < (r.payload issuedAt claim fields).domain.utf8ByteSize := by
      have := utf8ByteSize_plain hok.domain.1
      have := hok.domain.2
      simp only [Request.payload, issuedPayload]
      omega
    have htyp : ¬ (r.payload issuedAt claim fields).typ ≠ "blindport-offline-entitlement" :=
      fun hne => hne rfl
    have hkid : stableID 63 (r.payload issuedAt claim fields).keyID.toList = true :=
      r.signer.keyId.stable_agent
    have hedge : stableID 63 (r.payload issuedAt claim fields).edge.toList = true :=
      claim.edge.stable_agent
    have haccount : isCanonicalInstanceID lib (r.payload issuedAt claim fields).account = true :=
      isCanonicalInstanceID_text lib _
    have hsub : isCanonicalInstanceID lib (r.payload issuedAt claim fields).subscription = true :=
      isCanonicalInstanceID_text lib _
    have hinst : isCanonicalInstanceID lib (r.payload issuedAt claim fields).instanceId = true :=
      isCanonicalInstanceID_text lib _
    simp only [htyp, hversion, hkid, haccount, hsub, hinst, hedge, hip, hdomain, htimes,
      hgeneration, Bool.true_eq_false, false_or]
  have hscopes : ¬ (((r.payload issuedAt claim fields).version = 1 ∧
      (r.payload issuedAt claim fields).scope ≠ "") ∨
      ((r.payload issuedAt claim fields).version = 2 ∧
        ((r.payload issuedAt claim fields).scope ≠ "wildcard" ∨
          (r.payload issuedAt claim fields).kind ≠ "relay"))) := by
    obtain ⟨hs, hv, hscope⟩ | ⟨hs, hv, hscope⟩ := payload_version r issuedAt claim fields
    · have hkind : (r.payload issuedAt claim fields).kind = "relay" := hok.wildcard hs
      simp [hv, hscope, hkind]
    · simp [hv, hscope]
  have hclaim : (r.payload issuedAt claim fields).claim
      (if (r.payload issuedAt claim fields).version = 2 then .wildcard else .exact) =
        fields.claim := by
    rw [← payload_claim r issuedAt claim fields]
    obtain ⟨hs, hv, -⟩ | ⟨hs, hv, -⟩ := payload_version r issuedAt claim fields
    · rw [hv, hs]
      rfl
    · rw [hv, hs]
      rfl
  have hvalid := validateClaim_ok_iff.mpr hok.valid
  have hagent : ¬ (fields.claim.ip ≠ "" ∧ agentCanonicalIP fields.claim.ip = false) := by
    rintro ⟨hne, hfalse⟩
    rw [show agentCanonicalIP fields.claim.ip = true from hok.agent hne] at hfalse
    cases hfalse
  rw [validateEntitlementMetadata, if_congr (hform _) rfl rfl, hclient, hjti, if_neg hscopes]
  simp only [reduceCtorEq, if_false, hclaim, hvalid, ne_eq, not_true_eq_false, false_or]
  rw [if_neg hagent]
  constructor
  · intro hresult
    split at hresult
    · cases hresult
    · assumption
  · intro hnow
    exact if_neg hnow

end Checks

/-! ## agreement -/

section Agreement

variable {ed : Ed25519} {py : Python} {r : Request ed} {issuedAt : Int} {claim : EntitlementClaim}
  {fields : ClaimFields} {artifact : List Char} {payload : Json.Fields} {lib : GoJson}
  {options : VerifyOptions}

/-- The claim next to the artifact is the signed one. -/
theorem Issued.claim_eq (h : Issued py r issuedAt claim fields artifact payload) :
    r.claim payload = fields.claim := by
  have hscope : (if r.subscription.product = .relay then
      protocolScope r.subscription.relayHostnameScope else HostnameScope.exact) =
        protocolScope fields.scope := by
    cases h.carries_fieldsOf.2 with
    | port product => simp [product, protocolScope]
    | ip product => simp [product, protocolScope]
    | relay product => simp [product]
  rw [Request.claim, ClaimFields.claim, hscope, h.payload_eq]
  rfl

theorem Issued.artifact_of (h : Issued py r issuedAt claim fields artifact payload) :
    artifact = artifactOf (rawPayload py.escape (r.payload issuedAt claim fields))
      (ed.sign r.signer.key (rawPayload py.escape (r.payload issuedAt claim fields))) := by
  rw [h.artifact_eq, h.payload_eq]
  rfl

/-- With matching options only the options' own check and the times are left of
`Verify`. -/
theorem Issued.verify_eq (h : Issued py r issuedAt claim fields artifact payload)
    (hok : fields.Accepted lib) (hmatch : Matches r payload options) (now : Int) :
    verify ed lib options artifact now =
      (validateOptions lib options now).bind fun _ =>
        verifyTimes (r.payload issuedAt claim fields) now options.maxGrace := by
  have hfits := h.fits hok
  have hsize := h.size
  rw [h.artifact_of] at hsize
  have hparse := parseArtifact_artifactOf (rawPayload_ne_nil _)
    (length_rawPayload_le hfits py.escape) (ed.length_sign r.signer.key _) hsize
  have hcarries := h.carries_fieldsOf.1
  have hkey : options.keyring.lookup (r.payload issuedAt claim fields).keyID =
      some (ed.publicKey r.signer.key) := hmatch.key
  have hedge : (r.payload issuedAt claim fields).edge = options.edge := by
    rw [hmatch.edge, ← hcarries.edge]
    rfl
  have hclient : decodeRawBase64 (r.payload issuedAt claim fields).clientKey.toList (some 32) =
      some options.clientPublicKey := by
    rw [hmatch.clientKey, ← hcarries.clientPk, Request.payload, issuedPayload,
      String.toList_ofList]
    apply decodeRawBase64_encodeRaw
    · intro hnil
      have := h.clientPk
      simp [hnil] at this
    · simp [h.clientPk]
  have hsame : sameClaim (r.payload issuedAt claim fields) options.claim = true := by
    have hport : (UInt16.ofNat fields.port).toNat = fields.port := by
      rw [UInt16.toNat_ofNat']
      exact Nat.mod_eq_of_lt hok.port
    rw [hmatch.claim, h.claim_eq]
    cases hs : fields.scope <;>
      simp [sameClaim, Request.payload, issuedPayload, ClaimFields.claim, hport, hs, protocolScope]
  unfold verify
  cases hoptions : validateOptions lib options now with
  | error e => rfl
  | ok u =>
      rw [h.artifact_of, hparse]
      simp only [bind, Except.bind, decodePayload_rawPayload hfits, hkey, ed.length_publicKey,
        ed.verify_sign, h.validatePayload hok, hedge, hsame, hclient, ne_eq, not_true_eq_false,
        or_self, if_false, Bool.true_eq_false]

theorem Issued.times_of_matches (h : Issued py r issuedAt claim fields artifact payload)
    (hmatch : Matches r payload options) :
    ¬ timesInvalid (r.payload issuedAt claim fields) (options.maxGrace / second).toNat ∧
      ¬ generationInvalid (r.payload issuedAt claim fields) := by
  apply h.times
  have hgrace := hmatch.grace
  have hdiv : (r.signer.graceSeconds : Int) ≤ options.maxGrace / second :=
    (Int.le_ediv_iff_mul_le (by decide)).mpr hgrace
  omega

/-- What the relay and the agent return inside the window. -/
theorem Issued.summaries (h : Issued py r issuedAt claim fields artifact payload) :
    (r.payload issuedAt claim fields).summary = r.summary := by
  have hcarries := h.carries_fieldsOf.1
  have hpaid : claim.paidThrough.toNat = r.paidThrough := by
    rw [hcarries.paidThrough, Request.paidThrough]
  simp only [Payload.summary, Request.payload, issuedPayload, Request.summary, Request.graceThrough,
    hpaid, hcarries.account, hcarries.subscription, hcarries.instanceId]

theorem Issued.graceThrough_eq (h : Issued py r issuedAt claim fields artifact payload) :
    claim.paidThrough.toNat + r.signer.graceSeconds = r.graceThrough := by
  rw [Request.graceThrough, Request.paidThrough, h.carries_fieldsOf.1.paidThrough]

/-- An accepted claim makes issuer and verifiers agree. -/
theorem Issued.agrees (h : Issued py r issuedAt claim fields artifact payload)
    (hok : fields.Accepted lib) (hmatch : Matches r payload options) :
    Agrees lib r options artifact issuedAt := by
  have hfits := h.fits hok
  have hgraceNs := hmatch.grace
  have hmax := hmatch.maxGrace
  have hsecond : second = 1000000000 := rfl
  have hgrace : r.signer.graceSeconds ≤ 7 * 24 * 3600 := by
    rw [hsecond] at hgraceNs hmax
    omega
  have hnonneg := h.issued_nonneg
  have hissuedNs : unixTime issuedAt.toNat = issuedAt * second := by
    rw [unixTime, Int.toNat_of_nonneg hnonneg]
  have hthrough := h.graceThrough_eq
  have hmetadata : parseEntitlementMetadata lib artifact =
      .ok (r.payload issuedAt claim fields) := by
    have hversion : (r.payload issuedAt claim fields).version = 2 ↔
        (r.payload issuedAt claim fields).scope ≠ "" := by
      obtain ⟨-, hv, hs⟩ | ⟨-, hv, hs⟩ := payload_version r issuedAt claim fields
      · simp [hv, hs]
      · simp [hv, hs]
    have hsize := h.size
    rw [h.artifact_of] at hsize ⊢
    exact parseEntitlementMetadata_artifactOf hfits hversion lib py.escape
      (ed.length_sign r.signer.key _) hsize
  obtain ⟨htimes, hgeneration⟩ := h.times_of_matches hmatch
  constructor
  · intro now hfrom hto
    rw [hsecond] at hfrom
    have hwindow : ¬ (now + 60 * second < unixTime issuedAt.toNat ∨
        unixTime (claim.paidThrough.toNat + r.signer.graceSeconds) < now) := by
      rw [hissuedNs, hthrough, hsecond]
      omega
    constructor
    · have hvalid : validateOptions lib options now = .ok () := by
        have hclaim := validateClaim_ok_iff.mpr hok.valid
        have hedge : validStableID options.edge = true := by
          rw [hmatch.edge]
          exact r.edge.validStableID
        have hclient : options.clientPublicKey.length = 32 := by
          rw [hmatch.clientKey, ← h.carries_fieldsOf.1.clientPk, h.clientPk]
        have hzero : now ≠ zeroTime := by
          rw [zeroTime, hsecond]
          omega
        have hring : options.keyring.any
            (fun entry => !validStableID entry.1 || entry.2.length ≠ 32) = false := by
          rw [List.any_eq_false]
          intro entry hentry
          obtain ⟨hid, hlen⟩ := hmatch.keyring_ok entry hentry
          simp [hid, hlen]
        have hpos := hmatch.keyring_pos
        have hle := hmatch.keyring_le
        have hgraceNonneg : 0 ≤ options.maxGrace := by
          rw [hsecond] at hgraceNs
          omega
        rw [validateOptions, if_neg, hring, hmatch.claim, h.claim_eq, hclaim]
        · simp
        · simp only [hedge, hclient, hzero, Bool.true_eq_false, ne_eq, not_true_eq_false, false_or]
          omega
      have hresult : verify ed lib options artifact now =
          verifyTimes (r.payload issuedAt claim fields) now options.maxGrace := by
        rw [h.verify_eq hok hmatch, hvalid]
        rfl
      rw [hresult, verifyTimes, if_neg htimes, if_neg hgeneration]
      have hin : ¬ (now + 60 * second < unixTime (r.payload issuedAt claim fields).issuedAt ∨
          unixTime (r.payload issuedAt claim fields).graceThrough < now) := hwindow
      rw [if_neg hin]
      exact ⟨_, rfl, h.summaries⟩
    · exact ⟨_, hmetadata, h.summaries, (h.validateMetadata hok hgrace now).mpr hwindow⟩
  · intro now hafter
    rw [← hthrough] at hafter
    constructor
    · intro v hv
      rw [h.verify_eq hok hmatch] at hv
      cases hoptions : validateOptions lib options now with
      | error e => rw [hoptions] at hv; cases hv
      | ok u =>
          rw [hoptions] at hv
          replace hv : verifyTimes (r.payload issuedAt claim fields) now options.maxGrace =
              .ok v := hv
          have hout : now + 60 * second < unixTime (r.payload issuedAt claim fields).issuedAt ∨
              unixTime (r.payload issuedAt claim fields).graceThrough < now := Or.inr hafter
          rw [verifyTimes, if_neg htimes, if_neg hgeneration, if_pos hout] at hv
          cases hv
    · intro p hp
      rw [hmetadata] at hp
      obtain rfl := Except.ok.inj hp
      rw [ne_eq, h.validateMetadata hok hgrace now, not_not]
      exact Or.inr hafter

/-- A signed scope id is refused by the relay at every instant. -/
theorem Issued.refused (h : Issued py r issuedAt claim fields artifact payload)
    (hmatch : Matches r payload options) {addr : IpAddr} (haddr : r.address = some addr)
    (hzone : addr.zone ≠ none) (now : Int) (v : Verified) :
    verify ed lib options artifact now ≠ .ok v := by
  have hpercent : '%' ∈ fields.claim.ip.toList ∧ fields.claim.kind ≠ .relay := by
    have hagain : ∀ {addr₁ addr₂ : IpAddr}, r.address = some addr₁ →
        ipAddress (py.strIp addr₁) = some addr₂ → '%' ∈ (py.strIp addr₂).toList := by
      intro addr₁ addr₂ h₁ h₂
      obtain rfl : addr₁ = addr := Option.some_inj.mp (h₁.symm.trans haddr)
      exact percent_mem_strIp ((zone_of_ipAddress h₂).mpr (percent_mem_strIp hzone))
    cases h.carries_fieldsOf.2 with
    | port product address again =>
        exact ⟨hagain address again, (by decide : ClaimKind.ofText "port" ≠ .relay)⟩
    | ip product address again =>
        exact ⟨hagain address again, (by decide : ClaimKind.ofText "ip" ≠ .relay)⟩
    | relay product address => rw [haddr] at address; cases address
  have hinvalid : validateClaim lib.go (some options.claim) ≠ .ok () := by
    rw [hmatch.claim, h.claim_eq]
    intro hok
    have hparse := IpAddr.parseIP_of_percent hpercent.1
    cases validateClaim_ok_iff.mp hok with
    | ip kind addr =>
        rw [GoJson.go_parseIP, hparse] at addr
        cases addr
    | port kind addr =>
        rw [GoJson.go_parseIP, hparse] at addr
        cases addr
    | relay kind => exact hpercent.2 kind
  have hoptions : ∃ e, validateOptions lib options now = .error e := by
    rw [validateOptions]
    split
    · exact ⟨_, rfl⟩
    split
    · exact ⟨_, rfl⟩
    · exact ⟨_, rfl⟩
  obtain ⟨e, he⟩ := hoptions
  intro hv
  rw [verify, he] at hv
  cases hv

/-- With a signed scope id issuer and verifiers disagree already at the issue time. -/
theorem Issued.disagrees (h : Issued py r issuedAt claim fields artifact payload)
    (hmatch : Matches r payload options) {addr : IpAddr} (haddr : r.address = some addr)
    (hzone : addr.zone ≠ none) : ¬ Agrees lib r options artifact issuedAt := by
  intro hagrees
  obtain ⟨hissuedLe, -, -, -⟩ := h.bounds
  have hnonneg := h.issued_nonneg
  have hthrough := h.graceThrough_eq
  -- the issue time itself is inside the window
  have hin : issuedAt * second ≤ unixTime r.graceThrough := by
    have hsecond : second = 1000000000 := rfl
    rw [unixTime, ← hthrough, hsecond]
    omega
  obtain ⟨⟨v, hv, -⟩, -⟩ := hagrees.1 (issuedAt * second) (by simp [second]) hin
  exact h.refused hmatch haddr hzone _ v hv

end Agreement

/-- **Offline entitlements agree when the address has no scope id.**  For every
request the backend signs and every relay that serves its edge, claim, client key
and signing key with a grace limit at least the signer's: the relay and the agent
accept the artifact at every instant from a minute before its issue time through
the end of grace, at none after it, and return the account, subscription, instance,
generation and times the backend meant, if and only if the claimed address carries
no IPv6 scope id. -/
theorem entitlement_agrees_iff {ed : Ed25519} (py : Python) (lib : GoJson) (r : Request ed)
    (options : VerifyOptions) {artifact : List Char} {payload : Json.Fields} {issuedAt : Int}
    (hissued : r.issue py = .ok (artifact, payload))
    (hat : entitlementIssuedAt r.subscription r.notBefore r.now = .ok issuedAt)
    (hmatch : Matches r payload options)
    (hmapped : ∀ addr, r.address = some addr → addr.is4In6 = false) :
    Agrees lib r options artifact issuedAt ↔
      ∀ addr, r.address = some addr → addr.zone = none := by
  obtain ⟨issuedAt', claim, fields, h⟩ := issued_of_issue hissued
  obtain rfl : issuedAt' = issuedAt := Except.ok.inj (h.issued.symm.trans hat)
  constructor
  · intro hagrees addr haddr
    by_contra hzone
    exact h.disagrees hmatch haddr hzone hagrees
  · intro hzone
    exact h.agrees (h.carries_fieldsOf.2.accepted hmapped hzone lib) hmatch

/-! ## a sample -/

namespace Sample

/-- A scheme with one key and one signature. -/
def ed : Ed25519 where
  PrivateKey := Unit
  publicKey _ := List.replicate 32 7
  sign _ _ := List.replicate 64 9
  verify key _ signature := key == List.replicate 32 7 && signature == List.replicate 64 9
  length_publicKey _ := by simp
  length_sign _ _ := by simp
  verify_sign _ _ := by simp

/-- Python with the ASCII part of its codec. -/
def py : Python where
  escape c := [c]
  mappedText ip := ip.pyChars
  idna s := some s
  idnaDecodes _ := true

/-- A UUID of one digit. -/
def uuid (n : Fin 16) : Uuid := ⟨List.replicate 32 n, by simp⟩

/-- A Port subscription, paid until 2025-10-09. -/
def subscription : Subscription where
  id := 1
  publicId := uuid 1
  userId := 1
  product := .port
  delivery := .framed
  status := .active
  assignedIp := some "203.0.113.20"
  assignedPort := some 10000
  transport := .tcp
  domain := none
  relayHostnameScope := .exact
  relayPoolDomain := none
  domainIsManaged := false
  domainVerificationToken := none
  domainVerifiedAt := none
  domainClaimExpiresAt := none
  domainRenewalGraceExpiresAt := none
  reservationExpiresAt := none
  reservationPaymentId := none
  resourceQuarantinedUntil := none
  billingTerm := .monthly
  monthlyPriceSats := 5000
  yearlyPriceSats := 50000
  currentPeriodStart := some 1757376000000000
  currentPeriodEnd := some 1759968000000000
  autoRenew := false
  referralAddress := none
  upgradeFromSubscriptionId := none
  upgradeCreditSats := 0
  upgradeSourcePeriodEnd := none
  createdAt := 1757376000000000
  updatedAt := 1757376000000000

/-- A request for the subscription at an edge with an address. -/
def request (relayEdgeIp : String) : Request ed where
  signer := ⟨(), ⟨"k1", by decide⟩, 604800⟩
  subscription := subscription
  account := uuid 2
  instanceId := uuid 3
  clientPk := List.replicate 32 5
  credentialGeneration := 4
  notBefore := 1757376000000000
  edge := ⟨"edge-1", by decide⟩
  relayEdgeIp := relayEdgeIp
  jti := List.replicate 16 6
  now := 1757400000000000

/-- A relay that serves what the payload says. -/
def options (relayEdgeIp : String) (payload : Json.Fields) : VerifyOptions where
  keyring := [("k1", List.replicate 32 7)]
  edge := "edge-1"
  claim := (request relayEdgeIp).claim payload
  clientPublicKey := List.replicate 32 5
  maxGrace := 604800 * second

theorem options_matches (relayEdgeIp : String) (payload : Json.Fields) :
    Matches (request relayEdgeIp) payload (options relayEdgeIp payload) where
  edge := rfl
  claim := rfl
  clientKey := rfl
  keyring_pos := by simp [options]
  keyring_le := by simp [options]
  keyring_ok := by
    intro entry hentry
    simp only [options, List.mem_singleton] at hentry
    rw [hentry]
    decide
  key := by simp [options, request, ed]
  grace := by simp [options, request]
  maxGrace := by simp [options, second]

theorem issue_ok : ((request "203.0.113.20").issue py).toOption.isSome = true ∧
    ((request "fe80::1%eth0").issue py).toOption.isSome = true := by
  decide +kernel

/-- Go with the identity on what the model leaves open. -/
def lib : GoJson where
  escape c := [c]
  other _ := none
  otherKeys _ := none
  lowerRune c := c

/-- The sample's issue time, 2025-09-09. -/
theorem issuedAt_eq (relayEdgeIp : String) :
    entitlementIssuedAt (request relayEdgeIp).subscription (request relayEdgeIp).notBefore
      (request relayEdgeIp).now = .ok 1757376000 := by
  have h : entitlementIssuedAt subscription 1757376000000000 1757400000000000 =
      .ok 1757376000 := by decide
  exact h

/-- A signed request has its artifact and payload. -/
theorem issue_eq {relayEdgeIp : String}
    (h : ((request relayEdgeIp).issue py).toOption.isSome = true) :
    ∃ artifact payload, (request relayEdgeIp).issue py = .ok (artifact, payload) := by
  cases hissue : (request relayEdgeIp).issue py with
  | error e => rw [hissue] at h; cases h
  | ok signed => exact ⟨signed.1, signed.2, rfl⟩

theorem plain_address : ∀ addr, (request "203.0.113.20").address = some addr →
    addr.is4In6 = false ∧ addr.zone = none := by
  have h : ((request "203.0.113.20").address.all
      fun addr => !addr.is4In6 && addr.zone.isNone) = true := by decide +kernel
  intro addr haddr
  rw [haddr] at h
  simpa using h

theorem scoped_address : ∃ addr, (request "fe80::1%eth0").address = some addr ∧
    addr.zone ≠ none ∧ addr.is4In6 = false := by
  have h : ((request "fe80::1%eth0").address.any
      fun addr => addr.zone.isSome && !addr.is4In6) = true := by decide +kernel
  obtain ⟨addr, haddr, hzone⟩ := (Option.any_eq_true _ _).mp h
  simp only [Bool.and_eq_true, Bool.not_eq_true'] at hzone
  exact ⟨addr, haddr, Option.isSome_iff_ne_none.mp hzone.1, hzone.2⟩

end Sample

/-- The artifact for an edge with a plain address is accepted through its grace. -/
theorem plain_address_agrees : ∃ artifact payload,
    (Sample.request "203.0.113.20").issue Sample.py = .ok (artifact, payload) ∧
    Agrees Sample.lib (Sample.request "203.0.113.20") (Sample.options "203.0.113.20" payload)
      artifact 1757376000 := by
  obtain ⟨artifact, payload, hissue⟩ := Sample.issue_eq Sample.issue_ok.1
  have hiff := entitlement_agrees_iff Sample.py Sample.lib (Sample.request "203.0.113.20")
    (Sample.options "203.0.113.20" payload) hissue (Sample.issuedAt_eq _)
    (Sample.options_matches _ _) (fun addr haddr => (Sample.plain_address addr haddr).1)
  exact ⟨artifact, payload, hissue,
    hiff.mpr (fun addr haddr => (Sample.plain_address addr haddr).2)⟩

/-- The artifact for a Port edge configured with a scoped address is signed and never
accepted. -/
theorem scoped_address_disagrees : ∃ artifact payload,
    (Sample.request "fe80::1%eth0").issue Sample.py = .ok (artifact, payload) ∧
    Matches (Sample.request "fe80::1%eth0") payload (Sample.options "fe80::1%eth0" payload) ∧
    (∀ addr, (Sample.request "fe80::1%eth0").address = some addr → addr.is4In6 = false) ∧
    ¬ Agrees Sample.lib (Sample.request "fe80::1%eth0") (Sample.options "fe80::1%eth0" payload)
      artifact 1757376000 := by
  obtain ⟨artifact, payload, hissue⟩ := Sample.issue_eq Sample.issue_ok.2
  obtain ⟨addr, haddr, hzone, hmapped⟩ := Sample.scoped_address
  obtain ⟨issuedAt, claim, fields, h⟩ := issued_of_issue hissue
  obtain rfl : issuedAt = 1757376000 :=
    Except.ok.inj (h.issued.symm.trans (Sample.issuedAt_eq _))
  have hmatch := Sample.options_matches "fe80::1%eth0" payload
  refine ⟨artifact, payload, hissue, hmatch, ?_, h.disagrees hmatch haddr hzone⟩
  intro addr' haddr'
  obtain rfl : addr' = addr := Option.some_inj.mp (haddr'.symm.trans haddr)
  exact hmapped

end Entitlement
