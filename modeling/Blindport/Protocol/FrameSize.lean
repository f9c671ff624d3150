import Blindport.Entitlement.Texts
import Blindport.Protocol.Frame
import Blindport.Text.AddressText

/-!
# Blindport.Protocol.FrameSize

How large the frames are that the program builds: those of a stream fit `MaxFrameSize`
whatever they carry (`Frame.OfStream.fits`), and the HELLO of
`exchangeHelloWithEntitlement` fits `MaxHelloFrameSize` (`Hello.size_le`).
-/

namespace Protocol

open Wire Json

/-! ## the parts of a frame -/

/-- The names of the members. -/
def Frame.names : List String :=
  ["type", "version", "token", "entitlement", "claim", "msg", "stream", "proto", "src", "dst",
    "dst_addr", "data", "credit", "capabilities", "kind", "ip", "domain", "port", "transport",
    "scope"]

/-- Every name is plain and has at most twelve letters. -/
theorem size_name_le (name : String) (h : name ∈ Frame.names) :
    size (quote goEscape name) ≤ 14 := by
  have hall : ∀ name ∈ Frame.names, size (quote goEscape name) ≤ 14 := by decide
  exact hall name h

theorem room_optionalText_le (name : String) (h : name ∈ Frame.names) (value : String) :
    room (optionalText name value) ≤ size (quote goEscape value) + 16 := by
  have hle := room_omitEmpty_le (value = "") name (quote goEscape value)
  have hname := size_name_le name h
  unfold optionalText
  omega

theorem room_optionalNumber_le (name : String) (h : name ∈ Frame.names) {value k : Nat}
    (hvalue : value < 10 ^ k) (hk : 0 < k) : room (optionalNumber name value) ≤ k + 16 := by
  have hle := room_omitEmpty_le (value = 0) name (Nat.toDigits 10 value)
  have hname := size_name_le name h
  have hdigits := size_digits_le hvalue hk
  unfold optionalNumber
  omega

@[simp] theorem optionalText_empty (name : String) : optionalText name "" = [] := by
  rw [optionalText, omitEmpty, if_pos (by decide)]

@[simp] theorem optionalNumber_zero (name : String) : optionalNumber name 0 = [] := by
  rw [optionalNumber, omitEmpty, if_pos (by decide)]

theorem length_marshal_le (f : Frame) : f.marshal.length ≤ room f.members + 2 :=
  size_bracketed_le (by decide) (by decide) f.members

/-! ## the frames of a stream -/

/-- The frames that the tunnel writes for an open stream. -/
inductive Frame.OfStream : Frame → Prop where
  | data (stream : UInt32) (p : Bytes) (h : p.length ≤ maxDataPayloadSize) :
      OfStream { type := .data, stream, data := p }
  | datagram (stream : UInt32) (p : Bytes) (h : p.length ≤ maxDatagramPayloadSize) :
      OfStream { type := .datagram, stream, data := p }
  | windowUpdate (stream credit : UInt32) : OfStream { type := .windowUpdate, stream, credit }
  | closeWrite (stream : UInt32) : OfStream { type := .closeWrite, stream }
  | close (stream : UInt32) : OfStream { type := .close, stream }

/-- What such a frame takes beside its type and payload. -/
theorem room_ofStream_le (type : FrameType) (stream credit : UInt32) (p : Bytes) :
    room (Frame.members { type, stream, data := p, credit }) ≤
      size (quote goEscape type.text) + 4 * ((p.length + 2) / 3) + 86 := by
  have hstream := room_optionalNumber_le "stream" (by decide)
    (lt_of_lt_of_le stream.toNat_lt (by decide : 2 ^ 32 ≤ 10 ^ 10)) (by decide)
  have hcredit := room_optionalNumber_le "credit" (by decide)
    (lt_of_lt_of_le credit.toNat_lt (by decide : 2 ^ 32 ≤ 10 ^ 10)) (by decide)
  have hdata := room_omitEmpty_le (p = []) "data" (quoteBytes p)
  have htype := size_name_le "type" (by decide)
  have hname := size_name_le "data" (by decide)
  rw [size_quoteBytes] at hdata
  have hzero : (0 : UInt16).toNat = 0 := rfl
  rw [Frame.members, hzero]
  simp only [optionalText_empty, optionalNumber_zero, Option.map_none, Option.toList_none,
    decide_true, omitEmpty_true, room_append, room_cons, room_nil, size_member]
  omega

/-- **The frames of a stream fit**, whatever they carry. -/
theorem Frame.OfStream.fits {f : Frame} (h : f.OfStream) : f.Fits := by
  have hsize (type : FrameType) (stream credit : UInt32) (p : Bytes)
      (htype : size (quote goEscape type.text) ≤ 15) (hp : p.length ≤ maxDatagramPayloadSize) :
      (Frame.marshal { type, stream, data := p, credit }).length ≤ maxFrameSize := by
    have hle := length_marshal_le { type, stream, data := p, credit }
    have hroom := room_ofStream_le type stream credit p
    unfold maxDatagramPayloadSize at hp
    unfold maxFrameSize
    omega
  cases h with
  | data stream p hp =>
      have hp' : p.length ≤ maxDatagramPayloadSize := le_trans hp (by decide)
      refine ⟨?_, hsize .data stream 0 p (by decide) hp'⟩
      rw [Frame.payloadError, if_neg fun h => Nat.not_lt.mpr hp h.2, if_neg (by simp)]
  | datagram stream p hp =>
      refine ⟨?_, hsize .datagram stream 0 p (by decide) hp⟩
      rw [Frame.payloadError, if_neg (by simp), if_neg fun h => Nat.not_lt.mpr hp h.2]
  | windowUpdate stream credit =>
      exact ⟨rfl, hsize .windowUpdate stream credit [] (by decide) (by decide)⟩
  | closeWrite stream => exact ⟨rfl, hsize .closeWrite stream 0 [] (by decide) (by decide)⟩
  | close stream => exact ⟨rfl, hsize .close stream 0 [] (by decide) (by decide)⟩

/-! ## HELLO -/

/-- The HELLO that `exchangeHelloWithEntitlement` writes. -/
def hello (token : String) (claim : Option Claim) (entitlement : String) : Frame :=
  let capabilities := [.tcpHalfClose, .streamFlowControl]
  let hello : Frame := { type := .hello, version := currentVersion, token, claim, capabilities }
  if entitlement ≠ "" then
    let offline :=
      if claim.any (·.scope = .wildcard) then .offlineEntitlementV2 else .offlineEntitlementV1
    { hello with entitlement, capabilities := capabilities ++ [offline] }
  else hello

/-- The address of a validated claim is one that `net.ParseIP` takes. -/
theorem Claim.Valid.texts {lib : Entitlement.GoJson} {c : Claim} (h : c.Valid lib.go) :
    size (quote goEscape c.ip) ≤ 172 ∧ size (quote goEscape c.domain) ≤ 255 := by
  have haddr {s : String} (h : lib.go.parseIP s = true) : size (quote goEscape s) ≤ 172 := by
    obtain ⟨hlen, hplain⟩ := IpAddr.parseIP_text h
    rw [size_quote_plain hplain]
    omega
  have hname {s : String} (h : validHostname lib.go s = true) : size (quote goEscape s) ≤ 255 := by
    unfold validHostname at h
    split at h
    · contradiction
    · rename_i hn
      rw [not_or, not_or] at hn
      rw [size_quote_plain (Entitlement.plain_of_labels h)]
      omega
  have hempty : size (quote goEscape "") = 2 := by decide
  cases h with
  | ip _ addr domain => exact ⟨haddr addr, by rw [domain, hempty]; decide⟩
  | port _ addr domain => exact ⟨haddr addr, by rw [domain, hempty]; decide⟩
  | relay _ domain ip => exact ⟨by rw [ip, hempty]; decide, hname domain⟩

/-- A validated claim takes at most 600 bytes. -/
theorem Claim.Valid.size_json {lib : Entitlement.GoJson} {c : Claim} (h : c.Valid lib.go) :
    size c.json ≤ 600 := by
  obtain ⟨hip, hdomain⟩ := h.texts
  have hkinds : size (quote goEscape c.kind.text) ≤ 7 ∧ size (quote goEscape c.transport.text) ≤ 5 ∧
      size (quote goEscape c.scope.text) ≤ 10 := by
    cases h with
    | ip kind _ _ _ transport scope =>
        rw [kind, scope]
        exact ⟨by decide, by obtain h | h := transport <;> rw [h] <;> decide, by decide⟩
    | port kind _ _ _ transport scope =>
        rw [kind, scope]
        exact ⟨by decide, by obtain h | h := transport <;> rw [h] <;> decide, by decide⟩
    | relay kind _ _ _ transport scope =>
        rw [kind]
        exact ⟨by decide, by obtain h | h := transport <;> rw [h] <;> decide,
          by obtain h | h := scope <;> rw [h] <;> decide⟩
  have hbrackets : size c.json ≤ room c.members + 2 :=
    size_bracketed_le (by decide) (by decide) c.members
  have hkind := size_name_le "kind" (by decide)
  have hipRoom := room_optionalText_le "ip" (by decide) c.ip
  have hdomainRoom := room_optionalText_le "domain" (by decide) c.domain
  have hport := room_optionalNumber_le "port" (by decide)
    (lt_of_lt_of_le c.port.toNat_lt (by decide : 2 ^ 16 ≤ 10 ^ 5)) (by decide)
  have htransport := room_optionalText_le "transport" (by decide) c.transport.text
  have hscope := room_optionalText_le "scope" (by decide) c.scope.text
  simp only [Claim.members, room_append, room_cons, room_nil, size_member] at hbrackets
  omega

/-- The artifacts the agent has: none, or one that `parseEntitlementMetadata` has
taken. -/
def Artifact (lib : Entitlement.GoJson) (entitlement : String) : Prop :=
  entitlement = "" ∨
    ∃ payload, Entitlement.parseEntitlementMetadata lib entitlement.toList = .ok payload

/-- The characters of a canonical base64 text need no escape. -/
theorem plain_of_decodeCanonical {value : List Char} {length : Option Nat} {bs : Bytes}
    (h : Entitlement.decodeCanonicalRawBase64 value length = some bs) :
    ∀ c ∈ value, plain c = true := by
  unfold Entitlement.decodeCanonicalRawBase64 at h
  split at h
  · contradiction
  · split at h
    · contradiction
    · split at h
      · contradiction
      · rename_i decoded _ hcanonical
        rw [not_or, not_not] at hcanonical
        intro c hc
        rw [← hcanonical.1] at hc
        exact (Entitlement.mem_encodeRaw_class hc).2.2.2

/-- What `parseEntitlementMetadata` takes is short and needs no escape. -/
theorem parseEntitlementMetadata_text {lib : Entitlement.GoJson} {value : List Char}
    {payload : Entitlement.Payload}
    (h : Entitlement.parseEntitlementMetadata lib value = .ok payload) :
    value.length ≤ 2048 ∧ ∀ c ∈ value, plain c = true := by
  simp only [Entitlement.parseEntitlementMetadata] at h
  split at h
  · contradiction
  · rename_i hshape
    rw [not_or, not_or] at hshape
    refine ⟨Nat.le_of_not_lt hshape.2.1, ?_⟩
    split at h
    · rename_i version payloadText signature hsplit
      split at h
      · contradiction
      · rename_i hversion
        rw [ne_eq, not_not] at hversion
        split at h
        · contradiction
        · rename_i payloadBytes hpayload
          split at h
          · split at h
            · contradiction
            · split at h
              · contradiction
              · rename_i hsignature
                obtain ⟨signatureBytes, hsignature⟩ := Option.ne_none_iff_exists'.mp hsignature
                intro c hc
                have hjoin : ['.'].intercalate (value.splitOn '.') = value :=
                  List.intercalate_splitOn '.'
                rw [← hjoin, hsplit] at hc
                cases mem_intercalate hc with
                | inl hdot => rw [hdot]; decide
                | inr hpart =>
                    obtain ⟨part, hpart, hmem⟩ := hpart
                    simp only [List.mem_cons, List.not_mem_nil, or_false] at hpart
                    obtain rfl | rfl | rfl := hpart
                    · have hv1 : PlainText "v1" := plainText_of_all (by decide)
                      exact hv1 c (hversion ▸ hmem)
                    · exact plain_of_decodeCanonical hpayload c hmem
                    · exact plain_of_decodeCanonical hsignature c hmem
          · contradiction
    · contradiction

/-- An artifact is short and needs no escape. -/
theorem Artifact.text {lib : Entitlement.GoJson} {entitlement : String}
    (h : Artifact lib entitlement) : entitlement.utf8ByteSize ≤ 2048 ∧ PlainText entitlement := by
  obtain rfl | ⟨payload, h⟩ := h
  · exact ⟨by decide, by simp [PlainText]⟩
  · obtain ⟨hlen, hplain⟩ := parseEntitlementMetadata_text h
    refine ⟨?_, hplain⟩
    rw [← size_eq_utf8ByteSize, size_ascii fun c hc => plain_ascii (hplain c hc)]
    exact hlen

/-- The capabilities a HELLO can offer. -/
def offers : List (List Capability) :=
  [[.tcpHalfClose, .streamFlowControl],
    [.tcpHalfClose, .streamFlowControl, .offlineEntitlementV1],
    [.tcpHalfClose, .streamFlowControl, .offlineEntitlementV2]]

theorem hello_eq (token : String) (claim : Option Claim) (entitlement : String) :
    ∃ capabilities ∈ offers, hello token claim entitlement =
      { type := .hello, version := currentVersion, token, claim, entitlement, capabilities } := by
  unfold hello
  simp only
  split
  · split
    · exact ⟨_, by simp [offers], rfl⟩
    · exact ⟨_, by simp [offers], rfl⟩
  · rename_i hempty
    rw [ne_eq, not_not] at hempty
    subst hempty
    exact ⟨_, by simp [offers], rfl⟩

/-- **The HELLO fits.** -/
theorem hello_fits {lib : Entitlement.GoJson} {token entitlement : String} {c : Claim}
    (htoken : token.utf8ByteSize ≤ 512) (hclaim : validateClaim lib.go (some c) = .ok ())
    (hartifact : Artifact lib entitlement) :
    (hello token (some c) entitlement).Fits ∧
      (hello token (some c) entitlement).marshal.length ≤ maxHelloFrameSize := by
  obtain ⟨hlen, hplain⟩ := hartifact.text
  have hentitlement := size_quote_plain hplain
  have hquote := size_quote_le token
  have hjson := (validateClaim_ok_iff.mp hclaim).size_json
  obtain ⟨capabilities, hoffer, heq⟩ := hello_eq token (some c) entitlement
  rw [heq]
  have hsize : (Frame.mk .hello currentVersion token entitlement (some c) "" 0 "" "" "" "" [] 0
      capabilities).marshal.length ≤ maxHelloFrameSize := by
    unfold maxHelloFrameSize
    have hle := length_marshal_le (Frame.mk .hello currentVersion token entitlement (some c) "" 0 ""
      "" "" "" [] 0 capabilities)
    have htype := size_name_le "type" (by decide)
    have hclaimName := size_name_le "claim" (by decide)
    have hversion : room (optionalNumber "version" currentVersion.toNat) ≤ 1 + 16 :=
      room_optionalNumber_le "version" (by decide) (by decide) (by decide)
    have htokenRoom := room_optionalText_le "token" (by decide) token
    have hentitlementRoom := room_optionalText_le "entitlement" (by decide) entitlement
    have hcapabilities : ∀ capabilities ∈ offers,
        room (omitEmpty (capabilities = []) "capabilities" (bracketed '[' ']'
          (capabilities.map fun c => quote goEscape c.text))) ≤ 120 := by decide
    have hcapabilitiesRoom := hcapabilities capabilities hoffer
    have hhello : size (quote goEscape FrameType.hello.text) = 7 := by decide
    have hstream : (0 : UInt32).toNat = 0 := rfl
    simp only [Frame.members, hstream, optionalText_empty, optionalNumber_zero, Option.map_some,
      Option.toList_some, decide_true, omitEmpty_true, room_append, room_cons, room_nil,
      size_member] at hle
    omega
  exact ⟨⟨rfl, le_trans hsize (by decide)⟩, hsize⟩

end Protocol
