import Blindport.Text.HostPort
import Blindport.Wire.Reader

/-!
# Blindport.Ingress.ProxyProto

`internal/proxyproto/proxyproto.go`: the PROXY protocol v2 header that `V2` puts in
front of a stream and `readV2Header` takes off again.

A text is a list of characters; a byte that is no ASCII character is some other
character.  `readV2Header_V2` says that the reader finds what the writer was given
and leaves what follows, with or without TLVs, and `readV2Header_consumes` that it
never takes more than the length the header declares.
-/

namespace ProxyProto

open Wire HostPort

def signature : Bytes :=
  [0x0d, 0x0a, 0x0d, 0x0a, 0, 0x0d, 0x0a, 0x51, 0x55, 0x49, 0x54, 0x0a]

def v2FixedHeaderLength : Nat := 16
def maxV2PayloadLength : Nat := 4096

/-! ## the writer -/

/-- `parseAddress`. -/
def parseAddress (value : List Char) : Option (IpAddr × Nat) :=
  match splitHostPort value with
  | .error _ => none
  | .ok (host, rawPort) =>
      -- A zone identifies a local interface, not wire address bytes.
      match IpAddr.parse (fun _ => true) (host.takeWhile (· ≠ '%')) with
      | none => none
      | some addr =>
          match parseUint16 rawPort with
          | none => none
          | some port =>
              if port = 0 ∨ Nat.toDigits 10 port ≠ rawPort then none else some (addr.unmap, port)

/-- `V2`. -/
def V2 (source destination : List Char) : Except String Bytes :=
  match parseAddress source with
  | none => .error "invalid source address"
  | some (sourceAddr, sourcePort) =>
      match parseAddress destination with
      | none => .error "invalid destination address"
      | some (destinationAddr, destinationPort) =>
          if sourceAddr.isUnspecified then .error "source address is unspecified"
          else if sourceAddr.is4 then
            let destinationAddr :=
              if destinationAddr.is4 = false ∨ destinationAddr.isUnspecified then
                IpAddr.ipv4Unspecified
              else destinationAddr
            .ok (signature ++ [0x21, 0x11] ++ putUint16 12 ++
              (sourceAddr.asSlice ++ destinationAddr.asSlice ++ putUint16 sourcePort ++
                putUint16 destinationPort))
          else
            let destinationAddr :=
              if destinationAddr.is4 ∨ destinationAddr.isUnspecified then IpAddr.ipv6Unspecified
              else destinationAddr
            .ok (signature ++ [0x21, 0x21] ++ putUint16 36 ++
              (sourceAddr.asSlice ++ destinationAddr.asSlice ++ putUint16 sourcePort ++
                putUint16 destinationPort))

/-! ## the reader -/

/-- The errors of `readV2Header`. -/
inductive HeaderError where
  | read (context : String) (cause : ReadError)
  | invalid (text : String)
deriving DecidableEq

/-- `net.TCPAddr`. -/
structure TCPAddr where
  ip : Bytes
  port : Nat
deriving DecidableEq

/-- `tcpAddr`. -/
def tcpAddr (address : IpAddr) (port : Nat) : TCPAddr := ⟨address.asSlice, port⟩

/-- `v2AddressLength`. -/
def v2AddressLength (familyTransport : UInt8) : Except String Nat :=
  if familyTransport = 0x11 then .ok 12
  else if familyTransport = 0x21 then .ok 36
  else .error "unsupported PROXY v2 family or transport"

/-- The checks of `readV2Header` on the fixed bytes: the length of the addresses and
the length of the payload. -/
def checkFixed (fixed : Bytes) : Except String (Nat × Nat) :=
  if fixed.take signature.length ≠ signature then .error "invalid PROXY v2 signature"
  else if fixed.getD 12 0 >>> 4 ≠ 0x2 then .error "invalid PROXY v2 version"
  else if fixed.getD 12 0 &&& 0x0f ≠ 0x1 then .error "unsupported PROXY v2 command"
  else
    match v2AddressLength (fixed.getD 13 0) with
    | .error text => .error text
    | .ok addressLength =>
        let payloadLength := uint16 (fixed.getD 14 0) (fixed.getD 15 0)
        if payloadLength > maxV2PayloadLength then .error "PROXY v2 payload exceeds limit"
        else if payloadLength < addressLength then .error "invalid PROXY v2 payload length"
        else .ok (addressLength, payloadLength)

/-- `validateV2TLVs`. -/
def validateV2TLVs : Bytes → Except String Unit
  | [] => .ok ()
  | [_] => .error "truncated PROXY v2 TLV"
  | [_, _] => .error "truncated PROXY v2 TLV"
  | _ :: high :: low :: tlvs =>
      if uint16 high low > tlvs.length then .error "truncated PROXY v2 TLV value"
      else validateV2TLVs (tlvs.drop (uint16 high low))
termination_by tlvs => tlvs.length
decreasing_by
  simp only [List.length_drop, List.length_cons]
  omega

/-- `v2Addresses`; the payload is long enough for the family. -/
def v2Addresses (familyTransport : UInt8) (payload : Bytes) :
    Option IpAddr × Option IpAddr × Nat × Nat :=
  if familyTransport = 0x11 then
    (IpAddr.addrFromSlice (payload.take 4), IpAddr.addrFromSlice ((payload.drop 4).take 4),
      uint16 (payload.getD 8 0) (payload.getD 9 0), uint16 (payload.getD 10 0) (payload.getD 11 0))
  else
    (IpAddr.addrFromSlice (payload.take 16), IpAddr.addrFromSlice ((payload.drop 16).take 16),
      uint16 (payload.getD 32 0) (payload.getD 33 0),
      uint16 (payload.getD 34 0) (payload.getD 35 0))

/-- What `readV2Header` does with the payload. -/
def readPayload (familyTransport : UInt8) (addressLength : Nat) (payload : Bytes) :
    Except String (TCPAddr × TCPAddr) :=
  match validateV2TLVs (payload.drop addressLength) with
  | .error text => .error text
  | .ok () =>
      match v2Addresses familyTransport payload with
      | (some source, some destination, sourcePort, destinationPort) =>
          if source.unmap.isUnspecified then .error "PROXY v2 source address is unspecified"
          else if sourcePort = 0 then .error "PROXY v2 source port is zero"
          else .ok (tcpAddr source sourcePort, tcpAddr destination destinationPort)
      -- The zero `Addr`, which four and sixteen bytes never make.
      | (_, _, _, _) => .error ""

/-- `readV2Header`, and what is left of the stream. -/
def readV2Header {σ : Type} (R : Source σ) (s : σ) :
    Except HeaderError (TCPAddr × TCPAddr) × σ :=
  match R.readFull s v2FixedHeaderLength with
  | (.error e, s) => (.error (.read "read PROXY v2 header" e), s)
  | (.ok fixed, s) =>
      match checkFixed fixed with
      | .error text => (.error (.invalid text), s)
      | .ok (addressLength, payloadLength) =>
          match R.readFull s payloadLength with
          | (.error e, s) => (.error (.read "read PROXY v2 payload" e), s)
          | (.ok payload, s) =>
              match readPayload (fixed.getD 13 0) addressLength payload with
              | .error text => (.error (.invalid text), s)
              | .ok addresses => (.ok addresses, s)

/-! ## texts and endpoints -/

/-- The text names the address, without its zone and as IPv4 where it can be, and
the port. -/
def Names (text : List Char) (addr : IpAddr) (port : Nat) : Prop :=
  ∃ host parsed, splitHostPort text = .ok (host, Nat.toDigits 10 port) ∧
    IpAddr.parse (fun _ => true) (host.takeWhile (· ≠ '%')) = some parsed ∧
    addr = parsed.unmap ∧ 0 < port ∧ port < 2 ^ 16

theorem parseAddress_eq_some {text : List Char} {addr : IpAddr} {port : Nat} :
    parseAddress text = some (addr, port) ↔ Names text addr port := by
  constructor
  · intro h
    rw [parseAddress] at h
    split at h
    · contradiction
    · rename_i host rawPort hsplit
      split at h
      · contradiction
      · rename_i parsed hparse
        split at h
        · contradiction
        · rename_i n hport
          split at h
          · contradiction
          · rename_i hcanonical
            rw [not_or, not_not] at hcanonical
            obtain ⟨hpos, rfl⟩ := hcanonical
            obtain ⟨rfl, rfl⟩ := Prod.mk.inj (Option.some.inj h)
            exact ⟨host, parsed, hsplit, hparse, rfl, Nat.pos_of_ne_zero hpos,
              parseUint16_lt hport⟩
  · rintro ⟨host, parsed, hsplit, hparse, rfl, hpos, hlt⟩
    rw [parseAddress, hsplit]
    simp only [hparse, parseUint16_toDigits hlt]
    have hcanonical : ¬(port = 0 ∨ Nat.toDigits 10 port ≠ Nat.toDigits 10 port) := by
      rintro (hzero | hne)
      · omega
      · exact hne rfl
    rw [if_neg hcanonical]

/-- The parser takes a zone from behind a percent sign only. -/
theorem zone_of_parse {cs : List Char} {addr : IpAddr} (hcs : '%' ∉ cs)
    (h : IpAddr.parse (fun _ => true) cs = some addr) : addr.zone = none := by
  rw [IpAddr.parse, if_neg hcs] at h
  split at h
  · obtain rfl := Option.some.inj h
    rfl
  · obtain ⟨ip, -, rfl⟩ := Option.map_eq_some_iff.mp h
    rfl

/-- The address of a text has no zone and is not an IPv4 address in IPv6. -/
theorem Names.plain {text : List Char} {addr : IpAddr} {port : Nat} (h : Names text addr port) :
    addr.zone = none ∧ addr.unmap = addr := by
  obtain ⟨host, parsed, -, hparse, rfl, -, -⟩ := h
  have hpercent : '%' ∉ host.takeWhile (fun c => decide (c ≠ '%')) := by
    intro hmem
    have hne := List.mem_takeWhile_imp hmem
    simp at hne
  have hzone := zone_of_parse hpercent hparse
  cases parsed with
  | v4 ip => exact ⟨rfl, rfl⟩
  | v6 ip zone =>
      by_cases hmapped : ip.is4In6 = true
      · simp [IpAddr.unmap, hmapped, IpAddr.zone]
      · simp only [IpAddr.zone] at hzone
        simp [IpAddr.unmap, hmapped, IpAddr.zone, hzone]

/-- **Printed endpoints.**  A text that `net.JoinHostPort` makes from what
`netip.Addr.String` prints names this address without its zone, and as IPv4 if it is
one. -/
theorem names_joinHostPort (addr : IpAddr) {port : Nat} (hopen : '[' ∉ addr.zone.getD [])
    (hclose : ']' ∉ addr.zone.getD []) (hpos : 0 < port) (hlt : port < 2 ^ 16) :
    Names (joinHostPort addr.netipChars port) addr.withoutZone.unmap port := by
  obtain ⟨host, heq, hpercent, hopen', hclose', hparse⟩ := IpAddr.parse_netipChars addr
  have hzone : ∀ c, c ≠ '%' → c ∉ addr.zone.getD [] → c ∉ (addr.zone.map ('%' :: ·)).getD [] := by
    intro c hc hnot
    cases hz : addr.zone with
    | none => simp
    | some z =>
        rw [hz] at hnot
        simpa [hc] using hnot
  have htake : addr.netipChars.takeWhile (fun c => decide (c ≠ '%')) = host := by
    rw [heq, List.takeWhile_append_of_pos fun c hc => by
      rw [decide_eq_true_eq]
      rintro rfl
      exact hpercent hc]
    cases addr.zone with
    | none => simp
    | some z => simp
  refine ⟨addr.netipChars, addr.withoutZone, splitHostPort_join ?_ ?_ port, ?_, rfl, hpos, hlt⟩
  · rw [heq, List.mem_append, not_or]
    exact ⟨hopen', hzone _ (by decide) hopen⟩
  · rw [heq, List.mem_append, not_or]
    exact ⟨hclose', hzone _ (by decide) hclose⟩
  · rw [htake, hparse]

/-- The destination a header can carry: that of the connection when both ends are of
one family. -/
def wireDestination (source destination : IpAddr) : IpAddr :=
  if source.is4 = destination.is4 then destination
  else if source.is4 then IpAddr.ipv4Unspecified
  else IpAddr.ipv6Unspecified

/-- The family byte of a source address. -/
def familyTransport (source : IpAddr) : UInt8 := if source.is4 then 0x11 else 0x21

/-- The payload of a header without TLVs. -/
def addressBlock (source destination : IpAddr) (sourcePort destinationPort : Nat) : Bytes :=
  source.asSlice ++ destination.asSlice ++ putUint16 sourcePort ++ putUint16 destinationPort

/-- A header: the fixed bytes, then the payload. -/
def header (familyTransport : UInt8) (payload : Bytes) : Bytes :=
  signature ++ [0x21, familyTransport] ++ vector16 payload

theorem is4_wireDestination (source destination : IpAddr) :
    (wireDestination source destination).is4 = source.is4 := by
  unfold wireDestination
  by_cases hsame : source.is4 = destination.is4
  · rw [if_pos hsame, hsame]
  · rw [if_neg hsame]
    cases hs : source.is4 with
    | true => rfl
    | false => rfl

theorem zone_wireDestination (source : IpAddr) {destination : IpAddr}
    (h : destination.zone = none) :
    (wireDestination source destination).zone = none := by
  unfold wireDestination
  split
  · exact h
  · split <;> rfl

/-- An unspecified address is that of its family. -/
theorem eq_unspecified {addr : IpAddr} (h : addr.isUnspecified = true) :
    addr = if addr.is4 then IpAddr.ipv4Unspecified else IpAddr.ipv6Unspecified := by
  cases of_decide_eq_true h with
  | inl h => rw [h]; rfl
  | inr h => rw [h]; rfl

/-- Both branches of `V2` write the destination a header can carry. -/
theorem wireDestination_eq (source destination : IpAddr) :
    wireDestination source destination =
      if source.is4 ≠ destination.is4 ∨ destination.isUnspecified then
        if source.is4 then IpAddr.ipv4Unspecified else IpAddr.ipv6Unspecified
      else destination := by
  unfold wireDestination
  by_cases hsame : source.is4 = destination.is4
  · rw [if_pos hsame]
    by_cases hun : destination.isUnspecified = true
    · rw [if_pos (Or.inr hun), hsame]
      exact eq_unspecified hun
    · rw [if_neg (by rintro (h | h); exacts [h hsame, hun h])]
  · rw [if_neg hsame, if_pos (Or.inl hsame)]

theorem length_addressBlock (source destination : IpAddr) (sourcePort destinationPort : Nat) :
    (addressBlock source (wireDestination source destination) sourcePort destinationPort).length =
      if source.is4 then 12 else 36 := by
  rw [addressBlock, List.length_append, List.length_append, List.length_append,
    IpAddr.length_asSlice, IpAddr.length_asSlice, is4_wireDestination, length_putUint16,
    length_putUint16]
  cases source.is4 with
  | true => rfl
  | false => rfl

/-- What `V2` accepts, and the header it makes. -/
theorem V2_eq_ok {source destination : List Char} {bs : Bytes}
    (h : V2 source destination = .ok bs) :
    ∃ sourceAddr sourcePort destinationAddr destinationPort,
      Names source sourceAddr sourcePort ∧ Names destination destinationAddr destinationPort ∧
      sourceAddr.isUnspecified = false ∧
      bs = header (familyTransport sourceAddr)
        (addressBlock sourceAddr (wireDestination sourceAddr destinationAddr) sourcePort
          destinationPort) := by
  rw [V2] at h
  split at h
  · contradiction
  · rename_i sourceAddr sourcePort hsource
    split at h
    · contradiction
    · rename_i destinationAddr destinationPort hdestination
      refine ⟨sourceAddr, sourcePort, destinationAddr, destinationPort,
        parseAddress_eq_some.mp hsource, parseAddress_eq_some.mp hdestination, ?_⟩
      have hlen := length_addressBlock sourceAddr destinationAddr sourcePort destinationPort
      have hwire := wireDestination_eq sourceAddr destinationAddr
      split at h
      · contradiction
      · rename_i hspecified
        refine ⟨by simpa using hspecified, ?_⟩
        split at h
        · rename_i his4
          simp only [his4, if_true] at hlen hwire
          rw [← Except.ok.inj h, header, vector16, hlen, familyTransport, if_pos his4, addressBlock,
            hwire]
          cases hd : destinationAddr.is4 <;> simp
        · rename_i his4
          simp only [his4, if_false, Bool.false_eq_true] at hlen hwire
          rw [← Except.ok.inj h, header, vector16, hlen, familyTransport, if_neg his4, addressBlock,
            hwire]
          cases hd : destinationAddr.is4 <;> simp

/-! ## TLVs -/

/-- One TLV: its type, then its value behind two bytes of length. -/
def tlv (t : UInt8 × Bytes) : Bytes := t.1 :: vector16 t.2

/-- A byte string that is TLVs one after the other. -/
def WellFormed (block : Bytes) : Prop :=
  ∃ tlvs : List (UInt8 × Bytes), (∀ t ∈ tlvs, t.2.length < 2 ^ 16) ∧ block = tlvs.flatMap tlv

theorem validateV2TLVs_tlv {t : UInt8 × Bytes} (ht : t.2.length < 2 ^ 16) (rest : Bytes) :
    validateV2TLVs (tlv t ++ rest) = validateV2TLVs rest := by
  have happ : tlv t ++ rest = t.1 :: UInt8.ofNat (t.2.length / 256) ::
      UInt8.ofNat t.2.length :: (t.2 ++ rest) := by
    simp [tlv, vector16, putUint16]
  rw [happ, validateV2TLVs, uint16_putUint16 ht, if_neg (by rw [List.length_append]; omega),
    List.drop_left' rfl]

/-- The validator takes exactly the well-formed blocks. -/
theorem validateV2TLVs_eq_ok (block : Bytes) :
    validateV2TLVs block = .ok () ↔ WellFormed block := by
  constructor
  · intro h
    induction block using validateV2TLVs.induct with
    | case1 => exact ⟨[], by simp, rfl⟩
    | case2 => simp [validateV2TLVs] at h
    | case3 => simp [validateV2TLVs] at h
    | case4 t high low tlvs hlong => simp [validateV2TLVs, hlong] at h
    | case5 t high low tlvs hfits ih =>
        rw [validateV2TLVs, if_neg hfits] at h
        obtain ⟨rest, hrest, hflat⟩ := ih h
        have hlen : (tlvs.take (uint16 high low)).length = uint16 high low := by
          rw [List.length_take]
          omega
        have hlt := uint16_lt high low
        refine ⟨(t, tlvs.take (uint16 high low)) :: rest, ?_, ?_⟩
        · intro x hx
          cases List.mem_cons.mp hx with
          | inl hx => rw [hx, hlen]; exact hlt
          | inr hx => exact hrest x hx
        · rw [List.flatMap_cons, ← hflat, tlv, vector16, hlen, putUint16_uint16, List.cons_append,
            List.append_assoc, List.take_append_drop]
          rfl
  · rintro ⟨tlvs, hall, rfl⟩
    induction tlvs with
    | nil => simp [validateV2TLVs]
    | cons t tlvs ih =>
        rw [List.flatMap_cons, validateV2TLVs_tlv (hall t List.mem_cons_self)]
        exact ih fun u hu => hall u (List.mem_cons_of_mem _ hu)

/-! ## reading what was written -/

section RoundTrip

variable {source destination : IpAddr} {sourcePort destinationPort : Nat} {block : Bytes}

/-- A byte behind a front of known length. -/
theorem getD_behind {front rest : Bytes} {n : Nat} (h : front.length = n) (k : Nat) :
    (front ++ rest).getD (n + k) 0 = rest.getD k 0 := by
  rw [List.getD_eq_getElem?_getD, List.getD_eq_getElem?_getD, List.getElem?_append_right (by omega),
    ← h, Nat.add_sub_cancel_left]

/-- The addresses are read back from the front of the payload. -/
theorem v2Addresses_addressBlock (hsource : source.zone = none)
    (hdestination : destination.zone = none) (hfamily : destination.is4 = source.is4)
    (hport : sourcePort < 2 ^ 16)
    (hport' : destinationPort < 2 ^ 16) (block : Bytes) :
    v2Addresses (familyTransport source)
        (addressBlock source destination sourcePort destinationPort ++ block) =
      (some source, some destination, sourcePort, destinationPort) := by
  have hlen := IpAddr.length_asSlice source
  have hlen' := IpAddr.length_asSlice destination
  have hsrc := IpAddr.addrFromSlice_asSlice hsource
  have hdst := IpAddr.addrFromSlice_asSlice hdestination
  rw [hfamily] at hlen'
  have hpayload : addressBlock source destination sourcePort destinationPort ++ block =
      source.asSlice ++ (destination.asSlice ++ (putUint16 sourcePort ++
        (putUint16 destinationPort ++ block))) := by
    simp [addressBlock]
  have hports : addressBlock source destination sourcePort destinationPort ++ block =
      (source.asSlice ++ destination.asSlice) ++ (putUint16 sourcePort ++
        (putUint16 destinationPort ++ block)) := by
    simp [addressBlock]
  have hfront : ∀ n, source.asSlice.length = n → destination.asSlice.length = n →
      (source.asSlice ++ destination.asSlice).length = 2 * n := by
    intro n h h'
    rw [List.length_append, h, h']
    omega
  unfold v2Addresses familyTransport
  cases his4 : source.is4 with
  | true =>
      simp only [his4, if_true] at hlen hlen'
      have hbyte : ∀ k, (addressBlock source destination sourcePort destinationPort ++
          block).getD (8 + k) 0 =
          (putUint16 sourcePort ++ (putUint16 destinationPort ++ block)).getD k 0 := by
        intro k
        rw [hports]
        exact getD_behind (hfront 4 hlen hlen') k
      have h₀ := hbyte 0
      have h₁ := hbyte 1
      have h₂ := hbyte 2
      have h₃ := hbyte 3
      simp only [if_true, h₀, h₁, h₂, h₃]
      rw [hpayload, List.take_left' hlen, List.drop_left' hlen, List.take_left' hlen', hsrc, hdst]
      exact congrArg₂ _ rfl (congrArg₂ _ rfl (Prod.ext (uint16_putUint16 hport)
        (uint16_putUint16 hport')))
  | false =>
      simp only [his4, if_false, Bool.false_eq_true] at hlen hlen'
      have hbyte : ∀ k, (addressBlock source destination sourcePort destinationPort ++
          block).getD (32 + k) 0 =
          (putUint16 sourcePort ++ (putUint16 destinationPort ++ block)).getD k 0 := by
        intro k
        rw [hports]
        exact getD_behind (hfront 16 hlen hlen') k
      have h₀ := hbyte 0
      have h₁ := hbyte 1
      have h₂ := hbyte 2
      have h₃ := hbyte 3
      rw [if_neg (by decide)]
      simp only [h₀, h₁, h₂, h₃]
      rw [hpayload, List.take_left' hlen, List.drop_left' hlen, List.take_left' hlen', hsrc, hdst]
      exact congrArg₂ _ rfl (congrArg₂ _ rfl (Prod.ext (uint16_putUint16 hport)
        (uint16_putUint16 hport')))

/-- What `readV2Header` makes of the payload that `V2` wrote, with TLVs behind it. -/
theorem readPayload_addressBlock (hsource : source.zone = none) (hunmapped : source.unmap = source)
    (hspecified : source.isUnspecified = false) (hdestination : destination.zone = none)
    (hfamily : destination.is4 = source.is4) (hpos : 0 < sourcePort) (hport : sourcePort < 2 ^ 16)
    (hport' : destinationPort < 2 ^ 16) (hblock : WellFormed block) {addressLength : Nat}
    (hlen : (addressBlock source destination sourcePort destinationPort).length =
      addressLength) :
    readPayload (familyTransport source) addressLength
        (addressBlock source destination sourcePort destinationPort ++ block) =
      .ok (tcpAddr source sourcePort, tcpAddr destination destinationPort) := by
  rw [readPayload, List.drop_left' hlen, (validateV2TLVs_eq_ok block).mpr hblock]
  simp only [v2Addresses_addressBlock hsource hdestination hfamily hport hport', hunmapped,
    hspecified, Bool.false_eq_true, if_false]
  rw [if_neg (by omega)]

/-- The checks on the fixed bytes of a header. -/
theorem checkFixed_header {n : Nat} (hn : n < 2 ^ 16) (source : IpAddr) :
    checkFixed (signature ++ [0x21, familyTransport source] ++ putUint16 n) =
      let addressLength := if source.is4 then 12 else 36
      if n > maxV2PayloadLength then .error "PROXY v2 payload exceeds limit"
      else if n < addressLength then .error "invalid PROXY v2 payload length"
      else .ok (addressLength, n) := by
  have hbytes : signature ++ [0x21, familyTransport source] ++ putUint16 n =
      [0x0d, 0x0a, 0x0d, 0x0a, 0, 0x0d, 0x0a, 0x51, 0x55, 0x49, 0x54, 0x0a, 0x21,
        familyTransport source, UInt8.ofNat (n / 256), UInt8.ofNat n] := rfl
  have hlength : v2AddressLength (familyTransport source) =
      .ok (if source.is4 then 12 else 36) := by
    unfold familyTransport
    cases source.is4 with
    | true => rfl
    | false => rfl
  have htake : (signature ++ [0x21, familyTransport source] ++ putUint16 n).take
      signature.length = signature := by
    rw [List.append_assoc]
    exact List.take_left' rfl
  have hversion : ¬((0x21 : UInt8) >>> 4 ≠ 0x2) := by decide
  have hcommand : ¬((0x21 : UInt8) &&& 0x0f ≠ 0x1) := by decide
  rw [checkFixed, if_neg (not_not.mpr htake), hbytes]
  simp only [List.getD_cons_succ, List.getD_cons_zero, if_neg hversion, if_neg hcommand, hlength,
    uint16_putUint16 hn]

variable {σ : Type} {R : Source σ} {s : σ}

/-- A header with TLVs is read, and nothing behind it. -/
theorem readV2Header_header (hsource : source.zone = none) (hunmapped : source.unmap = source)
    (hspecified : source.isUnspecified = false) (hdestination : destination.zone = none)
    (hpos : 0 < sourcePort) (hport : sourcePort < 2 ^ 16) (hport' : destinationPort < 2 ^ 16)
    (hblock : WellFormed block)
    (hlimit : (addressBlock source (wireDestination source destination) sourcePort
      destinationPort ++ block).length ≤ maxV2PayloadLength) {following : Bytes}
    (hs : R.unread s = header (familyTransport source) (addressBlock source
      (wireDestination source destination) sourcePort destinationPort ++ block) ++ following) :
    ∃ s', readV2Header R s = (.ok (tcpAddr source sourcePort,
        tcpAddr (wireDestination source destination) destinationPort), s') ∧
      R.unread s' = following := by
  have hlength := length_addressBlock source destination sourcePort destinationPort
  generalize hpayload : addressBlock source (wireDestination source destination) sourcePort
    destinationPort ++ block = payload at hs hlimit
  have hlt : payload.length < 2 ^ 16 := by
    unfold maxV2PayloadLength at hlimit
    omega
  have hfront : R.unread s = (signature ++ [0x21, familyTransport source] ++
      putUint16 payload.length) ++ (payload ++ following) := by
    rw [hs, header, vector16]
    simp only [List.append_assoc]
  obtain ⟨s₁, hfixed, hs₁⟩ := Source.readFull_append hfront (n := v2FixedHeaderLength) rfl
  obtain ⟨s₂, hread, hs₂⟩ := Source.readFull_append hs₁ (n := payload.length) rfl
  have hchecked := checkFixed_header hlt source
  have hle : ¬payload.length < if source.is4 then 12 else 36 := by
    rw [← hlength, ← hpayload, List.length_append]
    omega
  simp only [if_neg (Nat.not_lt.mpr hlimit), if_neg hle] at hchecked
  have hresult := readPayload_addressBlock hsource hunmapped hspecified
    (zone_wireDestination source hdestination) (is4_wireDestination source destination)
    hpos hport hport' hblock hlength
  refine ⟨s₂, ?_, hs₂⟩
  rw [readV2Header, hfixed]
  simp only [hchecked, hread]
  have hfamily : (signature ++ [0x21, familyTransport source] ++
      putUint16 payload.length).getD 13 0 = familyTransport source := rfl
  rw [hfamily, ← hpayload, hresult]

end RoundTrip

/-- The header with TLVs behind its addresses and the length that counts them. -/
def insertTLVs (bs block : Bytes) : Bytes :=
  bs.take 14 ++ putUint16 (bs.length - v2FixedHeaderLength + block.length) ++
    bs.drop v2FixedHeaderLength ++ block

theorem insertTLVs_header (f : UInt8) (payload block : Bytes) :
    insertTLVs (header f payload) block = header f (payload ++ block) := by
  have happ : header f payload =
      (signature ++ [0x21, f]) ++ (putUint16 payload.length ++ payload) := rfl
  have htake : (header f payload).take 14 = signature ++ [0x21, f] := by
    rw [happ]
    exact List.take_left' rfl
  have hdrop : (header f payload).drop v2FixedHeaderLength = payload := by
    rw [happ, ← List.append_assoc]
    exact List.drop_left' rfl
  have hlen : (header f payload).length - v2FixedHeaderLength = payload.length := by
    rw [happ, ← List.append_assoc, List.length_append]
    exact Nat.add_sub_cancel_left _ _
  rw [insertTLVs, htake, hdrop, hlen, header, vector16, List.length_append]
  simp only [List.append_assoc]

/-! ## what is taken -/

/-- The payload length that the first bytes of a stream declare. -/
def declaredLength (bs : Bytes) : Nat := uint16 (bs.getD 14 0) (bs.getD 15 0)

theorem checkFixed_eq_ok {fixed : Bytes} {addressLength payloadLength : Nat}
    (h : checkFixed fixed = .ok (addressLength, payloadLength)) :
    payloadLength = declaredLength fixed := by
  simp only [checkFixed] at h
  split at h
  · contradiction
  · split at h
    · contradiction
    · split at h
      · contradiction
      · split at h
        · contradiction
        · split at h
          · contradiction
          · split at h
            · contradiction
            · exact (Prod.mk.inj (Except.ok.inj h)).2.symm

/-- Whatever arrives, no more is taken than the fixed bytes and the payload they
declare. -/
theorem readV2Header_consumes {σ : Type} (R : Source σ) (s : σ) :
    ∃ taken, R.unread s = taken ++ R.unread (readV2Header R s).2 ∧
      taken.length ≤ v2FixedHeaderLength + declaredLength (R.unread s) := by
  obtain ⟨taken, hlen, htaken⟩ := Source.readFull_consumes R s v2FixedHeaderLength
  rw [readV2Header]
  cases hfixed : R.readFull s v2FixedHeaderLength with
  | mk result s₁ =>
      rw [hfixed] at htaken
      cases result with
      | error e => exact ⟨taken, htaken, Nat.le_add_right_of_le hlen⟩
      | ok fixed =>
          obtain ⟨hfull, hunread⟩ := Source.unread_of_readFull hfixed
          simp only
          cases hchecked : checkFixed fixed with
          | error text => exact ⟨taken, htaken, Nat.le_add_right_of_le hlen⟩
          | ok lengths =>
              obtain ⟨addressLength, payloadLength⟩ := lengths
              have hdeclared : payloadLength = declaredLength (R.unread s) := by
                have hbyte : ∀ i, i < 16 → (R.unread s).getD i 0 = fixed.getD i 0 := by
                  intro i hi
                  rw [hunread, List.getD_eq_getElem?_getD, List.getD_eq_getElem?_getD,
                    List.getElem?_append_left (by rw [hfull]; exact hi)]
                rw [checkFixed_eq_ok hchecked, declaredLength, declaredLength,
                  hbyte 14 (by omega), hbyte 15 (by omega)]
              obtain ⟨more, hmore, hrest⟩ := Source.readFull_consumes R s₁ payloadLength
              have hall : ∃ taken, R.unread s =
                  taken ++ R.unread (R.readFull s₁ payloadLength).2 ∧
                  taken.length ≤ v2FixedHeaderLength + declaredLength (R.unread s) := by
                refine ⟨fixed ++ more, ?_, ?_⟩
                · rw [List.append_assoc, ← hrest]
                  exact hunread
                · rw [List.length_append]
                  omega
              simp only
              cases hread : R.readFull s₁ payloadLength with
              | mk result s₂ =>
                  rw [hread] at hall
                  cases result with
                  | error e => exact hall
                  | ok payload =>
                      simp only
                      cases readPayload (fixed.getD 13 0) addressLength payload with
                      | error text => exact hall
                      | ok addresses => exact hall

/-! ## the round trip -/

/-- **The PROXY v2 round trip.**  Whatever texts `V2` accepts and whatever follows its
header, `readV2Header` returns the endpoints the texts name, the destination as far as
the header carries it, and leaves what follows.  TLVs behind the addresses change
nothing, and no input makes it take more than the length the header declares. -/
theorem readV2Header_V2 {σ : Type} (R : Source σ) :
    (∀ (source destination : List Char) (bs : Bytes), V2 source destination = .ok bs →
      ∃ sourceAddr sourcePort destinationAddr destinationPort,
        Names source sourceAddr sourcePort ∧ Names destination destinationAddr destinationPort ∧
        (∀ (s : σ) (following : Bytes), R.unread s = bs ++ following →
          ∃ s', readV2Header R s = (.ok (tcpAddr sourceAddr sourcePort,
              tcpAddr (wireDestination sourceAddr destinationAddr) destinationPort), s') ∧
            R.unread s' = following) ∧
        ∀ (s : σ) (block following : Bytes), WellFormed block →
          bs.length - v2FixedHeaderLength + block.length ≤ maxV2PayloadLength →
          R.unread s = insertTLVs bs block ++ following →
          ∃ s', readV2Header R s = (.ok (tcpAddr sourceAddr sourcePort,
              tcpAddr (wireDestination sourceAddr destinationAddr) destinationPort), s') ∧
            R.unread s' = following) ∧
    ∀ s : σ, ∃ taken, R.unread s = taken ++ R.unread (readV2Header R s).2 ∧
      taken.length ≤ v2FixedHeaderLength + declaredLength (R.unread s) := by
  refine ⟨fun source destination bs h => ?_, readV2Header_consumes R⟩
  obtain ⟨sourceAddr, sourcePort, destinationAddr, destinationPort, hsource, hdestination,
    hspecified, rfl⟩ := V2_eq_ok h
  obtain ⟨hzone, hunmapped⟩ := hsource.plain
  have hzone' := hdestination.plain.1
  have ⟨_, _, _, _, _, hpos, hport⟩ := hsource
  have ⟨_, _, _, _, _, _, hport'⟩ := hdestination
  have hlength := length_addressBlock sourceAddr destinationAddr sourcePort destinationPort
  refine ⟨sourceAddr, sourcePort, destinationAddr, destinationPort, hsource, hdestination, ?_, ?_⟩
  · intro s following hs
    have hempty : WellFormed [] := ⟨[], by simp, rfl⟩
    refine readV2Header_header hzone hunmapped hspecified hzone' hpos hport hport' hempty ?_
      (by rwa [List.append_nil])
    rw [List.append_nil, hlength]
    split <;> decide
  · intro s block following hblock hlimit hs
    rw [insertTLVs_header] at hs
    refine readV2Header_header hzone hunmapped hspecified hzone' hpos hport hport' hblock ?_ hs
    rw [List.length_append]
    have hheader : (header (familyTransport sourceAddr) (addressBlock sourceAddr
        (wireDestination sourceAddr destinationAddr) sourcePort destinationPort)).length =
        v2FixedHeaderLength + (addressBlock sourceAddr
          (wireDestination sourceAddr destinationAddr) sourcePort destinationPort).length := by
      rw [header, vector16, ← List.append_assoc, List.length_append]
      rfl
    rw [hheader, Nat.add_sub_cancel_left] at hlimit
    exact hlimit

/-- A mapped source with a zone, a destination of the other family, and one TLV. -/
theorem readV2Header_V2_sample :
    ∃ bs, V2 "[::ffff:192.0.2.1%eth0]:1234".toList "[2001:db8::2]:443".toList = .ok bs ∧
      ∃ s', readV2Header pieces [insertTLVs bs [0xea, 0, 1, 7] ++ [0x16, 3]] =
          (.ok (⟨[192, 0, 2, 1], 1234⟩, ⟨[0, 0, 0, 0], 443⟩), s') ∧
        pieces.unread s' = [0x16, 3] := by
  have hV2 : ∃ bs, V2 "[::ffff:192.0.2.1%eth0]:1234".toList "[2001:db8::2]:443".toList = .ok bs ∧
      bs.length = 28 := by
    have hlen : (V2 "[::ffff:192.0.2.1%eth0]:1234".toList "[2001:db8::2]:443".toList).map
        List.length = .ok 28 := by
      decide +kernel
    cases h : V2 "[::ffff:192.0.2.1%eth0]:1234".toList "[2001:db8::2]:443".toList with
    | error text =>
        rw [h] at hlen
        contradiction
    | ok bs =>
        rw [h] at hlen
        exact ⟨bs, rfl, Except.ok.inj hlen⟩
  obtain ⟨bs, hbs, hlen⟩ := hV2
  obtain ⟨a, p, b, q, ha, hb, -, htlvs⟩ := (readV2Header_V2 pieces).1 _ _ bs hbs
  have hsource : parseAddress "[::ffff:192.0.2.1%eth0]:1234".toList =
      some (.v4 ⟨192, 0, 2, 1⟩, 1234) := by
    decide +kernel
  have hdestination : (parseAddress "[2001:db8::2]:443".toList).map
      (fun e => (e.1.is4, e.2)) = some (false, 443) := by
    decide +kernel
  rw [parseAddress_eq_some.mpr ha] at hsource
  rw [parseAddress_eq_some.mpr hb] at hdestination
  obtain ⟨rfl, rfl⟩ := Prod.mk.inj (Option.some.inj hsource)
  obtain ⟨hfamily, rfl⟩ := Prod.mk.inj (Option.some.inj hdestination)
  obtain ⟨s', hread, hunread⟩ := htlvs [insertTLVs bs [0xea, 0, 1, 7] ++ [0x16, 3]]
    [0xea, 0, 1, 7] [0x16, 3] ⟨[(0xea, [7])], by decide, by decide⟩ (by rw [hlen]; decide)
    (List.flatten_singleton ..)
  refine ⟨bs, hbs, s', ?_, hunread⟩
  rw [hread, wireDestination, hfamily]
  rfl

end ProxyProto
