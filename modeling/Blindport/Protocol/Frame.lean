import Blindport.Protocol.Claim
import Blindport.Text.GoJson
import Blindport.Wire.Reader

/-!
# Blindport.Protocol.Frame

`protocol.go`: frames on the wire, four bytes of length and then a JSON object.
`marshal` writes the object as `json.Marshal` does; `json.Unmarshal` is a parameter of
the reader, and what is said about it is that it reads back what `marshal` wrote for
the frames at hand.

`readFrames_writeFrames` is the round trip over a whole sequence: the reader returns
the frames that were written and stops where they end.
-/

namespace Protocol

open Wire Json

/-! ## frames -/

/-- The texts of the known frame types. -/
def FrameType.known : List String :=
  ["hello", "hello_ok", "hello_err", "open", "data", "datagram", "window_update", "close_write",
    "close", "ping", "pong"]

/-- `FrameType`; any other text is `unknown`. -/
inductive FrameType where
  | hello
  | helloOK
  | helloErr
  | opening
  | data
  | datagram
  | windowUpdate
  | closeWrite
  | close
  | ping
  | pong
  | unknown (text : String) (other : text ∉ FrameType.known)
deriving DecidableEq

/-- `string(FrameType)`. -/
def FrameType.text : FrameType → String
  | .hello => "hello"
  | .helloOK => "hello_ok"
  | .helloErr => "hello_err"
  | .opening => "open"
  | .data => "data"
  | .datagram => "datagram"
  | .windowUpdate => "window_update"
  | .closeWrite => "close_write"
  | .close => "close"
  | .ping => "ping"
  | .pong => "pong"
  | .unknown text _ => text

/-- The texts of the known capabilities. -/
def Capability.known : List String :=
  ["tcp_half_close", "stream_flow_control", "offline_entitlement_v1", "offline_entitlement_v2"]

/-- `Capability`; any other text is `unknown`. -/
inductive Capability where
  | tcpHalfClose
  | streamFlowControl
  | offlineEntitlementV1
  | offlineEntitlementV2
  | unknown (text : String) (other : text ∉ Capability.known)
deriving DecidableEq

/-- `string(Capability)`. -/
def Capability.text : Capability → String
  | .tcpHalfClose => "tcp_half_close"
  | .streamFlowControl => "stream_flow_control"
  | .offlineEntitlementV1 => "offline_entitlement_v1"
  | .offlineEntitlementV2 => "offline_entitlement_v2"
  | .unknown text _ => text

/-- `string(RelayHostnameScope)`. -/
def HostnameScope.text : HostnameScope → String
  | .exact => ""
  | .wildcard => "wildcard"
  | .unknown text => text

/-- `RelayHostnameScope(text)`. -/
def HostnameScope.ofText (text : String) : HostnameScope :=
  if text = "" then .exact else if text = "wildcard" then .wildcard else .unknown text

/-- `Frame`, with Go's zero values; a nil slice is an empty one. -/
structure Frame where
  type : FrameType
  version : UInt16 := 0
  token : String := ""
  entitlement : String := ""
  claim : Option Claim := none
  msg : String := ""
  stream : UInt32 := 0
  proto : String := ""
  src : String := ""
  dst : String := ""
  dstAddr : String := ""
  data : Bytes := []
  credit : UInt32 := 0
  capabilities : List Capability := []
deriving DecidableEq

/-- The claim with the kinds that its texts stand for. -/
def Claim.canonical (c : Claim) : Claim :=
  { c with
    kind := .ofText c.kind.text
    transport := .ofText c.transport.text
    scope := .ofText c.scope.text }

/-- The frame with the claim its texts stand for. -/
def Frame.canonical (f : Frame) : Frame := { f with claim := f.claim.map (·.canonical) }

def currentVersion : UInt16 := 1
def maxFrameSize : Nat := 2 ^ 20
def maxHelloFrameSize : Nat := 8 * 2 ^ 10
def maxDataPayloadSize : Nat := 16 * 2 ^ 10
def maxDatagramPayloadSize : Nat := 65507

/-! ## the JSON form -/

/-- A text that is left out when it is empty. -/
def optionalText (name value : String) : List (List Char) :=
  omitEmpty (value = "") name (quote goEscape value)

/-- A number that is left out when it is zero. -/
def optionalNumber (name : String) (value : Nat) : List (List Char) :=
  omitEmpty (value = 0) name (Nat.toDigits 10 value)

/-- The members of a `Claim`. -/
def Claim.members (c : Claim) : List (List Char) :=
  [member "kind" (quote goEscape c.kind.text)] ++ optionalText "ip" c.ip ++
    optionalText "domain" c.domain ++ optionalNumber "port" c.port.toNat ++
    optionalText "transport" c.transport.text ++ optionalText "scope" c.scope.text

/-- The JSON form of a `Claim`. -/
def Claim.json (c : Claim) : List Char := bracketed '\x7b' '\x7d' c.members

/-- The members of a `Frame`. -/
def Frame.members (f : Frame) : List (List Char) :=
  [member "type" (quote goEscape f.type.text)] ++ optionalNumber "version" f.version.toNat ++
    optionalText "token" f.token ++ optionalText "entitlement" f.entitlement ++
    (f.claim.map fun c => member "claim" c.json).toList ++ optionalText "msg" f.msg ++
    optionalNumber "stream" f.stream.toNat ++ optionalText "proto" f.proto ++
    optionalText "src" f.src ++ optionalText "dst" f.dst ++ optionalText "dst_addr" f.dstAddr ++
    omitEmpty (f.data = []) "data" (quoteBytes f.data) ++
    optionalNumber "credit" f.credit.toNat ++
    omitEmpty (f.capabilities = []) "capabilities"
      (bracketed '[' ']' (f.capabilities.map fun c => quote goEscape c.text))

/-- `json.Marshal`; a frame holds nothing it fails on. -/
def Frame.marshal (f : Frame) : Bytes := utf8 (bracketed '\x7b' '\x7d' f.members)

theorem Frame.length_marshal_pos (f : Frame) : 0 < f.marshal.length := by
  have hsize : f.marshal.length = size (bracketed '\x7b' '\x7d' f.members) := rfl
  have hbrace := Char.utf8Size_pos '\x7b'
  rw [hsize, bracketed, size_append, size_cons]
  omega

/-! ## writing -/

/-- The errors of the writer and the reader; those of the connection carry what it
reports. -/
inductive FrameError where
  | invalid (text : String)
  | write (context cause : String)
  | read (cause : ReadError)
deriving DecidableEq

/-- A size next to the limit it exceeds. -/
def tooLarge (what : String) (size limit : Nat) : FrameError :=
  .invalid (what ++ " too large: " ++ size.repr ++ " > " ++ limit.repr)

/-- The payload checks that both directions make. -/
def Frame.payloadError (f : Frame) : Option FrameError :=
  if f.type = .data ∧ f.data.length > maxDataPayloadSize then
    some (tooLarge "data payload" f.data.length maxDataPayloadSize)
  else if f.type = .datagram ∧ f.data.length > maxDatagramPayloadSize then
    some (tooLarge "datagram payload" f.data.length maxDatagramPayloadSize)
  else none

/-- `WriteFrame`: its error, and the stream. -/
def writeFrame {σ : Type} (W : Writer σ) (s : σ) (f : Frame) : Option FrameError × σ :=
  match f.payloadError with
  | some e => (some e, s)
  | none =>
      let b := f.marshal
      if b.length > maxFrameSize then (some (tooLarge "frame" b.length maxFrameSize), s)
      else
        match W.write s (putUint32 b.length) with
        | (some cause, s) => (some (.write "write hdr" cause), s)
        | (none, s) =>
            match W.write s b with
            | (some cause, s) => (some (.write "write body" cause), s)
            | (none, s) => (none, s)

/-- Frames one after the other, up to the first error. -/
def writeFrames {σ : Type} (W : Writer σ) : σ → List Frame → Option FrameError × σ
  | s, [] => (none, s)
  | s, f :: fs =>
      match writeFrame W s f with
      | (some e, s) => (some e, s)
      | (none, s) => writeFrames W s fs

/-! ## reading -/

section Reading

variable {σ : Type} (unmarshal : Bytes → Option Frame) (R : Source σ)

/-- `ReadFrameWithLimit`. -/
def readFrameWithLimit (s : σ) (limit : Nat) : Except FrameError Frame × σ :=
  if limit = 0 ∨ limit > maxFrameSize then
    (.error (.invalid ("invalid frame limit: " ++ limit.repr)), s)
  else
    match R.readFull s 4 with
    | (.error e, s) => (.error (.read e), s)
    | (.ok hdr, s) =>
        let n := uint32 (hdr.getD 0 0) (hdr.getD 1 0) (hdr.getD 2 0) (hdr.getD 3 0)
        if n = 0 then (.error (.invalid "zero-length frame"), s)
        else if n > limit then (.error (tooLarge "frame" n limit), s)
        else
          match R.readFull s n with
          | (.error e, s) => (.error (.read e), s)
          | (.ok buf, s) =>
              match unmarshal buf with
              | none => (.error (.invalid "decode frame"), s)
              | some f =>
                  match f.payloadError with
                  | some e => (.error e, s)
                  | none => (.ok f, s)

/-- `ReadFrame`. -/
def readFrame (s : σ) : Except FrameError Frame × σ := readFrameWithLimit unmarshal R s maxFrameSize

/-- `ReadFrame` again and again. -/
def readFrames : σ → Nat → Except FrameError (List Frame) × σ
  | s, 0 => (.ok [], s)
  | s, n + 1 =>
      match readFrame unmarshal R s with
      | (.error e, s) => (.error e, s)
      | (.ok f, s) =>
          match readFrames s n with
          | (.error e, s) => (.error e, s)
          | (.ok fs, s) => (.ok (f :: fs), s)

end Reading

/-! ## the round trip -/

/-- A frame on the wire. -/
def Frame.wire (f : Frame) : Bytes := putUint32 f.marshal.length ++ f.marshal

/-- The frame passes the checks of `WriteFrame`. -/
structure Frame.Fits (f : Frame) : Prop where
  payload : f.payloadError = none
  size : f.marshal.length ≤ maxFrameSize

section RoundTrip

variable {σ τ : Type} {W : Writer σ} {R : Source τ} {unmarshal : Bytes → Option Frame}
  {f : Frame} {s s' : σ}

/-- What `WriteFrame` without an error has done. -/
theorem writeFrame_ok (h : writeFrame W s f = (none, s')) :
    f.Fits ∧ W.written s' = W.written s ++ f.wire := by
  rw [writeFrame] at h
  split at h
  · simp at h
  · rename_i hpayload
    simp only at h
    split at h
    · simp at h
    · rename_i hsize
      split at h
      · simp at h
      · rename_i s₁ hhdr
        split at h
        · simp at h
        · rename_i s₂ hbody
          obtain rfl := (Prod.mk.inj h).2
          have h₁ := W.written_eq s (putUint32 f.marshal.length)
          have h₂ := W.written_eq s₁ f.marshal
          rw [hhdr] at h₁
          rw [hbody] at h₂
          refine ⟨⟨hpayload, Nat.le_of_not_lt hsize⟩, ?_⟩
          rw [h₂ rfl, h₁ rfl, Frame.wire, List.append_assoc]

/-- A frame that fits is refused by the connection only. -/
theorem Frame.Fits.writeFrame (h : f.Fits) {e : FrameError}
    (he : (writeFrame W s f).1 = some e) : ∃ context cause, e = .write context cause := by
  rw [Protocol.writeFrame, h.payload] at he
  simp only [if_neg (Nat.not_lt.mpr h.size)] at he
  split at he
  · exact ⟨_, _, (Option.some.inj he).symm⟩
  · split at he
    · exact ⟨_, _, (Option.some.inj he).symm⟩
    · contradiction

theorem canonical_payloadError (f : Frame) : f.canonical.payloadError = f.payloadError := rfl

/-- A frame on the wire is read, and nothing behind it. -/
theorem readFrameWithLimit_wire (hf : f.Fits) (hcodec : unmarshal f.marshal = some f.canonical)
    {limit : Nat} (hlimit : f.marshal.length ≤ limit) (hmax : limit ≤ maxFrameSize) {r : τ}
    {rest : Bytes} (hr : R.unread r = f.wire ++ rest) :
    ∃ r', readFrameWithLimit unmarshal R r limit = (.ok f.canonical, r') ∧ R.unread r' = rest := by
  have hpos : 0 < f.marshal.length := f.length_marshal_pos
  have hlt : f.marshal.length < 2 ^ 32 := lt_of_le_of_lt hf.size (by decide)
  rw [Frame.wire, List.append_assoc] at hr
  obtain ⟨r₁, hhdr, hr₁⟩ := Source.readFull_append hr (n := 4) rfl
  obtain ⟨r₂, hbody, hr₂⟩ := Source.readFull_append hr₁ (n := f.marshal.length) rfl
  have hn : uint32 ((putUint32 f.marshal.length).getD 0 0) ((putUint32 f.marshal.length).getD 1 0)
      ((putUint32 f.marshal.length).getD 2 0) ((putUint32 f.marshal.length).getD 3 0) =
      f.marshal.length := uint32_putUint32 hlt
  refine ⟨r₂, ?_, hr₂⟩
  rw [readFrameWithLimit, if_neg (by omega), hhdr]
  simp only [hn, hbody, hcodec, canonical_payloadError, hf.payload]
  rw [if_neg (by omega), if_neg (by omega)]

/-- **The frame codec.**  What `WriteFrame` has written for some frames, `ReadFrame`
turns back into these frames, and it stops where they end. -/
theorem readFrames_writeFrames {frames : List Frame}
    (hcodec : ∀ f ∈ frames, unmarshal f.marshal = some f.canonical)
    (h : writeFrames W s frames = (none, s')) :
    ∃ out, W.written s' = W.written s ++ out ∧
      ∀ (r : τ) (rest : Bytes), R.unread r = out ++ rest →
        ∃ r', readFrames unmarshal R r frames.length = (.ok (frames.map (·.canonical)), r') ∧
          R.unread r' = rest := by
  induction frames generalizing s with
  | nil =>
      obtain rfl := (Prod.mk.inj h).2
      exact ⟨[], by simp, fun r rest hr => ⟨r, rfl, hr⟩⟩
  | cons f frames ih =>
      rw [writeFrames] at h
      split at h
      · simp at h
      · rename_i s₁ hwrite
        obtain ⟨hfits, hwritten⟩ := writeFrame_ok hwrite
        obtain ⟨out, hout, hread⟩ := ih (fun g hg => hcodec g (List.mem_cons_of_mem _ hg)) h
        refine ⟨f.wire ++ out, by rw [hout, hwritten, List.append_assoc], fun r rest hr => ?_⟩
        rw [List.append_assoc] at hr
        obtain ⟨r₁, hfirst, hr₁⟩ := readFrameWithLimit_wire hfits (hcodec f List.mem_cons_self)
          hfits.size (Nat.le_refl maxFrameSize) hr
        obtain ⟨r₂, hrest, hr₂⟩ := hread r₁ rest hr₁
        refine ⟨r₂, ?_, hr₂⟩
        rw [List.length_cons, readFrames, readFrame, hfirst]
        simp only [hrest, List.map_cons]

end RoundTrip

end Protocol
