import Blindport.Ingress.ServerName
import Blindport.Wire.Reader

/-!
# Blindport.Ingress.ClientHello

`sniproxy.go`: `readClientHello`, which puts a ClientHello together from the TLS
records it comes in and keeps the raw bytes, and `PeekSNI`, which hands the connection
on with those bytes replayed.

A `Split` is a way to cut a message over records.  However a message is split, the
same message is put together (`readClientHello_split`), so the host name or the
rejection is the same, and the connection still gives every byte it had
(`peekSNI_split`).
-/

namespace Ingress

open Wire Protocol

/-! ## reading the records -/

def tlsRecordHeaderLen : Nat := 5
def maxTLSRecordLen : Nat := 16 * 1024
def maxClientHelloLen : Nat := 256 * 1024
def maxClientHelloRecords : Nat := 64

/-- What `PeekSNI` fails with. -/
inductive PeekError
  | read (context : String) (e : ReadError)
  | rejected (text : String)
  | parse (fault : Fault)
deriving DecidableEq

/-- A record that was read. -/
structure RawRecord where
  header : Bytes
  payload : Bytes

section
variable {σ : Type} (R : Source σ)

/-- One record: the header and the body behind it. -/
def readRecord (s : σ) : Except PeekError RawRecord × σ :=
  match R.readFull s tlsRecordHeaderLen with
  | (.error e, s) => (.error (.read "read TLS record header" e), s)
  | (.ok header, s) =>
      if header.getD 0 0 ≠ 0x16 then
        (.error (.rejected ("not a TLS handshake record (got 0x" ++
          hexText (header.getD 0 0).toNat ++ ")")), s)
      else
        let recordLen := uint16 (header.getD 3 0) (header.getD 4 0)
        if recordLen = 0 ∨ recordLen > maxTLSRecordLen then
          (.error (.rejected ("bad TLS record length " ++ toString recordLen)), s)
        else
          match R.readFull s recordLen with
          | (.error e, s) => (.error (.read "read TLS record body" e), s)
          | (.ok payload, s) => (.ok ⟨header, payload⟩, s)

/-- What a record makes of the handshake bytes so far and of the length they are to
have, which is 0 as long as it is not known. -/
def addPayload (handshake payload : Bytes) (expectedLen : Nat) :
    Except PeekError (Bytes × Nat) :=
  if expectedLen = 0 then
    let handshake := handshake ++ payload
    match handshake with
    | msgType :: a :: b :: c :: _ =>
        if msgType ≠ 0x01 then
          .error (.rejected ("not a ClientHello (type=0x" ++ hexText msgType.toNat ++ ")"))
        else if 4 + uint24 a b c > maxClientHelloLen then
          .error (.rejected ("ClientHello length " ++ toString (4 + uint24 a b c) ++
            " exceeds limit"))
        else .ok (handshake, 4 + uint24 a b c)
    -- fewer than four bytes: the length is still to come
    | _ => .ok (handshake, 0)
  else
    .ok (handshake ++ payload.take (min (expectedLen - handshake.length) payload.length),
      expectedLen)

/-- The loop of `readClientHello` with `records` records to go. -/
def readRecords : Nat → σ → Bytes → Bytes → Nat → Except PeekError (Bytes × Bytes) × σ
  | 0, s, _, _, _ => (.error (.rejected ("ClientHello exceeds " ++
      toString maxClientHelloRecords ++ " TLS records")), s)
  | records + 1, s, handshake, replay, expectedLen =>
      match readRecord R s with
      | (.error e, s) => (.error e, s)
      | (.ok record, s) =>
          let replay := replay ++ record.header ++ record.payload
          match addPayload handshake record.payload expectedLen with
          | .error e => (.error e, s)
          | .ok (handshake, expectedLen) =>
              if expectedLen ≠ 0 ∧ handshake.length ≥ expectedLen then
                (.ok (handshake.take expectedLen, replay), s)
              else readRecords records s handshake replay expectedLen

/-- `readClientHello`: the handshake message and the raw bytes. -/
def readClientHello (s : σ) : Except PeekError (Bytes × Bytes) × σ :=
  readRecords R maxClientHelloRecords s [] [] 0

/-- `PeekSNI`: the host name, and the connection with the raw bytes replayed, a state of
`R.replay`. -/
def peekSNI (go : Go) (s : σ) : Except PeekError (Bytes × (Bytes × σ)) :=
  match readClientHello R s with
  | (.error e, _) => .error e
  | (.ok (handshake, replay), s) =>
      match parseSNI go handshake with
      | .error fault => .error (.parse fault)
      | .ok name => .ok (name, (replay, s))

end

/-! ## nothing is lost -/

section
variable {σ : Type} {R : Source σ}

theorem unread_of_readRecord {s s' : σ} {record : RawRecord}
    (h : readRecord R s = (.ok record, s')) :
    R.unread s = record.header ++ (record.payload ++ R.unread s') := by
  unfold readRecord at h
  split at h
  · simp at h
  · rename_i header s₁ hheader
    split at h
    · simp at h
    · dsimp only at h
      split at h
      · simp at h
      · split at h
        · simp at h
        · rename_i payload s₂ hpayload
          obtain ⟨rfl, rfl⟩ : record = ⟨header, payload⟩ ∧ s' = s₂ := by simpa [eq_comm] using h
          rw [(Source.unread_of_readFull hheader).2, (Source.unread_of_readFull hpayload).2]

/-- The raw bytes are what was taken from the stream. -/
theorem unread_of_readRecords {records : Nat} : ∀ {s s' : σ} {handshake replay hello raw : Bytes}
    {expectedLen : Nat},
    readRecords R records s handshake replay expectedLen = (.ok (hello, raw), s') →
    replay ++ R.unread s = raw ++ R.unread s' := by
  induction records with
  | zero =>
      intro s s' handshake replay hello raw expectedLen h
      simp [readRecords] at h
  | succ records ih =>
      intro s s' handshake replay hello raw expectedLen h
      rw [readRecords] at h
      split at h
      · simp at h
      · rename_i record s₁ hrecord
        dsimp only at h
        rw [unread_of_readRecord hrecord, ← List.append_assoc, ← List.append_assoc]
        split at h
        · simp at h
        · split at h
          · rw [Prod.mk.injEq, Except.ok.injEq, Prod.mk.injEq] at h
            obtain ⟨⟨-, rfl⟩, rfl⟩ := h
            rfl
          · exact ih h

/-- Whatever the stream, a connection that is handed on gives every byte it had. -/
theorem peekSNI_lossless {go : Go} {s : σ} {name : Bytes} {conn : Bytes × σ}
    (h : peekSNI R go s = .ok (name, conn)) : R.replay.unread conn = R.unread s := by
  unfold peekSNI at h
  split at h
  · simp at h
  · rename_i handshake replay s' hread
    split at h
    · simp at h
    · obtain ⟨-, rfl⟩ : _ = name ∧ (replay, s') = conn := by simpa using h
      exact (unread_of_readRecords hread).symm

end

/-! ## however it is split -/

/-- A handshake record. -/
structure Record where
  major : UInt8
  minor : UInt8
  payload : Bytes
  nonempty : payload ≠ []
  fits : payload.length ≤ maxTLSRecordLen

/-- The content type, a version and the length. -/
def Record.header (r : Record) : Bytes :=
  0x16 :: r.major :: r.minor :: putUint16 r.payload.length

/-- The header and the payload. -/
def Record.encode (r : Record) : Bytes := r.header ++ r.payload

/-- The bytes of some records. -/
def encodeRecords (records : List Record) : Bytes := records.flatMap Record.encode

/-- What some records carry. -/
def payloads (records : List Record) : Bytes := records.flatMap Record.payload

/-- A ClientHello handshake message that is not too long. -/
structure IsClientHello (hello : Bytes) : Prop where
  form : ∃ content : Bytes, content.length < 2 ^ 24 ∧
    hello = 0x01 :: (putUint24 content.length ++ content)
  fits : hello.length ≤ maxClientHelloLen

/-- The records carry the message, the last of them its end, and `extra` behind it. -/
structure Split (hello : Bytes) (records : List Record) (extra : Bytes) : Prop where
  carried : payloads records = hello ++ extra
  ends : (payloads records.dropLast).length < hello.length
  count : records.length ≤ maxClientHelloRecords

section
variable {σ : Type} {R : Source σ}

theorem Record.length_lt (r : Record) : r.payload.length < 2 ^ 16 := by
  have h := r.fits
  unfold maxTLSRecordLen at h
  omega

/-- A record at the front of a stream is read. -/
theorem readRecord_encode {s : σ} {r : Record} {rest : Bytes}
    (h : R.unread s = r.encode ++ rest) :
    ∃ s', readRecord R s = (.ok ⟨r.header, r.payload⟩, s') ∧ R.unread s' = rest := by
  rw [Record.encode, List.append_assoc] at h
  obtain ⟨s₁, hheader, hs₁⟩ := Source.readFull_append h (n := tlsRecordHeaderLen) rfl
  obtain ⟨s₂, hpayload, hs₂⟩ := Source.readFull_append hs₁ rfl
  have htype : r.header.getD 0 0 = 0x16 := rfl
  have hlen : uint16 (r.header.getD 3 0) (r.header.getD 4 0) = r.payload.length :=
    uint16_putUint16 r.length_lt
  have hbad : ¬(r.payload.length = 0 ∨ r.payload.length > maxTLSRecordLen) := by
    have hpos := List.length_pos_iff.mpr r.nonempty
    have hfits := r.fits
    omega
  refine ⟨s₂, ?_, hs₂⟩
  rw [readRecord, hheader]
  simp only [htype, ne_eq, not_true_eq_false, if_false, hlen, if_neg hbad, hpayload]

/-! ### the handshake bytes -/

/-- What the loop knows of the length, when `handshake` is what it has. -/
def expectedFor (hello handshake : Bytes) : Nat := if handshake.length < 4 then 0 else hello.length

/-- The first bytes of a message give its length. -/
theorem addPayload_first {hello handshake payload more extra : Bytes}
    (hmsg : IsClientHello hello) (hfront : handshake ++ payload ++ more = hello ++ extra) :
    addPayload handshake payload 0 =
      .ok (handshake ++ payload, expectedFor hello (handshake ++ payload)) := by
  obtain ⟨content, hcontent, hform⟩ := hmsg.form
  have hfits := hmsg.fits
  have hlength : hello.length = 4 + content.length := by
    rw [hform, List.length_cons, List.length_append, length_putUint24]
    omega
  rw [addPayload, if_pos rfl]
  unfold expectedFor
  match hhs : handshake ++ payload with
  | t :: a :: b :: c :: bytes =>
      rw [hhs, hform, putUint24, putUint16] at hfront
      simp only [List.cons_append, List.cons.injEq] at hfront
      obtain ⟨rfl, rfl, rfl, rfl, -⟩ := hfront
      have hlong : ¬(0x01 :: UInt8.ofNat (content.length / 65536) ::
          UInt8.ofNat (content.length / 256) ::
          UInt8.ofNat content.length :: bytes).length < 4 := by
        simp only [List.length_cons]
        omega
      have hlimit : ¬4 + content.length > maxClientHelloLen := by omega
      simp only [ne_eq, not_true_eq_false, if_false, uint24_putUint24 hcontent, if_neg hlimit,
        if_neg hlong, hlength]
  | [] => rfl
  | [_] => rfl
  | [_, _] => rfl
  | [_, _, _] => rfl

/-- Further bytes are taken up to that length. -/
theorem addPayload_next {hello handshake payload : Bytes} (hpos : hello.length ≠ 0)
    (hle : handshake.length ≤ hello.length) :
    addPayload handshake payload hello.length =
      .ok ((handshake ++ payload).take hello.length, hello.length) := by
  rw [addPayload, if_neg hpos, List.take_append, List.take_of_length_le hle, Nat.min_def]
  split
  · rfl
  · rename_i hlong
    rw [List.take_of_length_le (Nat.le_refl _), List.take_of_length_le (Nat.le_of_not_le hlong)]

/-- One record of a split that is not the last: the loop goes on with more bytes. -/
theorem readRecords_more (limit : Nat) (replay : Bytes) {s : σ} {r : Record} {rest : Bytes}
    {hello handshake more extra : Bytes} (hmsg : IsClientHello hello)
    (hs : R.unread s = r.encode ++ rest)
    (hfront : handshake ++ r.payload ++ more = hello ++ extra)
    (hshort : (handshake ++ r.payload).length < hello.length) :
    ∃ s', R.unread s' = rest ∧
      readRecords R (limit + 1) s handshake replay (expectedFor hello handshake) =
        readRecords R limit s' (handshake ++ r.payload) (replay ++ r.encode)
          (expectedFor hello (handshake ++ r.payload)) := by
  obtain ⟨s', hread, hs'⟩ := readRecord_encode hs
  have hadd : addPayload handshake r.payload (expectedFor hello handshake) =
      .ok (handshake ++ r.payload, expectedFor hello (handshake ++ r.payload)) := by
    by_cases hlong : handshake.length < 4
    · have hzero : expectedFor hello handshake = 0 := if_pos hlong
      rw [hzero]
      exact addPayload_first hmsg hfront
    · have hexp : expectedFor hello handshake = hello.length := if_neg hlong
      rw [List.length_append] at hshort
      have hexp' : expectedFor hello (handshake ++ r.payload) = hello.length :=
        if_neg (by rw [List.length_append]; omega)
      rw [hexp, hexp', addPayload_next (by omega) (by omega),
        List.take_of_length_le (by rw [List.length_append]; omega)]
  have hgo : ¬(expectedFor hello (handshake ++ r.payload) ≠ 0 ∧
      (handshake ++ r.payload).length ≥ expectedFor hello (handshake ++ r.payload)) := by
    unfold expectedFor
    split <;> omega
  refine ⟨s', hs', ?_⟩
  rw [readRecords, hread]
  simp only [hadd, if_neg hgo, Record.encode, List.append_assoc]

/-- The last record of a split completes the message. -/
theorem readRecords_last (limit : Nat) (replay : Bytes) {s : σ} {r : Record} {rest : Bytes}
    {hello handshake extra : Bytes} (hmsg : IsClientHello hello)
    (hs : R.unread s = r.encode ++ rest) (hfront : handshake ++ r.payload = hello ++ extra)
    (hshort : handshake.length < hello.length) :
    ∃ s', R.unread s' = rest ∧
      readRecords R (limit + 1) s handshake replay (expectedFor hello handshake) =
        (.ok (hello, replay ++ r.encode), s') := by
  obtain ⟨s', hread, hs'⟩ := readRecord_encode hs
  obtain ⟨content, -, hform⟩ := hmsg.form
  have hfour : 4 ≤ hello.length := by
    rw [hform, List.length_cons, List.length_append, length_putUint24]
    omega
  have htake : (handshake ++ r.payload).take hello.length = hello := by rw [hfront, List.take_left]
  have hlen : hello.length ≤ (handshake ++ r.payload).length := by
    rw [hfront, List.length_append]
    omega
  refine ⟨s', hs', ?_⟩
  rw [readRecords, hread]
  by_cases hlong : handshake.length < 4
  · have hzero : expectedFor hello handshake = 0 := if_pos hlong
    have hexp : expectedFor hello (handshake ++ r.payload) = hello.length :=
      if_neg (by omega)
    have hdone : hello.length ≠ 0 ∧ (handshake ++ r.payload).length ≥ hello.length :=
      ⟨by omega, hlen⟩
    have hfront' : handshake ++ r.payload ++ [] = hello ++ extra := by
      rw [List.append_nil]
      exact hfront
    have hadd := addPayload_first hmsg hfront'
    simp only [hzero, hadd, hexp, if_pos hdone, htake, Record.encode, List.append_assoc]
  · have hexp : expectedFor hello handshake = hello.length := if_neg hlong
    have hdone : hello.length ≠ 0 ∧ hello.length ≥ hello.length := ⟨by omega, Nat.le_refl _⟩
    have hadd : addPayload handshake r.payload hello.length =
        .ok ((handshake ++ r.payload).take hello.length, hello.length) :=
      addPayload_next (by omega) (Nat.le_of_lt hshort)
    simp only [hexp, hadd, htake, if_pos hdone, List.take_length, Record.encode,
      List.append_assoc]

/-- The records of a split, from any point of the message on. -/
theorem readRecords_split {hello : Bytes} (hmsg : IsClientHello hello) {extra rest : Bytes}
    (records : List Record) : ∀ (limit : Nat) {s : σ} (handshake replay : Bytes),
    records ≠ [] → records.length ≤ limit →
    R.unread s = encodeRecords records ++ rest →
    handshake ++ payloads records = hello ++ extra →
    (handshake ++ payloads records.dropLast).length < hello.length →
    ∃ s', R.unread s' = rest ∧
      readRecords R limit s handshake replay (expectedFor hello handshake) =
        (.ok (hello, replay ++ encodeRecords records), s') := by
  induction records with
  | nil =>
      intro limit s handshake replay hne
      exact absurd rfl hne
  | cons r records ih =>
      intro limit s handshake replay _ hcount hs hcarried hends
      obtain ⟨limit, rfl⟩ : ∃ k, limit = k + 1 := ⟨limit - 1, by
        rw [List.length_cons] at hcount
        omega⟩
      rw [List.length_cons, Nat.add_le_add_iff_right] at hcount
      have hpay : payloads (r :: records) = r.payload ++ payloads records := rfl
      have henc : encodeRecords (r :: records) = r.encode ++ encodeRecords records := rfl
      rw [hpay, ← List.append_assoc] at hcarried
      rw [henc, List.append_assoc] at hs
      by_cases hlast : records = []
      · rw [hlast] at hs hcarried
        have hcarried' : handshake ++ r.payload = hello ++ extra := by
          simpa [payloads] using hcarried
        have hends' : handshake.length < hello.length := by
          simpa [hlast, payloads] using hends
        obtain ⟨s', hs', hrun⟩ := readRecords_last limit replay hmsg hs
          hcarried' hends'
        refine ⟨s', hs', ?_⟩
        rw [hrun, hlast]
        simp [encodeRecords]
      · have hdrop : payloads (r :: records).dropLast = r.payload ++ payloads records.dropLast := by
          rw [List.dropLast_cons_of_ne_nil hlast]
          rfl
        rw [hdrop, ← List.append_assoc] at hends
        have hshort : (handshake ++ r.payload).length < hello.length := by
          rw [List.length_append] at hends
          omega
        obtain ⟨s₁, hs₁, hrun⟩ := readRecords_more limit replay hmsg hs
          hcarried hshort
        obtain ⟨s', hs', hrest⟩ := ih limit _ _ hlast hcount hs₁ hcarried hends
        refine ⟨s', hs', ?_⟩
        rw [hrun, hrest, henc, List.append_assoc]

/-- **However it is split, the message is put together**, and the raw bytes are those of
the records. -/
theorem readClientHello_split {hello extra rest : Bytes} {records : List Record} {s : σ}
    (hmsg : IsClientHello hello) (hsplit : Split hello records extra)
    (hs : R.unread s = encodeRecords records ++ rest) :
    ∃ s', R.unread s' = rest ∧
      readClientHello R s = (.ok (hello, encodeRecords records), s') := by
  have hne : records ≠ [] := by
    rintro rfl
    have hcarried := hsplit.carried
    have hends := hsplit.ends
    have hnil : hello = [] := by
      have := hcarried.symm
      simp only [payloads, List.flatMap_nil, List.append_eq_nil_iff] at this
      exact this.1
    rw [hnil, List.length_nil] at hends
    omega
  exact readRecords_split hmsg records maxClientHelloRecords [] [] hne hsplit.count hs
    hsplit.carried hsplit.ends

/-- The host name or the rejection, and the connection that is handed on. -/
theorem peekSNI_of_split (go : Go) {hello extra rest : Bytes} {records : List Record} {s : σ}
    (hmsg : IsClientHello hello) (hsplit : Split hello records extra)
    (hs : R.unread s = encodeRecords records ++ rest) :
    ∃ s', R.unread s' = rest ∧ peekSNI R go s =
      match parseSNI go hello with
      | .error fault => .error (.parse fault)
      | .ok name => .ok (name, (encodeRecords records, s')) := by
  obtain ⟨s', hs', hread⟩ := readClientHello_split hmsg hsplit hs
  refine ⟨s', hs', ?_⟩
  rw [peekSNI, hread]

end

/-- The host or the rejection that `PeekSNI` answers. -/
def answer {σ : Type} (R : Source σ) (go : Go) (s : σ) : Except PeekError Bytes :=
  (peekSNI R go s).map Prod.fst

/-- **Fragmentation changes nothing, and nothing is lost.**  Two connections that bring
the same ClientHello, split over records in any two ways and followed by anything, get
the same host or the same rejection; and a connection that is handed on replays the
bytes of the records, after which the rest is still unread. -/
theorem peekSNI_split (go : Go) {hello : Bytes} (hmsg : IsClientHello hello)
    {σ τ : Type} (R : Source σ) (R' : Source τ) (s : σ) (s' : τ)
    {records records' : List Record} {extra extra' rest rest' : Bytes}
    (hsplit : Split hello records extra) (hsplit' : Split hello records' extra')
    (hs : R.unread s = encodeRecords records ++ rest)
    (hs' : R'.unread s' = encodeRecords records' ++ rest') :
    answer R go s = answer R' go s' ∧
    answer R go s = (parseSNI go hello).mapError .parse ∧
    ∀ name conn, peekSNI R go s = .ok (name, conn) →
      conn.1 = encodeRecords records ∧ R.unread conn.2 = rest ∧
        R.replay.unread conn = R.unread s := by
  obtain ⟨t, ht, hpeek⟩ := peekSNI_of_split go hmsg hsplit hs
  obtain ⟨t', -, hpeek'⟩ := peekSNI_of_split go hmsg hsplit' hs'
  rw [answer, answer, hpeek, hpeek']
  cases hparse : parseSNI go hello with
  | error fault =>
      refine ⟨rfl, rfl, fun name conn h => ?_⟩
      contradiction
  | ok found =>
      refine ⟨rfl, rfl, fun name conn h => ?_⟩
      obtain ⟨-, rfl⟩ := Prod.mk.inj (Except.ok.inj h)
      exact ⟨rfl, ht, by rw [hs, ← ht]; rfl⟩

/-- A ClientHello for the host `a.b`. -/
def sampleHello : Bytes :=
  [0x01, 0x00, 0x00, 0x37, 0x03, 0x03] ++ List.replicate 32 0 ++
    [0x00, 0x00, 0x02, 0x13, 0x01, 0x01, 0x00, 0x00, 0x0c, 0x00, 0x00, 0x00, 0x08, 0x00, 0x06,
      0x00, 0x00, 0x03, 0x61, 0x2e, 0x62]

/-- The message in one record, with a byte behind it. -/
def wholeRecord : Record := ⟨3, 1, sampleHello ++ [0xff], by decide, by decide⟩

/-- The message cut inside the handshake header. -/
def cutRecords : List Record :=
  [⟨3, 1, sampleHello.take 3, by decide, by decide⟩,
    ⟨3, 3, sampleHello.drop 3, by decide, by decide⟩]

theorem peekSNI_split_sample :
    answer pieces ⟨fun _ => false, id⟩ [encodeRecords [wholeRecord], [0x17]] =
      answer pieces ⟨fun _ => false, id⟩ ((encodeRecords cutRecords).map fun b => [b]) := by
  have hmsg : IsClientHello sampleHello :=
    ⟨⟨sampleHello.drop 4, by decide, by decide⟩, by decide⟩
  have hwhole : Split sampleHello [wholeRecord] [0xff] := ⟨by decide, by decide, by decide⟩
  have hcut : Split sampleHello cutRecords [] := ⟨by decide, by decide, by decide⟩
  have hs : pieces.unread [encodeRecords [wholeRecord], [0x17]] =
      encodeRecords [wholeRecord] ++ [0x17] := by decide
  have hs' : pieces.unread ((encodeRecords cutRecords).map fun b => [b]) =
      encodeRecords cutRecords ++ [] := by decide
  exact (peekSNI_split ⟨fun _ => false, id⟩ hmsg pieces pieces _ _ hwhole hcut hs hs').1

end Ingress
