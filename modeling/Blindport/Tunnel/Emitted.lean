import Blindport.Protocol.FrameSize
import Blindport.Tunnel.Credit

/-!
# Blindport.Tunnel.Emitted

The frames a connection writes for its streams, as frames of the protocol: in every run
they stay within the payload limits (`run_sending`), and so `WriteFrame` takes them.
-/

namespace Tunnel

/-! ## frames of a stream -/

/-- The frame that is written for a signal; OPEN has texts that are not part of it. -/
def Signal.frame (id : Nat) : Signal → Option Protocol.Frame
  | .opening _ => none
  | .data p => some { type := .data, stream := .ofNat id, data := p }
  | .datagram p => some { type := .datagram, stream := .ofNat id, data := p }
  | .windowUpdate credit =>
      some { type := .windowUpdate, stream := .ofNat id, credit := .ofNat credit }
  | .closeWrite => some { type := .closeWrite, stream := .ofNat id }
  | .close => some { type := .close, stream := .ofNat id }

/-- The payload is within the limit of its frame. -/
def Signal.WithinLimit : Signal → Prop
  | .data p => p.length ≤ maxDataPayloadSize
  | .datagram p => p.length ≤ maxDatagramPayloadSize
  | _ => True

theorem Signal.WithinLimit.ofStream {signal : Signal} (h : signal.WithinLimit) {id : Nat}
    {f : Protocol.Frame} (hf : signal.frame id = some f) : f.OfStream := by
  cases signal with
  | opening protocol => contradiction
  | data p => exact Option.some.inj hf ▸ .data _ p h
  | datagram p => exact Option.some.inj hf ▸ .datagram _ p h
  | windowUpdate credit => exact Option.some.inj hf ▸ .windowUpdate _ _
  | closeWrite => exact Option.some.inj hf ▸ .closeWrite _
  | close => exact Option.some.inj hf ▸ .close _

namespace Stream

variable {cfg : Config} {b b' : Budget} {s t : Stream}

/-- What the stream has to write, and what it wrote, is within the limits. -/
structure Sending (s : Stream) : Prop where
  chunk : ∀ n rest, s.txMu = .frame n rest → n ≤ maxDataPayloadSize
  datagrams : ∀ p ∈ s.datagrams, p.length ≤ maxDatagramPayloadSize
  written : ∀ signal ∈ s.written, signal.WithinLimit

/-- Nothing about sending has changed. -/
structure SameSending (s t : Stream) : Prop where
  txMu : t.txMu = s.txMu
  datagrams : t.datagrams = s.datagrams
  written : t.written = s.written

theorem SameSending.sending (h : SameSending s t) (hs : s.Sending) : t.Sending := by
  refine ⟨?_, ?_, ?_⟩
  · rw [h.txMu]
    exact hs.chunk
  · rw [h.datagrams]
    exact hs.datagrams
  · rw [h.written]
    exact hs.written

theorem Sending.of_txMu (h : s.Sending) (ht : t.datagrams = s.datagrams)
    (hw : t.written = s.written) (hm : ∀ n rest, t.txMu = .frame n rest → n ≤ maxDataPayloadSize) :
    t.Sending := by
  refine ⟨hm, ?_, ?_⟩
  · rw [ht]
    exact h.datagrams
  · rw [hw]
    exact h.written

theorem returnCredit_sending (cfg : Config) (s : Stream) (n : Nat) :
    SameSending s (s.returnCredit cfg n) := by
  unfold returnCredit
  split
  · exact ⟨rfl, rfl, rfl⟩
  · split <;> exact ⟨rfl, rfl, rfl⟩

theorem closeRead_sending (b : Budget) (s : Stream) (discard : Bool) :
    SameSending s (s.closeRead b discard).1 := by
  unfold closeRead
  split <;> exact ⟨rfl, rfl, rfl⟩

theorem read_sending (cfg : Config) (b : Budget) (s : Stream) (n : Nat) :
    SameSending s (s.read cfg b n).2.1 := by
  unfold read
  generalize nextFrame s.toRx b = r
  obtain ⟨rx, b₁⟩ := r
  simp only
  split
  · split
    · have h := returnCredit_sending cfg { s with
        rxBuf := rx.rxBuf.drop n
        rxBufSize := 0
        rxQueue := rx.rxQueue
        rxQueued := rx.rxQueued - rx.rxBufSize
        rxFrames := rx.rxFrames - 1
        consumed := rx.consumed ++ rx.rxBuf.take n } (uint32 rx.rxBufSize)
      exact ⟨h.txMu, h.datagrams, h.written⟩
    · exact ⟨rfl, rfl, rfl⟩
  · split <;> exact ⟨rfl, rfl, rfl⟩

theorem readDatagram_sending (cfg : Config) (b : Budget) (s : Stream) (n : Nat) :
    SameSending s (s.readDatagram cfg b n).2.1 := by
  unfold readDatagram
  split
  · rename_i payload rest _
    have h := returnCredit_sending cfg { s with
      rxQueue := rest
      rxQueued := s.rxQueued - payload.length
      rxFrames := s.rxFrames - 1 } (uint32 payload.length)
    exact ⟨h.txMu, h.datagrams, h.written⟩
  · split <;> exact ⟨rfl, rfl, rfl⟩

theorem enter_sending {closer : Closer} {returned : Bool}
    (h : s.enter closer = some (t, returned)) : SameSending s t := by
  obtain ⟨-, -, rfl⟩ | ⟨other, -, -, rfl⟩ := enter_cases h
  · exact ⟨rfl, rfl, rfl⟩
  · exact ⟨rfl, rfl, rfl⟩

theorem onceStep_sending {e : Effect} (h : s.onceStep b = some e) : SameSending s e.stream := by
  unfold onceStep at h
  split at h
  · obtain rfl := Option.some.inj h
    exact ⟨rfl, rfl, rfl⟩
  · obtain rfl := Option.some.inj h
    exact ⟨rfl, rfl, rfl⟩
  · obtain rfl := Option.some.inj h
    exact ⟨rfl, rfl, rfl⟩
  · rename_i closer _
    have hread := closeRead_sending b s (closer ≠ .peer)
    obtain rfl := Option.some.inj h
    exact ⟨hread.txMu, hread.datagrams, hread.written⟩
  · contradiction

theorem closeStep_sending {e : Effect} (h : s.closeStep b = some e) : SameSending s e.stream := by
  obtain ⟨⟨t, returned⟩, hen, rfl⟩ := Option.map_eq_some_iff.mp h
  have hsame := enter_sending hen
  cases returned with
  | true => exact ⟨hsame.txMu, hsame.datagrams, hsame.written⟩
  | false => exact hsame

theorem queuePayload_sending {payload : List UInt8} {byteLimit frameLimit now : Int}
    (h : s.queuePayload cfg b payload byteLimit frameLimit now = some (t, b')) :
    SameSending s t := by
  unfold queuePayload at h
  split at h
  · contradiction
  · obtain ⟨b₁, -, heq⟩ := Option.map_eq_some_iff.mp h
    obtain ⟨rfl, -⟩ := Prod.mk.inj heq
    exact ⟨rfl, rfl, rfl⟩

theorem addSendCredit_sending {credit : Nat} (h : s.addSendCredit credit = some t) :
    SameSending s t := by
  unfold addSendCredit at h
  split at h
  · obtain rfl := Option.some.inj h
    exact ⟨rfl, rfl, rfl⟩
  · split at h
    · contradiction
    · obtain rfl := Option.some.inj h
      exact ⟨rfl, rfl, rfl⟩

/-- `Run` does not touch what the stream sends. -/
theorem handle_sending {now : Int} {todo : Todo} {rest : Option Todo}
    (h : s.handle cfg b now todo = some (t, b', rest)) : SameSending s t := by
  cases handle_cases h with
  | data hp hq =>
      unfold queueTCPPayload at hq
      split at hq <;> exact queuePayload_sending hq
  | datagram hp hq => exact queuePayload_sending hq
  | credit hc hadd => exact addSendCredit_sending hadd
  | closeWrite => exact closeRead_sending b s false
  | returned => exact returnCredit_sending cfg s _
  | aborting hen => exact enter_sending hen
  | aborted hen =>
      have hsame := enter_sending hen
      exact ⟨hsame.txMu, hsame.datagrams, hsame.written⟩
  | closing hen => exact enter_sending hen
  | closed hen => exact enter_sending hen
  | _ => exact ⟨rfl, rfl, rfl⟩

/-- What may be written next to what was. -/
theorem Sending.emit (h : s.Sending) {signal : Signal} (hs : signal.WithinLimit) :
    (s.emit signal).Sending := by
  refine ⟨h.chunk, h.datagrams, ?_⟩
  intro other hother
  cases List.mem_append.mp hother with
  | inl hother => exact h.written other hother
  | inr hother => exact List.mem_singleton.mp hother ▸ hs

/-- Every section of a goroutine writes frames within the limits. -/
theorem Sending.act {closed : Bool} {a : Act} {e : Effect} (h : s.Sending)
    (ha : s.act cfg closed b a = some e) : e.stream.Sending := by
  cases a with
  | write payload =>
      simp only [Stream.act] at ha
      split at ha
      · obtain rfl := Option.some.inj ha
        split
        · exact h
        · exact h.of_txMu rfl rfl (by simp)
      · contradiction
  | writeCheck =>
      simp only [Stream.act] at ha
      split at ha
      · split at ha
        all_goals
          obtain rfl := Option.some.inj ha
          exact h.of_txMu rfl rfl (by simp)
      · contradiction
  | writeTake =>
      simp only [Stream.act] at ha
      split at ha
      · rename_i rest _
        split at ha
        · obtain ⟨⟨n, t⟩, ht, rfl⟩ := Option.map_eq_some_iff.mp ha
          obtain ⟨-, hle, -⟩ := takeSendCredit_spec ht
          rw [takeSendCredit_eq ht]
          refine h.of_txMu rfl rfl fun n' rest' hm => ?_
          obtain ⟨rfl, -⟩ := TxHolder.frame.inj hm
          exact hle.trans (min_le_right _ _)
        · obtain rfl := Option.some.inj ha
          refine h.of_txMu rfl rfl fun n rest' hm => ?_
          obtain ⟨rfl, -⟩ := TxHolder.frame.inj hm
          exact min_le_right _ _
      · contradiction
  | writeGiveUp =>
      simp only [Stream.act] at ha
      split at ha
      · split at ha
        · obtain rfl := Option.some.inj ha
          exact h.of_txMu rfl rfl (by simp)
        · contradiction
      · contradiction
  | writeFrame now =>
      simp only [Stream.act] at ha
      split at ha
      · rename_i n rest hm
        split at ha
        · contradiction
        · obtain rfl := Option.some.inj ha
          have hn := h.chunk n rest hm
          have hfree : ({ s with
              txMu := .loop (rest.drop n)
              writes := addWritten n s.writes
              lastActivity := now } : Stream).Sending := h.of_txMu rfl rfl (by simp)
          refine hfree.emit ?_
          show (rest.take n).length ≤ maxDataPayloadSize
          rw [List.length_take]
          omega
      · contradiction
  | closeWrite =>
      simp only [Stream.act] at ha
      split at ha
      · split at ha
        · exact (closeStep_sending ha).sending h
        · split at ha
          · split at ha
            · obtain rfl := Option.some.inj ha
              exact h
            · obtain rfl := Option.some.inj ha
              exact h.of_txMu rfl rfl (by simp)
          · contradiction
      · contradiction
  | closeWriteFrame =>
      simp only [Stream.act] at ha
      split at ha
      · obtain rfl := Option.some.inj ha
        have hfree : ({ s with txMu := .free } : Stream).Sending := h.of_txMu rfl rfl (by simp)
        exact hfree.emit trivial
      · contradiction
  | sendClose =>
      simp only [Stream.act] at ha
      split at ha
      · obtain rfl := Option.some.inj ha
        exact h.of_txMu rfl rfl (by simp)
      · contradiction
  | closeFrame =>
      simp only [Stream.act] at ha
      split at ha
      · obtain rfl := Option.some.inj ha
        have hfree : ({ s with txMu := .free } : Stream).Sending := h.of_txMu rfl rfl (by simp)
        exact hfree.emit trivial
      · contradiction
  | writeDatagram payload =>
      simp only [Stream.act] at ha
      split at ha
      · rename_i hg
        have hjoin (t : Stream) (hsame : SameSending s t) :
            ({ t with datagrams := t.datagrams ++ [payload] } : Stream).Sending := by
          have ht := hsame.sending h
          refine ⟨ht.chunk, fun p hp => ?_, ht.written⟩
          cases List.mem_append.mp hp with
          | inl hp => exact ht.datagrams p hp
          | inr hp => exact List.mem_singleton.mp hp ▸ hg.2.2
        split at ha
        · obtain ⟨⟨n, t⟩, ht, rfl⟩ := Option.map_eq_some_iff.mp ha
          rw [takeSendCredit_eq ht]
          exact hjoin _ ⟨rfl, rfl, rfl⟩
        · obtain rfl := Option.some.inj ha
          exact hjoin s ⟨rfl, rfl, rfl⟩
      · contradiction
  | datagramFrame i now =>
      simp only [Stream.act] at ha
      split at ha
      · rename_i payload hi
        split at ha
        · contradiction
        · obtain rfl := Option.some.inj ha
          have hfewer : ({ s with
              datagrams := s.datagrams.eraseIdx i
              lastActivity := now } : Stream).Sending :=
            ⟨h.chunk, fun p hp => h.datagrams p (List.mem_of_mem_eraseIdx hp), h.written⟩
          exact hfewer.emit (h.datagrams payload (List.mem_of_getElem? hi))
      · contradiction
  | flushTake =>
      simp only [Stream.act] at ha
      split at ha
      · split at ha
        all_goals
          obtain rfl := Option.some.inj ha
          exact ⟨h.chunk, h.datagrams, h.written⟩
      · contradiction
  | flushFrame =>
      simp only [Stream.act] at ha
      split at ha
      · split at ha
        · contradiction
        · obtain rfl := Option.some.inj ha
          exact (⟨h.chunk, h.datagrams, h.written⟩ :
            ({ s with flusher := .take } : Stream).Sending).emit trivial
      · contradiction
  | read n =>
      simp only [Stream.act] at ha
      split at ha
      · obtain rfl := Option.some.inj ha
        exact (read_sending cfg b s n).sending h
      · contradiction
  | readDatagram n =>
      simp only [Stream.act] at ha
      split at ha
      · obtain rfl := Option.some.inj ha
        exact (readDatagram_sending cfg b s n).sending h
      · contradiction
  | close =>
      simp only [Stream.act] at ha
      split at ha
      · exact (closeStep_sending ha).sending h
      · contradiction
  | once => exact (onceStep_sending ha).sending h
  | sweep =>
      simp only [Stream.act] at ha
      split at ha
      · obtain ⟨⟨t, returned⟩, hen, rfl⟩ := Option.map_eq_some_iff.mp ha
        have ht := (enter_sending hen).sending h
        cases returned with
        | true => exact ⟨ht.chunk, ht.datagrams, ht.written⟩
        | false => exact ht
      · contradiction
  | discard =>
      simp only [Stream.act] at ha
      split at ha
      · have ht := (closeRead_sending b s true).sending h
        obtain rfl := Option.some.inj ha
        exact ⟨ht.chunk, ht.datagrams, ht.written⟩
      · contradiction
  | failWrite =>
      simp only [Stream.act] at ha
      split at ha
      · split at ha
        all_goals first
          | contradiction
          | obtain rfl := Option.some.inj ha
            exact h.of_txMu rfl rfl (by simp)
      · contradiction
  | failDatagram i =>
      simp only [Stream.act] at ha
      split at ha
      · obtain rfl := Option.some.inj ha
        exact ⟨h.chunk, fun p hp => h.datagrams p (List.mem_of_mem_eraseIdx hp), h.written⟩
      · contradiction
  | failFlush =>
      simp only [Stream.act] at ha
      split at ha
      · split at ha
        · obtain rfl := Option.some.inj ha
          exact ⟨h.chunk, h.datagrams, h.written⟩
        · contradiction
      · contradiction

end Stream

/-! ## runs -/

namespace Conn

variable {cfg : Config} {c c' : Conn} {e : Event} {i : Nat} {s t : Stream}
  {d : Option Stream.Todo}

theorem Change.sending (h : Change cfg c e i s t d) (hs : s.Sending) : t.Sending := by
  cases h with
  | act he ha => exact hs.act ha
  | handle he hr hh => exact (Stream.handle_sending hh).sending hs
  | enter he hk ho ht => exact (Stream.enter_sending ht).sending hs
  | abortReturns he hk ho ht =>
      have hentered := (Stream.enter_sending ht).sending hs
      exact ⟨hentered.chunk, hentered.datagrams, hentered.written⟩
  | opens he ho hc =>
      have hopened : ({ s with opening := .opened } : Stream).Sending :=
        ⟨hs.chunk, hs.datagrams, hs.written⟩
      exact hopened.emit trivial
  | _ => exact ⟨hs.chunk, hs.datagrams, hs.written⟩

theorem Fresh.sending (h : Fresh cfg c e i s) : s.Sending := by
  obtain ⟨id, protocol, group, now, opening, born, rfl, -⟩ := h.new
  exact ⟨by simp [newStream], by simp [newStream], by simp [newStream]⟩

theorem step_sending (h : ∀ s ∈ c.streams, s.Sending) (hstep : c.step cfg e = some c') :
    ∀ s ∈ c'.streams, s.Sending := by
  intro t ht
  obtain ⟨i, hi⟩ := List.getElem?_of_mem ht
  cases step_stream hstep hi with
  | inl hchange =>
      obtain ⟨s, hs, hchange⟩ := hchange
      exact hchange.sending (h s (List.mem_of_getElem? hs))
  | inr hfresh => exact hfresh.sending

/-- In every run the frames that were written for the streams are within the limits. -/
theorem run_sending {es : List Event} (hrun : newConn.run cfg es = some c) {signal : Signal}
    {f : Protocol.Frame} (hs : s ∈ c.streams) (hw : signal ∈ s.written)
    (hf : signal.frame s.id = some f) : f.OfStream := by
  have hsending : ∀ s ∈ c.streams, s.Sending := Conc.exec_invariant
    (I := fun c => ∀ s ∈ c.streams, s.Sending) (fun _ _ _ => step_sending)
    (by simp [newConn]) hrun
  exact ((hsending s hs).written signal hw).ofStream hf

end Conn

/-! ## the codec -/

section Codec

open Protocol Wire

variable {σ τ : Type} (W : Writer σ) (R : Source τ) (unmarshal : Bytes → Option Protocol.Frame)

/-- **The frame codec and its limits.**  `ReadFrame` turns what `WriteFrame` wrote for
some frames back into these frames, taking the bytes of these frames and no others;
every frame that a connection writes for its streams, in any run, is one that
`WriteFrame` does not refuse; and the HELLO of an agent, for any token of at most 512
bytes, validated claim and artifact, fits `MaxHelloFrameSize`. -/
theorem frame_codec (frames : List Protocol.Frame)
    (hcodec : ∀ f ∈ frames, unmarshal f.marshal = some f.canonical) :
    (∀ s s', writeFrames W s frames = (none, s') →
      ∃ out, W.written s' = W.written s ++ out ∧
        ∀ r rest, R.unread r = out ++ rest →
          ∃ r', readFrames unmarshal R r frames.length = (.ok (frames.map (·.canonical)), r') ∧
            R.unread r' = rest) ∧
    (∀ f : Protocol.Frame, f.OfStream → f.marshal.length ≤ maxFrameSize ∧
      ∀ s e, (writeFrame W s f).1 = some e → ∃ context cause, e = .write context cause) ∧
    (∀ cfg es c, newConn.run cfg es = some c → ∀ s ∈ c.streams, ∀ signal ∈ s.written,
      ∀ f, signal.frame s.id = some f → f.OfStream) ∧
    ∀ (lib : Entitlement.GoJson) (token entitlement : String) (claim : Protocol.Claim),
      token.utf8ByteSize ≤ 512 → validateClaim lib.go (some claim) = .ok () →
      Artifact lib entitlement →
      (hello token (some claim) entitlement).marshal.length ≤ maxHelloFrameSize := by
  refine ⟨?_, ?_, ?_, ?_⟩
  · intro s s' hwrite
    exact readFrames_writeFrames hcodec hwrite
  · intro f hf
    exact ⟨hf.fits.size, fun s e he => hf.fits.writeFrame he⟩
  · intro cfg es c hrun s hs signal hw f hf
    exact Conn.run_sending hrun hs hw hf
  · intro lib token entitlement claim htoken hclaim hartifact
    exact (hello_fits htoken hclaim hartifact).2

/-- Three bytes on a stream, and its end. -/
def samples : List Protocol.Frame :=
  [{ type := .data, stream := 1, data := [1, 2, 3] }, { type := .close, stream := 1 }]

/-- The samples are written to a buffer and read back from it, in one piece and with a
byte behind them. -/
theorem frame_codec_samples :
    ∃ s', writeFrames Writer.buffer [] samples = (none, s') ∧
      ∃ r', readFrames (fun b => (samples.find? (·.marshal = b)).map (·.canonical)) pieces
          [s' ++ [7]] 2 = (.ok samples, r') ∧ pieces.unread r' = [7] := by
  have hwrite : (writeFrames Writer.buffer [] samples).1 = none := by decide +kernel
  have hrun : ∃ s', writeFrames Writer.buffer [] samples = (none, s') :=
    ⟨(writeFrames Writer.buffer [] samples).2, Prod.ext hwrite rfl⟩
  obtain ⟨s', hs'⟩ := hrun
  obtain ⟨out, hout, hread⟩ := (frame_codec Writer.buffer pieces
    (fun b => (samples.find? (·.marshal = b)).map (·.canonical)) samples
    (by decide +kernel)).1 [] s' hs'
  have hbuffer : s' = out := hout
  rw [← hbuffer] at hread
  exact ⟨s', hs', hread [s' ++ [7]] [7] (by simp [pieces])⟩

end Codec

end Tunnel
