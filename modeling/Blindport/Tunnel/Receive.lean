import Blindport.Tunnel.Stream

/-!
# Blindport.Tunnel.Receive

The receive side of one stream: what its counters count, and that every section
of a goroutine moves the stream's counters and the connection's budget together.
-/

namespace Tunnel

namespace Rx

/-- The payload that is queued and not read yet. -/
def pending (rx : Rx) : List UInt8 := rx.rxBuf ++ rx.rxQueue.flatten

/-- The bytes of a queue. -/
def bytes (queue : List (List UInt8)) : Int := (queue.map fun p => (p.length : Int)).sum

@[simp] theorem bytes_nil : bytes [] = 0 := rfl

@[simp] theorem bytes_cons (p : List UInt8) (q : List (List UInt8)) :
    bytes (p :: q) = p.length + bytes q := by
  simp [bytes]

@[simp] theorem bytes_append (p q : List (List UInt8)) : bytes (p ++ q) = bytes p + bytes q := by
  simp [bytes]

theorem bytes_nonneg (q : List (List UInt8)) : 0 ≤ bytes q := by
  induction q with
  | nil => simp
  | cons p q ih =>
      rw [bytes_cons]
      omega

/-- The counters count the queue; a partly read frame counts in full. -/
structure Ok (rx : Rx) : Prop where
  queued : rx.rxQueued = rx.rxBufSize + bytes rx.rxQueue
  frames : rx.rxFrames = rx.rxQueue.length + if rx.rxBuf = [] then 0 else 1
  buf : (rx.rxBuf.length : Int) ≤ rx.rxBufSize
  empty : rx.rxBuf = [] → rx.rxBufSize = 0

/-- The stream's counters and the budget change by the same amounts. -/
structure Together (rx rx' : Rx) (b b' : Budget) : Prop where
  bytes : b'.rxBytes - b.rxBytes = rx'.rxQueued - rx.rxQueued
  frames : b'.rxFrames - b.rxFrames = rx'.rxFrames - rx.rxFrames

theorem Together.rfl {rx : Rx} {b : Budget} : Together rx rx b b := ⟨by simp, by simp⟩

theorem Together.trans {rx₁ rx₂ rx₃ : Rx} {b₁ b₂ b₃ : Budget} (h : Together rx₁ rx₂ b₁ b₂)
    (h' : Together rx₂ rx₃ b₂ b₃) : Together rx₁ rx₃ b₁ b₃ := by
  obtain ⟨h₁, h₂⟩ := h
  obtain ⟨h₃, h₄⟩ := h'
  exact ⟨by omega, by omega⟩

theorem Ok.queued_nonneg {rx : Rx} (h : rx.Ok) : 0 ≤ rx.rxQueued := by
  have hb := h.buf
  have hq := bytes_nonneg rx.rxQueue
  have := h.queued
  omega

theorem Ok.frames_nonneg {rx : Rx} (h : rx.Ok) : 0 ≤ rx.rxFrames := by
  rw [h.frames]
  split <;> omega

/-- Nothing is queued when no frame is counted. -/
theorem Ok.of_frames_eq {rx : Rx} (h : rx.Ok) (hf : rx.rxFrames ≤ 0) :
    rx.rxFrames = 0 ∧ rx.rxQueued = 0 ∧ rx.pending = [] := by
  have hframes := h.frames
  split at hframes
  · rename_i hbuf
    have hlen : rx.rxQueue = [] := List.length_eq_zero_iff.mp (by omega)
    have hq := h.queued
    rw [hlen, h.empty hbuf, bytes_nil] at hq
    exact ⟨by rw [hframes, hlen]; rfl, by omega, by simp [pending, hbuf, hlen]⟩
  · omega

end Rx

namespace Stream

variable {cfg : Config} {b b' : Budget} {s t : Stream}

@[simp] theorem returnCredit_toRx (cfg : Config) (s : Stream) (n : Nat) :
    (s.returnCredit cfg n).toRx = s.toRx := by
  unfold returnCredit
  split
  · rfl
  · split <;> rfl

/-- Moving to the next frame drops only empty frames. -/
theorem popFrames_spec (q : List (List UInt8)) (rx : Rx) (b : Budget) (hok : rx.Ok)
    (hbuf : rx.rxBuf = []) (hq : rx.rxQueue = q) :
    (popFrames rx b q).1.Ok ∧ Rx.Together rx (popFrames rx b q).1 b (popFrames rx b q).2 ∧
      (popFrames rx b q).1.pending = rx.pending ∧
      (popFrames rx b q).1.consumed = rx.consumed ∧
      (popFrames rx b q).1.rxQueued = rx.rxQueued ∧
      (popFrames rx b q).1.rxFrames ≤ rx.rxFrames ∧
      ((popFrames rx b q).1.rxBuf = [] → (popFrames rx b q).1.rxQueue = []) := by
  induction q generalizing rx b with
  | nil => exact ⟨hok, .rfl, rfl, rfl, rfl, le_refl _, fun _ => hq⟩
  | cons payload rest ih =>
      have hsize := hok.empty hbuf
      have hqueued := hok.queued
      have hframes := hok.frames
      rw [hq, hsize, Rx.bytes_cons] at hqueued
      rw [hq, if_pos hbuf, List.length_cons] at hframes
      rw [popFrames]
      split
      · rename_i hempty
        -- An empty frame counts as a frame and has no bytes.
        rw [hempty, List.length_nil] at hqueued
        obtain ⟨h₁, h₂, h₃, h₄, h₅, h₆, h₇⟩ := ih
          { rx with rxBufSize := 0, rxQueue := rest, rxFrames := rx.rxFrames - 1 }
          (b.releaseReceive 0 1)
          ⟨by show rx.rxQueued = 0 + Rx.bytes rest; omega,
            by show rx.rxFrames - 1 = rest.length + _; rw [if_pos hbuf]; omega,
            by simp [hbuf], fun _ => rfl⟩ hbuf rfl
        refine ⟨h₁, ?_, ?_, h₄, h₅, ?_, h₇⟩
        · refine Rx.Together.trans ⟨?_, ?_⟩ h₂ <;> simp [Budget.releaseReceive]
        · rw [h₃]
          simp [Rx.pending, hq, hempty]
        · exact le_trans h₆ (by show rx.rxFrames - 1 ≤ rx.rxFrames; omega)
      · rename_i hne
        refine ⟨⟨?_, ?_, ?_, ?_⟩, ⟨by simp, by simp⟩, ?_, rfl, rfl, le_refl _,
          fun h => absurd h hne⟩
        · show rx.rxQueued = payload.length + Rx.bytes rest
          omega
        · show rx.rxFrames = rest.length + _
          rw [if_neg hne]
          omega
        · simp
        · exact fun h => absurd h hne
        · simp [Rx.pending, hq, hbuf]

theorem nextFrame_spec (rx : Rx) (b : Budget) (hok : rx.Ok) :
    (nextFrame rx b).1.Ok ∧ Rx.Together rx (nextFrame rx b).1 b (nextFrame rx b).2 ∧
      (nextFrame rx b).1.pending = rx.pending ∧
      (nextFrame rx b).1.consumed = rx.consumed ∧
      (nextFrame rx b).1.rxQueued = rx.rxQueued ∧
      (nextFrame rx b).1.rxFrames ≤ rx.rxFrames ∧
      ((nextFrame rx b).1.rxBuf = [] → (nextFrame rx b).1.rxQueue = []) := by
  unfold nextFrame
  split
  · rename_i hbuf
    exact popFrames_spec _ rx b hok hbuf rfl
  · rename_i hbuf
    exact ⟨hok, .rfl, rfl, rfl, rfl, le_refl _, fun h => absurd h hbuf⟩

@[simp] theorem returnCredit_zero (cfg : Config) (s : Stream) : s.returnCredit cfg 0 = s := by
  simp [returnCredit]

@[simp] theorem uint32_zero : uint32 0 = 0 := rfl

/-- A pass of `Read`: what it returns moves from the pending payload to the
consumed, and the credit of a frame it finishes is returned. -/
structure ReadSpec (cfg : Config) (b : Budget) (s : Stream) (n : Nat) (result : ReadResult)
    (t : Stream) (b' : Budget) : Prop where
  ok : t.toRx.Ok
  together : Rx.Together s.toRx t.toRx b b'
  shrinks : t.rxQueued ≤ s.rxQueued ∧ t.rxFrames ≤ s.rxFrames
  total : t.consumed ++ t.pending = s.consumed ++ s.pending
  stream : t = ({ s with toRx := t.toRx }).returnCredit cfg (uint32 (s.rxQueued - t.rxQueued))
  result : (∃ l, result = .bytes l ∧ t.consumed = s.consumed ++ l ∧ (l = [] → n = 0)) ∨
    t.consumed = s.consumed ∧ s.pending = [] ∧
      result = if s.rxClosed then s.closedReadError else .wait

theorem read_spec (cfg : Config) (b : Budget) (n : Nat) (hok : s.toRx.Ok) :
    ReadSpec cfg b s n (s.read cfg b n).1 (s.read cfg b n).2.1 (s.read cfg b n).2.2 := by
  obtain ⟨h₁, h₂, h₃, h₄, h₅, hle, h₆⟩ := nextFrame_spec s.toRx b hok
  have hq₂ := h₂.bytes
  have hf₂ := h₂.frames
  unfold read
  generalize nextFrame s.toRx b = r at *
  obtain ⟨rx, b₁⟩ := r
  simp only at h₁ h₂ h₃ h₄ h₅ hle h₆ hq₂ hf₂ ⊢
  split
  · rename_i hbuf
    have hqueued := h₁.queued
    have hframes := h₁.frames
    rw [if_neg hbuf] at hframes
    have hcopied : rx.rxBuf.take n = [] → n = 0 := fun h => by
      rcases List.take_eq_nil_iff.mp h with h | h
      · exact h
      · exact absurd h hbuf
    have htotal : rx.rxBuf.take n ++ (rx.rxBuf.drop n ++ rx.rxQueue.flatten) = s.pending := by
      rw [← h₃, Rx.pending, ← List.append_assoc, List.take_append_drop]
    split
    · rename_i hdrop
      -- The frame is finished: its bytes and its slot are released.
      have hbufSize := h₁.buf
      refine ⟨?_, ?_, ?_, ?_, ?_, ?_⟩
      · rw [returnCredit_toRx]
        refine ⟨?_, ?_, ?_, fun _ => rfl⟩
        · show rx.rxQueued - rx.rxBufSize = 0 + Rx.bytes rx.rxQueue
          omega
        · show rx.rxFrames - 1 = rx.rxQueue.length + _
          rw [if_pos hdrop]
          omega
        · simp [hdrop]
      · rw [returnCredit_toRx]
        refine ⟨?_, ?_⟩ <;> simp only [Budget.releaseReceive] <;> omega
      · rw [returnCredit_toRx]
        constructor
        · show rx.rxQueued - rx.rxBufSize ≤ s.rxQueued
          omega
        · show rx.rxFrames - 1 ≤ s.rxFrames
          omega
      · rw [returnCredit_toRx]
        simp only [Rx.pending, List.append_assoc, htotal, h₄]
      · have hrel : s.rxQueued - (rx.rxQueued - rx.rxBufSize) = rx.rxBufSize := by omega
        simp only [returnCredit_toRx, hrel]
      · refine .inl ⟨_, rfl, ?_, hcopied⟩
        rw [returnCredit_toRx]
        simp only [h₄]
    · rename_i hdrop
      refine ⟨⟨hqueued, ?_, ?_, fun h => absurd h hdrop⟩, ⟨hq₂, hf₂⟩, ⟨h₅.le, hle⟩, ?_, ?_, ?_⟩
      · show rx.rxFrames = rx.rxQueue.length + _
        rw [if_neg hdrop]
        omega
      · have hlen : (rx.rxBuf.drop n).length ≤ rx.rxBuf.length := by
          rw [List.length_drop]
          omega
        have := h₁.buf
        show ((rx.rxBuf.drop n).length : Int) ≤ rx.rxBufSize
        omega
      · simp only [Rx.pending, List.append_assoc, htotal, h₄]
      · simp only [h₅, sub_self, uint32_zero, returnCredit_zero]
      · exact .inl ⟨_, rfl, by simp only [h₄], hcopied⟩
  · rename_i hbuf
    have hbuf : rx.rxBuf = [] := by simpa using hbuf
    have hpend : s.pending = [] := by
      rw [← h₃, Rx.pending, hbuf, h₆ hbuf]
      rfl
    have hspec : ∀ r, r = (if s.rxClosed then s.closedReadError else .wait) →
        ReadSpec cfg b s n r { s with toRx := rx } b₁ := fun r hr => by
      refine ⟨h₁, h₂, ⟨h₅.le, hle⟩, ?_, ?_, .inr ⟨h₄, hpend, hr⟩⟩
      · show rx.consumed ++ rx.pending = _
        rw [h₃, h₄]
      · simp only [h₅, sub_self, uint32_zero, returnCredit_zero]
    split
    · rename_i hclosed
      exact hspec _ (by rw [if_pos hclosed]; rfl)
    · rename_i hclosed
      exact hspec _ (by rw [if_neg hclosed])

/-- A pass of `ReadDatagram`. -/
structure ReadDatagramSpec (cfg : Config) (b : Budget) (s t : Stream) (b' : Budget) : Prop where
  ok : t.toRx.Ok
  together : Rx.Together s.toRx t.toRx b b'
  shrinks : t.rxQueued ≤ s.rxQueued ∧ t.rxFrames ≤ s.rxFrames
  stream : t = ({ s with toRx := t.toRx }).returnCredit cfg (uint32 (s.rxQueued - t.rxQueued))

theorem readDatagram_spec (cfg : Config) (b : Budget) (n : Nat) (hok : s.toRx.Ok) :
    ReadDatagramSpec cfg b s (s.readDatagram cfg b n).2.1 (s.readDatagram cfg b n).2.2 := by
  unfold readDatagram
  split
  · rename_i payload rest hq
    have hqueued := hok.queued
    have hframes := hok.frames
    rw [hq, Rx.bytes_cons] at hqueued
    rw [hq, List.length_cons] at hframes
    refine ⟨?_, ?_, ?_, ?_⟩
    · rw [returnCredit_toRx]
      refine ⟨?_, ?_, hok.buf, hok.empty⟩
      · show s.rxQueued - payload.length = s.rxBufSize + Rx.bytes rest
        omega
      · show s.rxFrames - 1 = rest.length + _
        rw [hframes]
        push_cast
        omega
    · rw [returnCredit_toRx]
      refine ⟨?_, ?_⟩ <;> simp only [Budget.releaseReceive] <;> omega
    · rw [returnCredit_toRx]
      constructor
      · show s.rxQueued - payload.length ≤ s.rxQueued
        omega
      · show s.rxFrames - 1 ≤ s.rxFrames
        omega
    · have hrel : s.rxQueued - (s.rxQueued - payload.length) = payload.length := by omega
      simp only [returnCredit_toRx, hrel]
  · split <;>
      exact ⟨hok, .rfl, ⟨le_refl _, le_refl _⟩,
        by simp only [sub_self, uint32_zero, returnCredit_zero]⟩

/-- `closeRead` keeps the payload, or releases all of it. -/
theorem closeRead_spec (b : Budget) (discard : Bool) (hok : s.toRx.Ok) :
    (s.closeRead b discard).1.toRx.Ok ∧
      Rx.Together s.toRx (s.closeRead b discard).1.toRx b (s.closeRead b discard).2 ∧
      (s.closeRead b discard).1.consumed = s.consumed ∧
      (discard = false → (s.closeRead b discard).1.toRx = s.toRx) ∧
      (discard = true → (s.closeRead b discard).1.pending = [] ∧
        (s.closeRead b discard).1.rxQueued = 0 ∧ (s.closeRead b discard).1.rxFrames = 0) := by
  unfold closeRead
  split
  · rename_i h
    exact ⟨⟨rfl, rfl, by simp, fun _ => rfl⟩, ⟨by simp [Budget.releaseReceive],
      by simp [Budget.releaseReceive]⟩, rfl, by simp [h.1], fun _ => ⟨rfl, rfl, rfl⟩⟩
  · rename_i h
    refine ⟨hok, .rfl, rfl, fun _ => rfl, fun hd => ?_⟩
    have hf : s.rxFrames ≤ 0 := by
      by_contra hpos
      exact h ⟨hd, by omega⟩
    obtain ⟨h₁, h₂, h₃⟩ := hok.of_frames_eq hf
    exact ⟨h₃, h₂, h₁⟩

@[simp] theorem closeRead_rxClosed (b : Budget) (s : Stream) (discard : Bool) :
    (s.closeRead b discard).1.rxClosed = true := by
  unfold closeRead
  split <;> rfl

/-- What `queuePayload` accepts, and what it does then. -/
theorem queuePayload_spec {payload : List UInt8} {byteLimit frameLimit now : Int}
    (hok : s.toRx.Ok)
    (h : s.queuePayload cfg b payload byteLimit frameLimit now = some (t, b')) :
    t.toRx.Ok ∧ Rx.Together s.toRx t.toRx b b' ∧ t.consumed = s.consumed ∧
      t.pending = s.pending ++ payload ∧ s.rxClosed = false ∧ t.rxQueued ≤ byteLimit ∧
      t.rxQueued = s.rxQueued + payload.length ∧
      t = { s with toRx := t.toRx, lastActivity := now } := by
  unfold queuePayload at h
  split at h
  · contradiction
  · rename_i hguard
    simp only [not_or, Bool.not_eq_true] at hguard
    obtain ⟨b₁, hres, heq⟩ := Option.map_eq_some_iff.mp h
    rw [Prod.mk.injEq] at heq
    obtain ⟨rfl, rfl⟩ := heq
    have hb : b₁ = ⟨b.rxBytes + payload.length, b.rxFrames + 1⟩ := by
      unfold Budget.reserveReceive at hres
      grind
    have hqueued := hok.queued
    have hframes := hok.frames
    refine ⟨⟨?_, ?_, hok.buf, hok.empty⟩, ⟨?_, ?_⟩, rfl, ?_, hguard.1, ?_, rfl, rfl⟩
    · simp only [Rx.bytes_append, Rx.bytes_cons, Rx.bytes_nil]
      omega
    · simp only [List.length_append, List.length_cons, List.length_nil]
      omega
    · simp [hb]
    · simp [hb]
    · simp [Rx.pending]
    · show s.rxQueued + payload.length ≤ byteLimit
      have := hguard.2.1
      omega

/-- `reserveReceive` keeps the budget inside its limits. -/
theorem reserveReceive_le {size streamBytes streamFrames : Int}
    (h : b.reserveReceive cfg size streamBytes streamFrames = some b') :
    b'.rxBytes ≤ cfg.rxByteLimit ∧ b'.rxFrames ≤ cfg.rxFrameLimit := by
  unfold Budget.reserveReceive at h
  grind

/-! ## what a section does to the receive side -/

/-- The section leaves the receive side alone. -/
structure Quiet (b : Budget) (s t : Stream) (b' : Budget) : Prop where
  toRx : t.toRx = s.toRx
  rxClosed : t.rxClosed = s.rxClosed
  budget : b' = b
  torn : t.torn = s.torn
  once : ∀ closer, t.once = .finished closer → s.once = .finished closer
  protocol : t.protocol = s.protocol
  id : t.id = s.id
  evicted : t.evicted = s.evicted

/-- `closeRead` as the last statement of the body of `closeOnce`. -/
def closedBy (b : Budget) (s : Stream) (closer : Closer) : Effect :=
  { stream := { (s.closeRead b (closer ≠ .peer)).1 with
      once := .finished closer
      sends := if closer = .user ∨ closer = .abort then
          (s.closeRead b (closer ≠ .peer)).1.sends + 1
        else (s.closeRead b (closer ≠ .peer)).1.sends
      torn := (s.closeRead b (closer ≠ .peer)).1.torn || closer ≠ .peer }
    budget := (s.closeRead b (closer ≠ .peer)).2 }

/-- `closeRead` after the removal from the table. -/
def discarded (b : Budget) (s : Stream) : Effect :=
  { stream := { (s.closeRead b true).1 with
      discards := (s.closeRead b true).1.discards - 1
      torn := true }
    budget := (s.closeRead b true).2 }

/-- What `closeOnce.Do` can do. -/
theorem enter_cases {closer : Closer} {returned : Bool}
    (h : s.enter closer = some (t, returned)) :
    (s.once = .fresh ∧ returned = false ∧ t = { s with
      once := .running closer .remove
      tearing := s.tearing || decide (closer ≠ .peer) }) ∨
    ∃ other, s.once = .finished other ∧ returned = true ∧
      t = { s with tearing := s.tearing || decide (closer ≠ .peer) } := by
  unfold enter at h
  split at h
  · rename_i hf
    rw [Option.some.injEq, Prod.mk.injEq] at h
    exact .inl ⟨hf, h.2.symm, h.1.symm⟩
  · contradiction
  · rename_i other hf
    rw [Option.some.injEq, Prod.mk.injEq] at h
    exact .inr ⟨other, hf, h.2.symm, h.1.symm⟩

theorem closeStep_quiet {e : Effect} (h : s.closeStep b = some e) :
    Quiet b s e.stream e.budget := by
  unfold closeStep enter at h
  split at h
  · obtain rfl := Option.some.inj h
    exact ⟨rfl, rfl, rfl, rfl, fun _ h => by simp at h, rfl, rfl, rfl⟩
  · contradiction
  · obtain rfl := Option.some.inj h
    exact ⟨rfl, rfl, rfl, rfl, fun _ h => h, rfl, rfl, rfl⟩

/-- Only `Read`, `ReadDatagram` and `closeRead` change the receive side. -/
theorem act_receive {closed : Bool} {a : Act} {e : Effect} (h : s.act cfg closed b a = some e) :
    Quiet b s e.stream e.budget ∨
    (∃ n, a = .read n ∧ s.protocol = .tcp ∧ s.opening = .opened ∧
      e = ⟨(s.read cfg b n).2.1, (s.read cfg b n).2.2, none, false⟩) ∨
    (∃ n, a = .readDatagram n ∧ s.protocol = .udp ∧
      e = ⟨(s.readDatagram cfg b n).2.1, (s.readDatagram cfg b n).2.2, none, false⟩) ∨
    (∃ closer, a = .once ∧ s.once = .running closer .closeRead ∧ e = s.closedBy b closer) ∨
    (a = .discard ∧ 0 < s.discards ∧ e = s.discarded b) := by
  have quiet : ∀ {t : Stream} {f r}, e = ⟨t, b, f, r⟩ → t.toRx = s.toRx →
      t.rxClosed = s.rxClosed → t.torn = s.torn →
      (∀ closer, t.once = .finished closer → s.once = .finished closer) →
      t.protocol = s.protocol → t.id = s.id → t.evicted = s.evicted →
      Quiet b s e.stream e.budget := by
    rintro t f r rfl h₁ h₂ h₃ h₄ h₅ h₆ h₇
    exact ⟨h₁, h₂, rfl, h₃, h₄, h₅, h₆, h₇⟩
  cases a with
  | read n =>
      simp only [act] at h
      split at h
      · rename_i hg
        exact .inr (.inl ⟨n, rfl, hg.1, hg.2, (Option.some.inj h).symm⟩)
      · contradiction
  | readDatagram n =>
      simp only [act] at h
      split at h
      · rename_i hg
        exact .inr (.inr (.inl ⟨n, rfl, hg.1, (Option.some.inj h).symm⟩))
      · contradiction
  | discard =>
      simp only [act] at h
      split at h
      · rename_i hg
        exact .inr (.inr (.inr (.inr ⟨rfl, hg, (Option.some.inj h).symm⟩)))
      · contradiction
  | once =>
      simp only [act, onceStep] at h
      split at h
      · exact .inl
          (quiet (Option.some.inj h).symm rfl rfl rfl (fun _ h => by simp at h) rfl rfl rfl)
      · exact .inl
          (quiet (Option.some.inj h).symm rfl rfl rfl (fun _ h => by simp at h) rfl rfl rfl)
      · exact .inl
          (quiet (Option.some.inj h).symm rfl rfl rfl (fun _ h => by simp at h) rfl rfl rfl)
      · rename_i closer hr
        exact .inr (.inr (.inr (.inl ⟨closer, rfl, hr, (Option.some.inj h).symm⟩)))
      · contradiction
  | close =>
      simp only [act] at h
      split at h
      · exact .inl (closeStep_quiet h)
      · contradiction
  | closeWrite =>
      simp only [act] at h
      split at h
      · split at h
        · exact .inl (closeStep_quiet h)
        · split at h
          · split at h
            · exact .inl (quiet (Option.some.inj h).symm rfl rfl rfl (fun _ h => h) rfl rfl rfl)
            · exact .inl (quiet (Option.some.inj h).symm rfl rfl rfl (fun _ h => h) rfl rfl rfl)
          · contradiction
      · contradiction
  | sweep =>
      simp only [act, enter] at h
      split at h
      · split at h
        · exact .inl (quiet (Option.some.inj h).symm rfl rfl rfl (fun _ h => by simp at h) rfl rfl
            rfl)
        · contradiction
        · exact .inl (quiet (Option.some.inj h).symm rfl rfl rfl (fun _ h => h) rfl rfl rfl)
      · contradiction
  | write payload =>
      simp only [act] at h
      split at h
      · refine .inl (quiet (Option.some.inj h).symm ?_ ?_ ?_ ?_ ?_ ?_ ?_) <;>
          (split <;> first | rfl | exact fun _ h => h)
      · contradiction
  | writeTake =>
      simp only [act, takeSendCredit] at h
      split at h
      · split at h
        · split at h
          · exact .inl (quiet (Option.some.inj h).symm rfl rfl rfl (fun _ h => h) rfl rfl rfl)
          · contradiction
        · exact .inl (quiet (Option.some.inj h).symm rfl rfl rfl (fun _ h => h) rfl rfl rfl)
      · contradiction
  | writeDatagram payload =>
      simp only [act, takeSendCredit] at h
      split at h
      · split at h
        · split at h
          · exact .inl (quiet (Option.some.inj h).symm rfl rfl rfl (fun _ h => h) rfl rfl rfl)
          · contradiction
        · exact .inl (quiet (Option.some.inj h).symm rfl rfl rfl (fun _ h => h) rfl rfl rfl)
      · contradiction
  | _ =>
      simp only [act] at h
      repeat' split at h
      all_goals first
        | contradiction
        | exact .inl (quiet (Option.some.inj h).symm rfl rfl rfl (fun _ h => h) rfl rfl rfl)

/-- Everything a section of `Run` can do to a stream. -/
inductive Handled (cfg : Config) (b : Budget) (s : Stream) (now : Int) :
    Todo → Stream → Budget → Option Todo → Prop where
  | misusedData {payload : List UInt8} (h : s.protocol ≠ .tcp ∨ s.rxClosed = true ∨
      s.queueTCPPayload cfg b payload now = none) :
      Handled cfg b s now (.deliver (.data payload)) s b (some .abort)
  | misusedDatagram {payload : List UInt8} (h : s.protocol ≠ .udp) :
      Handled cfg b s now (.deliver (.datagram payload)) s b (some .abort)
  | misusedCredit {credit : Nat} (h : credit = 0 ∨ credit > maxWindowUpdate ∨
      s.addSendCredit credit = none) :
      Handled cfg b s now (.deliver (.windowUpdate credit)) s b (some .abort)
  | data {payload : List UInt8} {t : Stream} {b' : Budget} (hp : s.protocol = .tcp)
      (h : s.queueTCPPayload cfg b payload now = some (t, b')) :
      Handled cfg b s now (.deliver (.data payload)) t b' none
  | datagram {payload : List UInt8} {t : Stream} {b' : Budget} (hp : s.protocol = .udp)
      (h : s.queueUDPPayload cfg b payload now = some (t, b')) :
      Handled cfg b s now (.deliver (.datagram payload)) t b' none
  | dropped {payload : List UInt8} (hp : s.protocol = .udp)
      (h : s.queueUDPPayload cfg b payload now = none) :
      Handled cfg b s now (.deliver (.datagram payload)) s b (some (.drop payload.length))
  | credit {credit : Nat} {t : Stream} (hc : credit ≠ 0 ∧ credit ≤ maxWindowUpdate)
      (h : s.addSendCredit credit = some t) :
      Handled cfg b s now (.deliver (.windowUpdate credit)) t b none
  | closeWrite :
      Handled cfg b s now (.deliver .closeWrite) (s.closeRead b false).1
        (s.closeRead b false).2 none
  | close : Handled cfg b s now (.deliver .close) s b (some .closeRX)
  | returned {n : Nat} : Handled cfg b s now (.drop n) (s.returnCredit cfg (uint32 n)) b none
  | aborting {t : Stream} (h : s.enter .abort = some (t, false)) :
      Handled cfg b s now .abort t b (some .abort)
  | aborted {t : Stream} (h : s.enter .abort = some (t, true)) :
      Handled cfg b s now .abort { t with torn := true } b none
  | closing {t : Stream} (h : s.enter .peer = some (t, false)) :
      Handled cfg b s now .closeRX t b (some .closeRX)
  | closed {t : Stream} (h : s.enter .peer = some (t, true)) :
      Handled cfg b s now .closeRX t b none

/-- **Inversion** of a section of `Run`. -/
theorem handle_cases {now : Int} {todo : Todo} {rest : Option Todo}
    (h : s.handle cfg b now todo = some (t, b', rest)) : Handled cfg b s now todo t b' rest := by
  cases todo with
  | deliver signal =>
      cases signal with
      | data payload =>
          simp only [handle] at h
          split at h
          · rename_i hg
            obtain ⟨rfl, rfl, rfl⟩ := by simpa [misuse] using h
            exact .misusedData (hg.imp_right .inl)
          · rename_i hg
            split at h
            · rename_i u b₁ hq
              obtain ⟨rfl, rfl, rfl⟩ := by simpa using h
              exact .data (by simpa using (not_or.mp hg).1) hq
            · rename_i hq
              obtain ⟨rfl, rfl, rfl⟩ := by simpa [misuse] using h
              exact .misusedData (.inr (.inr hq))
      | datagram payload =>
          simp only [handle] at h
          split at h
          · rename_i hg
            obtain ⟨rfl, rfl, rfl⟩ := by simpa [misuse] using h
            exact .misusedDatagram hg
          · rename_i hg
            split at h
            · rename_i u b₁ hq
              obtain ⟨rfl, rfl, rfl⟩ := by simpa using h
              exact .datagram (by simpa using hg) hq
            · rename_i hq
              obtain ⟨rfl, rfl, rfl⟩ := by simpa using h
              exact .dropped (by simpa using hg) hq
      | windowUpdate credit =>
          simp only [handle] at h
          split at h
          · rename_i hg
            obtain ⟨rfl, rfl, rfl⟩ := by simpa [misuse] using h
            exact .misusedCredit (hg.imp_right .inl)
          · rename_i hg
            split at h
            · rename_i u hadd
              obtain ⟨rfl, rfl, rfl⟩ := by simpa using h
              exact .credit (by omega) hadd
            · rename_i hadd
              obtain ⟨rfl, rfl, rfl⟩ := by simpa [misuse] using h
              exact .misusedCredit (.inr (.inr hadd))
      | closeWrite =>
          simp only [handle, Option.some.injEq, Prod.mk.injEq] at h
          obtain ⟨rfl, rfl, rfl⟩ := h
          exact .closeWrite
      | close =>
          obtain ⟨rfl, rfl, rfl⟩ := by simpa [handle] using h
          exact .close
      | opening protocol => simp [handle] at h
  | drop n =>
      obtain ⟨rfl, rfl, rfl⟩ := by simpa [handle] using h
      exact .returned
  | abort =>
      obtain ⟨⟨u, returned⟩, hen, heq⟩ := Option.map_eq_some_iff.mp h
      cases returned with
      | true =>
          obtain ⟨rfl, rfl, rfl⟩ := by simpa using heq
          exact .aborted hen
      | false =>
          obtain ⟨rfl, rfl, rfl⟩ := by simpa using heq
          exact .aborting hen
  | closeRX =>
      obtain ⟨⟨u, returned⟩, hen, heq⟩ := Option.map_eq_some_iff.mp h
      cases returned with
      | true =>
          obtain ⟨rfl, rfl, rfl⟩ := by simpa using heq
          exact .closed hen
      | false =>
          obtain ⟨rfl, rfl, rfl⟩ := by simpa using heq
          exact .closing hen

/-- What handling a frame does to the receive side: nothing, one payload more, or
the end of it. -/
theorem handle_receive {now : Int} {todo : Todo} {rest : Option Todo}
    (h : s.handle cfg b now todo = some (t, b', rest)) :
    (Quiet b s { t with torn := s.torn } b' ∧
      (t.torn = s.torn ∨ t.torn = true ∧ todo = .abort ∧ rest = none ∧
        ∃ closer, s.once = .finished closer) ∧
      (∀ payload, todo = .deliver (.data payload) → rest = some .abort) ∧
      todo ≠ .deliver .closeWrite) ∨
    (∃ payload byteLimit frameLimit,
      (todo = .deliver (.data payload) ∧ s.protocol = .tcp ∨
        todo = .deliver (.datagram payload) ∧ s.protocol = .udp) ∧ rest = none ∧
      s.queuePayload cfg b payload byteLimit frameLimit now = some (t, b')) ∨
    (todo = .deliver .closeWrite ∧ rest = none ∧ t = (s.closeRead b false).1 ∧
      b' = (s.closeRead b false).2) := by
  have misused : s.misuse b = (t, b', rest) → todo ≠ .deliver .closeWrite →
      Quiet b s { t with torn := s.torn } b' ∧
      (t.torn = s.torn ∨ t.torn = true ∧ todo = .abort ∧ rest = none ∧
        ∃ closer, s.once = .finished closer) ∧
      (∀ payload, todo = .deliver (.data payload) → rest = some .abort) ∧
      todo ≠ .deliver .closeWrite := by
    intro h hne
    simp only [misuse, Prod.mk.injEq] at h
    obtain ⟨rfl, rfl, rfl⟩ := h
    exact ⟨⟨rfl, rfl, rfl, rfl, fun _ h => h, rfl, rfl, rfl⟩, .inl rfl, fun _ _ => rfl, hne⟩
  cases todo with
  | deliver signal =>
      cases signal with
      | data payload =>
          simp only [handle] at h
          split at h
          · exact .inl (misused (Option.some.inj h) (by simp))
          · rename_i hg
            split at h
            · rename_i u b₁ hq
              obtain ⟨rfl, rfl, rfl⟩ := by simpa using h
              have hp : s.protocol = .tcp := by
                by_contra hne
                exact hg (.inl hne)
              unfold queueTCPPayload at hq
              split at hq <;>
                exact .inr (.inl ⟨payload, _, _, .inl ⟨rfl, hp⟩, rfl, hq⟩)
            · exact .inl (misused (Option.some.inj h) (by simp))
      | datagram payload =>
          simp only [handle] at h
          split at h
          · exact .inl (misused (Option.some.inj h) (by simp))
          · rename_i hg
            split at h
            · rename_i u b₁ hq
              obtain ⟨rfl, rfl, rfl⟩ := by simpa using h
              exact .inr (.inl ⟨payload, _, _, .inr ⟨rfl, by simpa using hg⟩, rfl, hq⟩)
            · obtain ⟨rfl, rfl, -⟩ := by simpa using h
              exact .inl
                ⟨⟨rfl, rfl, rfl, rfl, fun _ h => h, rfl, rfl, rfl⟩, .inl rfl, by simp, by simp⟩
      | windowUpdate credit =>
          simp only [handle] at h
          split at h
          · exact .inl (misused (Option.some.inj h) (by simp))
          · split at h
            · rename_i u hadd
              obtain ⟨rfl, rfl, -⟩ := by simpa using h
              unfold addSendCredit at hadd
              split at hadd
              · obtain rfl := Option.some.inj hadd
                exact .inl
                  ⟨⟨rfl, rfl, rfl, rfl, fun _ h => h, rfl, rfl, rfl⟩, .inl rfl, by simp, by simp⟩
              · split at hadd
                · contradiction
                · obtain rfl := Option.some.inj hadd
                  exact .inl
                    ⟨⟨rfl, rfl, rfl, rfl, fun _ h => h, rfl, rfl, rfl⟩, .inl rfl, by simp, by simp⟩
            · exact .inl (misused (Option.some.inj h) (by simp))
      | closeWrite =>
          simp only [handle, Option.some.injEq, Prod.mk.injEq] at h
          exact .inr (.inr ⟨rfl, h.2.2.symm, h.1.symm, h.2.1.symm⟩)
      | close =>
          obtain ⟨rfl, rfl, -⟩ := by simpa [handle] using h
          exact .inl ⟨⟨rfl, rfl, rfl, rfl, fun _ h => h, rfl, rfl, rfl⟩, .inl rfl, by simp, by simp⟩
      | opening protocol => simp [handle] at h
  | drop n =>
      obtain ⟨rfl, rfl, -⟩ := by simpa [handle] using h
      refine .inl ⟨?_, ?_, by simp, by simp⟩
      · unfold returnCredit
        split
        · exact ⟨rfl, rfl, rfl, rfl, fun _ h => h, rfl, rfl, rfl⟩
        · split <;> exact ⟨rfl, rfl, rfl, rfl, fun _ h => h, rfl, rfl, rfl⟩
      · unfold returnCredit
        split
        · exact .inl rfl
        · split <;> exact .inl rfl
  | abort =>
      simp only [handle, enter] at h
      split at h
      · obtain ⟨rfl, rfl, -⟩ := by simpa using h
        exact .inl ⟨⟨rfl, rfl, rfl, rfl, fun _ h => by simp at h, rfl, rfl, rfl⟩, .inl rfl, by simp,
          by simp⟩
      · contradiction
      · rename_i closer hf
        obtain ⟨rfl, rfl, rfl⟩ := by simpa using h
        exact .inl ⟨⟨rfl, rfl, rfl, rfl, fun _ h => h, rfl, rfl, rfl⟩,
          .inr ⟨rfl, rfl, rfl, closer, hf⟩, by simp, by simp⟩
  | closeRX =>
      simp only [handle, enter] at h
      split at h
      · obtain ⟨rfl, rfl, -⟩ := by simpa using h
        exact .inl ⟨⟨rfl, rfl, rfl, rfl, fun _ h => by simp at h, rfl, rfl, rfl⟩, .inl rfl, by simp,
          by simp⟩
      · contradiction
      · obtain ⟨rfl, rfl, -⟩ := by simpa using h
        exact .inl ⟨⟨rfl, rfl, rfl, rfl, fun _ h => h, rfl, rfl, rfl⟩, .inl rfl, by simp, by simp⟩

end Stream

end Tunnel
