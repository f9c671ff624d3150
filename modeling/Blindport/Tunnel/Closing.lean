import Blindport.Tunnel.Receive

/-!
# Blindport.Tunnel.Closing

Who closes a stream: what the sections of the goroutines and of the read loop do
to `closeOnce` and to the history of a stream.
-/

namespace Tunnel

/-- The caller that runs, or ran, the body of `closeOnce`. -/
def Once.closer : Once → Option Closer
  | .fresh => none
  | .running closer _ => some closer
  | .finished closer => some closer

namespace Stream

variable {cfg : Config} {b b' : Budget} {s t : Stream}

/-- How far the closing of a stream can get in one section: the history of what
was delivered stays, a teardown that has begun has begun, and a goroutine that
closes the stream here marks that. -/
structure Closes (s t : Stream) : Prop where
  delivered : t.delivered = s.delivered
  born : t.born = s.born
  id : t.id = s.id
  protocol : t.protocol = s.protocol
  opening : t.opening = s.opening
  evicted : t.evicted = s.evicted
  tearing : s.tearing = true → t.tearing = true
  closer : ∀ closer, t.once.closer = some closer →
    s.once.closer = some closer ∨ closer ≠ .peer ∧ t.tearing = true
  counts : 0 < t.discards → 0 < s.discards ∨ t.tearing = true

/-- A section that does not touch the closing of the stream. -/
theorem Closes.of_eq (h₁ : t.delivered = s.delivered) (h₂ : t.born = s.born) (h₃ : t.id = s.id)
    (h₄ : t.protocol = s.protocol) (h₅ : t.tearing = s.tearing) (h₆ : t.once = s.once)
    (h₇ : t.discards = s.discards) (h₈ : t.opening = s.opening) (h₉ : t.evicted = s.evicted) :
    Closes s t :=
  ⟨h₁, h₂, h₃, h₄, h₈, h₉, fun h => h₅ ▸ h, fun _ h => .inl (h₆ ▸ h), fun h => .inl (h₇ ▸ h)⟩

/-- Reading, and returning credit, does not touch the closing. -/
theorem closes_of_stream {rx : Rx} {n : Nat}
    (ht : t = ({ s with toRx := rx }).returnCredit cfg n) : Closes s t := by
  rw [ht]
  unfold returnCredit
  split
  · exact .of_eq rfl rfl rfl rfl rfl rfl rfl rfl rfl
  · split <;> exact .of_eq rfl rfl rfl rfl rfl rfl rfl rfl rfl

theorem closeRead_closes (b : Budget) (s : Stream) (discard : Bool) :
    Closes s (s.closeRead b discard).1 := by
  unfold closeRead
  split <;> exact .of_eq rfl rfl rfl rfl rfl rfl rfl rfl rfl

/-- A caller other than the read loop enters `closeOnce`. -/
theorem enter_closes {closer : Closer} {returned : Bool} (hc : closer ≠ .peer)
    (h : s.enter closer = some (t, returned)) : Closes s t ∧ t.tearing = true := by
  have hd : decide (closer ≠ .peer) = true := decide_eq_true hc
  rcases enter_cases h with ⟨-, -, rfl⟩ | ⟨other, hf, -, rfl⟩
  · refine ⟨⟨rfl, rfl, rfl, rfl, rfl, rfl, fun _ => ?_, fun other ho => .inr ⟨?_, ?_⟩, fun _ => ?_⟩,
      ?_⟩
    · simp [hd]
    · simp only [Once.closer, Option.some.injEq] at ho
      exact ho ▸ hc
    · simp [hd]
    · simp [hd]
    · simp [hd]
  · exact ⟨⟨rfl, rfl, rfl, rfl, rfl, rfl, fun _ => by simp [hd], fun _ h => .inl h,
      fun _ => .inr (by simp [hd])⟩, by simp [hd]⟩

theorem closeStep_closes {e : Effect} (h : s.closeStep b = some e) : Closes s e.stream := by
  unfold closeStep at h
  obtain ⟨⟨t, returned⟩, hen, rfl⟩ := Option.map_eq_some_iff.mp h
  obtain ⟨hcl, ht⟩ := enter_closes (by decide) hen
  cases returned with
  | true =>
      exact ⟨hcl.delivered, hcl.born, hcl.id, hcl.protocol, hcl.opening, hcl.evicted, hcl.tearing,
        hcl.closer, fun _ => .inr ht⟩
  | false => exact hcl

/-- The sections of the goroutines close a stream only by marking it. -/
theorem act_closes {closed : Bool} {a : Act} {e : Effect} (hok : s.toRx.Ok)
    (h : s.act cfg closed b a = some e) : Closes s e.stream := by
  cases a with
  | read n =>
      simp only [act] at h
      split at h
      · obtain rfl := Option.some.inj h
        exact closes_of_stream (read_spec cfg b n hok).stream
      · contradiction
  | readDatagram n =>
      simp only [act] at h
      split at h
      · obtain rfl := Option.some.inj h
        exact closes_of_stream (readDatagram_spec cfg b n hok).stream
      · contradiction
  | discard =>
      simp only [act] at h
      split at h
      · rename_i hpos
        obtain rfl := Option.some.inj h
        have hcl := closeRead_closes b s true
        exact ⟨hcl.delivered, hcl.born, hcl.id, hcl.protocol, hcl.opening, hcl.evicted, hcl.tearing,
          hcl.closer, fun _ => .inl hpos⟩
      · contradiction
  | once =>
      simp only [act, onceStep] at h
      split at h
      · rename_i closer hr
        obtain rfl := Option.some.inj h
        exact ⟨rfl, rfl, rfl, rfl, rfl, rfl, fun h => h,
          fun _ h => .inl (by simpa [Once.closer, hr] using h),
          fun h => .inl h⟩
      · rename_i closer hr
        obtain rfl := Option.some.inj h
        exact ⟨rfl, rfl, rfl, rfl, rfl, rfl, fun h => h,
          fun _ h => .inl (by simpa [Once.closer, hr] using h),
          fun h => .inl h⟩
      · rename_i closer hr
        obtain rfl := Option.some.inj h
        exact ⟨rfl, rfl, rfl, rfl, rfl, rfl, fun h => h,
          fun _ h => .inl (by simpa [Once.closer, hr] using h),
          fun h => .inl h⟩
      · rename_i closer hr
        obtain rfl := Option.some.inj h
        have hcl := closeRead_closes b s (decide (closer ≠ .peer))
        exact ⟨hcl.delivered, hcl.born, hcl.id, hcl.protocol, hcl.opening, hcl.evicted, hcl.tearing,
          fun _ h => .inl (by simpa [Once.closer, hr] using h), hcl.counts⟩
      · contradiction
  | close =>
      simp only [act] at h
      split at h
      · exact closeStep_closes h
      · contradiction
  | closeWrite =>
      simp only [act] at h
      split at h
      · split at h
        · exact closeStep_closes h
        · split at h
          · split at h <;>
              (obtain rfl := Option.some.inj h; exact .of_eq rfl rfl rfl rfl rfl rfl rfl rfl rfl)
          · contradiction
      · contradiction
  | sweep =>
      simp only [act] at h
      split at h
      · rename_i hpos
        obtain ⟨⟨t, returned⟩, hen, rfl⟩ := Option.map_eq_some_iff.mp h
        obtain ⟨hcl, ht⟩ := enter_closes (by decide) hen
        cases returned with
        | true =>
            exact ⟨hcl.delivered, hcl.born, hcl.id, hcl.protocol, hcl.opening, hcl.evicted,
              hcl.tearing, hcl.closer, fun _ => .inr ht⟩
        | false => exact hcl
      · contradiction
  | write payload =>
      simp only [act] at h
      split at h
      · obtain rfl := Option.some.inj h
        show Closes s (if s.txClosed = true then s else _)
        split <;> exact .of_eq rfl rfl rfl rfl rfl rfl rfl rfl rfl
      · contradiction
  | writeTake =>
      simp only [act, takeSendCredit] at h
      repeat' split at h
      all_goals first
        | contradiction
        | (obtain rfl := Option.some.inj h; exact .of_eq rfl rfl rfl rfl rfl rfl rfl rfl rfl)
  | writeDatagram payload =>
      simp only [act, takeSendCredit] at h
      repeat' split at h
      all_goals first
        | contradiction
        | (obtain rfl := Option.some.inj h; exact .of_eq rfl rfl rfl rfl rfl rfl rfl rfl rfl)
  | _ =>
      simp only [act] at h
      repeat' split at h
      all_goals first
        | contradiction
        | (obtain rfl := Option.some.inj h; exact .of_eq rfl rfl rfl rfl rfl rfl rfl rfl rfl)

/-- What is left to do for a frame, and who closes the stream for it. -/
structure Handles (s t : Stream) (todo : Todo) (rest : Option Todo) : Prop where
  delivered : t.delivered = s.delivered
  born : t.born = s.born
  id : t.id = s.id
  protocol : t.protocol = s.protocol
  opening : t.opening = s.opening
  evicted : t.evicted = s.evicted
  tearing : s.tearing = true → t.tearing = true
  closer : ∀ closer, t.once.closer = some closer → s.once.closer = some closer ∨
    closer = .abort ∧ t.tearing = true ∨ closer = .peer ∧ todo = .closeRX
  discards : t.discards = s.discards
  closeRX : rest = some .closeRX → todo = .deliver .close ∨ todo = .closeRX
  once : ∀ signal, rest ≠ some (.deliver signal)
  close : todo = .deliver .close → rest = some .closeRX
  returns : (todo = .abort ∨ todo = .closeRX) → rest = some todo ∨
    rest = none ∧ ∃ closer, s.once = .finished closer

theorem Handles.of_eq {todo : Todo} {rest : Option Todo} (h : Closes s t)
    (h₁ : t.once = s.once) (h₂ : t.discards = s.discards) (h₅ : rest ≠ some .closeRX)
    (h₆ : ∀ signal, rest ≠ some (.deliver signal))
    (h₇ : todo ≠ .abort ∧ todo ≠ .closeRX ∧ todo ≠ .deliver .close) : Handles s t todo rest :=
  ⟨h.delivered, h.born, h.id, h.protocol, h.opening, h.evicted, h.tearing, fun _ h => .inl (h₁ ▸ h),
    h₂, fun h => absurd h h₅, h₆, fun h => absurd h h₇.2.2, fun h => by tauto⟩

/-- The read loop closes a stream for the peer's CLOSE, and aborts it only after
it marked it. -/
theorem handle_closes {now : Int} {todo : Todo} {rest : Option Todo}
    (h : s.handle cfg b now todo = some (t, b', rest)) : Handles s t todo rest := by
  have misused : s.misuse b = (t, b', rest) →
      todo ≠ .abort ∧ todo ≠ .closeRX ∧ todo ≠ .deliver .close → Handles s t todo rest := by
    intro h hne
    simp only [misuse, Prod.mk.injEq] at h
    obtain ⟨rfl, -, rfl⟩ := h
    exact .of_eq (.of_eq rfl rfl rfl rfl rfl rfl rfl rfl rfl) rfl rfl (by simp) (by simp) hne
  have queued : ∀ {payload : List UInt8} {byteLimit frameLimit : Int},
      s.queuePayload cfg b payload byteLimit frameLimit now = some (t, b') → rest = none →
      todo ≠ .abort ∧ todo ≠ .closeRX ∧ todo ≠ .deliver .close → Handles s t todo rest := by
    intro payload byteLimit frameLimit hq hr hne
    unfold queuePayload at hq
    split at hq
    · contradiction
    · obtain ⟨b₁, -, heq⟩ := Option.map_eq_some_iff.mp hq
      obtain rfl := (Prod.mk.inj heq).1
      subst hr
      exact .of_eq (.of_eq rfl rfl rfl rfl rfl rfl rfl rfl rfl) rfl rfl (by simp) (by simp) hne
  cases todo with
  | deliver signal =>
      cases signal with
      | data payload =>
          simp only [handle] at h
          split at h
          · exact misused (Option.some.inj h) (by simp)
          · split at h
            · rename_i u b₁ hq
              simp only [Option.some.injEq, Prod.mk.injEq] at h
              obtain ⟨rfl, rfl, rfl⟩ := h
              unfold queueTCPPayload at hq
              split at hq <;> exact queued hq rfl (by simp)
            · exact misused (Option.some.inj h) (by simp)
      | datagram payload =>
          simp only [handle] at h
          split at h
          · exact misused (Option.some.inj h) (by simp)
          · split at h
            · rename_i u b₁ hq
              simp only [Option.some.injEq, Prod.mk.injEq] at h
              obtain ⟨rfl, rfl, rfl⟩ := h
              exact queued hq rfl (by simp)
            · simp only [Option.some.injEq, Prod.mk.injEq] at h
              obtain ⟨rfl, -, rfl⟩ := h
              exact .of_eq (.of_eq rfl rfl rfl rfl rfl rfl rfl rfl rfl) rfl rfl (by simp) (by simp)
                (by simp)
      | windowUpdate credit =>
          simp only [handle] at h
          split at h
          · exact misused (Option.some.inj h) (by simp)
          · split at h
            · rename_i u hadd
              simp only [Option.some.injEq, Prod.mk.injEq] at h
              obtain ⟨rfl, -, rfl⟩ := h
              unfold addSendCredit at hadd
              repeat' split at hadd
              all_goals first
                | contradiction
                | (obtain rfl := Option.some.inj hadd
                   exact .of_eq (.of_eq rfl rfl rfl rfl rfl rfl rfl rfl rfl) rfl rfl (by simp)
                     (by simp) (by simp))
            · exact misused (Option.some.inj h) (by simp)
      | closeWrite =>
          simp only [handle, Option.some.injEq, Prod.mk.injEq] at h
          obtain ⟨rfl, -, rfl⟩ := h
          refine .of_eq (closeRead_closes ..) ?_ ?_ (by simp) (by simp) (by simp) <;>
            simp [closeRead]
      | close =>
          simp only [handle, Option.some.injEq, Prod.mk.injEq] at h
          obtain ⟨rfl, -, rfl⟩ := h
          exact ⟨rfl, rfl, rfl, rfl, rfl, rfl, fun h => h, fun _ h => .inl h, rfl,
            fun _ => .inl rfl, by simp, fun _ => rfl, by simp⟩
      | opening protocol => simp [handle] at h
  | drop n =>
      simp only [handle, Option.some.injEq, Prod.mk.injEq] at h
      obtain ⟨rfl, -, rfl⟩ := h
      unfold returnCredit
      repeat' split
      all_goals
        exact .of_eq (.of_eq rfl rfl rfl rfl rfl rfl rfl rfl rfl) rfl rfl (by simp) (by simp)
          (by simp)
  | abort =>
      simp only [handle] at h
      obtain ⟨⟨u, returned⟩, hen, heq⟩ := Option.map_eq_some_iff.mp h
      have hcl := (enter_closes (by decide) hen).1
      have ht := (enter_closes (by decide) hen).2
      rcases enter_cases hen with ⟨hf, rfl, rfl⟩ | ⟨other, hf, rfl, rfl⟩
      · simp only [Bool.false_eq_true, if_false, Prod.mk.injEq] at heq
        obtain ⟨rfl, -, rfl⟩ := heq
        refine ⟨rfl, rfl, rfl, rfl, rfl, rfl, hcl.tearing, fun closer h => ?_,
          rfl, by simp, by simp, by simp, fun _ => .inl rfl⟩
        simp only [Once.closer, Option.some.injEq] at h
        exact .inr (.inl ⟨h.symm, ht⟩)
      · simp only [if_true, Prod.mk.injEq] at heq
        obtain ⟨rfl, -, rfl⟩ := heq
        exact ⟨rfl, rfl, rfl, rfl, rfl, rfl, hcl.tearing, fun _ h => .inl h, rfl, by simp, by simp,
          by simp, fun _ => .inr ⟨rfl, other, hf⟩⟩
  | closeRX =>
      simp only [handle] at h
      obtain ⟨⟨u, returned⟩, hen, heq⟩ := Option.map_eq_some_iff.mp h
      rcases enter_cases hen with ⟨hf, rfl, rfl⟩ | ⟨other, hf, rfl, rfl⟩
      · simp only [Bool.false_eq_true, if_false, Prod.mk.injEq] at heq
        obtain ⟨rfl, -, rfl⟩ := heq
        refine ⟨rfl, rfl, rfl, rfl, rfl, rfl, fun h => by simp [h], fun closer h => ?_, rfl,
          fun _ => .inr rfl, by simp, by simp, fun _ => .inl rfl⟩
        simp only [Once.closer, Option.some.injEq] at h
        exact .inr (.inr ⟨h.symm, rfl⟩)
      · simp only [if_true, Prod.mk.injEq] at heq
        obtain ⟨rfl, -, rfl⟩ := heq
        exact ⟨rfl, rfl, rfl, rfl, rfl, rfl, fun h => by simp [h], fun _ h => .inl h,
          rfl, by simp, by simp, by simp, fun _ => .inr ⟨rfl, other, hf⟩⟩

/-- Only `Close`, also in its place in `CloseWrite`, and `closeTunnel` begin to
tear a stream down. -/
theorem act_tearing {closed : Bool} {a : Act} {e : Effect} (hok : s.toRx.Ok)
    (h : s.act cfg closed b a = some e) (ht : e.stream.tearing = true) :
    s.tearing = true ∨ a = .close ∨ a = .sweep ∨ a = .closeWrite ∧ cfg.halfClose = false := by
  have reads : ∀ {t : Stream} {rx : Rx} {n : Nat},
      t = ({ s with toRx := rx }).returnCredit cfg n → t.tearing = s.tearing := by
    intro t rx n heq
    rw [heq]
    unfold returnCredit
    repeat' split
    all_goals rfl
  have closes : ∀ discard, (s.closeRead b discard).1.tearing = s.tearing := by
    intro discard
    unfold closeRead
    split <;> rfl
  cases a with
  | close => exact .inr (.inl rfl)
  | sweep => exact .inr (.inr (.inl rfl))
  | closeWrite =>
      simp only [act] at h
      split at h
      · split at h
        · rename_i hhalf
          exact .inr (.inr (.inr ⟨rfl, hhalf⟩))
        · repeat' split at h
          all_goals first
            | contradiction
            | (obtain rfl := Option.some.inj h; exact .inl ht)
      · contradiction
  | read n =>
      simp only [act] at h
      split at h
      · obtain rfl := Option.some.inj h
        exact .inl ((reads (read_spec cfg b n hok).stream).symm.trans ht)
      · contradiction
  | readDatagram n =>
      simp only [act] at h
      split at h
      · obtain rfl := Option.some.inj h
        exact .inl ((reads (readDatagram_spec cfg b n hok).stream).symm.trans ht)
      · contradiction
  | discard =>
      simp only [act] at h
      split at h
      · obtain rfl := Option.some.inj h
        exact .inl ((closes true).symm.trans ht)
      · contradiction
  | once =>
      simp only [act, onceStep] at h
      split at h
      · obtain rfl := Option.some.inj h
        exact .inl ht
      · obtain rfl := Option.some.inj h
        exact .inl ht
      · obtain rfl := Option.some.inj h
        exact .inl ht
      · obtain rfl := Option.some.inj h
        exact .inl ((closes _).symm.trans ht)
      · contradiction
  | write payload =>
      simp only [act] at h
      split at h
      · obtain rfl := Option.some.inj h
        simp only at ht
        split at ht <;> exact .inl ht
      · contradiction
  | writeTake =>
      simp only [act, takeSendCredit] at h
      repeat' split at h
      all_goals first
        | contradiction
        | (obtain rfl := Option.some.inj h; exact .inl ht)
  | writeDatagram payload =>
      simp only [act, takeSendCredit] at h
      repeat' split at h
      all_goals first
        | contradiction
        | (obtain rfl := Option.some.inj h; exact .inl ht)
  | _ =>
      simp only [act] at h
      repeat' split at h
      all_goals first
        | contradiction
        | (obtain rfl := Option.some.inj h; exact .inl ht)

/-- The read loop begins to tear a stream down when it aborts it. -/
theorem handle_tearing {now : Int} {todo : Todo} {rest : Option Todo}
    (h : s.handle cfg b now todo = some (t, b', rest)) (ht : t.tearing = true) :
    s.tearing = true ∨ todo = .abort := by
  have queued : ∀ {u : Stream} {b₁ : Budget} {payload : List UInt8} {byteLimit frameLimit : Int},
      s.queuePayload cfg b payload byteLimit frameLimit now = some (u, b₁) →
      u.tearing = s.tearing := by
    intro u b₁ payload byteLimit frameLimit hq
    unfold queuePayload at hq
    split at hq
    · contradiction
    · obtain ⟨b₂, -, heq⟩ := Option.map_eq_some_iff.mp hq
      rw [← (Prod.mk.inj heq).1]
  cases todo with
  | abort => exact .inr rfl
  | closeRX =>
      simp only [handle] at h
      obtain ⟨⟨u, returned⟩, hen, heq⟩ := Option.map_eq_some_iff.mp h
      obtain rfl := (Prod.mk.inj heq).1
      rcases enter_cases hen with ⟨-, -, rfl⟩ | ⟨other, -, -, rfl⟩ <;>
        exact .inl (by simpa using ht)
  | drop n =>
      simp only [handle, Option.some.injEq, Prod.mk.injEq] at h
      obtain ⟨rfl, -⟩ := h
      unfold returnCredit at ht
      repeat' split at ht
      all_goals exact .inl ht
  | deliver signal =>
      refine .inl ?_
      cases signal with
      | data payload =>
          simp only [handle, misuse, queueTCPPayload] at h
          repeat' split at h
          all_goals
            simp only [Option.some.injEq, Prod.mk.injEq] at h
            obtain ⟨rfl, -⟩ := h
          · exact ht
          · rename_i u b₁ hq
            split at hq <;> exact (queued hq).symm.trans ht
          · exact ht
      | datagram payload =>
          simp only [handle, misuse, queueUDPPayload] at h
          repeat' split at h
          all_goals
            simp only [Option.some.injEq, Prod.mk.injEq] at h
            obtain ⟨rfl, -⟩ := h
          · exact ht
          · rename_i u b₁ hq
            exact (queued hq).symm.trans ht
          · exact ht
      | windowUpdate credit =>
          simp only [handle, misuse, addSendCredit] at h
          repeat' split at h
          all_goals
            simp only [Option.some.injEq, Prod.mk.injEq] at h
            obtain ⟨rfl, -⟩ := h
          · exact ht
          · rename_i hadd
            repeat' split at hadd
            all_goals first
              | contradiction
              | (obtain rfl := Option.some.inj hadd; exact ht)
          · exact ht
      | closeWrite =>
          simp only [handle, Option.some.injEq, Prod.mk.injEq] at h
          obtain ⟨rfl, -⟩ := h
          simpa [closeRead] using ht
      | close =>
          simp only [handle, Option.some.injEq, Prod.mk.injEq] at h
          obtain ⟨rfl, -⟩ := h
          exact ht
      | opening protocol => simp [handle] at h

end Stream

end Tunnel
