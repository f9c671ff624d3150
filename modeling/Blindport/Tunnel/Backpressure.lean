import Blindport.Tunnel.Pair

/-!
# Blindport.Tunnel.Backpressure

A single TCP stream with flow control, a writer on each side and readers as slow as
they like.  Credit keeps a writer inside the byte limits of the receiver, but it
counts no frames: `QueueRoom` says that the receiver never has all the frames queued
that it allows one stream.  Then no stream is aborted and no byte is lost.
-/

namespace Tunnel

/-- The frames of a stream that is written and read. -/
def Signal.transfer : Signal → Bool
  | .data _ | .windowUpdate _ => true
  | _ => false

/-- The sections of `Write`, `Read` and the flusher. -/
def Stream.Act.transfers : Stream.Act → Bool
  | .write _ | .writeCheck | .writeTake | .writeGiveUp | .writeFrame _ | .flushTake | .flushFrame
  | .read _ => true
  | _ => false

namespace Stream

variable {cfg : Config} {closed : Bool} {b b' : Budget} {s t : Stream}

/-- `Run` is about to queue a DATA frame. -/
def takesData : Option Todo → Bool
  | some (.deliver (.data _)) => true
  | _ => false

/-- What these sections leave as it is, and what they write. -/
structure Transfers (s : Stream) (e : Effect) : Prop where
  once : e.stream.once = s.once
  done : e.stream.done = s.done
  txClosed : e.stream.txClosed = s.txClosed
  rxClosed : e.stream.rxClosed = s.rxClosed
  remove : e.remove = false
  written : e.stream.written = s.written ++ e.frame.toList
  frame : ∀ f ∈ e.frame, f.transfer = true

theorem act_transfers {a : Act} {e : Effect} (ha : a.transfers = true) (hok : s.toRx.Ok)
    (h : s.act cfg closed b a = some e) : Transfers s e := by
  cases a with
  | read n =>
      simp only [act] at h
      split at h
      · obtain rfl := Option.some.inj h
        have hstream := (read_spec cfg b n hok).stream
        have hcredit : ∀ (u : Stream) (k : Nat), (u.returnCredit cfg k).once = u.once ∧
            (u.returnCredit cfg k).done = u.done ∧ (u.returnCredit cfg k).txClosed = u.txClosed ∧
            (u.returnCredit cfg k).rxClosed = u.rxClosed ∧
            (u.returnCredit cfg k).written = u.written := by
          intro u k
          unfold returnCredit
          split
          · exact ⟨rfl, rfl, rfl, rfl, rfl⟩
          · split <;> exact ⟨rfl, rfl, rfl, rfl, rfl⟩
        obtain ⟨h₁, h₂, h₃, h₄, h₅⟩ := hcredit { s with toRx := (s.read cfg b n).2.1.toRx } _
        rw [← hstream] at h₁ h₂ h₃ h₄ h₅
        exact ⟨h₁, h₂, h₃, h₄, rfl, by simpa using h₅, by simp⟩
      · contradiction
  | write payload =>
      simp only [act] at h
      split at h
      · obtain rfl := Option.some.inj h
        split <;> exact ⟨rfl, rfl, rfl, rfl, rfl, by simp, by simp⟩
      · contradiction
  | writeTake =>
      simp only [act] at h
      split at h
      · split at h
        · obtain ⟨⟨n, t⟩, ht, rfl⟩ := Option.map_eq_some_iff.mp h
          rw [takeSendCredit_eq ht]
          exact ⟨rfl, rfl, rfl, rfl, rfl, by simp, by simp⟩
        · obtain rfl := Option.some.inj h
          exact ⟨rfl, rfl, rfl, rfl, rfl, by simp, by simp⟩
      · contradiction
  | writeCheck | writeGiveUp | writeFrame _ | flushTake | flushFrame =>
      simp only [act] at h
      repeat' split at h
      all_goals first
        | contradiction
        | (obtain rfl := Option.some.inj h
           exact ⟨rfl, rfl, rfl, rfl, rfl, by simp [emit], by simp [Signal.transfer]⟩)
  | _ => simp [Act.transfers] at ha

/-- A budget that counts one stream. -/
theorem budget_of_together {rx rx' : Rx} (h : Rx.Together rx rx' ⟨rx.rxQueued, rx.rxFrames⟩ b) :
    b = ⟨rx'.rxQueued, rx'.rxFrames⟩ := by
  have h₁ := h.bytes
  have h₂ := h.frames
  simp only at h₁ h₂
  ext
  · show b.rxBytes = rx'.rxQueued
    omega
  · show b.rxFrames = rx'.rxFrames
    omega

/-- One stream, inside its byte limit and with room for a frame, is inside the
limits of its connection. -/
theorem queueTCPPayload_accepts {payload : List UInt8} {now : Int}
    (hfc : cfg.flowControl = true) (hbytes : cfg.rxByteLimit = connReceiveQueueByteSize)
    (hframes : cfg.rxFrameLimit = connReceiveQueueFrameSize)
    (hb : b = ⟨s.rxQueued, s.rxFrames⟩) (hopen : s.rxClosed = false)
    (hfit : s.rxQueued + payload.length ≤ tcpStreamReceiveQueueByteSize)
    (hroom : s.rxFrames < tcpStreamReceiveQueueFrameSize) :
    s.queueTCPPayload cfg b payload now ≠ none := by
  have hguard : ¬ (s.rxClosed = true ∨
      (payload.length : Int) > tcpStreamReceiveQueueByteSize - s.rxQueued ∨
      s.rxFrames ≥ tcpStreamReceiveQueueFrameSize) := by
    rw [hopen]
    simp only [Bool.false_eq_true, false_or]
    omega
  have hres : b.reserveReceive cfg payload.length (s.rxQueued + payload.length) (s.rxFrames + 1) =
      some ⟨b.rxBytes + payload.length, b.rxFrames + 1⟩ := by
    simp only [tcpStreamReceiveQueueByteSize, tcpStreamReceiveQueueFrameSize] at hfit hroom
    simp only [Budget.reserveReceive, hb, hbytes, hframes, connReceiveQueueByteSize,
      connReceiveQueueFrameSize, connReceiveControlReserve, connReceiveFrameReserve,
      controlStreamByteThreshold, controlStreamFrameThreshold]
    rw [if_neg (by omega), if_neg (by omega), if_neg (by omega)]
  simp [queueTCPPayload, hfc, queuePayload, if_neg hguard, hres]

end Stream

/-- An end of a stream that is open and alone on its connection. -/
structure End.Open (e : End) : Prop where
  sound : e.stream.Sound
  once : e.stream.once = .fresh
  done : e.stream.done = false
  txClosed : e.stream.txClosed = false
  rxClosed : e.stream.rxClosed = false
  registered : e.registered = true
  live : e.closed = false
  budget : e.budget = ⟨e.stream.rxQueued, e.stream.rxFrames⟩
  todo : ∀ d, e.todo = some d → ∃ f, d = .deliver f ∧ f.transfer = true
  orderly : e.stream.Orderly e.todo

namespace Pair

/-- The sections of `Write`, `Read` and the flusher, and the read loops. -/
def Event.transfers : Event → Bool
  | .act _ a => a.transfers
  | .deliver _ | .handle _ _ => true
  | _ => false

/-- A DATA frame finds fewer frames queued than the receiver allows one stream. -/
def QueueRoom (p : Pair) : Event → Prop
  | .handle x _ => Stream.takesData (p.ends x).todo = true →
      (p.ends x).stream.rxFrames < tcpStreamReceiveQueueFrameSize
  | _ => True

instance (p : Pair) : (e : Event) → Decidable (QueueRoom p e)
  | .handle x _ => inferInstanceAs (Decidable (Stream.takesData (p.ends x).todo = true →
      (p.ends x).stream.rxFrames < tcpStreamReceiveQueueFrameSize))
  | .act .. | .deliver _ | .others .. | .evict _ | .abort _ | .close _ | .closeStreams _ =>
      isTrue trivial

/-- A stream both of whose ends are open. -/
structure Fed (cfg : Side → Config) (p : Pair) : Prop where
  credit : Ok cfg .tcp p
  ends : ∀ x, (p.ends x).Open
  wires : ∀ x, ∀ f ∈ p.wire x, f.transfer = true
  written : ∀ x, (p.ends x.other).stream.written =
    (p.ends x).stream.delivered ++ p.wire x.other

variable {cfg : Side → Config} {p p' : Pair} {x : Side} {e : Event}

theorem init_fed (cfg : Side → Config) (id : Nat) : Fed cfg (init cfg id .tcp) where
  credit := init_ok cfg id .tcp
  ends x := ⟨Stream.newStream_sound .., rfl, rfl, rfl, rfl, rfl, rfl, rfl, by simp [init],
    Stream.newStream_orderly ..⟩
  wires := by simp [init]
  written x := rfl

/-- A section of `Write`, `Read` or the flusher. -/
theorem Fed.act (h : Fed cfg p) (hfc : (cfg x).flowControl = true) {a : Stream.Act}
    (htr : a.transfers = true) (hstep : p.step cfg (.act x a) = some p') : Fed cfg p' := by
  obtain ⟨eff, ha, rfl⟩ := Option.map_eq_some_iff.mp hstep
  have hx := h.ends x
  have ht := Stream.act_transfers htr hx.sound.rx ha
  obtain ⟨hsound, htog, -⟩ := Stream.act_sound hx.sound ha
  have hcl := Stream.act_closes hx.sound.rx ha
  rw [hx.budget] at htog
  have hopen : End.Open { p.ends x with
      stream := eff.stream
      budget := eff.budget
      registered := (p.ends x).registered && !eff.remove } :=
    ⟨hsound, ht.once.trans hx.once, ht.done.trans hx.done, ht.txClosed.trans hx.txClosed,
      ht.rxClosed.trans hx.rxClosed, by simp [hx.registered, ht.remove], hx.live,
      Stream.budget_of_together htog, hx.todo, hx.orderly.act hx.sound ha⟩
  refine ⟨h.credit.act hfc ha, forall_update (P := fun _ e => e.Open) hopen (h.ends _), ?_, ?_⟩
  · intro y f hf
    rcases Side.eq_or y x with rfl | rfl
    · simp only [Function.update_self, List.mem_append] at hf
      rcases hf with hf | hf
      · exact h.wires y f hf
      · exact ht.frame f (by simpa using hf)
    · simp only [Function.update_of_ne (Side.other_ne x)] at hf
      exact h.wires _ f hf
  · intro y
    have hw := h.written y
    rcases Side.eq_or y x with rfl | rfl
    · simp only [Function.update_self, Function.update_of_ne (Side.other_ne y), hcl.delivered]
      exact hw
    · simp only [Side.other_other] at hw ⊢
      simp only [Function.update_self, Function.update_of_ne (Side.other_ne x), ht.written, hw,
        List.append_assoc]

/-- A read loop reads a frame. -/
theorem Fed.deliver (h : Fed cfg p) (hstep : p.step cfg (.deliver x) = some p') : Fed cfg p' := by
  have hx := h.ends x
  simp only [step] at hstep
  split at hstep
  · rename_i f rest htodo hwire
    rw [if_neg (by simp [hx.live]), Option.some.injEq] at hstep
    have hcredit := h.credit.deliver hwire htodo
    rw [if_pos hx.registered] at hcredit
    rw [if_pos hx.registered] at hstep
    subst hstep
    have horderly := hx.orderly
    rw [htodo] at horderly
    have hopen : End.Open { p.ends x with
        todo := some (.deliver f)
        stream := { (p.ends x).stream with
          delivered := (p.ends x).stream.delivered ++ [f] } } :=
      ⟨⟨hx.sound.rx, hx.sound.finished, hx.sound.torn, hx.sound.local_torn⟩, hx.once, hx.done,
        hx.txClosed, hx.rxClosed, hx.registered, hx.live, hx.budget,
        fun d hd => ⟨f, (Option.some.inj hd).symm, h.wires x.other f (by simp [hwire])⟩,
        horderly.routed f⟩
    refine ⟨hcredit, forall_update (P := fun _ e => e.Open) hopen (h.ends _), ?_, ?_⟩
    · intro y g hg
      rcases Side.eq_or y x with rfl | rfl
      · simp only [Function.update_of_ne (Side.other_ne y).symm] at hg
        exact h.wires y g hg
      · simp only [Function.update_self] at hg
        exact h.wires x.other g (by simp [hwire, hg])
    · intro y
      have hw := h.written y
      rcases Side.eq_or y x with rfl | rfl
      · rw [hwire] at hw
        simp only [Function.update_self, Function.update_of_ne (Side.other_ne y), hw]
        simp
      · simp only [Side.other_other] at hw ⊢
        simp only [Function.update_self, Function.update_of_ne (Side.other_ne x),
          Function.update_of_ne (Side.other_ne x).symm]
        exact hw
  · contradiction

/-- A read loop goes on with a frame, which it accepts. -/
theorem Fed.handle (h : Fed cfg p) (hfc : (cfg x).flowControl = true)
    (hpeer : (cfg x.other).flowControl = true)
    (hbytes : (cfg x).rxByteLimit = connReceiveQueueByteSize)
    (hframes : (cfg x).rxFrameLimit = connReceiveQueueFrameSize) {now : Int}
    (hroom : QueueRoom p (.handle x now)) (hstep : p.step cfg (.handle x now) = some p') :
    Fed cfg p' := by
  obtain ⟨todo, htodo, hstep⟩ := Option.bind_eq_some_iff.mp hstep
  obtain ⟨⟨t, b, rest⟩, hh, rfl⟩ := Option.map_eq_some_iff.mp hstep
  have hx := h.ends x
  have hcredit := h.credit.handle hfc htodo hh
  obtain ⟨hsound, htog, -⟩ := Stream.handle_sound hx.sound hh
  have hcl := Stream.handle_closes hh
  have horderly := hx.orderly
  rw [htodo] at horderly
  have hord := horderly.handle hx.sound hh
  have hfit := h.credit.payload_fits (x := x)
  rw [initialCredit_eq hpeer, htodo] at hfit
  -- The frame is DATA, which is queued, or a WINDOW_UPDATE, which is accepted.
  have haccept : rest = none ∧ t.once = (p.ends x).stream.once ∧
      t.done = (p.ends x).stream.done ∧ t.txClosed = (p.ends x).stream.txClosed ∧
      t.rxClosed = (p.ends x).stream.rxClosed ∧ t.written = (p.ends x).stream.written := by
    obtain ⟨f, rfl, hf⟩ := hx.todo todo htodo
    cases Stream.handle_cases hh with
    | misusedData hbad =>
        rcases hbad with hp | hc | hq
        · exact absurd (h.credit.protocol x) hp
        · rw [hx.rxClosed] at hc
          contradiction
        · exact absurd hq (Stream.queueTCPPayload_accepts hfc hbytes hframes hx.budget hx.rxClosed
            hfit (hroom (by rw [htodo, Stream.takesData])))
    | data hp hq =>
        unfold Stream.queueTCPPayload at hq
        split at hq
        all_goals
          obtain ⟨-, -, -, -, -, -, -, heq⟩ := Stream.queuePayload_spec hx.sound.rx hq
          rw [heq]
          exact ⟨rfl, rfl, rfl, rfl, rfl, rfl⟩
    | misusedCredit hbad =>
        obtain ⟨hne, hmax, hcap⟩ := h.credit.credit_fits htodo
        rcases hbad with hzero | hbig | hover
        · exact absurd hzero hne
        · omega
        · rw [Stream.addSendCredit, if_neg (by simp [hx.txClosed]), if_neg (by omega)] at hover
          contradiction
    | credit hc hadd =>
        rw [Stream.addSendCredit, if_neg (by simp [hx.txClosed])] at hadd
        split at hadd
        · contradiction
        · obtain rfl := Option.some.inj hadd
          exact ⟨rfl, rfl, rfl, rfl, rfl, rfl⟩
    | _ => simp [Signal.transfer] at hf
  obtain ⟨rfl, honce, hdone, htx, hrx, hwritten⟩ := haccept
  rw [hx.budget] at htog
  have hopen : End.Open { p.ends x with stream := t, budget := b, todo := none } :=
    ⟨hsound, honce.trans hx.once, hdone.trans hx.done, htx.trans hx.txClosed,
      hrx.trans hx.rxClosed, hx.registered, hx.live, Stream.budget_of_together htog, by simp, hord⟩
  refine ⟨hcredit, forall_update (P := fun _ e => e.Open) hopen (h.ends _), h.wires, fun y => ?_⟩
  have hw := h.written y
  rcases Side.eq_or y x with rfl | rfl
  · simp only [setEnd, Function.update_self, Function.update_of_ne (Side.other_ne y),
      hcl.delivered]
    exact hw
  · simp only [Side.other_other] at hw ⊢
    simp only [setEnd, Function.update_self, Function.update_of_ne (Side.other_ne x), hwritten]
    exact hw

/-- **Backpressure.** A single TCP stream with flow control on both sides, any
sequence of `Write` and `Read` calls on both: in every state of every run in which
each DATA frame finds fewer than 512 frames queued, neither end aborts or closes the
stream, and every byte one side has written is on the wire, with the read loop,
queued or read at the other. -/
theorem backpressure (maxStreams : Nat) (minIdle : Int) (id : Nat) (es : List Event) (p : Pair)
    (hcalls : ∀ e ∈ es, e.transfers = true)
    (hm : Conc.Meets (step (tunnelConfig maxStreams minIdle)) QueueRoom
      (init (tunnelConfig maxStreams minIdle) id .tcp) es)
    (hrun : (init (tunnelConfig maxStreams minIdle) id .tcp).run
      (tunnelConfig maxStreams minIdle) es = some p) (x : Side) :
    (p.ends x).todo ≠ some .abort ∧ (p.ends x).stream.once = .fresh ∧
    dataOf (p.ends x.other).stream.written =
      (p.ends x).stream.consumed ++ (p.ends x).stream.pending ++
        Stream.inHand (p.ends x).todo ++ dataOf (p.wire x.other) := by
  have hfc : ∀ y, (tunnelConfig maxStreams minIdle y).flowControl = true := by
    intro y
    cases y <;> rfl
  have h : Fed (tunnelConfig maxStreams minIdle) p := by
    refine (hm.and hcalls).invariant ?_ (init_fed _ id) hrun
    rintro q e q' hq ⟨hroom, htr⟩ hstep
    cases e with
    | act y a => exact hq.act (hfc y) htr hstep
    | deliver y => exact hq.deliver hstep
    | handle y now =>
        exact hq.handle (hfc y) (hfc _) (by cases y <;> rfl) (by cases y <;> rfl) hroom hstep
    | _ => contradiction
  have hx := h.ends x
  have habort : (p.ends x).todo ≠ some .abort := by
    intro hd
    obtain ⟨f, hf, -⟩ := hx.todo _ hd
    contradiction
  refine ⟨habort, hx.once, ?_⟩
  rw [h.written x, dataOf_append, hx.orderly.gapless (h.credit.protocol x) hx.rxClosed habort]

/-- One byte is written and goes to the receiver. -/
def smallWrite : List Event :=
  [.act .relay (.write [0]), .act .relay .writeCheck, .act .relay .writeTake,
    .act .relay (.writeFrame 0), .act .relay .writeCheck, .deliver .agent, .handle .agent 0]

/-- `n` bytes are written one by one. -/
def smallWrites : Nat → List Event
  | 0 => []
  | n + 1 => smallWrites n ++ smallWrite

/-- `n` bytes were written one by one, and none was read. -/
def stalled (n : Nat) : Pair where
  ends
    | .relay =>
        { stream := { newStream (relayConfig 256 1) 1 .tcp "" 0 .opened 0 with
            txCredit := tcpStreamReceiveQueueByteSize - n
            writes := List.replicate n ⟨[0], 1⟩
            written := List.replicate n (.data [0]) }
          budget := ⟨0, 0⟩
          todo := none
          registered := true
          closed := false }
    | .agent =>
        { stream := { newStream agentConfig 1 .tcp "" 0 .opened 0 with
            rxQueue := List.replicate n [0]
            rxQueued := n
            rxFrames := n
            delivered := List.replicate n (.data [0]) }
          budget := ⟨n, n⟩
          todo := none
          registered := true
          closed := false }
  wire _ := []

theorem smallWrite_stalled {n : Nat} (h : n < 512) :
    (stalled n).run (tunnelConfig 256 1) smallWrite = some (stalled (n + 1)) := by
  have hcredit : (n : Int) < tcpStreamReceiveQueueByteSize := by
    simp only [tcpStreamReceiveQueueByteSize]
    omega
  have hfit : ¬ tcpStreamReceiveQueueByteSize - (n : Int) < 1 := by omega
  have hroom : ¬ tcpStreamReceiveQueueFrameSize ≤ n := by
    simp only [tcpStreamReceiveQueueFrameSize]
    omega
  have hreserve : Budget.reserveReceive agentConfig ⟨n, n⟩ 1 (n + 1) (n + 1) =
      some ⟨n + 1, n + 1⟩ := by
    have hbytes : agentConfig.rxByteLimit = 64 * 2 ^ 20 := rfl
    have hframes : agentConfig.rxFrameLimit = 4096 := rfl
    simp only [Budget.reserveReceive, hbytes, hframes, connReceiveControlReserve,
      connReceiveFrameReserve, controlStreamByteThreshold, controlStreamFrameThreshold]
    rw [if_neg (by omega), if_neg (by omega), if_neg (by omega)]
  have hrelay : (relayConfig 256 1).flowControl = true := rfl
  have hagent : agentConfig.flowControl = true := rfl
  simp [run, smallWrite, Conc.exec, step, stalled, Stream.act, newStream, tunnelConfig, hrelay,
    maxDataPayloadSize, Stream.takeSendCredit, Stream.emit, Side.other, hcredit, hfit, setEnd,
    Stream.handle, Stream.queueTCPPayload, hagent, Stream.queuePayload, hroom, hreserve,
    Stream.addWritten]
  funext x
  cases x with
  | relay =>
      have hcalls : List.replicate (n + 1) (⟨[0], 1⟩ : WriteCall) =
          ⟨[0], 1⟩ :: List.replicate n ⟨[0], 1⟩ := rfl
      simp [hcalls, List.replicate_succ' (a := Signal.data [0])]
      omega
  | agent => simp [List.replicate_succ']

theorem run_smallWrites {n : Nat} (h : n ≤ 512) :
    (init (tunnelConfig 256 1) 1 .tcp).run (tunnelConfig 256 1) (smallWrites n) =
      some (stalled n) := by
  induction n with
  | zero =>
      rw [smallWrites, run, Conc.exec, Option.some.injEq, init, stalled, Pair.mk.injEq]
      exact ⟨funext fun x => by cases x <;> rfl, rfl⟩
  | succ n ih =>
      rw [run, smallWrites, Conc.exec_append (ih (by omega))]
      exact smallWrite_stalled (by omega)

theorem smallWrites_transfers (n : Nat) : ∀ e ∈ smallWrites n, e.transfers = true := by
  induction n with
  | zero => simp [smallWrites]
  | succ n ih =>
      have hlast : ∀ e ∈ smallWrite, e.transfers = true := by decide
      intro e he
      rcases List.mem_append.mp he with he | he
      · exact ih e he
      · exact hlast e he

/-- Nine bytes that nobody reads. -/
theorem backpressure_unread :
    (init (tunnelConfig 256 1) 1 .tcp).run (tunnelConfig 256 1) (smallWrites 9) =
      some (stalled 9) ∧
    ((stalled 9).ends .agent).todo ≠ some .abort ∧
    ((stalled 9).ends .agent).stream.rxFrames = 9 ∧
    dataOf ((stalled 9).ends .relay).stream.written =
      ((stalled 9).ends .agent).stream.consumed ++ ((stalled 9).ends .agent).stream.pending ++
        Stream.inHand ((stalled 9).ends .agent).todo ++ dataOf ((stalled 9).wire .relay) := by
  have hrun := run_smallWrites (n := 9) (by omega)
  have h := backpressure 256 1 1 (smallWrites 9) (stalled 9) (smallWrites_transfers 9)
    (by decide +kernel) hrun .agent
  exact ⟨hrun, h.1, rfl, h.2.2⟩

/-- The 513th byte makes the receiver abort the stream, with most of the window
left. -/
theorem small_writes_abort :
    (∀ e ∈ smallWrites 513, e.transfers = true) ∧
    ∃ p, (init (tunnelConfig 256 1) 1 .tcp).run (tunnelConfig 256 1) (smallWrites 513) = some p ∧
      (p.ends .agent).todo = some .abort ∧ (p.ends .agent).stream.rxQueued = 512 := by
  refine ⟨smallWrites_transfers 513, ?_⟩
  have hlast : ((stalled 512).run (tunnelConfig 256 1) smallWrite).any (fun p =>
      decide ((p.ends .agent).todo = some .abort ∧ (p.ends .agent).stream.rxQueued = 512)) =
        true := by
    decide +kernel
  obtain ⟨p, hp, h⟩ := (Option.any_eq_true _ _).mp hlast
  refine ⟨p, ?_, of_decide_eq_true h⟩
  rw [run, smallWrites, Conc.exec_append (run_smallWrites (le_refl 512))]
  exact hp

end Pair

end Tunnel
