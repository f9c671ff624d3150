import Blindport.Tunnel.Framing

/-!
# Blindport.Tunnel.Credit

Where the credit of one direction of a flow-controlled stream is.  At the sender it
is `txCredit` and what `taken` counts, at the receiver what `unreturned` counts.
A section of a goroutine, or of the read loop, only moves it, unless the stream or
the connection is closed.
-/

namespace Tunnel

namespace Signal

/-- The credit a frame uses up. -/
def payload : Signal → Nat
  | .data p | .datagram p => p.length
  | _ => 0

/-- The credit a frame returns. -/
def credit : Signal → Nat
  | .windowUpdate n => n
  | _ => 0

end Signal

/-- The payload of some frames. -/
def payloadOf (frames : List Signal) : Int := (frames.map fun f => (f.payload : Int)).sum

/-- The credit some frames return. -/
def creditOf (frames : List Signal) : Int := (frames.map fun f => (f.credit : Int)).sum

@[simp] theorem payloadOf_nil : payloadOf [] = 0 := rfl

@[simp] theorem payloadOf_cons (f : Signal) (l : List Signal) :
    payloadOf (f :: l) = f.payload + payloadOf l := by
  simp [payloadOf]

@[simp] theorem payloadOf_append (l m : List Signal) :
    payloadOf (l ++ m) = payloadOf l + payloadOf m := by
  simp [payloadOf]

theorem payloadOf_nonneg (l : List Signal) : 0 ≤ payloadOf l := by
  induction l with
  | nil => simp
  | cons f l ih =>
      rw [payloadOf_cons]
      omega

@[simp] theorem creditOf_nil : creditOf [] = 0 := rfl

@[simp] theorem creditOf_cons (f : Signal) (l : List Signal) :
    creditOf (f :: l) = f.credit + creditOf l := by
  simp [creditOf]

@[simp] theorem creditOf_append (l m : List Signal) :
    creditOf (l ++ m) = creditOf l + creditOf m := by
  simp [creditOf]

theorem creditOf_nonneg (l : List Signal) : 0 ≤ creditOf l := by
  induction l with
  | nil => simp
  | cons f l ih =>
      rw [creditOf_cons]
      omega

/-- The credit a `WriteContext` call has taken and not written. -/
def TxHolder.taken : TxHolder → Nat
  | .frame n _ => n
  | _ => 0

/-- The credit the flusher has taken and not written. -/
def Flusher.taken : Flusher → Nat
  | .frame credit => credit
  | _ => 0

namespace Stream

/-- The credit the writers have taken and not written. -/
def taken (s : Stream) : Int := s.txMu.taken + Rx.bytes s.datagrams

/-- What was received and has not been returned. -/
def unreturned (s : Stream) : Int := s.rxQueued + s.windowPending + s.flusher.taken

/-- The payload `Run` has in hand, which it queues or drops. -/
def payloadInHand : Option Todo → Nat
  | some (.deliver f) => f.payload
  | some (.drop n) => n
  | _ => 0

/-- The credit `Run` has in hand. -/
def creditInHand : Option Todo → Nat
  | some (.deliver f) => f.credit
  | _ => 0

/-- What holds of a stream whatever its peer does. -/
structure Flowing (s : Stream) : Prop where
  rx : s.toRx.Ok
  txCredit : 0 ≤ s.txCredit
  frame : ∀ n rest, s.txMu = .frame n rest → n ≤ rest.length
  flusher : s.windowSending = false → s.flusher = .off
  flushing : ∀ credit, s.flusher = .frame credit → credit ≠ 0
  pastTxClosed : s.once.pastTxClosed = true → s.txClosed = true
  pastDone : s.once.pastDone = true → s.done = true

/-- A section of a goroutine that writes `frames`. -/
structure Flows (closed : Bool) (s t : Stream) (frames : List Signal) : Prop where
  flowing : t.Flowing
  protocol : t.protocol = s.protocol
  txCreditCap : t.txCreditCap = s.txCreditCap
  done : s.done = true → t.done = true
  txClosed : s.txClosed = true → t.txClosed = true
  rxClosed : s.rxClosed = true → t.rxClosed = true
  sent : t.txCredit + t.taken + payloadOf frames ≤ s.txCredit + s.taken ∧
    (closed = false → t.txCredit + t.taken + payloadOf frames = s.txCredit + s.taken)
  returned : t.unreturned + creditOf frames ≤ s.unreturned ∧
    (closed = false → t.done = false → t.rxClosed = false →
      t.unreturned + creditOf frames = s.unreturned)

variable {cfg : Config} {closed : Bool} {b b' : Budget} {s t : Stream}

theorem taken_nonneg (s : Stream) : 0 ≤ s.taken := by
  have := Rx.bytes_nonneg s.datagrams
  unfold taken
  omega

theorem Flowing.unreturned_nonneg (h : s.Flowing) : 0 ≤ s.unreturned := by
  have := h.rx.queued_nonneg
  unfold unreturned
  omega

/-- A section that moves no credit. -/
theorem Flows.of_eq (h : s.Flowing) (h₁ : t.toRx = s.toRx) (h₂ : t.txCredit = s.txCredit)
    (h₃ : t.txMu.taken = s.txMu.taken) (h₄ : t.datagrams = s.datagrams)
    (h₅ : t.windowPending = s.windowPending) (h₆ : t.windowSending = s.windowSending)
    (h₇ : t.flusher = s.flusher) (h₈ : t.protocol = s.protocol)
    (h₉ : t.txCreditCap = s.txCreditCap) (hdone : s.done = true → t.done = true)
    (htx : s.txClosed = true → t.txClosed = true) (hrx : s.rxClosed = true → t.rxClosed = true)
    (hframe : ∀ n rest, t.txMu = .frame n rest → n ≤ rest.length)
    (hpastTx : t.once.pastTxClosed = true → t.txClosed = true)
    (hpast : t.once.pastDone = true → t.done = true) : Flows closed s t [] := by
  have hun : t.unreturned = s.unreturned := by simp [unreturned, h₁, h₅, h₇]
  have hta : t.taken = s.taken := by simp [taken, h₃, h₄]
  exact ⟨⟨h₁ ▸ h.rx, h₂ ▸ h.txCredit, hframe, by rw [h₆, h₇]; exact h.flusher,
    by rw [h₇]; exact h.flushing, hpastTx, hpast⟩, h₈, h₉, hdone, htx, hrx, by simp [h₂, hta],
    by simp [hun]⟩

/-- A section that moves no credit and closes nothing. -/
theorem Flows.keep (h : s.Flowing) (h₁ : t.toRx = s.toRx) (h₂ : t.txCredit = s.txCredit)
    (h₃ : t.txMu.taken = s.txMu.taken) (h₄ : t.datagrams = s.datagrams)
    (h₅ : t.windowPending = s.windowPending) (h₆ : t.windowSending = s.windowSending)
    (h₇ : t.flusher = s.flusher) (h₈ : t.protocol = s.protocol)
    (h₉ : t.txCreditCap = s.txCreditCap) (h₁₀ : t.done = s.done) (h₁₁ : t.txClosed = s.txClosed)
    (h₁₂ : t.rxClosed = s.rxClosed) (h₁₃ : t.once = s.once)
    (hframe : ∀ n rest, t.txMu = .frame n rest → n ≤ rest.length) : Flows closed s t [] :=
  .of_eq h h₁ h₂ h₃ h₄ h₅ h₆ h₇ h₈ h₉ h₁₀.trans h₁₁.trans h₁₂.trans hframe
    (by rw [h₁₁, h₁₃]; exact h.pastTxClosed) (by rw [h₁₀, h₁₃]; exact h.pastDone)

theorem uint32_eq {n : Int} (h₀ : 0 ≤ n) (h : n < 2 ^ 32) : (uint32 n : Int) = n := by
  unfold uint32
  rw [Int.emod_eq_of_lt h₀ h]
  omega

/-- What was taken from the send credit. -/
theorem takeSendCredit_spec {want n : Nat} {exact : Bool}
    (h : s.takeSendCredit want exact = some (n, t)) :
    (n : Int) ≤ s.txCredit ∧ n ≤ want ∧ (exact = true → n = want) := by
  unfold takeSendCredit at h
  split at h
  · rename_i hg
    rw [Option.some.injEq, Prod.mk.injEq] at h
    obtain ⟨rfl, -⟩ := h
    split
    · refine ⟨by omega, by omega, fun he => ?_⟩
      rw [he] at hg
      simp only [Bool.true_eq_false, false_or] at hg
      omega
    · exact ⟨by omega, le_refl _, fun _ => rfl⟩
  · contradiction

/-- Credit that is returned waits for the flusher, unless the stream is done. -/
theorem returnCredit_flows (hfc : cfg.flowControl = true) (h : s.Flowing) {n : Nat}
    (hn : s.windowPending + n < 2 ^ 32) :
    (s.returnCredit cfg n).Flowing ∧ (s.returnCredit cfg n).unreturned ≤ s.unreturned + n ∧
      ((s.returnCredit cfg n).done = false →
        (s.returnCredit cfg n).unreturned = s.unreturned + n) ∧
      ∃ pending sending flusher, s.returnCredit cfg n = { s with
        windowPending := pending
        windowSending := sending
        flusher := flusher } := by
  unfold returnCredit
  rw [Nat.mod_eq_of_lt hn]
  split
  · rename_i hg
    refine ⟨h, by omega, fun hd => ?_, _, _, _, rfl⟩
    simp only [hfc, hd, Bool.true_eq_false, Bool.false_eq_true, or_false, false_or] at hg
    omega
  · split
    · rename_i hsend
      refine ⟨⟨h.rx, h.txCredit, h.frame, by simp [hsend], h.flushing, h.pastTxClosed, h.pastDone⟩,
        ?_, fun _ => ?_, _, _, _, rfl⟩
      all_goals
        simp only [unreturned]
        push_cast
        omega
    · rename_i hsend
      have hoff := h.flusher (by simpa using hsend)
      refine ⟨⟨h.rx, h.txCredit, h.frame, by simp, by simp, h.pastTxClosed, h.pastDone⟩,
        ?_, fun _ => ?_, _, _, _, rfl⟩
      all_goals
        simp only [unreturned, hoff, Flusher.taken]
        push_cast
        omega

/-- What a read takes from the queue, it returns. -/
theorem Flows.of_read (hfc : cfg.flowControl = true) (h : s.Flowing) (hb : s.unreturned < 2 ^ 32)
    (hok : t.toRx.Ok) (hle : t.rxQueued ≤ s.rxQueued)
    (ht : t = ({ s with toRx := t.toRx }).returnCredit cfg (uint32 (s.rxQueued - t.rxQueued))) :
    Flows closed s t [] := by
  have h₁ : ({ s with toRx := t.toRx } : Stream).Flowing :=
    ⟨hok, h.txCredit, h.frame, h.flusher, h.flushing, h.pastTxClosed, h.pastDone⟩
  have hq := hok.queued_nonneg
  have hsize : (uint32 (s.rxQueued - t.rxQueued) : Int) = s.rxQueued - t.rxQueued := by
    refine uint32_eq (by omega) ?_
    unfold unreturned at hb
    omega
  have hun : ({ s with toRx := t.toRx } : Stream).unreturned =
      s.unreturned - (s.rxQueued - t.rxQueued) := by
    simp only [unreturned]
    omega
  obtain ⟨hfl, hle', heq, pending, sending, flusher, hstream⟩ := returnCredit_flows hfc h₁
    (n := uint32 (s.rxQueued - t.rxQueued)) (by
      show s.windowPending + _ < _
      unfold unreturned at hb
      omega)
  rw [← ht] at hfl hle' heq hstream
  have hdone : t.done = s.done := by rw [hstream]
  have htaken : t.taken = s.taken := by rw [hstream]; rfl
  have hcredit : t.txCredit = s.txCredit := by rw [hstream]
  refine ⟨hfl, by rw [hstream], by rw [hstream], fun hd => hdone.trans hd,
    fun hx => by rw [hstream]; exact hx, fun hx => by rw [hstream]; exact hx,
    by simp [htaken, hcredit], ?_, fun _ hd _ => ?_⟩
  · rw [creditOf_nil]
    omega
  · have := heq hd
    rw [creditOf_nil]
    omega

/-- `closeRead` may drop what is queued. -/
theorem Flows.of_closeRead (h : s.Flowing) (b : Budget) (discard : Bool) :
    Flows closed s (s.closeRead b discard).1 [] := by
  obtain ⟨hok, -⟩ := closeRead_spec b discard h.rx
  have hle := (closeRead_le (b := b) h.rx discard).1
  obtain ⟨rx, hrx⟩ := closeRead_eq b s discard
  rw [hrx] at hok hle ⊢
  refine ⟨⟨hok, h.txCredit, h.frame, h.flusher, h.flushing, h.pastTxClosed, h.pastDone⟩, rfl, rfl,
    fun h => h, fun h => h, fun _ => rfl, by simp [taken], ?_, by simp⟩
  simp only [unreturned, creditOf_nil]
  have hle : rx.rxQueued ≤ s.rxQueued := hle
  omega

/-- A change of the fields credit does not depend on. -/
theorem Flows.next {u : Stream} {frames : List Signal} (h : Flows closed s t frames)
    (h₁ : u.toRx = t.toRx) (h₂ : u.txCredit = t.txCredit)
    (h₃ : u.txMu = t.txMu) (h₄ : u.datagrams = t.datagrams)
    (h₅ : u.windowPending = t.windowPending) (h₆ : u.windowSending = t.windowSending)
    (h₇ : u.flusher = t.flusher) (h₈ : u.protocol = t.protocol)
    (h₉ : u.txCreditCap = t.txCreditCap) (h₁₀ : u.done = t.done) (h₁₁ : u.txClosed = t.txClosed)
    (h₁₂ : u.rxClosed = t.rxClosed) (h₁₃ : u.once = t.once) : Flows closed s u frames := by
  have hfl := h.flowing
  have hun : u.unreturned = t.unreturned := by simp [unreturned, h₁, h₅, h₇]
  have hta : u.taken = t.taken := by simp [taken, h₃, h₄]
  refine ⟨⟨h₁ ▸ hfl.rx, h₂ ▸ hfl.txCredit, h₃ ▸ hfl.frame, by rw [h₆, h₇]; exact hfl.flusher,
    by rw [h₇]; exact hfl.flushing, by rw [h₁₁, h₁₃]; exact hfl.pastTxClosed,
    by rw [h₁₀, h₁₃]; exact hfl.pastDone⟩, h₈.trans h.protocol, h₉.trans h.txCreditCap,
    fun hd => h₁₀.trans (h.done hd), fun hd => h₁₁.trans (h.txClosed hd),
    fun hd => h₁₂.trans (h.rxClosed hd), ?_, ?_⟩
  · rw [h₂, hta]
    exact h.sent
  · rw [hun, h₁₀, h₁₂]
    exact h.returned

/-- A frame that is neither payload nor credit. -/
theorem Flows.emit {f : Signal} (h : Flows closed s t []) (hp : f.payload = 0)
    (hc : f.credit = 0) : Flows closed s (t.emit f) [f] := by
  have hpay : payloadOf [f] = 0 := by simp [hp]
  have hcred : creditOf [f] = 0 := by simp [hc]
  refine ⟨⟨h.flowing.rx, h.flowing.txCredit, h.flowing.frame, h.flowing.flusher,
    h.flowing.flushing, h.flowing.pastTxClosed, h.flowing.pastDone⟩, h.protocol, h.txCreditCap,
    h.done, h.txClosed, h.rxClosed, ?_, ?_⟩
  · rw [hpay]
    exact h.sent
  · rw [hcred]
    exact h.returned

theorem Flows.of_enter (h : s.Flowing) {closer : Closer} {returned : Bool}
    (he : s.enter closer = some (t, returned)) : Flows closed s t [] := by
  rcases enter_cases he with ⟨-, -, rfl⟩ | ⟨other, -, -, rfl⟩
  · exact .of_eq h rfl rfl rfl rfl rfl rfl rfl rfl rfl (fun h => h) (fun h => h)
      (fun h => h) h.frame (by simp [Once.pastTxClosed]) (by simp [Once.pastDone])
  · exact .keep h rfl rfl rfl rfl rfl rfl rfl rfl rfl rfl rfl rfl rfl h.frame

theorem Flows.of_closeStep (h : s.Flowing) {e : Effect} (he : s.closeStep b = some e) :
    Flows closed s e.stream e.frame.toList := by
  obtain ⟨⟨t, returned⟩, hen, rfl⟩ := Option.map_eq_some_iff.mp he
  have ht : Flows closed s t [] := .of_enter h hen
  cases returned with
  | false => exact ht
  | true => exact ht.next rfl rfl rfl rfl rfl rfl rfl rfl rfl rfl rfl rfl rfl

/-- The body of `closeOnce`. -/
theorem Flows.of_onceStep (h : s.Flowing) {e : Effect} (he : s.onceStep b = some e) :
    Flows closed s e.stream e.frame.toList := by
  unfold onceStep at he
  split at he
  · obtain rfl := Option.some.inj he
    exact .of_eq h rfl rfl rfl rfl rfl rfl rfl rfl rfl (fun h => h) (fun h => h)
      (fun h => h) h.frame (by simp [Once.pastTxClosed]) (by simp [Once.pastDone])
  · obtain rfl := Option.some.inj he
    exact .of_eq h rfl rfl rfl rfl rfl rfl rfl rfl rfl (fun h => h) (fun _ => rfl)
      (fun h => h) h.frame (fun _ => rfl) (by simp [Once.pastDone])
  · rename_i closer hr
    obtain rfl := Option.some.inj he
    have htx := h.pastTxClosed (by simp [hr, Once.pastTxClosed])
    exact .of_eq h rfl rfl rfl rfl rfl rfl rfl rfl rfl (fun _ => rfl) (fun h => h)
      (fun h => h) h.frame (fun _ => htx) (fun _ => rfl)
  · rename_i closer hr
    have htx := h.pastTxClosed (by simp [hr, Once.pastTxClosed])
    have hdone := h.pastDone (by simp [hr, Once.pastDone])
    have ht : Flows closed s (s.closeRead b (decide (closer ≠ .peer))).1 [] := .of_closeRead h b _
    obtain rfl : s.closedBy b closer = e := Option.some.inj he
    exact ⟨⟨ht.flowing.rx, ht.flowing.txCredit, ht.flowing.frame, ht.flowing.flusher,
      ht.flowing.flushing, fun _ => ht.txClosed htx, fun _ => ht.done hdone⟩, ht.protocol,
      ht.txCreditCap, ht.done, ht.txClosed, ht.rxClosed, ht.sent, ht.returned⟩
  · contradiction

theorem bytes_eraseIdx {l : List (List UInt8)} {i : Nat} {p : List UInt8} (h : l[i]? = some p) :
    Rx.bytes (l.eraseIdx i) + p.length = Rx.bytes l := by
  induction l generalizing i with
  | nil => simp at h
  | cons q l ih =>
      cases i with
      | zero =>
          obtain rfl := Option.some.inj h
          rw [List.eraseIdx_cons_zero, Rx.bytes_cons]
          omega
      | succ i =>
          have := ih (i := i) h
          rw [List.eraseIdx_cons_succ, Rx.bytes_cons, Rx.bytes_cons]
          omega

/-- **Credit moves.** A section of a goroutine moves the credit of both directions;
frames that fail on a closed connection, and payload that is dropped when the
stream closes, lose it. -/
theorem act_flows {a : Act} {e : Effect} (hfc : cfg.flowControl = true) (h : s.Flowing)
    (hb : s.unreturned < 2 ^ 32) (ha : s.act cfg closed b a = some e) :
    Flows closed s e.stream e.frame.toList := by
  cases a with
  | write payload =>
      simp only [act] at ha
      split at ha
      · rename_i hg
        obtain rfl := Option.some.inj ha
        split
        · exact .keep h rfl rfl rfl rfl rfl rfl rfl rfl rfl rfl rfl rfl rfl h.frame
        · exact .keep h rfl rfl (by simp [hg.2.2, TxHolder.taken]) rfl rfl rfl rfl rfl rfl
            rfl rfl rfl rfl (by simp)
      · contradiction
  | writeCheck =>
      simp only [act] at ha
      split at ha
      · rename_i rest hm
        split at ha
        all_goals
          obtain rfl := Option.some.inj ha
          exact .keep h rfl rfl (by simp [hm, TxHolder.taken]) rfl rfl rfl rfl rfl rfl rfl rfl rfl
            rfl (by simp)
      · contradiction
  | writeTake =>
      simp only [act, hfc, if_true] at ha
      split at ha
      · rename_i rest hm
        obtain ⟨⟨n, t⟩, ht, rfl⟩ := Option.map_eq_some_iff.mp ha
        obtain ⟨hle, hwant, -⟩ := takeSendCredit_spec ht
        obtain rfl := takeSendCredit_eq ht
        have hsent : s.txCredit - n +
            taken { s with txCredit := s.txCredit - n, txMu := .frame n rest } + payloadOf [] =
            s.txCredit + s.taken := by
          simp only [taken, hm, TxHolder.taken, payloadOf_nil]
          omega
        refine ⟨⟨h.rx, ?_, ?_, h.flusher, h.flushing, h.pastTxClosed, h.pastDone⟩, rfl, rfl,
          fun h => h, fun h => h, fun h => h, ⟨hsent.le, fun _ => hsent⟩, by simp [unreturned]⟩
        · show 0 ≤ s.txCredit - n
          omega
        · intro n' rest' hf
          obtain ⟨rfl, rfl⟩ := TxHolder.frame.inj hf
          omega
      · contradiction
  | writeGiveUp =>
      simp only [act] at ha
      split at ha
      · rename_i rest hm
        split at ha
        · obtain rfl := Option.some.inj ha
          exact .keep h rfl rfl (by simp [hm, TxHolder.taken]) rfl rfl rfl rfl rfl rfl rfl rfl rfl
            rfl (by simp)
        · contradiction
      · contradiction
  | writeFrame now =>
      simp only [act] at ha
      split at ha
      · rename_i n rest hm
        split at ha
        · contradiction
        · obtain rfl := Option.some.inj ha
          have hlen : ((rest.take n).length : Int) = n := by
            have := h.frame n rest hm
            rw [List.length_take]
            omega
          refine ⟨⟨h.rx, h.txCredit, by simp [emit], h.flusher, h.flushing, h.pastTxClosed,
            h.pastDone⟩, rfl, rfl, fun h => h, fun h => h, fun h => h, ?_,
            by simp [unreturned, emit, Signal.credit]⟩
          simp only [Option.toList_some, payloadOf_cons, payloadOf_nil, Signal.payload, taken, emit,
            hm, TxHolder.taken, hlen]
          exact ⟨by omega, fun _ => by omega⟩
      · contradiction
  | closeWrite =>
      simp only [act] at ha
      split at ha
      · split at ha
        · exact .of_closeStep h ha
        · split at ha
          · rename_i hm
            split at ha
            · obtain rfl := Option.some.inj ha
              exact .keep h rfl rfl rfl rfl rfl rfl rfl rfl rfl rfl rfl rfl rfl h.frame
            · obtain rfl := Option.some.inj ha
              exact .of_eq h rfl rfl (by simp [hm, TxHolder.taken]) rfl rfl rfl rfl rfl rfl
                (fun h => h) (fun _ => rfl) (fun h => h) (by simp) (fun _ => rfl) h.pastDone
          · contradiction
      · contradiction
  | closeWriteFrame =>
      simp only [act] at ha
      split at ha
      · rename_i hg
        obtain rfl := Option.some.inj ha
        have hfree : Flows closed s { s with txMu := .free } [] :=
          .keep h rfl rfl (by simp [hg.1, TxHolder.taken]) rfl rfl rfl rfl rfl rfl rfl rfl rfl rfl
            (by simp)
        exact hfree.emit rfl rfl
      · contradiction
  | sendClose =>
      simp only [act] at ha
      split at ha
      · rename_i hg
        obtain rfl := Option.some.inj ha
        exact .keep h rfl rfl (by simp [hg.2, TxHolder.taken]) rfl rfl rfl rfl rfl rfl
          rfl rfl rfl rfl (by simp)
      · contradiction
  | closeFrame =>
      simp only [act] at ha
      split at ha
      · rename_i hg
        obtain rfl := Option.some.inj ha
        have hfree : Flows closed s { s with txMu := .free } [] :=
          .keep h rfl rfl (by simp [hg.1, TxHolder.taken]) rfl rfl rfl rfl rfl rfl rfl rfl rfl rfl
            (by simp)
        exact hfree.emit rfl rfl
      · contradiction
  | writeDatagram payload =>
      simp only [act, hfc, if_true] at ha
      split at ha
      · obtain ⟨⟨n, t⟩, ht, rfl⟩ := Option.map_eq_some_iff.mp ha
        obtain ⟨hle, -, hexact⟩ := takeSendCredit_spec ht
        obtain rfl := hexact rfl
        obtain rfl := takeSendCredit_eq ht
        have hsent : s.txCredit - payload.length +
            taken { s with
              txCredit := s.txCredit - payload.length
              datagrams := s.datagrams ++ [payload] } + payloadOf [] =
            s.txCredit + s.taken := by
          simp only [taken, payloadOf_nil, Rx.bytes_append, Rx.bytes_cons, Rx.bytes_nil]
          omega
        refine ⟨⟨h.rx, ?_, h.frame, h.flusher, h.flushing, h.pastTxClosed, h.pastDone⟩, rfl, rfl,
          fun h => h, fun h => h, fun h => h, ⟨hsent.le, fun _ => hsent⟩, by simp [unreturned]⟩
        show 0 ≤ s.txCredit - payload.length
        omega
      · contradiction
  | datagramFrame i now =>
      simp only [act] at ha
      split at ha
      · rename_i payload hi
        split at ha
        · contradiction
        · obtain rfl := Option.some.inj ha
          have hbytes := bytes_eraseIdx hi
          have hsent : s.txCredit + taken { s with datagrams := s.datagrams.eraseIdx i } +
              payloadOf [.datagram payload] = s.txCredit + s.taken := by
            simp only [taken, payloadOf_cons, payloadOf_nil, Signal.payload]
            omega
          exact ⟨⟨h.rx, h.txCredit, h.frame, h.flusher, h.flushing, h.pastTxClosed, h.pastDone⟩,
            rfl, rfl, fun h => h, fun h => h, fun h => h, ⟨hsent.le, fun _ => hsent⟩,
            by simp [unreturned, emit, Signal.credit]⟩
      · contradiction
  | flushTake =>
      simp only [act] at ha
      split at ha
      · rename_i hf
        split at ha
        · rename_i hzero
          obtain rfl := Option.some.inj ha
          have hun : unreturned { s with windowSending := false, flusher := .off } + creditOf [] =
              s.unreturned := by
            simp [unreturned, hf, Flusher.taken]
          exact ⟨⟨h.rx, h.txCredit, h.frame, fun _ => rfl, by simp, h.pastTxClosed, h.pastDone⟩,
            rfl, rfl, fun h => h, fun h => h, fun h => h, by simp [taken],
            hun.le, fun _ _ _ => hun⟩
        · rename_i hne
          obtain rfl := Option.some.inj ha
          have hun : unreturned { s with
              windowPending := 0
              flusher := .frame s.windowPending } + creditOf [] = s.unreturned := by
            simp [unreturned, hf, Flusher.taken]
          refine ⟨⟨h.rx, h.txCredit, h.frame, fun hs => ?_, fun credit hc => ?_, h.pastTxClosed,
            h.pastDone⟩, rfl, rfl, fun h => h, fun h => h, fun h => h, by simp [taken],
            hun.le, fun _ _ _ => hun⟩
          · rw [h.flusher hs] at hf
            contradiction
          · rw [← Flusher.frame.inj hc]
            exact hne
      · contradiction
  | flushFrame =>
      simp only [act] at ha
      split at ha
      · rename_i credit hf
        split at ha
        · contradiction
        · obtain rfl := Option.some.inj ha
          have hun : unreturned { s with flusher := .take } + creditOf [.windowUpdate credit] =
              s.unreturned := by
            simp [unreturned, hf, Flusher.taken, Signal.credit]
          refine ⟨⟨h.rx, h.txCredit, h.frame, fun hs => ?_, by simp [emit], h.pastTxClosed,
            h.pastDone⟩, rfl, rfl, fun h => h, fun h => h, fun h => h,
            by simp [taken, emit, Signal.payload], hun.le, fun _ _ _ => hun⟩
          rw [h.flusher hs] at hf
          contradiction
      · contradiction
  | read n =>
      simp only [act] at ha
      split at ha
      · obtain rfl := Option.some.inj ha
        have hspec := read_spec cfg b n h.rx
        exact .of_read hfc h hb hspec.ok hspec.shrinks.1 hspec.stream
      · contradiction
  | readDatagram n =>
      simp only [act] at ha
      split at ha
      · obtain rfl := Option.some.inj ha
        have hspec := readDatagram_spec cfg b n h.rx
        exact .of_read hfc h hb hspec.ok hspec.shrinks.1 hspec.stream
      · contradiction
  | close =>
      simp only [act] at ha
      split at ha
      · exact .of_closeStep h ha
      · contradiction
  | once => exact .of_onceStep h ha
  | sweep =>
      simp only [act] at ha
      split at ha
      · obtain ⟨⟨t, returned⟩, hen, rfl⟩ := Option.map_eq_some_iff.mp ha
        have ht : Flows closed s t [] := .of_enter h hen
        cases returned with
        | false => exact ht
        | true => exact ht.next rfl rfl rfl rfl rfl rfl rfl rfl rfl rfl rfl rfl rfl
      · contradiction
  | discard =>
      simp only [act] at ha
      split at ha
      · obtain rfl : s.discarded b = e := Option.some.inj ha
        have ht : Flows closed s (s.closeRead b true).1 [] := .of_closeRead h b true
        exact ht.next rfl rfl rfl rfl rfl rfl rfl rfl rfl rfl rfl rfl rfl
      · contradiction
  | failWrite =>
      simp only [act] at ha
      split at ha
      · rename_i hc
        have hfree : Flows closed s { s with txMu := .free } [] := by
          refine ⟨⟨h.rx, h.txCredit, by simp, h.flusher, h.flushing, h.pastTxClosed, h.pastDone⟩,
            rfl, rfl, fun h => h, fun h => h, fun h => h, ⟨?_, by simp [hc]⟩, by simp [unreturned]⟩
          simp only [taken, TxHolder.taken, payloadOf_nil]
          omega
        split at ha
        case h_4 => contradiction
        all_goals
          obtain rfl := Option.some.inj ha
          exact hfree
      · contradiction
  | failDatagram i =>
      simp only [act] at ha
      split at ha
      · rename_i hg
        obtain rfl := Option.some.inj ha
        have hbytes := bytes_eraseIdx (List.getElem?_eq_getElem hg.2)
        refine ⟨⟨h.rx, h.txCredit, h.frame, h.flusher, h.flushing, h.pastTxClosed, h.pastDone⟩,
          rfl, rfl, fun h => h, fun h => h, fun h => h, ⟨?_, by simp [hg.1]⟩, by simp [unreturned]⟩
        simp only [taken, Option.toList_none, payloadOf_nil]
        omega
      · contradiction
  | failFlush =>
      simp only [act] at ha
      split at ha
      · rename_i credit hf
        split at ha
        · rename_i hc
          obtain rfl := Option.some.inj ha
          refine ⟨⟨h.rx, h.txCredit, h.frame, fun _ => rfl, by simp, h.pastTxClosed, h.pastDone⟩,
            rfl, rfl, fun h => h, fun h => h, fun h => h, by simp [taken], ?_, by simp [hc]⟩
          simp only [unreturned, Flusher.taken, Option.toList_none, creditOf_nil]
          omega
        · contradiction
      · contradiction

/-- A section of the read loop. -/
structure HandleFlows (s t : Stream) (todo : Todo) (rest : Option Todo) : Prop where
  flowing : t.Flowing
  protocol : t.protocol = s.protocol
  txCreditCap : t.txCreditCap = s.txCreditCap
  done : s.done = true → t.done = true
  txClosed : s.txClosed = true → t.txClosed = true
  rxClosed : s.rxClosed = true → t.rxClosed = true
  taken : t.taken = s.taken
  sent : t.txCredit + creditInHand rest ≤ s.txCredit + creditInHand (some todo) ∧
    (t.txClosed = false → rest ≠ some .abort →
      t.txCredit + creditInHand rest = s.txCredit + creditInHand (some todo))
  returned : t.unreturned + payloadInHand rest ≤ s.unreturned + payloadInHand (some todo) ∧
    (t.done = false → rest ≠ some .abort →
      t.unreturned + payloadInHand rest = s.unreturned + payloadInHand (some todo))
  abort : todo = .abort → rest = some .abort ∨ t.done = true ∧ t.txClosed = true

/-- A section that moves no credit. -/
theorem HandleFlows.of_flows {todo : Todo} {rest : Option Todo} (h : Flows false s t [])
    (htaken : t.taken = s.taken) (htodo : creditInHand (some todo) = 0 ∧
      payloadInHand (some todo) = 0) (hrest : creditInHand rest = 0 ∧ payloadInHand rest = 0)
    (hret : t.unreturned = s.unreturned)
    (habort : todo = .abort → rest = some .abort ∨ t.done = true ∧ t.txClosed = true) :
    HandleFlows s t todo rest := by
  have hsent := h.sent.2 rfl
  rw [payloadOf_nil] at hsent
  refine ⟨h.flowing, h.protocol, h.txCreditCap, h.done, h.txClosed, h.rxClosed, htaken, ?_, ?_,
    habort⟩
  · rw [htodo.1, hrest.1]
    exact ⟨by omega, fun _ _ => by omega⟩
  · rw [htodo.2, hrest.2, hret]
    exact ⟨le_refl _, fun _ _ => rfl⟩

/-- `Run` aborts the stream, and what it had in hand is lost. -/
theorem HandleFlows.misused (h : s.Flowing) {f : Signal} :
    HandleFlows s s (.deliver f) (some .abort) := by
  refine ⟨h, rfl, rfl, fun h => h, fun h => h, fun h => h, rfl, ⟨?_, by simp⟩, ⟨?_, by simp⟩,
    by simp⟩
  · show s.txCredit + (0 : Nat) ≤ s.txCredit + f.credit
    omega
  · show s.unreturned + (0 : Nat) ≤ s.unreturned + f.payload
    omega

theorem HandleFlows.queued {payload : List UInt8} {byteLimit frameLimit now : Int} {f : Signal}
    (h : s.Flowing) (hp : f.payload = payload.length) (hc : f.credit = 0)
    (hq : s.queuePayload cfg b payload byteLimit frameLimit now = some (t, b')) :
    HandleFlows s t (.deliver f) none := by
  obtain ⟨hok, -, -, -, -, -, hqueued, heq⟩ := queuePayload_spec h.rx hq
  have hret : t.unreturned + (0 : Nat) = s.unreturned + (f.payload : Nat) := by
    have hpend : t.windowPending = s.windowPending := by rw [heq]
    have hflush : t.flusher = s.flusher := by rw [heq]
    simp only [unreturned, hpend, hflush, hqueued, hp]
    push_cast
    omega
  have hsent : t.txCredit + (0 : Nat) = s.txCredit + (f.credit : Nat) := by
    rw [hc, heq]
  refine ⟨?_, by rw [heq], by rw [heq], fun hd => by rw [heq]; exact hd,
    fun hd => by rw [heq]; exact hd, fun hd => by rw [heq]; exact hd, by rw [heq]; rfl,
    ⟨hsent.le, fun _ _ => hsent⟩, ⟨hret.le, fun _ _ => hret⟩, by simp⟩
  rw [heq]
  exact ⟨hok, h.txCredit, h.frame, h.flusher, h.flushing, h.pastTxClosed, h.pastDone⟩

/-- `closeOnce.Do` for an abort or the peer's CLOSE. -/
theorem HandleFlows.enter {closer : Closer} {returned : Bool} {todo : Todo} {rest : Option Todo}
    (h : s.Flowing) (he : s.enter closer = some (t, returned))
    (htodo : todo = .abort ∨ todo = .closeRX) (hrest : rest = none ∨ rest = some todo)
    (hret : returned = false → rest = some todo) : HandleFlows s t todo rest := by
  have hflows : Flows false s t [] := .of_enter h he
  have hfinished : returned = true → t.done = true ∧ t.txClosed = true := by
    intro hr
    rcases enter_cases he with ⟨-, hf, -⟩ | ⟨other, hon, -, -⟩
    · rw [hr] at hf
      contradiction
    · exact ⟨hflows.done (h.pastDone (by simp [hon, Once.pastDone])),
        hflows.txClosed (h.pastTxClosed (by simp [hon, Once.pastTxClosed]))⟩
  refine .of_flows hflows ?_ ?_ ?_ ?_ fun habort => ?_
  · rcases enter_cases he with ⟨-, -, rfl⟩ | ⟨other, -, -, rfl⟩ <;> rfl
  · rcases htodo with rfl | rfl <;> exact ⟨rfl, rfl⟩
  · rcases hrest with rfl | rfl
    · exact ⟨rfl, rfl⟩
    · rcases htodo with rfl | rfl <;> exact ⟨rfl, rfl⟩
  · rcases enter_cases he with ⟨-, -, rfl⟩ | ⟨other, -, -, rfl⟩ <;> rfl
  · cases returned with
    | true => exact .inr (hfinished rfl)
    | false => exact .inl (habort ▸ hret rfl)

/-- **The read loop moves credit**, unless it aborts the stream. -/
theorem handle_flows {now : Int} {todo : Todo} {rest : Option Todo}
    (hfc : cfg.flowControl = true) (h : s.Flowing)
    (hb : s.unreturned + payloadInHand (some todo) < 2 ^ 32)
    (hh : s.handle cfg b now todo = some (t, b', rest)) : HandleFlows s t todo rest := by
  cases handle_cases hh with
  | misusedData _ => exact .misused h
  | misusedDatagram _ => exact .misused h
  | misusedCredit _ => exact .misused h
  | data hp hq =>
      unfold queueTCPPayload at hq
      split at hq <;> exact .queued h rfl rfl hq
  | datagram hp hq => exact .queued h rfl rfl hq
  | dropped hp hq =>
      exact ⟨h, rfl, rfl, fun h => h, fun h => h, fun h => h, rfl,
        ⟨le_refl _, fun _ _ => rfl⟩, ⟨le_refl _, fun _ _ => rfl⟩, by simp⟩
  | credit hc hadd =>
      rename_i credit
      unfold addSendCredit at hadd
      split at hadd
      · rename_i htx
        obtain rfl := Option.some.inj hadd
        refine ⟨h, rfl, rfl, fun h => h, fun h => h, fun h => h, rfl, ⟨?_, by simp [htx]⟩,
          ⟨le_refl _, fun _ _ => rfl⟩, by simp⟩
        show s.txCredit + (0 : Nat) ≤ s.txCredit + credit
        omega
      · split at hadd
        · contradiction
        · obtain rfl := Option.some.inj hadd
          have hsent : s.txCredit + credit + (0 : Nat) = s.txCredit + credit := by simp
          refine ⟨⟨h.rx, ?_, h.frame, h.flusher, h.flushing, h.pastTxClosed, h.pastDone⟩, rfl, rfl,
            fun h => h, fun h => h, fun h => h, rfl, ⟨hsent.le, fun _ _ => hsent⟩,
            ⟨le_refl _, fun _ _ => rfl⟩, by simp⟩
          have := h.txCredit
          show 0 ≤ s.txCredit + credit
          omega
  | closeWrite =>
      obtain ⟨-, -, -, hkeep, -⟩ := closeRead_spec b false h.rx
      obtain ⟨rx, hrx⟩ := closeRead_eq b s false
      have hsame := hkeep rfl
      rw [hrx] at hsame
      refine .of_flows (.of_closeRead h b false) ?_ ⟨rfl, rfl⟩ ⟨rfl, rfl⟩ ?_ (by simp)
      · rw [hrx]
        rfl
      · rw [hrx]
        simp only [unreturned]
        rw [show rx = s.toRx from hsame]
  | close =>
      exact ⟨h, rfl, rfl, fun h => h, fun h => h, fun h => h, rfl,
        ⟨le_refl _, fun _ _ => rfl⟩, ⟨le_refl _, fun _ _ => rfl⟩, by simp⟩
  | returned =>
      rename_i n
      have hnon := h.rx.queued_nonneg
      have hb : s.unreturned + n < 2 ^ 32 := hb
      have hsize : (uint32 n : Int) = n := uint32_eq (by omega) (by unfold unreturned at hb; omega)
      obtain ⟨hfl, hle, heq, pending, sending, flusher, hstream⟩ := returnCredit_flows hfc h
        (n := uint32 n) (by unfold unreturned at hb; omega)
      rw [hsize] at hle heq
      refine ⟨hfl, by rw [hstream], by rw [hstream], fun hd => by rw [hstream]; exact hd,
        fun hd => by rw [hstream]; exact hd, fun hd => by rw [hstream]; exact hd,
        by rw [hstream]; rfl, ?_, ⟨?_, fun hd _ => ?_⟩, by simp⟩
      · rw [hstream]
        exact ⟨le_refl _, fun _ _ => rfl⟩
      · show _ + ((0 : Nat) : Int) ≤ s.unreturned + (n : Nat)
        omega
      · have := heq hd
        show _ + ((0 : Nat) : Int) = s.unreturned + (n : Nat)
        omega
  | aborting hen => exact .enter h hen (.inl rfl) (.inr rfl) fun _ => rfl
  | aborted hen =>
      have ht : HandleFlows s _ .abort none := .enter h hen (.inl rfl) (.inl rfl) (by simp)
      have hfl := ht.flowing
      exact ⟨⟨hfl.rx, hfl.txCredit, hfl.frame, hfl.flusher, hfl.flushing, hfl.pastTxClosed,
        hfl.pastDone⟩, ht.protocol, ht.txCreditCap, ht.done, ht.txClosed, ht.rxClosed, ht.taken,
        ht.sent, ht.returned, ht.abort⟩
  | closing hen => exact .enter h hen (.inr rfl) (.inr rfl) fun _ => rfl
  | closed hen => exact .enter h hen (.inr rfl) (.inl rfl) (by simp)

end Stream

end Tunnel
