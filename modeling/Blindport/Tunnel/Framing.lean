import Mathlib.Data.List.Induction
import Blindport.Tunnel.Order

/-!
# Blindport.Tunnel.Framing

The order of the frames a connection writes for a TCP stream it opened: OPEN, then
DATA and WINDOW_UPDATE, at most one CLOSE_WRITE and no DATA after it, at most one
CLOSE and only WINDOW_UPDATE after it.

OPEN is written by `OpenStream` and CLOSE by `sendClose` under `txMu`, which
`OpenStream` does not hold.  Between `insertStream` and the OPEN the stream is in the
table, so an abort can come to it; `OpenedFirst` says that none does.
-/

namespace Tunnel

/-- What was written for a TCP stream. -/
inductive Phase where
  | unopened
  | sending
  | halfClosed
  | closed
deriving DecidableEq

/-- The frames that may follow. -/
def Phase.next : Phase → Signal → Option Phase
  | .unopened, .opening _ => some .sending
  | .sending, .data _ | .sending, .windowUpdate _ => some .sending
  | .sending, .closeWrite => some .halfClosed
  | .halfClosed, .windowUpdate _ => some .halfClosed
  | .sending, .close | .halfClosed, .close => some .closed
  | .closed, .windowUpdate _ => some .closed
  | _, _ => none

/-- The phase after some frames; `none` when one of them is out of order. -/
def phaseOf (frames : List Signal) : Option Phase := frames.foldlM Phase.next .unopened

theorem phaseOf_snoc {l : List Signal} {ph : Phase} (h : phaseOf l = some ph) (f : Signal) :
    phaseOf (l ++ [f]) = ph.next f := by
  unfold phaseOf at h ⊢
  rw [List.foldlM_append, h]
  simp

/-- A stream is closed for the peer by a CLOSE frame only. -/
theorem close_mem_of_phaseOf {l : List Signal} (h : phaseOf l = some .closed) :
    Signal.close ∈ l := by
  induction l using List.reverseRecOn with
  | nil => simp [phaseOf] at h
  | append_singleton l f ih =>
      unfold phaseOf at h
      rw [List.foldlM_append, Option.bind_eq_bind, Option.bind_eq_some_iff] at h
      obtain ⟨ph, hl, hf⟩ := h
      rw [List.mem_append, List.mem_singleton]
      by_cases hph : ph = .closed
      · exact .inl (ih (hph ▸ hl))
      · right
        cases ph <;> cases f <;> simp_all [Phase.next]

/-- The goroutine that holds the mutex is to write DATA or CLOSE_WRITE. -/
def TxHolder.writes : TxHolder → Bool
  | .loop _ | .want _ | .frame _ _ | .closeWrite => true
  | .free | .close => false

/-- The stream is closed by `Close` or `abort`, whose `sendClose` follows. -/
def Once.sendsClose : Once → Bool
  | .running .user _ | .running .abort _ | .finished .user | .finished .abort => true
  | _ => false

/-- `Close` or `abort` has closed the stream. -/
def Once.closedHere : Once → Bool
  | .finished .user | .finished .abort => true
  | _ => false

/-- The body of `closeOnce` is past its `txClosed.Store(true)`. -/
def Once.pastTxClosed : Once → Bool
  | .running _ .done | .running _ .closeRead | .finished _ => true
  | _ => false

/-- The body of `closeOnce` is past its `close(doneCh)`. -/
def Once.pastDone : Once → Bool
  | .running _ .closeRead | .finished _ => true
  | _ => false

namespace Stream

/-- The CLOSE frames that are to be written or have been. -/
def closes (s : Stream) (ph : Phase) : Nat :=
  s.sends + (if s.txMu = .close then 1 else 0) + if ph = .closed then 1 else 0

/-- What the sending goroutines of a TCP stream opened here can still do. -/
structure Framed (closed : Bool) (s : Stream) (ph : Phase) : Prop where
  tcp : s.protocol = .tcp
  datagrams : s.datagrams = []
  frames : phaseOf s.written = some ph
  unopened : s.opening ≠ .opened → ph = .unopened ∧ s.txMu = .free ∧ s.flusher = .off ∧
    s.once.sendsClose = false
  opened : s.opening = .opened → ph ≠ .unopened
  writing : s.txMu.writes = true → ph = .sending
  halfClosed : ph = .halfClosed ∨ s.txMu = .closeWrite →
    s.txCloseOnce = true ∧ s.txClosed = true
  ended : ph = .closed → s.done = true ∧ s.txClosed = true
  pastTxClosed : s.once.pastTxClosed = true → s.txClosed = true
  pastDone : s.once.pastDone = true → s.done = true
  quiet : s.once.closedHere = false → s.closes ph = 0
  once : s.once.closedHere = true → s.closes ph ≤ 1 ∧ (closed = false → s.closes ph = 1)

variable {cfg : Config} {closed : Bool} {b b' : Budget} {s t : Stream} {ph : Phase}

/-- A section that does not touch the sending side. -/
theorem Framed.of_eq (h : Framed closed s ph) (h₁ : t.protocol = s.protocol)
    (h₂ : t.datagrams = s.datagrams) (h₃ : t.written = s.written) (h₄ : t.opening = s.opening)
    (h₅ : t.txMu = s.txMu) (h₆ : t.flusher = s.flusher ∨ s.opening = .opened)
    (h₇ : t.once = s.once) (h₈ : t.txCloseOnce = s.txCloseOnce) (h₉ : t.txClosed = s.txClosed)
    (h₁₀ : t.done = s.done) (h₁₁ : t.sends = s.sends) : Framed closed t ph := by
  have hcl : t.closes ph = s.closes ph := by simp [closes, h₅, h₁₁]
  refine ⟨h₁ ▸ h.tcp, h₂ ▸ h.datagrams, h₃ ▸ h.frames, fun ho => ?_, h₄ ▸ h.opened, h₅ ▸ h.writing,
    ?_, ?_, ?_, ?_, ?_, ?_⟩
  · rw [h₄] at ho
    obtain ⟨hph, htx, hfl, hon⟩ := h.unopened ho
    exact ⟨hph, h₅ ▸ htx, (h₆.resolve_right ho) ▸ hfl, h₇ ▸ hon⟩
  · rw [h₅, h₈, h₉]
    exact h.halfClosed
  · rw [h₁₀, h₉]
    exact h.ended
  · rw [h₇, h₉]
    exact h.pastTxClosed
  · rw [h₇, h₁₀]
    exact h.pastDone
  · rw [h₇, hcl]
    exact h.quiet
  · rw [h₇, hcl]
    exact h.once

theorem Framed.opening_eq (h : Framed closed s ph) (hm : s.txMu ≠ .free) :
    s.opening = .opened := by
  by_contra ho
  exact hm (h.unopened ho).2.1

/-- The mutex changes hands, but not from or to `sendClose`. -/
theorem Framed.hold (h : Framed closed s ph) (ho : s.opening = .opened) (hs : s.txMu ≠ .close)
    {m : TxHolder} (hm : m ≠ .close ∧ m ≠ .closeWrite) (hw : m.writes = true → ph = .sending) :
    Framed closed { s with txMu := m } ph := by
  have hcl : closes { s with txMu := m } ph = s.closes ph := by simp [closes, hs, hm.1]
  refine ⟨h.tcp, h.datagrams, h.frames, fun hne => absurd ho hne, h.opened, hw,
    fun hp => h.halfClosed (hp.imp_right fun he => absurd he hm.2), h.ended, h.pastTxClosed,
    h.pastDone, ?_, ?_⟩
  · rw [hcl]
    exact h.quiet
  · rw [hcl]
    exact h.once

/-- The mutex is free, so a goroutine that may write still can. -/
theorem Framed.sending (h : Framed closed s ph) (ho : s.opening = .opened)
    (hx : s.txClosed = false ∨ s.txCloseOnce = false ∧ s.done = false) : ph = .sending := by
  cases ph with
  | unopened => exact absurd rfl (h.opened ho)
  | sending => rfl
  | halfClosed =>
      obtain ⟨h₁, h₂⟩ := h.halfClosed (.inl rfl)
      simp [h₁, h₂] at hx
  | closed =>
      obtain ⟨h₁, h₂⟩ := h.ended rfl
      simp [h₁, h₂] at hx

/-- A DATA or WINDOW_UPDATE frame. -/
theorem Framed.emit (h : Framed closed s ph) {f : Signal} (hf : ph.next f = some ph) :
    Framed closed (s.emit f) ph :=
  ⟨h.tcp, h.datagrams, (phaseOf_snoc h.frames f).trans hf, h.unopened, h.opened, h.writing,
    h.halfClosed, h.ended, h.pastTxClosed, h.pastDone, h.quiet, h.once⟩

/-- A caller comes to `closeOnce`; `Close` and `abort` only after the OPEN. -/
theorem Framed.enter (h : Framed closed s ph) {closer : Closer} {returned : Bool}
    (hc : closer = .user ∨ closer = .abort → s.opening = .opened)
    (he : s.enter closer = some (t, returned)) : Framed closed t ph := by
  rcases enter_cases he with ⟨hf, -, rfl⟩ | ⟨other, -, -, rfl⟩
  · have hquiet := h.quiet (by simp [hf, Once.closedHere])
    refine ⟨h.tcp, h.datagrams, h.frames, fun ho => ?_, h.opened, h.writing, h.halfClosed, h.ended,
      by simp [Once.pastTxClosed], by simp [Once.pastDone], fun _ => hquiet,
      by simp [Once.closedHere]⟩
    obtain ⟨h₁, h₂, h₃, -⟩ := h.unopened ho
    refine ⟨h₁, h₂, h₃, ?_⟩
    cases closer with
    | user => exact absurd (hc (.inl rfl)) ho
    | abort => exact absurd (hc (.inr rfl)) ho
    | _ => rfl
  · exact h.of_eq rfl rfl rfl rfl rfl (.inl rfl) rfl rfl rfl rfl rfl

theorem Framed.closeStep (h : Framed closed s ph) (ho : s.opening = .opened) {e : Effect}
    (he : s.closeStep b = some e) : Framed closed e.stream ph := by
  obtain ⟨⟨t, returned⟩, hen, rfl⟩ := Option.map_eq_some_iff.mp he
  have ht := h.enter (fun _ => ho) hen
  cases returned with
  | true => exact ht.of_eq rfl rfl rfl rfl rfl (.inl rfl) rfl rfl rfl rfl rfl
  | false => exact ht

/-- The body of `closeOnce` goes on, and sets its flags on the way. -/
theorem Framed.goesOn (h : Framed closed s ph) {closer : Closer} {x y : Statement}
    (hr : s.once = .running closer x) {txClosed done : Bool}
    (htx : s.txClosed = true ∨ (Once.running closer y).pastTxClosed = true → txClosed = true)
    (hdone : s.done = true ∨ (Once.running closer y).pastDone = true → done = true) :
    Framed closed { s with once := .running closer y, txClosed := txClosed, done := done } ph := by
  refine ⟨h.tcp, h.datagrams, h.frames, fun ho => ?_, h.opened, h.writing,
    fun hp => ⟨(h.halfClosed hp).1, htx (.inl (h.halfClosed hp).2)⟩,
    fun hp => ⟨hdone (.inl (h.ended hp).1), htx (.inl (h.ended hp).2)⟩, fun hp => htx (.inr hp),
    fun hp => hdone (.inr hp), fun _ => h.quiet (by simp [hr, Once.closedHere]),
    by simp [Once.closedHere]⟩
  obtain ⟨h₁, h₂, h₃, h₄⟩ := h.unopened ho
  refine ⟨h₁, h₂, h₃, ?_⟩
  rw [hr] at h₄
  cases closer <;> simp_all [Once.sendsClose]

theorem closeRead_eq (b : Budget) (s : Stream) (discard : Bool) :
    ∃ rx, (s.closeRead b discard).1 = { s with toRx := rx, rxClosed := true } := by
  unfold closeRead
  split <;> exact ⟨_, rfl⟩

/-- The body of `closeOnce`: `sendClose` comes after `done`. -/
theorem Framed.onceStep (h : Framed closed s ph) {e : Effect} (he : s.onceStep b = some e) :
    Framed closed e.stream ph := by
  unfold Stream.onceStep at he
  split at he
  · rename_i closer hr
    obtain rfl := Option.some.inj he
    exact h.goesOn hr (fun ht => ht.resolve_right (by simp [Once.pastTxClosed]))
      fun ht => ht.resolve_right (by simp [Once.pastDone])
  · rename_i closer hr
    obtain rfl := Option.some.inj he
    exact h.goesOn hr (fun _ => rfl) fun ht => ht.resolve_right (by simp [Once.pastDone])
  · rename_i closer hr
    obtain rfl := Option.some.inj he
    exact h.goesOn hr (fun _ => h.pastTxClosed (by simp [hr, Once.pastTxClosed])) fun _ => rfl
  · rename_i closer hr
    have htx := h.pastTxClosed (by simp [hr, Once.pastTxClosed])
    have hdone := h.pastDone (by simp [hr, Once.pastDone])
    have hquiet := h.quiet (by simp [hr, Once.closedHere])
    obtain ⟨rx, hrx⟩ := closeRead_eq b s (decide (closer ≠ .peer))
    obtain rfl : s.closedBy b closer = e := Option.some.inj he
    simp only [closedBy, hrx]
    refine ⟨h.tcp, h.datagrams, h.frames, fun ho => ?_, h.opened, h.writing, h.halfClosed, h.ended,
      fun _ => htx, fun _ => hdone, fun hc => ?_, fun hc => ?_⟩
    · obtain ⟨h₁, h₂, h₃, h₄⟩ := h.unopened ho
      refine ⟨h₁, h₂, h₃, ?_⟩
      rw [hr] at h₄
      cases closer <;> simp_all [Once.sendsClose]
    · cases closer <;> simp_all [Once.closedHere, closes]
    · cases closer <;> simp_all [Once.closedHere, closes]
  · contradiction

theorem Framed.returnCredit (h : Framed closed s ph) (ho : s.opening = .opened) (n : Nat) :
    Framed closed (s.returnCredit cfg n) ph := by
  unfold Stream.returnCredit
  split
  · exact h
  · split <;> exact h.of_eq rfl rfl rfl rfl rfl (.inr ho) rfl rfl rfl rfl rfl

theorem takeSendCredit_eq {want n : Nat} {exact : Bool}
    (h : s.takeSendCredit want exact = some (n, t)) :
    t = { s with txCredit := s.txCredit - n } := by
  unfold takeSendCredit at h
  split at h
  · rw [Option.some.injEq, Prod.mk.injEq] at h
    rw [← h.1]
    exact h.2.symm
  · contradiction

/-- `CloseWrite` gets the mutex for the first time. -/
theorem Framed.startCloseWrite (h : Framed closed s ph) (ho : s.opening = .opened)
    (hm : s.txMu = .free) (hdone : s.done = false) (honce : s.txCloseOnce = false) :
    Framed closed { s with txCloseOnce := true, txClosed := true, txMu := .closeWrite } ph := by
  have hcl : closes { s with txCloseOnce := true, txClosed := true, txMu := .closeWrite } ph =
      s.closes ph := by simp [closes, hm]
  refine ⟨h.tcp, h.datagrams, h.frames, fun hne => absurd ho hne, h.opened,
    fun _ => h.sending ho (.inr ⟨honce, hdone⟩), fun _ => ⟨rfl, rfl⟩,
    fun hp => ⟨(h.ended hp).1, rfl⟩, fun _ => rfl, h.pastDone, ?_, ?_⟩
  · rw [hcl]
    exact h.quiet
  · rw [hcl]
    exact h.once

/-- `CloseWrite` writes its frame. -/
theorem Framed.emitCloseWrite (h : Framed closed s ph) (hm : s.txMu = .closeWrite) :
    Framed closed (({ s with txMu := .free }).emit .closeWrite) .halfClosed := by
  have ho := h.opening_eq (by simp [hm])
  obtain rfl := h.writing (by simp [hm, TxHolder.writes])
  have hcl : closes (({ s with txMu := .free }).emit .closeWrite) .halfClosed =
      s.closes .sending := by simp [closes, Stream.emit, hm]
  refine ⟨h.tcp, h.datagrams, phaseOf_snoc h.frames _, fun hne => absurd ho hne, fun _ => by simp,
    by simp [Stream.emit, TxHolder.writes], fun _ => h.halfClosed (.inr hm), by simp,
    h.pastTxClosed, h.pastDone, ?_, ?_⟩
  · rw [hcl]
    exact h.quiet
  · rw [hcl]
    exact h.once

/-- A `sendClose` that has not written its frame: the stream was closed here, and no
other CLOSE is to come or was written. -/
theorem Framed.last (h : Framed closed s ph) (hc : 1 ≤ s.closes ph) :
    s.once.closedHere = true ∧ s.closes ph = 1 := by
  have hhere : s.once.closedHere = true := by
    by_contra hne
    have := h.quiet (by simpa using hne)
    omega
  have := (h.once hhere).1
  exact ⟨hhere, by omega⟩

/-- `sendClose` gets the mutex. -/
theorem Framed.sendClose (h : Framed closed s ph) (hs : 0 < s.sends) (hm : s.txMu = .free) :
    Framed closed { s with sends := s.sends - 1, txMu := .close } ph := by
  have hcl : closes { s with sends := s.sends - 1, txMu := .close } ph = s.closes ph := by
    simp only [closes, hm, if_true, reduceCtorEq, if_false]
    omega
  have hhere := (h.last (by simp only [closes]; omega)).1
  refine ⟨h.tcp, h.datagrams, h.frames, fun ho => ?_, h.opened, by simp [TxHolder.writes],
    fun hp => h.halfClosed (hp.imp_right (by simp)), h.ended, h.pastTxClosed, h.pastDone, ?_, ?_⟩
  · have hon := (h.unopened ho).2.2.2
    cases hon' : s.once with
    | finished closer => cases closer <;> simp_all [Once.closedHere, Once.sendsClose]
    | _ => simp [hon', Once.closedHere] at hhere
  · rw [hcl]
    exact h.quiet
  · rw [hcl]
    exact h.once

/-- `sendClose` writes its frame. -/
theorem Framed.emitClose (h : Framed closed s ph) (hm : s.txMu = .close) :
    Framed closed (({ s with txMu := .free }).emit .close) .closed := by
  have ho := h.opening_eq (by simp [hm])
  obtain ⟨hhere, hone⟩ := h.last (by simp only [closes, hm, if_true]; omega)
  simp only [closes, hm, if_true] at hone
  have hph : ph ≠ .closed := fun he => by
    rw [if_pos he] at hone
    omega
  have hnext : ph.next .close = some .closed := by
    cases ph with
    | unopened => exact absurd rfl (h.opened ho)
    | closed => exact absurd rfl hph
    | _ => rfl
  obtain ⟨closer, hon⟩ : ∃ closer, s.once = .finished closer := by
    cases hon : s.once with
    | finished closer => exact ⟨closer, rfl⟩
    | _ => simp [hon, Once.closedHere] at hhere
  have htx := h.pastTxClosed (by simp [hon, Once.pastTxClosed])
  have hdone := h.pastDone (by simp [hon, Once.pastDone])
  have hcl : closes (({ s with txMu := .free }).emit .close) .closed = 1 := by
    simp only [closes, Stream.emit, reduceCtorEq, if_true, if_false]
    omega
  exact ⟨h.tcp, h.datagrams, (phaseOf_snoc h.frames _).trans hnext, fun hne => absurd ho hne,
    fun _ => by simp, by simp [Stream.emit, TxHolder.writes], by simp [Stream.emit],
    fun _ => ⟨hdone, htx⟩, fun _ => htx, fun _ => hdone,
    fun hc => by
      have hc : s.once.closedHere = false := hc
      rw [hhere] at hc
      contradiction,
    fun _ => by simp [hcl]⟩

/-- A frame fails on a closed connection. -/
theorem Framed.failWrite (h : Framed true s ph) (ho : s.opening = .opened) :
    Framed true { s with txMu := .free } ph := by
  have hle : closes { s with txMu := .free } ph ≤ s.closes ph := by
    simp only [closes, reduceCtorEq, if_false]
    omega
  refine ⟨h.tcp, h.datagrams, h.frames, fun hne => absurd ho hne, h.opened,
    by simp [TxHolder.writes], fun hp => h.halfClosed (hp.imp_right (by simp)), h.ended,
    h.pastTxClosed, h.pastDone, fun hc => ?_, fun hc => ⟨?_, by simp⟩⟩
  · have := h.quiet hc
    omega
  · have := (h.once hc).1
    omega

/-- Every section of a goroutine keeps the frames in order. -/
theorem Framed.act {a : Act} {e : Effect} (h : Framed closed s ph) (hok : s.toRx.Ok)
    (ha : s.act cfg closed b a = some e) : ∃ ph', Framed closed e.stream ph' := by
  cases a with
  | write payload =>
      simp only [Stream.act] at ha
      split at ha
      · rename_i hg
        obtain rfl := Option.some.inj ha
        split
        · exact ⟨ph, h⟩
        · rename_i htx
          have hloop := h.hold (m := .loop payload) hg.2.1 (by simp [hg.2.2]) (by simp)
            fun _ => h.sending hg.2.1 (.inl (by simpa using htx))
          exact ⟨ph, hloop.of_eq rfl rfl rfl rfl rfl (.inl rfl) rfl rfl rfl rfl rfl⟩
      · contradiction
  | writeCheck =>
      simp only [Stream.act] at ha
      split at ha
      · rename_i rest hm
        have hsend := h.writing (by simp [hm, TxHolder.writes])
        have ho := h.opening_eq (by simp [hm])
        split at ha
        all_goals
          obtain rfl := Option.some.inj ha
          exact ⟨ph, h.hold ho (by simp [hm]) (by simp) fun _ => hsend⟩
      · contradiction
  | writeTake =>
      simp only [Stream.act] at ha
      split at ha
      · rename_i rest hm
        have hsend := h.writing (by simp [hm, TxHolder.writes])
        have hframe := fun n => h.hold (m := .frame n rest) (h.opening_eq (by simp [hm]))
          (by simp [hm]) (by simp) fun _ => hsend
        split at ha
        · obtain ⟨⟨n, t⟩, ht, rfl⟩ := Option.map_eq_some_iff.mp ha
          rw [takeSendCredit_eq ht]
          exact ⟨ph, (hframe n).of_eq rfl rfl rfl rfl rfl (.inl rfl) rfl rfl rfl rfl rfl⟩
        · obtain rfl := Option.some.inj ha
          exact ⟨ph, hframe _⟩
      · contradiction
  | writeGiveUp =>
      simp only [Stream.act] at ha
      split at ha
      · rename_i rest hm
        split at ha
        · obtain rfl := Option.some.inj ha
          exact ⟨ph, h.hold (h.opening_eq (by simp [hm])) (by simp [hm]) (by simp)
            (by simp [TxHolder.writes])⟩
        · contradiction
      · contradiction
  | writeFrame now =>
      simp only [Stream.act] at ha
      split at ha
      · rename_i n rest hm
        split at ha
        · contradiction
        · obtain rfl := Option.some.inj ha
          obtain rfl := h.writing (by simp [hm, TxHolder.writes])
          have hloop := h.hold (m := .loop (rest.drop n)) (h.opening_eq (by simp [hm]))
            (by simp [hm]) (by simp) fun _ => rfl
          have htouch : Framed closed { s with
              txMu := .loop (rest.drop n)
              writes := addWritten n s.writes
              lastActivity := now } .sending :=
            hloop.of_eq rfl rfl rfl rfl rfl (.inl rfl) rfl rfl rfl rfl rfl
          exact ⟨.sending, htouch.emit rfl⟩
      · contradiction
  | closeWrite =>
      simp only [Stream.act] at ha
      split at ha
      · rename_i hg
        split at ha
        · exact ⟨ph, h.closeStep hg.2 ha⟩
        · split at ha
          · rename_i hm
            split at ha
            · obtain rfl := Option.some.inj ha
              exact ⟨ph, h⟩
            · rename_i hno
              obtain rfl := Option.some.inj ha
              rw [not_or, Bool.not_eq_true, Bool.not_eq_true] at hno
              exact ⟨ph, h.startCloseWrite hg.2 hm hno.1 hno.2⟩
          · contradiction
      · contradiction
  | closeWriteFrame =>
      simp only [Stream.act] at ha
      split at ha
      · rename_i hg
        obtain rfl := Option.some.inj ha
        exact ⟨.halfClosed, h.emitCloseWrite hg.1⟩
      · contradiction
  | sendClose =>
      simp only [Stream.act] at ha
      split at ha
      · rename_i hg
        obtain rfl := Option.some.inj ha
        exact ⟨ph, h.sendClose hg.1 hg.2⟩
      · contradiction
  | closeFrame =>
      simp only [Stream.act] at ha
      split at ha
      · rename_i hg
        obtain rfl := Option.some.inj ha
        exact ⟨.closed, h.emitClose hg.1⟩
      · contradiction
  | writeDatagram payload => simp [Stream.act, h.tcp] at ha
  | datagramFrame i now => simp [Stream.act, h.datagrams] at ha
  | flushTake =>
      simp only [Stream.act] at ha
      split at ha
      · rename_i hf
        have ho : s.opening = .opened := by
          by_contra ho
          rw [(h.unopened ho).2.2.1] at hf
          contradiction
        split at ha
        all_goals
          obtain rfl := Option.some.inj ha
          exact ⟨ph, h.of_eq rfl rfl rfl rfl rfl (.inr ho) rfl rfl rfl rfl rfl⟩
      · contradiction
  | flushFrame =>
      simp only [Stream.act] at ha
      split at ha
      · rename_i credit hf
        have ho : s.opening = .opened := by
          by_contra ho
          rw [(h.unopened ho).2.2.1] at hf
          contradiction
        split at ha
        · contradiction
        · obtain rfl := Option.some.inj ha
          have htake : Framed closed { s with flusher := .take } ph :=
            h.of_eq rfl rfl rfl rfl rfl (.inr ho) rfl rfl rfl rfl rfl
          refine ⟨ph, htake.emit ?_⟩
          cases ph with
          | unopened => exact absurd rfl (h.opened ho)
          | _ => rfl
      · contradiction
  | read n =>
      simp only [Stream.act] at ha
      split at ha
      · rename_i hg
        obtain rfl := Option.some.inj ha
        have hread : Framed closed { s with toRx := (s.read cfg b n).2.1.toRx } ph :=
          h.of_eq rfl rfl rfl rfl rfl (.inl rfl) rfl rfl rfl rfl rfl
        refine ⟨ph, ?_⟩
        show Framed closed (s.read cfg b n).2.1 ph
        rw [(read_spec cfg b n hok).stream]
        exact hread.returnCredit hg.2 _
      · contradiction
  | readDatagram n => simp [Stream.act, h.tcp] at ha
  | close =>
      simp only [Stream.act] at ha
      split at ha
      · rename_i ho
        exact ⟨ph, h.closeStep ho ha⟩
      · contradiction
  | once => exact ⟨ph, h.onceStep ha⟩
  | sweep =>
      simp only [Stream.act] at ha
      split at ha
      · obtain ⟨⟨t, returned⟩, hen, rfl⟩ := Option.map_eq_some_iff.mp ha
        have ht := h.enter (by simp) hen
        cases returned with
        | true => exact ⟨ph, ht.of_eq rfl rfl rfl rfl rfl (.inl rfl) rfl rfl rfl rfl rfl⟩
        | false => exact ⟨ph, ht⟩
      · contradiction
  | discard =>
      simp only [Stream.act] at ha
      split at ha
      · obtain ⟨rx, hrx⟩ := closeRead_eq b s true
        obtain rfl : s.discarded b = e := Option.some.inj ha
        simp only [discarded, hrx]
        exact ⟨ph, h.of_eq rfl rfl rfl rfl rfl (.inl rfl) rfl rfl rfl rfl rfl⟩
      · contradiction
  | failWrite =>
      simp only [Stream.act] at ha
      split at ha
      · rename_i hc
        obtain rfl := hc
        split at ha
        case h_4 => contradiction
        all_goals
          rename_i hm
          obtain rfl := Option.some.inj ha
          exact ⟨ph, h.failWrite (h.opening_eq (by simp [hm]))⟩
      · contradiction
  | failDatagram i =>
      simp only [Stream.act, h.datagrams] at ha
      simp at ha
  | failFlush =>
      simp only [Stream.act] at ha
      split at ha
      · rename_i credit hf
        split at ha
        · obtain rfl := Option.some.inj ha
          have ho : s.opening = .opened := by
            by_contra ho
            rw [(h.unopened ho).2.2.1] at hf
            contradiction
          exact ⟨ph, h.of_eq rfl rfl rfl rfl rfl (.inr ho) rfl rfl rfl rfl rfl⟩
        · contradiction
      · contradiction

theorem Framed.queuePayload {payload : List UInt8} {byteLimit frameLimit now : Int}
    (h : Framed closed s ph) (hok : s.toRx.Ok)
    (hq : s.queuePayload cfg b payload byteLimit frameLimit now = some (t, b')) :
    Framed closed t ph := by
  obtain ⟨-, -, -, -, -, -, -, heq⟩ := queuePayload_spec hok hq
  rw [heq]
  exact h.of_eq rfl rfl rfl rfl rfl (.inl rfl) rfl rfl rfl rfl rfl

/-- The read loop does not write.  Its abort comes after the OPEN. -/
theorem Framed.handle {now : Int} {todo : Todo} {rest : Option Todo} (h : Framed closed s ph)
    (hok : s.toRx.Ok) (hdrop : ∀ n, todo ≠ .drop n)
    (habort : todo = .abort → s.opening = .opened)
    (hh : s.handle cfg b now todo = some (t, b', rest)) :
    Framed closed t ph ∧ ∀ n, rest ≠ some (.drop n) := by
  cases handle_cases hh with
  | misusedData _ => exact ⟨h, by simp⟩
  | misusedDatagram _ => exact ⟨h, by simp⟩
  | misusedCredit _ => exact ⟨h, by simp⟩
  | data hp hq =>
      unfold queueTCPPayload at hq
      split at hq <;> exact ⟨h.queuePayload hok hq, by simp⟩
  | datagram hp hq =>
      rw [h.tcp] at hp
      contradiction
  | dropped hp hq =>
      rw [h.tcp] at hp
      contradiction
  | credit hc hadd =>
      refine ⟨?_, by simp⟩
      unfold addSendCredit at hadd
      split at hadd
      · obtain rfl := Option.some.inj hadd
        exact h
      · split at hadd
        · contradiction
        · obtain rfl := Option.some.inj hadd
          exact h.of_eq rfl rfl rfl rfl rfl (.inl rfl) rfl rfl rfl rfl rfl
  | closeWrite =>
      obtain ⟨rx, hrx⟩ := closeRead_eq b s false
      rw [hrx]
      exact ⟨h.of_eq rfl rfl rfl rfl rfl (.inl rfl) rfl rfl rfl rfl rfl, by simp⟩
  | close => exact ⟨h, by simp⟩
  | returned => exact absurd rfl (hdrop _)
  | aborting hen => exact ⟨h.enter (fun _ => habort rfl) hen, by simp⟩
  | aborted hen =>
      have ht := h.enter (fun _ => habort rfl) hen
      exact ⟨ht.of_eq rfl rfl rfl rfl rfl (.inl rfl) rfl rfl rfl rfl rfl, by simp⟩
  | closing hen => exact ⟨h.enter (by simp) hen, by simp⟩
  | closed hen => exact ⟨h.enter (by simp) hen, by simp⟩

/-- `OpenStream` goes on, or fails, without its frame. -/
theorem Framed.stillUnopened (h : Framed closed s ph) {o : Opening} (hs : s.opening ≠ .opened)
    (ho : o ≠ .opened) : Framed closed { s with opening := o } ph :=
  ⟨h.tcp, h.datagrams, h.frames, fun _ => h.unopened hs, fun he => absurd he ho, h.writing,
    h.halfClosed, h.ended, h.pastTxClosed, h.pastDone, h.quiet, h.once⟩

/-- `OpenStream` writes its frame. -/
theorem Framed.opens (h : Framed closed s ph) (hs : s.opening ≠ .opened)
    (protocol : Option Transport) :
    Framed closed (({ s with opening := .opened }).emit (.opening protocol)) .sending := by
  obtain ⟨rfl, -⟩ := h.unopened hs
  have hcl : closes (({ s with opening := .opened }).emit (.opening protocol)) .sending =
      s.closes .unopened := rfl
  refine ⟨h.tcp, h.datagrams, phaseOf_snoc h.frames _, fun hne => absurd rfl hne, fun _ => by simp,
    fun _ => rfl, fun hp => h.halfClosed (hp.imp_left (by simp)), by simp, h.pastTxClosed,
    h.pastDone, ?_, ?_⟩
  · rw [hcl]
    exact h.quiet
  · rw [hcl]
    exact h.once

theorem newStream_framed (cfg : Config) (id : Nat) (group : String) (now : Int)
    {opening : Opening} (ho : opening ≠ .opened) (born : Nat) :
    (newStream cfg id .tcp group now opening born).Framed closed .unopened :=
  ⟨rfl, rfl, rfl, fun _ => ⟨rfl, rfl, rfl, rfl⟩, fun h => absurd h ho,
    by simp [newStream, TxHolder.writes], by simp [newStream], by simp, by
    simp [newStream, Once.pastTxClosed], by simp [newStream, Once.pastDone], fun _ => rfl,
    by simp [newStream, Once.closedHere]⟩

/-- Nothing depends on the connection being live but the CLOSE that follows. -/
theorem Framed.closes_conn (h : Framed false s ph) : Framed true s ph :=
  ⟨h.tcp, h.datagrams, h.frames, h.unopened, h.opened, h.writing, h.halfClosed, h.ended,
    h.pastTxClosed, h.pastDone, h.quiet, fun hc => ⟨(h.once hc).1, by simp⟩⟩

end Stream

/-! ## the connection -/

namespace Conn

variable {cfg : Config} {c c' : Conn} {e : Event} {i : Nat} {s t : Stream}
  {d : Option Stream.Todo}

/-- No abort, that of an eviction included, comes to the stream at `i` before its
OPEN is written. -/
def OpenedFirst (i : Nat) (c : Conn) (e : Event) : Prop :=
  c.aborted e = some i → ∀ s ∈ c.streams[i]?, s.opening = .opened

instance (i : Nat) (c : Conn) (e : Event) : Decidable (OpenedFirst i c e) :=
  inferInstanceAs (Decidable (c.aborted e = some i → ∀ s ∈ c.streams[i]?, s.opening = .opened))

/-- A stream of the connection that is in order. -/
def Framed (c : Conn) (i : Nat) : Prop :=
  ∃ s ph, c.streams[i]? = some s ∧ s.Framed c.closed ph ∧ ∀ n, c.todo i ≠ some (.drop n)

theorem Change.framed {ph : Phase} (h : Change cfg c e i s t d) (hs : s.Sound)
    (hi : c.streams[i]? = some s) (hcond : OpenedFirst i c e)
    (hf : s.Framed c.closed ph) (hd : ∀ n, c.todo i ≠ some (.drop n)) :
    (∃ ph', t.Framed c.closed ph') ∧ ∀ n, d ≠ some (.drop n) := by
  have keep : ∀ {u : Stream}, u.protocol = s.protocol → u.datagrams = s.datagrams →
      u.written = s.written → u.opening = s.opening → u.txMu = s.txMu → u.flusher = s.flusher →
      u.once = s.once → u.txCloseOnce = s.txCloseOnce → u.txClosed = s.txClosed →
      u.done = s.done → u.sends = s.sends → (∃ ph', u.Framed c.closed ph') :=
    fun h₁ h₂ h₃ h₄ h₅ h₆ h₇ h₈ h₉ h₁₀ h₁₁ =>
      ⟨ph, hf.of_eq h₁ h₂ h₃ h₄ h₅ (.inl h₆) h₇ h₈ h₉ h₁₀ h₁₁⟩
  cases h with
  | same => exact ⟨⟨ph, hf⟩, hd⟩
  | act he ha => exact ⟨hf.act hs.rx ha, hd⟩
  | handle he hr hh =>
      obtain ⟨ht, hrest⟩ := hf.handle hs.rx (fun n hn => hd n (hn ▸ hr)) (fun habort => by
        refine hcond ?_ s hi
        rw [habort] at hr
        simp [he, aborted, reader_of_todo hr]) hh
      exact ⟨⟨ph, ht⟩, hrest⟩
  | mark he hk ho => exact ⟨keep rfl rfl rfl rfl rfl rfl rfl rfl rfl rfl rfl, hd⟩
  | enter he hk ho ht =>
      have hopen : s.opening = .opened := hcond (by simp [he, aborted, hk, ho]) s hi
      exact ⟨⟨ph, hf.enter (fun _ => hopen) ht⟩, hd⟩
  | abortReturns he hk ho ht =>
      have hopen : s.opening = .opened := hcond (by simp [he, aborted, hk, ho]) s hi
      have hent := hf.enter (fun _ => hopen) ht
      exact ⟨⟨ph, hent.of_eq rfl rfl rfl rfl rfl (.inl rfl) rfl rfl rfl rfl rfl⟩, hd⟩
  | toAborting he ho => exact ⟨⟨ph, hf.stillUnopened (by simp [ho]) (by simp)⟩, hd⟩
  | toWriting he ho => exact ⟨⟨ph, hf.stillUnopened (by simp [ho]) (by simp)⟩, hd⟩
  | opens he ho hc => exact ⟨⟨.sending, hf.opens (by simp [ho]) _⟩, hd⟩
  | openFails he ho hc => exact ⟨⟨ph, hf.stillUnopened (by simp [ho]) (by simp)⟩, hd⟩
  | sweep he hc => exact ⟨keep rfl rfl rfl rfl rfl rfl rfl rfl rfl rfl rfl, hd⟩
  | routed he hi' hr => exact ⟨keep rfl rfl rfl rfl rfl rfl rfl rfl rfl rfl rfl, by simp⟩

theorem Framed.step (h : c.Framed i) (hb : BudgetOk cfg c) (hcond : OpenedFirst i c e)
    (hstep : c.step cfg e = some c') : c'.Framed i := by
  obtain ⟨s, ph, hs, hf, hd⟩ := h
  obtain ⟨t, ht, hch⟩ := step_later hstep hs
  obtain ⟨⟨ph', hf'⟩, hd'⟩ := hch.framed (hb.sound s (List.mem_of_getElem? hs)) hs hcond hf hd
  refine ⟨t, ph', ht, ?_, hd'⟩
  rcases step_closed hstep with hc | hc
  · rwa [hc]
  · rw [hc]
    cases hcl : c.closed with
    | true => rwa [hcl] at hf'
    | false =>
        rw [hcl] at hf'
        exact hf'.closes_conn

/-- A stream that `OpenStream` made. -/
theorem opened_framed {group : String} {now : Int} {victim : Option Nat} (h : Ordered cfg c)
    (hstep : c.step cfg (.openStream .tcp group now victim) = some c')
    (hmade : c'.streams.length = c.streams.length + 1) : c'.Framed c.streams.length := by
  have hlt : c.streams.length < c'.streams.length := by omega
  rcases step_stream hstep (List.getElem?_eq_getElem hlt) with ⟨s, hs, -⟩ | hfresh
  · have := (List.getElem?_eq_some_iff.mp hs).1
    omega
  · obtain ⟨id, protocol, group', now', opening, born, hnew, hcase⟩ := hfresh.new
    refine ⟨_, .unopened, List.getElem?_eq_getElem hlt, ?_, fun n hn => ?_⟩
    · rw [hnew]
      rcases hcase with ⟨-, -, he⟩ | ⟨ho, -, victim', he⟩
      · contradiction
      · obtain rfl := (Event.openStream.inj he).1
        refine Stream.newStream_framed cfg id group' now' ?_ born
        rcases ho with rfl | ⟨v, rfl, -⟩ <;> simp
    -- `Run` is not busy with a stream that was not there.
    · rcases step_busy hstep (reader_of_todo hn) with ⟨d', hr⟩ | ⟨id, f, now, he, -⟩
      · have := h.reader _ d' hr
        omega
      · contradiction

/-- **Frame order.** For every stream that an `OpenStream` call made, in every state
of every run in which no abort comes to it before its OPEN is written: the frames
written for it are in order, and once `Close` or `abort` has closed it, the peer's
CLOSE not being first, and the writes of its OPEN and CLOSE are over on a live
tunnel, a CLOSE has been written. -/
theorem frame_order (cfg : Config) (before after : List Event) (c₀ c₁ c : Conn)
    (group : String) (now : Int) (victim : Option Nat) (s : Stream)
    (hbefore : newConn.run cfg before = some c₀)
    (hopen : c₀.step cfg (.openStream .tcp group now victim) = some c₁)
    (hmade : c₁.streams.length = c₀.streams.length + 1)
    (hm : Conc.Meets (step cfg) (OpenedFirst c₀.streams.length) c₁ after)
    (hafter : c₁.run cfg after = some c) (hs : c.streams[c₀.streams.length]? = some s) :
    (phaseOf s.written).isSome = true ∧
    (c.closed = false → s.once = .finished .user ∨ s.once = .finished .abort →
      s.opening = .opened → s.sends = 0 → s.txMu ≠ .close → Signal.close ∈ s.written) := by
  have h₀ : Ordered cfg c₀ := Conc.exec_invariant
    (fun _ _ _ h hstep => Ordered.step h hstep) (newConn_ordered cfg) hbefore
  have hf₁ := opened_framed h₀ hopen hmade
  obtain ⟨-, t, ph, ht, hf, -⟩ := hm.invariant
    (I := fun d => BudgetOk cfg d ∧ d.Framed c₀.streams.length)
    (fun _ _ _ h hc hstep => ⟨h.1.step hstep, h.2.step h.1 hc hstep⟩) ⟨h₀.budget.step hopen, hf₁⟩
    hafter
  obtain rfl : s = t := Option.some.inj (hs.symm.trans ht)
  refine ⟨by rw [hf.frames]; rfl, fun hlive hon ho hsends hmu => ?_⟩
  have hhere : s.once.closedHere = true := by
    rcases hon with hon | hon <;> simp [hon, Once.closedHere]
  have hone := (hf.once hhere).2 hlive
  simp only [Stream.closes, hsends, hmu, if_false] at hone
  have hph : ph = .closed := by
    by_contra hne
    rw [if_neg hne] at hone
    omega
  exact close_mem_of_phaseOf (hph ▸ hf.frames)

/-- A relay with one stream: the stream at 0 is opened and closed. -/
def openCloseRun : List Event :=
  [.opening 0, .act 0 .close, .act 0 .once, .act 0 .once, .act 0 .once, .act 0 .once,
    .act 0 .sendClose, .act 0 .closeFrame]

theorem frame_order_open_close :
    ∃ c₁ c s, newConn.step (relayConfig 1 1) (.openStream .tcp "a" 0 none) = some c₁ ∧
      c₁.run (relayConfig 1 1) openCloseRun = some c ∧ c.streams[0]? = some s ∧
      (phaseOf s.written).isSome = true ∧ Signal.close ∈ s.written := by
  have hobs : ((newConn.step (relayConfig 1 1) (.openStream .tcp "a" 0 none)).bind fun c₁ =>
      (c₁.run (relayConfig 1 1) openCloseRun).bind fun c => (c.streams[0]?).map fun s =>
        decide (c₁.streams.length = 1 ∧ c.closed = false ∧ s.once = .finished .user ∧
          s.opening = .opened ∧ s.sends = 0 ∧ s.txMu = .free ∧
          Conc.Meets (step (relayConfig 1 1)) (OpenedFirst 0) c₁ openCloseRun)) =
      some true := by decide +kernel
  obtain ⟨c₁, hopen, hobs⟩ := Option.bind_eq_some_iff.mp hobs
  obtain ⟨c, hrun, hobs⟩ := Option.bind_eq_some_iff.mp hobs
  obtain ⟨s, hs, hobs⟩ := Option.map_eq_some_iff.mp hobs
  obtain ⟨hmade, hlive, honce, ho, hsends, hmu, hm⟩ := of_decide_eq_true hobs
  obtain ⟨hframes, hclose⟩ := frame_order (relayConfig 1 1) [] openCloseRun newConn c₁ c "a" 0 none
    s rfl hopen hmade hm hrun hs
  exact ⟨c₁, c, s, hopen, hrun, hs, hframes,
    hclose hlive (.inl honce) ho hsends (by simp [hmu])⟩

/-- A relay with one stream, before whose OPEN another call evicts it. -/
def evictUnopenedRun : List Event :=
  [.openStream .tcp "a" 0 none, .openStream .tcp "b" 10 (some 0), .opening 1, .opening 1,
    .act 0 .once, .act 0 .once, .act 0 .once, .act 0 .once, .act 0 .sendClose, .act 0 .closeFrame,
    .opening 0]

/-- The CLOSE of the evicted stream is written before its OPEN, and none after it. -/
theorem close_before_open :
    ∃ c s, newConn.run (relayConfig 1 1) evictUnopenedRun = some c ∧ c.streams[0]? = some s ∧
      s.written = [.close, .opening (some .tcp)] ∧ phaseOf s.written = none ∧
      c.closed = false ∧ s.once = .finished .abort ∧ s.opening = .opened ∧ s.sends = 0 ∧
      s.txMu = .free := by
  have hobs : ((newConn.run (relayConfig 1 1) evictUnopenedRun).bind fun c =>
      (c.streams[0]?).map fun s => decide (s.written = [.close, .opening (some .tcp)] ∧
        c.closed = false ∧ s.once = .finished .abort ∧ s.opening = .opened ∧ s.sends = 0 ∧
        s.txMu = .free)) = some true := by decide +kernel
  obtain ⟨c, hrun, hobs⟩ := Option.bind_eq_some_iff.mp hobs
  obtain ⟨s, hs, hobs⟩ := Option.map_eq_some_iff.mp hobs
  obtain ⟨hw, hlive, honce, ho, hsends, hmu⟩ := of_decide_eq_true hobs
  exact ⟨c, s, hrun, hs, hw, by rw [hw]; rfl, hlive, honce, ho, hsends, hmu⟩

end Conn

end Tunnel
