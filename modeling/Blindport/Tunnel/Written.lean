import Blindport.Tunnel.Framing

/-!
# Blindport.Tunnel.Written

The sending side of a stream: the DATA frames that were written for it carry the bytes
its `WriteContext` calls have accepted, in order (`Stream.Wrote.bytes`), none of them
stands before its OPEN, and none after a frame that ends its side.

`Stream.Sends` is what one section can do to the sending side; `Conn.Filed` says that
the frames on the wire with a stream's identifier are the frames of the stream.
-/

namespace Tunnel

/-! ## the frames of a stream -/

/-- The frame is an OPEN. -/
def Signal.isOpening : Signal → Bool
  | .opening _ => true
  | _ => false

/-- `g` may stand behind `f`: there are no bytes behind an end of the stream, and none
and no other OPEN before an OPEN. -/
def Signal.Precedes (f g : Signal) : Prop :=
  (ends f = true → dataOf [g] = []) ∧
    (g.isOpening = true → dataOf [f] = [] ∧ f.isOpening = false)

/-- What the holder of the mutex has left of its argument. -/
def TxHolder.rest : TxHolder → Option (List UInt8)
  | .loop l | .want l | .frame _ l => some l
  | _ => none

theorem dataOf_eq_nil {l : List Signal} : dataOf l = [] ↔ ∀ f ∈ l, dataOf [f] = [] := by
  simp only [dataOf, List.flatMap_eq_nil_iff, List.mem_singleton, forall_eq]

/-- There are no bytes behind a frame that ends the stream. -/
theorem dataOf_after_end {l m : List Signal} {f : Signal}
    (h : (l ++ f :: m).Pairwise Signal.Precedes) (hf : ends f = true) : dataOf m = [] := by
  have hm := (List.pairwise_cons.mp (List.pairwise_append.mp h).2.1).1
  exact dataOf_eq_nil.mpr fun g hg => (hm g hg).1 hf

/-- There are no bytes before an OPEN. -/
theorem dataOf_before_open {l m : List Signal} {f : Signal}
    (h : (l ++ f :: m).Pairwise Signal.Precedes) (hf : f.isOpening = true) : dataOf l = [] :=
  dataOf_eq_nil.mpr fun g hg =>
    (((List.pairwise_append.mp h).2.2 g hg f List.mem_cons_self).2 hf).1

/-- A stream has one OPEN. -/
theorem countP_isOpening_le {l : List Signal} (h : l.Pairwise Signal.Precedes) :
    l.countP Signal.isOpening ≤ 1 := by
  induction l with
  | nil => exact Nat.zero_le _
  | cons f l ih =>
      obtain ⟨hf, hl⟩ := List.pairwise_cons.mp h
      rw [List.countP_cons]
      split
      · rename_i hopen
        have hnone : l.countP Signal.isOpening = 0 := by
          rw [List.countP_eq_zero]
          intro g hg hgo
          rw [((hf g hg).2 hgo).2] at hopen
          contradiction
        omega
      · exact ih hl

namespace Stream

variable {cfg : Config} {b b' : Budget} {s t : Stream}

/-! ## one section -/

/-- The sending side is closed, or is being closed past the point where that shows. -/
def closing (s : Stream) : Prop :=
  s.txMu = .closeWrite ∨ s.txMu = .close ∨ 0 < s.sends ∨ s.once.pastTxClosed = true

/-- What a section does to the sending side, and the frame it writes. -/
inductive Sends (s t : Stream) : Option Signal → Prop where
  /-- No `WriteContext` call begins or writes. -/
  | control {frame : Option Signal} (hwrites : t.writes = s.writes)
      (hwritten : t.written = s.written ++ frame.toList)
      (hframe : ∀ f ∈ frame, dataOf [f] = [] ∧ f.isOpening = false ∧
        (ends f = true → s.txClosed = true ∧ t.txMu.rest = none))
      (hrest : ∀ l, t.txMu.rest = some l → s.txMu.rest = some l)
      (hopening : t.opening = s.opening) (htx : s.txClosed = true → t.txClosed = true) :
      Sends s t frame
  | begins {p : List UInt8} (ho : s.opening = .opened) (hc : s.txClosed = false)
      (hwrites : t.writes = ⟨p, 0⟩ :: s.writes) (hwritten : t.written = s.written)
      (hm : t.txMu = .loop p) (hopening : t.opening = s.opening) : Sends s t none
  | data {n : Nat} {l : List UInt8} (hm : s.txMu = .frame n l)
      (hwrites : t.writes = addWritten n s.writes)
      (hwritten : t.written = s.written ++ [.data (l.take n)]) (hm' : t.txMu = .loop (l.drop n))
      (hopening : t.opening = s.opening) : Sends s t (some (.data (l.take n)))

theorem Sends.written {frame : Option Signal} (h : Sends s t frame) :
    t.written = s.written ++ frame.toList := by
  cases h with
  | control hwrites hwritten => exact hwritten
  | begins ho hc hwrites hwritten => rw [hwritten, Option.toList_none, List.append_nil]
  | data hm hwrites hwritten => exact hwritten

/-- The sending side has not changed. -/
structure SameTx (s t : Stream) : Prop where
  writes : t.writes = s.writes
  written : t.written = s.written
  txMu : t.txMu = s.txMu
  opening : t.opening = s.opening
  txClosed : t.txClosed = s.txClosed
  sends : t.sends = s.sends
  once : t.once = s.once

/-- A closed sending side is marked. -/
def Marked (s : Stream) : Prop := s.closing → s.txClosed = true

theorem SameTx.refl (s : Stream) : SameTx s s := ⟨rfl, rfl, rfl, rfl, rfl, rfl, rfl⟩

/-- A section that leaves the frames and the calls alone. -/
theorem Sends.quiet (hwrites : t.writes = s.writes) (hwritten : t.written = s.written)
    (hrest : ∀ l, t.txMu.rest = some l → s.txMu.rest = some l) (hopening : t.opening = s.opening)
    (htx : s.txClosed = true → t.txClosed = true) : Sends s t none :=
  .control hwrites (by rw [hwritten, Option.toList_none, List.append_nil]) (by simp) hrest hopening
    htx

theorem SameTx.step (h : SameTx s t) (hs : s.Marked) : Sends s t none ∧ t.Marked := by
  refine ⟨.quiet h.writes h.written (fun l hl => h.txMu ▸ hl) h.opening
    fun hc => h.txClosed ▸ hc, ?_⟩
  unfold Marked closing
  rw [h.txMu, h.sends, h.once, h.txClosed]
  exact hs

theorem returnCredit_sameTx (cfg : Config) (s : Stream) (n : Nat) :
    SameTx s (s.returnCredit cfg n) := by
  unfold returnCredit
  split
  · exact .refl s
  · split <;> exact ⟨rfl, rfl, rfl, rfl, rfl, rfl, rfl⟩

theorem closeRead_sameTx (b : Budget) (s : Stream) (discard : Bool) :
    SameTx s (s.closeRead b discard).1 := by
  obtain ⟨rx, heq⟩ := closeRead_eq b s discard
  rw [heq]
  exact ⟨rfl, rfl, rfl, rfl, rfl, rfl, rfl⟩

/-- Reading does not touch the sending side. -/
theorem sameTx_of_stream {rx : Rx} {n : Nat}
    (ht : t = ({ s with toRx := rx }).returnCredit cfg n) : SameTx s t := by
  have h := returnCredit_sameTx cfg { s with toRx := rx } n
  rw [ht]
  exact ⟨h.writes, h.written, h.txMu, h.opening, h.txClosed, h.sends, h.once⟩

theorem addSendCredit_sameTx {credit : Nat} (h : s.addSendCredit credit = some t) :
    SameTx s t := by
  unfold addSendCredit at h
  split at h
  · exact Option.some.inj h ▸ .refl s
  · split at h
    · contradiction
    · obtain rfl := Option.some.inj h
      exact ⟨rfl, rfl, rfl, rfl, rfl, rfl, rfl⟩

theorem queuePayload_sameTx {payload : List UInt8} {byteLimit frameLimit now : Int}
    (h : s.queuePayload cfg b payload byteLimit frameLimit now = some (t, b')) : SameTx s t := by
  unfold queuePayload at h
  split at h
  · contradiction
  · obtain ⟨b₁, -, heq⟩ := Option.map_eq_some_iff.mp h
    obtain ⟨rfl, -⟩ := Prod.mk.inj heq
    exact ⟨rfl, rfl, rfl, rfl, rfl, rfl, rfl⟩

/-- A caller comes to `closeOnce`. -/
theorem enter_sends {closer : Closer} {returned : Bool} (h : s.enter closer = some (t, returned))
    (hs : s.Marked) : Sends s t none ∧ t.Marked := by
  cases enter_cases h with
  | inl hfirst =>
      obtain ⟨hfresh, -, rfl⟩ := hfirst
      refine ⟨.quiet rfl rfl (fun _ hl => hl) rfl fun hc => hc, fun hc => hs ?_⟩
      refine hc.imp_right (Or.imp_right (Or.imp_right fun hpast => ?_))
      simp [Once.pastTxClosed] at hpast
  | inr hlater =>
      obtain ⟨other, -, -, rfl⟩ := hlater
      exact SameTx.step ⟨rfl, rfl, rfl, rfl, rfl, rfl, rfl⟩ hs

/-- The rest of a section that has entered `closeOnce`. -/
theorem enter_sends_then {closer : Closer} {returned : Bool} {u : Stream}
    (h : s.enter closer = some (t, returned)) (hs : s.Marked) (hu : SameTx t u) :
    Sends s u none ∧ u.Marked := by
  refine ⟨?_, (hu.step (enter_sends h hs).2).2⟩
  cases enter_cases h with
  | inl hfirst =>
      obtain ⟨-, -, rfl⟩ := hfirst
      exact .quiet hu.writes hu.written (fun l hl => hu.txMu ▸ hl) hu.opening
        fun hc => hu.txClosed ▸ hc
  | inr hlater =>
      obtain ⟨other, -, -, rfl⟩ := hlater
      exact .quiet hu.writes hu.written (fun l hl => hu.txMu ▸ hl) hu.opening
        fun hc => hu.txClosed ▸ hc

theorem closeStep_sends {e : Effect} (h : s.closeStep b = some e) (hs : s.Marked) :
    Sends s e.stream none ∧ e.frame = none ∧ e.stream.Marked := by
  obtain ⟨⟨t, returned⟩, hen, rfl⟩ := Option.map_eq_some_iff.mp h
  cases returned with
  | true =>
      obtain ⟨hsends, hmarked⟩ := enter_sends_then (u := { t with discards := t.discards + 1 })
        hen hs ⟨rfl, rfl, rfl, rfl, rfl, rfl, rfl⟩
      exact ⟨hsends, rfl, hmarked⟩
  | false =>
      obtain ⟨hsends, hmarked⟩ := enter_sends hen hs
      exact ⟨hsends, rfl, hmarked⟩

/-- The body of `closeOnce` marks the sending side before anything shows that it is closed. -/
theorem onceStep_sends {e : Effect} (h : s.onceStep b = some e) (hs : s.Marked) :
    Sends s e.stream e.frame ∧ e.stream.Marked := by
  unfold onceStep at h
  split at h
  · rename_i closer hr
    obtain rfl := Option.some.inj h
    refine ⟨.quiet rfl rfl (fun _ hl => hl) rfl fun hc => hc, fun hc => hs ?_⟩
    refine hc.imp_right (Or.imp_right (Or.imp_right fun hpast => ?_))
    simp [Once.pastTxClosed] at hpast
  · obtain rfl := Option.some.inj h
    exact ⟨.quiet rfl rfl (fun _ hl => hl) rfl fun _ => rfl, fun _ => rfl⟩
  · rename_i closer hr
    obtain rfl := Option.some.inj h
    have htx := hs (.inr (.inr (.inr (by simp [hr, Once.pastTxClosed]))))
    exact ⟨.quiet rfl rfl (fun _ hl => hl) rfl fun hc => hc, fun _ => htx⟩
  · rename_i closer hr
    have htx := hs (.inr (.inr (.inr (by simp [hr, Once.pastTxClosed]))))
    have hsame := closeRead_sameTx b s (closer ≠ .peer)
    obtain rfl := Option.some.inj h
    refine ⟨.quiet hsame.writes hsame.written (fun l hl => hsame.txMu ▸ hl) hsame.opening
      fun hc => hsame.txClosed.trans hc, fun _ => hsame.txClosed.trans htx⟩
  · contradiction

/-- The holder of the mutex goes on with what it has left, or lets go of it. -/
theorem Sends.holds (hs : s.Marked) {m : TxHolder} (hm : m ≠ .closeWrite ∧ m ≠ .close)
    (hrest : ∀ l, m.rest = some l → s.txMu.rest = some l)
    (ht : SameTx { s with txMu := m } t) : Sends s t none ∧ t.Marked := by
  have hmu : t.txMu = m := ht.txMu
  refine ⟨.quiet ht.writes ht.written (fun l hl => hrest l (hmu ▸ hl)) ht.opening
    fun hc => ht.txClosed.trans hc, fun hc => ht.txClosed.trans (hs ?_)⟩
  unfold closing at hc
  rw [ht.txMu, ht.sends, ht.once] at hc
  exact .inr (.inr ((hc.resolve_left hm.1).resolve_left hm.2))

/-- The mutex goes to a caller that ends the sending side. -/
theorem Sends.ends_side (hwrites : t.writes = s.writes) (hwritten : t.written = s.written)
    (hrest : t.txMu.rest = none) (hopening : t.opening = s.opening) (htx : t.txClosed = true) :
    Sends s t none ∧ t.Marked :=
  ⟨.quiet hwrites hwritten (fun l hl => by rw [hrest] at hl; contradiction) hopening fun _ => htx,
    fun _ => htx⟩

/-- The frame that ends the sending side. -/
theorem Sends.emits_end (hs : s.Marked) (hc : s.txMu = .closeWrite ∨ s.txMu = .close)
    {f : Signal} (hf : f = .closeWrite ∨ f = .close) :
    Sends s (({ s with txMu := .free } : Stream).emit f) (some f) ∧
      (({ s with txMu := .free } : Stream).emit f).Marked := by
  have htx : s.txClosed = true := hs (hc.elim .inl fun hc => .inr (.inl hc))
  refine ⟨.control rfl rfl ?_ (by simp [emit, TxHolder.rest]) rfl fun _ => htx, fun _ => htx⟩
  intro g hg
  obtain rfl := Option.some.inj hg
  refine ⟨?_, ?_, fun _ => ⟨htx, rfl⟩⟩
  · rcases hf with rfl | rfl <;> rfl
  · rcases hf with rfl | rfl <;> rfl

/-- A frame without bytes that ends nothing. -/
theorem Sends.emits (hs : s.Marked) (ht : SameTx s t) {f : Signal} (hdata : dataOf [f] = [])
    (hopen : f.isOpening = false) (hend : ends f = false) :
    Sends s (t.emit f) (some f) ∧ (t.emit f).Marked := by
  refine ⟨.control ht.writes (by rw [emit, ht.written]; rfl) ?_ (fun l hl => ht.txMu ▸ hl)
    ht.opening fun hc => ht.txClosed.trans hc, ?_⟩
  · intro g hg
    obtain rfl := Option.some.inj hg
    exact ⟨hdata, hopen, fun he => by rw [hend] at he; contradiction⟩
  · exact (ht.step hs).2

/-- What a section of a goroutine sends. -/
theorem act_sends {closed : Bool} {a : Act} {e : Effect} (hok : s.toRx.Ok) (hs : s.Marked)
    (h : s.act cfg closed b a = some e) : Sends s e.stream e.frame ∧ e.stream.Marked := by
  cases a with
  | write payload =>
      simp only [Stream.act] at h
      split at h
      · rename_i hg
        obtain rfl := Option.some.inj h
        split
        · exact (SameTx.refl s).step hs
        · rename_i htx
          refine ⟨.begins hg.2.1 (by simpa using htx) rfl rfl rfl rfl, fun hc => hs ?_⟩
          unfold closing at hc
          simp only [reduceCtorEq, false_or] at hc
          exact .inr (.inr hc)
      · contradiction
  | writeCheck =>
      simp only [Stream.act] at h
      split at h
      · rename_i rest hm
        split at h
        · obtain rfl := Option.some.inj h
          exact Sends.holds hs (m := .free) (by simp) (by simp [TxHolder.rest]) (.refl _)
        · obtain rfl := Option.some.inj h
          exact Sends.holds hs (m := .want rest) (by simp) (by simp [TxHolder.rest, hm]) (.refl _)
      · contradiction
  | writeTake =>
      simp only [Stream.act] at h
      split at h
      · rename_i rest hm
        split at h
        · obtain ⟨⟨n, t⟩, ht, rfl⟩ := Option.map_eq_some_iff.mp h
          rw [takeSendCredit_eq ht]
          exact Sends.holds hs (m := .frame n rest) (by simp) (by simp [TxHolder.rest, hm])
            ⟨rfl, rfl, rfl, rfl, rfl, rfl, rfl⟩
        · obtain rfl := Option.some.inj h
          exact Sends.holds hs (m := .frame _ rest) (by simp) (by simp [TxHolder.rest, hm])
            (.refl _)
      · contradiction
  | writeGiveUp =>
      simp only [Stream.act] at h
      split at h
      · split at h
        · obtain rfl := Option.some.inj h
          exact Sends.holds hs (m := .free) (by simp) (by simp [TxHolder.rest]) (.refl _)
        · contradiction
      · contradiction
  | writeFrame now =>
      simp only [Stream.act] at h
      split at h
      · rename_i n rest hm
        split at h
        · contradiction
        · obtain rfl := Option.some.inj h
          refine ⟨.data hm rfl rfl rfl rfl, fun hc => hs ?_⟩
          simp only [closing, emit, reduceCtorEq, false_or] at hc
          exact .inr (.inr hc)
      · contradiction
  | closeWrite =>
      simp only [Stream.act] at h
      split at h
      · split at h
        · obtain ⟨hsends, hframe, hmarked⟩ := closeStep_sends h hs
          exact ⟨hframe ▸ hsends, hmarked⟩
        · split at h
          · split at h
            · obtain rfl := Option.some.inj h
              exact (SameTx.refl s).step hs
            · obtain rfl := Option.some.inj h
              exact Sends.ends_side rfl rfl rfl rfl rfl
          · contradiction
      · contradiction
  | closeWriteFrame =>
      simp only [Stream.act] at h
      split at h
      · rename_i hg
        obtain rfl := Option.some.inj h
        exact Sends.emits_end hs (.inl hg.1) (.inl rfl)
      · contradiction
  | sendClose =>
      simp only [Stream.act] at h
      split at h
      · rename_i hg
        obtain rfl := Option.some.inj h
        exact Sends.ends_side rfl rfl rfl rfl (hs (.inr (.inr (.inl hg.1))))
      · contradiction
  | closeFrame =>
      simp only [Stream.act] at h
      split at h
      · rename_i hg
        obtain rfl := Option.some.inj h
        exact Sends.emits_end hs (.inr hg.1) (.inr rfl)
      · contradiction
  | writeDatagram payload =>
      simp only [Stream.act] at h
      split at h
      · split at h
        · obtain ⟨⟨n, t⟩, ht, rfl⟩ := Option.map_eq_some_iff.mp h
          rw [takeSendCredit_eq ht]
          exact SameTx.step ⟨rfl, rfl, rfl, rfl, rfl, rfl, rfl⟩ hs
        · obtain rfl := Option.some.inj h
          exact SameTx.step ⟨rfl, rfl, rfl, rfl, rfl, rfl, rfl⟩ hs
      · contradiction
  | datagramFrame i now =>
      simp only [Stream.act] at h
      split at h
      · rename_i payload hi
        split at h
        · contradiction
        · obtain rfl := Option.some.inj h
          have hsame : SameTx s { s with
              datagrams := s.datagrams.eraseIdx i
              lastActivity := now } := ⟨rfl, rfl, rfl, rfl, rfl, rfl, rfl⟩
          exact Sends.emits (f := .datagram payload) hs hsame rfl rfl rfl
      · contradiction
  | flushTake =>
      simp only [Stream.act] at h
      split at h
      · split at h
        all_goals
          obtain rfl := Option.some.inj h
          exact SameTx.step ⟨rfl, rfl, rfl, rfl, rfl, rfl, rfl⟩ hs
      · contradiction
  | flushFrame =>
      simp only [Stream.act] at h
      split at h
      · rename_i credit hf
        split at h
        · contradiction
        · obtain rfl := Option.some.inj h
          have hsame : SameTx s { s with flusher := .take } := ⟨rfl, rfl, rfl, rfl, rfl, rfl, rfl⟩
          exact Sends.emits (f := .windowUpdate credit) hs hsame rfl rfl rfl
      · contradiction
  | read n =>
      simp only [Stream.act] at h
      split at h
      · obtain rfl := Option.some.inj h
        exact (sameTx_of_stream (read_spec cfg b n hok).stream).step hs
      · contradiction
  | readDatagram n =>
      simp only [Stream.act] at h
      split at h
      · obtain rfl := Option.some.inj h
        exact (sameTx_of_stream (readDatagram_spec cfg b n hok).stream).step hs
      · contradiction
  | close =>
      simp only [Stream.act] at h
      split at h
      · obtain ⟨hsends, hframe, hmarked⟩ := closeStep_sends h hs
        exact ⟨hframe ▸ hsends, hmarked⟩
      · contradiction
  | once => exact onceStep_sends h hs
  | sweep =>
      simp only [Stream.act] at h
      split at h
      · obtain ⟨⟨t, returned⟩, hen, rfl⟩ := Option.map_eq_some_iff.mp h
        cases returned with
        | true => exact enter_sends_then hen hs ⟨rfl, rfl, rfl, rfl, rfl, rfl, rfl⟩
        | false => exact enter_sends hen hs
      · contradiction
  | discard =>
      simp only [Stream.act] at h
      split at h
      · have hsame := closeRead_sameTx b s true
        obtain rfl := Option.some.inj h
        exact SameTx.step ⟨hsame.writes, hsame.written, hsame.txMu, hsame.opening, hsame.txClosed,
          hsame.sends, hsame.once⟩ hs
      · contradiction
  | failWrite =>
      simp only [Stream.act] at h
      split at h
      · split at h
        all_goals first
          | contradiction
          | obtain rfl := Option.some.inj h
            exact Sends.holds hs (m := .free) (by simp) (by simp [TxHolder.rest]) (.refl _)
      · contradiction
  | failDatagram i =>
      simp only [Stream.act] at h
      split at h
      · obtain rfl := Option.some.inj h
        exact SameTx.step ⟨rfl, rfl, rfl, rfl, rfl, rfl, rfl⟩ hs
      · contradiction
  | failFlush =>
      simp only [Stream.act] at h
      split at h
      · split at h
        · obtain rfl := Option.some.inj h
          exact SameTx.step ⟨rfl, rfl, rfl, rfl, rfl, rfl, rfl⟩ hs
        · contradiction
      · contradiction

/-- `Run` does not send. -/
theorem handle_sends {now : Int} {todo : Todo} {rest : Option Todo} (hs : s.Marked)
    (h : s.handle cfg b now todo = some (t, b', rest)) : Sends s t none ∧ t.Marked := by
  cases handle_cases h with
  | data hp hq =>
      unfold queueTCPPayload at hq
      split at hq <;> exact (queuePayload_sameTx hq).step hs
  | datagram hp hq => exact (queuePayload_sameTx hq).step hs
  | credit hc hadd => exact (addSendCredit_sameTx hadd).step hs
  | closeWrite => exact (closeRead_sameTx b s false).step hs
  | returned => exact (returnCredit_sameTx cfg s _).step hs
  | aborting hen => exact enter_sends hen hs
  | aborted hen => exact enter_sends_then hen hs ⟨rfl, rfl, rfl, rfl, rfl, rfl, rfl⟩
  | closing hen => exact enter_sends hen hs
  | closed hen => exact enter_sends hen hs
  | _ => exact (SameTx.refl s).step hs

/-! ## the bytes -/

/-- The DATA frames of a stream are what its `WriteContext` calls have accepted. -/
structure Wrote (s : Stream) : Prop where
  marked : s.Marked
  bytes : dataOf s.written = s.accepted
  rest : ∀ l, s.txMu.rest = some l →
    ∃ call calls, s.writes = call :: calls ∧ call.p.drop call.written = l
  unopened : s.opening ≠ .opened →
    s.txMu.rest = none ∧ ∀ f ∈ s.written, dataOf [f] = [] ∧ f.isOpening = false
  ordered : s.written.Pairwise Signal.Precedes
  ended : s.written.any ends = true → s.txMu.rest = none ∧ s.txClosed = true

theorem newStream_wrote (cfg : Config) (id : Nat) (protocol : Transport) (group : String)
    (now : Int) (opening : Opening) (born : Nat) :
    (newStream cfg id protocol group now opening born).Wrote where
  marked h := by simp [newStream, closing, Once.pastTxClosed] at h
  bytes := rfl
  rest l h := by simp [newStream, TxHolder.rest] at h
  unopened _ := ⟨rfl, by simp [newStream]⟩
  ordered := List.Pairwise.nil
  ended h := by simp [newStream] at h

theorem accepted_cons {call : WriteCall} {calls : List WriteCall} (h : s.writes = call :: calls) :
    s.accepted = (calls.reverse.flatMap fun call => call.p.take call.written) ++
      call.p.take call.written := by
  rw [accepted, h, List.reverse_cons, List.flatMap_append, List.flatMap_singleton]

theorem accepted_congr (h : t.writes = s.writes) : t.accepted = s.accepted := by
  rw [accepted, h, accepted]

/-- A section keeps the bytes together. -/
theorem Wrote.step {frame : Option Signal} (h : s.Wrote) (hs : Sends s t frame) (hm : t.Marked) :
    t.Wrote := by
  cases hs with
  | control hwrites hwritten hframe hrest hopening htx =>
      have hmem : ∀ f ∈ t.written, f ∈ s.written ∨ f ∈ frame := by
        intro f hf
        rw [hwritten, List.mem_append, Option.mem_toList] at hf
        exact hf
      have hnone : s.txMu.rest = none → t.txMu.rest = none := by
        intro hs
        rw [Option.eq_none_iff_forall_ne_some] at hs ⊢
        exact fun l hl => hs l (hrest l hl)
      refine ⟨hm, ?_, fun l hl => ?_, fun ho => ?_, ?_, fun he => ?_⟩
      · have hnil : dataOf frame.toList = [] :=
          dataOf_eq_nil.mpr fun f hf => (hframe f (Option.mem_toList.mp hf)).1
        rw [hwritten, dataOf_append, hnil, List.append_nil, h.bytes, accepted_congr hwrites]
      · rw [hwrites]
        exact h.rest l (hrest l hl)
      · obtain ⟨hsrest, hall⟩ := h.unopened (hopening ▸ ho)
        refine ⟨hnone hsrest, fun f hf => ?_⟩
        cases hmem f hf with
        | inl hold => exact hall f hold
        | inr hnew => exact ⟨(hframe f hnew).1, (hframe f hnew).2.1⟩
      · rw [hwritten, List.pairwise_append]
        refine ⟨h.ordered, ?_, fun f hf g hg => ?_⟩
        · cases frame with
          | none => exact List.Pairwise.nil
          | some g => exact List.pairwise_singleton _ _
        · obtain ⟨hdata, hopen, -⟩ := hframe g (Option.mem_toList.mp hg)
          exact ⟨fun _ => hdata, fun ho => by rw [hopen] at ho; contradiction⟩
      · obtain ⟨f, hf, hend⟩ := List.any_eq_true.mp he
        cases hmem f hf with
        | inl hold =>
            obtain ⟨hsrest, hclosed⟩ := h.ended (List.any_eq_true.mpr ⟨f, hold, hend⟩)
            exact ⟨hnone hsrest, htx hclosed⟩
        | inr hnew =>
            obtain ⟨hclosed, htrest⟩ := (hframe f hnew).2.2 hend
            exact ⟨htrest, htx hclosed⟩
  | begins ho hc hwrites hwritten htxMu hopening =>
      rename_i p
      refine ⟨hm, ?_, fun l hl => ?_, fun hne => absurd (hopening.trans ho) hne, ?_, fun he => ?_⟩
      · rw [hwritten, h.bytes, accepted_cons hwrites, List.take_zero, List.append_nil, accepted]
      · rw [htxMu] at hl
        exact ⟨_, _, hwrites, Option.some.inj hl⟩
      · rw [hwritten]
        exact h.ordered
      · -- the call has found the sending side open
        rw [hwritten] at he
        rw [(h.ended he).2] at hc
        contradiction
  | data hframe hwrites hwritten htxMu hopening =>
      rename_i n l
      have hrest : s.txMu.rest = some l := by rw [hframe]; rfl
      have hopen : s.written.any ends = false := by
        rw [Bool.eq_false_iff]
        intro he
        rw [(h.ended he).1] at hrest
        contradiction
      obtain ⟨call, calls, hcalls, hleft⟩ := h.rest l hrest
      rw [hcalls, addWritten] at hwrites
      refine ⟨hm, ?_, fun l' hl => ?_, fun ho => ?_, ?_, fun he => ?_⟩
      · rw [hwritten, dataOf_append, h.bytes, accepted_cons hcalls, accepted_cons hwrites,
          List.take_add, hleft, List.append_assoc]
        simp [dataOf]
      · rw [htxMu] at hl
        refine ⟨_, _, hwrites, ?_⟩
        rw [← List.drop_drop, hleft]
        exact Option.some.inj hl
      · rw [(h.unopened (hopening ▸ ho)).1] at hrest
        contradiction
      · rw [hwritten, List.pairwise_append]
        refine ⟨h.ordered, List.pairwise_singleton _ _, fun f hf g hg =>
          ⟨fun hend => ?_, fun ho => ?_⟩⟩
        · rw [List.any_eq_false] at hopen
          exact absurd hend (hopen f hf)
        · rw [List.mem_singleton.mp hg] at ho
          contradiction
      · rw [hwritten, List.any_append, hopen] at he
        simp [ends] at he

/-- The OPEN of a stream comes before all its bytes. -/
theorem Wrote.opens (h : s.Wrote) (ho : s.opening ≠ .opened) (protocol : Option Transport) :
    (({ s with opening := .opened } : Stream).emit (.opening protocol)).Wrote := by
  obtain ⟨hrest, hall⟩ := h.unopened ho
  refine ⟨h.marked, ?_, h.rest, fun hne => absurd rfl hne, ?_, fun he => ?_⟩
  · show dataOf (s.written ++ [Signal.opening protocol]) = s.accepted
    rw [dataOf_append, h.bytes]
    exact List.append_nil _
  · show (s.written ++ [Signal.opening protocol]).Pairwise Signal.Precedes
    rw [List.pairwise_append]
    refine ⟨h.ordered, List.pairwise_singleton _ _, fun f hf g hg => ?_⟩
    rw [List.mem_singleton.mp hg]
    exact ⟨fun _ => rfl, fun _ => hall f hf⟩
  · have hany : (s.written ++ [Signal.opening protocol]).any ends = true := he
    rw [List.any_append] at hany
    exact h.ended (by simpa [ends] using hany)

end Stream

/-! ## the streams of a connection -/

namespace Conn

variable {cfg : Config} {c c' : Conn} {e : Event} {i : Nat} {s t : Stream}
  {d : Option Stream.Todo}

theorem Change.wrote (h : Change cfg c e i s t d) (hok : s.Sound) (hs : s.Wrote) : t.Wrote := by
  have same : ∀ {u : Stream}, Stream.SameTx s u → u.Wrote := fun hu =>
    hs.step (hu.step hs.marked).1 (hu.step hs.marked).2
  -- how far the `OpenStream` call is does not matter until the OPEN
  have moves : ∀ {o : Opening}, s.opening ≠ .opened → ({ s with opening := o } : Stream).Wrote :=
    fun hne => ⟨hs.marked, hs.bytes, hs.rest, fun _ => hs.unopened hne, hs.ordered, hs.ended⟩
  cases h with
  | same => exact hs
  | act he ha =>
      obtain ⟨hsends, hmarked⟩ := Stream.act_sends hok.rx hs.marked ha
      exact hs.step hsends hmarked
  | handle he hr hh =>
      obtain ⟨hsends, hmarked⟩ := Stream.handle_sends hs.marked hh
      exact hs.step hsends hmarked
  | mark he hk ho => exact same ⟨rfl, rfl, rfl, rfl, rfl, rfl, rfl⟩
  | enter he hk ho ht =>
      obtain ⟨hsends, hmarked⟩ := Stream.enter_sends ht hs.marked
      exact hs.step hsends hmarked
  | abortReturns he hk ho ht =>
      rename_i u
      obtain ⟨hsends, hmarked⟩ := Stream.enter_sends_then (u := { u with torn := true }) ht
        hs.marked ⟨rfl, rfl, rfl, rfl, rfl, rfl, rfl⟩
      exact hs.step hsends hmarked
  | toAborting he ho => exact moves (by simp [ho])
  | toWriting he ho => exact moves (by simp [ho])
  | opens he ho hc => exact hs.opens (by simp [ho]) _
  | openFails he ho hc => exact moves (by simp [ho])
  | sweep he hc => exact same ⟨rfl, rfl, rfl, rfl, rfl, rfl, rfl⟩
  | routed he hi hr => exact same ⟨rfl, rfl, rfl, rfl, rfl, rfl, rfl⟩

/-- One step keeps the bytes of every stream together. -/
theorem step_wrote (h : ∀ s ∈ c.streams, s.Wrote) (hb : BudgetOk cfg c)
    (hstep : c.step cfg e = some c') : ∀ s ∈ c'.streams, s.Wrote := by
  intro t ht
  obtain ⟨i, hi⟩ := List.getElem?_of_mem ht
  cases step_stream hstep hi with
  | inl hold =>
      obtain ⟨s, hs, hchange⟩ := hold
      have hmem := List.mem_of_getElem? hs
      exact hchange.wrote (hb.sound s hmem) (h s hmem)
  | inr hfresh =>
      obtain ⟨id, protocol, group, now, opening, born, rfl, -⟩ := hfresh.new
      exact Stream.newStream_wrote ..

/-! ## the frames on the wire -/

/-- What a step writes: a frame of the stream at `k`, or none of any stream. -/
inductive Wires (c c' : Conn) : Prop where
  | quiet {new : List Frame} (hout : c'.output = c.output ++ new)
      (hnew : ∀ id, signalsOf id new = [])
      (hsame : ∀ (i : Nat) (t : Stream), c'.streams[i]? = some t →
        (∃ s, c.streams[i]? = some s ∧ t.id = s.id ∧ t.written = s.written) ∨
          (c.streams[i]? = none ∧ t.written = []))
  | writes {k : Nat} {o : Stream} {f : Signal} (hk : c.streams[k]? = some o)
      (hout : c'.output = c.output ++ [.stream o.id f])
      (hsame : ∀ (i : Nat) (t : Stream), c'.streams[i]? = some t →
        ∃ s, c.streams[i]? = some s ∧ t.id = s.id ∧
          t.written = if i = k then s.written ++ [f] else s.written)

/-- A change other than a section of a goroutine of the stream, or its OPEN, writes nothing. -/
theorem Change.writes (h : Change cfg c e i s t d) (hs : s.Marked) :
    t.written = s.written ∨ (∃ a, e = .act i a) ∨ (e = .opening i ∧ s.opening = .writing) := by
  have quiet : ∀ {u : Stream}, Stream.Sends s u none → u.written = s.written := by
    intro u hu
    rw [hu.written, Option.toList_none, List.append_nil]
  cases h with
  | act he ha => exact .inr (.inl ⟨_, he⟩)
  | handle he hr hh => exact .inl (quiet (Stream.handle_sends hs hh).1)
  | enter he hk ho ht => exact .inl (quiet (Stream.enter_sends ht hs).1)
  | abortReturns he hk ho ht =>
      have hwritten := quiet (Stream.enter_sends ht hs).1
      exact .inl hwritten
  | opens he ho hc => exact .inr (.inr ⟨he, ho⟩)
  | _ => exact .inl rfl

theorem step_wires (hb : BudgetOk cfg c) (hm : ∀ s ∈ c.streams, s.Marked)
    (hstep : c.step cfg e = some c') : Wires c c' := by
  have quiet : ∀ {w}, c'.output = c.output ++ w → (∀ id, signalsOf id w = []) →
      (∀ i a, e ≠ .act i a) →
      (∀ (i : Nat) (s : Stream), e = .opening i → c.streams[i]? = some s →
        s.opening ≠ .writing) → Wires c c' := by
    intro new hout hnew hact hopening
    refine .quiet hout hnew fun i t ht => ?_
    cases step_stream hstep ht with
    | inl hold =>
        obtain ⟨s, hs, hch⟩ := hold
        have hmem := List.mem_of_getElem? hs
        refine .inl ⟨s, hs, (hch.ident (hb.sound s hmem)).1, ?_⟩
        rcases hch.writes (hm s hmem) with hsame | ⟨a, he⟩ | ⟨he, ho⟩
        · exact hsame
        · exact absurd he (hact i a)
        · exact absurd ho (hopening i s he hs)
    | inr hfresh =>
        obtain ⟨id, protocol, group, now, opening, born, rfl, -⟩ := hfresh.new
        exact .inr ⟨List.getElem?_eq_none hfresh.index.ge, rfl⟩
  have still : c'.output = c.output → (∀ i a, e ≠ .act i a) →
      (∀ (i : Nat) (s : Stream), e = .opening i → c.streams[i]? = some s →
        s.opening ≠ .writing) → Wires c c' := fun hout =>
    quiet (w := []) (by rw [hout, List.append_nil]) fun _ => rfl
  -- the stream at `k` writes `f`
  have one : ∀ {k : Nat} {o u : Stream} {f : Signal}, c.streams[k]? = some o →
      c'.streams = c.streams.set k u → c'.output = c.output ++ [.stream o.id f] → u.id = o.id →
      u.written = o.written ++ [f] → Wires c c' := by
    intro k o u f hk hstreams hout hid hwritten
    refine .writes hk hout fun i t ht => ?_
    rw [hstreams] at ht
    rcases getElem?_set_cases ht with ⟨rfl, rfl, -⟩ | ⟨hne, ht⟩
    · exact ⟨o, hk, hid, by rw [if_pos rfl, hwritten]⟩
    · exact ⟨t, ht, rfl, by rw [if_neg hne]⟩
  cases step_cases hstep with
  | inserted hv hins =>
      obtain ⟨-, -, table, rfl, -⟩ := insertStream_cases hins
      exact still rfl (by simp) (by simp)
  | refused => exact still rfl (by simp) (by simp)
  | marks hk ho hv =>
      refine still rfl (by simp) fun i s he hs => ?_
      obtain rfl := Event.opening.inj he
      rw [Option.some.inj (hs.symm.trans hk), ho]
      simp
  | enters hk ho hv hw =>
      refine still rfl (by simp) fun i s he hs => ?_
      obtain rfl := Event.opening.inj he
      rw [Option.some.inj (hs.symm.trans hk), ho]
      simp
  | abortReturns hk ho hv hw =>
      refine still rfl (by simp) fun i s he hs => ?_
      obtain rfl := Event.opening.inj he
      rw [Option.some.inj (hs.symm.trans hk), ho]
      simp
  | opens hk ho hc => exact one hk rfl rfl rfl rfl
  | openFails hk ho hc => exact still rfl (by simp) (by simp)
  | act hk ha =>
      rename_i k a o eff
      have hmem := List.mem_of_getElem? hk
      have hid := (Stream.act_closes (hb.sound o hmem).rx ha).id
      have hwritten := (Stream.act_sends (hb.sound o hmem).rx (hm o hmem) ha).1.written
      have hout : (c.apply k eff).output =
          c.output ++ (eff.frame.map (Frame.stream eff.stream.id)).toList := by
        unfold apply
        split <;> rfl
      cases hframe : eff.frame with
      | none =>
          rw [hframe, Option.toList_none, List.append_nil] at hwritten
          rw [hframe, Option.map_none, Option.toList_none] at hout
          refine .quiet hout (fun _ => rfl) fun i t ht => .inl ?_
          rw [apply_streams] at ht
          rcases getElem?_set_cases ht with ⟨rfl, rfl, -⟩ | ⟨-, ht⟩
          · exact ⟨o, hk, hid, hwritten⟩
          · exact ⟨t, ht, rfl, rfl⟩
      | some f =>
          rw [hframe, Option.toList_some] at hwritten
          rw [hframe, Option.map_some, Option.toList_some, hid] at hout
          exact one hk (apply_streams ..) hout hid hwritten
  | tooLarge hr => exact still rfl (by simp) (by simp)
  | received hr =>
      rename_i f now
      have hd := dispatch_cases cfg { c with input := c.input ++ [f] } now f
      generalize ({ c with input := c.input ++ [f] }).dispatch cfg now f = c₁ at *
      cases hd with
      | stop reason => exact still rfl (by simp) (by simp)
      | ignore hno => exact still rfl (by simp) (by simp)
      | pong hf => exact quiet (w := [.pong]) rfl (fun _ => rfl) (by simp) (by simp)
      | opened hf hins =>
          obtain ⟨-, -, table, rfl, -⟩ := insertStream_cases hins
          exact still rfl (by simp) (by simp)
      | routed hf hk ho => exact still rfl (by simp) (by simp)
  | receiveFails hr => exact still rfl (by simp) (by simp)
  | handle hr hk hh => exact still rfl (by simp) (by simp)
  | close hc => exact still rfl (by simp) (by simp)
  | closeStreams hc => exact still rfl (by simp) (by simp)

/-- The identifier was given to no other stream. -/
def Alone (c : Conn) (i : Nat) (id : Nat) : Prop :=
  ∀ (j : Nat) (t : Stream), c.streams[j]? = some t → t.id = id → j = i

/-- The frames on the wire with the identifier of a stream are those of the stream. -/
structure Filed (c : Conn) : Prop where
  own : ∀ (i : Nat) (s : Stream), c.streams[i]? = some s → c.Alone i s.id →
    signalsOf s.id c.output = s.written
  none : ∀ id, (∀ s ∈ c.streams, s.id ≠ id) → signalsOf id c.output = []

theorem newConn_filed : Filed newConn := ⟨by simp [newConn], fun _ _ => rfl⟩

/-- A stream keeps its identifier. -/
theorem id_later (hb : BudgetOk cfg c) (hstep : c.step cfg e = some c')
    (hs : c.streams[i]? = some s) : ∃ t, c'.streams[i]? = some t ∧ t.id = s.id := by
  obtain ⟨t, ht, hch⟩ := step_later hstep hs
  exact ⟨t, ht, (hch.ident (hb.sound s (List.mem_of_getElem? hs))).1⟩

theorem Alone.earlier {id : Nat} (h : c'.Alone i id) (hb : BudgetOk cfg c)
    (hstep : c.step cfg e = some c') : c.Alone i id := by
  intro j s hs hid
  obtain ⟨t, ht, htid⟩ := id_later hb hstep hs
  exact h j t ht (htid.trans hid)

theorem signalsOf_one (id id' : Nat) (f : Signal) :
    signalsOf id [.stream id' f] = if id' = id then [f] else [] := by
  by_cases h : id' = id <;> simp [signalsOf, h]

theorem Filed.step (h : c.Filed) (hb : BudgetOk cfg c) (hm : ∀ s ∈ c.streams, s.Marked)
    (hstep : c.step cfg e = some c') : c'.Filed := by
  -- an identifier nobody has now was nobody's before
  have absent : ∀ {id}, (∀ t ∈ c'.streams, t.id ≠ id) → ∀ s ∈ c.streams, s.id ≠ id := by
    intro id hnone s hs hid
    obtain ⟨i, hi⟩ := List.getElem?_of_mem hs
    obtain ⟨t, ht, htid⟩ := id_later hb hstep hi
    exact hnone t (List.mem_of_getElem? ht) (htid.trans hid)
  cases step_wires hb hm hstep with
  | quiet hout hnew hsame =>
      refine ⟨fun i t ht halone => ?_, fun id hnone => ?_⟩
      · rw [hout, signalsOf_append, hnew, List.append_nil]
        rcases hsame i t ht with ⟨s, hs, hid, hwritten⟩ | ⟨hfresh, hwritten⟩
        · rw [hid] at halone ⊢
          rw [hwritten]
          exact h.own i s hs (halone.earlier hb hstep)
        · rw [hwritten]
          refine h.none t.id fun s hs hid => ?_
          obtain ⟨j, hj⟩ := List.getElem?_of_mem hs
          rw [halone.earlier hb hstep j s hj hid, hfresh] at hj
          contradiction
      · rw [hout, signalsOf_append, hnew, List.append_nil]
        exact h.none id (absent hnone)
  | writes hk hout hsame =>
      rename_i k o f
      refine ⟨fun i t ht halone => ?_, fun id hnone => ?_⟩
      · obtain ⟨s, hs, hid, hwritten⟩ := hsame i t ht
        rw [hid] at halone ⊢
        have hbefore := halone.earlier hb hstep
        rw [hout, signalsOf_append, h.own i s hs hbefore, signalsOf_one, hwritten]
        by_cases hik : i = k
        · rw [hik, hk, Option.some.injEq] at hs
          rw [if_pos hik, hs, if_pos rfl]
        · have hne : o.id ≠ s.id := fun heq => hik (hbefore k o hk heq).symm
          rw [if_neg hik, if_neg hne, List.append_nil]
      · rw [hout, signalsOf_append, h.none id (absent hnone), signalsOf_one,
          if_neg (absent hnone o (List.mem_of_getElem? hk))]
        rfl

end Conn

end Tunnel
