import Mathlib.Data.List.TakeWhile
import Blindport.Tunnel.Budget
import Blindport.Tunnel.Closing

/-!
# Blindport.Tunnel.Order

The bytes of a TCP stream: `Read` returns what the peer sent on the stream, in
order and without a gap, and what was queued when the peer closed its side stays
readable until the stream is torn down here.

`Orderly` is about one stream and the frames `Run` delivered to it; `Routed` says
that these are the frames of the connection with the stream's identifier.
-/

namespace Tunnel

/-! ## what the peer sent -/

/-- The payload of the DATA frames. -/
def dataOf (frames : List Signal) : List UInt8 :=
  frames.flatMap fun
    | .data payload => payload
    | _ => []

/-- The peer ends its side with the frame. -/
def ends : Signal → Bool
  | .close | .closeWrite => true
  | _ => false

/-- The frames before the first that ends the peer's side. -/
def untilEnd (frames : List Signal) : List Signal := frames.takeWhile fun f => !ends f

@[simp] theorem dataOf_append (l m : List Signal) : dataOf (l ++ m) = dataOf l ++ dataOf m := by
  simp [dataOf]

theorem untilEnd_append {l m : List Signal} (h : l.any ends = true) :
    untilEnd (l ++ m) = untilEnd l := by
  induction l with
  | nil => simp at h
  | cons f l ih =>
      simp only [untilEnd, List.cons_append, List.takeWhile_cons] at ih ⊢
      by_cases hf : ends f = true
      · simp [hf]
      · simp only [hf, Bool.not_false, if_true]
        rw [List.any_cons, Bool.or_eq_true] at h
        rw [ih (h.resolve_left hf)]

theorem untilEnd_snoc {l : List Signal} {f : Signal} (h : l.any ends = false)
    (hf : ends f = true) : untilEnd (l ++ [f]) = l := by
  induction l with
  | nil => simp [untilEnd, hf]
  | cons g l ih =>
      rw [List.any_cons, Bool.or_eq_false_iff] at h
      simp only [untilEnd, List.cons_append, List.takeWhile_cons, h.1, Bool.not_false,
        if_true] at ih ⊢
      rw [ih h.2]

namespace Stream

/-- The payload `Run` has in hand for the stream. -/
def inHand : Option Todo → List UInt8
  | some (.deliver (.data payload)) => payload
  | _ => []

theorem inHand_deliver (f : Signal) : inHand (some (.deliver f)) = dataOf [f] := by
  cases f <;> simp [inHand, dataOf]

/-- `Run` is about to end the receive side of the stream for the peer. -/
def ending (d : Option Todo) : Prop :=
  d = some (.deliver .close) ∨ d = some .closeRX ∨ d = some (.deliver .closeWrite)

/-- What was delivered to a TCP stream is what was read and what can be read. -/
structure Orderly (s : Stream) (d : Option Todo) : Prop where
  arrived : s.protocol = .tcp → s.consumed ++ s.pending <+: dataOf s.delivered
  gapless : s.protocol = .tcp → s.rxClosed = false → d ≠ some .abort →
    s.consumed ++ s.pending ++ inHand d = dataOf s.delivered
  retained : s.protocol = .tcp → s.tearing = false → s.delivered.any ends = true →
    s.consumed ++ s.pending = dataOf (untilEnd s.delivered) ∧ (s.rxClosed = true ∨ ending d)
  unended : s.tearing = false → s.delivered.any ends = false → s.rxClosed = false
  peer : s.once.closer = some .peer → s.delivered.any ends = true
  here : ∀ closer, s.once.closer = some closer → closer ≠ .peer → s.tearing = true
  counts : 0 < s.discards → s.tearing = true
  endings : ending d → s.delivered.any ends = true

variable {cfg : Config} {b b' : Budget} {s t : Stream} {d : Option Todo}

theorem newStream_orderly (cfg : Config) (id : Nat) (protocol : Transport) (group : String)
    (now : Int) (opening : Opening) (born : Nat) :
    (newStream cfg id protocol group now opening born).Orderly none where
  arrived _ := by simp [newStream, Rx.pending, dataOf]
  gapless _ _ _ := by simp [newStream, Rx.pending, dataOf, inHand]
  retained _ _ h := by simp [newStream] at h
  unended _ _ := rfl
  peer h := by simp [newStream, Once.closer] at h
  here _ h := by simp [newStream, Once.closer] at h
  counts h := by simp [newStream] at h
  endings h := by simp [ending] at h

/-- A section that leaves the bytes alone, or closes the receive side of a stream
that is torn down here or that the peer ended. -/
theorem Orderly.keep (h : s.Orderly d) (hcl : Closes s t)
    (hbytes : s.protocol = .tcp → t.consumed ++ t.pending = s.consumed ++ s.pending)
    (hclosed : t.rxClosed = s.rxClosed ∨ t.rxClosed = true ∧
      (t.tearing = true ∨ s.delivered.any ends = true)) : t.Orderly d := by
  have htear : t.tearing = false → s.tearing = false := fun ht => by
    by_contra hs
    rw [hcl.tearing (by simpa using hs)] at ht
    contradiction
  refine ⟨fun hp => ?_, fun hp hc hd => ?_, fun hp ht he => ?_, fun ht he => ?_, fun hc => ?_,
    fun closer hc hp => ?_, fun hc => ?_, fun hd => ?_⟩
  · rw [hbytes (hcl.protocol ▸ hp), hcl.delivered]
    exact h.arrived (hcl.protocol ▸ hp)
  · have hsc : s.rxClosed = false := by
      rcases hclosed with heq | ⟨heq, -⟩
      · rw [← heq, hc]
      · rw [hc] at heq
        contradiction
    rw [hbytes (hcl.protocol ▸ hp), hcl.delivered]
    exact h.gapless (hcl.protocol ▸ hp) hsc hd
  · rw [hcl.delivered] at he ⊢
    obtain ⟨hb, hc⟩ := h.retained (hcl.protocol ▸ hp) (htear ht) he
    refine ⟨by rw [hbytes (hcl.protocol ▸ hp), hb], ?_⟩
    rcases hclosed with heq | ⟨heq, -⟩
    · rwa [heq]
    · exact .inl heq
  · rw [hcl.delivered] at he
    rcases hclosed with heq | ⟨-, htear' | he'⟩
    · rw [heq]
      exact h.unended (htear ht) he
    · rw [ht] at htear'
      contradiction
    · rw [he] at he'
      contradiction
  · rw [hcl.delivered]
    rcases hcl.closer _ hc with hc | ⟨hne, -⟩
    · exact h.peer hc
    · exact absurd rfl hne
  · rcases hcl.closer _ hc with hc | ⟨-, ht⟩
    · exact hcl.tearing (h.here closer hc hp)
    · exact ht
  · rcases hcl.counts hc with hc | hc
    · exact hcl.tearing (h.counts hc)
    · exact hc
  · rw [hcl.delivered]
    exact h.endings hd

/-- A section that drops the payload of a stream that is torn down here. -/
theorem Orderly.drop (h : s.Orderly d) (hcl : Closes s t) (ht : t.tearing = true)
    (hcons : t.consumed = s.consumed) (hpend : t.pending = []) (hclosed : t.rxClosed = true) :
    t.Orderly d := by
  refine ⟨fun hp => ?_, fun hp hc hd => ?_, fun hp htf he => ?_, fun htf he => ?_, fun hc => ?_,
    fun closer hc hp => ht, fun hc => ht, fun hd => ?_⟩
  · rw [hcons, hpend, hcl.delivered, List.append_nil]
    exact (List.prefix_append _ _).trans (h.arrived (hcl.protocol ▸ hp))
  · rw [hclosed] at hc
    contradiction
  · rw [ht] at htf
    contradiction
  · rw [ht] at htf
    contradiction
  · rw [hcl.delivered]
    rcases hcl.closer _ hc with hc | ⟨hne, -⟩
    · exact h.peer hc
    · exact absurd rfl hne
  · rw [hcl.delivered]
    exact h.endings hd

theorem rxClosed_of_stream {rx : Rx} {n : Nat}
    (ht : t = ({ s with toRx := rx }).returnCredit cfg n) : t.rxClosed = s.rxClosed := by
  rw [ht]
  unfold returnCredit
  repeat' split
  all_goals rfl

/-- The sections of the goroutines keep the bytes in order. -/
theorem Orderly.act {closed : Bool} {a : Act} {e : Effect} (h : s.Orderly d) (hs : s.Sound)
    (ha : s.act cfg closed b a = some e) : e.stream.Orderly d := by
  have hcl := act_closes hs.rx ha
  rcases act_receive ha with hq | ⟨n, rfl, -, -, rfl⟩ | ⟨n, rfl, hp, rfl⟩ | ⟨closer, rfl, hr, rfl⟩ |
    ⟨rfl, hd, rfl⟩
  · exact h.keep hcl (fun _ => by rw [hq.toRx]) (.inl hq.rxClosed)
  · have hspec := read_spec cfg b n hs.rx
    exact h.keep hcl (fun _ => hspec.total) (.inl (rxClosed_of_stream hspec.stream))
  · have hspec := readDatagram_spec cfg b n hs.rx
    exact h.keep hcl (fun ht => by rw [hp] at ht; contradiction)
      (.inl (rxClosed_of_stream hspec.stream))
  · obtain ⟨-, -, hcons, hkeep, hdrop⟩ := closeRead_spec b (decide (closer ≠ .peer)) hs.rx
    have hcloser : s.once.closer = some closer := by rw [hr]; rfl
    by_cases hp : closer = .peer
    · refine h.keep hcl (fun _ => ?_) (.inr ⟨closeRead_rxClosed .., .inr (h.peer (hp ▸ hcloser))⟩)
      show (s.closeRead b (decide (closer ≠ .peer))).1.consumed ++
        (s.closeRead b (decide (closer ≠ .peer))).1.pending = _
      rw [hkeep (by simp [hp])]
    · exact h.drop hcl (hcl.tearing (h.here closer hcloser hp)) hcons
        (hdrop (by simp [hp])).1 (closeRead_rxClosed ..)
  · obtain ⟨-, -, hcons, -, hdrop⟩ := closeRead_spec b true hs.rx
    exact h.drop hcl (hcl.tearing (h.counts hd)) hcons (hdrop rfl).1 (closeRead_rxClosed ..)

/-- The read loop keeps the bytes in order. -/
theorem Orderly.handle {now : Int} {todo : Todo} {rest : Option Todo}
    (h : s.Orderly (some todo)) (hs : s.Sound)
    (hh : s.handle cfg b now todo = some (t, b', rest)) : t.Orderly rest := by
  have hcl := handle_closes hh
  have htear : t.tearing = false → s.tearing = false := fun ht => by
    by_contra hs
    rw [hcl.tearing (by simpa using hs)] at ht
    contradiction
  -- The fields that do not depend on the bytes.
  have hpeer : t.once.closer = some .peer → t.delivered.any ends = true := by
    intro hc
    rw [hcl.delivered]
    rcases hcl.closer _ hc with hc | ⟨hne, -⟩ | ⟨-, rfl⟩
    · exact h.peer hc
    · contradiction
    · exact h.endings (.inr (.inl rfl))
  have hhere : ∀ closer, t.once.closer = some closer → closer ≠ .peer → t.tearing = true := by
    intro closer hc hp
    rcases hcl.closer _ hc with hc | ⟨-, ht⟩ | ⟨hpeer, -⟩
    · exact hcl.tearing (h.here closer hc hp)
    · exact ht
    · exact absurd hpeer hp
  have hcounts : 0 < t.discards → t.tearing = true := by
    rw [hcl.discards]
    exact fun hc => hcl.tearing (h.counts hc)
  have hendings : ending rest → t.delivered.any ends = true := by
    intro he
    rw [hcl.delivered]
    rcases he with he | he | he
    · exact absurd he (hcl.once _)
    · rcases hcl.closeRX he with rfl | rfl
      · exact h.endings (.inl rfl)
      · exact h.endings (.inr (.inl rfl))
    · exact absurd he (hcl.once _)
  have hhand : inHand rest = [] := by
    rcases rest with _ | (signal | n | _ | _)
    · rfl
    · exact absurd rfl (hcl.once signal)
    all_goals rfl
  rcases handle_receive hh with ⟨hq, -, hdata, hne⟩ |
    ⟨payload, byteLimit, frameLimit, htodo, rfl, hq⟩ | ⟨rfl, rfl, rfl, -⟩
  · have hrx : t.toRx = s.toRx := hq.toRx
    have hrc : t.rxClosed = s.rxClosed := hq.rxClosed
    refine ⟨fun hp => ?_, fun hp hc hd => ?_, fun hp ht he => ?_, fun ht he => ?_, hpeer, hhere,
      hcounts, hendings⟩
    · rw [hrx, hcl.delivered]
      exact h.arrived (hcl.protocol ▸ hp)
    · rw [hrc] at hc
      have hnot : inHand (some todo) = [] := by
        rcases todo with (_ | payload | _ | _ | _ | _) | _ | _ | _
        case deliver.data => exact absurd (hdata payload rfl) hd
        all_goals rfl
      have hab : some todo ≠ some .abort := by
        intro habort
        rcases hcl.returns (.inl (Option.some.inj habort)) with hr | ⟨-, closer, hf⟩
        · exact hd (hr.trans habort)
        · rw [hs.finished closer hf] at hc
          contradiction
      have hbytes := h.gapless (hcl.protocol ▸ hp) hc hab
      rw [hnot] at hbytes
      rw [hrx, hcl.delivered, hhand]
      exact hbytes
    · rw [hcl.delivered] at he ⊢
      obtain ⟨hb, hend⟩ := h.retained (hcl.protocol ▸ hp) (htear ht) he
      refine ⟨by rw [hrx]; exact hb, ?_⟩
      rw [hrc]
      rcases hend with hc | hclose | hrx' | hcw
      · exact .inl hc
      · exact .inr (.inr (.inl (hcl.close (Option.some.inj hclose))))
      · rcases hcl.returns (.inr (Option.some.inj hrx')) with hr | ⟨-, closer, hf⟩
        · exact .inr (.inr (.inl (hr.trans hrx')))
        · exact .inl (hs.finished closer hf)
      · exact absurd (Option.some.inj hcw) hne
    · rw [hrc]
      rw [hcl.delivered] at he
      exact h.unended (htear ht) he
  · obtain ⟨-, -, hcons, hpend, hopen, -, -, heq⟩ := queuePayload_spec hs.rx hq
    have hrc : t.rxClosed = false := by
      rw [heq]
      exact hopen
    -- A datagram is queued on a UDP stream only.
    have hbytes : t.protocol = .tcp → t.consumed ++ t.pending = dataOf t.delivered := by
      intro hp
      rw [hcl.protocol] at hp
      rcases htodo with ⟨rfl, -⟩ | ⟨-, hudp⟩
      · rw [hcons, hpend, hcl.delivered, ← h.gapless hp hopen (by simp), inHand,
          List.append_assoc]
      · rw [hp] at hudp
        contradiction
    refine ⟨fun hp => ?_, fun hp hc hd => ?_, fun hp ht he => ?_, fun ht he => hrc, hpeer, hhere,
      hcounts, hendings⟩
    · exact ⟨[], by rw [List.append_nil, hbytes hp]⟩
    · rw [hbytes hp, hhand, List.append_nil]
    · rw [hcl.delivered] at he
      obtain ⟨-, hend⟩ := h.retained (hcl.protocol ▸ hp) (htear ht) he
      rcases htodo with ⟨rfl, -⟩ | ⟨-, hudp⟩
      · rcases hend with hc | hc | hc | hc
        · rw [hopen] at hc
          contradiction
        all_goals simp at hc
      · rw [hcl.protocol, hudp] at hp
        contradiction
  · obtain ⟨-, -, -, hkeep, -⟩ := closeRead_spec b false hs.rx
    have hrx := hkeep rfl
    have hend : s.delivered.any ends = true := h.endings (.inr (.inr rfl))
    refine ⟨fun hp => ?_, fun hp hc hd => ?_, fun hp ht he => ?_, fun ht he => ?_, hpeer, hhere,
      hcounts, hendings⟩
    · rw [hrx, hcl.delivered]
      exact h.arrived (hcl.protocol ▸ hp)
    · rw [closeRead_rxClosed] at hc
      contradiction
    · rw [hrx, hcl.delivered]
      exact ⟨(h.retained (hcl.protocol ▸ hp) (htear ht) hend).1, .inl (closeRead_rxClosed ..)⟩
    · rw [hcl.delivered, hend] at he
      contradiction

/-- `Run` looks up the stream for one more frame. -/
theorem Orderly.routed (h : s.Orderly none) (f : Signal) :
    ({ s with delivered := s.delivered ++ [f] } : Stream).Orderly (some (.deliver f)) := by
  have hany : ∀ l : List Signal, (l ++ [f]).any ends = (l.any ends || ends f) := by simp
  refine ⟨fun hp => ?_, fun hp hc hd => ?_, fun hp ht he => ?_, fun ht he => ?_, fun hc => ?_,
    h.here, h.counts, fun he => ?_⟩
  · rw [dataOf_append]
    exact (h.arrived hp).trans (List.prefix_append _ _)
  · have hbytes := h.gapless hp hc (by simp)
    rw [inHand_deliver, dataOf_append, ← hbytes]
    simp [inHand]
  · by_cases hend : s.delivered.any ends = true
    · obtain ⟨hb, hc⟩ := h.retained hp ht hend
      rw [untilEnd_append hend]
      refine ⟨hb, .inl ?_⟩
      rcases hc with hc | hc | hc | hc
      · exact hc
      all_goals simp at hc
    · have hend : s.delivered.any ends = false := by simpa using hend
      rw [hany, hend, Bool.false_or] at he
      have hbytes := h.gapless hp (h.unended ht hend) (by simp)
      rw [untilEnd_snoc hend he]
      refine ⟨by simpa [inHand] using hbytes, .inr ?_⟩
      cases f with
      | close => exact .inl rfl
      | closeWrite => exact .inr (.inr rfl)
      | _ => simp [ends] at he
  · rw [hany, Bool.or_eq_false_iff] at he
    exact h.unended ht he.1
  · rw [hany, h.peer hc, Bool.true_or]
  · rw [hany]
    rcases he with he | he | he
    · obtain rfl := by simpa using he
      simp [ends]
    · simp at he
    · obtain rfl := by simpa using he
      simp [ends]

end Stream

/-! ## the connection -/

/-- The frames with the identifier `id`. -/
def signalsOf (id : Nat) (frames : List Frame) : List Signal :=
  frames.filterMap fun
    | .stream id' signal => if id' = id then some signal else none
    | _ => none

@[simp] theorem signalsOf_append (id : Nat) (l m : List Frame) :
    signalsOf id (l ++ m) = signalsOf id l ++ signalsOf id m := by
  simp [signalsOf]

namespace Conn

variable {cfg : Config} {c c' : Conn} {e : Event} {i : Nat} {s t : Stream}
  {d : Option Stream.Todo}

/-- The frames `Run` read since a stream was made, with its identifier. -/
def sentTo (c : Conn) (s : Stream) : List Signal := signalsOf s.id (c.input.drop s.born)

/-- A change keeps the bytes of a stream in order. -/
theorem Change.orderly (h : Change cfg c e i s t d) (hs : s.Sound) (ho : s.Orderly (c.todo i)) :
    t.Orderly d := by
  have tear : ∀ {u : Stream}, Stream.Closes s u → u.toRx = s.toRx → u.rxClosed = s.rxClosed →
      u.Orderly (c.todo i) := fun hcl hrx hrc => ho.keep hcl (fun _ => by rw [hrx]) (.inl hrc)
  have plain : ∀ {u : Stream}, u.toRx = s.toRx → u.rxClosed = s.rxClosed →
      u.delivered = s.delivered → u.born = s.born → u.id = s.id → u.protocol = s.protocol →
      u.tearing = s.tearing → u.once = s.once → u.discards = s.discards →
      u.Orderly (c.todo i) := fun h₁ h₂ h₃ h₄ h₅ h₆ h₇ h₈ h₉ => by
    refine ⟨fun hp => ?_, fun hp hc => ?_, fun hp ht => ?_, fun ht => ?_, ?_, ?_, ?_, ?_⟩
    · rw [h₁, h₃]
      exact ho.arrived (h₆ ▸ hp)
    · rw [h₁, h₃]
      exact ho.gapless (h₆ ▸ hp) (h₂ ▸ hc)
    · rw [h₁, h₂, h₃]
      exact ho.retained (h₆ ▸ hp) (h₇ ▸ ht)
    · rw [h₂, h₃]
      exact ho.unended (h₇ ▸ ht)
    · rw [h₃, h₈]
      exact ho.peer
    · rw [h₇, h₈]
      exact ho.here
    · rw [h₇, h₉]
      exact ho.counts
    · rw [h₃]
      exact ho.endings
  cases h with
  | same => exact ho
  | act he ha => exact ho.act hs ha
  | handle he hr hh =>
      rw [hr] at ho
      exact ho.handle hs hh
  | mark he hk ho' => exact plain rfl rfl rfl rfl rfl rfl rfl rfl rfl
  | enter he hk ho' ht =>
      have hcl := (Stream.enter_closes (by decide) ht).1
      rcases Stream.enter_cases ht with ⟨-, -, rfl⟩ | ⟨other, -, -, rfl⟩
      · exact tear hcl rfl rfl
      · exact tear hcl rfl rfl
  | abortReturns he hk ho' ht =>
      have hcl := (Stream.enter_closes (by decide) ht).1
      rcases Stream.enter_cases ht with ⟨-, hret, -⟩ | ⟨other, -, -, rfl⟩
      · contradiction
      · exact tear ⟨hcl.delivered, hcl.born, hcl.id, hcl.protocol, hcl.opening, hcl.evicted,
          hcl.tearing, hcl.closer, hcl.counts⟩ rfl rfl
  | toAborting he ho' => exact plain rfl rfl rfl rfl rfl rfl rfl rfl rfl
  | toWriting he ho' => exact plain rfl rfl rfl rfl rfl rfl rfl rfl rfl
  | opens he ho' hc => exact plain rfl rfl rfl rfl rfl rfl rfl rfl rfl
  | openFails he ho' hc => exact plain rfl rfl rfl rfl rfl rfl rfl rfl rfl
  | sweep he hc => exact plain rfl rfl rfl rfl rfl rfl rfl rfl rfl
  | routed he hi hr =>
      rw [hr] at ho
      exact ho.routed _

/-- A change keeps what identifies a stream. -/
theorem Change.ident (h : Change cfg c e i s t d) (hs : s.Sound) :
    t.id = s.id ∧ t.protocol = s.protocol ∧ t.born = s.born ∧
      (t.delivered = s.delivered ∨ ∃ id f now, e = .receive (.stream id f) now ∧
        c.getStream id = some i ∧ t.delivered = s.delivered ++ [f]) := by
  cases h with
  | act he ha =>
      have hcl := Stream.act_closes hs.rx ha
      exact ⟨hcl.id, hcl.protocol, hcl.born, .inl hcl.delivered⟩
  | handle he hr hh =>
      have hcl := Stream.handle_closes hh
      exact ⟨hcl.id, hcl.protocol, hcl.born, .inl hcl.delivered⟩
  | enter he hk ho' ht =>
      have hcl := (Stream.enter_closes (by decide) ht).1
      exact ⟨hcl.id, hcl.protocol, hcl.born, .inl hcl.delivered⟩
  | abortReturns he hk ho' ht =>
      have hcl := (Stream.enter_closes (by decide) ht).1
      exact ⟨hcl.id, hcl.protocol, hcl.born, .inl hcl.delivered⟩
  | routed he hi hr => exact ⟨rfl, rfl, rfl, .inr ⟨_, _, _, he, hi, rfl⟩⟩
  | _ => exact ⟨rfl, rfl, rfl, .inl rfl⟩

/-- The streams of a connection get the frames with their identifiers. -/
structure Ordered (cfg : Config) (c : Conn) : Prop where
  budget : BudgetOk cfg c
  orderly : ∀ i (s : Stream), c.streams[i]? = some s → s.Orderly (c.todo i)
  reader : ∀ i todo, c.reader = .busy i todo → i < c.streams.length
  table : ∀ id i, (id, i) ∈ c.table → ∃ s : Stream, c.streams[i]? = some s ∧ s.id = id
  nodup : (c.table.map Prod.fst).Nodup
  born : ∀ s ∈ c.streams, s.born ≤ c.input.length
  routed : ∀ s ∈ c.streams, s.delivered <+: c.sentTo s
  live : ∀ i (s : Stream), c.streams[i]? = some s → (s.id, i) ∈ c.table →
    (∀ r, c.reader ≠ .stopped r) →
    s.delivered = c.sentTo s

theorem newConn_ordered (cfg : Config) : Ordered cfg newConn :=
  ⟨newConn_budgetOk cfg, by simp [newConn], by simp [newConn], by simp [newConn],
    by simp [newConn], by simp [newConn], by simp [newConn], by simp [newConn]⟩

theorem Ordered.ids (h : Ordered cfg c) {id : Nat} (hi : (id, i) ∈ c.table)
    (hs : c.streams[i]? = some s) : s.id = id := by
  obtain ⟨s', hs', hid⟩ := h.table id i hi
  rw [hs, Option.some.injEq] at hs'
  exact hs' ▸ hid

/-- A stream of the connection was there before a step, or is new and has seen
nothing. -/
theorem Ordered.earlier (h : Ordered cfg c) (hstep : c.step cfg e = some c')
    (ht : c'.streams[i]? = some t) :
    (∃ s, c.streams[i]? = some s ∧ Change cfg c e i s t (c'.todo i)) ∨
      (t.Orderly (c'.todo i) ∧ t.delivered = [] ∧ t.born = c'.input.length) := by
  rcases step_stream hstep ht with hold | hf
  · exact .inl hold
  · obtain ⟨hi, id, protocol, group, now, opening, born, rfl, hcase⟩ := hf
    have htodo : c'.todo i = none := by
      cases hd : c'.todo i with
      | none => rfl
      | some d =>
          rcases step_busy hstep (reader_of_todo hd) with ⟨d', hr⟩ | ⟨id', f, now', -, hget⟩
          · have := h.reader i d' hr
            omega
          · obtain ⟨s, hs, -⟩ := h.table id' i (mem_of_getStream hget)
            have := (List.getElem?_eq_some_iff.mp hs).1
            omega
    refine .inr ⟨htodo ▸ Stream.newStream_orderly .., rfl, ?_⟩
    rcases step_input hstep with ⟨hin, hstop⟩ | ⟨f, now', hrec, hin, -, -⟩
    · rcases hcase with ⟨-, -, hrec⟩ | ⟨-, hborn, -⟩
      · obtain ⟨-, hsame⟩ := hstop _ _ hrec
        rw [hsame, hi] at ht
        simp at ht
      · rw [hin]
        exact hborn
    · rcases hcase with ⟨-, hborn, -⟩ | ⟨-, -, victim, hopen⟩
      · rw [hin, List.length_append]
        exact hborn
      · rw [hopen] at hrec
        contradiction

/-- One more frame for a stream. -/
theorem sentTo_append (hb : s.born ≤ c.input.length) (f : Frame) :
    signalsOf s.id ((c.input ++ [f]).drop s.born) = c.sentTo s ++ signalsOf s.id [f] := by
  rw [sentTo, List.drop_append_of_le_length hb, signalsOf_append]

/-- What was delivered is still a part of what was sent. -/
theorem Ordered.routed_step (h : Ordered cfg c) (hstep : c.step cfg e = some c')
    (hs : c.streams[i]? = some s) (ht : c'.streams[i]? = some t)
    (hch : Change cfg c e i s t d) : t.delivered <+: c'.sentTo t := by
  have hmem := List.mem_of_getElem? hs
  obtain ⟨hid, -, hborn, hdel⟩ := hch.ident (h.budget.sound s hmem)
  have hpre := h.routed s hmem
  rw [sentTo, hid, hborn]
  rcases step_input hstep with ⟨hin, hstop⟩ | ⟨f, now, hrec, hin, hidle, -⟩
  · rw [hin]
    rcases hdel with hdel | ⟨id, f, now, hrec, -, -⟩
    · rw [hdel]
      exact hpre
    · obtain ⟨-, hsame⟩ := hstop _ _ hrec
      rw [hsame, hs, Option.some.injEq] at ht
      exact ht ▸ hpre
  · rw [hin, sentTo_append (h.born s hmem)]
    rcases hdel with hdel | ⟨id, g, now', hrec', hget, hdel⟩
    · rw [hdel]
      exact hpre.trans (List.prefix_append _ _)
    · have hf : f = .stream id g := by
        rw [hrec'] at hrec
        exact (Event.receive.inj hrec).1.symm
      have hid' : s.id = id := h.ids (mem_of_getStream hget) hs
      rw [hdel, h.live i s hs (hid' ▸ mem_of_getStream hget) (by simp [hidle]), hf]
      simp [signalsOf, hid']

/-- A registered stream has got everything with its identifier. -/
theorem Ordered.live_step (h : Ordered cfg c) (hstep : c.step cfg e = some c')
    (hs : c.streams[i]? = some s) (ht : c'.streams[i]? = some t)
    (hch : Change cfg c e i s t d) (hi : (t.id, i) ∈ c'.table)
    (hr : ∀ r, c'.reader ≠ .stopped r) : t.delivered = c'.sentTo t := by
  have hmem := List.mem_of_getElem? hs
  obtain ⟨hid, -, hborn, hdel⟩ := hch.ident (h.budget.sound s hmem)
  have hlt : i < c.streams.length := (List.getElem?_eq_some_iff.mp hs).1
  have hreg : (s.id, i) ∈ c.table := by
    rw [hid] at hi
    rcases step_table hstep with ⟨hsub, -⟩ | ⟨u, table, -, htab, hsub, -⟩
    · exact hsub.subset hi
    · rw [htab] at hi
      rcases List.mem_cons.mp hi with heq | hi
      · have := (Prod.mk.inj heq).2
        omega
      · exact hsub.subset hi
  have hget := getStream_of_mem h.nodup hreg
  rw [sentTo, hid, hborn]
  rcases step_input hstep with ⟨hin, hstop⟩ | ⟨f, now, hrec, hin, hidle, hd⟩
  · have hlive := h.live i s hs hreg fun r hstopped => hr r (step_stopped hstep hstopped)
    rw [hin]
    rcases hdel with hdel | ⟨id, f, now, hrec, -, -⟩
    · exact hdel.trans hlive
    · obtain ⟨⟨r, hstopped⟩, -⟩ := hstop _ _ hrec
      exact absurd hstopped (hr r)
  · have hlive := h.live i s hs hreg (by simp [hidle])
    rw [hin, sentTo_append (h.born s hmem), ← hlive]
    -- A frame that is not routed to the stream is not one of the stream.
    have other : (∀ g, f ≠ .stream s.id g) → t.delivered = s.delivered →
        t.delivered = s.delivered ++ signalsOf s.id [f] := by
      intro hne heq
      rw [heq]
      cases f with
      | stream id g =>
          have : id ≠ s.id := fun he => hne g (by rw [he])
          simp [signalsOf, this]
      | _ => simp [signalsOf]
    cases hd with
    | stop reason => exact absurd rfl (hr reason)
    | ignore hno =>
        refine other (fun g hf => ?_) (by rw [hs, Option.some.injEq] at ht; rw [ht])
        rw [hno s.id g hf i hget] at hs
        contradiction
    | pong hf => exact other (by simp [hf]) (by rw [hs, Option.some.injEq] at ht; rw [ht])
    | opened hf hins =>
        obtain ⟨-, hnone, table, rfl, -⟩ := insertStream_cases hins
        refine other (fun g hg => ?_) ?_
        · rw [hf, Frame.stream.injEq] at hg
          have hnone : c.getStream s.id = none := hg.1 ▸ hnone
          rw [hget] at hnone
          contradiction
        · rw [List.getElem?_append_left hlt, hs, Option.some.injEq] at ht
          rw [ht]
    | routed hf hk ho =>
        rename_i id k g
        rw [List.getElem?_modify] at ht
        obtain ⟨u, hu, ht⟩ := Option.map_eq_some_iff.mp ht
        obtain rfl : s = u := Option.some.inj (hs.symm.trans hu)
        by_cases hki : k = i
        · have hid' : s.id = id := h.ids (mem_of_getStream hk) (hki ▸ hs)
          rw [← ht, if_pos hki, hf]
          simp [signalsOf, hid']
        · refine other (fun g' hg => hki ?_) (by rw [← ht, if_neg hki])
          rw [hf, Frame.stream.injEq] at hg
          have hk : c.getStream s.id = some k := hg.1 ▸ hk
          rw [hget, Option.some.injEq] at hk
          exact hk.symm

/-- One step keeps the streams in order. -/
theorem Ordered.step (h : Ordered cfg c) (hstep : c.step cfg e = some c') : Ordered cfg c' := by
  have hsound : ∀ {i} {s : Stream}, c.streams[i]? = some s → s.Sound :=
    fun hs => h.budget.sound _ (List.mem_of_getElem? hs)
  refine ⟨h.budget.step hstep, fun i t ht => ?_, fun i d hr => ?_, fun id i hi => ?_, ?_,
    fun t ht => ?_, fun t ht => ?_, fun i t ht hi hr => ?_⟩
  · rcases h.earlier hstep ht with ⟨s, hs, hch⟩ | ⟨hnew, -⟩
    · exact hch.orderly (hsound hs) (h.orderly i s hs)
    · exact hnew
  · have hlt : i < c.streams.length := by
      rcases step_busy hstep hr with ⟨d', hr'⟩ | ⟨id, f, now, -, hget⟩
      · exact h.reader i d' hr'
      · obtain ⟨s, hs, -⟩ := h.table id i (mem_of_getStream hget)
        exact (List.getElem?_eq_some_iff.mp hs).1
    rcases step_table hstep with ⟨-, hlen⟩ | ⟨u, table, hstr, -⟩
    · omega
    · rw [hstr, List.length_append]
      omega
  · have hold : (id, i) ∈ c.table → ∃ s, c'.streams[i]? = some s ∧ s.id = id := by
      intro hi
      obtain ⟨s, hs, hid⟩ := h.table id i hi
      obtain ⟨t, ht, hch⟩ := step_later hstep hs
      exact ⟨t, ht, (hch.ident (hsound hs)).1.trans hid⟩
    rcases step_table hstep with ⟨hsub, -⟩ | ⟨u, table, hstr, htab, hsub, -⟩
    · exact hold (hsub.subset hi)
    · rw [htab] at hi
      rcases List.mem_cons.mp hi with heq | hi
      · obtain ⟨rfl, rfl⟩ := Prod.mk.inj heq
        exact ⟨u, by simp [hstr], rfl⟩
      · exact hold (hsub.subset hi)
  · rcases step_table hstep with ⟨hsub, -⟩ | ⟨u, table, hstr, htab, hsub, hget⟩
    · exact (hsub.map _).nodup h.nodup
    · rw [htab, List.map_cons, List.nodup_cons]
      refine ⟨fun hmem => ?_, (hsub.map _).nodup h.nodup⟩
      obtain ⟨⟨id, i⟩, hi, hid⟩ := List.mem_map.mp hmem
      obtain rfl := hid
      rw [getStream_of_mem h.nodup (hsub.subset hi)] at hget
      contradiction
  · obtain ⟨i, hi⟩ := List.mem_iff_getElem?.mp ht
    rcases h.earlier hstep hi with ⟨s, hs, hch⟩ | ⟨-, -, hborn⟩
    · rw [(hch.ident (hsound hs)).2.2.1]
      have hb := h.born s (List.mem_of_getElem? hs)
      rcases step_input hstep with ⟨hin, -⟩ | ⟨f, now, -, hin, -, -⟩
      · rwa [hin]
      · rw [hin, List.length_append]
        omega
    · exact hborn.le
  · obtain ⟨i, hi⟩ := List.mem_iff_getElem?.mp ht
    rcases h.earlier hstep hi with ⟨s, hs, hch⟩ | ⟨-, hnew, -⟩
    · exact h.routed_step hstep hs hi hch
    · rw [hnew]
      exact List.nil_prefix
  · rcases h.earlier hstep ht with ⟨s, hs, hch⟩ | ⟨-, hnew, hborn⟩
    · exact h.live_step hstep hs ht hch hi hr
    · rw [hnew, sentTo, hborn, List.drop_length]
      rfl

/-! ## isolation -/

/-- The step is one of a goroutine of the stream at `i`, of `Run` handling a frame
of it, or `Run` reading a payload or a credit for it, whatever the payload, the
credit and the state of the stream are. -/
def Touches (cfg : Config) (i : Nat) (c : Conn) : Event → Prop
  | .act k _ => k = i
  | .handle _ => (c.todo i).isSome
  | .receive (.stream id (.data payload)) _ =>
      c.getStream id = some i ∧ payload.length ≤ maxDataPayloadSize
  | .receive (.stream id (.datagram payload)) _ =>
      c.getStream id = some i ∧ payload.length ≤ maxDatagramPayloadSize
  | .receive (.stream id (.windowUpdate _)) _ =>
      c.getStream id = some i ∧ cfg.flowControl = true ∧ id ≠ 0
  | _ => False

/-- The siblings of the stream at `i`, and the tunnel, are what they were. -/
structure Isolated (i : Nat) (c c' : Conn) : Prop where
  siblings : ∀ j, j ≠ i → c'.streams[j]? = c.streams[j]?
  closed : c'.closed = c.closed
  running : (∀ r, c.reader ≠ .stopped r) → ∀ r, c'.reader ≠ .stopped r
  lookups : ∀ s ∈ c.streams[i]?, (∃ t, c'.streams[i]? = some t ∧ t.id = s.id) ∧
    ∀ id, id ≠ s.id → c'.getStream id = c.getStream id

theorem lookup_filter {l : List (Nat × Nat)} {id x : Nat} (h : id ≠ x) :
    (l.filter (·.1 ≠ x)).lookup id = l.lookup id := by
  induction l with
  | nil => rfl
  | cons entry l ih =>
      rw [List.filter_cons]
      split
      · rw [List.lookup_cons, List.lookup_cons, ih]
      · rename_i hx
        have hne : (id == entry.1) = false := by
          rw [beq_eq_false_iff_ne]
          rintro rfl
          simp [h] at hx
        rw [ih, List.lookup_cons, hne]

theorem route_isolated {id : Nat} {f : Signal} (h : c.getStream id = some i) :
    Isolated i c (c.route id f) := by
  simp only [route, h]
  refine ⟨fun j hj => ?_, rfl, fun _ _ => by simp, fun s hs => ⟨?_, fun _ _ => rfl⟩⟩
  · rw [List.getElem?_modify]
    simp [hj.symm]
  · rw [Option.mem_def] at hs
    exact ⟨{ s with delivered := s.delivered ++ [f] }, by simp [hs], rfl⟩

/-- A step of one stream leaves the others alone. -/
theorem Touches.isolated (ht : Touches cfg i c e) (hb : BudgetOk cfg c)
    (hstep : c.step cfg e = some c') : Isolated i c c' := by
  cases e with
  | act k a =>
      obtain rfl : k = i := ht
      simp only [step] at hstep
      obtain ⟨o, ho, hstep⟩ := Option.bind_eq_some_iff.mp hstep
      obtain ⟨eff, ha, rfl⟩ := Option.map_eq_some_iff.mp hstep
      have hid := (Stream.act_closes (hb.sound o (List.mem_of_getElem? ho)).rx ha).id
      have hclosed : (c.apply k eff).closed = c.closed ∧ (c.apply k eff).reader = c.reader := by
        unfold apply
        split <;> exact ⟨rfl, rfl⟩
      refine ⟨fun j hj => ?_, hclosed.1, fun hr r => hclosed.2 ▸ hr r, fun s hs => ?_⟩
      · rw [apply_streams, List.getElem?_set_ne hj.symm]
      · obtain rfl : o = s := Option.some.inj (ho.symm.trans hs)
        have hlt := (List.getElem?_eq_some_iff.mp ho).1
        refine ⟨⟨eff.stream, by rw [apply_streams, List.getElem?_set_self hlt], hid⟩, ?_⟩
        intro id hne
        unfold apply
        split
        · exact lookup_filter (hid ▸ hne)
        · rfl
  | handle now =>
      obtain ⟨todo, htodo⟩ := Option.isSome_iff_exists.mp ht
      simp only [step, reader_of_todo htodo] at hstep
      obtain ⟨o, ho, hstep⟩ := Option.bind_eq_some_iff.mp hstep
      obtain ⟨⟨u, b, rest⟩, hh, rfl⟩ := Option.map_eq_some_iff.mp hstep
      refine ⟨fun j hj => List.getElem?_set_ne hj.symm, rfl, fun _ r => ?_, fun s hs => ?_⟩
      · cases rest <;> simp
      · obtain rfl : o = s := Option.some.inj (ho.symm.trans hs)
        have hlt := (List.getElem?_eq_some_iff.mp ho).1
        exact ⟨⟨u, List.getElem?_set_self hlt, (Stream.handle_closes hh).id⟩, fun _ _ => rfl⟩
  | receive f now =>
      have routed : ∀ {id g}, c.getStream id = some i → tooLarge f = false →
          (∀ d : Conn, d.dispatch cfg now f = d.route id g) → Isolated i c c' := by
        intro id g hget hsize hdis
        simp only [step] at hstep
        split at hstep
        · rw [if_neg (by simp [hsize]), hdis] at hstep
          obtain rfl := Option.some.inj hstep
          have hiso := route_isolated (c := { c with input := c.input ++ [f] }) (f := g) hget
          exact ⟨hiso.siblings, hiso.closed, hiso.running, hiso.lookups⟩
        · contradiction
      cases f with
      | stream id g =>
          cases g with
          | data payload =>
              exact routed ht.1 (by simpa [tooLarge] using ht.2) fun _ => rfl
          | datagram payload =>
              exact routed ht.1 (by simpa [tooLarge] using ht.2) fun _ => rfl
          | windowUpdate credit =>
              exact routed (g := .windowUpdate credit) ht.1 rfl fun _ => by
                simp [dispatch, ht.2.1, ht.2.2]
          | _ => exact ht.elim
      | _ => exact ht.elim
  | _ => exact ht.elim

/-- The steps of one stream, in any number and any order. -/
theorem isolated_run {es : List Event} (hb : BudgetOk cfg c)
    (hm : Conc.Meets (step cfg) (Touches cfg i) c es) (hrun : c.run cfg es = some c') :
    Isolated i c c' := by
  refine (hm.invariant (I := fun d => BudgetOk cfg d ∧ Isolated i c d) ?_ ⟨hb, ?_⟩ hrun).2
  · rintro d e d' ⟨hd, h⟩ ht hstep
    have hiso := Touches.isolated ht hd hstep
    refine ⟨hd.step hstep, fun j hj => (hiso.siblings j hj).trans (h.siblings j hj),
      hiso.closed.trans h.closed, fun hr => hiso.running (h.running hr), fun s hs => ?_⟩
    obtain ⟨⟨t, ht, hid⟩, hget⟩ := h.lookups s hs
    obtain ⟨⟨u, hu, hid'⟩, hget'⟩ := hiso.lookups t ht
    exact ⟨⟨u, hu, hid'.trans hid⟩,
      fun id hne => (hget' id (hid ▸ hne)).trans (hget id hne)⟩
  · exact ⟨fun _ _ => rfl, rfl, fun h => h, fun s hs => ⟨⟨s, hs, rfl⟩, fun _ _ => rfl⟩⟩

/-! ## the bytes of a stream -/

/-- What `Read` returns on a TCP stream of a connection, whatever frames came: the first
of the bytes that came for its identifier since it was made; once the peer has ended its
side all of them are returned or can be read, until the stream is closed or aborted here;
and what is queued is what the next `Read` returns. -/
structure Readable (cfg : Config) (c : Conn) (s : Stream) : Prop where
  first : s.consumed <+: dataOf (c.sentTo s)
  kept : s.tearing = false → s.delivered.any ends = true →
    s.consumed ++ s.pending = dataOf (untilEnd (c.sentTo s))
  next : ∀ n, 0 < n → s.pending ≠ [] →
    ∃ l, l ≠ [] ∧ l <+: s.pending ∧ (s.read cfg c.budget n).1 = .bytes l

theorem Ordered.readable (h : Ordered cfg c) (hs : c.streams[i]? = some s)
    (hp : s.protocol = .tcp) : Readable cfg c s := by
  have hmem := List.mem_of_getElem? hs
  have ho := h.orderly i s hs
  obtain ⟨later, hlater⟩ := h.routed s hmem
  refine ⟨?_, fun ht he => ?_, fun n hn hpend => ?_⟩
  · have hread : s.consumed <+: dataOf s.delivered :=
      (List.prefix_append _ _).trans (ho.arrived hp)
    rw [← hlater, dataOf_append]
    exact hread.trans (List.prefix_append _ _)
  · rw [(ho.retained hp ht he).1, ← hlater, untilEnd_append he]
  · have hspec := Stream.read_spec cfg c.budget n (h.budget.sound s hmem).rx
    rcases hspec.result with ⟨l, hl, hcons, hne⟩ | ⟨-, hempty, -⟩
    · refine ⟨l, fun hnil => ?_, ?_, hl⟩
      · have := hne hnil
        omega
      · have htotal := hspec.total
        rw [hcons, List.append_assoc] at htotal
        exact ⟨_, List.append_cancel_left htotal⟩
    · exact absurd hempty hpend

end Conn

end Tunnel
