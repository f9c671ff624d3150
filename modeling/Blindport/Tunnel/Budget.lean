import Mathlib.Algebra.Order.BigOperators.Group.List
import Blindport.Tunnel.Changes

/-!
# Blindport.Tunnel.Budget

The receive budget of a connection: `rxBytes` and `rxFrames` are the sums over the
streams in every state of every run, and stay inside the limits.  A stream that
was closed, aborted, evicted or swept here holds nothing, unless the peer had
closed it before an abort found payload in its queue: `abort` does nothing then.
-/

namespace Tunnel

/-! ## streams -/

/-- The receive side of a stream is in order: the counters count, and a stream
whose close has returned takes nothing in. -/
structure Stream.Sound (s : Stream) : Prop where
  rx : s.toRx.Ok
  finished : ∀ closer, s.once = .finished closer → s.rxClosed = true
  torn : s.torn = true → s.rxClosed = true
  local_torn : ∀ closer, s.once = .finished closer → closer ≠ .peer → s.torn = true

namespace Stream

variable {cfg : Config} {b b' : Budget} {s t : Stream}

theorem newStream_sound (cfg : Config) (id : Nat) (protocol : Transport) (group : String)
    (now : Int) (opening : Opening) (born : Nat) :
    (newStream cfg id protocol group now opening born).Sound :=
  ⟨⟨rfl, rfl, by simp [newStream], fun _ => rfl⟩, by simp [newStream], by simp [newStream],
    by simp [newStream]⟩

theorem Quiet.sound (h : Quiet b s t b') (hs : s.Sound) : t.Sound := by
  refine ⟨h.toRx ▸ hs.rx, fun closer ht => ?_, fun ht => ?_, fun closer ht hp => ?_⟩
  · rw [h.rxClosed]
    exact hs.finished closer (h.once closer ht)
  · rw [h.rxClosed]
    exact hs.torn (h.torn ▸ ht)
  · rw [h.torn]
    exact hs.local_torn closer (h.once closer ht) hp

theorem returnCredit_sound (hs : s.Sound) (n : Nat) : (s.returnCredit cfg n).Sound := by
  unfold returnCredit
  split
  · exact hs
  · split <;> exact ⟨hs.rx, hs.finished, hs.torn, hs.local_torn⟩

/-- A read changes only the receive side and the credit to return. -/
theorem sound_of_stream {n : Nat} (hs : s.Sound) (hok : t.toRx.Ok)
    (ht : t = ({ s with toRx := t.toRx }).returnCredit cfg n) : t.Sound := by
  have h : ({ s with toRx := t.toRx } : Stream).Sound :=
    ⟨hok, hs.finished, hs.torn, hs.local_torn⟩
  rw [ht]
  exact returnCredit_sound h n

theorem torn_of_stream {n : Nat}
    (ht : t = ({ s with toRx := t.toRx }).returnCredit cfg n) : t.torn = s.torn := by
  rw [ht]
  unfold returnCredit
  split
  · rfl
  · split <;> rfl

theorem closeRead_le (hok : s.toRx.Ok) (discard : Bool) :
    (s.closeRead b discard).1.rxQueued ≤ s.rxQueued ∧
      (s.closeRead b discard).1.rxFrames ≤ s.rxFrames := by
  unfold closeRead
  split
  · exact ⟨hok.queued_nonneg, hok.frames_nonneg⟩
  · exact ⟨le_refl _, le_refl _⟩

theorem queuePayload_budget {payload : List UInt8} {byteLimit frameLimit now : Int}
    (h : s.queuePayload cfg b payload byteLimit frameLimit now = some (t, b')) :
    b'.rxBytes ≤ cfg.rxByteLimit ∧ b'.rxFrames ≤ cfg.rxFrameLimit := by
  unfold queuePayload at h
  split at h
  · contradiction
  · obtain ⟨b₁, hres, heq⟩ := Option.map_eq_some_iff.mp h
    rw [Prod.mk.injEq] at heq
    exact heq.2 ▸ reserveReceive_le hres

/-- A section of a goroutine keeps a stream in order and moves its counters with
the budget, which does not grow. -/
theorem act_sound {closed : Bool} {a : Act} {e : Effect} (hs : s.Sound)
    (h : s.act cfg closed b a = some e) :
    e.stream.Sound ∧ Rx.Together s.toRx e.stream.toRx b e.budget ∧
      e.stream.rxQueued ≤ s.rxQueued ∧ e.stream.rxFrames ≤ s.rxFrames := by
  rcases act_receive h with hq | ⟨n, rfl, -, -, rfl⟩ | ⟨n, rfl, -, rfl⟩ | ⟨closer, rfl, hr, rfl⟩ |
    ⟨rfl, hd, rfl⟩
  · refine ⟨hq.sound hs, ?_, ?_, ?_⟩
    · rw [hq.toRx, hq.budget]
      exact .rfl
    · rw [hq.toRx]
    · rw [hq.toRx]
  · have hspec := read_spec cfg b n hs.rx
    refine ⟨?_, hspec.together, hspec.shrinks.1, hspec.shrinks.2⟩
    exact sound_of_stream hs hspec.ok hspec.stream
  · have hspec := readDatagram_spec cfg b n hs.rx
    refine ⟨?_, hspec.together, hspec.shrinks.1, hspec.shrinks.2⟩
    exact sound_of_stream hs hspec.ok hspec.stream
  · obtain ⟨hok, htog, -, hkeep, hdrop⟩ := closeRead_spec b (decide (closer ≠ .peer)) hs.rx
    refine ⟨⟨hok, fun _ _ => closeRead_rxClosed .., fun _ => closeRead_rxClosed .., ?_⟩, htog, ?_⟩
    · intro other hfin hne
      simp only [closedBy, Once.finished.injEq] at hfin
      simp [closedBy, hfin, hne]
    · exact closeRead_le hs.rx _
  · obtain ⟨hok, htog, -, -, -⟩ := closeRead_spec b true hs.rx
    exact ⟨⟨hok, fun _ _ => closeRead_rxClosed .., fun _ => closeRead_rxClosed ..,
      fun _ _ _ => rfl⟩, htog, closeRead_le hs.rx _⟩

/-- Handling a frame keeps a stream in order and moves its counters with the
budget, which stays inside the limits if it was. -/
theorem handle_sound {now : Int} {todo : Todo} {rest : Option Todo} (hs : s.Sound)
    (h : s.handle cfg b now todo = some (t, b', rest)) :
    t.Sound ∧ Rx.Together s.toRx t.toRx b b' ∧
      (b.rxBytes ≤ cfg.rxByteLimit ∧ b.rxFrames ≤ cfg.rxFrameLimit →
        b'.rxBytes ≤ cfg.rxByteLimit ∧ b'.rxFrames ≤ cfg.rxFrameLimit) ∧
      (s.rxClosed = true → t.rxFrames = s.rxFrames) := by
  rcases handle_receive h with ⟨hq, htorn, -⟩ | ⟨payload, byteLimit, frameLimit, -, -, hq⟩ |
    ⟨-, -, rfl, hb'⟩
  · have hsound := hq.sound hs
    have hrx : t.toRx = s.toRx := hq.toRx
    refine ⟨⟨hsound.rx, hsound.finished, fun ht => ?_, fun closer hf hp => ?_⟩, ?_, ?_, ?_⟩
    · rcases htorn with htorn | ⟨-, -, -, closer, hfin⟩
      · exact hsound.torn (htorn ▸ ht)
      · exact hq.rxClosed.trans (hs.finished closer hfin)
    · have hst : s.torn = true := hsound.local_torn closer hf hp
      rcases htorn with htorn | ⟨ht, -⟩
      · rw [htorn, hst]
      · exact ht
    · rw [hrx, hq.budget]
      exact .rfl
    · rw [hq.budget]
      exact fun h => h
    · rw [hrx]
      exact fun _ => rfl
  · obtain ⟨hok, htog, -, -, hopen, -, -, ht⟩ := queuePayload_spec hs.rx hq
    refine ⟨?_, htog, fun _ => queuePayload_budget hq, fun h => by simp [hopen] at h⟩
    rw [ht]
    exact ⟨hok, hs.finished, hs.torn, hs.local_torn⟩
  · obtain ⟨hok, htog, -, hkeep, -⟩ := closeRead_spec b false hs.rx
    have hb : b' = b := by simp [hb', closeRead]
    rw [← hb'] at htog
    refine ⟨⟨hok, fun _ _ => closeRead_rxClosed .., fun _ => closeRead_rxClosed .., ?_⟩, htog,
      fun h => hb ▸ h, fun _ => by rw [hkeep rfl]⟩
    have htorn : (s.closeRead b false).1.torn = s.torn := by simp [closeRead]
    have honce : (s.closeRead b false).1.once = s.once := by simp [closeRead]
    rw [htorn, honce]
    exact hs.local_torn

theorem enter_sound {closer : Closer} {returned : Bool} (hs : s.Sound)
    (h : s.enter closer = some (t, returned)) :
    t.Sound ∧ t.toRx = s.toRx ∧ t.torn = s.torn := by
  rcases enter_cases h with ⟨-, -, rfl⟩ | ⟨other, -, -, rfl⟩
  · exact ⟨⟨hs.rx, fun _ h => by simp at h, hs.torn, fun _ h => by simp at h⟩, rfl, rfl⟩
  · exact ⟨⟨hs.rx, hs.finished, hs.torn, hs.local_torn⟩, rfl, rfl⟩

end Stream

/-! ## the connection -/

namespace Conn

variable {cfg : Config} {c c' : Conn} {e : Event} {i : Nat} {s t : Stream}
  {d : Option Stream.Todo}

/-- A change keeps a stream in order. -/
theorem Change.sound (h : Change cfg c e i s t d) (hs : s.Sound) : t.Sound := by
  cases h with
  | same => exact hs
  | act he ha => exact (Stream.act_sound hs ha).1
  | handle he hr hh => exact (Stream.handle_sound hs hh).1
  | mark he hk ho => exact ⟨hs.rx, hs.finished, hs.torn, hs.local_torn⟩
  | enter he hk ho ht => exact (Stream.enter_sound hs ht).1
  | abortReturns he hk ho ht =>
      rcases Stream.enter_cases ht with ⟨-, hret, -⟩ | ⟨other, hf, -, rfl⟩
      · contradiction
      · exact ⟨hs.rx, hs.finished, fun _ => hs.finished other hf, fun _ _ _ => rfl⟩
  | toAborting he ho => exact ⟨hs.rx, hs.finished, hs.torn, hs.local_torn⟩
  | toWriting he ho => exact ⟨hs.rx, hs.finished, hs.torn, hs.local_torn⟩
  | opens he ho hc => exact ⟨hs.rx, hs.finished, hs.torn, hs.local_torn⟩
  | openFails he ho hc => exact ⟨hs.rx, hs.finished, hs.torn, hs.local_torn⟩
  | sweep he hc => exact ⟨hs.rx, hs.finished, hs.torn, hs.local_torn⟩
  | routed he hi => exact ⟨hs.rx, hs.finished, hs.torn, hs.local_torn⟩

/-- What holds of every stream holds after a step if changes keep it and new
streams have it. -/
theorem forall_streams {P : Stream → Prop} (h : c.step cfg e = some c')
    (hP : ∀ i s t d, c.streams[i]? = some s → P s → Change cfg c e i s t d → P t)
    (hnew : ∀ id protocol group now opening born,
      P (newStream cfg id protocol group now opening born))
    (hs : ∀ s ∈ c.streams, P s) : ∀ s ∈ c'.streams, P s := by
  intro t ht
  obtain ⟨i, hi⟩ := List.mem_iff_getElem?.mp ht
  rcases step_stream h hi with ⟨s, hsi, hch⟩ | ⟨-, _, _, _, _, _, _, rfl, -⟩
  · exact hP i s t _ hsi (hs s (List.mem_of_getElem? hsi)) hch
  · exact hnew ..

/-- A sum over the streams after one of them was replaced. -/
theorem sum_set (f : Stream → Int) {l : List Stream} (h : l[i]? = some s) :
    ((l.set i t).map f).sum - (l.map f).sum = f t - f s := by
  induction l generalizing i with
  | nil => simp at h
  | cons x l ih =>
      cases i with
      | zero =>
          obtain rfl := Option.some.inj h
          simp only [List.set_cons_zero, List.map_cons, List.sum_cons]
          omega
      | succ i =>
          have := ih (i := i) h
          simp only [List.set_cons_succ, List.map_cons, List.sum_cons]
          omega

/-- The counters of the connection are the sums over its streams, and inside
their limits. -/
structure BudgetOk (cfg : Config) (c : Conn) : Prop where
  sound : ∀ s ∈ c.streams, s.Sound
  rxBytes : c.budget.rxBytes = (c.streams.map (·.rxQueued)).sum
  rxFrames : c.budget.rxFrames = (c.streams.map (·.rxFrames)).sum
  limits : c.budget.rxBytes ≤ cfg.rxByteLimit ∧ c.budget.rxFrames ≤ cfg.rxFrameLimit

theorem newConn_budgetOk (cfg : Config) : BudgetOk cfg newConn :=
  ⟨by simp [newConn], rfl, rfl, cfg.rxByteLimit_nonneg, cfg.rxFrameLimit_nonneg⟩

/-- The receive side a stream starts with. -/
def emptyRx : Rx := ⟨[], 0, [], 0, 0, []⟩

/-- The steps of the read loop and of the goroutines of a stream are the only ones
that change a receive side. -/
theorem Change.toRx (h : Change cfg c e i s t d) (ha : ∀ k a, e ≠ .act k a)
    (hh : ∀ now, e ≠ .handle now) : t.toRx = s.toRx := by
  cases h with
  | act he => exact absurd he (ha _ _)
  | handle he => exact absurd he (hh _)
  | enter he hk ho ht =>
      rcases Stream.enter_cases ht with ⟨-, -, rfl⟩ | ⟨other, -, -, rfl⟩ <;> rfl
  | abortReturns he hk ho ht =>
      rcases Stream.enter_cases ht with ⟨-, -, rfl⟩ | ⟨other, -, -, rfl⟩ <;> rfl
  | _ => rfl

theorem map_toRx (h : c.step cfg e = some c') (ha : ∀ k a, e ≠ .act k a)
    (hh : ∀ now, e ≠ .handle now) (hlen : c'.streams.length = c.streams.length) :
    c'.streams.map (·.toRx) = c.streams.map (·.toRx) := by
  apply List.ext_getElem?
  intro i
  rw [List.getElem?_map, List.getElem?_map]
  cases ht : c'.streams[i]? with
  | none =>
      rw [List.getElem?_eq_none_iff] at ht
      rw [List.getElem?_eq_none (by omega)]
  | some t =>
      rcases step_stream h ht with ⟨s, hs, hch⟩ | hf
      · rw [hs, Option.map_some, Option.map_some, hch.toRx ha hh]
      · have hlt : i < c'.streams.length := (List.getElem?_eq_some_iff.mp ht).1
        have := hf.index
        omega

/-- What a step does to the receive sides: it makes a stream, or it replaces at
most one of them and moves the budget with it. -/
theorem step_rx (h : c.step cfg e = some c') (hs : ∀ s ∈ c.streams, s.Sound) :
    ((c'.streams.map (·.toRx) = c.streams.map (·.toRx) ∨
        c'.streams.map (·.toRx) = c.streams.map (·.toRx) ++ [emptyRx]) ∧
      c'.budget = c.budget) ∨
    ∃ i s t, c.streams[i]? = some s ∧ c'.streams = c.streams.set i t ∧
      Rx.Together s.toRx t.toRx c.budget c'.budget ∧
      (c.budget.rxBytes ≤ cfg.rxByteLimit ∧ c.budget.rxFrames ≤ cfg.rxFrameLimit →
        c'.budget.rxBytes ≤ cfg.rxByteLimit ∧ c'.budget.rxFrames ≤ cfg.rxFrameLimit) := by
  cases e with
  | openStream protocol group now victim =>
      simp only [step] at h
      split at h
      · split at h
        · rename_i c₁ hins
          obtain rfl := Option.some.inj h
          obtain ⟨-, -, table, rfl, -⟩ := insertStream_cases hins
          exact .inl ⟨.inr (by rw [List.map_append]; rfl), rfl⟩
        · obtain rfl := Option.some.inj h
          exact .inl ⟨.inl rfl, rfl⟩
      · contradiction
  | opening k =>
      have hkeep : c'.streams.length = c.streams.length ∧ c'.budget = c.budget := by
        simp only [step, openingStep] at h
        obtain ⟨o, -, h⟩ := Option.bind_eq_some_iff.mp h
        split at h
        · obtain ⟨w, -, rfl⟩ := Option.map_eq_some_iff.mp h
          simp [setStream]
        · obtain ⟨w, -, h⟩ := Option.bind_eq_some_iff.mp h
          obtain ⟨⟨w', returned⟩, -, rfl⟩ := Option.map_eq_some_iff.mp h
          cases returned <;> simp [setStream]
        · split at h
          · contradiction
          · obtain rfl := Option.some.inj h
            simp [setStream]
        · contradiction
        · contradiction
      exact .inl ⟨.inl (map_toRx h (by simp) (by simp) hkeep.1), hkeep.2⟩
  | openingFails k =>
      have hkeep : c'.streams.length = c.streams.length ∧ c'.budget = c.budget := by
        simp only [step] at h
        obtain ⟨o, -, h⟩ := Option.bind_eq_some_iff.mp h
        split at h
        · obtain rfl := Option.some.inj h
          simp [setStream, removeStream]
        · contradiction
      exact .inl ⟨.inl (map_toRx h (by simp) (by simp) hkeep.1), hkeep.2⟩
  | act k a =>
      simp only [step] at h
      obtain ⟨o, hk, h⟩ := Option.bind_eq_some_iff.mp h
      obtain ⟨eff, ha, rfl⟩ := Option.map_eq_some_iff.mp h
      obtain ⟨-, htog, hq, hf⟩ := Stream.act_sound (hs o (List.mem_of_getElem? hk)) ha
      refine .inr ⟨k, o, eff.stream, hk, apply_streams .., ?_⟩
      rw [apply_budget]
      refine ⟨htog, fun hlim => ?_⟩
      obtain ⟨h₁, h₂⟩ := htog
      exact ⟨by omega, by omega⟩
  | receive f now =>
      have hkeep : (c'.streams.length = c.streams.length ∨
          c'.streams.map (·.toRx) = c.streams.map (·.toRx) ++ [emptyRx]) ∧
          c'.budget = c.budget := by
        simp only [step] at h
        split at h
        · split at h
          · obtain rfl := Option.some.inj h
            exact ⟨.inl rfl, rfl⟩
          · obtain rfl := Option.some.inj h
            have hd := dispatch_cases cfg { c with input := c.input ++ [f] } now f
            generalize dispatch cfg { c with input := c.input ++ [f] } now f = d at hd
            cases hd with
            | opened hf hins =>
                obtain ⟨-, -, table, rfl, -⟩ := insertStream_cases hins
                exact ⟨.inr (by rw [List.map_append]; rfl), rfl⟩
            | routed hf hk ho => exact ⟨.inl (List.length_modify ..), rfl⟩
            | _ => exact ⟨.inl rfl, rfl⟩
        · contradiction
      refine .inl ⟨?_, hkeep.2⟩
      rcases hkeep.1 with hlen | hnew
      · exact .inl (map_toRx h (by simp) (by simp) hlen)
      · exact .inr hnew
  | receiveFails =>
      simp only [step] at h
      split at h
      · obtain rfl := Option.some.inj h
        exact .inl ⟨.inl rfl, rfl⟩
      · contradiction
  | handle now =>
      simp only [step] at h
      split at h
      · rename_i k todo hr
        obtain ⟨o, hk, h⟩ := Option.bind_eq_some_iff.mp h
        obtain ⟨⟨u, b, rest⟩, hh, rfl⟩ := Option.map_eq_some_iff.mp h
        obtain ⟨-, htog, hlim, -⟩ := Stream.handle_sound (hs o (List.mem_of_getElem? hk)) hh
        exact .inr ⟨k, o, u, hk, rfl, htog, hlim⟩
      · contradiction
  | close =>
      simp only [step] at h
      split at h
      · contradiction
      · obtain rfl := Option.some.inj h
        exact .inl ⟨.inl rfl, rfl⟩
  | closeStreams =>
      have hkeep : c'.streams.length = c.streams.length ∧ c'.budget = c.budget := by
        simp only [step] at h
        split at h
        · obtain rfl := Option.some.inj h
          simp [Conn.closeStreams]
        · contradiction
      exact .inl ⟨.inl (map_toRx h (by simp) (by simp) hkeep.1), hkeep.2⟩

/-- The sum of a counter over the streams is the sum over the receive sides. -/
theorem sum_toRx (f : Rx → Int) (l : List Stream) :
    (l.map fun s => f s.toRx).sum = ((l.map (·.toRx)).map f).sum := by
  rw [List.map_map]
  rfl

/-- One step keeps the budget. -/
theorem BudgetOk.step (h : BudgetOk cfg c) (hstep : c.step cfg e = some c') :
    BudgetOk cfg c' := by
  have hsound : ∀ s ∈ c'.streams, s.Sound :=
    forall_streams hstep (fun _ _ _ _ _ hs hch => hch.sound hs)
      (fun _ _ _ _ _ _ => Stream.newStream_sound ..) h.sound
  have hb := h.rxBytes
  have hf := h.rxFrames
  rw [sum_toRx (·.rxQueued)] at hb
  rw [sum_toRx (·.rxFrames)] at hf
  rcases step_rx hstep h.sound with ⟨hrx, hbudget⟩ | ⟨i, s, t, hs, hset, htog, hlim⟩
  · refine ⟨hsound, ?_, ?_, hbudget ▸ h.limits⟩
    · rw [sum_toRx (·.rxQueued), hbudget, hb]
      rcases hrx with hrx | hrx <;> simp [hrx, emptyRx]
    · rw [sum_toRx (·.rxFrames), hbudget, hf]
      rcases hrx with hrx | hrx <;> simp [hrx, emptyRx]
  · have h₁ := sum_set (t := t) (·.rxQueued) hs
    have h₂ := sum_set (t := t) (·.rxFrames) hs
    have hb := h.rxBytes
    have hf := h.rxFrames
    obtain ⟨h₃, h₄⟩ := htog
    refine ⟨hsound, ?_, ?_, hlim h.limits⟩
    · rw [hset]
      omega
    · rw [hset]
      omega

/-! ## streams that are gone -/

/-- The stream whose `abort` the event carries on. -/
def aborted (c : Conn) : Event → Option Nat
  | .handle _ => match c.reader with
      | .busy i .abort => some i
      | _ => none
  | .opening k => (c.streams[k]?).bind fun o => match o.opening with
      | .aborting i => some i
      | _ => none
  | _ => none

/-- No abort, that of an eviction included, comes to a stream that the peer has
closed while payload of it is queued. -/
def AbortsDrained (c : Conn) (e : Event) : Prop :=
  ∀ i ∈ c.aborted e, ∀ s ∈ c.streams[i]?, s.once = .finished .peer → s.rxFrames = 0

instance (c : Conn) (e : Event) : Decidable (AbortsDrained c e) :=
  inferInstanceAs (Decidable (∀ i ∈ c.aborted e, ∀ s ∈ c.streams[i]?,
    s.once = .finished .peer → s.rxFrames = 0))

/-- Streams closed, aborted, evicted or swept here hold nothing. -/
def Drained (c : Conn) : Prop :=
  ∀ s ∈ c.streams, s.torn = true → s.rxQueued = 0 ∧ s.rxFrames = 0

/-- A change keeps what is drained drained. -/
theorem Change.drained (h : Change cfg c e i s t d) (hi : c.streams[i]? = some s) (hs : s.Sound)
    (hcond : AbortsDrained c e) (hd : s.torn = true → s.rxFrames = 0) (ht : t.torn = true) :
    t.rxFrames = 0 := by
  have hpos := (h.sound hs).rx.frames_nonneg
  -- An abort that returns finds a stream closed here, or one the peer closed.
  have returns : ∀ {closer}, s.once = .finished closer → c.aborted e = some i →
      s.rxFrames = 0 := by
    intro closer hf hab
    by_cases hp : closer = .peer
    · exact hcond i hab s hi (hp ▸ hf)
    · exact hd (hs.local_torn closer hf hp)
  cases h with
  | same => exact hd ht
  | act he ha =>
      obtain ⟨-, -, -, hle⟩ := Stream.act_sound hs ha
      by_cases hst : s.torn = true
      · have := hd hst
        omega
      · rcases Stream.act_receive ha with hq | ⟨n, rfl, -, -, rfl⟩ | ⟨n, rfl, -, rfl⟩ |
          ⟨closer, rfl, -, rfl⟩ | ⟨rfl, -, rfl⟩
        · exact absurd (hq.torn ▸ ht) hst
        · exact absurd ((Stream.torn_of_stream (Stream.read_spec cfg _ n hs.rx).stream).symm ▸ ht)
            hst
        · exact absurd ((Stream.torn_of_stream
            (Stream.readDatagram_spec cfg _ n hs.rx).stream).symm ▸ ht) hst
        · obtain ⟨-, -, -, -, hdrop⟩ :=
            Stream.closeRead_spec c.budget (decide (closer ≠ .peer)) hs.rx
          by_cases hp : closer = .peer
          · simp [Stream.closedBy, hp, Stream.closeRead, hst] at ht
          · exact (hdrop (by simpa using hp)).2.2
        · exact ((Stream.closeRead_spec c.budget true hs.rx).2.2.2.2 rfl).2.2
  | handle he hr hh =>
      obtain ⟨-, -, -, hkeep⟩ := Stream.handle_sound hs hh
      by_cases hst : s.torn = true
      · rw [hkeep (hs.torn hst)]
        exact hd hst
      · rcases Stream.handle_receive hh with ⟨hq, htorn, -⟩ |
          ⟨payload, byteLimit, frameLimit, -, -, hq⟩ |
          ⟨-, -, rfl, -⟩
        · rcases htorn with htorn | ⟨-, rfl, -, closer, hf⟩
          · exact absurd (htorn ▸ ht) hst
          · rw [hkeep (hs.finished closer hf)]
            exact returns hf (by simp [aborted, he, reader_of_todo hr])
        · obtain ⟨-, -, -, -, -, -, -, heq⟩ := Stream.queuePayload_spec hs.rx hq
          rw [heq] at ht
          exact absurd ht hst
        · simp [Stream.closeRead, hst] at ht
  | mark he hk ho => exact hd ht
  | enter he hk ho hen =>
      obtain ⟨-, hrx, htorn⟩ := Stream.enter_sound hs hen
      rw [hrx]
      exact hd (htorn ▸ ht)
  | abortReturns he hk ho hen =>
      rcases Stream.enter_cases hen with ⟨-, hret, -⟩ | ⟨other, hf, -, rfl⟩
      · contradiction
      · exact returns hf (by simp [aborted, he, hk, ho])
  | toAborting he ho => exact hd ht
  | toWriting he ho => exact hd ht
  | opens he ho hc => exact hd ht
  | openFails he ho hc => exact hd ht
  | sweep he hc => exact hd ht
  | routed he hi => exact hd ht

/-- One step keeps the streams that are gone drained. -/
theorem Drained.step (hd : Drained c) (h : BudgetOk cfg c) (hcond : AbortsDrained c e)
    (hstep : c.step cfg e = some c') : Drained c' := by
  intro t ht htorn
  have hok := ((h.step hstep).sound t ht).rx
  have hf : t.rxFrames = 0 := by
    obtain ⟨i, hi⟩ := List.mem_iff_getElem?.mp ht
    rcases step_stream hstep hi with ⟨s, hs, hch⟩ | ⟨-, _, _, _, _, _, _, rfl, -⟩
    · have hmem := List.mem_of_getElem? hs
      exact hch.drained hs (h.sound s hmem) hcond (fun h => (hd s hmem h).2) htorn
    · rfl
  exact ⟨(hok.of_frames_eq hf.le).2.1, hf⟩

/-- **The receive budget.** In every state of every run the counters of the
connection are the sums over its streams and inside their limits; and if no abort
comes to a stream that the peer has closed while payload of it is queued, the
streams closed, aborted, evicted or swept here hold nothing. -/
theorem receive_budget (cfg : Config) (es : List Event) (c : Conn)
    (hrun : newConn.run cfg es = some c) :
    c.budget.rxBytes = (c.streams.map (·.rxQueued)).sum ∧
    c.budget.rxFrames = (c.streams.map (·.rxFrames)).sum ∧
    0 ≤ c.budget.rxBytes ∧ c.budget.rxBytes ≤ cfg.rxByteLimit ∧
    0 ≤ c.budget.rxFrames ∧ c.budget.rxFrames ≤ cfg.rxFrameLimit ∧
    (Conc.Meets (step cfg) AbortsDrained newConn es →
      ∀ s ∈ c.streams, s.torn = true → s.rxQueued = 0 ∧ s.rxFrames = 0) := by
  have h : BudgetOk cfg c := Conc.exec_invariant
    (fun _ _ _ h hstep => BudgetOk.step h hstep) (newConn_budgetOk cfg) hrun
  refine ⟨h.rxBytes, h.rxFrames, ?_, h.limits.1, ?_, h.limits.2, fun hmeets => ?_⟩
  · rw [h.rxBytes]
    exact List.sum_nonneg (by
      simp only [List.mem_map, forall_exists_index, and_imp, forall_apply_eq_imp_iff₂]
      exact fun s hs => (h.sound s hs).rx.queued_nonneg)
  · rw [h.rxFrames]
    exact List.sum_nonneg (by
      simp only [List.mem_map, forall_exists_index, and_imp, forall_apply_eq_imp_iff₂]
      exact fun s hs => (h.sound s hs).rx.frames_nonneg)
  · exact (hmeets.invariant (I := fun c => BudgetOk cfg c ∧ Drained c)
      (fun _ _ _ h hc hstep => ⟨h.1.step hstep, h.2.step h.1 hc hstep⟩)
      ⟨newConn_budgetOk cfg, by simp [Drained, newConn]⟩ hrun).2

/-- Stream 1 gets a byte and the peer's CLOSE; `reads` says whether the byte is
read before the stream is evicted for stream 2. -/
def evictionRun (reads : List Event) : List Event :=
  ([.openStream .tcp "a" 0 none, .opening 0, .receive (.stream 1 (.data [7])) 0, .handle 0,
    .receive (.stream 1 .close) 0, .handle 0, .handle 0, .act 0 .once, .act 0 .once, .act 0 .once,
    .act 0 .once, .handle 0] : List Event) ++ reads ++
    ([.openStream .tcp "b" 10 (some 0), .opening 1, .opening 1] : List Event)

/-- The byte was read: the evicted stream holds nothing. -/
theorem receive_budget_eviction :
    ∃ c, newConn.run (relayConfig 1 1) (evictionRun [.act 0 (.read 8)]) = some c ∧
      (∃ s ∈ c.streams, s.torn = true) ∧
      ∀ s ∈ c.streams, s.torn = true → s.rxQueued = 0 ∧ s.rxFrames = 0 := by
  obtain ⟨c, hc⟩ := Option.isSome_iff_exists.mp (show (newConn.run (relayConfig 1 1)
    (evictionRun [.act 0 (.read 8)])).isSome = true by decide +kernel)
  refine ⟨c, hc, ?_, (receive_budget _ _ c hc).2.2.2.2.2.2 (by decide +kernel)⟩
  have hany : ((newConn.run (relayConfig 1 1) (evictionRun [.act 0 (.read 8)])).map
      fun c => c.streams.any (·.torn)) = some true := by decide +kernel
  rw [hc, Option.map_some, Option.some.injEq, List.any_eq_true] at hany
  exact hany

/-- The byte was not read: the evicted stream keeps it, and the budget with it. -/
theorem evicted_stream_keeps_queue :
    ∃ c, newConn.run (relayConfig 1 1) (evictionRun []) = some c ∧
      ∃ s ∈ c.streams, s.evicted = true ∧ s.torn = true ∧ s.rxQueued = 1 ∧ s.rxFrames = 1 := by
  have hany : ((newConn.run (relayConfig 1 1) (evictionRun [])).map fun c =>
      c.streams.any fun s => decide (s.evicted = true ∧ s.torn = true ∧ s.rxQueued = 1 ∧
        s.rxFrames = 1)) = some true := by decide +kernel
  obtain ⟨c, hc, hs⟩ := Option.map_eq_some_iff.mp hany
  obtain ⟨s, hmem, hs⟩ := List.any_eq_true.mp hs
  exact ⟨c, hc, s, hmem, of_decide_eq_true hs⟩

end Conn

end Tunnel
