import Blindport.Tunnel.Budget

/-!
# Blindport.Tunnel.Reserve

The part of the receive budget that is kept for small streams.  `reserveReceive`
looks at one payload and one stream, before and after; the invariant `Reserved`
bounds what all bulk streams hold together, whatever streams grow over a threshold
or drain below it.
-/

namespace Tunnel

/-! ## bulk and small streams -/

/-- What the streams that hold more than `threshold` hold together. -/
def bulk (held : Stream → Int) (threshold : Int) (streams : List Stream) : Int :=
  (streams.map fun s => if held s > threshold then held s else 0).sum

/-- What the streams that hold at most `threshold` hold together. -/
def small (held : Stream → Int) (threshold : Int) (streams : List Stream) : Int :=
  ((streams.filter fun s => held s ≤ threshold).map held).sum

section Sums

variable {held : Stream → Int} {threshold : Int} {streams : List Stream} {i : Nat} {s t : Stream}

theorem small_add_bulk (held : Stream → Int) (threshold : Int) (streams : List Stream) :
    small held threshold streams + bulk held threshold streams = (streams.map held).sum := by
  unfold small bulk
  induction streams with
  | nil => rfl
  | cons s streams ih =>
      rw [List.map_cons, List.sum_cons, List.map_cons, List.sum_cons, ← ih]
      by_cases hs : held s ≤ threshold
      · rw [List.filter_cons_of_pos (by simpa using hs), List.map_cons, List.sum_cons,
          if_neg (by omega)]
        omega
      · rw [List.filter_cons_of_neg (by simpa using hs), if_pos (by omega)]
        omega

/-- A small stream is part of what the small streams hold. -/
theorem le_small (threshold : Int) (hpos : ∀ s ∈ streams, 0 ≤ held s) (hs : s ∈ streams)
    (hle : held s ≤ threshold) : held s ≤ small held threshold streams := by
  unfold small
  have hmem : s ∈ streams.filter fun s => held s ≤ threshold :=
    List.mem_filter.mpr ⟨hs, by simpa using hle⟩
  refine List.single_le_sum ?_ _ (List.mem_map_of_mem hmem)
  intro x hx
  obtain ⟨u, hu, rfl⟩ := List.mem_map.mp hx
  exact hpos u (List.mem_of_mem_filter hu)

theorem small_nonneg (threshold : Int) (hpos : ∀ s ∈ streams, 0 ≤ held s) :
    0 ≤ small held threshold streams := by
  unfold small
  refine List.sum_nonneg ?_
  intro x hx
  obtain ⟨u, hu, rfl⟩ := List.mem_map.mp hx
  exact hpos u (List.mem_of_mem_filter hu)

/-- The bulk streams hold less when a stream drains, also when it is one of them
no more. -/
theorem bulk_shrinks (hs : streams[i]? = some s) (hpos : 0 ≤ held s) (hle : held t ≤ held s) :
    bulk held threshold (streams.set i t) ≤ bulk held threshold streams := by
  have hset := Conn.sum_set (t := t) (fun s => if held s > threshold then held s else 0) hs
  have hless : (if held t > threshold then held t else 0) ≤
      if held s > threshold then held s else 0 := by
    split <;> split <;> omega
  simp only [bulk]
  omega

/-- The bulk streams stay under a bound when a stream takes in `size` more, if
together with everything held this is under the bound once the stream is bulk. -/
theorem bulk_grows {size bound : Int} (hs : streams[i]? = some s)
    (hpos : ∀ s ∈ streams, 0 ≤ held s) (ht : held t = held s + size)
    (hbound : bulk held threshold streams ≤ bound)
    (hadmitted : held t > threshold → (streams.map held).sum + size ≤ bound) :
    bulk held threshold (streams.set i t) ≤ bound := by
  have hmem := List.mem_of_getElem? hs
  have hset := Conn.sum_set (t := t) (fun s => if held s > threshold then held s else 0) hs
  have hsum := small_add_bulk held threshold streams
  have hsmall := small_nonneg threshold hpos
  have hin := fun hle => le_small threshold hpos hmem hle
  simp only [bulk] at hsum hbound hset ⊢
  have hs₀ := hpos s hmem
  by_cases hbulk : held t > threshold
  · have hroom := hadmitted hbulk
    by_cases hwas : held s > threshold
    · rw [if_pos hbulk, if_pos hwas] at hset
      omega
    · have hs := hin (by omega)
      rw [if_pos hbulk, if_neg hwas] at hset
      omega
  · rw [if_neg hbulk] at hset
    split at hset <;> omega

end Sums

/-! ## admission -/

section Admission

variable {cfg : Config} {b b' : Budget} {size streamBytes streamFrames : Int}

/-- The bytes that bulk streams may fill. -/
def bulkByteLimit (cfg : Config) : Int :=
  cfg.rxByteLimit - min connReceiveControlReserve cfg.rxByteLimit

/-- The frames that bulk streams may fill. -/
def bulkFrameLimit (cfg : Config) : Int :=
  cfg.rxFrameLimit - min connReceiveFrameReserve cfg.rxFrameLimit

/-- What `reserveReceive` admits for a stream that is bulk afterwards leaves the
reserve free. -/
theorem reserveReceive_bulk
    (h : b.reserveReceive cfg size streamBytes streamFrames = some b') :
    (streamBytes > controlStreamByteThreshold → b.rxBytes + size ≤ bulkByteLimit cfg) ∧
      (streamFrames > controlStreamFrameThreshold → b.rxFrames + 1 ≤ bulkFrameLimit cfg) := by
  unfold Budget.reserveReceive at h
  unfold bulkByteLimit bulkFrameLimit
  grind

/-- Why `reserveReceive` refuses a payload of a stream that stays small. -/
theorem reserveReceive_refuses (h : b.reserveReceive cfg size streamBytes streamFrames = none)
    (hbytes : streamBytes ≤ controlStreamByteThreshold)
    (hframes : streamFrames ≤ controlStreamFrameThreshold) :
    b.rxBytes + size > cfg.rxByteLimit ∨ b.rxFrames ≥ cfg.rxFrameLimit := by
  unfold Budget.reserveReceive at h
  grind

end Admission

/-! ## the invariant -/

namespace Conn

variable {cfg : Config} {c c' : Conn} {e : Event} {i : Nat} {s t : Stream}
  {d : Option Stream.Todo}

/-- What the small streams have queued. -/
def smallBytes (c : Conn) : Int := small (·.rxQueued) controlStreamByteThreshold c.streams

/-- How many frames the small streams have queued. -/
def smallFrames (c : Conn) : Int := small (·.rxFrames) controlStreamFrameThreshold c.streams

/-- The bulk streams leave the reserve to the small ones. -/
structure Reserved (cfg : Config) (c : Conn) : Prop where
  bytes : bulk (·.rxQueued) controlStreamByteThreshold c.streams ≤ bulkByteLimit cfg
  frames : bulk (·.rxFrames) controlStreamFrameThreshold c.streams ≤ bulkFrameLimit cfg

theorem bulkLimits_nonneg (cfg : Config) : 0 ≤ bulkByteLimit cfg ∧ 0 ≤ bulkFrameLimit cfg := by
  have hbytes := cfg.rxByteLimit_nonneg
  have hframes := cfg.rxFrameLimit_nonneg
  unfold bulkByteLimit bulkFrameLimit
  omega

theorem newConn_reserved (cfg : Config) : Reserved cfg newConn :=
  ⟨(bulkLimits_nonneg cfg).1, (bulkLimits_nonneg cfg).2⟩

/-- A change drains a stream or admits one payload. -/
theorem Change.admits (h : Change cfg c e i s t d) (hs : s.Sound) :
    (t.rxQueued ≤ s.rxQueued ∧ t.rxFrames ≤ s.rxFrames) ∨
      ∃ size b', 0 ≤ size ∧ t.rxQueued = s.rxQueued + size ∧ t.rxFrames = s.rxFrames + 1 ∧
        c.budget.reserveReceive cfg size t.rxQueued t.rxFrames = some b' := by
  have keeps : t.toRx = s.toRx → t.rxQueued ≤ s.rxQueued ∧ t.rxFrames ≤ s.rxFrames := by
    intro hrx
    rw [hrx]
    exact ⟨le_refl _, le_refl _⟩
  cases h with
  | act he ha =>
      obtain ⟨-, -, hbytes, hframes⟩ := Stream.act_sound hs ha
      exact .inl ⟨hbytes, hframes⟩
  | handle he hr hh =>
      rcases Stream.handle_receive hh with ⟨hq, -⟩ | ⟨payload, byteLimit, frameLimit, -, -, hq⟩ |
        ⟨-, -, rfl, -⟩
      · exact .inl (keeps hq.toRx)
      · right
        unfold Stream.queuePayload at hq
        split at hq
        · contradiction
        · obtain ⟨b', hres, heq⟩ := Option.map_eq_some_iff.mp hq
          rw [Prod.mk.injEq] at heq
          obtain ⟨rfl, -⟩ := heq
          exact ⟨payload.length, b', by omega, rfl, rfl, hres⟩
      · exact .inl (Stream.closeRead_le hs.rx false)
  | enter he hk ho ht =>
      rcases Stream.enter_cases ht with ⟨-, -, rfl⟩ | ⟨other, -, -, rfl⟩ <;> exact .inl (keeps rfl)
  | abortReturns he hk ho ht =>
      rcases Stream.enter_cases ht with ⟨-, -, rfl⟩ | ⟨other, -, -, rfl⟩ <;> exact .inl (keeps rfl)
  | _ => exact .inl (keeps rfl)

/-- The sums over bulk streams only see the receive sides. -/
theorem bulk_toRx (f : Rx → Int) (threshold : Int) (l : List Stream) :
    bulk (fun s => f s.toRx) threshold l =
      ((l.map (·.toRx)).map fun rx => if f rx > threshold then f rx else 0).sum := by
  rw [bulk, List.map_map]
  rfl

/-- A new stream holds nothing. -/
theorem bulk_of_toRx (f : Rx → Int) (threshold : Int) {l l' : List Stream} (hf : f emptyRx = 0)
    (h : l'.map (·.toRx) = l.map (·.toRx) ∨ l'.map (·.toRx) = l.map (·.toRx) ++ [emptyRx]) :
    bulk (fun s => f s.toRx) threshold l' = bulk (fun s => f s.toRx) threshold l := by
  rw [bulk_toRx, bulk_toRx]
  cases h with
  | inl h => rw [h]
  | inr h =>
      rw [h, List.map_append, List.sum_append]
      simp [hf]

/-- One step keeps the reserve. -/
theorem Reserved.step (hres : Reserved cfg c) (h : BudgetOk cfg c)
    (hstep : c.step cfg e = some c') : Reserved cfg c' := by
  rcases step_rx hstep h.sound with ⟨hrx, -⟩ | ⟨i, s, t, hs, hset, -, -⟩
  · have hbytes := bulk_of_toRx (·.rxQueued) controlStreamByteThreshold rfl hrx
    have hframes := bulk_of_toRx (·.rxFrames) controlStreamFrameThreshold rfl hrx
    exact ⟨hbytes.le.trans hres.bytes, hframes.le.trans hres.frames⟩
  · have hlt : i < c.streams.length := (List.getElem?_eq_some_iff.mp hs).1
    have ht : c'.streams[i]? = some t := by
      rw [hset, List.getElem?_set_self hlt]
    have hmem := List.mem_of_getElem? hs
    have hbytes : ∀ s ∈ c.streams, 0 ≤ s.rxQueued := fun s hs => (h.sound s hs).rx.queued_nonneg
    have hframes : ∀ s ∈ c.streams, 0 ≤ s.rxFrames := fun s hs => (h.sound s hs).rx.frames_nonneg
    have hadmits : (t.rxQueued ≤ s.rxQueued ∧ t.rxFrames ≤ s.rxFrames) ∨
        ∃ size b', 0 ≤ size ∧ t.rxQueued = s.rxQueued + size ∧ t.rxFrames = s.rxFrames + 1 ∧
          c.budget.reserveReceive cfg size t.rxQueued t.rxFrames = some b' := by
      rcases step_stream hstep ht with ⟨s', hs', hch⟩ | hfresh
      · rw [hs] at hs'
        obtain rfl := Option.some.inj hs'
        exact hch.admits (h.sound s hmem)
      · have hindex := hfresh.index
        omega
    rcases hadmits with ⟨hq, hf⟩ | ⟨size, b', -, hq, hf, hadmitted⟩
    · constructor
      · rw [hset]
        exact (bulk_shrinks hs (hbytes s hmem) hq).trans hres.bytes
      · rw [hset]
        exact (bulk_shrinks hs (hframes s hmem) hf).trans hres.frames
    · obtain ⟨hroom, hslots⟩ := reserveReceive_bulk hadmitted
      rw [h.rxBytes] at hroom
      rw [h.rxFrames] at hslots
      constructor
      · rw [hset]
        exact bulk_grows hs hbytes hq hres.bytes hroom
      · rw [hset]
        exact bulk_grows hs hframes hf hres.frames hslots

/-- **The control reserve.**  In every state of every run the bulk streams leave the
last 4 MiB and 256 frames of the budget to the streams that hold little, and a payload
with which its stream still holds little is refused only where the little streams have
filled this reserve themselves. -/
theorem control_reserve (cfg : Config) (es : List Event) (c : Conn)
    (hrun : newConn.run cfg es = some c) :
    c.budget.rxBytes ≤ bulkByteLimit cfg + c.smallBytes ∧
    c.budget.rxFrames ≤ bulkFrameLimit cfg + c.smallFrames ∧
    (connReceiveControlReserve ≤ cfg.rxByteLimit →
      c.budget.rxBytes ≤ cfg.rxByteLimit - connReceiveControlReserve + c.smallBytes) ∧
    (connReceiveFrameReserve ≤ cfg.rxFrameLimit →
      c.budget.rxFrames ≤ cfg.rxFrameLimit - connReceiveFrameReserve + c.smallFrames) ∧
    ∀ size streamBytes streamFrames : Int, streamBytes ≤ controlStreamByteThreshold →
      streamFrames ≤ controlStreamFrameThreshold →
      c.budget.reserveReceive cfg size streamBytes streamFrames = none →
      min connReceiveControlReserve cfg.rxByteLimit < c.smallBytes + size ∨
        min connReceiveFrameReserve cfg.rxFrameLimit ≤ c.smallFrames := by
  obtain ⟨h, hres⟩ : BudgetOk cfg c ∧ Reserved cfg c := Conc.exec_invariant
    (I := fun c => BudgetOk cfg c ∧ Reserved cfg c)
    (fun _ _ _ h hstep => ⟨h.1.step hstep, h.2.step h.1 hstep⟩)
    ⟨newConn_budgetOk cfg, newConn_reserved cfg⟩ hrun
  have hbytes := small_add_bulk (·.rxQueued) controlStreamByteThreshold c.streams
  have hframes := small_add_bulk (·.rxFrames) controlStreamFrameThreshold c.streams
  rw [← h.rxBytes] at hbytes
  rw [← h.rxFrames] at hframes
  have hbulkBytes := hres.bytes
  have hbulkFrames := hres.frames
  unfold bulkByteLimit at *
  unfold bulkFrameLimit at *
  unfold smallBytes smallFrames
  refine ⟨by omega, by omega, fun hle => by omega, fun hle => by omega, ?_⟩
  intro size streamBytes streamFrames hb hf hnone
  rcases reserveReceive_refuses hnone hb hf with hfull | hfull
  · left
    omega
  · right
    omega

/-- A stream with nine one-byte frames, which is bulk, beside one with a single byte. -/
def bulkBesideSmall : List Event :=
  [.openStream .tcp "a" 0 none, .opening 0, .openStream .tcp "b" 0 none, .opening 1] ++
  (List.replicate 9 [.receive (.stream 1 (.data [7])) 0, .handle 0]).flatten ++
  [.receive (.stream 2 (.data [7])) 0, .handle 0]

theorem control_reserve_beside :
    ∃ c, newConn.run (relayConfig 2 1) bulkBesideSmall = some c ∧ c.budget.rxFrames = 10 ∧
      c.smallFrames = 1 ∧
      c.budget.rxFrames ≤ bulkFrameLimit (relayConfig 2 1) + c.smallFrames := by
  have hrun : (newConn.run (relayConfig 2 1) bulkBesideSmall).map
      (fun c => (c.budget.rxFrames, c.smallFrames)) = some (10, 1) := by
    decide +kernel
  obtain ⟨c, hc, hframes⟩ := Option.map_eq_some_iff.mp hrun
  obtain ⟨hall, hsmall⟩ := Prod.mk.inj hframes
  exact ⟨c, hc, hall, hsmall, (control_reserve _ _ c hc).2.1⟩

end Conn

end Tunnel
