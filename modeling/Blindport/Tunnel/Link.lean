import Blindport.Tunnel.Order

/-!
# Blindport.Tunnel.Link

A relay and an agent with one tunnel between them: two connections, each of which
reads the frames the other has written, in order.

The relay frees the slot of a stream when it closes or evicts it; the agent keeps
the stream in its table until its handler returns.  What bounds the agent's table is
not the relay's limit but what the relay has opened and the agent has not let go.
-/

namespace Tunnel

/-- The relay's and the agent's end of a tunnel. -/
structure Link where
  relay : Conn
  agent : Conn

namespace Link

/-- What can happen next. -/
inductive Event where
  | relay (e : Conn.Event)
  | agent (e : Conn.Event)
deriving DecidableEq

/-- `c` reads the frames `peer` has written, one after the other. -/
def arrives (peer c : Conn) : Conn.Event → Bool
  | .receive frame _ => peer.output[c.input.length]? = some frame
  | _ => true

/-- The event is an `OpenStream` call. -/
def opensStream : Conn.Event → Bool
  | .openStream .. => true
  | _ => false

/-- One step, whatever the two ends are made with; the agent opens no streams. -/
def stepOf (relay agent : Config) (l : Link) : Event → Option Link
  | .relay e =>
      if arrives l.agent l.relay e then
        (l.relay.step relay e).map fun c => { l with relay := c }
      else none
  | .agent e =>
      if arrives l.relay l.agent e ∧ opensStream e = false then
        (l.agent.step agent e).map fun c => { l with agent := c }
      else none

/-- One step of a tunnel with both extensions. -/
def step (maxStreams : Nat) (minIdle : Int) : Link → Event → Option Link :=
  stepOf (relayConfig maxStreams minIdle) agentConfig

/-- A run of events, in any order. -/
def run (maxStreams : Nat) (minIdle : Int) (l : Link) (es : List Event) : Option Link :=
  Conc.exec (step maxStreams minIdle) l es

/-- A tunnel without streams. -/
def init : Link := ⟨newConn, newConn⟩

end Link

/-! ## streams the agent holds or will hold -/

/-- The OPEN of the stream is not written yet. -/
def Opening.pending : Opening → Bool
  | .evicting _ | .aborting _ | .writing => true
  | .opened | .failed => false

def Frame.isOpen : Frame → Bool
  | .stream _ (.opening _) => true
  | _ => false

/-- The streams whose OPEN the connection has yet to write. -/
def Conn.unopened (c : Conn) : Nat := c.streams.countP (·.opening.pending)

namespace Link

/-- The OPEN frames on the way to the agent. -/
def opensInFlight (l : Link) : Nat :=
  (l.relay.output.drop l.agent.input.length).countP Frame.isOpen

/-- What the agent has in its table, or will get. -/
def outstanding (l : Link) : Nat := l.relay.unopened + l.opensInFlight + l.agent.table.length

/-- When the relay opens a stream, the agent has room for it and for all it has yet
to receive. -/
def RoomLeft (l : Link) : Event → Prop
  | .relay e => opensStream e = true → l.outstanding < maxConcurrentStreams
  | .agent _ => True

instance (l : Link) (e : Event) : Decidable (RoomLeft l e) :=
  match e with
  | .relay e => inferInstanceAs (Decidable (opensStream e = true → _))
  | .agent _ => isTrue trivial

end Link

namespace Conn

variable {cfg : Config} {c c' : Conn} {e : Event}

/-! ## the relay -/

theorem countP_set_add {l : List Stream} {k : Nat} {o t : Stream} (p : Stream → Bool)
    (hk : l[k]? = some o) : (l.set k t).countP p + (if p o then 1 else 0) =
      l.countP p + if p t then 1 else 0 := by
  obtain ⟨hlt, rfl⟩ := List.getElem?_eq_some_iff.mp hk
  have hle := List.boole_getElem_le_countP (p := p) hlt
  rw [List.countP_set hlt]
  omega

theorem countP_eq {l m : List Stream} {p : Stream → Bool}
    (h : ∀ i : Nat, (m[i]?).map p = (l[i]?).map p) : m.countP p = l.countP p := by
  have hmap : m.map p = l.map p := List.ext_getElem? fun i => by simpa using h i
  have hcount : ∀ n : List Stream, n.countP p = (n.map p).countP id := by simp
  rw [hcount, hcount, hmap]

/-- Only `OpenStream` writes OPEN frames. -/
theorem act_frame {closed : Bool} {b : Budget} {s : Stream} {a : Stream.Act}
    {eff : Stream.Effect} (h : s.act cfg closed b a = some eff) (id : Nat) :
    ((eff.frame.map (Frame.stream id)).toList).countP Frame.isOpen = 0 := by
  cases a
  all_goals
    simp only [Stream.act, Stream.closeStep, Stream.onceStep] at h
    repeat' split at h
  all_goals first
    | contradiction
    | (obtain rfl := Option.some.inj h
       rfl)
    | (obtain ⟨⟨t, r⟩, -, rfl⟩ := Option.map_eq_some_iff.mp h
       first | rfl | (cases r <;> rfl))

theorem unopened_setStream {k : Nat} {o t : Stream} (hk : c.streams[k]? = some o)
    (ho : t.opening.pending = o.opening.pending) : (c.setStream k t).unopened = c.unopened := by
  have h := countP_set_add (t := t) (·.opening.pending) hk
  simp only [ho] at h
  exact Nat.add_right_cancel h

/-- An `OpenStream` call is over. -/
theorem unopened_over {k : Nat} {o t : Stream} (hk : c.streams[k]? = some o)
    (ho : o.opening.pending = true) (ht : t.opening.pending = false) :
    (c.setStream k t).unopened + 1 = c.unopened := by
  have h := countP_set_add (t := t) (·.opening.pending) hk
  simp only [ho, ht, if_true, Bool.false_eq_true, if_false] at h
  exact h

/-- An eviction changes its victim, and how far its own call is. -/
theorem unopened_evicting {k v : Nat} {o w w' : Stream} {p : Opening}
    (hk : c.streams[k]? = some o) (hv : c.streams[v]? = some w) (hw : w'.opening = w.opening)
    (ho : o.opening.pending = true) (hp : p.pending = true) :
    ((c.setStream v w').setStream k { o with opening := p }).unopened = c.unopened := by
  have hvictim : (c.setStream v w').unopened = c.unopened :=
    unopened_setStream hv (by rw [hw])
  obtain ⟨o', hk', ho'⟩ : ∃ o' : Stream, (c.setStream v w').streams[k]? = some o' ∧
      o'.opening.pending = true := by
    by_cases hvk : v = k
    · subst hvk
      obtain rfl := Option.some.inj (hk.symm.trans hv)
      exact ⟨w', List.getElem?_set_self (List.getElem?_eq_some_iff.mp hk).1, by rw [hw, ho]⟩
    · exact ⟨o, (List.getElem?_set_ne hvk).trans hk, ho⟩
  rw [unopened_setStream hk' (by rw [ho', hp]), hvictim]

/-- The frames a step writes, and the OPENs that are left. -/
theorem step_opens (h : c.step cfg e = some c') (hs : ∀ s ∈ c.streams, s.Sound) :
    ∃ new, c'.output = c.output ++ new ∧
      c'.unopened + new.countP Frame.isOpen ≤
        c.unopened + if Link.opensStream e then 1 else 0 := by
  have quiet : c'.output = c.output → c'.unopened ≤ c.unopened → ∃ new,
      c'.output = c.output ++ new ∧ c'.unopened + new.countP Frame.isOpen ≤
        c.unopened + if Link.opensStream e then 1 else 0 :=
    fun ho hu => ⟨[], by simpa using ho, Nat.le_trans hu (Nat.le_add_right _ _)⟩
  cases step_cases h with
  | inserted hv hins =>
      obtain ⟨-, -, table, rfl, -⟩ := insertStream_cases hins
      refine ⟨[], by simp, ?_⟩
      simp only [unopened, List.countP_append, List.countP_cons, List.countP_nil,
        Link.opensStream, if_true]
      split <;> omega
  | refused => exact quiet rfl (le_refl _)
  | marks hk ho hv =>
      refine quiet rfl (le_of_eq (unopened_evicting hk hv ?_ ?_ ?_))
      · rfl
      · simp [ho, Opening.pending]
      · rfl
  | enters hk ho hv hw =>
      have hopen := (Stream.enter_closes (by decide) hw).1.opening
      exact quiet rfl (unopened_setStream hv (by rw [hopen])).le
  | abortReturns hk ho hv hw =>
      have hopen := (Stream.enter_closes (by decide) hw).1.opening
      refine quiet rfl (le_of_eq (unopened_evicting hk hv ?_ ?_ ?_))
      · exact hopen
      · simp [ho, Opening.pending]
      · rfl
  | opens hk ho hc =>
      rename_i k o
      have hover : (c.setStream k (({ o with opening := .opened }).emit
          (.opening (some o.protocol)))).unopened + 1 = c.unopened :=
        unopened_over hk (by simp [ho, Opening.pending]) rfl
      refine ⟨_, rfl, ?_⟩
      show (c.setStream k _).unopened + 1 ≤ _
      rw [hover]
      exact Nat.le_add_right _ _
  | openFails hk ho hc =>
      rename_i k o
      have hover : (c.setStream k { o with opening := .failed }).unopened + 1 = c.unopened :=
        unopened_over hk (by simp [ho, Opening.pending]) rfl
      exact quiet rfl (Nat.le_of_succ_le hover.le)
  | act hk ha =>
      rename_i k a o eff
      have hopen := (Stream.act_closes (hs o (List.mem_of_getElem? hk)).rx ha).opening
      have hu : (c.apply k eff).unopened = c.unopened := by
        rw [unopened, apply_streams]
        exact unopened_setStream hk (by rw [hopen])
      refine ⟨(eff.frame.map (Frame.stream eff.stream.id)).toList, ?_, ?_⟩
      · unfold apply
        split <;> rfl
      · rw [hu, act_frame ha]
        exact Nat.le_add_right _ _
  | tooLarge hr => exact quiet rfl (le_refl _)
  | received hr =>
      rename_i f now
      have hd := dispatch_cases cfg { c with input := c.input ++ [f] } now f
      generalize ({ c with input := c.input ++ [f] }).dispatch cfg now f = c₁ at *
      cases hd with
      | stop reason => exact quiet rfl (le_refl _)
      | ignore _ => exact quiet rfl (le_refl _)
      | pong _ => exact ⟨[.pong], rfl, by simp [Frame.isOpen, unopened]⟩
      | opened hf hins =>
          obtain ⟨-, -, table, rfl, -⟩ := insertStream_cases hins
          refine quiet rfl ?_
          simp [unopened, newStream, Opening.pending]
      | routed hf hk ho =>
          rename_i id k signal
          refine quiet rfl (countP_eq fun i => ?_).le
          rw [List.getElem?_modify]
          cases c.streams[i]? with
          | none => rfl
          | some s =>
              simp only [Option.map_some]
              split <;> rfl
  | receiveFails hr => exact quiet rfl (le_refl _)
  | handle hr hk hh =>
      have hopen := (Stream.handle_closes hh).opening
      exact quiet rfl (unopened_setStream hk (by rw [hopen])).le
  | close hc => exact quiet rfl (le_refl _)
  | closeStreams hc =>
      refine quiet rfl (countP_eq fun i => ?_).le
      simp only [closeStreams, List.getElem?_mapIdx]
      cases c.streams[i]? with
      | none => rfl
      | some s =>
          simp only [Option.map_some]
          split <;> rfl

/-! ## the agent -/

theorem insertStream_streamLimit {s : Stream} {evict : Bool} {victim : Option Nat}
    (h : c.insertStream cfg s evict victim = .error .streamLimit) :
    cfg.maxStreams ≤ c.table.length := by
  unfold insertStream at h
  split at h
  · simp at h
  · split at h
    · simp at h
    · split at h
      · assumption
      · contradiction

/-- `Run` ends with the stream-limit error for an OPEN that finds the table full. -/
theorem dispatch_streamLimit {now : Int} {f : Frame} (hr : c.reader = .idle)
    (h : (c.dispatch cfg now f).reader = .stopped .streamLimit) :
    f.isOpen = true ∧ cfg.maxStreams ≤ c.table.length := by
  have routed : ∀ id signal, (c.route id signal).reader ≠ .stopped .streamLimit := by
    intro id signal
    unfold route
    split <;> simp [hr]
  unfold dispatch at h
  split at h
  · refine ⟨rfl, ?_⟩
    split at h
    · simp [stop] at h
    · split at h
      · simp [stop] at h
      · split at h
        · rename_i hins
          obtain ⟨-, -, table, rfl, -⟩ := insertStream_cases hins
          simp [hr] at h
        · rename_i hins
          simp only [stop, Reader.stopped.injEq] at h
          subst h
          exact insertStream_streamLimit hins
  · exact absurd h (routed _ _)
  · exact absurd h (routed _ _)
  · split at h
    · simp [stop] at h
    · exact absurd h (routed _ _)
  · split at h
    · simp [stop] at h
    · split at h
      · simp [stop] at h
      · split at h
        · split at h
          · simp [stop] at h
          · exact absurd h (routed _ _)
        · simp [hr] at h
  · split at h
    · simp [stop] at h
    · split at h
      · simp [stop] at h
      · exact absurd h (routed _ _)
  · simp [hr] at h
  · simp [hr] at h
  · simp [stop] at h

/-- What a step other than an `OpenStream` reads and accepts. -/
theorem step_accepts (h : c.step cfg e = some c') (hopen : Link.opensStream e = false) :
    ∃ read, c'.input = c.input ++ read ∧
      (read = [] ∨ ∃ f now, e = .receive f now ∧ read = [f]) ∧
      c'.table.length ≤ c.table.length + read.countP Frame.isOpen ∧
      (c.reader ≠ .stopped .streamLimit → c'.reader = .stopped .streamLimit →
        1 ≤ read.countP Frame.isOpen ∧ cfg.maxStreams ≤ c.table.length) := by
  have quiet : c'.input = c.input → c'.table.Sublist c.table →
      (c'.reader = c.reader ∨ c'.reader ≠ .stopped .streamLimit) →
      ∃ read, c'.input = c.input ++ read ∧
        (read = [] ∨ ∃ f now, e = .receive f now ∧ read = [f]) ∧
        c'.table.length ≤ c.table.length + read.countP Frame.isOpen ∧
        (c.reader ≠ .stopped .streamLimit → c'.reader = .stopped .streamLimit →
          1 ≤ read.countP Frame.isOpen ∧ cfg.maxStreams ≤ c.table.length) := by
    intro hin hsub hreader
    refine ⟨[], by simpa using hin, .inl rfl, hsub.length_le, fun hne hstop => ?_⟩
    rcases hreader with heq | hne'
    · exact absurd (heq ▸ hstop) hne
    · exact absurd hstop hne'
  have hsub := List.Sublist.refl c.table
  cases step_cases h with
  | inserted hv hins => simp [Link.opensStream] at hopen
  | refused => simp [Link.opensStream] at hopen
  | openFails hk ho hc => exact quiet rfl List.filter_sublist (.inl rfl)
  | act hk ha =>
      obtain ⟨hin, hreader, -, htable⟩ := apply_conn c _ _
      exact quiet hin htable (.inl hreader)
  | tooLarge hr => exact quiet rfl hsub (.inr (by simp [stop]))
  | received hr =>
      rename_i f now
      have hlimit : (({ c with input := c.input ++ [f] }).dispatch cfg now f).reader =
          .stopped .streamLimit → f.isOpen = true ∧ cfg.maxStreams ≤ c.table.length :=
        dispatch_streamLimit (c := { c with input := c.input ++ [f] }) hr
      have hd := dispatch_cases cfg { c with input := c.input ++ [f] } now f
      generalize ({ c with input := c.input ++ [f] }).dispatch cfg now f = c₁ at *
      refine ⟨[f], ?_, .inr ⟨f, now, rfl, rfl⟩, ?_, fun _ hstop => ?_⟩
      · cases hd with
        | opened hf hins =>
            obtain ⟨-, -, table, rfl, -⟩ := insertStream_cases hins
            rfl
        | _ => rfl
      · cases hd with
        | opened hf hins =>
            obtain ⟨-, -, table, rfl, ⟨-, rfl⟩ | ⟨v, w, hev, -⟩⟩ := insertStream_cases hins
            · simp [hf, Frame.isOpen]
            · contradiction
        | _ => exact Nat.le_add_right _ _
      · obtain ⟨hf, hfull⟩ := hlimit hstop
        exact ⟨by simp [hf], hfull⟩
  | receiveFails hr => exact quiet rfl hsub (.inr (by simp [stop]))
  | handle hr hk hh =>
      refine quiet rfl hsub (.inr ?_)
      rename_i rest
      cases rest <;> simp [readerAfter]
  | closeStreams hc => exact quiet rfl (List.nil_sublist _) (.inl rfl)
  | _ => exact quiet rfl hsub (.inl rfl)

end Conn

namespace Link

variable {maxStreams : Nat} {minIdle : Int} {l l' : Link} {e : Event}

/-! ## the tunnel -/

/-- The agent has room for all it has yet to receive. -/
structure Ok (maxStreams : Nat) (minIdle : Int) (l : Link) : Prop where
  budget : l.relay.BudgetOk (relayConfig maxStreams minIdle)
  room : l.outstanding ≤ maxConcurrentStreams
  read : l.agent.input.length ≤ l.relay.output.length
  live : l.agent.reader ≠ .stopped .streamLimit

theorem init_ok (maxStreams : Nat) (minIdle : Int) : Ok maxStreams minIdle init :=
  ⟨Conn.newConn_budgetOk _, Nat.zero_le _, le_refl _, by simp [init, newConn]⟩

/-- A step of the relay moves OPENs to the wire, and adds one if there is room. -/
theorem Ok.relay {e : Conn.Event} {c : Conn} (h : Ok maxStreams minIdle l)
    (hcond : RoomLeft l (.relay e))
    (hstep : l.relay.step (relayConfig maxStreams minIdle) e = some c) :
    Ok maxStreams minIdle { l with relay := c } := by
  obtain ⟨new, hout, hle⟩ := Conn.step_opens hstep h.budget.sound
  have hread := h.read
  refine ⟨h.budget.step hstep, ?_, ?_, h.live⟩
  · have hroom := h.room
    have hcond : opensStream e = true → l.outstanding < maxConcurrentStreams := hcond
    simp only [outstanding, opensInFlight, hout, List.drop_append_of_le_length hread,
      List.countP_append] at hroom hcond ⊢
    split at hle
    · rename_i ho
      have := hcond ho
      omega
    · omega
  · simp only [hout, List.length_append]
    omega

/-- A step of the agent moves an OPEN from the wire to the table. -/
theorem Ok.agent {e : Conn.Event} {c : Conn} (h : Ok maxStreams minIdle l)
    (harr : arrives l.relay l.agent e = true) (hopen : opensStream e = false)
    (hstep : l.agent.step agentConfig e = some c) :
    Ok maxStreams minIdle { l with agent := c } := by
  obtain ⟨read, hin, hread, htable, hlimit⟩ := Conn.step_accepts hstep hopen
  have hroom := h.room
  -- What the agent reads is what is first on the wire.
  have hwire : l.relay.output.drop l.agent.input.length =
      read ++ l.relay.output.drop c.input.length ∧ c.input.length ≤ l.relay.output.length := by
    rcases hread with rfl | ⟨f, now, rfl, rfl⟩
    · rw [List.append_nil] at hin
      rw [hin]
      exact ⟨rfl, h.read⟩
    · have hf : l.relay.output[l.agent.input.length]? = some f := of_decide_eq_true harr
      obtain ⟨hlt, hget⟩ := List.getElem?_eq_some_iff.mp hf
      rw [hin, List.length_append, List.length_singleton]
      exact ⟨by rw [List.drop_eq_getElem_cons hlt, hget]; rfl, hlt⟩
  simp only [outstanding, opensInFlight] at hroom
  rw [hwire.1, List.countP_append] at hroom
  refine ⟨h.budget, ?_, hwire.2, fun hstop => ?_⟩
  · simp only [outstanding, opensInFlight]
    omega
  · obtain ⟨hone, hfull⟩ := hlimit h.live hstop
    have hfull : maxConcurrentStreams ≤ l.agent.table.length := hfull
    omega

theorem Ok.step (h : Ok maxStreams minIdle l) (hcond : RoomLeft l e)
    (hstep : l.step maxStreams minIdle e = some l') : Ok maxStreams minIdle l' := by
  cases e with
  | relay e =>
      simp only [Link.step, stepOf] at hstep
      split at hstep
      · obtain ⟨c, hc, rfl⟩ := Option.map_eq_some_iff.mp hstep
        exact h.relay hcond hc
      · contradiction
  | agent e =>
      simp only [Link.step, stepOf] at hstep
      split at hstep
      · rename_i hg
        obtain ⟨c, hc, rfl⟩ := Option.map_eq_some_iff.mp hstep
        exact h.agent hg.1 hg.2 hc
      · contradiction

/-- **Room at the agent.** In every state of every run in which the relay opens a
stream only while the agent has room for it and for all it has yet to receive, the
agent has not ended the tunnel with the stream-limit error. -/
theorem room_at_agent (maxStreams : Nat) (minIdle : Int) (es : List Event) (l : Link)
    (hm : Conc.Meets (Link.step maxStreams minIdle) RoomLeft init es)
    (hrun : init.run maxStreams minIdle es = some l) :
    l.agent.reader ≠ .stopped .streamLimit ∧ l.agent.table.length ≤ maxConcurrentStreams := by
  have h : Ok maxStreams minIdle l :=
    hm.invariant (fun _ _ _ h hc hstep => Ok.step h hc hstep) (init_ok maxStreams minIdle) hrun
  have hroom := h.room
  exact ⟨h.live, by simp only [outstanding] at hroom; omega⟩

/-- The relay opens a stream, and the agent gets the OPEN. -/
def openRound (n : Nat) : List Event :=
  [.relay (.openStream .tcp "" 0 none), .relay (.opening n),
    .agent (.receive (.stream (n + 1) (.opening (some .tcp))) 0)]

/-- The relay closes its stream `n`, up to the CLOSE. -/
def relayCloses (n : Nat) : List Event :=
  ([.close, .once, .once, .once, .once, .sendClose, .closeFrame] : List Stream.Act).map
    fun a => .relay (.act n a)

/-- The agent gets the CLOSE, and its handler returns. -/
def agentCloses (n : Nat) : List Event :=
  [.agent (.receive (.stream (n + 1) .close) 0), .agent (.handle 0), .agent (.handle 0)] ++
  List.replicate 4 (.agent (.act n .once)) ++
  [.agent (.handle 0), .agent (.act n .close), .agent (.act n .discard)]

/-- A stream is closed on both sides and another opened. -/
def reopenRun : List Event := openRound 0 ++ relayCloses 0 ++ agentCloses 0 ++ openRound 1

theorem room_at_agent_reopened :
    ∃ l, init.run 1024 1 reopenRun = some l ∧ l.agent.input.length = 3 ∧
      l.agent.table.length = 1 ∧ l.agent.reader ≠ .stopped .streamLimit ∧
      l.agent.table.length ≤ maxConcurrentStreams := by
  have hobs : ((init.run 1024 1 reopenRun).map fun l =>
      (l.agent.input.length, l.agent.table.length)) = some (3, 1) := by
    decide +kernel
  obtain ⟨l, hl, hlen⟩ := Option.map_eq_some_iff.mp hobs
  obtain ⟨hread, htable⟩ := Prod.mk.inj hlen
  exact ⟨l, hl, hread, htable, room_at_agent 1024 1 reopenRun l (by decide +kernel) hl⟩

/-! ## a full agent -/

/-- `OpenStream` below the limit. -/
theorem step_openStream (cfg : Config) (c : Conn) (protocol : Transport) (group : String)
    (now : Int) (hlen : c.table.length < cfg.maxStreams) (hid : c.nextID + 1 < 2 ^ 32)
    (hget : c.getStream (c.nextID + 1) = none) :
    c.step cfg (.openStream protocol group now none) = some { c with
      nextID := c.nextID + 1
      streams := c.streams ++ [newStream cfg (c.nextID + 1) protocol group now .writing
        c.input.length]
      table := (c.nextID + 1, c.streams.length) :: c.table } := by
  have hlt : ¬ cfg.maxStreams ≤ c.table.length := by omega
  have hget : c.table.lookup (c.nextID + 1) = none := hget
  simp only [Conn.step, Conn.victimAllowed, Nat.mod_eq_of_lt hid, Conn.insertStream,
    Conn.getStream, ge_iff_le, hlt, false_and, if_false, decide_true, if_true]
  simp [newStream, hget]

/-- The OPEN of the stream made last. -/
theorem step_opening (cfg : Config) (c : Conn) {l : List Stream} {s : Stream}
    (hs : c.streams = l ++ [s]) (ho : s.opening = .writing) (hc : c.closed = false) :
    c.step cfg (.opening l.length) = some { c with
      streams := l ++ [({ s with opening := .opened }).emit (.opening (some s.protocol))]
      output := c.output ++ [.stream s.id (.opening (some s.protocol))] } := by
  simp [Conn.step, Conn.openingStep, hs, ho, hc, Conn.setStream]

/-- An OPEN below the limit. -/
theorem step_receive (cfg : Config) (c : Conn) {id : Nat} (protocol : Transport) (now : Int)
    (hr : c.reader = .idle) (hc : c.closed = false) (ha : cfg.accepts = true)
    (hlen : c.table.length < cfg.maxStreams) (hid : id ≠ 0) (hget : c.getStream id = none) :
    c.step cfg (.receive (.stream id (.opening (some protocol))) now) = some { c with
      input := c.input ++ [.stream id (.opening (some protocol))]
      streams := c.streams ++ [newStream cfg id protocol "" now .opened (c.input.length + 1)]
      table := (id, c.streams.length) :: c.table } := by
  have hlt : ¬ cfg.maxStreams ≤ c.table.length := by omega
  have hget : c.table.lookup id = none := hget
  simp [Conn.step, hr, hc, Conn.tooLarge, Conn.dispatch, ha, Conn.insertStream, Conn.getStream,
    newStream, hid, hget, hlt]

/-- An OPEN at the limit. -/
theorem step_receive_full (cfg : Config) (c : Conn) (id : Nat) (protocol : Transport) (now : Int)
    (hr : c.reader = .idle) (hc : c.closed = false) (ha : cfg.accepts = true)
    (hlen : cfg.maxStreams ≤ c.table.length) (hid : id ≠ 0) (hget : c.getStream id = none) :
    c.step cfg (.receive (.stream id (.opening (some protocol))) now) = some (Conn.stop { c with
      input := c.input ++ [.stream id (.opening (some protocol))] } .streamLimit) := by
  have hget : c.table.lookup id = none := hget
  simp [Conn.step, hr, hc, Conn.tooLarge, Conn.dispatch, ha, Conn.insertStream, Conn.getStream,
    newStream, hid, hget, hlen]

/-- `n` streams in a table, opened one after the other. -/
def fullTable : Nat → List (Nat × Nat)
  | 0 => []
  | n + 1 => (n + 1, n) :: fullTable n

/-- The relay's stream with the identifier `n + 1`, its OPEN written. -/
def relayStream (n : Nat) : Stream :=
  { newStream (relayConfig 1024 1) (n + 1) .tcp "" 0 .opened 0 with
    written := [.opening (some .tcp)] }

def relayStreams : Nat → List Stream
  | 0 => []
  | n + 1 => relayStreams n ++ [relayStream n]

def agentStreams : Nat → List Stream
  | 0 => []
  | n + 1 => agentStreams n ++ [newStream agentConfig (n + 1) .tcp "" 0 .opened (n + 1)]

def openFrames : Nat → List Frame
  | 0 => []
  | n + 1 => openFrames n ++ [.stream (n + 1) (.opening (some .tcp))]

/-- The tunnel after `n` streams were opened. -/
def filled (n : Nat) : Link where
  relay := { newConn with
    streams := relayStreams n
    table := fullTable n
    nextID := n
    output := openFrames n }
  agent := { newConn with
    streams := agentStreams n
    table := fullTable n
    input := openFrames n }

@[simp] theorem length_fullTable (n : Nat) : (fullTable n).length = n := by
  induction n with
  | zero => rfl
  | succ n ih => simp [fullTable, ih]

@[simp] theorem length_relayStreams (n : Nat) : (relayStreams n).length = n := by
  induction n with
  | zero => rfl
  | succ n ih => simp [relayStreams, ih]

@[simp] theorem length_agentStreams (n : Nat) : (agentStreams n).length = n := by
  induction n with
  | zero => rfl
  | succ n ih => simp [agentStreams, ih]

@[simp] theorem length_openFrames (n : Nat) : (openFrames n).length = n := by
  induction n with
  | zero => rfl
  | succ n ih => simp [openFrames, ih]

theorem lookup_fullTable {n id : Nat} (h : n < id) : (fullTable n).lookup id = none := by
  induction n with
  | zero => rfl
  | succ n ih =>
      have hne : (id == n + 1) = false := by
        rw [beq_eq_false_iff_ne]
        omega
      rw [fullTable, List.lookup_cons, hne]
      exact ih (by omega)

theorem filter_fullTable {n id : Nat} (h : n < id) :
    (fullTable n).filter (·.1 ≠ id) = fullTable n := by
  induction n with
  | zero => rfl
  | succ n ih =>
      have hne : n + 1 ≠ id := by omega
      simp only [fullTable, List.filter_cons, hne, ne_eq, not_false_eq_true, decide_true, if_true]
      rw [← ih (by omega)]
      simp

theorem step_relay {relay agent c : Conn} {e : Conn.Event} (ha : arrives agent relay e = true)
    (h : relay.step (relayConfig 1024 1) e = some c) :
    (⟨relay, agent⟩ : Link).step 1024 1 (.relay e) = some ⟨c, agent⟩ := by
  simp [step, stepOf, ha, h]

theorem step_agent {relay agent c : Conn} {e : Conn.Event} (ha : arrives relay agent e = true)
    (ho : opensStream e = false) (h : agent.step agentConfig e = some c) :
    (⟨relay, agent⟩ : Link).step 1024 1 (.agent e) = some ⟨relay, c⟩ := by
  simp [step, stepOf, ha, ho, h]

/-- The relay between `insertStream` and the OPEN. -/
def inserting (n : Nat) : Conn :=
  { (filled n).relay with
    nextID := n + 1
    streams := relayStreams n ++ [newStream (relayConfig 1024 1) (n + 1) .tcp "" 0 .writing 0]
    table := fullTable (n + 1) }

theorem openRound_filled {n : Nat} (h : n < 1024) :
    (filled n).run 1024 1 (openRound n) = some (filled (n + 1)) := by
  have hget := lookup_fullTable (Nat.lt_succ_self n)
  have hopen : (filled n).relay.step (relayConfig 1024 1) (.openStream .tcp "" 0 none) =
      some (inserting n) := by
    rw [step_openStream (relayConfig 1024 1) (filled n).relay .tcp "" 0
      (by simpa [filled, relayConfig] using h) (by show n + 1 < 2 ^ 32; omega) hget]
    simp [inserting, filled, fullTable, newConn]
  have hwrite : (inserting n).step (relayConfig 1024 1) (.opening n) =
      some (filled (n + 1)).relay := by
    have hw := step_opening (relayConfig 1024 1) (inserting n) rfl rfl rfl
    rw [length_relayStreams] at hw
    rw [hw]
    rfl
  have hread : (filled n).agent.step agentConfig
      (.receive (.stream (n + 1) (.opening (some .tcp))) 0) = some (filled (n + 1)).agent := by
    rw [step_receive agentConfig (filled n).agent .tcp 0 rfl rfl rfl
      (by simpa [filled, agentConfig, maxConcurrentStreams] using h) (Nat.succ_ne_zero n) hget]
    simp [filled, fullTable, agentStreams, openFrames]
  have harrives : arrives (filled (n + 1)).relay (filled n).agent
      (.receive (.stream (n + 1) (.opening (some .tcp))) 0) = true := by
    simp [arrives, filled, openFrames]
  exact (Conc.exec_cons_of (step_relay rfl hopen) _).trans <|
    (Conc.exec_cons_of (step_relay rfl hwrite) _).trans <|
    Conc.exec_cons_of (step_agent harrives rfl hread) _

/-- `n` streams are opened. -/
def fillRun : Nat → List Event
  | 0 => []
  | n + 1 => fillRun n ++ openRound n

theorem run_fillRun {n : Nat} (h : n ≤ 1024) : init.run 1024 1 (fillRun n) = some (filled n) := by
  induction n with
  | zero => rfl
  | succ n ih =>
      rw [run, fillRun, Conc.exec_append (ih (by omega))]
      exact openRound_filled (by omega)

/-- The relay closes its last stream, which frees a slot, and opens another; the
agent's handler of the closed stream has not returned. -/
def overfillRun : List Event :=
  [.relay (.act 1023 .close), .relay (.act 1023 .once), .relay (.openStream .tcp "" 0 none),
    .relay (.opening 1024), .agent (.receive (.stream 1025 (.opening (some .tcp))) 0)]

/-- The last stream of a relay with `n + 1` of them, out of the table. -/
def closing (n : Nat) (next : Statement) (table : List (Nat × Nat)) : Conn :=
  { (filled (n + 1)).relay with
    streams := relayStreams n ++ [{ relayStream n with
      once := .running .user next
      tearing := true }]
    table := table }

theorem step_close (n : Nat) :
    (filled (n + 1)).relay.step (relayConfig 1024 1) (.act n .close) =
      some (closing n .remove (fullTable (n + 1))) := by
  simp [Conn.step, filled, relayStreams, Stream.act, relayStream, newStream, Stream.closeStep,
    Stream.enter, Conn.apply, closing]

theorem step_remove (n : Nat) :
    (closing n .remove (fullTable (n + 1))).step (relayConfig 1024 1) (.act n .once) =
      some (closing n .txClosed (fullTable n)) := by
  have hfilter : (fullTable (n + 1)).filter (·.1 ≠ n + 1) = fullTable n := by
    rw [fullTable, List.filter_cons, if_neg (by simp), filter_fullTable (Nat.lt_succ_self n)]
  simpa [Conn.step, closing, relayStream, newStream, Stream.act, Stream.onceStep, Conn.apply,
    Conn.removeStream] using hfilter

/-- The relay, below its limit again, opens a stream with a new identifier. -/
theorem step_reopen {n : Nat} (h : n < 1024) : ∃ c c',
    (closing n .txClosed (fullTable n)).step (relayConfig 1024 1) (.openStream .tcp "" 0 none) =
      some c ∧ c.step (relayConfig 1024 1) (.opening (n + 1)) = some c' ∧
      c'.output = openFrames (n + 2) := by
  have hopen := step_openStream (relayConfig 1024 1) (closing n .txClosed (fullTable n)) .tcp "" 0
    (by simpa [closing, relayConfig] using h) (by show n + 1 + 1 < 2 ^ 32; omega)
    (lookup_fullTable (by show n < n + 1 + 1; omega))
  have hlen : (closing n .txClosed (fullTable n)).streams.length = n + 1 := by simp [closing]
  have hwrite := step_opening (relayConfig 1024 1)
    { closing n .txClosed (fullTable n) with
      nextID := n + 2
      streams := (closing n .txClosed (fullTable n)).streams ++
        [newStream (relayConfig 1024 1) (n + 2) .tcp "" 0 .writing 0]
      table := (n + 2, n + 1) :: fullTable n } rfl rfl rfl
  rw [hlen] at hopen hwrite
  exact ⟨_, _, hopen, hwrite, rfl⟩

/-- The 1025th OPEN ends the tunnel, although the relay never had more than 1024
streams. -/
theorem agent_stream_limit : ∃ l, init.run 1024 1 (fillRun 1024 ++ overfillRun) = some l ∧
    l.agent.reader = .stopped .streamLimit := by
  obtain ⟨c, c', hopen, hwrite, hout⟩ := step_reopen (n := 1023) (by omega)
  have hread := step_receive_full agentConfig (filled 1024).agent 1025 .tcp 0 rfl rfl rfl
    (length_fullTable 1024).ge (by simp) (lookup_fullTable (by omega))
  have harrives : arrives c' (filled 1024).agent
      (.receive (.stream 1025 (.opening (some .tcp))) 0) = true := by
    have hlen : (filled 1024).agent.input.length = (openFrames 1024).length := rfl
    rw [arrives, hout, hlen, openFrames, List.getElem?_concat_length]
    rfl
  refine ⟨⟨c', Conn.stop { (filled 1024).agent with
    input := openFrames 1024 ++ [.stream 1025 (.opening (some .tcp))] } .streamLimit⟩, ?_, rfl⟩
  rw [run, Conc.exec_append (run_fillRun (le_refl _))]
  exact (Conc.exec_cons_of (step_relay rfl (step_close 1023)) _).trans <|
    (Conc.exec_cons_of (step_relay rfl (step_remove 1023)) _).trans <|
    (Conc.exec_cons_of (step_relay rfl hopen) _).trans <|
    (Conc.exec_cons_of (step_relay rfl hwrite) _).trans <|
    Conc.exec_cons_of (step_agent harrives rfl hread) _

end Link

end Tunnel
