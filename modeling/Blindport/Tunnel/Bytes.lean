import Mathlib.Data.List.Nodup
import Blindport.Tunnel.Link
import Blindport.Tunnel.Pair
import Blindport.Tunnel.Written

/-!
# Blindport.Tunnel.Bytes

The bytes of a TCP stream from `Write` at one end of a tunnel to `Read` at the other.

Each end keeps its streams apart (`Conn.Good`), and reads what the other has written, in
order; so the DATA frames that come for a stream carry what the calls at the other end
have accepted (`Joined.arrived`).  A stream and its peer are known by their identifier,
which the relay gives to one stream in its first 2^32 `OpenStream` calls
(`Numbered.once`).
-/

namespace Tunnel

/-! ## the streams with an identifier -/

namespace Conn

variable {cfg : Config} {c c' : Conn} {e : Event} {i : Nat} {s : Stream} {id : Nat}

/-- At most one stream has had the identifier. -/
def GivenOnce (c : Conn) (id : Nat) : Prop := c.streams.countP (·.id = id) ≤ 1

instance (c : Conn) (id : Nat) : Decidable (c.GivenOnce id) :=
  inferInstanceAs (Decidable (_ ≤ 1))

/-- The bytes that calls of `WriteContext` on a stream with the identifier have
accepted. -/
def acceptedOn (c : Conn) (id : Nat) : List UInt8 :=
  (c.streams.filter (·.id = id)).flatMap Stream.accepted

/-- Two places of a list with one member that has a property. -/
theorem index_unique {α : Type} {l : List α} {p : α → Bool} (h : l.countP p ≤ 1) {i j : Nat}
    {a b : α} (ha : l[i]? = some a) (hb : l[j]? = some b) (hpa : p a = true)
    (hpb : p b = true) : i = j := by
  induction l generalizing i j with
  | nil => simp at ha
  | cons x l ih =>
      rw [List.countP_cons] at h
      have member : ∀ {k : Nat} {y : α}, l[k]? = some y → p y = true → 0 < l.countP p :=
        fun hk hy => List.countP_pos_iff.mpr ⟨_, List.mem_of_getElem? hk, hy⟩
      cases i with
      | zero =>
          cases j with
          | zero => rfl
          | succ j =>
              rw [List.getElem?_cons_zero, Option.some.injEq] at ha
              rw [List.getElem?_cons_succ] at hb
              have := member hb hpb
              rw [ha, if_pos hpa] at h
              omega
      | succ i =>
          rw [List.getElem?_cons_succ] at ha
          cases j with
          | zero =>
              rw [List.getElem?_cons_zero, Option.some.injEq] at hb
              have := member ha hpa
              rw [hb, if_pos hpb] at h
              omega
          | succ j =>
              rw [List.getElem?_cons_succ] at hb
              rw [ih (by omega) ha hb]

theorem GivenOnce.alone (h : c.GivenOnce id) (hs : c.streams[i]? = some s) (hid : s.id = id) :
    c.Alone i id := fun _ _ ht htid =>
  index_unique h ht hs (by simpa using htid) (by simpa using hid)

/-- Nobody has the identifier, or one stream. -/
theorem GivenOnce.cases (h : c.GivenOnce id) :
    (∀ s ∈ c.streams, s.id ≠ id) ∧ c.acceptedOn id = [] ∨
      ∃ (i : Nat) (s : Stream), c.streams[i]? = some s ∧ s.id = id ∧
        c.acceptedOn id = s.accepted := by
  rw [GivenOnce, List.countP_eq_length_filter] at h
  match hf : c.streams.filter (·.id = id) with
  | [] =>
      refine .inl ⟨fun s hs hid => ?_, by rw [acceptedOn, hf]; rfl⟩
      have hmem : s ∈ c.streams.filter (·.id = id) :=
        List.mem_filter.mpr ⟨hs, decide_eq_true hid⟩
      rw [hf] at hmem
      exact absurd hmem List.not_mem_nil
  | [s] =>
      have hmem : s ∈ c.streams.filter (·.id = id) := by rw [hf]; exact List.mem_singleton_self s
      obtain ⟨hs, hid⟩ := List.mem_filter.mp hmem
      obtain ⟨i, hi⟩ := List.getElem?_of_mem hs
      refine .inr ⟨i, s, hi, of_decide_eq_true hid, ?_⟩
      rw [acceptedOn, hf, List.flatMap_singleton]
  | s :: t :: rest =>
      rw [hf] at h
      simp at h

/-! ## one end -/

/-- An end of a tunnel after some steps. -/
structure Good (cfg : Config) (c : Conn) : Prop where
  ordered : Ordered cfg c
  wrote : ∀ s ∈ c.streams, s.Wrote
  filed : c.Filed

theorem newConn_good (cfg : Config) : Good cfg newConn :=
  ⟨newConn_ordered cfg, by simp [newConn], newConn_filed⟩

theorem Good.step (h : Good cfg c) (hstep : c.step cfg e = some c') : Good cfg c' where
  ordered := h.ordered.step hstep
  wrote := step_wrote h.wrote h.ordered.budget hstep
  filed := h.filed.step h.ordered.budget (fun s hs => (h.wrote s hs).marked) hstep

theorem Good.output (h : Good cfg c) (hstep : c.step cfg e = some c') :
    c.output <+: c'.output := by
  cases step_wires h.ordered.budget (fun s hs => (h.wrote s hs).marked) hstep with
  | quiet hout => exact ⟨_, hout.symm⟩
  | writes hk hout => exact ⟨_, hout.symm⟩

/-- The frames with an identifier are those of its stream: they carry the bytes that were
accepted. -/
theorem Good.written (h : Good cfg c) (honce : c.GivenOnce id) :
    dataOf (signalsOf id c.output) = c.acceptedOn id ∧
      (signalsOf id c.output).Pairwise Signal.Precedes := by
  rcases honce.cases with ⟨hnone, hacc⟩ | ⟨i, s, hs, rfl, hacc⟩
  · rw [h.filed.none id hnone, hacc]
    exact ⟨rfl, List.Pairwise.nil⟩
  · have hw := h.wrote s (List.mem_of_getElem? hs)
    rw [h.filed.own i s hs (honce.alone hs rfl), hacc]
    exact ⟨hw.bytes, hw.ordered⟩

/-- A stream after a step was there before, or is new and was made when all the input had
been read. -/
theorem Good.earlier (h : Good cfg c) (hstep : c.step cfg e = some c')
    (ht : c'.streams[i]? = some s) :
    (∃ o, c.streams[i]? = some o ∧ s.id = o.id ∧ s.born = o.born) ∨
      (c.streams[i]? = none ∧ s.born = c'.input.length) := by
  cases step_stream hstep ht with
  | inl hold =>
      obtain ⟨o, ho, hch⟩ := hold
      obtain ⟨hid, -, hborn, -⟩ := hch.ident (h.ordered.budget.sound o (List.mem_of_getElem? ho))
      exact .inl ⟨o, ho, hid, hborn⟩
  | inr hfresh =>
      have hnone := List.getElem?_eq_none hfresh.index.ge
      rcases h.ordered.earlier hstep ht with ⟨o, ho, -⟩ | ⟨-, -, hborn⟩
      · rw [hnone] at ho
        contradiction
      · exact .inr ⟨hnone, hborn⟩

/-- A step gives an identifier to one more stream, or to none. -/
theorem step_ids (hb : BudgetOk cfg c) (hstep : c.step cfg e = some c') :
    c'.streams.map Stream.id = c.streams.map Stream.id ∨ ∃ s, c'.streams = c.streams ++ [s] := by
  rcases step_table hstep with ⟨-, hlen⟩ | ⟨s, table, hstreams, -⟩
  · refine .inl (List.ext_getElem? fun i => ?_)
    rw [List.getElem?_map, List.getElem?_map]
    cases hs : c.streams[i]? with
    | none =>
        rw [List.getElem?_eq_none_iff] at hs
        rw [List.getElem?_eq_none (by omega), Option.map_none]
    | some s =>
        obtain ⟨t, ht, hid⟩ := id_later hb hstep hs
        rw [ht, Option.map_some, Option.map_some, hid]
  · exact .inr ⟨s, hstreams⟩

theorem countP_id (l : List Stream) (id : Nat) :
    l.countP (·.id = id) = (l.map Stream.id).countP (· = id) := by
  rw [List.countP_map]
  rfl

theorem GivenOnce.earlier (h : c'.GivenOnce id) (hb : BudgetOk cfg c)
    (hstep : c.step cfg e = some c') : c.GivenOnce id := by
  unfold GivenOnce at h ⊢
  rcases step_ids hb hstep with hids | ⟨s, hstreams⟩
  · rw [countP_id, ← hids, ← countP_id]
    exact h
  · rw [hstreams, List.countP_append] at h
    omega

end Conn

/-! ## both ends -/

namespace Link

/-- The end of the tunnel at a side. -/
def conn (l : Link) : Side → Conn
  | .relay => l.relay
  | .agent => l.agent

theorem prefix_snoc {α : Type} {l m : List α} {a : α} (h : l <+: m)
    (ha : m[l.length]? = some a) : l ++ [a] <+: m := by
  obtain ⟨rest, rfl⟩ := h
  rw [List.getElem?_append_right (le_refl _), Nat.sub_self] at ha
  cases rest with
  | nil => contradiction
  | cons b rest =>
      obtain rfl := Option.some.inj ha
      exact ⟨rest, by rw [List.append_assoc, List.singleton_append]⟩

/-- The two ends of a tunnel: each reads what the other has written, and the agent's
streams were opened by the relay. -/
structure Joined (cfg : Side → Config) (l : Link) : Prop where
  good : ∀ x, Conn.Good (cfg x) (l.conn x)
  reads : ∀ x, (l.conn x).input <+: (l.conn x.other).output
  known : ∀ t ∈ l.agent.streams, ∃ s ∈ l.relay.streams, s.id = t.id
  opened : ∀ t ∈ l.agent.streams, ∃ before protocol,
    l.agent.input.take t.born = before ++ [.stream t.id (.opening protocol)]
  count : ∀ id, l.agent.streams.countP (·.id = id) ≤
    (signalsOf id l.agent.input).countP Signal.isOpening
  unsent : ∀ s ∈ l.relay.streams, l.relay.GivenOnce s.id →
    signalsOf s.id (l.relay.input.take s.born) = []

variable {cfg : Side → Config} {l : Link}

theorem init_joined (cfg : Side → Config) : Joined cfg init where
  good x := by cases x <;> exact Conn.newConn_good _
  reads x := by cases x <;> exact List.nil_prefix
  known := by simp [init, newConn]
  opened := by simp [init, newConn]
  count id := by simp [init, newConn]
  unsent := by simp [init, newConn]

/-- What a step of an end reads. -/
theorem input_of_arrives {cfg : Config} {c c' peer : Conn} {e : Conn.Event}
    (hreads : c.input <+: peer.output) (harr : arrives peer c e = true)
    (hstep : c.step cfg e = some c') : c'.input <+: peer.output := by
  rcases Conn.step_input hstep with ⟨hin, -⟩ | ⟨f, now, rfl, hin, -⟩
  · rw [hin]
    exact hreads
  · rw [hin]
    exact prefix_snoc hreads (of_decide_eq_true harr)

/-- What a step has read stays read. -/
theorem take_input {cfg : Config} {c c' : Conn} {e : Conn.Event} {n : Nat}
    (hn : n ≤ c.input.length) (hstep : c.step cfg e = some c') :
    c'.input.take n = c.input.take n := by
  rcases Conn.step_input hstep with ⟨hin, -⟩ | ⟨f, now, -, hin, -⟩
  · rw [hin]
  · rw [hin, List.take_append_of_le_length hn]

/-- A step of the relay. -/
theorem Joined.stepRelay {e : Conn.Event} {c : Conn} (h : Joined cfg l)
    (harr : arrives l.agent l.relay e = true) (hstep : l.relay.step (cfg .relay) e = some c) :
    Joined cfg { l with relay := c } := by
  have hr : Conn.Good (cfg .relay) l.relay := h.good .relay
  have ha : Conn.Good (cfg .agent) l.agent := h.good .agent
  have hgood := hr.step hstep
  have hread : c.input <+: l.agent.output := input_of_arrives (h.reads .relay) harr hstep
  refine ⟨fun x => ?_, fun x => ?_, fun t ht => ?_, h.opened, h.count, fun s hs honce => ?_⟩
  · cases x with
    | relay => exact hgood
    | agent => exact h.good .agent
  · cases x with
    | relay => exact hread
    | agent => exact (h.reads .agent).trans (hr.output hstep)
  · obtain ⟨s, hs, hid⟩ := h.known t ht
    obtain ⟨i, hi⟩ := List.getElem?_of_mem hs
    obtain ⟨s', hs', hid'⟩ := Conn.id_later hr.ordered.budget hstep hi
    exact ⟨s', List.mem_of_getElem? hs', hid'.trans hid⟩
  · obtain ⟨i, hi⟩ := List.getElem?_of_mem hs
    have hbefore := honce.earlier hr.ordered.budget hstep
    rcases hr.earlier hstep hi with ⟨o, ho, hid, hborn⟩ | ⟨hnone, hborn⟩
    · have hmem := List.mem_of_getElem? ho
      rw [hborn, hid, take_input (hr.ordered.born o hmem) hstep]
      exact h.unsent o hmem (hid ▸ hbefore)
    · -- the identifier is new, so the agent has no stream with it
      have hnew : ∀ t ∈ l.agent.streams, t.id ≠ s.id := by
        intro t ht hid
        obtain ⟨o, ho, hoid⟩ := h.known t ht
        obtain ⟨j, hj⟩ := List.getElem?_of_mem ho
        obtain ⟨o', ho', hid'⟩ := Conn.id_later hr.ordered.budget hstep hj
        have hji := honce.alone hi rfl j o' ho' (by rw [hid', hoid, hid])
        rw [hji, hnone] at hj
        contradiction
      obtain ⟨rest, hrest⟩ := hread
      have hnil := ha.filed.none s.id hnew
      rw [← hrest, signalsOf_append, List.append_eq_nil_iff] at hnil
      rw [hborn]
      show signalsOf s.id (c.input.take c.input.length) = []
      rw [List.take_length, hnil.1]

/-- The agent makes a stream for the OPEN it reads. -/
theorem opened_of_step {cfg : Config} {c c' : Conn} {e : Conn.Event} {s : Stream}
    (hopen : opensStream e = false) (hstep : c.step cfg e = some c')
    (hs : c'.streams = c.streams ++ [s]) : ∃ protocol now,
      e = .receive (.stream s.id (.opening protocol)) now ∧
        c'.input = c.input ++ [.stream s.id (.opening protocol)] := by
  have hlast : c'.streams[c.streams.length]? = some s := by simp [hs]
  rcases Conn.step_stream hstep hlast with ⟨o, ho, -⟩ | hfresh
  · simp at ho
  · obtain ⟨-, id, protocol, group, now, opening, born, rfl, hcase⟩ := hfresh
    rcases hcase with ⟨-, -, rfl⟩ | ⟨-, -, victim, rfl⟩
    · refine ⟨_, _, rfl, ?_⟩
      rcases Conn.step_input hstep with ⟨-, hstop⟩ | ⟨f, now', he, hin, -⟩
      · rw [(hstop _ _ rfl).2] at hlast
        simp at hlast
      · rw [hin, ← (Conn.Event.receive.inj he).1]
        rfl
    · simp [opensStream] at hopen

/-- A step of the agent. -/
theorem Joined.stepAgent {e : Conn.Event} {c : Conn} (h : Joined cfg l)
    (harr : arrives l.relay l.agent e = true) (hopen : opensStream e = false)
    (hstep : l.agent.step (cfg .agent) e = some c) :
    Joined cfg { l with agent := c } := by
  have hr : Conn.Good (cfg .relay) l.relay := h.good .relay
  have ha : Conn.Good (cfg .agent) l.agent := h.good .agent
  have hgood := ha.step hstep
  have hread : c.input <+: l.relay.output := input_of_arrives (h.reads .agent) harr hstep
  have hgood' : ∀ x, Conn.Good (cfg x) (({ l with agent := c } : Link).conn x) := by
    intro x
    cases x with
    | relay => exact h.good .relay
    | agent => exact hgood
  have hreads : ∀ x, (({ l with agent := c } : Link).conn x).input <+:
      (({ l with agent := c } : Link).conn x.other).output := by
    intro x
    cases x with
    | relay => exact (h.reads .relay).trans (ha.output hstep)
    | agent => exact hread
  -- a stream that was there keeps what is known of it
  have old : ∀ {t o : Stream}, o ∈ l.agent.streams → t.id = o.id → t.born = o.born →
      (∃ s ∈ l.relay.streams, s.id = t.id) ∧
        ∃ before protocol, c.input.take t.born = before ++ [.stream t.id (.opening protocol)] := by
    intro t o ho hid hborn
    rw [hid, hborn, take_input (ha.ordered.born o ho) hstep]
    exact ⟨h.known o ho, h.opened o ho⟩
  have hgrows : ∀ id, (signalsOf id l.agent.input).countP Signal.isOpening ≤
      (signalsOf id c.input).countP Signal.isOpening := by
    intro id
    rcases Conn.step_input hstep with ⟨hin, -⟩ | ⟨f, now, -, hin, -⟩
    · rw [hin]
    · rw [hin, signalsOf_append, List.countP_append]
      exact Nat.le_add_right _ _
  rcases Conn.step_ids ha.ordered.budget hstep with hids | ⟨s, hstreams⟩
  · have hall : ∀ t ∈ c.streams, (∃ s ∈ l.relay.streams, s.id = t.id) ∧
        ∃ before protocol, c.input.take t.born =
          before ++ [.stream t.id (.opening protocol)] := by
      intro t ht
      obtain ⟨i, hi⟩ := List.getElem?_of_mem ht
      rcases ha.earlier hstep hi with ⟨o, ho, hid, hborn⟩ | ⟨hnone, -⟩
      · exact old (List.mem_of_getElem? ho) hid hborn
      · have hget := congrArg (·[i]?) hids
        simp [hi, hnone] at hget
    refine ⟨hgood', hreads, fun t ht => (hall t ht).1, fun t ht => (hall t ht).2,
      fun id => ?_, h.unsent⟩
    show c.streams.countP (·.id = id) ≤ _
    rw [Conn.countP_id, hids, ← Conn.countP_id]
    exact (h.count id).trans (hgrows id)
  · obtain ⟨protocol, now, rfl, hin⟩ := opened_of_step hopen hstep hstreams
    have hlast : c.streams[l.agent.streams.length]? = some s := by simp [hstreams]
    have hborn : s.born = c.input.length := by
      rcases ha.earlier hstep hlast with ⟨o, ho, -⟩ | ⟨-, hborn⟩
      · simp at ho
      · exact hborn
    have hall : ∀ t ∈ c.streams, (∃ s ∈ l.relay.streams, s.id = t.id) ∧
        ∃ before protocol, c.input.take t.born =
          before ++ [.stream t.id (.opening protocol)] := by
      intro t ht
      rw [hstreams, List.mem_append, List.mem_singleton] at ht
      cases ht with
      | inl ht => exact old ht rfl rfl
      | inr ht =>
          subst ht
          refine ⟨?_, l.agent.input, protocol, by rw [hborn, List.take_length, hin]⟩
          -- the OPEN is on the wire, so the relay has the stream
          by_contra hnone
          have hnil := hr.filed.none t.id fun s hs hid => hnone ⟨s, hs, hid⟩
          obtain ⟨rest, hrest⟩ := hread
          rw [← hrest, hin, signalsOf_append, signalsOf_append] at hnil
          simp [signalsOf] at hnil
    refine ⟨hgood', hreads, fun t ht => (hall t ht).1, fun t ht => (hall t ht).2,
      fun id => ?_, h.unsent⟩
    show c.streams.countP (·.id = id) ≤ (signalsOf id c.input).countP Signal.isOpening
    have hcount := h.count id
    rw [hstreams, hin, signalsOf_append, List.countP_append, List.countP_append,
      Conn.signalsOf_one, List.countP_singleton]
    by_cases hid : s.id = id
    · simpa [hid, Signal.isOpening] using hcount
    · simpa [hid] using hcount

theorem Joined.step {e : Event} {l' : Link} (h : Joined cfg l)
    (hstep : l.stepOf (cfg .relay) (cfg .agent) e = some l') : Joined cfg l' := by
  cases e with
  | relay e =>
      simp only [stepOf] at hstep
      split at hstep
      · rename_i harr
        obtain ⟨c, hc, rfl⟩ := Option.map_eq_some_iff.mp hstep
        exact h.stepRelay harr hc
      · contradiction
  | agent e =>
      simp only [stepOf] at hstep
      split at hstep
      · rename_i hg
        obtain ⟨c, hc, rfl⟩ := Option.map_eq_some_iff.mp hstep
        exact h.stepAgent hg.1 hg.2 hc
      · contradiction

/-! ## from one end to the other -/

theorem untilEnd_split {l : List Signal} (h : l.any ends = true) :
    ∃ f after, l = untilEnd l ++ f :: after ∧ ends f = true := by
  induction l with
  | nil => contradiction
  | cons g l ih =>
      rw [untilEnd, List.takeWhile_cons]
      by_cases hg : ends g = true
      · exact ⟨g, l, by simp [hg], hg⟩
      · rw [List.any_cons, Bool.eq_false_iff.mpr hg, Bool.false_or] at h
        obtain ⟨f, after, hl, hf⟩ := ih h
        rw [untilEnd] at hl
        refine ⟨f, after, ?_, hf⟩
        rw [Bool.eq_false_iff.mpr hg, Bool.not_false, if_pos rfl, List.cons_append, ← hl]

theorem dataOf_end {f : Signal} (h : ends f = true) (l : List Signal) :
    dataOf (f :: l) = dataOf l := by
  cases f <;> first | rfl | contradiction

/-- The relay gave the identifier to one stream: so did the agent. -/
theorem Joined.givenOnce (h : Joined cfg l) {id : Nat}
    (honce : l.relay.GivenOnce id) (x : Side) : (l.conn x).GivenOnce id := by
  cases x with
  | relay => exact honce
  | agent =>
      have hr : Conn.Good (cfg .relay) l.relay := h.good .relay
      obtain ⟨rest, hrest⟩ := h.reads .agent
      have hopens : (signalsOf id l.agent.input).countP Signal.isOpening ≤
          (signalsOf id l.relay.output).countP Signal.isOpening := by
        show _ ≤ (signalsOf id (l.conn Side.agent.other).output).countP Signal.isOpening
        rw [← hrest, signalsOf_append, List.countP_append]
        exact Nat.le_add_right _ _
      exact ((h.count id).trans hopens).trans
        (countP_isOpening_le (hr.written honce).2)

/-- Before a stream was made no bytes came with its identifier. -/
theorem Joined.nothing_before (h : Joined cfg l) {x : Side} {s : Stream}
    (hs : s ∈ (l.conn x).streams) (honce : l.relay.GivenOnce s.id) :
    dataOf (signalsOf s.id ((l.conn x).input.take s.born)) = [] := by
  cases x with
  | relay =>
      show dataOf (signalsOf s.id (l.relay.input.take s.born)) = []
      rw [h.unsent s hs honce]
      rfl
  | agent =>
      have hr : Conn.Good (cfg .relay) l.relay := h.good .relay
      obtain ⟨before, protocol, htake⟩ := h.opened s hs
      show dataOf (signalsOf s.id (l.agent.input.take s.born)) = []
      -- the OPEN is the first frame of the stream with a payload behind it
      have hprefix : l.agent.input.take s.born <+: l.relay.output :=
        (List.take_prefix _ _).trans (h.reads .agent)
      obtain ⟨rest, hrest⟩ := hprefix
      have hpairs := (hr.written honce).2
      rw [← hrest, htake, List.append_assoc, signalsOf_append, List.singleton_append] at hpairs
      have hopen : signalsOf s.id (.stream s.id (.opening protocol) :: rest) =
          .opening protocol :: signalsOf s.id rest := by
        simp [signalsOf]
      rw [hopen] at hpairs
      rw [htake, signalsOf_append, dataOf_append, dataOf_before_open hpairs rfl,
        Conn.signalsOf_one, if_pos rfl]
      rfl

/-- What came for a stream is what was accepted at the other end, and all of it once the
other end's side has ended. -/
theorem Joined.arrived (h : Joined cfg l) {x : Side} {s : Stream}
    (hs : s ∈ (l.conn x).streams) (honce : l.relay.GivenOnce s.id) :
    dataOf ((l.conn x).sentTo s) <+: (l.conn x.other).acceptedOn s.id ∧
      (((l.conn x).sentTo s).any ends = true →
        dataOf (untilEnd ((l.conn x).sentTo s)) = (l.conn x.other).acceptedOn s.id) := by
  have hpeer := h.givenOnce honce x.other
  obtain ⟨hdata, hpairs⟩ := (h.good x.other).written hpeer
  obtain ⟨rest, hrest⟩ := h.reads x
  have hsplit : signalsOf s.id (l.conn x.other).output =
      signalsOf s.id ((l.conn x).input.take s.born) ++ (l.conn x).sentTo s ++
        signalsOf s.id rest := by
    rw [← hrest, signalsOf_append, Conn.sentTo, ← signalsOf_append s.id (List.take _ _),
      List.take_append_drop]
  have hbefore := h.nothing_before hs honce
  rw [hsplit] at hpairs
  have hall : (l.conn x.other).acceptedOn s.id =
      dataOf ((l.conn x).sentTo s) ++ dataOf (signalsOf s.id rest) := by
    rw [← hdata, hsplit, dataOf_append, dataOf_append, hbefore, List.nil_append]
  refine ⟨hall ▸ List.prefix_append _ _, fun hend => ?_⟩
  obtain ⟨f, after, hframes, hf⟩ := untilEnd_split hend
  generalize untilEnd ((l.conn x).sentTo s) = before at hframes ⊢
  rw [hframes, List.append_assoc, List.append_assoc, List.cons_append, ← List.append_assoc]
    at hpairs
  have hnil := dataOf_after_end hpairs hf
  rw [dataOf_append, List.append_eq_nil_iff] at hnil
  rw [hall, hframes, dataOf_append, dataOf_end hf, hnil.1, hnil.2, List.append_nil, List.append_nil]

/-! ## identifiers -/

/-- The event is an `OpenStream` call of the relay. -/
def Event.opens : Event → Bool
  | .relay e => opensStream e
  | .agent _ => false

/-- The `OpenStream` calls of the relay. -/
def opens (es : List Event) : Nat := es.countP Event.opens

theorem opens_relay (es : List Event) (e : Conn.Event) :
    opens (es ++ [.relay e]) = if opensStream e then opens es + 1 else opens es := by
  rw [opens, List.countP_append, List.countP_singleton, Event.opens, opens]
  split <;> rfl

theorem opens_agent (es : List Event) (e : Conn.Event) : opens (es ++ [.agent e]) = opens es := by
  rw [opens, List.countP_append, List.countP_singleton, opens]
  rfl

end Link

namespace Conn

variable {cfg : Config} {c c' : Conn} {e : Event} {n : Nat}

/-- The first `n` identifiers were given, each once. -/
structure Numbered (n : Nat) (c : Conn) : Prop where
  nextID : c.nextID = n
  le : ∀ id ∈ c.streams.map Stream.id, id ≤ n
  nodup : (c.streams.map Stream.id).Nodup

theorem Numbered.givenOnce (h : c.Numbered n) (id : Nat) : c.GivenOnce id := by
  have hcount : (c.streams.map Stream.id).countP (· = id) = (c.streams.map Stream.id).count id :=
    List.countP_congr fun _ _ => by simp
  rw [GivenOnce, countP_id, hcount]
  exact List.nodup_iff_count_le_one.mp h.nodup id

/-- Only `OpenStream` counts. -/
theorem step_nextID (hstep : c.step cfg e = some c') (hopen : Link.opensStream e = false) :
    c'.nextID = c.nextID := by
  cases step_cases hstep with
  | inserted => simp [Link.opensStream] at hopen
  | refused => simp [Link.opensStream] at hopen
  | act hk ha =>
      unfold apply
      split <;> rfl
  | received hr =>
      rename_i f now
      have hd := dispatch_cases cfg { c with input := c.input ++ [f] } now f
      generalize ({ c with input := c.input ++ [f] }).dispatch cfg now f = c₁ at *
      cases hd with
      | opened hf hins =>
          obtain ⟨-, -, table, rfl, -⟩ := insertStream_cases hins
          rfl
      | _ => rfl
  | _ => rfl

/-- A connection without `onOpen` makes no stream for a frame. -/
theorem step_receive_outbound {f : Frame} {now : Int} (haccepts : cfg.accepts = false)
    (hstep : c.step cfg (.receive f now) = some c') {s : Stream} :
    c'.streams ≠ c.streams ++ [s] := by
  intro hstreams
  obtain ⟨protocol, now', he, -⟩ := Link.opened_of_step rfl hstep hstreams
  obtain ⟨rfl, -⟩ := Event.receive.inj he
  have hlen := congrArg List.length hstreams
  simp only [step, tooLarge, dispatch, haccepts, stop] at hstep
  split at hstep
  · obtain rfl := Option.some.inj hstep
    simp at hlen
  · contradiction

/-- `OpenStream` gives the next identifier. -/
theorem Numbered.step (h : c.Numbered n) (hb : BudgetOk cfg c) (haccepts : cfg.accepts = false)
    (hn : Link.opensStream e = true → n + 1 < 2 ^ 32) (hstep : c.step cfg e = some c') :
    c'.Numbered (if Link.opensStream e then n + 1 else n) := by
  cases hopen : Link.opensStream e with
  | true =>
      have hnext : (c.nextID + 1) % 2 ^ 32 = n + 1 := by
        rw [h.nextID, Nat.mod_eq_of_lt (hn hopen)]
      cases e with
      | openStream protocol group now victim =>
          cases step_cases hstep with
          | inserted hv hins =>
              obtain ⟨-, -, table, rfl, -⟩ := insertStream_cases hins
              simp only [hnext, if_true]
              refine ⟨rfl, fun id hid => ?_, ?_⟩
              · rw [List.map_append, List.mem_append] at hid
                cases hid with
                | inl hid => exact (h.le id hid).trans (Nat.le_succ n)
                | inr hid => exact (List.mem_singleton.mp hid).le
              · rw [List.map_append, List.nodup_append]
                refine ⟨h.nodup, List.nodup_singleton _, fun id hid id' hid' heq => ?_⟩
                have hle := h.le id hid
                rw [heq, List.mem_singleton.mp hid'] at hle
                exact absurd hle (Nat.not_succ_le_self n)
          | refused =>
              simp only [hnext, if_true]
              exact ⟨rfl, fun id hid => (h.le id hid).trans (Nat.le_succ n), h.nodup⟩
      | _ => contradiction
  | false =>
      have hids : c'.streams.map Stream.id = c.streams.map Stream.id := by
        rcases step_ids hb hstep with hids | ⟨s, hstreams⟩
        · exact hids
        · obtain ⟨protocol, now, rfl, -⟩ := Link.opened_of_step hopen hstep hstreams
          exact absurd hstreams (step_receive_outbound haccepts hstep)
      refine ⟨(step_nextID hstep hopen).trans h.nextID, ?_, ?_⟩
      · rw [hids]
        exact h.le
      · rw [hids]
        exact h.nodup

end Conn

namespace Link

variable {cfg : Side → Config} {l : Link}

/-- The relay's first 2^32 - 1 calls give every identifier once. -/
theorem givenOnce_of_opens (haccepts : (cfg .relay).accepts = false) {es : List Event}
    (hrun : Conc.exec (stepOf (cfg .relay) (cfg .agent)) init es = some l)
    (hopens : opens es < 2 ^ 32) (id : Nat) : l.relay.GivenOnce id := by
  have h : Joined cfg l ∧ (opens ([] ++ es) < 2 ^ 32 → l.relay.Numbered (opens ([] ++ es))) := by
    refine Conc.exec_history
      (I := fun past l => Joined cfg l ∧ (opens past < 2 ^ 32 → l.relay.Numbered (opens past)))
      ?_ ⟨init_joined cfg, fun _ => ⟨rfl, by simp [init, newConn], by simp [init, newConn]⟩⟩ hrun
    rintro past l e l' ⟨hjoined, hnumbered⟩ hstep
    refine ⟨hjoined.step hstep, fun hlt => ?_⟩
    cases e with
    | relay e =>
        rw [opens_relay] at hlt ⊢
        simp only [stepOf] at hstep
        split at hstep
        · obtain ⟨c, hc, rfl⟩ := Option.map_eq_some_iff.mp hstep
          have hbefore := hnumbered (by split at hlt <;> omega)
          exact hbefore.step (hjoined.good .relay).ordered.budget haccepts
            (fun hopen => by rw [if_pos hopen] at hlt; exact hlt) hc
        · contradiction
    | agent e =>
        rw [opens_agent] at hlt ⊢
        simp only [stepOf] at hstep
        split at hstep
        · obtain ⟨c, hc, rfl⟩ := Option.map_eq_some_iff.mp hstep
          exact hnumbered hlt
        · contradiction
  exact (h.2 hopens).givenOnce id

/-- What `Read` returns on a TCP stream is what the calls of `WriteContext` on the stream
at the other end have accepted, from the first byte on; once the other end has ended its
side all of it is returned or can be read, until the stream is closed or aborted here. -/
structure Carried (l : Link) (x : Side) (s : Stream) : Prop where
  first : s.consumed <+: (l.conn x.other).acceptedOn s.id
  kept : s.tearing = false → s.delivered.any ends = true →
    s.consumed ++ s.pending = (l.conn x.other).acceptedOn s.id

theorem Joined.carried (h : Joined cfg l) {x : Side} {s : Stream}
    (hs : s ∈ (l.conn x).streams) (hp : s.protocol = .tcp) (honce : l.relay.GivenOnce s.id) :
    Carried l x s := by
  obtain ⟨hfirst, hall⟩ := h.arrived hs honce
  obtain ⟨i, hi⟩ := List.getElem?_of_mem hs
  have hread := (h.good x).ordered.readable hi hp
  refine ⟨hread.first.trans hfirst, fun ht he => ?_⟩
  obtain ⟨later, hlater⟩ := (h.good x).ordered.routed s hs
  rw [hread.kept ht he, hall (by rw [← hlater, List.any_append, he, Bool.true_or])]

end Link

/-! ## the bytes of a stream -/

/-- **Order and isolation.** In every state of every run of a connection, whatever frames
the peer sends and in whatever order, `Read` returns the bytes that came for the stream
(`Conn.Readable`), and no sequence of steps of one stream, the handling of frames it must
not get included, changes another stream or ends the tunnel.  In every state of every run
of the two ends of a tunnel, whatever they have negotiated: the DATA frames of a stream
are the bytes its `WriteContext` calls have accepted, each end reads the frames of the
other in order, and `Read` returns the bytes that were accepted at the other end on the
stream with the identifier (`Link.Carried`), which the relay has given to no other stream
before its 2^32nd `OpenStream` call. -/
theorem stream_order :
    (∀ (cfg : Config) (es : List Conn.Event) (c : Conn), newConn.run cfg es = some c →
      ∀ i,
        (∀ s, c.streams[i]? = some s → s.protocol = .tcp → Conn.Readable cfg c s) ∧
        (∀ es' c', Conc.Meets (Conn.step cfg) (Conn.Touches cfg i) c es' →
          c.run cfg es' = some c' → Conn.Isolated i c c')) ∧
    (∀ (cfg : Side → Config) (es : List Link.Event) (l : Link),
      Conc.exec (Link.stepOf (cfg .relay) (cfg .agent)) Link.init es = some l →
      (∀ x, ∀ s ∈ (l.conn x).streams, dataOf s.written = s.accepted) ∧
      (∀ x, (l.conn x).input <+: (l.conn x.other).output) ∧
      (∀ x, ∀ s ∈ (l.conn x).streams, s.protocol = .tcp → l.relay.GivenOnce s.id →
        Link.Carried l x s) ∧
      ((cfg .relay).accepts = false → Link.opens es < 2 ^ 32 →
        ∀ id, l.relay.GivenOnce id)) := by
  refine ⟨fun cfg es c hrun i => ?_, fun cfg es l hrun => ?_⟩
  · have h : Conn.Ordered cfg c := Conc.exec_invariant
      (fun _ _ _ h hstep => Conn.Ordered.step h hstep) (Conn.newConn_ordered cfg) hrun
    exact ⟨fun s hs hp => h.readable hs hp,
      fun es' c' hm hrun' => Conn.isolated_run h.budget hm hrun'⟩
  · have h : Link.Joined cfg l := Conc.exec_invariant
      (fun _ _ _ h hstep => Link.Joined.step h hstep) (Link.init_joined cfg) hrun
    exact ⟨fun x s hs => ((h.good x).wrote s hs).bytes, h.reads,
      fun x s hs hp honce => h.carried hs hp honce,
      fun haccepts hopens => Link.givenOnce_of_opens haccepts hrun hopens⟩

/-- Two streams with interleaved frames: the relay writes `[1, 2, 3]` and `[4]` on the
first and ends its side of it, `[9]` goes over the second and `[7]` comes back, and the
agent reads two bytes of the first stream. -/
def twoStreamsRun : List Link.Event :=
  [.relay (.openStream .tcp "" 0 none), .relay (.opening 0),
    .relay (.openStream .tcp "" 0 none), .relay (.opening 1),
    .agent (.receive (.stream 1 (.opening (some .tcp))) 0),
    .relay (.act 0 (.write [1, 2, 3])), .relay (.act 1 (.write [9])),
    .relay (.act 0 .writeCheck), .relay (.act 1 .writeCheck), .relay (.act 1 .writeTake),
    .relay (.act 0 .writeTake), .relay (.act 0 (.writeFrame 0)), .relay (.act 1 (.writeFrame 0)),
    .agent (.receive (.stream 2 (.opening (some .tcp))) 0),
    .agent (.receive (.stream 1 (.data [1, 2, 3])) 0), .agent (.handle 0),
    .agent (.act 1 (.write [7])), .agent (.act 1 .writeCheck), .agent (.act 1 .writeTake),
    .agent (.act 1 (.writeFrame 0)), .agent (.act 0 (.read 2)),
    .relay (.act 0 .writeCheck), .relay (.act 0 (.write [4])), .relay (.act 0 .writeCheck),
    .relay (.act 0 .writeTake), .relay (.act 0 (.writeFrame 0)), .relay (.act 0 .writeCheck),
    .relay (.act 0 .closeWrite), .relay (.act 0 .closeWriteFrame),
    .relay (.receive (.stream 2 (.data [7])) 0), .relay (.handle 0), .relay (.act 1 (.read 4)),
    .agent (.receive (.stream 2 (.data [9])) 0), .agent (.handle 0),
    .agent (.receive (.stream 1 (.data [4])) 0), .agent (.handle 0),
    .agent (.receive (.stream 1 .closeWrite) 0), .agent (.handle 0)]

theorem stream_order_two_streams :
    ∃ l s, Conc.exec (Link.stepOf (relayConfig 256 1) agentConfig) Link.init twoStreamsRun =
        some l ∧ l.agent.streams[0]? = some s ∧ s.consumed = [1, 2] ∧ s.pending = [3, 4] ∧
      s.consumed ++ s.pending = l.relay.acceptedOn 1 := by
  have hobs : (Conc.exec (Link.stepOf (relayConfig 256 1) agentConfig) Link.init
      twoStreamsRun).any (fun l => (l.agent.streams[0]?).any fun s => decide (s.id = 1 ∧
        s.protocol = .tcp ∧ s.consumed = [1, 2] ∧ s.pending = [3, 4] ∧ s.tearing = false ∧
        s.delivered.any ends = true)) = true := by decide +kernel
  obtain ⟨l, hl, hobs⟩ := (Option.any_eq_true _ _).mp hobs
  obtain ⟨s, hs, hobs⟩ := (Option.any_eq_true _ _).mp hobs
  obtain ⟨hid, hp, hconsumed, hpending, ht, he⟩ := of_decide_eq_true hobs
  obtain ⟨-, -, hcarried, honce⟩ := stream_order.2 (Pair.tunnelConfig 256 1) twoStreamsRun l hl
  have hkept := (hcarried .agent s (List.mem_of_getElem? hs) hp
    (honce rfl (by decide) s.id)).kept ht he
  exact ⟨l, s, hl, hs, hconsumed, hpending, hid ▸ hkept⟩

end Tunnel
