import Blindport.Tunnel.Conn
import Blindport.Tunnel.Receive

/-!
# Blindport.Tunnel.Changes

Everything a step of a connection can do to one of its streams.  The invariants
of the later modules go by cases on `Change`.
-/

namespace Tunnel

namespace Conn

variable {cfg : Config} {c c' : Conn} {e : Event} {i : Nat} {s t : Stream}

/-- What the event `e` can do to the stream at `i`, and what `Run` has to do for it
afterwards. -/
inductive Change (cfg : Config) (c : Conn) (e : Event) (i : Nat) (s : Stream) :
    Stream → Option Stream.Todo → Prop where
  | same : Change cfg c e i s s (c.todo i)
  | act {a : Stream.Act} {eff : Stream.Effect} (he : e = .act i a)
      (ha : s.act cfg c.closed c.budget a = some eff) : Change cfg c e i s eff.stream (c.todo i)
  | handle {now : Int} {todo : Stream.Todo} {t : Stream} {b : Budget} {rest : Option Stream.Todo}
      (he : e = .handle now) (hr : c.todo i = some todo)
      (hh : s.handle cfg c.budget now todo = some (t, b, rest)) : Change cfg c e i s t rest
  /-- `evicted.Store(true)` of the `OpenStream` call that made `k`. -/
  | mark {k : Nat} {o : Stream} (he : e = .opening k) (hk : c.streams[k]? = some o)
      (ho : o.opening = .evicting i) :
      Change cfg c e i s { s with evicted := true } (c.todo i)
  | enter {k : Nat} {o t : Stream} (he : e = .opening k) (hk : c.streams[k]? = some o)
      (ho : o.opening = .aborting i) (ht : s.enter .abort = some (t, false)) :
      Change cfg c e i s t (c.todo i)
  | abortReturns {k : Nat} {o t : Stream} (he : e = .opening k) (hk : c.streams[k]? = some o)
      (ho : o.opening = .aborting i) (ht : s.enter .abort = some (t, true)) :
      Change cfg c e i s { t with torn := true } (c.todo i)
  | toAborting {v : Nat} (he : e = .opening i) (ho : s.opening = .evicting v) :
      Change cfg c e i s { s with opening := .aborting v } (c.todo i)
  | toWriting {v : Nat} (he : e = .opening i) (ho : s.opening = .aborting v) :
      Change cfg c e i s { s with opening := .writing } (c.todo i)
  | opens (he : e = .opening i) (ho : s.opening = .writing) (hc : c.closed = false) :
      Change cfg c e i s (({ s with opening := .opened }).emit (.opening (some s.protocol)))
        (c.todo i)
  | openFails (he : e = .openingFails i) (ho : s.opening = .writing) (hc : c.closed = true) :
      Change cfg c e i s { s with opening := .failed } (c.todo i)
  | sweep (he : e = .closeStreams) (hc : c.closed = true) :
      Change cfg c e i s { s with sweeps := s.sweeps + 1 } (c.todo i)
  | routed {id : Nat} {signal : Signal} {now : Int} (he : e = .receive (.stream id signal) now)
      (hi : c.getStream id = some i) (hr : c.todo i = none) :
      Change cfg c e i s { s with delivered := s.delivered ++ [signal] } (some (.deliver signal))

/-- A stream made by the event. -/
structure Fresh (cfg : Config) (c : Conn) (e : Event) (i : Nat) (s : Stream) : Prop where
  index : i = c.streams.length
  new : ∃ id protocol group now opening born,
    s = newStream cfg id protocol group now opening born ∧
    ((opening = .opened ∧ born = c.input.length + 1 ∧
        e = .receive (.stream id (.opening (some protocol))) now) ∨
      ((opening = .writing ∨ ∃ v, opening = .evicting v ∧ v < c.streams.length) ∧
        born = c.input.length ∧
        ∃ victim, e = .openStream protocol group now victim))

/-- What `Run` can do with a frame it has read. -/
inductive Dispatched (cfg : Config) (c : Conn) (now : Int) (f : Frame) : Conn → Prop where
  | stop (reason : StopReason) : Dispatched cfg c now f (c.stop reason)
  | ignore (h : ∀ id signal, f = .stream id signal → ∀ k, c.getStream id = some k →
      c.streams[k]? = none) : Dispatched cfg c now f c
  | pong (h : f = .ping) : Dispatched cfg c now f { c with output := c.output ++ [.pong] }
  | opened {id : Nat} {protocol : Transport} {c' : Conn}
      (hf : f = .stream id (.opening (some protocol)))
      (h : c.insertStream cfg (newStream cfg id protocol "" now .opened c.input.length) false none =
        .ok c') : Dispatched cfg c now f c'
  | routed {id k : Nat} {signal : Signal} (hf : f = .stream id signal)
      (hk : c.getStream id = some k) (ho : ∀ protocol, signal ≠ .opening protocol) :
      Dispatched cfg c now f { c with
        reader := .busy k (.deliver signal)
        streams := c.streams.modify k fun s => { s with delivered := s.delivered ++ [signal] } }

/-! ## inversion -/

theorem insertStream_cases {evict : Bool} {victim : Option Nat}
    (h : c.insertStream cfg s evict victim = .ok c') :
    s.id ≠ 0 ∧ c.getStream s.id = none ∧ ∃ table,
      c' = { c with streams := c.streams ++ [s], table := (s.id, c.streams.length) :: table } ∧
      ((c.table.length < cfg.maxStreams ∧ table = c.table) ∨
        ∃ v w, evict = true ∧ victim = some v ∧ c.streams[v]? = some w ∧
          table = c.table.filter (·.1 ≠ w.id)) := by
  unfold insertStream at h
  split at h
  · contradiction
  · rename_i hid
    split at h
    · contradiction
    · rename_i hget
      refine ⟨hid, by simpa using hget, ?_⟩
      split at h
      · split at h
        · rename_i hevict
          split at h
          · rename_i w hw
            obtain ⟨v, hv, hvw⟩ := Option.bind_eq_some_iff.mp hw
            obtain rfl := Except.ok.inj h
            exact ⟨_, rfl, .inr ⟨v, w, hevict, hv, hvw, rfl⟩⟩
          · contradiction
        · contradiction
      · rename_i hlen
        obtain rfl := Except.ok.inj h
        exact ⟨_, rfl, .inl ⟨by omega, rfl⟩⟩

theorem route_dispatched {now : Int} {f : Frame} {id : Nat} {signal : Signal}
    (hf : f = .stream id signal) (ho : ∀ protocol, signal ≠ .opening protocol) :
    Dispatched cfg c now f (c.route id signal) := by
  unfold route
  split
  · rename_i k hk
    exact .routed hf hk ho
  · rename_i hk
    refine .ignore fun id' signal' hf' k hk' => ?_
    rw [hf, Frame.stream.injEq] at hf'
    rw [← hf'.1, hk] at hk'
    contradiction

/-- Inversion for the dispatch of a frame. -/
theorem dispatch_cases (cfg : Config) (c : Conn) (now : Int) (f : Frame) :
    Dispatched cfg c now f (c.dispatch cfg now f) := by
  unfold dispatch
  split
  · rename_i id protocol
    split
    · exact .stop _
    · split
      · exact .stop _
      · split
        · rename_i hins
          exact .opened rfl hins
        · exact .stop _
  · exact route_dispatched rfl (by simp)
  · exact route_dispatched rfl (by simp)
  · split
    · exact .stop _
    · exact route_dispatched rfl (by simp)
  · split
    · exact .stop _
    · split
      · exact .stop _
      · split
        · split
          · exact .stop _
          · exact route_dispatched rfl (by simp)
        · rename_i hget
          refine .ignore fun id' signal' hf k hk => ?_
          rw [Frame.stream.injEq] at hf
          rw [hf.1, hk, Option.bind_some] at hget
          exact hget
  · split
    · exact .stop _
    · split
      · exact .stop _
      · exact route_dispatched rfl (by simp)
  · exact .pong rfl
  · exact .ignore (by simp)
  · exact .stop _

/-- The first statement of an `OpenStream` call after the insertion. -/
def openingOf : Option Nat → Opening
  | some v => .evicting v
  | none => .writing

/-- `Run` after a section for the stream at `k`. -/
def readerAfter (k : Nat) : Option Stream.Todo → Reader
  | some todo => .busy k todo
  | none => .idle

/-- Everything a step can do. -/
inductive Stepped (cfg : Config) (c : Conn) : Event → Conn → Prop where
  | inserted {protocol : Transport} {group : String} {now : Int} {victim : Option Nat}
      {c' : Conn} (hv : c.victimAllowed cfg group now victim = true)
      (h : ({ c with nextID := (c.nextID + 1) % 2 ^ 32 }).insertStream cfg
        (newStream cfg ((c.nextID + 1) % 2 ^ 32) protocol group now (openingOf victim)
          c.input.length) (decide (cfg.evictIdle > 0)) victim = .ok c') :
      Stepped cfg c (.openStream protocol group now victim) c'
  | refused {protocol : Transport} {group : String} {now : Int} {victim : Option Nat} :
      Stepped cfg c (.openStream protocol group now victim)
        { c with nextID := (c.nextID + 1) % 2 ^ 32 }
  | marks {k v : Nat} {o w : Stream} (hk : c.streams[k]? = some o)
      (ho : o.opening = .evicting v) (hv : c.streams[v]? = some w) :
      Stepped cfg c (.opening k) ((c.setStream v { w with evicted := true }).setStream k
        { o with opening := .aborting v })
  | enters {k v : Nat} {o w w' : Stream} (hk : c.streams[k]? = some o)
      (ho : o.opening = .aborting v) (hv : c.streams[v]? = some w)
      (hw : w.enter .abort = some (w', false)) : Stepped cfg c (.opening k) (c.setStream v w')
  | abortReturns {k v : Nat} {o w w' : Stream} (hk : c.streams[k]? = some o)
      (ho : o.opening = .aborting v) (hv : c.streams[v]? = some w)
      (hw : w.enter .abort = some (w', true)) :
      Stepped cfg c (.opening k) ((c.setStream v { w' with torn := true }).setStream k
        { o with opening := .writing })
  | opens {k : Nat} {o : Stream} (hk : c.streams[k]? = some o) (ho : o.opening = .writing)
      (hc : c.closed = false) :
      Stepped cfg c (.opening k) { c.setStream k (({ o with opening := .opened }).emit
          (.opening (some o.protocol))) with
        output := c.output ++ [.stream o.id (.opening (some o.protocol))] }
  | openFails {k : Nat} {o : Stream} (hk : c.streams[k]? = some o) (ho : o.opening = .writing)
      (hc : c.closed = true) :
      Stepped cfg c (.openingFails k)
        ((c.setStream k { o with opening := .failed }).removeStream o.id)
  | act {k : Nat} {a : Stream.Act} {o : Stream} {eff : Stream.Effect}
      (hk : c.streams[k]? = some o) (ha : o.act cfg c.closed c.budget a = some eff) :
      Stepped cfg c (.act k a) (c.apply k eff)
  | tooLarge {f : Frame} {now : Int} (hr : c.reader = .idle) :
      Stepped cfg c (.receive f now) (c.stop .payloadTooLarge)
  | received {f : Frame} {now : Int} (hr : c.reader = .idle) :
      Stepped cfg c (.receive f now) (({ c with input := c.input ++ [f] }).dispatch cfg now f)
  | receiveFails (hr : c.reader = .idle) : Stepped cfg c .receiveFails (c.stop .readFailed)
  | handle {k : Nat} {todo : Stream.Todo} {now : Int} {o t : Stream} {b : Budget}
      {rest : Option Stream.Todo} (hr : c.reader = .busy k todo) (hk : c.streams[k]? = some o)
      (hh : o.handle cfg c.budget now todo = some (t, b, rest)) :
      Stepped cfg c (.handle now) { c.setStream k t with
        budget := b
        reader := readerAfter k rest }
  | close (hc : c.closed = false) : Stepped cfg c .close { c with closed := true }
  | closeStreams (hc : c.closed = true) : Stepped cfg c .closeStreams c.closeStreams

/-- **Inversion** of a step. -/
theorem step_cases (h : c.step cfg e = some c') : Stepped cfg c e c' := by
  cases e with
  | openStream protocol group now victim =>
      simp only [step] at h
      split at h
      · rename_i hv
        split at h
        · rename_i c₁ hins
          obtain rfl := Option.some.inj h
          exact .inserted hv hins
        · obtain rfl := Option.some.inj h
          exact .refused
      · contradiction
  | opening k =>
      simp only [step, openingStep] at h
      obtain ⟨o, hk, h⟩ := Option.bind_eq_some_iff.mp h
      split at h
      · rename_i v ho
        obtain ⟨w, hv, rfl⟩ := Option.map_eq_some_iff.mp h
        exact .marks hk ho hv
      · rename_i v ho
        obtain ⟨w, hv, h⟩ := Option.bind_eq_some_iff.mp h
        obtain ⟨⟨w', returned⟩, hw, rfl⟩ := Option.map_eq_some_iff.mp h
        cases returned with
        | true => exact .abortReturns hk ho hv hw
        | false => exact .enters hk ho hv hw
      · rename_i ho
        split at h
        · contradiction
        · rename_i hc
          obtain rfl := Option.some.inj h
          exact .opens hk ho (by simpa using hc)
      · contradiction
      · contradiction
  | openingFails k =>
      simp only [step] at h
      obtain ⟨o, hk, h⟩ := Option.bind_eq_some_iff.mp h
      split at h
      · rename_i hg
        obtain rfl := Option.some.inj h
        exact .openFails hk hg.1 hg.2
      · contradiction
  | act k a =>
      simp only [step] at h
      obtain ⟨o, hk, h⟩ := Option.bind_eq_some_iff.mp h
      obtain ⟨eff, ha, rfl⟩ := Option.map_eq_some_iff.mp h
      exact .act hk ha
  | receive f now =>
      simp only [step] at h
      split at h
      · rename_i hg
        split at h
        · obtain rfl := Option.some.inj h
          exact .tooLarge hg.1
        · obtain rfl := Option.some.inj h
          exact .received hg.1
      · contradiction
  | receiveFails =>
      simp only [step] at h
      split at h
      · rename_i hr
        obtain rfl := Option.some.inj h
        exact .receiveFails hr
      · contradiction
  | handle now =>
      simp only [step] at h
      split at h
      · rename_i k todo hr
        obtain ⟨o, hk, h⟩ := Option.bind_eq_some_iff.mp h
        obtain ⟨⟨t, b, rest⟩, hh, rfl⟩ := Option.map_eq_some_iff.mp h
        exact .handle hr hk hh
      · contradiction
  | close =>
      simp only [step] at h
      split at h
      · contradiction
      · rename_i hc
        obtain rfl := Option.some.inj h
        exact .close (by simpa using hc)
  | closeStreams =>
      simp only [step] at h
      split at h
      · rename_i hc
        obtain rfl := Option.some.inj h
        exact .closeStreams hc
      · contradiction

theorem apply_streams (c : Conn) (k : Nat) (eff : Stream.Effect) :
    (c.apply k eff).streams = c.streams.set k eff.stream := by
  unfold apply
  split <;> rfl

theorem apply_budget (c : Conn) (k : Nat) (eff : Stream.Effect) :
    (c.apply k eff).budget = eff.budget := by
  unfold apply
  split <;> rfl

theorem apply_todo (c : Conn) (k : Nat) (eff : Stream.Effect) (i : Nat) :
    (c.apply k eff).todo i = c.todo i := by
  unfold apply
  split <;> rfl

/-- The rest of the connection after a section of a goroutine. -/
theorem apply_conn (c : Conn) (k : Nat) (eff : Stream.Effect) :
    (c.apply k eff).input = c.input ∧ (c.apply k eff).reader = c.reader ∧
      (c.apply k eff).closed = c.closed ∧ (c.apply k eff).table.Sublist c.table := by
  unfold apply
  split
  · exact ⟨rfl, rfl, rfl, List.filter_sublist⟩
  · exact ⟨rfl, rfl, rfl, List.Sublist.refl _⟩

theorem todo_of_idle (h : c.reader = .idle) (i : Nat) : c.todo i = none := by
  simp [todo, h]

theorem reader_of_todo {d : Stream.Todo} (h : c.todo i = some d) : c.reader = .busy i d := by
  unfold todo at h
  split at h
  · rename_i k d' hr
    split at h
    · rename_i hk
      rw [hr, hk, Option.some.inj h]
    · contradiction
  · contradiction

theorem getElem?_set_cases {l : List Stream} {j : Nat} {x y : Stream}
    (h : (l.set j x)[i]? = some y) : (i = j ∧ y = x ∧ i < l.length) ∨ (i ≠ j ∧ l[i]? = some y) := by
  rw [List.getElem?_set] at h
  split at h
  · rename_i hji
    split at h
    · rename_i hlt
      exact .inl ⟨hji.symm, (Option.some.inj h).symm, hji ▸ hlt⟩
    · contradiction
  · rename_i hne
    exact .inr ⟨Ne.symm hne, h⟩

/-- **Inversion.** A stream after a step is a stream before it that the step
changed in one of the ways `Change` lists, or the step made it. -/
theorem step_stream (h : c.step cfg e = some c') (ht : c'.streams[i]? = some t) :
    (∃ s, c.streams[i]? = some s ∧ Change cfg c e i s t (c'.todo i)) ∨ Fresh cfg c e i t := by
  have append : ∀ {u}, (c.streams ++ [u])[i]? = some t →
      c.streams[i]? = some t ∨ (i = c.streams.length ∧ t = u) := by
    intro u hu
    rw [List.getElem?_append] at hu
    split at hu
    · exact .inl hu
    · rename_i hlt
      have hi : i - c.streams.length = 0 := by
        by_contra hne
        rw [List.getElem?_eq_none (by simp; omega)] at hu
        contradiction
      rw [hi] at hu
      exact .inr ⟨by omega, (Option.some.inj hu).symm⟩
  have same : c'.todo i = c.todo i → c.streams[i]? = some t →
      (∃ s, c.streams[i]? = some s ∧ Change cfg c e i s t (c'.todo i)) ∨ Fresh cfg c e i t :=
    fun htodo h => .inl ⟨t, h, htodo ▸ .same⟩
  cases step_cases h with
  | inserted hallowed hins =>
      rename_i victim
      obtain ⟨-, -, table, rfl, hcase⟩ := insertStream_cases hins
      rcases append ht with hs | ⟨hi, rfl⟩
      · exact same rfl hs
      · refine .inr ⟨hi, _, _, _, _, _, _, rfl, .inr ⟨?_, rfl, victim, rfl⟩⟩
        cases victim with
        | none => exact .inl rfl
        | some v =>
            refine .inr ⟨v, rfl, ?_⟩
            rcases hcase with ⟨hlt, -⟩ | ⟨v', w, -, hv, hw, -⟩
            · have hlt : ¬ cfg.maxStreams ≤ c.table.length := Nat.not_le.mpr hlt
              simp [victimAllowed, hlt] at hallowed
            · rw [Option.some.inj hv]
              exact (List.getElem?_eq_some_iff.mp hw).1
  | refused => exact same rfl ht
  | marks hk ho hv =>
      rcases getElem?_set_cases ht with ⟨rfl, rfl, -⟩ | ⟨-, ht⟩
      · exact .inl ⟨_, hk, .toAborting rfl ho⟩
      · rcases getElem?_set_cases ht with ⟨rfl, rfl, -⟩ | ⟨-, ht⟩
        · exact .inl ⟨_, hv, .mark rfl hk ho⟩
        · exact same rfl ht
  | enters hk ho hv hw =>
      rcases getElem?_set_cases ht with ⟨rfl, rfl, -⟩ | ⟨-, ht⟩
      · exact .inl ⟨_, hv, .enter rfl hk ho hw⟩
      · exact same rfl ht
  | abortReturns hk ho hv hw =>
      rcases getElem?_set_cases ht with ⟨rfl, rfl, -⟩ | ⟨-, ht⟩
      · exact .inl ⟨_, hk, .toWriting rfl ho⟩
      · rcases getElem?_set_cases ht with ⟨rfl, rfl, -⟩ | ⟨-, ht⟩
        · exact .inl ⟨_, hv, .abortReturns rfl hk ho hw⟩
        · exact same rfl ht
  | opens hk ho hc =>
      rcases getElem?_set_cases ht with ⟨rfl, rfl, -⟩ | ⟨-, ht⟩
      · exact .inl ⟨_, hk, .opens rfl ho hc⟩
      · exact same rfl ht
  | openFails hk ho hc =>
      rcases getElem?_set_cases ht with ⟨rfl, rfl, -⟩ | ⟨-, ht⟩
      · exact .inl ⟨_, hk, .openFails rfl ho hc⟩
      · exact same rfl ht
  | act hk ha =>
      rw [apply_streams] at ht
      rw [apply_todo] at same ⊢
      rcases getElem?_set_cases ht with ⟨rfl, rfl, -⟩ | ⟨-, ht⟩
      · exact .inl ⟨_, hk, .act rfl ha⟩
      · exact same rfl ht
  | tooLarge hr => exact same (todo_of_idle hr i).symm ht
  | received hr =>
      rename_i f now
      have hidle := todo_of_idle hr i
      have hd := dispatch_cases cfg { c with input := c.input ++ [f] } now f
      generalize hc' : ({ c with input := c.input ++ [f] }).dispatch cfg now f = c₁ at *
      cases hd with
      | stop reason => exact same hidle.symm ht
      | ignore h => exact same rfl ht
      | pong h => exact same rfl ht
      | opened hf hins =>
          obtain ⟨-, -, table, rfl, -⟩ := insertStream_cases hins
          rcases append ht with hs | ⟨hi, rfl⟩
          · exact same rfl hs
          · exact .inr ⟨hi, _, _, _, _, _, _, rfl, .inl ⟨rfl, by simp, by rw [hf]⟩⟩
      | routed hf hk ho =>
          rename_i id k signal
          rw [List.getElem?_modify] at ht
          obtain ⟨s, hs, rfl⟩ := Option.map_eq_some_iff.mp ht
          by_cases hki : k = i
          · subst hki
            simp only [if_true, todo]
            exact .inl ⟨s, hs, .routed (by rw [hf]) hk hidle⟩
          · simp only [hki, if_false, todo]
            exact .inl ⟨s, hs, hidle ▸ .same⟩
  | receiveFails hr => exact same (todo_of_idle hr i).symm ht
  | handle hr hk hh =>
      rename_i k todo now o u b rest
      have htodo : ∀ j, ({ c.setStream k u with
          budget := b
          reader := readerAfter k rest } : Conn).todo j = if k = j then rest else none := by
        intro j
        cases rest <;> simp [Conn.todo, readerAfter]
      rw [htodo] at same ⊢
      rcases getElem?_set_cases ht with ⟨rfl, rfl, -⟩ | ⟨hne, ht⟩
      · rw [if_pos rfl]
        exact .inl ⟨o, hk, .handle rfl (by simp [Conn.todo, hr]) hh⟩
      · exact same (by simp [Conn.todo, hr, hne.symm]) ht
  | close hc => exact same rfl ht
  | closeStreams hc =>
      simp only [Conn.closeStreams, List.getElem?_mapIdx, Option.map_eq_some_iff] at ht
      obtain ⟨s, hs, rfl⟩ := ht
      split
      · exact .inl ⟨s, hs, .sweep rfl hc⟩
      · exact .inl ⟨s, hs, .same⟩

/-! ## the table -/

theorem mem_of_getStream {id : Nat} (h : c.getStream id = some i) : (id, i) ∈ c.table := by
  obtain ⟨l₁, l₂, hl, -⟩ := List.lookup_eq_some_iff.mp h
  rw [hl]
  simp

theorem getStream_of_mem {id : Nat} (hn : (c.table.map Prod.fst).Nodup) (h : (id, i) ∈ c.table) :
    c.getStream id = some i := by
  unfold getStream
  generalize c.table = l at hn h
  induction l with
  | nil => simp at h
  | cons entry l ih =>
      obtain ⟨id', i'⟩ := entry
      rw [List.map_cons, List.nodup_cons] at hn
      rw [List.lookup_cons]
      rcases List.mem_cons.mp h with heq | hmem
      · obtain ⟨rfl, rfl⟩ := Prod.mk.inj heq
        simp
      · have hne : (id == id') = false := by
          rw [beq_eq_false_iff_ne]
          rintro rfl
          exact hn.1 (List.mem_map.mpr ⟨_, hmem, rfl⟩)
        rw [hne]
        exact ih hn.2 hmem

/-- The table loses entries, or gets one for a new stream. -/
theorem step_table (h : c.step cfg e = some c') :
    (c'.table.Sublist c.table ∧ c'.streams.length = c.streams.length) ∨
    ∃ s table, c'.streams = c.streams ++ [s] ∧ c'.table = (s.id, c.streams.length) :: table ∧
      table.Sublist c.table ∧ c.getStream s.id = none := by
  have inserted : ∀ {d d' : Conn} {s evict victim}, d.streams = c.streams → d.table = c.table →
      d.insertStream cfg s evict victim = .ok d' →
      ∃ s table, d'.streams = c.streams ++ [s] ∧ d'.table = (s.id, c.streams.length) :: table ∧
        table.Sublist c.table ∧ c.getStream s.id = none := by
    intro d d' s evict victim hs ht hins
    obtain ⟨-, hget, table, rfl, hcase⟩ := insertStream_cases hins
    refine ⟨s, table, by rw [hs], by rw [hs], ?_, by rw [← hget, getStream, getStream, ht]⟩
    rcases hcase with ⟨-, rfl⟩ | ⟨v, w, -, -, -, rfl⟩
    · rw [ht]
    · rw [ht]
      exact List.filter_sublist
  cases step_cases h with
  | inserted hv hins => exact .inr (inserted (by rfl) (by rfl) hins)
  | refused => exact .inl ⟨List.Sublist.refl _, rfl⟩
  | marks hk ho hv => exact .inl ⟨List.Sublist.refl _, by simp [setStream]⟩
  | enters hk ho hv hw => exact .inl ⟨List.Sublist.refl _, by simp [setStream]⟩
  | abortReturns hk ho hv hw => exact .inl ⟨List.Sublist.refl _, by simp [setStream]⟩
  | opens hk ho hc => exact .inl ⟨List.Sublist.refl _, by simp [setStream]⟩
  | openFails hk ho hc => exact .inl ⟨List.filter_sublist, by simp [setStream, removeStream]⟩
  | act hk ha =>
      exact .inl ⟨(apply_conn ..).2.2.2, by rw [apply_streams, List.length_set]⟩
  | tooLarge hr => exact .inl ⟨List.Sublist.refl _, rfl⟩
  | received hr =>
      rename_i f now
      have hd := dispatch_cases cfg { c with input := c.input ++ [f] } now f
      generalize ({ c with input := c.input ++ [f] }).dispatch cfg now f = c₁ at *
      cases hd with
      | opened hf hins => exact .inr (inserted (by rfl) (by rfl) hins)
      | routed hf hk ho => exact .inl ⟨List.Sublist.refl _, List.length_modify ..⟩
      | _ => exact .inl ⟨List.Sublist.refl _, rfl⟩
  | receiveFails hr => exact .inl ⟨List.Sublist.refl _, rfl⟩
  | handle hr hk hh => exact .inl ⟨List.Sublist.refl _, by simp [setStream]⟩
  | close hc => exact .inl ⟨List.Sublist.refl _, rfl⟩
  | closeStreams hc => exact .inl ⟨List.nil_sublist _, by simp [Conn.closeStreams]⟩

/-- Only a frame that is read makes the input longer. -/
theorem step_input (h : c.step cfg e = some c') :
    (c'.input = c.input ∧ ∀ f now, e = .receive f now →
      (∃ r, c'.reader = .stopped r) ∧ c'.streams = c.streams) ∨
    ∃ f now, e = .receive f now ∧ c'.input = c.input ++ [f] ∧ c.reader = .idle ∧
      Dispatched cfg { c with input := c.input ++ [f] } now f c' := by
  cases step_cases h with
  | inserted hv hins =>
      obtain ⟨-, -, table, rfl, -⟩ := insertStream_cases hins
      exact .inl ⟨rfl, by simp⟩
  | act hk ha => exact .inl ⟨(apply_conn ..).1, by simp⟩
  | tooLarge hr => exact .inl ⟨rfl, fun _ _ _ => ⟨⟨_, rfl⟩, rfl⟩⟩
  | received hr =>
      rename_i f now
      have hd := dispatch_cases cfg { c with input := c.input ++ [f] } now f
      generalize ({ c with input := c.input ++ [f] }).dispatch cfg now f = c₁ at *
      refine .inr ⟨f, now, rfl, ?_, hr, hd⟩
      cases hd with
      | opened hf hins =>
          obtain ⟨-, -, table, rfl, -⟩ := insertStream_cases hins
          rfl
      | _ => rfl
  | _ => exact .inl ⟨rfl, by simp⟩

/-- Everything a step can do to the goroutine in `Run`. -/
theorem step_reader (h : c.step cfg e = some c') :
    c'.reader = c.reader ∨
    (∃ k d, c.reader = .busy k d ∧ (c'.reader = .idle ∨ ∃ d', c'.reader = .busy k d')) ∨
    (c.reader = .idle ∧ ((∃ r, c'.reader = .stopped r) ∨
      ∃ id f now k, e = .receive (.stream id f) now ∧ c.getStream id = some k ∧
        c'.reader = .busy k (.deliver f))) := by
  cases step_cases h with
  | inserted hv hins =>
      obtain ⟨-, -, table, rfl, -⟩ := insertStream_cases hins
      exact .inl rfl
  | act hk ha => exact .inl (apply_conn ..).2.1
  | tooLarge hr => exact .inr (.inr ⟨hr, .inl ⟨_, rfl⟩⟩)
  | received hr =>
      rename_i f now
      have hd := dispatch_cases cfg { c with input := c.input ++ [f] } now f
      generalize ({ c with input := c.input ++ [f] }).dispatch cfg now f = c₁ at *
      cases hd with
      | stop reason => exact .inr (.inr ⟨hr, .inl ⟨_, rfl⟩⟩)
      | opened hf hins =>
          obtain ⟨-, -, table, rfl, -⟩ := insertStream_cases hins
          exact .inl rfl
      | routed hf hk ho => exact .inr (.inr ⟨hr, .inr ⟨_, _, now, _, by rw [hf], hk, rfl⟩⟩)
      | _ => exact .inl rfl
  | receiveFails hr => exact .inr (.inr ⟨hr, .inl ⟨_, rfl⟩⟩)
  | handle hr hk hh =>
      rename_i k todo now o t b rest
      refine .inr (.inl ⟨k, todo, hr, ?_⟩)
      cases rest with
      | none => exact .inl rfl
      | some rest => exact .inr ⟨rest, rfl⟩
  | _ => exact .inl rfl

/-- A connection that was closed stays closed. -/
theorem step_closed (h : c.step cfg e = some c') : c'.closed = c.closed ∨ c'.closed = true := by
  cases step_cases h with
  | inserted hv hins =>
      obtain ⟨-, -, table, rfl, -⟩ := insertStream_cases hins
      exact .inl rfl
  | act hk ha => exact .inl (apply_conn ..).2.2.1
  | received hr =>
      rename_i f now
      have hd := dispatch_cases cfg { c with input := c.input ++ [f] } now f
      generalize ({ c with input := c.input ++ [f] }).dispatch cfg now f = c₁ at *
      cases hd with
      | opened hf hins =>
          obtain ⟨-, -, table, rfl, -⟩ := insertStream_cases hins
          exact .inl rfl
      | _ => exact .inl rfl
  | close hc => exact .inr rfl
  | _ => exact .inl rfl

/-- `Run` goes on with the stream it has, or with the one it looks up. -/
theorem step_busy (h : c.step cfg e = some c') {k : Nat} {d : Stream.Todo}
    (hr : c'.reader = .busy k d) :
    (∃ d', c.reader = .busy k d') ∨
      ∃ id f now, e = .receive (.stream id f) now ∧ c.getStream id = some k := by
  rcases step_reader h with heq | ⟨k', d', hk, hidle | ⟨d'', hbusy⟩⟩ |
    ⟨-, ⟨r, hs⟩ | ⟨id, f, now, k', he, hget, hbusy⟩⟩
  · exact .inl ⟨d, heq ▸ hr⟩
  · rw [hidle] at hr
    contradiction
  · rw [hbusy, Reader.busy.injEq] at hr
    exact .inl ⟨d', hr.1 ▸ hk⟩
  · rw [hs] at hr
    contradiction
  · rw [hbusy, Reader.busy.injEq] at hr
    exact .inr ⟨id, f, now, he, hr.1 ▸ hget⟩

/-- `Run` does not come back. -/
theorem step_stopped (h : c.step cfg e = some c') {r : StopReason} (hr : c.reader = .stopped r) :
    c'.reader = .stopped r := by
  rcases step_reader h with heq | ⟨k, d, hk, -⟩ | ⟨hidle, -⟩
  · rw [heq, hr]
  · rw [hr] at hk
    contradiction
  · rw [hr] at hidle
    contradiction

/-- A stream of the connection is still there after a step. -/
theorem step_later (hstep : c.step cfg e = some c')
    (hs : c.streams[i]? = some s) :
    ∃ t, c'.streams[i]? = some t ∧ Change cfg c e i s t (c'.todo i) := by
  have hlt : i < c.streams.length := (List.getElem?_eq_some_iff.mp hs).1
  have hlt' : i < c'.streams.length := by
    rcases step_table hstep with ⟨-, hlen⟩ | ⟨u, table, hstr, -⟩
    · omega
    · rw [hstr, List.length_append]
      omega
  refine ⟨c'.streams[i], List.getElem?_eq_getElem hlt', ?_⟩
  rcases step_stream hstep (List.getElem?_eq_getElem hlt') with ⟨s', hs', hch⟩ | hf
  · rw [hs, Option.some.injEq] at hs'
    exact hs' ▸ hch
  · have := hf.index
    omega

end Conn

end Tunnel
