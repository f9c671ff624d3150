import Blindport.Tunnel.Order

/-!
# Blindport.Tunnel.Proxy

`internal/tcpproxy/proxy.go`: the direction of `ProxyObserved` that copies a tunnel
stream to a local socket and passes a clean end of stream on with `CloseWrite`.

The goroutine of the other direction, `closeEndpoints` and the rest of the
connection are its environment: they write, half-close and close the stream at any
time.  Only the copy reads the stream.
-/

namespace Tunnel

/-- The copying goroutine. -/
inductive Copy where
  /-- `io.Copy` before a `Read` of the stream. -/
  | reading
  /-- `io.Copy` before the `Write` of what it read. -/
  | writing (rest : List UInt8)
  /-- `io.Copy` returned without an error. -/
  | ended
  /-- `CloseWrite` returned without an error. -/
  | propagated
  | failed
deriving DecidableEq

/-- The copy is not over. -/
def Copy.running : Copy → Bool
  | .reading | .writing _ => true
  | _ => false

/-- One direction of a proxy: the stream, the goroutine and what the socket got. -/
structure Proxy where
  handle : Nat
  copy : Copy
  socket : List UInt8

/-- A connection with a proxy on one of its streams. -/
structure Proxied where
  conn : Conn
  proxy : Option Proxy

namespace Proxied

/-- What can happen next. -/
inductive Event where
  /-- Any other goroutine. -/
  | conn (e : Conn.Event)
  /-- `ProxyObserved` is called with a stream. -/
  | attach (handle : Nat)
  | read (n : Nat)
  | socketWrite
  /-- The socket takes `n` bytes and fails. -/
  | socketFails (n : Nat)
  | closeWrite (ok : Bool)

/-- What `io.Copy` does with the result of a `Read`. -/
def afterRead : Stream.ReadResult → Copy
  | .bytes payload => .writing payload
  | .eof => .ended
  | .streamEvicted | .shortBuffer => .failed
  | .wait => .reading

/-- One step; `none` when it cannot happen. -/
def step (cfg : Config) (p : Proxied) : Event → Option Proxied
  | .conn e =>
      match p.proxy, e with
      | some q, .act k (.read n) =>
          if k = q.handle then none
          else (p.conn.step cfg (.act k (.read n))).map fun c => { p with conn := c }
      | _, e => (p.conn.step cfg e).map fun c => { p with conn := c }
  | .attach handle =>
      match p.proxy, p.conn.streams[handle]? with
      | none, some s =>
          if s.protocol = .tcp ∧ s.opening = .opened ∧ s.consumed = [] then
            some { p with proxy := some ⟨handle, .reading, []⟩ }
          else none
      | _, _ => none
  | .read n =>
      match p.proxy with
      | some ⟨handle, .reading, socket⟩ =>
          if 0 < n then
            (p.conn.streams[handle]?).bind fun s =>
              (p.conn.step cfg (.act handle (.read n))).map fun c =>
                { conn := c
                  proxy := some ⟨handle, afterRead (s.read cfg p.conn.budget n).1, socket⟩ }
          else none
      | _ => none
  | .socketWrite =>
      match p.proxy with
      | some ⟨handle, .writing rest, socket⟩ =>
          some { p with proxy := some ⟨handle, .reading, socket ++ rest⟩ }
      | _ => none
  | .socketFails n =>
      match p.proxy with
      | some ⟨handle, .writing rest, socket⟩ =>
          some { p with proxy := some ⟨handle, .failed, socket ++ rest.take n⟩ }
      | _ => none
  | .closeWrite ok =>
      match p.proxy with
      | some ⟨handle, .ended, socket⟩ =>
          some { p with proxy := some ⟨handle, if ok then .propagated else .failed, socket⟩ }
      | _ => none

/-- A run of events, in any order. -/
def run (cfg : Config) (p : Proxied) (es : List Event) : Option Proxied :=
  Conc.exec (step cfg) p es

/-- A connection without a proxy. -/
def init : Proxied := ⟨newConn, none⟩

end Proxied

/-- The step is an abort of the stream by the read loop, for a misuse or an
overflow, or a `Close` or `closeTunnel` of it. -/
def Conn.disturbs (cfg : Config) (c : Conn) (i : Nat) : Conn.Event → Bool
  | .handle _ => c.todo i = some .abort
  | .act k .close => k = i
  | .act k .sweep => k = i
  | .act k .closeWrite => k = i ∧ cfg.halfClose = false
  | _ => false

namespace Proxied

/-- Until the proxy has read the end of the stream, only the peer and evictions end
it. -/
def Undisturbed (cfg : Config) (p : Proxied) : Event → Prop
  | .conn e => ∀ q ∈ p.proxy, q.copy.running = true → p.conn.disturbs cfg q.handle e = false
  | .attach handle => ∀ s ∈ p.conn.streams[handle]?, s.tearing = true → s.evicted = true
  | _ => True

instance (cfg : Config) (p : Proxied) (e : Event) : Decidable (Undisturbed cfg p e) :=
  match e with
  | .conn e => inferInstanceAs (Decidable (∀ q ∈ p.proxy, q.copy.running = true →
      p.conn.disturbs cfg q.handle e = false))
  | .attach handle => inferInstanceAs (Decidable (∀ s ∈ p.conn.streams[handle]?,
      s.tearing = true → s.evicted = true))
  | .read _ | .socketWrite | .socketFails _ | .closeWrite _ => isTrue trivial

end Proxied

/-! ## evictions -/

namespace Conn

variable {cfg : Config} {c c' : Conn} {e : Event} {i : Nat} {s t : Stream}
  {d : Option Stream.Todo}

theorem Change.evicted (h : Change cfg c e i s t d) (hs : s.Sound) (hev : s.evicted = true) :
    t.evicted = true := by
  cases h with
  | act he ha => rw [(Stream.act_closes hs.rx ha).evicted, hev]
  | handle he hr hh => rw [(Stream.handle_closes hh).evicted, hev]
  | enter he hk ho ht => rw [(Stream.enter_closes (by decide) ht).1.evicted, hev]
  | abortReturns he hk ho ht =>
      show _ = true
      rw [(Stream.enter_closes (by decide) ht).1.evicted, hev]
  | mark he hk ho => rfl
  | _ => exact hev

/-- What can begin to tear a stream down. -/
theorem Change.tearing (h : Change cfg c e i s t d) (hs : s.Sound) (ht : t.tearing = true) :
    s.tearing = true ∨ c.disturbs cfg i e = true ∨
      ∃ (k : Nat) (o : Stream), c.streams[k]? = some o ∧ o.opening = .aborting i := by
  cases h with
  | act he ha =>
      rcases Stream.act_tearing hs.rx ha ht with hst | rfl | rfl | ⟨rfl, hhalf⟩
      · exact .inl hst
      · exact .inr (.inl (by simp [disturbs, he]))
      · exact .inr (.inl (by simp [disturbs, he]))
      · exact .inr (.inl (by simp [disturbs, he, hhalf]))
  | handle he hr hh =>
      rcases Stream.handle_tearing hh ht with hst | rfl
      · exact .inl hst
      · exact .inr (.inl (by simp [disturbs, he, hr]))
  | enter he hk ho _ => exact .inr (.inr ⟨_, _, hk, ho⟩)
  | abortReturns he hk ho _ => exact .inr (.inr ⟨_, _, hk, ho⟩)
  | _ => exact .inl ht

/-- An `OpenStream` call aborts a stream that was there before its own, after it
marked it. -/
structure Marked (c : Conn) : Prop where
  before : ∀ (k : Nat) (o : Stream), c.streams[k]? = some o → ∀ v, o.opening = .evicting v → v < k
  marked : ∀ (k : Nat) (o : Stream), c.streams[k]? = some o → ∀ v, o.opening = .aborting v →
    ∃ w, c.streams[v]? = some w ∧ w.evicted = true

/-- How far an `OpenStream` call gets in a step. -/
theorem Change.opening (h : Change cfg c e i s t d) (hs : s.Sound) :
    t.opening = s.opening ∨ (∃ v, e = .opening i ∧ s.opening = .evicting v ∧
      t.opening = .aborting v) ∨ t.opening = .writing ∨ t.opening = .opened ∨
      t.opening = .failed := by
  cases h with
  | act he ha => exact .inl (Stream.act_closes hs.rx ha).opening
  | handle he hr hh => exact .inl (Stream.handle_closes hh).opening
  | enter he hk ho ht => exact .inl (Stream.enter_closes (by decide) ht).1.opening
  | abortReturns he hk ho ht => exact .inl (Stream.enter_closes (by decide) ht).1.opening
  | toAborting he ho => exact .inr (.inl ⟨_, he, ho, rfl⟩)
  | toWriting he ho => exact .inr (.inr (.inl rfl))
  | opens he ho hc => exact .inr (.inr (.inr (.inl rfl)))
  | openFails he ho hc => exact .inr (.inr (.inr (.inr rfl)))
  | _ => exact .inl rfl

theorem Marked.step (h : Marked c) (hb : BudgetOk cfg c) (hstep : c.step cfg e = some c') :
    Marked c' := by
  have hsound : ∀ {i} {s : Stream}, c.streams[i]? = some s → s.Sound :=
    fun hs => hb.sound _ (List.mem_of_getElem? hs)
  constructor
  · intro k t ht v hv
    rcases step_stream hstep ht with ⟨s, hs, hch⟩ | ⟨hk, _, _, _, _, o, _, rfl, hcase⟩
    · rcases hch.opening (hsound hs) with heq | ⟨w, -, -, hto⟩ | hto | hto | hto
      · exact h.before k s hs v (heq ▸ hv)
      all_goals
        rw [hto] at hv
        contradiction
    · obtain rfl : o = .evicting v := hv
      rcases hcase with ⟨hopen, -⟩ | ⟨hopen | ⟨w, hw, hlt⟩, -⟩
      · contradiction
      · contradiction
      · rw [Opening.evicting.injEq] at hw
        omega
  · intro k t ht v hv
    rcases step_stream hstep ht with ⟨s, hs, hch⟩ | ⟨hk, _, _, _, _, o, _, rfl, hcase⟩
    · rcases hch.opening (hsound hs) with heq | ⟨w, he, hfrom, hto⟩ | hto | hto | hto
      · obtain ⟨w, hw, hev⟩ := h.marked k s hs v (heq ▸ hv)
        obtain ⟨w', hw', hch'⟩ := step_later hstep hw
        exact ⟨w', hw', hch'.evicted (hsound hw) hev⟩
      · obtain rfl : w = v := by
          rw [hto, Opening.aborting.injEq] at hv
          exact hv
        have hlt := h.before k s hs w hfrom
        subst he
        simp only [Conn.step, openingStep, hs, Option.bind_some, hfrom] at hstep
        obtain ⟨x, hx, rfl⟩ := Option.map_eq_some_iff.mp hstep
        refine ⟨{ x with evicted := true }, ?_, rfl⟩
        have hlt' := (List.getElem?_eq_some_iff.mp hx).1
        show ((c.streams.set w _).set k _)[w]? = _
        rw [List.getElem?_set_ne (by omega), List.getElem?_set_self hlt']
      all_goals
        rw [hto] at hv
        contradiction
    · obtain rfl : o = .aborting v := hv
      rcases hcase with ⟨hopen, -⟩ | ⟨hopen | ⟨w, hw, -⟩, -⟩ <;> contradiction

/-- Only the goroutine that reads a TCP stream consumes its bytes. -/
theorem Change.consumed (h : Change cfg c e i s t d) (hs : s.Sound) (hp : s.protocol = .tcp)
    (hread : ∀ n, e ≠ .act i (.read n)) : t.consumed = s.consumed := by
  cases h with
  | act he ha =>
      rcases Stream.act_receive ha with hq | ⟨n, rfl, -⟩ | ⟨n, -, hudp, -⟩ | ⟨closer, -, -, rfl⟩ |
        ⟨-, -, rfl⟩
      · rw [hq.toRx]
      · exact absurd he (hread n)
      · rw [hp] at hudp
        contradiction
      · exact (Stream.closeRead_spec c.budget _ hs.rx).2.2.1
      · exact (Stream.closeRead_spec c.budget _ hs.rx).2.2.1
  | handle he hr hh =>
      rcases Stream.handle_receive hh with ⟨hq, -⟩ | ⟨payload, _, _, -, -, hq⟩ | ⟨-, -, rfl, -⟩
      · have hrx : t.toRx = s.toRx := hq.toRx
        rw [hrx]
      · exact (Stream.queuePayload_spec hs.rx hq).2.2.1
      · exact (Stream.closeRead_spec c.budget false hs.rx).2.2.1
  | enter he hk ho ht =>
      rcases Stream.enter_cases ht with ⟨-, -, rfl⟩ | ⟨other, -, -, rfl⟩ <;> rfl
  | abortReturns he hk ho ht =>
      rcases Stream.enter_cases ht with ⟨-, -, rfl⟩ | ⟨other, -, -, rfl⟩ <;> rfl
  | _ => rfl

end Conn

namespace Proxied

variable {cfg : Config} {p p' : Proxied} {e : Event}

/-! ## the copy and its stream -/

/-- While the copy runs, what `Read` has returned is on the socket or comes next,
and a stream that is torn down here was evicted; when the copy is over without an
error, the peer ended its side and all its bytes are on the socket. -/
structure Faithful (q : Proxy) (s : Stream) : Prop where
  tcp : s.protocol = .tcp
  reading : q.copy = .reading → s.consumed = q.socket
  writing : ∀ rest, q.copy = .writing rest → s.consumed = q.socket ++ rest
  tearing : q.copy.running = true → s.tearing = true → s.evicted = true
  ended : q.copy = .ended ∨ q.copy = .propagated →
    s.delivered.any ends = true ∧ q.socket = dataOf (untilEnd s.delivered)

/-- A step of the connection other than a `Read` of the stream. -/
theorem Faithful.change {q : Proxy} {s t : Stream} {c : Conn} {e : Conn.Event}
    {d : Option Stream.Todo} (h : Faithful q s) (hs : s.Sound) (hm : c.Marked)
    (hi : c.streams[q.handle]? = some s) (hch : c.Change cfg e q.handle s t d)
    (hread : ∀ n, e ≠ .act q.handle (.read n))
    (hcond : q.copy.running = true → c.disturbs cfg q.handle e = false) : Faithful q t := by
  obtain ⟨-, hp, -, hdel⟩ := hch.ident hs
  have hcons := hch.consumed hs h.tcp hread
  refine ⟨hp.trans h.tcp, fun hq => hcons.trans (h.reading hq),
    fun rest hq => hcons.trans (h.writing rest hq), fun hq ht => ?_, fun hq => ?_⟩
  · rcases hch.tearing hs ht with hst | hdis | ⟨k, o, hk, ho⟩
    · exact hch.evicted hs (h.tearing hq hst)
    · rw [hcond hq] at hdis
      contradiction
    · obtain ⟨w, hw, hev⟩ := hm.marked k o hk q.handle ho
      obtain rfl : s = w := Option.some.inj (hi.symm.trans hw)
      exact hch.evicted hs hev
  · obtain ⟨hend, hsocket⟩ := h.ended hq
    rcases hdel with hdel | ⟨id, f, now, -, -, hdel⟩
    · rw [hdel]
      exact ⟨hend, hsocket⟩
    · rw [hdel, untilEnd_append hend, List.any_append, hend]
      exact ⟨rfl, hsocket⟩

theorem tearing_of_stream {s t : Stream} {rx : Rx} {n : Nat}
    (ht : t = ({ s with toRx := rx }).returnCredit cfg n) : t.tearing = s.tearing := by
  rw [ht]
  unfold Stream.returnCredit
  repeat' split
  all_goals rfl

/-- A `Read` of the copy.  An end of stream on one that is not torn down here is the
peer's, after all its bytes. -/
theorem Faithful.read {handle : Nat} {socket : List UInt8} {s : Stream} {d : Option Stream.Todo}
    (h : Faithful ⟨handle, .reading, socket⟩ s) (hs : s.Sound) (ho : s.Orderly d) (b : Budget)
    (n : Nat) :
    Faithful ⟨handle, afterRead (s.read cfg b n).1, socket⟩ (s.read cfg b n).2.1 := by
  have hspec := Stream.read_spec cfg b n hs.rx
  have hcl := Stream.closes_of_stream hspec.stream
  have hcons : s.consumed = socket := h.reading rfl
  have htear : (s.read cfg b n).2.1.tearing = true → (s.read cfg b n).2.1.evicted = true := by
    rw [tearing_of_stream hspec.stream, hcl.evicted]
    exact h.tearing rfl
  rcases hspec.result with ⟨l, hl, hread, -⟩ | ⟨hread, hpend, hres⟩
  · rw [hl]
    refine ⟨hcl.protocol.trans h.tcp, by simp [afterRead], fun rest hq => ?_, fun _ => htear,
      by simp [afterRead]⟩
    rw [hread, hcons, Copy.writing.inj hq]
  · rw [hres]
    split
    · rename_i hclosed
      unfold Stream.closedReadError
      split
      · exact ⟨hcl.protocol.trans h.tcp, by simp [afterRead], by simp [afterRead],
          fun _ => htear, by simp [afterRead]⟩
      · rename_i hev
        have hlive : s.tearing = false := by
          by_contra ht
          exact hev (h.tearing rfl (by simpa using ht))
        have hend : s.delivered.any ends = true := by
          by_contra he
          rw [ho.unended hlive (by simpa using he)] at hclosed
          contradiction
        have hbytes := (ho.retained h.tcp hlive hend).1
        rw [hpend, List.append_nil, hcons] at hbytes
        refine ⟨hcl.protocol.trans h.tcp, by simp [afterRead], by simp [afterRead],
          fun _ => htear, fun _ => ?_⟩
        rw [hcl.delivered]
        exact ⟨hend, hbytes⟩
    · exact ⟨hcl.protocol.trans h.tcp, fun _ => hread.trans hcons, by simp [afterRead],
        fun _ => htear, by simp [afterRead]⟩

/-- The invariant of a connection with a proxy. -/
structure Ok (cfg : Config) (p : Proxied) : Prop where
  ordered : p.conn.Ordered cfg
  marked : p.conn.Marked
  faithful : ∀ q ∈ p.proxy, ∃ s, p.conn.streams[q.handle]? = some s ∧ Faithful q s

theorem init_ok (cfg : Config) : Ok cfg init :=
  ⟨Conn.newConn_ordered cfg, ⟨by simp [init, newConn], by simp [init, newConn]⟩, by simp [init]⟩

/-- A step of the connection other than a `Read` of the proxied stream. -/
theorem Ok.conn {c : Conn} {e : Conn.Event} (h : Ok cfg p) (hstep : p.conn.step cfg e = some c)
    (hread : ∀ q ∈ p.proxy, ∀ n, e ≠ .act q.handle (.read n))
    (hcond : Undisturbed cfg p (.conn e)) : Ok cfg { p with conn := c } := by
  refine ⟨h.ordered.step hstep, h.marked.step h.ordered.budget hstep, fun q hq => ?_⟩
  obtain ⟨s, hs, hf⟩ := h.faithful q hq
  obtain ⟨t, ht, hch⟩ := Conn.step_later hstep hs
  have hsound := h.ordered.budget.sound s (List.mem_of_getElem? hs)
  exact ⟨t, ht, hf.change hsound h.marked hs hch (hread q hq) (hcond q hq)⟩

/-- A step of the copy that leaves the connection alone. -/
theorem Ok.copy {q q' : Proxy} (h : Ok cfg p) (hq : p.proxy = some q)
    (hf : ∀ s, Faithful q s → Faithful q' s)
    (hhandle : q'.handle = q.handle) : Ok cfg { p with proxy := some q' } := by
  refine ⟨h.ordered, h.marked, fun r hr => ?_⟩
  obtain rfl : q' = r := Option.some.inj hr
  obtain ⟨s, hs, hfs⟩ := h.faithful q hq
  exact ⟨s, hhandle ▸ hs, hf s hfs⟩

theorem Ok.step (h : Ok cfg p) (hcond : Undisturbed cfg p e) (hstep : p.step cfg e = some p') :
    Ok cfg p' := by
  cases e with
  | conn e =>
      simp only [Proxied.step] at hstep
      split at hstep
      · rename_i q k n hq
        split at hstep
        · contradiction
        · rename_i hne
          obtain ⟨c, hc, rfl⟩ := Option.map_eq_some_iff.mp hstep
          refine h.conn hc (fun r hr m heq => ?_) hcond
          rw [hq, Option.mem_def, Option.some.injEq] at hr
          rw [hr] at hne
          simp only [Conn.Event.act.injEq] at heq
          exact hne heq.1
      · rename_i hno
        obtain ⟨c, hc, rfl⟩ := Option.map_eq_some_iff.mp hstep
        exact h.conn hc (fun r hr m heq => hno r _ m hr heq) hcond
  | attach handle =>
      simp only [Proxied.step] at hstep
      split at hstep
      · rename_i s hq hs
        split at hstep
        · rename_i hguard
          obtain rfl := Option.some.inj hstep
          refine ⟨h.ordered, h.marked, fun r hr => ?_⟩
          obtain rfl := Option.some.inj hr
          exact ⟨s, hs, hguard.1, fun _ => hguard.2.2, by simp, fun _ => hcond s hs, by simp⟩
        · contradiction
      · contradiction
  | read n =>
      simp only [Proxied.step] at hstep
      split at hstep
      · rename_i handle socket hq
        split at hstep
        · obtain ⟨s, hs, hstep⟩ := Option.bind_eq_some_iff.mp hstep
          obtain ⟨c, hc, rfl⟩ := Option.map_eq_some_iff.mp hstep
          refine ⟨h.ordered.step hc, h.marked.step h.ordered.budget hc, fun r hr => ?_⟩
          obtain rfl := Option.some.inj hr
          obtain ⟨s', hs', hf⟩ := h.faithful _ hq
          obtain rfl : s = s' := Option.some.inj (hs.symm.trans hs')
          have hsound := h.ordered.budget.sound s (List.mem_of_getElem? hs)
          refine ⟨_, ?_, hf.read hsound (h.ordered.orderly _ s hs) p.conn.budget n⟩
          simp only [Conn.step, hs, Option.bind_some, Stream.act] at hc
          split at hc
          · obtain rfl := Option.some.inj hc
            rw [Conn.apply_streams, List.getElem?_set_self (List.getElem?_eq_some_iff.mp hs).1]
          · contradiction
        · contradiction
      · contradiction
  | socketWrite =>
      simp only [Proxied.step] at hstep
      split at hstep
      · rename_i handle rest socket hq
        obtain rfl := Option.some.inj hstep
        exact h.copy hq (fun s hf => ⟨hf.tcp, fun _ => hf.writing rest rfl, by simp,
          fun _ => hf.tearing rfl, by simp⟩) rfl
      · contradiction
  | socketFails n =>
      simp only [Proxied.step] at hstep
      split at hstep
      · rename_i handle rest socket hq
        obtain rfl := Option.some.inj hstep
        exact h.copy hq (fun s hf => ⟨hf.tcp, by simp, by simp, by simp [Copy.running],
          by simp⟩) rfl
      · contradiction
  | closeWrite ok =>
      simp only [Proxied.step] at hstep
      split at hstep
      · rename_i handle socket hq
        obtain rfl := Option.some.inj hstep
        cases ok with
        | true =>
            exact h.copy hq (fun s hf => ⟨hf.tcp, by simp, by simp, by simp [Copy.running],
              fun _ => hf.ended (.inl rfl)⟩) rfl
        | false =>
            exact h.copy hq (fun s hf => ⟨hf.tcp, by simp, by simp, by simp [Copy.running],
              by simp⟩) rfl
      · contradiction

/-! ## the end of a copy -/

/-- **No silent truncation.** In every state of every run in which, until the proxy
has read the end of its stream, only the peer and evictions end the stream: if the
proxy has passed a clean end on to the socket, the peer ended its side, and the
socket got every byte the peer sent before that. -/
theorem clean_end (cfg : Config) (es : List Event) (p : Proxied)
    (hm : Conc.Meets (step cfg) (Undisturbed cfg) init es) (hrun : init.run cfg es = some p) :
    ∀ q ∈ p.proxy, q.copy = .propagated → ∃ s, p.conn.streams[q.handle]? = some s ∧
      (p.conn.sentTo s).any ends = true ∧ q.socket = dataOf (untilEnd (p.conn.sentTo s)) := by
  have h : Ok cfg p :=
    hm.invariant (fun _ _ _ h hc hstep => Ok.step h hc hstep) (init_ok cfg) hrun
  intro q hq hcopy
  obtain ⟨s, hs, hf⟩ := h.faithful q hq
  obtain ⟨hend, hsocket⟩ := hf.ended (.inr hcopy)
  obtain ⟨later, hlater⟩ := h.ordered.routed s (List.mem_of_getElem? hs)
  refine ⟨s, hs, ?_, ?_⟩
  · rw [← hlater, List.any_append, hend, Bool.true_or]
  · rw [← hlater, untilEnd_append hend, hsocket]

/-- A proxied stream gets two bytes, of which the copy reads one before `last`. -/
def proxyRun (last : List Conn.Event) : List Event :=
  ([.conn (.receive (.stream 1 (.opening (some .tcp))) 0), .attach 0,
    .conn (.receive (.stream 1 (.data [1, 2])) 0), .conn (.handle 0), .read 1, .socketWrite] :
    List Event) ++ last.map Event.conn

/-- The peer half-closes. -/
def halfCloseRun : List Event :=
  proxyRun [.receive (.stream 1 .closeWrite) 0, .handle 0] ++
    ([.read 8, .socketWrite, .read 8, .closeWrite true] : List Event)

theorem clean_end_half_close :
    ∃ p q, init.run agentConfig halfCloseRun = some p ∧ p.proxy = some q ∧
      q.copy = .propagated ∧ ∃ s, p.conn.streams[q.handle]? = some s ∧
        (p.conn.sentTo s).any ends = true ∧
        q.socket = dataOf (untilEnd (p.conn.sentTo s)) := by
  have hobs : ((init.run agentConfig halfCloseRun).bind fun p => p.proxy.map (·.copy)) =
      some .propagated := by decide +kernel
  obtain ⟨p, hp, hobs⟩ := Option.bind_eq_some_iff.mp hobs
  obtain ⟨q, hq, hcopy⟩ := Option.map_eq_some_iff.mp hobs
  exact ⟨p, q, hp, hq, hcopy, clean_end agentConfig _ p (by decide +kernel) hp q hq hcopy⟩

/-- A WINDOW_UPDATE without credit makes the read loop abort the stream. -/
def abortRun : List Event :=
  proxyRun [.receive (.stream 1 (.windowUpdate 0)) 0, .handle 0, .handle 0, .act 0 .once,
    .act 0 .once, .act 0 .once, .act 0 .once, .handle 0] ++ [.read 8, .closeWrite true]

/-- The aborted stream is reported as a clean end: the second byte is discarded, and
the peer has not ended its side. -/
theorem aborted_stream_ends_clean :
    ∃ p q s, init.run agentConfig abortRun = some p ∧ p.proxy = some q ∧
      q.copy = .propagated ∧ p.conn.streams[q.handle]? = some s ∧
      (p.conn.sentTo s).any ends = false ∧ q.socket = [1] ∧
      dataOf (p.conn.sentTo s) = [1, 2] := by
  have hobs : ((init.run agentConfig abortRun).bind fun p => p.proxy.bind fun q =>
      (p.conn.streams[q.handle]?).map fun s =>
        (q.copy, (p.conn.sentTo s).any ends, q.socket, dataOf (p.conn.sentTo s))) =
      some (.propagated, false, [1], [1, 2]) := by decide +kernel
  obtain ⟨p, hp, hobs⟩ := Option.bind_eq_some_iff.mp hobs
  obtain ⟨q, hq, hobs⟩ := Option.bind_eq_some_iff.mp hobs
  obtain ⟨s, hs, hobs⟩ := Option.map_eq_some_iff.mp hobs
  simp only [Prod.mk.injEq] at hobs
  obtain ⟨hcopy, hend, hsocket, hdata⟩ := hobs
  exact ⟨p, q, s, hp, hq, hcopy, hs, hend, hsocket, hdata⟩

end Proxied

end Tunnel
