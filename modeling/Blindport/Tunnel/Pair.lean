import Mathlib.Logic.Function.Basic
import Blindport.Tunnel.Credit

/-!
# Blindport.Tunnel.Pair

One stream and both its ends: the streams of the relay and of the agent with its
identifier, and the frames of the stream on their way.  The rest of the two
connections is the environment: other streams use the receive budgets, an
`OpenStream` evicts the stream, a connection is closed.

With flow control the credit of a direction is conserved: it is at the sender, on
the wire, queued at the receiver, waiting to be returned, or on its way back.
-/

namespace Tunnel

/-- The two ends of a tunnel. -/
inductive Side where
  | relay
  | agent
deriving DecidableEq, Repr

/-- The peer. -/
def Side.other : Side → Side
  | .relay => .agent
  | .agent => .relay

@[simp] theorem Side.other_other (x : Side) : x.other.other = x := by
  cases x <;> rfl

@[simp] theorem Side.other_ne (x : Side) : x.other ≠ x := by
  cases x <;> simp [Side.other]

theorem Side.eq_or (a x : Side) : a = x ∨ a = x.other := by
  cases a <;> cases x <;> simp [Side.other]

/-- One end of a stream. -/
structure End where
  stream : Stream
  budget : Budget
  /-- What `Run` still has to do for the stream. -/
  todo : Option Stream.Todo
  /-- The stream is in the table. -/
  registered : Bool
  /-- The connection is closed. -/
  closed : Bool

/-- A stream, and the frames each side has written and the other has not read. -/
structure Pair where
  ends : Side → End
  wire : Side → List Signal

namespace Pair

/-- What can happen next. -/
inductive Event where
  | act (x : Side) (a : Stream.Act)
  /-- `Run` reads the next frame of the stream. -/
  | deliver (x : Side)
  | handle (x : Side) (now : Int)
  /-- Other streams of the connection use the receive budget. -/
  | others (x : Side) (budget : Budget)
  /-- Another `OpenStream` replaces the stream in the table. -/
  | evict (x : Side)
  /-- The `abort` of an eviction. -/
  | abort (x : Side)
  | close (x : Side)
  | closeStreams (x : Side)
deriving DecidableEq

/-- Replaces one end. -/
def setEnd (p : Pair) (x : Side) (e : End) : Pair :=
  { p with ends := Function.update p.ends x e }

/-- One step; `none` when it cannot happen. -/
def step (cfg : Side → Config) (p : Pair) : Event → Option Pair
  | .act x a =>
      let e := p.ends x
      (e.stream.act (cfg x) e.closed e.budget a).map fun eff =>
        { ends := Function.update p.ends x { e with
            stream := eff.stream
            budget := eff.budget
            registered := e.registered && !eff.remove }
          wire := Function.update p.wire x (p.wire x ++ eff.frame.toList) }
  | .deliver x =>
      let e := p.ends x
      match e.todo, p.wire x.other with
      | none, f :: rest =>
          if e.closed then none
          -- `Run` drops a frame for a stream that is not in the table.
          else
            some { ends := if e.registered then
                     Function.update p.ends x { e with
                       todo := some (.deliver f)
                       stream := { e.stream with delivered := e.stream.delivered ++ [f] } }
                   else p.ends
                   wire := Function.update p.wire x.other rest }
      | _, _ => none
  | .handle x now =>
      let e := p.ends x
      e.todo.bind fun todo =>
        (e.stream.handle (cfg x) e.budget now todo).map fun (t, b, rest) =>
          p.setEnd x { e with stream := t, budget := b, todo := rest }
  | .others x budget => some (p.setEnd x { p.ends x with budget := budget })
  | .evict x =>
      let e := p.ends x
      some (p.setEnd x { e with
        registered := false
        stream := { e.stream with evicted := true } })
  | .abort x =>
      let e := p.ends x
      if e.stream.evicted then
        (e.stream.enter .abort).map fun (t, returned) =>
          p.setEnd x { e with stream := { t with torn := t.torn || returned } }
      else none
  | .close x => some (p.setEnd x { p.ends x with closed := true })
  | .closeStreams x =>
      let e := p.ends x
      if e.closed then
        some (p.setEnd x { e with
          registered := false
          stream := { e.stream with sweeps := e.stream.sweeps + 1 } })
      else none

/-- A run of events, in any order. -/
def run (cfg : Side → Config) (p : Pair) (es : List Event) : Option Pair :=
  Conc.exec (step cfg) p es

/-- A new stream whose OPEN was written and read. -/
def init (cfg : Side → Config) (id : Nat) (transport : Transport) : Pair where
  ends x :=
    { stream := newStream (cfg x) id transport "" 0 .opened 0
      budget := ⟨0, 0⟩
      todo := none
      registered := true
      closed := false }
  wire _ := []

end Pair

/-! ## where the credit is -/

namespace End

/-- The credit of the direction the end sends in. -/
def sending (e : End) : Int :=
  e.stream.txCredit + e.stream.taken + Stream.creditInHand e.todo

/-- The credit of the direction the end receives in. -/
def holding (e : End) : Int := e.stream.unreturned + Stream.payloadInHand e.todo

/-- The end can send. -/
structure Sends (e : End) : Prop where
  registered : e.registered = true
  live : e.closed = false
  txClosed : e.stream.txClosed = false
  todo : e.todo ≠ some .abort

/-- The end can receive. -/
structure Receives (e : End) : Prop where
  registered : e.registered = true
  live : e.closed = false
  done : e.stream.done = false
  rxClosed : e.stream.rxClosed = false
  todo : e.todo ≠ some .abort

end End

namespace Pair

/-- All the credit of the direction in which `a` sends. -/
def total (p : Pair) (a : Side) : Int :=
  (p.ends a).sending + payloadOf (p.wire a) + (p.ends a.other).holding + creditOf (p.wire a.other)

/-- The direction is open on both sides. -/
def Open (p : Pair) (a : Side) : Prop := (p.ends a).Sends ∧ (p.ends a.other).Receives

/-- The credit of a stream. -/
structure Ok (cfg : Side → Config) (transport : Transport) (p : Pair) : Prop where
  flowing : ∀ x, (p.ends x).stream.Flowing
  protocol : ∀ x, (p.ends x).stream.protocol = transport
  cap : ∀ x, (p.ends x).stream.txCreditCap = initialCredit (cfg x) transport
  total_le : ∀ a, p.total a ≤ initialCredit (cfg a) transport
  total_eq : ∀ a, p.Open a → p.total a = initialCredit (cfg a) transport
  wires : ∀ x, Signal.windowUpdate 0 ∉ p.wire x
  todo : ∀ x, (p.ends x).todo ≠ some (.deliver (.windowUpdate 0))

variable {cfg : Side → Config} {transport : Transport} {p p' : Pair} {x : Side} {e : Event}

theorem init_ok (cfg : Side → Config) (id : Nat) (transport : Transport) :
    Ok cfg transport (init cfg id transport) := by
  have htotal : ∀ a, (init cfg id transport).total a = initialCredit (cfg a) transport := by
    intro a
    simp [total, init, End.sending, End.holding, newStream, Stream.taken, Stream.unreturned,
      TxHolder.taken, Flusher.taken, Stream.creditInHand, Stream.payloadInHand]
  refine ⟨fun x => ⟨⟨rfl, rfl, by simp [init, newStream], fun _ => rfl⟩, ?_,
    by simp [init, newStream], fun _ => rfl, by simp [init, newStream],
    by simp [init, newStream, Once.pastTxClosed], by simp [init, newStream, Once.pastDone]⟩,
    fun x => rfl, fun x => rfl, fun a => (htotal a).le, fun a _ => htotal a,
    by simp [init], by simp [init]⟩
  show 0 ≤ initialCredit (cfg x) transport
  unfold initialCredit
  split
  · cases transport <;> decide
  · decide

/-- A fact about both ends after one of them was replaced. -/
theorem forall_update {P : Side → End → Prop} {e : End} (hx : P x e)
    (hy : P x.other (p.ends x.other)) (y : Side) : P y (Function.update p.ends x e y) := by
  rcases Side.eq_or y x with rfl | rfl
  · rwa [Function.update_self]
  · rwa [Function.update_of_ne (Side.other_ne x)]

/-- What a step at one end has to keep: what it sends and what it holds, with the
frames it writes and reads. -/
theorem Ok.move (h : Ok cfg transport p) {e' : End} {wire : Side → List Signal}
    (hfl : e'.stream.Flowing) (hproto : e'.stream.protocol = (p.ends x).stream.protocol)
    (hcap : e'.stream.txCreditCap = (p.ends x).stream.txCreditCap)
    (hs : e'.sending + payloadOf (wire x) + creditOf (wire x.other) ≤
      (p.ends x).sending + payloadOf (p.wire x) + creditOf (p.wire x.other))
    (hs' : e'.Sends → (p.ends x).Sends ∧
      e'.sending + payloadOf (wire x) + creditOf (wire x.other) =
        (p.ends x).sending + payloadOf (p.wire x) + creditOf (p.wire x.other))
    (hr : e'.holding + creditOf (wire x) + payloadOf (wire x.other) ≤
      (p.ends x).holding + creditOf (p.wire x) + payloadOf (p.wire x.other))
    (hr' : e'.Receives → (p.ends x).Receives ∧
      e'.holding + creditOf (wire x) + payloadOf (wire x.other) =
        (p.ends x).holding + creditOf (p.wire x) + payloadOf (p.wire x.other))
    (hwires : ∀ y, Signal.windowUpdate 0 ∉ wire y)
    (htodo : e'.todo ≠ some (.deliver (.windowUpdate 0))) :
    Ok cfg transport ⟨Function.update p.ends x e', wire⟩ := by
  have hself : Function.update p.ends x e' x = e' := Function.update_self ..
  have hother : Function.update p.ends x e' x.other = p.ends x.other :=
    Function.update_of_ne (Side.other_ne x) ..
  refine ⟨forall_update (P := fun _ e => e.stream.Flowing) hfl (h.flowing _),
    forall_update (P := fun _ e => e.stream.protocol = transport) (hproto.trans (h.protocol x))
      (h.protocol _),
    forall_update (P := fun y e => e.stream.txCreditCap = initialCredit (cfg y) transport)
      (hcap.trans (h.cap x)) (h.cap _), fun a => ?_, fun a ho => ?_, hwires,
    forall_update (P := fun _ e => e.todo ≠ some (.deliver (.windowUpdate 0))) htodo (h.todo _)⟩
  · have htotal := h.total_le a
    rcases Side.eq_or a x with rfl | rfl
    · simp only [total, hself, hother] at htotal ⊢
      omega
    · simp only [total, hother, Side.other_other, hself] at htotal ⊢
      omega
  · have htotal := h.total_eq a
    rcases Side.eq_or a x with rfl | rfl
    · simp only [Open, total, hself, hother] at ho htotal ⊢
      obtain ⟨hopen, heq⟩ := hs' ho.1
      have := htotal ⟨hopen, ho.2⟩
      omega
    · simp only [Open, total, hother, Side.other_other, hself] at ho htotal ⊢
      obtain ⟨hopen, heq⟩ := hr' ho.2
      have := htotal ⟨ho.1, hopen⟩
      omega

/-- A flag that is never reset. -/
theorem eq_false_of_imp {a b : Bool} (h : a = true → b = true) (hb : b = false) : a = false := by
  cases a with
  | false => rfl
  | true => exact absurd (h rfl) (by simp [hb])

theorem initialCredit_le (cfg : Config) (transport : Transport) :
    initialCredit cfg transport ≤ maxWindowUpdate := by
  unfold initialCredit
  split
  · cases transport <;> decide
  · decide

theorem Ok.sending_nonneg (h : Ok cfg transport p) (x : Side) : 0 ≤ (p.ends x).sending := by
  have h₁ := (h.flowing x).txCredit
  have h₂ := (p.ends x).stream.taken_nonneg
  unfold End.sending
  omega

theorem Ok.holding_nonneg (h : Ok cfg transport p) (x : Side) : 0 ≤ (p.ends x).holding := by
  have := (h.flowing x).unreturned_nonneg
  unfold End.holding
  omega

/-- What an end holds is a part of the window. -/
theorem Ok.holding_le (h : Ok cfg transport p) (x : Side) :
    (p.ends x).holding ≤ initialCredit (cfg x.other) transport := by
  have htotal := h.total_le x.other
  have h₁ := h.sending_nonneg x.other
  have h₂ := payloadOf_nonneg (p.wire x.other)
  have h₃ := creditOf_nonneg (p.wire x)
  simp only [total, Side.other_other] at htotal
  omega

theorem Ok.holding_lt (h : Ok cfg transport p) (x : Side) : (p.ends x).holding < 2 ^ 32 := by
  have h₁ := h.holding_le x
  have h₂ := initialCredit_le (cfg x.other) transport
  have h₃ : (maxWindowUpdate : Int) < 2 ^ 32 := by decide
  omega

theorem act_windowUpdate {cfg : Config} {closed : Bool} {b : Budget} {s : Stream} {a : Stream.Act}
    {eff : Stream.Effect} (hs : s.Flowing) (h : s.act cfg closed b a = some eff) :
    eff.frame ≠ some (.windowUpdate 0) := by
  cases a
  case flushFrame =>
    simp only [Stream.act] at h
    split at h
    · rename_i credit hf
      split at h
      · contradiction
      · obtain rfl := Option.some.inj h
        have := hs.flushing credit hf
        simpa using this
    · contradiction
  all_goals
    simp only [Stream.act, Stream.closeStep, Stream.onceStep] at h
    repeat' split at h
  all_goals first
    | contradiction
    | (obtain rfl := Option.some.inj h
       simp)
    | (obtain ⟨⟨t, r⟩, -, rfl⟩ := Option.map_eq_some_iff.mp h
       first | (simp; done) | (cases r <;> simp))

/-- A section of a goroutine at one end. -/
theorem Ok.act (h : Ok cfg transport p) (hfc : (cfg x).flowControl = true) {a : Stream.Act}
    {eff : Stream.Effect}
    (ha : (p.ends x).stream.act (cfg x) (p.ends x).closed (p.ends x).budget a = some eff) :
    Ok cfg transport
      { ends := Function.update p.ends x { p.ends x with
          stream := eff.stream
          budget := eff.budget
          registered := (p.ends x).registered && !eff.remove }
        wire := Function.update p.wire x (p.wire x ++ eff.frame.toList) } := by
  have hlt := h.holding_lt x
  have hflows := Stream.act_flows hfc (h.flowing x) (by unfold End.holding at hlt; omega) ha
  have hself : Function.update p.wire x (p.wire x ++ eff.frame.toList) x =
      p.wire x ++ eff.frame.toList := Function.update_self ..
  have hother : Function.update p.wire x (p.wire x ++ eff.frame.toList) x.other =
      p.wire x.other := Function.update_of_ne (Side.other_ne x) ..
  have hsent := hflows.sent
  have hret := hflows.returned
  refine h.move hflows.flowing hflows.protocol hflows.txCreditCap ?_ (fun ho => ?_) ?_
    (fun ho => ?_) (fun y => ?_) (h.todo x)
  · rw [hself, hother, payloadOf_append]
    simp only [End.sending]
    omega
  · have hreg : (p.ends x).registered = true := by
      have := ho.registered
      simp only [Bool.and_eq_true] at this
      exact this.1
    have htx := eq_false_of_imp hflows.txClosed ho.txClosed
    refine ⟨⟨hreg, ho.live, htx, ho.todo⟩, ?_⟩
    have := hsent.2 ho.live
    rw [hself, hother, payloadOf_append]
    simp only [End.sending]
    omega
  · rw [hself, hother, creditOf_append]
    simp only [End.holding]
    omega
  · have hreg : (p.ends x).registered = true := by
      have := ho.registered
      simp only [Bool.and_eq_true] at this
      exact this.1
    have hdone := eq_false_of_imp hflows.done ho.done
    have hrx := eq_false_of_imp hflows.rxClosed ho.rxClosed
    refine ⟨⟨hreg, ho.live, hdone, hrx, ho.todo⟩, ?_⟩
    have := hret.2 ho.live ho.done ho.rxClosed
    rw [hself, hother, creditOf_append]
    simp only [End.holding]
    omega
  · rcases Side.eq_or y x with rfl | rfl
    · rw [hself, List.mem_append, not_or]
      refine ⟨h.wires y, fun hmem => ?_⟩
      exact act_windowUpdate (h.flowing y) ha (by simpa using hmem)
    · rw [hother]
      exact h.wires _

/-- `Run` at one end reads a frame, or drops it. -/
theorem Ok.deliver (h : Ok cfg transport p) {f : Signal} {rest : List Signal}
    (hwire : p.wire x.other = f :: rest) (htodo : (p.ends x).todo = none) :
    Ok cfg transport
      { ends := if (p.ends x).registered then
          Function.update p.ends x { p.ends x with
            todo := some (.deliver f)
            stream := { (p.ends x).stream with
              delivered := (p.ends x).stream.delivered ++ [f] } }
        else p.ends
        wire := Function.update p.wire x.other rest } := by
  have hself : Function.update p.wire x.other rest x.other = rest := Function.update_self ..
  have hother : Function.update p.wire x.other rest x = p.wire x :=
    Function.update_of_ne (Side.other_ne x).symm ..
  have hwires : ∀ y, Signal.windowUpdate 0 ∉ Function.update p.wire x.other rest y := by
    intro y
    rcases Side.eq_or y x with rfl | rfl
    · rw [hother]
      exact h.wires y
    · rw [hself]
      have := h.wires x.other
      rw [hwire, List.mem_cons, not_or] at this
      exact this.2
  have hpay : payloadOf (p.wire x.other) = f.payload + payloadOf rest := by
    rw [hwire, payloadOf_cons]
  have hcred : creditOf (p.wire x.other) = f.credit + creditOf rest := by rw [hwire, creditOf_cons]
  have hfl := h.flowing x
  split
  · rename_i hreg
    refine h.move ⟨hfl.rx, hfl.txCredit, hfl.frame, hfl.flusher, hfl.flushing, hfl.pastTxClosed,
      hfl.pastDone⟩ rfl rfl ?_ (fun ho => ⟨⟨hreg, ho.live, ho.txClosed, by simp [htodo]⟩, ?_⟩) ?_
      (fun ho => ⟨⟨hreg, ho.live, ho.done, ho.rxClosed, by simp [htodo]⟩, ?_⟩) hwires ?_
    · rw [hself, hother, hcred]
      simp only [End.sending, htodo, Stream.creditInHand, Stream.taken]
      omega
    · rw [hself, hother, hcred]
      simp only [End.sending, htodo, Stream.creditInHand, Stream.taken]
      omega
    · rw [hself, hother, hpay]
      simp only [End.holding, htodo, Stream.payloadInHand, Stream.unreturned]
      omega
    · rw [hself, hother, hpay]
      simp only [End.holding, htodo, Stream.payloadInHand, Stream.unreturned]
      omega
    · have := h.wires x.other
      rw [hwire, List.mem_cons, not_or] at this
      simpa using Ne.symm this.1
  · rename_i hreg
    have hends : p.ends = Function.update p.ends x (p.ends x) := (Function.update_eq_self x _).symm
    rw [hends]
    refine h.move hfl rfl rfl ?_ (fun ho => absurd ho.registered hreg) ?_
      (fun ho => absurd ho.registered hreg) hwires (h.todo x)
    · rw [hself, hother, hcred]
      omega
    · rw [hself, hother, hpay]
      omega

/-- `Run` at one end goes on with the frame it has. -/
theorem Ok.handle (h : Ok cfg transport p) (hfc : (cfg x).flowControl = true) {now : Int}
    {todo : Stream.Todo} {t : Stream} {b : Budget} {rest : Option Stream.Todo}
    (htodo : (p.ends x).todo = some todo)
    (hh : (p.ends x).stream.handle (cfg x) (p.ends x).budget now todo = some (t, b, rest)) :
    Ok cfg transport
      (p.setEnd x { p.ends x with stream := t, budget := b, todo := rest }) := by
  have hlt := h.holding_lt x
  unfold End.holding at hlt
  rw [htodo] at hlt
  have hflows := Stream.handle_flows hfc (h.flowing x) hlt hh
  have htaken := hflows.taken
  have hsent := hflows.sent
  have hret := hflows.returned
  refine h.move hflows.flowing hflows.protocol hflows.txCreditCap ?_ (fun ho => ?_) ?_
    (fun ho => ?_) h.wires ?_
  · simp only [End.sending, htodo]
    omega
  · have htx := eq_false_of_imp hflows.txClosed ho.txClosed
    refine ⟨⟨ho.registered, ho.live, htx, fun habort => ?_⟩, ?_⟩
    · rw [htodo, Option.some.injEq] at habort
      rcases hflows.abort habort with hr | ⟨-, hclosed⟩
      · exact ho.todo hr
      · exact absurd (hclosed.symm.trans ho.txClosed) (by simp)
    · have := hsent.2 ho.txClosed ho.todo
      simp only [End.sending, htodo]
      omega
  · simp only [End.holding, htodo]
    omega
  · have hdone := eq_false_of_imp hflows.done ho.done
    have hrx := eq_false_of_imp hflows.rxClosed ho.rxClosed
    refine ⟨⟨ho.registered, ho.live, hdone, hrx, fun habort => ?_⟩, ?_⟩
    · rw [htodo, Option.some.injEq] at habort
      rcases hflows.abort habort with hr | ⟨hd, -⟩
      · exact ho.todo hr
      · exact absurd (hd.symm.trans ho.done) (by simp)
    · have := hret.2 ho.done ho.todo
      simp only [End.holding, htodo]
      omega
  · exact (Stream.handle_closes hh).once _

/-- A step of the environment, which moves no credit. -/
theorem Ok.environment (h : Ok cfg transport p) {e' : End} (hfl : e'.stream.Flowing)
    (hproto : e'.stream.protocol = (p.ends x).stream.protocol)
    (hcap : e'.stream.txCreditCap = (p.ends x).stream.txCreditCap)
    (hcredit : e'.stream.txCredit = (p.ends x).stream.txCredit)
    (htaken : e'.stream.taken = (p.ends x).stream.taken)
    (hun : e'.stream.unreturned = (p.ends x).stream.unreturned)
    (htodo : e'.todo = (p.ends x).todo) (hs : e'.Sends → (p.ends x).Sends)
    (hr : e'.Receives → (p.ends x).Receives) : Ok cfg transport (p.setEnd x e') := by
  have hsend : e'.sending = (p.ends x).sending := by simp [End.sending, hcredit, htaken, htodo]
  have hhold : e'.holding = (p.ends x).holding := by simp [End.holding, hun, htodo]
  refine h.move hfl hproto hcap ?_ (fun ho => ⟨hs ho, ?_⟩) ?_ (fun ho => ⟨hr ho, ?_⟩) h.wires
    (htodo ▸ h.todo x)
  all_goals
    first
      | rw [hsend]
      | rw [hhold]

theorem Ok.step (h : Ok cfg transport p) (hfc : ∀ x, (cfg x).flowControl = true)
    (hstep : p.step cfg e = some p') : Ok cfg transport p' := by
  cases e with
  | act x a =>
      obtain ⟨eff, ha, rfl⟩ := Option.map_eq_some_iff.mp hstep
      exact h.act (hfc x) ha
  | deliver x =>
      simp only [Pair.step] at hstep
      split at hstep
      · rename_i f rest htodo hwire
        split at hstep
        · contradiction
        · obtain rfl := Option.some.inj hstep
          exact h.deliver hwire htodo
      · contradiction
  | handle x now =>
      obtain ⟨todo, htodo, hstep⟩ := Option.bind_eq_some_iff.mp hstep
      obtain ⟨⟨t, b, rest⟩, hh, rfl⟩ := Option.map_eq_some_iff.mp hstep
      exact h.handle (hfc x) htodo hh
  | others x budget =>
      obtain rfl := Option.some.inj hstep
      exact h.environment (h.flowing x) rfl rfl rfl rfl rfl rfl
        (fun ho => ⟨ho.registered, ho.live, ho.txClosed, ho.todo⟩)
        fun ho => ⟨ho.registered, ho.live, ho.done, ho.rxClosed, ho.todo⟩
  | evict x =>
      obtain rfl := Option.some.inj hstep
      have hfl := h.flowing x
      exact h.environment ⟨hfl.rx, hfl.txCredit, hfl.frame, hfl.flusher, hfl.flushing,
        hfl.pastTxClosed, hfl.pastDone⟩ rfl rfl rfl rfl rfl rfl
        (fun ho => absurd ho.registered (by simp)) fun ho => absurd ho.registered (by simp)
  | abort x =>
      simp only [Pair.step] at hstep
      split at hstep
      · obtain ⟨⟨t, returned⟩, hen, rfl⟩ := Option.map_eq_some_iff.mp hstep
        have hfl : t.Flowing :=
          (show Stream.Flows false (p.ends x).stream t [] from .of_enter (h.flowing x) hen).flowing
        rcases Stream.enter_cases hen with ⟨-, -, rfl⟩ | ⟨other, -, -, rfl⟩
        all_goals
          exact h.environment ⟨hfl.rx, hfl.txCredit, hfl.frame, hfl.flusher, hfl.flushing,
            hfl.pastTxClosed, hfl.pastDone⟩ rfl rfl rfl rfl rfl rfl
            (fun ho => ⟨ho.registered, ho.live, ho.txClosed, ho.todo⟩)
            fun ho => ⟨ho.registered, ho.live, ho.done, ho.rxClosed, ho.todo⟩
      · contradiction
  | close x =>
      obtain rfl := Option.some.inj hstep
      exact h.environment (h.flowing x) rfl rfl rfl rfl rfl rfl
        (fun ho => absurd ho.live (by simp)) fun ho => absurd ho.live (by simp)
  | closeStreams x =>
      simp only [Pair.step] at hstep
      split at hstep
      · obtain rfl := Option.some.inj hstep
        have hfl := h.flowing x
        exact h.environment ⟨hfl.rx, hfl.txCredit, hfl.frame, hfl.flusher, hfl.flushing,
          hfl.pastTxClosed, hfl.pastDone⟩ rfl rfl rfl rfl rfl rfl
          (fun ho => absurd ho.registered (by simp)) fun ho => absurd ho.registered (by simp)
      · contradiction

/-! ## what follows from the law -/

/-- The byte limit of a flow-controlled stream. -/
def byteLimit : Transport → Int
  | .tcp => tcpStreamReceiveQueueByteSize
  | .udp => udpStreamReceiveQueueByteSize

theorem initialCredit_eq {cfg : Config} (h : cfg.flowControl = true) (transport : Transport) :
    initialCredit cfg transport = byteLimit transport := by
  simp only [initialCredit, h, if_true]
  cases transport <;> rfl

/-- Credit on its way back fits into the window. -/
theorem Ok.credit_fits (h : Ok cfg transport p) {credit : Nat}
    (htodo : (p.ends x).todo = some (.deliver (.windowUpdate credit))) :
    credit ≠ 0 ∧ credit ≤ maxWindowUpdate ∧
      (credit : Int) ≤ (p.ends x).stream.txCreditCap - (p.ends x).stream.txCredit := by
  have htotal := h.total_le x
  have h₁ := h.holding_nonneg x.other
  have h₂ := payloadOf_nonneg (p.wire x)
  have h₃ := creditOf_nonneg (p.wire x.other)
  have h₄ := (h.flowing x).txCredit
  have h₅ := (p.ends x).stream.taken_nonneg
  have h₆ := initialCredit_le (cfg x) transport
  simp only [total, End.sending, htodo, Stream.creditInHand, Signal.credit] at htotal
  refine ⟨fun hzero => h.todo x (by rw [htodo, hzero]), by omega, ?_⟩
  rw [h.cap x]
  omega

/-- Payload on its way fits into the queue. -/
theorem Ok.payload_fits (h : Ok cfg transport p) :
    (p.ends x).stream.rxQueued + Stream.payloadInHand (p.ends x).todo ≤
      initialCredit (cfg x.other) transport := by
  have hle := h.holding_le x
  simp only [End.holding, Stream.unreturned] at hle
  omega

/-- **Credit is conserved.** With flow control on both sides, in every state of
every run: in a direction that is open on both sides the credit at the sender, taken
by its writers, in payload on the wire, queued, waiting to be returned, with the
flusher and on its way back is the initial window.  So a WINDOW_UPDATE is never
rejected, what arrives fits into the byte limit of the stream, and a datagram that
is dropped returns its credit. -/
theorem credit_conserved (cfg : Side → Config) (id : Nat) (transport : Transport)
    (es : List Event) (p : Pair) (hfc : ∀ x, (cfg x).flowControl = true)
    (hrun : (init cfg id transport).run cfg es = some p) (a : Side) :
    (p.Open a → p.total a = byteLimit transport) ∧
    (∀ credit now t b rest, (p.ends a).todo = some (.deliver (.windowUpdate credit)) →
      (p.ends a).stream.handle (cfg a) (p.ends a).budget now (.deliver (.windowUpdate credit)) =
        some (t, b, rest) → rest = none) ∧
    (p.ends a).stream.rxQueued + Stream.payloadInHand (p.ends a).todo ≤ byteLimit transport ∧
    (∀ n now t b rest, (p.ends a).todo = some (.drop n) →
      (p.ends a).stream.handle (cfg a) (p.ends a).budget now (.drop n) = some (t, b, rest) →
      (p.ends a).stream.done = false →
      (t.windowPending : Int) = (p.ends a).stream.windowPending + n) := by
  have h : Ok cfg transport p := Conc.exec_invariant
    (fun _ _ _ h hstep => Ok.step h hfc hstep) (init_ok cfg id transport) hrun
  refine ⟨fun ho => ?_, fun credit now t b rest htodo hh => ?_, ?_,
    fun n now t b rest htodo hh hdone => ?_⟩
  · rw [h.total_eq a ho, initialCredit_eq (hfc a)]
  · obtain ⟨hne, hmax, hcap⟩ := h.credit_fits htodo
    cases Stream.handle_cases hh with
    | misusedCredit hbad =>
        rcases hbad with hzero | hbig | hover
        · exact absurd hzero hne
        · omega
        · unfold Stream.addSendCredit at hover
          split at hover
          · contradiction
          · rw [if_neg (by omega)] at hover
            contradiction
    | credit _ _ => rfl
  · have := h.payload_fits (x := a)
    rwa [initialCredit_eq (hfc a.other)] at this
  · have hlt := h.holding_lt a
    have hnon := (h.flowing a).rx.queued_nonneg
    simp only [End.holding, htodo, Stream.payloadInHand, Stream.unreturned] at hlt
    cases Stream.handle_cases hh with
    | returned =>
        have hsize : (Stream.uint32 n : Int) = n := Stream.uint32_eq (by omega) (by omega)
        unfold Stream.returnCredit
        split
        · rename_i hg
          simp only [hfc a, hdone, Bool.true_eq_false, Bool.false_eq_true, or_false,
            false_or] at hg
          omega
        · rw [Nat.mod_eq_of_lt (by omega)]
          split <;> push_cast <;> omega

/-- A relay and an agent that selected both extensions. -/
def tunnelConfig (maxStreams : Nat) (minIdle : Int) : Side → Config
  | .relay => relayConfig maxStreams minIdle
  | .agent => agentConfig

/-- The relay writes three bytes, of which the agent reads all and returns the
credit. -/
def transferRun : List Event :=
  [.act .relay (.write [1, 2, 3]), .act .relay .writeCheck, .act .relay .writeTake,
    .act .relay (.writeFrame 0), .deliver .agent, .handle .agent 0, .act .agent (.read 8),
    .act .agent .flushTake, .act .agent .flushFrame, .deliver .relay]

theorem credit_conserved_transfer :
    ∃ p, (init (tunnelConfig 256 1) 1 .tcp).run (tunnelConfig 256 1) transferRun = some p ∧
      (p.ends .relay).todo = some (.deliver (.windowUpdate 3)) ∧
      p.total .relay = byteLimit .tcp := by
  have hobs :
    (((init (tunnelConfig 256 1) 1 .tcp).run (tunnelConfig 256 1) transferRun).map fun p =>
      decide ((p.ends .relay).todo = some (.deliver (.windowUpdate 3)) ∧
        (p.ends .relay).registered = true ∧ (p.ends .relay).closed = false ∧
        (p.ends .relay).stream.txClosed = false ∧ (p.ends .agent).registered = true ∧
        (p.ends .agent).closed = false ∧ (p.ends .agent).stream.done = false ∧
        (p.ends .agent).stream.rxClosed = false ∧ (p.ends .agent).todo = none)) = some true := by
    decide +kernel
  obtain ⟨p, hp, hobs⟩ := Option.map_eq_some_iff.mp hobs
  obtain ⟨htodo, h₁, h₂, h₃, h₄, h₅, h₆, h₇, h₈⟩ := of_decide_eq_true hobs
  have hopen : p.Open .relay := ⟨⟨h₁, h₂, h₃, by simp [htodo]⟩, ⟨h₄, h₅, h₆, h₇, by
    show (p.ends .agent).todo ≠ _
    simp [h₈]⟩⟩
  exact ⟨p, hp, htodo, (credit_conserved (tunnelConfig 256 1) 1 .tcp _ p
    (fun x => by cases x <;> rfl) hp .relay).1 hopen⟩

end Pair

end Tunnel
