import Mathlib.Algebra.Order.Group.Int
import Blindport.Conc.Machine
import Blindport.Conc.Ticket
import Blindport.Data.Table

/-!
# Blindport.Relay.Admission

`admission.go` and `udp.go`: the slots a relay gives to the sources of its traffic, and the
UDP associations that hold one each.

A slot is taken before the association is registered, and given back from several places: a
lost race, a refused handler, the end of the association for whatever reason. A state is
what the mutexes protect, together with how far each call has got; an event is what happens
under one of them.

`Counted` says what the limiter adds up to, `Inv` what the associations hold, and
`admission_accounted` that both are so in every run.
-/

namespace Relay.Admission

open Conc

/-! ## slots -/

/-- A `net.Addr`: its text, and what `directPeer` finds in it. -/
structure Addr (α : Type) where
  text : String
  peer : Option α

section Slots

variable {α : Type} [DecidableEq α]

/-- `sourceLimiter`. -/
structure SourceLimiter (α : Type) where
  total : Int
  maxTotal : Nat
  perSource : Nat
  sources : AList fun _ : α => Int

/-- `l.sources[source]`. -/
def SourceLimiter.count (l : SourceLimiter α) (source : α) : Int :=
  (l.sources.lookup source).getD 0

/-- The critical section of `acquire`. -/
def SourceLimiter.take (l : SourceLimiter α) (source : α) : Option (SourceLimiter α) :=
  if l.maxTotal ≤ l.total ∨ l.perSource ≤ l.count source then none
  else some { l with
    total := l.total + 1
    sources := l.sources.insert source (l.count source + 1) }

/-- The critical section of the function `acquire` returns. -/
def SourceLimiter.putBack (l : SourceLimiter α) (source : α) : SourceLimiter α :=
  { l with
    total := l.total - 1
    sources :=
      if l.count source - 1 = 0 then l.sources.erase source
      else l.sources.insert source (l.count source - 1) }

/-- The limiter with every function `acquire` returned, and a record of which of them have
given a slot back, one entry for each time. -/
structure Slots (α : Type) where
  limiter : SourceLimiter α
  closures : List (Ticket α)
  returned : List Nat

/-- `newSourceLimiter`. -/
def Slots.new (maxTotal perSource : Nat) : Slots α :=
  ⟨⟨0, maxTotal, perSource, ∅⟩, [], []⟩

/-- `acquire`. On success the last closure is the caller's. -/
def Slots.acquire (s : Slots α) (addr : Addr α) : Option (Slots α) :=
  match addr.peer with
  | none => none
  | some source => (s.limiter.take source).map fun limiter =>
      { s with limiter, closures := Ticket.issue s.closures source }

/-- The function `acquire` returned at its `i`-th success. -/
def Slots.release (s : Slots α) (i : Nat) : Slots α :=
  match s.closures[i]? with
  | none => s
  | some c =>
      if c.used then s
      else
        { limiter := s.limiter.putBack c.key
          closures := Ticket.use s.closures i
          returned := s.returned ++ [i] }

/-- The acquisitions that have not been released. -/
def Slots.unreleased (s : Slots α) : Nat := Ticket.live (fun _ => true) s.closures

/-- The acquisitions of one source that have not been released. -/
def Slots.unreleasedOf (s : Slots α) (source : α) : Nat :=
  Ticket.live (fun key => decide (key = source)) s.closures

/-- What the limiter adds up to. -/
structure Counted (s : Slots α) : Prop where
  total : s.limiter.total = s.unreleased
  sum : Table.total s.limiter.sources = s.limiter.total
  source : ∀ source, s.limiter.count source = s.unreleasedOf source
  pos : ∀ source n, s.limiter.sources.lookup source = some n → 0 < n
  maxTotal : s.limiter.total ≤ s.limiter.maxTotal
  perSource : ∀ source, s.limiter.count source ≤ s.limiter.perSource
  returned : ∀ i c, s.closures[i]? = some c → s.returned.count i = if c.used then 1 else 0
  unknown : ∀ i, s.closures.length ≤ i → i ∉ s.returned

theorem counted_new (maxTotal perSource : Nat) :
    Counted (Slots.new maxTotal perSource : Slots α) where
  total := rfl
  sum := rfl
  source _ := rfl
  pos := by simp [Slots.new]
  maxTotal := Int.natCast_nonneg maxTotal
  perSource _ := Int.natCast_nonneg perSource
  returned := by simp [Slots.new]
  unknown := by simp [Slots.new]

theorem count_insert (l : SourceLimiter α) (source source' : α) (n : Int) :
    ((l.sources.insert source n).lookup source').getD 0 =
      if source' = source then n else l.count source' := by
  split
  · rename_i heq
    rw [heq, AList.lookup_insert, Option.getD_some]
  · rename_i hne
    rw [AList.lookup_insert_ne hne, SourceLimiter.count]

/-- The count of a source after a slot was put back. -/
theorem count_putBack (l : SourceLimiter α) (source source' : α) :
    (l.putBack source).count source' =
      if source' = source then l.count source - 1 else l.count source' := by
  rw [SourceLimiter.putBack, SourceLimiter.count]
  simp only
  split
  · rename_i hzero
    split
    · rename_i heq
      rw [heq, AList.lookup_erase, Option.getD_none, hzero]
    · rename_i hne
      rw [AList.lookup_erase_ne hne, SourceLimiter.count]
  · exact count_insert l source source' _

/-- The sum of the counts after a slot was put back. -/
theorem total_putBack (l : SourceLimiter α) (source : α) :
    Table.total (l.putBack source).sources + 1 = Table.total l.sources := by
  have herase := Table.total_erase l.sources source
  rw [← SourceLimiter.count] at herase
  unfold SourceLimiter.putBack
  simp only
  split
  · omega
  · rw [Table.total_insert]
    omega

/-- What an acquisition does. -/
theorem acquire_eq {s s' : Slots α} {addr : Addr α} (h : s.acquire addr = some s') :
    ∃ source, addr.peer = some source ∧ s.limiter.total < s.limiter.maxTotal ∧
      s.limiter.count source < s.limiter.perSource ∧
      s' = { s with
        limiter := { s.limiter with
          total := s.limiter.total + 1
          sources := s.limiter.sources.insert source (s.limiter.count source + 1) }
        closures := Ticket.issue s.closures source } := by
  unfold Slots.acquire at h
  split at h
  · contradiction
  · rename_i source hpeer
    rw [Option.map_eq_some_iff] at h
    obtain ⟨limiter, htake, rfl⟩ := h
    unfold SourceLimiter.take at htake
    split at htake
    · contradiction
    · rename_i hroom
      rw [not_or, Int.not_le, Int.not_le] at hroom
      rw [← Option.some.inj htake]
      exact ⟨source, hpeer, hroom.1, hroom.2, rfl⟩

theorem Counted.acquire {s s' : Slots α} {addr : Addr α} (hc : Counted s)
    (h : s.acquire addr = some s') : Counted s' := by
  obtain ⟨source, -, htotal, hsource, rfl⟩ := acquire_eq h
  refine
    { total := ?_
      sum := ?_
      source := fun source' => ?_
      pos := fun source' n hn => ?_
      maxTotal := by exact htotal
      perSource := fun source' => ?_
      returned := fun i c hi => ?_
      unknown := fun i hi => hc.unknown i ?_ }
  · simp only [Slots.unreleased, Ticket.live_issue, if_true]
    have hold := hc.total
    simp only [Slots.unreleased] at hold
    omega
  · have herase := Table.total_erase s.limiter.sources source
    have hold := hc.sum
    simp only [Table.total_insert, SourceLimiter.count]
    omega
  · rw [SourceLimiter.count, count_insert, Slots.unreleasedOf, Ticket.live_issue]
    have hold := hc.source source'
    simp only [Slots.unreleasedOf] at hold
    by_cases heq : source' = source
    · subst heq
      simp only [if_true, decide_true]
      omega
    · have hne : source ≠ source' := fun h => heq h.symm
      simp only [heq, hne, if_false, decide_false]
      exact hold
  · by_cases heq : source' = source
    · rw [heq, AList.lookup_insert, Option.some.injEq] at hn
      have hcount := hc.source source
      omega
    · rw [AList.lookup_insert_ne heq] at hn
      exact hc.pos source' n hn
  · rw [SourceLimiter.count, count_insert]
    split
    · exact hsource
    · exact hc.perSource source'
  · simp only [Ticket.issue] at hi
    by_cases hlt : i < s.closures.length
    · rw [List.getElem?_append_left hlt] at hi
      exact hc.returned i c hi
    · rw [Nat.not_lt] at hlt
      rw [List.getElem?_append_right hlt, List.getElem?_singleton] at hi
      split at hi
      · rw [← Option.some.inj hi, List.count_eq_zero_of_not_mem (hc.unknown i hlt)]
        rfl
      · contradiction
  · rw [Ticket.issue, List.length_append] at hi
    exact Nat.le_trans (Nat.le_add_right _ _) hi

/-- What a first release does; any other does nothing. -/
theorem release_cases (s : Slots α) (i : Nat) :
    (s.release i = s ∧ ∀ c, s.closures[i]? = some c → c.used = true) ∨
    ∃ c, s.closures[i]? = some c ∧ c.used = false ∧ s.release i =
      { limiter := s.limiter.putBack c.key
        closures := Ticket.use s.closures i
        returned := s.returned ++ [i] } := by
  unfold Slots.release
  split
  · rename_i hnone
    refine .inl ⟨rfl, fun c hc => ?_⟩
    rw [hnone] at hc
    contradiction
  · rename_i c hc
    split
    · rename_i hused
      refine .inl ⟨rfl, fun c' hc' => ?_⟩
      rw [hc, Option.some.injEq] at hc'
      rw [← hc', hused]
    · rename_i hunused
      exact .inr ⟨c, hc, Bool.eq_false_iff.mpr hunused, rfl⟩

theorem Counted.release {s : Slots α} (hc : Counted s) (i : Nat) : Counted (s.release i) := by
  rcases release_cases s i with ⟨heq, -⟩ | ⟨c, hclosure, hunused, heq⟩
  · rw [heq]
    exact hc
  rw [heq]
  have hlive := Ticket.live_use (p := fun _ : α => true) hclosure hunused
  have hliveOf : ∀ source, Ticket.live (fun key => decide (key = source))
      (Ticket.use s.closures i) + (if c.key = source then 1 else 0) =
        s.unreleasedOf source := by
    intro source
    have huse := Ticket.live_use (p := fun key => decide (key = source)) hclosure hunused
    simpa [Slots.unreleasedOf] using huse
  have hone := hliveOf c.key
  rw [if_pos rfl] at hone hlive
  have hsource := hc.source c.key
  refine
    { total := ?_
      sum := ?_
      source := fun source => ?_
      pos := fun source n hn => ?_
      maxTotal := ?_
      perSource := fun source => ?_
      returned := fun j c' hj => ?_
      unknown := fun j hj => ?_ }
  · have htotal := hc.total
    simp only [Slots.unreleased, SourceLimiter.putBack] at htotal ⊢
    omega
  · have hsum := hc.sum
    have hput := total_putBack s.limiter c.key
    have hdown : (s.limiter.putBack c.key).total = s.limiter.total - 1 := rfl
    change Table.total (s.limiter.putBack c.key).sources = (s.limiter.putBack c.key).total
    rw [hdown]
    omega
  · have hold := hc.source source
    have hof := hliveOf source
    simp only [Slots.unreleasedOf] at hold hof hone hsource ⊢
    rw [count_putBack]
    by_cases heq : source = c.key
    · subst heq
      rw [if_pos rfl]
      omega
    · rw [if_neg fun h => heq h.symm] at hof
      rw [if_neg heq]
      omega
  · simp only [SourceLimiter.putBack] at hn
    by_cases heq : source = c.key
    · split at hn
      · rw [heq, AList.lookup_erase] at hn
        contradiction
      · rename_i hmore
        rw [heq, AList.lookup_insert, Option.some.injEq] at hn
        omega
    · split at hn
      · rw [AList.lookup_erase_ne heq] at hn
        exact hc.pos source n hn
      · rw [AList.lookup_insert_ne heq] at hn
        exact hc.pos source n hn
  · have hmax := hc.maxTotal
    simp only [SourceLimiter.putBack]
    omega
  · have hold := hc.perSource source
    have hof := hc.perSource c.key
    rw [count_putBack]
    simp only [SourceLimiter.putBack]
    split
    · omega
    · exact hold
  · rw [Ticket.getElem?_use, Option.map_eq_some_iff] at hj
    obtain ⟨old, hold, hj⟩ := hj
    have hcount := hc.returned j old hold
    rw [List.count_append, hcount, List.count_singleton]
    by_cases hij : i = j
    · subst hij
      rw [if_pos rfl] at hj
      rw [hclosure, Option.some.injEq] at hold
      subst hold
      rw [← hj, hunused]
      simp
    · rw [if_neg hij] at hj
      rw [← hj]
      simp [hij]
  · rw [Ticket.use, List.length_modify] at hj
    rw [List.mem_append, List.mem_singleton, not_or]
    refine ⟨hc.unknown j hj, fun hji => ?_⟩
    rw [hji] at hj
    rw [List.getElem?_eq_none hj] at hclosure
    contradiction

end Slots

/-! ## associations -/

/-- How far an association has got. -/
inductive Phase where
  /-- `createAssociation` has a slot for it, and has not looked at the map again. -/
  | created
  /-- It found another one in the map. -/
  | lost
  /-- It is in the map, and `handlers.start` has not been called. -/
  | registered
  /-- `run`. -/
  | running
  /-- `finish` has begun: after `run`, or where the handlers refused it. -/
  | finishing
  /-- `finish` has been at the map. -/
  | removed
  /-- Its slot is given back. -/
  | done
deriving DecidableEq

/-- The association is in the map. -/
def Phase.mapped : Phase → Bool
  | registered | running | finishing => true
  | created | lost | removed | done => false

/-- `udpAssociation`; `release` is the number of its closure. -/
structure Association where
  forwarder : Nat
  key : String
  release : Nat
  phase : Phase

/-- The relay's slots, the `associations` of every forwarder, every association that was
made (known by its place), the calls of `createAssociation` on their way to a slot, and
whether the handlers are closing. -/
structure State (α : Type) where
  slots : Slots α
  associations : Nat → AList fun _ : String => Nat
  made : List Association
  creating : List (Nat × Addr α)
  closing : Bool

def State.new {α : Type} (maxTotal perSource : Nat) : State α :=
  ⟨Slots.new maxTotal perSource, fun _ => ∅, [], [], false⟩

/-- What happens at the relay, in any order. -/
inductive Event (α : Type) where
  /-- Other traffic asks for a slot. -/
  | acquire (addr : Addr α)
  /-- Other traffic gives one back, perhaps not for the first time. -/
  | release (i : Nat)
  /-- A packet arrives at a forwarder. -/
  | receive (forwarder : Nat) (source : Addr α)
  /-- `createAssociation` up to the slot; `tunnel` says whether there is one. -/
  | create (n : Nat) (tunnel : Bool)
  /-- Its critical section. -/
  | register (a : Nat)
  /-- The slot of an association that came second. -/
  | discard (a : Nat)
  /-- `handlers.start`. -/
  | start (a : Nat)
  /-- `run` returns: the stream was not opened or broke, the peer closed it, nothing came
  for too long, the answer could not be sent, or the relay stops. -/
  | exit (a : Nat)
  /-- The critical section of `finish`. -/
  | remove (a : Nat)
  /-- The slot of an association that finishes. -/
  | giveBack (a : Nat)
  /-- `handlers.stopAndWait`. -/
  | shutdown

section Udp

variable {α : Type} [DecidableEq α]

/-- The association moves on. -/
def State.setPhase (s : State α) (a : Nat) (phase : Phase) : State α :=
  { s with made := s.made.modify a fun x => { x with phase := phase } }

/-- `f.associations[key]`. -/
def State.lookup (s : State α) (forwarder : Nat) (key : String) : Option Nat :=
  (s.associations forwarder).lookup key

/-- `createAssociation` up to the slot. -/
def create (s : State α) (n : Nat) (tunnel : Bool) : Option (State α) :=
  match s.creating[n]? with
  | none => none
  | some (forwarder, source) =>
      let s := { s with creating := s.creating.eraseIdx n }
      if tunnel then
        match s.slots.acquire source with
        | none => some s
        | some slots =>
            some { s with
              slots
              made := s.made ++ [⟨forwarder, source.text, s.slots.closures.length, .created⟩] }
      else some s

/-- The critical section of `createAssociation`. -/
def register (s : State α) (a : Nat) (x : Association) : State α :=
  match s.lookup x.forwarder x.key with
  | some _ => s.setPhase a .lost
  | none =>
      { s.setPhase a .registered with
        associations := Function.update s.associations x.forwarder
          ((s.associations x.forwarder).insert x.key a) }

/-- The critical section of `finish`. -/
def remove (s : State α) (a : Nat) (x : Association) : State α :=
  { s.setPhase a .removed with
    associations :=
      if s.lookup x.forwarder x.key = some a then
        Function.update s.associations x.forwarder ((s.associations x.forwarder).erase x.key)
      else s.associations }

/-- Do something to an association that has got to a phase. -/
def State.at (s : State α) (a : Nat) (phase : Phase) (f : Association → State α) :
    Option (State α) :=
  match s.made[a]? with
  | none => none
  | some x => if x.phase = phase then some (f x) else none

/-- A step of the relay. -/
def step (s : State α) : Event α → Option (State α)
  | .acquire addr => some { s with slots := (s.slots.acquire addr).getD s.slots }
  | .release i =>
      -- the closure of an association is its own
      if s.made.any (·.release = i) then none else some { s with slots := s.slots.release i }
  | .receive forwarder source =>
      match s.lookup forwarder source.text with
      | some _ => some s
      | none => some { s with creating := s.creating ++ [(forwarder, source)] }
  | .create n tunnel => create s n tunnel
  | .register a => s.at a .created (register s a)
  | .discard a => s.at a .lost fun x =>
      { s.setPhase a .done with slots := s.slots.release x.release }
  | .start a => s.at a .registered fun _ =>
      s.setPhase a (if s.closing then .finishing else .running)
  | .exit a => s.at a .running fun _ => s.setPhase a .finishing
  | .remove a => s.at a .finishing (remove s a)
  | .giveBack a => s.at a .removed fun x =>
      { s.setPhase a .done with slots := s.slots.release x.release }
  | .shutdown => some { s with closing := true }

/-- The invariant of the associations. -/
structure Inv (s : State α) : Prop where
  slots : Counted s.slots
  /-- An association has its slot until it is done. -/
  slot : ∀ (a : Nat) (x : Association), s.made[a]? = some x →
    ∃ c, s.slots.closures[x.release]? = some c ∧ c.used = decide (x.phase = .done)
  apart : ∀ (a b : Nat) (x y : Association), s.made[a]? = some x → s.made[b]? = some y →
    x.release = y.release → a = b
  listed : ∀ (forwarder : Nat) (key : String) (a : Nat), s.lookup forwarder key = some a →
    ∃ x, s.made[a]? = some x ∧ x.forwarder = forwarder ∧ x.key = key ∧ x.phase.mapped = true
  mapped : ∀ (a : Nat) (x : Association), s.made[a]? = some x → x.phase.mapped = true →
    s.lookup x.forwarder x.key = some a

theorem inv_new (maxTotal perSource : Nat) : Inv (State.new maxTotal perSource : State α) where
  slots := counted_new maxTotal perSource
  slot := by simp [State.new]
  apart := by simp [State.new]
  listed := by simp [State.new, State.lookup]
  mapped := by simp [State.new]

/-! ## slots under the associations -/

theorem closures_release (s : Slots α) (i j : Nat) : (s.release i).closures[j]? =
    (s.closures[j]?).map fun c => if i = j then { c with used := true } else c := by
  rcases release_cases s i with ⟨heq, hused⟩ | ⟨c, -, -, heq⟩
  · rw [heq]
    cases hj : s.closures[j]? with
    | none => rfl
    | some c =>
        rw [Option.map_some]
        split
        · rename_i hij
          have huse := hused c (hij ▸ hj)
          rw [← huse]
        · rfl
  · rw [heq]
    exact Ticket.getElem?_use s.closures i j

theorem closures_acquire {s s' : Slots α} {addr : Addr α} (h : s.acquire addr = some s') {j : Nat}
    {c : Ticket α} (hj : s.closures[j]? = some c) : s'.closures[j]? = some c := by
  obtain ⟨source, -, -, -, rfl⟩ := acquire_eq h
  simp only [Ticket.issue]
  rw [List.getElem?_append_left (List.getElem?_eq_some_iff.mp hj).1]
  exact hj

/-- The associations do not see what else happens to the slots. -/
theorem Inv.congr {s s' : State α} (hinv : Inv s) (hmade : s'.made = s.made)
    (hassociations : s'.associations = s.associations) (hslots : Counted s'.slots)
    (hsame : ∀ (a : Nat) (x : Association), s.made[a]? = some x → ∀ c,
      s.slots.closures[x.release]? = some c → s'.slots.closures[x.release]? = some c) : Inv s' where
  slots := hslots
  slot a x hx := by
    rw [hmade] at hx
    obtain ⟨c, hc, hused⟩ := hinv.slot a x hx
    exact ⟨c, hsame a x hx c hc, hused⟩
  apart := by
    rw [hmade]
    exact hinv.apart
  listed := by
    rw [hmade]
    unfold State.lookup
    rw [hassociations]
    exact hinv.listed
  mapped := by
    rw [hmade]
    unfold State.lookup
    rw [hassociations]
    exact hinv.mapped

/-- A new association has the slot that was just taken. -/
theorem Inv.created {s : State α} (hinv : Inv s) {forwarder : Nat} {source : Addr α}
    {slots : Slots α} (hacquire : s.slots.acquire source = some slots)
    (creating : List (Nat × Addr α)) :
    Inv { s with
      creating, slots
      made := s.made ++ [⟨forwarder, source.text, s.slots.closures.length, .created⟩] } := by
  obtain ⟨peer, -, -, -, hslots⟩ := acquire_eq hacquire
  have hnew : slots.closures[s.slots.closures.length]? = some ⟨peer, false⟩ := by
    rw [hslots]
    exact List.getElem?_concat_length
  have hbelow : ∀ (a : Nat) (x : Association), s.made[a]? = some x →
      x.release < s.slots.closures.length := by
    intro a x hx
    obtain ⟨c, hc, -⟩ := hinv.slot a x hx
    exact (List.getElem?_eq_some_iff.mp hc).1
  have hcases : ∀ (a : Nat) (x : Association),
      (s.made ++ [⟨forwarder, source.text, s.slots.closures.length, .created⟩])[a]? = some x →
      s.made[a]? = some x ∨ (a = s.made.length ∧
        x = ⟨forwarder, source.text, s.slots.closures.length, .created⟩) := by
    intro a x hx
    by_cases hlt : a < s.made.length
    · rw [List.getElem?_append_left hlt] at hx
      exact .inl hx
    · rw [Nat.not_lt] at hlt
      rw [List.getElem?_append_right hlt, List.getElem?_singleton] at hx
      split at hx
      · exact .inr ⟨by omega, (Option.some.inj hx).symm⟩
      · contradiction
  exact
    { slots := hinv.slots.acquire hacquire
      slot := by
        intro a x hx
        cases hcases a x hx with
        | inl hold =>
            obtain ⟨c, hc, hused⟩ := hinv.slot a x hold
            exact ⟨c, closures_acquire hacquire hc, hused⟩
        | inr hlast =>
            rw [hlast.2]
            exact ⟨_, hnew, rfl⟩
      apart := by
        intro a b x y hx hy hsame
        cases hcases a x hx with
        | inl hold =>
            cases hcases b y hy with
            | inl hold' => exact hinv.apart a b x y hold hold' hsame
            | inr hlast' =>
                rw [hlast'.2] at hsame
                exact absurd hsame (Nat.ne_of_lt (hbelow a x hold))
        | inr hlast =>
            cases hcases b y hy with
            | inl hold' =>
                rw [hlast.2] at hsame
                exact absurd hsame.symm (Nat.ne_of_lt (hbelow b y hold'))
            | inr hlast' => rw [hlast.1, hlast'.1]
      listed := by
        intro f key a hlookup
        obtain ⟨x, hx, hrest⟩ := hinv.listed f key a hlookup
        refine ⟨x, ?_, hrest⟩
        rw [List.getElem?_append_left (List.getElem?_eq_some_iff.mp hx).1]
        exact hx
      mapped := by
        intro a x hx hmapped
        cases hcases a x hx with
        | inl hold => exact hinv.mapped a x hold hmapped
        | inr hlast =>
            rw [hlast.2] at hmapped
            contradiction }

/-! ## one association moves on -/

omit [DecidableEq α] in
theorem made_setPhase (s : State α) (a b : Nat) (phase : Phase) : (s.setPhase a phase).made[b]? =
    (s.made[b]?).map fun x => if a = b then { x with phase := phase } else x := by
  rw [State.setPhase, List.getElem?_modify, Option.map_eq_map]

omit [DecidableEq α] in
/-- Who is there after a move. -/
theorem made_cases {s : State α} {a b : Nat} {phase : Phase} {x y : Association}
    (hx : s.made[a]? = some x) (hy : (s.setPhase a phase).made[b]? = some y) :
    (b = a ∧ y = { x with phase := phase }) ∨ (b ≠ a ∧ s.made[b]? = some y) := by
  rw [made_setPhase, Option.map_eq_some_iff] at hy
  obtain ⟨z, hz, hy⟩ := hy
  split at hy
  · rename_i heq
    subst heq
    rw [hx, Option.some.injEq] at hz
    exact .inl ⟨rfl, by rw [← hy, hz]⟩
  · rename_i hne
    exact .inr ⟨fun h => hne h.symm, hy ▸ hz⟩

/-- A move keeps the invariant when its slot and its place in the map fit the new phase. -/
theorem Inv.moved {s s' : State α} (hinv : Inv s) {a : Nat} {x : Association} {phase : Phase}
    (hx : s.made[a]? = some x) (hmade : s'.made = (s.setPhase a phase).made)
    (hslots : Counted s'.slots)
    (hself : ∃ c, s'.slots.closures[x.release]? = some c ∧ c.used = decide (phase = .done))
    (hothers : ∀ j ≠ x.release, s'.slots.closures[j]? = s.slots.closures[j]?)
    (hlisted : ∀ f key b, s'.lookup f key = some b →
      (b = a ∧ x.forwarder = f ∧ x.key = key ∧ phase.mapped = true) ∨
        (b ≠ a ∧ s.lookup f key = some b))
    (hmapped : phase.mapped = true → s'.lookup x.forwarder x.key = some a)
    (hkept : ∀ b ≠ a, ∀ f key, s.lookup f key = some b → s'.lookup f key = some b) : Inv s' where
  slots := hslots
  slot b y hy := by
    rw [hmade] at hy
    rcases made_cases hx hy with ⟨rfl, rfl⟩ | ⟨hne, hy⟩
    · exact hself
    · have hapart : y.release ≠ x.release := fun h => hne (hinv.apart b a y x hy hx h)
      rw [hothers _ hapart]
      exact hinv.slot b y hy
  apart b b' y y' hy hy' hsame := by
    rw [hmade] at hy hy'
    rcases made_cases hx hy with ⟨rfl, rfl⟩ | ⟨-, hold⟩
    · rcases made_cases hx hy' with ⟨rfl, -⟩ | ⟨-, hold'⟩
      · rfl
      · exact hinv.apart _ _ x y' hx hold' hsame
    · rcases made_cases hx hy' with ⟨rfl, rfl⟩ | ⟨-, hold'⟩
      · exact hinv.apart _ _ y x hold hx hsame
      · exact hinv.apart _ _ y y' hold hold' hsame
  listed f key b hb := by
    rw [hmade]
    rcases hlisted f key b hb with ⟨rfl, hf, hkey, hphase⟩ | ⟨hne, hold⟩
    · refine ⟨{ x with phase := phase }, ?_, hf, hkey, hphase⟩
      rw [made_setPhase, hx, Option.map_some, if_pos rfl]
    · obtain ⟨y, hy, hrest⟩ := hinv.listed f key b hold
      refine ⟨y, ?_, hrest⟩
      rw [made_setPhase, hy, Option.map_some, if_neg fun h => hne h.symm]
  mapped b y hy hphase := by
    rw [hmade] at hy
    rcases made_cases hx hy with ⟨rfl, rfl⟩ | ⟨hne, hy⟩
    · exact hmapped hphase
    · exact hkept b hne _ _ (hinv.mapped b y hy hphase)

/-- A move that leaves the map alone. -/
theorem Inv.movedOnly {s s' : State α} (hinv : Inv s) {a : Nat} {x : Association} {phase : Phase}
    (hx : s.made[a]? = some x) (hmade : s'.made = (s.setPhase a phase).made)
    (hassociations : s'.associations = s.associations) (hphase : phase.mapped = x.phase.mapped)
    (hslots : Counted s'.slots)
    (hself : ∃ c, s'.slots.closures[x.release]? = some c ∧ c.used = decide (phase = .done))
    (hothers : ∀ j ≠ x.release, s'.slots.closures[j]? = s.slots.closures[j]?) : Inv s' := by
  have hlookup : ∀ f key, s'.lookup f key = s.lookup f key := fun f key => by
    rw [State.lookup, State.lookup, hassociations]
  refine hinv.moved hx hmade hslots hself hothers (fun f key b hb => ?_) (fun hmapped => ?_)
    fun b _ f key hb => (hlookup f key).trans hb
  · rw [hlookup] at hb
    by_cases heq : b = a
    · subst heq
      obtain ⟨y, hy, hf, hkey, hy'⟩ := hinv.listed f key b hb
      rw [hx, Option.some.injEq] at hy
      subst hy
      exact .inl ⟨rfl, hf, hkey, hphase.trans hy'⟩
    · exact .inr ⟨heq, hb⟩
  · rw [hlookup]
    exact hinv.mapped a x hx (hphase ▸ hmapped)

/-- A move that is not the last keeps the slot. -/
theorem Inv.advanced {s : State α} (hinv : Inv s) {a : Nat} {x : Association} {phase : Phase}
    (hx : s.made[a]? = some x) (hbefore : x.phase ≠ .done) (hafter : phase ≠ .done)
    (hphase : phase.mapped = x.phase.mapped) : Inv (s.setPhase a phase) := by
  refine hinv.movedOnly hx rfl rfl hphase hinv.slots ?_ fun _ _ => rfl
  obtain ⟨c, hc, hused⟩ := hinv.slot a x hx
  exact ⟨c, hc, by simpa [hbefore, hafter] using hused⟩

/-- The last move gives the slot back. -/
theorem Inv.finished {s : State α} (hinv : Inv s) {a : Nat} {x : Association}
    (hx : s.made[a]? = some x) (hphase : x.phase.mapped = false) :
    Inv { s.setPhase a .done with slots := s.slots.release x.release } := by
  refine hinv.movedOnly hx rfl rfl hphase.symm (hinv.slots.release _) ?_ fun j hj => ?_
  · obtain ⟨c, hc, -⟩ := hinv.slot a x hx
    refine ⟨{ c with used := true }, ?_, rfl⟩
    rw [closures_release, hc, Option.map_some, if_pos rfl]
  · rw [closures_release]
    simp only [if_neg hj.symm]
    exact Option.map_id'

theorem Inv.register {s : State α} (hinv : Inv s) {a : Nat} {x : Association}
    (hx : s.made[a]? = some x) (hphase : x.phase = .created) : Inv (register s a x) := by
  have hmapped : x.phase.mapped = false := by rw [hphase]; rfl
  unfold Admission.register
  split
  · exact hinv.advanced hx (by simp [hphase]) (by simp) hmapped.symm
  · rename_i hnone
    have hlookup : ∀ f key, State.lookup { s.setPhase a .registered with
        associations := Function.update s.associations x.forwarder
          ((s.associations x.forwarder).insert x.key a) } f key =
        if f = x.forwarder ∧ key = x.key then some a else s.lookup f key := by
      intro f key
      rw [State.lookup]
      simp only
      by_cases hf : f = x.forwarder
      · subst hf
        rw [Function.update_self]
        by_cases hkey : key = x.key
        · subst hkey
          rw [AList.lookup_insert, if_pos ⟨rfl, rfl⟩]
        · rw [AList.lookup_insert_ne hkey, if_neg fun h => hkey h.2, State.lookup]
      · rw [Function.update_of_ne hf, if_neg fun h => hf h.1, State.lookup]
    refine hinv.moved hx rfl hinv.slots ?_ (fun _ _ => rfl) (fun f key b hb => ?_) (fun _ => ?_)
      fun b hne f key hb => ?_
    · obtain ⟨c, hc, hused⟩ := hinv.slot a x hx
      exact ⟨c, hc, by simpa [hphase] using hused⟩
    · rw [hlookup] at hb
      split at hb
      · rename_i hsame
        exact .inl ⟨(Option.some.inj hb).symm, hsame.1.symm, hsame.2.symm, rfl⟩
      · refine .inr ⟨fun heq => ?_, hb⟩
        -- it is not in the map yet
        subst heq
        obtain ⟨y, hy, -, -, hy'⟩ := hinv.listed f key b hb
        rw [hx, Option.some.injEq] at hy
        subst hy
        rw [hmapped] at hy'
        contradiction
    · rw [hlookup, if_pos ⟨rfl, rfl⟩]
    · rw [hlookup, if_neg]
      · exact hb
      · rintro ⟨rfl, rfl⟩
        rw [hnone] at hb
        contradiction

theorem Inv.remove {s : State α} (hinv : Inv s) {a : Nat} {x : Association}
    (hx : s.made[a]? = some x) (hphase : x.phase = .finishing) : Inv (remove s a x) := by
  have hself : s.lookup x.forwarder x.key = some a := hinv.mapped a x hx (by rw [hphase]; rfl)
  unfold Admission.remove
  rw [if_pos hself]
  have hlookup : ∀ f key, State.lookup { s.setPhase a .removed with
      associations := Function.update s.associations x.forwarder
        ((s.associations x.forwarder).erase x.key) } f key =
      if f = x.forwarder ∧ key = x.key then none else s.lookup f key := by
    intro f key
    rw [State.lookup]
    simp only
    by_cases hf : f = x.forwarder
    · subst hf
      rw [Function.update_self]
      by_cases hkey : key = x.key
      · subst hkey
        rw [AList.lookup_erase, if_pos ⟨rfl, rfl⟩]
      · rw [AList.lookup_erase_ne hkey, if_neg fun h => hkey h.2, State.lookup]
    · rw [Function.update_of_ne hf, if_neg fun h => hf h.1, State.lookup]
  refine hinv.moved hx rfl hinv.slots ?_ (fun _ _ => rfl) (fun f key b hb => ?_) (fun h => ?_)
    fun b hne f key hb => ?_
  · obtain ⟨c, hc, hused⟩ := hinv.slot a x hx
    exact ⟨c, hc, by simpa [hphase] using hused⟩
  · rw [hlookup] at hb
    split at hb
    · contradiction
    · rename_i hother
      refine .inr ⟨fun heq => hother ?_, hb⟩
      subst heq
      obtain ⟨y, hy, hf, hkey, -⟩ := hinv.listed f key b hb
      rw [hx, Option.some.injEq] at hy
      subst hy
      exact ⟨hf.symm, hkey.symm⟩
  · contradiction
  · rw [hlookup, if_neg]
    · exact hb
    · rintro ⟨rfl, rfl⟩
      rw [hself, Option.some.injEq] at hb
      exact hne hb.symm

/-! ## every step -/

omit [DecidableEq α] in
/-- An event of one association. -/
theorem at_eq {s s' : State α} {a : Nat} {phase : Phase} {f : Association → State α}
    (h : s.at a phase f = some s') : ∃ x, s.made[a]? = some x ∧ x.phase = phase ∧ s' = f x := by
  unfold State.at at h
  split at h
  · contradiction
  · rename_i x hx
    split at h
    · rename_i hphase
      exact ⟨x, hx, hphase, (Option.some.inj h).symm⟩
    · contradiction

theorem Inv.step {s s' : State α} (hinv : Inv s) {e : Event α} (h : step s e = some s') :
    Inv s' := by
  cases e with
  | acquire addr =>
      rw [← Option.some.inj h]
      cases hacquire : s.slots.acquire addr with
      | none => exact hinv.congr rfl rfl hinv.slots fun _ _ _ _ hc => hc
      | some slots =>
          exact hinv.congr rfl rfl (hinv.slots.acquire hacquire) fun _ _ _ _ hc =>
            closures_acquire hacquire hc
  | release i =>
      simp only [Admission.step] at h
      split at h
      · contradiction
      · rename_i hforeign
        rw [← Option.some.inj h]
        refine hinv.congr rfl rfl (hinv.slots.release i) fun a x hx c hc => ?_
        have hne : i ≠ x.release := by
          intro heq
          apply hforeign
          rw [List.any_eq_true]
          exact ⟨x, List.mem_of_getElem? hx, decide_eq_true heq.symm⟩
        rw [closures_release, hc, Option.map_some, if_neg hne]
  | receive forwarder source =>
      simp only [Admission.step] at h
      split at h
      · rw [← Option.some.inj h]
        exact hinv
      · rw [← Option.some.inj h]
        exact hinv.congr rfl rfl hinv.slots fun _ _ _ _ hc => hc
  | create n tunnel =>
      simp only [Admission.step, create] at h
      split at h
      · contradiction
      · split at h
        · split at h
          · rw [← Option.some.inj h]
            exact hinv.congr rfl rfl hinv.slots fun _ _ _ _ hc => hc
          · rename_i slots hacquire
            rw [← Option.some.inj h]
            exact hinv.created hacquire _
        · rw [← Option.some.inj h]
          exact hinv.congr rfl rfl hinv.slots fun _ _ _ _ hc => hc
  | register a =>
      obtain ⟨x, hx, hphase, rfl⟩ := at_eq h
      exact hinv.register hx hphase
  | discard a =>
      obtain ⟨x, hx, hphase, rfl⟩ := at_eq h
      exact hinv.finished hx (by rw [hphase]; rfl)
  | start a =>
      obtain ⟨x, hx, hphase, rfl⟩ := at_eq h
      refine hinv.advanced hx (by simp [hphase]) (by split <;> simp) ?_
      rw [hphase]
      split <;> rfl
  | exit a =>
      obtain ⟨x, hx, hphase, rfl⟩ := at_eq h
      exact hinv.advanced hx (by simp [hphase]) (by simp) (by rw [hphase]; rfl)
  | remove a =>
      obtain ⟨x, hx, hphase, rfl⟩ := at_eq h
      exact hinv.remove hx hphase
  | giveBack a =>
      obtain ⟨x, hx, hphase, rfl⟩ := at_eq h
      exact hinv.finished hx (by rw [hphase]; rfl)
  | shutdown =>
      rw [← Option.some.inj h]
      exact hinv.congr rfl rfl hinv.slots fun _ _ _ _ hc => hc

/-- What a step does to the slots. -/
theorem step_slots {s s' : State α} {e : Event α} (h : step s e = some s') :
    s'.slots = s.slots ∨ (∃ addr, s.slots.acquire addr = some s'.slots) ∨
      ∃ i, s'.slots = s.slots.release i := by
  cases e with
  | acquire addr =>
      rw [← Option.some.inj h]
      cases hacquire : s.slots.acquire addr with
      | none => exact .inl rfl
      | some slots => exact .inr (.inl ⟨addr, hacquire⟩)
  | release i =>
      simp only [Admission.step] at h
      split at h
      · contradiction
      · rw [← Option.some.inj h]
        exact .inr (.inr ⟨i, rfl⟩)
  | receive forwarder source =>
      simp only [Admission.step] at h
      split at h
      · rw [← Option.some.inj h]
        exact .inl rfl
      · rw [← Option.some.inj h]
        exact .inl rfl
  | create n tunnel =>
      simp only [Admission.step, create] at h
      split at h
      · contradiction
      · rename_i source _
        split at h
        · split at h
          · rw [← Option.some.inj h]
            exact .inl rfl
          · rename_i hacquire
            rw [← Option.some.inj h]
            exact .inr (.inl ⟨source, hacquire⟩)
        · rw [← Option.some.inj h]
          exact .inl rfl
  | register a =>
      obtain ⟨x, -, -, rfl⟩ := at_eq h
      unfold Admission.register
      split <;> exact .inl rfl
  | discard a =>
      obtain ⟨x, -, -, rfl⟩ := at_eq h
      exact .inr (.inr ⟨x.release, rfl⟩)
  | start a =>
      obtain ⟨x, -, -, rfl⟩ := at_eq h
      exact .inl rfl
  | exit a =>
      obtain ⟨x, -, -, rfl⟩ := at_eq h
      exact .inl rfl
  | remove a =>
      obtain ⟨x, -, -, rfl⟩ := at_eq h
      exact .inl rfl
  | giveBack a =>
      obtain ⟨x, -, -, rfl⟩ := at_eq h
      exact .inr (.inr ⟨x.release, rfl⟩)
  | shutdown =>
      rw [← Option.some.inj h]
      exact .inl rfl

/-- The limits are what they were. -/
theorem step_limits {s s' : State α} {e : Event α} (h : step s e = some s') :
    s'.slots.limiter.maxTotal = s.slots.limiter.maxTotal ∧
      s'.slots.limiter.perSource = s.slots.limiter.perSource := by
  rcases step_slots h with heq | ⟨addr, hacquire⟩ | ⟨i, heq⟩
  · rw [heq]
    exact ⟨rfl, rfl⟩
  · obtain ⟨source, -, -, -, heq⟩ := acquire_eq hacquire
    rw [heq]
    exact ⟨rfl, rfl⟩
  · rw [heq]
    rcases release_cases s.slots i with ⟨hsame, -⟩ | ⟨c, -, -, hrelease⟩
    · rw [hsame]
      exact ⟨rfl, rfl⟩
    · rw [hrelease]
      exact ⟨rfl, rfl⟩

/-- Only `finish` of an association takes it out of the map. -/
theorem step_lookup {s s' : State α} (hinv : Inv s) {e : Event α} (h : step s e = some s')
    {f : Nat} {key : String} {a : Nat} (hlookup : s.lookup f key = some a)
    (hgone : s'.lookup f key ≠ some a) : e = .remove a := by
  cases e with
  | acquire addr =>
      rw [← Option.some.inj h] at hgone
      exact absurd hlookup hgone
  | release i =>
      simp only [Admission.step] at h
      split at h
      · contradiction
      · rw [← Option.some.inj h] at hgone
        exact absurd hlookup hgone
  | receive forwarder source =>
      simp only [Admission.step] at h
      split at h
      · rw [← Option.some.inj h] at hgone
        exact absurd hlookup hgone
      · rw [← Option.some.inj h] at hgone
        exact absurd hlookup hgone
  | create n tunnel =>
      simp only [Admission.step, create] at h
      split at h
      · contradiction
      · split at h
        · split at h
          · rw [← Option.some.inj h] at hgone
            exact absurd hlookup hgone
          · rw [← Option.some.inj h] at hgone
            exact absurd hlookup hgone
        · rw [← Option.some.inj h] at hgone
          exact absurd hlookup hgone
  | register b =>
      obtain ⟨x, hx, hphase, rfl⟩ := at_eq h
      exfalso
      apply hgone
      unfold Admission.register
      split
      · exact hlookup
      · rename_i hnone
        rw [State.lookup]
        simp only
        by_cases hf : f = x.forwarder
        · subst hf
          have hkey : key ≠ x.key := by
            rintro rfl
            rw [hnone] at hlookup
            contradiction
          rw [Function.update_self, AList.lookup_insert_ne hkey]
          exact hlookup
        · rw [Function.update_of_ne hf]
          exact hlookup
  | discard b =>
      obtain ⟨x, -, -, rfl⟩ := at_eq h
      exact absurd hlookup hgone
  | start b =>
      obtain ⟨x, -, -, rfl⟩ := at_eq h
      exact absurd hlookup hgone
  | exit b =>
      obtain ⟨x, -, -, rfl⟩ := at_eq h
      exact absurd hlookup hgone
  | remove b =>
      obtain ⟨x, hx, hphase, rfl⟩ := at_eq h
      by_cases heq : b = a
      · rw [heq]
      · exfalso
        apply hgone
        have hself : s.lookup x.forwarder x.key = some b := hinv.mapped b x hx (by rw [hphase]; rfl)
        unfold Admission.remove
        rw [if_pos hself, State.lookup]
        simp only
        by_cases hf : f = x.forwarder
        · subst hf
          have hkey : key ≠ x.key := by
            rintro rfl
            rw [hself, Option.some.injEq] at hlookup
            exact heq hlookup
          rw [Function.update_self, AList.lookup_erase_ne hkey]
          exact hlookup
        · rw [Function.update_of_ne hf]
          exact hlookup
  | giveBack b =>
      obtain ⟨x, -, -, rfl⟩ := at_eq h
      exact absurd hlookup hgone
  | shutdown =>
      rw [← Option.some.inj h] at hgone
      exact absurd hlookup hgone

/-! ## every association ends -/

/-- The association can get to its end. -/
def Ends (s : State α) (a : Nat) : Prop :=
  ∃ events s' x, exec step s events = some s' ∧ s'.made[a]? = some x ∧ x.phase = .done

theorem Ends.of_step {s s' : State α} {a : Nat} {e : Event α} (h : step s e = some s')
    (hends : Ends s' a) : Ends s a := by
  obtain ⟨events, s'', x, hrun, hx, hphase⟩ := hends
  exact ⟨e :: events, s'', x, (exec_cons_of h events).trans hrun, hx, hphase⟩

omit [DecidableEq α] in
theorem at_of {s : State α} {a : Nat} {x : Association} (hx : s.made[a]? = some x)
    (f : Association → State α) : s.at a x.phase f = some (f x) := by
  simp only [State.at, hx, if_true]

omit [DecidableEq α] in
/-- The association in its next phase. -/
theorem made_self {s s' : State α} {a : Nat} {x : Association} (hx : s.made[a]? = some x)
    {phase : Phase} (h : s'.made = (s.setPhase a phase).made) :
    s'.made[a]? = some { x with phase := phase } := by
  rw [h, made_setPhase, hx, Option.map_some, if_pos rfl]

theorem ends {s : State α} {a : Nat} {x : Association} (hx : s.made[a]? = some x) : Ends s a := by
  have hremoved : ∀ (s : State α) (x : Association), s.made[a]? = some x →
      x.phase = .removed → Ends s a := by
    intro s x hx hphase
    have hstep := at_of hx fun x =>
      { s.setPhase a .done with slots := s.slots.release x.release }
    rw [hphase] at hstep
    exact .of_step (e := .giveBack a) hstep ⟨[], _, _, rfl, made_self hx rfl, rfl⟩
  have hfinishing : ∀ (s : State α) (x : Association), s.made[a]? = some x →
      x.phase = .finishing → Ends s a := by
    intro s x hx hphase
    have hstep := at_of hx (remove s a)
    rw [hphase] at hstep
    exact .of_step (e := .remove a) hstep (hremoved _ _ (made_self hx rfl) rfl)
  have hrunning : ∀ (s : State α) (x : Association), s.made[a]? = some x →
      x.phase = .running → Ends s a := by
    intro s x hx hphase
    have hstep := at_of hx fun _ => s.setPhase a .finishing
    rw [hphase] at hstep
    exact .of_step (e := .exit a) hstep (hfinishing _ _ (made_self hx rfl) rfl)
  have hregistered : ∀ (s : State α) (x : Association), s.made[a]? = some x →
      x.phase = .registered → Ends s a := by
    intro s x hx hphase
    have hstep := at_of hx fun _ => s.setPhase a (if s.closing then .finishing else .running)
    rw [hphase] at hstep
    refine .of_step (e := .start a) hstep ?_
    cases s.closing with
    | true => exact hfinishing _ _ (made_self hx rfl) rfl
    | false => exact hrunning _ _ (made_self hx rfl) rfl
  have hlost : ∀ (s : State α) (x : Association), s.made[a]? = some x →
      x.phase = .lost → Ends s a := by
    intro s x hx hphase
    have hstep := at_of hx fun x =>
      { s.setPhase a .done with slots := s.slots.release x.release }
    rw [hphase] at hstep
    exact .of_step (e := .discard a) hstep ⟨[], _, _, rfl, made_self hx rfl, rfl⟩
  cases hphase : x.phase with
  | created =>
      have hstep := at_of hx (register s a)
      rw [hphase] at hstep
      refine .of_step (e := .register a) hstep ?_
      unfold register
      split
      · exact hlost _ _ (made_self hx rfl) rfl
      · exact hregistered _ _ (made_self hx rfl) rfl
  | lost => exact hlost s x hx hphase
  | registered => exact hregistered s x hx hphase
  | running => exact hrunning s x hx hphase
  | finishing => exact hfinishing s x hx hphase
  | removed => exact hremoved s x hx hphase
  | done => exact ⟨[], s, x, rfl, hx, hphase⟩

end Udp

/-! ## what holds of every run -/

section Runs

variable {α : Type} [DecidableEq α]

/-- The slots and the associations add up. -/
structure Accounted (maxTotal perSource : Nat) (s : State α) : Prop where
  total : s.slots.limiter.total = s.slots.unreleased
  sum : s.slots.limiter.total = Table.total s.slots.limiter.sources
  source : ∀ source, s.slots.limiter.count source = s.slots.unreleasedOf source
  atMost : s.slots.limiter.total ≤ maxTotal
  atMostOf : ∀ source, s.slots.limiter.count source ≤ perSource
  noZero : ∀ source n, s.slots.limiter.sources.lookup source = some n → 0 < n
  /-- A source has one association in the map of a forwarder. -/
  one : ∀ (a b : Nat) (x y : Association), s.made[a]? = some x → s.made[b]? = some y →
    x.phase.mapped = true → y.phase.mapped = true → x.forwarder = y.forwarder → x.key = y.key →
      a = b
  listed : ∀ forwarder key a, s.lookup forwarder key = some a → ∃ x, s.made[a]? = some x ∧
    x.forwarder = forwarder ∧ x.key = key ∧ x.phase.mapped = true
  /-- An association has given its slot back once when it is done, and never before. -/
  once : ∀ (a : Nat) (x : Association), s.made[a]? = some x →
    s.slots.returned.count x.release = if x.phase = .done then 1 else 0
  /-- It can always get there. -/
  ends : ∀ (a : Nat) (x : Association), s.made[a]? = some x → Ends s a
  /-- What leaves the map is taken out by itself. -/
  itself : ∀ e s', step s e = some s' → ∀ forwarder key a, s.lookup forwarder key = some a →
    s'.lookup forwarder key ≠ some a → e = .remove a

theorem Inv.accounted {maxTotal perSource : Nat} {s : State α} (hinv : Inv s)
    (hmax : s.slots.limiter.maxTotal = maxTotal) (hper : s.slots.limiter.perSource = perSource) :
    Accounted maxTotal perSource s where
  total := hinv.slots.total
  sum := hinv.slots.sum.symm
  source := hinv.slots.source
  atMost := hmax ▸ hinv.slots.maxTotal
  atMostOf source := hper ▸ hinv.slots.perSource source
  noZero := hinv.slots.pos
  one a b x y hx hy hx' hy' hf hkey := by
    have ha := hinv.mapped a x hx hx'
    have hb := hinv.mapped b y hy hy'
    rw [hf, hkey, hb, Option.some.injEq] at ha
    exact ha.symm
  listed := hinv.listed
  once a x hx := by
    obtain ⟨c, hc, hused⟩ := hinv.slot a x hx
    rw [hinv.slots.returned _ c hc, hused]
    simp
  ends a x hx := Admission.ends hx
  itself e s' h f key a := step_lookup hinv h

/-- **In every run the limiter's total is the sum of its counts and the number of slots not
given back, within its limits; a source has one association in each forwarder's map; and
every association gives its slot back once and takes only itself out of the map.** -/
theorem admission_accounted {maxTotal perSource : Nat} {events : List (Event α)} {s : State α}
    (hrun : exec step (State.new maxTotal perSource) events = some s) :
    Accounted maxTotal perSource s := by
  have hinv : Inv s := exec_invariant (fun s e s' h hstep => h.step hstep)
    (inv_new maxTotal perSource) hrun
  have hmax : s.slots.limiter.maxTotal = maxTotal :=
    exec_invariant (I := fun s : State α => s.slots.limiter.maxTotal = maxTotal)
      (fun s e s' h hstep => (step_limits hstep).1.trans h) rfl hrun
  have hper : s.slots.limiter.perSource = perSource :=
    exec_invariant (I := fun s : State α => s.slots.limiter.perSource = perSource)
      (fun s e s' h hstep => (step_limits hstep).2.trans h) rfl hrun
  exact hinv.accounted hmax hper

end Runs

/-- A source behind one address. -/
def visitor : Addr Nat := ⟨"198.51.100.7:4000", some 7⟩

/-- Two calls race for one source; the second finds the first in the map. -/
def race : List (Event Nat) :=
  [.receive 0 visitor, .receive 0 visitor, .create 0 true, .create 0 true, .register 0,
    .register 1, .discard 1, .start 0]

/-- One slot is held, and the other was given back once. -/
theorem admission_accounted_race : ∃ s, exec step (State.new 4 2) race = some s ∧
    s.slots.unreleased = 1 ∧ s.slots.limiter.total = 1 ∧ s.slots.returned.count 1 = 1 :=
  ⟨_, rfl, by decide, (@admission_accounted Nat _ 4 2 race _ rfl).total, by decide⟩

end Relay.Admission
