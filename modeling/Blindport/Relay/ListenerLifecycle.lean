import Mathlib.Data.List.AList
import Blindport.Conc.Machine
import Blindport.Conc.Ticket
import Blindport.Relay.PortListeners

/-!
# Blindport.Relay.ListenerLifecycle

`port_listeners.go` once more, with every socket that is opened and closed on the way: binds
that fail halfway, release closures that are called more than once, and a shutdown that
closes what it has taken out of the registry one entry after another, outside the lock.

`PortListeners` asks which sockets a claim may have; here the question is when they are open.
`Inv` is what every step keeps, and `registry_sound` reads the answer off it: a key has its
listeners open while somebody who acquired them has not released them, and no socket is
bound for anything else.
-/

namespace Relay.Listeners

open Conc

/-! ## sockets -/

/-- A `net.Listener` or `net.PacketConn`: which one, and where it is bound. -/
structure Handle where
  id : Nat
  network : String
  address : String
deriving DecidableEq

/-- What the operating system has open for this relay. -/
structure Sockets where
  bound : List Handle
  next : Nat

/-- `registry.listen` and `registry.listenPacket`, when they succeed. -/
def Sockets.listen (network address : String) (s : Sockets) : Handle × Sockets :=
  (⟨s.next, network, address⟩, ⟨⟨s.next, network, address⟩ :: s.bound, s.next + 1⟩)

/-- `portListener`. -/
structure Entry where
  references : Int
  listeners : List Handle
  packetConns : List Handle

/-- Everything the entry has open. -/
def Entry.handles (entry : Entry) : List Handle := entry.listeners ++ entry.packetConns

/-- `entry.close`; closing a closed socket does nothing. -/
def Entry.close (entry : Entry) (s : Sockets) : Sockets :=
  { s with bound := s.bound.filter (· ∉ entry.handles) }

/-! ## the registry -/

/-- What `acquire` reads of a claim. -/
structure PortClaim where
  ip : String
  port : Nat
  transport : String

/-- `claimKey` of a Port claim. -/
def PortClaim.key (claim : PortClaim) : String :=
  "port:" ++ claim.transport ++ ":" ++ joinHostPort claim.ip claim.port

/-- `portListenerRegistry`, with the entries that were ever made, the closures `acquire`
returned, and what `closeAll` has still to close. An entry is known by its place. -/
structure Registry where
  sharedIPs : List String
  maxListeners : Nat
  listeners : AList fun _ : String => Nat
  closed : Bool
  entries : List Entry
  closures : List (Ticket (String × Nat))
  closing : List Nat
  sockets : Sockets

/-- `newPortListenerRegistry`. -/
def Registry.new (sharedIPs : List String) (maxListeners : Nat) : Registry where
  sharedIPs := sharedIPs
  maxListeners := maxListeners
  listeners := ∅
  closed := false
  entries := []
  closures := []
  closing := []
  sockets := ⟨[], 0⟩

/-- The loop of `acquire` over the shared addresses; `granted n` says whether the `n`-th
bind from here on succeeds. -/
def bindEach (claim : PortClaim) : List String → (Nat → Bool) → Entry → Sockets →
    Except String Entry × Sockets
  | [], _, entry, s => (.ok entry, s)
  | ip :: ips, granted, entry, s =>
      let address := joinHostPort ip claim.port
      if claim.transport = "tcp" then
        if granted 0 then
          let (listener, s) := s.listen "tcp" address
          bindEach claim ips (fun n => granted (n + 1))
            { entry with listeners := entry.listeners ++ [listener] } s
        else (.error ("listen tcp " ++ address), entry.close s)
      else if claim.transport = "udp" then
        if granted 0 then
          let (packetConn, s) := s.listen "udp" address
          bindEach claim ips (fun n => granted (n + 1))
            { entry with packetConns := entry.packetConns ++ [packetConn] } s
        else (.error ("listen udp " ++ address), entry.close s)
      else (.error "unsupported shared port transport", entry.close s)

/-- `acquire`; `cancelled` says whether the context is done. On success the last closure
is the caller's. -/
def acquire (r : Registry) (cancelled : Bool) (claim : PortClaim) (granted : Nat → Bool) :
    Except String Unit × Registry :=
  if cancelled then (.error "context canceled", r)
  else if r.closed then (.error "shared port listener registry is closed", r)
  else match r.listeners.lookup claim.key with
  | some existing =>
      (.ok (),
        { r with
          entries := r.entries.modify existing fun e => { e with references := e.references + 1 }
          closures := Ticket.issue r.closures (claim.key, existing) })
  | none =>
      if r.maxListeners ≤ r.listeners.entries.length then
        (.error "shared port listener capacity reached", r)
      else match bindEach claim r.sharedIPs granted ⟨1, [], []⟩ r.sockets with
      | (.error e, s) => (.error e, { r with sockets := s })
      | (.ok entry, s) =>
          (.ok (),
            { r with
              listeners := r.listeners.insert claim.key r.entries.length
              entries := r.entries ++ [entry]
              closures := Ticket.issue r.closures (claim.key, r.entries.length)
              sockets := s })

/-- `release`. -/
def release (r : Registry) (key : String) (entry : Nat) : Registry :=
  if r.listeners.lookup key ≠ some entry then r
  else match r.entries[entry]? with
  | none => r
  | some e =>
      let released := { e with references := e.references - 1 }
      let r := { r with entries := r.entries.set entry released }
      if released.references ≠ 0 then r
      else { r with listeners := r.listeners.erase key, sockets := released.close r.sockets }

/-- The closure of `releaseFunc`. -/
def call (r : Registry) (i : Nat) : Registry :=
  match r.closures[i]? with
  | none => r
  | some c =>
      if c.used then r
      else release { r with closures := Ticket.use r.closures i } c.key.1 c.key.2

/-- `closeAll` up to the unlock. -/
def closeAll (r : Registry) : Registry :=
  if r.closed then r
  else
    { r with
      closed := true
      closing := r.listeners.entries.map (·.2)
      listeners := ∅ }

/-- One turn of the loop after it, for any of the entries left. -/
def closeEntry (r : Registry) (entry : Nat) : Option Registry :=
  if entry ∈ r.closing then
    some { r with
      closing := r.closing.erase entry
      sockets := match r.entries[entry]? with
        | none => r.sockets
        | some e => e.close r.sockets }
  else none

/-- What happens at the registry, in any order. -/
inductive Event where
  | acquire (cancelled : Bool) (claim : PortClaim) (granted : Nat → Bool)
  | call (i : Nat)
  | closeAll
  | closeEntry (entry : Nat)

/-- A step of the registry. -/
def step (r : Registry) : Event → Option Registry
  | .acquire cancelled claim granted => some (acquire r cancelled claim granted).2
  | .call i => some (call r i)
  | .closeAll => some (closeAll r)
  | .closeEntry entry => closeEntry r entry

/-! ## what is asked -/

/-- The acquisitions of a key that succeeded and have not been released. -/
def outstanding (r : Registry) (key : String) : Nat :=
  Ticket.live (fun c : String × Nat => c.1 = key) r.closures

/-- One socket for every shared address, with the claim's port. -/
def Entry.Serves (entry : Entry) (sharedIPs : List String) (claim : PortClaim) : Prop :=
  (entry.handles.map fun h => (h.network, h.address)).Perm
    (sharedIPs.map fun ip => (claim.transport, joinHostPort ip claim.port))

/-- The key is registered with an entry. -/
def Listens (r : Registry) (key : String) (entry : Entry) : Prop :=
  ∃ place, r.listeners.lookup key = some place ∧ r.entries[place]? = some entry

/-- The key has its listeners open. -/
def Open (r : Registry) (key : String) : Prop :=
  ∃ entry claim, Listens r key entry ∧ claim.key = key ∧ entry.Serves r.sharedIPs claim ∧
    ∀ h ∈ entry.handles, h ∈ r.sockets.bound

/-! ## binding -/

/-- What the binding loop has opened on top of what the entry had. -/
structure Opened (claim : PortClaim) (ips : List String) (entry : Entry) (s : Sockets)
    (new : List Handle) (result : Except String Entry × Sockets) : Prop where
  next : s.next ≤ result.2.next
  ids : ∀ h ∈ new, s.next ≤ h.id ∧ h.id < result.2.next
  ok : ∀ e, result.1 = .ok e → e.references = entry.references ∧
    e.handles.Perm (entry.handles ++ new) ∧
    (∀ h, h ∈ result.2.bound ↔ h ∈ new ∨ h ∈ s.bound) ∧
    (new.map fun h => (h.network, h.address)) =
      ips.map fun ip => (claim.transport, joinHostPort ip claim.port)
  error : ∀ m, result.1 = .error m → ∃ closed : List Handle,
    (∀ h, h ∈ closed ↔ h ∈ entry.handles ∨ h ∈ new) ∧
    result.2.bound = s.bound.filter (· ∉ closed)

/-- A bind that is refused closes what the entry had. -/
theorem Opened.refused {claim : PortClaim} {ips : List String} (entry : Entry) (s : Sockets)
    (m : String) : Opened claim ips entry s [] (.error m, entry.close s) where
  next := Nat.le_refl _
  ids := by simp
  ok := by simp
  error := fun _ _ => ⟨entry.handles, by simp, rfl⟩

/-- A bind that is granted adds one socket. -/
theorem Opened.granted {claim : PortClaim} {network ip : String} {ips : List String}
    {entry e : Entry} {s : Sockets} {new : List Handle} {result : Except String Entry × Sockets}
    (hnetwork : claim.transport = network)
    (h : Opened claim ips e (s.listen network (joinHostPort ip claim.port)).2 new result)
    (hreferences : e.references = entry.references)
    (hhandles : e.handles.Perm (entry.handles ++
      [⟨s.next, network, joinHostPort ip claim.port⟩])) :
    Opened claim (ip :: ips) entry s (⟨s.next, network, joinHostPort ip claim.port⟩ :: new)
      result where
  next := Nat.le_of_succ_le h.next
  ids := by
    have hnext : s.next + 1 ≤ result.2.next := h.next
    intro x hx
    cases List.mem_cons.mp hx with
    | inl heq =>
        rw [heq]
        exact ⟨Nat.le_refl _, hnext⟩
    | inr hx =>
        have hid : s.next + 1 ≤ x.id ∧ x.id < result.2.next := h.ids x hx
        omega
  ok := by
    intro e' he'
    obtain ⟨hr, hperm, hbound, hmap⟩ := h.ok e' he'
    refine ⟨hr.trans hreferences, ?_, fun x => ?_, ?_⟩
    · have hmore := hhandles.append_right new
      rw [List.append_assoc] at hmore
      exact hperm.trans hmore
    · rw [hbound x, Sockets.listen, List.mem_cons, List.mem_cons]
      tauto
    · rw [List.map_cons, List.map_cons, hmap, hnetwork]
  error := by
    intro m hm
    obtain ⟨closed, hclosed, hbound⟩ := h.error m hm
    have hmem : ∀ x, x ∈ closed ↔ x ∈ entry.handles ∨
        x ∈ (⟨s.next, network, joinHostPort ip claim.port⟩ : Handle) :: new := by
      intro x
      rw [hclosed x, hhandles.mem_iff, List.mem_append, List.mem_singleton, List.mem_cons, or_assoc]
    refine ⟨closed, hmem, ?_⟩
    rw [hbound, Sockets.listen, List.filter_cons_of_neg]
    rw [decide_eq_true_eq, not_not, hmem]
    exact .inr List.mem_cons_self

/-- The binding loop opens a socket for every address, or leaves none open. -/
theorem bindEach_opened (claim : PortClaim) (ips : List String) (granted : Nat → Bool)
    (entry : Entry) (s : Sockets) :
    ∃ new, Opened claim ips entry s new (bindEach claim ips granted entry s) := by
  induction ips generalizing granted entry s with
  | nil =>
      refine ⟨[], Nat.le_refl _, by simp, fun e he => ?_, fun m hm => by simp [bindEach] at hm⟩
      obtain rfl := Except.ok.inj he
      exact ⟨rfl, by simp, by simp [bindEach], rfl⟩
  | cons ip ips ih =>
      rw [bindEach]
      split
      · rename_i htcp
        split
        · obtain ⟨new, hopened⟩ := ih (fun n => granted (n + 1))
            { entry with listeners := entry.listeners ++ [(s.listen "tcp"
              (joinHostPort ip claim.port)).1] } (s.listen "tcp" (joinHostPort ip claim.port)).2
          refine ⟨_, Opened.granted htcp hopened rfl ?_⟩
          simp only [Entry.handles, Sockets.listen, List.append_assoc]
          exact List.perm_append_comm.append_left _
        · exact ⟨[], .refused entry s _⟩
      · split
        · rename_i hudp
          split
          · obtain ⟨new, hopened⟩ := ih (fun n => granted (n + 1))
              { entry with packetConns := entry.packetConns ++ [(s.listen "udp"
                (joinHostPort ip claim.port)).1] } (s.listen "udp" (joinHostPort ip claim.port)).2
            refine ⟨_, Opened.granted hudp hopened rfl ?_⟩
            simp only [Entry.handles, Sockets.listen, List.append_assoc]
            exact List.Perm.refl _
          · exact ⟨[], .refused entry s _⟩
        · exact ⟨[], .refused entry s _⟩

/-! ## the invariant -/

/-- What the entry at a place has open. -/
def handlesAt (r : Registry) (place : Nat) : Option (List Handle) :=
  (r.entries[place]?).map Entry.handles

/-- The invariant of the registry. -/
structure Inv (r : Registry) : Prop where
  /-- A registered entry is open, and counts the acquisitions of its key. -/
  entry : ∀ key place, r.listeners.lookup key = some place → ∃ e claim,
    r.entries[place]? = some e ∧ claim.key = key ∧ e.Serves r.sharedIPs claim ∧
    (∀ h ∈ e.handles, h ∈ r.sockets.bound) ∧ e.references = outstanding r key ∧
    0 < outstanding r key
  /-- A closure that has not run has its entry registered. -/
  closure : r.closed = false → ∀ c ∈ r.closures, c.used = false →
    r.listeners.lookup c.key.1 = some c.key.2
  injective : ∀ key key' place, r.listeners.lookup key = some place →
    r.listeners.lookup key' = some place → key = key'
  /-- No two entries share a socket. -/
  apart : ∀ p q hs hs', handlesAt r p = some hs → handlesAt r q = some hs' →
    ∀ h ∈ hs, h ∈ hs' → p = q
  ids : ∀ p hs, handlesAt r p = some hs → ∀ h ∈ hs, h.id < r.sockets.next
  fresh : ∀ h ∈ r.sockets.bound, h.id < r.sockets.next
  /-- A bound socket is of a registered entry, or of one that is being closed. -/
  owned : ∀ h ∈ r.sockets.bound, ∃ p hs, handlesAt r p = some hs ∧ h ∈ hs ∧
    ((∃ key, r.listeners.lookup key = some p) ∨ p ∈ r.closing)
  shut : r.closed = true → r.listeners = ∅
  running : r.closed = false → r.closing = []
  capacity : r.listeners.entries.length ≤ r.maxListeners

theorem inv_new (sharedIPs : List String) (maxListeners : Nat) :
    Inv (Registry.new sharedIPs maxListeners) where
  entry := by simp [Registry.new]
  closure := by simp [Registry.new]
  injective := by simp [Registry.new]
  apart := by simp [Registry.new, handlesAt]
  ids := by simp [Registry.new, handlesAt]
  fresh := by simp [Registry.new]
  owned := by simp [Registry.new]
  shut := by simp [Registry.new]
  running := by simp [Registry.new]
  capacity := Nat.zero_le _

/-- Everything `acquire` can do. -/
theorem acquire_cases {r : Registry} (hinv : Inv r) (cancelled : Bool) (claim : PortClaim)
    (granted : Nat → Bool) :
    (∃ m next, r.sockets.next ≤ next ∧ acquire r cancelled claim granted =
      (.error m, { r with sockets := { r.sockets with next := next } })) ∨
    (∃ place, r.closed = false ∧ r.listeners.lookup claim.key = some place ∧
      acquire r cancelled claim granted = (.ok (), { r with
        entries := r.entries.modify place fun e => { e with references := e.references + 1 }
        closures := Ticket.issue r.closures (claim.key, place) })) ∨
    (∃ e s, r.closed = false ∧ r.listeners.lookup claim.key = none ∧
      r.listeners.entries.length < r.maxListeners ∧ e.references = 1 ∧
      e.Serves r.sharedIPs claim ∧ r.sockets.next ≤ s.next ∧
      (∀ h ∈ e.handles, r.sockets.next ≤ h.id ∧ h.id < s.next) ∧
      (∀ h, h ∈ s.bound ↔ h ∈ e.handles ∨ h ∈ r.sockets.bound) ∧
      acquire r cancelled claim granted = (.ok (), { r with
        listeners := r.listeners.insert claim.key r.entries.length
        entries := r.entries ++ [e]
        closures := Ticket.issue r.closures (claim.key, r.entries.length)
        sockets := s })) := by
  unfold acquire
  split
  · exact .inl ⟨_, r.sockets.next, Nat.le_refl _, rfl⟩
  split
  · exact .inl ⟨_, r.sockets.next, Nat.le_refl _, rfl⟩
  rename_i hclosed
  rw [Bool.not_eq_true] at hclosed
  split
  · rename_i place hlookup
    exact .inr (.inl ⟨place, hclosed, hlookup, rfl⟩)
  rename_i hlookup
  split
  · exact .inl ⟨_, r.sockets.next, Nat.le_refl _, rfl⟩
  rename_i hroom
  obtain ⟨new, hopened⟩ := bindEach_opened claim r.sharedIPs granted ⟨1, [], []⟩ r.sockets
  split
  · rename_i m s hbind
    rw [hbind] at hopened
    obtain ⟨closed, hclosed', hbound⟩ := hopened.error m rfl
    -- what was closed had not been bound before
    have hsame : s.bound = r.sockets.bound := by
      rw [hbound, List.filter_eq_self]
      intro h hmem
      rw [decide_eq_true_eq, hclosed' h]
      intro hnew
      have hid := hinv.fresh h hmem
      cases hnew with
      | inl hnil => contradiction
      | inr hnew => exact absurd (hopened.ids h hnew).1 (Nat.not_le.mpr hid)
    exact .inl ⟨m, s.next, hopened.next, by simp only [← hsame]⟩
  · rename_i e s hbind
    rw [hbind] at hopened
    obtain ⟨hreferences, hperm, hbound, hmap⟩ := hopened.ok e rfl
    have hperm : e.handles.Perm new := hperm
    refine .inr (.inr ⟨e, s, hclosed, hlookup, Nat.lt_of_not_le hroom, hreferences, ?_,
      hopened.next, fun h hh => hopened.ids h (hperm.mem_iff.mp hh), fun h => ?_, rfl⟩)
    · rw [Entry.Serves, ← hmap]
      exact hperm.map _
    · rw [hbound h, hperm.mem_iff]

/-- The count of a key after a closure was handed out. -/
theorem outstanding_issue {r r' : Registry} {key : String} {place : Nat}
    (h : r'.closures = Ticket.issue r.closures (key, place)) (key' : String) :
    outstanding r' key' = outstanding r key' + if key = key' then 1 else 0 := by
  rw [outstanding, outstanding, h, Ticket.live_issue]
  simp

section Acquire

variable {r : Registry} {claim : PortClaim}

/-- A refused acquisition changes nothing but the next handle. -/
theorem Inv.refused (hinv : Inv r) {next : Nat} (hnext : r.sockets.next ≤ next) :
    Inv { r with sockets := { r.sockets with next := next } } where
  entry := hinv.entry
  closure := hinv.closure
  injective := hinv.injective
  apart := hinv.apart
  ids p hs hp h hh := Nat.lt_of_lt_of_le (hinv.ids p hs hp h hh) hnext
  fresh h hh := Nat.lt_of_lt_of_le (hinv.fresh h hh) hnext
  owned := hinv.owned
  shut := hinv.shut
  running := hinv.running
  capacity := hinv.capacity

/-- A shared listener gets one more reference. -/
theorem Inv.shared (hinv : Inv r) {place : Nat}
    (hlookup : r.listeners.lookup claim.key = some place) :
    Inv { r with
      entries := r.entries.modify place fun e => { e with references := e.references + 1 }
      closures := Ticket.issue r.closures (claim.key, place) } := by
  have hhandles : ∀ p, handlesAt { r with
      entries := r.entries.modify place fun e => { e with references := e.references + 1 }
      closures := Ticket.issue r.closures (claim.key, place) } p = handlesAt r p := by
    intro p
    simp only [handlesAt, List.getElem?_modify]
    cases r.entries[p]? with
    | none => rfl
    | some e =>
        simp only [Option.map_eq_map, Option.map_some]
        split <;> rfl
  refine
    { entry := ?_
      closure := ?_
      injective := hinv.injective
      apart := fun p q hs hs' hp hq => ?_
      ids := fun p hs hp => ?_
      fresh := hinv.fresh
      owned := fun h hh => ?_
      shut := hinv.shut
      running := hinv.running
      capacity := hinv.capacity }
  · intro key place' hkey
    obtain ⟨e, claim', he, hclaim, hserves, hbound, hreferences, hpos⟩ := hinv.entry key place' hkey
    rw [outstanding_issue rfl key]
    by_cases hplace : place = place'
    · subst hplace
      have heq := hinv.injective _ _ _ hlookup hkey
      refine ⟨{ e with references := e.references + 1 }, claim', ?_, hclaim, hserves, hbound, ?_,
        ?_⟩
      · simp only [List.getElem?_modify_eq, he, Option.map_eq_map, Option.map_some]
      · rw [if_pos heq]
        simp only [hreferences]
        omega
      · omega
    · have hne : claim.key ≠ key := by
        intro heq
        rw [heq, hkey, Option.some.injEq] at hlookup
        exact hplace hlookup.symm
      refine ⟨e, claim', ?_, hclaim, hserves, hbound, ?_, by omega⟩
      · exact (List.getElem?_modify_ne _ _ hplace).trans he
      · rw [if_neg hne]
        exact hreferences
  · intro hclosed c hc hunused
    cases Ticket.mem_issue.mp hc with
    | inl hc => exact hinv.closure hclosed c hc hunused
    | inr heq =>
        rw [heq]
        exact hlookup
  · rw [hhandles] at hp hq
    exact hinv.apart p q hs hs' hp hq
  · rw [hhandles] at hp
    exact hinv.ids p hs hp
  · obtain ⟨p, hs, hp, hmem, hkept⟩ := hinv.owned h hh
    exact ⟨p, hs, (hhandles p).trans hp, hmem, hkept⟩

/-- A new listener is registered with its sockets. -/
theorem Inv.opened (hinv : Inv r) {e : Entry} {s : Sockets} (hclosed : r.closed = false)
    (hlookup : r.listeners.lookup claim.key = none)
    (hroom : r.listeners.entries.length < r.maxListeners) (hreferences : e.references = 1)
    (hserves : e.Serves r.sharedIPs claim) (hnext : r.sockets.next ≤ s.next)
    (hids : ∀ h ∈ e.handles, r.sockets.next ≤ h.id ∧ h.id < s.next)
    (hbound : ∀ h, h ∈ s.bound ↔ h ∈ e.handles ∨ h ∈ r.sockets.bound) :
    Inv { r with
      listeners := r.listeners.insert claim.key r.entries.length
      entries := r.entries ++ [e]
      closures := Ticket.issue r.closures (claim.key, r.entries.length)
      sockets := s } := by
  have hold : ∀ p, p < r.entries.length → (r.entries ++ [e])[p]? = r.entries[p]? := fun p hp =>
    List.getElem?_append_left hp
  have hplaces : ∀ key place, r.listeners.lookup key = some place →
      place < r.entries.length := by
    intro key place hkey
    obtain ⟨e', -, he', -⟩ := hinv.entry key place hkey
    exact (List.getElem?_eq_some_iff.mp he').1
  have hhandles : ∀ p hs, ((r.entries ++ [e])[p]?).map Entry.handles = some hs →
      (p = r.entries.length ∧ hs = e.handles) ∨ handlesAt r p = some hs := by
    intro p hs hp
    by_cases hlt : p < r.entries.length
    · rw [hold p hlt] at hp
      exact .inr hp
    · by_cases heq : p = r.entries.length
      · rw [heq, List.getElem?_concat_length, Option.map_some, Option.some.injEq] at hp
        exact .inl ⟨heq, hp.symm⟩
      · rw [List.getElem?_eq_none (by rw [List.length_append, List.length_singleton]; omega)] at hp
        contradiction
  -- nobody waits for the release of a key without a listener
  have hnone : outstanding r claim.key = 0 := by
    by_contra hpos
    obtain ⟨c, hc, hunused, hkey⟩ := Ticket.exists_of_live_pos (Nat.pos_of_ne_zero hpos)
    rw [decide_eq_true_eq] at hkey
    have hregistered := hinv.closure hclosed c hc hunused
    rw [hkey, hlookup] at hregistered
    contradiction
  refine
    { entry := ?_
      closure := ?_
      injective := ?_
      apart := fun p q hs hs' hp hq h hh hh' => ?_
      ids := fun p hs hp h hh => ?_
      fresh := fun h hh => ?_
      owned := fun h hh => ?_
      shut := fun htrue => ?_
      running := hinv.running
      capacity := ?_ }
  · intro key place hkey
    rw [outstanding_issue rfl key]
    by_cases hsame : claim.key = key
    · subst hsame
      rw [AList.lookup_insert, Option.some.injEq] at hkey
      subst hkey
      refine ⟨e, claim, List.getElem?_concat_length, rfl, hserves,
        fun h hh => (hbound h).mpr (.inl hh), ?_, by rw [if_pos rfl]; omega⟩
      rw [if_pos rfl, hnone, hreferences]
      rfl
    · rw [AList.lookup_insert_ne (fun heq => hsame heq.symm)] at hkey
      obtain ⟨e', claim', he', hclaim, hserves', hbound', hreferences', hpos⟩ :=
        hinv.entry key place hkey
      refine ⟨e', claim', (hold place (hplaces key place hkey)).trans he', hclaim, hserves',
        fun h hh => (hbound h).mpr (.inr (hbound' h hh)), ?_, by omega⟩
      rw [if_neg hsame]
      exact hreferences'
  · intro _ c hc hunused
    cases Ticket.mem_issue.mp hc with
    | inl hc =>
        have hregistered := hinv.closure hclosed c hc hunused
        have hne : c.key.1 ≠ claim.key := by
          intro heq
          rw [heq, hlookup] at hregistered
          contradiction
        exact (AList.lookup_insert_ne hne).trans hregistered
    | inr heq =>
        rw [heq]
        exact AList.lookup_insert _
  · intro key key' place hkey hkey'
    by_cases h : key = claim.key
    · by_cases h' : key' = claim.key
      · rw [h, h']
      · rw [h, AList.lookup_insert, Option.some.injEq] at hkey
        rw [AList.lookup_insert_ne h', ← hkey] at hkey'
        exact absurd (hplaces key' _ hkey') (Nat.lt_irrefl _)
    · rw [AList.lookup_insert_ne h] at hkey
      by_cases h' : key' = claim.key
      · rw [h', AList.lookup_insert, Option.some.injEq] at hkey'
        rw [← hkey'] at hkey
        exact absurd (hplaces key _ hkey) (Nat.lt_irrefl _)
      · rw [AList.lookup_insert_ne h'] at hkey'
        exact hinv.injective key key' place hkey hkey'
  · cases hhandles p hs hp with
    | inl hnew =>
        rw [hnew.2] at hh
        cases hhandles q hs' hq with
        | inl hnew' => rw [hnew.1, hnew'.1]
        | inr hold' => exact absurd (hinv.ids q hs' hold' h hh') (Nat.not_lt.mpr (hids h hh).1)
    | inr hold =>
        cases hhandles q hs' hq with
        | inl hnew' =>
            rw [hnew'.2] at hh'
            exact absurd (hinv.ids p hs hold h hh) (Nat.not_lt.mpr (hids h hh').1)
        | inr hold' => exact hinv.apart p q hs hs' hold hold' h hh hh'
  · cases hhandles p hs hp with
    | inl hnew =>
        rw [hnew.2] at hh
        exact (hids h hh).2
    | inr hold => exact Nat.lt_of_lt_of_le (hinv.ids p hs hold h hh) hnext
  · cases (hbound h).mp hh with
    | inl hnew => exact (hids h hnew).2
    | inr hold => exact Nat.lt_of_lt_of_le (hinv.fresh h hold) hnext
  · cases (hbound h).mp hh with
    | inl hnew =>
        refine ⟨r.entries.length, e.handles, ?_, hnew, .inl ⟨claim.key, AList.lookup_insert _⟩⟩
        rw [handlesAt, List.getElem?_concat_length, Option.map_some]
    | inr hbefore =>
        obtain ⟨p, hs, hp, hmem, hkept⟩ := hinv.owned h hbefore
        have hlt : p < r.entries.length := by
          by_contra hge
          rw [handlesAt, List.getElem?_eq_none (Nat.not_lt.mp hge)] at hp
          contradiction
        refine ⟨p, hs, ?_, hmem, ?_⟩
        · rw [handlesAt, hold p hlt]
          exact hp
        · cases hkept with
          | inl hkey =>
              obtain ⟨key, hkey⟩ := hkey
              have hne : key ≠ claim.key := by
                intro heq
                rw [heq, hlookup] at hkey
                contradiction
              exact .inl ⟨key, (AList.lookup_insert_ne hne).trans hkey⟩
          | inr hclosing => exact .inr hclosing
  · rw [hclosed] at htrue
    contradiction
  · have hlength : (r.listeners.insert claim.key r.entries.length).entries.length =
        r.listeners.entries.length + 1 := by
      rw [AList.entries_insert_of_notMem (AList.lookup_eq_none.mp hlookup), List.length_cons]
    rw [hlength]
    exact hroom

end Acquire

/-! ## releasing -/

/-- The count of a key after a closure has run. -/
theorem outstanding_use {r r' : Registry} {i : Nat} {c : Ticket (String × Nat)}
    (hc : r.closures[i]? = some c) (hunused : c.used = false)
    (h : r'.closures = Ticket.use r.closures i) (key : String) :
    outstanding r' key + (if c.key.1 = key then 1 else 0) = outstanding r key := by
  have hlive := Ticket.live_use (p := fun c : String × Nat => c.1 = key) hc hunused
  rw [outstanding, outstanding, h, ← hlive]
  simp

/-- Everything a release closure can do. -/
theorem call_cases {r : Registry} (hinv : Inv r) (i : Nat) :
    call r i = r ∨
    (r.closed = true ∧ call r i = { r with closures := Ticket.use r.closures i }) ∨
    (∃ c e, r.closed = false ∧ r.closures[i]? = some c ∧ c.used = false ∧
      r.listeners.lookup c.key.1 = some c.key.2 ∧ r.entries[c.key.2]? = some e ∧
      ((e.references ≠ 1 ∧ call r i = { r with
        closures := Ticket.use r.closures i
        entries := r.entries.set c.key.2 { e with references := e.references - 1 } }) ∨
      (e.references = 1 ∧ call r i = { r with
        closures := Ticket.use r.closures i
        entries := r.entries.set c.key.2 { e with references := e.references - 1 }
        listeners := r.listeners.erase c.key.1
        sockets := e.close r.sockets }))) := by
  unfold call
  split
  · exact .inl rfl
  rename_i c hc
  split
  · exact .inl rfl
  rename_i hunused
  rw [Bool.not_eq_true] at hunused
  unfold release
  cases hclosed : r.closed with
  | true =>
      refine .inr (.inl ⟨rfl, ?_⟩)
      rw [if_pos (by simp [hinv.shut hclosed])]
  | false =>
      have hlookup := hinv.closure hclosed c (List.mem_of_getElem? hc) hunused
      obtain ⟨e, claim, he, -⟩ := hinv.entry _ _ hlookup
      refine .inr (.inr ⟨c, e, rfl, hc, hunused, hlookup, he, ?_⟩)
      rw [if_neg (by simpa using hlookup)]
      simp only [he]
      split
      · rename_i hmore
        exact .inl ⟨by omega, rfl⟩
      · rename_i hlast
        exact .inr ⟨by omega, rfl⟩

section Release

variable {r : Registry} {i : Nat} {c : Ticket (String × Nat)} {e : Entry}

/-- The registry after the closure has run and one reference is gone. -/
def released (r : Registry) (i place : Nat) (e : Entry) : Registry :=
  { r with
    closures := Ticket.use r.closures i
    entries := r.entries.set place { e with references := e.references - 1 } }

/-- The sockets of the entries are as they were. -/
theorem handlesAt_released (i : Nat) {place : Nat} (he : r.entries[place]? = some e) (p : Nat) :
    handlesAt (released r i place e) p = handlesAt r p := by
  obtain ⟨hlt, -⟩ := List.getElem?_eq_some_iff.mp he
  simp only [handlesAt, released, List.getElem?_set, hlt, if_true]
  split
  · rename_i heq
    subst heq
    rw [he]
    rfl
  · rfl

/-- The entry of another key keeps its count and its place. -/
theorem Inv.other (hinv : Inv r) (hc : r.closures[i]? = some c) (hunused : c.used = false)
    (hlookup : r.listeners.lookup c.key.1 = some c.key.2) {key : String} {place : Nat}
    (hkey : r.listeners.lookup key = some place) (hne : c.key.1 ≠ key) :
    c.key.2 ≠ place ∧ ∃ e' claim, (released r i c.key.2 e).entries[place]? = some e' ∧
      claim.key = key ∧ e'.Serves r.sharedIPs claim ∧ (∀ h ∈ e'.handles, h ∈ r.sockets.bound) ∧
      e'.references = outstanding (released r i c.key.2 e) key ∧
      0 < outstanding (released r i c.key.2 e) key := by
  obtain ⟨e', claim, he', hclaim, hserves, hbound, hreferences, hpos⟩ := hinv.entry key place hkey
  have hplace : c.key.2 ≠ place := by
    intro heq
    exact hne (hinv.injective _ _ _ hlookup (heq ▸ hkey))
  have hcount : outstanding (released r i c.key.2 e) key +
      (if c.key.1 = key then 1 else 0) = outstanding r key :=
    outstanding_use hc hunused rfl key
  rw [if_neg hne, Nat.add_zero] at hcount
  rw [hcount]
  exact ⟨hplace, e', claim, (List.getElem?_set_ne hplace).trans he', hclaim, hserves, hbound,
    hreferences, hpos⟩

/-- One reference less, and not the last. -/
theorem Inv.kept (hinv : Inv r) (hc : r.closures[i]? = some c) (hunused : c.used = false)
    (hlookup : r.listeners.lookup c.key.1 = some c.key.2) (he : r.entries[c.key.2]? = some e)
    (hmore : e.references ≠ 1) : Inv (released r i c.key.2 e) where
  entry key place hkey := by
    by_cases hsame : c.key.1 = key
    · have hkey : r.listeners.lookup key = some place := hkey
      have hplace : c.key.2 = place := by
        rw [hsame, hkey, Option.some.injEq] at hlookup
        exact hlookup.symm
      obtain ⟨e', claim, he', hclaim, hserves, hbound, hreferences, hpos⟩ :=
        hinv.entry key place hkey
      rw [← hplace, he, Option.some.injEq] at he'
      subst he'
      have hcount : outstanding (released r i c.key.2 e) key +
          (if c.key.1 = key then 1 else 0) = outstanding r key :=
        outstanding_use hc hunused rfl key
      rw [if_pos hsame] at hcount
      obtain ⟨hlt, -⟩ := List.getElem?_eq_some_iff.mp he
      refine ⟨{ e with references := e.references - 1 }, claim, ?_, hclaim, hserves, hbound, ?_, ?_⟩
      · rw [← hplace]
        exact List.getElem?_set_self hlt
      · simp only
        omega
      · omega
    · obtain ⟨-, e', claim, hentry⟩ := hinv.other (e := e) hc hunused hlookup hkey hsame
      exact ⟨e', claim, hentry⟩
  closure hclosed c' hc' hunused' := hinv.closure hclosed c' (Ticket.mem_of_mem_use hc' hunused')
    hunused'
  injective := hinv.injective
  apart p q hs hs' hp hq := by
    rw [handlesAt_released i he] at hp hq
    exact hinv.apart p q hs hs' hp hq
  ids p hs hp := by
    rw [handlesAt_released i he] at hp
    exact hinv.ids p hs hp
  fresh := hinv.fresh
  owned h hh := by
    obtain ⟨p, hs, hp, hmem, hkept⟩ := hinv.owned h hh
    exact ⟨p, hs, (handlesAt_released i he p).trans hp, hmem, hkept⟩
  shut := hinv.shut
  running := hinv.running
  capacity := hinv.capacity

/-- The last reference takes the listener away and closes it. -/
theorem Inv.last (hinv : Inv r) (hclosed : r.closed = false) (hc : r.closures[i]? = some c)
    (hunused : c.used = false) (hlookup : r.listeners.lookup c.key.1 = some c.key.2)
    (he : r.entries[c.key.2]? = some e) (hone : e.references = 1) :
    Inv { released r i c.key.2 e with
      listeners := r.listeners.erase c.key.1
      sockets := e.close r.sockets } := by
  have hat : handlesAt r c.key.2 = some e.handles := by rw [handlesAt, he, Option.map_some]
  have hzero : outstanding (released r i c.key.2 e) c.key.1 = 0 := by
    obtain ⟨e', claim, he', -, -, -, hreferences, -⟩ := hinv.entry _ _ hlookup
    rw [he, Option.some.injEq] at he'
    subst he'
    have hcount : outstanding (released r i c.key.2 e) c.key.1 +
        (if c.key.1 = c.key.1 then 1 else 0) = outstanding r c.key.1 :=
      outstanding_use hc hunused rfl c.key.1
    rw [if_pos rfl] at hcount
    omega
  have herase : ∀ key place, (r.listeners.erase c.key.1).lookup key = some place →
      c.key.1 ≠ key ∧ r.listeners.lookup key = some place := by
    intro key place hkey
    have hne : key ≠ c.key.1 := by
      intro heq
      rw [heq, AList.lookup_erase] at hkey
      contradiction
    rw [AList.lookup_erase_ne hne] at hkey
    exact ⟨hne.symm, hkey⟩
  exact
    { entry := by
        intro key place hkey
        obtain ⟨hne, hkey⟩ := herase key place hkey
        obtain ⟨hplace, e', claim, he', hclaim, hserves, hbound, hcount⟩ :=
          hinv.other (e := e) hc hunused hlookup hkey hne
        refine ⟨e', claim, he', hclaim, hserves, fun h hh => ?_, hcount⟩
        rw [Entry.close, List.mem_filter, decide_eq_true_eq]
        refine ⟨hbound h hh, fun hin => hplace ?_⟩
        have hother : handlesAt r place = some e'.handles := by
          rw [← handlesAt_released i he, handlesAt, he', Option.map_some]
        exact hinv.apart _ _ _ _ hat hother h hin hh
      closure := by
        intro _ c' hc' hunused'
        have hne : c'.key.1 ≠ c.key.1 := by
          intro heq
          have hpos : 0 < outstanding (released r i c.key.2 e) c.key.1 :=
            Ticket.live_pos hc' hunused' (by simpa using heq)
          omega
        exact (AList.lookup_erase_ne hne).trans
          (hinv.closure hclosed c' (Ticket.mem_of_mem_use hc' hunused') hunused')
      injective := fun key key' place hkey hkey' =>
        hinv.injective key key' place (herase key place hkey).2 (herase key' place hkey').2
      apart := by
        intro p q hs hs' hp hq
        exact hinv.apart p q hs hs' ((handlesAt_released i he p).symm.trans hp)
          ((handlesAt_released i he q).symm.trans hq)
      ids := fun p hs hp => hinv.ids p hs ((handlesAt_released i he p).symm.trans hp)
      fresh := fun h hh => hinv.fresh h (List.mem_of_mem_filter hh)
      owned := by
        intro h hh
        rw [Entry.close, List.mem_filter, decide_eq_true_eq] at hh
        obtain ⟨p, hs, hp, hmem, hkept⟩ := hinv.owned h hh.1
        refine ⟨p, hs, (handlesAt_released i he p).trans hp, hmem, ?_⟩
        cases hkept with
        | inl hkey =>
            obtain ⟨key, hkey⟩ := hkey
            have hne : key ≠ c.key.1 := by
              intro heq
              rw [heq, hlookup, Option.some.injEq] at hkey
              rw [← hkey, hat, Option.some.injEq] at hp
              exact hh.2 (hp ▸ hmem)
            exact .inl ⟨key, (AList.lookup_erase_ne hne).trans hkey⟩
        | inr hclosing => exact .inr hclosing
      shut := fun htrue => absurd (hclosed.symm.trans htrue) Bool.false_ne_true
      running := hinv.running
      capacity := by
        have hlength : (r.listeners.erase c.key.1).keys.length ≤ r.listeners.keys.length := by
          rw [AList.keys_erase]
          exact List.length_erase_le
        simp only [AList.keys, List.keys, List.length_map] at hlength
        exact Nat.le_trans hlength hinv.capacity }

end Release

/-! ## shutdown -/

theorem Inv.closeAll {r : Registry} (hinv : Inv r) : Inv (closeAll r) := by
  unfold Listeners.closeAll
  split
  · exact hinv
  · exact
      { entry := by simp
        closure := by simp
        injective := by simp
        apart := hinv.apart
        ids := hinv.ids
        fresh := hinv.fresh
        owned := by
          intro h hh
          obtain ⟨p, hs, hp, hmem, hkept⟩ := hinv.owned h hh
          refine ⟨p, hs, hp, hmem, .inr ?_⟩
          rename_i hopen
          rw [hinv.running (Bool.not_eq_true _ ▸ hopen)] at hkept
          cases hkept with
          | inl hkey =>
              obtain ⟨key, hkey⟩ := hkey
              exact List.mem_map.mpr ⟨⟨key, p⟩, AList.mem_lookup_iff.mp hkey, rfl⟩
          | inr hnil => contradiction
        shut := by simp
        running := by simp
        capacity := Nat.zero_le _ }

theorem Inv.closeEntry {r r' : Registry} (hinv : Inv r) {place : Nat}
    (h : closeEntry r place = some r') : Inv r' := by
  unfold Listeners.closeEntry at h
  split at h
  · rename_i hplace
    -- there is something to close only after `closeAll`
    have hclosed : r.closed = true := by
      by_contra hopen
      rw [hinv.running (Bool.not_eq_true _ ▸ hopen)] at hplace
      contradiction
    have hempty := hinv.shut hclosed
    have hsub : ∀ h, h ∈ (match r.entries[place]? with
        | none => r.sockets
        | some e => e.close r.sockets).bound → h ∈ r.sockets.bound ∧
          ∀ hs, handlesAt r place = some hs → h ∉ hs := by
      intro h hh
      unfold handlesAt
      split at hh
      · rename_i hnone
        exact ⟨hh, by simp [hnone]⟩
      · rename_i e he
        rw [Entry.close, List.mem_filter, decide_eq_true_eq] at hh
        refine ⟨hh.1, fun hs hsome => ?_⟩
        rw [he, Option.map_some, Option.some.injEq] at hsome
        exact hsome ▸ hh.2
    have hnext : (match r.entries[place]? with
        | none => r.sockets
        | some e => e.close r.sockets).next = r.sockets.next := by
      split <;> rfl
    rw [← Option.some.inj h]
    exact
      { entry := by simp [hempty]
        closure := by simp [hclosed]
        injective := by simp [hempty]
        apart := hinv.apart
        ids := fun p hs hp h hh => hnext ▸ hinv.ids p hs hp h hh
        fresh := fun h hh => hnext ▸ hinv.fresh h (hsub h hh).1
        owned := by
          intro h hh
          obtain ⟨hbound, hnot⟩ := hsub h hh
          obtain ⟨p, hs, hp, hmem, hkept⟩ := hinv.owned h hbound
          refine ⟨p, hs, hp, hmem, .inr ?_⟩
          cases hkept with
          | inl hkey => simp [hempty] at hkey
          | inr hclosing =>
              have hne : p ≠ place := by
                rintro rfl
                exact hnot hs hp hmem
              exact (List.mem_erase_of_ne hne).mpr hclosing
        shut := fun _ => hempty
        running := by simp [hclosed]
        capacity := hinv.capacity }
  · contradiction

/-! ## every step -/

theorem Inv.acquire {r : Registry} (hinv : Inv r) (cancelled : Bool) (claim : PortClaim)
    (granted : Nat → Bool) : Inv (acquire r cancelled claim granted).2 := by
  rcases acquire_cases hinv cancelled claim granted with ⟨m, next, hnext, heq⟩ |
    ⟨place, -, hlookup, heq⟩ |
    ⟨e, s, hclosed, hlookup, hroom, hreferences, hserves, hnext, hids, hbound, heq⟩
  · rw [heq]
    exact hinv.refused hnext
  · rw [heq]
    exact hinv.shared hlookup
  · rw [heq]
    exact hinv.opened hclosed hlookup hroom hreferences hserves hnext hids hbound

theorem Inv.call {r : Registry} (hinv : Inv r) (i : Nat) : Inv (call r i) := by
  rcases call_cases hinv i with heq | ⟨hclosed, heq⟩ |
    ⟨c, e, hclosed, hc, hunused, hlookup, he, ⟨hmore, heq⟩ | ⟨hone, heq⟩⟩
  · rw [heq]
    exact hinv
  · rw [heq]
    have hempty := hinv.shut hclosed
    exact
      { entry := by simp [hempty]
        closure := by simp [hclosed]
        injective := hinv.injective
        apart := hinv.apart
        ids := hinv.ids
        fresh := hinv.fresh
        owned := hinv.owned
        shut := hinv.shut
        running := hinv.running
        capacity := hinv.capacity }
  · rw [heq]
    exact hinv.kept hc hunused hlookup he hmore
  · rw [heq]
    exact hinv.last hclosed hc hunused hlookup he hone

theorem Inv.step {r r' : Registry} (hinv : Inv r) {event : Event} (h : step r event = some r') :
    Inv r' := by
  cases event with
  | acquire cancelled claim granted =>
      rw [← Option.some.inj h]
      exact hinv.acquire cancelled claim granted
  | call i =>
      rw [← Option.some.inj h]
      exact hinv.call i
  | closeAll =>
      rw [← Option.some.inj h]
      exact hinv.closeAll
  | closeEntry place => exact hinv.closeEntry h

/-! ## what holds of every run -/

/-- What the registry has open, and for whom. -/
structure Sound (r : Registry) : Prop where
  /-- While the registry runs, a key has its listeners open for as long as they are wanted. -/
  openIff : r.closed = false → ∀ key, Open r key ↔ 0 < outstanding r key
  /-- Nothing else is bound then. -/
  owned : r.closed = false → ∀ h ∈ r.sockets.bound, ∃ key e, Listens r key e ∧ h ∈ e.handles ∧
    0 < outstanding r key
  /-- After the shutdown has begun, no key has listeners, and what is bound waits to be closed. -/
  shut : r.closed = true → (∀ key, ¬ Open r key) ∧ ∀ h ∈ r.sockets.bound, ∃ place ∈ r.closing,
    ∃ e, r.entries[place]? = some e ∧ h ∈ e.handles
  /-- After it nothing stays bound. -/
  down : r.closed = true → r.closing = [] → r.sockets.bound = []
  capacity : r.listeners.entries.length ≤ r.maxListeners

theorem Inv.sound {r : Registry} (hinv : Inv r) : Sound r where
  openIff hclosed key := by
    constructor
    · rintro ⟨e, claim, ⟨place, hplace, -⟩, -⟩
      obtain ⟨-, -, -, -, -, -, -, hpos⟩ := hinv.entry key place hplace
      exact hpos
    · intro hpos
      obtain ⟨c, hc, hunused, hkey⟩ := Ticket.exists_of_live_pos hpos
      rw [decide_eq_true_eq] at hkey
      have hlookup := hinv.closure hclosed c hc hunused
      rw [hkey] at hlookup
      obtain ⟨e, claim, he, hclaim, hserves, hbound, -⟩ := hinv.entry key _ hlookup
      exact ⟨e, claim, ⟨_, hlookup, he⟩, hclaim, hserves, hbound⟩
  owned hclosed h hh := by
    obtain ⟨p, hs, hp, hmem, hkept⟩ := hinv.owned h hh
    rw [hinv.running hclosed] at hkept
    cases hkept with
    | inl hkey =>
        obtain ⟨key, hkey⟩ := hkey
        obtain ⟨e, -, he, -, -, -, -, hpos⟩ := hinv.entry key p hkey
        rw [handlesAt, he, Option.map_some, Option.some.injEq] at hp
        exact ⟨key, e, ⟨p, hkey, he⟩, hp ▸ hmem, hpos⟩
    | inr hnil => contradiction
  shut hclosed := by
    have hempty := hinv.shut hclosed
    constructor
    · rintro key ⟨e, claim, ⟨place, hplace, -⟩, -⟩
      simp [hempty] at hplace
    · intro h hh
      obtain ⟨p, hs, hp, hmem, hkept⟩ := hinv.owned h hh
      cases hkept with
      | inl hkey => simp [hempty] at hkey
      | inr hclosing =>
          obtain ⟨e, he, heq⟩ := Option.map_eq_some_iff.mp hp
          exact ⟨p, hclosing, e, he, heq ▸ hmem⟩
  down hclosed hdone := by
    rw [List.eq_nil_iff_forall_not_mem]
    intro h hh
    obtain ⟨p, -, -, -, hkept⟩ := hinv.owned h hh
    rw [hdone, hinv.shut hclosed] at hkept
    simp at hkept
  capacity := hinv.capacity

end Relay.Listeners
