import Mathlib.Data.List.Nodup
import Mathlib.Logic.Function.Basic
import Blindport.Backend.Subscriptions
import Blindport.Text.HostPort

/-!
# Blindport.Relay.PortListeners

`port_listeners.go` and the Blindport Port part of `main.go` and `udp.go`: the
listeners a relay binds for the Port claims of the tunnels connected to it, and
where the traffic that arrives at one of its sockets goes.

`acquire` binds the claim's port on every shared IP, while the backend leases one
IP and port to a subscription.  `separated_iff` says when the two notions of a
leased socket agree.
-/

namespace Relay

open Backend (Transport)

/-! ## sockets and claims -/

/-- One transport socket; a Port claim names exactly one. -/
structure Socket where
  ip : String
  port : Nat
  transport : Transport
deriving DecidableEq

/-- `string(protocol.Transport)`. -/
def transportText : Transport → String
  | .tcp => "tcp"
  | .udp => "udp"

/-- `net.JoinHostPort`. -/
def joinHostPort (host : String) (port : Nat) : String :=
  if ':' ∈ host.toList then "[" ++ host ++ "]:" ++ Nat.repr port
  else host ++ ":" ++ Nat.repr port

/-- `claimKey` of a Port claim, and the key `servePort` and `serveUDPPort` look
the tunnel up with. -/
def claimKey (claim : Socket) : String :=
  "port:" ++ transportText claim.transport ++ ":" ++ joinHostPort claim.ip claim.port

theorem joinHostPort_injective {h₁ h₂ : String} {p₁ p₂ : Nat}
    (h : joinHostPort h₁ p₁ = joinHostPort h₂ p₂) : h₁ = h₂ ∧ p₁ = p₂ := by
  have hl := congrArg String.toList h
  unfold joinHostPort at hl
  have n₁ := HostPort.colon_not_mem_repr p₁
  have n₂ := HostPort.colon_not_mem_repr p₂
  have key : ∀ {a b : List Char}, a ++ ':' :: (Nat.repr p₁).toList =
      b ++ ':' :: (Nat.repr p₂).toList → a = b ∧ p₁ = p₂ := by
    intro a b hab
    obtain ⟨e, hr⟩ := HostPort.split_colon n₁ n₂ hab
    exact ⟨e, HostPort.repr_injective hr⟩
  split at hl <;> split at hl
  · rename_i m₁ m₂
    simp only [String.toList_append] at hl
    obtain ⟨e, hp⟩ := key (a := ("[".toList ++ h₁.toList ++ "]".toList))
      (b := ("[".toList ++ h₂.toList ++ "]".toList)) (by simpa using hl)
    refine ⟨String.toList_inj.mp ?_, hp⟩
    simpa using e
  · rename_i m₁ m₂
    simp only [String.toList_append] at hl
    obtain ⟨e, -⟩ := key (a := ("[".toList ++ h₁.toList ++ "]".toList)) (b := h₂.toList)
      (by simpa using hl)
    exact absurd (e ▸ by simp [m₁]) m₂
  · rename_i m₁ m₂
    simp only [String.toList_append] at hl
    obtain ⟨e, -⟩ := key (a := h₁.toList) (b := ("[".toList ++ h₂.toList ++ "]".toList))
      (by simpa using hl)
    exact absurd (e ▸ by simp [m₂]) m₁
  · simp only [String.toList_append] at hl
    obtain ⟨e, hp⟩ := key (a := h₁.toList) (b := h₂.toList) (by simpa using hl)
    exact ⟨String.toList_inj.mp e, hp⟩

/-- Different sockets have different keys. -/
theorem claimKey_injective {a b : Socket} (h : claimKey a = claimKey b) : a = b := by
  obtain ⟨ip₁, port₁, t₁⟩ := a
  obtain ⟨ip₂, port₂, t₂⟩ := b
  have hl := congrArg String.toList h
  simp only [claimKey, String.toList_append, List.append_assoc] at hl
  have hl := List.append_cancel_left hl
  have key : t₁ = t₂ ∧ (joinHostPort ip₁ port₁).toList = (joinHostPort ip₂ port₂).toList := by
    cases t₁ <;> cases t₂ <;> simp_all [transportText]
  obtain ⟨rfl, hj⟩ := key
  obtain ⟨rfl, rfl⟩ := joinHostPort_injective (String.toList_inj.mp hj)
  rfl

/-! ## the inventory -/

/-- The shared inventory of a relay, as `parseRelayConfig` accepts it. -/
structure SharedInventory where
  sharedIPs : List String
  sharedTCPPorts : List Nat
  sharedUDPPorts : List Nat
  maxListeners : Nat
  sharedIPs_nodup : sharedIPs.Nodup
  ports_ne_nil : sharedIPs ≠ [] → sharedTCPPorts ≠ [] ∨ sharedUDPPorts ≠ []
  maxListeners_pos : 1 ≤ maxListeners

namespace SharedInventory

/-- The ports of a transport. -/
def ports (inv : SharedInventory) : Transport → List Nat
  | .tcp => inv.sharedTCPPorts
  | .udp => inv.sharedUDPPorts

/-- `servesClaim` of a Port claim. -/
def servesClaim (inv : SharedInventory) (claim : Socket) : Bool :=
  claim.ip ∈ inv.sharedIPs ∧ claim.port ∈ inv.ports claim.transport

/-- The sockets `acquire` binds for a claim. -/
def sockets (inv : SharedInventory) (claim : Socket) : List Socket :=
  inv.sharedIPs.map fun ip => ⟨ip, claim.port, claim.transport⟩

/-- The backend was configured with the same inventory. -/
structure Matches (inv : SharedInventory) (cfg : Backend.Settings) : Prop where
  ips : cfg.relaySharedIpsList = inv.sharedIPs
  tcpPorts : cfg.relaySharedTcpPortRange = inv.sharedTCPPorts
  udpPorts : cfg.relaySharedUdpPortRange = inv.sharedUDPPorts

end SharedInventory

/-- The lease of a subscription is one of the candidates of
`reserve_subscription_resource`. -/
def Leasable (cfg : Backend.Settings) (lease : Socket) : Prop :=
  ∃ start, (lease.ip, some lease.port) ∈ Backend.portCandidates cfg.relaySharedIpsList
    (match lease.transport with
      | .udp => cfg.relaySharedUdpPortRange
      | .tcp => cfg.relaySharedTcpPortRange) start

/-! ## the registry -/

/-- `portListener`; `serial` stands for the pointer. -/
structure PortListener where
  serial : Nat
  claim : Socket
  references : Nat
  sockets : List Socket

/-- `portListenerRegistry`, with the sockets the operating system has bound for
this relay. -/
structure Registry where
  listeners : List PortListener
  closed : Bool
  bound : List Socket
  next : Nat

/-- Why `acquire` refuses. -/
inductive AcquireError where
  | cancelled
  | closed
  | capacity
  | inUse (socket : Socket)
deriving DecidableEq

namespace Registry

/-- `registry.listeners[key]`. -/
def lookup (r : Registry) (key : String) : Option PortListener :=
  r.listeners.find? fun entry => claimKey entry.claim = key

/-- The binding loop of `acquire`: the operating system grants every socket that
is not bound. -/
def bindAll (bound : List Socket) : List Socket → Except Socket (List Socket)
  | [] => .ok []
  | s :: rest =>
      if s ∈ bound then .error s
      else match bindAll (s :: bound) rest with
        | .ok granted => .ok (s :: granted)
        | .error taken => .error taken

/-- `acquire`: the entry, and the registry afterwards. -/
def acquire (inv : SharedInventory) (cancelled : Bool) (claim : Socket) (r : Registry) :
    Except AcquireError (PortListener × Registry) :=
  if cancelled then .error .cancelled
  else if r.closed then .error .closed
  else match r.lookup (claimKey claim) with
    | some existing =>
        let entry := { existing with references := existing.references + 1 }
        .ok (entry, { r with
          listeners := r.listeners.map fun e => if e.serial = existing.serial then entry else e })
    | none =>
        if inv.maxListeners ≤ r.listeners.length then .error .capacity
        else match bindAll r.bound (inv.sockets claim) with
          | .error taken => .error (.inUse taken)
          | .ok sockets =>
              let entry : PortListener := ⟨r.next, claim, 1, sockets⟩
              .ok (entry, { r with
                listeners := entry :: r.listeners
                bound := sockets ++ r.bound
                next := r.next + 1 })

/-- `release`. -/
def release (key : String) (serial : Nat) (r : Registry) : Registry :=
  match r.lookup key with
  | none => r
  | some entry =>
      if entry.serial ≠ serial then r
      else if entry.references - 1 ≠ 0 then
        { r with listeners := r.listeners.map fun e =>
            if e.serial = serial then { e with references := e.references - 1 } else e }
      else
        { r with
          listeners := r.listeners.filter (·.serial ≠ serial)
          bound := r.bound.filter (· ∉ entry.sockets) }

/-- `closeAll`. -/
def closeAll (r : Registry) : Registry :=
  if r.closed then r
  else
    { r with
      closed := true
      listeners := []
      bound := r.bound.filter fun s => r.listeners.all (s ∉ ·.sockets) }

end Registry

/-! ## the relay -/

/-- A control connection that has, or had, its listener. -/
structure Session where
  claim : Socket
  serial : Nat
  released : Bool

/-- `udpAssociation`: the tunnel a source's packets at one socket go to. -/
structure Association where
  socket : Socket
  claim : Socket
  source : String
  session : Nat
deriving DecidableEq

/-- The part of `relay` that Port claims use. -/
structure PortRelay where
  registry : Registry
  sessions : Nat → Option Session
  tunnels : String → Option Nat
  associations : List Association

/-- What happens at the relay, in any order. -/
inductive PortEvent where
  /-- `establishControlTunnel` acquires the listener. -/
  | hello (session : Nat) (claim : Socket) (cancelled : Bool)
  /-- `registerTunnel`. -/
  | register (session : Nat)
  /-- `unregisterTunnel`. -/
  | unregister (session : Nat)
  /-- The deferred release of the listener. -/
  | release (session : Nat)
  /-- A packet from a source the forwarder of a socket does not know. -/
  | associate (socket : Socket) (source : String)
  /-- An association ends. -/
  | dissociate (association : Association)
  /-- The relay shuts down. -/
  | closeAll

namespace PortRelay

def init : PortRelay := ⟨⟨[], false, [], 0⟩, fun _ => none, fun _ => none, []⟩

/-- The entry whose goroutine serves a socket. -/
def server (g : PortRelay) (s : Socket) : Option PortListener :=
  g.registry.listeners.find? (s ∈ ·.sockets)

/-- The tunnel the goroutine of a socket forwards to: `servePort` and
`createAssociation` look it up under the claim the listener was acquired for. -/
def lookupTunnel (g : PortRelay) (s : Socket) : Option Nat :=
  (g.server s).bind fun entry => g.tunnels (claimKey { entry.claim with transport := s.transport })

/-- Where traffic from `source` that arrives at `s` is forwarded to. -/
def forwards (g : PortRelay) (s : Socket) (source : String) : Option Nat :=
  match s.transport with
  | .tcp => g.lookupTunnel s
  | .udp =>
      match g.associations.find? fun a => a.socket = s ∧ a.source = source with
      | some a => some a.session
      | none => g.lookupTunnel s

/-- One event; `none` when it cannot happen. -/
def step (inv : SharedInventory) (leases : List Socket) (g : PortRelay) :
    PortEvent → Option PortRelay
  | .hello session claim cancelled =>
      -- `servesClaim` and `claimAllowed` are checked before the listener is acquired.
      if claim ∈ leases ∧ inv.servesClaim claim ∧ (g.sessions session).isNone then
        match g.registry.acquire inv cancelled claim with
        | .error _ => some g
        | .ok (entry, registry) =>
            some { g with
              registry := registry
              sessions := Function.update g.sessions session (some ⟨claim, entry.serial, false⟩) }
      else none
  | .register session =>
      (g.sessions session).map fun s =>
        { g with tunnels := Function.update g.tunnels (claimKey s.claim) (some session) }
  | .unregister session =>
      (g.sessions session).map fun s =>
        if g.tunnels (claimKey s.claim) = some session then
          { g with tunnels := Function.update g.tunnels (claimKey s.claim) none }
        else g
  | .release session =>
      (g.sessions session).bind fun s =>
        -- `releaseFunc` runs once.
        if s.released then none
        else some { g with
          registry := g.registry.release (claimKey s.claim) s.serial
          sessions := Function.update g.sessions session (some { s with released := true }) }
  | .associate socket source =>
      if socket.transport = .udp then
        (g.server socket).bind fun entry =>
          (g.tunnels (claimKey { entry.claim with transport := .udp })).map fun session =>
            { g with associations := ⟨socket, entry.claim, source, session⟩ :: g.associations }
      else none
  | .dissociate a => some { g with associations := g.associations.erase a }
  | .closeAll => some { g with registry := g.registry.closeAll }

/-- A run of events. -/
def run (inv : SharedInventory) (leases : List Socket) : PortRelay → List PortEvent →
    Option PortRelay
  | g, [] => some g
  | g, e :: es => (g.step inv leases e).bind fun g' => run inv leases g' es

/-- Tenants are separated: no claim is refused because of a bound socket, and
traffic goes only to the tunnel whose claim is the socket it arrived at. -/
structure Separated (inv : SharedInventory) (leases : List Socket) (g : PortRelay) : Prop where
  granted : ∀ claim ∈ leases, inv.servesClaim claim = true → ∀ cancelled s,
    g.registry.acquire inv cancelled claim ≠ .error (.inUse s)
  forwarded : ∀ s source session, g.forwards s source = some session →
    (g.sessions session).map (·.claim) = some s

/-! ## what every run keeps -/

/-- What holds of the relay after every event, whatever the inventory. -/
structure Ok (inv : SharedInventory) (g : PortRelay) : Prop where
  bound : ∀ s ∈ g.registry.bound, ∃ e ∈ g.registry.listeners, s ∈ e.sockets
  entries : ∀ e ∈ g.registry.listeners,
    e.sockets = inv.sockets e.claim ∧ inv.servesClaim e.claim = true ∧ e.serial < g.registry.next
  serials : ∀ e ∈ g.registry.listeners, ∀ e' ∈ g.registry.listeners,
    e.serial = e'.serial → e.claim = e'.claim
  tunnels : ∀ key session, g.tunnels key = some session →
    ∃ s, g.sessions session = some s ∧ claimKey s.claim = key
  associations : ∀ a ∈ g.associations, inv.servesClaim a.claim = true ∧
    a.socket ∈ inv.sockets a.claim ∧ a.socket.transport = .udp ∧
    ∃ s, g.sessions a.session = some s ∧ s.claim = { a.claim with transport := .udp }

end PortRelay

namespace Registry

theorem lookup_mem {r : Registry} {key : String} {e : PortListener} (h : r.lookup key = some e) :
    e ∈ r.listeners ∧ claimKey e.claim = key :=
  ⟨List.mem_of_find?_eq_some h, by simpa using List.find?_some h⟩

theorem lookup_eq_none {r : Registry} {key : String} (h : r.lookup key = none)
    {e : PortListener} (he : e ∈ r.listeners) : claimKey e.claim ≠ key := by
  simpa using List.find?_eq_none.mp h e he

theorem bindAll_ok {bound ss granted : List Socket} (h : bindAll bound ss = .ok granted) :
    granted = ss := by
  induction ss generalizing bound granted with
  | nil => simpa [bindAll] using h.symm
  | cons s rest ih =>
      unfold bindAll at h
      split at h
      · contradiction
      · split at h
        · rename_i more hmore
          rw [← Except.ok.inj h, ih hmore]
        · contradiction

/-- A refused socket is bound already. -/
theorem bindAll_error {bound ss : List Socket} {taken : Socket} (hn : ss.Nodup)
    (h : bindAll bound ss = .error taken) : taken ∈ bound ∧ taken ∈ ss := by
  induction ss generalizing bound with
  | nil => simp [bindAll] at h
  | cons s rest ih =>
      obtain ⟨hs, hrest⟩ := List.nodup_cons.mp hn
      unfold bindAll at h
      split at h
      · rename_i hb
        obtain rfl := Except.error.inj h
        exact ⟨hb, List.mem_cons_self⟩
      · split at h
        · contradiction
        · rename_i more hmore
          obtain rfl := Except.error.inj h
          obtain ⟨hb, hm⟩ := ih hrest hmore
          have hne : more ≠ s := fun e => hs (e ▸ hm)
          exact ⟨(List.mem_cons.mp hb).resolve_left hne, List.mem_cons_of_mem _ hm⟩

/-- Everything a successful `acquire` can do. -/
theorem acquire_cases {inv : SharedInventory} {cancelled : Bool} {claim : Socket}
    {r r' : Registry} {entry : PortListener} (h : r.acquire inv cancelled claim = .ok (entry, r')) :
    (∃ existing ∈ r.listeners, existing.claim = claim ∧
      entry = { existing with references := existing.references + 1 } ∧
      r' = { r with listeners :=
        r.listeners.map fun e => if e.serial = existing.serial then entry else e }) ∨
    (entry = ⟨r.next, claim, 1, inv.sockets claim⟩ ∧ r' = { r with
      listeners := entry :: r.listeners
      bound := inv.sockets claim ++ r.bound
      next := r.next + 1 }) := by
  unfold acquire at h
  split at h
  · contradiction
  · split at h
    · contradiction
    · split at h
      · rename_i existing hl
        obtain ⟨hmem, hkey⟩ := lookup_mem hl
        simp only [Except.ok.injEq, Prod.mk.injEq] at h
        exact .inl ⟨existing, hmem, claimKey_injective hkey, h.1.symm, h.1 ▸ h.2.symm⟩
      · split at h
        · contradiction
        · split at h
          · contradiction
          · rename_i sockets hbind
            obtain rfl := bindAll_ok hbind
            simp only [Except.ok.injEq, Prod.mk.injEq] at h
            exact .inr ⟨h.1.symm, h.1 ▸ h.2.symm⟩

end Registry

namespace SharedInventory

theorem sockets_nodup (inv : SharedInventory) (claim : Socket) : (inv.sockets claim).Nodup := by
  refine List.Nodup.map ?_ inv.sharedIPs_nodup
  intro a b h
  injection h

theorem mem_sockets {inv : SharedInventory} {claim s : Socket} :
    s ∈ inv.sockets claim ↔
      s.ip ∈ inv.sharedIPs ∧ s.port = claim.port ∧ s.transport = claim.transport := by
  unfold sockets
  rw [List.mem_map]
  constructor
  · rintro ⟨ip, hip, rfl⟩
    exact ⟨hip, rfl, rfl⟩
  · rintro ⟨hip, hp, ht⟩
    exact ⟨s.ip, hip, by rw [← hp, ← ht]⟩

/-- With one shared IP a claim binds its own socket only. -/
theorem eq_of_mem_sockets {inv : SharedInventory} (hone : inv.sharedIPs.length ≤ 1)
    {claim s : Socket} (hc : inv.servesClaim claim = true) (hs : s ∈ inv.sockets claim) :
    s = claim := by
  obtain ⟨hip, hp, ht⟩ := mem_sockets.mp hs
  simp only [servesClaim, decide_eq_true_eq] at hc
  have heq : s.ip = claim.ip := by
    match hl : inv.sharedIPs, hone, hip, hc.1 with
    | [ip], _, hip, hc => rw [List.mem_singleton.mp hip, List.mem_singleton.mp hc]
  obtain ⟨ip, port, transport⟩ := s
  simp only at heq hp ht
  rw [heq, hp, ht]

end SharedInventory

namespace PortRelay

variable {inv : SharedInventory} {leases : List Socket} {g g' : PortRelay}

theorem init_ok : init.Ok inv :=
  ⟨by simp [init], by simp [init], by simp [init], by simp [init], by simp [init]⟩

/-- The registry keeps its part when it is acquired from. -/
theorem Ok.acquire (h : g.Ok inv) {cancelled : Bool} {claim : Socket} {entry : PortListener}
    {registry : Registry} (hserves : inv.servesClaim claim = true)
    (hacq : g.registry.acquire inv cancelled claim = .ok (entry, registry)) :
    (∀ s ∈ registry.bound, ∃ e ∈ registry.listeners, s ∈ e.sockets) ∧
    (∀ e ∈ registry.listeners,
      e.sockets = inv.sockets e.claim ∧ inv.servesClaim e.claim = true ∧
        e.serial < registry.next) ∧
    ∀ e ∈ registry.listeners, ∀ e' ∈ registry.listeners, e.serial = e'.serial →
      e.claim = e'.claim := by
  rcases Registry.acquire_cases hacq with ⟨existing, hmem, rfl, rfl, rfl⟩ | ⟨rfl, rfl⟩
  · -- Every entry of the mapped list has the claim, serial and sockets of one before.
    have back : ∀ e ∈ g.registry.listeners.map (fun e => if e.serial = existing.serial then
        { existing with references := existing.references + 1 } else e),
        ∃ e₀ ∈ g.registry.listeners, e.claim = e₀.claim ∧ e.serial = e₀.serial ∧
          e.sockets = e₀.sockets := by
      intro e he
      obtain ⟨e₀, he₀, rfl⟩ := List.mem_map.mp he
      split
      · exact ⟨existing, hmem, rfl, rfl, rfl⟩
      · exact ⟨e₀, he₀, rfl, rfl, rfl⟩
    refine ⟨fun s hs => ?_, fun e he => ?_, fun e he e' he' heq => ?_⟩
    · obtain ⟨e, he, hse⟩ := h.bound s hs
      refine ⟨_, List.mem_map.mpr ⟨e, he, rfl⟩, ?_⟩
      split
      · rename_i hser
        have hclaim := h.serials e he existing hmem hser
        rw [(h.entries e he).1, hclaim, ← (h.entries existing hmem).1] at hse
        exact hse
      · exact hse
    · obtain ⟨e₀, he₀, hc, hser, hsock⟩ := back e he
      rw [hc, hser, hsock]
      exact h.entries e₀ he₀
    · obtain ⟨e₀, he₀, hc, hser, -⟩ := back e he
      obtain ⟨e₁, he₁, hc', hser', -⟩ := back e' he'
      rw [hc, hc']
      exact h.serials e₀ he₀ e₁ he₁ (hser.symm.trans (heq.trans hser'))
  · refine ⟨fun s hs => ?_, fun e he => ?_, fun e he e' he' heq => ?_⟩
    · rcases List.mem_append.mp hs with hs | hs
      · exact ⟨_, List.mem_cons_self, hs⟩
      · obtain ⟨e, he, hse⟩ := h.bound s hs
        exact ⟨e, List.mem_cons_of_mem _ he, hse⟩
    · rcases List.mem_cons.mp he with rfl | he
      · exact ⟨rfl, hserves, Nat.lt_succ_self _⟩
      · obtain ⟨hs, hc, hlt⟩ := h.entries e he
        exact ⟨hs, hc, Nat.lt_succ_of_lt hlt⟩
    · rcases List.mem_cons.mp he with rfl | he <;> rcases List.mem_cons.mp he' with rfl | he'
      · rfl
      · exact absurd heq.symm (Nat.ne_of_lt (h.entries e' he').2.2)
      · exact absurd heq (Nat.ne_of_lt (h.entries e he).2.2)
      · exact h.serials e he e' he' heq

/-- The registry keeps its part when an entry is released. -/
theorem Ok.release (h : g.Ok inv) (key : String) (serial : Nat) :
    (∀ s ∈ (g.registry.release key serial).bound,
      ∃ e ∈ (g.registry.release key serial).listeners, s ∈ e.sockets) ∧
    (∀ e ∈ (g.registry.release key serial).listeners,
      e.sockets = inv.sockets e.claim ∧ inv.servesClaim e.claim = true ∧
        e.serial < (g.registry.release key serial).next) ∧
    ∀ e ∈ (g.registry.release key serial).listeners,
      ∀ e' ∈ (g.registry.release key serial).listeners, e.serial = e'.serial →
        e.claim = e'.claim := by
  unfold Registry.release
  split
  · exact ⟨h.bound, h.entries, h.serials⟩
  · rename_i entry hl
    obtain ⟨hmem, -⟩ := Registry.lookup_mem hl
    split
    · exact ⟨h.bound, h.entries, h.serials⟩
    · rename_i hser
      rw [not_not] at hser
      split
      · have back : ∀ e ∈ g.registry.listeners.map (fun e => if e.serial = serial then
            { e with references := e.references - 1 } else e),
            ∃ e₀ ∈ g.registry.listeners, e.claim = e₀.claim ∧ e.serial = e₀.serial ∧
              e.sockets = e₀.sockets := by
          intro e he
          obtain ⟨e₀, he₀, rfl⟩ := List.mem_map.mp he
          refine ⟨e₀, he₀, ?_⟩
          split <;> exact ⟨rfl, rfl, rfl⟩
        refine ⟨fun s hs => ?_, fun e he => ?_, fun e he e' he' heq => ?_⟩
        · obtain ⟨e, he, hse⟩ := h.bound s hs
          refine ⟨_, List.mem_map.mpr ⟨e, he, rfl⟩, ?_⟩
          split <;> exact hse
        · obtain ⟨e₀, he₀, hc, hs, hsock⟩ := back e he
          rw [hc, hs, hsock]
          exact h.entries e₀ he₀
        · obtain ⟨e₀, he₀, hc, hs, -⟩ := back e he
          obtain ⟨e₁, he₁, hc', hs', -⟩ := back e' he'
          rw [hc, hc']
          exact h.serials e₀ he₀ e₁ he₁ (hs.symm.trans (heq.trans hs'))
      · refine ⟨fun s hs => ?_, fun e he => ?_, fun e he e' he' heq => ?_⟩
        · obtain ⟨hs, hnot⟩ := List.mem_filter.mp hs
          obtain ⟨e, he, hse⟩ := h.bound s hs
          refine ⟨e, List.mem_filter.mpr ⟨he, ?_⟩, hse⟩
          -- An entry with the serial that goes would have only sockets that go.
          have hne : e.serial ≠ serial := by
            intro heq
            have hclaim := h.serials e he entry hmem (heq.trans hser.symm)
            rw [(h.entries e he).1, hclaim, ← (h.entries entry hmem).1] at hse
            simp [hse] at hnot
          simpa using hne
        · exact h.entries e (List.mem_filter.mp he).1
        · exact h.serials e (List.mem_filter.mp he).1 e' (List.mem_filter.mp he').1 heq

theorem server_mem {s : Socket} {e : PortListener} (h : g.server s = some e) :
    e ∈ g.registry.listeners ∧ s ∈ e.sockets :=
  ⟨List.mem_of_find?_eq_some h, by simpa using List.find?_some h⟩

/-- Sessions that exist keep their claim. -/
theorem Ok.sessions (h : g.Ok inv) {f : Nat → Option Session}
    (hs : ∀ k s, g.sessions k = some s → ∃ s', f k = some s' ∧ s'.claim = s.claim) :
    (∀ key session, g.tunnels key = some session →
      ∃ s, f session = some s ∧ claimKey s.claim = key) ∧
    ∀ a ∈ g.associations, inv.servesClaim a.claim = true ∧
      a.socket ∈ inv.sockets a.claim ∧ a.socket.transport = .udp ∧
      ∃ s, f a.session = some s ∧ s.claim = { a.claim with transport := .udp } := by
  constructor
  · intro key session ht
    obtain ⟨s, hk, hc⟩ := h.tunnels key session ht
    obtain ⟨s', hk', hc'⟩ := hs session s hk
    exact ⟨s', hk', by rw [hc', hc]⟩
  · intro a ha
    obtain ⟨h₁, h₂, h₃, s, hk, hc⟩ := h.associations a ha
    obtain ⟨s', hk', hc'⟩ := hs a.session s hk
    exact ⟨h₁, h₂, h₃, s', hk', hc'.trans hc⟩

/-- One event keeps the relay in order. -/
theorem Ok.step (h : g.Ok inv) {e : PortEvent} (hstep : g.step inv leases e = some g') :
    g'.Ok inv := by
  cases e with
  | hello session claim cancelled =>
      simp only [PortRelay.step] at hstep
      split at hstep
      · rename_i hc
        split at hstep
        · exact Option.some.inj hstep ▸ h
        · rename_i entry registry hacq
          obtain rfl := Option.some.inj hstep
          obtain ⟨h₁, h₂, h₃⟩ := h.acquire hc.2.1 hacq
          have hsess := h.sessions (f := Function.update g.sessions session
            (some ⟨claim, entry.serial, false⟩)) (fun k s hk => by
              have hne : k ≠ session := fun e => by simp [e ▸ hk] at hc
              exact ⟨s, by simp [Function.update, hne, hk], rfl⟩)
          exact ⟨h₁, h₂, h₃, hsess.1, hsess.2⟩
      · contradiction
  | register session =>
      simp only [PortRelay.step, Option.map_eq_some_iff] at hstep
      obtain ⟨s, hs, rfl⟩ := hstep
      refine ⟨h.bound, h.entries, h.serials, fun key k hk => ?_, h.associations⟩
      by_cases e : key = claimKey s.claim
      · subst e
        simp only [Function.update_self, Option.some.injEq] at hk
        exact ⟨s, hk ▸ hs, rfl⟩
      · exact h.tunnels key k (by simpa [Function.update, e] using hk)
  | unregister session =>
      simp only [PortRelay.step, Option.map_eq_some_iff] at hstep
      obtain ⟨s, hs, rfl⟩ := hstep
      split
      · refine ⟨h.bound, h.entries, h.serials, fun key k hk => ?_, h.associations⟩
        by_cases e : key = claimKey s.claim
        · simp [e] at hk
        · exact h.tunnels key k (by simpa [Function.update, e] using hk)
      · exact h
  | release session =>
      simp only [PortRelay.step, Option.bind_eq_some_iff] at hstep
      obtain ⟨s, hs, hstep⟩ := hstep
      split at hstep
      · contradiction
      · obtain rfl := Option.some.inj hstep
        obtain ⟨h₁, h₂, h₃⟩ := h.release (claimKey s.claim) s.serial
        have hsess := h.sessions (f := Function.update g.sessions session
          (some { s with released := true })) (fun k s' hk => by
            by_cases e : k = session
            · subst e
              rw [hs, Option.some.injEq] at hk
              exact ⟨_, Function.update_self .., by rw [← hk]⟩
            · exact ⟨s', by simp [Function.update, e, hk], rfl⟩)
        exact ⟨h₁, h₂, h₃, hsess.1, hsess.2⟩
  | associate socket source =>
      simp only [PortRelay.step] at hstep
      split at hstep
      · rename_i hudp
        simp only [Option.bind_eq_some_iff, Option.map_eq_some_iff] at hstep
        obtain ⟨entry, hserver, session, ht, rfl⟩ := hstep
        obtain ⟨hmem, hsock⟩ := server_mem hserver
        obtain ⟨hs, hc, -⟩ := h.entries entry hmem
        obtain ⟨s, hsess, hkey⟩ := h.tunnels _ session ht
        refine ⟨h.bound, h.entries, h.serials, h.tunnels, fun a ha => ?_⟩
        rcases List.mem_cons.mp ha with rfl | ha
        · exact ⟨hc, hs ▸ hsock, hudp, s, hsess, claimKey_injective hkey⟩
        · exact h.associations a ha
      · contradiction
  | dissociate a =>
      obtain rfl := Option.some.inj hstep
      exact ⟨h.bound, h.entries, h.serials, h.tunnels,
        fun b hb => h.associations b (List.mem_of_mem_erase hb)⟩
  | closeAll =>
      obtain rfl := Option.some.inj hstep
      simp only [Registry.closeAll]
      split
      · exact h
      · refine ⟨fun s hs => ?_, by simp, by simp, h.tunnels, h.associations⟩
        obtain ⟨hs, hall⟩ := List.mem_filter.mp hs
        obtain ⟨e, he, hse⟩ := h.bound s hs
        simp only [List.all_eq_true, decide_eq_true_eq] at hall
        exact absurd hse (hall e he)

/-- A whole run keeps the relay in order. -/
theorem Ok.run (h : g.Ok inv) {es : List PortEvent} (hrun : run inv leases g es = some g') :
    g'.Ok inv := by
  induction es generalizing g with
  | nil => exact Option.some.inj hrun ▸ h
  | cons e es ih =>
      obtain ⟨g₁, hstep, hrun⟩ := Option.bind_eq_some_iff.mp hrun
      exact ih (h.step hstep) hrun

/-! ## separation -/

/-- With one shared IP the invariant separates the tenants. -/
theorem Ok.separated (h : g.Ok inv) (hone : inv.sharedIPs.length ≤ 1) :
    g.Separated inv leases where
  granted claim _ hserves cancelled s hacq := by
    unfold Registry.acquire at hacq
    split at hacq
    · simp at hacq
    · split at hacq
      · simp at hacq
      · split at hacq
        · contradiction
        · rename_i hl
          split at hacq
          · simp at hacq
          · split at hacq
            · rename_i taken hbind
              obtain ⟨hb, hs⟩ := Registry.bindAll_error (inv.sockets_nodup claim) hbind
              obtain ⟨e, he, hse⟩ := h.bound taken hb
              obtain ⟨hsock, hc, -⟩ := h.entries e he
              have h₁ := SharedInventory.eq_of_mem_sockets hone hserves hs
              have h₂ := SharedInventory.eq_of_mem_sockets hone hc (hsock ▸ hse)
              exact Registry.lookup_eq_none hl he (by rw [← h₂, h₁])
            · contradiction
  forwarded s source session hf := by
    have key : g.lookupTunnel s = some session →
        (g.sessions session).map (·.claim) = some s := by
      intro hl
      obtain ⟨e, hserver, ht⟩ := Option.bind_eq_some_iff.mp hl
      obtain ⟨he, hse⟩ := server_mem hserver
      obtain ⟨hsock, hc, -⟩ := h.entries e he
      have heq := SharedInventory.eq_of_mem_sockets hone hc (hsock ▸ hse)
      obtain ⟨sess, hsess, hkey⟩ := h.tunnels _ session ht
      rw [hsess, Option.map_some, claimKey_injective hkey, ← heq]
    unfold forwards at hf
    split at hf
    · exact key hf
    · rename_i hudp
      split at hf
      · rename_i a ha
        obtain rfl := Option.some.inj hf
        have hpred := List.find?_some ha
        simp only [decide_eq_true_eq] at hpred
        obtain ⟨hc, hsock, -, sess, hsess, hclaim⟩ :=
          h.associations a (List.mem_of_find?_eq_some ha)
        have heq := SharedInventory.eq_of_mem_sockets hone hc hsock
        rw [hsess, Option.map_some, hclaim, ← heq, hpred.1, ← hudp]
      · exact key hf

end PortRelay

/-- A candidate of the backend is an IP and a port of its inventory. -/
theorem mem_portCandidates {ips : List String} {ports : List Nat} {ip : String} {port : Nat}
    (hip : ip ∈ ips) (hport : port ∈ ports) :
    (ip, some port) ∈ Backend.portCandidates ips ports 0 := by
  obtain ⟨a, ha, rfl⟩ := List.getElem_of_mem hip
  obtain ⟨b, hb, rfl⟩ := List.getElem_of_mem hport
  have hlt : a * ports.length + b < ips.length * ports.length := by
    calc a * ports.length + b < a * ports.length + ports.length := by omega
      _ = (a + 1) * ports.length := by rw [Nat.succ_mul]
      _ ≤ ips.length * ports.length := Nat.mul_le_mul_right _ ha
  refine List.mem_map.mpr ⟨a * ports.length + b, List.mem_range.mpr hlt, ?_⟩
  have hpos : 0 < ports.length := Nat.lt_of_le_of_lt (Nat.zero_le b) hb
  have hdiv : (a * ports.length + b) / ports.length = a := by
    rw [Nat.add_comm, Nat.add_mul_div_right _ _ hpos, Nat.div_eq_of_lt hb, Nat.zero_add]
  have hmod : (a * ports.length + b) % ports.length = b := by
    rw [Nat.add_comm, Nat.add_mul_mod_self_right, Nat.mod_eq_of_lt hb]
  simp only [Nat.zero_add, Nat.mod_eq_of_lt hlt, hdiv, hmod]
  simp [ha, hb]

theorem bindAll_fresh {ss bound : List Socket} (hn : ss.Nodup) (h : ∀ s ∈ ss, s ∉ bound) :
    Registry.bindAll bound ss = .ok ss := by
  cases hb : Registry.bindAll bound ss with
  | ok granted => rw [Registry.bindAll_ok hb]
  | error taken =>
      obtain ⟨hmem, hs⟩ := Registry.bindAll_error hn hb
      exact absurd hmem (h taken hs)

/-- The relay after the first tenant of a fresh relay has connected. -/
theorem run_first {inv : SharedInventory} {leases : List Socket} {claim : Socket}
    (hl : claim ∈ leases) (hs : inv.servesClaim claim = true) :
    ∃ g, PortRelay.run inv leases .init [.hello 0 claim false, .register 0] = some g ∧
      (∀ s ∈ inv.sockets claim, ∀ source, g.forwards s source = some 0) ∧
      (g.sessions 0).map (·.claim) = some claim := by
  have hacq : PortRelay.init.registry.acquire inv false claim = .ok
      (⟨0, claim, 1, inv.sockets claim⟩,
        ⟨[⟨0, claim, 1, inv.sockets claim⟩], false, inv.sockets claim, 1⟩) := by
    have hcap : ¬ inv.maxListeners ≤ 0 := Nat.not_le.mpr inv.maxListeners_pos
    simp [Registry.acquire, PortRelay.init, Registry.lookup, hcap,
      bindAll_fresh (inv.sockets_nodup claim)]
  refine ⟨⟨⟨[⟨0, claim, 1, inv.sockets claim⟩], false, inv.sockets claim, 1⟩,
    Function.update PortRelay.init.sessions 0 (some ⟨claim, 0, false⟩),
    Function.update PortRelay.init.tunnels (claimKey claim) (some 0), []⟩, ?_, ?_, ?_⟩
  · simp only [PortRelay.run, PortRelay.step, hl, hs, hacq]
    simp [PortRelay.init]
  · intro s hmem source
    have ht : s.transport = claim.transport := (SharedInventory.mem_sockets.mp hmem).2.2
    have hself : claimKey { claim with transport := s.transport } = claimKey claim := by rw [ht]
    cases htr : s.transport <;> rw [htr] at hself <;>
      simp [PortRelay.forwards, PortRelay.lookupTunnel, PortRelay.server, hmem, htr, hself]
  · simp

/-- **Port tenants are separated exactly when there is one shared IP.** The
relay binds a claim's port on every shared IP, so a second IP is served by the
first tenant that connects. -/
theorem separated_iff (inv : SharedInventory) (cfg : Backend.Settings) (hm : inv.Matches cfg) :
    (∀ leases : List Socket, leases.Nodup → (∀ lease ∈ leases, Leasable cfg lease) →
      ∀ es g, PortRelay.run inv leases .init es = some g → g.Separated inv leases) ↔
    inv.sharedIPs.length ≤ 1 := by
  constructor
  · intro h
    by_contra hlen
    obtain ⟨ip₁, ip₂, rest, hips⟩ : ∃ ip₁ ip₂ rest, inv.sharedIPs = ip₁ :: ip₂ :: rest := by
      match hl : inv.sharedIPs, hlen with
      | ip₁ :: ip₂ :: rest, _ => exact ⟨ip₁, ip₂, rest, rfl⟩
      | [_], hlen => simp at hlen
      | [], hlen => simp at hlen
    have hne : ip₁ ≠ ip₂ := by
      have hn := inv.sharedIPs_nodup
      rw [hips, List.nodup_cons] at hn
      exact fun e => hn.1 (e ▸ List.mem_cons_self)
    obtain ⟨port, transport, hport⟩ : ∃ port transport, port ∈ inv.ports transport := by
      rcases inv.ports_ne_nil (by simp [hips]) with hp | hp
      · obtain ⟨port, hport⟩ := List.exists_mem_of_ne_nil _ hp
        exact ⟨port, .tcp, hport⟩
      · obtain ⟨port, hport⟩ := List.exists_mem_of_ne_nil _ hp
        exact ⟨port, .udp, hport⟩
    have hleasable : ∀ ip ∈ inv.sharedIPs, Leasable cfg ⟨ip, port, transport⟩ := by
      intro ip hip
      refine ⟨0, ?_⟩
      cases transport with
      | tcp => exact mem_portCandidates (hm.ips ▸ hip) (hm.tcpPorts ▸ hport)
      | udp => exact mem_portCandidates (hm.ips ▸ hip) (hm.udpPorts ▸ hport)
    have hserves : inv.servesClaim ⟨ip₁, port, transport⟩ = true := by
      simp [SharedInventory.servesClaim, hips, hport]
    have hmem₁ : (⟨ip₁, port, transport⟩ : Socket) ∈
        [(⟨ip₁, port, transport⟩ : Socket), ⟨ip₂, port, transport⟩] := List.mem_cons_self
    obtain ⟨g, hrun, hforward, hclaim⟩ := run_first hmem₁ hserves
    have hsep := h _ (by simp [hne]) (by
      intro lease hlease
      simp only [List.mem_cons, List.not_mem_nil, or_false] at hlease
      rcases hlease with rfl | rfl
      · exact hleasable ip₁ (by simp [hips])
      · exact hleasable ip₂ (by simp [hips])) _ g hrun
    have hmem : (⟨ip₂, port, transport⟩ : Socket) ∈ inv.sockets ⟨ip₁, port, transport⟩ :=
      SharedInventory.mem_sockets.mpr ⟨by simp [hips], rfl, rfl⟩
    have hbad := hsep.forwarded _ "" 0 (hforward _ hmem "")
    rw [hclaim, Option.some.injEq, Socket.mk.injEq] at hbad
    exact hne hbad.1
  · intro hone leases _ _ es g hrun
    exact (PortRelay.init_ok.run hrun).separated hone

/-- The inventory of the default settings has one shared IP. -/
theorem separated_iff_default :
    SharedInventory.Matches ⟨["203.0.113.20"], List.range' 10000 8, List.range' 10000 8, 8192,
      by decide, by decide, by decide⟩ (.default [] [] List.nodup_nil) ∧
    ∀ leases : List Socket, leases.Nodup →
      (∀ lease ∈ leases, Leasable (.default [] [] List.nodup_nil) lease) →
      ∀ es g, PortRelay.run ⟨["203.0.113.20"], List.range' 10000 8, List.range' 10000 8, 8192,
        by decide, by decide, by decide⟩ leases .init es = some g →
        g.Separated ⟨["203.0.113.20"], List.range' 10000 8, List.range' 10000 8, 8192,
          by decide, by decide, by decide⟩ leases :=
  ⟨⟨rfl, rfl, rfl⟩,
    (separated_iff _ (.default [] [] List.nodup_nil) ⟨rfl, rfl, rfl⟩).mpr (by decide)⟩

/-- Two shared IPs: the second tenant is refused, and its traffic goes to the
first. -/
theorem two_ips_not_separated :
    ∃ inv : SharedInventory, ∃ g,
      PortRelay.run inv [⟨"203.0.113.20", 10000, .tcp⟩, ⟨"203.0.113.21", 10000, .tcp⟩] .init
        [.hello 0 ⟨"203.0.113.20", 10000, .tcp⟩ false, .register 0] = some g ∧
      (∃ s, g.registry.acquire inv false ⟨"203.0.113.21", 10000, .tcp⟩ = .error (.inUse s)) ∧
      g.forwards ⟨"203.0.113.21", 10000, .tcp⟩ "198.51.100.9:4000" = some 0 ∧
      ¬ g.Separated inv [⟨"203.0.113.20", 10000, .tcp⟩, ⟨"203.0.113.21", 10000, .tcp⟩] := by
  let inv : SharedInventory :=
    ⟨["203.0.113.20", "203.0.113.21"], [10000], [], 8192, by decide, by decide, by decide⟩
  let a : Socket := ⟨"203.0.113.20", 10000, .tcp⟩
  let b : Socket := ⟨"203.0.113.21", 10000, .tcp⟩
  have hobs : ((PortRelay.run inv [a, b] .init [.hello 0 a false, .register 0]).map fun g =>
      ((match g.registry.acquire inv false b with | .error e => some e | .ok _ => none),
        g.forwards b "198.51.100.9:4000", (g.sessions 0).map (·.claim))) =
      some (some (.inUse a), some 0, some a) := by decide +kernel
  obtain ⟨g, hrun, hg⟩ := Option.map_eq_some_iff.mp hobs
  simp only [Prod.mk.injEq] at hg
  refine ⟨inv, g, hrun, ?_, hg.2.1, fun hsep => ?_⟩
  · have hacq := hg.1
    split at hacq
    · rename_i e he
      exact ⟨a, by rw [he, Option.some.inj hacq]⟩
    · contradiction
  · have hbad := hsep.forwarded b _ 0 hg.2.1
    rw [hg.2.2] at hbad
    exact absurd hbad (by decide)

end Relay
