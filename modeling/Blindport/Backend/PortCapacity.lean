import Mathlib.Data.List.ProdSigma
import Mathlib.Data.List.Nodup
import Mathlib.Data.List.Rotate
import Blindport.Conc.Alone
import Blindport.Backend.Requests

/-!
# Blindport.Backend.PortCapacity

The Port branch of `reserve_subscription_resource`, run with its transport's capacity
locked: no other session allocates a socket meanwhile.

The sockets are tried in a rotation of the inventory (`portCandidates_eq`), each at most once
(`World.tried` is what the record says), and an index refuses exactly the held ones
(`reserveCandidate_alone`); so a search that starts below the limit has a free socket ahead
(`exists_free`).

`reservePort_alone` is the whole branch: it returns when fewer sockets are held than the
limit allows, and otherwise raises and leaves the subscriptions alone.
-/

namespace Backend

open Conc Conc.Prog

/-! ## the inventory -/

/-- A shared address and a port. -/
abbrev Socket := String × Nat

/-- A socket as a candidate of the search. -/
def Socket.candidate (socket : Socket) : String × Option Nat := (socket.1, some socket.2)

namespace Settings

/-- The shared ports of a transport. -/
def sharedPorts (cfg : Settings) : Transport → List Nat
  | .udp => cfg.relaySharedUdpPortRange
  | .tcp => cfg.relaySharedTcpPortRange

/-- The configured capacity of a transport. -/
def portCapacity (cfg : Settings) : Transport → Nat
  | .udp => cfg.portUdpCapacity
  | .tcp => cfg.portTcpCapacity

/-- The sockets of a transport. -/
def inventory (cfg : Settings) (transport : Transport) : List Socket :=
  cfg.relaySharedIpsList ×ˢ cfg.sharedPorts transport

/-- How many sockets of a transport may be held. -/
def portLimit (cfg : Settings) (transport : Transport) : Nat :=
  min (cfg.inventory transport).length (cfg.portCapacity transport)

/-- `_parse_ip_list` and `_port_pool_range` have checked the shared inventory: no address
stands in it twice, and no port of a range does. -/
structure SharedInventory (cfg : Settings) : Prop where
  ips : cfg.relaySharedIpsList.Nodup
  tcp : cfg.relaySharedTcpPortRange.Nodup
  udp : cfg.relaySharedUdpPortRange.Nodup

theorem SharedInventory.nodup {cfg : Settings} (h : cfg.SharedInventory) (transport : Transport) :
    (cfg.inventory transport).Nodup := by
  cases transport with
  | tcp => exact h.ips.product h.tcp
  | udp => exact h.ips.product h.udp

end Settings

/-- The order of a product of two lists. -/
theorem getElem?_product {α β : Type} (xs : List α) (ys : List β) (a : α) (b : β) {k : Nat}
    (h : k < xs.length * ys.length) :
    (xs ×ˢ ys)[k]? = some (xs.getD (k / ys.length) a, ys.getD (k % ys.length) b) := by
  induction xs generalizing k with
  | nil => simp at h
  | cons x xs ih =>
      have hpos : 0 < ys.length := by
        by_contra hzero
        rw [Nat.eq_zero_of_not_pos hzero, Nat.mul_zero] at h
        omega
      rw [List.product_cons]
      by_cases hlt : k < ys.length
      · rw [List.getElem?_append_left (by rw [List.length_map]; exact hlt), List.getElem?_map,
          List.getElem?_eq_getElem hlt, Option.map_some, Nat.div_eq_of_lt hlt,
          Nat.mod_eq_of_lt hlt, List.getD_cons_zero, List.getD_eq_getElem?_getD,
          List.getElem?_eq_getElem hlt, Option.getD_some]
      · rw [Nat.not_lt] at hlt
        have hrest : k - ys.length < xs.length * ys.length := by
          rw [List.length_cons, Nat.succ_mul] at h
          omega
        rw [List.getElem?_append_right (by rw [List.length_map]; exact hlt), List.length_map,
          ih hrest, Nat.div_eq_sub_div hpos hlt, List.getD_cons_succ, Nat.mod_eq_sub_mod hlt]

/-- The search goes once round the inventory. -/
theorem portCandidates_eq (ips : List String) (ports : List Nat) (start : Nat) :
    portCandidates ips ports start =
      ((ips ×ˢ ports).rotate start).map Socket.candidate := by
  have hlen : (ips ×ˢ ports).length = ips.length * ports.length := List.length_product ips ports
  apply List.ext_getElem
  · rw [portCandidates, List.length_map, List.length_range, List.length_map, List.length_rotate,
      hlen]
  · intro k hk hk'
    rw [List.length_map, List.length_rotate] at hk'
    have hindex : (k + start) % (ips ×ˢ ports).length < ips.length * ports.length := by
      rw [hlen] at hk' ⊢
      exact Nat.mod_lt _ (by omega)
    have hget := getElem?_product ips ports "" 0 hindex
    rw [List.getElem?_eq_getElem (hindex.trans_eq hlen.symm)] at hget
    rw [List.getElem_map, List.getElem_rotate, Option.some.inj hget]
    simp only [portCandidates, List.getElem_map, List.getElem_range, hlen, Nat.add_comm start k,
      Socket.candidate]

/-! ## what was tried -/

/-- The assignment session `i` tried for a subscription. -/
def Event.triedBy (i sid : Nat) : Event → Option (String × Option Nat)
  | .tried j k ip port => if j = i ∧ k = sid then some (ip, port) else none
  | _ => none

/-- What session `i` has tried for a subscription, oldest first. -/
def World.tried (i sid : Nat) (g : World) : List (String × Option Nat) :=
  g.history.reverse.filterMap (Event.triedBy i sid)

@[simp] theorem World.note_subscriptions (e : Event) (g : World) :
    (g.note e).subscriptions = g.subscriptions := rfl

theorem World.tried_note (i sid : Nat) (e : Event) (g : World) :
    (g.note e).tried i sid = g.tried i sid ++ (e.triedBy i sid).toList := by
  rw [tried, note, List.reverse_cons, List.filterMap_append, tried]
  cases he : e.triedBy i sid <;> simp [he]

/-! ## who has a socket -/

/-- The Port subscription has the socket. -/
def Subscription.hasSocket (transport : Transport) (socket : Socket) (row : Subscription) : Bool :=
  row.product = .port ∧ row.transport = transport ∧ row.assignedIp = some socket.1 ∧
    row.assignedPort = some socket.2

/-- Some subscription a session sees has the socket. -/
def held (i : Nat) (t : Table Subscription) (transport : Transport) (socket : Socket) : Bool :=
  (t.rows i).any fun row => row.hasSocket transport socket

/-- The held sockets of the inventory. -/
def heldSockets (cfg : Settings) (i : Nat) (t : Table Subscription) (transport : Transport) :
    List Socket :=
  (cfg.inventory transport).filter (held i t transport)

/-- The subscriptions as their unique constraints and the one writer leave them: no two have
one assignment, and only a Port subscription has a port. -/
structure Sockets (i : Nat) (t : Table Subscription) : Prop where
  free : t.Free i
  product : ∀ id row, t.get i id = some row → row.assignedPort.isSome = true → row.product = .port
  unique : ∀ id id' row row', t.get i id = some row → t.get i id' = some row' →
    row.sameAssignment row' = true → id = id'

theorem hasSocket_iff {transport : Transport} {socket : Socket} {row : Subscription} :
    row.hasSocket transport socket = true ↔ row.product = .port ∧ row.transport = transport ∧
      row.assignedIp = some socket.1 ∧ row.assignedPort = some socket.2 := by
  rw [Subscription.hasSocket, decide_eq_true_eq]

theorem held_iff {i : Nat} {t : Table Subscription} (h : t.Free i) {transport : Transport}
    {socket : Socket} : held i t transport socket = true ↔
      ∃ id row, t.get i id = some row ∧ row.hasSocket transport socket = true := by
  rw [held, List.any_eq_true]
  constructor
  · rintro ⟨row, hmem, hhas⟩
    obtain ⟨id, hrow⟩ := (Conc.Table.mem_rows h).mp hmem
    exact ⟨id, row, hrow, hhas⟩
  · rintro ⟨id, row, hrow, hhas⟩
    exact ⟨row, (Conc.Table.mem_rows h).mpr ⟨id, hrow⟩, hhas⟩

/-- Nobody has the socket of another. -/
theorem Sockets.eq_of_hasSocket {i : Nat} {t : Table Subscription} (h : Sockets i t)
    {transport : Transport} {socket : Socket} {id id' : Nat} {row row' : Subscription}
    (hrow : t.get i id = some row) (hrow' : t.get i id' = some row')
    (hhas : row.hasSocket transport socket = true)
    (hhas' : row'.hasSocket transport socket = true) : id = id' := by
  obtain ⟨-, htransport, hip, hport⟩ := hasSocket_iff.mp hhas
  obtain ⟨-, htransport', hip', hport'⟩ := hasSocket_iff.mp hhas'
  apply h.unique id id' row row' hrow hrow'
  simp [Subscription.sameAssignment, hip, hip', hport, hport', htransport, htransport']

/-- The socket of a subscription that `_held_port_assignment_count` counts. -/
def countedSocket (cfg : Settings) (transport : Transport) (row : Subscription) : Option Socket :=
  match row.assignedIp, row.assignedPort with
  | some ip, some port =>
      if row.product = .port ∧ row.transport = transport ∧ ip ∈ cfg.relaySharedIpsList ∧
          port ∈ cfg.sharedPorts transport then some (ip, port)
      else none
  | _, _ => none

theorem countedSocket_eq_some {cfg : Settings} {transport : Transport} {row : Subscription}
    {socket : Socket} : countedSocket cfg transport row = some socket ↔
      row.hasSocket transport socket = true ∧ socket ∈ cfg.inventory transport := by
  obtain ⟨ip, port⟩ := socket
  rw [hasSocket_iff, Settings.inventory, List.mem_product, countedSocket]
  constructor
  · intro h
    split at h
    · rename_i ip' port' hip hport
      split at h
      · rename_i hcond
        rw [Option.some.injEq, Prod.mk.injEq] at h
        rw [h.1] at hip hcond
        rw [h.2] at hport hcond
        exact ⟨⟨hcond.1, hcond.2.1, hip, hport⟩, hcond.2.2⟩
      · contradiction
    · contradiction
  · rintro ⟨⟨hproduct, htransport, hip, hport⟩, hmem⟩
    simp only [hip, hport]
    rw [if_pos ⟨hproduct, htransport, hmem⟩]

/-- The count of `_held_port_assignment_count` is the number of held sockets. -/
theorem length_counted {cfg : Settings} {i : Nat} {t : Table Subscription} (h : Sockets i t)
    (hcfg : cfg.SharedInventory) (transport : Transport) :
    ((t.rows i).filter fun sub => sub.product = .port ∧ sub.transport = transport ∧
      sub.assignedIp.any (· ∈ cfg.relaySharedIpsList) ∧
      sub.assignedPort.any (· ∈ cfg.sharedPorts transport)).length =
      (heldSockets cfg i t transport).length := by
  have hcounted : ((t.rows i).filter fun sub => sub.product = .port ∧ sub.transport = transport ∧
      sub.assignedIp.any (· ∈ cfg.relaySharedIpsList) ∧
      sub.assignedPort.any (· ∈ cfg.sharedPorts transport)).length =
      ((t.rows i).filterMap (countedSocket cfg transport)).length := by
    rw [← List.countP_eq_length_filter, List.length_filterMap_eq_countP]
    apply List.countP_congr
    intro row _
    simp only [countedSocket]
    cases row.assignedIp <;> cases row.assignedPort <;> simp
  rw [hcounted]
  apply List.Perm.length_eq
  rw [List.perm_ext_iff_of_nodup]
  · intro socket
    rw [List.mem_filterMap, heldSockets, List.mem_filter, held_iff h.free]
    constructor
    · rintro ⟨row, hmem, hcount⟩
      obtain ⟨id, hrow⟩ := (Conc.Table.mem_rows h.free).mp hmem
      obtain ⟨hhas, hinventory⟩ := countedSocket_eq_some.mp hcount
      exact ⟨hinventory, id, row, hrow, hhas⟩
    · rintro ⟨hinventory, id, row, hrow, hhas⟩
      exact ⟨row, (Conc.Table.mem_rows h.free).mpr ⟨id, hrow⟩,
        countedSocket_eq_some.mpr ⟨hhas, hinventory⟩⟩
  · rw [Conc.Table.rows, List.filterMap_filterMap]
    apply List.nodup_range.filterMap
    intro id id' socket hid hid'
    rw [Option.mem_def, Option.bind_eq_some_iff] at hid hid'
    obtain ⟨row, hrow, hcount⟩ := hid
    obtain ⟨row', hrow', hcount'⟩ := hid'
    exact h.eq_of_hasSocket hrow hrow' (countedSocket_eq_some.mp hcount).1
      (countedSocket_eq_some.mp hcount').1
  · exact (hcfg.nodup transport).filter _

/-! ## one candidate -/

/-- The subscriptions after `sub` has become `assigned`. -/
structure Assigned (i : Nat) (sub assigned : Subscription) (t t' : Table Subscription) : Prop where
  free : t'.Free i
  row : t'.get i sub.id = some assigned
  frame : ∀ id ≠ sub.id, t'.get i id = t.get i id

/-- A Port subscription with nothing assigned, as the session sees it. -/
structure Unassigned (i : Nat) (sub : Subscription) (t : Table Subscription) : Prop where
  row : t.get i sub.id = some sub
  product : sub.product = .port
  ip : sub.assignedIp = none

/-- The flush writes what was assigned. -/
theorem flush_reserved (cfg : Settings) (now : Datetime) (pid : Nat) (ip : String)
    (port : Option Nat) (sub : Subscription) :
    sub.flush (sub.reserved cfg now pid ip port) sub = sub.reserved cfg now pid ip port := by
  have hsame : ∀ {α : Type} [DecidableEq α] (loaded assigned : α),
      flushed loaded assigned loaded = assigned := by
    intro α _ loaded assigned
    unfold flushed
    split
    · rename_i heq
      exact heq.symm
    · rfl
  simp only [Subscription.flush, Subscription.reserved, hsame]

section Search

variable {cfg : Settings} {i pid : Nat} {sub : Subscription} {g : World}

/-- The unique indexes refuse a socket that somebody has, and no other. -/
theorem clash_reserved (cfg : Settings) (pid : Nat) (hs : Sockets i g.subscriptions)
    (hsub : Unassigned i sub g.subscriptions) (now : Datetime) (socket : Socket) :
    let rival := Subscription.sameAssignment (sub.reserved cfg now pid socket.1 (some socket.2))
    g.subscriptions.clash i sub.id rival rival =
      some (held i g.subscriptions sub.transport socket) := by
  intro rival
  have hrival : ∀ row, rival row = true ↔ row.assignedIp = some socket.1 ∧
      row.assignedPort = some socket.2 ∧ row.transport = sub.transport := by
    intro row
    simp [rival, Subscription.sameAssignment, Subscription.reserved, hsub.product]
  obtain ⟨b, hclash, hb⟩ := Table.clash_of_free hs.free sub.id rival rival
  rw [hclash, Option.some.injEq, Bool.eq_iff_iff, hb, held_iff hs.free]
  constructor
  · rintro ⟨id, row, -, hrow, hr⟩
    obtain ⟨hip, hport, htransport⟩ := (hrival row).mp hr
    have hproduct := hs.product id row hrow (by rw [hport]; rfl)
    exact ⟨id, row, hrow, hasSocket_iff.mpr ⟨hproduct, htransport, hip, hport⟩⟩
  · rintro ⟨id, row, hrow, hhas⟩
    obtain ⟨-, htransport, hip, hport⟩ := hasSocket_iff.mp hhas
    refine ⟨id, row, fun heq => ?_, hrow, (hrival row).mpr ⟨hip, hport, htransport⟩⟩
    -- the subscription itself has no address
    rw [heq, hsub.row, Option.some.injEq] at hrow
    rw [← hrow, hsub.ip] at hip
    contradiction

/-- A candidate is tried once, and assigned unless somebody has it. -/
theorem reserveCandidate_alone (hs : Sockets i g.subscriptions)
    (hsub : Unassigned i sub g.subscriptions) (socket : Socket) :
    (reserveCandidate cfg i sub pid socket.1 (some socket.2)).alone
      (fun o g' => g'.tried i sub.id = g.tried i sub.id ++ [socket.candidate] ∧
        ((held i g.subscriptions sub.transport socket = true ∧ o = none ∧
          g'.subscriptions = g.subscriptions) ∨
        (held i g.subscriptions sub.transport socket = false ∧ ∃ now,
          o = some (sub.reserved cfg now pid socket.1 (some socket.2)) ∧
          Assigned i sub (sub.reserved cfg now pid socket.1 (some socket.2)) g.subscriptions
            g'.subscriptions)))
      (fun _ _ => False) g := by
  unfold reserveCandidate beginNested utcnow
  rw [alone_bind]
  intro _
  refine ⟨_, _, rfl, ?_⟩
  rw [alone, alone_bind]
  intro ω
  refine ⟨_, _, rfl, ?_⟩
  rw [alone, alone_bind]
  intro ω'
  refine ⟨_, _, rfl, ?_⟩
  rw [alone, alone_atomic]
  intro ω''
  have htried : (((g.note (.tried i sub.id socket.1 (some socket.2))).note
      (.clock i ω.clock)).note (.clock i ω'.clock)).tried i sub.id =
      g.tried i sub.id ++ [socket.candidate] := by
    simp [World.tried_note, Event.triedBy, Socket.candidate]
  have hclash := clash_reserved cfg pid hs hsub ω.clock socket
  simp only [World.note_subscriptions, hsub.product, reduceCtorEq, if_false] at hclash ⊢
  rw [hclash]
  cases hheld : held i g.subscriptions sub.transport socket with
  | true => exact ⟨_, _, rfl, htried, .inl ⟨rfl, rfl, rfl⟩⟩
  | false =>
      obtain ⟨t', hupdate, hfree, hrow, hframe⟩ := Table.update_of_free hs.free hsub.row
        (Subscription.flush sub (sub.reserved cfg ω.clock pid socket.1 (some socket.2)))
      rw [flush_reserved] at hrow
      simp only [hupdate, Option.map_some]
      exact ⟨_, _, rfl, htried, .inr ⟨trivial, ω.clock, rfl, hfree, hrow, hframe⟩⟩

/-! ## the search -/

/-- The search takes the first socket nobody has and has tried those before it, each once; it
fails only where there is none. -/
theorem reserveFirst_alone (message : String) (sockets : List Socket)
    (hs : Sockets i g.subscriptions) (hsub : Unassigned i sub g.subscriptions) :
    (reserveFirst cfg i pid message sub (sockets.map Socket.candidate)).alone
      (fun assigned g' => ∃ now before socket after, sockets = before ++ socket :: after ∧
        g'.tried i sub.id = g.tried i sub.id ++ (before ++ [socket]).map Socket.candidate ∧
        (∀ s ∈ before, held i g.subscriptions sub.transport s = true) ∧
        held i g.subscriptions sub.transport socket = false ∧
        assigned = sub.reserved cfg now pid socket.1 (some socket.2) ∧
        Assigned i sub assigned g.subscriptions g'.subscriptions)
      (fun e g' => e = .noCapacity message ∧ g'.subscriptions = g.subscriptions ∧
        ∀ s ∈ sockets, held i g.subscriptions sub.transport s = true) g := by
  induction sockets generalizing g with
  | nil => exact ⟨rfl, rfl, by simp⟩
  | cons socket sockets ih =>
      rw [List.map_cons, reserveFirst, alone_bind]
      refine alone_mono (reserveCandidate_alone hs hsub socket) (fun o g' hresult => ?_)
        fun _ _ h => h.elim
      obtain ⟨htried, hresult⟩ := hresult
      cases hresult with
      | inl hrefused =>
          obtain ⟨hheld, rfl, hsame⟩ := hrefused
          have hrefresh : g'.subscriptions.get i sub.id = some sub := by rw [hsame, hsub.row]
          simp only
          rw [alone_bind]
          intro ω
          refine ⟨g', some sub, by simp only [hrefresh], ?_⟩
          change (reserveFirst cfg i pid message sub _).alone _ _ g'
          refine alone_mono (ih (hsame ▸ hs) (hsame ▸ hsub)) (fun assigned g'' hfound => ?_)
            fun e g'' hfull => ?_
          · obtain ⟨now, before, s, after, hsplit, hmore, hbefore, hs', hassigned, hrow⟩ := hfound
            rw [hsame] at hbefore hs' hrow
            refine ⟨now, socket :: before, s, after, by rw [hsplit, List.cons_append], ?_, ?_, hs',
              hassigned, hrow⟩
            · rw [hmore, htried, List.append_assoc, List.singleton_append, List.cons_append,
                List.map_cons]
            intro x hx
            cases List.mem_cons.mp hx with
            | inl heq => rw [heq, hheld]
            | inr hx => exact hbefore x hx
          · obtain ⟨he, hsubs, hall⟩ := hfull
            rw [hsame] at hsubs hall
            refine ⟨he, hsubs, fun x hx => ?_⟩
            cases List.mem_cons.mp hx with
            | inl heq => rw [heq, hheld]
            | inr hx => exact hall x hx
      | inr htaken =>
          obtain ⟨hfree, now, rfl, hassigned⟩ := htaken
          exact ⟨now, [], socket, sockets, rfl, htried, by simp, hfree, rfl, hassigned⟩

/-- The count leaves the database alone. -/
theorem heldPortAssignmentCount_alone (hs : Sockets i g.subscriptions)
    (hcfg : cfg.SharedInventory) (transport : Transport) :
    (heldPortAssignmentCount i transport cfg.relaySharedIpsList (cfg.sharedPorts transport)).alone
      (fun n g' => n = (heldSockets cfg i g.subscriptions transport).length ∧ g' = g)
      (fun _ _ => False) g := by
  unfold heldPortAssignmentCount
  rw [alone_bind]
  intro ω
  refine ⟨g, _, rfl, ?_⟩
  exact ⟨length_counted hs hcfg transport, rfl⟩

end Search

/-- Below the limit some socket of the inventory is free. -/
theorem exists_free {cfg : Settings} {i : Nat} {t : Table Subscription} {transport : Transport}
    (h : (heldSockets cfg i t transport).length < cfg.portLimit transport) :
    ∃ socket ∈ cfg.inventory transport, held i t transport socket = false := by
  by_contra hnone
  have hall : ∀ socket ∈ cfg.inventory transport, held i t transport socket = true := by
    intro socket hmem
    by_contra hfree
    exact hnone ⟨socket, hmem, Bool.eq_false_iff.mpr hfree⟩
  rw [heldSockets, List.filter_eq_self.mpr hall] at h
  exact absurd h (Nat.not_lt.mpr (Nat.min_le_left _ _))

/-! ## the subscriptions afterwards -/

section Afterwards

variable {cfg : Settings} {i pid : Nat} {sub : Subscription} {t t' : Table Subscription}
  {now : Datetime} {socket : Socket}

/-- Who has a socket after the reservation. -/
theorem Assigned.held_iff (hs : Sockets i t) (hsub : Unassigned i sub t)
    (h : Assigned i sub (sub.reserved cfg now pid socket.1 (some socket.2)) t t')
    (transport : Transport) (s : Socket) : held i t' transport s = true ↔
      held i t transport s = true ∨ (transport = sub.transport ∧ s = socket) := by
  rw [Backend.held_iff h.free, Backend.held_iff hs.free]
  have hself : ∀ transport s, (sub.reserved cfg now pid socket.1 (some socket.2)).hasSocket
      transport s = true ↔ transport = sub.transport ∧ s = socket := by
    intro transport s
    rw [hasSocket_iff]
    simp only [Subscription.reserved, hsub.product, Option.some.injEq, true_and]
    constructor
    · rintro ⟨rfl, hip, hport⟩
      exact ⟨rfl, Prod.ext hip.symm hport.symm⟩
    · rintro ⟨rfl, rfl⟩
      exact ⟨rfl, rfl, rfl⟩
  constructor
  · rintro ⟨id, row, hrow, hhas⟩
    by_cases heq : id = sub.id
    · rw [heq, h.row, Option.some.injEq] at hrow
      rw [← hrow, hself] at hhas
      exact .inr hhas
    · rw [h.frame id heq] at hrow
      exact .inl ⟨id, row, hrow, hhas⟩
  · rintro (⟨id, row, hrow, hhas⟩ | hsocket)
    · have hne : id ≠ sub.id := by
        rintro rfl
        rw [hsub.row, Option.some.injEq] at hrow
        rw [hasSocket_iff, ← hrow, hsub.ip] at hhas
        exact Option.some_ne_none _ hhas.2.2.1.symm
      exact ⟨id, row, by rw [h.frame id hne]; exact hrow, hhas⟩
    · exact ⟨sub.id, _, h.row, (hself transport s).mpr hsocket⟩

/-- One more socket is held. -/
theorem Assigned.length_heldSockets (hs : Sockets i t) (hcfg : cfg.SharedInventory)
    (hsub : Unassigned i sub t)
    (h : Assigned i sub (sub.reserved cfg now pid socket.1 (some socket.2)) t t')
    (hmem : socket ∈ cfg.inventory sub.transport) (hfree : held i t sub.transport socket = false) :
    (heldSockets cfg i t' sub.transport).length =
      (heldSockets cfg i t sub.transport).length + 1 := by
  have hperm : (heldSockets cfg i t' sub.transport).Perm
      (socket :: heldSockets cfg i t sub.transport) := by
    rw [List.perm_ext_iff_of_nodup]
    · intro s
      rw [heldSockets, List.mem_filter, h.held_iff hs hsub, List.mem_cons, heldSockets,
        List.mem_filter]
      constructor
      · rintro ⟨hinventory, hheld | ⟨-, rfl⟩⟩
        · exact .inr ⟨hinventory, hheld⟩
        · exact .inl rfl
      · rintro (rfl | ⟨hinventory, hheld⟩)
        · exact ⟨hmem, .inr ⟨rfl, rfl⟩⟩
        · exact ⟨hinventory, .inl hheld⟩
    · exact (hcfg.nodup sub.transport).filter _
    · rw [List.nodup_cons, heldSockets, List.mem_filter]
      refine ⟨fun hin => ?_, (hcfg.nodup sub.transport).filter _⟩
      rw [hfree] at hin
      exact Bool.false_ne_true hin.2
  rw [hperm.length_eq, List.length_cons]

/-- The assignments are still apart. -/
theorem Assigned.sockets (hs : Sockets i t) (hsub : Unassigned i sub t)
    (h : Assigned i sub (sub.reserved cfg now pid socket.1 (some socket.2)) t t')
    (hfree : held i t sub.transport socket = false) : Sockets i t' where
  free := h.free
  product id row hrow hport := by
    by_cases heq : id = sub.id
    · rw [heq, h.row, Option.some.injEq] at hrow
      rw [← hrow]
      exact hsub.product
    · rw [h.frame id heq] at hrow
      exact hs.product id row hrow hport
  unique id id' row row' hrow hrow' hsame := by
    -- a row beside the new one that has its socket has had it before
    have hother : ∀ id row, t.get i id = some row →
        row.assignedIp = some socket.1 → row.assignedPort = some socket.2 →
          row.transport = sub.transport → False := by
      intro id row hrow hip hport htransport
      have hheld : held i t sub.transport socket = true := (Backend.held_iff hs.free).mpr
        ⟨id, row, hrow, hasSocket_iff.mpr
          ⟨hs.product id row hrow (by rw [hport]; rfl), htransport, hip, hport⟩⟩
      rw [hfree] at hheld
      exact Bool.false_ne_true hheld
    by_cases heq : id = sub.id
    · by_cases heq' : id' = sub.id
      · rw [heq, heq']
      · rw [heq, h.row, Option.some.injEq] at hrow
        rw [h.frame id' heq'] at hrow'
        rw [← hrow] at hsame
        simp only [Subscription.sameAssignment, Subscription.reserved, hsub.product, reduceCtorEq,
          false_and, false_or, Option.isSome_some, true_and, decide_eq_true_eq] at hsame
        exact (hother id' row' hrow' hsame.1 hsame.2.1 hsame.2.2).elim
    · rw [h.frame id heq] at hrow
      by_cases heq' : id' = sub.id
      · rw [heq', h.row, Option.some.injEq] at hrow'
        rw [← hrow'] at hsame
        simp only [Subscription.sameAssignment, Subscription.reserved, hsub.product, reduceCtorEq,
          false_and, and_false, false_or, decide_eq_true_eq] at hsame
        exact (hother id row hrow hsame.2.2.1.symm hsame.2.2.2.1.symm hsame.2.2.2.2.symm).elim
      · rw [h.frame id' heq'] at hrow'
        exact hs.unique id id' row row' hrow hrow' hsame

end Afterwards

/-! ## the branch -/

/-- What a reservation leaves: the first free socket in one round through the inventory, no
socket tried after it and none tried twice, and one more held than before. -/
structure Reserved (cfg : Settings) (i pid : Nat) (sub : Subscription) (g : World)
    (assigned : Subscription) (g' : World) : Prop where
  sockets : Sockets i g'.subscriptions
  row : g'.subscriptions.get i sub.id = some assigned
  frame : ∀ id ≠ sub.id, g'.subscriptions.get i id = g.subscriptions.get i id
  first : ∃ start now before socket after,
    (cfg.inventory sub.transport).rotate start = before ++ socket :: after ∧
    (before ++ socket :: after).Nodup ∧
    (before ++ socket :: after).Perm (cfg.inventory sub.transport) ∧
    g'.tried i sub.id = g.tried i sub.id ++ (before ++ [socket]).map Socket.candidate ∧
    (∀ s ∈ before, held i g.subscriptions sub.transport s = true) ∧
    held i g.subscriptions sub.transport socket = false ∧
    assigned = sub.reserved cfg now pid socket.1 (some socket.2)
  count : (heldSockets cfg i g'.subscriptions sub.transport).length =
    (heldSockets cfg i g.subscriptions sub.transport).length + 1
  limit : (heldSockets cfg i g'.subscriptions sub.transport).length ≤ cfg.portLimit sub.transport

section Branch

variable {cfg : Settings} {i : Nat} {sub : Subscription} {g : World}

/-- The Port branch of the candidates, with the transport's inventory and capacity. -/
theorem resourceCandidates_port (hproduct : sub.product = .port) :
    resourceCandidates cfg i sub =
      (heldPortAssignmentCount i sub.transport cfg.relaySharedIpsList
        (cfg.sharedPorts sub.transport) >>= fun count =>
      let raw := cfg.relaySharedIpsList.length * (cfg.sharedPorts sub.transport).length
      if min raw (cfg.portCapacity sub.transport) ≤ count then
        .raise (.noCapacity "no Blindport Port capacity")
      else input Input.random >>= fun random =>
        let start := if min raw (cfg.portCapacity sub.transport) < raw then random % raw else 0
        pure ("no Blindport Port capacity", portCandidates cfg.relaySharedIpsList
          (cfg.sharedPorts sub.transport) start)) := by
  unfold resourceCandidates
  rw [hproduct]
  cases sub.transport with
  | udp => rfl
  | tcp => rfl

theorem resourceCandidates_alone (hs : Sockets i g.subscriptions) (hcfg : cfg.SharedInventory)
    (hproduct : sub.product = .port) :
    (resourceCandidates cfg i sub).alone
      (fun candidates g' => g' = g ∧
        (heldSockets cfg i g.subscriptions sub.transport).length < cfg.portLimit sub.transport ∧
        ∃ start, candidates = ("no Blindport Port capacity",
          ((cfg.inventory sub.transport).rotate start).map Socket.candidate))
      (fun e g' => g' = g ∧ e = .noCapacity "no Blindport Port capacity" ∧
        cfg.portLimit sub.transport ≤ (heldSockets cfg i g.subscriptions sub.transport).length)
      g := by
  rw [resourceCandidates_port hproduct, alone_bind]
  refine alone_mono (heldPortAssignmentCount_alone hs hcfg sub.transport) (fun n g' hcount => ?_)
    fun _ _ h => h.elim
  obtain ⟨rfl, rfl⟩ := hcount
  have hraw : (cfg.inventory sub.transport).length =
      cfg.relaySharedIpsList.length * (cfg.sharedPorts sub.transport).length :=
    List.length_product _ _
  dsimp only
  rw [← hraw]
  split
  · rename_i hfull
    exact ⟨rfl, rfl, hfull⟩
  · rename_i hroom
    rw [alone_bind]
    intro ω
    exact ⟨g', ω.random, rfl, rfl, Nat.lt_of_not_le hroom, _,
      congrArg _ (portCandidates_eq _ _ _)⟩

/-- **The Port branch reserves a socket exactly when fewer are held than the inventory and the
capacity allow: the first that nobody has, in one round through the inventory that tries no
socket twice. Otherwise it raises, and nothing was tried and no subscription has changed.** -/
theorem reservePort_alone (pid : Nat) (hs : Sockets i g.subscriptions) (hcfg : cfg.SharedInventory)
    (hsub : Unassigned i sub g.subscriptions) (hstatus : sub.status ≠ .active)
    (hexpires : sub.reservationExpiresAt = none) (hpayment : sub.reservationPaymentId = none) :
    (reserveSubscriptionResource cfg i sub pid).alone
      (fun assigned g' =>
        (heldSockets cfg i g.subscriptions sub.transport).length < cfg.portLimit sub.transport ∧
        Reserved cfg i pid sub g assigned g')
      (fun e g' =>
        cfg.portLimit sub.transport ≤ (heldSockets cfg i g.subscriptions sub.transport).length ∧
        e = .noCapacity "no Blindport Port capacity" ∧
        g'.tried i sub.id = g.tried i sub.id ∧ g'.subscriptions = g.subscriptions)
      g := by
  unfold reserveSubscriptionResource
  rw [if_neg (by simp [hstatus, hsub.product]), if_neg (by simp [hsub.ip]),
    if_neg (by simp [hsub.ip, hexpires, hpayment]), alone_bind]
  refine alone_mono (resourceCandidates_alone hs hcfg hsub.product) (fun candidates g' hroom => ?_)
    fun e g' hfull => ?_
  · obtain ⟨rfl, hlt, start, rfl⟩ := hroom
    have hperm := List.rotate_perm (cfg.inventory sub.transport) start
    refine alone_mono (reserveFirst_alone _ _ hs hsub) (fun assigned g'' hfound => ?_)
      fun e g'' hnone => ?_
    · obtain ⟨now, before, socket, after, hsplit, htried, hbefore, hfree, rfl, hassigned⟩ := hfound
      rw [hsplit] at hperm
      have hmem : socket ∈ cfg.inventory sub.transport :=
        hperm.mem_iff.mp (List.mem_append_right before List.mem_cons_self)
      have hcount := hassigned.length_heldSockets hs hcfg hsub hmem hfree
      refine ⟨hlt, hassigned.sockets hs hsub hfree, hassigned.row, hassigned.frame,
        ⟨start, now, before, socket, after, hsplit, ?_, hperm, htried, hbefore, hfree, rfl⟩, hcount,
        by omega⟩
      exact hperm.nodup_iff.mpr (hcfg.nodup sub.transport)
    · -- the search cannot have tried a whole round in vain
      obtain ⟨-, -, hall⟩ := hnone
      obtain ⟨socket, hmem, hfree⟩ := exists_free hlt
      rw [hall socket (hperm.mem_iff.mpr hmem)] at hfree
      contradiction
  · obtain ⟨rfl, rfl, hle⟩ := hfull
    exact ⟨hle, rfl, rfl, rfl⟩

end Branch

/-! ## a sample -/

/-- The default inventory: one shared address with eight ports. -/
def eightPorts : Settings := Settings.default [.lightning] [] .nil

/-- A Port subscription that waits for its first payment. -/
def pendingPort : Subscription :=
  (⟨.port, none, false, .tcp, .framed, .monthly, .exact, none⟩ : SubscriptionRequest).row eightPorts
    0 ⟨List.replicate 32 0, Uuid.length_zeros⟩ 0 none none 0

/-- A database with nothing else. -/
def pendingWorld : World where
  users := .ofList [] (·.id)
  subscriptions := .ofList [pendingPort] (·.id)
  payments := .ofList [] (·.id)
  leases := .ofList [] (·.id)
  credits := .ofList [] (·.paymentId)
  orders := []
  history := []

theorem pendingWorld_get {id : Nat} {row : Subscription}
    (h : pendingWorld.subscriptions.get 0 id = some row) : id = 0 ∧ row = pendingPort := by
  by_cases hid : id = 0
  · subst hid
    exact ⟨rfl, (Option.some.inj h).symm⟩
  · have hkey : ¬ pendingPort.id = id := fun heq => hid heq.symm
    simp [pendingWorld, Table.get, Cell.view, Table.ofList, hkey] at h

theorem pendingWorld_sockets : Sockets 0 pendingWorld.subscriptions where
  free := ⟨fun _ => rfl, fun id row h => by rw [(pendingWorld_get h).1]; decide⟩
  product id row h hport := by
    rw [(pendingWorld_get h).2]
    rfl
  unique id id' row row' h h' _ := by rw [(pendingWorld_get h).1, (pendingWorld_get h').1]

theorem eightPorts_shared : eightPorts.SharedInventory where
  ips := List.nodup_singleton _
  tcp := by simp [eightPorts, Settings.default]
  udp := by simp [eightPorts, Settings.default]

/-- The subscription is assigned a socket. -/
theorem reservePort_alone_pendingPort :
    (reserveSubscriptionResource eightPorts 0 pendingPort 1).alone
      (fun assigned g' => Reserved eightPorts 0 1 pendingPort pendingWorld assigned g')
      (fun _ _ => False) pendingWorld := by
  have hsub : Unassigned 0 pendingPort pendingWorld.subscriptions := ⟨rfl, rfl, rfl⟩
  refine alone_mono (reservePort_alone 1 pendingWorld_sockets eightPorts_shared hsub (by decide) rfl
    rfl) (fun _ _ h => h.2) fun _ _ h => ?_
  have hfew : (heldSockets eightPorts 0 pendingWorld.subscriptions .tcp).length <
      eightPorts.portLimit .tcp := by decide
  exact absurd h.1 (Nat.not_le.mpr hfew)

end Backend
