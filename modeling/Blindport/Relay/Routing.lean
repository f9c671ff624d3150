import Mathlib.Data.List.TakeWhile
import Mathlib.Logic.Function.Basic
import Blindport.Protocol.Claim
import Blindport.Relay.PortListeners
import Blindport.Relay.Registry

/-!
# Blindport.Relay.Routing

Where the relay sends a connection that names a host, `main.go` of
`blindport-relay`, and which destinations the agent on the other end takes,
`main.go` of `blindportd`.

Both ends work on texts: the relay looks keys up in its table of tunnels, from
the exact name to ever shorter suffixes, and the agent compares the destination
it is sent with the name it claimed.  Above them stands `Resource`, what a claim
denotes, and `Selects`, which resource a host name belongs to among the
registered ones.  `sni_routing_agrees` says that the keys, the search and the
agent's check all follow it.  The table is the one `Relay.Registry` keeps
(`Tunnels.ofRegistry`).
-/

namespace Relay.Routing

open Hostname Protocol

/-! ## resources -/

/-- What a validated claim denotes. -/
inductive Resource
  | address (ip : String)
  | socket (s : Socket)
  | hostname (name : String)
  | subtree (base : String)
deriving DecidableEq

/-- The resource of a claim. -/
def resource (c : Claim) : Option Resource :=
  match c.kind, c.transport, c.scope with
  | .ip, _, _ => some (.address c.ip)
  | .port, .tcp, _ => some (.socket ⟨c.ip, c.port.toNat, .tcp⟩)
  | .port, .udp, _ => some (.socket ⟨c.ip, c.port.toNat, .udp⟩)
  | .relay, _, .exact => some (.hostname c.domain)
  | .relay, _, .wildcard => some (.subtree c.domain)
  | _, _, _ => none

/-- The host names of a resource: one name, or a base and everything below it. -/
def Resource.Covers : Resource → String → Prop
  | .hostname name, host => host = name
  | .subtree base, host => Hostname.Covers base host
  | .address _, _ => False
  | .socket _, _ => False

/-- Only Relay claims cover host names. -/
theorem kind_of_covers {c : Claim} {x : Resource} {host : String} (hx : resource c = some x)
    (h : x.Covers host) : c.kind = .relay := by
  unfold resource at hx
  split at hx
  case h_4 kind _ => exact kind
  case h_5 kind _ => exact kind
  case h_6 => cases hx
  all_goals
    rw [← Option.some_inj.mp hx] at h
    cases h

/-! ## keys -/

/-- `claimKey`. -/
def claimKey (go : Go) (c : Claim) : String :=
  match c.kind with
  | .ip => "ip:" ++ c.ip
  | .port => "port:" ++ c.transport.text ++ ":" ++ joinHostPort c.ip c.port.toNat
  | .relay =>
      if c.scope = .wildcard then "domain:wildcard:" ++ go.toLower c.domain
      else "domain:" ++ go.toLower c.domain
  | .unknown _ => ""

/-- The key of a resource. -/
def Resource.key : Resource → String
  | .address ip => "ip:" ++ ip
  | .socket s => Relay.claimKey s
  | .hostname name => "domain:" ++ name
  | .subtree base => "domain:wildcard:" ++ base

/-- The names of a resource have no colon. -/
def Resource.Plain : Resource → Prop
  | .hostname name => ':' ∉ name.toList
  | .subtree base => ':' ∉ base.toList
  | _ => True

/-- A validated claim denotes a resource, and its key is the resource's. -/
theorem resource_of_valid {go : Go} {c : Claim} (h : c.Valid go) :
    ∃ x, resource c = some x ∧ claimKey go c = x.key ∧ x.Plain := by
  cases h with
  | ip kind => exact ⟨.address c.ip, by simp [resource, kind], by
      unfold Resource.key
      simp [claimKey, kind], trivial⟩
  | port kind addr domain port transport scope =>
      cases transport with
      | inl ht =>
          exact ⟨.socket ⟨c.ip, c.port.toNat, .tcp⟩, by simp [resource, kind, ht],
            by
              unfold Resource.key
              simp [claimKey, kind, ht, Relay.claimKey, ClaimTransport.text, transportText],
            trivial⟩
      | inr ht =>
          exact ⟨.socket ⟨c.ip, c.port.toNat, .udp⟩, by simp [resource, kind, ht],
            by
              unfold Resource.key
              simp [claimKey, kind, ht, Relay.claimKey, ClaimTransport.text, transportText],
            trivial⟩
  | relay kind domain ip port transport scope =>
      have hlower := toLower_of_validHostname domain
      have hcolon := colon_not_mem_of_validHostname domain
      cases scope with
      | inl hs =>
          exact ⟨.hostname c.domain, by simp [resource, kind, hs],
            by
              unfold Resource.key
              simp [claimKey, kind, hs, hlower], hcolon⟩
      | inr hs =>
          exact ⟨.subtree c.domain, by simp [resource, kind, hs],
            by
              unfold Resource.key
              simp [claimKey, kind, hs, hlower], hcolon⟩

/-- Different resources have different keys: a plain name after `domain:` is
never `wildcard:` and something. -/
theorem Resource.key_injective {x y : Resource} (hx : x.Plain) (hy : y.Plain)
    (h : x.key = y.key) : x = y := by
  have hl := congrArg String.toList h
  unfold Resource.key at hl
  cases x <;> cases y <;>
    simp only [Relay.claimKey, String.toList_append, List.append_assoc] at hl
  case address.address a b =>
      rw [String.toList_inj.mp (List.append_cancel_left hl)]
  case socket.socket a b =>
      rw [claimKey_injective h]
  case hostname.hostname a b =>
      rw [String.toList_inj.mp (List.append_cancel_left hl)]
  case subtree.subtree a b =>
      rw [String.toList_inj.mp (List.append_cancel_left hl)]
  case hostname.subtree a b =>
      have ha : a.toList = "wildcard:".toList ++ b.toList := by simpa using hl
      exact absurd (ha ▸ by simp) hx
  case subtree.hostname a b =>
      have hb : b.toList = "wildcard:".toList ++ a.toList := by simpa using hl.symm
      exact absurd (hb ▸ by simp) hy
  all_goals simp at hl

/-- Two validated claims have one key exactly when they denote one resource. -/
theorem claimKey_eq_iff {go : Go} {c d : Claim} (hc : c.Valid go) (hd : d.Valid go) :
    claimKey go c = claimKey go d ↔ resource c = resource d := by
  obtain ⟨x, hx, hkx, hpx⟩ := resource_of_valid hc
  obtain ⟨y, hy, hky, hpy⟩ := resource_of_valid hd
  rw [hx, hy, hkx, hky, Option.some_inj]
  constructor
  · exact Resource.key_injective hpx hpy
  · intro h
    rw [h]

/-! ## the table of tunnels -/

/-- A control connection with the claim of its hello. -/
structure Tunnel where
  id : Nat
  claim : Claim
  subscriptionID : String
deriving DecidableEq

/-- The relay's `tunnels`, as `Relay.Registry` keeps them.  `handleControl` validates
a claim before it registers the tunnel, and the key is the claim's. -/
structure Tunnels (go : Go) where
  tunnels : String → Option Tunnel
  keyed : ∀ key t, tunnels key = some t → t.claim.Valid go ∧ claimKey go t.claim = key

namespace Tunnels

variable {go : Go}

/-- What `handleControl` registers a tunnel with. -/
def session (go : Go) (t : Tunnel) : Registry.Session :=
  ⟨claimKey go t.claim, t.claim.kind, some t.subscriptionID⟩

/-- The tunnels the registry routes to in a run that registers validated claims. -/
def ofRegistry {events : List (Registry.Event Tunnel)} {s : Registry.State Tunnel}
    (hvalid : ∀ t, .register t ∈ events → t.claim.Valid go)
    (hrun : Registry.run (session go) .init events = some s) : Tunnels go where
  tunnels := s.registry.tunnels
  keyed := by
    intro key t ht
    obtain ⟨hkey, before, after, rfl, -⟩ := ((Registry.run_inv hrun).routed key t).mp ht
    exact ⟨hvalid t (by simp), hkey⟩

/-- `getTunnel`. -/
def getTunnel (r : Tunnels go) (key : String) : Option Tunnel := r.tunnels key

/-- `relayTunnelKey`. -/
def relayTunnelKey (r : Tunnels go) (hostname : String) : Option String :=
  let hostname := go.toLower hostname
  let exact := "domain:" ++ hostname
  if (r.getTunnel exact).isSome then some exact
  else
    let wildcard := "domain:wildcard:" ++ hostname
    if (r.getTunnel wildcard).isSome then some wildcard
    else
      -- the loop over `labels[index:]` from index 1
      (searchSuffix (fun ls => (r.getTunnel ("domain:wildcard:" ++ ofLabels ls)).isSome)
        (labels hostname).tail).map fun ls => "domain:wildcard:" ++ ofLabels ls

/-- `forwardToRelay`: the tunnel a stream is opened on and the destination it is
opened with, or `none` where the connection is closed. -/
def forwardToRelay (r : Tunnels go) (hostname port : String) : Option (Tunnel × String) := do
  let key ← r.relayTunnelKey hostname
  let t ← r.getTunnel key
  some (t, "domain:" ++ go.toLower hostname ++ ":" ++ port)

/-- Some tunnel holds a claim on the resource. -/
def Registered (r : Tunnels go) (x : Resource) : Prop :=
  ∃ key t, r.getTunnel key = some t ∧ resource t.claim = some x

/-- In the registry these are the resources of the sessions that were registered
last with their keys and have not left. -/
theorem registered_ofRegistry {events : List (Registry.Event Tunnel)}
    {s : Registry.State Tunnel} (hvalid : ∀ t, .register t ∈ events → t.claim.Valid go)
    (hrun : Registry.run (session go) .init events = some s) (x : Resource) :
    (ofRegistry hvalid hrun).Registered x ↔
      ∃ t, Registry.Latest (session go) events t ∧ resource t.claim = some x := by
  have hrouted := (Registry.run_inv hrun).routed
  constructor
  · intro h
    obtain ⟨key, t, ht, hx⟩ := h
    exact ⟨t, ((hrouted key t).mp ht).2, hx⟩
  · intro h
    obtain ⟨t, hlatest, hx⟩ := h
    exact ⟨(session go t).key, t, (hrouted _ t).mpr ⟨rfl, hlatest⟩, hx⟩

/-- The resource the tunnel under a key holds. -/
def resourceAt (r : Tunnels go) (key : String) : Option Resource :=
  (r.getTunnel key).bind fun t => resource t.claim

/-- A key that leads somewhere leads to the one resource it is the key of. -/
theorem registered_iff (r : Tunnels go) {x : Resource} (hx : x.Plain) :
    r.Registered x ↔ (r.getTunnel x.key).isSome = true := by
  constructor
  · intro h
    obtain ⟨key, t, ht, hres⟩ := h
    obtain ⟨hvalid, hkey⟩ := r.keyed key t ht
    obtain ⟨y, hy, hyk, -⟩ := resource_of_valid hvalid
    rw [hy, Option.some_inj] at hres
    rw [← hres, ← hyk, hkey, ht, Option.isSome_some]
  · intro h
    obtain ⟨t, ht⟩ := Option.isSome_iff_exists.mp h
    obtain ⟨hvalid, hkey⟩ := r.keyed _ t ht
    obtain ⟨y, hy, hyk, hyp⟩ := resource_of_valid hvalid
    have hyx : y = x := Resource.key_injective hyp hx (by rw [← hyk, hkey])
    exact ⟨x.key, t, ht, by rw [hy, hyx]⟩

theorem resourceAt_key (r : Tunnels go) {x : Resource} (hx : x.Plain) (h : r.Registered x) :
    r.resourceAt x.key = some x := by
  obtain ⟨t, ht⟩ := Option.isSome_iff_exists.mp ((registered_iff r hx).mp h)
  obtain ⟨hvalid, hkey⟩ := r.keyed _ t ht
  obtain ⟨y, hy, hyk, hyp⟩ := resource_of_valid hvalid
  have hyx : y = x := Resource.key_injective hyp hx (by rw [← hyk, hkey])
  rw [resourceAt, ht, Option.bind_some, hy, hyx]

/-- A registered resource is plain. -/
theorem Registered.plain {r : Tunnels go} {x : Resource} (h : r.Registered x) : x.Plain := by
  obtain ⟨key, t, ht, hres⟩ := h
  obtain ⟨y, hy, -, hyp⟩ := resource_of_valid (r.keyed key t ht).1
  rw [hy, Option.some_inj] at hres
  rwa [← hres]

/-! ## the search -/

/-- Which of the registered resources a host name belongs to: the name itself,
else the subtree with the longest base, else none. -/
inductive Selects (registered : Resource → Prop) (host : String) : Option Resource → Prop
  | exact (reg : registered (.hostname host)) : Selects registered host (some (.hostname host))
  | wildcard {base : String} (other : ¬ registered (.hostname host))
      (reg : registered (.subtree base)) (covers : Hostname.Covers base host)
      (longest : ∀ base', registered (.subtree base') → Hostname.Covers base' host →
        (labels base').length ≤ (labels base).length) :
      Selects registered host (some (.subtree base))
  | none (other : ¬ registered (.hostname host))
      (wildcard : ∀ base, registered (.subtree base) → ¬ Hostname.Covers base host) :
      Selects registered host none

/-- The exact check, the check of the name as a base and the loop over its
parents are one search from the whole name. -/
theorem relayTunnelKey_eq (r : Tunnels go) (host : String) (hlower : go.toLower host = host) :
    r.relayTunnelKey host =
      if (r.getTunnel ("domain:" ++ host)).isSome then some ("domain:" ++ host)
      else (searchSuffix (fun ls => (r.getTunnel ("domain:wildcard:" ++ ofLabels ls)).isSome)
        (labels host)).map fun ls => "domain:wildcard:" ++ ofLabels ls := by
  rw [relayTunnelKey, hlower]
  cases hls : labels host with
  | nil => exact absurd hls (labels_ne_nil host)
  | cons l ls =>
      have hhost : ofLabels (l :: ls) = host := by rw [← hls, ofLabels_labels]
      rw [searchSuffix, hhost, List.tail_cons]
      by_cases hexact : (r.getTunnel ("domain:" ++ host)).isSome = true
      · rw [if_pos hexact, if_pos hexact]
      · rw [if_neg hexact, if_neg hexact]
        by_cases hself : (r.getTunnel ("domain:wildcard:" ++ host)).isSome = true
        · rw [if_pos hself, if_pos hself, Option.map_some, hhost]
        · rw [if_neg hself, if_neg hself]

/-- The search finds the registered subtree with the longest base. -/
theorem relayTunnelKey_selects (r : Tunnels go) {host : String}
    (hv : validHostname go host = true) :
    Selects r.Registered host ((r.relayTunnelKey host).bind r.resourceAt) := by
  have hplain : (Resource.hostname host).Plain := colon_not_mem_of_validHostname hv
  rw [relayTunnelKey_eq r host (toLower_of_validHostname hv)]
  by_cases hexact : r.Registered (.hostname host)
  · have hkey : (r.getTunnel ("domain:" ++ host)).isSome = true :=
      (registered_iff r hplain).mp hexact
    have hat : r.resourceAt ("domain:" ++ host) = some (.hostname host) :=
      resourceAt_key r hplain hexact
    rw [if_pos hkey, Option.bind_some, hat]
    exact .exact hexact
  · have hkey : ¬ (r.getTunnel ("domain:" ++ host)).isSome = true := by
      intro h
      exact hexact ((registered_iff r hplain).mpr h)
    rw [if_neg hkey]
    -- a base that covers the host is one of the suffixes the search visits
    have hvisited : ∀ base, r.Registered (.subtree base) → Hostname.Covers base host →
        (r.getTunnel ("domain:wildcard:" ++ ofLabels (labels base))).isSome = true := by
      intro base hreg _
      rw [ofLabels_labels]
      exact (registered_iff r hreg.plain).mp hreg
    have hspec := searchSuffix_spec
      (fun ls => (r.getTunnel ("domain:wildcard:" ++ ofLabels ls)).isSome) (labels host)
    cases hsearch : searchSuffix
        (fun ls => (r.getTunnel ("domain:wildcard:" ++ ofLabels ls)).isSome) (labels host) with
    | some ls =>
        rw [hsearch] at hspec
        obtain ⟨hsuffix, hne, hfound, hmax⟩ := hspec
        have hlabels := labels_ofLabels_suffix hne hsuffix
        have hcovers : Hostname.Covers (ofLabels ls) host := by
          rw [Hostname.Covers, hlabels]
          exact hsuffix
        have hbase : (Resource.subtree (ofLabels ls)).Plain := by
          intro hcolon
          exact hplain (mem_of_covers hcovers hcolon)
        have hreg : r.Registered (.subtree (ofLabels ls)) := (registered_iff r hbase).mpr hfound
        have hat : r.resourceAt ("domain:wildcard:" ++ ofLabels ls) =
            some (.subtree (ofLabels ls)) := resourceAt_key r hbase hreg
        rw [Option.map_some, Option.bind_some, hat]
        refine .wildcard hexact hreg hcovers ?_
        intro base' hreg' hcovers'
        rw [hlabels]
        exact (hmax _ hcovers' (labels_ne_nil base') (hvisited base' hreg' hcovers')).length_le
    | none =>
        rw [hsearch] at hspec
        refine .none hexact ?_
        intro base hreg hcovers
        have := hspec _ hcovers (labels_ne_nil base)
        rw [hvisited base hreg hcovers] at this
        cases this

/-- A key the search returns leads to a tunnel. -/
theorem getTunnel_of_relayTunnelKey (r : Tunnels go) {host key : String}
    (hlower : go.toLower host = host) (h : r.relayTunnelKey host = some key) :
    ∃ t, r.getTunnel key = some t := by
  rw [relayTunnelKey_eq r host hlower] at h
  split at h
  · rename_i hsome
    rw [← Option.some_inj.mp h]
    exact Option.isSome_iff_exists.mp hsome
  · obtain ⟨ls, hls, hkey⟩ := Option.map_eq_some_iff.mp h
    have hspec := searchSuffix_spec
      (fun ls => (r.getTunnel ("domain:wildcard:" ++ ofLabels ls)).isSome) (labels host)
    rw [hls] at hspec
    rw [← hkey]
    exact Option.isSome_iff_exists.mp hspec.2.2.1

end Tunnels

/-! ## the agent -/

/-- `strings.CutPrefix`. -/
def cutPrefix (s front : String) : Option String :=
  if front.toList <+: s.toList then some (String.ofList (s.toList.drop front.toList.length))
  else none

/-- `strings.Cut` at a one-character separator: what is before the first one, and
what is after it. -/
def cut (s : String) (sep : Char) : Option (String × String) :=
  match s.toList.dropWhile (· ≠ sep) with
  | [] => none
  | _ :: rest => some (String.ofList (s.toList.takeWhile (· ≠ sep)), String.ofList rest)

/-- `strings.HasSuffix`. -/
def hasSuffix (s back : String) : Bool := back.toList.isSuffixOf s.toList

/-- `relayDestinationAllowed`. -/
def relayDestinationAllowed (go : Go) (destination : String) (claim : Claim) (port : String) :
    Bool :=
  match cutPrefix destination "domain:" with
  | none => false
  | some rest =>
      match cut rest ':' with
      | none => false
      | some (host, receivedPort) =>
          if receivedPort ≠ port ∨ ':' ∈ host.toList ∨ host ≠ go.toLower host ∨
              validateClaim go (some { kind := .relay, domain := host }) ≠ .ok () then false
          else if claim.scope = .wildcard then
            host == claim.domain || hasSuffix host ("." ++ claim.domain)
          else host == claim.domain

/-- `selectTCPUpstream`. -/
def selectTCPUpstream (go : Go) (destination : String) (claim : Option Claim)
    (upstream httpChallengeUpstream : String) : Except String String :=
  match claim with
  | none => .ok upstream
  | some c =>
      if c.kind ≠ .relay then .ok upstream
      else if relayDestinationAllowed go destination c "443" = false ∧
          relayDestinationAllowed go destination c "80" = false then
        .error "destination is outside the claimed Blindport Relay ports"
      else if relayDestinationAllowed go destination c "443" then .ok upstream
      else if relayDestinationAllowed go destination c "80" then
        if httpChallengeUpstream = "" then .error "HTTP challenge upstream is disabled"
        else .ok httpChallengeUpstream
      else .error "destination is outside the claimed Blindport Relay ports"

theorem cutPrefix_eq_some {s front rest : String} :
    cutPrefix s front = some rest ↔ s = front ++ rest := by
  rw [cutPrefix]
  constructor
  · intro h
    split at h
    · rename_i hfront
      obtain ⟨back, hback⟩ := hfront
      rw [Option.some_inj, ← hback, List.drop_left] at h
      rw [← String.toList_inj, String.toList_append, ← hback, ← h, String.toList_ofList]
    · cases h
  · intro h
    rw [h, String.toList_append, if_pos (List.prefix_append _ _), List.drop_left,
      String.ofList_toList]

theorem cut_eq_some {s before after : String} {sep : Char} :
    cut s sep = some (before, after) ↔
      s.toList = before.toList ++ sep :: after.toList ∧ sep ∉ before.toList := by
  constructor
  · intro h
    rw [cut] at h
    split at h
    · cases h
    · rename_i x rest hdrop
      obtain ⟨rfl, rfl⟩ := Prod.mk.injEq .. ▸ Option.some_inj.mp h
      have hx : x = sep := by
        have := List.head?_dropWhile_not (· ≠ sep) s.toList
        rw [hdrop] at this
        simpa using this
      subst hx
      rw [String.toList_ofList, String.toList_ofList, ← hdrop]
      refine ⟨List.takeWhile_append_dropWhile.symm, ?_⟩
      intro hmem
      have := List.mem_takeWhile_imp hmem
      simp at this
  · intro h
    obtain ⟨hs, hsep⟩ := h
    have hall : ∀ c ∈ before.toList, (decide (c ≠ sep)) = true := by
      intro c hc
      rw [decide_eq_true_eq]
      intro e
      exact hsep (e ▸ hc)
    rw [cut, hs, List.dropWhile_append_of_pos hall, List.takeWhile_append_of_pos hall]
    simp

/-- What the agent takes: a destination that names the port and a valid host
name which is the claimed one or, for a wildcard, below it. -/
theorem relayDestinationAllowed_iff {go : Go} {destination port : String} {claim : Claim} :
    relayDestinationAllowed go destination claim port = true ↔
      ∃ host, destination = "domain:" ++ host ++ ":" ++ port ∧ validHostname go host = true ∧
        if claim.scope = .wildcard then Hostname.Covers claim.domain host
        else host = claim.domain := by
  have hscope : ∀ host : String,
      (if claim.scope = .wildcard then
        host == claim.domain || hasSuffix host ("." ++ claim.domain)
      else host == claim.domain) = true ↔
        if claim.scope = .wildcard then Hostname.Covers claim.domain host
        else host = claim.domain := by
    intro host
    split
    · rw [covers_iff, Bool.or_eq_true, beq_iff_eq, hasSuffix, List.isSuffixOf_iff_suffix]
      simp
    · exact beq_iff_eq
  constructor
  · intro h
    unfold relayDestinationAllowed at h
    split at h
    · cases h
    · rename_i rest hrest
      split at h
      · cases h
      · rename_i host receivedPort hcut
        split at h
        · cases h
        · rename_i hn
          simp only [not_or, ne_eq, not_not] at hn
          obtain ⟨hport, -, -, hvalid⟩ := hn
          refine ⟨host, ?_, validateClaim_hostname.mp hvalid, (hscope host).mp h⟩
          rw [cutPrefix_eq_some.mp hrest, String.append_assoc, String.append_assoc]
          congr 1
          rw [← String.toList_inj, (cut_eq_some.mp hcut).1, hport]
          simp
  · intro h
    obtain ⟨host, hdest, hvalid, hcovers⟩ := h
    have hcolon := colon_not_mem_of_validHostname hvalid
    have hrest : cutPrefix destination "domain:" = some (host ++ ":" ++ port) := by
      rw [cutPrefix_eq_some, hdest]
      simp only [String.append_assoc]
    have hcut : cut (host ++ ":" ++ port) ':' = some (host, port) := by
      rw [cut_eq_some]
      exact ⟨by simp, hcolon⟩
    unfold relayDestinationAllowed
    rw [hrest]
    simp only [hcut]
    rw [if_neg, hscope host]
    · exact hcovers
    · simp [hcolon, toLower_of_validHostname hvalid, validateClaim_hostname.mpr hvalid]

/-- For a Relay claim the check is the coverage of its resource. -/
theorem relayDestinationAllowed_iff_covers {go : Go} {destination port : String} {claim : Claim}
    (hvalid : claim.Valid go) (hkind : claim.kind = .relay) :
    relayDestinationAllowed go destination claim port = true ↔
      ∃ host x, destination = "domain:" ++ host ++ ":" ++ port ∧ validHostname go host = true ∧
        resource claim = some x ∧ x.Covers host := by
  rw [relayDestinationAllowed_iff]
  apply exists_congr
  intro host
  cases hvalid with
  | ip kind => rw [kind] at hkind; cases hkind
  | port kind => rw [kind] at hkind; cases hkind
  | relay kind domain ip port transport scope =>
      cases scope with
      | inl hs => simp [resource, hkind, hs, Resource.Covers]
      | inr hs => simp [resource, hkind, hs, Resource.Covers]

/-! ## agreement -/

/-- The agent of the tunnel a connection is forwarded on takes its destination,
whatever the port. -/
theorem relayDestinationAllowed_of_forwardToRelay {go : Go} (r : Tunnels go) {host port : String}
    {t : Tunnel} {destination : String} (hv : validHostname go host = true)
    (h : r.forwardToRelay host port = some (t, destination)) :
    relayDestinationAllowed go destination t.claim port = true := by
  have hlower := toLower_of_validHostname hv
  simp only [Tunnels.forwardToRelay, hlower, Option.bind_eq_bind, Option.bind_eq_some_iff] at h
  obtain ⟨key, hkey, t', ht', h⟩ := h
  obtain ⟨rfl, rfl⟩ := Prod.mk.injEq .. ▸ Option.some_inj.mp h
  obtain ⟨hvalid, -⟩ := r.keyed key t' ht'
  have hsel := r.relayTunnelKey_selects hv
  rw [hkey, Option.bind_some, Tunnels.resourceAt, ht', Option.bind_some] at hsel
  obtain ⟨x, hx, -, -⟩ := resource_of_valid hvalid
  rw [hx] at hsel
  have hcovers : x.Covers host := by
    cases hsel with
    | exact => rfl
    | wildcard _ _ hcovers _ => exact hcovers
  have hkind : t'.claim.kind = .relay := kind_of_covers hx hcovers
  exact (relayDestinationAllowed_iff_covers hvalid hkind).mpr ⟨host, x, rfl, hv, hx, hcovers⟩

/-- A TLS connection reaches the upstream of the agent it is forwarded to. -/
theorem selectTCPUpstream_of_forwardToRelay {go : Go} (r : Tunnels go) {host : String}
    {t : Tunnel} {destination : String} (hv : validHostname go host = true)
    (h : r.forwardToRelay host "443" = some (t, destination))
    (upstream httpChallengeUpstream : String) :
    selectTCPUpstream go destination (some t.claim) upstream httpChallengeUpstream =
      .ok upstream := by
  have hallowed := relayDestinationAllowed_of_forwardToRelay r hv h
  rw [selectTCPUpstream, hallowed]
  split
  · rfl
  · simp

/-- A Relay agent opens no upstream connection for a host name outside its
claim. -/
theorem covers_of_selectTCPUpstream {go : Go} {destination upstream challenge selected : String}
    {claim : Claim} (hvalid : claim.Valid go) (hkind : claim.kind = .relay)
    (h : selectTCPUpstream go destination (some claim) upstream challenge = .ok selected) :
    ∃ host x port, destination = "domain:" ++ host ++ ":" ++ port ∧
      resource claim = some x ∧ x.Covers host := by
  have hport : ∃ port, relayDestinationAllowed go destination claim port = true := by
    by_cases htls : relayDestinationAllowed go destination claim "443" = true
    · exact ⟨"443", htls⟩
    · by_cases hhttp : relayDestinationAllowed go destination claim "80" = true
      · exact ⟨"80", hhttp⟩
      · rw [Bool.not_eq_true] at htls hhttp
        simp [selectTCPUpstream, hkind, htls, hhttp] at h
  obtain ⟨port, hallowed⟩ := hport
  obtain ⟨host, x, hdest, -, hx, hcovers⟩ :=
    (relayDestinationAllowed_iff_covers hvalid hkind).mp hallowed
  exact ⟨host, x, port, hdest, hx, hcovers⟩

/-- **SNI routing agrees at both ends.**  Over every table of registered tunnels:
for a valid host name `relayTunnelKey` finds the tunnel that holds the name, else
the wildcard with the longest base among the name and its parents, else none; the
agent of that tunnel takes the destination it is sent.  Two validated claims
share a key only if they denote one resource, and an agent takes no destination
whose host name its claim does not cover. -/
theorem sni_routing_agrees (go : Go) (r : Tunnels go) :
    (∀ host, validHostname go host = true →
      Tunnels.Selects r.Registered host ((r.relayTunnelKey host).bind r.resourceAt) ∧
      ∀ key, r.relayTunnelKey host = some key → ∃ t, r.getTunnel key = some t ∧ ∀ port,
        r.forwardToRelay host port = some (t, "domain:" ++ host ++ ":" ++ port) ∧
        relayDestinationAllowed go ("domain:" ++ host ++ ":" ++ port) t.claim port = true) ∧
    (∀ c d, validateClaim go (some c) = .ok () → validateClaim go (some d) = .ok () →
      claimKey go c = claimKey go d → ∃ x, resource c = some x ∧ resource d = some x) ∧
    (∀ c, validateClaim go (some c) = .ok () → c.kind = .relay → ∀ destination port,
      relayDestinationAllowed go destination c port = true →
        ∃ host x, destination = "domain:" ++ host ++ ":" ++ port ∧ ':' ∉ host.toList ∧
          resource c = some x ∧ x.Covers host) := by
  refine ⟨?_, ?_, ?_⟩
  · intro host hv
    have hlower := toLower_of_validHostname hv
    refine ⟨r.relayTunnelKey_selects hv, ?_⟩
    intro key hkey
    obtain ⟨t, ht⟩ := r.getTunnel_of_relayTunnelKey hlower hkey
    refine ⟨t, ht, ?_⟩
    intro port
    have hforward : r.forwardToRelay host port =
        some (t, "domain:" ++ host ++ ":" ++ port) := by
      simp [Tunnels.forwardToRelay, hkey, ht, hlower]
    exact ⟨hforward, relayDestinationAllowed_of_forwardToRelay r hv hforward⟩
  · intro c d hc hd hkey
    rw [validateClaim_ok_iff] at hc hd
    obtain ⟨x, hx, -, -⟩ := resource_of_valid hc
    exact ⟨x, hx, by rw [← (claimKey_eq_iff hc hd).mp hkey, hx]⟩
  · intro c hc hkind destination port hallowed
    rw [validateClaim_ok_iff] at hc
    obtain ⟨host, x, hdest, hv, hx, hcovers⟩ :=
      (relayDestinationAllowed_iff_covers hc hkind).mp hallowed
    exact ⟨host, x, hdest, colon_not_mem_of_validHostname hv, hx, hcovers⟩

end Relay.Routing
