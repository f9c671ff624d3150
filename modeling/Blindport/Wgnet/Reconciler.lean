import Mathlib.Data.List.Dedup
import Mathlib.Logic.Function.Basic
import Blindport.Wgnet.State

/-!
# Blindport.Wgnet.Reconciler

`internal/wgnet/state.go`, the effect half: the `Dataplane` interface and the
`Reconciler` that installs validated snapshots in a revocation-safe order.

The dataplane is what the kernel holds: the peer set, the forwarding policy and
one route per prefix, with the log of operations issued.  Every operation may
fail, and a failed operation may still have changed the plane: `Outcome` and
`PeersOutcome` say what each call does, so a run quantifies over all of them.
-/

namespace Wgnet

/-! ## the dataplane -/

/-- What the relay has installed for one prefix. -/
inductive Route where
  | absent
  | blackholed
  | activated
deriving DecidableEq

/-- The operations of the `Dataplane` interface. -/
inductive DataplaneOp where
  | applyRoutedPolicy (activePrefixes smtpAllowedPrefixes : List String)
  | replacePeers (peers : List Peer)
  | activateRoute (route : String)
  | blackholeRoute (route : String)
deriving DecidableEq

/-- The kernel plane behind a `Dataplane`. -/
structure Dataplane where
  peers : List Peer
  policy : List String × List String
  routes : String → Route
  log : List DataplaneOp

/-- The outcome of a policy or route operation.  A failed one may still have
taken effect. -/
inductive Outcome where
  | ok
  | failed (effective : Bool)
deriving DecidableEq

/-- The outcome of `ReplacePeers`.  A failed one leaves some peer set. -/
inductive PeersOutcome where
  | ok
  | failed (residual : List Peer)
deriving DecidableEq

/-- Whether the operation changed the plane. -/
def Outcome.tookEffect : Outcome → Bool
  | .ok => true
  | .failed effective => effective

/-- The peers on the device after `ReplacePeers peers`. -/
def PeersOutcome.left (o : PeersOutcome) (peers : List Peer) : List Peer :=
  match o with
  | .ok => peers
  | .failed residual => residual

namespace Dataplane

/-- `ReplacePeers`: reconcile exactly this peer set on the device. -/
def replacePeers (d : Dataplane) (o : PeersOutcome) (peers : List Peer) : Dataplane :=
  { d with peers := o.left peers, log := d.log ++ [.replacePeers peers] }

/-- `ApplyRoutedPolicy`: atomically replace the managed forwarding policy. -/
def applyRoutedPolicy (d : Dataplane) (o : Outcome) (active smtp : List String) : Dataplane :=
  { d with
    policy := if o.tookEffect then (active, smtp) else d.policy
    log := d.log ++ [.applyRoutedPolicy active smtp] }

/-- `ActivateRoute`: route one managed prefix into the WireGuard device. -/
def activateRoute (d : Dataplane) (o : Outcome) (p : String) : Dataplane :=
  { d with
    routes := if o.tookEffect then Function.update d.routes p .activated else d.routes
    log := d.log ++ [.activateRoute p] }

/-- `BlackholeRoute`: drop one managed prefix at the relay. -/
def blackholeRoute (d : Dataplane) (o : Outcome) (p : String) : Dataplane :=
  { d with
    routes := if o.tookEffect then Function.update d.routes p .blackholed else d.routes
    log := d.log ++ [.blackholeRoute p] }

@[simp] theorem replacePeers_peers (d : Dataplane) (o : PeersOutcome) (ps : List Peer) :
    (d.replacePeers o ps).peers = o.left ps := rfl

@[simp] theorem replacePeers_routes (d : Dataplane) (o : PeersOutcome) (ps : List Peer) :
    (d.replacePeers o ps).routes = d.routes := rfl

@[simp] theorem applyRoutedPolicy_peers (d : Dataplane) (o : Outcome) (a s : List String) :
    (d.applyRoutedPolicy o a s).peers = d.peers := rfl

@[simp] theorem applyRoutedPolicy_routes (d : Dataplane) (o : Outcome) (a s : List String) :
    (d.applyRoutedPolicy o a s).routes = d.routes := rfl

@[simp] theorem activateRoute_peers (d : Dataplane) (o : Outcome) (p : String) :
    (d.activateRoute o p).peers = d.peers := rfl

@[simp] theorem blackholeRoute_peers (d : Dataplane) (o : Outcome) (p : String) :
    (d.blackholeRoute o p).peers = d.peers := rfl

theorem activateRoute_routes (d : Dataplane) (o : Outcome) (p q : String) :
    (d.activateRoute o p).routes q =
      if o.tookEffect ∧ q = p then .activated else d.routes q := by
  by_cases ho : o.tookEffect = true <;> by_cases hq : q = p <;>
    simp [activateRoute, ho, hq, Function.update]

theorem blackholeRoute_routes (d : Dataplane) (o : Outcome) (p q : String) :
    (d.blackholeRoute o p).routes q =
      if o.tookEffect ∧ q = p then .blackholed else d.routes q := by
  by_cases ho : o.tookEffect = true <;> by_cases hq : q = p <;>
    simp [blackholeRoute, ho, hq, Function.update]

end Dataplane

/-! ## the reconciler -/

/-- The outcomes of the operations of one `failClosed`. -/
structure FailCloseOutcomes where
  removePeers : PeersOutcome
  policy : Outcome
  blackhole : String → Outcome

/-- Every operation of the fail-close succeeds. -/
def FailCloseOutcomes.Succeed (o : FailCloseOutcomes) : Prop :=
  o.removePeers = .ok ∧ o.policy = .ok ∧ ∀ p, o.blackhole p = .ok

/-- The outcomes of the operations of one `Apply`.  Every operation is issued
at most once for one prefix, so the prefix names the call. -/
structure ApplyOutcomes where
  blackhole : String → Outcome
  policy : Outcome
  replacePeers : PeersOutcome
  activate : String → Outcome
  failClose : FailCloseOutcomes

/-- One failed operation of a fail-close. -/
inductive FailCloseError where
  | removePeers
  | policy
  | blackhole (route : String)
deriving DecidableEq

/-- The errors of `Apply`. -/
inductive ApplyError where
  | invalid (error : ValidateError)
  | blackhole (route : String)
  | policy
  | replacePeers (failClose : List FailCloseError)
  | activate (route : String)
deriving DecidableEq

/-- `Reconciler`: the dataplane and the inventory it may have routes for. -/
structure Reconciler where
  dataplane : Dataplane
  managedPrefixes : List String

/-- The revocation loop of `Apply`: blackhole every prefix that is not owned,
stopping at the first failure. -/
def blackholeRevoked (o : ApplyOutcomes) (owned : List String) :
    List String → Dataplane → Dataplane × Option ApplyError
  | [], d => (d, none)
  | p :: ps, d =>
      if p ∈ owned then blackholeRevoked o owned ps d
      else if o.blackhole p = .ok then
        blackholeRevoked o owned ps (d.blackholeRoute (o.blackhole p) p)
      else (d.blackholeRoute (o.blackhole p) p, some (.blackhole p))

/-- The activation loop of `Apply`: activate every owned prefix, stopping at
the first failure. -/
def activateOwned (o : ApplyOutcomes) (owned : List String) :
    List String → Dataplane → Dataplane × Option ApplyError
  | [], d => (d, none)
  | p :: ps, d =>
      if p ∉ owned then activateOwned o owned ps d
      else if o.activate p = .ok then
        activateOwned o owned ps (d.activateRoute (o.activate p) p)
      else (d.activateRoute (o.activate p) p, some (.activate p))

/-- The route loop of `failClosed`: every prefix is attempted. -/
def blackholeAll (o : FailCloseOutcomes) :
    List String → Dataplane → Dataplane × List FailCloseError
  | [], d => (d, [])
  | p :: ps, d =>
      let rest := blackholeAll o ps (d.blackholeRoute (o.blackhole p) p)
      (rest.1, if o.blackhole p = .ok then rest.2 else .blackhole p :: rest.2)

/-- `failClosed`: remove every peer, empty the policy and blackhole `prefixes`.
Peer removal blocks both directions at once; the other layers are attempted
also when it fails. -/
def failClosed (d : Dataplane) (o : FailCloseOutcomes) (prefixes : List String) :
    Dataplane × List FailCloseError :=
  let d := d.replacePeers o.removePeers []
  let d := d.applyRoutedPolicy o.policy [] []
  let routes := blackholeAll o prefixes d
  (routes.1,
    (if o.removePeers = .ok then [] else [.removePeers]) ++
      (if o.policy = .ok then [] else [.policy]) ++ routes.2)

namespace Reconciler

/-- The union of the snapshot's inventory and the one retained from earlier
snapshots, sorted. -/
def possiblyRevoked (r : Reconciler) (s : DesiredState) : List String :=
  sortStrings (s.managedPrefixes ++ r.managedPrefixes).dedup

@[simp] theorem mem_possiblyRevoked {r : Reconciler} {s : DesiredState} {p : String} :
    p ∈ r.possiblyRevoked s ↔ p ∈ s.managedPrefixes ∨ p ∈ r.managedPrefixes := by
  simp [possiblyRevoked]

/-- The snapshot's peers in key order. -/
def sortPeers (peers : List Peer) : List Peer :=
  peers.insertionSort fun x y => x.publicKey ≤ y.publicKey

/-- `Apply` validates and idempotently installs one complete snapshot.  The
inventory is the union from the first operation on, so that a later fail-close
also covers what a partially applied snapshot introduced; only a complete
`Apply` narrows it to the snapshot's own. -/
def apply (r : Reconciler) (s : DesiredState) (o : ApplyOutcomes) :
    Reconciler × Option ApplyError :=
  match s.validate with
  | .error e => (r, some (.invalid e))
  | .ok () =>
      let union := r.possiblyRevoked s
      match blackholeRevoked o s.owned union r.dataplane with
      | (d, some e) => (⟨d, union⟩, some e)
      | (d, none) =>
          let d := d.applyRoutedPolicy o.policy s.activePrefixes (sortStrings s.smtpAllowedPrefixes)
          if o.policy ≠ .ok then (⟨d, union⟩, some .policy)
          else
            let d := d.replacePeers o.replacePeers (sortPeers s.peers)
            if o.replacePeers ≠ .ok then
              let closed := Wgnet.failClosed d o.failClose union
              (⟨closed.1, union⟩, some (.replacePeers closed.2))
            else
              let managed := sortStrings s.managedPrefixes
              match activateOwned o s.owned managed d with
              | (d, some e) => (⟨d, union⟩, some e)
              | (d, none) => (⟨d, managed⟩, none)

/-- `FailClosed` removes every peer and blackholes all managed inventory. -/
def failClosed (r : Reconciler) (o : FailCloseOutcomes) : Reconciler × List FailCloseError :=
  let closed := Wgnet.failClosed r.dataplane o r.managedPrefixes
  (⟨closed.1, r.managedPrefixes⟩, closed.2)

end Reconciler

/-! ## what the loops do -/

/-- `d'` differs from `d` at most by blackholing prefixes. -/
structure Dataplane.Blackholes (d d' : Dataplane) : Prop where
  peers : d'.peers = d.peers
  route : ∀ q, d'.routes q = d.routes q ∨ d'.routes q = .blackholed

namespace Dataplane.Blackholes

theorem refl (d : Dataplane) : Blackholes d d := ⟨rfl, fun _ => .inl rfl⟩

theorem trans {d₁ d₂ d₃ : Dataplane} (h₁ : Blackholes d₁ d₂) (h₂ : Blackholes d₂ d₃) :
    Blackholes d₁ d₃ where
  peers := h₂.peers.trans h₁.peers
  route q := by
    rcases h₂.route q with h | h
    · rcases h₁.route q with h' | h'
      · exact .inl (h.trans h')
      · exact .inr (h.trans h')
    · exact .inr h

theorem blackholeRoute (d : Dataplane) (o : Outcome) (p : String) :
    Blackholes d (d.blackholeRoute o p) where
  peers := rfl
  route q := by
    rw [blackholeRoute_routes]
    split
    · exact .inr rfl
    · exact .inl rfl

/-- Blackholing activates nothing. -/
theorem not_activated {d d' : Dataplane} (h : Blackholes d d') (hq : d.routes q ≠ .activated) :
    d'.routes q ≠ .activated := by
  rcases h.route q with e | e <;> simp [e, hq]

/-- A blackholed prefix stays so. -/
theorem blackholed {d d' : Dataplane} (h : Blackholes d d') (hq : d.routes q = .blackholed) :
    d'.routes q = .blackholed := by
  rcases h.route q with e | e
  · rw [e, hq]
  · exact e

end Dataplane.Blackholes

theorem blackholeRevoked_blackholes (o : ApplyOutcomes) (owned ps : List String) (d : Dataplane) :
    d.Blackholes (blackholeRevoked o owned ps d).1 := by
  fun_induction blackholeRevoked o owned ps d with
  | case1 d => exact .refl d
  | case2 p ps d hp ih => exact ih
  | case3 p ps d hp ho ih => exact (Dataplane.Blackholes.blackholeRoute d _ p).trans ih
  | case4 p ps d hp ho => exact .blackholeRoute d _ p

/-- The revocation loop ends without an error when every operation it issues
succeeds. -/
theorem blackholeRevoked_eq_none_iff (o : ApplyOutcomes) (owned ps : List String) (d : Dataplane) :
    (blackholeRevoked o owned ps d).2 = none ↔ ∀ p ∈ ps, p ∉ owned → o.blackhole p = .ok := by
  fun_induction blackholeRevoked o owned ps d with
  | case1 d => simp
  | case2 p ps d hp ih => simp [ih, hp]
  | case3 p ps d hp ho ih => rw [ih]; simp [ho]
  | case4 p ps d hp ho => simp [hp, ho]

theorem blackholeRevoked_route_of_notMem (o : ApplyOutcomes) (owned ps : List String)
    (d : Dataplane) (hp : p ∉ ps) : (blackholeRevoked o owned ps d).1.routes p = d.routes p := by
  fun_induction blackholeRevoked o owned ps d with
  | case1 d => rfl
  | case2 r ps d hr ih => exact ih (List.not_mem_of_not_mem_cons hp)
  | case3 r ps d hr ho ih =>
      rw [ih (List.not_mem_of_not_mem_cons hp), Dataplane.blackholeRoute_routes]
      simp [List.ne_of_not_mem_cons hp]
  | case4 r ps d hr ho =>
      rw [Dataplane.blackholeRoute_routes]
      simp [List.ne_of_not_mem_cons hp]

theorem first_of_pairwise_lt {p : String} {ps : List String} (hs : (p :: ps).Pairwise (· < ·)) :
    ∀ q ∈ p :: ps, ¬ q < p := by
  intro q hq hlt
  rcases List.mem_cons.mp hq with rfl | hmem
  · exact lt_irrefl q hlt
  · exact lt_asymm hlt (List.rel_of_pairwise_cons hs hmem)

/-- What the revocation loop leaves blackholed: what was so before, and each
prefix whose operation took effect after operations that all succeeded. -/
theorem blackholeRevoked_blackholed_iff (o : ApplyOutcomes) (owned ps : List String)
    (d : Dataplane) (hs : ps.Pairwise (· < ·)) (hp : p ∈ ps) :
    (blackholeRevoked o owned ps d).1.routes p = .blackholed ↔
      d.routes p = .blackholed ∨ (p ∉ owned ∧ (o.blackhole p).tookEffect ∧
        ∀ q ∈ ps, q < p → q ∉ owned → o.blackhole q = .ok) := by
  fun_induction blackholeRevoked o owned ps d with
  | case1 d => simp at hp
  | case2 r ps d hr ih =>
      rcases List.mem_cons.mp hp with rfl | hmem
      · have hnot : p ∉ ps := fun h => (List.rel_of_pairwise_cons hs h).false
        rw [blackholeRevoked_route_of_notMem o owned ps d hnot]
        simp [hr]
      · rw [ih hs.of_cons hmem]
        simp [hr]
  | case3 r ps d hr ho ih =>
      rcases List.mem_cons.mp hp with rfl | hmem
      · have hnot : p ∉ ps := fun h => (List.rel_of_pairwise_cons hs h).false
        have hfirst : ∀ q ∈ p :: ps, ¬ q < p := first_of_pairwise_lt hs
        rw [blackholeRevoked_route_of_notMem o owned ps _ hnot, Dataplane.blackholeRoute_routes]
        grind [Outcome.tookEffect]
      · have hne : p ≠ r := (List.rel_of_pairwise_cons hs hmem).ne'
        rw [ih hs.of_cons hmem, Dataplane.blackholeRoute_routes]
        grind
  | case4 r ps d hr ho =>
      rw [Dataplane.blackholeRoute_routes]
      rcases List.mem_cons.mp hp with rfl | hmem
      · have hfirst : ∀ q ∈ p :: ps, ¬ q < p := first_of_pairwise_lt hs
        grind
      · -- the operation on `r` failed, so the loop ends before `p`
        have hlt : r < p := List.rel_of_pairwise_cons hs hmem
        have hne : p ≠ r := hlt.ne'
        grind

/-- What the route loop of a fail-close leaves. -/
theorem blackholeAll_routes (o : FailCloseOutcomes) (ps : List String) (d : Dataplane)
    (p : String) :
    (blackholeAll o ps d).1.routes p =
      if p ∈ ps ∧ (o.blackhole p).tookEffect then .blackholed else d.routes p := by
  induction ps generalizing d with
  | nil => simp [blackholeAll]
  | cons q ps ih =>
      simp only [blackholeAll, ih, Dataplane.blackholeRoute_routes]
      by_cases hq : p = q
      · subst hq
        by_cases heff : (o.blackhole p).tookEffect = true <;> simp [heff]
      · simp [hq]

@[simp] theorem blackholeAll_peers (o : FailCloseOutcomes) (ps : List String) (d : Dataplane) :
    (blackholeAll o ps d).1.peers = d.peers := by
  induction ps generalizing d with
  | nil => rfl
  | cons q ps ih => simp [blackholeAll, ih]

theorem blackholeAll_errors (o : FailCloseOutcomes) (ps : List String) (d : Dataplane) :
    (blackholeAll o ps d).2 = [] ↔ ∀ p ∈ ps, o.blackhole p = .ok := by
  induction ps generalizing d with
  | nil => simp [blackholeAll]
  | cons q ps ih =>
      simp only [blackholeAll, List.forall_mem_cons]
      split
      · simp_all
      · simp_all

/-- The activation loop changes only the routes of owned prefixes it walks. -/
theorem activateOwned_route (o : ApplyOutcomes) (owned ps : List String) (d : Dataplane)
    (q : String) :
    (activateOwned o owned ps d).1.routes q = d.routes q ∨ (q ∈ ps ∧ q ∈ owned) := by
  fun_induction activateOwned o owned ps d with
  | case1 d => exact .inl rfl
  | case2 p ps d hp ih =>
      rcases ih with h | ⟨h, h'⟩
      · exact .inl h
      · exact .inr ⟨List.mem_cons_of_mem p h, h'⟩
  | case3 p ps d hp ho ih =>
      rcases ih with h | ⟨h, h'⟩
      · by_cases hq : q = p
        · subst hq; exact .inr ⟨List.mem_cons_self, not_not.mp hp⟩
        · exact .inl (by rw [h, Dataplane.activateRoute_routes]; simp [hq])
      · exact .inr ⟨List.mem_cons_of_mem p h, h'⟩
  | case4 p ps d hp ho =>
      by_cases hq : q = p
      · subst hq; exact .inr ⟨List.mem_cons_self, not_not.mp hp⟩
      · exact .inl (by rw [Dataplane.activateRoute_routes]; simp [hq])

@[simp] theorem activateOwned_peers (o : ApplyOutcomes) (owned ps : List String) (d : Dataplane) :
    (activateOwned o owned ps d).1.peers = d.peers := by
  fun_induction activateOwned o owned ps d <;> simp_all

theorem activateOwned_eq_none_iff (o : ApplyOutcomes) (owned ps : List String) (d : Dataplane) :
    (activateOwned o owned ps d).2 = none ↔ ∀ p ∈ ps, p ∈ owned → o.activate p = .ok := by
  fun_induction activateOwned o owned ps d with
  | case1 d => simp
  | case2 p ps d hp ih => simp [ih, hp]
  | case3 p ps d hp ho ih => rw [ih]; simp [ho]
  | case4 p ps d hp ho => simp [not_not.mp hp, ho]

/-! ## closed planes -/

namespace Reconciler

/-- The plane is closed: no peer, no active route, and every prefix of the
inventory blackholed. -/
structure Closed (r : Reconciler) : Prop where
  peers : r.dataplane.peers = []
  route : ∀ p, r.dataplane.routes p ≠ .activated
  blackholed : ∀ p ∈ r.managedPrefixes, r.dataplane.routes p = .blackholed

/-- The inventory covers every active route. -/
def Covered (r : Reconciler) : Prop :=
  ∀ p, r.dataplane.routes p = .activated → p ∈ r.managedPrefixes

theorem possiblyRevoked_pairwise (r : Reconciler) (s : DesiredState) :
    (r.possiblyRevoked s).Pairwise (· < ·) := by
  have hnodup : (r.possiblyRevoked s).Nodup := by
    rw [possiblyRevoked, (perm_sortStrings _).nodup_iff]
    exact List.nodup_dedup _
  have hsorted : (r.possiblyRevoked s).Pairwise (· ≤ ·) := List.pairwise_insertionSort _ _
  exact (hsorted.and hnodup).imp fun h => lt_of_le_of_ne h.1 h.2

theorem failClosed_routes (r : Reconciler) (o : FailCloseOutcomes) (p : String) :
    (r.failClosed o).1.dataplane.routes p =
      if p ∈ r.managedPrefixes ∧ (o.blackhole p).tookEffect then .blackholed
      else r.dataplane.routes p := by
  simp [failClosed, Wgnet.failClosed, blackholeAll_routes]

theorem failClosed_covered {r : Reconciler} (h : r.Covered) (o : FailCloseOutcomes) :
    (r.failClosed o).1.Covered := by
  intro p hp
  rw [failClosed_routes] at hp
  split at hp
  · contradiction
  · exact h p hp

/-- A fail-close without an error closes the plane. -/
theorem failClosed_closed {r : Reconciler} (h : r.Covered) {o : FailCloseOutcomes}
    (ho : (r.failClosed o).2 = []) : (r.failClosed o).1.Closed := by
  simp only [failClosed, Wgnet.failClosed, List.append_eq_nil_iff, ite_eq_left_iff,
    List.cons_ne_nil, imp_false, not_not, blackholeAll_errors] at ho
  obtain ⟨⟨hpeers, -⟩, hroutes⟩ := ho
  have hbh : ∀ p ∈ r.managedPrefixes, (r.failClosed o).1.dataplane.routes p = .blackholed := by
    intro p hp
    rw [failClosed_routes, hroutes p hp]
    simp [hp, Outcome.tookEffect]
  refine ⟨?_, ?_, hbh⟩
  · simp [failClosed, Wgnet.failClosed, hpeers, PeersOutcome.left]
  · intro p hp
    have hmem := failClosed_covered h o p hp
    simp [hbh p hmem] at hp

/-- A fail-close all of whose operations succeed reports no error. -/
theorem failClosed_errors_of_succeed (r : Reconciler) {o : FailCloseOutcomes} (h : o.Succeed) :
    (r.failClosed o).2 = [] := by
  obtain ⟨hpeers, hpolicy, hroutes⟩ := h
  simp [failClosed, Wgnet.failClosed, hpeers, hpolicy, blackholeAll_errors, hroutes]

/-! ## `Apply` -/

/-- Every revocation of `Apply` succeeds. -/
def Revokes (r : Reconciler) (s : DesiredState) (o : ApplyOutcomes) : Prop :=
  ∀ p ∈ r.possiblyRevoked s, p ∉ s.owned → o.blackhole p = .ok

/-- Every operation of `Apply` succeeds. -/
def Completes (r : Reconciler) (s : DesiredState) (o : ApplyOutcomes) : Prop :=
  r.Revokes s o ∧ o.policy = .ok ∧ o.replacePeers = .ok ∧
    ∀ p ∈ s.managedPrefixes, p ∈ s.owned → o.activate p = .ok

/-- The plane after the revocation loop. -/
def revoked (r : Reconciler) (s : DesiredState) (o : ApplyOutcomes) : Dataplane :=
  (blackholeRevoked o s.owned (r.possiblyRevoked s) r.dataplane).1

/-- The plane after the policy and the peers are replaced. -/
def replaced (r : Reconciler) (s : DesiredState) (o : ApplyOutcomes) : Dataplane :=
  ((r.revoked s o).applyRoutedPolicy o.policy s.activePrefixes
    (sortStrings s.smtpAllowedPrefixes)).replacePeers o.replacePeers (sortPeers s.peers)

/-- Everything `Apply` can do with a valid snapshot. -/
theorem apply_cases (r : Reconciler) {s : DesiredState} (o : ApplyOutcomes)
    (hv : s.validate = .ok ()) :
    (¬ (r.Revokes s o ∧ o.policy = .ok) ∧ ∃ d e,
      r.apply s o = (⟨d, r.possiblyRevoked s⟩, some e) ∧
        d.peers = r.dataplane.peers ∧ d.routes = (r.revoked s o).routes) ∨
    ((r.Revokes s o ∧ o.policy = .ok) ∧ o.replacePeers ≠ .ok ∧ ∃ e,
      r.apply s o = (((⟨r.replaced s o, r.possiblyRevoked s⟩ : Reconciler).failClosed
        o.failClose).1, some e)) ∨
    ((r.Revokes s o ∧ o.policy = .ok) ∧ o.replacePeers = .ok ∧ ¬ r.Completes s o ∧ ∃ d e,
      r.apply s o = (⟨d, r.possiblyRevoked s⟩, some e) ∧ d.peers = sortPeers s.peers ∧
        ∀ p, d.routes p = (r.revoked s o).routes p ∨ (p ∈ s.managedPrefixes ∧ p ∈ s.owned)) ∨
    (r.Completes s o ∧ ∃ d,
      r.apply s o = (⟨d, sortStrings s.managedPrefixes⟩, none) ∧ d.peers = sortPeers s.peers ∧
        ∀ p, d.routes p = (r.revoked s o).routes p ∨ (p ∈ s.managedPrefixes ∧ p ∈ s.owned)) := by
  have hloop := blackholeRevoked_eq_none_iff o s.owned (r.possiblyRevoked s) r.dataplane
  have hpeers := (blackholeRevoked_blackholes o s.owned (r.possiblyRevoked s) r.dataplane).peers
  simp only [apply, hv]
  rcases hrev : blackholeRevoked o s.owned (r.possiblyRevoked s) r.dataplane with ⟨d, e⟩
  have hd : r.revoked s o = d := by simp [revoked, hrev]
  rw [hrev] at hloop hpeers
  rw [hd]
  cases e with
  | some e =>
      have hnot : ¬ r.Revokes s o := fun h => by simpa using hloop.mpr h
      exact .inl ⟨fun h => hnot h.1, d, e, rfl, hpeers, rfl⟩
  | none =>
      have hrevokes : r.Revokes s o := hloop.mp rfl
      by_cases hpol : o.policy = .ok
      · by_cases hrep : o.replacePeers = .ok
        · -- the peers are in place: the activation loop decides
          have hd' : r.replaced s o = (d.applyRoutedPolicy o.policy s.activePrefixes
              (sortStrings s.smtpAllowedPrefixes)).replacePeers o.replacePeers
                (sortPeers s.peers) := by
            simp [replaced, hd]
          have hact := activateOwned_eq_none_iff o s.owned (sortStrings s.managedPrefixes)
            (r.replaced s o)
          have hroute := activateOwned_route o s.owned (sortStrings s.managedPrefixes)
            (r.replaced s o)
          have hps := activateOwned_peers o s.owned (sortStrings s.managedPrefixes)
            (r.replaced s o)
          simp only [hpol, hrep, ne_eq, not_true_eq_false, if_false]
          rw [hd', hpol, hrep] at hact hroute hps
          rcases hav : activateOwned o s.owned (sortStrings s.managedPrefixes)
            ((d.applyRoutedPolicy .ok s.activePrefixes
              (sortStrings s.smtpAllowedPrefixes)).replacePeers .ok (sortPeers s.peers))
            with ⟨d', e'⟩
          rw [hav] at hact hroute hps
          simp only [mem_sortStrings, Dataplane.replacePeers_routes,
            Dataplane.applyRoutedPolicy_routes] at hroute hact
          cases e' with
          | some e' =>
              have hnot : ¬ r.Completes s o := fun h => by simpa using hact.mpr h.2.2.2
              exact .inr
                (.inr (.inl ⟨⟨hrevokes, trivial⟩, trivial, hnot, d', e', rfl, hps, hroute⟩))
          | none =>
              have hall : r.Completes s o := ⟨hrevokes, hpol, hrep, hact.mp rfl⟩
              exact .inr (.inr (.inr ⟨hall, d', rfl, hps, hroute⟩))
        · refine .inr (.inl ⟨⟨hrevokes, hpol⟩, hrep, ?_⟩)
          simp [hpol, hrep, failClosed, replaced, hd]
      · refine .inl ⟨fun h => hpol h.2, ?_⟩
        simpa [hpol] using hpeers

theorem apply_of_invalid (r : Reconciler) {s : DesiredState} (o : ApplyOutcomes)
    (hv : s.validate ≠ .ok ()) : (r.apply s o).1 = r ∧ (r.apply s o).2 ≠ none := by
  unfold apply
  cases h : s.validate with
  | error e => simp
  | ok u => exact absurd h hv

theorem apply_eq_none_iff (r : Reconciler) (s : DesiredState) (o : ApplyOutcomes) :
    (r.apply s o).2 = none ↔ s.validate = .ok () ∧ r.Completes s o := by
  by_cases hv : s.validate = .ok ()
  · rcases r.apply_cases o hv with ⟨hn, d, e, h, -⟩ | ⟨-, hn, e, h⟩ | ⟨-, -, hn, d, e, h, -⟩ |
      ⟨hc, d, h, -⟩
    · simp only [h, hv, true_and, reduceCtorEq, false_iff]
      exact fun hc => hn ⟨hc.1, hc.2.1⟩
    · simp only [h, hv, true_and, reduceCtorEq, false_iff]
      exact fun hc => hn hc.2.2.1
    · simp only [h, hv, true_and, reduceCtorEq, false_iff]
      exact hn
    · simp [h, hv, hc]
  · simp [r.apply_of_invalid o hv, hv]

theorem revoked_blackholes (r : Reconciler) (s : DesiredState) (o : ApplyOutcomes) :
    r.dataplane.Blackholes (r.revoked s o) :=
  blackholeRevoked_blackholes o s.owned (r.possiblyRevoked s) r.dataplane

theorem revoked_covered {r : Reconciler} (h : r.Covered) (s : DesiredState) (o : ApplyOutcomes)
    (hp : (r.revoked s o).routes p = .activated) : p ∈ r.possiblyRevoked s := by
  have hold : r.dataplane.routes p = .activated := by
    by_contra hne
    exact (r.revoked_blackholes s o).not_activated hne hp
  exact mem_possiblyRevoked.mpr (.inr (h p hold))

/-- `Apply` keeps the inventory over every active route, whatever fails. -/
theorem apply_covered {r : Reconciler} (h : r.Covered) (s : DesiredState) (o : ApplyOutcomes) :
    (r.apply s o).1.Covered := by
  by_cases hv : s.validate = .ok ()
  · rcases r.apply_cases o hv with ⟨-, d, e, h', -, hr⟩ | ⟨-, -, e, h'⟩ |
      ⟨-, -, -, d, e, h', -, hr⟩ |
      ⟨hc, d, h', -, hr⟩ <;> rw [h']
    · intro p hp
      exact revoked_covered h s o (hr ▸ hp)
    · apply failClosed_covered
      intro p hp
      exact revoked_covered h s o hp
    · intro p hp
      rcases hr p with e | ⟨hm, -⟩
      · exact revoked_covered h s o (e ▸ hp)
      · exact mem_possiblyRevoked.mpr (.inl hm)
    · -- the inventory narrows to the snapshot's, and what left it is blackholed
      intro p hp
      rcases hr p with e | ⟨hm, -⟩
      · have hact : (r.revoked s o).routes p = .activated := e ▸ hp
        have hunion := revoked_covered h s o hact
        by_contra hnot
        have hown : p ∉ s.owned := fun ho =>
          hnot (mem_sortStrings.mpr ((DesiredState.validate_ok_iff s).mp hv |>.owned_managed p ho))
        have hbh := (blackholeRevoked_blackholed_iff o s.owned _ r.dataplane
          (r.possiblyRevoked_pairwise s) hunion).mpr
            (.inr ⟨hown, by simp [hc.1 p hunion hown, Outcome.tookEffect],
              fun q hq _ => hc.1 q hq⟩)
        simp [revoked, hbh] at hact
      · exact mem_sortStrings.mpr hm
  · rw [(r.apply_of_invalid o hv).1]
    exact h

/-- The outcomes under which `Apply` leaves a closed plane closed.  When the
peers are replaced there must be none.  When that fails, the fail-close that
follows must leave no peer and a blackhole for every owned prefix that had
none.  When it is not reached, no prefix may be left without a blackhole. -/
def KeepsClosed (r : Reconciler) (s : DesiredState) (o : ApplyOutcomes) : Prop :=
  (r.Revokes s o ∧ o.policy = .ok → o.replacePeers = .ok → s.peers = []) ∧
  (r.Revokes s o ∧ o.policy = .ok → o.replacePeers ≠ .ok →
    o.failClose.removePeers.left [] = [] ∧ ∀ p ∈ s.owned,
      r.dataplane.routes p = .blackholed ∨ (o.failClose.blackhole p).tookEffect) ∧
  (¬ (r.Revokes s o ∧ o.policy = .ok) → ∀ p ∈ r.possiblyRevoked s,
    r.dataplane.routes p = .blackholed ∨ (p ∉ s.owned ∧ (o.blackhole p).tookEffect ∧
      ∀ q ∈ r.possiblyRevoked s, q < p → q ∉ s.owned → o.blackhole q = .ok))

/-- On a closed plane the revocation loop activates nothing. -/
theorem revoked_not_activated {r : Reconciler} (h : r.Closed) (s : DesiredState)
    (o : ApplyOutcomes) (p : String) : (r.revoked s o).routes p ≠ .activated :=
  (r.revoked_blackholes s o).not_activated (h.route p)

/-- A complete revocation blackholes every prefix nobody owns. -/
theorem revoked_blackholed_of_revokes {r : Reconciler} {s : DesiredState} {o : ApplyOutcomes}
    (h : r.Revokes s o) (hp : p ∈ r.possiblyRevoked s) (hown : p ∉ s.owned) :
    (r.revoked s o).routes p = .blackholed :=
  (blackholeRevoked_blackholed_iff o s.owned _ r.dataplane (r.possiblyRevoked_pairwise s) hp).mpr
    (.inr ⟨hown, by simp [h p hp hown, Outcome.tookEffect], fun q hq _ => h q hq⟩)

theorem sortPeers_eq_nil_iff (ps : List Peer) : sortPeers ps = [] ↔ ps = [] := by
  have hlen : (sortPeers ps).length = ps.length := List.length_insertionSort _ ps
  rw [← List.length_eq_zero_iff, hlen, List.length_eq_zero_iff]

theorem owned_eq_nil {s : DesiredState} (h : s.peers = []) : s.owned = [] := by
  simp [DesiredState.owned, h]

/-- From a closed plane, the peers in place and the routes untouched but for
owned prefixes: closed exactly when there are no peers. -/
theorem closed_iff_of_replaced {r : Reconciler} (h : r.Closed) {s : DesiredState}
    {o : ApplyOutcomes} (hrev : r.Revokes s o) {d : Dataplane} {managed : List String}
    (hsub : ∀ p ∈ managed, p ∈ r.possiblyRevoked s) (hpeers : d.peers = sortPeers s.peers)
    (hroute : ∀ p, d.routes p = (r.revoked s o).routes p ∨ (p ∈ s.managedPrefixes ∧ p ∈ s.owned)) :
    (⟨d, managed⟩ : Reconciler).Closed ↔ s.peers = [] := by
  constructor
  · intro hc
    rw [← sortPeers_eq_nil_iff, ← hpeers]
    exact hc.peers
  · intro hnil
    have hsame : ∀ p, d.routes p = (r.revoked s o).routes p := fun p =>
      (hroute p).resolve_right (by simp [owned_eq_nil hnil])
    refine ⟨?_, ?_, ?_⟩
    · simp [hpeers, hnil, sortPeers]
    · intro p
      rw [hsame p]
      exact revoked_not_activated h s o p
    · intro p hp
      rw [hsame p]
      exact revoked_blackholed_of_revokes hrev (hsub p hp) (by simp [owned_eq_nil hnil])

/-- **Recovery from a closed plane.** `Apply` leaves it closed exactly under
`KeepsClosed`. -/
theorem apply_closed_iff {r : Reconciler} (h : r.Closed) {s : DesiredState} (o : ApplyOutcomes)
    (hv : s.validate = .ok ()) : (r.apply s o).1.Closed ↔ r.KeepsClosed s o := by
  have hvalid := (DesiredState.validate_ok_iff s).mp hv
  have hsub : ∀ p ∈ sortStrings s.managedPrefixes, p ∈ r.possiblyRevoked s := fun p hp =>
    mem_possiblyRevoked.mpr (.inl (mem_sortStrings.mp hp))
  rcases r.apply_cases o hv with ⟨hn, d, e, h', hpeers, hr⟩ | ⟨hdone, hrep, e, h'⟩ |
    ⟨hdone, hrep, -, d, e, h', hpeers, hr⟩ | ⟨hc, d, h', hpeers, hr⟩ <;> rw [h']
  · have hbh := fun p hp => blackholeRevoked_blackholed_iff o s.owned _ r.dataplane (p := p)
      (r.possiblyRevoked_pairwise s) hp
    constructor
    · intro hclosed
      refine ⟨fun hd => absurd hd hn, fun hd => absurd hd hn, fun _ p hp => ?_⟩
      rw [← hbh p hp]
      have := hclosed.blackholed p hp
      rwa [hr] at this
    · intro hk
      refine ⟨hpeers.trans h.peers, ?_, ?_⟩
      · intro p
        rw [hr]
        exact revoked_not_activated h s o p
      · intro p hp
        rw [hr]
        exact (hbh p hp).mpr (hk.2.2 hn p hp)
  · have hroutes :=
      (⟨r.replaced s o, r.possiblyRevoked s⟩ : Reconciler).failClosed_routes o.failClose
    constructor
    · intro hclosed
      refine ⟨fun _ hok => absurd hok hrep, fun _ _ => ⟨?_, ?_⟩, fun hn => absurd hdone hn⟩
      · simpa [failClosed, Wgnet.failClosed] using hclosed.peers
      · intro p hown
        have hmem : p ∈ r.possiblyRevoked s :=
          mem_possiblyRevoked.mpr (.inl (hvalid.owned_managed p hown))
        have hb := hclosed.blackholed p hmem
        rw [hroutes] at hb
        split at hb
        · rename_i heff
          exact .inr heff.2
        · rcases (blackholeRevoked_blackholed_iff o s.owned _ r.dataplane
            (r.possiblyRevoked_pairwise s) hmem).mp hb with hb | ⟨hnot, -⟩
          · exact .inl hb
          · exact absurd hown hnot
    · intro hk
      obtain ⟨hleft, howned⟩ := hk.2.1 hdone hrep
      refine ⟨?_, ?_, ?_⟩
      · simpa [failClosed, Wgnet.failClosed] using hleft
      · intro p
        rw [hroutes]
        split
        · simp
        · exact revoked_not_activated h s o p
      · intro p hp
        rw [hroutes]
        split
        · rfl
        · rename_i hneff
          have hmem : p ∈ r.possiblyRevoked s := hp
          by_cases hown : p ∈ s.owned
          · have hold : r.dataplane.routes p = .blackholed :=
              (howned p hown).resolve_right fun heff => hneff ⟨hmem, heff⟩
            exact (r.revoked_blackholes s o).blackholed hold
          · exact revoked_blackholed_of_revokes hdone.1 hmem hown
  · rw [closed_iff_of_replaced h hdone.1 (fun p hp => hp) hpeers hr]
    exact ⟨fun hnil => ⟨fun _ _ => hnil, fun _ hne => absurd hrep hne,
      fun hn => absurd hdone hn⟩, fun hk => hk.1 hdone hrep⟩
  · have hdone : r.Revokes s o ∧ o.policy = .ok := ⟨hc.1, hc.2.1⟩
    rw [closed_iff_of_replaced h hc.1 hsub hpeers hr]
    exact ⟨fun hnil => ⟨fun _ _ => hnil, fun _ hne => absurd hc.2.2.1 hne,
      fun hn => absurd hdone hn⟩, fun hk => hk.1 hdone hc.2.2.1⟩

end Reconciler

end Wgnet
