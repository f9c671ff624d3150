import Mathlib.Data.List.Induction
import Blindport.Wgnet.Reconciler

/-!
# Blindport.Wgnet.Safety

What holds of the routed plane over every run of the reconciler: any sequence
of `Apply` and `FailClosed` calls, each with any outcome of its operations.

Two invariants carry the results.  The inventory covers every active route
(`Reconciler.Covered`), and a prefix that was ever in the inventory is still in
it or blackholed (`Reconciler.Retains`), so a prefix an inventory change drops
keeps its blackhole.  The order of the operations within one `Apply` is read off
the log it adds (`Precedes`).
-/

namespace Wgnet

/-! ## runs -/

/-- One call of the reconciler, with the outcomes of its operations. -/
inductive Call where
  | apply (s : DesiredState) (o : ApplyOutcomes)
  | failClosed (o : FailCloseOutcomes)

namespace Reconciler

/-- `NewReconciler`. -/
def new (d : Dataplane) : Reconciler := ⟨d, []⟩

/-- The reconciler after one call. -/
def step (r : Reconciler) : Call → Reconciler
  | .apply s o => (r.apply s o).1
  | .failClosed o => (r.failClosed o).1

/-- The reconciler after a sequence of calls. -/
def run (r : Reconciler) (calls : List Call) : Reconciler := calls.foldl step r

@[simp] theorem run_append (r : Reconciler) (calls : List Call) (c : Call) :
    r.run (calls ++ [c]) = (r.run calls).step c := by
  simp [run]

end Reconciler

/-- Some snapshot that was applied had the prefix in its inventory. -/
def EverManaged (calls : List Call) (p : String) : Prop :=
  ∃ s o, Call.apply s o ∈ calls ∧ s.validate = .ok () ∧ p ∈ s.managedPrefixes

theorem everManaged_append_apply {calls : List Call} {s : DesiredState} {o : ApplyOutcomes}
    {p : String} : EverManaged (calls ++ [.apply s o]) p ↔
      EverManaged calls p ∨ s.validate = .ok () ∧ p ∈ s.managedPrefixes := by
  constructor
  · rintro ⟨s', o', hmem, hv, hp⟩
    rcases List.mem_append.mp hmem with h | h
    · exact .inl ⟨s', o', h, hv, hp⟩
    · simp only [List.mem_singleton, Call.apply.injEq] at h
      exact .inr (h.1 ▸ ⟨hv, hp⟩)
  · rintro (⟨s', o', hmem, hv, hp⟩ | ⟨hv, hp⟩)
    · exact ⟨s', o', List.mem_append_left _ hmem, hv, hp⟩
    · exact ⟨s, o, List.mem_append_right _ (List.mem_singleton_self _), hv, hp⟩

theorem everManaged_append_failClosed {calls : List Call} {o : FailCloseOutcomes} {p : String} :
    EverManaged (calls ++ [.failClosed o]) p ↔ EverManaged calls p := by
  simp [EverManaged]

/-! ## the routes after one call -/

/-- An activation loop that reports no error activates what it walks. -/
theorem activateOwned_activated {o : ApplyOutcomes} {owned ps : List String} {d : Dataplane}
    (hok : (activateOwned o owned ps d).2 = none) {q : String} (hown : q ∈ owned)
    (h : q ∈ ps ∨ d.routes q = .activated) :
    (activateOwned o owned ps d).1.routes q = .activated := by
  fun_induction activateOwned o owned ps d with
  | case1 d => exact h.resolve_left (by simp)
  | case2 p ps d hp ih =>
      have hne : q ≠ p := fun e => hp (e ▸ hown)
      exact ih hok (h.imp (fun hq => (List.mem_cons.mp hq).resolve_left hne) fun hq => hq)
  | case3 p ps d hp ho ih =>
      refine ih hok ?_
      rw [Dataplane.activateRoute_routes]
      by_cases hq : q = p
      · exact .inr (by simp [hq, ho, Outcome.tookEffect])
      · simpa [hq] using h
  | case4 p ps d hp ho => simp at hok

namespace Reconciler

variable {r : Reconciler} {s : DesiredState} {o : ApplyOutcomes} {p : String}

/-- Nothing but the snapshot's owned prefixes is activated by `Apply`. -/
theorem apply_route (r : Reconciler) (s : DesiredState) (o : ApplyOutcomes) (p : String) :
    (r.apply s o).1.dataplane.routes p = r.dataplane.routes p ∨
      (r.apply s o).1.dataplane.routes p = .blackholed ∨ p ∈ s.owned ∧ p ∈ s.managedPrefixes := by
  by_cases hv : s.validate = .ok ()
  · have hrev := (r.revoked_blackholes s o).route p
    rcases r.apply_cases o hv with ⟨-, d, e, h, -, hr⟩ | ⟨-, -, e, h⟩ | ⟨-, -, -, d, e, h, -, hr⟩ |
      ⟨-, d, h, -, hr⟩ <;> rw [h]
    · show d.routes p = _ ∨ d.routes p = _ ∨ _
      rw [hr]
      exact hrev.imp_right .inl
    · rw [failClosed_routes]
      split
      · exact .inr (.inl rfl)
      · exact hrev.imp_right .inl
    · rcases hr p with e | ⟨hm, hown⟩
      · show d.routes p = _ ∨ d.routes p = _ ∨ _
        rw [e]
        exact hrev.imp_right .inl
      · exact .inr (.inr ⟨hown, hm⟩)
    · rcases hr p with e | ⟨hm, hown⟩
      · show d.routes p = _ ∨ d.routes p = _ ∨ _
        rw [e]
        exact hrev.imp_right .inl
      · exact .inr (.inr ⟨hown, hm⟩)
  · rw [(r.apply_of_invalid o hv).1]
    exact .inl rfl

/-- The inventory after `Apply`: the union, or the snapshot's own when nothing
failed. -/
theorem apply_managed (r : Reconciler) (s : DesiredState) (o : ApplyOutcomes)
    (hv : s.validate = .ok ()) :
    (r.apply s o).1.managedPrefixes = r.possiblyRevoked s ∨
      (r.apply s o).2 = none ∧ (r.apply s o).1.managedPrefixes = sortStrings s.managedPrefixes := by
  rcases r.apply_cases o hv with ⟨-, d, e, h, -⟩ | ⟨-, -, e, h⟩ | ⟨-, -, -, d, e, h, -⟩ |
    ⟨-, d, h, -⟩ <;> rw [h]
  · exact .inl rfl
  · exact .inl rfl
  · exact .inl rfl
  · exact .inr ⟨rfl, rfl⟩

/-- After an `Apply` that reports no error: the peers are the snapshot's, what it
owns is active, and the rest of the union is blackholed. -/
theorem apply_ok (hok : (r.apply s o).2 = none) :
    (r.apply s o).1.dataplane.peers = sortPeers s.peers ∧
      (∀ p ∈ s.owned, (r.apply s o).1.dataplane.routes p = .activated) ∧
      ∀ p ∈ r.possiblyRevoked s, p ∉ s.owned →
        (r.apply s o).1.dataplane.routes p = .blackholed := by
  obtain ⟨hv, hc⟩ := (r.apply_eq_none_iff s o).mp hok
  have hvalid := (DesiredState.validate_ok_iff s).mp hv
  have happly : r.apply s o =
      (⟨(activateOwned o s.owned (sortStrings s.managedPrefixes) (r.replaced s o)).1,
        sortStrings s.managedPrefixes⟩, none) := by
    obtain ⟨hrev, hpol, hrep, hact⟩ := hc
    have hloop := (blackholeRevoked_eq_none_iff o s.owned (r.possiblyRevoked s)
      r.dataplane).mpr hrev
    have hactive := (activateOwned_eq_none_iff o s.owned (sortStrings s.managedPrefixes)
      (r.replaced s o)).mpr fun p hp => hact p (mem_sortStrings.mp hp)
    have hpair : blackholeRevoked o s.owned (r.possiblyRevoked s) r.dataplane =
        (r.revoked s o, none) := Prod.ext rfl hloop
    simp only [replaced, hpol, hrep] at hactive ⊢
    simp only [apply, hv, hpair, hpol, hrep, ne_eq, not_true_eq_false, if_false]
    rcases hd : activateOwned o s.owned (sortStrings s.managedPrefixes) _ with ⟨d, e⟩
    rw [hd] at hactive
    have he : e = none := hactive
    subst he
    rfl
  have hnone := (activateOwned_eq_none_iff o s.owned (sortStrings s.managedPrefixes)
    (r.replaced s o)).mpr fun p hp => hc.2.2.2 p (mem_sortStrings.mp hp)
  rw [happly]
  refine ⟨?_, fun p hp => ?_, fun p hp hown => ?_⟩
  · simp [replaced, hc.2.2.1, PeersOutcome.left]
  · exact activateOwned_activated hnone hp
      (.inl (mem_sortStrings.mpr (hvalid.owned_managed p hp)))
  · have hroute := activateOwned_route o s.owned (sortStrings s.managedPrefixes)
      (r.replaced s o) p
    rw [hroute.resolve_right fun h => hown h.2]
    exact revoked_blackholed_of_revokes hc.1 hp hown

/-- A fail-close that reports no error leaves no peer and an empty policy. -/
theorem failClosed_ok {f : FailCloseOutcomes} (hok : (r.failClosed f).2 = []) :
    (r.failClosed f).1.dataplane.peers = [] ∧ (r.failClosed f).1.dataplane.policy = ([], []) := by
  simp only [failClosed, Wgnet.failClosed, List.append_eq_nil_iff, ite_eq_left_iff,
    List.cons_ne_nil, imp_false, not_not] at hok
  obtain ⟨⟨hpeers, hpolicy⟩, -⟩ := hok
  have hkeeps : ∀ (ps : List String) (d : Dataplane),
      (blackholeAll f ps d).1.policy = d.policy := by
    intro ps
    induction ps with
    | nil => exact fun _ => rfl
    | cons q ps ih => exact fun d => ih _
  constructor
  · simp [failClosed, Wgnet.failClosed, hpeers, PeersOutcome.left]
  · simp [failClosed, Wgnet.failClosed, hkeeps, hpolicy, Dataplane.applyRoutedPolicy,
      Outcome.tookEffect]

/-! ## what was ever managed -/

/-- Every prefix of `E` is in the inventory or blackholed. -/
def Retains (r : Reconciler) (E : String → Prop) : Prop :=
  ∀ p, E p → p ∈ r.managedPrefixes ∨ r.dataplane.routes p = .blackholed

theorem failClosed_retains {E : String → Prop} (h : r.Retains E) (f : FailCloseOutcomes) :
    (r.failClosed f).1.Retains E := by
  intro p hp
  rw [failClosed_routes]
  rcases h p hp with hm | hb
  · exact .inl hm
  · right
    split
    · rfl
    · exact hb

/-- `Apply` retains what was retained and takes in the snapshot's inventory. -/
theorem apply_retains {E : String → Prop} (h : r.Retains E) (s : DesiredState)
    (o : ApplyOutcomes) (hv : s.validate = .ok ()) :
    (r.apply s o).1.Retains fun p => E p ∨ p ∈ s.managedPrefixes := by
  have hvalid := (DesiredState.validate_ok_iff s).mp hv
  intro p hp
  by_cases hunion : p ∈ r.possiblyRevoked s
  · rcases r.apply_managed s o hv with e | ⟨hok, e⟩
    · exact .inl (e ▸ hunion)
    · by_cases hown : p ∈ s.owned
      · left
        rw [e]
        exact mem_sortStrings.mpr (hvalid.owned_managed p hown)
      · exact .inr ((apply_ok hok).2.2 p hunion hown)
  · -- `p` left the inventory with its blackhole, and only managed prefixes are activated
    have hnot : p ∉ s.managedPrefixes := fun hm => hunion (mem_possiblyRevoked.mpr (.inl hm))
    have hold : r.dataplane.routes p = .blackholed := by
      refine (h p (hp.resolve_right hnot)).resolve_left fun hm => ?_
      exact hunion (mem_possiblyRevoked.mpr (.inr hm))
    right
    rcases r.apply_route s o p with e | e | ⟨-, hm⟩
    · rw [e, hold]
    · exact e
    · exact absurd hm hnot

/-- The two invariants, over every run from a plane without routes. -/
theorem run_invariant {d : Dataplane} (hd : ∀ p, d.routes p = .absent) (calls : List Call) :
    ((new d).run calls).Covered ∧ ((new d).run calls).Retains (EverManaged calls) := by
  induction calls using List.reverseRecOn with
  | nil =>
      constructor
      · intro p hp
        have := hd p
        simp_all [run, new]
      · rintro p ⟨s, o, hmem, -⟩
        simp at hmem
  | append_singleton calls c ih =>
      obtain ⟨hcov, hret⟩ := ih
      rw [run_append]
      cases c with
      | apply s o =>
          refine ⟨apply_covered hcov s o, ?_⟩
          by_cases hv : s.validate = .ok ()
          · intro p hp
            refine apply_retains hret s o hv p ?_
            exact (everManaged_append_apply.mp hp).imp_right And.right
          · intro p hp
            rw [step, (apply_of_invalid _ o hv).1]
            exact hret p ((everManaged_append_apply.mp hp).resolve_right fun h => hv h.1)
      | failClosed f =>
          refine ⟨failClosed_covered hcov f, fun p hp => ?_⟩
          exact failClosed_retains hret f p (everManaged_append_failClosed.mp hp)

end Reconciler

/-! ## the order of one `Apply` -/

/-- Wherever an operation of the list is one of `late`, `early` stands before
it. -/
def Precedes (early : DataplaneOp) (late : DataplaneOp → Prop) (l : List DataplaneOp) : Prop :=
  ∀ l₁ op l₂, l = l₁ ++ op :: l₂ → late op → early ∈ l₁

theorem Precedes.of_none {early : DataplaneOp} {late : DataplaneOp → Prop} {l : List DataplaneOp}
    (h : ∀ op ∈ l, ¬ late op) : Precedes early late l := by
  intro l₁ op l₂ e hlate
  have hmem : op ∈ l := by simp [e]
  exact absurd hlate (h op hmem)

/-- A first part without `late` operations may be skipped. -/
theorem Precedes.skip {early : DataplaneOp} {late : DataplaneOp → Prop} {a b : List DataplaneOp}
    (ha : ∀ op ∈ a, ¬ late op) (hb : Precedes early late b) : Precedes early late (a ++ b) := by
  intro l₁ op l₂ e hlate
  rcases List.append_eq_append_iff.mp e with ⟨c, rfl, hc⟩ | ⟨c, rfl, hc⟩
  · exact List.mem_append_right a (hb c op l₂ hc hlate)
  · cases c with
    | nil => exact absurd (hb [] op l₂ hc.symm hlate) List.not_mem_nil
    | cons x c =>
        have hx : op = x := (List.cons.inj hc).1
        exact absurd hlate (ha op (by simp [hx]))

/-- A first part without `late` operations that has `early`. -/
theorem Precedes.of_append {early : DataplaneOp} {late : DataplaneOp → Prop}
    {a b : List DataplaneOp} (hmem : early ∈ a) (h : ∀ op ∈ a, ¬ late op) :
    Precedes early late (a ++ b) := by
  intro l₁ op l₂ e hlate
  rcases List.append_eq_append_iff.mp e with ⟨c, rfl, -⟩ | ⟨c, rfl, hc⟩
  · exact List.mem_append_left c hmem
  · cases c with
    | nil => simpa using hmem
    | cons x c =>
        have hx : op = x := (List.cons.inj hc).1
        exact absurd hlate (h op (by simp [hx]))

/-- The operation replaces the peers. -/
def DataplaneOp.IsReplacePeers : DataplaneOp → Prop
  | .replacePeers _ => True
  | _ => False

/-- The operation activates a route. -/
def DataplaneOp.IsActivateRoute : DataplaneOp → Prop
  | .activateRoute _ => True
  | _ => False

/-- The revocation loop only issues blackholes. -/
theorem blackholeRevoked_log (o : ApplyOutcomes) (owned ps : List String) (d : Dataplane) :
    ∃ l, (blackholeRevoked o owned ps d).1.log = d.log ++ l ∧
      (∀ op ∈ l, ∃ q, op = .blackholeRoute q) ∧
      ((blackholeRevoked o owned ps d).2 = none →
        ∀ p ∈ ps, p ∉ owned → .blackholeRoute p ∈ l ∧ o.blackhole p = .ok) := by
  fun_induction blackholeRevoked o owned ps d with
  | case1 d => exact ⟨[], by simp, by simp, by simp⟩
  | case2 q ps d hq ih =>
      obtain ⟨l, hl, hops, hall⟩ := ih
      refine ⟨l, hl, hops, fun hnone p hp hown => ?_⟩
      exact hall hnone p ((List.mem_cons.mp hp).resolve_left fun e => hown (e ▸ hq)) hown
  | case3 q ps d hq ho ih =>
      obtain ⟨l, hl, hops, hall⟩ := ih
      refine ⟨.blackholeRoute q :: l, ?_, ?_, fun hnone p hp hown => ?_⟩
      · rw [hl]
        simp [Dataplane.blackholeRoute]
      · intro op hop
        rcases List.mem_cons.mp hop with rfl | hop
        · exact ⟨q, rfl⟩
        · exact hops op hop
      · rcases List.mem_cons.mp hp with rfl | hp
        · exact ⟨List.mem_cons_self, ho⟩
        · obtain ⟨hmem, hok⟩ := hall hnone p hp hown
          exact ⟨List.mem_cons_of_mem _ hmem, hok⟩
  | case4 q ps d hq ho => exact ⟨[.blackholeRoute q], rfl, by simp, by simp⟩

/-- The activation loop only activates owned prefixes. -/
theorem activateOwned_log (o : ApplyOutcomes) (owned ps : List String) (d : Dataplane) :
    ∃ l, (activateOwned o owned ps d).1.log = d.log ++ l ∧
      ∀ op ∈ l, ∃ q ∈ owned, op = .activateRoute q := by
  fun_induction activateOwned o owned ps d with
  | case1 d => exact ⟨[], by simp, by simp⟩
  | case2 q ps d hq ih => exact ih
  | case3 q ps d hq ho ih =>
      obtain ⟨l, hl, hops⟩ := ih
      refine ⟨.activateRoute q :: l, ?_, ?_⟩
      · rw [hl]
        simp [Dataplane.activateRoute]
      · intro op hop
        rcases List.mem_cons.mp hop with rfl | hop
        · exact ⟨q, not_not.mp hq, rfl⟩
        · exact hops op hop
  | case4 q ps d hq ho =>
      exact ⟨[.activateRoute q], rfl, by simpa using not_not.mp hq⟩

/-- A fail-close activates nothing. -/
theorem failClosed_log (d : Dataplane) (f : FailCloseOutcomes) (ps : List String) :
    ∃ l, (failClosed d f ps).1.log = d.log ++ l ∧ ∀ op ∈ l, ¬ op.IsActivateRoute := by
  have hloop : ∀ (ps : List String) (d : Dataplane), ∃ l,
      (blackholeAll f ps d).1.log = d.log ++ l ∧ ∀ op ∈ l, ¬ op.IsActivateRoute := by
    intro ps
    induction ps with
    | nil => exact fun d => ⟨[], by simp [blackholeAll], by simp⟩
    | cons q ps ih =>
        intro d
        obtain ⟨l, hl, hops⟩ := ih (d.blackholeRoute (f.blackhole q) q)
        refine ⟨.blackholeRoute q :: l, ?_, ?_⟩
        · simp only [blackholeAll, hl]
          simp [Dataplane.blackholeRoute]
        · simpa [DataplaneOp.IsActivateRoute] using hops
  obtain ⟨l, hl, hops⟩ :=
    hloop ps ((d.replacePeers f.removePeers []).applyRoutedPolicy f.policy [] [])
  refine ⟨.replacePeers [] :: .applyRoutedPolicy [] [] :: l, ?_, ?_⟩
  · simp only [failClosed, hl]
    simp [Dataplane.replacePeers, Dataplane.applyRoutedPolicy]
  · simpa [DataplaneOp.IsActivateRoute] using hops

namespace Reconciler

/-- The operations one `Apply` issues: in any order of failures, first the
blackholes of what nobody owns, then the policy, then the peers, then the
activations. -/
structure Ordered (r : Reconciler) (s : DesiredState) (o : ApplyOutcomes)
    (l : List DataplaneOp) : Prop where
  revoked : ∀ p ∈ r.possiblyRevoked s, p ∉ s.owned →
    Precedes (.blackholeRoute p) DataplaneOp.IsReplacePeers l
  revokes : (∃ op ∈ l, op.IsReplacePeers) → r.Revokes s o
  policy : Precedes (.applyRoutedPolicy s.activePrefixes (sortStrings s.smtpAllowedPrefixes))
    DataplaneOp.IsActivateRoute l
  peers : Precedes (.replacePeers (sortPeers s.peers)) DataplaneOp.IsActivateRoute l
  activated : ∀ p, .activateRoute p ∈ l → p ∈ s.owned ∧ o.policy = .ok ∧ o.replacePeers = .ok

/-- A log without replaced peers and activations is in order. -/
theorem Ordered.of_none {r : Reconciler} {s : DesiredState} {o : ApplyOutcomes}
    {l : List DataplaneOp} (hr : ∀ op ∈ l, ¬ op.IsReplacePeers)
    (ha : ∀ op ∈ l, ¬ op.IsActivateRoute) : r.Ordered s o l where
  revoked _ _ _ := .of_none hr
  revokes := by
    rintro ⟨op, hop, h⟩
    exact absurd h (hr op hop)
  policy := .of_none ha
  peers := .of_none ha
  activated p hp := absurd trivial (ha _ hp)

/-- A log that begins with a complete revocation, the policy and the peers. -/
theorem Ordered.of_replaced {r : Reconciler} {s : DesiredState} {o : ApplyOutcomes}
    {revocations rest : List DataplaneOp} (hrev : ∀ op ∈ revocations, ∃ q, op = .blackholeRoute q)
    (hall : ∀ p ∈ r.possiblyRevoked s, p ∉ s.owned →
      .blackholeRoute p ∈ revocations ∧ o.blackhole p = .ok)
    (hrest : ∀ p, .activateRoute p ∈ rest → p ∈ s.owned ∧ o.policy = .ok ∧ o.replacePeers = .ok) :
    r.Ordered s o (revocations ++ (.applyRoutedPolicy s.activePrefixes
      (sortStrings s.smtpAllowedPrefixes) :: .replacePeers (sortPeers s.peers) :: rest)) where
  revoked p hp hown := by
    refine .of_append (hall p hp hown).1 fun op hop => ?_
    obtain ⟨q, rfl⟩ := hrev op hop
    exact id
  revokes _ p hp hown := (hall p hp hown).2
  policy := by
    refine .skip (fun op hop => ?_) (.of_append (a := [_]) (List.mem_singleton_self _) ?_)
    · obtain ⟨q, rfl⟩ := hrev op hop
      exact id
    · simp [DataplaneOp.IsActivateRoute]
  peers := by
    refine .skip (fun op hop => ?_) (.of_append (a := [_, _]) (by simp) ?_)
    · obtain ⟨q, rfl⟩ := hrev op hop
      exact id
    · simp [DataplaneOp.IsActivateRoute]
  activated p hp := by
    rcases List.mem_append.mp hp with h | h
    · obtain ⟨q, hq⟩ := hrev _ h
      contradiction
    · simp only [List.mem_cons, reduceCtorEq, false_or] at h
      exact hrest p h

/-- **The order of `Apply`.** Whatever fails, the log it adds is in order. -/
theorem apply_ordered (r : Reconciler) (s : DesiredState) (o : ApplyOutcomes) :
    ∃ l, (r.apply s o).1.dataplane.log = r.dataplane.log ++ l ∧ r.Ordered s o l := by
  cases hv : s.validate with
  | error e =>
      refine ⟨[], by simp [apply, hv], .of_none (by simp) (by simp)⟩
  | ok u =>
      obtain ⟨l, hl, hops, hall⟩ :=
        blackholeRevoked_log o s.owned (r.possiblyRevoked s) r.dataplane
      have hnr : ∀ op ∈ l, ¬ op.IsReplacePeers := by
        intro op hop
        obtain ⟨q, rfl⟩ := hops op hop
        exact id
      have hna : ∀ op ∈ l, ¬ op.IsActivateRoute := by
        intro op hop
        obtain ⟨q, rfl⟩ := hops op hop
        exact id
      rcases hrev : blackholeRevoked o s.owned (r.possiblyRevoked s) r.dataplane with ⟨d, e⟩
      rw [hrev] at hl hall
      have hlog : d.log = r.dataplane.log ++ l := hl
      cases e with
      | some e => exact ⟨l, by simp [apply, hv, hrev, hlog], .of_none hnr hna⟩
      | none =>
          have hall := hall rfl
          by_cases hpol : o.policy = .ok
          · by_cases hrep : o.replacePeers = .ok
            · -- the activation loop runs
              obtain ⟨k, hk, hact⟩ := activateOwned_log o s.owned (sortStrings s.managedPrefixes)
                ((d.applyRoutedPolicy o.policy s.activePrefixes
                  (sortStrings s.smtpAllowedPrefixes)).replacePeers o.replacePeers
                    (sortPeers s.peers))
              refine ⟨l ++ (.applyRoutedPolicy s.activePrefixes
                (sortStrings s.smtpAllowedPrefixes) :: .replacePeers (sortPeers s.peers) :: k),
                ?_, .of_replaced hops hall fun p hp => ?_⟩
              · rcases hd : activateOwned o s.owned (sortStrings s.managedPrefixes)
                  ((d.applyRoutedPolicy o.policy s.activePrefixes
                    (sortStrings s.smtpAllowedPrefixes)).replacePeers o.replacePeers
                      (sortPeers s.peers)) with ⟨d', e'⟩
                rw [hd] at hk
                have hk' : d'.log = r.dataplane.log ++ (l ++ (.applyRoutedPolicy s.activePrefixes
                    (sortStrings s.smtpAllowedPrefixes) ::
                      .replacePeers (sortPeers s.peers) :: k)) := by
                  rw [show d'.log = _ from hk]
                  simp [Dataplane.replacePeers, Dataplane.applyRoutedPolicy, hlog]
                rw [← hk']
                rw [hpol, hrep] at hd
                cases e' <;> simp [apply, hv, hrev, hpol, hrep, hd]
              · obtain ⟨q, hq, e⟩ := hact _ hp
                rw [DataplaneOp.activateRoute.inj e]
                exact ⟨hq, hpol, hrep⟩
            · -- the peers could not be replaced: fail closed
              obtain ⟨k, hk, hact⟩ := failClosed_log
                ((d.applyRoutedPolicy o.policy s.activePrefixes
                  (sortStrings s.smtpAllowedPrefixes)).replacePeers o.replacePeers
                    (sortPeers s.peers)) o.failClose (r.possiblyRevoked s)
              refine ⟨l ++ (.applyRoutedPolicy s.activePrefixes
                (sortStrings s.smtpAllowedPrefixes) :: .replacePeers (sortPeers s.peers) :: k),
                ?_, .of_replaced hops hall fun p hp => absurd trivial (hact _ hp)⟩
              simp only [apply, hv, hrev, hpol, hrep, ne_eq, not_true_eq_false, if_false,
                not_false_eq_true, if_true]
              rw [hpol] at hk
              rw [hk]
              simp [Dataplane.replacePeers, Dataplane.applyRoutedPolicy, hlog]
          · refine ⟨l ++ [.applyRoutedPolicy s.activePrefixes
              (sortStrings s.smtpAllowedPrefixes)], ?_, .of_none ?_ ?_⟩
            · simp [apply, hv, hrev, hpol, Dataplane.applyRoutedPolicy, hlog]
            · intro op hop
              rcases List.mem_append.mp hop with h | h
              · exact hnr op h
              · simp only [List.mem_singleton] at h
                subst h
                exact id
            · intro op hop
              rcases List.mem_append.mp hop with h | h
              · exact hna op h
              · simp only [List.mem_singleton] at h
                subst h
                exact id

/-! ## the plane over every run -/

/-- **Safety of the routed plane.** After any calls with any failures, starting
from a plane without routes: only inventory is activated; an `Apply` without an
error leaves exactly the snapshot's routes active under the snapshot's peers and
every other prefix that was ever managed blackholed; a `FailClosed` without an
error leaves nothing; and within every `Apply` the revocations come before the
peers and the activations after the snapshot's policy and peers. -/
theorem plane_safety {d : Dataplane} (hd : ∀ p, d.routes p = .absent) (calls : List Call) :
    (∀ p, ((new d).run calls).dataplane.routes p = .activated →
      p ∈ ((new d).run calls).managedPrefixes) ∧
    (∀ s o, (((new d).run calls).apply s o).2 = none →
      (∀ p, (((new d).run calls).apply s o).1.dataplane.routes p = .activated ↔ p ∈ s.owned) ∧
      (((new d).run calls).apply s o).1.dataplane.peers.Perm s.peers ∧
      ∀ p, EverManaged (calls ++ [.apply s o]) p → p ∉ s.owned →
        (((new d).run calls).apply s o).1.dataplane.routes p = .blackholed) ∧
    (∀ f, (((new d).run calls).failClosed f).2 = [] →
      (((new d).run calls).failClosed f).1.dataplane.peers = [] ∧
      (((new d).run calls).failClosed f).1.dataplane.policy = ([], []) ∧
      ∀ p, (((new d).run calls).failClosed f).1.dataplane.routes p ≠ .activated) ∧
    ∀ s o, ∃ l, (((new d).run calls).apply s o).1.dataplane.log =
        ((new d).run calls).dataplane.log ++ l ∧
      (∀ p, EverManaged (calls ++ [.apply s o]) p → p ∉ s.owned →
        ((new d).run calls).dataplane.routes p = .blackholed ∨
          Precedes (.blackholeRoute p) DataplaneOp.IsReplacePeers l ∧
            ((∃ op ∈ l, op.IsReplacePeers) → o.blackhole p = .ok)) ∧
      Precedes (.applyRoutedPolicy s.activePrefixes (sortStrings s.smtpAllowedPrefixes))
        DataplaneOp.IsActivateRoute l ∧
      Precedes (.replacePeers (sortPeers s.peers)) DataplaneOp.IsActivateRoute l ∧
      ∀ p, .activateRoute p ∈ l → p ∈ s.owned ∧ o.policy = .ok ∧ o.replacePeers = .ok := by
  obtain ⟨hcov, hret⟩ := run_invariant hd calls
  generalize (new d).run calls = r at hcov hret ⊢
  -- What was ever managed is in the union `Apply` works on, or already blackholed.
  have hunion : ∀ s o p, EverManaged (calls ++ [.apply s o]) p →
      p ∈ r.possiblyRevoked s ∨ r.dataplane.routes p = .blackholed := by
    intro s o p hp
    rcases everManaged_append_apply.mp hp with hold | ⟨-, hnew⟩
    · exact (hret p hold).imp_left fun hm => mem_possiblyRevoked.mpr (.inr hm)
    · exact .inl (mem_possiblyRevoked.mpr (.inl hnew))
  refine ⟨hcov, ?_, ?_, ?_⟩
  · intro s o hok
    obtain ⟨hpeers, hactive, hrest⟩ := apply_ok hok
    obtain ⟨hv, hc⟩ := (r.apply_eq_none_iff s o).mp hok
    have hblack : ∀ p, EverManaged (calls ++ [.apply s o]) p → p ∉ s.owned →
        (r.apply s o).1.dataplane.routes p = .blackholed := by
      intro p hp hown
      rcases hunion s o p hp with hm | hb
      · exact hrest p hm hown
      · rcases r.apply_route s o p with e | e | ⟨h, -⟩
        · rw [e, hb]
        · exact e
        · exact absurd h hown
    refine ⟨fun p => ⟨fun hp => ?_, hactive p⟩, ?_, hblack⟩
    · by_contra hown
      have hm := apply_covered hcov s o p hp
      rcases r.apply_managed s o hv with e | ⟨-, e⟩
      · rw [hrest p (e ▸ hm) hown] at hp
        contradiction
      · rw [e, mem_sortStrings] at hm
        rw [hrest p (mem_possiblyRevoked.mpr (.inl hm)) hown] at hp
        contradiction
    · rw [hpeers]
      exact List.perm_insertionSort _ _
  · intro f hok
    obtain ⟨hpeers, hpolicy⟩ := failClosed_ok hok
    exact ⟨hpeers, hpolicy, (failClosed_closed hcov hok).route⟩
  · intro s o
    obtain ⟨l, hl, hord⟩ := r.apply_ordered s o
    refine ⟨l, hl, fun p hp hown => ?_, hord.policy, hord.peers, hord.activated⟩
    rcases hunion s o p hp with hm | hb
    · exact .inr ⟨hord.revoked p hm hown, fun hrep => hord.revokes hrep p hm hown⟩
    · exact .inl hb

/-- A plane without routes. -/
def emptyPlane : Dataplane := ⟨[], ([], []), fun _ => .absent, []⟩

/-- One peer with one address. -/
def onePeer : DesiredState :=
  ⟨"1", ["10.0.0.1/32"],
    [⟨"AQEBAQEBAQEBAQEBAQEBAQEBAQEBAQEBAQEBAQEBAQE=", ["10.0.0.1/32"]⟩], []⟩

/-- Every operation succeeds but the blackholes, which end as given. -/
def blackholesEnd (o : Outcome) : ApplyOutcomes :=
  ⟨fun _ => o, .ok, .ok, fun _ => .ok, ⟨.ok, .ok, fun _ => .ok⟩⟩

/-- An address leaves the inventory while its blackhole fails. -/
def shrinking : List Call :=
  [.apply onePeer (blackholesEnd .ok), .apply ⟨"2", [], [], []⟩ (blackholesEnd (.failed false))]

/-- The address stays active until the next snapshot, which blackholes it. -/
theorem plane_safety_shrinking :
    (∀ p, emptyPlane.routes p = .absent) ∧
      ((new emptyPlane).run shrinking).dataplane.routes "10.0.0.1/32" = .activated ∧
      "10.0.0.1/32" ∈ ((new emptyPlane).run shrinking).managedPrefixes ∧
      (((new emptyPlane).run shrinking).apply ⟨"2", [], [], []⟩
        (blackholesEnd .ok)).1.dataplane.routes "10.0.0.1/32" = .blackholed := by
  have hd : ∀ p, emptyPlane.routes p = .absent := fun _ => rfl
  have hactive : ((new emptyPlane).run shrinking).dataplane.routes "10.0.0.1/32" = .activated := by
    decide +kernel
  obtain ⟨hcovered, happly, -⟩ := plane_safety hd shrinking
  refine ⟨hd, hactive, hcovered _ hactive, ?_⟩
  refine (happly ⟨"2", [], [], []⟩ (blackholesEnd .ok) (by decide +kernel)).2.2 _ ?_ (by simp [
    DesiredState.owned])
  exact ⟨onePeer, blackholesEnd .ok, by simp [shrinking], by decide +kernel, by simp [onePeer]⟩

end Reconciler

end Wgnet
