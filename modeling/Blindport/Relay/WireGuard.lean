import Mathlib.Data.List.Induction
import Blindport.Wgnet.Reconciler
import Blindport.Relay.Accounting

/-!
# Blindport.Relay.WireGuard

`cmd/blindport-relay/wireguard.go`: the manager that reconciles the backend's
desired state into the kernel plane, cycle after cycle, and fails it closed
when the last success is too old.

A run is a list of `cycle` and `failClosed` calls.  What a call meets outside
the process (the fetched answer, the clock, the outcome of every dataplane,
counter table and ledger operation) is its `CycleInput` or `CloseInput`.

`failedClosed` is set by a successful fail-close and cleared by a successful
cycle.  A cycle that starts with the flag set and opens the plane before it
fails leaves the flag set, and every later fail-close returns early on it:
`run_truthful_iff` says in exactly which runs that does not happen.
-/

namespace Relay

open Wgnet

/-! ## the manager -/

/-- The values of `relayHealth.wgState`. -/
inductive WgState where
  | starting
  | healthy
  | unavailable
deriving DecidableEq

/-- `wireGuardManager`, with the two gauges it stores.  A zero `lastSuccess` is
`none`. -/
structure Manager where
  accounting : Option Accounting
  reconciler : Reconciler
  maxStaleness : Int
  lastSuccess : Option Int
  failedClosed : Bool
  wgState : WgState
  peersGauge : Nat
  activePrefixesGauge : Nat

/-- What a fail-close meets. -/
structure CloseInput where
  collect : CollectOutcomes
  remove : Bool
  failClose : FailCloseOutcomes

/-- What one cycle meets.  `collect` and `remove` are what `prepare` (or the
collection after a failed fetch) gets from the counter table, `close` what the
manager's own fail-close meets if it is issued. -/
structure CycleInput where
  fetch : Option WireGuardDesiredState
  now : Int
  collect : CollectOutcomes
  remove : Bool
  install : Bool
  apply : ApplyOutcomes
  close : CloseInput

namespace Manager

/-- `newWireGuardManager`. -/
def new (dataplane : Dataplane) (maxStaleness : Int) (accounting : Bool) : Manager where
  accounting := if accounting then some .new else none
  reconciler := ⟨dataplane, []⟩
  maxStaleness := maxStaleness
  lastSuccess := none
  failedClosed := false
  wgState := .starting
  peersGauge := 0
  activePrefixesGauge := 0

/-- `failClosed`. -/
def failClosed (m : Manager) (i : CloseInput) : Manager :=
  if m.failedClosed then m
  else
    let m :=
      { m with accounting := m.accounting.map fun a : Accounting => a.close i.collect i.remove }
    let closed := m.reconciler.failClosed i.failClose
    let m := { m with reconciler := closed.1 }
    if closed.2 ≠ [] then { m with wgState := .unavailable }
    else
      { m with
        failedClosed := true, wgState := .unavailable, peersGauge := 0, activePrefixesGauge := 0 }

/-- The last success is at least `maxStaleness` old, or there is none. -/
def Stale (m : Manager) (now : Int) : Prop :=
  ∀ t, m.lastSuccess = some t → m.maxStaleness ≤ now - t

instance (m : Manager) (now : Int) : Decidable (m.Stale now) :=
  match h : m.lastSuccess with
  | none => .isTrue (by simp [Stale, h])
  | some t => decidable_of_iff (m.maxStaleness ≤ now - t) (by simp [Stale, h])

/-- `failClosedIfStale`. -/
def failClosedIfStale (m : Manager) (now : Int) (i : CloseInput) : Manager :=
  if m.failedClosed ∨ ¬ m.Stale now then m else m.failClosed i

/-- The success exit of `cycle`. -/
def succeed (m : Manager) (now : Int) : Manager :=
  { m with lastSuccess := some now, failedClosed := false, wgState := .healthy }

/-- `cycle` from `appliedState` on; `m` holds the prepared accounting. -/
def installAccounting (m : Manager) (bindings : List PrefixBinding) (revision : String)
    (i : CycleInput) : Manager × Bool :=
  match m.accounting with
  | none => (m, true)
  | some a =>
      let applied := a.appliedState bindings revision i.install
      ({ m with accounting := some applied.1 }, applied.2)

/-- `cycle` from `Apply` on. -/
def applyDesired (m : Manager) (state : WireGuardDesiredState) (bindings : List PrefixBinding)
    (i : CycleInput) : Manager × Bool :=
  let desired := desiredStateFromResponse state
  let applied := m.reconciler.apply desired i.apply
  let m := { m with reconciler := applied.1 }
  match applied.2 with
  | some _ =>
      let m := { m with wgState := .unavailable }
      -- the counters of the old bindings are gone, so traffic would go uncounted
      if m.accounting.any fun a : Accounting =>
          a.applied && !a.present && !samePrefixBindings a.bindings bindings then
        (m.failClosed i.close, false)
      else (m.failClosedIfStale i.now i.close, false)
  | none =>
      match m.installAccounting bindings state.revision i with
      | (m, false) => ({ m with wgState := .unavailable }.failClosed i.close, false)
      | (m, true) =>
          ({ m.succeed i.now with
              peersGauge := desired.peers.length
              activePrefixesGauge := desired.activePrefixes.length }, true)

/-- `cycle`, with whether it was fully successful. -/
def cycle (m : Manager) (i : CycleInput) : Manager × Bool :=
  match i.fetch with
  | none =>
      let m :=
        { m with accounting := m.accounting.map fun a : Accounting => (a.collect i.collect).1 }
      (m.failClosedIfStale i.now i.close, false)
  | some state =>
      match m.accounting with
      | none => m.applyDesired state [] i
      | some a =>
          match a.prepare state i.collect i.remove with
          | (a, .error _) =>
              let m := { m with accounting := some a, wgState := .unavailable }
              (m.failClosedIfStale i.now i.close, false)
          | (a, .ok (bindings, skipApply)) =>
              let m := { m with accounting := some a }
              if skipApply ∧ m.failedClosed = false then
                match m.installAccounting bindings state.revision i with
                | (m, false) => ({ m with wgState := .unavailable }.failClosed i.close, false)
                | (m, true) => (m.succeed i.now, true)
              else m.applyDesired state bindings i

/-- The calls a run is made of. -/
inductive Action where
  | cycle (input : CycleInput)
  | failClosed (input : CloseInput)

def step (m : Manager) : Action → Manager
  | .cycle i => (m.cycle i).1
  | .failClosed i => m.failClosed i

def run (m : Manager) (actions : List Action) : Manager := actions.foldl step m

/-! ## fail-close -/

/-- The flag tells the truth: when it is set the plane is closed. -/
def Truthful (m : Manager) : Prop := m.failedClosed = true → m.reconciler.Closed

theorem failClosed_of_failedClosed {m : Manager} (h : m.failedClosed = true) (i : CloseInput) :
    m.failClosed i = m := by
  simp [failClosed, h]

theorem failClosedIfStale_of_failedClosed {m : Manager} (h : m.failedClosed = true) (now : Int)
    (i : CloseInput) : m.failClosedIfStale now i = m := by
  simp [failClosedIfStale, h]

theorem failClosed_covered {m : Manager} (h : m.reconciler.Covered) (i : CloseInput) :
    (m.failClosed i).reconciler.Covered := by
  unfold failClosed
  split
  · exact h
  · dsimp only
    split <;> exact Reconciler.failClosed_covered h i.failClose

theorem failClosedIfStale_covered {m : Manager} (h : m.reconciler.Covered) (now : Int)
    (i : CloseInput) : (m.failClosedIfStale now i).reconciler.Covered := by
  unfold failClosedIfStale
  split
  · exact h
  · exact failClosed_covered h i

/-- A fail-close sets the flag only when every operation succeeded. -/
theorem failClosed_truthful {m : Manager} (h : m.reconciler.Covered) (ht : m.Truthful)
    (i : CloseInput) : (m.failClosed i).Truthful := by
  intro hflag
  unfold failClosed at hflag ⊢
  split at hflag
  · rename_i hm
    simpa [hm] using ht hm
  · rename_i hm
    dsimp only at hflag
    split at hflag
    · exact absurd hflag hm
    · rename_i herr
      simpa [hm, not_not.mp herr] using Reconciler.failClosed_closed h (not_not.mp herr)

theorem failClosedIfStale_truthful {m : Manager} (h : m.reconciler.Covered) (ht : m.Truthful)
    (now : Int) (i : CloseInput) : (m.failClosedIfStale now i).Truthful := by
  unfold failClosedIfStale
  split
  · exact ht
  · exact failClosed_truthful h ht i

/-- After a fail-close whose operations succeed the flag is set. -/
theorem failClosed_failedClosed {m : Manager} {i : CloseInput} (h : i.failClose.Succeed) :
    (m.failClosed i).failedClosed = true := by
  unfold failClosed
  split
  · assumption
  · simp [Reconciler.failClosed_errors_of_succeed _ h]

theorem failClosedIfStale_failedClosed {m : Manager} {now : Int} {i : CloseInput}
    (hs : m.Stale now) (h : i.failClose.Succeed) :
    (m.failClosedIfStale now i).failedClosed = true := by
  unfold failClosedIfStale
  split
  · rename_i hor
    exact hor.resolve_right (not_not.mpr hs)
  · exact failClosed_failedClosed h

/-! ## one cycle -/

/-- The cycle gets a snapshot and the accounting is prepared for it. -/
def Prepares (m : Manager) (i : CycleInput) (state : WireGuardDesiredState) : Prop :=
  i.fetch = some state ∧
    ∀ a, m.accounting = some a → (a.prepare state i.collect i.remove).2.isOk = true

/-- The counter table is in place once the snapshot is applied: it stays, or
its installation succeeds. -/
def Installs (m : Manager) (i : CycleInput) (state : WireGuardDesiredState) : Prop :=
  ∀ a, m.accounting = some a → i.install = true ∨
    (a.present = true ∧ bandwidthBindings state = some a.bindings ∧
      i.collect.read ≠ .tableMissing)

/-- `m'` is `m` but for the accounting, the health and the gauges. -/
structure SameClock (m m' : Manager) : Prop where
  failedClosed : m'.failedClosed = m.failedClosed
  lastSuccess : m'.lastSuccess = m.lastSuccess
  maxStaleness : m'.maxStaleness = m.maxStaleness

/-- The exits of a cycle that ends in failure, from the manager `m`. -/
def Fails (m : Manager) (i : CycleInput) (result : Manager × Bool) : Prop :=
  result = (m.failClosedIfStale i.now i.close, false) ∨ result = (m.failClosed i.close, false)

/-- The success exit of a cycle, from the manager `m`. -/
structure Succeeds (m : Manager) (i : CycleInput) (result : Manager × Bool) : Prop where
  success : result.2 = true
  reconciler : result.1.reconciler = m.reconciler
  failedClosed : result.1.failedClosed = false
  lastSuccess : result.1.lastSuccess = some i.now
  maxStaleness : result.1.maxStaleness = m.maxStaleness

theorem installAccounting_cases (m : Manager) (bindings : List PrefixBinding) (revision : String)
    (i : CycleInput) :
    ∃ m', SameClock m m' ∧ m'.reconciler = m.reconciler ∧
      m.installAccounting bindings revision i =
        (m', decide (∀ a, m.accounting = some a → a.present = true ∨ i.install = true)) := by
  unfold installAccounting
  split
  · rename_i hacc
    exact ⟨m, ⟨rfl, rfl, rfl⟩, rfl, by simp [hacc]⟩
  · rename_i a hacc
    refine ⟨{ m with accounting := some (a.appliedState bindings revision i.install).1 },
      ⟨rfl, rfl, rfl⟩, rfl, ?_⟩
    simp only [Prod.mk.injEq, true_and, hacc, Option.some.injEq, forall_eq']
    rw [Bool.eq_iff_iff, Accounting.appliedState_ok_iff, decide_eq_true_iff]

/-- What a cycle does from `Apply` on. -/
theorem applyDesired_cases (m : Manager) (state : WireGuardDesiredState)
    (bindings : List PrefixBinding) (i : CycleInput) :
    ∃ m', SameClock m m' ∧
      m'.reconciler = (m.reconciler.apply (desiredStateFromResponse state) i.apply).1 ∧
      (((m.reconciler.apply (desiredStateFromResponse state) i.apply).2 ≠ none ∨
          ¬ (∀ a, m.accounting = some a → a.present = true ∨ i.install = true)) ∧
        Fails m' i (m.applyDesired state bindings i) ∨
      ((m.reconciler.apply (desiredStateFromResponse state) i.apply).2 = none ∧
          (∀ a, m.accounting = some a → a.present = true ∨ i.install = true)) ∧
        Succeeds m' i (m.applyDesired state bindings i)) := by
  unfold applyDesired
  dsimp only
  generalize m.reconciler.apply (desiredStateFromResponse state) i.apply = applied
  obtain ⟨r, e⟩ := applied
  cases e with
  | some e =>
      refine ⟨{ m with reconciler := r, wgState := .unavailable }, ⟨rfl, rfl, rfl⟩, rfl,
        .inl ⟨.inl (by simp), ?_⟩⟩
      dsimp only
      split
      · exact .inr rfl
      · exact .inl rfl
  | none =>
      obtain ⟨m', hclock, hrec, hinst⟩ :=
        installAccounting_cases { m with reconciler := r } bindings state.revision i
      by_cases hok : ∀ a, m.accounting = some a → a.present = true ∨ i.install = true
      · rw [decide_eq_true hok] at hinst
        refine ⟨m', ⟨hclock.1, hclock.2, hclock.3⟩, hrec, .inr ⟨⟨rfl, hok⟩, ?_⟩⟩
        rw [hinst]
        exact ⟨rfl, rfl, rfl, rfl, rfl⟩
      · rw [decide_eq_false hok] at hinst
        refine ⟨{ m' with wgState := .unavailable }, ⟨hclock.1, hclock.2, hclock.3⟩, hrec,
          .inl ⟨.inr hok, ?_⟩⟩
        rw [hinst]
        exact .inr rfl

/-- Everything a cycle can do.  Either the snapshot does not reach `Apply`, and
with the flag set that is a failure before anything was done; or it does, and
the cycle succeeds exactly when `Apply` and the installation do. -/
theorem cycle_cases (m : Manager) (i : CycleInput) :
    (∃ m', SameClock m m' ∧ m'.reconciler = m.reconciler ∧
      (m.failedClosed = true → ∀ state, ¬ m.Prepares i state) ∧
      (Fails m' i (m.cycle i) ∨ m.failedClosed = false ∧ Succeeds m' i (m.cycle i))) ∨
    (∃ m' state, SameClock m m' ∧ m.Prepares i state ∧
      m'.reconciler = (m.reconciler.apply (desiredStateFromResponse state) i.apply).1 ∧
      (((m.reconciler.apply (desiredStateFromResponse state) i.apply).2 ≠ none ∨
          ¬ m.Installs i state) ∧ Fails m' i (m.cycle i) ∨
        ((m.reconciler.apply (desiredStateFromResponse state) i.apply).2 = none ∧
          m.Installs i state) ∧ Succeeds m' i (m.cycle i))) := by
  unfold cycle
  cases hfetch : i.fetch with
  | none =>
      refine .inl ⟨{ m with accounting := m.accounting.map fun a : Accounting =>
        (a.collect i.collect).1 }, ⟨rfl, rfl, rfl⟩, rfl, ?_, .inl (.inl rfl)⟩
      intro _ state hp
      simp [Prepares, hfetch] at hp
  | some state =>
      cases hacc : m.accounting with
      | none =>
          obtain ⟨m', hclock, hrec, h⟩ := applyDesired_cases m state [] i
          simp only [hacc, reduceCtorEq, false_implies, implies_true, not_true_eq_false, or_false,
            and_true] at h
          exact .inr ⟨m', state, hclock, by simp [Prepares, hfetch, hacc], hrec,
            by simpa [Installs, hacc] using h⟩
      | some a =>
          rcases hprep : a.prepare state i.collect i.remove with ⟨a', e | ⟨bindings, skip⟩⟩
          · refine .inl ⟨{ m with accounting := some a', wgState := .unavailable },
              ⟨rfl, rfl, rfl⟩, rfl, ?_, .inl (.inl (by simp [hprep]))⟩
            intro _ state' hp
            simp only [Prepares, hfetch, Option.some.injEq, hacc, forall_eq'] at hp
            obtain ⟨rfl, hp⟩ := hp
            simp [hprep, Except.isOk, Except.toBool] at hp
          · simp only [hprep]
            by_cases hskip : skip = true ∧ m.failedClosed = false
            · rw [if_pos hskip]
              obtain ⟨m', hclock, hrec, hinst⟩ :=
                installAccounting_cases { m with accounting := some a' } bindings state.revision i
              have hflag : ¬ m.failedClosed = true := by simp [hskip.2]
              rw [hinst]
              split
              · rename_i m₁ heq
                obtain ⟨rfl, -⟩ := Prod.mk.inj heq
                exact .inl ⟨{ m' with wgState := .unavailable },
                  ⟨hclock.1, hclock.2, hclock.3⟩, hrec, fun h => absurd h hflag, .inl (.inr rfl)⟩
              · rename_i m₁ heq
                obtain ⟨rfl, -⟩ := Prod.mk.inj heq
                exact .inl ⟨m', ⟨hclock.1, hclock.2, hclock.3⟩, hrec, fun h => absurd h hflag,
                  .inr ⟨hskip.2, rfl, rfl, rfl, rfl, rfl⟩⟩
            · rw [if_neg hskip]
              obtain ⟨m', hclock, hrec, h⟩ :=
                applyDesired_cases { m with accounting := some a' } state bindings i
              have hinst : (∀ x, some a' = some x → x.present = true ∨ i.install = true) ↔
                  m.Installs i state := by
                simp only [Installs, hacc, Option.some.injEq, forall_eq']
                rw [Accounting.prepare_present hprep, or_comm]
              refine .inr ⟨m', state, ⟨hclock.1, hclock.2, hclock.3⟩, ?_, hrec, ?_⟩
              · simp [Prepares, hfetch, hacc, hprep, Except.isOk, Except.toBool]
              · rw [← hinst]
                exact h

/-- What a cycle that starts with the flag set must meet for the flag to stay
truthful.  When its snapshot reaches `Apply` and is valid, either every
operation of `Apply` and the installation of the counter table succeed, or
`Apply` ends where the plane is still closed. -/
def RecoverySafe (m : Manager) (i : CycleInput) : Prop :=
  m.failedClosed = true → ∀ state, m.Prepares i state →
    (desiredStateFromResponse state).validate = .ok () →
      (m.reconciler.Completes (desiredStateFromResponse state) i.apply ∧ m.Installs i state) ∨
        m.reconciler.KeepsClosed (desiredStateFromResponse state) i.apply

/-- The condition on one call. -/
def StepSafe (m : Manager) : Action → Prop
  | .cycle i => m.RecoverySafe i
  | .failClosed _ => True

theorem Fails.covered {m : Manager} {i : CycleInput} {result : Manager × Bool}
    (h : Fails m i result) (hc : m.reconciler.Covered) : result.1.reconciler.Covered := by
  rcases h with rfl | rfl
  · exact failClosedIfStale_covered hc i.now i.close
  · exact failClosed_covered hc i.close

theorem Fails.truthful {m : Manager} {i : CycleInput} {result : Manager × Bool}
    (h : Fails m i result) (hc : m.reconciler.Covered) (ht : m.Truthful) : result.1.Truthful := by
  rcases h with rfl | rfl
  · exact failClosedIfStale_truthful hc ht i.now i.close
  · exact failClosed_truthful hc ht i.close

theorem Fails.failedClosed {m : Manager} {i : CycleInput} {result : Manager × Bool}
    (h : Fails m i result) (hs : m.Stale i.now) (ho : i.close.failClose.Succeed) :
    result.1.failedClosed = true := by
  rcases h with rfl | rfl
  · exact failClosedIfStale_failedClosed hs ho
  · exact failClosed_failedClosed ho

/-- With the flag set a failing cycle does nothing more. -/
theorem Fails.eq {m : Manager} {i : CycleInput} {result : Manager × Bool}
    (h : Fails m i result) (hm : m.failedClosed = true) : result.1 = m := by
  rcases h with rfl | rfl
  · exact failClosedIfStale_of_failedClosed hm i.now i.close
  · exact failClosed_of_failedClosed hm i.close

/-- A cycle keeps the inventory over every active route. -/
theorem cycle_covered {m : Manager} (h : m.reconciler.Covered) (i : CycleInput) :
    (m.cycle i).1.reconciler.Covered := by
  rcases m.cycle_cases i with ⟨m', -, hrec, -, hf | ⟨-, hs⟩⟩ |
    ⟨m', state, -, -, hrec, ⟨-, hf⟩ | ⟨-, hs⟩⟩
  · exact hf.covered (hrec ▸ h)
  · exact hs.reconciler ▸ hrec ▸ h
  · exact hf.covered (hrec ▸ Reconciler.apply_covered h _ _)
  · exact hs.reconciler ▸ hrec ▸ Reconciler.apply_covered h _ _

/-- **One cycle.** It leaves the flag truthful exactly under `RecoverySafe`. -/
theorem cycle_truthful_iff {m : Manager} (h : m.reconciler.Covered) (ht : m.Truthful)
    (i : CycleInput) : (m.cycle i).1.Truthful ↔ m.RecoverySafe i := by
  rcases m.cycle_cases i with ⟨m', hclock, hrec, hnot, hf | ⟨hm, hs⟩⟩ |
    ⟨m', state, hclock, hprep, hrec, hout⟩
  · have ht' : m'.Truthful := by
      intro hm
      rw [hrec]
      exact ht (hclock.failedClosed ▸ hm)
    exact iff_of_true (hf.truthful (hrec ▸ h) ht') fun hm state hp => absurd hp (hnot hm state)
  · refine iff_of_true (fun hm' => ?_) (fun hm' => ?_)
    · simp [hs.failedClosed] at hm'
    · simp [hm] at hm'
  · have honly : ∀ state', m.Prepares i state' → state' = state := fun state' hp =>
      Option.some.inj (hp.1.symm.trans hprep.1)
    cases hm : m.failedClosed with
    | false =>
        have hsafe : m.RecoverySafe i := fun hm' => by simp [hm] at hm'
        refine iff_of_true ?_ hsafe
        rcases hout with ⟨-, hf⟩ | ⟨-, hs⟩
        · have ht' : m'.Truthful := fun hm' => by simp [hclock.failedClosed, hm] at hm'
          exact hf.truthful (hrec ▸ Reconciler.apply_covered h _ _) ht'
        · intro hm'
          simp [hs.failedClosed] at hm'
    | true =>
        have hclosed := ht hm
        have hflag' : m'.failedClosed = true := hclock.failedClosed.trans hm
        rcases hout with ⟨herr, hf⟩ | ⟨⟨hnone, hinst⟩, hs⟩
        · -- the flag is still set, so everything rests on what `Apply` left
          rw [hf.eq hflag']
          by_cases hv : (desiredStateFromResponse state).validate = .ok ()
          · have hncomplete : ¬ (m.reconciler.Completes (desiredStateFromResponse state) i.apply ∧
                m.Installs i state) := by
              intro hc
              rcases herr with herr | herr
              · exact herr ((Reconciler.apply_eq_none_iff _ _ _).mpr ⟨hv, hc.1⟩)
              · exact herr hc.2
            constructor
            · intro htruth _ state' hp _
              obtain rfl := honly state' hp
              have := htruth hflag'
              rw [hrec, Reconciler.apply_closed_iff hclosed i.apply hv] at this
              exact .inr this
            · intro hsafe _
              rw [hrec, Reconciler.apply_closed_iff hclosed i.apply hv]
              exact (hsafe hm state hprep hv).resolve_left hncomplete
          · refine iff_of_true ?_ ?_
            · intro _
              rw [hrec, (m.reconciler.apply_of_invalid i.apply hv).1]
              exact hclosed
            · intro _ state' hp hv'
              obtain rfl := honly state' hp
              exact absurd hv' hv
        · refine iff_of_true ?_ ?_
          · intro hm'
            simp [hs.failedClosed] at hm'
          · intro _ state' hp _
            obtain rfl := honly state' hp
            exact .inl ⟨((Reconciler.apply_eq_none_iff _ _ _).mp hnone).2, hinst⟩

/-- A cycle that ends in failure with a stale last success and a fail-close
that succeeds sets the flag, or finds it set. -/
theorem cycle_failedClosed {m : Manager} {i : CycleInput} (hfail : (m.cycle i).2 = false)
    (hs : m.Stale i.now) (ho : i.close.failClose.Succeed) :
    (m.cycle i).1.failedClosed = true := by
  have hstale : ∀ m', SameClock m m' → m'.Stale i.now := by
    intro m' hclock t ht
    rw [hclock.maxStaleness]
    exact hs t (hclock.lastSuccess ▸ ht)
  rcases m.cycle_cases i with ⟨m', hclock, -, -, hf | ⟨-, hsucc⟩⟩ |
    ⟨m', state, hclock, -, -, ⟨-, hf⟩ | ⟨-, hsucc⟩⟩
  · exact hf.failedClosed (hstale m' hclock) ho
  · simp [hsucc.success] at hfail
  · exact hf.failedClosed (hstale m' hclock) ho
  · simp [hsucc.success] at hfail

/-! ## runs -/

theorem step_covered {m : Manager} (h : m.reconciler.Covered) (a : Action) :
    (m.step a).reconciler.Covered := by
  cases a with
  | cycle i => exact cycle_covered h i
  | failClosed i => exact failClosed_covered h i

theorem step_truthful_iff {m : Manager} (h : m.reconciler.Covered) (ht : m.Truthful) (a : Action) :
    (m.step a).Truthful ↔ m.StepSafe a := by
  cases a with
  | cycle i => exact cycle_truthful_iff h ht i
  | failClosed i => exact iff_of_true (failClosed_truthful h ht i) trivial

theorem run_covered {m : Manager} (h : m.reconciler.Covered) (actions : List Action) :
    (m.run actions).reconciler.Covered := by
  induction actions generalizing m with
  | nil => exact h
  | cons a actions ih => exact ih (step_covered h a)

/-- Every state of a run is truthful exactly when every call of it is safe. -/
theorem run_truthful_iff_safe {m : Manager} (h : m.reconciler.Covered) (ht : m.Truthful)
    (actions : List Action) :
    (∀ done rest, done ++ rest = actions → (m.run done).Truthful) ↔
      ∀ done a rest, done ++ a :: rest = actions → (m.run done).StepSafe a := by
  constructor
  · intro hall done a rest hsplit
    have hbefore := hall done (a :: rest) hsplit
    have hafter := hall (done ++ [a]) rest (by simpa using hsplit)
    rw [run, List.foldl_append] at hafter
    exact (step_truthful_iff (run_covered h done) hbefore a).mp hafter
  · intro hsafe done
    induction done using List.reverseRecOn with
    | nil => exact fun _ _ => ht
    | append_singleton done a ih =>
        intro rest hsplit
        have hbefore := ih (a :: rest) (by simpa using hsplit)
        have hstep := hsafe done a rest (by simpa using hsplit)
        rw [run, List.foldl_append]
        exact (step_truthful_iff (run_covered h done) hbefore a).mpr hstep

/-- **The flag over whole runs.** On a plane that starts without active routes,
every state of a run is truthful exactly when every cycle that starts with the
flag set meets `RecoverySafe`.  In such a run a cycle that fails with a stale
last success, and whose fail-close succeeds, leaves the plane closed. -/
theorem run_truthful_iff (d : Dataplane) (hd : ∀ p, d.routes p ≠ .activated)
    (maxStaleness : Int) (accounting : Bool) (actions : List Action) :
    ((∀ done rest, done ++ rest = actions → ((new d maxStaleness accounting).run done).Truthful) ↔
      ∀ done a rest, done ++ a :: rest = actions →
        ((new d maxStaleness accounting).run done).StepSafe a) ∧
    ((∀ done a rest, done ++ a :: rest = actions →
        ((new d maxStaleness accounting).run done).StepSafe a) →
      ∀ done i rest, done ++ .cycle i :: rest = actions →
        (((new d maxStaleness accounting).run done).cycle i).2 = false →
        ((new d maxStaleness accounting).run done).Stale i.now → i.close.failClose.Succeed →
          ((new d maxStaleness accounting).run (done ++ [.cycle i])).reconciler.Closed) := by
  have hcov : (new d maxStaleness accounting).reconciler.Covered := fun p hp => absurd hp (hd p)
  have htruth : (new d maxStaleness accounting).Truthful := fun h => by simp [new] at h
  have hiff := run_truthful_iff_safe hcov htruth actions
  refine ⟨hiff, ?_⟩
  intro hsafe done i rest hsplit hfail hstale ho
  have hrun : (new d maxStaleness accounting).run (done ++ [.cycle i]) =
      (((new d maxStaleness accounting).run done).cycle i).1 := by
    simp [run, step]
  have hafter := hiff.mpr hsafe (done ++ [.cycle i]) rest (by simpa using hsplit)
  apply hafter
  rw [hrun]
  exact cycle_failedClosed hfail hstale ho

/-! ## a partial recovery -/

/-- A snapshot with one peer and its prefix. -/
def onePeer : WireGuardDesiredState where
  revision := "1"
  managedPrefixes := ["198.51.100.7/32"]
  peers := [⟨"AQAAAAAAAAAAAAAAAAAAAAAAAAAAAAAAAAAAAAAAAAA=", ["198.51.100.7/32"]⟩]
  smtpAllowedPrefixes := []
  prefixBindings := none

/-- Every fail-close operation succeeds. -/
def closes : CloseInput where
  collect := ⟨.failed, false⟩
  remove := true
  failClose := ⟨.ok, .ok, fun _ => .ok⟩

/-- A cycle whose fetch fails. -/
def unreachable (now : Int) : CycleInput where
  fetch := none
  now := now
  collect := ⟨.failed, false⟩
  remove := true
  install := true
  apply := ⟨fun _ => .ok, .ok, .ok, fun _ => .ok, closes.failClose⟩
  close := closes

/-- A cycle that gets the snapshot; `activate` is what activating its route
meets. -/
def recovery (now : Int) (activate : Outcome) : CycleInput :=
  { unreachable now with
    fetch := some onePeer
    apply := ⟨fun _ => .ok, .ok, .ok, fun _ => activate, closes.failClose⟩ }

/-- A plane with nothing installed. -/
def bare : Dataplane where
  peers := []
  policy := ([], [])
  routes := fun _ => .absent
  log := []

/-- The plane fails closed before the first snapshot arrives.  The snapshot's
peer is installed, its route is not: the flag stays set over an open plane, and
the stale failing cycle that follows closes nothing. -/
theorem run_not_truthful :
    ¬ ((new bare 60 false).run
        [.cycle (unreachable 0), .cycle (recovery 1 (.failed false))]).Truthful ∧
    ¬ ((new bare 60 false).run [.cycle (unreachable 0), .cycle (recovery 1 (.failed false)),
        .cycle (unreachable 1000)]).reconciler.Closed := by
  constructor
  · intro h
    have hclosed := (h (by decide +kernel)).peers
    exact absurd hclosed (by decide +kernel)
  · intro h
    exact absurd h.peers (by decide +kernel)

/-- With the route activated as well the same run is truthful throughout, and
the stale cycle closes the plane. -/
theorem run_truthful_recovered :
    (∀ done rest, done ++ rest = [.cycle (unreachable 0), .cycle (recovery 1 .ok),
        .cycle (unreachable 1000)] → ((new bare 60 false).run done).Truthful) ∧
    ((new bare 60 false).run [.cycle (unreachable 0), .cycle (recovery 1 .ok),
        .cycle (unreachable 1000)]).reconciler.Closed := by
  have hbare : ∀ p, bare.routes p ≠ .activated := fun p => by simp [bare]
  have hsafe : ∀ done a rest, done ++ a :: rest = [.cycle (unreachable 0),
      .cycle (recovery 1 .ok), .cycle (unreachable 1000)] →
        ((new bare 60 false).run done).StepSafe a := by
    intro done a rest hsplit
    rcases done with _ | ⟨b, _ | ⟨c, _ | ⟨e, done⟩⟩⟩
    · obtain ⟨rfl, -⟩ := List.cons.inj hsplit
      exact fun _ _ hp _ => by simp [Prepares, unreachable] at hp
    · obtain ⟨rfl, htail⟩ := List.cons.inj hsplit
      obtain ⟨rfl, -⟩ := List.cons.inj htail
      refine fun _ state hp _ => .inl ⟨⟨?_, rfl, rfl, ?_⟩, ?_⟩
      · exact fun p _ _ => rfl
      · exact fun p _ _ => rfl
      · exact fun a _ => .inl rfl
    · obtain ⟨rfl, htail⟩ := List.cons.inj hsplit
      obtain ⟨rfl, htail'⟩ := List.cons.inj htail
      obtain ⟨rfl, -⟩ := List.cons.inj htail'
      exact fun _ _ hp _ => by simp [Prepares, unreachable] at hp
    · simp at hsplit
  have hmain := run_truthful_iff bare hbare 60 false
    [.cycle (unreachable 0), .cycle (recovery 1 .ok), .cycle (unreachable 1000)]
  refine ⟨hmain.1.mpr hsafe, ?_⟩
  refine hmain.2 hsafe [.cycle (unreachable 0), .cycle (recovery 1 .ok)] (unreachable 1000) [] rfl
    (by decide +kernel) (by decide +kernel) ⟨rfl, rfl, fun _ => rfl⟩

end Manager

end Relay
