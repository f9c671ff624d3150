import Mathlib.Algebra.Group.Int.Defs
import Blindport.Wgnet.State

/-!
# Blindport.Relay.Accounting

`cmd/blindport-relay/wireguard_accounting.go`: the coordinator between the
desired state, the kernel counter table and the bandwidth reporter.

The counter table (`Install`, `Remove`, `Read`) and the reporter's ledger are
outside; each call takes the outcome of what it asks them.  `credited` is the
list of increments the ledger accepted.
-/

namespace Relay

open Wgnet

/-- `relayauth.PrefixBinding`: one active routed /32 and its subscription. -/
structure PrefixBinding where
  routedPrefix : String
  subscriptionID : String
deriving DecidableEq

/-- `relayauth.WireGuardDesiredState`.  `prefixBindings` is absent in the
answers of the endpoints before v3. -/
structure WireGuardDesiredState where
  revision : String
  managedPrefixes : List String
  peers : List Peer
  smtpAllowedPrefixes : List String
  prefixBindings : Option (List PrefixBinding)
deriving DecidableEq

/-- `desiredStateFromResponse`. -/
def desiredStateFromResponse (state : WireGuardDesiredState) : DesiredState where
  revision := state.revision
  managedPrefixes := state.managedPrefixes
  peers := state.peers
  smtpAllowedPrefixes := state.smtpAllowedPrefixes

/-- `canonicalSubscriptionID`. -/
def canonicalSubscriptionID (value : String) : Bool := Uuid.canonical value

/-! ## bindings -/

/-- The loop of `bandwidthBindings`; the two sets hold what was seen so far. -/
def checkBindings : List PrefixBinding → List String → List String → Bool
  | [], _, _ => true
  | b :: bs, seenPrefix, seenSubscription =>
      match validatePrefix b.routedPrefix with
      | .error _ => false
      | .ok _ =>
          if canonicalSubscriptionID b.subscriptionID = false then false
          else if b.routedPrefix ∈ seenPrefix then false
          else if b.subscriptionID ∈ seenSubscription then false
          else checkBindings bs (b.routedPrefix :: seenPrefix)
            (b.subscriptionID :: seenSubscription)

/-- The bindings in prefix order. -/
def sortBindings (bs : List PrefixBinding) : List PrefixBinding :=
  bs.insertionSort fun x y => x.routedPrefix ≤ y.routedPrefix

/-- `bandwidthBindings`: exactly one binding for every active prefix, or the
snapshot is refused. -/
def bandwidthBindings (state : WireGuardDesiredState) : Option (List PrefixBinding) :=
  match state.prefixBindings with
  | none => none
  | some bindings =>
      let active := (desiredStateFromResponse state).activePrefixes
      if bindings.length ≠ active.length then none
      else if checkBindings bindings [] [] = false then none
      else if active.any fun p => p ∉ bindings.map PrefixBinding.routedPrefix then none
      else some (sortBindings bindings)

/-- What the binding loop accepts. -/
theorem checkBindings_iff (bs : List PrefixBinding) (seenPrefix seenSubscription : List String) :
    checkBindings bs seenPrefix seenSubscription = true ↔
      (∀ b ∈ bs, (∃ ip, validatePrefix b.routedPrefix = .ok ip) ∧
        canonicalSubscriptionID b.subscriptionID = true) ∧
      (bs.map PrefixBinding.routedPrefix).Nodup ∧
      (∀ b ∈ bs, b.routedPrefix ∉ seenPrefix) ∧
      (bs.map PrefixBinding.subscriptionID).Nodup ∧
      ∀ b ∈ bs, b.subscriptionID ∉ seenSubscription := by
  induction bs generalizing seenPrefix seenSubscription with
  | nil => simp [checkBindings]
  | cons b bs ih =>
      rw [checkBindings]
      cases hp : validatePrefix b.routedPrefix with
      | error e => simp [hp]
      | ok ip =>
          by_cases hid : canonicalSubscriptionID b.subscriptionID = false
          · simp [hid]
          · by_cases hseen : b.routedPrefix ∈ seenPrefix
            · simp [hid, hseen]
            · by_cases hsub : b.subscriptionID ∈ seenSubscription
              · simp [hid, hseen, hsub]
              · simp only [hid, hseen, hsub, if_false, reduceCtorEq]
                rw [ih]
                simp only [List.map_cons, List.nodup_cons, List.mem_cons, List.mem_map]
                grind

/-- `bandwidthBindings` accepts exactly one well-formed binding for every owned
prefix. -/
theorem bandwidthBindings_eq_some_iff (state : WireGuardDesiredState) (bs : List PrefixBinding) :
    bandwidthBindings state = some bs ↔ ∃ bindings, state.prefixBindings = some bindings ∧
      bindings.length = (desiredStateFromResponse state).owned.length ∧
      ((∀ b ∈ bindings, (∃ ip, validatePrefix b.routedPrefix = .ok ip) ∧
        canonicalSubscriptionID b.subscriptionID = true) ∧
      (bindings.map PrefixBinding.routedPrefix).Nodup ∧
      (bindings.map PrefixBinding.subscriptionID).Nodup) ∧
      (∀ p ∈ (desiredStateFromResponse state).owned,
        p ∈ bindings.map PrefixBinding.routedPrefix) ∧ bs = sortBindings bindings := by
  unfold bandwidthBindings
  cases hb : state.prefixBindings with
  | none => simp
  | some bindings =>
      have hlen : (desiredStateFromResponse state).activePrefixes.length =
          (desiredStateFromResponse state).owned.length := (perm_sortStrings _).length_eq
      have hcheck := checkBindings_iff bindings [] []
      simp only [List.not_mem_nil, not_false_eq_true, implies_true, true_and, and_true] at hcheck
      have hany : ((desiredStateFromResponse state).activePrefixes.any fun p =>
          p ∉ bindings.map PrefixBinding.routedPrefix) = true ↔
          ¬ ∀ p ∈ (desiredStateFromResponse state).owned,
            p ∈ bindings.map PrefixBinding.routedPrefix := by
        simp
      simp only [hlen, Option.some.injEq, exists_eq_left', ← hcheck]
      split
      · simp_all
      · split
        · simp_all
        · split
          · rename_i hmiss
            simp only [reduceCtorEq, false_iff]
            exact fun h => (hany.mp hmiss) h.2.2.1
          · rename_i hmiss
            have hall := not_not.mp fun h => hmiss (hany.mpr h)
            rename_i hlength hchecked
            simp only [ne_eq, not_not] at hlength
            simp only [Bool.not_eq_false] at hchecked
            constructor
            · intro hbs
              exact ⟨hlength, hchecked, hall, (Option.some.inj hbs).symm⟩
            · rintro ⟨-, -, -, rfl⟩
              rfl

/-- `samePrefixBindings`. -/
def samePrefixBindings (left right : List PrefixBinding) : Bool := left = right

/-! ## the coordinator -/

/-- `wgnet.AccountingCounter`. -/
structure AccountingCounter where
  subscriptionID : String
  ingressBytes : Int
  egressBytes : Int
deriving DecidableEq

inductive BandwidthDirection where
  | ingress
  | egress
deriving DecidableEq

/-- `bandwidthIncrement`. -/
structure BandwidthIncrement where
  subscriptionID : String
  direction : BandwidthDirection
  count : Int
deriving DecidableEq

/-- What reading the counter table gave. -/
inductive CounterRead where
  | counters (cs : List AccountingCounter)
  | tableMissing
  | failed
deriving DecidableEq

/-- The outcomes `collect` meets: the table read and the ledger's answer. -/
structure CollectOutcomes where
  read : CounterRead
  addBatch : Bool
deriving DecidableEq

/-- The errors of the coordinator.  `tableMissing` is
`wgnet.ErrAccountingTableMissing`. -/
inductive AccountingError where
  | bindings
  | tableMissing
  | read
  | incompleteCounters
  | invalidCounter
  | duplicateCounter
  | platformLimit
  | ledger
  | remove
deriving DecidableEq

/-- `wireGuardBandwidthAccounting`. -/
structure Accounting where
  bindings : List PrefixBinding
  last : List AccountingCounter
  present : Bool
  applied : Bool
  revision : String
  credited : List BandwidthIncrement
deriving DecidableEq

namespace Accounting

/-- `newWireGuardBandwidthAccounting`. -/
def new : Accounting where
  bindings := []
  last := []
  present := false
  applied := false
  revision := ""
  credited := []

/-- `zeroCounterTotals`. -/
def zeroCounterTotals (bindings : List PrefixBinding) : List AccountingCounter :=
  bindings.map fun b => ⟨b.subscriptionID, 0, 0⟩

/-- The totals recorded for a subscription, zero when there are none. -/
def lastTotals (last : List AccountingCounter) (subscriptionID : String) : AccountingCounter :=
  (last.find? fun c => c.subscriptionID = subscriptionID).getD ⟨"", 0, 0⟩

/-- The checks of `collect` on the counters read; `current` holds the ones
accepted so far. -/
def checkCounters (expected : List String) : List AccountingCounter → List String →
    Option AccountingError
  | [], _ => none
  | c :: cs, current =>
      if c.subscriptionID ∉ expected ∨ c.ingressBytes < 0 ∨ c.egressBytes < 0 then
        some .invalidCounter
      else if c.subscriptionID ∈ current then some .duplicateCounter
      else checkCounters expected cs (c.subscriptionID :: current)

/-- `deltaIncrement`: a counter that went back is skipped. -/
def deltaIncrement (subscriptionID : String) (direction : BandwidthDirection) (delta : Int) :
    Except AccountingError (Option BandwidthIncrement) :=
  if delta < 0 then .ok none
  else if delta > 2 ^ 63 - 1 then .error .platformLimit
  else .ok (some ⟨subscriptionID, direction, delta⟩)

/-- The increments of one counter against the last totals. -/
def counterIncrements (last : List AccountingCounter) (c : AccountingCounter) :
    Except AccountingError (List BandwidthIncrement) := do
  let previous := lastTotals last c.subscriptionID
  let ingress ← deltaIncrement c.subscriptionID .ingress (c.ingressBytes - previous.ingressBytes)
  let egress ← deltaIncrement c.subscriptionID .egress (c.egressBytes - previous.egressBytes)
  .ok (ingress.toList ++ egress.toList)

/-- The increments of all counters. -/
def increments (last : List AccountingCounter) : List AccountingCounter →
    Except AccountingError (List BandwidthIncrement)
  | [] => .ok []
  | c :: cs => do
      let head ← counterIncrements last c
      let tail ← increments last cs
      .ok (head ++ tail)

/-- `collect`: credit what the counters gained since the last collection. -/
def collect (a : Accounting) (o : CollectOutcomes) : Accounting × Option AccountingError :=
  if a.present = false then (a, none)
  else match o.read with
    | .tableMissing => ({ a with present := false, last := [] }, some .tableMissing)
    | .failed => (a, some .read)
    | .counters counters =>
        if counters.length ≠ a.bindings.length then (a, some .incompleteCounters)
        else match checkCounters (a.bindings.map PrefixBinding.subscriptionID) counters [] with
          | some e => (a, some e)
          | none =>
              match increments a.last counters with
              | .error e => (a, some e)
              | .ok batch =>
                  if o.addBatch then
                    ({ a with last := counters, credited := a.credited ++ batch }, none)
                  else (a, some .ledger)

/-- `prepare` drains counters before replacing an attribution table.  It
reports whether the unchanged desired revision can retry a failed install
directly. -/
def prepare (a : Accounting) (state : WireGuardDesiredState) (o : CollectOutcomes)
    (remove : Bool) : Accounting × Except AccountingError (List PrefixBinding × Bool) :=
  match bandwidthBindings state with
  | none => (a, .error .bindings)
  | some bindings =>
      if samePrefixBindings a.bindings bindings then
        if a.present then
          match a.collect o with
          | (a, none) => (a, .ok (bindings, false))
          | (a, some .tableMissing) => (a, .ok (bindings, true))
          | (a, some e) => (a, .error e)
        else if a.applied ∧ a.revision = state.revision then (a, .ok (bindings, true))
        else (a, .ok (bindings, false))
      else if a.present then
        let collected := a.collect o
        let a := collected.1
        if collected.2 ≠ none ∧ collected.2 ≠ some .tableMissing then
          (a, .error (collected.2.getD .read))
        else if a.present = false then (a, .ok (bindings, false))
        else if remove = false then (a, .error .remove)
        else ({ a with present := false, last := [] }, .ok (bindings, false))
      else (a, .ok (bindings, false))

/-- `appliedState` records the applied bindings and installs their counter
table unless one is present; the result says whether that succeeded. -/
def appliedState (a : Accounting) (bindings : List PrefixBinding) (revision : String)
    (install : Bool) : Accounting × Bool :=
  let a := { a with bindings := bindings, applied := true, revision := revision }
  if a.present then (a, true)
  else if install then ({ a with present := true, last := zeroCounterTotals bindings }, true)
  else (a, false)

/-- `close` drains the installed table and removes it before the authorization
plane is failed closed.  Errors are not fatal to the fail-close. -/
def close (a : Accounting) (o : CollectOutcomes) (remove : Bool) : Accounting :=
  if a.present = false then a
  else
    let a := (a.collect o).1
    if remove then { a with present := false, last := [] } else a

/-! ## what the coordinator reports -/

theorem checkCounters_ne_tableMissing (expected : List String) (cs : List AccountingCounter)
    (current : List String) : checkCounters expected cs current ≠ some .tableMissing := by
  fun_induction checkCounters expected cs current <;> simp_all

theorem deltaIncrement_error {subscriptionID : String} {direction : BandwidthDirection}
    {delta : Int} (h : deltaIncrement subscriptionID direction delta = .error e) :
    e = .platformLimit := by
  unfold deltaIncrement at h
  grind

theorem counterIncrements_error {last : List AccountingCounter} {c : AccountingCounter}
    (h : counterIncrements last c = .error e) : e = .platformLimit := by
  unfold counterIncrements at h
  dsimp only at h
  cases hin : deltaIncrement c.subscriptionID .ingress
      (c.ingressBytes - (lastTotals last c.subscriptionID).ingressBytes) with
  | error e' =>
      simp only [hin] at h
      cases h
      exact deltaIncrement_error hin
  | ok ingress =>
      cases hout : deltaIncrement c.subscriptionID .egress
          (c.egressBytes - (lastTotals last c.subscriptionID).egressBytes) with
      | error e' =>
          simp only [hin, hout] at h
          cases h
          exact deltaIncrement_error hout
      | ok egress =>
          simp only [hin, hout] at h
          cases h

theorem increments_error {last cs : List AccountingCounter} (h : increments last cs = .error e) :
    e = .platformLimit := by
  induction cs with
  | nil => cases h
  | cons c cs ih =>
      unfold increments at h
      cases hhead : counterIncrements last c with
      | error e' =>
          simp only [hhead] at h
          cases h
          exact counterIncrements_error hhead
      | ok head =>
          cases htail : increments last cs with
          | error e' =>
              simp only [hhead, htail] at h
              cases h
              exact ih htail
          | ok tail =>
              simp only [hhead, htail] at h
              cases h

theorem collect_present {a a' : Accounting} {o : CollectOutcomes} (h : a.collect o = (a', none)) :
    a'.present = a.present ∧ (a.present = true → o.read ≠ .tableMissing) := by
  unfold collect at h
  grind

theorem collect_tableMissing {a a' : Accounting} {o : CollectOutcomes}
    (h : a.collect o = (a', some .tableMissing)) :
    a'.present = false ∧ o.read = .tableMissing := by
  unfold collect at h
  grind [checkCounters_ne_tableMissing, increments_error]

/-- The table that is present after a successful `prepare` is the one that was
present before, for the same bindings. -/
theorem prepare_present {a a' : Accounting} {state : WireGuardDesiredState} {o : CollectOutcomes}
    {remove skip : Bool} {bindings : List PrefixBinding}
    (h : a.prepare state o remove = (a', .ok (bindings, skip))) :
    a'.present = true ↔
      a.present = true ∧ bandwidthBindings state = some a.bindings ∧ o.read ≠ .tableMissing := by
  unfold prepare at h
  cases hb : bandwidthBindings state with
  | none => simp [hb] at h
  | some b =>
      simp only [hb] at h
      by_cases hsame : a.bindings = b
      · simp only [samePrefixBindings, hsame, decide_true, if_true] at h
        cases hp : a.present with
        | false => grind
        | true =>
            rcases hc : a.collect o with ⟨a₁, e⟩
            grind [collect_present, collect_tableMissing]
      · have hne : ¬ (some b = some a.bindings) := fun e => hsame (Option.some.inj e).symm
        simp only [samePrefixBindings, hsame, decide_false, Bool.false_eq_true, if_false] at h
        cases hp : a.present with
        | false => grind
        | true => grind

@[simp] theorem appliedState_ok_iff (a : Accounting) (bindings : List PrefixBinding)
    (revision : String) (install : Bool) :
    (a.appliedState bindings revision install).2 = true ↔ a.present = true ∨ install = true := by
  unfold appliedState
  cases a.present <;> cases install <;> simp

end Accounting

end Relay
