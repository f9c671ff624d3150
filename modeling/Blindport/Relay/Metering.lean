import Blindport.Relay.Bandwidth
import Blindport.Wgnet.Reconciler
import Mathlib.Algebra.BigOperators.Group.List.Basic
import Mathlib.Algebra.Order.Group.Int
import Mathlib.Data.List.Induction

/-!
# Blindport.Relay.Metering

The coordinator of `Blindport.Relay.Accounting` beside the kernel's counter
table it installs, reads and removes.

A table counts the bytes of each bound prefix from zero, so each `Install`
starts an epoch; the table may vanish, a read may fail or miss the table, and a
failed `Install` or `Remove` may have taken effect.  `epochs` keeps, for every
table that was installed, its rows as the last successful collect read them:
what the coordinator credited to a subscription is their sum
(`credited_eq_collected`).
-/

namespace Relay

open Wgnet

/-! ## the counter table -/

/-- A row of the table: the bytes of one prefix, to the subscription it was
bound to. -/
structure MeterRow where
  binding : PrefixBinding
  ingress : ℕ
  egress : ℕ
deriving DecidableEq

/-- The bytes of one direction. -/
def AccountingCounter.bytes (c : AccountingCounter) : BandwidthDirection → ℤ
  | .ingress => c.ingressBytes
  | .egress => c.egressBytes

namespace MeterRow

/-- What `Read` returns of the row. -/
def counter (row : MeterRow) : AccountingCounter :=
  ⟨row.binding.subscriptionID, row.ingress, row.egress⟩

/-- The row of a binding as `Install` makes it. -/
def zero (binding : PrefixBinding) : MeterRow := ⟨binding, 0, 0⟩

/-- The row after traffic of a prefix. -/
def count (row : MeterRow) (routedPrefix : String) (ingress egress : ℕ) : MeterRow :=
  if row.binding.routedPrefix = routedPrefix then
    { row with ingress := row.ingress + ingress, egress := row.egress + egress }
  else row

/-- The row counted on from an earlier reading. -/
def CountedFrom (row earlier : MeterRow) : Prop :=
  earlier.binding = row.binding ∧ earlier.ingress ≤ row.ingress ∧ earlier.egress ≤ row.egress

end MeterRow

/-- How a read of the table ends. -/
inductive ReadOutcome where
  | ok
  | failed
  | missing
deriving DecidableEq

/-- What a collect meets: the read and the ledger's `addBatch`. -/
structure CollectInput where
  read : ReadOutcome
  addBatch : Bool
deriving DecidableEq

/-- `validateBindings` of the counter table. -/
def validateBindings (bindings : List PrefixBinding) : Bool :=
  bindings.length ≤ 10000 ∧ checkBindings (sortBindings bindings) [] []

/-- The coordinator, the kernel's table and, newest first, the rows of every
installed table at its last successful collect. -/
structure Metered where
  accounting : Accounting
  kernel : Option (List MeterRow)
  epochs : List (List MeterRow)
deriving DecidableEq

/-- The coordinator's calls, the traffic, and the loss of the table. -/
inductive MeterEvent where
  | traffic (routedPrefix : String) (ingress egress : ℕ)
  | vanish
  | collect (i : CollectInput)
  | prepare (state : WireGuardDesiredState) (i : CollectInput) (remove : Wgnet.Outcome)
  | appliedState (bindings : List PrefixBinding) (revision : String) (install : Wgnet.Outcome)
  | close (i : CollectInput) (remove : Wgnet.Outcome)

namespace Metered

def start : Metered := ⟨Accounting.new, none, []⟩

/-- `Read`. -/
def read (m : Metered) : ReadOutcome → CounterRead
  | .failed => .failed
  | .missing => .tableMissing
  | .ok =>
      match m.kernel with
      | none => .tableMissing
      | some table => .counters (table.map MeterRow.counter)

def outcomes (m : Metered) (i : CollectInput) : CollectOutcomes := ⟨m.read i.read, i.addBatch⟩

/-- The collect reads a table and succeeds. -/
def Collects (m : Metered) (i : CollectInput) : Prop :=
  m.accounting.present = true ∧ (m.accounting.collect (m.outcomes i)).2 = none

instance (m : Metered) (i : CollectInput) : Decidable (m.Collects i) :=
  inferInstanceAs (Decidable (_ ∧ _))

/-- The epochs after a collect: a successful one reads the newest table. -/
def collected (m : Metered) (i : CollectInput) : List (List MeterRow) :=
  if m.Collects i then
    match m.kernel with
    | some table => table :: m.epochs.tail
    | none => m.epochs
  else m.epochs

/-- `prepare` removes the table: its bindings changed and it was collected. -/
def Replaces (m : Metered) (state : WireGuardDesiredState) (i : CollectInput) : Prop :=
  ∃ bindings ∈ bandwidthBindings state,
    samePrefixBindings m.accounting.bindings bindings = false ∧ m.Collects i

instance (m : Metered) (state : WireGuardDesiredState) (i : CollectInput) :
    Decidable (m.Replaces state i) :=
  inferInstanceAs (Decidable (∃ bindings ∈ bandwidthBindings state, _))

/-- The outcome of `Install`, which refuses invalid bindings before anything
runs. -/
def installOutcome (bindings : List PrefixBinding) (install : Wgnet.Outcome) : Wgnet.Outcome :=
  if validateBindings bindings then install else .failed false

/-- One call or event. -/
def step (m : Metered) : MeterEvent → Metered
  | .traffic routedPrefix ingress egress =>
      { m with
        kernel := m.kernel.map fun table =>
          table.map fun row => row.count routedPrefix ingress egress }
  | .vanish => { m with kernel := none }
  | .collect i =>
      { m with
        accounting := (m.accounting.collect (m.outcomes i)).1
        epochs := m.collected i }
  | .prepare state i remove =>
      { accounting := (m.accounting.prepare state (m.outcomes i) (remove = .ok)).1
        kernel := if m.Replaces state i ∧ remove.tookEffect then none else m.kernel
        epochs := if (bandwidthBindings state).isSome then m.collected i else m.epochs }
  | .appliedState bindings revision install =>
      let outcome := installOutcome bindings install
      let accounting := (m.accounting.appliedState bindings revision (outcome = .ok)).1
      if m.accounting.present = false ∧ outcome.tookEffect then
        { accounting := accounting
          kernel := some (bindings.map MeterRow.zero)
          epochs := bindings.map MeterRow.zero :: m.epochs }
      else { m with accounting := accounting }
  | .close i remove =>
      { accounting := m.accounting.close (m.outcomes i) (remove = .ok)
        kernel := if m.accounting.present ∧ remove.tookEffect then none else m.kernel
        epochs := m.collected i }

/-- Any sequence of calls. -/
def run (events : List MeterEvent) : Metered := events.foldl step start

end Metered

/-! ## sums -/

/-- What the increments add to one direction of a subscription. -/
def creditOf (increments : List BandwidthIncrement) (subscriptionID : String)
    (direction : BandwidthDirection) : ℤ :=
  ((increments.filter fun i => i.subscriptionID = subscriptionID ∧ i.direction = direction).map
    BandwidthIncrement.count).sum

/-- What the counters read for a subscription. -/
def bytesOf (counters : List AccountingCounter) (subscriptionID : String)
    (direction : BandwidthDirection) : ℤ :=
  ((counters.filter fun c => c.subscriptionID = subscriptionID).map fun c => c.bytes direction).sum

@[simp] theorem creditOf_append (xs ys : List BandwidthIncrement) (s : String)
    (d : BandwidthDirection) : creditOf (xs ++ ys) s d = creditOf xs s d + creditOf ys s d := by
  simp [creditOf]

theorem bytesOf_cons (c : AccountingCounter) (cs : List AccountingCounter) (s : String)
    (d : BandwidthDirection) :
    bytesOf (c :: cs) s d = (if c.subscriptionID = s then c.bytes d else 0) + bytesOf cs s d := by
  unfold bytesOf
  by_cases hs : c.subscriptionID = s
  · rw [List.filter_cons_of_pos (by simpa using hs), if_pos hs, List.map_cons, List.sum_cons]
  · rw [List.filter_cons_of_neg (by simpa using hs), if_neg hs, zero_add]

theorem creditOf_cons (i : BandwidthIncrement) (is : List BandwidthIncrement) (s : String)
    (d : BandwidthDirection) : creditOf (i :: is) s d =
      (if i.subscriptionID = s ∧ i.direction = d then i.count else 0) + creditOf is s d := by
  unfold creditOf
  by_cases hi : i.subscriptionID = s ∧ i.direction = d
  · rw [List.filter_cons_of_pos (by simpa using hi), if_pos hi, List.map_cons, List.sum_cons]
  · rw [List.filter_cons_of_neg (by simpa using hi), if_neg hi, zero_add]

/-- The bytes of an entry that the loop of `addBatch` has in hand. -/
def pendingBytes (pending entries : BandwidthEntries) (k : BandwidthKey)
    (d : BandwidthDirection) : ℤ :=
  BandwidthTotals.bytes (((pending.lookup k).or (entries.lookup k)).getD 0) d

theorem bytes_plus (totals : BandwidthTotals) (count : ℕ) (direction d : BandwidthDirection) :
    (totals.plus count direction).bytes d =
      totals.bytes d + if direction = d then count else 0 := by
  cases direction <;> cases d <;> rfl

theorem addPending_credits {entries pending result : BandwidthEntries} {day : ℤ}
    {is : List BandwidthIncrement} {n : ℕ}
    (h : addPending entries day is pending n = .ok result) (s : String) (d : BandwidthDirection) :
    pendingBytes result entries ⟨s, day⟩ d =
      pendingBytes pending entries ⟨s, day⟩ d + creditOf is s d := by
  fun_induction addPending entries day is pending n with
  | case1 pending n =>
      cases h
      simp [creditOf]
  | case2 => cases h
  | case3 i is pending n hvalid hzero ih =>
      rw [ih h, creditOf_cons, hzero]
      simp
  | case4 => cases h
  | case5 => cases h
  | case6 i is pending n key isNew counted totals hvalid hzero hlimit hover ih =>
      have hpos : (i.count.toNat : ℤ) = i.count := by omega
      rw [ih h, creditOf_cons]
      by_cases hs : i.subscriptionID = s
      · have hkey : (⟨s, day⟩ : BandwidthKey) = key := by rw [← hs]
        rw [pendingBytes, pendingBytes, hkey, AList.lookup_insert]
        show ((totals.plus i.count.toNat i.direction).bytes d : ℤ) + _ = totals.bytes d + _
        rw [bytes_plus]
        by_cases hd : i.direction = d
        · simp only [hs, hd, and_self, if_true]
          push_cast
          omega
        · simp [hd]
      · have hkey : (⟨s, day⟩ : BandwidthKey) ≠ key :=
          fun heq => hs (congrArg (·.subscriptionID) heq).symm
        rw [pendingBytes, pendingBytes, AList.lookup_insert_ne hkey]
        simp [hs]

/-- **An accepted batch adds to the ledger exactly its increments.** -/
theorem addBatch_credits {entries entries' : BandwidthEntries} {is : List BandwidthIncrement}
    {day : ℤ} (h : addBatch entries is day = .ok entries') (s : String) (d : BandwidthDirection) :
    (BandwidthTotals.bytes ((entries'.lookup ⟨s, day⟩).getD 0) d : ℤ) =
      BandwidthTotals.bytes ((entries.lookup ⟨s, day⟩).getD 0) d + creditOf is s d := by
  unfold addBatch at h
  cases hp : addPending entries day is ∅ 0 with
  | error e => rw [hp] at h; cases h
  | ok pending =>
      rw [hp] at h
      cases h
      have hcredit := addPending_credits hp s d
      show (BandwidthTotals.bytes (((Table.insertAll (Table.rows pending) entries).lookup
        ⟨s, day⟩).getD 0) d : ℤ) = _
      rw [Table.lookup_insertAll_rows]
      rw [pendingBytes, pendingBytes] at hcredit
      simpa using hcredit

namespace Accounting

/-- A counter that did not go back is credited with what it gained. -/
theorem creditOf_counterIncrements {last : List AccountingCounter} {c : AccountingCounter}
    {batch : List BandwidthIncrement} (h : counterIncrements last c = .ok batch)
    (hle : ∀ d, (lastTotals last c.subscriptionID).bytes d ≤ c.bytes d) (s : String)
    (d : BandwidthDirection) :
    creditOf batch s d = if c.subscriptionID = s then
      c.bytes d - (lastTotals last c.subscriptionID).bytes d else 0 := by
  have hin := hle .ingress
  have hout := hle .egress
  simp only [AccountingCounter.bytes] at hin hout
  unfold counterIncrements deltaIncrement at h
  simp only [bind, Except.bind] at h
  rw [if_neg (by omega), if_neg (show ¬ c.egressBytes - _ < 0 by omega)] at h
  split at h
  · cases h
  · split at h
    · cases h
    · rename_i ingress hingress _ egress hegress
      split at hingress
      · cases hingress
      · split at hegress
        · cases hegress
        · cases hingress
          cases hegress
          cases h
          by_cases hs : c.subscriptionID = s
          · cases d <;> simp [creditOf, AccountingCounter.bytes, hs]
          · cases d <;> simp [creditOf, hs]

/-- Rows that counted on from the last totals are credited with the
difference. -/
theorem creditOf_increments {last : List AccountingCounter} {table epoch : List MeterRow}
    (hrows : List.Forall₂ MeterRow.CountedFrom table epoch)
    (hlast : ∀ row ∈ epoch, ∀ d,
      (lastTotals last row.binding.subscriptionID).bytes d = row.counter.bytes d)
    {batch : List BandwidthIncrement} (h : increments last (table.map MeterRow.counter) = .ok batch)
    (s : String) (d : BandwidthDirection) :
    creditOf batch s d + bytesOf (epoch.map MeterRow.counter) s d =
      bytesOf (table.map MeterRow.counter) s d := by
  induction hrows generalizing batch with
  | nil =>
      cases h
      simp [creditOf, bytesOf]
  | @cons now earlier table epoch hrow _ ih =>
      obtain ⟨hbinding, hin, hout⟩ := hrow
      rw [List.map_cons, increments] at h
      cases hhead : counterIncrements last now.counter with
      | error e => rw [hhead] at h; cases h
      | ok head =>
          cases htail : increments last (table.map MeterRow.counter) with
          | error e => rw [hhead, htail] at h; cases h
          | ok tail =>
              rw [hhead, htail] at h
              cases h
              have hprevious : ∀ d, (lastTotals last now.counter.subscriptionID).bytes d =
                  earlier.counter.bytes d := by
                intro d
                rw [← hlast earlier List.mem_cons_self d, hbinding]
                rfl
              have hcredit := creditOf_counterIncrements hhead (fun d => ?_) s d
              · have htail := ih (fun row hrow => hlast row (List.mem_cons_of_mem _ hrow)) htail
                have hsub : earlier.counter.subscriptionID = now.counter.subscriptionID := by
                  show earlier.binding.subscriptionID = now.binding.subscriptionID
                  rw [hbinding]
                rw [creditOf_append, hcredit, List.map_cons, List.map_cons, bytesOf_cons,
                  bytesOf_cons, hsub, hprevious d]
                split <;> omega
              · rw [hprevious d]
                cases d with
                | ingress => exact Int.ofNat_le.mpr hin
                | egress => exact Int.ofNat_le.mpr hout

/-- Everything a collect can do. -/
theorem collect_cases (a : Accounting) (o : CollectOutcomes) :
    (a.present = false ∧ a.collect o = (a, none)) ∨
    (a.present = true ∧ ∃ counters batch, o.read = .counters counters ∧
      increments a.last counters = .ok batch ∧
      a.collect o = ({ a with last := counters, credited := a.credited ++ batch }, none)) ∨
    (a.present = true ∧ o.read = .tableMissing ∧
      a.collect o = ({ a with present := false, last := [] }, some .tableMissing)) ∨
    (a.present = true ∧ ∃ e, e ≠ .tableMissing ∧ a.collect o = (a, some e)) := by
  unfold collect
  cases hp : a.present with
  | false => exact .inl ⟨rfl, rfl⟩
  | true =>
      right
      cases hread : o.read with
      | tableMissing => exact .inr (.inl ⟨rfl, rfl, rfl⟩)
      | failed => exact .inr (.inr ⟨rfl, .read, by simp, rfl⟩)
      | counters counters =>
          by_cases hlen : counters.length ≠ a.bindings.length
          · exact .inr (.inr ⟨rfl, .incompleteCounters, by simp, by simp [hlen]⟩)
          · cases hcheck :
              checkCounters (a.bindings.map PrefixBinding.subscriptionID) counters [] with
            | some e =>
                refine .inr (.inr ⟨rfl, e, ?_, by simp [hlen, hcheck]⟩)
                exact fun he => checkCounters_ne_tableMissing _ _ _ (he ▸ hcheck)
            | none =>
                cases hinc : increments a.last counters with
                | error e =>
                    refine .inr (.inr ⟨rfl, e, ?_, by simp [hlen, hcheck, hinc]⟩)
                    rw [increments_error hinc]
                    simp
                | ok batch =>
                    cases hadd : o.addBatch with
                    | false =>
                        exact .inr (.inr ⟨rfl, .ledger, by simp, by simp [hlen, hcheck, hinc]⟩)
                    | true =>
                        refine .inl ⟨rfl, counters, batch, rfl, hinc, ?_⟩
                        simp [hlen, hcheck, hinc]

/-- The coordinator after `prepare`: as it was for a refused snapshot, else as
the collect left it, less the table when it was removed. -/
theorem prepare_cases (a : Accounting) (state : WireGuardDesiredState) (o : CollectOutcomes)
    (remove : Bool) :
    (bandwidthBindings state = none ∧ (a.prepare state o remove).1 = a) ∨
    ((bandwidthBindings state).isSome ∧ ((a.prepare state o remove).1 = (a.collect o).1 ∨
      (a.prepare state o remove).1 = { (a.collect o).1 with present := false, last := [] })) := by
  unfold prepare
  cases hb : bandwidthBindings state with
  | none => exact .inl ⟨rfl, rfl⟩
  | some bindings =>
      right
      refine ⟨rfl, ?_⟩
      dsimp only
      have habsent : a.present = false → (a.collect o).1 = a := by
        intro hp
        simp [collect, hp]
      split
      · split
        · left
          split <;> simp_all
        · left
          rename_i hp
          rw [habsent (by simpa using hp)]
          split <;> rfl
      · split
        · split
          · exact .inl rfl
          · split
            · exact .inl rfl
            · split
              · exact .inl rfl
              · exact .inr rfl
        · left
          rename_i hp
          rw [habsent (by simpa using hp)]

/-- The last totals of rows with different subscriptions. -/
theorem lastTotals_counters {table : List MeterRow}
    (h : (table.map fun row => row.binding.subscriptionID).Nodup) {row : MeterRow}
    (hrow : row ∈ table) (d : BandwidthDirection) :
    (lastTotals (table.map MeterRow.counter) row.binding.subscriptionID).bytes d =
      row.counter.bytes d := by
  induction table with
  | nil => cases hrow
  | cons first table ih =>
      rw [List.map_cons, List.nodup_cons] at h
      unfold lastTotals at ih ⊢
      rw [List.map_cons, List.find?_cons]
      cases List.mem_cons.mp hrow with
      | inl heq => simp [heq, MeterRow.counter]
      | inr hmem =>
          have hne : first.binding.subscriptionID ≠ row.binding.subscriptionID := fun heq =>
            h.1 (heq ▸
              List.mem_map_of_mem (f := fun row : MeterRow => row.binding.subscriptionID) hmem)
          simp only [MeterRow.counter] at ih ⊢
          simp only [hne, decide_false]
          exact ih h.2 hmem

theorem lastTotals_zero (bindings : List PrefixBinding) (s : String) (d : BandwidthDirection) :
    (lastTotals (zeroCounterTotals bindings) s).bytes d = 0 := by
  unfold lastTotals zeroCounterTotals
  cases hfind : (bindings.map fun b => (⟨b.subscriptionID, 0, 0⟩ : AccountingCounter)).find?
      fun c => c.subscriptionID = s with
  | none => cases d <;> rfl
  | some c =>
      obtain ⟨b, -, rfl⟩ := List.mem_map.mp (List.mem_of_find?_eq_some hfind)
      cases d <;> rfl

end Accounting

namespace Metered

/-- What the epochs' last successful collects read for a subscription. -/
def collectedBytes (m : Metered) (s : String) (d : BandwidthDirection) : ℤ :=
  (m.epochs.map fun epoch => bytesOf (epoch.map MeterRow.counter) s d).sum

/-- The table the coordinator believes in is the newest one: its last totals are
the rows as they were collected, and the kernel counted on from them. -/
structure Live (m : Metered) (epoch : List MeterRow) : Prop where
  newest : ∃ older, m.epochs = epoch :: older
  distinct : (epoch.map fun row => row.binding.subscriptionID).Nodup
  last : ∀ row ∈ epoch, ∀ d,
    (Accounting.lastTotals m.accounting.last row.binding.subscriptionID).bytes d =
      row.counter.bytes d
  kernel : ∀ table, m.kernel = some table → List.Forall₂ MeterRow.CountedFrom table epoch

/-- Everything that was collected was credited, once. -/
structure Exact (m : Metered) : Prop where
  credited : ∀ s d, creditOf m.accounting.credited s d = m.collectedBytes s d
  live : m.accounting.present = true → ∃ epoch, m.Live epoch

theorem start_exact : start.Exact where
  credited s d := by simp [start, Accounting.new, creditOf, collectedBytes]
  live h := by simp [start, Accounting.new] at h

/-- The bindings do not change while a table counts. -/
theorem subscriptions_of_countedFrom {table epoch : List MeterRow}
    (h : List.Forall₂ MeterRow.CountedFrom table epoch) :
    (table.map fun row => row.binding.subscriptionID) =
      epoch.map fun row => row.binding.subscriptionID := by
  induction h with
  | nil => rfl
  | cons hrow _ ih => rw [List.map_cons, List.map_cons, ih, hrow.1]

theorem countedFrom_refl (table : List MeterRow) :
    List.Forall₂ MeterRow.CountedFrom table table :=
  List.forall₂_same.mpr fun _ _ => ⟨rfl, le_rfl, le_rfl⟩

/-- **A collect credits what the newest table gained since the last one**, or
nothing. -/
theorem Exact.collect {m : Metered} (h : m.Exact) (i : CollectInput) :
    ({ m with
      accounting := (m.accounting.collect (m.outcomes i)).1
      epochs := m.collected i } : Metered).Exact := by
  have hskip : (m.accounting.collect (m.outcomes i)).2 ≠ none ∨ m.accounting.present = false →
      m.collected i = m.epochs := by
    intro hnot
    rw [collected, if_neg]
    rintro ⟨hp, hnone⟩
    cases hnot with
    | inl hne => exact hne hnone
    | inr habsent => rw [hp] at habsent; cases habsent
  cases m.accounting.collect_cases (m.outcomes i) with
  | inl habsent =>
      obtain ⟨hp, hcollect⟩ := habsent
      rw [hskip (.inr hp), hcollect]
      exact h
  | inr hpresent =>
      cases hpresent with
      | inr hfailed =>
          cases hfailed with
          | inl hmissing =>
              obtain ⟨hp, -, hcollect⟩ := hmissing
              rw [hskip (.inl (by rw [hcollect]; simp)), hcollect]
              exact ⟨h.credited, fun hp => by cases hp⟩
          | inr herror =>
              obtain ⟨hp, e, -, hcollect⟩ := herror
              rw [hskip (.inl (by rw [hcollect]; simp)), hcollect]
              exact h
      | inl hok =>
          obtain ⟨hp, counters, batch, hread, hinc, hcollect⟩ := hok
          obtain ⟨epoch, ⟨older, holder⟩, hdistinct, hlast, hkernel⟩ := h.live hp
          cases htable : m.kernel with
          | none =>
              -- no read of a table that is gone gives counters
              simp only [outcomes, read, htable] at hread
              split at hread <;> cases hread
          | some table =>
              have hrows := hkernel table htable
              have hcounters : counters = table.map MeterRow.counter := by
                simp only [outcomes, read, htable] at hread
                split at hread
                · cases hread
                · cases hread
                · exact (CounterRead.counters.inj hread).symm
              subst hcounters
              have hcollected : m.collected i = table :: older := by
                rw [collected, if_pos ⟨hp, by rw [hcollect]⟩, htable, holder]
                rfl
              rw [hcollected, hcollect]
              have hsubs := subscriptions_of_countedFrom hrows
              refine ⟨fun s d => ?_, fun _ => ⟨table, ⟨older, rfl⟩, ?_, fun row hrow d => ?_, ?_⟩⟩
              · have hcredit := Accounting.creditOf_increments hrows hlast hinc s d
                have hbefore := h.credited s d
                simp only [collectedBytes, holder, List.map_cons, List.sum_cons] at hbefore ⊢
                rw [creditOf_append]
                omega
              · rw [hsubs]
                exact hdistinct
              · exact Accounting.lastTotals_counters (hsubs ▸ hdistinct) hrow d
              · intro table' htable'
                cases htable'
                exact countedFrom_refl table

/-- Giving up the table, and losing it, loses no credit. -/
theorem Exact.absent {m : Metered} (h : m.Exact) (kernel : Option (List MeterRow)) :
    ({ m with
      accounting := { m.accounting with present := false, last := [] }
      kernel := kernel } : Metered).Exact :=
  ⟨h.credited, fun hp => by cases hp⟩

theorem Exact.without {m : Metered} (h : m.Exact) {kernel : Option (List MeterRow)}
    (hkernel : kernel = none ∨ kernel = m.kernel) :
    ({ m with kernel := kernel } : Metered).Exact := by
  refine ⟨h.credited, fun hp => ?_⟩
  obtain ⟨epoch, hnewest, hdistinct, hlast, hrows⟩ := h.live hp
  refine ⟨epoch, hnewest, hdistinct, hlast, fun table htable => ?_⟩
  cases hkernel with
  | inl hnone => rw [hnone] at htable; cases htable
  | inr hsame => exact hrows table (hsame ▸ htable)

theorem nodup_of_validateBindings {bindings : List PrefixBinding}
    (h : validateBindings bindings = true) :
    (bindings.map PrefixBinding.subscriptionID).Nodup := by
  unfold validateBindings at h
  rw [decide_eq_true_iff] at h
  have hsorted := ((checkBindings_iff _ _ _).mp h.2).2.2.2.1
  have hperm := (List.perm_insertionSort
    (fun x y : PrefixBinding => x.routedPrefix ≤ y.routedPrefix) bindings).map
    PrefixBinding.subscriptionID
  exact hperm.nodup_iff.mp hsorted

theorem bytesOf_zero (bindings : List PrefixBinding) (s : String) (d : BandwidthDirection) :
    bytesOf ((bindings.map MeterRow.zero).map MeterRow.counter) s d = 0 := by
  induction bindings with
  | nil => rfl
  | cons b bindings ih =>
      have hzero : (MeterRow.zero b).counter.bytes d = 0 := by cases d <;> rfl
      rw [List.map_cons, List.map_cons, bytesOf_cons, ih, hzero, ite_self, add_zero]

/-- An installed table starts an epoch that collected nothing yet. -/
theorem Exact.install {m : Metered} (h : m.Exact) {bindings : List PrefixBinding}
    (hbindings : validateBindings bindings = true) (revision : String) (ok : Bool)
    (hp : m.accounting.present = false) :
    ({ accounting := (m.accounting.appliedState bindings revision ok).1
       kernel := some (bindings.map MeterRow.zero)
       epochs := bindings.map MeterRow.zero :: m.epochs } : Metered).Exact := by
  have hcredited : ∀ s d, creditOf m.accounting.credited s d =
      (({ accounting := m.accounting
          kernel := some (bindings.map MeterRow.zero)
          epochs := bindings.map MeterRow.zero :: m.epochs } : Metered).collectedBytes s d) := by
    intro s d
    rw [h.credited s d, collectedBytes, collectedBytes, List.map_cons, List.sum_cons, bytesOf_zero,
      zero_add]
  unfold Accounting.appliedState
  dsimp only
  rw [hp, if_neg (by simp)]
  cases ok with
  | false => exact ⟨hcredited, fun hp' => by simp_all⟩
  | true =>
      refine ⟨hcredited, fun _ => ⟨bindings.map MeterRow.zero, ⟨m.epochs, rfl⟩, ?_, ?_, ?_⟩⟩
      · rw [List.map_map]
        exact nodup_of_validateBindings hbindings
      · intro row hrow d
        obtain ⟨b, -, rfl⟩ := List.mem_map.mp hrow
        show (Accounting.lastTotals (Accounting.zeroCounterTotals bindings) _).bytes d = _
        rw [Accounting.lastTotals_zero]
        cases d <;> rfl
      · intro table htable
        cases htable
        exact countedFrom_refl _

/-- Without an install, recording the applied bindings changes no count. -/
theorem Exact.applied {m : Metered} (h : m.Exact) (bindings : List PrefixBinding)
    (revision : String) (ok : Bool) (hnot : m.accounting.present = true ∨ ok = false) :
    ({ m with
      accounting := (m.accounting.appliedState bindings revision ok).1 } : Metered).Exact := by
  unfold Accounting.appliedState
  dsimp only
  split
  · refine ⟨h.credited, fun hp => ?_⟩
    obtain ⟨epoch, hlive⟩ := h.live hp
    exact ⟨epoch, hlive.newest, hlive.distinct, hlive.last, hlive.kernel⟩
  · rename_i habsent
    cases hnot with
    | inl hp => exact absurd hp habsent
    | inr hok =>
        subst hok
        exact ⟨h.credited, fun hp => absurd hp habsent⟩

theorem Exact.traffic {m : Metered} (h : m.Exact) (routedPrefix : String) (ingress egress : ℕ) :
    (m.step (.traffic routedPrefix ingress egress)).Exact := by
  refine ⟨h.credited, fun hp => ?_⟩
  obtain ⟨epoch, hnewest, hdistinct, hlast, hrows⟩ := h.live hp
  refine ⟨epoch, hnewest, hdistinct, hlast, fun table htable => ?_⟩
  obtain ⟨before, hbefore, rfl⟩ := Option.map_eq_some_iff.mp htable
  refine List.forall₂_map_left_iff.mpr ((hrows before hbefore).imp fun row earlier hrow => ?_)
  unfold MeterRow.count
  split
  · exact ⟨hrow.1, le_trans hrow.2.1 (Nat.le_add_right _ _),
      le_trans hrow.2.2 (Nat.le_add_right _ _)⟩
  · exact hrow

theorem Exact.step {m : Metered} (h : m.Exact) (e : MeterEvent) : (m.step e).Exact := by
  cases e with
  | traffic routedPrefix ingress egress => exact h.traffic routedPrefix ingress egress
  | vanish => exact h.without (.inl rfl)
  | collect i => exact h.collect i
  | prepare state i remove =>
      have hkernel : (if m.Replaces state i ∧ remove.tookEffect = true then none else m.kernel) =
          none ∨ (if m.Replaces state i ∧ remove.tookEffect = true then none else m.kernel) =
            m.kernel := by
        split
        · exact .inl rfl
        · exact .inr rfl
      unfold Metered.step
      dsimp only
      cases m.accounting.prepare_cases state (m.outcomes i) (remove = .ok) with
      | inl hrefused =>
          rw [hrefused.2, hrefused.1]
          exact h.without hkernel
      | inr hread =>
          rw [if_pos hread.1]
          cases hread.2 with
          | inl hcollected =>
              rw [hcollected]
              exact (h.collect i).without hkernel
          | inr hremoved =>
              rw [hremoved]
              exact (h.collect i).absent _
  | appliedState bindings revision install =>
      unfold Metered.step
      dsimp only
      split
      · rename_i hinstall
        have hbindings : validateBindings bindings = true := by
          by_contra hinvalid
          simp [installOutcome, hinvalid, Wgnet.Outcome.tookEffect] at hinstall
        exact h.install hbindings revision _ hinstall.1
      · rename_i hnot
        refine h.applied bindings revision _ ?_
        by_cases hp : m.accounting.present = true
        · exact .inl hp
        · right
          rw [decide_eq_false_iff_not]
          intro hok
          exact hnot ⟨by simpa using hp, by rw [hok]; rfl⟩
  | close i remove =>
      unfold Metered.step Accounting.close
      dsimp only
      cases hp : m.accounting.present with
      | false =>
          have hsame : m.collected i = m.epochs := by
            rw [collected, if_neg]
            rintro ⟨hpresent, -⟩
            rw [hp] at hpresent
            cases hpresent
          rw [hsame]
          simpa using h
      | true =>
          by_cases hok : remove = .ok
          · simp only [hok, decide_true, if_true, Bool.true_eq_false, if_false]
            exact (h.collect i).absent _
          · simp only [hok, decide_false, Bool.false_eq_true, Bool.true_eq_false, if_false]
            refine (h.collect i).without ?_
            split
            · exact .inl rfl
            · exact .inr rfl

theorem run_exact (events : List MeterEvent) : (run events).Exact := by
  induction events using List.reverseRecOn with
  | nil => exact start_exact
  | append_singleton events e ih =>
      rw [run, List.foldl_append, ← run]
      exact ih.step e

/-- **Every collected byte is credited once, to the subscription its prefix was
bound to.**  After any sequence of calls the credit of a subscription is the sum
over the installed tables of what their last successful collect read for it,
and the ledger adds an accepted batch exactly.  A failed collect credits nothing
and keeps the last totals, unless the table is gone: then they go with it. -/
theorem credited_eq_collected (events : List MeterEvent) :
    (∀ s d, creditOf (run events).accounting.credited s d = (run events).collectedBytes s d) ∧
    (∀ entries is day entries', addBatch entries is day = .ok entries' → ∀ s d,
      (BandwidthTotals.bytes ((entries'.lookup ⟨s, day⟩).getD 0) d : ℤ) =
        BandwidthTotals.bytes ((entries.lookup ⟨s, day⟩).getD 0) d + creditOf is s d) ∧
    ∀ o e, ((run events).accounting.collect o).2 = some e →
      ((run events).accounting.collect o).1.credited = (run events).accounting.credited ∧
      (e ≠ .tableMissing →
        ((run events).accounting.collect o).1.last = (run events).accounting.last) ∧
      (e = .tableMissing → ((run events).accounting.collect o).1.present = false ∧
        ((run events).accounting.collect o).1.last = []) := by
  refine ⟨(run_exact events).credited, fun _ _ _ _ h => addBatch_credits h, fun o e he => ?_⟩
  cases (run events).accounting.collect_cases o with
  | inl habsent => rw [habsent.2] at he; cases he
  | inr hpresent =>
      cases hpresent with
      | inl hok =>
          obtain ⟨-, counters, batch, -, -, hcollect⟩ := hok
          rw [hcollect] at he
          cases he
      | inr hfailed =>
          cases hfailed with
          | inl hmissing =>
              rw [hmissing.2.2] at he ⊢
              cases he
              exact ⟨rfl, fun hne => absurd rfl hne, fun _ => ⟨rfl, rfl⟩⟩
          | inr herror =>
              obtain ⟨-, e', hne, hcollect⟩ := herror
              rw [hcollect] at he ⊢
              cases he
              exact ⟨rfl, fun _ => rfl, fun heq => absurd heq hne⟩

namespace Sample

def binding (routedPrefix : String) : PrefixBinding :=
  ⟨routedPrefix, "00000000-0000-4000-8000-000000000001"⟩

/-- A table is installed and collected, vanishes after more traffic, and a second
one for another prefix of the same subscription is installed and collected. -/
def events : List MeterEvent :=
  [.appliedState [binding "203.0.113.10/32"] "a" .ok, .traffic "203.0.113.10/32" 5 1,
    .collect ⟨.ok, true⟩, .traffic "203.0.113.10/32" 2 2, .collect ⟨.ok, false⟩, .vanish,
    .collect ⟨.ok, true⟩, .appliedState [binding "203.0.113.11/32"] "b" .ok,
    .traffic "203.0.113.11/32" 7 0, .collect ⟨.ok, true⟩]

/-- The first table is installed and collected. -/
def installed : List MeterEvent :=
  [.appliedState [binding "203.0.113.10/32"] "a" .ok, .traffic "203.0.113.10/32" 5 1,
    .collect ⟨.ok, true⟩]

end Sample

theorem credited_eq_collected_two_tables :
    (run Sample.events).epochs.length = 2 ∧
    creditOf (run Sample.events).accounting.credited "00000000-0000-4000-8000-000000000001"
      .ingress = 12 := by
  refine ⟨by decide +kernel, ?_⟩
  rw [(credited_eq_collected Sample.events).1]
  decide +kernel

/-- A collect that finds no table fails and discards the last totals. -/
theorem collect_missing_discards_last :
    ((run Sample.installed).accounting.collect ⟨.tableMissing, true⟩).2 = some .tableMissing ∧
    (run Sample.installed).accounting.last ≠ [] ∧
    ((run Sample.installed).accounting.collect ⟨.tableMissing, true⟩).1.last = [] := by
  decide +kernel

end Metered

end Relay
