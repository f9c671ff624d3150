import Blindport.Conc.Machine
import Blindport.Data.Cumulative
import Blindport.Data.Table
import Blindport.Relay.Accounting
import Mathlib.Algebra.Order.Group.Nat
import Mathlib.Algebra.Order.Monoid.Prod
import Mathlib.Data.List.Sort

/-!
# Blindport.Relay.Bandwidth

`cmd/blindport-relay/bandwidth.go`: the accumulator of daily totals and the
reporter that stores and sends them.

Connections add bytes at any time, each under a day it read from the clock
before it took the accumulator's lock.  A flush holds the reporter's lock from
its snapshot to its prune, but takes the accumulator's only for each of the two.
The machine below interleaves the two locks' holders, the clock and crashes
freely; a write of the ledger file and a send have any outcome.

One run is one boot: the identifier lives as long as the ledger file.  Days are
day numbers.
-/

namespace Relay

/-! ## the accumulator -/

/-- `bandwidthKey`. -/
@[ext] structure BandwidthKey where
  subscriptionID : String
  day : ℤ
deriving DecidableEq

/-- `bandwidthTotals`: (ingress, egress) bytes. -/
abbrev BandwidthTotals := ℕ × ℕ

/-- The totals of one direction. -/
def BandwidthTotals.bytes (totals : BandwidthTotals) : BandwidthDirection → ℕ
  | .ingress => totals.1
  | .egress => totals.2

/-- The totals with `count` more bytes of one direction. -/
def BandwidthTotals.plus (totals : BandwidthTotals) (count : ℕ) :
    BandwidthDirection → BandwidthTotals
  | .ingress => (totals.1 + count, totals.2)
  | .egress => (totals.1, totals.2 + count)

/-- `bandwidthAccumulator.entries`. -/
abbrev BandwidthEntries := AList fun _ : BandwidthKey => BandwidthTotals

/-- `relayauth.DailyBandwidthReport`. -/
abbrev DailyBandwidthReport := BandwidthKey × BandwidthTotals

def maxBandwidthEntries : ℕ := 8500

/-- `math.MaxInt64`. -/
def maxInt64 : ℕ := 9223372036854775807

/-- The errors of `addBatch`. -/
inductive AddError where
  | invalidValue
  | entryLimit
  | overflow
deriving DecidableEq

/-- The loop of `addBatch`; `pending` holds the totals it will write and
`newEntries` how many of them are new. -/
def addPending (entries : BandwidthEntries) (day : ℤ) : List BandwidthIncrement →
    BandwidthEntries → ℕ → Except AddError BandwidthEntries
  | [], pending, _ => .ok pending
  | i :: is, pending, newEntries =>
      let key : BandwidthKey := ⟨i.subscriptionID, day⟩
      let isNew := key ∉ pending ∧ key ∉ entries
      let counted := if isNew then newEntries + 1 else newEntries
      let totals := ((pending.lookup key).or (entries.lookup key)).getD 0
      if canonicalSubscriptionID i.subscriptionID = false ∨ i.count < 0 then .error .invalidValue
      else if i.count = 0 then addPending entries day is pending newEntries
      else if isNew ∧ entries.entries.length + counted > maxBandwidthEntries then
        .error .entryLimit
      else if (totals.bytes i.direction : ℤ) > maxInt64 - i.count then .error .overflow
      else addPending entries day is
        (pending.insert key (totals.plus i.count.toNat i.direction)) counted

/-- `bandwidthAccumulator.addBatch`: all increments or none. -/
def addBatch (entries : BandwidthEntries) (increments : List BandwidthIncrement) (day : ℤ) :
    Except AddError BandwidthEntries :=
  (addPending entries day increments ∅ 0).map fun pending =>
    Table.insertAll (Table.rows pending) entries

/-- The order of a snapshot: by day, then subscription. -/
def reportOrder (x y : DailyBandwidthReport) : Prop :=
  x.1.day < y.1.day ∨ (x.1.day = y.1.day ∧ x.1.subscriptionID ≤ y.1.subscriptionID)

instance : DecidableRel reportOrder := fun x y => by unfold reportOrder; infer_instance

/-- `bandwidthAccumulator.snapshot`. -/
def snapshot (entries : BandwidthEntries) : List DailyBandwidthReport :=
  (Table.rows entries).insertionSort reportOrder

/-- `bandwidthAccumulator.pruneBefore`.  The source compares the texts of the days,
which are ordered as their numbers for years of four digits
(`pruneBefore_eq_dayText`). -/
def pruneBefore (entries : BandwidthEntries) (day : ℤ) : BandwidthEntries :=
  Table.eraseAll (entries.keys.filter fun k => k.day < day) entries

/-- The keys a batch of increments adds bytes to. -/
def addedKeys (increments : List BandwidthIncrement) (day : ℤ) : List BandwidthKey :=
  (increments.filter fun i => 0 < i.count).map fun i => ⟨i.subscriptionID, day⟩

theorem BandwidthTotals.le_plus (totals : BandwidthTotals) (count : ℕ)
    (direction : BandwidthDirection) : totals ≤ totals.plus count direction := by
  cases direction with
  | ingress => exact ⟨Nat.le_add_right _ _, le_rfl⟩
  | egress => exact ⟨le_rfl, Nat.le_add_right _ _⟩

theorem mem_snapshot {entries : BandwidthEntries} {k : BandwidthKey} {t : BandwidthTotals} :
    (k, t) ∈ snapshot entries ↔ entries.lookup k = some t := by
  rw [snapshot, List.mem_insertionSort, Table.mem_rows]

theorem lookup_pruneBefore (entries : BandwidthEntries) (day : ℤ) (k : BandwidthKey) :
    (pruneBefore entries day).lookup k = if k.day < day then none else entries.lookup k := by
  rw [pruneBefore, Table.lookup_eraseAll]
  by_cases hk : k.day < day
  · by_cases hmem : k ∈ entries
    · simp [hk, AList.mem_keys.mp hmem]
    · simp [hk, AList.lookup_eq_none.mpr hmem]
  · simp [hk]

/-- What the loop writes: totals of keys that got bytes, none below what the
entry had. -/
theorem addPending_ok {entries pending result : BandwidthEntries} {day : ℤ}
    {is : List BandwidthIncrement} {n : ℕ}
    (h : addPending entries day is pending n = .ok result) {k : BandwidthKey} {t : BandwidthTotals}
    (hk : result.lookup k = some t) :
    (pending.lookup k = some t ∨ k ∈ addedKeys is day) ∧
      ∀ t₀, (pending.lookup k).or (entries.lookup k) = some t₀ → t₀ ≤ t := by
  fun_induction addPending entries day is pending n with
  | case1 pending n =>
      cases h
      refine ⟨.inl hk, fun t₀ ht₀ => ?_⟩
      rw [hk] at ht₀
      cases ht₀
      exact le_rfl
  | case2 => cases h
  | case3 i is pending n hvalid hzero ih =>
      obtain ⟨hmem, hle⟩ := ih h
      refine ⟨hmem.imp_right fun hm => ?_, hle⟩
      simpa [addedKeys, hzero] using hm
  | case4 => cases h
  | case5 => cases h
  | case6 i is pending n key isNew counted totals hvalid hzero hlimit hover ih =>
      obtain ⟨hmem, hle⟩ := ih h
      have hpos : 0 < i.count := by omega
      by_cases hkey : k = key
      · rw [hkey] at hle ⊢
        refine ⟨.inr (by simp [addedKeys, hpos, key]), fun t₀ ht₀ => ?_⟩
        have hplus := hle (totals.plus i.count.toNat i.direction) (by simp)
        have htotals : totals = t₀ := by
          show Option.getD _ _ = t₀
          rw [ht₀]
          rfl
        rw [← htotals]
        exact le_trans (totals.le_plus _ _) hplus
      · rw [AList.lookup_insert_ne hkey] at hmem hle
        refine ⟨hmem.imp_right fun hm => ?_, hle⟩
        simpa [addedKeys, hpos] using .inr (by simpa [addedKeys] using hm)

/-- **A batch only adds**: entries grow, and only those of the batch's own keys
change. -/
theorem addBatch_ok {entries entries' : BandwidthEntries} {is : List BandwidthIncrement} {day : ℤ}
    (h : addBatch entries is day = .ok entries') :
    (∀ k ∉ addedKeys is day, entries'.lookup k = entries.lookup k) ∧
      ∀ k t, entries.lookup k = some t → ∃ t', entries'.lookup k = some t' ∧ t ≤ t' := by
  unfold addBatch at h
  cases hp : addPending entries day is ∅ 0 with
  | error e => rw [hp] at h; cases h
  | ok pending =>
      rw [hp] at h
      cases h
      have hlookup : ∀ k, (Table.insertAll (Table.rows pending) entries).lookup k =
          (pending.lookup k).or (entries.lookup k) := Table.lookup_insertAll_rows pending entries
      constructor
      · intro k hk
        show (Table.insertAll _ _).lookup k = _
        rw [hlookup]
        cases hpk : pending.lookup k with
        | none => rfl
        | some t =>
            cases (addPending_ok hp hpk).1 with
            | inl hempty => simp at hempty
            | inr hmem => exact absurd hmem hk
      · intro k t ht
        show ∃ t', (Table.insertAll _ _).lookup k = some t' ∧ t ≤ t'
        rw [hlookup, ht]
        cases hpk : pending.lookup k with
        | none => exact ⟨t, rfl, le_rfl⟩
        | some t' => exact ⟨t', rfl, (addPending_ok hp hpk).2 t (by simp [ht])⟩

/-! ## the ledger file -/

/-- `bandwidthLedger`, less its version and boot identifier, which never
change. -/
structure BandwidthLedger where
  sequence : ℕ
  reports : List DailyBandwidthReport
deriving DecidableEq

/-- The reports have canonical identifiers and stand in strict order, so no key
is there twice. -/
def checkReports : Option DailyBandwidthReport → List DailyBandwidthReport → Bool
  | _, [] => true
  | previous, r :: rs =>
      canonicalSubscriptionID r.1.subscriptionID ∧
        (∀ p ∈ previous, p.1.day < r.1.day ∨
          (p.1.day = r.1.day ∧ p.1.subscriptionID < r.1.subscriptionID)) ∧
        checkReports (some r) rs

/-- `validateBandwidthLedger`. -/
def validateBandwidthLedger (ledger : BandwidthLedger) : Bool :=
  ledger.reports.length ≤ maxBandwidthEntries ∧ checkReports none ledger.reports

/-- The entries `newBandwidthReporterWithClock` starts with. -/
def BandwidthLedger.entries (ledger : BandwidthLedger) : BandwidthEntries :=
  Table.ofRows ledger.reports

/-! ## the reporter -/

/-- What a flush does next. -/
inductive Task where
  | idle
  | loop (reports : List DailyBandwidthReport)
  | send (batch reports : List DailyBandwidthReport)
  | readClock
  | prune (day : ℤ)
deriving DecidableEq

/-- Where a flush stands.  `persistLocked` is its snapshot (`persist`) and its
write of the file (`store`); `next` is what follows a write that succeeded. -/
inductive Phase where
  | run (task : Task)
  | persist (next : Task)
  | store (ledger : BandwidthLedger) (next : Task)
deriving DecidableEq

/-- A batch handed to `send`, and whether it was acknowledged. -/
structure SentBatch where
  sequence : ℕ
  reports : List DailyBandwidthReport
  acknowledged : Bool
deriving DecidableEq

/-- The relay's accounting: the accumulator, the ledger file, the clock, the
adds that read the clock and wait for the lock, and the flush under way.

The rest is history: every batch handed to `send`, newest first, the snapshot of
the flush, the keys that got bytes since it, and the days pruned before. -/
structure Reporter where
  entries : BandwidthEntries
  sequence : ℕ
  file : BandwidthLedger
  today : ℤ
  adds : List (ℤ × List BandwidthIncrement)
  phase : Phase
  sent : List SentBatch
  taken : List DailyBandwidthReport
  added : List BandwidthKey
  pruned : List ℤ

/-- How a write of the file or a send ended.  A write that failed may have
replaced the file. -/
inductive FlushOutcome where
  | ok
  | failed (effective : Bool)
deriving DecidableEq

inductive Event where
  | midnight
  | readClock (increments : List BandwidthIncrement)
  | addBatch (waiting : ℕ)
  | flush
  | advance (outcome : FlushOutcome)
  | restart
deriving DecidableEq

namespace Reporter

/-- A new boot: `loadBandwidthLedger` found no file and stored an empty one. -/
def start (today : ℤ) : Reporter where
  entries := ∅
  sequence := 0
  file := ⟨0, []⟩
  today := today
  adds := []
  phase := .run .idle
  sent := []
  taken := []
  added := []
  pruned := []

/-- The next step of the flush. -/
def advance (s : Reporter) (outcome : FlushOutcome) : Option Reporter :=
  match s.phase with
  | .persist next => some { s with phase := .store ⟨s.sequence, snapshot s.entries⟩ next }
  | .store ledger next =>
      if validateBandwidthLedger ledger = false then some { s with phase := .run .idle }
      else match outcome with
        | .ok => some { s with file := ledger, phase := .run next }
        | .failed effective =>
            some { s with file := if effective then ledger else s.file, phase := .run .idle }
  | .run .idle => none
  | .run (.loop []) => some { s with phase := .run .readClock }
  | .run (.loop (r :: rs)) =>
      if s.sequence = maxInt64 then some { s with phase := .run .idle }
      else some { s with
        sequence := s.sequence + 1
        phase := .persist (.send ((r :: rs).take 1000) ((r :: rs).drop 1000)) }
  | .run (.send batch reports) =>
      some { s with
        sent := ⟨s.sequence, batch, outcome = .ok⟩ :: s.sent
        phase := .run (if outcome = .ok then .loop reports else .idle) }
  | .run .readClock => some { s with phase := .run (.prune s.today) }
  | .run (.prune day) =>
      some { s with
        entries := pruneBefore s.entries day
        pruned := day :: s.pruned
        phase := .persist .idle }

/-- One event.  `restart` is a crash at any point and the start from the file;
the adds that waited are lost with the process. -/
def step (s : Reporter) : Event → Option Reporter
  | .midnight => some { s with today := s.today + 1 }
  | .readClock increments => some { s with adds := s.adds ++ [(s.today, increments)] }
  | .addBatch waiting =>
      s.adds[waiting]?.map fun add =>
        match Relay.addBatch s.entries add.2 add.1 with
        | .error _ => { s with adds := s.adds.eraseIdx waiting }
        | .ok entries => { s with
            adds := s.adds.eraseIdx waiting
            entries := entries
            added := addedKeys add.2 add.1 ++ s.added }
  | .flush =>
      if s.phase = .run .idle then
        some { s with
          taken := snapshot s.entries
          added := []
          phase := .persist
            (if snapshot s.entries = [] then .idle else .loop (snapshot s.entries)) }
      else none
  | .advance outcome => s.advance outcome
  | .restart =>
      if validateBandwidthLedger s.file then
        some { s with
          entries := s.file.entries
          sequence := s.file.sequence
          adds := []
          phase := .run .idle }
      else none

/-- Everything a step of the flush can do. -/
inductive Advances (s : Reporter) : Reporter → Prop where
  | persist {next : Task} (hphase : s.phase = .persist next) :
      Advances s { s with phase := .store ⟨s.sequence, snapshot s.entries⟩ next }
  | stored {ledger : BandwidthLedger} {next : Task} (hphase : s.phase = .store ledger next) :
      Advances s { s with file := ledger, phase := .run next }
  | storeFailed {ledger file : BandwidthLedger} {next : Task}
      (hphase : s.phase = .store ledger next) (hfile : file = ledger ∨ file = s.file) :
      Advances s { s with file := file, phase := .run .idle }
  | drained (hphase : s.phase = .run (.loop [])) : Advances s { s with phase := .run .readClock }
  | exhausted {reports : List DailyBandwidthReport} (hphase : s.phase = .run (.loop reports)) :
      Advances s { s with phase := .run .idle }
  | numbered {reports : List DailyBandwidthReport} (hphase : s.phase = .run (.loop reports)) :
      Advances s { s with
        sequence := s.sequence + 1
        phase := .persist (.send (reports.take 1000) (reports.drop 1000)) }
  | acknowledged {batch reports : List DailyBandwidthReport}
      (hphase : s.phase = .run (.send batch reports)) :
      Advances s { s with
        sent := ⟨s.sequence, batch, true⟩ :: s.sent
        phase := .run (.loop reports) }
  | sendFailed {batch reports : List DailyBandwidthReport}
      (hphase : s.phase = .run (.send batch reports)) :
      Advances s { s with sent := ⟨s.sequence, batch, false⟩ :: s.sent, phase := .run .idle }
  | readClock (hphase : s.phase = .run .readClock) :
      Advances s { s with phase := .run (.prune s.today) }
  | prune {day : ℤ} (hphase : s.phase = .run (.prune day)) :
      Advances s { s with
        entries := pruneBefore s.entries day
        pruned := day :: s.pruned
        phase := .persist .idle }

theorem advances_of_advance {s s' : Reporter} {outcome : FlushOutcome}
    (h : s.advance outcome = some s') : s.Advances s' := by
  unfold advance at h
  split at h
  · cases h
    exact .persist ‹_›
  · split at h
    · cases h
      exact .storeFailed ‹_› (.inr rfl)
    · split at h
      · cases h
        exact .stored ‹_›
      · cases h
        refine .storeFailed ‹_› ?_
        split
        · exact .inl rfl
        · exact .inr rfl
  · cases h
  · cases h
    exact .drained ‹_›
  · split at h
    · cases h
      exact .exhausted ‹_›
    · cases h
      exact .numbered ‹_›
  · cases h
    cases outcome with
    | ok => exact .acknowledged ‹_›
    | failed effective => exact .sendFailed ‹_›
  · cases h
    exact .readClock ‹_›
  · cases h
    exact .prune ‹_›

end Reporter

end Relay
