import Blindport.Relay.LedgerText
import Blindport.Relay.Metering
import Blindport.Relay.Reporting

/-!
# Blindport.Relay.LedgerSafety

The reporter of `Blindport.Relay.Bandwidth` on the bytes of its ledger file: what it
persists is stored as a text, or refused, and a start reads the text that is there.
The clock may be set to any day.

In every run the totals and the number of entries stay within their bounds and the file
is one that is loaded again.  What the reporter persists is stored whenever its days
have years of four digits, which is so as long as the clock shows such years when bytes
are added (`bandwidth_ledger_safe`); a later day is refused
(`ledger_of_year_10000_refused`).
-/

namespace Relay

open Conc Wire

/-! ## the entries -/

/-- Entries within their bounds. -/
structure EntriesBounded (entries : BandwidthEntries) : Prop where
  rows : ∀ k t, entries.lookup k = some t → ReportBounded (k, t)
  count : entries.entries.length ≤ maxBandwidthEntries

/-- `addBatch` with the entries it leaves behind. -/
def afterBatch (entries : BandwidthEntries) (increments : List BandwidthIncrement) (day : ℤ) :
    BandwidthEntries × Option AddError :=
  match addBatch entries increments day with
  | .ok entries' => (entries', none)
  | .error e => (entries, some e)

/-- How many of the pending keys are new. -/
def newEntries (entries pending : BandwidthEntries) : ℕ := pending.keys.countP fun k => k ∉ entries

theorem newEntries_insert (entries pending : BandwidthEntries) (k : BandwidthKey)
    (t : BandwidthTotals) : newEntries entries (pending.insert k t) =
      newEntries entries pending + if k ∉ pending ∧ k ∉ entries then 1 else 0 := by
  rw [newEntries, AList.keys_insert, List.countP_cons, newEntries]
  by_cases hk : k ∈ pending
  · have hperm := (List.perm_cons_erase (AList.mem_keys.mp hk)).countP_eq fun k => k ∉ entries
    rw [List.countP_cons] at hperm
    rw [if_neg (show ¬ (k ∉ pending ∧ k ∉ entries) from fun h => h.1 hk)]
    omega
  · rw [List.erase_of_not_mem (fun h => hk (AList.mem_keys.mpr h))]
    by_cases hmem : k ∈ entries
    · simp [hmem]
    · simp [hk, hmem]

/-- The totals the loop has in hand are within their bounds. -/
theorem totals_bounded {entries pending : BandwidthEntries}
    (hentries : ∀ k t, entries.lookup k = some t → ReportBounded (k, t))
    (hpending : ∀ k t, pending.lookup k = some t → ReportBounded (k, t)) (k : BandwidthKey)
    (d : BandwidthDirection) :
    BandwidthTotals.bytes (((pending.lookup k).or (entries.lookup k)).getD 0) d ≤ maxInt64 := by
  have hbytes : ∀ t, ReportBounded (k, t) → BandwidthTotals.bytes t d ≤ maxInt64 := by
    intro t ht
    cases d with
    | ingress => exact ht.ingress
    | egress => exact ht.egress
  cases hp : pending.lookup k with
  | some t => exact hbytes t (hpending k t hp)
  | none =>
      cases he : entries.lookup k with
      | some t => exact hbytes t (hentries k t he)
      | none => cases d <;> exact Nat.zero_le _

/-- The loop keeps the bounds: it counts the new keys before it takes them, and
checks each total before it adds to it. -/
theorem addPending_bounded {entries pending result : BandwidthEntries} {day : ℤ}
    {is : List BandwidthIncrement} {n : ℕ} (hentries : EntriesBounded entries)
    (hpending : ∀ k t, pending.lookup k = some t → ReportBounded (k, t))
    (hn : n = newEntries entries pending)
    (hcount : entries.entries.length + n ≤ maxBandwidthEntries)
    (h : addPending entries day is pending n = .ok result) :
    (∀ k t, result.lookup k = some t → ReportBounded (k, t)) ∧
      entries.entries.length + newEntries entries result ≤ maxBandwidthEntries := by
  fun_induction addPending entries day is pending n with
  | case1 pending n =>
      cases h
      exact ⟨hpending, by omega⟩
  | case2 => cases h
  | case3 i is pending n hvalid hzero ih => exact ih hpending hn hcount h
  | case4 => cases h
  | case5 => cases h
  | case6 i is pending n key isNew counted totals hvalid hzero hlimit hover ih =>
      have hcounted : counted = newEntries entries (pending.insert key
          (totals.plus i.count.toNat i.direction)) := by
        rw [newEntries_insert, ← hn]
        show (if isNew then n + 1 else n) = n + if isNew then 1 else 0
        split_ifs <;> rfl
      refine ih (fun k t hk => ?_) hcounted ?_ h
      · by_cases hkey : k = key
        · subst hkey
          rw [AList.lookup_insert, Option.some_inj] at hk
          simp only [not_or, Bool.not_eq_false, not_lt] at hvalid
          have hbytes : ∀ d, (totals.plus i.count.toNat i.direction).bytes d ≤ maxInt64 := by
            intro d
            have hold := totals_bounded hentries.rows hpending key d
            have hplus := bytes_plus totals i.count.toNat i.direction d
            change totals.bytes d ≤ maxInt64 at hold
            by_cases hd : i.direction = d
            · rw [if_pos hd] at hplus
              rw [hd] at hover
              omega
            · rw [if_neg hd] at hplus
              omega
          rw [← hk]
          exact ⟨hvalid.1, hbytes .ingress, hbytes .egress⟩
        · rw [AList.lookup_insert_ne hkey] at hk
          exact hpending k t hk
      · by_cases hnew : isNew
        · have hle := not_and.mp hlimit hnew
          omega
        · have hsame : counted = n := if_neg hnew
          omega

/-- **A batch keeps the bounds.** -/
theorem EntriesBounded.addBatch {entries entries' : BandwidthEntries} (h : EntriesBounded entries)
    {is : List BandwidthIncrement} {day : ℤ} (hok : addBatch entries is day = .ok entries') :
    EntriesBounded entries' := by
  unfold Relay.addBatch at hok
  cases hp : addPending entries day is ∅ 0 with
  | error e => rw [hp] at hok; cases hok
  | ok pending =>
      rw [hp] at hok
      cases hok
      obtain ⟨hrows, hcount⟩ := addPending_bounded h (by simp) (by rfl) h.count hp
      constructor
      · intro k t hk
        change (Table.insertAll _ _).lookup k = _ at hk
        rw [Table.lookup_insertAll_rows] at hk
        cases hpk : pending.lookup k with
        | some t' =>
            rw [hpk] at hk
            cases hk
            exact hrows k t hpk
        | none =>
            rw [hpk] at hk
            exact h.rows k t hk
      · have hkeys : (Table.rows pending).map Prod.fst = pending.keys := by
          rw [Table.rows, List.map_map]
          rfl
        show (Table.insertAll _ _).entries.length ≤ _
        rw [Table.length_insertAll (Table.nodup_rows pending), hkeys]
        exact hcount

/-- **A batch is applied as a whole or not at all**: each total grows by the batch's
increments of its key and direction. -/
theorem afterBatch_cases (entries : BandwidthEntries) (increments : List BandwidthIncrement)
    (day : ℤ) :
    (∃ e, afterBatch entries increments day = (entries, some e)) ∨
      ∃ entries', afterBatch entries increments day = (entries', none) ∧ ∀ k d,
        (BandwidthTotals.bytes ((entries'.lookup k).getD 0) d : ℤ) =
          BandwidthTotals.bytes ((entries.lookup k).getD 0) d +
            if k.day = day then creditOf increments k.subscriptionID d else 0 := by
  unfold afterBatch
  cases hbatch : addBatch entries increments day with
  | error e => exact .inl ⟨e, rfl⟩
  | ok entries' =>
      refine .inr ⟨entries', rfl, fun k d => ?_⟩
      by_cases hday : k.day = day
      · have hkey : k = ⟨k.subscriptionID, day⟩ := BandwidthKey.ext rfl hday
        rw [if_pos hday, hkey]
        exact addBatch_credits hbatch k.subscriptionID d
      · rw [if_neg hday, add_zero, (addBatch_ok hbatch).1 k]
        intro hmem
        obtain ⟨i, -, hi⟩ := List.mem_map.mp hmem
        exact hday (congrArg BandwidthKey.day hi).symm

theorem EntriesBounded.pruneBefore {entries : BandwidthEntries} (h : EntriesBounded entries)
    (day : ℤ) : EntriesBounded (pruneBefore entries day) := by
  constructor
  · intro k t hk
    rw [lookup_pruneBefore] at hk
    split at hk
    · cases hk
    · exact h.rows k t hk
  · have hlength := Table.length_eraseAll (entries.keys_nodup.filter fun k => k.day < day)
      fun k hk => AList.lookup_isSome.mpr (AList.mem_keys.mpr (List.mem_of_mem_filter hk))
    have hcount := h.count
    rw [Relay.pruneBefore]
    omega

/-! ## ledgers of entries -/

/-- A snapshot is sorted by its keys. -/
theorem snapshot_sorted (entries : BandwidthEntries) :
    (snapshot entries).Pairwise fun x y => x.1.Before y.1 := by
  have htotal : Std.Total reportOrder := ⟨fun x y => by
    unfold reportOrder
    rcases lt_trichotomy x.1.day y.1.day with h | h | h
    · exact .inl (.inl h)
    · rcases le_total x.1.subscriptionID y.1.subscriptionID with hid | hid
      · exact .inl (.inr ⟨h, hid⟩)
      · exact .inr (.inr ⟨h.symm, hid⟩)
    · exact .inr (.inl h)⟩
  have htrans : IsTrans DailyBandwidthReport reportOrder := ⟨fun x y z hxy hyz => by
    unfold reportOrder at *
    rcases hxy with hxy | ⟨hxy, hid⟩
    · rcases hyz with hyz | ⟨hyz, -⟩
      · exact .inl (lt_trans hxy hyz)
      · exact .inl (hyz ▸ hxy)
    · rcases hyz with hyz | ⟨hyz, hid'⟩
      · exact .inl (hxy ▸ hyz)
      · exact .inr ⟨hxy.trans hyz, le_trans hid hid'⟩⟩
  have hsorted : (snapshot entries).Pairwise reportOrder := List.pairwise_insertionSort _ _
  have hnodup : ((snapshot entries).map Prod.fst).Nodup :=
    ((List.perm_insertionSort _ _).map _).nodup_iff.mpr (Table.nodup_rows entries)
  rw [List.Nodup, List.pairwise_map] at hnodup
  refine (hsorted.and hnodup).imp fun {x y} h => ?_
  obtain ⟨hle | ⟨hday, hid⟩, hne⟩ := h
  · exact .inl hle
  · exact .inr ⟨hday, lt_of_le_of_ne hid fun heq => hne (BandwidthKey.ext heq hday)⟩

/-- What a snapshot of bounded entries persists is bounded. -/
theorem EntriesBounded.ledger {entries : BandwidthEntries} (h : EntriesBounded entries)
    {sequence : ℕ} (hsequence : sequence ≤ maxInt64) :
    LedgerBounded ⟨sequence, snapshot entries⟩ where
  sequence := hsequence
  bounded r hr := h.rows r.1 r.2 (mem_snapshot.mp hr)
  sorted := snapshot_sorted entries
  count := by
    rw [snapshot, List.length_insertionSort, Table.rows, List.length_map]
    exact h.count

theorem LedgerBounded.lookup_entries {ledger : BandwidthLedger} (h : LedgerBounded ledger)
    {k : BandwidthKey} {t : BandwidthTotals} :
    ledger.entries.lookup k = some t ↔ (k, t) ∈ ledger.reports := by
  have hnodup : (ledger.reports.map Prod.fst).Nodup := by
    rw [List.Nodup, List.pairwise_map]
    exact h.sorted.imp fun hbefore => BandwidthKey.before_ne hbefore
  rw [BandwidthLedger.entries, Table.ofRows, Table.lookup_insertAll fun k v v' hv hv' =>
    congrArg Prod.snd (List.inj_on_of_nodup_map hnodup hv hv' rfl)]
  simp

/-- The entries a start takes from a bounded ledger are bounded. -/
theorem LedgerBounded.entries {ledger : BandwidthLedger} (h : LedgerBounded ledger) :
    EntriesBounded ledger.entries where
  rows k t hk := h.bounded (k, t) (h.lookup_entries.mp hk)
  count := by
    have hnodup : (ledger.reports.map Prod.fst).Nodup := by
      rw [List.Nodup, List.pairwise_map]
      exact h.sorted.imp fun hbefore => BandwidthKey.before_ne hbefore
    have hcount := h.count
    rw [BandwidthLedger.entries, Table.ofRows, Table.length_insertAll hnodup]
    have hle := List.countP_le_length
      (p := fun k => decide (k ∉ (∅ : BandwidthEntries))) (l := ledger.reports.map Prod.fst)
    rw [List.length_map] at hle
    show 0 + _ ≤ _
    omega

/-- The reporter's own check passes a bounded ledger. -/
theorem LedgerBounded.validate {ledger : BandwidthLedger} (h : LedgerBounded ledger) :
    validateBandwidthLedger ledger = true := by
  have hcheck : ∀ (reports : List DailyBandwidthReport) (previous : Option DailyBandwidthReport),
      (∀ r ∈ reports, ReportBounded r) → (∀ p ∈ previous, ∀ r ∈ reports, p.1.Before r.1) →
      reports.Pairwise (fun x y => x.1.Before y.1) → checkReports previous reports = true := by
    intro reports
    induction reports with
    | nil => exact fun _ _ _ _ => rfl
    | cons r rs ih =>
        intro previous hok hprevious hsorted
        obtain ⟨hnext, hsorted⟩ := List.pairwise_cons.mp hsorted
        have hrest := ih (some r) (fun r' hr' => hok r' (List.mem_cons_of_mem _ hr'))
          (fun p hp r' hr' => by cases hp; exact hnext r' hr') hsorted
        rw [checkReports, decide_eq_true_eq]
        exact ⟨(hok r List.mem_cons_self).canonical,
          fun p hp => hprevious p hp r List.mem_cons_self, hrest⟩
  rw [validateBandwidthLedger, decide_eq_true_eq]
  exact ⟨h.count, hcheck ledger.reports none h.bounded (fun p hp => by cases hp) h.sorted⟩

/-- Only ledgers of four-digit years are stored. -/
theorem dated_of_store {ledger : BandwidthLedger} {bootID : String} {raw : Bytes}
    (h : (ledger.file bootID).storeBandwidthLedger = .ok raw) :
    ∀ r ∈ ledger.reports, Dated r.1.day := by
  obtain ⟨valid, hvalidate, -⟩ := Except.bind_eq_ok h
  rw [LedgerFile.validateBandwidthLedger] at hvalidate
  split at hvalidate
  · cases hvalidate
  intro r hr
  have hvalid := (LedgerFile.checkReports_ok_iff.mp hvalidate).1 (reportText r)
    ((List.mem_insertionSort _).mpr (List.mem_map_of_mem hr))
  exact dated_of_canonicalBandwidthDay hvalid.day

/-! ## the reporter on its file -/

/-- Whether the outcome of a write left the new file. -/
def FlushOutcome.replaced : FlushOutcome → Bool
  | .ok => true
  | .failed effective => effective

/-- The reporter, its boot identifier and the bytes of its ledger file. -/
structure LedgerState where
  bootID : String
  raw : Bytes
  reporter : Reporter

/-- What happens to the reporter; the clock may be set to any day. -/
inductive LedgerEvent where
  | clock (day : ℤ)
  | event (e : Event)
deriving DecidableEq

namespace LedgerState

variable (other : Bytes → Option LedgerFile) (random : Fin 16 → Fin 256)

/-- The bytes of the file after it was loaded; where there was none, a new one was
stored. -/
def loadedBytes (file : LedgerFile) : Option Bytes → Except String Bytes
  | some raw => .ok raw
  | none => file.storeBandwidthLedger

/-- `newBandwidthReporterWithClock` where there is a file, or none. -/
def newBandwidthReporter (today : ℤ) (raw : Option Bytes) : Except String LedgerState := do
  let file ← LedgerFile.loadBandwidthLedger other random raw
  let stored ← loadedBytes file raw
  .ok { bootID := file.bootID
        raw := stored
        reporter := { Reporter.start today with
          entries := file.ledger.entries
          sequence := file.ledger.sequence
          file := file.ledger } }

/-- One event.  A write of the file stores the text of the ledger, or refuses it
before it touches the file; a restart loads the text. -/
def step (s : LedgerState) : LedgerEvent → Option LedgerState
  | .clock day => some { s with reporter := { s.reporter with today := day } }
  | .event .restart =>
      match LedgerFile.loadBandwidthLedger other random (some s.raw) with
      | .error _ => none
      | .ok file => some { s with
          bootID := file.bootID
          reporter := { s.reporter with
            entries := file.ledger.entries
            sequence := file.ledger.sequence
            adds := []
            phase := .run .idle } }
  | .event (.advance outcome) =>
      match s.reporter.phase with
      | .store ledger _ =>
          match (ledger.file s.bootID).storeBandwidthLedger with
          | .error _ => some { s with reporter := { s.reporter with phase := .run .idle } }
          | .ok raw => (s.reporter.advance outcome).map fun reporter =>
              { s with raw := if outcome.replaced then raw else s.raw, reporter := reporter }
      | _ => (s.reporter.advance outcome).map fun reporter => { s with reporter := reporter }
  | .event e => (s.reporter.step e).map fun reporter => { s with reporter := reporter }

/-- What `persistLocked` stores, or is about to store. -/
def Persists (s : LedgerState) (ledger : BandwidthLedger) : Prop :=
  ledger = ⟨s.reporter.sequence, snapshot s.reporter.entries⟩ ∨
    ∃ next, s.reporter.phase = .store ledger next

/-- The clock shows a year of four digits. -/
def ClockDated (s : LedgerState) (_ : LedgerEvent) : Prop := Dated s.reporter.today

instance (s : LedgerState) (e : LedgerEvent) : Decidable (s.ClockDated e) :=
  inferInstanceAs (Decidable (Dated _))

end LedgerState

/-! ## what a step of the reporter keeps -/

namespace Reporter

/-- What may change between two writes of the file. -/
structure Keeps (s s' : Reporter) : Prop where
  file : s'.file = s.file
  entries : s'.entries = s.entries ∨ (∃ day, s'.entries = pruneBefore s.entries day) ∨
    ∃ add ∈ s.adds, addBatch s.entries add.2 add.1 = .ok s'.entries
  sequence : s'.sequence = s.sequence ∨ s.sequence ≠ maxInt64 ∧ s'.sequence = s.sequence + 1
  adds : ∀ add ∈ s'.adds, add ∈ s.adds ∨ add.1 = s.today
  storing : ∀ ledger next, s'.phase = .store ledger next →
    s.phase = .store ledger next ∨ ledger = ⟨s.sequence, snapshot s.entries⟩

theorem keeps_advance {s s' : Reporter} {outcome : FlushOutcome}
    (h : s.advance outcome = some s') (hphase : ∀ ledger next, s.phase ≠ .store ledger next) :
    s.Keeps s' := by
  unfold advance at h
  split at h
  · cases h
    refine ⟨rfl, .inl rfl, .inl rfl, fun _ hadd => .inl hadd, fun ledger next hs => .inr ?_⟩
    simp only [Phase.store.injEq] at hs
    exact hs.1.symm
  · rename_i ledger next hstore
    exact absurd hstore (hphase ledger next)
  · cases h
  · cases h
    exact ⟨rfl, .inl rfl, .inl rfl, fun _ hadd => .inl hadd, fun _ _ => nofun⟩
  · split at h
    · cases h
      exact ⟨rfl, .inl rfl, .inl rfl, fun _ hadd => .inl hadd, fun _ _ => nofun⟩
    · rename_i hsequence
      cases h
      exact ⟨rfl, .inl rfl, .inr ⟨hsequence, rfl⟩, fun _ hadd => .inl hadd, fun _ _ => nofun⟩
  · cases h
    exact ⟨rfl, .inl rfl, .inl rfl, fun _ hadd => .inl hadd, fun _ _ => nofun⟩
  · cases h
    exact ⟨rfl, .inl rfl, .inl rfl, fun _ hadd => .inl hadd, fun _ _ => nofun⟩
  · cases h
    exact ⟨rfl, .inr (.inl ⟨_, rfl⟩), .inl rfl, fun _ hadd => .inl hadd, fun _ _ => nofun⟩

/-- Between two writes only an add and a prune change the entries. -/
theorem keeps_step {s s' : Reporter} {e : Event} (h : s.step e = some s')
    (hadvance : ∀ outcome, e ≠ .advance outcome) (hrestart : e ≠ .restart) : s.Keeps s' := by
  cases e with
  | midnight =>
      cases h
      exact ⟨rfl, .inl rfl, .inl rfl, fun _ hadd => .inl hadd, fun _ _ hs => .inl hs⟩
  | readClock increments =>
      cases h
      refine ⟨rfl, .inl rfl, .inl rfl, fun add hadd => ?_, fun _ _ hs => .inl hs⟩
      cases List.mem_append.mp hadd with
      | inl hold => exact .inl hold
      | inr hnew =>
          rw [List.mem_singleton] at hnew
          exact .inr (congrArg Prod.fst hnew)
  | addBatch waiting =>
      obtain ⟨add, hadd, rfl⟩ := Option.map_eq_some_iff.mp h
      cases hbatch : Relay.addBatch s.entries add.2 add.1 with
      | error e =>
          exact ⟨rfl, .inl rfl, .inl rfl, fun _ hmem => .inl (List.mem_of_mem_eraseIdx hmem),
            fun _ _ hs => .inl hs⟩
      | ok entries =>
          exact ⟨rfl, .inr (.inr ⟨add, List.mem_of_getElem? hadd, hbatch⟩), .inl rfl,
            fun _ hmem => .inl (List.mem_of_mem_eraseIdx hmem), fun _ _ hs => .inl hs⟩
  | flush =>
      unfold Reporter.step at h
      dsimp only at h
      split at h
      · cases h
        exact ⟨rfl, .inl rfl, .inl rfl, fun _ hadd => .inl hadd, fun _ _ => nofun⟩
      · cases h
  | advance outcome => exact absurd rfl (hadvance outcome)
  | restart => exact absurd rfl hrestart

/-! ## its bounds -/

/-- What the reporter holds, is about to store and has stored is within its
bounds. -/
structure Bounded (s : Reporter) : Prop where
  entries : EntriesBounded s.entries
  sequence : s.sequence ≤ maxInt64
  storing : ∀ ledger next, s.phase = .store ledger next → LedgerBounded ledger
  file : LedgerBounded s.file

theorem start_bounded (today : ℤ) : (start today).Bounded where
  entries := ⟨fun _ _ hk => by simp [start] at hk, Nat.zero_le _⟩
  sequence := Nat.zero_le _
  storing _ _ := nofun
  file := ⟨Nat.zero_le _, fun _ => nofun, .nil, Nat.zero_le _⟩

/-- A step between two writes keeps the bounds. -/
theorem Bounded.keeps {s s' : Reporter} (h : s.Bounded) (hkeeps : s.Keeps s') : s'.Bounded := by
  obtain ⟨hfile, hentries, hsequence, -, hstoring⟩ := hkeeps
  constructor
  · rcases hentries with hsame | ⟨day, hprune⟩ | ⟨add, -, hadd⟩
    · exact hsame ▸ h.entries
    · exact hprune ▸ h.entries.pruneBefore day
    · exact h.entries.addBatch hadd
  · have hle := h.sequence
    omega
  · intro ledger next hphase
    cases hstoring ledger next hphase with
    | inl hstore => exact h.storing ledger next hstore
    | inr hsnapshot => exact hsnapshot ▸ h.entries.ledger h.sequence
  · exact hfile.symm ▸ h.file

/-- A write leaves the old ledger or the one it stores. -/
theorem Bounded.store {s s' : Reporter} {outcome : FlushOutcome} {ledger : BandwidthLedger}
    {next : Task} (h : s.Bounded) (hphase : s.phase = .store ledger next)
    (hstep : s.advance outcome = some s') : s'.Bounded := by
  cases advances_of_advance hstep with
  | stored hstore =>
      exact ⟨h.entries, h.sequence, fun _ _ => nofun, h.storing _ _ hstore⟩
  | storeFailed hstore hfile =>
      refine ⟨h.entries, h.sequence, fun _ _ => nofun, ?_⟩
      cases hfile with
      | inl hnew => exact hnew ▸ h.storing _ _ hstore
      | inr hold => exact hold ▸ h.file
  | _ hother => simp [hphase] at hother

theorem Bounded.step {s s' : Reporter} {e : Event} (h : s.Bounded)
    (hstep : s.step e = some s') : s'.Bounded := by
  cases e with
  | restart =>
      unfold Reporter.step at hstep
      dsimp only at hstep
      split at hstep
      · cases hstep
        exact ⟨h.file.entries, h.file.sequence, fun _ _ => nofun, h.file⟩
      · cases hstep
  | advance outcome =>
      by_cases hphase : ∃ ledger next, s.phase = .store ledger next
      · obtain ⟨ledger, next, hphase⟩ := hphase
        exact h.store hphase hstep
      · push Not at hphase
        exact h.keeps (keeps_advance hstep hphase)
  | _ => exact h.keeps (keeps_step hstep (by simp) (by simp))

end Reporter

/-! ## the invariant -/

namespace LedgerState

variable {other : Bytes → Option LedgerFile} {random : Fin 16 → Fin 256}

/-- Everything the reporter holds is within its bounds, and its file is loaded as
the ledger it stands for. -/
structure Inv (other : Bytes → Option LedgerFile) (random : Fin 16 → Fin 256)
    (s : LedgerState) : Prop where
  boot : canonicalSubscriptionID s.bootID = true
  entries : EntriesBounded s.reporter.entries
  sequence : s.reporter.sequence ≤ maxInt64
  storing : ∀ ledger next, s.reporter.phase = .store ledger next → LedgerBounded ledger
  file : LedgerOk s.reporter.file
  loads : LedgerFile.loadBandwidthLedger other random (some s.raw) =
    .ok (s.reporter.file.file s.bootID)

theorem Inv.bounded {s : LedgerState} (h : s.Inv other random) : s.reporter.Bounded :=
  ⟨h.entries, h.sequence, h.storing, h.file.toLedgerBounded⟩

/-- What the reporter persists is bounded. -/
theorem Inv.persists {s : LedgerState} (h : s.Inv other random) {ledger : BandwidthLedger}
    (hledger : s.Persists ledger) : LedgerBounded ledger := by
  cases hledger with
  | inl hsnapshot => exact hsnapshot ▸ h.entries.ledger h.sequence
  | inr hstoring =>
      obtain ⟨next, hphase⟩ := hstoring
      exact h.storing ledger next hphase

/-- A step between two writes keeps the invariant. -/
theorem Inv.keeps {s : LedgerState} (h : s.Inv other random) {reporter : Reporter}
    (hkeeps : s.reporter.Keeps reporter) : Inv other random { s with reporter := reporter } := by
  have hbounded := h.bounded.keeps hkeeps
  refine ⟨h.boot, hbounded.entries, hbounded.sequence, hbounded.storing, ?_, ?_⟩
  · exact hkeeps.file.symm ▸ h.file
  · show _ = Except.ok (reporter.file.file s.bootID)
    rw [hkeeps.file]
    exact h.loads

theorem step_event {e : Event} (hadvance : ∀ outcome, e ≠ .advance outcome)
    (hrestart : e ≠ .restart) (s : LedgerState) : s.step other random (.event e) =
      (s.reporter.step e).map fun reporter => { s with reporter := reporter } := by
  cases e with
  | advance outcome => exact absurd rfl (hadvance outcome)
  | restart => exact absurd rfl hrestart
  | _ => rfl

theorem newBandwidthReporter_inv {today : ℤ} {raw : Option Bytes} {s : LedgerState}
    (h : newBandwidthReporter other random today raw = .ok s) : s.Inv other random := by
  obtain ⟨file, hload, h⟩ := Except.bind_eq_ok h
  obtain ⟨stored, hstored, h⟩ := Except.bind_eq_ok h
  obtain ⟨hok, hself, hboot⟩ := load_ok hload
  rw [← Except.ok.inj h]
  refine ⟨hboot, hok.entries, hok.sequence, fun _ _ => nofun, hok, ?_⟩
  show LedgerFile.loadBandwidthLedger other random (some stored) =
    .ok (file.ledger.file file.bootID)
  cases raw with
  | some raw =>
      rw [← Except.ok.inj hstored, hself]
      exact hload
  | none =>
      refine load_store hok hboot other random ?_
      rw [hself]
      exact hstored

theorem Inv.step {s s' : LedgerState} {e : LedgerEvent} (h : s.Inv other random)
    (hstep : s.step other random e = some s') : s'.Inv other random := by
  cases e with
  | clock day =>
      cases hstep
      exact ⟨h.boot, h.entries, h.sequence, h.storing, h.file, h.loads⟩
  | event e =>
      cases e with
      | restart =>
          rw [LedgerState.step, h.loads] at hstep
          dsimp only at hstep
          have hledger := h.file.ledger_file s.bootID
          cases hstep
          rw [hledger]
          exact ⟨h.boot, h.file.entries, h.file.sequence, fun _ _ => nofun, h.file,
            h.loads⟩
      | advance outcome =>
          rw [LedgerState.step] at hstep
          split at hstep
          · rename_i ledger next hphase
            have hbounded := h.storing ledger next hphase
            split at hstep
            · cases hstep
              exact ⟨h.boot, h.entries, h.sequence, fun _ _ => nofun, h.file, h.loads⟩
            · rename_i raw hstore
              have hok : LedgerOk ledger := ⟨hbounded, dated_of_store hstore⟩
              have hload := load_store hok h.boot other random hstore
              obtain ⟨reporter, hadvance, rfl⟩ := Option.map_eq_some_iff.mp hstep
              rw [Reporter.advance, hphase] at hadvance
              dsimp only at hadvance
              rw [hbounded.validate, if_neg (by decide)] at hadvance
              cases outcome with
              | ok =>
                  cases hadvance
                  exact ⟨h.boot, h.entries, h.sequence, fun _ _ => nofun, hok, hload⟩
              | failed effective =>
                  cases hadvance
                  cases effective with
                  | true =>
                      exact ⟨h.boot, h.entries, h.sequence, fun _ _ => nofun, hok, hload⟩
                  | false =>
                      exact ⟨h.boot, h.entries, h.sequence, fun _ _ => nofun, h.file,
                        h.loads⟩
          · rename_i hphase
            obtain ⟨reporter, hadvance, rfl⟩ := Option.map_eq_some_iff.mp hstep
            exact h.keeps (Reporter.keeps_advance hadvance hphase)
      | _ =>
          rw [step_event (by simp) (by simp)] at hstep
          obtain ⟨reporter, hevent, rfl⟩ := Option.map_eq_some_iff.mp hstep
          exact h.keeps (Reporter.keeps_step hevent (by simp) (by simp))

/-! ## days -/

/-- Everything the reporter holds has days of four-digit years. -/
structure DatedInv (s : LedgerState) : Prop where
  entries : ∀ k t, s.reporter.entries.lookup k = some t → Dated k.day
  adds : ∀ add ∈ s.reporter.adds, Dated add.1
  storing : ∀ ledger next, s.reporter.phase = .store ledger next →
    ∀ r ∈ ledger.reports, Dated r.1.day

theorem DatedInv.persists {s : LedgerState} (h : s.DatedInv) {ledger : BandwidthLedger}
    (hledger : s.Persists ledger) : ∀ r ∈ ledger.reports, Dated r.1.day := by
  cases hledger with
  | inl hsnapshot =>
      intro r hr
      rw [hsnapshot] at hr
      exact h.entries r.1 r.2 (mem_snapshot.mp hr)
  | inr hstoring =>
      obtain ⟨next, hphase⟩ := hstoring
      exact h.storing ledger next hphase

theorem DatedInv.keeps {s : LedgerState} (h : s.DatedInv) (htoday : Dated s.reporter.today)
    {reporter : Reporter} (hkeeps : s.reporter.Keeps reporter) :
    DatedInv { s with reporter := reporter } := by
  obtain ⟨-, hentries, -, hadds, hstoring⟩ := hkeeps
  refine ⟨fun k t hk => ?_, fun add hadd => ?_, fun ledger next hphase => ?_⟩
  · change reporter.entries.lookup k = some t at hk
    rcases hentries with hsame | ⟨day, hprune⟩ | ⟨add, hadd, hbatch⟩
    · rw [hsame] at hk
      exact h.entries k t hk
    · rw [hprune, lookup_pruneBefore] at hk
      split at hk
      · cases hk
      · exact h.entries k t hk
    · by_cases hmem : k ∈ addedKeys add.2 add.1
      · obtain ⟨i, -, rfl⟩ := List.mem_map.mp hmem
        exact h.adds add hadd
      · rw [(addBatch_ok hbatch).1 k hmem] at hk
        exact h.entries k t hk
  · cases hadds add hadd with
    | inl hold => exact h.adds add hold
    | inr hnew => exact hnew ▸ htoday
  · cases hstoring ledger next hphase with
    | inl hstore => exact h.storing ledger next hstore
    | inr hsnapshot => exact h.persists (.inl hsnapshot)

/-- What comes from a ledger that fits the file has its days. -/
theorem dated_entries {ledger : BandwidthLedger} (h : LedgerOk ledger) :
    ∀ k t, ledger.entries.lookup k = some t → Dated k.day := fun k t hk =>
  h.dated (k, t) (h.lookup_entries.mp hk)

theorem newBandwidthReporter_dated {today : ℤ} {raw : Option Bytes} {s : LedgerState}
    (h : newBandwidthReporter other random today raw = .ok s) : s.DatedInv := by
  obtain ⟨file, hload, h⟩ := Except.bind_eq_ok h
  obtain ⟨stored, -, h⟩ := Except.bind_eq_ok h
  obtain ⟨hok, -, -⟩ := load_ok hload
  rw [← Except.ok.inj h]
  exact ⟨dated_entries hok, fun _ => nofun, fun _ _ => nofun⟩

theorem DatedInv.step {s s' : LedgerState} {e : LedgerEvent} (hinv : s.Inv other random)
    (h : s.DatedInv) (htoday : s.ClockDated e) (hstep : s.step other random e = some s') :
    s'.DatedInv := by
  cases e with
  | clock day =>
      cases hstep
      exact ⟨h.entries, h.adds, h.storing⟩
  | event e =>
      cases e with
      | restart =>
          rw [LedgerState.step, hinv.loads] at hstep
          dsimp only at hstep
          have hledger := hinv.file.ledger_file s.bootID
          cases hstep
          rw [hledger]
          exact ⟨dated_entries hinv.file, fun _ => nofun, fun _ _ => nofun⟩
      | advance outcome =>
          rw [LedgerState.step] at hstep
          split at hstep
          · rename_i ledger next hphase
            split at hstep
            · cases hstep
              exact ⟨h.entries, h.adds, fun _ _ => nofun⟩
            · obtain ⟨reporter, hadvance, rfl⟩ := Option.map_eq_some_iff.mp hstep
              rw [Reporter.advance, hphase] at hadvance
              dsimp only at hadvance
              rw [(hinv.storing ledger next hphase).validate, if_neg (by decide)] at hadvance
              cases outcome with
              | ok =>
                  cases hadvance
                  exact ⟨h.entries, h.adds, fun _ _ => nofun⟩
              | failed effective =>
                  cases hadvance
                  exact ⟨h.entries, h.adds, fun _ _ => nofun⟩
          · rename_i hphase
            obtain ⟨reporter, hadvance, rfl⟩ := Option.map_eq_some_iff.mp hstep
            exact h.keeps htoday (Reporter.keeps_advance hadvance hphase)
      | _ =>
          rw [step_event (by simp) (by simp)] at hstep
          obtain ⟨reporter, hevent, rfl⟩ := Option.map_eq_some_iff.mp hstep
          exact h.keeps htoday (Reporter.keeps_step hevent (by simp) (by simp))

/-- The boot identifier stays the one of the file. -/
theorem bootID_step {s s' : LedgerState} {e : LedgerEvent} (hinv : s.Inv other random)
    (hstep : s.step other random e = some s') : s'.bootID = s.bootID := by
  cases e with
  | clock day =>
      cases hstep
      rfl
  | event e =>
      cases e with
      | restart =>
          rw [LedgerState.step, hinv.loads] at hstep
          cases hstep
          rfl
      | advance outcome =>
          rw [LedgerState.step] at hstep
          split at hstep
          · split at hstep
            · cases hstep
              rfl
            · obtain ⟨reporter, -, rfl⟩ := Option.map_eq_some_iff.mp hstep
              rfl
          · obtain ⟨reporter, -, rfl⟩ := Option.map_eq_some_iff.mp hstep
            rfl
      | _ =>
          rw [step_event (by simp) (by simp)] at hstep
          obtain ⟨reporter, -, rfl⟩ := Option.map_eq_some_iff.mp hstep
          rfl

/-! ## runs -/

/-- What the reporter persists is valid, is stored within the size limit, and is
loaded again with its totals, boot identifier and sequence. -/
def Stores (other : Bytes → Option LedgerFile) (random : Fin 16 → Fin 256) (bootID : String)
    (ledger : BandwidthLedger) : Prop :=
  (ledger.file bootID).validateBandwidthLedger = .ok () ∧
    ∃ raw, (ledger.file bootID).storeBandwidthLedger = .ok raw ∧
      raw.length ≤ maxBandwidthLedgerSize ∧
      LedgerFile.loadBandwidthLedger other random (some raw) = .ok (ledger.file bootID) ∧
      (ledger.file bootID).ledger = ledger

theorem stores_of_ok {ledger : BandwidthLedger} (h : LedgerOk ledger) {bootID : String}
    (hboot : canonicalSubscriptionID bootID = true) : Stores other random bootID ledger := by
  obtain ⟨hstore, hsize⟩ := h.store hboot
  exact ⟨h.validate hboot, _, hstore, hsize, load_store h hboot other random hstore,
    h.ledger_file bootID⟩

/-- **The ledger in every run**, from any file that loads and under any clock.

Each batch is applied as a whole or not at all, no total passes the range of `int64`
and the entries stay within their number.  A ledger of days with four-digit years is
stored and loaded again; while the clock shows such years there is no other.  The
file that is there is always loaded. -/
theorem bandwidth_ledger_safe {today : ℤ} {raw : Option Bytes} {s₀ s : LedgerState}
    {events : List LedgerEvent}
    (hstart : newBandwidthReporter other random today raw = .ok s₀)
    (hrun : exec (step other random) s₀ events = some s) :
    (∀ increments day,
      (∃ e, afterBatch s.reporter.entries increments day = (s.reporter.entries, some e)) ∨
      ∃ entries', afterBatch s.reporter.entries increments day = (entries', none) ∧ ∀ k d,
        (BandwidthTotals.bytes ((entries'.lookup k).getD 0) d : ℤ) =
          BandwidthTotals.bytes ((s.reporter.entries.lookup k).getD 0) d +
            if k.day = day then creditOf increments k.subscriptionID d else 0) ∧
    (∀ k t, s.reporter.entries.lookup k = some t → t.1 ≤ maxInt64 ∧ t.2 ≤ maxInt64) ∧
    s.reporter.entries.entries.length ≤ maxBandwidthEntries ∧
    (∀ ledger, s.Persists ledger → (∀ r ∈ ledger.reports, Dated r.1.day) →
      Stores other random s.bootID ledger) ∧
    (Meets (step other random) ClockDated s₀ events → ∀ ledger, s.Persists ledger →
      Stores other random s.bootID ledger) ∧
    s.bootID = s₀.bootID ∧
    LedgerFile.loadBandwidthLedger other random (some s.raw) =
      .ok (s.reporter.file.file s.bootID) := by
  have hinv : s.Inv other random := exec_invariant (fun _ _ _ h hstep => Inv.step h hstep)
    (newBandwidthReporter_inv hstart) hrun
  have hboot : s.bootID = s₀.bootID := by
    have hboth := exec_invariant (I := fun t => t.Inv other random ∧ t.bootID = s₀.bootID)
      (fun t e t' h hstep => ⟨h.1.step hstep, (bootID_step h.1 hstep).trans h.2⟩)
      ⟨newBandwidthReporter_inv hstart, rfl⟩ hrun
    exact hboth.2
  have hstores : ∀ ledger, s.Persists ledger → (∀ r ∈ ledger.reports, Dated r.1.day) →
      Stores other random s.bootID ledger := fun ledger hledger hdated =>
    stores_of_ok ⟨hinv.persists hledger, hdated⟩ hinv.boot
  refine ⟨afterBatch_cases _, fun k t hk => ?_, hinv.entries.count, hstores,
    fun hm ledger hledger => ?_, hboot, hinv.loads⟩
  · have hbounded := hinv.entries.rows k t hk
    exact ⟨hbounded.ingress, hbounded.egress⟩
  · have hboth := hm.invariant (I := fun t => t.Inv other random ∧ t.DatedInv)
      (fun t e t' h htoday hstep => ⟨h.1.step hstep, h.2.step h.1 htoday hstep⟩)
      ⟨newBandwidthReporter_inv hstart, newBandwidthReporter_dated hstart⟩ hrun
    exact hstores ledger hledger (hboth.2.persists hledger)

namespace Sample

/-- The reporter of a relay that had no file. -/
def opened (today : ℤ) : LedgerState where
  bootID := LedgerFile.randomCanonicalUUID fun _ => 0
  raw := Json.utf8 ((BandwidthLedger.mk 0 []).file
    (LedgerFile.randomCanonicalUUID fun _ => 0)).marshal
  reporter := Reporter.start today

/-- Bytes of the day are added. -/
def added : List LedgerEvent :=
  [.event (.readClock (Reporter.Sample.increment 5)), .event (.addBatch 0)]

/-- The reporter after them. -/
def after (today : ℤ) : LedgerState :=
  (exec (step (fun _ => none) fun _ => 0) (opened today) added).getD (opened today)

theorem newBandwidthReporter_opened (today : ℤ) :
    newBandwidthReporter (fun _ => none) (fun _ => 0) today none = .ok (opened today) := by
  have hstore := (ledgerOk_empty.store (canonical_randomCanonicalUUID fun _ => 0)).1
  rw [newBandwidthReporter, load_none]
  show (((BandwidthLedger.mk 0 []).file
    (LedgerFile.randomCanonicalUUID fun _ => 0)).storeBandwidthLedger >>= fun _ => _) = _
  rw [hstore]
  rfl

theorem exec_added {today : ℤ} (h : (exec (step (fun _ => none) fun _ => 0) (opened today)
    added).isSome) : exec (step (fun _ => none) fun _ => 0) (opened today) added =
      some (after today) := by
  obtain ⟨s, hs⟩ := Option.isSome_iff_exists.mp h
  rw [after, hs]
  rfl

end Sample

theorem bandwidth_ledger_safe_first_day :
    (Sample.after 0).reporter.entries.lookup ⟨Reporter.Sample.subscriptionID, 0⟩ = some (5, 0) ∧
    Stores (fun _ => none) (fun _ => 0) (Sample.after 0).bootID
      ⟨(Sample.after 0).reporter.sequence, snapshot (Sample.after 0).reporter.entries⟩ := by
  obtain ⟨-, -, -, -, hstores, -, -⟩ := bandwidth_ledger_safe
    (Sample.newBandwidthReporter_opened 0) (Sample.exec_added (by decide +kernel))
  exact ⟨by decide +kernel, hstores (by decide +kernel) _ (.inl rfl)⟩

/-- Bytes of the first day of the year 10000 make a ledger that is not stored. -/
theorem ledger_of_year_10000_refused :
    newBandwidthReporter (fun _ => none) (fun _ => 0) 2932897 none =
      .ok (Sample.opened 2932897) ∧
    exec (step (fun _ => none) fun _ => 0) (Sample.opened 2932897) Sample.added =
      some (Sample.after 2932897) ∧
    ¬ ∃ raw, (BandwidthLedger.file ⟨(Sample.after 2932897).reporter.sequence,
      snapshot (Sample.after 2932897).reporter.entries⟩
      (Sample.after 2932897).bootID).storeBandwidthLedger = .ok raw := by
  refine ⟨Sample.newBandwidthReporter_opened 2932897, Sample.exec_added (by decide +kernel), ?_⟩
  intro ⟨raw, hstore⟩
  have hentry : (Sample.after 2932897).reporter.entries.lookup
      ⟨Reporter.Sample.subscriptionID, 2932897⟩ = some (5, 0) := by decide +kernel
  have hdated := dated_of_store hstore _ (mem_snapshot.mpr hentry)
  exact absurd hdated (by decide +kernel)

end LedgerState

end Relay
