import Blindport.Backend.Admission
import Blindport.Relay.Delivery
import Blindport.Relay.LedgerSafety

/-!
# Blindport.Relay.Flushing

One flush against a reachable backend.

The relay sends its entries oldest day first, a thousand to a batch, and stops
at the first batch that is refused, without pruning; the backend refuses a
batch for one report it does not take.  So what is ingested is a run of batches
from the front, and an entry the backend never takes again, such as one older
than its ingest window, keeps back everything sent with or after it.

What a `Flush` takes for granted of the two stores holds in every run of relay and
backend (`System.flush`).
-/

namespace Relay.Delivery

open Conc Backend.Bandwidth

/-- The batches of a flush; `fuel` bounds their number. -/
def batches : ℕ → List DailyBandwidthReport → List (List DailyBandwidthReport)
  | 0, _ => []
  | _ + 1, [] => []
  | fuel + 1, r :: rs => (r :: rs).take 1000 :: batches fuel ((r :: rs).drop 1000)

theorem batches_flatten {fuel : ℕ} {rs : List DailyBandwidthReport} (h : rs.length ≤ fuel) :
    (batches fuel rs).flatten = rs := by
  fun_induction batches fuel rs with
  | case1 rs =>
      rw [List.eq_nil_of_length_eq_zero (Nat.le_zero.mp h)]
      rfl
  | case2 => rfl
  | case3 fuel r rs ih =>
      rw [List.flatten_cons, ih, List.take_append_drop]
      simp only [List.length_drop, List.length_cons] at h ⊢
      omega

theorem length_of_mem_batches {fuel : ℕ} {rs : List DailyBandwidthReport}
    {batch : List DailyBandwidthReport} (h : batch ∈ batches fuel rs) :
    1 ≤ batch.length ∧ batch.length ≤ 1000 := by
  fun_induction batches fuel rs with
  | case1 => simp at h
  | case2 => simp at h
  | case3 fuel r rs ih =>
      cases List.mem_cons.mp h with
      | inl heq =>
          rw [heq, List.length_take, List.length_cons]
          omega
      | inr hrest => exact ih hrest

/-- The relay's ledger and the backend at one flush.  The backend is reachable:
it takes the relay's credentials.  The rest is what the two stores keep:
totals are 64-bit, subscriptions have identifiers of their own, and no cursor
of the boot is ahead of the sequence in the ledger, which is stored before a
batch is sent. -/
structure Flush where
  settings : Settings
  today : ℤ
  headers : RelayHeaders
  identity : Identity
  entries : BandwidthEntries
  sequence : ℕ
  db : Database
  bound : sequence ≤ Relay.maxInt64
  enabled : settings.bandwidthMetricsEnabled = true
  secret : headers.relaySecret ≠ "" ∧ headers.relaySecret = settings.relaySecret
  token : headers.relayHeartbeatToken ≠ "" ∧
    settings.relayHeartbeatKeys.lookup identity.edgeID = some headers.relayHeartbeatToken
  edge : 1 ≤ identity.edgeID.length ∧ identity.edgeID.length ≤ 63
  totals : ∀ k t, entries.lookup k = some t → t ≤ maxTotals
  distinct : DistinctIds db.subscriptions
  numbered : db.EveryCursor fun k c =>
    k.edgeId = identity.edgeID → k.bootId = identity.bootID → c.sequence ≤ sequence

/-- The flush a running system comes to, at a backend that takes the relay's
credentials: what the two stores keep is so in every run. -/
def System.flush {settings : Settings} {identity : Identity} {start : ℤ}
    {actions : List Action} {s : System} (now : ℤ) (headers : RelayHeaders)
    (hrun : exec (step settings identity) (Delivery.start start) actions = some s)
    (henabled : settings.bandwidthMetricsEnabled = true)
    (hsecret : headers.relaySecret ≠ "" ∧ headers.relaySecret = settings.relaySecret)
    (htoken : headers.relayHeartbeatToken ≠ "" ∧
      settings.relayHeartbeatKeys.lookup identity.edgeID = some headers.relayHeartbeatToken)
    (hedge : 1 ≤ identity.edgeID.length ∧ identity.edgeID.length ≤ 63) : Flush where
  settings := settings
  today := now
  headers := headers
  identity := identity
  entries := s.relay.entries
  sequence := s.relay.sequence
  db := s.backend.db
  bound := (relay_run (fun h hstep => h.step hstep) (Reporter.start_bounded start) hrun).sequence
  enabled := henabled
  secret := hsecret
  token := htoken
  edge := hedge
  totals k t hk := by
    have hbounded : s.relay.Bounded :=
      relay_run (fun h hstep => h.step hstep) (Reporter.start_bounded start) hrun
    have hrow := hbounded.entries.rows k t hk
    exact ⟨hrow.ingress, hrow.egress⟩
  distinct := (cursors_not_ahead hrun).1
  numbered := (cursors_not_ahead hrun).2

namespace Flush

/-- The loop of `flush`: it ends at a used up sequence or a refused batch, and
says whether it got to its end. -/
def sendBatches (f : Flush) : List (List DailyBandwidthReport) → ℕ → Database → Database × Bool
  | [], _, db => (db, true)
  | batch :: rest, sequence, db =>
      if sequence = Relay.maxInt64 then (db, false)
      else match relayDailyBandwidth f.settings f.today f.headers
          (request f.identity (sequence + 1) batch) db with
        | (db, none) => f.sendBatches rest (sequence + 1) db
        | (db, some _) => (db, false)

/-- The batches of the flush. -/
def batches (f : Flush) : List (List DailyBandwidthReport) :=
  Delivery.batches (snapshot f.entries).length (snapshot f.entries)

/-- The database after the flush. -/
def outcome (f : Flush) : Database := (f.sendBatches f.batches f.sequence f.db).1

/-- The backend's window of accepted days. -/
def InWindow (f : Flush) (k : BandwidthKey) : Prop :=
  f.today - f.settings.bandwidthIngestMaxAgeDays ≤ k.day ∧ k.day ≤ f.today

/-- The backend has a subscription of that identifier. -/
def Known (f : Flush) (k : BandwidthKey) : Prop := k.subscriptionID ∈ f.db.subscriptions

/-- The backend's cursor of an entry. -/
def cursorKey (f : Flush) (k : BandwidthKey) : CursorKey :=
  ⟨f.identity.edgeID, f.identity.bootID, (f.db.subscriptions.lookup k.subscriptionID).getD 0, k.day⟩

/-- The entry was ingested: its cursor holds its totals. -/
def Ingested (f : Flush) (db : Database) (r : DailyBandwidthReport) : Prop :=
  ∃ c ∈ db.cursors.lookup (f.cursorKey r.1), c.totals = r.2

/-- The entry could be ingested and was not before the flush. -/
def Pending (f : Flush) (r : DailyBandwidthReport) : Prop :=
  f.Known r.1 ∧ f.InWindow r.1 ∧ ¬ f.Ingested f.db r

/-- What the backend makes of a report. -/
def content (f : Flush) (r : DailyBandwidthReport) :
    CursorKey × Backend.Bandwidth.BandwidthTotals :=
  (f.cursorKey r.1, r.2)

/-- The report an entry becomes at the backend. -/
def report (f : Flush) (sequence : ℕ) (r : DailyBandwidthReport) :
    Cumulative.Report CursorKey Backend.Bandwidth.BandwidthTotals :=
  ⟨f.cursorKey r.1, sequence, r.2⟩

/-- The reports of a batch in the order of the ingest loop. -/
def reports (f : Flush) (sequence : ℕ) (batch : List DailyBandwidthReport) :
    List (Cumulative.Report CursorKey Backend.Bandwidth.BandwidthTotals) :=
  (batch.map (f.report sequence)).insertionSort ingestOrder

/-- Different entries of known subscriptions have different cursors. -/
theorem cursorKey_injective (f : Flush) {k k' : BandwidthKey} (hk : f.Known k) (hk' : f.Known k')
    (h : f.cursorKey k = f.cursorKey k') : k = k' := by
  obtain ⟨i, hi⟩ := Option.isSome_iff_exists.mp (AList.lookup_isSome.mpr hk)
  obtain ⟨i', hi'⟩ := Option.isSome_iff_exists.mp (AList.lookup_isSome.mpr hk')
  simp only [cursorKey, hi, hi', Option.getD_some, CursorKey.mk.injEq, true_and] at h
  refine BandwidthKey.ext (f.distinct _ _ i hi ?_) h.2
  rw [hi', h.1]

theorem resolved_of_known (f : Flush) {db : Database} (hdb : db.subscriptions = f.db.subscriptions)
    {batch : List DailyBandwidthReport} (h : ∀ r ∈ batch, f.Known r.1) (sequence : ℕ) :
    resolved db (request f.identity sequence batch) = some (f.reports sequence batch) := by
  unfold resolved
  rw [request, List.mapM_map, mapM_eq_some_map (g := f.report sequence)]
  · rfl
  · intro r hr
    obtain ⟨i, hi⟩ := Option.isSome_iff_exists.mp (AList.lookup_isSome.mpr (h r hr))
    simp only [Function.comp_apply, hdb, hi, Option.map_some, Option.some.injEq]
    simp [toReport, report, cursorKey, hi]

theorem known_of_resolved (f : Flush) {db : Database} (hdb : db.subscriptions = f.db.subscriptions)
    {batch : List DailyBandwidthReport} {sequence : ℕ}
    {rs : List (Cumulative.Report CursorKey Backend.Bandwidth.BandwidthTotals)}
    (h : resolved db (request f.identity sequence batch) = some rs) :
    ∀ r ∈ batch, f.Known r.1 := by
  intro r hr
  unfold resolved at h
  obtain ⟨entries, hentries, -⟩ := Option.map_eq_some_iff.mp h
  have hsome := isSome_of_mapM hentries _ (List.mem_map_of_mem hr)
  rw [Option.isSome_map, hdb] at hsome
  exact AList.lookup_isSome.mp hsome

/-- Batches as a flush sends them to a database whose cursors of the boot are
not ahead: of a bounded length, with one report a key. -/
structure Ready (f : Flush) (bs : List (List DailyBandwidthReport)) (sequence : ℕ)
    (db : Database) : Prop where
  subscriptions : db.subscriptions = f.db.subscriptions
  numbered : db.EveryCursor fun k c =>
    k.edgeId = f.identity.edgeID → k.bootId = f.identity.bootID → c.sequence ≤ sequence
  bound : sequence ≤ Relay.maxInt64
  length : ∀ batch ∈ bs, 1 ≤ batch.length ∧ batch.length ≤ 1000
  keys : (bs.flatten.map Prod.fst).Nodup
  totals : ∀ r ∈ bs.flatten, r.2 ≤ maxTotals

theorem mem_reports {f : Flush} {sequence : ℕ} {batch : List DailyBandwidthReport}
    {x : Cumulative.Report CursorKey Backend.Bandwidth.BandwidthTotals} :
    x ∈ f.reports sequence batch ↔ ∃ r ∈ batch, f.report sequence r = x := by
  rw [reports, List.mem_insertionSort, List.mem_map]

variable {f : Flush} {bs : List (List DailyBandwidthReport)} {batch : List DailyBandwidthReport}
  {sequence : ℕ} {db db' : Database}

theorem Ready.fresh (h : f.Ready (batch :: bs) sequence db) :
    ∀ x ∈ f.reports (sequence + 1) batch, ∀ c ∈ db.cursors.lookup x.key,
      c.sequence < x.sequence := by
  intro x hx c hc
  obtain ⟨r, -, rfl⟩ := mem_reports.mp hx
  exact Nat.lt_succ_of_le (h.numbered _ c hc rfl rfl)

/-- What the backend asks of a batch before its transaction. -/
theorem Ready.checkRequest_iff (h : f.Ready (batch :: bs) sequence db) :
    checkRequest f.settings f.today f.headers (request f.identity (sequence + 1) batch) = .ok () ↔
      sequence + 1 ≤ Relay.maxInt64 ∧ ∀ r ∈ batch, f.InWindow r.1 := by
  have hlength := h.length batch List.mem_cons_self
  have hkeys := h.keys
  rw [List.flatten_cons, List.map_append, List.nodup_append] at hkeys
  have hnodup : ((request f.identity (sequence + 1) batch).reports.map fun report =>
      (report.subscriptionId, report.day)).Nodup := by
    have hmap : (request f.identity (sequence + 1) batch).reports.map
        (fun report => (report.subscriptionId, report.day)) =
        (batch.map Prod.fst).map fun k => (k.subscriptionID, k.day) := by
      simp [request, Function.comp_def]
    rw [hmap]
    refine hkeys.1.map fun k k' heq => ?_
    simp only [Prod.mk.injEq] at heq
    exact BandwidthKey.ext heq.1 heq.2
  have htotals : ∀ report ∈ (request f.identity (sequence + 1) batch).reports,
      (report.totals.1 : ℤ) ≤ Backend.Bandwidth.maxInt64 ∧
        (report.totals.2 : ℤ) ≤ Backend.Bandwidth.maxInt64 := by
    intro report hreport
    obtain ⟨r, hr, rfl⟩ := List.mem_map.mp hreport
    have hle := h.totals r (List.mem_append_left _ hr)
    simp only [Prod.le_def, maxTotals] at hle
    simp only [Backend.Bandwidth.maxInt64]
    omega
  rw [checkRequest_eq_ok_iff]
  constructor
  · rintro ⟨hbody, -, -, -, -, hfuture, hold⟩
    refine ⟨?_, fun r hr => ⟨?_, ?_⟩⟩
    · have hseq : ((sequence + 1 : ℕ) : ℤ) ≤ Backend.Bandwidth.maxInt64 := hbody.2.2.1
      simp only [Backend.Bandwidth.maxInt64] at hseq
      simp only [Relay.maxInt64]
      omega
    · exact hold _ (List.mem_map_of_mem hr)
    · exact hfuture _ (List.mem_map_of_mem hr)
  · rintro ⟨hseq, hwindow⟩
    refine ⟨⟨f.edge.1, f.edge.2, ?_, ?_, ?_, htotals⟩, f.enabled, f.secret, f.token, hnodup, ?_, ?_⟩
    · show ((sequence + 1 : ℕ) : ℤ) ≤ Backend.Bandwidth.maxInt64
      simp only [Relay.maxInt64] at hseq
      simp only [Backend.Bandwidth.maxInt64]
      omega
    · simpa [request] using hlength.1
    · simpa [request] using hlength.2
    · intro report hreport
      obtain ⟨r, hr, rfl⟩ := List.mem_map.mp hreport
      exact (hwindow r hr).2
    · intro report hreport
      obtain ⟨r, hr, rfl⟩ := List.mem_map.mp hreport
      exact (hwindow r hr).1

/-- **A batch is accepted exactly when all of it is admissible**, and its reports
are then ingested. -/
theorem Ready.accepted_iff (h : f.Ready (batch :: bs) sequence db) :
    relayDailyBandwidth f.settings f.today f.headers (request f.identity (sequence + 1) batch) db =
        (db', none) ↔
      sequence + 1 ≤ Relay.maxInt64 ∧ (∀ r ∈ batch, f.InWindow r.1) ∧ (∀ r ∈ batch, f.Known r.1) ∧
        ingestReports (f.reports (sequence + 1) batch) db = .ok db' := by
  constructor
  · intro haccepted
    cases relayDailyBandwidth_cases f.settings f.today f.headers
        (request f.identity (sequence + 1) batch) db with
    | inl hrefused =>
        obtain ⟨e, he⟩ := hrefused
        rw [he] at haccepted
        cases haccepted
    | inr hcommitted =>
        obtain ⟨rs, db₁, hpassed, hrs, hok, hanswer⟩ := hcommitted
        rw [hanswer] at haccepted
        cases haccepted
        have hknown := f.known_of_resolved h.subscriptions hrs
        rw [f.resolved_of_known h.subscriptions hknown] at hrs
        obtain ⟨hseq, hwindow⟩ := h.checkRequest_iff.mp hpassed
        cases hrs
        exact ⟨hseq, hwindow, hknown, hok⟩
  · rintro ⟨hseq, hwindow, hknown, hok⟩
    unfold relayDailyBandwidth ingestDailyBandwidth
    rw [h.checkRequest_iff.mpr ⟨hseq, hwindow⟩, f.resolved_of_known h.subscriptions hknown]
    dsimp only
    rw [hok]

/-- The database after an accepted batch is ready for the rest. -/
theorem Ready.rest (h : f.Ready (batch :: bs) sequence db)
    (hseq : sequence + 1 ≤ Relay.maxInt64)
    (hok : ingestReports (f.reports (sequence + 1) batch) db = .ok db') :
    f.Ready bs (sequence + 1) db' where
  subscriptions := (ingestReports_subscriptions hok).trans h.subscriptions
  numbered := by
    intro k c hc hedge hboot
    cases ingestReports_cursor hok k with
    | inl hsame =>
        rw [hsame] at hc
        exact le_trans (h.numbered k c hc hedge hboot) (Nat.le_succ _)
    | inr hwritten =>
        obtain ⟨x, hx, -, hcursor⟩ := hwritten
        rw [hcursor] at hc
        cases hc
        obtain ⟨r, -, rfl⟩ := mem_reports.mp hx
        exact le_rfl
  bound := hseq
  length b hb := h.length b (List.mem_cons_of_mem _ hb)
  keys := by
    have hkeys := h.keys
    rw [List.flatten_cons, List.map_append, List.nodup_append] at hkeys
    exact hkeys.2.1
  totals r hr := h.totals r (List.mem_append_right _ hr)

/-! ## the whole flush -/

theorem sendBatches_cons_accepted (hseq : sequence + 1 ≤ Relay.maxInt64)
    (h : relayDailyBandwidth f.settings f.today f.headers
      (request f.identity (sequence + 1) batch) db = (db', none)) :
    f.sendBatches (batch :: bs) sequence db = f.sendBatches bs (sequence + 1) db' := by
  rw [sendBatches, if_neg (by omega), h]

/-- A batch that is not accepted ends the flush and leaves the database. -/
theorem sendBatches_cons_refused
    (h : ∀ db', relayDailyBandwidth f.settings f.today f.headers
      (request f.identity (sequence + 1) batch) db ≠ (db', none)) :
    f.sendBatches (batch :: bs) sequence db = (db, false) := by
  rw [sendBatches]
  split
  · rfl
  · cases relayDailyBandwidth_cases f.settings f.today f.headers
        (request f.identity (sequence + 1) batch) db with
    | inl hrefused =>
        obtain ⟨e, he⟩ := hrefused
        rw [he]
    | inr hcommitted =>
        obtain ⟨rs, db₁, -, -, -, hanswer⟩ := hcommitted
        exact absurd hanswer (h db₁)

/-- A flush writes the cursor of a key only to the totals it sends for it. -/
theorem Ready.cursor (h : f.Ready bs sequence db) {k : BandwidthKey} (hk : f.Known k) :
    (f.sendBatches bs sequence db).1.cursors.lookup (f.cursorKey k) =
        db.cursors.lookup (f.cursorKey k) ∨
      ∃ t, (k, t) ∈ bs.flatten ∧ f.Ingested (f.sendBatches bs sequence db).1 (k, t) := by
  induction bs generalizing sequence db with
  | nil => exact .inl rfl
  | cons batch bs ih =>
      by_cases hbatch : ∃ db', relayDailyBandwidth f.settings f.today f.headers
          (request f.identity (sequence + 1) batch) db = (db', none)
      · obtain ⟨db', hanswer⟩ := hbatch
        obtain ⟨hseq, -, hknown, hok⟩ := h.accepted_iff.mp hanswer
        rw [sendBatches_cons_accepted hseq hanswer]
        cases ih (h.rest hseq hok) with
        | inr hwritten =>
            obtain ⟨t, hmem, hingested⟩ := hwritten
            exact .inr ⟨t, List.mem_append_right _ hmem, hingested⟩
        | inl hsame =>
            rw [hsame]
            cases ingestReports_cursor hok (f.cursorKey k) with
            | inl hkept => exact .inl hkept
            | inr hwritten =>
                obtain ⟨x, hx, hkey, hcursor⟩ := hwritten
                obtain ⟨r, hr, rfl⟩ := mem_reports.mp hx
                have hrk : r.1 = k := f.cursorKey_injective (hknown r hr) hk hkey
                refine .inr ⟨r.2, List.mem_append_left _ (hrk ▸ hr), ?_⟩
                rw [← hsame] at hcursor
                exact ⟨_, hcursor, rfl⟩
      · push Not at hbatch
        rw [sendBatches_cons_refused hbatch]
        exact .inl rfl

/-- The flush's batches are all the entries, each once. -/
theorem batches_flatten (f : Flush) : f.batches.flatten = snapshot f.entries :=
  Delivery.batches_flatten le_rfl

theorem keys_nodup (f : Flush) : ((snapshot f.entries).map Prod.fst).Nodup := by
  have hperm := (List.perm_insertionSort reportOrder (Table.rows f.entries)).map Prod.fst
  rw [snapshot, hperm.nodup_iff, Table.rows, List.map_map]
  exact f.entries.nodupKeys

theorem ready (f : Flush) : f.Ready f.batches f.sequence f.db where
  subscriptions := rfl
  numbered := f.numbered
  bound := f.bound
  length _ hbatch := length_of_mem_batches hbatch
  keys := by
    rw [f.batches_flatten]
    exact f.keys_nodup
  totals r hr := by
    rw [f.batches_flatten] at hr
    exact f.totals r.1 r.2 (mem_snapshot.mp hr)

/-- A part of the flush's batches is as ready. -/
theorem Ready.left {before after : List (List DailyBandwidthReport)}
    (h : f.Ready (before ++ after) sequence db) : f.Ready before sequence db where
  subscriptions := h.subscriptions
  numbered := h.numbered
  bound := h.bound
  length b hb := h.length b (List.mem_append_left _ hb)
  keys := by
    have hkeys := h.keys
    rw [List.flatten_append, List.map_append, List.nodup_append] at hkeys
    exact hkeys.1
  totals r hr := h.totals r (by rw [List.flatten_append]; exact List.mem_append_left _ hr)

/-- So are the batches after a part that was ingested. -/
theorem Ready.right {before after : List (List DailyBandwidthReport)}
    (h : f.Ready (before ++ after) sequence db)
    (hend : (f.sendBatches before sequence db).2 = true) :
    f.Ready after (sequence + before.length) (f.sendBatches before sequence db).1 := by
  induction before generalizing sequence db with
  | nil => exact h
  | cons batch before ih =>
      by_cases hbatch : ∃ db', relayDailyBandwidth f.settings f.today f.headers
          (request f.identity (sequence + 1) batch) db = (db', none)
      · obtain ⟨db', hanswer⟩ := hbatch
        obtain ⟨hseq, -, -, hok⟩ := h.accepted_iff.mp hanswer
        rw [sendBatches_cons_accepted hseq hanswer] at hend ⊢
        rw [List.length_cons, ← Nat.add_assoc, Nat.add_right_comm]
        exact ih (h.rest hseq hok) hend
      · push Not at hbatch
        rw [sendBatches_cons_refused hbatch] at hend
        cases hend

end Flush

namespace Sample

/-- A subscription's bytes of day 0, kept by an outage, and some of day 10. -/
def outageRun : List Action :=
  [.backend 0 (.subscribe Reporter.Sample.subscriptionID 1),
    .relay (.readClock (Reporter.Sample.increment 5)), .relay (.addBatch 0)] ++
  List.replicate 10 (.relay .midnight) ++
  [.relay (.readClock (Reporter.Sample.increment 7)), .relay (.addBatch 0)]

/-- The flush of day 10; the backend takes three days. -/
def outage : Flush :=
  System.flush 10 headers (@exec_after outageRun (by decide +kernel)) rfl (by decide)
    (by decide) (by decide)

end Sample

end Relay.Delivery
