import Mathlib.Algebra.Group.Int.Defs
import Blindport.Backend.Bandwidth
import Mathlib.Data.List.Induction
import Mathlib.Order.Lattice.Nat

/-!
# Blindport.Backend.Conservation

Bandwidth ingest neither loses nor repeats a reported byte.

`Consistent` relates the tables to the reports accepted so far: a cursor holds
the newest report of its key, a key whose cursor was deleted lies on a day that
is refused from then on, and each row from the retention cutoff on adds up the
highest totals of its sources (`Blindport.Data.Cumulative`).  Every operation
keeps it, at dates that do not go back.
-/

namespace Backend.Bandwidth

open Cumulative

/-! ## the rows and the accepted reports -/

/-- The reports of a subscription and day, of every edge and boot. -/
def OfSubscription (subscriptionId : ℕ) (day : ℤ) (k : CursorKey) : Prop :=
  k.subscriptionId = subscriptionId ∧ k.day = day

/-- The reports of an edge and day, of every boot and subscription. -/
def OfEdge (edgeId : String) (day : ℤ) (k : CursorKey) : Prop := k.edgeId = edgeId ∧ k.day = day

instance (subscriptionId : ℕ) (day : ℤ) : DecidablePred (OfSubscription subscriptionId day) :=
  fun _ => inferInstanceAs (Decidable (_ ∧ _))

instance (edgeId : String) (day : ℤ) : DecidablePred (OfEdge edgeId day) :=
  fun _ => inferInstanceAs (Decidable (_ ∧ _))

/-- How the tables stand to the reports accepted until `today`, newest first. -/
structure Consistent (settings : Settings) (today : ℤ) (db : Database)
    (accepted : List (Report CursorKey BandwidthTotals)) : Prop where
  /-- A cursor holds the newest report of its key. -/
  cursor : ∀ k c, db.cursors.lookup k = some c → c.totals = highest accepted k ∧
    (∃ r ∈ accepted, r.key = k ∧ r.sequence = c.sequence) ∧
    ∀ r ∈ accepted, r.key = k → r.sequence ≤ c.sequence
  /-- Only days that are refused have lost their cursor. -/
  dropped : ∀ r ∈ accepted, db.cursors.lookup r.key = none →
    r.key.day < today - settings.bandwidthIngestMaxAgeDays
  /-- A subscription's row adds up the highest totals of its sources. -/
  daily : ∀ subscriptionId day, today - settings.bandwidthRetentionDays ≤ day →
    db.daily.lookup (subscriptionId, day) = aggregate accepted (OfSubscription subscriptionId day)
  /-- So does an edge's row. -/
  edgeDaily : ∀ edgeId day, today - settings.bandwidthRetentionDays ≤ day →
    db.edgeDaily.lookup (edgeId, day) = aggregate accepted (OfEdge edgeId day)

namespace Consistent

variable {settings : Settings} {today : ℤ} {db db' : Database}
  {accepted : List (Report CursorKey BandwidthTotals)} {r : Report CursorKey BandwidthTotals}

theorem later {today' : ℤ} (h : Consistent settings today db accepted) (hle : today ≤ today') :
    Consistent settings today' db accepted where
  cursor := h.cursor
  dropped r hr hnone := by
    have := h.dropped r hr hnone
    omega
  daily subscriptionId day hday := h.daily subscriptionId day (by omega)
  edgeDaily edgeId day hday := h.edgeDaily edgeId day (by omega)

/-- In the accepted window the cursor decides whether a report is newer. -/
theorem fresh_iff (h : Consistent settings today db accepted)
    (hday : today - settings.bandwidthIngestMaxAgeDays ≤ r.key.day) :
    Fresh accepted r ↔ ∀ c ∈ db.cursors.lookup r.key, c.sequence < r.sequence := by
  constructor
  · intro hf c hc
    obtain ⟨-, ⟨newest, hmem, hkey, hseq⟩, -⟩ := h.cursor r.key c hc
    rw [← hseq]
    exact hf newest hmem hkey
  · intro hlt earlier hmem hkey
    cases hc : db.cursors.lookup r.key with
    | none =>
        rw [← hkey] at hc hday
        exact absurd (h.dropped earlier hmem hc) (not_lt.mpr hday)
    | some c =>
        have hle := (h.cursor r.key c hc).2.2 earlier hmem hkey
        have hnew := hlt c hc
        omega

/-- In the accepted window a cursor, present or not, holds the highest totals. -/
theorem previousTotals_eq (h : Consistent settings today db accepted)
    (hday : today - settings.bandwidthIngestMaxAgeDays ≤ r.key.day) :
    previousTotals (db.cursors.lookup r.key) = highest accepted r.key := by
  cases hc : db.cursors.lookup r.key with
  | some c => exact (h.cursor r.key c hc).1
  | none =>
      rw [highest_eq_zero]
      · rfl
      · intro hmem
        simp only [keys, List.mem_toFinset, List.mem_map] at hmem
        obtain ⟨earlier, hmem, hkey⟩ := hmem
        rw [← hkey] at hc hday
        exact absurd (h.dropped earlier hmem hc) (not_lt.mpr hday)

/-- A report that is not newer is accepted and changes no table. -/
theorem stale (h : Consistent settings today db accepted) {c : RelayBandwidthCursor}
    (hday : today - settings.bandwidthIngestMaxAgeDays ≤ r.key.day)
    (hc : db.cursors.lookup r.key = some c) (hle : r.sequence ≤ c.sequence) :
    Consistent settings today db (r :: accepted) := by
  have hstale : ¬ Fresh accepted r := by
    rw [h.fresh_iff hday]
    exact fun hlt => absurd (hlt c hc) (not_lt.mpr hle)
  constructor
  · intro k c' hc'
    obtain ⟨htotals, ⟨newest, hmem, hnewest⟩, hmax⟩ := h.cursor k c' hc'
    refine ⟨?_, ⟨newest, List.mem_cons_of_mem _ hmem, hnewest⟩, ?_⟩
    · rw [highest_cons_stale hstale]
      exact htotals
    · intro r' hr' hkey
      cases List.mem_cons.mp hr' with
      | inl heq =>
          subst heq hkey
          rw [hc] at hc'
          cases hc'
          exact hle
      | inr hr' => exact hmax r' hr' hkey
  · intro r' hr' hnone
    cases List.mem_cons.mp hr' with
    | inl heq =>
        subst heq
        rw [hc] at hnone
        cases hnone
    | inr hr' => exact h.dropped r' hr' hnone
  · intro subscriptionId day hretained
    rw [aggregate_cons_stale fun _ => hstale]
    exact h.daily subscriptionId day hretained
  · intro edgeId day hretained
    rw [aggregate_cons_stale fun _ => hstale]
    exact h.edgeDaily edgeId day hretained

/-- A newer report is counted once, in its row of each aggregate. -/
theorem counted (h : Consistent settings today db accepted)
    (hday : today - settings.bandwidthIngestMaxAgeDays ≤ r.key.day)
    (hnew : ∀ c ∈ db.cursors.lookup r.key, c.sequence < r.sequence)
    (hle : previousTotals (db.cursors.lookup r.key) ≤ r.totals) :
    Consistent settings today
      (db.counted r (r.totals - previousTotals (db.cursors.lookup r.key))) (r :: accepted) := by
  have hf : Fresh accepted r := (h.fresh_iff hday).mpr hnew
  rw [h.previousTotals_eq hday] at hle ⊢
  have hgain : highest accepted r.key + (r.totals - highest accepted r.key) = r.totals :=
    add_tsub_cancel_of_le hle
  constructor
  · intro k c hc
    by_cases hk : k = r.key
    · subst hk
      rw [Database.counted, AList.lookup_insert] at hc
      cases hc
      refine ⟨(highest_eq_of_newest hf hle).symm, ⟨r, List.mem_cons_self, rfl, rfl⟩, ?_⟩
      intro r' hr' hkey
      cases List.mem_cons.mp hr' with
      | inl heq => rw [heq]
      | inr hr' => exact le_of_lt (hf r' hr' hkey)
    · rw [Database.counted, AList.lookup_insert_ne hk] at hc
      obtain ⟨htotals, ⟨newest, hmem, hnewest⟩, hmax⟩ := h.cursor k c hc
      refine ⟨?_, ⟨newest, List.mem_cons_of_mem _ hmem, hnewest⟩, ?_⟩
      · rw [highest_cons_of_ne (Ne.symm hk)]
        exact htotals
      · intro r' hr' hkey
        cases List.mem_cons.mp hr' with
        | inl heq => exact absurd (heq ▸ hkey).symm hk
        | inr hr' => exact hmax r' hr' hkey
  · intro r' hr' hnone
    by_cases hk : r'.key = r.key
    · rw [hk, Database.counted, AList.lookup_insert] at hnone
      cases hnone
    · rw [Database.counted, AList.lookup_insert_ne hk] at hnone
      cases List.mem_cons.mp hr' with
      | inl heq => exact absurd (heq ▸ rfl) hk
      | inr hr' => exact h.dropped r' hr' hnone
  · intro subscriptionId day hretained
    by_cases hrow : OfSubscription subscriptionId day r.key
    · rw [aggregate_cons_fresh hrow hf hle hgain, ← h.daily subscriptionId day hretained]
      obtain ⟨rfl, rfl⟩ := hrow
      rw [Database.counted, AList.lookup_insert]
    · rw [aggregate_cons_stale fun hp => absurd hp hrow, Database.counted, AList.lookup_insert_ne]
      · exact h.daily subscriptionId day hretained
      · intro heq
        cases heq
        exact hrow ⟨rfl, rfl⟩
  · intro edgeId day hretained
    by_cases hrow : OfEdge edgeId day r.key
    · rw [aggregate_cons_fresh hrow hf hle hgain, ← h.edgeDaily edgeId day hretained]
      obtain ⟨rfl, rfl⟩ := hrow
      rw [Database.counted, AList.lookup_insert]
    · rw [aggregate_cons_stale fun hp => absurd hp hrow, Database.counted, AList.lookup_insert_ne]
      · exact h.edgeDaily edgeId day hretained
      · intro heq
        cases heq
        exact hrow ⟨rfl, rfl⟩

theorem ingestReport (h : Consistent settings today db accepted)
    (hday : today - settings.bandwidthIngestMaxAgeDays ≤ r.key.day)
    (hok : ingestReport db r = .ok db') : Consistent settings today db' (r :: accepted) := by
  cases ingestReport_ok hok with
  | inl hstale =>
      obtain ⟨⟨c, hc, hle⟩, rfl⟩ := hstale
      exact h.stale hday hc hle
  | inr hnew =>
      obtain ⟨hnew, hle, rfl⟩ := hnew
      exact h.counted hday hnew hle

theorem ingestReports {rs : List (Report CursorKey BandwidthTotals)}
    (h : Consistent settings today db accepted)
    (hdays : ∀ r ∈ rs, today - settings.bandwidthIngestMaxAgeDays ≤ r.key.day)
    (hok : ingestReports rs db = .ok db') :
    Consistent settings today db' (rs.reverse ++ accepted) := by
  induction rs generalizing db accepted with
  | nil =>
      cases hok
      exact h
  | cons r rs ih =>
      obtain ⟨db₁, hr, hrest⟩ := ingestReports_cons_ok hok
      have h₁ := h.ingestReport (hdays r List.mem_cons_self) hr
      rw [List.reverse_cons, List.append_assoc]
      exact ih h₁ (fun r' hr' => hdays r' (List.mem_cons_of_mem _ hr')) hrest

/-- A batch without a newer report of a row leaves that row: every other report
is about another row, or is skipped. -/
theorem ingestReports_rows {rs : List (Report CursorKey BandwidthTotals)} {γ : Type}
    (row : Database → γ) {p : CursorKey → Prop}
    (hframe : ∀ db r delta, ¬ p r.key → row (Database.counted db r delta) = row db)
    (h : Consistent settings today db accepted)
    (hdays : ∀ r ∈ rs, today - settings.bandwidthIngestMaxAgeDays ≤ r.key.day)
    (hok : Bandwidth.ingestReports rs db = .ok db')
    (hstale : ∀ r ∈ rs, p r.key → ¬ Fresh accepted r) : row db' = row db := by
  induction rs generalizing db accepted with
  | nil =>
      cases hok
      rfl
  | cons r rs ih =>
      obtain ⟨db₁, hr, hrest⟩ := ingestReports_cons_ok hok
      have hday := hdays r List.mem_cons_self
      have hrows := ih (h.ingestReport hday hr)
        (fun r' hr' => hdays r' (List.mem_cons_of_mem _ hr')) hrest
        -- a longer log makes no report newer
        (fun r' hr' hp hf => hstale r' (List.mem_cons_of_mem _ hr') hp
          fun earlier hmem => hf earlier (List.mem_cons_of_mem _ hmem))
      rw [hrows]
      cases ingestReport_ok hr with
      | inl hskip => rw [hskip.2]
      | inr hnew =>
          rw [hnew.2.2]
          apply hframe
          intro hp
          exact hstale r List.mem_cons_self hp ((h.fresh_iff hday).mpr hnew.1)

/-- Cleanup deletes cursors only of days that are refused from then on, and rows
only from before the retention cutoff. -/
theorem cleanup (h : Consistent settings today db accepted) :
    Consistent settings today (cleanupDailyBandwidth settings today db) accepted := by
  have hcursors : ∀ k, (cleanupDailyBandwidth settings today db).cursors.lookup k =
      if k ∈ staleRows CursorKey.day cursorOrder (today - settings.bandwidthIngestMaxAgeDays)
        settings.bandwidthCleanupBatchSize db.cursors then none else db.cursors.lookup k := by
    intro k
    rw [← Table.lookup_eraseAll, cleanupDailyBandwidth]
    split <;> rfl
  constructor
  · intro k c hc
    rw [hcursors] at hc
    split at hc
    · cases hc
    · exact h.cursor k c hc
  · intro r hr hnone
    rw [hcursors] at hnone
    split at hnone
    · exact lt_of_mem_staleRows ‹_›
    · exact h.dropped r hr hnone
  · intro subscriptionId day hretained
    rw [← h.daily subscriptionId day hretained, cleanupDailyBandwidth]
    split
    · rfl
    · exact lookup_eraseAll_staleRows hretained
  · intro edgeId day hretained
    rw [← h.edgeDaily edgeId day hretained, cleanupDailyBandwidth]
    split
    · rfl
    · exact lookup_eraseAll_staleRows hretained

end Consistent

/-! ## runs -/

/-- One operation keeps the tables consistent. -/
theorem Consistent.step {settings : Settings} {today : ℤ} {s : State}
    (h : Consistent settings today s.db s.accepted) (op : Operation) :
    Consistent settings today (step settings s today op).db
      (step settings s today op).accepted := by
  cases op with
  | subscribe publicId id =>
      unfold Bandwidth.step
      dsimp only
      split
      · exact h
      · exact ⟨h.cursor, h.dropped, h.daily, h.edgeDaily⟩
  | cleanupDailyBandwidth => exact h.cleanup
  | relayDailyBandwidth headers body =>
      unfold Bandwidth.step
      dsimp only
      cases relayDailyBandwidth_cases settings today headers body s.db with
      | inl hrefused =>
          obtain ⟨e, he⟩ := hrefused
          rw [he]
          exact h
      | inr haccepted =>
          obtain ⟨rs, db', hpassed, hrs, hok, hanswer⟩ := haccepted
          rw [hanswer, hrs]
          exact h.ingestReports (day_of_resolved hpassed hrs) hok

/-- A run over non-decreasing dates keeps them so, until any later date. -/
theorem Consistent.run {settings : Settings} {ops : List (ℤ × Operation)} {s : State}
    (h : ∀ today, Consistent settings today s.db s.accepted)
    (hdates : (ops.map Prod.fst).Pairwise (· ≤ ·)) {today : ℤ} (htoday : ∀ op ∈ ops, op.1 ≤ today) :
    Consistent settings today (run settings s ops).db (run settings s ops).accepted := by
  -- the last operation finds the tables consistent at its own date
  induction ops using List.reverseRecOn generalizing today with
  | nil => exact h today
  | append_singleton ops op ih =>
      rw [List.map_append, List.pairwise_append] at hdates
      have hop : ∀ earlier ∈ ops, earlier.1 ≤ op.1 := by
        intro earlier hearlier
        exact hdates.2.2 _ (List.mem_map_of_mem hearlier) _ (by simp)
      have hconsistent := (ih hdates.1 hop).step op.2
      rw [Bandwidth.run, List.foldl_append, ← Bandwidth.run]
      exact hconsistent.later (htoday op (by simp))

theorem State.empty_consistent (settings : Settings) (today : ℤ) :
    Consistent settings today State.empty.db State.empty.accepted where
  cursor k c hc := by simp [State.empty] at hc
  dropped r hr := by simp [State.empty] at hr
  daily subscriptionId day _ := by simp [State.empty, aggregate]
  edgeDaily edgeId day _ := by simp [State.empty, aggregate]

/-- **Bandwidth ingest conserves the reported bytes.**  After any operations at
non-decreasing dates, on every day from the retention cutoff on the rows are
the sums of the highest totals accepted from every edge and boot.  A further
request that is refused changes no table, and one without a newer report of a
row leaves that row: a report that was accepted before is never newer, whether
or not its cursor was deleted since. -/
theorem ingest_conserves_totals (settings : Settings) (ops : List (ℤ × Operation))
    (hdates : (ops.map Prod.fst).Pairwise (· ≤ ·)) (today : ℤ)
    (htoday : ∀ op ∈ ops, op.1 ≤ today) :
    (∀ subscriptionId day, today - settings.bandwidthRetentionDays ≤ day →
      (run settings .empty ops).db.daily.lookup (subscriptionId, day) =
        aggregate (run settings .empty ops).accepted (OfSubscription subscriptionId day)) ∧
    (∀ edgeId day, today - settings.bandwidthRetentionDays ≤ day →
      (run settings .empty ops).db.edgeDaily.lookup (edgeId, day) =
        aggregate (run settings .empty ops).accepted (OfEdge edgeId day)) ∧
    ∀ headers body,
      (∀ e, (relayDailyBandwidth settings today headers body (run settings .empty ops).db).2 =
          some e →
        (relayDailyBandwidth settings today headers body (run settings .empty ops).db).1 =
          (run settings .empty ops).db) ∧
      (∀ subscriptionId day,
        (∀ r ∈ (resolved (run settings .empty ops).db body).getD [],
          OfSubscription subscriptionId day r.key →
            ¬ Fresh (run settings .empty ops).accepted r) →
        (relayDailyBandwidth settings today headers body
          (run settings .empty ops).db).1.daily.lookup (subscriptionId, day) =
          (run settings .empty ops).db.daily.lookup (subscriptionId, day)) ∧
      ∀ edgeId day,
        (∀ r ∈ (resolved (run settings .empty ops).db body).getD [],
          OfEdge edgeId day r.key → ¬ Fresh (run settings .empty ops).accepted r) →
        (relayDailyBandwidth settings today headers body
          (run settings .empty ops).db).1.edgeDaily.lookup (edgeId, day) =
          (run settings .empty ops).db.edgeDaily.lookup (edgeId, day) := by
  have h := Consistent.run (State.empty_consistent settings) hdates htoday
  refine ⟨h.daily, h.edgeDaily, fun headers body => ?_⟩
  cases relayDailyBandwidth_cases settings today headers body (run settings .empty ops).db with
  | inl hrefused =>
      obtain ⟨e, he⟩ := hrefused
      rw [he]
      exact ⟨fun _ _ => rfl, fun _ _ _ => rfl, fun _ _ _ => rfl⟩
  | inr haccepted =>
      obtain ⟨rs, db', hpassed, hrs, hok, hanswer⟩ := haccepted
      rw [hanswer, hrs]
      have hdays := day_of_resolved hpassed hrs
      refine ⟨by simp, fun subscriptionId day hstale => ?_, fun edgeId day hstale => ?_⟩
      · refine h.ingestReports_rows (fun db => db.daily.lookup (subscriptionId, day))
          (fun db r delta hrow => ?_) hdays hok hstale
        refine AList.lookup_insert_ne fun heq => hrow ?_
        cases heq
        exact ⟨rfl, rfl⟩
      · refine h.ingestReports_rows (fun db => db.edgeDaily.lookup (edgeId, day))
          (fun db r delta hrow => ?_) hdays hok hstale
        refine AList.lookup_insert_ne fun heq => hrow ?_
        cases heq
        exact ⟨rfl, rfl⟩

namespace Sample

/-- Two edges, a day of ingest and two of retention. -/
def settings : Settings where
  bandwidthMetricsEnabled := true
  relaySecret := "secret"
  relayHeartbeatKeys := AList.insert "a" "key-a" (AList.insert "b" "key-b" ∅)
  bandwidthRetentionDays := 2
  bandwidthIngestMaxAgeDays := 1
  bandwidthCleanupBatchSize := 10

/-- A report of day 10 for the one subscription. -/
def report (edgeId token : String) (sequence : ℕ) (totals : BandwidthTotals) : Operation :=
  .relayDailyBandwidth ⟨"secret", token⟩ ⟨edgeId, "boot", sequence, [⟨"subscription", 10, totals⟩]⟩

/-- Reports that are repeated, overtaken and refused, then a cleanup that
deletes the cursors of day 10. -/
def operations : List (ℤ × Operation) :=
  [(10, .subscribe "subscription" 1), (10, report "a" "key-a" 1 (5, 7)),
    (10, report "a" "key-a" 1 (5, 7)), (10, report "b" "key-b" 4 (1, 1)),
    (11, report "a" "key-a" 3 (9, 9)), (11, report "a" "key-a" 2 (6, 8)),
    (11, report "a" "key-a" 4 (3, 3)), (12, .cleanupDailyBandwidth),
    (12, report "a" "key-a" 3 (9, 9))]

end Sample

theorem ingest_conserves_totals_repeated :
    (Sample.operations.map Prod.fst).Pairwise (· ≤ ·) ∧
    (run Sample.settings .empty Sample.operations).db.cursors.keys = [] ∧
    (run Sample.settings .empty Sample.operations).db.daily.lookup (1, 10) = some (10, 10) := by
  refine ⟨by decide, by decide +kernel, ?_⟩
  rw [(ingest_conserves_totals Sample.settings Sample.operations (by decide) 12 (by decide)).1 1 10
    (by decide)]
  decide +kernel

end Backend.Bandwidth
