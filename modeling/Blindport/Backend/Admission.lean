import Blindport.Backend.Bandwidth
import Mathlib.Algebra.Order.Sub.Basic

/-!
# Blindport.Backend.Admission

When a batch of newer reports is ingested: exactly when no counter of it went
back and every row has room for what the batch adds to it.  One report that
fails either refuses the whole batch.
-/

namespace Backend.Bandwidth

open Cumulative

/-- The largest totals a row holds. -/
def maxTotals : BandwidthTotals := (9223372036854775807, 9223372036854775807)

/-- What a report adds over its cursor. -/
def gain (db : Database) (x : CursorKey × BandwidthTotals) : BandwidthTotals :=
  x.2 - previousTotals (db.cursors.lookup x.1)

/-- The key and totals of a report. -/
def content (r : Report CursorKey BandwidthTotals) : CursorKey × BandwidthTotals :=
  (r.key, r.totals)

/-- The row of the subscription's day. -/
def dailyRow (x : CursorKey × BandwidthTotals) : ℕ × ℤ := (x.1.subscriptionId, x.1.day)

/-- The row of the edge's day. -/
def edgeRow (x : CursorKey × BandwidthTotals) : String × ℤ := (x.1.edgeId, x.1.day)

/-- No counter goes back, and every row has room for what it gains. -/
structure Fits (db : Database) (xs : List (CursorKey × BandwidthTotals)) : Prop where
  rising : ∀ x ∈ xs, previousTotals (db.cursors.lookup x.1) ≤ x.2
  daily : Table.RowsFit maxTotals dailyRow (gain db) db.daily xs
  edgeDaily : Table.RowsFit maxTotals edgeRow (gain db) db.edgeDaily xs

/-- A report and others fit together exactly when it fits and they fit after it
was counted. -/
theorem fits_cons {db : Database} {r : Report CursorKey BandwidthTotals}
    {xs : List (CursorKey × BandwidthTotals)} (hkeys : ∀ x ∈ xs, x.1 ≠ r.key) :
    Fits db (content r :: xs) ↔
      (previousTotals (db.cursors.lookup r.key) ≤ r.totals ∧
      (db.daily.lookup (dailyRow (content r))).getD 0 + gain db (content r) ≤ maxTotals ∧
      (db.edgeDaily.lookup (edgeRow (content r))).getD 0 + gain db (content r) ≤ maxTotals) ∧
      Fits (db.counted r (gain db (content r))) xs := by
  have hcursor : ∀ x ∈ xs, (db.counted r (gain db (content r))).cursors.lookup x.1 =
      db.cursors.lookup x.1 := fun x hx => AList.lookup_insert_ne (hkeys x hx)
  have hgain : ∀ x ∈ xs, gain (db.counted r (gain db (content r))) x = gain db x := by
    intro x hx
    rw [gain, hcursor x hx, gain]
  constructor
  · rintro ⟨hrising, hdaily, hedge⟩
    have hday := Table.rowsFit_cons.mp hdaily
    have hedge := Table.rowsFit_cons.mp hedge
    refine ⟨⟨hrising _ List.mem_cons_self, hday.1, hedge.1⟩, fun x hx => ?_, ?_, ?_⟩
    · rw [hcursor x hx]
      exact hrising x (List.mem_cons_of_mem _ hx)
    · exact hday.2.congr hgain
    · exact hedge.2.congr hgain
  · rintro ⟨⟨hle, hday, hedge⟩, hrising, hdays, hedges⟩
    refine ⟨fun x hx => ?_, Table.rowsFit_cons.mpr ⟨hday, ?_⟩, Table.rowsFit_cons.mpr ⟨hedge, ?_⟩⟩
    · cases List.mem_cons.mp hx with
      | inl heq =>
          rw [heq]
          exact hle
      | inr hx =>
          rw [← hcursor x hx]
          exact hrising x hx
    · exact hdays.congr fun x hx => (hgain x hx).symm
    · exact hedges.congr fun x hx => (hgain x hx).symm

/-- A part of what fits fits. -/
theorem Fits.of_append {db : Database} {rs : List (Report CursorKey BandwidthTotals)}
    {xs : List (CursorKey × BandwidthTotals)} (hkeys : (rs.map Report.key).Nodup)
    (hne : ∀ r ∈ rs, ∀ x ∈ xs, x.1 ≠ r.key) (h : Fits db (rs.map content ++ xs)) :
    Fits db (rs.map content) := by
  induction rs generalizing db with
  | nil => exact ⟨by simp, by simp [Table.RowsFit], by simp [Table.RowsFit]⟩
  | cons r rs ih =>
      rw [List.map_cons, List.nodup_cons] at hkeys
      have hother : ∀ x ∈ rs.map content, x.1 ≠ r.key := by
        intro x hx heq
        obtain ⟨r', hr', rfl⟩ := List.mem_map.mp hx
        exact hkeys.1 (heq ▸ List.mem_map_of_mem hr')
      have hheads : ∀ x ∈ rs.map content ++ xs, x.1 ≠ r.key := by
        intro x hx
        cases List.mem_append.mp hx with
        | inl hx => exact hother x hx
        | inr hx => exact hne r List.mem_cons_self x hx
      rw [List.map_cons, List.cons_append, fits_cons hheads] at h
      rw [List.map_cons, fits_cons hother]
      exact ⟨h.1, ih hkeys.2 (fun r' hr' => hne r' (List.mem_cons_of_mem _ hr')) h.2⟩

/-! ## the cursors after a batch -/

/-- A batch writes only cursors of its own reports. -/
theorem ingestReports_cursor {db db' : Database} {rs : List (Report CursorKey BandwidthTotals)}
    (h : ingestReports rs db = .ok db') (k : CursorKey) :
    db'.cursors.lookup k = db.cursors.lookup k ∨
      ∃ r ∈ rs, r.key = k ∧ db'.cursors.lookup k = some ⟨r.sequence, r.totals⟩ := by
  induction rs generalizing db with
  | nil =>
      cases h
      exact .inl rfl
  | cons r rs ih =>
      obtain ⟨db₁, hr, hrest⟩ := ingestReports_cons_ok h
      cases ih hrest with
      | inr hwritten =>
          obtain ⟨r', hr', hkey, hc⟩ := hwritten
          exact .inr ⟨r', List.mem_cons_of_mem _ hr', hkey, hc⟩
      | inl hsame =>
          rw [hsame]
          cases ingestReport_ok hr with
          | inl hskip => exact .inl (by rw [hskip.2])
          | inr hnew =>
              rw [hnew.2.2]
              by_cases hk : k = r.key
              · rw [hk, Database.counted, AList.lookup_insert]
                exact .inr ⟨r, List.mem_cons_self, rfl, rfl⟩
              · rw [Database.counted, AList.lookup_insert_ne hk]
                exact .inl rfl

end Backend.Bandwidth
