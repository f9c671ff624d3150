import Blindport.Data.Cumulative
import Blindport.Data.Table
import Mathlib.Algebra.Order.Group.Nat
import Mathlib.Algebra.Order.Monoid.Prod
import Mathlib.Algebra.Order.Sub.Prod
import Mathlib.Data.List.AList
import Mathlib.Data.List.Sort

/-!
# Blindport.Backend.Bandwidth

`services/bandwidth.py` and `relay_daily_bandwidth` of `api/internal.py`: the
ingest of the relays' cumulative daily totals, and their bounded cleanup.

A relay reports, for each of its boots, running totals of a subscription and
day.  A cursor remembers the newest report of each (edge, boot, subscription,
day); what a report gained over its cursor is added to the day's row of the
subscription and to that of the edge.  A request is one transaction: its
outcome is the database it commits, or an error and the database as it was.

Days are day numbers, identifiers the canonical texts of their UUIDs.
-/

namespace Backend.Bandwidth

open Cumulative

/-! ## tables -/

/-- Cumulative (ingress, egress) bytes. -/
abbrev BandwidthTotals := ℕ × ℕ

/-- `_MAX_INT64`. -/
def maxInt64 : ℤ := 9223372036854775807

/-- The primary key of `RelayBandwidthCursor`. -/
structure CursorKey where
  edgeId : String
  bootId : String
  subscriptionId : ℕ
  day : ℤ
deriving DecidableEq

/-- `RelayBandwidthCursor`: the newest report of its key. -/
structure RelayBandwidthCursor where
  sequence : ℕ
  totals : BandwidthTotals
deriving DecidableEq

/-- The tables of the ingest: `Subscription` (public to internal id),
`RelayBandwidthCursor`, `SubscriptionDailyBandwidth` and
`RelayEdgeDailyBandwidth`. -/
structure Database where
  subscriptions : AList fun _ : String => ℕ
  cursors : AList fun _ : CursorKey => RelayBandwidthCursor
  daily : AList fun _ : ℕ × ℤ => BandwidthTotals
  edgeDaily : AList fun _ : String × ℤ => BandwidthTotals

/-- The settings the ingest reads. -/
structure Settings where
  bandwidthMetricsEnabled : Bool
  relaySecret : String
  relayHeartbeatKeys : AList fun _ : String => String
  bandwidthRetentionDays : ℕ
  bandwidthIngestMaxAgeDays : ℕ
  bandwidthCleanupBatchSize : ℕ

/-! ## requests -/

/-- `RelayBandwidthReport`. -/
structure RelayBandwidthReport where
  subscriptionId : String
  day : ℤ
  totals : BandwidthTotals
deriving DecidableEq

/-- `RelayDailyBandwidthRequest`. -/
structure RelayDailyBandwidthRequest where
  edgeId : String
  bootId : String
  sequence : ℕ
  reports : List RelayBandwidthReport
deriving DecidableEq

/-- The bounds of the request schema. -/
def RelayDailyBandwidthRequest.WellFormed (body : RelayDailyBandwidthRequest) : Prop :=
  1 ≤ body.edgeId.length ∧ body.edgeId.length ≤ 63 ∧ (body.sequence : ℤ) ≤ maxInt64 ∧
    1 ≤ body.reports.length ∧ body.reports.length ≤ 1000 ∧
    ∀ report ∈ body.reports, (report.totals.1 : ℤ) ≤ maxInt64 ∧ (report.totals.2 : ℤ) ≤ maxInt64

instance (body : RelayDailyBandwidthRequest) : Decidable body.WellFormed := by
  unfold RelayDailyBandwidthRequest.WellFormed; infer_instance

/-- The errors of the ingest service. -/
inductive IngestError where
  | unknownSubscription
  | counterDecrease
  | aggregateOverflow
deriving DecidableEq

/-- `str(error)`. -/
def IngestError.detail : IngestError → String
  | .unknownSubscription => "subscription not found"
  | .counterDecrease => "cumulative bandwidth counter decreased"
  | .aggregateOverflow => "daily bandwidth aggregate exceeds int64"

/-- What a refused request is answered: the schema's own error, or an
`HTTPException`. -/
inductive HttpError where
  | schema
  | exception (status : ℕ) (detail : String)
deriving DecidableEq

/-- The status each service error is mapped to. -/
def IngestError.toHttp : IngestError → HttpError
  | .unknownSubscription => .exception 422 IngestError.unknownSubscription.detail
  | .counterDecrease => .exception 409 IngestError.counterDecrease.detail
  | .aggregateOverflow => .exception 409 IngestError.aggregateOverflow.detail

/-! ## ingest -/

/-- `_increment_edge_daily_bandwidth`: one guarded upsert. -/
def incrementEdgeDailyBandwidth (db : Database) (edgeId : String) (day : ℤ)
    (delta : BandwidthTotals) : Except IngestError Database :=
  match db.edgeDaily.lookup (edgeId, day) with
  | none => .ok { db with edgeDaily := db.edgeDaily.insert (edgeId, day) delta }
  | some row =>
      if (row.1 : ℤ) ≤ maxInt64 - delta.1 ∧ (row.2 : ℤ) ≤ maxInt64 - delta.2 then
        .ok { db with edgeDaily := db.edgeDaily.insert (edgeId, day) (row + delta) }
      else .error .aggregateOverflow

/-- The subscription's row of the day after `delta`. -/
def incrementDaily (db : Database) (subscriptionId : ℕ) (day : ℤ) (delta : BandwidthTotals) :
    Except IngestError Database :=
  match db.daily.lookup (subscriptionId, day) with
  | none => .ok { db with daily := db.daily.insert (subscriptionId, day) delta }
  | some row =>
      if (delta.1 : ℤ) > maxInt64 - row.1 ∨ (delta.2 : ℤ) > maxInt64 - row.2 then
        .error .aggregateOverflow
      else .ok { db with daily := db.daily.insert (subscriptionId, day) (row + delta) }

/-- The totals a cursor holds, zero when there is none. -/
def previousTotals (cursor : Option RelayBandwidthCursor) : BandwidthTotals :=
  (cursor.map RelayBandwidthCursor.totals).getD 0

/-- One turn of the loop of `ingest_daily_bandwidth`. -/
def ingestReport (db : Database) (r : Report CursorKey BandwidthTotals) :
    Except IngestError Database :=
  let cursor := db.cursors.lookup r.key
  if ∃ c ∈ cursor, r.sequence ≤ c.sequence then .ok db
  else if r.totals.1 < (previousTotals cursor).1 ∨ r.totals.2 < (previousTotals cursor).2 then
    .error .counterDecrease
  else do
    let delta := r.totals - previousTotals cursor
    let db ← incrementDaily db r.key.subscriptionId r.key.day delta
    let db ← incrementEdgeDailyBandwidth db r.key.edgeId r.key.day delta
    .ok { db with cursors := db.cursors.insert r.key ⟨r.sequence, r.totals⟩ }

/-- The loop over the resolved reports. -/
def ingestReports : List (Report CursorKey BandwidthTotals) → Database →
    Except IngestError Database
  | [], db => .ok db
  | r :: rs, db => do
      let db ← ingestReport db r
      ingestReports rs db

/-- The report of one entry, once its subscription is known. -/
def toReport (body : RelayDailyBandwidthRequest) (subscriptionId : ℕ)
    (entry : RelayBandwidthReport) : Report CursorKey BandwidthTotals where
  key := ⟨body.edgeId, body.bootId, subscriptionId, entry.day⟩
  sequence := body.sequence
  totals := entry.totals

/-- The order of the loop: by internal id, then day. -/
def ingestOrder (x y : Report CursorKey BandwidthTotals) : Prop :=
  x.key.subscriptionId < y.key.subscriptionId ∨
    (x.key.subscriptionId = y.key.subscriptionId ∧ x.key.day ≤ y.key.day)

instance : DecidableRel ingestOrder := fun x y => by unfold ingestOrder; infer_instance

/-- The entries with their subscriptions, in the loop's order. -/
def resolved (db : Database) (body : RelayDailyBandwidthRequest) :
    Option (List (Report CursorKey BandwidthTotals)) :=
  (body.reports.mapM fun entry =>
    (db.subscriptions.lookup entry.subscriptionId).map fun id => toReport body id entry).map
    (List.insertionSort ingestOrder)

/-- `ingest_daily_bandwidth`. -/
def ingestDailyBandwidth (db : Database) (body : RelayDailyBandwidthRequest) :
    Except IngestError Database :=
  match resolved db body with
  | none => .error .unknownSubscription
  | some reports => ingestReports reports db

/-- The headers of a relay's request. -/
structure RelayHeaders where
  relaySecret : String
  relayHeartbeatToken : String
deriving DecidableEq

/-- The checks of `relay_daily_bandwidth` before its transaction. -/
def checkRequest (settings : Settings) (today : ℤ) (headers : RelayHeaders)
    (body : RelayDailyBandwidthRequest) : Except HttpError Unit := do
  if ¬ body.WellFormed then .error .schema
  if settings.bandwidthMetricsEnabled = false then .error (.exception 404 "not found")
  if headers.relaySecret = "" ∨ headers.relaySecret ≠ settings.relaySecret then
    .error (.exception 401 "invalid relay secret")
  if headers.relayHeartbeatToken = "" ∨
      settings.relayHeartbeatKeys.lookup body.edgeId ≠ some headers.relayHeartbeatToken then
    .error (.exception 401 "invalid relay heartbeat token")
  if ¬ (body.reports.map fun report => (report.subscriptionId, report.day)).Nodup then
    .error (.exception 422 "duplicate subscription day report")
  if ∃ report ∈ body.reports, report.day > today then
    .error (.exception 422 "bandwidth report day is in the future")
  if ∃ report ∈ body.reports, report.day < today - settings.bandwidthIngestMaxAgeDays then
    .error (.exception 422 "bandwidth report day is too old")

/-- `relay_daily_bandwidth`: the database after the request's transaction, and
the error it was answered. -/
def relayDailyBandwidth (settings : Settings) (today : ℤ) (headers : RelayHeaders)
    (body : RelayDailyBandwidthRequest) (db : Database) : Database × Option HttpError :=
  match checkRequest settings today headers body with
  | .error e => (db, some e)
  | .ok () =>
      match ingestDailyBandwidth db body with
      | .error e => (db, some e.toHttp)
      | .ok db => (db, none)

/-! ## cleanup -/

section Table

variable {κ : Type} {β : Type} [DecidableEq κ]

/-- The rows a bounded cleanup query selects: those older than the cutoff, in
the query's order. -/
def staleRows (day : κ → ℤ) (order : κ → κ → Prop) [DecidableRel order] (cutoff : ℤ) (limit : ℕ)
    (table : AList fun _ : κ => β) : List κ :=
  ((table.keys.filter fun k => day k < cutoff).insertionSort order).take limit

end Table

/-- `ORDER BY day, edge_id, subscription_id` of the cursors. -/
def cursorOrder (x y : CursorKey) : Prop :=
  x.day < y.day ∨ (x.day = y.day ∧ (x.edgeId < y.edgeId ∨
    (x.edgeId = y.edgeId ∧ x.subscriptionId ≤ y.subscriptionId)))

instance : DecidableRel cursorOrder := fun x y => by unfold cursorOrder; infer_instance

/-- `ORDER BY day`, then the other column of the key. -/
def aggregateOrder {ι : Type} [LE ι] (x y : ι × ℤ) : Prop :=
  x.2 < y.2 ∨ (x.2 = y.2 ∧ x.1 ≤ y.1)

instance {ι : Type} [LE ι] [DecidableLE ι] : DecidableRel (aggregateOrder (ι := ι)) :=
  fun x y => by unfold aggregateOrder; infer_instance

/-- `cleanup_daily_bandwidth`.  A full batch of cursors ends the run before the
aggregates are looked at. -/
def cleanupDailyBandwidth (settings : Settings) (today : ℤ) (db : Database) : Database :=
  let sourceCutoff := today - settings.bandwidthIngestMaxAgeDays
  let aggregateCutoff := today - settings.bandwidthRetentionDays
  let limit := settings.bandwidthCleanupBatchSize
  let sourceRows := staleRows CursorKey.day cursorOrder sourceCutoff limit db.cursors
  let db := { db with cursors := Table.eraseAll sourceRows db.cursors }
  if sourceRows.length = limit then db
  else { db with
    daily := Table.eraseAll
      (staleRows Prod.snd aggregateOrder aggregateCutoff limit db.daily) db.daily
    edgeDaily := Table.eraseAll
      (staleRows Prod.snd aggregateOrder aggregateCutoff limit db.edgeDaily) db.edgeDaily }

/-! ## runs -/

/-- What the accounting meets: a subscription is created, a relay reports, or
the cleanup worker runs. -/
inductive Operation where
  | subscribe (publicId : String) (id : ℕ)
  | relayDailyBandwidth (headers : RelayHeaders) (body : RelayDailyBandwidthRequest)
  | cleanupDailyBandwidth

/-- The database, and the reports of all accepted requests, newest first. -/
structure State where
  db : Database
  accepted : List (Report CursorKey BandwidthTotals)

/-- A database without any accounting. -/
def State.empty : State := ⟨⟨∅, ∅, ∅, ∅⟩, []⟩

/-- One operation at the date `today`.  A subscription gets a public and an
internal identifier of its own. -/
def step (settings : Settings) (s : State) (today : ℤ) : Operation → State
  | .subscribe publicId id =>
      if ∃ row ∈ Table.rows s.db.subscriptions, row.1 = publicId ∨ row.2 = id then s
      else { s with db.subscriptions := s.db.subscriptions.insert publicId id }
  | .relayDailyBandwidth headers body =>
      match Bandwidth.relayDailyBandwidth settings today headers body s.db with
      | (db, none) => ⟨db, ((resolved s.db body).getD []).reverse ++ s.accepted⟩
      | (db, some _) => { s with db := db }
  | .cleanupDailyBandwidth =>
      { s with db := Bandwidth.cleanupDailyBandwidth settings today s.db }

/-- A sequence of dated operations. -/
def run (settings : Settings) (s : State) (ops : List (ℤ × Operation)) : State :=
  ops.foldl (fun s op => step settings s op.1 op.2) s

/-! ## what one step does -/

theorem incrementDaily_ok {db db' : Database} {subscriptionId : ℕ} {day : ℤ}
    {delta : BandwidthTotals} (h : incrementDaily db subscriptionId day delta = .ok db') :
    db' = { db with
      daily := db.daily.insert (subscriptionId, day)
        ((db.daily.lookup (subscriptionId, day)).getD 0 + delta) } := by
  unfold incrementDaily at h
  cases hrow : db.daily.lookup (subscriptionId, day) with
  | none =>
      rw [hrow] at h
      cases h
      rw [Option.getD_none, zero_add]
  | some row =>
      simp only [hrow] at h
      split at h
      · cases h
      · cases h
        rfl

theorem incrementEdgeDailyBandwidth_ok {db db' : Database} {edgeId : String} {day : ℤ}
    {delta : BandwidthTotals} (h : incrementEdgeDailyBandwidth db edgeId day delta = .ok db') :
    db' = { db with
      edgeDaily := db.edgeDaily.insert (edgeId, day)
        ((db.edgeDaily.lookup (edgeId, day)).getD 0 + delta) } := by
  unfold incrementEdgeDailyBandwidth at h
  cases hrow : db.edgeDaily.lookup (edgeId, day) with
  | none =>
      rw [hrow] at h
      cases h
      rw [Option.getD_none, zero_add]
  | some row =>
      simp only [hrow] at h
      split at h
      · cases h
        rfl
      · cases h

theorem incrementDaily_error {db : Database} {subscriptionId : ℕ} {day : ℤ}
    {delta : BandwidthTotals} {e : IngestError}
    (h : incrementDaily db subscriptionId day delta = .error e) : e = .aggregateOverflow := by
  unfold incrementDaily at h
  grind

theorem incrementEdgeDailyBandwidth_error {db : Database} {edgeId : String} {day : ℤ}
    {delta : BandwidthTotals} {e : IngestError}
    (h : incrementEdgeDailyBandwidth db edgeId day delta = .error e) :
    e = .aggregateOverflow := by
  unfold incrementEdgeDailyBandwidth at h
  grind

/-- The tables after a report that gained `delta` over its cursor. -/
def Database.counted (db : Database) (r : Report CursorKey BandwidthTotals)
    (delta : BandwidthTotals) : Database where
  subscriptions := db.subscriptions
  cursors := db.cursors.insert r.key ⟨r.sequence, r.totals⟩
  daily := db.daily.insert (r.key.subscriptionId, r.key.day)
    ((db.daily.lookup (r.key.subscriptionId, r.key.day)).getD 0 + delta)
  edgeDaily := db.edgeDaily.insert (r.key.edgeId, r.key.day)
    ((db.edgeDaily.lookup (r.key.edgeId, r.key.day)).getD 0 + delta)

/-- Everything an accepted report can do: nothing when its cursor is as new,
else it is counted. -/
theorem ingestReport_ok {db db' : Database} {r : Report CursorKey BandwidthTotals}
    (h : ingestReport db r = .ok db') :
    ((∃ c ∈ db.cursors.lookup r.key, r.sequence ≤ c.sequence) ∧ db' = db) ∨
    ((∀ c ∈ db.cursors.lookup r.key, c.sequence < r.sequence) ∧
      previousTotals (db.cursors.lookup r.key) ≤ r.totals ∧
      db' = db.counted r (r.totals - previousTotals (db.cursors.lookup r.key))) := by
  unfold ingestReport at h
  dsimp only at h
  split at h
  · rename_i hstale
    cases h
    exact .inl ⟨hstale, rfl⟩
  · rename_i hfresh
    split at h
    · cases h
    · rename_i hle
      right
      push Not at hfresh hle
      refine ⟨fun c hc => hfresh c hc, hle, ?_⟩
      cases hday : incrementDaily db r.key.subscriptionId r.key.day
          (r.totals - previousTotals (db.cursors.lookup r.key)) with
      | error e => rw [hday] at h; cases h
      | ok db₁ =>
          cases hedge : incrementEdgeDailyBandwidth db₁ r.key.edgeId r.key.day
              (r.totals - previousTotals (db.cursors.lookup r.key)) with
          | error e => simp only [hday, bind, Except.bind, hedge] at h; cases h
          | ok db₂ =>
              simp only [hday, bind, Except.bind, hedge] at h
              cases h
              rw [incrementEdgeDailyBandwidth_ok hedge, incrementDaily_ok hday]
              rfl

section Table

variable {κ : Type} {β : Type} [DecidableEq κ]

omit [DecidableEq κ] in
/-- A cleanup query selects only rows older than its cutoff. -/
theorem lt_of_mem_staleRows {day : κ → ℤ} {order : κ → κ → Prop} [DecidableRel order]
    {cutoff : ℤ} {limit : ℕ} {table : AList fun _ : κ => β} {k : κ}
    (h : k ∈ staleRows day order cutoff limit table) : day k < cutoff := by
  have hmem := List.mem_of_mem_take h
  rw [List.mem_insertionSort] at hmem
  simpa using (List.mem_filter.mp hmem).2

/-- Rows from the cutoff on survive a cleanup. -/
theorem lookup_eraseAll_staleRows {day : κ → ℤ} {order : κ → κ → Prop} [DecidableRel order]
    {cutoff : ℤ} {limit : ℕ} {table : AList fun _ : κ => β} {k : κ} (hk : cutoff ≤ day k) :
    (Table.eraseAll (staleRows day order cutoff limit table) table).lookup k = table.lookup k := by
  rw [Table.lookup_eraseAll, if_neg]
  intro hmem
  exact absurd (lt_of_mem_staleRows hmem) (not_lt.mpr hk)

end Table

/-- A loop over reports that was accepted, one report at a time. -/
theorem ingestReports_cons_ok {db db' : Database} {r : Report CursorKey BandwidthTotals}
    {rs : List (Report CursorKey BandwidthTotals)} (h : ingestReports (r :: rs) db = .ok db') :
    ∃ db₁, ingestReport db r = .ok db₁ ∧ ingestReports rs db₁ = .ok db' := by
  rw [ingestReports] at h
  cases hr : ingestReport db r with
  | error e => rw [hr] at h; cases h
  | ok db₁ => exact ⟨db₁, rfl, by rw [hr] at h; exact h⟩

/-! ## what every cursor satisfies -/

/-- A property of every cursor. -/
def Database.EveryCursor (db : Database) (P : CursorKey → RelayBandwidthCursor → Prop) : Prop :=
  ∀ k c, db.cursors.lookup k = some c → P k c

section EveryCursor

variable {P : CursorKey → RelayBandwidthCursor → Prop} {db db' : Database}

theorem Database.EveryCursor.ingestReport {r : Report CursorKey BandwidthTotals}
    (h : db.EveryCursor P) (hr : P r.key ⟨r.sequence, r.totals⟩)
    (hok : Bandwidth.ingestReport db r = .ok db') : db'.EveryCursor P := by
  cases ingestReport_ok hok with
  | inl hskip =>
      rw [hskip.2]
      exact h
  | inr hnew =>
      rw [hnew.2.2]
      intro k c hc
      by_cases hk : k = r.key
      · rw [hk, Database.counted, AList.lookup_insert] at hc
        cases hc
        rw [hk]
        exact hr
      · rw [Database.counted, AList.lookup_insert_ne hk] at hc
        exact h k c hc

theorem Database.EveryCursor.ingestReports {rs : List (Report CursorKey BandwidthTotals)}
    (h : db.EveryCursor P) (hrs : ∀ r ∈ rs, P r.key ⟨r.sequence, r.totals⟩)
    (hok : Bandwidth.ingestReports rs db = .ok db') : db'.EveryCursor P := by
  induction rs generalizing db with
  | nil =>
      cases hok
      exact h
  | cons r rs ih =>
      obtain ⟨db₁, hr, hrest⟩ := ingestReports_cons_ok hok
      exact ih (h.ingestReport (hrs r List.mem_cons_self) hr)
        (fun r' hr' => hrs r' (List.mem_cons_of_mem _ hr')) hrest

theorem Database.EveryCursor.cleanup (h : db.EveryCursor P) (settings : Settings) (today : ℤ) :
    (cleanupDailyBandwidth settings today db).EveryCursor P := by
  intro k c hc
  have hlookup : (cleanupDailyBandwidth settings today db).cursors.lookup k =
      (Table.eraseAll (staleRows CursorKey.day cursorOrder
        (today - settings.bandwidthIngestMaxAgeDays) settings.bandwidthCleanupBatchSize
        db.cursors) db.cursors).lookup k := by
    unfold cleanupDailyBandwidth
    dsimp only
    split <;> rfl
  rw [hlookup, Table.lookup_eraseAll] at hc
  split at hc
  · cases hc
  · exact h k c hc

end EveryCursor

theorem cleanupDailyBandwidth_subscriptions (settings : Settings) (today : ℤ) (db : Database) :
    (cleanupDailyBandwidth settings today db).subscriptions = db.subscriptions := by
  unfold cleanupDailyBandwidth
  dsimp only
  split <;> rfl

/-- A counter is refused as decreased only against an older cursor that holds
more. -/
theorem ingestReport_decrease {db : Database} {r : Report CursorKey BandwidthTotals}
    (h : ingestReport db r = .error .counterDecrease) :
    ∃ c ∈ db.cursors.lookup r.key, c.sequence < r.sequence ∧ ¬ c.totals ≤ r.totals := by
  unfold ingestReport at h
  dsimp only at h
  split at h
  · cases h
  · rename_i hfresh
    push Not at hfresh
    split at h
    · rename_i hless
      cases hc : db.cursors.lookup r.key with
      | none => simp [hc, previousTotals] at hless
      | some c =>
          refine ⟨c, rfl, hfresh c hc, fun hle => ?_⟩
          simp only [hc, previousTotals, Option.map_some, Option.getD_some] at hless
          cases hless with
          | inl hin => exact absurd hle.1 (not_le.mpr hin)
          | inr hout => exact absurd hle.2 (not_le.mpr hout)
    · -- the aggregates only overflow
      simp only [bind, Except.bind] at h
      split at h
      · cases h
        cases incrementDaily_error ‹_›
      · split at h
        · cases h
          cases incrementEdgeDailyBandwidth_error ‹_›
        · cases h

/-- Where every older cursor a report meets holds no more, none is refused as
decreased. -/
theorem ingestReports_ne_decrease {P : CursorKey → RelayBandwidthCursor → Prop} {db : Database}
    {rs : List (Report CursorKey BandwidthTotals)} (h : db.EveryCursor P)
    (hrs : ∀ r ∈ rs, P r.key ⟨r.sequence, r.totals⟩)
    (hle : ∀ r ∈ rs, ∀ c, P r.key c → c.sequence < r.sequence → c.totals ≤ r.totals) :
    ingestReports rs db ≠ .error .counterDecrease := by
  induction rs generalizing db with
  | nil => simp [ingestReports]
  | cons r rs ih =>
      intro herror
      rw [ingestReports] at herror
      cases hr : ingestReport db r with
      | error e =>
          rw [hr] at herror
          cases herror
          obtain ⟨c, hc, hlt, hnot⟩ := ingestReport_decrease hr
          exact hnot (hle r List.mem_cons_self c (h r.key c hc) hlt)
      | ok db₁ =>
          rw [hr] at herror
          exact ih (h.ingestReport (hrs r List.mem_cons_self) hr)
            (fun r' hr' => hrs r' (List.mem_cons_of_mem _ hr'))
            (fun r' hr' => hle r' (List.mem_cons_of_mem _ hr')) herror

/-- Ingest writes no subscription. -/
theorem ingestReports_subscriptions {rs : List (Report CursorKey BandwidthTotals)}
    {db db' : Database} (h : ingestReports rs db = .ok db') :
    db'.subscriptions = db.subscriptions := by
  induction rs generalizing db with
  | nil =>
      cases h
      rfl
  | cons r rs ih =>
      obtain ⟨db₁, hr, hrest⟩ := ingestReports_cons_ok h
      rw [ih hrest]
      cases ingestReport_ok hr with
      | inl hskip => rw [hskip.2]
      | inr hnew => rw [hnew.2.2, Database.counted]

/-! ## what a request does -/

/-- Everything the handler asks of a request before its transaction. -/
theorem checkRequest_eq_ok_iff {settings : Settings} {today : ℤ} {headers : RelayHeaders}
    {body : RelayDailyBandwidthRequest} : checkRequest settings today headers body = .ok () ↔
      body.WellFormed ∧ settings.bandwidthMetricsEnabled = true ∧
      (headers.relaySecret ≠ "" ∧ headers.relaySecret = settings.relaySecret) ∧
      (headers.relayHeartbeatToken ≠ "" ∧
        settings.relayHeartbeatKeys.lookup body.edgeId = some headers.relayHeartbeatToken) ∧
      (body.reports.map fun report => (report.subscriptionId, report.day)).Nodup ∧
      (∀ report ∈ body.reports, report.day ≤ today) ∧
      ∀ report ∈ body.reports, today - settings.bandwidthIngestMaxAgeDays ≤ report.day := by
  unfold checkRequest
  simp only [bind, Except.bind, pure, Except.pure]
  constructor
  · intro h
    repeat' split at h
    all_goals first
      | (cases h; done)
      | grind
  · rintro ⟨hbody, henabled, ⟨hsecret, hsame⟩, ⟨htoken, hkey⟩, hnodup, hfuture, hold⟩
    have hfuture' : ¬ ∃ report ∈ body.reports, report.day > today := by
      push Not
      exact hfuture
    have hold' : ¬ ∃ report ∈ body.reports,
        report.day < today - settings.bandwidthIngestMaxAgeDays := by
      push Not
      exact hold
    have hsecret' : settings.relaySecret ≠ "" := hsame ▸ hsecret
    simp [hbody, henabled, hsecret', hsame, htoken, hkey, hnodup, hfuture', hold']

/-- A partial map over a list reads every result off an element, and every
element's result is among them. -/
theorem mem_mapM_iff {α β : Type} {f : α → Option β} {l : List α} {l' : List β}
    (h : l.mapM f = some l') (y : β) : y ∈ l' ↔ ∃ x ∈ l, f x = some y := by
  induction l generalizing l' with
  | nil =>
      cases h
      simp
  | cons a l ih =>
      rw [List.mapM_cons] at h
      cases ha : f a with
      | none => simp [ha] at h
      | some b =>
          cases hl : l.mapM f with
          | none => simp [ha, hl] at h
          | some bs =>
              simp only [ha, hl, Option.bind_eq_bind, Option.bind_some, Option.pure_def,
                Option.some.injEq] at h
              subst h
              rw [List.mem_cons, ih hl]
              simp only [List.mem_cons, exists_eq_or_imp, ha, Option.some.injEq]
              grind

/-- A partial map over a list succeeds exactly when it does on every element. -/
theorem mapM_eq_some_map {α β : Type} {f : α → Option β} {g : α → β} {l : List α}
    (h : ∀ x ∈ l, f x = some (g x)) : l.mapM f = some (l.map g) := by
  induction l with
  | nil => rfl
  | cons a l ih =>
      rw [List.mapM_cons, h a List.mem_cons_self,
        ih fun x hx => h x (List.mem_cons_of_mem _ hx)]
      rfl

theorem isSome_of_mapM {α β : Type} {f : α → Option β} {l : List α} {l' : List β}
    (h : l.mapM f = some l') : ∀ x ∈ l, (f x).isSome := by
  induction l generalizing l' with
  | nil => simp
  | cons a l ih =>
      rw [List.mapM_cons] at h
      cases ha : f a with
      | none => simp [ha] at h
      | some b =>
          cases hl : l.mapM f with
          | none => simp [ha, hl] at h
          | some bs =>
              intro x hx
              cases List.mem_cons.mp hx with
              | inl heq => simp [heq, ha]
              | inr hx => exact ih hl x hx

/-- Resolving keeps an entry's day, sequence and totals. -/
theorem mem_resolved {db : Database} {body : RelayDailyBandwidthRequest}
    {rs : List (Report CursorKey BandwidthTotals)} (h : resolved db body = some rs)
    {r : Report CursorKey BandwidthTotals} (hr : r ∈ rs) : ∃ entry ∈ body.reports, ∃ id,
      db.subscriptions.lookup entry.subscriptionId = some id ∧ r = toReport body id entry := by
  unfold resolved at h
  rw [Option.map_eq_some_iff] at h
  obtain ⟨entries, hentries, rfl⟩ := h
  rw [List.mem_insertionSort] at hr
  obtain ⟨entry, hentry, hmap⟩ := (mem_mapM_iff hentries r).mp hr
  rw [Option.map_eq_some_iff] at hmap
  obtain ⟨id, hid, rfl⟩ := hmap
  exact ⟨entry, hentry, id, hid, rfl⟩

/-- A request either is refused and leaves the database, or its whole batch is
ingested. -/
theorem relayDailyBandwidth_cases (settings : Settings) (today : ℤ) (headers : RelayHeaders)
    (body : RelayDailyBandwidthRequest) (db : Database) :
    (∃ e, relayDailyBandwidth settings today headers body db = (db, some e)) ∨
    ∃ rs db', checkRequest settings today headers body = .ok () ∧ resolved db body = some rs ∧
      ingestReports rs db = .ok db' ∧
      relayDailyBandwidth settings today headers body db = (db', none) := by
  unfold relayDailyBandwidth
  cases hpassed : checkRequest settings today headers body with
  | error e => exact .inl ⟨e, rfl⟩
  | ok u =>
      cases hingest : ingestDailyBandwidth db body with
      | error e => exact .inl ⟨e.toHttp, rfl⟩
      | ok db' =>
          unfold ingestDailyBandwidth at hingest
          cases hrs : resolved db body with
          | none => rw [hrs] at hingest; cases hingest
          | some rs =>
              rw [hrs] at hingest
              exact .inr ⟨rs, db', rfl, rfl, hingest, rfl⟩

/-- The resolved reports of an admitted request lie in the accepted window. -/
theorem day_of_resolved {settings : Settings} {today : ℤ} {headers : RelayHeaders}
    {body : RelayDailyBandwidthRequest} {db : Database}
    {rs : List (Report CursorKey BandwidthTotals)}
    (hpassed : checkRequest settings today headers body = .ok ())
    (hrs : resolved db body = some rs) :
    ∀ r ∈ rs, today - settings.bandwidthIngestMaxAgeDays ≤ r.key.day := by
  intro r hr
  obtain ⟨entry, hentry, id, -, rfl⟩ := mem_resolved hrs hr
  exact (checkRequest_eq_ok_iff.mp hpassed).2.2.2.2.2.2 entry hentry

end Backend.Bandwidth
