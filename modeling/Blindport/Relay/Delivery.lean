import Blindport.Backend.Bandwidth
import Blindport.Relay.Reporting

/-!
# Blindport.Relay.Delivery

A relay's batches at the backend: the reporter of `Blindport.Relay.Reporting`
beside the ingest of `Blindport.Backend.Bandwidth`.

The network delivers any batch the relay handed to `send`, at any time and any
number of times, so a batch whose answer was lost and one that is retried are
covered; other relays and the cleanup worker act on the same database.
-/

namespace Relay.Delivery

open Conc Backend.Bandwidth

/-- The relay's identity towards the backend. -/
structure Identity where
  edgeID : String
  bootID : String
deriving DecidableEq

/-- The request a batch is sent as. -/
def request (identity : Identity) (sequence : ℕ) (reports : List DailyBandwidthReport) :
    RelayDailyBandwidthRequest where
  edgeId := identity.edgeID
  bootId := identity.bootID
  sequence := sequence
  reports := reports.map fun r => ⟨r.1.subscriptionID, r.1.day, r.2⟩

/-- The relay and the backend. -/
structure System where
  relay : Reporter
  backend : State

inductive Action where
  | relay (event : Event)
  | deliver (today : ℤ) (headers : RelayHeaders) (sent : ℕ)
  | backend (today : ℤ) (op : Operation)

/-- The operation does not report as this boot. -/
def OfOthers (identity : Identity) : Operation → Prop
  | .relayDailyBandwidth _ body => ¬ (body.edgeId = identity.edgeID ∧ body.bootId = identity.bootID)
  | _ => True

instance (identity : Identity) (op : Operation) : Decidable (OfOthers identity op) := by
  unfold OfOthers
  split
  · infer_instance
  · exact isTrue trivial

/-- A new boot of the relay and a backend without accounting. -/
def start (today : ℤ) : System := ⟨Reporter.start today, .empty⟩

/-- One step of the relay, of the network or of the backend. -/
def step (settings : Settings) (identity : Identity) (s : System) : Action → Option System
  | .relay event => (s.relay.step event).map fun relay => { s with relay := relay }
  | .deliver today headers sent =>
      s.relay.sent[sent]?.map fun batch => { s with
        backend := Backend.Bandwidth.step settings s.backend today
          (.relayDailyBandwidth headers (request identity batch.sequence batch.reports)) }
  | .backend today op =>
      if OfOthers identity op then
        some { s with backend := Backend.Bandwidth.step settings s.backend today op }
      else none

/-! ## the cursors of a boot -/

/-- The cursor holds a report of this subscription, day and sequence that the
relay sent. -/
def FromRelay (identity : Identity) (subscriptions : AList fun _ : String => ℕ)
    (sent : List SentBatch) (k : CursorKey) (c : RelayBandwidthCursor) : Prop :=
  k.edgeId = identity.edgeID → k.bootId = identity.bootID →
    ∃ batch ∈ sent, batch.sequence = c.sequence ∧ ∃ r ∈ batch.reports,
      subscriptions.lookup r.1.subscriptionID = some k.subscriptionId ∧ r.1.day = k.day ∧
        r.2 = c.totals

theorem FromRelay.mono {identity : Identity}
    {subscriptions subscriptions' : AList fun _ : String => ℕ}
    {sent sent' : List SentBatch} {k : CursorKey} {c : RelayBandwidthCursor}
    (h : FromRelay identity subscriptions sent k c)
    (hsubscriptions : ∀ p i, subscriptions.lookup p = some i → subscriptions'.lookup p = some i)
    (hsent : ∀ batch ∈ sent, batch ∈ sent') : FromRelay identity subscriptions' sent' k c := by
  intro hedge hboot
  obtain ⟨batch, hbatch, hseq, r, hr, hsub, hrest⟩ := h hedge hboot
  exact ⟨batch, hsent batch hbatch, hseq, r, hr, hsubscriptions _ _ hsub, hrest⟩

/-- The resolved report of an entry of a batch is one the relay sent. -/
theorem fromRelay_of_resolved {identity : Identity} {db : Database} {sent : List SentBatch}
    {batch : SentBatch} (hbatch : batch ∈ sent)
    {rs : List (Cumulative.Report CursorKey Backend.Bandwidth.BandwidthTotals)}
    (hrs : resolved db (request identity batch.sequence batch.reports) = some rs) :
    ∀ r ∈ rs, FromRelay identity db.subscriptions sent r.key ⟨r.sequence, r.totals⟩ := by
  intro r hr _ _
  obtain ⟨entry, hentry, id, hid, rfl⟩ := mem_resolved hrs hr
  obtain ⟨report, hreport, rfl⟩ := List.mem_map.mp hentry
  exact ⟨batch, hbatch, rfl, report, hreport, hid, rfl, rfl⟩

/-- Different subscriptions have different internal identifiers. -/
def DistinctIds (subscriptions : AList fun _ : String => ℕ) : Prop :=
  ∀ p p' i, subscriptions.lookup p = some i → subscriptions.lookup p' = some i → p = p'

/-- The cursors of the boot are the relay's own reports. -/
structure Genuine (identity : Identity) (s : System) : Prop where
  distinct : DistinctIds s.backend.db.subscriptions
  cursors : s.backend.db.EveryCursor
    (FromRelay identity s.backend.db.subscriptions s.relay.sent)

theorem start_genuine (identity : Identity) (today : ℤ) : Genuine identity (start today) where
  distinct p p' i hp := by simp [start, State.empty] at hp
  cursors k c hc := by simp [start, State.empty] at hc

/-- An accepted request whose reports are the relay's, or of another boot, keeps
the cursors genuine. -/
theorem Genuine.ingest {identity : Identity} {s : System} (h : Genuine identity s)
    {settings : Settings} {today : ℤ} {headers : RelayHeaders} {body : RelayDailyBandwidthRequest}
    (hbody : ∀ rs, resolved s.backend.db body = some rs → ∀ r ∈ rs,
      FromRelay identity s.backend.db.subscriptions s.relay.sent r.key ⟨r.sequence, r.totals⟩) :
    Genuine identity { s with
      backend := Backend.Bandwidth.step settings s.backend today
        (.relayDailyBandwidth headers body) } := by
  unfold Backend.Bandwidth.step
  dsimp only
  cases relayDailyBandwidth_cases settings today headers body s.backend.db with
  | inl hrefused =>
      obtain ⟨e, he⟩ := hrefused
      rw [he]
      exact ⟨h.distinct, h.cursors⟩
  | inr haccepted =>
      obtain ⟨rs, db', -, hrs, hok, hanswer⟩ := haccepted
      rw [hanswer]
      have hsub := ingestReports_subscriptions hok
      constructor
      · show DistinctIds db'.subscriptions
        rw [hsub]
        exact h.distinct
      · show db'.EveryCursor (FromRelay identity db'.subscriptions s.relay.sent)
        rw [hsub]
        exact h.cursors.ingestReports (hbody rs hrs) hok

/-- The relay forgets no batch it sent. -/
theorem sent_of_step {s s' : Reporter} {e : Event} (h : s.step e = some s') :
    ∀ batch ∈ s.sent, batch ∈ s'.sent := by
  intro batch hbatch
  cases e with
  | midnight => cases h; exact hbatch
  | readClock increments => cases h; exact hbatch
  | addBatch waiting =>
      obtain ⟨add, hadd, rfl⟩ := Option.map_eq_some_iff.mp h
      split <;> exact hbatch
  | flush =>
      unfold Reporter.step at h
      dsimp only at h
      split at h
      · cases h; exact hbatch
      · cases h
  | restart =>
      unfold Reporter.step at h
      dsimp only at h
      split at h
      · cases h; exact hbatch
      · cases h
  | advance outcome =>
      cases Reporter.advances_of_advance h with
      | acknowledged => exact List.mem_cons_of_mem _ hbatch
      | sendFailed => exact List.mem_cons_of_mem _ hbatch
      | _ => exact hbatch

theorem Genuine.step {settings : Settings} {identity : Identity} {s s' : System} {a : Action}
    (h : Genuine identity s) (hstep : step settings identity s a = some s') :
    Genuine identity s' := by
  cases a with
  | relay event =>
      obtain ⟨relay, hrelay, rfl⟩ := Option.map_eq_some_iff.mp hstep
      refine ⟨h.distinct, fun k c hc => ?_⟩
      exact (h.cursors k c hc).mono (fun _ _ hp => hp) (sent_of_step hrelay)
  | deliver today headers sent =>
      obtain ⟨batch, hbatch, rfl⟩ := Option.map_eq_some_iff.mp hstep
      exact h.ingest fun rs hrs => fromRelay_of_resolved (List.mem_of_getElem? hbatch) hrs
  | backend today op =>
      unfold Delivery.step at hstep
      dsimp only at hstep
      split at hstep
      · rename_i hothers
        cases hstep
        cases op with
        | relayDailyBandwidth headers body =>
            refine h.ingest fun rs hrs r hr hedge hboot => ?_
            obtain ⟨entry, -, id, -, rfl⟩ := mem_resolved hrs hr
            exact absurd ⟨hedge, hboot⟩ hothers
        | cleanupDailyBandwidth =>
            have hsub := cleanupDailyBandwidth_subscriptions settings today s.backend.db
            constructor
            · show DistinctIds (cleanupDailyBandwidth settings today s.backend.db).subscriptions
              rw [hsub]
              exact h.distinct
            · show (cleanupDailyBandwidth settings today s.backend.db).EveryCursor
                (FromRelay identity
                  (cleanupDailyBandwidth settings today s.backend.db).subscriptions
                  s.relay.sent)
              rw [hsub]
              exact h.cursors.cleanup settings today
        | subscribe publicId id =>
            unfold Backend.Bandwidth.step
            dsimp only
            split
            · exact ⟨h.distinct, h.cursors⟩
            · rename_i hnew
              push Not at hnew
              have hold : ∀ p i, s.backend.db.subscriptions.lookup p = some i →
                  p ≠ publicId ∧ i ≠ id := fun p i hp => hnew (p, i) (Table.mem_rows.mpr hp)
              constructor
              · intro p p' i hp hp'
                by_cases hpid : p = publicId
                · by_cases hpid' : p' = publicId
                  · rw [hpid, hpid']
                  · -- the new row's identifier is not in the table
                    rw [hpid] at hp
                    rw [AList.lookup_insert] at hp
                    rw [AList.lookup_insert_ne hpid'] at hp'
                    cases hp
                    exact absurd rfl (hold p' id hp').2
                · rw [AList.lookup_insert_ne hpid] at hp
                  by_cases hpid' : p' = publicId
                  · rw [hpid', AList.lookup_insert] at hp'
                    cases hp'
                    exact absurd rfl (hold p id hp).2
                  · rw [AList.lookup_insert_ne hpid'] at hp'
                    exact h.distinct p p' i hp hp'
              · intro k c hc
                refine (h.cursors k c hc).mono (fun p i hp => ?_) fun _ hb => hb
                exact (AList.lookup_insert_ne (hold p i hp).1).trans hp
      · cases hstep

/-! ## no batch is refused as decreased -/

/-- No add of the relay is overtaken by a prune of its day. -/
def Timely (s : System) : Action → Prop
  | .relay event => Reporter.Timely s.relay event
  | _ => True

instance (s : System) (a : Action) : Decidable (Timely s a) := by
  unfold Timely
  split
  · infer_instance
  · exact isTrue trivial

/-- What the relay sent, as reports of cumulative totals. -/
def sentReports (s : Reporter) :
    List (Cumulative.Report BandwidthKey Relay.BandwidthTotals) :=
  s.sent.flatMap fun batch => batch.reports.map fun r => ⟨r.1, batch.sequence, r.2⟩

theorem sentReports_nonDecreasing {s : Reporter} (h : s.Rising) :
    Cumulative.NonDecreasing (sentReports s) := by
  intro r hr r' hr' hkey hlt
  obtain ⟨batch, hbatch, hr⟩ := List.mem_flatMap.mp hr
  obtain ⟨batch', hbatch', hr'⟩ := List.mem_flatMap.mp hr'
  obtain ⟨x, hx, rfl⟩ := List.mem_map.mp hr
  obtain ⟨x', hx', rfl⟩ := List.mem_map.mp hr'
  exact h batch hbatch batch' hbatch' hlt x hx x' hx' hkey

/-- A sent batch meets only cursors of its own boot's earlier batches. -/
theorem Genuine.ne_decrease {identity : Identity} {s : System} (h : Genuine identity s)
    (hrising : s.relay.Rising) {batch : SentBatch} (hbatch : batch ∈ s.relay.sent) :
    ingestDailyBandwidth s.backend.db (request identity batch.sequence batch.reports) ≠
      .error .counterDecrease := by
  unfold ingestDailyBandwidth
  cases hrs : resolved s.backend.db (request identity batch.sequence batch.reports) with
  | none => simp
  | some rs =>
      refine ingestReports_ne_decrease h.cursors (fromRelay_of_resolved hbatch hrs) ?_
      intro r hr c hc hlt
      obtain ⟨entry, hentry, id, hid, rfl⟩ := mem_resolved hrs hr
      obtain ⟨x, hx, rfl⟩ := List.mem_map.mp hentry
      obtain ⟨batch', hbatch', hseq, x', hx', hid', hday, htotals⟩ := hc rfl rfl
      -- the two internal identifiers are one, so are the public ones
      have hkey : x'.1 = x.1 := BandwidthKey.ext (h.distinct _ _ _ hid' hid) hday
      rw [← htotals]
      refine hrising batch' hbatch' batch hbatch ?_ x' hx' x hx hkey
      rw [hseq]
      exact hlt

/-- The relay of the system steps on its own. -/
theorem relay_step {settings : Settings} {identity : Identity} {s s' : System} {a : Action}
    (hstep : step settings identity s a = some s') :
    s'.relay = s.relay ∨ ∃ event, a = .relay event ∧ s.relay.step event = some s'.relay := by
  cases a with
  | relay event =>
      obtain ⟨relay, hrelay, rfl⟩ := Option.map_eq_some_iff.mp hstep
      exact .inr ⟨event, rfl, hrelay⟩
  | deliver today headers sent =>
      obtain ⟨batch, hbatch, rfl⟩ := Option.map_eq_some_iff.mp hstep
      exact .inl rfl
  | backend today op =>
      unfold step at hstep
      dsimp only at hstep
      split at hstep
      · cases hstep
        exact .inl rfl
      · cases hstep

theorem monotone_step {settings : Settings} {identity : Identity} {s s' : System} {a : Action}
    (h : s.relay.Monotone) (htimely : Timely s a)
    (hstep : step settings identity s a = some s') : s'.relay.Monotone := by
  cases relay_step hstep with
  | inl hsame =>
      rw [hsame]
      exact h
  | inr hrelay =>
      obtain ⟨event, rfl, hrelay⟩ := hrelay
      exact h.step htimely hrelay

/-- What every step of the reporter keeps holds of the relay in every run. -/
theorem relay_run {settings : Settings} {identity : Identity} {today : ℤ} {actions : List Action}
    {s : System} {I : Reporter → Prop}
    (hstep : ∀ {r r' : Reporter} {e : Event}, I r → r.step e = some r' → I r')
    (hstart : I (Reporter.start today))
    (hrun : exec (step settings identity) (start today) actions = some s) : I s.relay := by
  refine exec_invariant (I := fun s => I s.relay) (fun _ _ _ h hs => ?_) hstart hrun
  cases relay_step hs with
  | inl hsame =>
      rw [hsame]
      exact h
  | inr hrelay =>
      obtain ⟨event, -, hrelay⟩ := hrelay
      exact hstep h hrelay

/-- In every run the cursors of the boot are not ahead of its sequence. -/
theorem cursors_not_ahead {settings : Settings} {identity : Identity} {today : ℤ}
    {actions : List Action} {s : System}
    (hrun : exec (step settings identity) (start today) actions = some s) :
    DistinctIds s.backend.db.subscriptions ∧ s.backend.db.EveryCursor fun k c =>
      k.edgeId = identity.edgeID → k.bootId = identity.bootID →
        c.sequence ≤ s.relay.sequence := by
  have hgenuine : Genuine identity s :=
    exec_invariant (fun _ _ _ h hstep => h.step hstep) (start_genuine identity today) hrun
  have hnumbered : s.relay.Numbered :=
    relay_run (fun h hstep => h.step hstep) (Reporter.start_numbered today) hrun
  refine ⟨hgenuine.distinct, fun k c hc hedge hboot => ?_⟩
  obtain ⟨batch, hbatch, hseq, -⟩ := hgenuine.cursors k c hc hedge hboot
  rw [← hseq]
  exact le_trans (hnumbered.sent batch hbatch) hnumbered.file

/-- **The totals of a boot never go back.**  In every run in which no add is
overtaken by a prune of its day, batches carry increasing sequences, a later
batch never reports less for a subscription and day, and no batch the network
can deliver is refused by the backend as decreased. -/
theorem totals_never_decrease {settings : Settings} {identity : Identity} {today : ℤ}
    {actions : List Action} {s : System}
    (hm : Meets (step settings identity) Timely (start today) actions)
    (hrun : exec (step settings identity) (start today) actions = some s) :
    (s.relay.sent.Pairwise fun newer older => older.sequence < newer.sequence) ∧
    Cumulative.NonDecreasing (sentReports s.relay) ∧
    ∀ batch ∈ s.relay.sent,
      ingestDailyBandwidth s.backend.db (request identity batch.sequence batch.reports) ≠
        .error .counterDecrease := by
  have hrelay : s.relay.Monotone :=
    hm.invariant (I := fun s => s.relay.Monotone)
      (fun _ _ _ h htimely hstep => monotone_step h htimely hstep)
      (Reporter.start_monotone today) hrun
  have hgenuine : Genuine identity s :=
    exec_invariant (fun _ _ _ h hstep => h.step hstep) (start_genuine identity today) hrun
  exact ⟨hrelay.numbered.increasing, sentReports_nonDecreasing hrelay.rising,
    fun batch hbatch => hgenuine.ne_decrease hrelay.rising hbatch⟩

namespace Sample

def settings : Settings where
  bandwidthMetricsEnabled := true
  relaySecret := "secret"
  relayHeartbeatKeys := AList.insert "edge" "key" ∅
  bandwidthRetentionDays := 400
  bandwidthIngestMaxAgeDays := 3
  bandwidthCleanupBatchSize := 1000

def identity : Identity := ⟨"edge", "boot"⟩

def headers : RelayHeaders := ⟨"secret", "key"⟩

/-- A flush of one entry whose batch is delivered and acknowledged. -/
def flush : List Action :=
  Reporter.Sample.flush.map .relay ++ [.deliver 1 headers 0]

/-- The prune and the write of the file that end a flush. -/
def prune : List Action := List.replicate 5 (.relay (.advance .ok))

/-- Five bytes of day 0, flushed on day 1 and pruned, then three bytes under the
day the clock shows at `reread`. -/
def run (reread : List Action) : List Action :=
  ([.backend 0 (.subscribe Reporter.Sample.subscriptionID 1),
    .relay (.readClock (Reporter.Sample.increment 5)), .relay (.addBatch 0)] : List Action) ++
    reread ++ flush ++ prune ++ [Action.relay (.addBatch 0)] ++
    Reporter.Sample.flush.map Action.relay

/-- The second add reads the clock after midnight. -/
def timely : List Action :=
  run [.relay .midnight, .relay (.readClock (Reporter.Sample.increment 3))]

/-- The second add reads the clock before midnight and takes the lock after the
prune. -/
def overtaken : List Action :=
  run [.relay (.readClock (Reporter.Sample.increment 3)), .relay .midnight]

def after (actions : List Action) : System :=
  (exec (step settings identity) (start 0) actions).getD (start 0)

theorem exec_after {actions : List Action}
    (h : (exec (step settings identity) (start 0) actions).isSome) :
    exec (step settings identity) (start 0) actions = some (after actions) := by
  obtain ⟨s, hs⟩ := Option.isSome_iff_exists.mp h
  rw [after, hs]
  rfl

end Sample

theorem totals_never_decrease_timely :
    exec (step Sample.settings Sample.identity) (start 0) Sample.timely =
      some (Sample.after Sample.timely) ∧
    (sentReports (Sample.after Sample.timely).relay).map (fun r => (r.sequence, r.totals)) =
      [(2, (3, 0)), (1, (5, 0))] ∧
    Cumulative.NonDecreasing (sentReports (Sample.after Sample.timely).relay) := by
  have hrun := @Sample.exec_after Sample.timely (by decide +kernel)
  refine ⟨hrun, by decide +kernel, ?_⟩
  exact (totals_never_decrease (by decide +kernel) hrun).2.1

/-- The day pruned at five bytes is reported again with three, and the batch is
refused. -/
theorem totals_decrease_overtaken :
    exec (step Sample.settings Sample.identity) (start 0) Sample.overtaken =
      some (Sample.after Sample.overtaken) ∧
    ¬ Cumulative.NonDecreasing (sentReports (Sample.after Sample.overtaken).relay) ∧
    ∃ batch ∈ (Sample.after Sample.overtaken).relay.sent,
      (relayDailyBandwidth Sample.settings 1 Sample.headers
        (request Sample.identity batch.sequence batch.reports)
        (Sample.after Sample.overtaken).backend.db).2 =
        some (.exception 409 "cumulative bandwidth counter decreased") := by
  refine ⟨Sample.exec_after (by decide +kernel), ?_, by decide +kernel⟩
  unfold Cumulative.NonDecreasing
  decide +kernel

end Relay.Delivery
