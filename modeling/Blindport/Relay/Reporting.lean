import Blindport.Relay.Bandwidth

/-!
# Blindport.Relay.Reporting

What holds of the relay's ledger over every interleaving of adds, flushes, the
clock and crashes.

A flush prunes the entries of past days after all its batches were
acknowledged, but an add that read the clock before midnight may take the lock
at any later point.  When it falls between the snapshot and the prune its bytes
are deleted unsent (`prune_deletes_acknowledged` says when they are not); when
it falls behind the prune the entry starts again from zero, under a boot whose
totals may not go back (`Monotone` says what holds otherwise).
-/

namespace Relay

open Conc

/-! ## what a flush still has to do -/

/-- What the flush does next, or after the write of the file under way. -/
def Phase.task : Phase → Task
  | .run task => task
  | .persist next => next
  | .store _ next => next

/-- The flush is on its way to its prune. -/
def Task.pruning : Task → Bool
  | .idle => false
  | _ => true

/-- The reports of the flush that were not handed to `send` yet. -/
def Task.unsent : Task → List DailyBandwidthReport
  | .loop reports => reports
  | .send batch reports => batch ++ reports
  | _ => []

namespace Reporter

/-- A batch that held the report was acknowledged. -/
def Acknowledged (s : Reporter) (r : DailyBandwidthReport) : Prop :=
  ∃ batch ∈ s.sent, batch.acknowledged = true ∧ r ∈ batch.reports

/-! ## no entry is pruned unsent -/

/-- The flush's account of the entries: each is as it was in the snapshot, or got
bytes since, and each report of the snapshot was acknowledged or is still to be
sent. -/
structure Accounted (s : Reporter) : Prop where
  entries : s.phase.task.pruning = true → ∀ k t, s.entries.lookup k = some t →
    (k, t) ∈ s.taken ∨ k ∈ s.added
  taken : s.phase.task.pruning = true → ∀ r ∈ s.taken, r ∈ s.phase.task.unsent ∨ s.Acknowledged r

theorem start_accounted (today : ℤ) : (start today).Accounted where
  entries h := by simp [start, Phase.task, Task.pruning] at h
  taken h := by simp [start, Phase.task, Task.pruning] at h

/-- A reporter whose flush ended has nothing to account for. -/
theorem accounted_of_not_pruning {s : Reporter} (h : s.phase.task.pruning = false) :
    s.Accounted where
  entries hp := by rw [h] at hp; cases hp
  taken hp := by rw [h] at hp; cases hp

theorem Accounted.advance {s s' : Reporter} (h : s.Accounted) (hstep : s.Advances s') :
    s'.Accounted := by
  obtain ⟨hentries, htaken⟩ := h
  cases hstep with
  | persist hphase =>
      rw [hphase] at hentries htaken
      exact ⟨hentries, htaken⟩
  | stored hphase =>
      rw [hphase] at hentries htaken
      exact ⟨hentries, htaken⟩
  | storeFailed => exact accounted_of_not_pruning rfl
  | drained hphase =>
      rw [hphase] at hentries htaken
      exact ⟨hentries, htaken⟩
  | exhausted => exact accounted_of_not_pruning rfl
  | numbered hphase =>
      rw [hphase] at hentries htaken
      refine ⟨hentries, fun _ r hr => (htaken rfl r hr).imp_left fun hmem => ?_⟩
      show r ∈ List.take 1000 _ ++ List.drop 1000 _
      rw [List.take_append_drop]
      exact hmem
  | acknowledged hphase =>
      rw [hphase] at hentries htaken
      refine ⟨hentries, fun _ r hr => ?_⟩
      -- the batch just acknowledged, the rest, or a batch before
      cases htaken rfl r hr with
      | inl hunsent =>
          cases List.mem_append.mp hunsent with
          | inl hbatch => exact .inr ⟨_, List.mem_cons_self, rfl, hbatch⟩
          | inr hrest => exact .inl hrest
      | inr hacked =>
          obtain ⟨b, hb, hback, hmem⟩ := hacked
          exact .inr ⟨b, List.mem_cons_of_mem _ hb, hback, hmem⟩
  | sendFailed => exact accounted_of_not_pruning rfl
  | readClock hphase =>
      rw [hphase] at hentries htaken
      exact ⟨hentries, htaken⟩
  | prune => exact accounted_of_not_pruning rfl

theorem Accounted.step {s s' : Reporter} {e : Event} (h : s.Accounted)
    (hstep : s.step e = some s') : s'.Accounted := by
  cases e with
  | midnight =>
      cases hstep
      exact ⟨h.entries, h.taken⟩
  | readClock increments =>
      cases hstep
      exact ⟨h.entries, h.taken⟩
  | addBatch waiting =>
      obtain ⟨add, hadd, rfl⟩ := Option.map_eq_some_iff.mp hstep
      cases hbatch : Relay.addBatch s.entries add.2 add.1 with
      | error e => exact ⟨h.entries, h.taken⟩
      | ok entries =>
          refine ⟨fun hp k t hk => ?_, h.taken⟩
          by_cases hmem : k ∈ addedKeys add.2 add.1
          · exact .inr (List.mem_append_left _ hmem)
          · have hsame : s.entries.lookup k = some t := by
              rw [← (addBatch_ok hbatch).1 k hmem]
              exact hk
            exact (h.entries hp k t hsame).imp_right (List.mem_append_right _)
  | flush =>
      unfold Reporter.step at hstep
      dsimp only at hstep
      split at hstep
      · cases hstep
        by_cases hempty : snapshot s.entries = []
        · apply accounted_of_not_pruning
          simp [hempty, Phase.task, Task.pruning]
        · refine ⟨fun _ k t hk => .inl (mem_snapshot.mpr hk), fun _ r hr => .inl ?_⟩
          simpa [hempty, Phase.task, Task.unsent] using hr
      · cases hstep
  | advance outcome => exact h.advance (advances_of_advance hstep)
  | restart =>
      unfold Reporter.step at hstep
      dsimp only at hstep
      split at hstep
      · cases hstep
        exact accounted_of_not_pruning rfl
      · cases hstep

/-- `pruneBefore` of this step deletes the entry of `k`, which holds `t`. -/
def Prunes (s : Reporter) (e : Event) (k : BandwidthKey) (t : BandwidthTotals) : Prop :=
  ∃ outcome day, e = .advance outcome ∧ s.phase = .run (.prune day) ∧ s.entries.lookup k = some t ∧
    k.day < day

/-- Nothing was added since the flush's snapshot under a day that it prunes. -/
def Undisturbed (s : Reporter) : Event → Prop
  | .advance _ =>
      match s.phase with
      | .run (.prune day) => ∀ k ∈ s.added, day ≤ k.day
      | _ => True
  | _ => True

instance (s : Reporter) (e : Event) : Decidable (Undisturbed s e) := by
  unfold Undisturbed
  split
  · split
    · infer_instance
    · exact isTrue trivial
  · exact isTrue trivial

/-- **No entry is pruned unsent.**  In every run in which no prune meets bytes
that were added since the flush's snapshot under an earlier day, every entry
that a prune deletes was acknowledged with the totals it had. -/
theorem prune_deletes_acknowledged {today : ℤ} {events : List Event} {s : Reporter} {e : Event}
    (hm : Meets step Undisturbed (start today) events)
    (hrun : exec step (start today) events = some s) (he : Undisturbed s e) :
    ∀ k t, Prunes s e k t → s.Acknowledged (k, t) := by
  have h : s.Accounted := hm.invariant (fun s e s' h _ hstep => h.step hstep)
    (start_accounted today) hrun
  rintro k t ⟨outcome, day, rfl, hphase, hk, hday⟩
  have hpruning : s.phase.task.pruning = true := by rw [hphase]; rfl
  have htaken : (k, t) ∈ s.taken := by
    cases h.entries hpruning k t hk with
    | inl htaken => exact htaken
    | inr hadded =>
        simp only [Undisturbed, hphase] at he
        exact absurd hday (not_lt.mpr (he k hadded))
  cases h.taken hpruning _ htaken with
  | inl hunsent => simp [hphase, Phase.task, Task.unsent] at hunsent
  | inr hacked => exact hacked

namespace Sample

def subscriptionID : String := "00000000-0000-4000-8000-000000000001"

def increment (count : Int) : List BandwidthIncrement := [⟨subscriptionID, .ingress, count⟩]

/-- A flush of one entry from its snapshot to its last acknowledged batch. -/
def flush : List Event := .flush :: List.replicate 6 (.advance .ok)

/-- Bytes of day 0 are flushed on day 1. -/
def nextDay : List Event :=
  ([.readClock (increment 5), .addBatch 0, .midnight] : List Event) ++ flush ++
    ([.advance .ok, .advance .ok] : List Event)

/-- An add reads the clock on day 0 and takes the lock after the flush's
snapshot; midnight passes before the prune. -/
def overtaken : List Event :=
  ([.readClock (increment 5), .addBatch 0, .readClock (increment 3)] : List Event) ++ flush ++
    ([.addBatch 0, .midnight, .advance .ok, .advance .ok] : List Event)

/-- The reporter after a run. -/
def after (events : List Event) : Reporter := (exec step (start 0) events).getD (start 0)

theorem exec_after {events : List Event} (h : (exec step (start 0) events).isSome) :
    exec step (start 0) events = some (after events) := by
  obtain ⟨s, hs⟩ := Option.isSome_iff_exists.mp h
  rw [after, hs]
  rfl

end Sample

theorem prune_deletes_acknowledged_next_day :
    exec step (start 0) Sample.nextDay = some (Sample.after Sample.nextDay) ∧
    Prunes (Sample.after Sample.nextDay) (.advance .ok) ⟨Sample.subscriptionID, 0⟩ (5, 0) ∧
    (Sample.after Sample.nextDay).Acknowledged (⟨Sample.subscriptionID, 0⟩, (5, 0)) := by
  have hrun := @Sample.exec_after Sample.nextDay (by decide +kernel)
  have hprunes : Prunes (Sample.after Sample.nextDay) (.advance .ok)
      ⟨Sample.subscriptionID, 0⟩ (5, 0) :=
    ⟨.ok, 1, rfl, by decide +kernel, by decide +kernel, by decide⟩
  refine ⟨hrun, hprunes, ?_⟩
  exact prune_deletes_acknowledged (by decide +kernel) hrun (by decide +kernel) _ _ hprunes

/-- The prune deletes eight bytes of day 0 of which five were ever sent. -/
theorem prune_deletes_overtaken_add :
    exec step (start 0) Sample.overtaken = some (Sample.after Sample.overtaken) ∧
    Prunes (Sample.after Sample.overtaken) (.advance .ok) ⟨Sample.subscriptionID, 0⟩ (8, 0) ∧
    ¬ (Sample.after Sample.overtaken).Acknowledged (⟨Sample.subscriptionID, 0⟩, (8, 0)) := by
  refine ⟨Sample.exec_after (by decide +kernel),
    ⟨.ok, 1, rfl, by decide +kernel, by decide +kernel, by decide⟩, ?_⟩
  unfold Acknowledged
  decide +kernel

/-! ## the totals of a boot never go back -/

/-- Entries that hold at least what was reported, or that lost the key to a
prune. -/
def Covers (pruned : List ℤ) (entries : BandwidthEntries) (r : DailyBandwidthReport) : Prop :=
  (∃ t, entries.lookup r.1 = some t ∧ r.2 ≤ t) ∨
    entries.lookup r.1 = none ∧ ∃ day ∈ pruned, r.1.day < day

theorem Covers.of_lookup {pruned : List ℤ} {entries entries' : BandwidthEntries}
    {r : DailyBandwidthReport} (h : Covers pruned entries r)
    (heq : entries'.lookup r.1 = entries.lookup r.1) : Covers pruned entries' r := by
  unfold Covers
  rw [heq]
  exact h

/-- The file of a snapshot holds what the entries held. -/
theorem Covers.ledger {pruned : List ℤ} {entries : BandwidthEntries} {r : DailyBandwidthReport}
    (h : Covers pruned entries r) (sequence : ℕ) :
    Covers pruned (BandwidthLedger.entries ⟨sequence, snapshot entries⟩) r := by
  refine h.of_lookup (Table.lookup_ofRows (fun x => ?_) r.1)
  rw [snapshot, List.mem_insertionSort]

/-- A prune keeps what is covered. -/
theorem Covers.prune {pruned : List ℤ} {entries : BandwidthEntries} {r : DailyBandwidthReport}
    (h : Covers pruned entries r) (day : ℤ) :
    Covers (day :: pruned) (pruneBefore entries day) r := by
  unfold Covers
  rw [lookup_pruneBefore]
  by_cases hday : r.1.day < day
  · rw [if_pos hday]
    exact .inr ⟨rfl, day, List.mem_cons_self, hday⟩
  · rw [if_neg hday]
    refine h.imp_right fun hnone => ⟨hnone.1, ?_⟩
    obtain ⟨d, hd, hlt⟩ := hnone.2
    exact ⟨d, List.mem_cons_of_mem _ hd, hlt⟩

theorem Covers.mono {pruned pruned' : List ℤ} {entries : BandwidthEntries}
    {r : DailyBandwidthReport} (h : Covers pruned entries r) (hsub : ∀ d ∈ pruned, d ∈ pruned') :
    Covers pruned' entries r :=
  h.imp_right fun hnone => ⟨hnone.1, hnone.2.imp fun _ hd => ⟨hsub _ hd.1, hd.2⟩⟩

/-- So does an add that no prune overtook. -/
theorem Covers.addBatch {pruned : List ℤ} {entries entries' : BandwidthEntries}
    {r : DailyBandwidthReport} {is : List BandwidthIncrement} {day : ℤ}
    (h : Covers pruned entries r) (hok : Relay.addBatch entries is day = .ok entries')
    (htimely : ∀ k ∈ addedKeys is day, ∀ d ∈ pruned, d ≤ k.day) : Covers pruned entries' r := by
  obtain ⟨hsame, hgrow⟩ := addBatch_ok hok
  cases h with
  | inl hsome =>
      obtain ⟨t, ht, hle⟩ := hsome
      obtain ⟨t', ht', hle'⟩ := hgrow r.1 t ht
      exact .inl ⟨t', ht', le_trans hle hle'⟩
  | inr hnone =>
      obtain ⟨hnone, d, hd, hlt⟩ := hnone
      right
      refine ⟨?_, d, hd, hlt⟩
      rw [hsame r.1 fun hmem => absurd (htimely r.1 hmem d hd) (not_le.mpr hlt)]
      exact hnone

/-- The report was handed to `send`. -/
def Sent (s : Reporter) (r : DailyBandwidthReport) : Prop :=
  ∃ batch ∈ s.sent, r ∈ batch.reports

/-- The report was handed to `send`, or will be by the flush under way. -/
def Reported (s : Reporter) (r : DailyBandwidthReport) : Prop :=
  s.Sent r ∨ r ∈ s.phase.task.unsent

/-- Everything reported is backed by the entries and, before it is sent, by the
ledger file; what the flush still has to send is not below what was sent. -/
structure Backed (s : Reporter) : Prop where
  memory : ∀ r, s.Reported r → Covers s.pruned s.entries r
  file : ∀ r, s.Sent r → Covers s.pruned s.file.entries r
  storing : ∀ ledger next, s.phase = .store ledger next →
    ∀ r, s.Reported r → Covers s.pruned ledger.entries r
  sending : ∀ batch reports, s.phase = .run (.send batch reports) →
    ∀ r, s.Reported r → Covers s.pruned s.file.entries r
  rising : ∀ r, s.Sent r → ∀ r' ∈ s.phase.task.unsent, r.1 = r'.1 → r.2 ≤ r'.2
  single : ∀ r ∈ s.phase.task.unsent, ∀ r' ∈ s.phase.task.unsent, r.1 = r'.1 → r.2 = r'.2

theorem start_backed (today : ℤ) : (start today).Backed := by
  constructor <;> simp [start, Reported, Sent, Phase.task, Task.unsent]

/-- A flush that ends early promises nothing more. -/
theorem Backed.idle {s : Reporter} (h : s.Backed) {file : BandwidthLedger}
    (hfile : ∀ r, s.Sent r → Covers s.pruned file.entries r) :
    ({ s with file := file, phase := .run .idle } : Reporter).Backed where
  memory r hr := by
    cases hr with
    | inl hsent => exact h.memory r (.inl hsent)
    | inr hunsent => cases hunsent
  file := hfile
  storing _ _ hphase := by cases hphase
  sending _ _ hphase := by cases hphase
  rising _ _ _ hr' := by cases hr'
  single _ hr := by cases hr

/-- A batch that is sent is backed by the file that was just stored. -/
theorem Backed.send {s : Reporter} (h : s.Backed) {batch reports : List DailyBandwidthReport}
    (hphase : s.phase = .run (.send batch reports)) (acknowledged : Bool) :
    ({ s with
      sent := ⟨s.sequence, batch, acknowledged⟩ :: s.sent
      phase := .run (.loop reports) } : Reporter).Backed := by
  have hunsent : s.phase.task.unsent = batch ++ reports := by rw [hphase]; rfl
  have hsent : ∀ r, (∃ b ∈ (⟨s.sequence, batch, acknowledged⟩ : SentBatch) :: s.sent,
      r ∈ b.reports) → r ∈ batch ∨ s.Sent r := by
    rintro r ⟨b, hb, hr⟩
    cases List.mem_cons.mp hb with
    | inl heq =>
        subst heq
        exact .inl hr
    | inr hb => exact .inr ⟨b, hb, hr⟩
  have hreported : ∀ r, r ∈ batch ∨ s.Sent r → s.Reported r := by
    rintro r (hr | hr)
    · exact .inr (hunsent ▸ List.mem_append_left _ hr)
    · exact .inl hr
  constructor
  · intro r hr
    cases hr with
    | inl hr => exact h.memory r (hreported r (hsent r hr))
    | inr hr => exact h.memory r (.inr (hunsent ▸ List.mem_append_right _ hr))
  · intro r hr
    exact h.sending batch reports hphase r (hreported r (hsent r hr))
  · intro ledger next hnext
    cases hnext
  · intro batch' reports' hnext
    cases hnext
  · intro r hr r' hr' hkey
    have hmem : r' ∈ s.phase.task.unsent := hunsent ▸ List.mem_append_right _ hr'
    cases hsent r hr with
    | inl hbatch =>
        have hr : r ∈ s.phase.task.unsent := hunsent ▸ List.mem_append_left _ hbatch
        exact le_of_eq (h.single r hr r' hmem hkey)
    | inr hold => exact h.rising r hold r' hmem hkey
  · intro r hr r' hr' hkey
    exact h.single r (hunsent ▸ List.mem_append_right _ hr) r'
      (hunsent ▸ List.mem_append_right _ hr') hkey

/-- The flush goes on with the same reports to send. -/
theorem Backed.proceed {s : Reporter} (h : s.Backed) {sequence : ℕ} {phase : Phase}
    (hunsent : ∀ r ∈ phase.task.unsent, r ∈ s.phase.task.unsent)
    (hstore : ∀ ledger next, phase ≠ .store ledger next)
    (hsend : ∀ batch reports, phase ≠ .run (.send batch reports)) :
    ({ s with sequence := sequence, phase := phase } : Reporter).Backed where
  memory r hr := h.memory r (hr.imp_right (hunsent r))
  file := h.file
  storing ledger next hphase := absurd hphase (hstore ledger next)
  sending batch reports hphase := absurd hphase (hsend batch reports)
  rising r hr r' hr' hkey := h.rising r hr r' (hunsent r' hr') hkey
  single r hr r' hr' hkey := h.single r (hunsent r hr) r' (hunsent r' hr') hkey

theorem Backed.advance {s s' : Reporter} (h : s.Backed) (hstep : s.Advances s') : s'.Backed := by
  cases hstep with
  | persist hphase =>
      obtain ⟨hmemory, hfile, -, -, hrising, hsingle⟩ := h
      simp only [Reported, hphase] at hmemory hrising hsingle
      refine ⟨hmemory, hfile, fun ledger next hnext r hr => ?_, by simp, hrising, hsingle⟩
      cases hnext
      exact (hmemory r hr).ledger _
  | stored hphase =>
      have hstoring := h.storing _ _ hphase
      obtain ⟨hmemory, -, -, -, hrising, hsingle⟩ := h
      simp only [Reported, hphase] at hmemory hrising hsingle hstoring
      exact ⟨hmemory, fun r hr => hstoring r (.inl hr), by simp, fun _ _ _ r hr => hstoring r hr,
        hrising, hsingle⟩
  | storeFailed hphase hfile =>
      apply h.idle
      cases hfile with
      | inl hledger =>
          subst hledger
          exact fun r hr => h.storing _ _ hphase r (.inl hr)
      | inr hsame =>
          subst hsame
          exact h.file
  | drained hphase =>
      exact h.proceed (by simp [Phase.task, Task.unsent]) (by simp) (by simp)
  | exhausted hphase => exact h.idle h.file
  | numbered hphase =>
      refine h.proceed (fun r hr => ?_) (by simp) (by simp)
      rw [hphase]
      have hmem : r ∈ List.take 1000 _ ++ List.drop 1000 _ := hr
      rw [List.take_append_drop] at hmem
      exact hmem
  | acknowledged hphase => exact h.send hphase true
  | sendFailed hphase => exact (h.send hphase false).idle (h.send hphase false).file
  | readClock hphase =>
      exact h.proceed (by simp [Phase.task, Task.unsent]) (by simp) (by simp)
  | prune hphase =>
      constructor
      · intro r hr
        cases hr with
        | inl hsent => exact (h.memory r (.inl hsent)).prune _
        | inr hunsent => cases hunsent
      · exact fun r hr => (h.file r hr).mono fun d hd => List.mem_cons_of_mem _ hd
      · intro ledger next hnext
        cases hnext
      · intro batch reports hnext
        cases hnext
      · intro r _ r' hr'
        cases hr'
      · intro r hr
        cases hr

/-- The add that takes the lock was not overtaken by a prune of its day. -/
def Timely (s : Reporter) : Event → Prop
  | .addBatch waiting => ∀ add ∈ s.adds[waiting]?, ∀ k ∈ addedKeys add.2 add.1,
      ∀ day ∈ s.pruned, day ≤ k.day
  | _ => True

instance (s : Reporter) (e : Event) : Decidable (Timely s e) := by
  unfold Timely
  split
  · infer_instance
  · exact isTrue trivial

theorem Backed.step {s s' : Reporter} {e : Event} (h : s.Backed) (htimely : Timely s e)
    (hstep : s.step e = some s') : s'.Backed := by
  cases e with
  | midnight =>
      cases hstep
      exact ⟨h.memory, h.file, h.storing, h.sending, h.rising, h.single⟩
  | readClock increments =>
      cases hstep
      exact ⟨h.memory, h.file, h.storing, h.sending, h.rising, h.single⟩
  | addBatch waiting =>
      obtain ⟨add, hadd, rfl⟩ := Option.map_eq_some_iff.mp hstep
      cases hbatch : Relay.addBatch s.entries add.2 add.1 with
      | error e => exact ⟨h.memory, h.file, h.storing, h.sending, h.rising, h.single⟩
      | ok entries =>
          refine ⟨fun r hr => ?_, h.file, h.storing, h.sending, h.rising, h.single⟩
          exact (h.memory r hr).addBatch hbatch (htimely add hadd)
  | flush =>
      unfold Reporter.step at hstep
      dsimp only at hstep
      split at hstep
      · rename_i hidle
        cases hstep
        have htaken : ∀ r ∈ (if snapshot s.entries = [] then Task.idle
            else .loop (snapshot s.entries)).unsent, s.entries.lookup r.1 = some r.2 := by
          intro r hr
          split at hr
          · cases hr
          · exact mem_snapshot.mp hr
        constructor
        · intro r hr
          cases hr with
          | inl hsent => exact h.memory r (.inl hsent)
          | inr hr => exact .inl ⟨r.2, htaken r hr, le_rfl⟩
        · exact h.file
        · intro ledger next hnext
          cases hnext
        · intro batch reports hnext
          cases hnext
        · intro r hr r' hr' hkey
          -- what was sent is covered by the entry the snapshot read
          have hr' := htaken r' hr'
          rw [← hkey] at hr'
          cases h.memory r (.inl hr) with
          | inl hsome =>
              obtain ⟨t, ht, hle⟩ := hsome
              rw [ht] at hr'
              cases hr'
              exact hle
          | inr hnone =>
              rw [hnone.1] at hr'
              cases hr'
        · intro r hr r' hr' hkey
          have hr := htaken r hr
          rw [hkey, htaken r' hr'] at hr
          exact (Option.some.inj hr).symm
      · cases hstep
  | advance outcome => exact h.advance (advances_of_advance hstep)
  | restart =>
      unfold Reporter.step at hstep
      dsimp only at hstep
      split at hstep
      · cases hstep
        constructor
        · intro r hr
          cases hr with
          | inl hsent => exact h.file r hsent
          | inr hunsent => cases hunsent
        · exact h.file
        · intro ledger next hnext
          cases hnext
        · intro batch reports hnext
          cases hnext
        · intro r _ r' hr'
          cases hr'
        · intro r hr
          cases hr
      · cases hstep

/-- Every batch gets a sequence above all batches before it, stored before it is
sent. -/
structure Numbered (s : Reporter) : Prop where
  sent : ∀ batch ∈ s.sent, batch.sequence ≤ s.file.sequence
  file : s.file.sequence ≤ s.sequence
  storing : ∀ ledger next, s.phase = .store ledger next → ledger.sequence = s.sequence
  sending : ∀ batch reports, s.phase = .run (.send batch reports) →
    s.file.sequence = s.sequence
  fresh : ∀ batch reports, s.phase.task = .send batch reports →
    ∀ earlier ∈ s.sent, earlier.sequence < s.sequence
  increasing : s.sent.Pairwise fun newer older => older.sequence < newer.sequence

theorem start_numbered (today : ℤ) : (start today).Numbered := by
  constructor <;> simp [start, Phase.task]

/-- The flush goes on without a batch of its own. -/
theorem Numbered.proceed {s : Reporter} (h : s.Numbered) {phase : Phase}
    (hstore : ∀ ledger next, phase ≠ .store ledger next)
    (hsend : ∀ batch reports, phase.task ≠ .send batch reports) :
    ({ s with phase := phase } : Reporter).Numbered where
  sent := h.sent
  file := h.file
  storing ledger next hphase := absurd hphase (hstore ledger next)
  sending batch reports hphase := by
    refine absurd ?_ (hsend batch reports)
    rw [show phase = _ from hphase, Phase.task]
  fresh batch reports hphase := absurd hphase (hsend batch reports)
  increasing := h.increasing

theorem Numbered.send {s : Reporter} (h : s.Numbered) {batch reports : List DailyBandwidthReport}
    (hphase : s.phase = .run (.send batch reports)) (acknowledged : Bool) (next : Task)
    (hnext : ∀ batch reports, next ≠ .send batch reports) :
    ({ s with
      sent := ⟨s.sequence, batch, acknowledged⟩ :: s.sent
      phase := .run next } : Reporter).Numbered := by
  have hfresh := h.fresh batch reports (by rw [hphase, Phase.task])
  constructor
  · intro b hmem
    cases List.mem_cons.mp hmem with
    | inl heq =>
        subst heq
        exact (h.sending batch reports hphase).ge
    | inr hmem => exact h.sent b hmem
  · exact h.file
  · intro ledger task hstore
    cases hstore
  · intro b rs hrun
    exact absurd (Phase.run.inj hrun) (hnext b rs)
  · intro b rs hrun
    exact absurd hrun (hnext b rs)
  · exact List.pairwise_cons.mpr ⟨hfresh, h.increasing⟩

theorem Numbered.advance {s s' : Reporter} (h : s.Numbered) (hstep : s.Advances s') :
    s'.Numbered := by
  cases hstep with
  | persist hphase =>
      refine ⟨h.sent, h.file, fun ledger next hnext => ?_, by simp, fun batch reports htask => ?_,
        h.increasing⟩
      · cases hnext
        rfl
      · exact h.fresh batch reports (by rw [hphase]; exact htask)
  | stored hphase =>
      have hseq := h.storing _ _ hphase
      refine ⟨fun batch hmem => ?_, hseq.le, by simp, fun _ _ _ => hseq,
        fun batch reports htask => ?_, h.increasing⟩
      · rw [hseq]
        exact le_trans (h.sent batch hmem) h.file
      · exact h.fresh batch reports (by rw [hphase]; exact htask)
  | storeFailed hphase hfile =>
      have hseq := h.storing _ _ hphase
      have hle : ∀ batch ∈ s.sent, batch.sequence ≤ s.sequence := fun batch hmem =>
        le_trans (h.sent batch hmem) h.file
      refine ⟨fun batch hmem => ?_, ?_, by simp, by simp, by simp [Phase.task], h.increasing⟩
      · cases hfile with
        | inl hledger => rw [hledger, hseq]; exact hle batch hmem
        | inr hsame => rw [hsame]; exact h.sent batch hmem
      · cases hfile with
        | inl hledger => rw [hledger, hseq]
        | inr hsame => rw [hsame]; exact h.file
  | drained => exact h.proceed (by simp) (by simp [Phase.task])
  | exhausted => exact h.proceed (by simp) (by simp [Phase.task])
  | numbered =>
      refine ⟨h.sent, le_trans h.file (Nat.le_succ _), by simp, by simp,
        fun batch reports _ earlier hmem => ?_, h.increasing⟩
      exact Nat.lt_succ_of_le (le_trans (h.sent earlier hmem) h.file)
  | acknowledged hphase => exact h.send hphase true _ (by simp)
  | sendFailed hphase => exact h.send hphase false _ (by simp)
  | readClock => exact h.proceed (by simp) (by simp [Phase.task])
  | prune => exact ⟨h.sent, h.file, by simp, by simp, by simp [Phase.task], h.increasing⟩

theorem Numbered.step {s s' : Reporter} {e : Event} (h : s.Numbered)
    (hstep : s.step e = some s') : s'.Numbered := by
  cases e with
  | midnight =>
      cases hstep
      exact ⟨h.sent, h.file, h.storing, h.sending, h.fresh, h.increasing⟩
  | readClock increments =>
      cases hstep
      exact ⟨h.sent, h.file, h.storing, h.sending, h.fresh, h.increasing⟩
  | addBatch waiting =>
      obtain ⟨add, hadd, rfl⟩ := Option.map_eq_some_iff.mp hstep
      cases hbatch : Relay.addBatch s.entries add.2 add.1 with
      | error e => exact ⟨h.sent, h.file, h.storing, h.sending, h.fresh, h.increasing⟩
      | ok entries => exact ⟨h.sent, h.file, h.storing, h.sending, h.fresh, h.increasing⟩
  | flush =>
      unfold Reporter.step at hstep
      dsimp only at hstep
      split at hstep
      · cases hstep
        refine ⟨h.sent, h.file, by simp, by simp, fun batch reports htask => ?_, h.increasing⟩
        rw [Phase.task] at htask
        split at htask <;> cases htask
      · cases hstep
  | advance outcome => exact h.advance (advances_of_advance hstep)
  | restart =>
      unfold Reporter.step at hstep
      dsimp only at hstep
      split at hstep
      · cases hstep
        exact ⟨h.sent, le_rfl, by simp, by simp, by simp [Phase.task], h.increasing⟩
      · cases hstep

/-- A later batch never reports less for a key. -/
def Rising (s : Reporter) : Prop :=
  ∀ older ∈ s.sent, ∀ newer ∈ s.sent, older.sequence < newer.sequence →
    ∀ r ∈ older.reports, ∀ r' ∈ newer.reports, r.1 = r'.1 → r.2 ≤ r'.2

theorem Rising.send {s : Reporter} (h : s.Rising) (hb : s.Backed) (hn : s.Numbered)
    {batch reports : List DailyBandwidthReport} (hphase : s.phase = .run (.send batch reports))
    {s' : Reporter} {acknowledged : Bool}
    (hsent : s'.sent = ⟨s.sequence, batch, acknowledged⟩ :: s.sent) : s'.Rising := by
  have hfresh := hn.fresh batch reports (by rw [hphase, Phase.task])
  intro older holder newer hnewer hlt r hr r' hr' hkey
  rw [hsent] at holder hnewer
  cases List.mem_cons.mp holder with
  | inl heq =>
      -- nothing was sent after the batch
      subst heq
      cases List.mem_cons.mp hnewer with
      | inl heq' => rw [heq'] at hlt; exact absurd hlt (lt_irrefl _)
      | inr hnewer => exact absurd hlt (not_lt.mpr (le_of_lt (hfresh newer hnewer)))
  | inr holder =>
      cases List.mem_cons.mp hnewer with
      | inl heq =>
          subst heq
          refine hb.rising r ⟨older, holder, hr⟩ r' ?_ hkey
          rw [hphase]
          exact List.mem_append_left _ hr'
      | inr hnewer => exact h older holder newer hnewer hlt r hr r' hr' hkey

theorem Rising.step {s s' : Reporter} {e : Event} (h : s.Rising) (hb : s.Backed)
    (hn : s.Numbered) (hstep : s.step e = some s') : s'.Rising := by
  cases e with
  | midnight => cases hstep; exact h
  | readClock increments => cases hstep; exact h
  | addBatch waiting =>
      obtain ⟨add, hadd, rfl⟩ := Option.map_eq_some_iff.mp hstep
      cases hbatch : Relay.addBatch s.entries add.2 add.1 <;> exact h
  | flush =>
      unfold Reporter.step at hstep
      dsimp only at hstep
      split at hstep
      · cases hstep; exact h
      · cases hstep
  | advance outcome =>
      cases advances_of_advance hstep with
      | acknowledged hphase => exact h.send hb hn hphase rfl
      | sendFailed hphase => exact h.send hb hn hphase rfl
      | _ => exact h
  | restart =>
      unfold Reporter.step at hstep
      dsimp only at hstep
      split at hstep
      · cases hstep; exact h
      · cases hstep

/-- What an unovertaken relay keeps. -/
structure Monotone (s : Reporter) : Prop where
  backed : s.Backed
  numbered : s.Numbered
  rising : s.Rising

theorem start_monotone (today : ℤ) : (start today).Monotone where
  backed := start_backed today
  numbered := start_numbered today
  rising := by simp [Rising, start]

theorem Monotone.step {s s' : Reporter} {e : Event} (h : s.Monotone) (htimely : Timely s e)
    (hstep : s.step e = some s') : s'.Monotone where
  backed := h.backed.step htimely hstep
  numbered := h.numbered.step hstep
  rising := h.rising.step h.backed h.numbered hstep

end Reporter

end Relay
