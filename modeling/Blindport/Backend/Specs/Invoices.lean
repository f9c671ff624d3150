import Blindport.Backend.Specs.Settlement

/-!
# Blindport.Backend.Specs.Invoices

Invoices: the durable outbox of LND, and the single creation attempt of LNURL.

A session that publishes the marker of an attempt has one entry by which a latch
was set and not yet used (`Unspent`); the request that follows uses it.
-/

namespace Backend

open Conc Conc.Discipline

variable {n i : Nat} {A : World → Prop}

/-! ## latches -/

/-- Session `i` has set the latch of the payment once more than it has used it. -/
def Unspent (i pid : Nat) (use : Event → Bool) (on : Payment → Bool) (g : World) : Prop :=
  countBy Event.thread use i g.history <
    countBy Event.thread (Event.flips on pid) i g.history

theorem countBy_append (p : Event → Bool) (i : Nat) (l h : List Event) :
    countBy Event.thread p i (l ++ h) =
      countBy Event.thread p i l + countBy Event.thread p i h := by
  simp [countBy, List.countP_append]

theorem countBy_foreign (p : Event → Bool) {i : Nat} {l : List Event}
    (hl : ∀ e ∈ l, e.thread ≠ i) : countBy Event.thread p i l = 0 := by
  unfold countBy
  rw [List.countP_eq_zero]
  intro e he
  simp [hl e he]

theorem Unspent.stable (pid : Nat) (use : Event → Bool) (on : Payment → Bool) :
    (discipline n).Stable i (Unspent i pid use on) := by
  intro j g g' hj hg hmove h
  obtain ⟨l, hl, hthread⟩ := Move.history hmove
  have hne : ∀ e ∈ l, e.thread ≠ i := fun e he => (hthread e he).trans_ne hj
  unfold Unspent
  rw [hl, countBy_append, countBy_append, countBy_foreign _ hne, countBy_foreign _ hne]
  simpa [Unspent] using h

/-- Publishing the marker sets the latch. -/
theorem unspent_commit {pid : Nat} {use : Event → Bool} {on : Payment → Bool} {g : World}
    {c r : Payment} (hg : Inv n g) (hcell : g.payments.cell pid = ⟨some c, some (i, r)⟩)
    (hoff : on c = false) (hon : on r = true)
    (huse : ∀ j q old new, use (.published j q old new) = false)
    (hcov : Covered Event.thread use (Event.flips on pid) g.history) :
    Unspent i pid use on (g.commit i) := by
  have hle := hcov.le i
  have hzero : countBy Event.thread use i (g.published i) = 0 := by
    unfold countBy
    rw [List.countP_eq_zero]
    intro e he
    obtain ⟨q, -, hv⟩ := List.mem_filterMap.mp he
    obtain ⟨r', -, rfl⟩ := version_eq_some hv
    simp [huse]
  have hpos : 0 < countBy Event.thread (Event.flips on pid) i (g.published i) := by
    unfold countBy
    rw [List.countP_pos_iff]
    refine ⟨.published i pid (some c) r, ?_, by simp [Event.thread, Event.flips, hoff, hon]⟩
    refine List.mem_filterMap.mpr ⟨pid, ?_, ?_⟩
    · rw [List.mem_range]
      have hv : g.payments.get i pid = some r := by simp [Table.get, hcell]
      exact hg.lt_next hv
    · simp [World.version, hcell]
  have hhist : (g.commit i).history = g.published i ++ g.history := rfl
  unfold Unspent
  rw [hhist, countBy_append, countBy_append]
  omega

/-- The commit of a marker. -/
theorem commit_marker {pid : Nat} {s : PaymentUpdate} {use : Event → Bool} {on : Payment → Bool}
    (hs : ∀ h c row, Calm h c row → s.selects row = true → on c = false ∧ on (s.set row) = true)
    (huse : ∀ j q old new, use (.published j q old new) = false)
    (hcov : ∀ h, WellFormed n h → Covered Event.thread use (Event.flips on pid) h) :
    Spec n i (Wrote i pid s) (commit i) fun _ g => Unspent i pid use on g ∧ Idle i g := by
  refine Triple.atomic Wrote.passive.stable fun ω g g' b hg h hf => ?_
  simp only [Option.some.injEq, Prod.mk.injEq] at hf
  obtain ⟨rfl, -⟩ := hf
  obtain ⟨c, row, hcell, hsel, hcalm, -⟩ := h.row
  obtain ⟨hoff, hon⟩ := hs g.history c row hcalm hsel
  exact ⟨.commit h.sober.commitOk, unspent_commit hg hcell hoff hon huse (hcov _ hg.wf),
    idle_commit g⟩

/-! ## adapter calls -/

/-- A call that leaves an entry about which nothing needs to be known. -/
theorem call_idle {α : Type} {f : Input → α} {e : α → Event} (ht : ∀ a, (e a).thread = i)
    (hskip : ∀ a pid, (e a).Skips pid) (hok : ∀ a h, EventOk n h (e a))
    (hload : ∀ a pid sub, e a ≠ .settling i pid sub) :
    Spec n i (Idle i) (call f e) fun a g => Recorded (e a) g ∧ Idle i g := by
  refine Triple.atomic Idle.stable fun ω g g' b hg h hf => ?_
  simp only [Option.some.injEq, Prod.mk.injEq] at hf
  obtain ⟨rfl, rfl⟩ := hf
  exact ⟨.note (ht _) (hskip _) (hok _ _) fun pid sub heq => absurd heq (hload _ pid sub),
    List.mem_cons_self, h.note _⟩

/-! ## LND -/

namespace Keeps

theorem boundedInvoiceExpiry (hA : Passive n i A) (cfg : Settings) (deadline : Option Datetime) :
    Keeps n i A (Backend.boundedInvoiceExpiry cfg i deadline) := by
  unfold Backend.boundedInvoiceExpiry
  cases deadline with
  | none => exact .pure _
  | some deadline => exact .bind (.utcnow hA) fun now => .ite (.raise _) (.pure _)

theorem localExpiry (hA : Passive n i A) (deadline : Option Datetime) (seconds : Int) :
    Keeps n i A (Backend.localExpiry i deadline seconds) :=
  .bind (.utcnow hA) fun _ => .pure _

end Keeps

/-- A statement that is committed when it hits. -/
theorem observe_spec {pid : Nat} {s : PaymentUpdate} {F : World → Prop}
    (hF : (discipline n).Durable F) (hs : ∀ paidAt v, s ≠ .settle paidAt v)
    (hok : ∀ g row, Inv n g → F g → Seen pid row g → s.selects row = true →
      StatementOk n i pid g.history row s) :
    Spec n i (fun g => F g ∧ Idle i g) (observe i pid s) (Returns i) :=
  (conditional_spec (b := pure ()) hF (R := fun _ => True) (fun _ _ _ _ _ _ => trivial) hs hok
    (fun _ _ _ _ _ _ _ => trivial) (fun _ _ _ _ => trivial) fun _ => .pure _).mono
      fun _ _ _ h => ⟨h.2.2.known, h.2.1⟩

theorem bindInvoice_spec (app : App) (payment : Payment) (invoice : Invoice) :
    Spec n i (Idle i) (bindInvoice app i payment invoice) (Returns i) := by
  unfold bindInvoice
  split
  · exact .raise _
  · refine Spec.bind (Keeps.utcnow Idle.passive) fun now => ?_
    refine Spec.bind (Keeps.getSubscription Idle.passive _) fun sub => ?_
    cases sub with
    | none => exact .raise _
    | some sub =>
        refine Spec.pre (observe_spec (F := fun _ => True) (fun _ _ _ _ _ _ => trivial) (by simp)
          fun _ _ _ _ _ _ => trivial) fun g _ h => ⟨trivial, h⟩

/-! ## LNURL -/

theorem storeLnurlInvoice_spec (pid : Nat) (invoice : Invoice) (expiresAt : Datetime) :
    Spec n i (Idle i) (storeLnurlInvoice i pid invoice expiresAt) fun _ => Sober i := by
  unfold storeLnurlInvoice
  refine Spec.bind (Q := fun _ => Idle i) ?_ fun taken => ?_
  · refine Keeps.gentle Idle.passive fun ω g g' b hg h => ?_
    simp only [Option.map_eq_some_iff, Prod.mk.injEq] at h
    obtain ⟨_, -, rfl, -⟩ := h
    exact gentle_same g g.leases g.users
  · split
    · exact .raise _
    · refine Spec.bind (Spec.pre (execute_idle (F := fun _ => True) (fun _ _ _ _ _ _ => trivial)
        (by simp) fun _ _ _ _ _ _ => trivial) fun g _ h => ⟨trivial, h⟩) fun hit => ?_
      refine Spec.pure fun g _ h => ?_
      cases hit with
      | true => exact h.2.sober
      | false => exact h.2.1.sober

/-- The commit of the single creation attempt. -/
theorem commit_claimLnurl (pid : Nat) (now : Datetime) :
    Spec n i (Wrote i pid (.claimLnurl now)) (commit i) fun _ g =>
      Unspent i pid (Event.isLnurlCreate pid) Payment.lnurlClaimed g ∧ Idle i g := by
  refine commit_marker ?_ (fun _ _ _ _ => rfl) fun _ hwf => hwf.covered_creates
  intro h c row hcalm hsel
  obtain ⟨u, rfl, -⟩ := hcalm
  simp only [PaymentUpdate.selects, decide_eq_true_eq] at hsel
  refine ⟨?_, rfl⟩
  simpa [Payment.lnurlClaimed, Unsent.flush] using hsel.2.2

/-- The request that uses the attempt. -/
theorem lnurlCreate_spec (pid : Nat) :
    Spec n i (fun g => Unspent i pid (Event.isLnurlCreate pid) Payment.lnurlClaimed g ∧ Idle i g)
      (call Input.lnurlInvoice fun _ => .lnurlCreate i pid) fun _ => Idle i := by
  refine Triple.atomic ((Unspent.stable _ _ _).and Idle.stable) fun ω g g' b hg h hf => ?_
  simp only [Option.some.injEq, Prod.mk.injEq] at hf
  obtain ⟨rfl, -⟩ := hf
  exact ⟨.note rfl (fun _ _ _ _ => by simp) h.1 (by simp), h.2.note _⟩

/-- An unconditional or throttling statement whose result does not matter. -/
theorem execute_commit_spec {α : Type} {pid : Nat} {s : PaymentUpdate} {F : World → Prop}
    {k : Bool → Db α} {Q : α → World → Prop} (hF : (discipline n).Durable F)
    (hs : ∀ paidAt v, s ≠ .settle paidAt v)
    (hok : ∀ g row, Inv n g → F g → Seen pid row g → s.selects row = true →
      StatementOk n i pid g.history row s)
    (hk : ∀ hit, Spec n i (fun g => F g ∧ Idle i g) (k hit) Q) :
    Spec n i (fun g => F g ∧ Idle i g)
      (do
        let hit ← execute i pid s
        commit i
        k hit) Q := by
  refine Spec.bind (execute_idle hF hs hok) fun hit => ?_
  refine Spec.bind (Q := fun _ g => F g ∧ Idle i g) ?_ fun _ => hk hit
  refine (commit_sober.frame hF).pre fun g _ h => ⟨h.1, ?_⟩
  cases hit with
  | true => exact h.2.sober
  | false => exact h.2.1.sober

/-- What follows the creation of an LNURL invoice. -/
theorem storedInvoice_spec (pid : Nat) (invoice : Invoice) (deadline : Datetime) :
    Spec n i (Idle i)
      (do
        storeLnurlInvoice i pid invoice deadline
        commit i
        let payment ← reloadPayment i pid
        match payment.expiresAt with
        | none => .raise (.runtime "expires_at is not comparable")
        | some expiresAt =>
            let now ← utcnow i
            if expiresAt ≤ now ∧ payment.status = .pending then expirePayment i payment
            else pure payment) (Returns i) := by
  refine Spec.bind (storeLnurlInvoice_spec pid invoice deadline) fun _ => ?_
  refine Spec.bind commit_sober fun _ => ?_
  refine Spec.bind (reload_returns pid) fun payment => ?_
  have hA := (Passive.of_durable (n := n) (i := i) (Known.durable payment)).and Idle.passive
  split
  · exact .raise _
  · refine Spec.bind (Keeps.utcnow hA) fun now => ?_
    split
    · exact (expirePayment_returns payment).pre fun g _ h => ⟨h.1.exists, h.2⟩
    · exact .pure fun _ _ h => h

theorem ensureLnurlInvoice_spec (payment : Payment) :
    Spec n i (Returns i payment) (ensureLnurlInvoice i payment) (Returns i) := by
  have hA := (Passive.of_durable (n := n) (i := i) (Known.durable payment)).and Idle.passive
  unfold ensureLnurlInvoice
  split
  · exact .raise _
  · refine Spec.bind (Keeps.utcnow hA) fun now => ?_
    split
    · exact (expirePayment_returns payment).pre fun g _ h => ⟨h.1.exists, h.2⟩
    · refine Spec.bind (Keeps.utcnow hA) fun now => ?_
      refine Spec.bind (execute_idle (Known.durable payment) (by simp)
        fun _ _ _ _ _ _ => trivial) fun claimed => ?_
      cases claimed with
      | false =>
          refine Spec.bind (commit_idle.pre fun g _ h => h.2.1) fun _ => ?_
          simp only [Bool.false_eq_true, not_false_eq_true, if_true]
          refine Spec.bind (Keeps.utcnow Idle.passive) fun now => ?_
          refine Spec.pre (execute_commit_spec (F := fun _ => True)
            (fun _ _ _ _ _ _ => trivial) (by simp) (fun _ _ _ _ _ _ => trivial)
            fun _ => (reload_returns _).pre fun g _ h => h.2) fun g _ h => ⟨trivial, h⟩
      | true =>
          refine Spec.bind ((commit_claimLnurl _ _).pre fun g _ h => h.2) fun _ => ?_
          simp only [not_true_eq_false, if_false]
          refine Spec.bind (lnurlCreate_spec payment.id) fun invoice => ?_
          cases invoice with
          | none => exact .raise _
          | some invoice => exact storedInvoice_spec _ _ _

/-! ## invoices on demand -/

theorem issueLndInvoice_spec (app : App) (payment : Payment) :
    Spec n i (Returns i payment) (issueLndInvoice app i payment) (Returns i) := by
  have hA := (Passive.of_durable (n := n) (i := i) (Known.durable payment)).and Idle.passive
  unfold issueLndInvoice
  refine Spec.bind (Keeps.getSubscription hA _) fun sub => ?_
  cases sub with
  | none => exact .raise _
  | some sub =>
      dsimp only
      split
      · exact .raise _
      · refine Spec.bind (Keeps.utcnow hA) fun now => ?_
        split
        · refine Spec.bind (Keeps.input hA _) fun found => ?_
          split
          · exact .raise _
          · refine Spec.tryCatch ?_ fun _ => .raise _
            exact (expirePayment_returns payment).pre fun g _ h => ⟨h.1.exists, h.2⟩
          · exact (bindInvoice_spec app payment _).pre fun g _ h => h.2
        · refine Spec.bind (Keeps.input hA _) fun created => ?_
          split
          · exact .raise _
          · exact (bindInvoice_spec app payment _).pre fun g _ h => h.2

theorem ensureLightningInvoice_spec (app : App) (payment : Payment) :
    Spec n i (fun g => (payment.method.lndBacked = false → Known payment g) ∧ Idle i g)
      (ensureLightningInvoice app i payment) (Returns i) := by
  unfold ensureLightningInvoice
  split
  · rename_i h
    exact .pure fun g _ hg => ⟨hg.1 (by simpa using h), hg.2⟩
  · refine Spec.bind ((reload_returns payment.id).pre fun g _ h => h.2) fun payment => ?_
    split
    · exact .pure fun _ _ h => h
    · split
      · exact ensureLnurlInvoice_spec payment
      · split
        · exact .raise _
        · refine Spec.bind ((lockPayment_spec payment.id).pre fun g _ h => h.2) fun payment => ?_
          refine Spec.pre (P := Returns i payment) ?_ fun g _ h => ⟨h.2.2.known, h.1⟩
          split
          · exact .pure fun _ _ h => h
          · exact issueLndInvoice_spec app payment

/-! ## the state of an invoice -/

theorem lnurlInvoiceState_spec (payment : Payment) :
    Spec n i (Idle i) (lndInvoiceState.lnurlInvoiceState i payment) fun state g =>
      Recorded (.lnurlState i payment.id state) g ∧ Idle i g := by
  refine Spec.bind (Q := fun o g => Idle i g ∧ ∀ state, o = some state →
    Recorded (.lnurlState i payment.id state) g) ?_ fun o => ?_
  · refine Triple.atomic Idle.stable fun ω g g' b hg h hf => ?_
    simp only [Option.some.injEq] at hf
    cases hs : ω.invoiceState with
    | none =>
        simp only [hs, Prod.mk.injEq] at hf
        obtain ⟨rfl, rfl⟩ := hf
        exact ⟨.stay g, h, by simp⟩
    | some state =>
        simp only [hs, Prod.mk.injEq] at hf
        obtain ⟨rfl, rfl⟩ := hf
        refine ⟨.note rfl (fun _ _ _ _ => by simp) trivial (by simp), h.note _, ?_⟩
        rintro s e
        obtain rfl := Option.some.inj e
        exact List.mem_cons_self
  · cases o with
    | none => exact .raise _
    | some state => exact .pure fun g _ h => ⟨h.2 state rfl, h.1⟩

theorem lndInvoiceState_spec (app : App) (payment : Payment) :
    Keeps n i (Idle i) (lndInvoiceState app i payment) := by
  unfold lndInvoiceState
  split
  · exact .raise _
  · split
    · split
      · exact .raise _
      · exact (lnurlInvoiceState_spec payment).mono fun _ _ _ h => h.2
    · split
      · exact .raise _
      · refine Keeps.bind (Keeps.input Idle.passive _) fun state => ?_
        cases state with
        | none => exact .raise _
        | some state => exact .pure _

end Backend
