import Blindport.Backend.Specs.Subscriptions
import Blindport.Backend.Payments

/-!
# Blindport.Backend.Specs.Settlement

Local expiry and settlement.  `settlePayment` is entered in three ways: for a
payment that is not LNURL (`settlePayment_known`), for an LNURL payment whose
settlement was verified under the row lock (`settlePayment_verified`), and for a
payment of nothing that the session has just inserted (`settlePayment_draft`).
Each leads to the same chain of assertions from the statement to the commit.
-/

namespace Backend

open Conc Conc.Discipline

variable {n i : Nat} {A : World → Prop}

/-! ## rows -/

theorem UnsentOk.advances {h : List Event} {p row : Payment} {u : Unsent} (hu : UnsentOk h p u)
    (hadv : Payment.Advances p row) : UnsentOk h row u where
  tried hpre := by
    obtain ⟨hpos, hinv⟩ := hu.tried hpre
    exact ⟨Nat.lt_of_lt_of_le hpos hadv.nwcAttempts, (hadv.invoice hinv).1 ▸ hinv⟩
  bare := hu.bare

theorem Exists.view {pid : Nat} {g : World} (h : Exists pid g) :
    ∃ row, g.payments.get i pid = some row := by
  obtain ⟨c, hc⟩ := h
  unfold Table.get Cell.view
  split
  · split
    · exact ⟨_, rfl⟩
    · exact ⟨c, hc⟩
  · exact ⟨c, hc⟩

theorem Known.closed {p : Payment} {g : World} (h : Known p g) (hs : p.status ≠ .pending) :
    Closed p.id g := by
  obtain ⟨-, c, hc, hadv⟩ := h
  exact ⟨c, hc, by rwa [hadv.status_eq hs]⟩

/-! ## unsent columns -/

/-- Sending wallet columns leaves an idle session idle. -/
theorem Idle.flush {g : World} (h : Idle i g) {pid : Nat} {row : Payment} {token : Option String}
    {u : Unsent} (hv : g.payments.get i pid = some row) (hu : UnsentOk g.history row u) :
    Idle i (g.executed i pid (.flushNwc token u) row) := by
  refine ⟨fun q r _ hr => ?_, h.steady, h.tame⟩
  by_cases e : q = pid
  · subst e
    simp only [World.executed, World.note, Table.set_cell_self, Cell.write_pending,
      Option.some.injEq, Prod.mk.injEq, true_and] at hr
    obtain ⟨c, hc, hcalm⟩ := h.view hv
    refine ⟨c, by simpa [World.executed, World.note] using hc, ?_⟩
    exact hr ▸ (hcalm.flush hu).cons _
  · simp only [World.executed, World.note, Table.set_cell_of_ne _ _ e] at hr ⊢
    obtain ⟨c, hc, hcalm⟩ := h.calm q r (by simp) hr
    exact ⟨c, hc, hcalm.cons _⟩

theorem sendUnsent_spec (payment : Payment) (unsent : Unsent) :
    Spec n i (fun g => (Known payment g ∧ UnsentOk g.history payment unsent) ∧ Idle i g)
      (sendUnsent i payment unsent) fun _ => Idle i := by
  have hF := (Known.durable (n := n) payment).and (UnsentOk.durable payment unsent)
  unfold sendUnsent
  split
  · exact .pure fun g _ h => h.2
  · refine Spec.bind (Q := fun _ => Idle i) (execute_spec (hF.stable.and Idle.stable) ?_ ?_)
      fun _ => .pure fun g _ h => h
    · rintro g row hg ⟨⟨hk, hu⟩, hidle⟩ hv hfree hsel
      have hu' := hu.advances (hk.advances_view hg hv)
      obtain ⟨c, hc, hcalm⟩ := hidle.view hv
      refine ⟨?_, hidle.flush hv hu'⟩
      simp only [ExecOk, hc]
      exact ⟨hcalm, hu'⟩
    · exact fun g _ h _ => h.2

/-! ## local expiry -/

namespace Keeps

theorem releaseExpired (hA : Passive n i A) (payment : Payment) :
    Keeps n i A (expirePayment.releaseExpired i payment) := by
  refine .bind (.getSubscription hA _) fun sub => ?_
  cases sub with
  | none => exact .pure _
  | some sub =>
      refine Spec.bind (releaseReservation_spec hA sub payment.id) fun o => ?_
      cases o with
      | none => exact .pure fun g _ h => h.1
      | some assigned =>
          refine Spec.pre (Spec.assume fun h => Keeps.flushSubscription hA h) ?_
          exact fun g _ h => ⟨h.2 assigned rfl, h.1⟩

end Keeps

/-- A statement that did not hit a pending payment found it closed. -/
theorem closed_of_miss {pid : Nat} {s : PaymentUpdate} {g : World} (hex : Exists pid g)
    (hs : ∀ row, row.status = .pending → s.selects row = true) (h : Hit i pid s false g) :
    Closed pid g := by
  obtain ⟨row, hv⟩ := hex.view (i := i)
  obtain ⟨c, hc, hcalm⟩ := h.1.view hv
  refine ⟨c, hc, fun hp => ?_⟩
  have := h.2 row hv
  rw [hs row (hcalm.status.trans hp)] at this
  contradiction

theorem expirePayment_spec (payment : Payment) :
    Spec n i (fun g => Exists payment.id g ∧ Idle i g) (expirePayment i payment) fun p g =>
      Closed payment.id g ∧ Idle i g ∧ Seen payment.id p g := by
  refine conditional_spec (Exists.durable payment.id) (Closed.durable payment.id) (by simp) ?_ ?_
    ?_ fun hA => .releaseExpired hA payment
  · exact fun _ _ _ _ _ _ => trivial
  · intro g row _ _ _ hid hk
    have := hk.closed (by simp [PaymentUpdate.set])
    rwa [PaymentUpdate.set_id, hid] at this
  · exact fun g _ hex h => closed_of_miss hex (by simp [PaymentUpdate.selects]) h

/-- What a function that returns a payment object leaves. -/
def Returns (i : Nat) (p : Payment) (g : World) : Prop := Known p g ∧ Idle i g

theorem expirePayment_returns (payment : Payment) :
    Spec n i (fun g => Exists payment.id g ∧ Idle i g) (expirePayment i payment) (Returns i) :=
  (expirePayment_spec payment).mono fun _ _ _ h => ⟨h.2.2.known, h.2.1⟩

theorem reload_returns (pid : Nat) : Spec n i (Idle i) (reloadPayment i pid) (Returns i) :=
  (reloadPayment_spec pid).mono fun _ _ _ h => ⟨h.2.known, h.1⟩

theorem expirePendingPayment_spec (payment : Payment) :
    Spec n i (Idle i) (expirePendingPayment i payment) (Returns i) := by
  refine Spec.bind (reload_returns payment.id) fun current => ?_
  split
  · exact .pure fun _ _ h => h
  · exact (expirePayment_returns current).pre fun g _ h => ⟨h.1.exists, h.2⟩

/-! ## the statements of a settlement -/

variable {pid : Nat} {r : Payment} {sub : Subscription}

/-- Session `i` has settled the payment and done nothing else; a new payment has not been
settled before. -/
structure Settling (i pid : Nat) (r : Payment) (g : World) : Prop where
  settled : Settled i pid r g
  steady : SteadyBut i none g
  unloaded : LoadedOnly pid (fun _ => False) g

theorem Settling.passive : Passive n i (Settling i pid r) where
  stable := by
    intro j g g' hj hg hmove h
    exact ⟨Settled.passive.stable hj hg hmove h.settled,
      SteadyBut.stable none hj hg hmove h.steady,
      h.unloaded.foreign hj hg hmove h.settled.earns.pending⟩
  quiet _ hq h := ⟨h.settled.quiet hq.toQuiet, h.steady.quiet hq.toQuiet,
    h.unloaded.quiet hq.toQuiet⟩
  silent he hg h := ⟨Settled.passive.silent he hg h.settled, h.steady, he.loadedOnly h.unloaded⟩

/-- The reload after the statement gives what it wrote. -/
theorem reload_settling : Spec n i (Settling i pid r) (reloadPayment i pid) fun p g =>
    p = r ∧ Settling i pid r g := by
  refine Spec.bind (Q := fun o g => o = some r ∧ Settling i pid r g) ?_ fun o => ?_
  · refine Triple.atomic Settling.passive.stable fun ω g g' b hg h hf => ?_
    simp only [Option.some.injEq, Prod.mk.injEq] at hf
    obtain ⟨rfl, rfl⟩ := hf
    exact ⟨.stay g, by simp [Table.get, h.settled.earns.pending], h⟩
  · cases o with
    | none => exact .raise _
    | some p => exact .pure fun g _ h => ⟨Option.some.inj h.1, h.2⟩

/-- The load of the subscription. -/
theorem loadSettling_spec : Spec n i (Settling i r.id r) (loadSettling i r) fun o g =>
    ∀ sub, o = some sub → Loaded i r.id r sub g := by
  refine Triple.atomic Settling.passive.stable fun ω g g' b hg h hf => ?_
  simp only [Option.some.injEq] at hf
  cases hv : g.subscriptions.get i r.subscriptionId with
  | none =>
      simp only [hv, Prod.mk.injEq] at hf
      obtain ⟨rfl, rfl⟩ := hf
      exact ⟨.stay g, by simp⟩
  | some sub =>
      simp only [hv, Prod.mk.injEq] at hf
      obtain ⟨rfl, rfl⟩ := hf
      have hearns := h.settled.earns
      refine ⟨.note rfl (fun _ _ _ _ => by simp) trivial fun pid sub' e => ?_, ?_⟩
      · simp only [Event.settling.injEq, true_and] at e
        obtain ⟨rfl, rfl⟩ := e
        exact ⟨r, hearns, hv⟩
      rintro sub' e
      obtain rfl := Option.some.inj e
      have hend : periodEnd (g.subscriptions.get i r.subscriptionId) =
          periodEnd (g.subscriptions.cell r.subscriptionId).committed :=
        h.steady.periodEnd_view (by simp)
      rw [hv] at hend
      exact ⟨⟨⟨hearns.pending, hearns.paid, hearns.unpaid⟩, h.settled.calm.note _,
        h.settled.executed.append [_]⟩, h.steady, (hg.subs _).view hv, .head h.settled.executed,
        (h.unloaded.mono fun _ hf => hf.elim).note fun j s e => by
          simp only [Event.settling.injEq, true_and] at e
          exact e.2.symm, ⟨sub, hv, .refl sub⟩, hend⟩

/-- The clock reading of a grant. -/
theorem clock_loaded : Spec n i (Loaded i pid r sub) (utcnow i) fun now g =>
    Loaded i pid r sub g ∧ Granted i pid r sub now g.history := by
  refine Triple.atomic Loaded.passive.stable fun ω g g' b hg h hf => ?_
  simp only [Option.some.injEq, Prod.mk.injEq] at hf
  obtain ⟨rfl, rfl⟩ := hf
  exact ⟨(Event.Silent.clock _).move g, Loaded.passive.silent (.clock _) hg h, .head h.since⟩

/-- The object was activated or renewed, with the period the payment grants. -/
def Carries (i pid : Nat) (r : Payment) (sub assigned : Subscription) (g : World) : Prop :=
  ∃ now, Granted i pid r sub now g.history ∧ assigned.status = .active ∧
    assigned.upgradeFromSubscriptionId = sub.upgradeFromSubscriptionId ∧
    assigned.currentPeriodEnd = some (r.grantedEnd sub now)

theorem grantPeriod_spec : Spec n i (Loaded i pid r sub) (grantPeriod i r sub) fun assigned g =>
    Loaded i pid r sub g ∧ Carries i pid r sub assigned g := by
  unfold grantPeriod
  dsimp only
  split
  · rename_i hrenew
    refine Spec.bind clock_loaded fun now => .pure fun g _ h => ⟨h.1, now, h.2, rfl, rfl, ?_⟩
    have hr : r.isRenewal sub = true := hrenew
    simp [Subscription.renewed, Payment.grantedEnd, hr, Subscription.renewalBase]
  · rename_i hactivate
    have hr : r.isRenewal sub = false := Bool.eq_false_iff.mpr hactivate
    unfold activateSubscription
    split
    · exact .raise _
    · split
      · refine Spec.bind (Keeps.input Loaded.passive _) fun poolDomain => ?_
        cases poolDomain with
        | none => exact .raise _
        | some poolDomain =>
            refine Spec.bind clock_loaded fun now => .pure fun g _ h =>
              ⟨h.1, now, h.2, rfl, rfl, ?_⟩
            simp [Subscription.activated, Payment.grantedEnd, hr]
      · refine Spec.bind clock_loaded fun now => .pure fun g _ h => ⟨h.1, now, h.2, rfl, rfl, ?_⟩
        simp [Subscription.activated, Payment.grantedEnd, hr]

theorem Carries.durable {assigned : Subscription} :
    (discipline n).Durable (Carries i pid r sub assigned) := by
  rintro j g g' hg hmove ⟨now, hgr, h⟩
  obtain ⟨l, hl, -⟩ := Move.history hmove
  exact ⟨now, hl ▸ hgr.append l, h⟩

/-- A row that is sent as active waits for nothing, if it has not begun to wait since it was
loaded. -/
theorem later_flush_active {loaded assigned row : Subscription} (hlater : loaded.Later row)
    (hstatus : assigned.status = .active)
    (hlink : assigned.upgradeFromSubscriptionId = loaded.upgradeFromSubscriptionId) :
    row.Later (Subscription.flush loaded assigned row) := by
  refine ⟨rfl, rfl, fun hinitial => ?_⟩
  obtain ⟨hfrom, hpending⟩ := Subscription.upgradeInitial_eq_true.mp hinitial
  simp only [Subscription.flush, flushed, hlink, hstatus, if_true] at hfrom hpending
  -- Only a row that was loaded as active keeps its status.
  split at hpending
  · rename_i hactive
    have hloaded := (hlater.upgrade (Subscription.upgradeInitial_eq_true.mpr
      ⟨hfrom, hpending⟩)).1
    rw [(Subscription.upgradeInitial_eq_true.mp hloaded).2] at hactive
    contradiction
  · contradiction

/-- The flush of the subscription sends the period. -/
theorem extendSubscription_spec {assigned : Subscription} (hpassed : r.snapshotError = none)
    (hatOnce : r.amountSats = 0 → sub.upgradeInitial = true) :
    Spec n i (fun g => Loaded i pid r sub g ∧ Carries i pid r sub assigned g)
      (extendSubscription i pid sub assigned) fun _ => Extended i pid r := by
  refine Triple.atomic (Loaded.passive.stable.and Carries.durable.stable)
    fun ω g g' b hg h hf => ?_
  obtain ⟨hload, now, hgr, hstatus, hlink, hend⟩ := h
  obtain ⟨row, hrow, hlater⟩ := hload.seen
  rw [hload.key] at hf
  cases hupd : g.subscriptions.update i r.subscriptionId (fun _ => true)
      (Subscription.flush sub assigned) with
  | none => simp [hrow, hupd] at hf
  | some result =>
      obtain ⟨t, hit⟩ := result
      simp only [hrow, hupd, Option.some.injEq, Prod.mk.injEq] at hf
      obtain ⟨rfl, -⟩ := hf
      rcases Table.update_cases hupd with ⟨-, -, hno⟩ | ⟨-, row', hv, -, hfree, rfl⟩
      · simpa using hno row hrow
      · rw [hrow, Option.some.injEq] at hv
        subst hv
        have hid : row.id = r.subscriptionId := (hg.subs _).view hrow
        have hlt : r.subscriptionId < g.subscriptions.next := by
          by_contra hge
          have hc := hg.unusedSubs _ (Nat.le_of_not_lt hge)
          simp [Table.get, hc, Cell.view] at hrow
        -- The row still has the period that was loaded.
        have hview : periodEnd (g.subscriptions.get i r.subscriptionId) =
            periodEnd (g.subscriptions.cell r.subscriptionId).committed :=
          hload.steady.periodEnd_view (by simp)
        rw [hrow, ← hload.period] at hview
        have hsent : (Subscription.flush sub assigned row).currentPeriodEnd =
            some (r.grantedEnd sub now) := by
          have hrow' : row.currentPeriodEnd = sub.currentPeriodEnd := hview
          simp only [Subscription.flush, flushed, hrow']
          split
          · rename_i e
            rw [← e, hend]
          · exact hend
        refine ⟨.extend hfree hid hlt hrow (later_flush_active hlater hstatus hlink), ?_, ?_, ?_,
          hpassed, ?_⟩
        · exact ⟨⟨hload.settled.earns.pending, hload.settled.earns.paid,
            hload.settled.earns.unpaid⟩, hload.settled.calm.note _,
            hload.settled.executed.append [_]⟩
        · refine ⟨sub, now, Subscription.flush sub assigned row, hgr.append [_], ?_, ?_, hsent⟩
          · simp [World.note]
          · simpa [World.note] using hload.period
        · intro k s hk hs
          have e : k ≠ r.subscriptionId := fun e => hk (by rw [e])
          simp only [World.note, Table.set_cell_of_ne _ _ e] at hs ⊢
          exact hload.steady k s (by simp) hs
        · exact (hload.only.mono fun s e hzero => e ▸ hatOnce hzero).note fun _ _ e => by simp at e

/-! ## what goes with a settlement -/

namespace Keeps

/-- A path that gives up the transaction. -/
theorem abort {α : Type} (e : Error) :
    Keeps n i A (do rollback i; Prog.raise e : Db α) :=
  Spec.bind rollback_idle fun _ => .raise e

end Keeps

/-- A row that is sent as cancelled waits for nothing, unless it waited before. -/
theorem later_flush_cancelled {loaded assigned row : Subscription}
    (hstatus : assigned.status = .cancelled)
    (hlink : assigned.upgradeFromSubscriptionId = loaded.upgradeFromSubscriptionId)
    (hterm : assigned.billingTerm = loaded.billingTerm)
    (hcredit : assigned.upgradeCreditSats = loaded.upgradeCreditSats)
    (hsource : assigned.upgradeSourcePeriodEnd = loaded.upgradeSourcePeriodEnd) :
    row.Later (Subscription.flush loaded assigned row) := by
  refine ⟨rfl, rfl, fun hinitial => ?_⟩
  obtain ⟨hfrom, hpending⟩ := Subscription.upgradeInitial_eq_true.mp hinitial
  simp only [Subscription.flush, flushed, hstatus, hlink, hterm, hcredit, hsource, if_true]
    at hfrom hpending ⊢
  split at hpending
  · exact ⟨Subscription.upgradeInitial_eq_true.mpr ⟨hfrom, hpending⟩, trivial, trivial, trivial⟩
  · contradiction

theorem cancelUpgradeSource_spec (sub : Subscription) :
    Keeps n i (Extended i pid r) (cancelUpgradeSource i sub) := by
  have hA : Passive n i (Extended i pid r) := Extended.passive
  unfold cancelUpgradeSource
  split
  · refine .bind (.lockSubscription hA _) fun source => ?_
    cases source with
    | none => exact .abort _
    | some source =>
        refine .ite (.bind (.utcnow hA) fun now => ?_) (.abort _)
        refine Keeps.bind ?_ fun _ => .pure _
        exact amend_spec hA.stable (fun _ hq h => h.quiet hq) fun _ row _ =>
          ⟨flush_samePeriod rfl row, later_flush_cancelled rfl rfl rfl rfl rfl⟩
  · exact .pure _

theorem referralCredit_payment {p : Payment} {credit : ReferralCredit}
    (h : p.referralCredit = .ok (some credit)) : credit.paymentId = p.id := by
  unfold Payment.referralCredit at h
  dsimp only at h
  repeat' split at h
  all_goals simp only [Except.ok.injEq, reduceCtorEq, Option.some.injEq] at h
  rw [← h]

/-- The credit of a settled payment. -/
theorem creditSettledPayment_spec (hid : r.id = pid) :
    Keeps n i (Extended i pid r) (creditSettledPayment i r) := by
  unfold creditSettledPayment
  cases hc : r.referralCredit with
  | error message => exact .raise _
  | ok o =>
      cases o with
      | none => exact .pure _
      | some credit =>
          refine .bind (.query Extended.passive _) fun existing => ?_
          cases existing with
          | some _ => exact .pure _
          | none =>
              refine Triple.atomic Extended.passive.stable fun ω g g' b hg h hf => ?_
              dsimp only at hf
              split at hf
              · contradiction
              · rename_i hfree
                simp only [Option.some.injEq, Prod.mk.injEq] at hf
                obtain ⟨rfl, -⟩ := hf
                have hkey : credit.paymentId = pid := (referralCredit_payment hc).trans hid
                have hv : g.payments.get i pid = some r := by
                  simp [Table.get, h.settled.earns.pending]
                rw [hkey] at hfree ⊢
                refine ⟨.credit (Bool.eq_false_iff.mpr hfree) hv h.settled.earns.paid, ?_⟩
                exact ⟨⟨⟨h.settled.earns.pending, h.settled.earns.paid, h.settled.earns.unpaid⟩,
                  h.settled.calm, h.settled.executed⟩, h.grants, h.steady, h.passed, h.only⟩

/-- A payment of nothing is only settled on an upgrade that waits for it. -/
theorem upgradeInitial_of_ready {cfg : Settings} (h : r.subscriptionError cfg sub = none)
    (hzero : r.amountSats = 0) : sub.upgradeInitial = true := by
  by_contra hinitial
  simp [Payment.subscriptionError, hzero, hinitial] at h

/-- From the loaded subscription to the commit. -/
theorem settleSubscription_spec (app : App) (hpassed : r.snapshotError = none) :
    Spec n i (Loaded i r.id r sub) (settleSubscription app i r sub) (Returns i) := by
  unfold settleSubscription
  split
  · exact Spec.bind rollback_idle fun _ => .raise _
  · rename_i hready
    refine Spec.bind grantPeriod_spec fun assigned => ?_
    refine Spec.bind (extendSubscription_spec hpassed (upgradeInitial_of_ready hready)) fun _ => ?_
    refine Spec.bind (Keeps.activateLease Extended.passive assigned) fun _ => ?_
    refine Spec.bind (cancelUpgradeSource_spec sub) fun _ => ?_
    refine Spec.bind (Keeps.notifyOwner Extended.passive app.cfg assigned) fun _ => ?_
    refine Spec.bind (creditSettledPayment_spec rfl) fun _ => ?_
    refine Spec.bind (commit_spec Extended.passive fun _ _ h => h.commitOk) fun _ => ?_
    exact reload_returns r.id

/-- From the statement to the commit. -/
theorem settled_spec (app : App) {B : World → Prop} {payment : Payment} {paidAt : Datetime}
    {verifiedAt : Option Datetime} (hB : (discipline n).Stable i B)
    (hit : ∀ g row, Inv n g → B g → g.payments.get i payment.id = some row →
      row.status = .pending →
      ExecOk n i payment.id g.history (g.payments.cell payment.id) row
          (.settle paidAt verifiedAt) ∧
        CalmBut i (some payment.id) g ∧ SteadyBut i none g ∧
        LoadedOnly payment.id (fun _ => False) g) :
    Spec n i B
      (do
        if ← execute i payment.id (.settle paidAt verifiedAt) then
          let payment ← reloadPayment i payment.id
          match payment.snapshotError with
          | some message =>
              rollback i
              .raise (.valueError message)
          | none =>
              match ← loadSettling i payment with
              | none =>
                  rollback i
                  .raise (.runtime "payment subscription disappeared")
              | some sub => settleSubscription app i payment sub
        else
          rollback i
          reloadPayment i payment.id) (Returns i) := by
  refine Spec.bind
    (Q := fun hit g => hit = true → ∃ r, r.id = payment.id ∧ Settling i payment.id r g)
    (execute_spec hB ?_ ?_) fun hitted => ?_
  · intro g row hg hb hv hfree hsel
    have hpend : row.status = .pending := by simpa [PaymentUpdate.selects] using hsel
    obtain ⟨hok, hcalm, hsteady, hunloaded⟩ := hit g row hg hb hv hpend
    obtain ⟨-, hid, hle⟩ := (hg.cells payment.id).view_ok hv
    refine ⟨hok, fun _ => ⟨(PaymentUpdate.settle paidAt verifiedAt).set row, hid, ?_, hsteady, ?_⟩⟩
    · refine ⟨⟨by simp [World.executed, World.note], rfl, ?_⟩, ?_, ?_⟩
      · intro p hp
        simp only [World.executed, World.note, Table.set_cell_self, Cell.write_committed] at hp
        rw [hp] at hle
        have hadv : Payment.Advances p row := hle
        intro hpaid
        rw [hadv.status_eq (by simp [hpaid]), hpaid] at hpend
        contradiction
      · intro q r' hq hr'
        have e : q ≠ payment.id := fun e => hq (by rw [e])
        simp only [World.executed, World.note, Table.set_cell_of_ne _ _ e] at hr' ⊢
        obtain ⟨c, hc, hcalm'⟩ := hcalm q r' hq hr'
        exact ⟨c, hc, hcalm'.cons _⟩
      · exact ⟨paidAt, verifiedAt, row, List.mem_cons_self, rfl⟩
    · intro hnew j s hmem
      refine hunloaded (by simpa [World.executed, World.note] using hnew) j s ?_
      simpa [World.executed, World.note] using hmem
  · exact fun _ _ _ _ h => by simp at h
  · cases hitted with
    | false => exact Spec.bind rollback_idle fun _ => reload_returns _
    | true =>
        simp only [if_true]
        refine Spec.pre (P := fun g => ∃ r, r.id = payment.id ∧ Settling i payment.id r g) ?_
          fun g _ h => h trivial
        refine Spec.ofExists fun r => Spec.assume fun hid => ?_
        rw [← hid]
        refine Spec.bind reload_settling fun settled => Spec.assume fun e => ?_
        subst e
        split
        · exact Spec.bind rollback_idle fun _ => .raise _
        · rename_i hpassed
          refine Spec.bind loadSettling_spec fun o => ?_
          cases o with
          | none => exact Spec.bind rollback_idle fun _ => .raise _
          | some sub => exact (settleSubscription_spec app hpassed).pre fun g _ h => h sub rfl

/-! ## the three ways in -/

/-- A payment the session has inserted and not published. -/
structure Draft (i : Nat) (p : Payment) (g : World) : Prop where
  cell : g.payments.cell p.id = ⟨none, some (i, p)⟩
  pending : p.status = .pending
  provider : p.invoiceProvider = none
  quoted : p.Quoted
  calm : CalmBut i (some p.id) g
  steady : SteadyBut i none g
  unloaded : LoadedOnly p.id (fun _ => False) g

theorem Draft.passive (p : Payment) : Passive n i (Draft i p) where
  stable := by
    intro j g g' hj hg hmove h
    have hheld : (g.payments.cell p.id).pending = some (i, p) := by simp [h.cell]
    have hsame := held_payment hj hg hmove p.id p (.inl hheld)
    exact ⟨hsame ▸ h.cell, h.pending, h.provider, h.quoted, CalmBut.stable _ hj hg hmove h.calm,
      SteadyBut.stable none hj hg hmove h.steady, h.unloaded.foreign hj hg hmove hheld⟩
  quiet _ hq h := ⟨hq.payments ▸ h.cell, h.pending, h.provider, h.quoted, h.calm.quiet hq.toQuiet,
    h.steady.quiet hq.toQuiet, h.unloaded.quiet hq.toQuiet⟩
  silent he _ h := ⟨h.cell, h.pending, h.provider, h.quoted, h.calm.note _, h.steady,
    he.loadedOnly h.unloaded⟩

theorem settlePayment_draft (app : App) (payment : Payment) (verifiedAt : Option Datetime) :
    Spec n i (Draft i payment) (settlePayment app i payment .none verifiedAt) (Returns i) := by
  refine Spec.bind (Keeps.utcnow (Draft.passive payment)) fun paidAt => ?_
  refine settled_spec app (Draft.passive payment).stable fun g row hg h hv _ => ?_
  refine ⟨?_, h.calm, h.steady, h.unloaded⟩
  have hrow : row = payment := by
    simp only [Table.get, h.cell, Cell.view, if_true, Option.some.injEq] at hv
    exact hv.symm
  simp [ExecOk, h.cell, DraftOk, hrow, h.provider]

theorem CalmBut.mono {o : Option Nat} {g : World} (h : CalmBut i none g) : CalmBut i o g :=
  fun q r _ hr => h q r (by simp) hr

theorem settlePayment_known (app : App) (payment : Payment) (unsent : Unsent)
    (hl : payment.invoiceProvider ≠ some .lnurl) :
    Spec n i (fun g => (Known payment g ∧ UnsentOk g.history payment unsent) ∧ Idle i g)
      (settlePayment app i payment unsent none) (Returns i) := by
  have hk := Known.durable (n := n) payment
  have hF := hk.and (UnsentOk.durable payment unsent)
  refine Spec.bind (Keeps.utcnow ((Passive.of_durable hF).and Idle.passive)) fun paidAt => ?_
  refine Spec.bind (Q := fun _ g => Known payment g ∧ Idle i g) ?_ fun _ => ?_
  · exact ((sendUnsent_spec payment unsent).frame hk).pre fun g _ h => ⟨h.1.1, h⟩
  · refine settled_spec app (hk.stable.and Idle.stable) fun g row hg h hv _ => ?_
    obtain ⟨hknown, hidle⟩ := h
    obtain ⟨c, hc, hcalm⟩ := hidle.view hv
    refine ⟨?_, hidle.calm.mono, hidle.steady, .of_stored hc⟩
    simp only [ExecOk, hc]
    refine ⟨hcalm, fun hlnurl => absurd ?_ hl⟩
    rw [← (hknown.advances_view hg hv).invoiceProvider]
    exact hlnurl

theorem Verified.durable (pid : Nat) (p : Payment) :
    (discipline n).Durable fun g => Verified i pid p g.history := by
  rintro j g g' hg hmove ⟨h₁, t, h₂, e, ht, hmem⟩
  obtain ⟨l, hl, -⟩ := Move.history hmove
  exact ⟨l ++ h₁, t, h₂, by rw [hl, e]; simp, ht, hmem⟩

theorem settlePayment_verified (app : App) (payment : Payment) (verifiedAt : Option Datetime) :
    Spec n i (fun g => Verified i payment.id payment g.history ∧ Holds i payment g ∧ Idle i g)
      (settlePayment app i payment .none verifiedAt) (Returns i) := by
  have hver := Verified.durable (n := n) (i := i) payment.id payment
  have hA := (Passive.of_durable (i := i) hver).and ((Holds.passive payment).and Idle.passive)
  refine Spec.bind (Keeps.utcnow hA) fun paidAt => ?_
  refine settled_spec app hA.stable fun g row hg h hv _ => ?_
  obtain ⟨hv', hholds, hidle⟩ := h
  obtain ⟨c, hc, hcalm⟩ := hidle.view hv
  refine ⟨?_, hidle.calm.mono, hidle.steady, .of_stored hc⟩
  have hrow : row = payment := by
    have : g.payments.get i payment.id = some payment := Cell.view_of_held hholds
    rw [this, Option.some.injEq] at hv
    exact hv.symm
  simp only [ExecOk, hc]
  exact ⟨hcalm, fun _ => hrow ▸ hv'⟩

end Backend
