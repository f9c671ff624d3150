import Blindport.Backend.Specs.Wallets

/-!
# Blindport.Backend.Specs.Polling

`_check_lnurl_payment` and `check_and_settle_payment`.

`_check_lnurl_payment` may be re-entered from the wallet functions it calls; its
specification is proved by induction on the depth to which it may be, and gives
what those functions ask of it (`checkLnurlPayment_recheck`).
-/

namespace Backend

open Conc Conc.Discipline

variable {n i : Nat} {recheck : Payment → Unsent → Db Payment}

/-! ## receipts that come too late -/

theorem expireOpen_spec (payment : Payment) :
    Spec n i (Returns i payment) (reviewLnurlPayment.expireOpen i payment) fun p g =>
      Closed p.id g ∧ Idle i g := by
  unfold reviewLnurlPayment.expireOpen
  split
  · refine ((expirePayment_spec payment).pre fun g _ h => ⟨h.1.exists, h.2⟩).mono ?_
    rintro p g _ ⟨hclosed, hidle, hseen⟩
    exact ⟨hseen.1 ▸ hclosed, hidle⟩
  · rename_i hs
    exact .pure fun g _ h => ⟨h.1.closed hs, h.2⟩

/-- A payment is put under review only when it is closed. -/
theorem reviewLnurlPayment_spec (payment : Payment) :
    Spec n i (Returns i payment) (reviewLnurlPayment i payment) (Returns i) := by
  refine Spec.bind (expireOpen_spec payment) fun p => ?_
  have hclosed := Closed.durable (n := n) p.id
  refine Spec.bind (Keeps.utcnow ((Passive.of_durable hclosed).and Idle.passive)) fun now => ?_
  refine execute_commit_spec hclosed (by simp) ?_ fun _ => ?_
  · exact fun g row _ hc hseen _ => hseen.not_pending hc
  · exact (reload_returns p.id).pre fun g _ h => h.2

/-! ## receipts in time -/

/-- A session that has the row and was told that the invoice is settled. -/
def Received (i : Nat) (payment : Payment) (g : World) : Prop :=
  (Recorded (.lnurlState i payment.id .settled) g ∧ Known payment g) ∧
    Holds i payment g ∧ Idle i g

theorem Received.passive (payment : Payment) : Passive n i (Received i payment) :=
  (Passive.of_durable ((Recorded.durable _).and (Known.durable payment))).and
    ((Holds.passive payment).and Idle.passive)

/-- The clock reading against the deadline of the payment. -/
theorem clock_received (payment : Payment) :
    Spec n i (Received i payment) (utcnow i) fun now g =>
      (payment.expiresAt.any (now < ·) = true → Verified i payment.id payment g.history) ∧
        Received i payment g := by
  refine Triple.atomic (Received.passive payment).stable fun ω g g' b hg h hf => ?_
  simp only [Option.some.injEq, Prod.mk.injEq] at hf
  obtain ⟨rfl, rfl⟩ := hf
  refine ⟨(Event.Silent.clock _).move g, fun hlt => ⟨[], _, g.history, rfl, hlt, h.1.1⟩, ?_⟩
  exact (Received.passive payment).silent (.clock _) hg h

theorem settleLnurlPayment_spec (app : App) (payment : Payment) :
    Spec n i (Received i payment) (settleLnurlPayment app i payment) (Returns i) := by
  refine Spec.bind (clock_received payment) fun now => ?_
  split
  · rename_i hopen
    have hver := Verified.durable (n := n) (i := i) payment.id payment
    have hA := (Passive.of_durable (i := i) hver).and ((Holds.passive payment).and Idle.passive)
    refine Spec.bind ((Keeps.utcnow hA).pre fun g _ h => ⟨h.1 hopen.2, h.2.2⟩) fun verifiedAt => ?_
    refine Spec.tryCatch (settlePayment_verified app payment (some verifiedAt)) fun e => ?_
    split
    · refine Spec.bind rollback_spec fun _ => ?_
      refine Spec.bind (lockPayment_spec payment.id) fun p => ?_
      exact (reviewLnurlPayment_spec p).pre fun g _ h => ⟨h.2.2.known, h.1⟩
    · exact .raise _
  · exact (reviewLnurlPayment_spec payment).pre fun g _ h => ⟨h.2.1.2, h.2.2.2⟩

/-! ## the check -/

theorem driveLnurlPayment_spec (app : App)
    (hre : RecheckOk app.cfg.nwcMaxPaymentAttempts i recheck) (payment : Payment) :
    Spec app.cfg.nwcMaxPaymentAttempts i (Returns i payment)
      (driveLnurlPayment app recheck i payment) (Returns i) := by
  have hA := (Passive.of_durable (n := app.cfg.nwcMaxPaymentAttempts) (i := i)
    (Known.durable payment)).and Idle.passive
  refine Spec.bind (Keeps.utcnow hA) fun now => ?_
  split
  · exact (expirePayment_returns payment).pre fun g _ h => ⟨h.1.exists, h.2⟩
  · refine Spec.bind rollback_idle fun _ => ?_
    refine Spec.bind (reload_returns payment.id) fun p => ?_
    split
    · exact reconcileNwcPayment_spec app hre p
    · split
      · exact reconcileClinkPayment_spec app hre p
      · exact .pure fun _ _ h => h

theorem verifyLnurlPayment_spec (app : App)
    (hre : RecheckOk app.cfg.nwcMaxPaymentAttempts i recheck) (payment : Payment) :
    Spec app.cfg.nwcMaxPaymentAttempts i (Returns i payment)
      (verifyLnurlPayment app recheck i payment) (Returns i) := by
  unfold verifyLnurlPayment
  split
  · exact .raise _
  · have hknown := Known.durable (n := app.cfg.nwcMaxPaymentAttempts) payment
    refine Spec.bind (Keeps.utcnow ((Passive.of_durable hknown).and Idle.passive)) fun now => ?_
    refine execute_commit_spec hknown (by simp) (fun _ _ _ _ _ _ => trivial) fun claimed => ?_
    split
    · exact (reload_returns payment.id).pre fun g _ h => h.2
    · refine Spec.bind ((lnurlInvoiceState_spec payment).pre fun g _ h => h.2) fun state => ?_
      refine Spec.bind ((lockPayment_spec payment.id).frame (Recorded.durable _)) fun p => ?_
      split
      · exact .pure fun g _ h => ⟨h.2.2.2.known, h.2.1⟩
      · split
        · rename_i hstate
          refine (settleLnurlPayment_spec app p).pre fun g _ h => ?_
          obtain ⟨hrec, hidle, hholds, hseen⟩ := h
          rw [hstate, ← hseen.1] at hrec
          exact ⟨⟨hrec, hseen.known⟩, hholds, hidle⟩
        · exact (driveLnurlPayment_spec app hre p).pre fun g _ h => ⟨h.2.2.2.known, h.2.1⟩

/-- `_check_lnurl_payment` keeps to what its callees ask of it, at every depth. -/
theorem checkLnurlPayment_recheck (app : App) (depth : Nat) :
    RecheckOk app.cfg.nwcMaxPaymentAttempts i (checkLnurlPayment app i depth) := by
  induction depth with
  | zero => exact fun payment unsent => .raise _
  | succ depth ih =>
      intro payment unsent
      refine Spec.bind (sendUnsent_spec payment unsent) fun _ => ?_
      refine Spec.bind (reload_returns payment.id) fun p => ?_
      split
      · exact .pure fun _ _ h => h
      · split
        · exact verifyLnurlPayment_spec app ih p
        · refine Spec.bind
            ((ensureLightningInvoice_spec app p).pre fun g _ h => ⟨fun _ => h.1, h.2⟩) fun q => ?_
          split
          · exact .pure fun _ _ h => h
          · exact verifyLnurlPayment_spec app ih q

/-! ## polling -/

theorem pollInvoice_spec (app : App) (payment : Payment) :
    Spec app.cfg.nwcMaxPaymentAttempts i (Returns i payment) (pollInvoice app i payment)
      (Returns i) := by
  have hA := (Passive.of_durable (n := app.cfg.nwcMaxPaymentAttempts) (i := i)
    (Known.durable payment)).and Idle.passive
  unfold pollInvoice
  split
  · exact .raise _
  · refine Spec.bind (Keeps.input hA _) fun paid => ?_
    cases paid with
    | none => exact .raise _
    | some paid =>
        cases paid with
        | true => exact finalizePayment_plain app (checkLnurlPayment_recheck app _) payment
        | false =>
            refine Spec.bind (Keeps.utcnow hA) fun now => ?_
            split
            · exact (expirePayment_returns payment).pre fun g _ h => ⟨h.1.exists, h.2⟩
            · exact (reload_returns payment.id).pre fun g _ h => h.2

/-- `check_and_settle_payment`. -/
theorem checkAndSettlePayment_spec (app : App) (payment : Payment) :
    Spec app.cfg.nwcMaxPaymentAttempts i (Returns i payment) (checkAndSettlePayment app i payment)
      (Returns i) := by
  have hre := checkLnurlPayment_recheck (i := i) app app.depth
  unfold checkAndSettlePayment
  split
  · exact .pure fun _ _ h => h
  · split
    · exact (hre payment .none).pre fun g _ h => ⟨⟨h.1, .none _ _⟩, h.2⟩
    · split
      · exact .raise _
      · split
        · exact .pure fun _ _ h => h
        · refine Spec.bind
            ((ensureLightningInvoice_spec app payment).pre fun g _ h => ⟨fun _ => h.1, h.2⟩)
            fun p => ?_
          split
          · exact .pure fun _ _ h => h
          · split
            · exact reconcileNwcPayment_spec app hre p
            · split
              · exact reconcileClinkPayment_spec app hre p
              · exact pollInvoice_spec app p

end Backend
