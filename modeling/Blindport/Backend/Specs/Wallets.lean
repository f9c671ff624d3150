import Blindport.Backend.Tenancy
import Blindport.Backend.Specs.Invoices

/-!
# Blindport.Backend.Specs.Wallets

The wallet state machines: observations, failures, NWC and CLINK.

The functions on the circle through `_check_lnurl_payment` are specified for
every `recheck` that keeps to its specification (`RecheckOk`).
-/

namespace Backend

open Conc Conc.Discipline

variable {n i : Nat} {A : World → Prop}

/-- What is asked of `_check_lnurl_payment` by the functions it is handed to. -/
def RecheckOk (n i : Nat) (recheck : Payment → Unsent → Db Payment) : Prop :=
  ∀ payment unsent,
    Spec n i (fun g => (Known payment g ∧ UnsentOk g.history payment unsent) ∧ Idle i g)
      (recheck payment unsent) (Returns i)

variable {recheck : Payment → Unsent → Db Payment}

theorem finalizePayment_spec (app : App) (hre : RecheckOk n i recheck) (payment : Payment)
    (unsent : Unsent) :
    Spec n i (fun g => (Known payment g ∧ UnsentOk g.history payment unsent) ∧ Idle i g)
      (finalizePayment app recheck i payment unsent) (Returns i) := by
  unfold finalizePayment
  split
  · exact hre payment unsent
  · rename_i hl
    exact settlePayment_known app payment unsent hl

/-- A payment with nothing unsent. -/
theorem finalizePayment_plain (app : App) (hre : RecheckOk n i recheck) (payment : Payment) :
    Spec n i (Returns i payment) (finalizePayment app recheck i payment .none) (Returns i) :=
  (finalizePayment_spec app hre payment .none).pre fun _ _ h => ⟨⟨h.1, .none _ _⟩, h.2⟩

/-- The state of the invoice, in a session that knows its payment. -/
theorem lndInvoiceState_known (app : App) (payment : Payment) {F : World → Prop}
    (hF : (discipline n).Durable F) :
    Spec n i (fun g => F g ∧ Idle i g) (lndInvoiceState app i payment) fun _ g =>
      F g ∧ Idle i g :=
  (lndInvoiceState_spec app payment).frame hF

theorem settleObserved_spec (app : App) (hre : RecheckOk n i recheck) (payment : Payment) :
    Spec n i (Returns i payment) (settleObserved app recheck i payment) (Returns i) := by
  refine Spec.bind (lndInvoiceState_known app payment (Known.durable payment)) fun state => ?_
  split
  · exact finalizePayment_plain app hre payment
  · exact .pure fun _ _ h => h

/-! ## observations -/

theorem saveNwcObservation_spec (payment : Payment) (unsent : Unsent) (state : NwcState)
    (code : Option String)
    (hfirst : payment.nwcAttemptCount = 0 → state ≠ .settled ∧ code = none)
    (hu : unsent.preimageHash.isSome → 0 < payment.nwcAttemptCount ∧ payment.invoice.isSome) :
    Spec n i (Returns i payment) (saveNwcObservation i payment unsent state code) (Returns i) := by
  refine observe_spec (Known.durable payment) (by simp) ?_
  intro g row hg hk hseen hsel
  have hadv := hseen.advances hk rfl
  simp only [PaymentUpdate.selects, decide_eq_true_eq] at hsel
  have hpend : payment.status = .pending := by
    rcases hadv.status with e | ⟨e, -⟩
    · rw [← e]
      exact hsel.1
    · exact e
  refine ⟨fun hz => ?_, fun hpre => ?_⟩
  · have hz' : payment.nwcAttemptCount = 0 := Nat.le_zero.mp (hz ▸ hadv.nwcAttempts)
    obtain ⟨hstate, hcode⟩ := hfirst hz'
    refine ⟨hstate, hcode, ?_⟩
    have hnone : unsent.preimageHash = none := by
      cases hp : unsent.preimageHash with
      | none => rfl
      | some x =>
          have := (hu (by simp [hp])).1
          omega
    simp [Unsent.flush, hnone, (hk.1.untried hpend hz').2]
  · have hinv : payment.invoice.isSome := by
      cases hp : unsent.preimageHash with
      | none => exact hk.1.preimage (by simpa [Unsent.flush, hp] using hpre)
      | some x => exact (hu (by simp [hp])).2
    exact (hadv.invoice hinv).1 ▸ hinv

theorem saveClinkObservation_spec (payment : Payment) (preimageHash : Option String)
    (state : ClinkState) (code : Option String) :
    Spec n i (Idle i) (saveClinkObservation i payment preimageHash state code) (Returns i) :=
  Spec.pre (observe_spec (F := fun _ => True) (fun _ _ _ _ _ _ => trivial) (by simp)
    fun _ _ _ _ _ _ => trivial) fun _ _ h => ⟨trivial, h⟩

/-! ## failures -/

namespace Keeps

theorem queueRenewalFailure (hA : Passive n i A) (cfg : Settings) (payment : Payment)
    (sub : Subscription) : Keeps n i A (Backend.queueRenewalFailure cfg i payment sub) := by
  unfold Backend.queueRenewalFailure
  refine .ite (.bind (.getUser hA _) fun user => ?_) (.pure _)
  cases user with
  | none => exact .pure _
  | some user => exact .ite (.queueNotification hA) (.pure _)

theorem releaseFailed (hA : Passive n i A) (cfg : Settings) (payment : Payment) :
    Keeps n i A (Backend.releaseFailed cfg i payment) := by
  refine .bind (.getSubscription hA _) fun sub => ?_
  cases sub with
  | none => exact .pure _
  | some loaded =>
      refine Spec.bind (releaseReservation_spec hA _ payment.id) fun released => ?_
      have hkept : loaded.Kept { loaded with autoRenew := false } :=
        ⟨⟨rfl, rfl⟩, rfl, rfl, rfl, rfl, rfl, rfl, rfl⟩
      refine Spec.pre (Spec.assume (q := loaded.Kept
        (released.getD { loaded with autoRenew := false })) (P := A) fun h => ?_)
        fun g _ h => ⟨?_, h.1⟩
      · exact Keeps.bind (.flushSubscription hA h) fun _ => .queueRenewalFailure hA _ _ _
      · cases released with
        | none => exact hkept
        | some assigned => exact hkept.trans (h.2 assigned rfl)

end Keeps

theorem failPayment_spec (cfg : Settings) (payment : Payment) {s : PaymentUpdate}
    {F : World → Prop} (hF : (discipline n).Durable F) (hs : ∀ paidAt v, s ≠ .settle paidAt v)
    (hok : ∀ g row, Inv n g → F g → Seen payment.id row g → s.selects row = true →
      StatementOk n i payment.id g.history row s) :
    Spec n i (fun g => F g ∧ Idle i g) (failPayment cfg i payment s) (Returns i) :=
  (conditional_spec hF (R := fun _ => True) (fun _ _ _ _ _ _ => trivial) hs hok
    (fun _ _ _ _ _ _ _ => trivial) (fun _ _ _ _ => trivial)
    fun hA => .releaseFailed hA cfg payment).mono fun _ _ _ h => ⟨h.2.2.known, h.2.1⟩

theorem failNwcPayment_spec (app : App) (payment : Payment) (unsent : Unsent) (code : String)
    (requireLease : Bool) (hcode : requireLease = false → code = "lnd_invoice_canceled") :
    Spec n i (fun g => (Known payment g ∧ UnsentOk g.history payment unsent) ∧ Idle i g)
      (failNwcPayment app i payment unsent code requireLease) (Returns i) := by
  unfold failNwcPayment
  split
  · exact Spec.bind (sendUnsent_spec payment unsent) fun _ => reload_returns _
  · rename_i hlease
    refine failPayment_spec app.cfg payment
      ((Known.durable payment).and (UnsentOk.durable payment unsent)) (by simp) ?_
    rintro g row hg ⟨hk, hu⟩ hseen hsel
    refine ⟨hu.advances (hseen.advances hk rfl), fun hnone => ?_⟩
    cases requireLease with
    | false => exact hcode rfl
    | true => simp_all

theorem releaseFailedNwcPayment_spec (app : App) (hre : RecheckOk n i recheck)
    (payment : Payment) (unsent : Unsent) (code : String) (requireLease : Bool)
    (hcode : requireLease = false → code = "lnd_invoice_canceled") :
    Spec n i (fun g => (Known payment g ∧ UnsentOk g.history payment unsent) ∧ Idle i g)
      (releaseFailedNwcPayment app recheck i payment unsent code requireLease) (Returns i) := by
  have hF := (Known.durable (n := n) payment).and (UnsentOk.durable payment unsent)
  have hfail := failNwcPayment_spec (n := n) (i := i) app payment unsent code requireLease hcode
  unfold releaseFailedNwcPayment
  split
  · refine Spec.bind (lndInvoiceState_known app payment hF) fun state => ?_
    split
    · exact finalizePayment_spec app hre payment unsent
    · intro g hg h
      exact saveNwcObservation_spec payment unsent .pending none (by simp) h.1.2.tried g hg
        ⟨h.1.1, h.2⟩
    · exact hfail
  · exact hfail

theorem failClinkPayment_spec (app : App) (payment : Payment) (code : String)
    (requireLease : Bool) :
    Spec n i (Idle i) (failClinkPayment app i payment code requireLease) (Returns i) := by
  unfold failClinkPayment
  split
  · exact reload_returns _
  · exact Spec.pre (failPayment_spec app.cfg payment (F := fun _ => True)
      (fun _ _ _ _ _ _ => trivial) (by simp) fun _ _ _ _ _ _ => trivial)
        fun _ _ h => ⟨trivial, h⟩

theorem releaseFailedClinkPayment_spec (app : App) (hre : RecheckOk n i recheck)
    (payment : Payment) (code : String) (requireLease : Bool) :
    Spec n i (Returns i payment)
      (releaseFailedClinkPayment app recheck i payment code requireLease) (Returns i) := by
  have hfail := failClinkPayment_spec (n := n) (i := i) app payment code requireLease
  unfold releaseFailedClinkPayment
  split
  · refine Spec.bind (lndInvoiceState_known app payment (Known.durable payment)) fun state => ?_
    split
    · exact finalizePayment_plain app hre payment
    · exact (saveClinkObservation_spec _ _ _ _).pre fun _ _ h => h.2
    · exact hfail.pre fun _ _ h => h.2
  · exact hfail.pre fun _ _ h => h.2

/-! ## the NWC lease -/

/-- The reload at the end of `_claim_nwc_lease`. -/
theorem reloadLeased_spec (pid : Nat) (token : String) :
    Spec n i (fun g => Leased i pid token g.history ∧ Idle i g) (reloadLeased i pid token)
      fun p g => Tenant i p g ∧ Idle i g ∧ Seen pid p g := by
  have hL : (discipline n).Durable fun g => Leased i pid token g.history := by
    intro j g g' hg hmove h
    obtain ⟨l, hl, -⟩ := Move.history hmove
    exact hl ▸ h.append
  refine Spec.bind (Q := fun o g => ∀ p, o = some p → Tenant i p g ∧ Idle i g ∧ Seen pid p g)
    ?_ fun o => ?_
  · refine Triple.atomic (hL.stable.and Idle.stable) fun ω g g' b hg h hf => ?_
    simp only [Option.some.injEq] at hf
    cases hv : g.payments.get i pid with
    | none =>
        simp only [hv, Prod.mk.injEq] at hf
        obtain ⟨rfl, rfl⟩ := hf
        exact ⟨.stay g, by simp⟩
    | some row =>
        simp only [hv, Prod.mk.injEq] at hf
        obtain ⟨rfl, rfl⟩ := hf
        have hmove : Move n i g (g.note (.nwcLeased i pid token row)) :=
          .note rfl (fun _ _ _ _ => by simp) h.1 (by simp)
        refine ⟨hmove, ?_⟩
        rintro p e
        obtain rfl := Option.some.inj e
        obtain ⟨hid, hok, c, hc, hcalm⟩ := h.2.seen hg hv
        subst hid
        refine ⟨⟨⟨c, hc⟩, ?_, ?_, ?_, ?_, ?_⟩, h.2.note _, rfl, hok.cons _, c, hc, hcalm.cons _⟩
        · intro hrb
          exact ⟨token, hrb i row.id token row List.mem_cons_self, h.1.cons _⟩
        · intro _ _ c' hc' _
          obtain rfl := Option.some.inj (hc.symm.trans hc')
          exact hcalm.attempts.symm
        · intro _ hrb _ c' hc' _ _ hb
          obtain rfl := Option.some.inj (hc.symm.trans hc')
          exact (hcalm.observedBlock hrb.tail).trans hb
        · intro t ht
          obtain ⟨j, hj⟩ := hok.leased t ht
          exact (hj.cons _).claims_pos
        · intro t j r ht _ _
          exact .inl ⟨c, hc, hcalm.token ▸ ht⟩
  · cases o with
    | none => exact .raise _
    | some p => exact .pure fun g _ h => h p rfl

/-- What the worker knows of the object it loaded under the lease, which it
found as `payment` before. -/
structure Leasing (i : Nat) (payment p : Payment) (g : World) : Prop where
  tenant : Tenant i p g
  known : Known p g
  idle : Idle i g
  later : Payment.Advances payment p

theorem Leasing.passive {payment p : Payment} : Passive n i (Leasing i payment p) where
  stable := fun _ _ _ hj hg hmove h =>
    ⟨h.tenant.foreign hg hj hmove, Known.durable p hg hmove h.known,
      Idle.stable hj hg hmove h.idle, h.later⟩
  quiet hg hq h := ⟨(Tenant.passive p).quiet hg hq h.tenant,
    Known.durable p hg (.quiet hq.toQuiet) h.known, Idle.passive.quiet hg hq h.idle, h.later⟩
  silent he hg h := ⟨(Tenant.passive p).silent he hg h.tenant,
    Known.durable p hg (he.move _) h.known, h.idle.note _, h.later⟩

/-- The commit of a claim leaves its entry. -/
theorem Wrote.leased {pid : Nat} {now until_ : Datetime} {token : String} {g : World}
    (h : Wrote i pid (.claimNwc now until_ token) g) : Leased i pid token g.history := by
  obtain ⟨c, row, -, -, -, hrec⟩ := h.row
  exact ⟨now, until_, row, hrec⟩

theorem leased_durable (i pid : Nat) (token : String) :
    (discipline n).Durable fun g => Leased i pid token g.history := by
  intro j g g' hg hmove h
  obtain ⟨l, hl, -⟩ := Move.history hmove
  exact hl ▸ h.append

theorem claimNwcLease_spec (app : App) (payment : Payment) :
    Spec n i (Returns i payment) (claimNwcLease app i payment) fun o g =>
      Idle i g ∧ ∀ p, o = some p → Leasing i payment p g := by
  have hk := Known.durable (n := n) payment
  refine Spec.bind (Keeps.input ((Passive.of_durable hk).and Idle.passive) _) fun input => ?_
  obtain ⟨now, token⟩ := input
  refine Spec.bind (execute_idle hk (by simp) fun _ _ _ _ _ _ => trivial) fun hit => ?_
  cases hit with
  | false =>
      refine Spec.bind (rollback_idle) fun _ => ?_
      exact .pure fun g _ h => ⟨h, by simp⟩
  | true =>
      have hF := hk.and (leased_durable i payment.id token)
      refine Spec.bind (Spec.pre (commit_sober.frame hF)
        fun g _ h => ⟨⟨h.1, h.2.leased⟩, h.2.sober⟩) fun _ => ?_
      refine Spec.bind (Spec.pre ((reloadLeased_spec payment.id token).frame hk)
        fun g _ h => ⟨h.1.1, h.1.2, h.2⟩) fun p => ?_
      refine Spec.pure fun g _ h => ⟨h.2.2.1, ?_⟩
      rintro q e
      obtain rfl := Option.some.inj e
      exact ⟨h.2.1, h.2.2.2.known, h.2.2.1, h.2.2.2.advances h.1 rfl⟩

theorem observedBlock_of_retryBlocked {p : Payment} (h : p.retryBlocked = false) :
    p.observedBlock = false := by
  simp only [Payment.retryBlocked, decide_eq_false_iff_not, not_or] at h
  simp only [Payment.observedBlock, decide_eq_false_iff_not, not_or, not_and]
  exact ⟨h.1, fun _ => h.2.1, h.2.2⟩

/-- The worker may record an attempt on the object. -/
structure Sends (n i : Nat) (p : Payment) (unsent : Unsent) (g : World) : Prop where
  tenant : Tenant i p g
  known : Known p g
  unsent : UnsentOk g.history p unsent
  refused : 0 < p.nwcAttemptCount → Refused p g
  room : p.nwcAttemptCount < n
  retry : 0 < p.nwcAttemptCount → p.retryBlocked = false
  fallback : p.method = .clink → p.clinkNwcFallback = true
  idle : Idle i g

theorem Sends.passive {p : Payment} {unsent : Unsent} : Passive n i (Sends n i p unsent) where
  stable := fun _ _ _ hj hg hmove h =>
    ⟨h.tenant.foreign hg hj hmove, Known.durable p hg hmove h.known,
      UnsentOk.durable p unsent hg hmove h.unsent,
      fun hpos => (h.refused hpos).foreign h.tenant hg hj hmove, h.room, h.retry, h.fallback,
      Idle.stable hj hg hmove h.idle⟩
  quiet hg hq h := by
    have hmove : Move n i _ _ := .quiet hq.toQuiet
    exact ⟨(Tenant.passive p).quiet hg hq h.tenant, Known.durable p hg hmove h.known,
      UnsentOk.durable p unsent hg hmove h.unsent,
      fun hpos => ((Refused.passive p).quiet hg hq ⟨h.tenant, h.refused hpos⟩).2, h.room, h.retry,
      h.fallback, Idle.passive.quiet hg hq h.idle⟩
  silent he hg h := by
    refine ⟨(Tenant.passive p).silent he hg h.tenant, Known.durable p hg (he.move _) h.known,
      UnsentOk.durable p unsent hg (he.move _) h.unsent,
      fun hpos => ((Refused.passive p).silent he hg ⟨h.tenant, h.refused hpos⟩).2, h.room, h.retry,
      h.fallback, h.idle.note _⟩

/-- What the worker knows is enough for the statement. -/
theorem Sends.recordOk {p row : Payment} {unsent : Unsent} {g : World} {token : String}
    {now next : Datetime} (h : Sends n i p unsent g) (hg : Inv n g)
    (ht : p.nwcLeaseToken = some token) (hv : g.payments.get i p.id = some row)
    (hsel : (PaymentUpdate.recordNwc token now next unsent).selects row = true) :
    RecordOk n i p.id g.history row token unsent := by
  obtain ⟨c, hc, hcalm⟩ := h.idle.view hv
  have hadv := h.known.advances_view hg hv
  simp only [PaymentUpdate.selects, decide_eq_true_eq] at hsel
  have htok : c.nwcLeaseToken = p.nwcLeaseToken := by
    rw [← hcalm.token, ht]
    exact hsel.2.1
  refine ⟨?_, ?_, ?_, ?_, h.unsent.advances hadv⟩
  · intro hm
    exact hadv.fallback (h.fallback (hadv.method ▸ hm))
  · intro hrb
    obtain ⟨t, ht', hl⟩ := h.tenant.leased hrb
    rw [ht, Option.some.injEq] at ht'
    exact ht' ▸ hl
  · intro hrb hu
    rw [hcalm.attempts, h.tenant.count hrb hu c hc htok]
    refine ⟨h.room, ?_⟩
    by_cases hz : p.nwcAttemptCount = 0
    · exact .inl hz
    · exact .inr (h.refused (Nat.pos_of_ne_zero hz) hrb hu c token hc ht (htok.trans ht))
  · intro hbk hrb hu
    rw [hcalm.observedBlock hrb]
    by_contra hno
    have hb := h.tenant.block hbk hrb hu c hc (by simp [ht]) htok (by simpa using hno)
    have hpend : p.status = .pending := by
      rcases hadv.status with e | ⟨e, -⟩
      · rw [← e]
        exact hsel.1
      · exact e
    have hfree : p.observedBlock = false := by
      by_cases hz : p.nwcAttemptCount = 0
      · exact (h.known.1.untried hpend hz).1
      · exact observedBlock_of_retryBlocked (h.retry (Nat.pos_of_ne_zero hz))
    rw [hfree] at hb
    contradiction

/-- An attempt was recorded for the payment. -/
def Tried (pid : Nat) (g : World) : Prop :=
  ∃ c, (g.payments.cell pid).committed = some c ∧ 0 < c.nwcAttemptCount

theorem Tried.durable (pid : Nat) : (discipline n).Durable (Tried pid) := by
  rintro j g g' hg hmove ⟨c, hc, hpos⟩
  obtain ⟨c', hc', hadv⟩ := committed_move hg hmove hc
  exact ⟨c', hc', Nat.lt_of_lt_of_le hpos hadv.nwcAttempts⟩

theorem Seen.attempts_pos {pid : Nat} {p : Payment} {g : World} (h : Seen pid p g)
    (ht : Tried pid g) : 0 < p.nwcAttemptCount := by
  obtain ⟨-, -, c, hc, hcalm⟩ := h
  obtain ⟨c', hc', hpos⟩ := ht
  rw [hc, Option.some.injEq] at hc'
  rw [hcalm.attempts, hc']
  exact hpos

theorem recordNwcSendAttempt_spec (app : App) (p : Payment) (unsent : Unsent) :
    Spec n i (Sends n i p unsent) (recordNwcSendAttempt app i p unsent) fun o g =>
      Idle i g ∧ ∀ q, o = some q → Known q g ∧ 0 < q.nwcAttemptCount ∧
        Payment.Advances p q := by
  unfold recordNwcSendAttempt
  split
  · exact .pure fun g _ h => ⟨h.idle, by simp⟩
  · rename_i token ht
    refine Spec.bind (Keeps.input Sends.passive _) fun now => ?_
    dsimp only
    generalize now + seconds (app.cfg.nwcRetryBaseSeconds * 2 ^ p.nwcAttemptCount) = next
    refine Spec.bind (Q := fun hit g =>
      (hit = true → Wrote i p.id (.recordNwc token now next unsent) g) ∧ Known p g)
      (execute_spec Sends.passive.stable ?_ ?_) fun hit => ?_
    · intro g row hg h hv hfree hsel
      obtain ⟨c, hc, hcalm⟩ := h.idle.view hv
      have hexec : ExecOk n i p.id g.history (g.payments.cell p.id) row
          (.recordNwc token now next unsent) := by
        simp only [ExecOk, hc]
        exact ⟨hcalm, h.recordOk hg ht hv hsel⟩
      exact ⟨hexec, fun _ => h.idle.executed hv hsel (by simp),
        Known.durable p hg (.execute hv hfree hsel hexec) h.known⟩
    · exact fun g _ h _ => ⟨by simp, h.known⟩
    · have hk := Known.durable (n := n) p
      cases hit with
      | false =>
          refine Spec.bind rollback_idle fun _ => ?_
          exact .pure fun g _ h => ⟨h, by simp⟩
      | true =>
          refine Spec.bind (Spec.pre (commit_wrote.frame hk) fun g _ h => ⟨h.2, h.1 rfl⟩)
            fun _ => ?_
          refine Spec.bind (Spec.pre (reload_frame (hk.and (Tried.durable p.id)))
            fun g _ h => ?_) fun q => ?_
          · obtain ⟨hkp, hidle, row, -, hid, hkr⟩ := h
            refine ⟨⟨hkp, ?_⟩, hidle⟩
            obtain ⟨-, c, hc, hadv⟩ := hkr
            rw [PaymentUpdate.set_id, hid] at hc
            exact ⟨c, hc, Nat.lt_of_lt_of_le (Nat.succ_pos _) hadv.nwcAttempts⟩
          · refine Spec.pure fun g _ h => ⟨h.2.1, ?_⟩
            rintro q' e
            obtain rfl := Option.some.inj e
            exact ⟨h.2.2.known, h.2.2.attempts_pos h.1.2, h.2.2.advances h.1.1 rfl⟩

/-! ## the NWC state machine -/

/-- What `_verify_nwc_result` leaves: a saved observation, or the assertion it
started from with columns that carry a preimage only if the result did. -/
def Checked (i : Nat) (P : World → Prop) (preimage : Option String) :
    Payment ⊕ Unsent → World → Prop
  | .inl saved, g => Returns i saved g
  | .inr unsent, g => P g ∧ (unsent.preimageHash.isSome → preimage.isSome)

theorem verifyNwcResult_spec (app : App) {P : World → Prop} (payment : Payment) (unsent : Unsent)
    (returned preimage : Option String) (fees : Option Int)
    (hP : ∀ g, P g → Returns i payment g) (hpos : 0 < payment.nwcAttemptCount)
    (hu : unsent.preimageHash = none) :
    Spec n i P (verifyNwcResult app i payment unsent returned preimage fees)
      (Checked i P preimage) := by
  have save : ∀ code, Spec n i P (do
      let saved ← saveNwcObservation i payment unsent .unknown (some code)
      pure (.inl saved)) (Checked i P preimage) := fun code =>
    Spec.bind ((saveNwcObservation_spec payment unsent .unknown (some code)
      (fun hz => absurd hz (Nat.pos_iff_ne_zero.mp hpos)) (by simp [hu])).pre fun g _ h => hP g h)
      fun _ => .pure fun _ _ h => h
  unfold verifyNwcResult
  split
  · exact save _
  · dsimp only
    cases preimage with
    | none => exact .pure fun g _ h => ⟨h, by simp [hu]⟩
    | some text =>
        dsimp only
        cases app.preimageHash text with
        | none => exact save _
        | some hash =>
            dsimp only
            split
            · exact save _
            · exact .pure fun g _ h => ⟨h, fun _ => rfl⟩

theorem Keeps.walletCredential (hA : Passive n i A) (payment : Payment) :
    Keeps n i A (Backend.walletCredential i payment) := by
  refine .bind (.getSubscription hA _) fun sub => ?_
  cases sub with
  | none => exact .raise _
  | some sub =>
      refine .bind (.getUser hA _) fun user => ?_
      cases user with
      | none => exact .raise _
      | some user => exact .bind (.input hA _) fun _ => .pure _

theorem sendNwcPayment_spec (app : App) (hre : RecheckOk n i recheck) (p : Payment)
    (unsent : Unsent) (hinv : p.invoice.isSome) :
    Spec n i (Sends n i p unsent) (sendNwcPayment app recheck i p unsent) (Returns i) := by
  refine Spec.bind (recordNwcSendAttempt_spec app p unsent) fun o => ?_
  cases o with
  | none => exact (reload_returns p.id).pre fun g _ h => h.1
  | some q =>
      refine Spec.pre (P := fun g => (0 < q.nwcAttemptCount ∧ Payment.Advances p q) ∧
        Returns i q g) (Spec.assume fun hq => ?_) fun g _ h => ⟨(h.2 q rfl).2, (h.2 q rfl).1, h.1⟩
      obtain ⟨hpos, hadv⟩ := hq
      have hqinv : q.invoice.isSome := (hadv.invoice hinv).1 ▸ hinv
      refine Spec.bind ((call_idle (f := Input.nwcPay) (e := fun _ => .nwcPay i q.id)
        (fun _ => rfl) (fun _ _ _ _ _ => by simp) (fun _ _ => trivial)
        (by simp)).frame (Known.durable q)) fun answer => ?_
      refine Spec.pre (P := Returns i q) ?_ fun g _ h => ⟨h.1, h.2.2⟩
      cases answer with
      | crash => exact .raise _
      | error code retryable =>
          dsimp only
          split
          · exact (releaseFailedNwcPayment_spec app hre q .none code true (by simp)).pre
              fun g _ h => ⟨⟨h.1, .none _ _⟩, h.2⟩
          · refine Spec.bind (saveNwcObservation_spec q .none .unknown (some code) ?_ ?_)
              fun _ => .raise _
            · exact fun hz => absurd hz (Nat.pos_iff_ne_zero.mp hpos)
            · simp [Unsent.none]
      | result state preimage fees =>
          refine Spec.bind (verifyNwcResult_spec app q .none none preimage fees
            (fun _ h => h) hpos rfl) fun checked => ?_
          cases checked with
          | inl saved => exact .pure fun _ _ h => h
          | inr unsent =>
              refine Spec.bind (Spec.pre (saveNwcObservation_spec q unsent state.value none ?_ ?_)
                fun g _ h => h.1) fun saved => settleObserved_spec app hre saved
              · exact fun hz => absurd hz (Nat.pos_iff_ne_zero.mp hpos)
              · exact fun _ => ⟨hpos, hqinv⟩

/-- The wallet answered the worker's lookup. -/
structure Answered (i : Nat) (p : Payment) (answer : NwcLookupAnswer) (g : World) : Prop where
  tenant : Tenant i p g
  known : Known p g
  idle : Idle i g
  refused : answer.adverse = true → Refused p g
  recorded : Recorded (.nwcLookup i p.id p.nwcLeaseToken answer) g

theorem Answered.passive {p : Payment} {answer : NwcLookupAnswer} :
    Passive n i (Answered i p answer) where
  stable := fun _ _ _ hj hg hmove h =>
    ⟨h.tenant.foreign hg hj hmove, Known.durable p hg hmove h.known,
      Idle.stable hj hg hmove h.idle, fun ha => (h.refused ha).foreign h.tenant hg hj hmove,
      Recorded.durable _ hg hmove h.recorded⟩
  quiet hg hq h := by
    have hmove : Move n i _ _ := .quiet hq.toQuiet
    exact ⟨(Tenant.passive p).quiet hg hq h.tenant, Known.durable p hg hmove h.known,
      Idle.passive.quiet hg hq h.idle,
      fun ha => ((Refused.passive p).quiet hg hq ⟨h.tenant, h.refused ha⟩).2,
      Recorded.durable _ hg hmove h.recorded⟩
  silent he hg h :=
    ⟨(Tenant.passive p).silent he hg h.tenant, Known.durable p hg (he.move _) h.known,
      h.idle.note _, fun ha => ((Refused.passive p).silent he hg ⟨h.tenant, h.refused ha⟩).2,
      Recorded.durable _ hg (he.move _) h.recorded⟩

theorem nwcLookup_spec {payment : Payment} (p : Payment) :
    Spec n i (Leasing i payment p)
      (call Input.nwcLookup (.nwcLookup i p.id p.nwcLeaseToken))
      fun answer g => Answered i p answer g := by
  refine Triple.atomic Leasing.passive.stable fun ω g g' b hg h hf => ?_
  simp only [Option.some.injEq, Prod.mk.injEq] at hf
  obtain ⟨rfl, rfl⟩ := hf
  have hmove : Move n i g (g.note (.nwcLookup i p.id p.nwcLeaseToken ω.nwcLookup)) :=
    .note rfl (fun _ _ _ _ => by simp) trivial (by simp)
  refine ⟨hmove, h.tenant.of_same (l := [_]) rfl rfl, Known.durable p hg hmove h.known,
    h.idle.note _, fun ha => ?_, List.mem_cons_self⟩
  intro _ _ c t _ ht _
  exact ⟨rfl, .inl ⟨i, ω.nwcLookup, by rw [ht], ha⟩⟩

/-- What holds of an object that is driven by NWC. -/
def Payment.Drivable (p : Payment) : Prop :=
  p.invoice.isSome ∧ (p.method = .clink → p.clinkNwcFallback = true)

theorem Payment.Drivable.advances {p q : Payment} (h : p.Drivable)
    (hadv : Payment.Advances p q) : q.Drivable :=
  ⟨(hadv.invoice h.1).1 ▸ h.1, fun hm => hadv.fallback (h.2 (hadv.method ▸ hm))⟩

theorem resolveNwcLookup_spec (app : App) (hre : RecheckOk app.cfg.nwcMaxPaymentAttempts i recheck)
    (p : Payment) (unsent : Unsent) (state : NwcLookupState) (paymentHash preimage : Option String)
    (fees : Option Int) (hd : p.Drivable) (hpos : 0 < p.nwcAttemptCount) :
    Spec app.cfg.nwcMaxPaymentAttempts i
      (fun g => Answered i p (.result state paymentHash preimage fees) g ∧
        (unsent.preimageHash.isSome → preimage.isSome))
      (resolveNwcLookup app recheck i p unsent state) (Returns i) := by
  have save : ∀ st code, Spec app.cfg.nwcMaxPaymentAttempts i
      (fun g => Answered i p (.result state paymentHash preimage fees) g ∧
        (unsent.preimageHash.isSome → preimage.isSome))
      (saveNwcObservation i p unsent st code) (Returns i) := fun st code =>
    (saveNwcObservation_spec p unsent st code
      (fun hz => absurd hz (Nat.pos_iff_ne_zero.mp hpos)) fun _ => ⟨hpos, hd.1⟩).pre
        fun _ _ h => ⟨h.1.known, h.1.idle⟩
  have adverse : (NwcLookupAnswer.result state paymentHash preimage fees).adverse = true →
      Spec app.cfg.nwcMaxPaymentAttempts i
        (fun g => Answered i p (.result state paymentHash preimage fees) g ∧
          (unsent.preimageHash.isSome → preimage.isSome))
        (do
          if p.retryBlocked then
            saveNwcObservation i p unsent .unknown (some "settlement_unconfirmed")
          else
            let now ← utcnow i
            if p.nwcNextAttemptAt.any (now < ·) then
              saveNwcObservation i p unsent state.value none
            else if app.cfg.nwcMaxPaymentAttempts ≤ p.nwcAttemptCount then
              releaseFailedNwcPayment app recheck i p unsent "attempts_exhausted" true
            else sendNwcPayment app recheck i p unsent) (Returns i) := by
    intro hadv
    -- The columns carry no preimage where adverse lookups carry none.
    have hu : ∀ g, Answered i p (.result state paymentHash preimage fees) g ∧
        (unsent.preimageHash.isSome → preimage.isSome) → UnsentOk g.history p unsent := by
      rintro g ⟨h, hpre⟩
      refine ⟨fun _ => ⟨hpos, hd.1⟩, fun hrb => ?_⟩
      cases hp : preimage with
      | none => simpa [hp] using hpre
      | some text =>
          have hrec := h.recorded
          rw [hp] at hrec hadv
          rw [hrb i p.id p.nwcLeaseToken state paymentHash text fees hrec] at hadv
          contradiction
    split
    · exact save _ _
    · rename_i hretry
      refine Spec.bind (Keeps.utcnow (Answered.passive.and (Passive.of_durable
        fun _ _ _ _ _ h => h))) fun now => ?_
      split
      · exact save _ _
      · split
        · exact (releaseFailedNwcPayment_spec app hre p unsent _ true (by simp)).pre
            fun g _ h => ⟨⟨h.1.known, hu g h⟩, h.1.idle⟩
        · rename_i hroom
          refine (sendNwcPayment_spec app hre p unsent hd.1).pre fun g _ h => ?_
          exact ⟨h.1.tenant, h.1.known, hu g h, fun _ => h.1.refused hadv, Nat.lt_of_not_le hroom,
            fun _ => by simpa using hretry, hd.2, h.1.idle⟩
  unfold resolveNwcLookup
  cases state with
  | settled => exact Spec.bind (save _ _) fun saved => settleObserved_spec app hre saved
  | pending => exact Spec.bind (save _ _) fun saved => settleObserved_spec app hre saved
  | unknown => exact save _ _
  | unsupported => exact save _ _
  | failed => exact adverse rfl
  | notFound => exact adverse rfl

theorem lookupNwcPayment_spec (app : App)
    (hre : RecheckOk app.cfg.nwcMaxPaymentAttempts i recheck) {payment : Payment} (p : Payment)
    (hd : p.Drivable) (hpos : 0 < p.nwcAttemptCount) :
    Spec app.cfg.nwcMaxPaymentAttempts i (Leasing i payment p)
      (lookupNwcPayment app recheck i p) (Returns i) := by
  refine Spec.bind (nwcLookup_spec p) fun answer => ?_
  cases answer with
  | crash => exact .raise _
  | error code =>
      refine Spec.bind (Keeps.utcnow Answered.passive) fun now => ?_
      refine Spec.bind (Spec.pre (saveNwcObservation_spec p _ .unknown (some code) ?_ ?_)
        fun g _ h => ⟨h.known, h.idle⟩) fun _ => .raise _
      · exact fun hz => absurd hz (Nat.pos_iff_ne_zero.mp hpos)
      · simp
  | result state paymentHash preimage fees =>
      refine Spec.bind (Keeps.utcnow Answered.passive) fun now => ?_
      refine Spec.bind (verifyNwcResult_spec app p _ paymentHash preimage fees
        (fun _ h => ⟨h.known, h.idle⟩) hpos rfl) fun checked => ?_
      cases checked with
      | inl saved => exact .pure fun _ _ h => h
      | inr unsent => exact resolveNwcLookup_spec app hre p unsent state _ _ _ hd hpos

theorem driveNwcPayment_spec (app : App)
    (hre : RecheckOk app.cfg.nwcMaxPaymentAttempts i recheck) {payment : Payment} (p : Payment)
    (hd : p.Drivable) :
    Spec app.cfg.nwcMaxPaymentAttempts i (Leasing i payment p)
      (driveNwcPayment app recheck i p) (Returns i) := by
  refine Spec.bind (Keeps.walletCredential Leasing.passive p) fun credential => ?_
  obtain ⟨user, available⟩ := credential
  dsimp only
  split
  · split
    · exact (releaseFailedNwcPayment_spec app hre p .none _ true (by simp)).pre
        fun g _ h => ⟨⟨h.known, .none _ _⟩, h.idle⟩
    · rename_i hne
      refine (saveNwcObservation_spec p .none .unknown _ (fun hz => absurd hz hne) ?_).pre
        fun g _ h => ⟨h.known, h.idle⟩
      simp [Unsent.none]
  · split
    · rename_i hpos
      exact lookupNwcPayment_spec app hre p hd hpos
    · rename_i hz
      refine (sendNwcPayment_spec app hre p .none hd.1).pre fun g _ h => ?_
      have hpos := app.cfg.nwcMaxPaymentAttempts_pos
      exact ⟨h.tenant, h.known, .none _ _, fun hp => absurd hp hz, by omega,
        fun hp => absurd hp hz, hd.2, h.idle⟩

theorem leaseNwcPayment_spec (app : App)
    (hre : RecheckOk app.cfg.nwcMaxPaymentAttempts i recheck) (payment : Payment)
    (hd : payment.Drivable) :
    Spec app.cfg.nwcMaxPaymentAttempts i (Returns i payment)
      (leaseNwcPayment app recheck i payment) (Returns i) := by
  refine Spec.bind (claimNwcLease_spec app payment) fun o => ?_
  cases o with
  | none => exact (reload_returns payment.id).pre fun g _ h => h.1
  | some p =>
      intro g hg h
      have hl := h.2 p rfl
      exact driveNwcPayment_spec app hre p (hd.advances hl.later) g hg hl

theorem reconcileNwcPayment_spec (app : App)
    (hre : RecheckOk app.cfg.nwcMaxPaymentAttempts i recheck) (payment : Payment) :
    Spec app.cfg.nwcMaxPaymentAttempts i (Returns i payment)
      (reconcileNwcPayment app recheck i payment) (Returns i) := by
  unfold reconcileNwcPayment
  split
  · exact .pure fun _ _ h => h
  · rename_i huses
    split
    · exact .pure fun _ _ h => h
    · rename_i hinv
      have hd : payment.Drivable := by
        simp only [Payment.usesNwc, not_or, not_not, decide_eq_true_eq] at huses
        refine ⟨?_, fun hm => ?_⟩
        · simp only [not_or] at hinv
          simpa [Option.isSome_iff_ne_none] using hinv.1
        · have hne : payment.method ≠ .nwc := by rw [hm]; decide
          by_contra hf
          exact huses.1 ⟨hne, fun e => hf e.2⟩
      have hlease := leaseNwcPayment_spec app hre payment hd
      refine Spec.bind (lndInvoiceState_known app payment (Known.durable payment)) fun state => ?_
      cases state with
      | settled => exact finalizePayment_plain app hre payment
      | canceled =>
          exact (releaseFailedNwcPayment_spec app hre payment .none _ false (fun _ => rfl)).pre
            fun g _ h => ⟨⟨h.1, .none _ _⟩, h.2⟩
      | accepted =>
          exact saveNwcObservation_spec payment .none .pending none (by simp)
            (by simp [Unsent.none])
      | «open» =>
          dsimp only
          split
          · refine Spec.bind (Keeps.utcnow ((Passive.of_durable (Known.durable payment)).and
              Idle.passive)) fun now => ?_
            split
            · exact (reload_returns payment.id).pre fun g _ h => h.2
            · exact hlease
          · exact hlease

/-! ## the CLINK state machine -/

theorem claimClinkLease_spec (app : App) (payment : Payment) :
    Spec n i (Returns i payment) (claimClinkLease app i payment) fun o g =>
      Idle i g ∧ ∀ p, o = some p → Known p g ∧ Payment.Advances payment p := by
  have hk := Known.durable (n := n) payment
  refine Spec.bind (Keeps.input ((Passive.of_durable hk).and Idle.passive) _) fun input => ?_
  refine Spec.bind (execute_idle hk (by simp) fun _ _ _ _ _ _ => trivial) fun hit => ?_
  cases hit with
  | false =>
      refine Spec.bind rollback_idle fun _ => ?_
      exact .pure fun g _ h => ⟨h, by simp⟩
  | true =>
      refine Spec.bind (Spec.pre (commit_sober.frame hk) fun g _ h => ⟨h.1, h.2.sober⟩) fun _ => ?_
      refine Spec.bind (reload_frame hk) fun p => ?_
      refine Spec.pure fun g _ h => ⟨h.2.1, ?_⟩
      rintro q e
      obtain rfl := Option.some.inj e
      exact ⟨h.2.2.known, h.2.2.advances h.1 rfl⟩

/-- The commit of the single CLINK attempt. -/
theorem commit_recordClink (pid : Nat) (token : String) (now : Datetime) :
    Spec n i (Wrote i pid (.recordClink token now)) (commit i) fun _ g =>
      Unspent i pid (Event.isClinkPay pid) Payment.clinkRecorded g ∧ Idle i g := by
  refine commit_marker ?_ (fun _ _ _ _ => rfl) fun _ hwf => hwf.covered_pays
  intro h c row hcalm hsel
  obtain ⟨u, rfl, -⟩ := hcalm
  simp only [PaymentUpdate.selects, decide_eq_true_eq] at hsel
  refine ⟨?_, rfl⟩
  have hz : c.clinkAttemptCount = 0 := hsel.2.1
  simp [Payment.clinkRecorded, hz]

/-- The worker has the right to one CLINK call. -/
def MayPay (i : Nat) (payment : Payment) (g : World) : Prop :=
  Unspent i payment.id (Event.isClinkPay payment.id) Payment.clinkRecorded g ∧
    Known payment g ∧ Idle i g

theorem recordClinkSendAttempt_spec (payment : Payment) :
    Spec n i (Returns i payment) (recordClinkSendAttempt i payment) fun o g =>
      Idle i g ∧ ∀ p, o = some p → MayPay i p g := by
  have hk := Known.durable (n := n) payment
  unfold recordClinkSendAttempt
  split
  · exact .pure fun g _ h => ⟨h.2, by simp⟩
  · rename_i token ht
    refine Spec.bind (Keeps.input ((Passive.of_durable hk).and Idle.passive) _) fun now => ?_
    refine Spec.bind (execute_idle hk (by simp) fun _ _ _ _ _ _ => trivial) fun hit => ?_
    cases hit with
    | false =>
        refine Spec.bind rollback_idle fun _ => ?_
        exact .pure fun g _ h => ⟨h, by simp⟩
    | true =>
        refine Spec.bind (Spec.pre (commit_recordClink payment.id token now) fun g _ h => h.2)
          fun _ => ?_
        refine Spec.bind (Q := fun p g => p.id = payment.id ∧ MayPay i p g) ?_ fun p => ?_
        · -- The reload changes nothing, so the right to the call survives it.
          refine Spec.bind (Q := fun o g => ∀ p, o = some p →
            p.id = payment.id ∧ MayPay i p g) ?_ fun o => ?_
          · refine Triple.atomic ((Unspent.stable _ _ _).and Idle.stable)
              fun ω g g' b hg h hf => ?_
            simp only [Option.some.injEq, Prod.mk.injEq] at hf
            obtain ⟨rfl, rfl⟩ := hf
            refine ⟨.stay g, fun p hp => ?_⟩
            have hseen := h.2.seen hg hp
            exact ⟨hseen.1, hseen.1 ▸ h.1, hseen.known, h.2⟩
          · cases o with
            | none => exact .raise _
            | some p => exact .pure fun g _ h => h p rfl
        · refine Spec.pure fun g _ h => ⟨h.2.2.2, ?_⟩
          rintro q e
          obtain rfl := Option.some.inj e
          exact h.2

theorem clinkPay_spec (payment : Payment) :
    Spec n i (MayPay i payment) (call Input.clinkPay (.clinkPay i payment.id))
      fun answer g => Recorded (.clinkPay i payment.id answer) g ∧ Returns i payment g := by
  refine Triple.atomic ((Unspent.stable _ _ _).and ((Known.durable payment).stable.and
    Idle.stable)) fun ω g g' b hg h hf => ?_
  simp only [Option.some.injEq, Prod.mk.injEq] at hf
  obtain ⟨rfl, rfl⟩ := hf
  have hmove : Move n i g (g.note (.clinkPay i payment.id ω.clinkPay)) :=
    .note rfl (fun _ _ _ _ => by simp) h.1 (by simp)
  exact ⟨hmove, List.mem_cons_self, Known.durable payment hg hmove h.2.1, h.2.2.note _⟩

theorem rejected_durable (pid : Nat) :
    (discipline n).Durable fun g => Rejected pid g.history := by
  rintro j g g' hg hmove ⟨k, answer, hmem, hd⟩
  obtain ⟨l, hl, -⟩ := Move.history hmove
  exact ⟨k, answer, hl ▸ List.mem_append_right l hmem, hd⟩

theorem startNwcFallback_spec (app : App)
    (hre : RecheckOk app.cfg.nwcMaxPaymentAttempts i recheck) (payment : Payment) (user : User)
    (code : String) :
    Spec app.cfg.nwcMaxPaymentAttempts i
      (fun g => Rejected payment.id g.history ∧ Returns i payment g)
      (startNwcFallback app recheck i payment user code) (Returns i) := by
  unfold startNwcFallback
  split
  · exact (releaseFailedClinkPayment_spec app hre payment code _).pre fun _ _ h => h.2
  · refine Spec.bind (Spec.pre (execute_idle (rejected_durable payment.id) (by simp)
      fun g row _ h _ _ => h) fun g _ h => ⟨h.1, h.2.2⟩) fun hit => ?_
    cases hit with
    | false => exact Spec.bind rollback_idle fun _ => reload_returns _
    | true =>
        refine Spec.bind (commit_sober.pre fun g _ h => h.2.sober) fun _ => ?_
        exact Spec.bind (reload_returns payment.id) fun p => reconcileNwcPayment_spec app hre p

theorem verifyClinkResult_spec (app : App) (payment : Payment) (preimage : Option String) :
    Spec n i (Returns i payment) (verifyClinkResult app i payment preimage) fun checked g =>
      match checked with
      | .inl saved => Returns i saved g
      | .inr _ => Returns i payment g := by
  have save : ∀ code, Spec n i (Returns i payment) (do
      let saved ← saveClinkObservation i payment none .unknown (some code)
      pure (.inl saved : Payment ⊕ Option String)) fun checked g =>
      match checked with
      | .inl saved => Returns i saved g
      | .inr _ => Returns i payment g := fun code =>
    Spec.bind ((saveClinkObservation_spec payment none .unknown (some code)).pre
      fun _ _ h => h.2) fun _ => .pure fun _ _ h => h
  unfold verifyClinkResult
  cases preimage with
  | none => exact .pure fun _ _ h => h
  | some text =>
      dsimp only
      cases app.preimageHash text with
      | none => exact save _
      | some hash =>
          dsimp only
          split
          · exact save _
          · exact .pure fun _ _ h => h

theorem sendClinkPayment_spec (app : App)
    (hre : RecheckOk app.cfg.nwcMaxPaymentAttempts i recheck) (payment : Payment) (user : User) :
    Spec app.cfg.nwcMaxPaymentAttempts i (MayPay i payment)
      (sendClinkPayment app recheck i payment user) (Returns i) := by
  refine Spec.bind (clinkPay_spec payment) fun answer => ?_
  split
  · rename_i code hdef
    refine (startNwcFallback_spec app hre payment user code).pre fun g _ h => ⟨?_, h.2⟩
    exact ⟨i, answer, h.1, by simp [hdef]⟩
  · refine Spec.pre (P := Returns i payment) ?_ fun _ _ h => h.2
    cases answer with
    | crash => exact .raise _
    | error code retryable walletRejection =>
        exact Spec.bind ((saveClinkObservation_spec payment none .unknown (some code)).pre
          fun _ _ h => h.2) fun _ => .raise _
    | result state preimage =>
        refine Spec.bind (verifyClinkResult_spec app payment preimage) fun checked => ?_
        cases checked with
        | inl saved => exact .pure fun _ _ h => h
        | inr preimageHash =>
            exact Spec.bind ((saveClinkObservation_spec payment preimageHash state.value none).pre
              fun _ _ h => h.2) fun saved => settleObserved_spec app hre saved

theorem driveClinkPayment_spec (app : App)
    (hre : RecheckOk app.cfg.nwcMaxPaymentAttempts i recheck) (payment : Payment) :
    Spec app.cfg.nwcMaxPaymentAttempts i (Returns i payment)
      (driveClinkPayment app recheck i payment) (Returns i) := by
  refine Spec.bind (Keeps.walletCredential ((Passive.of_durable (Known.durable payment)).and
    Idle.passive) payment) fun credential => ?_
  obtain ⟨user, available⟩ := credential
  dsimp only
  split
  · exact releaseFailedClinkPayment_spec app hre payment _ _
  · refine Spec.bind (recordClinkSendAttempt_spec payment) fun o => ?_
    cases o with
    | none => exact (reload_returns payment.id).pre fun g _ h => h.1
    | some p => exact (sendClinkPayment_spec app hre p user).pre fun g _ h => h.2 p rfl

theorem reconcileClinkPayment_spec (app : App)
    (hre : RecheckOk app.cfg.nwcMaxPaymentAttempts i recheck) (payment : Payment) :
    Spec app.cfg.nwcMaxPaymentAttempts i (Returns i payment)
      (reconcileClinkPayment app recheck i payment) (Returns i) := by
  unfold reconcileClinkPayment
  split
  · exact .pure fun _ _ h => h
  · split
    · exact .pure fun _ _ h => h
    · refine Spec.bind (lndInvoiceState_known app payment (Known.durable payment)) fun state => ?_
      cases state with
      | settled => exact finalizePayment_plain app hre payment
      | canceled => exact releaseFailedClinkPayment_spec app hre payment _ _
      | accepted =>
          exact (saveClinkObservation_spec payment none .pending none).pre fun _ _ h => h.2
      | «open» =>
          dsimp only
          split
          · exact reconcileNwcPayment_spec app hre payment
          · split
            · exact (reload_returns payment.id).pre fun _ _ h => h.2
            · refine Spec.bind (claimClinkLease_spec app payment) fun o => ?_
              cases o with
              | none => exact (reload_returns payment.id).pre fun g _ h => h.1
              | some p =>
                  refine (driveClinkPayment_spec app hre p).pre fun g _ h => ?_
                  exact ⟨(h.2 p rfl).1, h.1⟩

end Backend
