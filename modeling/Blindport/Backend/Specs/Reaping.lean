import Blindport.Backend.Reaping
import Blindport.Backend.Specs.Polling

/-!
# Blindport.Backend.Specs.Reaping

Expiry and the two reapers.  They commit in the middle, so what they keep is
not every passive assertion but that the session is idle.
-/

namespace Backend

open Conc Conc.Discipline

variable {n i : Nat} {A : World → Prop}

/-! ## loads of payments -/

/-- Every payment of the list was loaded. -/
def AllKnown (ps : List Payment) (g : World) : Prop := ∀ p ∈ ps, Known p g

theorem AllKnown.durable (ps : List Payment) : (discipline n).Durable (AllKnown ps) :=
  fun _ _ _ hg hmove h p hp => Known.durable p hg hmove (h p hp)

theorem AllKnown.head {p : Payment} {ps : List Payment} {g : World} (h : AllKnown ps g)
    (hp : ps.head? = some p) : Known p g :=
  h p (List.mem_of_head? hp)

/-- One action that reads the payments a session sees. -/
theorem query_known {f : World → List Payment}
    (hf : ∀ g p, p ∈ f g → ∃ pid, g.payments.get i pid = some p) :
    Spec n i (Idle i) (query f) fun ps g => AllKnown ps g ∧ Idle i g := by
  refine Triple.atomic Idle.stable fun ω g g' b hg h he => ?_
  simp only [Option.some.injEq, Prod.mk.injEq] at he
  obtain ⟨rfl, rfl⟩ := he
  refine ⟨.stay g, fun p hp => ?_, h⟩
  obtain ⟨pid, hv⟩ := hf g p hp
  exact (h.seen hg hv).known

theorem selectPayments_known (p : Payment → Bool) :
    Spec n i (Idle i) (selectPayments i p) fun ps g => AllKnown ps g ∧ Idle i g := by
  refine query_known fun g q hq => ?_
  obtain ⟨pid, -, hv⟩ := List.mem_filterMap.mp (List.mem_filter.mp hq).1
  exact ⟨pid, hv⟩

theorem openPayments_known (id : Nat) :
    Spec n i (Idle i) (openPayments i id) fun ps g => AllKnown ps g ∧ Idle i g :=
  selectPayments_known _

/-- `session.get(Payment, id)`. -/
theorem getPayment_known (pid : Nat) :
    Spec n i (Idle i) (query (·.payments.get i pid)) fun o g =>
      (∀ p, o = some p → Known p g) ∧ Idle i g := by
  refine Triple.atomic Idle.stable fun ω g g' b hg h he => ?_
  simp only [Option.some.injEq, Prod.mk.injEq] at he
  obtain ⟨rfl, rfl⟩ := he
  exact ⟨.stay g, fun p hv => (h.seen hg hv).known, h⟩

/-! ## expiry -/

/-- `expire_elapsed_subscriptions`. -/
theorem expireElapsedSubscriptions_spec (cfg : Settings) (rows : List Subscription) :
    Keeps n i (Idle i) (expireElapsedSubscriptions cfg i rows) := by
  refine .bind (.utcnow Idle.passive) fun now => ?_
  refine .bind (.expireEach Idle.passive cfg now rows) fun expired => ?_
  exact .ite (.bind commit_idle fun _ => .refreshEach Idle.passive rows) (.pure _)

/-! ## rounds -/

theorem Keeps.updateEach {f : Subscription → Db Bool} (h : ∀ sub, Keeps n i A (f sub))
    (rows : List Subscription) : Keeps n i A (Backend.updateEach f rows) := by
  induction rows with
  | nil => exact .pure _
  | cons sub rest ih => exact .bind (h sub) fun _ => .bind ih fun _ => .pure _

theorem commitIf_spec (changed : Bool) : Keeps n i (Idle i) (commitIf i changed) := by
  unfold commitIf
  split
  · exact commit_idle
  · exact .pure _

/-- A reconciliation that fails leaves the session idle as well. -/
theorem attempt_spec {α : Type} {P : World → Prop} {p : Db α} {Q : α → World → Prop}
    (hp : Spec n i P p Q) (hQ : ∀ a g, Q a g → Idle i g) :
    Spec n i P (attempt i p) fun _ => Idle i := by
  refine Spec.tryCatch (Spec.bind hp fun a => .pure fun g _ h => hQ a g h) fun e => ?_
  exact Spec.bind rollback_spec fun _ => .pure fun g _ h => h

/-! ## domain claims -/

theorem reconcileDomainPayment_spec (app : App) (payment : Payment) :
    Spec app.cfg.nwcMaxPaymentAttempts i (Returns i payment)
      (reconcileDomainPayment app i payment) (Returns i) := by
  unfold reconcileDomainPayment
  split
  · exact .pure fun _ _ h => h
  · split
    · exact checkAndSettlePayment_spec app payment
    · exact (expirePendingPayment_spec payment).pre fun g _ h => h.2

theorem releaseElapsedClaim_spec (now : Datetime) (id : Nat) :
    Keeps n i (Idle i) (releaseElapsedClaim i now id) := by
  refine .bind (.getSubscription Idle.passive id) fun sub => ?_
  cases sub with
  | none => exact .pure _
  | some current =>
      refine .ite (Spec.bind (amend_idle fun _ row _ => ?_) fun hit => ?_) (.pure _)
      · exact ⟨⟨rfl, rfl⟩, .of_settled rfl rfl (by simp [Subscription.upgradeReleased,
          Subscription.domainReleased])⟩
      · split
        · exact Spec.bind commit_sober fun _ => Keeps.pure _
        · exact Spec.bind rollback_idle fun _ => Keeps.pure _

theorem reapClaim_spec (app : App) (now : Datetime) (sub : Subscription) :
    Keeps app.cfg.nwcMaxPaymentAttempts i (Idle i) (reapClaim app i now sub) := by
  refine Spec.bind (openPayments_known sub.id) fun ps => ?_
  cases hp : ps.head? with
  | none => exact (releaseElapsedClaim_spec now sub.id).pre fun g _ h => h.2
  | some payment =>
      dsimp only
      split
      · exact .pure fun g _ h => h.2
      · refine Spec.bind (Q := fun _ => Idle i)
          ((attempt_spec (reconcileDomainPayment_spec app payment) fun _ _ h => h.2).pre
            fun g _ h => ⟨h.1.head hp, h.2⟩) fun ok => ?_
        exact Keeps.ite (releaseElapsedClaim_spec now sub.id) (.pure _)

/-- `reap_expired_domain_claims`. -/
theorem reapExpiredDomainClaims_spec (app : App) :
    Keeps app.cfg.nwcMaxPaymentAttempts i (Idle i) (reapExpiredDomainClaims app i) := by
  refine .bind (.utcnow Idle.passive) fun now => ?_
  refine .bind (.selectSubscriptions Idle.passive _) fun elapsed => ?_
  refine .bind (expireElapsedSubscriptions_spec app.cfg elapsed) fun _ => ?_
  refine .bind (.selectSubscriptions Idle.passive _) fun pending => ?_
  refine .bind (.updateEach (fun sub => ?_) pending) fun initialized => ?_
  · exact .keepSubscription Idle.passive fun _ => ⟨⟨rfl, rfl⟩, rfl, rfl, rfl, rfl, rfl, rfl, rfl⟩
  refine .bind (commitIf_spec initialized) fun _ => ?_
  refine .bind (.selectSubscriptions Idle.passive _) fun expired => ?_
  refine .bind (.updateEach (fun sub => ?_) expired) fun initialized => ?_
  · exact .keepSubscription Idle.passive fun _ => ⟨⟨rfl, rfl⟩, rfl, rfl, rfl, rfl, rfl, rfl, rfl⟩
  refine .bind (commitIf_spec initialized) fun _ => ?_
  refine .bind (.selectSubscriptions Idle.passive _) fun candidates => ?_
  exact .bind (.updateEach (reapClaim_spec app now) candidates) fun _ => .pure _

/-! ## scarce resources -/

theorem Keeps.extendLease (hA : Passive n i A) (sub : Subscription) (renewalEnd : Datetime) :
    Keeps n i A (extendHold.extendLease i sub renewalEnd) := by
  unfold extendHold.extendLease
  split
  · exact .pure _
  · refine .bind (.currentLease hA sub.id) fun lease => ?_
    cases lease with
    | none => exact .pure _
    | some lease => exact .ite (.updateLease hA _ _) (.pure _)

theorem extendHold_spec (now : Datetime) (sub : Subscription) (renewalEnd : Datetime) :
    Keeps n i (Idle i) (extendHold i now sub renewalEnd) := by
  refine .bind (.keepSubscription Idle.passive fun _ => ?_) fun hit => ?_
  · exact ⟨⟨rfl, rfl⟩, rfl, rfl, rfl, rfl, rfl, rfl, rfl⟩
  exact .ite (.bind (.extendLease Idle.passive sub renewalEnd) fun _ => commit_idle) rollback_idle

theorem reapHold_spec (now deadline : Datetime) (id : Nat) :
    Keeps n i (Idle i) (reapHold i now deadline id) := by
  refine .bind (.refreshSubscription Idle.passive id) fun sub => ?_
  refine .ite (.pure _) ?_
  cases sub.currentPeriodEnd with
  | none => exact .pure _
  | some periodEnd =>
      refine .ite (extendHold_spec now sub _) (.ite (.pure _) ?_)
      refine .bind (.refreshSubscription Idle.passive id) fun sub => ?_
      refine .bind (.keepSubscription Idle.passive fun _ => ?_) fun hit => ?_
      · exact ⟨⟨rfl, rfl⟩, rfl, rfl, rfl, rfl, rfl, rfl, rfl⟩
      exact .ite (.bind (.releaseLease Idle.passive sub) fun _ => commit_idle) rollback_idle

theorem reapQuarantine_spec (app : App) (now : Datetime) (sub : Subscription) :
    Keeps app.cfg.nwcMaxPaymentAttempts i (Idle i) (reapQuarantine app i now sub) := by
  unfold reapQuarantine
  cases sub.resourceQuarantinedUntil with
  | none => exact .pure _
  | some deadline =>
      refine .ite (.pure _) (.ite (reapHold_spec now deadline sub.id) ?_)
      refine Spec.bind (openPayments_known sub.id) fun ps => ?_
      cases hp : ps.head? with
      | none => exact (reapHold_spec now deadline sub.id).pre fun g _ h => h.2
      | some payment =>
          dsimp only
          split
          · exact .pure fun g _ h => h.2
          · refine Spec.bind (Q := fun _ => Idle i)
              ((attempt_spec (checkAndSettlePayment_spec app payment) fun _ _ h => h.2).pre
                fun g _ h => ⟨h.1.head hp, h.2⟩) fun ok => ?_
            exact Keeps.ite (reapHold_spec now deadline sub.id) (.pure _)

theorem releaseOrphan_spec (now : Datetime) (sub : Subscription) :
    Keeps n i (Idle i) (releaseOrphan i now sub) := by
  refine .bind (.releaseLease Idle.passive sub) fun _ => ?_
  refine .bind (.flushSubscription Idle.passive ?_) fun _ => commit_idle
  exact ⟨⟨rfl, rfl⟩, rfl, rfl, rfl, rfl, rfl, rfl, rfl⟩

theorem releaseOwned_spec (sub : Subscription) (pid : Nat) :
    Keeps n i (Idle i) (reapOwned.releaseOwned i sub pid) := by
  refine Spec.bind (releaseReservation_spec Idle.passive sub pid) fun o => ?_
  cases o with
  | none => exact .pure fun g _ h => h.1
  | some assigned =>
      refine Spec.pre (Spec.assume fun h => ?_) fun g _ h => ⟨h.2 assigned rfl, h.1⟩
      exact Keeps.bind (.flushSubscription Idle.passive h) fun _ => commit_idle

theorem reapOwned_spec (app : App) (sub : Subscription) (pid : Nat) :
    Keeps app.cfg.nwcMaxPaymentAttempts i (Idle i) (reapOwned app i sub pid) := by
  refine Spec.bind (getPayment_known pid) fun o => ?_
  have hrelease : Spec app.cfg.nwcMaxPaymentAttempts i
      (fun g => (∀ p, o = some p → Known p g) ∧ Idle i g) (reapOwned.releaseOwned i sub pid)
      fun _ => Idle i := (releaseOwned_spec sub pid).pre fun g _ h => h.2
  cases o with
  | none => exact hrelease
  | some payment =>
      dsimp only
      cases payment.status with
      | paid => exact hrelease
      | expired => exact hrelease
      | failed => exact hrelease
      | processing => exact .pure fun g _ h => h.2
      | pending =>
          refine Spec.tryCatch (Spec.bind (Q := fun _ => Idle i) ?_ fun _ => .pure fun g _ h => h)
            fun e => ?_
          · refine ((checkAndSettlePayment_spec app payment).pre fun g _ h => ?_).mono
              fun _ _ _ h => h.2
            exact ⟨h.1 payment rfl, h.2⟩
          · split
            · exact rollback_spec
            · exact .raise _

theorem reapReservation_spec (app : App) (now : Datetime) (sub : Subscription) :
    Keeps app.cfg.nwcMaxPaymentAttempts i (Idle i) (reapReservation app i now sub) := by
  unfold reapReservation
  refine .ite (.pure _) ?_
  cases sub.reservationPaymentId with
  | none => exact releaseOrphan_spec now sub
  | some pid => exact reapOwned_spec app sub pid

/-- `reap_elapsed_resource_holds`. -/
theorem reapElapsedResourceHolds_spec (app : App) :
    Keeps app.cfg.nwcMaxPaymentAttempts i (Idle i) (reapElapsedResourceHolds app i) := by
  refine .bind (.utcnow Idle.passive) fun now => ?_
  refine .bind (.selectSubscriptions Idle.passive _) fun quarantined => ?_
  refine .bind (.forEach fun sub _ => reapQuarantine_spec app now sub) fun _ => ?_
  refine .bind (.selectSubscriptions Idle.passive _) fun reservations => ?_
  exact .forEach fun sub _ => reapReservation_spec app now sub

end Backend
