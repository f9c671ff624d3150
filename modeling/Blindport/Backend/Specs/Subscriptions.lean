import Blindport.Backend.Specs.Session
import Blindport.Backend.Subscriptions

/-!
# Blindport.Backend.Specs.Subscriptions

The functions of `services/subscriptions.py` and `services/ip_leases.py` keep
every passive assertion: they touch neither payments nor periods.
-/

namespace Backend

open Conc Conc.Discipline

variable {n i : Nat} {A : World → Prop}

/-- An expired row is expired, and keeps its key, its period and its prices. -/
theorem expiryValues_columns (cfg : Settings) (now : Datetime) (sub row : Subscription) :
    (expiryValues cfg now sub row).status = .expired ∧
    (expiryValues cfg now sub row).id = row.id ∧
    (expiryValues cfg now sub row).currentPeriodEnd = row.currentPeriodEnd ∧
    (expiryValues cfg now sub row).monthlyPriceSats = row.monthlyPriceSats ∧
    (expiryValues cfg now sub row).yearlyPriceSats = row.yearlyPriceSats := by
  unfold expiryValues
  dsimp only
  split
  · exact ⟨rfl, rfl, rfl, rfl, rfl⟩
  · split
    · exact ⟨rfl, rfl, rfl, rfl, rfl⟩
    · exact ⟨rfl, rfl, rfl, rfl, rfl⟩

namespace Keeps

/-! ## leases -/

theorem currentLease (hA : Passive n i A) (id : Nat) : Keeps n i A (Backend.currentLease i id) :=
  .query hA _

theorem updateLease (hA : Passive n i A) (id : Nat) (f : IPLease → IPLease) :
    Keeps n i A (Backend.updateLease i id f) := by
  refine Keeps.gentle hA fun ω g g' b hg h => ?_
  simp only [Option.map_eq_some_iff, Prod.mk.injEq] at h
  obtain ⟨⟨t, hit⟩, -, rfl, -⟩ := h
  exact gentle_same g t g.users

theorem quarantineLease (hA : Passive n i A) (sub : Subscription) (until_ : Datetime) :
    Keeps n i A (Backend.quarantineLease i sub until_) := by
  unfold Backend.quarantineLease
  split
  · exact .pure _
  · refine .bind (.currentLease hA _) fun lease => ?_
    cases lease with
    | none => exact .pure _
    | some lease => exact .bind (.utcnow hA) fun _ => .updateLease hA _ _

theorem activateLease (hA : Passive n i A) (sub : Subscription) :
    Keeps n i A (Backend.activateLease i sub) := by
  unfold Backend.activateLease
  split
  · exact .pure _
  · refine .bind (.currentLease hA _) fun lease => ?_
    cases lease with
    | none => exact .raise _
    | some lease =>
        dsimp only
        split
        · exact .raise _
        · exact .bind (.utcnow hA) fun _ => .updateLease hA _ _

theorem releaseLease (hA : Passive n i A) (sub : Subscription) :
    Keeps n i A (Backend.releaseLease i sub) := by
  unfold Backend.releaseLease
  split
  · exact .pure _
  · refine .bind (.currentLease hA _) fun lease => ?_
    cases lease with
    | none => exact .pure _
    | some lease => exact .bind (.utcnow hA) fun _ => .updateLease hA _ _

theorem refreshSubscription (hA : Passive n i A) (id : Nat) :
    Keeps n i A (Backend.refreshSubscription i id) := by
  refine .bind (.getSubscription hA id) fun sub => ?_
  cases sub with
  | none => exact .raise _
  | some sub => exact .pure _

/-! ## expiry -/

theorem notifyOwner (hA : Passive n i A) (cfg : Settings) (sub : Subscription) :
    Keeps n i A (Backend.notifyOwner cfg i sub) := by
  refine .bind (.getUser hA _) fun user => ?_
  cases user with
  | none => exact .pure _
  | some user =>
      dsimp only
      split
      · exact .queueNotification hA
      · exact .pure _

theorem expireSubscription (hA : Passive n i A) (cfg : Settings) (now : Datetime)
    (sub : Subscription) : Keeps n i A (Backend.expireSubscription cfg i now sub) := by
  refine .updateSubscription hA fun g row hrow => ?_
  have hactive : row.status = .active := (decide_eq_true_eq.mp hrow).1
  obtain ⟨hstatus, hid, hend, hmonthly, hyearly⟩ := expiryValues_columns cfg now sub row
  exact ⟨⟨hid, hend⟩, .of_settled hmonthly hyearly (by simp [hactive]) (by simp [hstatus])⟩

theorem quarantineExpired (hA : Passive n i A) (cfg : Settings) (now : Datetime)
    (sub : Subscription) : Keeps n i A (Backend.quarantineExpired cfg i now sub) := by
  unfold Backend.quarantineExpired
  split
  · exact .pure _
  · split
    · exact .raise _
    · exact .quarantineLease hA _ _

theorem expireEach (hA : Passive n i A) (cfg : Settings) (now : Datetime)
    (rows : List Subscription) : Keeps n i A (Backend.expireEach cfg i now rows) := by
  induction rows with
  | nil => exact .pure _
  | cons sub rest ih =>
      unfold Backend.expireEach
      split
      · refine .bind (.expireSubscription hA _ _ _) fun hit => ?_
        split
        · refine .bind (.quarantineExpired hA _ _ _) fun _ => ?_
          refine .bind (.notifyOwner hA _ _) fun _ => ?_
          exact .bind ih fun _ => .pure _
        · exact ih
      · exact ih

theorem refreshEach (hA : Passive n i A) (rows : List Subscription) :
    Keeps n i A (Backend.refreshEach i rows) := by
  induction rows with
  | nil => exact .pure _
  | cons sub rest ih =>
      exact .bind (.refreshSubscription hA _) fun _ => .bind ih fun _ => .pure _

/-! ## reservations -/

theorem beginNested (hA : Passive n i A) (sub : Subscription) (ip : String) (port : Option Nat) :
    Keeps n i A (Backend.beginNested i sub ip port) :=
  .call hA fun _ => .tried _ _ _

theorem reserveCandidate (hA : Passive n i A) (cfg : Settings) (sub : Subscription) (pid : Nat)
    (ip : String) (port : Option Nat) :
    Keeps n i A (Backend.reserveCandidate cfg i sub pid ip port) := by
  refine .bind (.beginNested hA _ _ _) fun _ => ?_
  refine .bind (.utcnow hA) fun now => .bind (.utcnow hA) fun leasedAt => ?_
  refine Keeps.gentle hA fun ω g g' b hg h => ?_
  dsimp only at h
  split at h
  · simp only [Option.map_eq_some_iff, Prod.mk.injEq] at h
    obtain ⟨⟨t, hit⟩, hupd, rfl, -⟩ := h
    have hkept : sub.Kept (Subscription.reserved cfg now pid ip port sub) :=
      ⟨⟨rfl, rfl⟩, rfl, rfl, rfl, rfl, rfl, rfl, rfl⟩
    exact gentle_update hg (fun row _ => ⟨(hkept.flush row).1, (hkept.flush row).2.alike⟩) hupd _
  · simp only [Option.some.injEq, Prod.mk.injEq] at h
    exact h.1 ▸ gentle_same g g.leases g.users
  · contradiction

theorem reserveFirst (hA : Passive n i A) (cfg : Settings) (pid : Nat) (noCapacity : String)
    (sub : Subscription) (candidates : List (String × Option Nat)) :
    Keeps n i A (Backend.reserveFirst cfg i pid noCapacity sub candidates) := by
  induction candidates generalizing sub with
  | nil => exact .raise _
  | cons candidate rest ih =>
      obtain ⟨ip, port⟩ := candidate
      refine .bind (.reserveCandidate hA _ _ _ _ _) fun assigned => ?_
      cases assigned with
      | some assigned => exact .pure _
      | none => exact .bind (.refreshSubscription hA _) fun sub => ih sub

theorem requireHeldLease (hA : Passive n i A) (sub : Subscription) :
    Keeps n i A (Backend.requireHeldLease i sub) := by
  unfold Backend.requireHeldLease
  split
  · exact .pure _
  · refine .bind (.currentLease hA _) fun lease => ?_
    cases lease with
    | none => exact .raise _
    | some lease =>
        dsimp only
        split
        · exact .raise _
        · exact .pure _

theorem resourceCandidates (hA : Passive n i A) (cfg : Settings) (sub : Subscription) :
    Keeps n i A (Backend.resourceCandidates cfg i sub) := by
  unfold Backend.resourceCandidates
  split
  · exact .pure _
  · refine .bind (.bind (.selectSubscriptions hA _) fun _ => .pure _) fun held => ?_
    exact .ite (.raise _) (.bind (.input hA _) fun _ => .pure _)
  · exact .pure _

theorem claimHold (hA : Passive n i A) (sub : Subscription) (now : Datetime) :
    Keeps n i A (Backend.claimHold i sub now) :=
  .keepSubscription hA fun _ => ⟨⟨rfl, rfl⟩, rfl, rfl, rfl, rfl, rfl, rfl, rfl⟩

theorem reserveSubscriptionResource (hA : Passive n i A) (cfg : Settings) (sub : Subscription)
    (pid : Nat) : Keeps n i A (Backend.reserveSubscriptionResource cfg i sub pid) := by
  unfold Backend.reserveSubscriptionResource
  split
  · exact .pure _
  · split
    · refine .bind (.utcnow hA) fun now => ?_
      split
      · refine .bind (.requireHeldLease hA _) fun _ => .bind (.utcnow hA) fun now => ?_
        refine .bind (.claimHold hA _ _) fun hit => ?_
        split
        · exact .refreshSubscription hA _
        · exact .raise _
      · exact .raise _
    · split
      · exact .raise _
      · exact .bind (.resourceCandidates hA _ _) fun _ => .reserveFirst hA _ _ _ _ _

theorem requireDomainPaymentReady (hA : Passive n i A) (cfg : Settings) (sub : Subscription) :
    Keeps n i A (Backend.requireDomainPaymentReady cfg i sub) := by
  unfold Backend.requireDomainPaymentReady
  split
  · exact .pure _
  · split
    · exact .raise _
    · refine .bind (.utcnow hA) fun now => ?_
      dsimp only
      repeat' split
      all_goals first | exact .raise _ | exact .pure _

end Keeps

/-- `release_reservation` leaves the object's period and what it waits for alone. -/
theorem releaseReservation_spec (hA : Passive n i A) (sub : Subscription) (pid : Nat) :
    Spec n i A (releaseReservation i sub pid) fun o g => A g ∧ ∀ assigned, o = some assigned →
      sub.Kept assigned := by
  unfold releaseReservation
  split
  · exact .pure fun g _ h => ⟨h, by simp⟩
  · refine Spec.bind (Keeps.releaseLease hA sub) fun _ => ?_
    refine Spec.bind (Keeps.utcnow hA) fun now => ?_
    refine .pure fun g _ h => ⟨h, fun _ e => Option.some.inj e ▸ ?_⟩
    exact ⟨⟨rfl, rfl⟩, rfl, rfl, rfl, rfl, rfl, rfl, rfl⟩

end Backend
