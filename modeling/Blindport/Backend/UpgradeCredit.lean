import Mathlib.Tactic.Ring
import Blindport.Conc.Machine
import Blindport.Backend.Requests

/-!
# Blindport.Backend.UpgradeCredit

What the credit of a wildcard upgrade is worth.  `Account` follows one exact-host
Relay subscription through its settled Lightning payments and its expiries, with
everything that was paid for it; time only passes.

The credit values all the remaining time by the term that settled last.  It is
backed by what was paid as long as no term settles over remaining time that was
bought at a lower daily price (`upgrade_credit_backed`).
-/

namespace Backend

/-- A subscription, the time, and the sats paid for the subscription. -/
structure Account where
  clock : Datetime
  subscription : Subscription
  paid : Int

namespace Account

/-- What happens to the subscription, and how long after the event before it. -/
inductive Event where
  /-- A Lightning payment for a term settles. -/
  | settle (after : Nat) (term : BillingTerm)
  /-- `expire_elapsed_subscriptions` finds the subscription. -/
  | expire (after : Nat)
deriving DecidableEq

/-- `_finalize_payment` on the subscription: the term of the payment, and a renewal
or an activation. -/
def settled (now : Datetime) (payment : Payment) (sub : Subscription) : Subscription :=
  let sub := { sub with billingTerm := payment.billingTerm }
  if payment.isRenewal sub then sub.renewed now payment.periodDays
  else sub.activated now payment.periodDays

/-- The Lightning payment `create_payment` stores for a term. -/
def lightning (cfg : Settings) (sub : Subscription) (term : BillingTerm) (createdAt : Datetime) :
    Except String Payment :=
  match sub.quote cfg .lightning term sub.upgradeInitial with
  | .error message => .error message
  | .ok quote =>
      let req : PaymentRequest := ⟨.lightning, some term, none, false⟩
      .ok (req.row cfg sub term quote createdAt 0)

/-- One event; `none` when it cannot happen. -/
def step (cfg : Settings) (a : Account) : Event → Option Account
  | .settle after term =>
      let now := a.clock + after
      if a.subscription.status = .cancelled then none
      else
        match lightning cfg a.subscription term a.clock with
        | .error _ => none
        | .ok payment =>
            some ⟨now, settled now payment a.subscription, a.paid + payment.amountSats⟩
  | .expire after =>
      let now := a.clock + after
      if a.subscription.elapsed now then
        some ⟨now, expiryValues cfg now a.subscription a.subscription, a.paid⟩
      else none

/-- An exact-host claim nothing was paid for yet. -/
structure Fresh (a : Account) : Prop where
  product : a.subscription.product = .relay
  scope : a.subscription.relayHostnameScope = .exact
  source : a.subscription.upgradeFromSubscriptionId = none
  period : a.subscription.currentPeriodEnd = none
  paid : a.paid = 0

/-- The microseconds of service that are left. -/
def remaining (a : Account) (now : Datetime) : Int :=
  max 0 (a.subscription.currentPeriodEnd.getD now - now)

/-- A payment that settles over remaining time is for a term that costs no more a
day than the stored one. -/
def NotDearer (a : Account) : Event → Prop
  | .settle after term => a.remaining (a.clock + after) = 0 ∨
      a.subscription.priceSats term * billingPeriodDays a.subscription.billingTerm ≤
        a.subscription.priceSats a.subscription.billingTerm * billingPeriodDays term
  | .expire _ => True

instance (a : Account) (e : Event) : Decidable (a.NotDearer e) := by
  cases e <;> unfold NotDearer <;> infer_instance

/-- What `create_wildcard_upgrade` grants the target. -/
def granted (a : Account) (now : Datetime) (target : Subscription) (term : BillingTerm) : Int :=
  min (a.subscription.upgradeCredit now) (target.priceSats term)

/-! ## one event -/

/-- What holds of a subscription throughout: it is the target of no upgrade, and what
is left of it from now on, valued by the stored term, was paid for. -/
structure Backed (a : Account) : Prop where
  product : a.subscription.product = .relay
  source : a.subscription.upgradeFromSubscriptionId = none
  paid : 0 ≤ a.paid
  value : ∀ now, a.clock ≤ now →
    a.remaining now * a.subscription.priceSats a.subscription.billingTerm ≤
      a.paid * days (billingPeriodDays a.subscription.billingTerm)

theorem billingPeriodDays_pos (term : BillingTerm) : 0 < billingPeriodDays term := by
  cases term <;> decide

/-- The payment of a claim that is no upgrade: the full price for the standard period. -/
theorem lightning_ok {cfg : Settings} {sub : Subscription} {term : BillingTerm}
    {createdAt : Datetime} {payment : Payment} (hsource : sub.upgradeFromSubscriptionId = none)
    (h : lightning cfg sub term createdAt = .ok payment) :
    payment.amountSats = sub.priceSats term ∧ payment.periodDays = billingPeriodDays term ∧
      payment.billingTerm = term ∧ 0 ≤ sub.priceSats term := by
  have hinitial : sub.upgradeInitial = false := by simp [Subscription.upgradeInitial, hsource]
  simp only [lightning, Subscription.quote, hinitial] at h
  simp only [Bool.false_eq_true, if_false, Int.lt_irrefl, false_or, and_false, ne_eq,
    reduceCtorEq, not_false_eq_true, if_true, Int.sub_zero] at h
  split at h
  · cases h
  · rename_i quote hquote
    split at hquote
    · cases hquote
    · rename_i hprice
      obtain rfl := Except.ok.inj hquote
      obtain rfl := Except.ok.inj h
      exact ⟨rfl, rfl, rfl, Int.not_lt.mp hprice⟩

theorem settled_relay {sub : Subscription} {payment : Payment} {now : Datetime}
    (hproduct : sub.product = .relay) :
    settled now payment sub =
      if sub.status = .active then
        ({ sub with billingTerm := payment.billingTerm }).renewed now payment.periodDays
      else ({ sub with billingTerm := payment.billingTerm }).activated now payment.periodDays := by
  unfold settled Payment.isRenewal
  simp [hproduct, ProductType.scarce]

theorem left_extended {periodEnd now period : Int} (hperiod : 0 ≤ period)
    (hleft : now < periodEnd) :
    max 0 (periodEnd + period - now) = max 0 (periodEnd - now) + period := by
  omega

theorem left_restarted {periodEnd now period : Int} (hperiod : 0 ≤ period)
    (hleft : ¬ now < periodEnd) :
    max 0 (now + period - now) = max 0 (periodEnd - now) + period := by
  omega

/-- A settlement extends what is left at the clock, or starts over from it. -/
theorem remaining_settled {a : Account} {payment : Payment} {now : Datetime} {paid : Int}
    (hproduct : a.subscription.product = .relay) (hdays : 0 ≤ days payment.periodDays) :
    (Account.mk now (settled now payment a.subscription) paid).remaining now =
        a.remaining now + days payment.periodDays ∨
    (Account.mk now (settled now payment a.subscription) paid).remaining now =
        days payment.periodDays := by
  rw [settled_relay hproduct]
  split
  · left
    simp only [remaining, Subscription.renewed, Subscription.renewalBase, Option.getD_some]
    cases a.subscription.currentPeriodEnd with
    | none => exact left_restarted hdays (Int.lt_irrefl now)
    | some periodEnd =>
        by_cases hleft : now < periodEnd
        · simp only [if_pos hleft, Option.getD_some]
          exact left_extended hdays hleft
        · simp only [if_neg hleft, Option.getD_some]
          exact left_restarted hdays hleft
  · right
    simp only [remaining, Subscription.activated, Option.getD_some]
    have hlater : now + days payment.periodDays - now = days payment.periodDays := by ring
    rw [hlater, max_eq_right hdays]

/-- Time that was bought at no less a day is worth no more under another term. -/
theorem value_of_notDearer {left price price' paid period period' : Int} (hperiod : 0 < period)
    (hperiod' : 0 < period') (hleft : 0 ≤ left) (hvalue : left * price ≤ paid * days period)
    (hdearer : price' * period ≤ price * period') : left * price' ≤ paid * days period' := by
  simp only [days] at hvalue ⊢
  have hscaled : left * price' * period ≤ paid * (period' * 86400000000) * period := by
    calc left * price' * period = left * (price' * period) := by ring
      _ ≤ left * (price * period') := Int.mul_le_mul_of_nonneg_left hdearer hleft
      _ = left * price * period' := by ring
      _ ≤ paid * (period * 86400000000) * period' :=
          Int.mul_le_mul_of_nonneg_right hvalue hperiod'.le
      _ = paid * (period' * 86400000000) * period := by ring
  exact Int.le_of_mul_le_mul_right hscaled hperiod

theorem remaining_nonneg (a : Account) (now : Datetime) : 0 ≤ a.remaining now :=
  Int.le_max_left _ _

/-- What is left only shrinks. -/
theorem remaining_le (a : Account) {now later : Datetime} (h : now ≤ later) :
    a.remaining later ≤ a.remaining now := by
  unfold remaining
  cases a.subscription.currentPeriodEnd with
  | none => simp
  | some periodEnd =>
      simp only [Option.getD_some]
      exact max_le_max_left 0 (Int.sub_le_sub_left h periodEnd)

theorem Fresh.backed {a : Account} (h : a.Fresh) : a.Backed where
  product := h.product
  source := h.source
  paid := by rw [h.paid]
  value now _ := by
    simp only [remaining, h.period, Option.getD_none, Int.sub_self, h.paid]
    simp

@[simp] theorem settled_priceSats (now : Datetime) (payment : Payment) (sub : Subscription)
    (term : BillingTerm) : (settled now payment sub).priceSats term = sub.priceSats term := by
  simp only [settled]
  split <;> cases term <;> rfl

theorem settled_columns (now : Datetime) (payment : Payment) (sub : Subscription) :
    (settled now payment sub).billingTerm = payment.billingTerm ∧
      (settled now payment sub).product = sub.product ∧
      (settled now payment sub).upgradeFromSubscriptionId = sub.upgradeFromSubscriptionId := by
  simp only [settled]
  split <;> exact ⟨rfl, rfl, rfl⟩

/-- An expiry keeps what the credit is computed from. -/
theorem expiryValues_columns (cfg : Settings) (now : Datetime) (sub : Subscription) :
    let row := expiryValues cfg now sub sub
    row.product = sub.product ∧ row.upgradeFromSubscriptionId = sub.upgradeFromSubscriptionId ∧
      row.currentPeriodEnd = sub.currentPeriodEnd ∧ row.billingTerm = sub.billingTerm ∧
      row.monthlyPriceSats = sub.monthlyPriceSats ∧ row.yearlyPriceSats = sub.yearlyPriceSats := by
  simp only [expiryValues]
  split
  · exact ⟨rfl, rfl, rfl, rfl, rfl, rfl⟩
  split <;> exact ⟨rfl, rfl, rfl, rfl, rfl, rfl⟩

/-- A settlement adds the price of the time it adds. -/
theorem Backed.settle {cfg : Settings} {a : Account} {after : Nat} {term : BillingTerm}
    {payment : Payment} (h : a.Backed) (hdearer : a.NotDearer (.settle after term))
    (hpayment : lightning cfg a.subscription term a.clock = .ok payment) :
    (Account.mk (a.clock + after) (settled (a.clock + after) payment a.subscription)
      (a.paid + payment.amountSats)).Backed := by
  obtain ⟨hamount, hperiod, hterm, hprice⟩ := lightning_ok h.source hpayment
  obtain ⟨hstored, hproduct, hsource⟩ := settled_columns (a.clock + after) payment a.subscription
  have hpos := billingPeriodDays_pos term
  have hdays : 0 ≤ days payment.periodDays := by rw [hperiod]; simp only [days]; omega
  refine ⟨hproduct.trans h.product, hsource.trans h.source, ?_, ?_⟩
  · have := h.paid
    simp only [hamount]
    omega
  · intro now hnow
    simp only [hstored, hterm, settled_priceSats, hamount]
    -- what was left when the payment settled, under the term of the payment
    have hleft : a.remaining (a.clock + after) * a.subscription.priceSats term ≤
        a.paid * days (billingPeriodDays term) := by
      cases hdearer with
      | inl hzero =>
          rw [hzero, Int.zero_mul]
          exact Int.mul_nonneg h.paid (by rw [← hperiod]; exact hdays)
      | inr hcheaper =>
          exact value_of_notDearer (billingPeriodDays_pos _) hpos (a.remaining_nonneg _)
            (h.value _ (Int.le_add_of_nonneg_right (Int.natCast_nonneg after))) hcheaper
    have hbought : (Account.mk (a.clock + after) (settled (a.clock + after) payment a.subscription)
        (a.paid + a.subscription.priceSats term)).remaining (a.clock + after) ≤
        a.remaining (a.clock + after) + days (billingPeriodDays term) := by
      have hnonneg := a.remaining_nonneg (a.clock + after)
      rw [← hperiod]
      cases remaining_settled h.product hdays with
      | inl heq => rw [heq]
      | inr heq => rw [heq]; omega
    calc _ ≤ (a.remaining (a.clock + after) + days (billingPeriodDays term)) *
          a.subscription.priceSats term :=
            Int.mul_le_mul_of_nonneg_right (Int.le_trans (remaining_le _ hnow) hbought) hprice
      _ = a.remaining (a.clock + after) * a.subscription.priceSats term +
          a.subscription.priceSats term * days (billingPeriodDays term) := by ring
      _ ≤ a.paid * days (billingPeriodDays term) +
          a.subscription.priceSats term * days (billingPeriodDays term) := by omega
      _ = (a.paid + a.subscription.priceSats term) * days (billingPeriodDays term) := by ring

theorem Backed.step {cfg : Settings} {a a' : Account} {e : Event} (h : a.Backed)
    (hdearer : a.NotDearer e) (hstep : a.step cfg e = some a') : a'.Backed := by
  cases e with
  | settle after term =>
      simp only [Account.step] at hstep
      split at hstep
      · cases hstep
      split at hstep
      · cases hstep
      rename_i payment hpayment
      obtain rfl := Option.some.inj hstep
      exact h.settle hdearer hpayment
  | expire after =>
      simp only [Account.step] at hstep
      split at hstep
      · obtain rfl := Option.some.inj hstep
        obtain ⟨hproduct, hsource, hend, hterm, hmonthly, hyearly⟩ :=
          expiryValues_columns cfg (a.clock + after) a.subscription
        refine ⟨hproduct.trans h.product, hsource.trans h.source, h.paid, ?_⟩
        intro now hnow
        have hvalue := h.value now
          (Int.le_trans (Int.le_add_of_nonneg_right (Int.natCast_nonneg after)) hnow)
        unfold remaining Subscription.priceSats at hvalue ⊢
        simp only [hend, hterm, hmonthly, hyearly]
        exact hvalue
      · cases hstep

/-! ## every history -/

theorem wholeSeconds_le (left : Int) : max 0 (left / 1000000) * 1000000 ≤ max 0 left := by
  omega

/-- The credit of a backed subscription. -/
theorem Backed.credit_le {a : Account} (h : a.Backed) {now : Datetime} (hnow : a.clock ≤ now) :
    a.subscription.upgradeCredit now ≤ a.paid := by
  have hvalue := h.value now hnow
  have hpos := billingPeriodDays_pos a.subscription.billingTerm
  have hpaid := h.paid
  unfold remaining at hvalue
  unfold Subscription.upgradeCredit
  dsimp only
  generalize a.subscription.currentPeriodEnd.getD now - now = left at hvalue ⊢
  generalize a.subscription.priceSats a.subscription.billingTerm = price at hvalue ⊢
  generalize billingPeriodDays a.subscription.billingTerm = period at hvalue hpos ⊢
  simp only [days] at hvalue
  apply Int.ediv_le_of_le_mul (by omega)
  by_cases hprice : 0 ≤ price
  · -- whole seconds are no more than the microseconds
    have hseconds : max 0 (left / 1000000) * 1000000 ≤ max 0 left := wholeSeconds_le left
    have hscaled : max 0 (left / 1000000) * price * 1000000 ≤
        a.paid * (period * 86400) * 1000000 := by
      calc max 0 (left / 1000000) * price * 1000000 =
            max 0 (left / 1000000) * 1000000 * price := by ring
        _ ≤ max 0 left * price := Int.mul_le_mul_of_nonneg_right hseconds hprice
        _ ≤ a.paid * (period * 86400000000) := hvalue
        _ = a.paid * (period * 86400) * 1000000 := by ring
    exact Int.le_of_mul_le_mul_right hscaled (by decide)
  · have hnegative : max 0 (left / 1000000) * price ≤ 0 :=
      Int.mul_nonpos_of_nonneg_of_nonpos (Int.le_max_left _ _) (by omega)
    exact Int.le_trans hnegative (Int.mul_nonneg hpaid (by omega))

/-- **An upgrade credit is backed by what was paid.** For every history of settled
Lightning payments of an exact-host claim, monthly and yearly in any order, in which
no term settles over remaining time that was bought at a lower daily price: at every
instant after it, what an upgrade grants is at most what was paid for the claim, and
at most the price of its target. -/
theorem upgrade_credit_backed (cfg : Settings) {start a : Account} {events : List Event}
    (hstart : start.Fresh) (hmeets : Conc.Meets (step cfg) NotDearer start events)
    (hrun : Conc.exec (step cfg) start events = some a) (after : Nat) (target : Subscription)
    (term : BillingTerm) :
    a.granted (a.clock + after) target term ≤ a.paid ∧
      a.granted (a.clock + after) target term ≤ target.priceSats term := by
  have hbacked : a.Backed :=
    hmeets.invariant (fun _ _ _ h hdearer hstep => h.step hdearer hstep) hstart.backed hrun
  have hcredit := hbacked.credit_le
    (Int.le_add_of_nonneg_right (Int.natCast_nonneg after) : a.clock ≤ a.clock + after)
  constructor
  · exact Int.le_trans (Int.min_le_left _ _) hcredit
  · exact Int.min_le_right _ _

/-! ## a sample -/

theorem noneRouted : ([] : List IPv4).Nodup := .nil

/-- The default prices. -/
def sampleSettings : Settings := Settings.default [.lightning] [] noneRouted

/-- An exact-host claim that waits for its first payment. -/
def sample : Account where
  clock := 1757376000000000
  paid := 0
  subscription := {
    id := 1
    publicId := ⟨List.replicate 32 1, Uuid.length_ones⟩
    userId := 1
    product := .relay
    delivery := .framed
    status := .pending
    assignedIp := none
    assignedPort := none
    transport := .tcp
    domain := some "www.example.org"
    relayHostnameScope := .exact
    relayPoolDomain := none
    domainIsManaged := false
    domainVerificationToken := none
    domainVerifiedAt := some 1757376000000000
    domainClaimExpiresAt := some 1757379600000000
    domainRenewalGraceExpiresAt := none
    reservationExpiresAt := none
    reservationPaymentId := none
    resourceQuarantinedUntil := none
    billingTerm := .yearly
    monthlyPriceSats := 2000
    yearlyPriceSats := 20000
    currentPeriodStart := none
    currentPeriodEnd := none
    autoRenew := false
    referralAddress := none
    upgradeFromSubscriptionId := none
    upgradeCreditSats := 0
    upgradeSourcePeriodEnd := none
    createdAt := 1757376000000000
    updatedAt := 1757376000000000 }

/-- The wildcard claim of an upgrade. -/
def sampleTarget : Subscription :=
  { sample.subscription with
    id := 2
    domain := some "example.org"
    relayHostnameScope := .wildcard
    monthlyPriceSats := 5000
    yearlyPriceSats := 50000
    upgradeFromSubscriptionId := some 1 }

theorem sample_fresh : sample.Fresh := ⟨rfl, rfl, rfl, rfl, rfl⟩

/-- A year on top of a month that has just begun: an upgrade on the spot is granted
21643 of the 22000 sats that were paid. -/
theorem upgrade_credit_backed_yearly : ∃ a,
    Conc.exec (step sampleSettings) sample [.settle 0 .monthly, .settle 0 .yearly] = some a ∧
    a.paid = 22000 ∧ a.granted a.clock sampleTarget .yearly = 21643 ∧
    a.granted (a.clock + 0) sampleTarget .yearly ≤ a.paid := by
  have hmeets : Conc.Meets (step sampleSettings) NotDearer sample
      [.settle 0 .monthly, .settle 0 .yearly] := by decide
  refine ⟨_, rfl, by decide, by decide, ?_⟩
  exact (upgrade_credit_backed sampleSettings sample_fresh hmeets rfl 0 sampleTarget .yearly).1

/-- A month on top of a year that has just begun: an upgrade on the spot is granted
26333 sats, and 22000 were paid. -/
theorem upgrade_credit_exceeds_paid : ∃ a,
    sample.Fresh ∧
    Conc.exec (step sampleSettings) sample [.settle 0 .yearly, .settle 0 .monthly] = some a ∧
    a.subscription.upgradeSource a.clock = true ∧
    a.paid = 22000 ∧ a.granted a.clock sampleTarget .yearly = 26333 ∧
    ¬ a.granted a.clock sampleTarget .yearly ≤ a.paid :=
  ⟨_, sample_fresh, rfl, by decide, by decide, by decide, by decide⟩

end Account

end Backend
