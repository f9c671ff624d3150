import Blindport.Backend.Lifecycle

/-!
# Blindport.Backend.Billing

`services/payments.py`: the amounts and periods of a payment, and the checks
`_finalize_payment` makes of the snapshot a payment carries.
-/

namespace Backend

/-- `stablecoin_markup_sats`, of a positive amount. -/
def stablecoinMarkupSats (cfg : Settings) (baseAmountSats : Int) : Int :=
  (baseAmountSats * cfg.stablecoinSwapMarkupBps + 9999) / 10000

/-- `stablecoin_credited_days`; `none` where it raises. -/
def stablecoinCreditedDays (amountSats baseAmountSats surchargeSats standardPeriodDays : Int)
    (servicePriceSats : Option Int) : Option Int :=
  let servicePrice := servicePriceSats.getD baseAmountSats
  let minimumTopup := amountSats - baseAmountSats - surchargeSats
  let denominator := servicePrice + surchargeSats
  if amountSats ≤ 0 ∨ denominator ≤ 0 ∨ standardPeriodDays ≤ 0 then none
  else if minimumTopup ≤ 0 then some standardPeriodDays
  else if servicePriceSats.all (· = baseAmountSats) then
    some ((amountSats * standardPeriodDays + denominator - 1) / denominator)
  else
    some (standardPeriodDays + (minimumTopup * standardPeriodDays + denominator - 1) / denominator)

/-- `_stablecoin_amounts`: the amount, the markup and the surcharge. -/
def stablecoinAmounts (cfg : Settings) (baseAmountSats : Int) : Int × Int × Int :=
  let surcharge := stablecoinMarkupSats cfg baseAmountSats
  let amount := baseAmountSats + surcharge
  match cfg.stablecoinCheckoutProvider with
  | .boltz => (amount, amount - baseAmountSats, surcharge)
  | .lightningSwap =>
      let amount := max amount cfg.stablecoinSwapMinInvoiceSats
      (amount, amount - baseAmountSats, surcharge)

/-- The price of a subscription for a billing term. -/
def Subscription.priceSats (sub : Subscription) : BillingTerm → Int
  | .monthly => sub.monthlyPriceSats
  | .yearly => sub.yearlyPriceSats

/-- The amounts of a new payment. -/
structure Quote where
  servicePriceSats : Int
  discountSats : Int
  amountSats : Int
  markupSats : Int
  surchargeSats : Int
  periodDays : Int
  provider : Option StablecoinProvider

/-- The amounts `create_payment` computes; the error is what it raises. -/
def Subscription.quote (cfg : Settings) (sub : Subscription) (method : PaymentMethod)
    (term : BillingTerm) (upgradeInitial : Bool) : Except String Quote :=
  let price := sub.priceSats term
  let discount := if upgradeInitial then sub.upgradeCreditSats else 0
  let base := price - discount
  let period := billingPeriodDays term
  if discount < 0 ∨ price < discount then .error "wildcard upgrade credit snapshot is invalid"
  else if (base = 0 ∧ upgradeInitial) ∨ method ≠ .stablecoinSwap then
    .ok ⟨price, discount, base, 0, 0, period, none⟩
  else if base ≤ 0 then .error "base payment amount must be positive"
  else
    let (amount, markup, surcharge) := stablecoinAmounts cfg base
    let provider := cfg.stablecoinCheckoutProvider
    if provider = .lightningSwap ∧ surcharge < markup then
      match stablecoinCreditedDays amount base surcharge period (some price) with
      | none => .error "stablecoin payment snapshot has an invalid credit amount"
      | some credited => .ok ⟨price, discount, amount, markup, surcharge, credited, some provider⟩
    else .ok ⟨price, discount, amount, markup, surcharge, period, some provider⟩

namespace Payment

/-- The service price and the discount of the snapshot; a payment from before
the price was recorded carries neither. -/
def servicePrice (payment : Payment) : Int × Int :=
  if payment.servicePriceSats = 0 then (payment.amountSats - payment.markupSats, 0)
  else (payment.servicePriceSats, payment.discountSats)

/-- What is due before the markup. -/
def dueBaseSats (payment : Payment) : Int := payment.servicePrice.1 - payment.servicePrice.2

/-- The stablecoin part of the snapshot checks. -/
def stablecoinSnapshotError (payment : Payment) : Option String :=
  let standardPeriodDays := billingPeriodDays payment.billingTerm
  let legacy := payment.stablecoinSurchargeSats = 0 ∧ payment.periodDays = standardPeriodDays
  if payment.stablecoinSurchargeSats < 0 ∨ payment.markupSats < payment.stablecoinSurchargeSats then
    some "stablecoin payment snapshot has an invalid surcharge"
  else if payment.stablecoinProvider = some .lightningSwap ∧ ¬ legacy then
    match stablecoinCreditedDays payment.amountSats payment.dueBaseSats
        payment.stablecoinSurchargeSats standardPeriodDays (some payment.servicePrice.1) with
    | none => some "stablecoin payment snapshot has an invalid credit amount"
    | some expected =>
        if payment.periodDays ≠ expected then
          some "payment billing snapshot has an invalid period"
        else none
  else if payment.stablecoinProvider ≠ some .lightningSwap ∧
      payment.periodDays ≠ standardPeriodDays then
    some "payment billing snapshot has an invalid period"
  else none

/-- The checks `_finalize_payment` makes before it loads the subscription. -/
def snapshotError (payment : Payment) : Option String :=
  if payment.method ≠ .stablecoinSwap ∧
      payment.periodDays ≠ billingPeriodDays payment.billingTerm then
    some "payment billing snapshot has an invalid period"
  else if payment.servicePriceSats = 0 ∧ payment.discountSats ≠ 0 then
    some "payment billing snapshot has an invalid discount"
  else if payment.servicePrice.1 ≤ 0 ∨ payment.servicePrice.2 < 0 ∨
      payment.servicePrice.1 < payment.servicePrice.2 then
    some "payment billing snapshot has an invalid service price or discount"
  else if payment.amountSats ≤ 0 ∧ 0 < payment.dueBaseSats then
    some "payment billing snapshot has an invalid amount"
  else if payment.markupSats < 0 ∨
      payment.amountSats - payment.markupSats ≠ payment.dueBaseSats then
    some "payment billing snapshot has an invalid markup"
  else if payment.method = .stablecoinSwap then payment.stablecoinSnapshotError
  else none

end Payment

/-- `upgrade_initial`. -/
def Subscription.upgradeInitial (sub : Subscription) : Bool :=
  sub.upgradeFromSubscriptionId.isSome ∧ sub.status = .pending

/-- The checks `_finalize_payment` makes of the subscription it loaded. -/
def Payment.subscriptionError (cfg : Settings) (payment : Payment) (sub : Subscription) :
    Option String :=
  if payment.amountSats = 0 ∧ ¬ (sub.upgradeInitial ∧ payment.dueBaseSats = 0) then
    some "payment billing snapshot has an invalid amount"
  else if sub.upgradeInitial ∧ (payment.billingTerm ≠ sub.billingTerm ∨
      payment.discountSats ≠ sub.upgradeCreditSats ∨
      payment.servicePriceSats ≠ sub.priceSats payment.billingTerm ∨
      sub.upgradeSourcePeriodEnd.isNone) then
    some "wildcard upgrade payment snapshot is invalid"
  else sub.settlementReadyError cfg payment

/-- `credit_settled_payment`: the credit of a settled payment, if any; the
error is what it raises.  The lightning address of a payment was validated when
it was stored. -/
def Payment.referralCredit (payment : Payment) : Except String (Option ReferralCredit) :=
  if payment.status ≠ .paid ∨ payment.invoiceProvider ≠ some .lnurl ∨
      payment.settlementVerifiedAt.isNone ∨ payment.settlementReviewRequired then .ok none
  else match payment.referralAddress with
    | none => .ok none
    | some address =>
        if payment.referralCommissionBps ≤ 0 then .ok none
        else if 10000 < payment.referralCommissionBps then
          .error "referral commission exceeds 10000 basis points"
        else if payment.amountSats < 0 ∨ payment.markupSats < 0 ∨
            payment.amountSats < payment.markupSats then
          .error "payment and markup amounts are outside the referral credit range"
        else
          let commission :=
            (payment.amountSats - payment.markupSats) * payment.referralCommissionBps / 10000
          if commission = 0 then .ok none
          else .ok (some ⟨payment.id, address, commission⟩)

end Backend
