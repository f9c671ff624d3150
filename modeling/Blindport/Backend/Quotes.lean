import Mathlib.Data.Rat.Floor
import Mathlib.Tactic.FieldSimp
import Mathlib.Tactic.Ring
import Blindport.Backend.Billing
import Blindport.Backend.Statements

/-!
# Blindport.Backend.Quotes

The amounts a payment carries from `create_payment` to `_finalize_payment`.

`create_payment` computes the price, the discount, the markup and the days of a
payment once, under the settings of that moment; `_finalize_payment` derives them
again from the stored columns and refuses what does not agree.  In between no
statement touches these columns (`PaymentUpdate.set_sameSnapshot`), and a
subscription that still waits for an upgrade is as the payment found it
(`Subscription.Later`).
-/

namespace Backend

/-! ## the columns of the snapshot -/

/-- The billing snapshot a payment carries. -/
def Payment.snapshot (p : Payment) : Quote where
  servicePriceSats := p.servicePriceSats
  discountSats := p.discountSats
  amountSats := p.amountSats
  markupSats := p.markupSats
  surchargeSats := p.stablecoinSurchargeSats
  periodDays := p.periodDays
  provider := p.stablecoinProvider

/-- The same subscription is billed for the same. -/
structure Payment.SameSnapshot (p p' : Payment) : Prop where
  subscriptionId : p'.subscriptionId = p.subscriptionId
  method : p'.method = p.method
  billingTerm : p'.billingTerm = p.billingTerm
  snapshot : p'.snapshot = p.snapshot

namespace Payment.SameSnapshot

variable {p q r : Payment}

theorem refl (p : Payment) : p.SameSnapshot p := ⟨rfl, rfl, rfl, rfl⟩

theorem trans (h₁ : p.SameSnapshot q) (h₂ : q.SameSnapshot r) : p.SameSnapshot r where
  subscriptionId := h₂.subscriptionId.trans h₁.subscriptionId
  method := h₂.method.trans h₁.method
  billingTerm := h₂.billingTerm.trans h₁.billingTerm
  snapshot := h₂.snapshot.trans h₁.snapshot

theorem symm (h : p.SameSnapshot q) : q.SameSnapshot p :=
  ⟨h.subscriptionId.symm, h.method.symm, h.billingTerm.symm, h.snapshot.symm⟩

end Payment.SameSnapshot

/-- No statement changes the snapshot. -/
theorem PaymentUpdate.set_sameSnapshot (s : PaymentUpdate) (p : Payment) :
    p.SameSnapshot (s.set p) := by
  cases s <;> exact ⟨rfl, rfl, rfl, rfl⟩

/-- A payment is billed for the same for good. -/
theorem Payment.Advances.sameSnapshot {p q : Payment} (h : Payment.Advances p q) :
    p.SameSnapshot q := by
  refine ⟨h.subscriptionId, h.method, h.billingTerm, ?_⟩
  simp only [Payment.snapshot, h.servicePriceSats, h.discountSats, h.amountSats, h.markupSats,
    h.stablecoinSurchargeSats, h.periodDays, h.stablecoinProvider]

/-! ## what becomes of a subscription -/

/-- A subscription at a later time.  Its prices are fixed when it is created; an
upgrade that still waits for its first payment is as it was linked. -/
structure Subscription.Later (a b : Subscription) : Prop where
  monthly : b.monthlyPriceSats = a.monthlyPriceSats
  yearly : b.yearlyPriceSats = a.yearlyPriceSats
  upgrade : b.upgradeInitial = true → a.upgradeInitial = true ∧ b.billingTerm = a.billingTerm ∧
    b.upgradeCreditSats = a.upgradeCreditSats ∧
    b.upgradeSourcePeriodEnd = a.upgradeSourcePeriodEnd

/-- Neither row is past what the other one waits for. -/
def Subscription.Alike (a b : Subscription) : Prop := a.Later b ∧ b.Later a

/-- The same status, the same prices and the same link to what is upgraded. -/
structure Subscription.SameClaim (a b : Subscription) : Prop where
  status : b.status = a.status
  monthly : b.monthlyPriceSats = a.monthlyPriceSats
  yearly : b.yearlyPriceSats = a.yearlyPriceSats
  link : b.upgradeFromSubscriptionId = a.upgradeFromSubscriptionId
  billingTerm : b.billingTerm = a.billingTerm
  credit : b.upgradeCreditSats = a.upgradeCreditSats
  sourceEnd : b.upgradeSourcePeriodEnd = a.upgradeSourcePeriodEnd

/-- An upgrade that waits for its first payment records the end of its source's period. -/
def Subscription.Linked (sub : Subscription) : Prop :=
  sub.upgradeInitial = true → sub.upgradeSourcePeriodEnd.isSome = true

namespace Subscription

variable {a b c : Subscription}

theorem upgradeInitial_eq_true : a.upgradeInitial = true ↔
    a.upgradeFromSubscriptionId.isSome = true ∧ a.status = .pending := by
  simp [upgradeInitial]

theorem Later.refl (a : Subscription) : a.Later a := ⟨rfl, rfl, fun h => ⟨h, rfl, rfl, rfl⟩⟩

theorem Later.trans (h₁ : a.Later b) (h₂ : b.Later c) : a.Later c where
  monthly := h₂.monthly.trans h₁.monthly
  yearly := h₂.yearly.trans h₁.yearly
  upgrade hc := by
    obtain ⟨hb, hterm, hcredit, hend⟩ := h₂.upgrade hc
    obtain ⟨ha, hterm', hcredit', hend'⟩ := h₁.upgrade hb
    exact ⟨ha, hterm.trans hterm', hcredit.trans hcredit', hend.trans hend'⟩

theorem Later.priceSats (h : a.Later b) (term : BillingTerm) :
    b.priceSats term = a.priceSats term := by
  cases term
  · exact h.monthly
  · exact h.yearly

/-- A row that waits for no upgrade is later than any row with its prices. -/
theorem Later.of_settled (hmonthly : b.monthlyPriceSats = a.monthlyPriceSats)
    (hyearly : b.yearlyPriceSats = a.yearlyPriceSats) (hstatus : b.status ≠ .pending) :
    a.Later b where
  monthly := hmonthly
  yearly := hyearly
  upgrade h := absurd (upgradeInitial_eq_true.mp h).2 hstatus

theorem Later.linked (h : a.Later b) (ha : a.Linked) : b.Linked := by
  intro hb
  obtain ⟨hinitial, -, -, hend⟩ := h.upgrade hb
  rw [hend]
  exact ha hinitial

theorem Alike.refl (a : Subscription) : a.Alike a := ⟨.refl a, .refl a⟩

theorem SameClaim.alike (h : a.SameClaim b) : a.Alike b := by
  have hinitial : b.upgradeInitial = a.upgradeInitial := by
    simp only [upgradeInitial, h.link, h.status]
  exact ⟨⟨h.monthly, h.yearly, fun hb => ⟨hinitial ▸ hb, h.billingTerm, h.credit, h.sourceEnd⟩⟩,
    ⟨h.monthly.symm, h.yearly.symm, fun ha => ⟨hinitial.symm ▸ ha, h.billingTerm.symm,
      h.credit.symm, h.sourceEnd.symm⟩⟩⟩

/-- Two rows neither of which waits for anything. -/
theorem Alike.of_settled (hmonthly : b.monthlyPriceSats = a.monthlyPriceSats)
    (hyearly : b.yearlyPriceSats = a.yearlyPriceSats) (ha : a.status ≠ .pending)
    (hb : b.status ≠ .pending) : a.Alike b :=
  ⟨.of_settled hmonthly hyearly hb, .of_settled hmonthly.symm hyearly.symm ha⟩

end Subscription

/-! ## the days of a payment -/

/-- The rounding of the source is the ceiling. -/
theorem ediv_eq_ceil {x d : Int} (hd : 0 < d) : (x + d - 1) / d = ⌈(x : ℚ) / d⌉ := by
  symm
  have hq := Int.ediv_mul_le (x + d - 1) (Int.ne_of_gt hd)
  have hr := Int.lt_ediv_add_one_mul_self (x + d - 1) hd
  generalize (x + d - 1) / d = q at hq hr ⊢
  have hdq : (0 : ℚ) < d := by exact_mod_cast hd
  rw [Int.ceil_eq_iff]
  constructor
  · rw [lt_div_iff₀ hdq]
    have hlt : (q - 1) * d < x := by
      have : (q - 1) * d = q * d - d := by ring
      omega
    exact_mod_cast hlt
  · rw [div_le_iff₀ hdq]
    have hle : x ≤ q * d := by
      have : (q + 1) * d = q * d + d := by ring
      omega
    exact_mod_cast hle

/-- The days of a payment with a top-up: the standard period and the part of it that
the top-up buys. -/
theorem stablecoinCreditedDays_topup {amount base surcharge standard price : Int}
    (hamount : 0 < amount) (hprice : 0 < price + surcharge) (hstandard : 0 < standard)
    (htopup : 0 < amount - base - surcharge) :
    stablecoinCreditedDays amount base surcharge standard (some price) =
      some (standard + ⌈(((amount - base - surcharge) * standard : Int) : ℚ) /
        ((price + surcharge : Int) : ℚ)⌉) := by
  rw [← ediv_eq_ceil hprice]
  unfold stablecoinCreditedDays
  simp only [Option.getD_some, Option.all_some, decide_eq_true_eq]
  rw [if_neg (by omega), if_neg (by omega)]
  by_cases hsame : price = base
  · -- no discount: the whole amount over the same denominator
    rw [if_pos hsame]
    subst hsame
    have hsplit : amount * standard + (price + surcharge) - 1 =
        ((amount - price - surcharge) * standard + (price + surcharge) - 1) +
          standard * (price + surcharge) := by ring
    rw [hsplit, Int.add_mul_ediv_right _ _ (Int.ne_of_gt hprice), Int.add_comm]
  · rw [if_neg hsame]

/-! ## what a quote can be -/

theorem stablecoinMarkupSats_pos (cfg : Settings) {base : Int} (hbase : 0 < base) :
    0 < stablecoinMarkupSats cfg base := by
  have hbps : (1 : Int) ≤ cfg.stablecoinSwapMarkupBps := by
    exact_mod_cast cfg.stablecoinSwapMarkupBps_pos
  have hmul : 1 ≤ base * cfg.stablecoinSwapMarkupBps :=
    Int.le_trans hbase (le_mul_of_one_le_right (Int.le_of_lt hbase) hbps)
  unfold stablecoinMarkupSats
  omega

/-- The amounts of a stablecoin payment: the markup is the surcharge, topped up to the
smallest invoice of the swap provider. -/
theorem stablecoinAmounts_spec (cfg : Settings) (base : Int) {amount markup surcharge : Int}
    (h : stablecoinAmounts cfg base = (amount, markup, surcharge)) :
    surcharge = stablecoinMarkupSats cfg base ∧ amount = base + markup ∧ surcharge ≤ markup ∧
    (cfg.stablecoinCheckoutProvider = .boltz → markup = surcharge) := by
  simp only [stablecoinAmounts] at h
  split at h
  · rename_i hprovider
    simp only [Prod.mk.injEq] at h
    omega
  · rename_i hprovider
    simp only [Prod.mk.injEq] at h
    rw [hprovider]
    simp only [reduceCtorEq, false_implies, and_true]
    omega

theorem billingPeriodDays_pos (term : BillingTerm) : 0 < billingPeriodDays term := by
  cases term <;> decide

/-- A quote without a markup. -/
def Quote.Plain (q : Quote) (term : BillingTerm) : Prop :=
  q.amountSats = q.servicePriceSats - q.discountSats ∧ q.markupSats = 0 ∧ q.surchargeSats = 0 ∧
    q.periodDays = billingPeriodDays term ∧ q.provider = none

/-- A quote of a stablecoin swap: the standard period for the surcharge alone, and the
credited days for a top-up. -/
structure Quote.Swap (q : Quote) (term : BillingTerm) : Prop where
  base : 0 < q.servicePriceSats - q.discountSats
  surcharge : 0 < q.surchargeSats
  markup : q.surchargeSats ≤ q.markupSats
  amount : q.amountSats = q.servicePriceSats - q.discountSats + q.markupSats
  standard : q.markupSats = q.surchargeSats → q.periodDays = billingPeriodDays term
  topped : q.surchargeSats < q.markupSats → q.provider = some .lightningSwap ∧
    stablecoinCreditedDays q.amountSats (q.servicePriceSats - q.discountSats) q.surchargeSats
      (billingPeriodDays term) (some q.servicePriceSats) = some q.periodDays

/-- Everything a quote can be. -/
theorem quote_cases {cfg : Settings} {sub : Subscription} {method : PaymentMethod}
    {term : BillingTerm} {upgradeInitial : Bool} {quote : Quote}
    (h : sub.quote cfg method term upgradeInitial = .ok quote) :
    quote.servicePriceSats = sub.priceSats term ∧
    quote.discountSats = (if upgradeInitial then sub.upgradeCreditSats else 0) ∧
    0 ≤ quote.discountSats ∧ quote.discountSats ≤ quote.servicePriceSats ∧
    (quote.Plain term ∨ (method = .stablecoinSwap ∧ quote.Swap term)) := by
  simp only [Subscription.quote] at h
  generalize hdiscount : (if upgradeInitial = true then sub.upgradeCreditSats else 0) =
    discount at h ⊢
  split at h
  · cases h
  rename_i hrange
  have hlow : 0 ≤ discount := by omega
  have hhigh : discount ≤ sub.priceSats term := by omega
  split at h
  · cases h
    exact ⟨rfl, rfl, hlow, hhigh, .inl ⟨rfl, rfl, rfl, rfl, rfl⟩⟩
  rename_i hswap
  split at h
  · cases h
  rename_i hbase
  have hbase : 0 < sub.priceSats term - discount := by omega
  have hmethod : method = .stablecoinSwap := by
    by_contra hne
    exact hswap (.inr hne)
  generalize hamounts : stablecoinAmounts cfg (sub.priceSats term - discount) = amounts at h
  obtain ⟨amount, markup, surcharge⟩ := amounts
  obtain ⟨hsurcharge, hamount, hle, hboltz⟩ := stablecoinAmounts_spec cfg _ hamounts
  have hpos : 0 < surcharge := by
    rw [hsurcharge]
    exact stablecoinMarkupSats_pos cfg hbase
  simp only at h
  split at h
  · rename_i htopped
    split at h
    · cases h
    · rename_i credited hcredited
      cases h
      exact ⟨rfl, rfl, hlow, hhigh, .inr ⟨hmethod, hbase, hpos, hle, hamount,
        fun heq => absurd heq (by simp only; omega), fun _ => ⟨by rw [htopped.1], hcredited⟩⟩⟩
  · rename_i hplain
    cases h
    refine ⟨rfl, rfl, hlow, hhigh, .inr ⟨hmethod, hbase, hpos, hle, hamount, fun _ => rfl,
      fun hlt => ?_⟩⟩
    cases hprovider : cfg.stablecoinCheckoutProvider with
    | boltz => exact absurd (hboltz hprovider) (by simp only at hlt; omega)
    | lightningSwap => exact absurd ⟨hprovider, hlt⟩ hplain

/-! ## quoted payments -/

/-- The billing columns of the payment are what `create_payment` computes, for some
settings and some state of its subscription. -/
def Payment.Quoted (p : Payment) : Prop :=
  ∃ (cfg : Settings) (sub : Subscription) (upgradeInitial : Bool),
    sub.quote cfg p.method p.billingTerm upgradeInitial = .ok p.snapshot

/-- The payment is for the upgrade that the subscription waits for, if it waits for
one: for its term, its credit and its price. -/
def Payment.Matches (p : Payment) (sub : Subscription) : Prop :=
  sub.upgradeInitial = true → p.billingTerm = sub.billingTerm ∧
    p.discountSats = sub.upgradeCreditSats ∧ p.servicePriceSats = sub.priceSats p.billingTerm

namespace Payment

variable {p p' : Payment} {sub sub' : Subscription}

theorem SameSnapshot.quoted (h : p.SameSnapshot p') (hp : p.Quoted) : p'.Quoted := by
  obtain ⟨cfg, sub, upgradeInitial, hquote⟩ := hp
  exact ⟨cfg, sub, upgradeInitial, by rw [h.method, h.billingTerm, h.snapshot]; exact hquote⟩

theorem SameSnapshot.matches (h : p.SameSnapshot p') (hp : p.Matches sub) : p'.Matches sub := by
  intro hsub
  have hprice : p'.servicePriceSats = p.servicePriceSats :=
    congrArg Quote.servicePriceSats h.snapshot
  have hdiscount : p'.discountSats = p.discountSats := congrArg Quote.discountSats h.snapshot
  rw [hprice, hdiscount, h.billingTerm]
  exact hp hsub

theorem Matches.later (h : p.Matches sub) (hsub : sub.Later sub') : p.Matches sub' := by
  intro hinitial
  obtain ⟨hinitial', hterm, hcredit, -⟩ := hsub.upgrade hinitial
  rw [hterm, hcredit, hsub.priceSats]
  exact h hinitial'

/-- The columns of a payment without a markup. -/
theorem columns_of_plain (h : p.snapshot.Plain p.billingTerm) :
    p.amountSats = p.servicePriceSats - p.discountSats ∧ p.markupSats = 0 ∧
      p.stablecoinSurchargeSats = 0 ∧ p.periodDays = billingPeriodDays p.billingTerm ∧
      p.stablecoinProvider = none := h

/-- The columns of a stablecoin payment. -/
theorem columns_of_swap (h : p.snapshot.Swap p.billingTerm) :
    0 < p.servicePriceSats - p.discountSats ∧ 0 < p.stablecoinSurchargeSats ∧
      p.stablecoinSurchargeSats ≤ p.markupSats ∧
      p.amountSats = p.servicePriceSats - p.discountSats + p.markupSats :=
  ⟨h.base, h.surcharge, h.markup, h.amount⟩

/-- A top-up is one of the swap provider, and buys the days of the payment. -/
theorem columns_of_topup (h : p.snapshot.Swap p.billingTerm)
    (htopup : p.stablecoinSurchargeSats < p.markupSats) :
    p.stablecoinProvider = some .lightningSwap ∧
      stablecoinCreditedDays p.amountSats (p.servicePriceSats - p.discountSats)
        p.stablecoinSurchargeSats (billingPeriodDays p.billingTerm) (some p.servicePriceSats) =
          some p.periodDays := h.topped htopup

/-- Everything a quoted payment can be. -/
theorem Quoted.cases (h : p.Quoted) : 0 ≤ p.discountSats ∧ p.discountSats ≤ p.servicePriceSats ∧
    (p.snapshot.Plain p.billingTerm ∨
      (p.method = .stablecoinSwap ∧ p.snapshot.Swap p.billingTerm)) := by
  obtain ⟨cfg, sub, upgradeInitial, hquote⟩ := h
  obtain ⟨-, -, hlow, hhigh, hquote⟩ := quote_cases hquote
  exact ⟨hlow, hhigh, hquote⟩

/-- What is to be paid is nothing exactly where the credit covers the price. -/
theorem Quoted.amountSats_eq_zero (h : p.Quoted) :
    p.amountSats = 0 ↔ p.servicePriceSats - p.discountSats = 0 := by
  obtain ⟨hlow, hhigh, hquote⟩ := h.cases
  cases hquote with
  | inl hplain => rw [(columns_of_plain hplain).1]
  | inr hswap =>
      obtain ⟨hbase, hsurcharge, hmarkup, hsum⟩ := columns_of_swap hswap.2
      omega

/-- A payment of something has a price. -/
theorem Quoted.priced (h : p.Quoted) (hamount : p.amountSats ≠ 0) : p.servicePriceSats ≠ 0 := by
  obtain ⟨hlow, hhigh, -⟩ := h.cases
  have hbase : p.servicePriceSats - p.discountSats ≠ 0 := fun hbase =>
    hamount (h.amountSats_eq_zero.mpr hbase)
  omega

/-! ## the checks of the settlement -/

theorem servicePrice_of_priced (h : p.servicePriceSats ≠ 0) :
    p.servicePrice = (p.servicePriceSats, p.discountSats) := by
  unfold servicePrice
  rw [if_neg h]

theorem dueBaseSats_of_priced (h : p.servicePriceSats ≠ 0) :
    p.dueBaseSats = p.servicePriceSats - p.discountSats := by
  rw [dueBaseSats, servicePrice_of_priced h]

/-- The stablecoin checks pass on what was quoted. -/
theorem stablecoinSnapshotError_eq_none (hpriced : p.servicePriceSats ≠ 0)
    (hlow : 0 ≤ p.discountSats) (hswap : p.snapshot.Swap p.billingTerm) :
    p.stablecoinSnapshotError = none := by
  obtain ⟨hbase, hsurcharge, hmarkup, hamount⟩ := columns_of_swap hswap
  simp only [stablecoinSnapshotError, dueBaseSats_of_priced hpriced, servicePrice_of_priced hpriced]
  rw [if_neg (by omega)]
  by_cases htopup : p.stablecoinSurchargeSats < p.markupSats
  · obtain ⟨hprovider, hcredited⟩ := columns_of_topup hswap htopup
    rw [if_pos ⟨hprovider, fun hlegacy => by omega⟩, hcredited]
    simp
  · have hstandard : p.periodDays = billingPeriodDays p.billingTerm :=
      hswap.standard (show p.markupSats = p.stablecoinSurchargeSats by omega)
    split
    · -- the surcharge alone credits the standard period
      have hperiod := billingPeriodDays_pos p.billingTerm
      simp only [stablecoinCreditedDays, Option.getD_some]
      rw [if_neg (by omega), if_pos (by omega)]
      simp [hstandard]
    · rw [if_neg (fun hne => hne.2 hstandard)]

/-- What was quoted passes the checks of `_finalize_payment` on the payment. -/
theorem Quoted.snapshotError (h : p.Quoted) (hpriced : p.servicePriceSats ≠ 0) :
    p.snapshotError = none := by
  obtain ⟨hlow, hhigh, hquote⟩ := h.cases
  simp only [Payment.snapshotError, dueBaseSats_of_priced hpriced, servicePrice_of_priced hpriced]
  cases hquote with
  | inl hplain =>
      obtain ⟨hbase, hnone, hsurcharge, hperiod, hprovider⟩ := columns_of_plain hplain
      rw [if_neg (fun h => h.2 hperiod), if_neg (fun h => hpriced h.1), if_neg (by omega),
        if_neg (by omega), if_neg (by omega)]
      split
      · simp [stablecoinSnapshotError, hsurcharge, hnone, hprovider, hperiod]
      · rfl
  | inr hswap =>
      obtain ⟨hmethod, hswap⟩ := hswap
      obtain ⟨hbase, hsurcharge, hle, hsum⟩ := columns_of_swap hswap
      rw [if_neg (fun h => h.1 hmethod), if_neg (fun h => hpriced h.1), if_neg (by omega),
        if_neg (by omega), if_neg (by omega), if_pos hmethod]
      exact stablecoinSnapshotError_eq_none hpriced hlow hswap

/-- A payment of nothing that passed the checks has a price. -/
theorem Quoted.priced_of_passed (h : p.Quoted) (hamount : p.amountSats = 0)
    (hpassed : p.snapshotError = none) : p.servicePriceSats ≠ 0 := by
  obtain ⟨hlow, hhigh, -⟩ := h.cases
  intro hprice
  have hdue : p.servicePriceSats - p.discountSats = 0 := h.amountSats_eq_zero.mp hamount
  have hmarkup : p.markupSats = 0 := by
    obtain ⟨-, -, hquote⟩ := h.cases
    cases hquote with
    | inl hplain => exact hplain.2.1
    | inr hswap =>
        have hbase := (columns_of_swap hswap.2).1
        omega
  -- the snapshot reads as one from before the price was recorded, for a service of nothing
  unfold Payment.snapshotError servicePrice at hpassed
  simp only [hprice, hamount, hmarkup] at hpassed
  split at hpassed
  · cases hpassed
  rw [if_neg (by omega)] at hpassed
  simp at hpassed

/-- On a subscription the payment matches, `_finalize_payment` raises nothing but what
the subscription itself is not ready for. -/
theorem Quoted.subscriptionError (h : p.Quoted) (hpriced : p.servicePriceSats ≠ 0)
    (hmatches : p.Matches sub) (hlinked : sub.Linked)
    (hatOnce : p.amountSats = 0 → sub.upgradeInitial = true) (cfg : Settings) :
    p.subscriptionError cfg sub = sub.settlementReadyError cfg p := by
  unfold Payment.subscriptionError
  rw [if_neg, if_neg]
  · rintro ⟨hinitial, hdiffers⟩
    obtain ⟨hterm, hcredit, hprice⟩ := hmatches hinitial
    have hend := hlinked hinitial
    rw [← hterm, ← hcredit, ← hprice] at hdiffers
    simp [Option.isNone_iff_eq_none, Option.isSome_iff_ne_none.mp hend] at hdiffers
  · rintro ⟨hzero, hrefused⟩
    refine hrefused ⟨hatOnce hzero, ?_⟩
    rw [dueBaseSats_of_priced hpriced]
    exact h.amountSats_eq_zero.mp hzero

/-! ## the days that are granted -/

/-- What the payment asks for beyond the base amount and the surcharge. -/
def topupSats (p : Payment) : Int := p.markupSats - p.stablecoinSurchargeSats

/-- A quoted payment grants the standard period and the part of it that its top-up buys. -/
theorem Quoted.periodDays (h : p.Quoted) : p.periodDays = billingPeriodDays p.billingTerm +
    ⌈((p.topupSats * billingPeriodDays p.billingTerm : Int) : ℚ) /
      ((p.servicePriceSats + p.stablecoinSurchargeSats : Int) : ℚ)⌉ := by
  obtain ⟨hlow, hhigh, hquote⟩ := h.cases
  have hnone (htopup : p.topupSats = 0)
      (hperiod : p.periodDays = billingPeriodDays p.billingTerm) :
      p.periodDays = billingPeriodDays p.billingTerm +
        ⌈((p.topupSats * billingPeriodDays p.billingTerm : Int) : ℚ) /
          ((p.servicePriceSats + p.stablecoinSurchargeSats : Int) : ℚ)⌉ := by
    rw [htopup, hperiod]
    simp
  cases hquote with
  | inl hplain =>
      obtain ⟨-, hmarkup, hsurcharge, hperiod, -⟩ := columns_of_plain hplain
      exact hnone (by rw [topupSats, hmarkup, hsurcharge, Int.sub_zero]) hperiod
  | inr hswap =>
      obtain ⟨-, hswap⟩ := hswap
      obtain ⟨hbase, hsurcharge, hmarkup, hsum⟩ := columns_of_swap hswap
      by_cases htopup : p.stablecoinSurchargeSats < p.markupSats
      · obtain ⟨-, hcredited⟩ := columns_of_topup hswap htopup
        have hrest : p.amountSats - (p.servicePriceSats - p.discountSats) -
            p.stablecoinSurchargeSats = p.topupSats := by
          rw [topupSats]
          omega
        rw [stablecoinCreditedDays_topup (by omega) (by omega) (billingPeriodDays_pos _)
          (by omega), hrest] at hcredited
        exact (Option.some.inj hcredited).symm
      · refine hnone (by rw [topupSats]; omega) (hswap.standard ?_)
        show p.markupSats = p.stablecoinSurchargeSats
        omega

/-- The days are never fewer than the standard period. -/
theorem Quoted.period_le (h : p.Quoted) : billingPeriodDays p.billingTerm ≤ p.periodDays := by
  obtain ⟨hlow, hhigh, hquote⟩ := h.cases
  obtain ⟨htopup, hcharge⟩ : 0 ≤ p.topupSats ∧ 0 ≤ p.stablecoinSurchargeSats := by
    rw [topupSats]
    cases hquote with
    | inl hplain =>
        obtain ⟨-, hmarkup, hsurcharge, -⟩ := columns_of_plain hplain
        omega
    | inr hswap =>
        obtain ⟨-, hpos, hle, -⟩ := columns_of_swap hswap.2
        omega
  have hnum : 0 ≤ p.topupSats * billingPeriodDays p.billingTerm :=
    Int.mul_nonneg htopup (Int.le_of_lt (billingPeriodDays_pos _))
  have hden : 0 ≤ p.servicePriceSats + p.stablecoinSurchargeSats := by omega
  have hceil : (0 : Int) ≤ ⌈((p.topupSats * billingPeriodDays p.billingTerm : Int) : ℚ) /
      ((p.servicePriceSats + p.stablecoinSurchargeSats : Int) : ℚ)⌉ :=
    Int.ceil_nonneg (div_nonneg (by exact_mod_cast hnum) (by exact_mod_cast hden))
  rw [h.periodDays]
  omega

end Payment

end Backend
