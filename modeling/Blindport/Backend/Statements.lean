import Blindport.Backend.Settings

/-!
# Blindport.Backend.Statements

Every `UPDATE payment` statement of `services/payments.py`: which rows it
matches and what it sets.  A statement carries the values that the source
computes before it is sent.

The wallet columns an ORM object holds unsent (`Unsent`) go out with the
statement that follows them in the same session: where that statement matches
no row the session is rolled back, and they are lost with it.

`Payment.Advances` is what no statement goes back on: the columns that never
change, and the latches and counters that only move forward.
-/

namespace Backend

/-! ## the wallet columns of an ORM object -/

/-- The columns `_verify_nwc_result` and `_reconcile_nwc_payment` assign on the
loaded object. -/
structure Unsent where
  lookupAt : Option Datetime
  preimageHash : Option String
  feesPaidMsats : Option Int
deriving DecidableEq

namespace Unsent

/-- Nothing assigned. -/
def none : Unsent := ⟨.none, .none, .none⟩

/-- The object, or the row, with the assigned columns. -/
def flush (u : Unsent) (p : Payment) : Payment :=
  { p with
    nwcLastLookupAt := u.lookupAt.or p.nwcLastLookupAt
    nwcPreimageHash := u.preimageHash.or p.nwcPreimageHash
    nwcFeesPaidMsats := u.feesPaidMsats.or p.nwcFeesPaidMsats }

end Unsent

/-! ## error codes -/

/-- `_DEFINITIVE_PAY_REJECTION_CODES`. -/
def definitivePayRejectionCodes : List String :=
  ["expired", "insufficient_balance", "payment_failed", "quota_exceeded", "restricted",
    "unauthorized", "unsupported_capability", "unsupported_encryption"]

/-- `_RETRY_BLOCKING_ERROR_CODES`. -/
def retryBlockingErrorCodes : List String :=
  ["invalid_preimage", "payment_hash_mismatch", "preimage_mismatch", "settlement_unconfirmed"]

/-- `_CLINK_DEFINITIVE_REJECTION_CODES`. -/
def clinkDefinitiveRejectionCodes : List String :=
  ["denied", "expired", "invalid_amount", "invalid_request", "rate_limited", "temporary_failure"]

/-- `retry_blocked` of `_reconcile_nwc_payment`. -/
def Payment.retryBlocked (p : Payment) : Bool :=
  p.nwcState = some .settled ∨ p.nwcPreimageHash = p.paymentHash ∨
    p.nwcErrorCode.any (· ∈ retryBlockingErrorCodes)

/-! ## the statements -/

/-- One `UPDATE payment`. -/
inductive PaymentUpdate where
  /-- `_expire_payment`. -/
  | expire
  /-- `_finalize_payment`. -/
  | settle (paidAt : Datetime) (verifiedAt : Option Datetime)
  /-- The columns `create_payment` and `_stage_lightning_invoice` give the row
  before its first commit. -/
  | stage (provider : Option InvoiceProvider) (key : String) (hash : Option String)
      (expiresAt : Datetime) (nwcGeneration clinkGeneration : Option Nat)
  /-- `_bind_invoice`. -/
  | bindInvoice (request hash : String) (expiresAt : Datetime)
  /-- `_ensure_lnurl_invoice`: the single creation attempt. -/
  | claimLnurl (now : Datetime)
  /-- `_ensure_lnurl_invoice`, when the attempt was made before. -/
  | touchLnurl (now : Datetime)
  /-- `_ensure_lnurl_invoice`: the invoice that came back. -/
  | storeLnurl (request hash verifyUrl : String) (expiresAt : Datetime)
  /-- `_check_lnurl_payment`: the shared throttle. -/
  | throttleLnurl (now : Datetime)
  /-- `_check_lnurl_payment`: a receipt that came too late. -/
  | review (now : Datetime)
  /-- `_release_failed_nwc_payment`; `lease` is the token it requires. -/
  | failNwc (code : String) (lease : Option String) (unsent : Unsent)
  /-- `_release_failed_clink_payment`. -/
  | failClink (code : String) (lease : Option String)
  /-- `_save_nwc_observation` for an object that holds `token`. -/
  | saveNwc (token : Option String) (state : NwcState) (code : Option String)
      (lookupAt : Option Datetime) (preimageHash : Option String) (feesPaidMsats : Option Int)
  /-- `_save_clink_observation`. -/
  | saveClink (token : Option String) (state : ClinkState) (code preimageHash : Option String)
  /-- The wallet columns of an object that holds `token`, sent on their own. -/
  | flushNwc (token : Option String) (unsent : Unsent)
  /-- `_claim_nwc_lease`. -/
  | claimNwc (now until_ : Datetime) (token : String)
  /-- `_record_nwc_send_attempt`. -/
  | recordNwc (token : String) (now nextAttemptAt : Datetime) (unsent : Unsent)
  /-- `_claim_clink_lease`. -/
  | claimClink (now until_ : Datetime) (token : String)
  /-- `_record_clink_send_attempt`. -/
  | recordClink (token : String) (now : Datetime)
  /-- `_start_nwc_fallback`. -/
  | startFallback (code : String) (token : Option String)
deriving DecidableEq

namespace PaymentUpdate

/-- The `WHERE` clause, beside the key. -/
def selects : PaymentUpdate → Payment → Bool
  | expire, p => p.status = .pending
  | settle _ _, p => p.status = .pending
  | stage .., _ => true
  | bindInvoice _ hash _, p =>
      p.status = .pending ∧ p.invoice.isNone ∧ p.paymentHash = some hash
  | claimLnurl _, p => p.status = .pending ∧ p.invoice.isNone ∧ p.lnurlAttemptedAt.isNone
  | touchLnurl _, _ => true
  | storeLnurl .., p => p.invoice.isNone ∧ p.invoiceProvider = some .lnurl
  | throttleLnurl now, p =>
      p.settlementVerifiedAt.isNone ∧ p.lnurlLastCheckedAt.all (· ≤ now - seconds 10)
  | review _, p => p.status ≠ .paid
  | failNwc _ lease _, p => p.status = .pending ∧ lease.all (p.nwcLeaseToken = some ·)
  | failClink _ lease, p => p.status = .pending ∧ lease.all (p.clinkLeaseToken = some ·)
  | saveNwc token .., p => p.status = .pending ∧ p.nwcLeaseToken = token
  | saveClink token .., p => p.status = .pending ∧ p.clinkLeaseToken = token
  | flushNwc .., _ => true
  | claimNwc now _ _, p => p.status = .pending ∧ p.nwcLeaseUntil.all (· ≤ now)
  | recordNwc token now _ _, p =>
      p.status = .pending ∧ p.nwcLeaseToken = some token ∧ p.nwcLeaseUntil.any (now < ·) ∧
        p.nwcNextAttemptAt.all (· ≤ now)
  | claimClink now _ _, p =>
      p.status = .pending ∧ p.clinkAttemptCount = 0 ∧ p.clinkLeaseUntil.all (· ≤ now)
  | recordClink token now, p =>
      p.status = .pending ∧ p.clinkAttemptCount = 0 ∧ p.clinkLeaseToken = some token ∧
        p.clinkLeaseUntil.any (now < ·)
  | startFallback _ token, p =>
      p.status = .pending ∧ p.clinkNwcFallback = false ∧ p.clinkLeaseToken = token

/-- The `SET` clause. -/
def set : PaymentUpdate → Payment → Payment
  | expire, p => { p with status := .expired }
  | settle paidAt verifiedAt, p =>
      { p with
        status := .paid
        paidAt := some paidAt
        settlementVerifiedAt := verifiedAt.or p.settlementVerifiedAt }
  | stage provider key hash expiresAt nwcGeneration clinkGeneration, p =>
      { p with
        invoiceProvider := provider
        invoiceIdempotencyKey := some key
        paymentHash := hash
        expiresAt := some expiresAt
        nwcCredentialGeneration := nwcGeneration
        clinkCredentialGeneration := clinkGeneration }
  | bindInvoice request _ expiresAt, p =>
      { p with invoice := some request, expiresAt := some expiresAt }
  | claimLnurl now, p => { p with lnurlAttemptedAt := some now }
  | touchLnurl now, p => { p with lnurlLastCheckedAt := some now }
  | storeLnurl request hash verifyUrl expiresAt, p =>
      { p with
        invoice := some request
        paymentHash := some hash
        lnurlVerifyUrl := some verifyUrl
        expiresAt := some expiresAt }
  | throttleLnurl now, p => { p with lnurlLastCheckedAt := some now }
  | review now, p =>
      { p with settlementVerifiedAt := some now, settlementReviewRequired := true }
  | failNwc code _ unsent, p =>
      { unsent.flush p with
        status := .failed
        nwcState := some .failed
        nwcErrorCode := some code
        nwcLeaseUntil := none
        nwcLeaseToken := none }
  | failClink code _, p =>
      { p with
        status := .failed
        clinkState := some .failed
        clinkErrorCode := some code
        clinkLeaseUntil := none
        clinkLeaseToken := none }
  | saveNwc token state code lookupAt preimageHash feesPaidMsats, p =>
      { p with
        nwcState := some state
        nwcErrorCode := code
        nwcLastLookupAt := lookupAt
        nwcPreimageHash := preimageHash
        nwcFeesPaidMsats := feesPaidMsats
        nwcLeaseUntil := if token.isSome then none else p.nwcLeaseUntil
        nwcLeaseToken := none }
  | saveClink token state code preimageHash, p =>
      { p with
        clinkState := some state
        clinkErrorCode := code
        clinkPreimageHash := preimageHash
        clinkLeaseUntil := if token.isSome then none else p.clinkLeaseUntil
        clinkLeaseToken := none }
  | flushNwc _ unsent, p => unsent.flush p
  | claimNwc _ until_ token, p =>
      { p with nwcLeaseUntil := some until_, nwcLeaseToken := some token }
  | recordNwc _ now nextAttemptAt unsent, p =>
      { unsent.flush p with
        nwcAttemptCount := p.nwcAttemptCount + 1
        nwcFirstAttemptAt := p.nwcFirstAttemptAt.or (some now)
        nwcLastAttemptAt := some now
        nwcNextAttemptAt := some nextAttemptAt
        nwcState := some .sending
        nwcErrorCode := none }
  | claimClink _ until_ token, p =>
      { p with clinkLeaseUntil := some until_, clinkLeaseToken := some token }
  | recordClink _ now, p =>
      { p with
        clinkAttemptCount := 1
        clinkAttemptedAt := some now
        clinkState := some .sending
        clinkErrorCode := none }
  | startFallback code _, p =>
      { p with
        clinkState := some .failed
        clinkErrorCode := some code
        clinkNwcFallback := true
        clinkLeaseUntil := none
        clinkLeaseToken := none }

/-- The statement belongs to the transaction that inserts the row. -/
def isStage : PaymentUpdate → Bool
  | stage .. => true
  | _ => false

end PaymentUpdate

/-! ## what no statement goes back on -/

/-- From `a` the row can have become `b`. -/
structure Payment.Advances (a b : Payment) : Prop where
  id : b.id = a.id
  subscriptionId : b.subscriptionId = a.subscriptionId
  method : b.method = a.method
  billingTerm : b.billingTerm = a.billingTerm
  periodDays : b.periodDays = a.periodDays
  servicePriceSats : b.servicePriceSats = a.servicePriceSats
  discountSats : b.discountSats = a.discountSats
  amountSats : b.amountSats = a.amountSats
  markupSats : b.markupSats = a.markupSats
  stablecoinSurchargeSats : b.stablecoinSurchargeSats = a.stablecoinSurchargeSats
  stablecoinProvider : b.stablecoinProvider = a.stablecoinProvider
  invoiceProvider : b.invoiceProvider = a.invoiceProvider
  status : b.status = a.status ∨ a.status = .pending ∧ b.status.isOpen = false
  lnurlAttempted : a.lnurlAttemptedAt.isSome → b.lnurlAttemptedAt.isSome
  review : a.settlementReviewRequired → b.settlementReviewRequired
  clinkAttempts : a.clinkAttemptCount ≤ b.clinkAttemptCount
  nwcAttempts : a.nwcAttemptCount ≤ b.nwcAttemptCount
  fallback : a.clinkNwcFallback → b.clinkNwcFallback
  invoice : a.invoice.isSome → b.invoice = a.invoice ∧ b.paymentHash = a.paymentHash

namespace Payment.Advances

theorem refl (p : Payment) : Advances p p :=
  ⟨rfl, rfl, rfl, rfl, rfl, rfl, rfl, rfl, rfl, rfl, rfl, rfl, .inl rfl, fun h => h, fun h => h,
    Nat.le_refl _, Nat.le_refl _, fun h => h, fun _ => ⟨rfl, rfl⟩⟩

theorem trans {a b c : Payment} (h₁ : Advances a b) (h₂ : Advances b c) : Advances a c where
  id := h₂.id.trans h₁.id
  subscriptionId := h₂.subscriptionId.trans h₁.subscriptionId
  method := h₂.method.trans h₁.method
  billingTerm := h₂.billingTerm.trans h₁.billingTerm
  periodDays := h₂.periodDays.trans h₁.periodDays
  servicePriceSats := h₂.servicePriceSats.trans h₁.servicePriceSats
  discountSats := h₂.discountSats.trans h₁.discountSats
  amountSats := h₂.amountSats.trans h₁.amountSats
  markupSats := h₂.markupSats.trans h₁.markupSats
  stablecoinSurchargeSats := h₂.stablecoinSurchargeSats.trans h₁.stablecoinSurchargeSats
  stablecoinProvider := h₂.stablecoinProvider.trans h₁.stablecoinProvider
  invoiceProvider := h₂.invoiceProvider.trans h₁.invoiceProvider
  status := by
    rcases h₁.status with e₁ | ⟨e₁, o₁⟩
    · rw [← e₁]
      exact h₂.status
    · rcases h₂.status with e₂ | ⟨-, o₂⟩
      · exact .inr ⟨e₁, e₂ ▸ o₁⟩
      · exact .inr ⟨e₁, o₂⟩
  lnurlAttempted h := h₂.lnurlAttempted (h₁.lnurlAttempted h)
  review h := h₂.review (h₁.review h)
  clinkAttempts := Nat.le_trans h₁.clinkAttempts h₂.clinkAttempts
  nwcAttempts := Nat.le_trans h₁.nwcAttempts h₂.nwcAttempts
  fallback h := h₂.fallback (h₁.fallback h)
  invoice h := by
    obtain ⟨e₁, e₂⟩ := h₁.invoice h
    obtain ⟨f₁, f₂⟩ := h₂.invoice (e₁ ▸ h)
    exact ⟨f₁.trans e₁, f₂.trans e₂⟩

/-- A status other than PENDING is final. -/
theorem status_eq {a b : Payment} (h : Advances a b) (ha : a.status ≠ .pending) :
    b.status = a.status := by
  rcases h.status with e | ⟨e, -⟩
  · exact e
  · exact absurd e ha

end Payment.Advances

namespace PaymentUpdate

/-- Every statement on a published row keeps what no statement goes back on. -/
theorem set_advances {s : PaymentUpdate} {p : Payment} (hs : s.isStage = false)
    (h : s.selects p = true) : Payment.Advances p (s.set p) := by
  cases s <;> simp only [isStage, Bool.true_eq_false] at hs <;>
    simp only [selects, decide_eq_true_eq] at h <;>
    constructor <;> simp_all [set, Unsent.flush, PaymentStatus.isOpen]

end PaymentUpdate

end Backend
