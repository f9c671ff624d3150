import Blindport.Conc.Latch
import Blindport.Backend.Session

/-!
# Blindport.Backend.History

What the record of a run may look like.

The record is read newest entry first.  `EventOk` says what every entry needs
to have been preceded by, `WellFormed` that all of a record does, and `Linked`
that the published versions of a payment are one chain that ends in the
committed row.  The consequences that need nothing but the record are here:
`creates_le_one` and `pays_le_one`, that a latch is set once and what it guards
is done once.
-/

namespace Backend

open Conc

/-! ## what was done -/

/-- An entry by which a latch of a payment was set. -/
def Event.flips (on : Payment → Bool) (pid : Nat) : Event → Bool
  | .published _ q (some old) new => q = pid ∧ ¬ on old ∧ on new
  | _ => false

/-- The latch of the LNURL creation attempt. -/
def Payment.lnurlClaimed (p : Payment) : Bool := p.lnurlAttemptedAt.isSome

/-- The latch of the CLINK send attempt. -/
def Payment.clinkRecorded (p : Payment) : Bool := 0 < p.clinkAttemptCount

/-- An LNURL invoice was requested for the payment. -/
def Event.isLnurlCreate (pid : Nat) : Event → Bool
  | .lnurlCreate _ q => q = pid
  | _ => false

/-- The CLINK `pay_invoice` was called for the payment. -/
def Event.isClinkPay (pid : Nat) : Event → Bool
  | .clinkPay _ q _ => q = pid
  | _ => false

/-- An NWC send attempt was recorded for the payment. -/
def Event.isAttempt (pid : Nat) : Event → Bool
  | .published _ q (some old) new => q = pid ∧ new.nwcAttemptCount ≠ old.nwcAttemptCount
  | _ => false

/-- The wallet rejected the CLINK call of the payment for good. -/
def Rejected (pid : Nat) (h : List Event) : Prop :=
  ∃ i answer, Event.clinkPay i pid answer ∈ h ∧ answer.definitive.isSome

/-- Thread `i` took the NWC lease of the payment with this token. -/
def Leased (i pid : Nat) (token : String) (h : List Event) : Prop :=
  ∃ now until_ row, Event.executed i pid (.claimNwc now until_ token) row ∈ h

/-- The provider reported the invoice settled to thread `i`, which then read the
clock before the payment's deadline. -/
def Verified (i pid : Nat) (p : Payment) (h : List Event) : Prop :=
  ∃ h₁ t h₂, h = h₁ ++ .clock i t :: h₂ ∧ p.expiresAt.any (t < ·) ∧
    Event.lnurlState i pid .settled ∈ h₂

/-- A lookup that says the wallet did not pay. -/
def NwcLookupAnswer.adverse : NwcLookupAnswer → Bool
  | result .failed _ _ _ | result .notFound _ _ _ => true
  | _ => false

/-- Since the last recorded attempt the wallet answered, under this token, that
it did not pay. -/
def Cleared (pid : Nat) (token : String) : List Event → Prop
  | [] => False
  | e :: h =>
      e.isAttempt pid = false ∧
        ((∃ i answer, e = .nwcLookup i pid (some token) answer ∧ answer.adverse) ∨
          Cleared pid token h)

/-! ## what a run may be assumed to do -/

/-- The token of a lease that was taken. -/
def Event.leaseToken : Event → Option String
  | .executed _ _ (.claimNwc _ _ token) _ => some token
  | _ => none

/-- Lease tokens are unique. -/
def UniqueTokens (h : List Event) : Prop := (h.filterMap Event.leaseToken).Nodup

/-- Every worker that takes a lease reads its own token back. -/
def ReadsBack (h : List Event) : Prop :=
  ∀ i pid token row, Event.nwcLeased i pid token row ∈ h → row.nwcLeaseToken = some token

/-- The last observation blocks a retry: its error code or state does, or its
preimage matches. -/
def Payment.observedBlock (p : Payment) : Bool :=
  p.nwcState = some .settled ∨ (p.nwcPreimageHash.isSome ∧ p.nwcPreimageHash = p.paymentHash) ∨
    p.nwcErrorCode.any (· ∈ retryBlockingErrorCodes)

/-- No observation that does not block is saved over one that does. -/
def BlocksKept (h : List Event) : Prop :=
  ∀ i pid token state code lookupAt preimageHash fees row,
    Event.executed i pid (.saveNwc token state code lookupAt preimageHash fees) row ∈ h →
    row.observedBlock →
    ((PaymentUpdate.saveNwc token state code lookupAt preimageHash fees).set row).observedBlock

/-- No lookup that says the wallet did not pay carries a preimage. -/
def RetriesBare (h : List Event) : Prop :=
  ∀ i pid token state paymentHash preimage fees,
    Event.nwcLookup i pid token (.result state paymentHash (some preimage) fees) ∈ h →
    (NwcLookupAnswer.result state paymentHash (some preimage) fees).adverse = false

/-! ## well-formed records -/

/-- A row as `create_payment` inserts it, apart from what is staged. -/
structure Payment.Fresh (p : Payment) : Prop where
  nwcAttempts : p.nwcAttemptCount = 0
  clinkAttempts : p.clinkAttemptCount = 0
  fallback : p.clinkNwcFallback = false
  lnurlAttempted : p.lnurlAttemptedAt = none
  review : p.settlementReviewRequired = false
  token : p.nwcLeaseToken = none
  preimage : p.nwcPreimageHash = none
  code : p.nwcErrorCode = none
  state : p.nwcState = none

/-- What a recorded NWC send attempt of thread `i` was made on; `n` is
`NWC_MAX_PAYMENT_ATTEMPTS`. -/
structure AttemptOk (n i pid : Nat) (old new : Payment) (h : List Event) : Prop where
  step : new.nwcAttemptCount = old.nwcAttemptCount + 1
  status : old.status = .pending
  fallback : old.method = .clink → old.clinkNwcFallback = true
  leased : ∃ token, old.nwcLeaseToken = some token ∧
    (ReadsBack h → Leased i pid token h) ∧
    (ReadsBack h → UniqueTokens h →
      old.nwcAttemptCount < n ∧ (old.nwcAttemptCount = 0 ∨ Cleared pid token h))

/-- What a published version of a payment replaces. -/
structure PublishOk (n i pid : Nat) (old : Option Payment) (new : Payment) (h : List Event) :
    Prop where
  advances : ∀ p, old = some p → Payment.Advances p new
  fresh : old = none → new.Fresh
  attempt : ∀ p, old = some p → new.nwcAttemptCount ≠ p.nwcAttemptCount →
    AttemptOk n i pid p new h
  verified : new.status = .paid → (∀ p, old = some p → p.status ≠ .paid) →
    new.invoiceProvider = some .lnurl → (∃ p, old = some p) ∧ Verified i pid new h

/-- A payment is failed without a lease only when its invoice was cancelled. -/
def PaymentUpdate.reasoned : PaymentUpdate → Prop
  | .failNwc code none _ => code = "lnd_invoice_canceled"
  | _ => True

/-- What an entry needs to have been preceded by. -/
def EventOk (n : Nat) (h : List Event) : Event → Prop
  | .lnurlCreate i pid =>
      countBy Event.thread (Event.isLnurlCreate pid) i h <
        countBy Event.thread (Event.flips Payment.lnurlClaimed pid) i h
  | .clinkPay i pid _ =>
      countBy Event.thread (Event.isClinkPay pid) i h <
        countBy Event.thread (Event.flips Payment.clinkRecorded pid) i h
  | .nwcLeased i pid token _ => Leased i pid token h
  | .executed _ _ s row => s.selects row = true ∧ s.reasoned
  | .published i pid old new => PublishOk n i pid old new h
  | _ => True

/-- Every entry was preceded by what it needs. -/
def WellFormed (n : Nat) : List Event → Prop
  | [] => True
  | e :: h => EventOk n h e ∧ WellFormed n h

/-- The published versions of a payment are a chain that ends in `row`. -/
def Linked (pid : Nat) : Option Payment → List Event → Prop
  | _, [] => True
  | row, .published _ q old new :: h =>
      if q = pid then row = some new ∧ Linked pid old h else Linked pid row h
  | row, _ :: h => Linked pid row h

/-! ## monotonicity -/

theorem Rejected.cons {pid : Nat} {h : List Event} (hr : Rejected pid h) (e : Event) :
    Rejected pid (e :: h) := by
  obtain ⟨i, answer, hmem, hd⟩ := hr
  exact ⟨i, answer, List.mem_cons_of_mem e hmem, hd⟩

theorem Leased.cons {i pid : Nat} {token : String} {h : List Event} (hl : Leased i pid token h)
    (e : Event) : Leased i pid token (e :: h) := by
  obtain ⟨now, until_, row, hmem⟩ := hl
  exact ⟨now, until_, row, List.mem_cons_of_mem e hmem⟩

theorem Verified.cons {i pid : Nat} {p : Payment} {h : List Event} (hv : Verified i pid p h)
    (e : Event) : Verified i pid p (e :: h) := by
  obtain ⟨h₁, t, h₂, rfl, ht, hmem⟩ := hv
  exact ⟨e :: h₁, t, h₂, rfl, ht, hmem⟩

theorem Cleared.cons {pid : Nat} {token : String} {h : List Event} (hc : Cleared pid token h)
    {e : Event} (he : e.isAttempt pid = false) : Cleared pid token (e :: h) :=
  ⟨he, .inr hc⟩

theorem UniqueTokens.tail {e : Event} {h : List Event} (hu : UniqueTokens (e :: h)) :
    UniqueTokens h := by
  unfold UniqueTokens at hu ⊢
  cases he : e.leaseToken with
  | none => simpa [List.filterMap_cons, he] using hu
  | some token =>
      simp only [List.filterMap_cons, he, List.nodup_cons] at hu
      exact hu.2

theorem ReadsBack.tail {e : Event} {h : List Event} (hr : ReadsBack (e :: h)) : ReadsBack h :=
  fun i pid token row hmem => hr i pid token row (List.mem_cons_of_mem e hmem)

theorem BlocksKept.tail {e : Event} {h : List Event} (hb : BlocksKept (e :: h)) : BlocksKept h :=
  fun i pid token state code lookupAt preimageHash fees row hmem =>
    hb i pid token state code lookupAt preimageHash fees row (List.mem_cons_of_mem e hmem)

theorem RetriesBare.tail {e : Event} {h : List Event} (hr : RetriesBare (e :: h)) :
    RetriesBare h :=
  fun i pid token state paymentHash preimage fees hmem =>
    hr i pid token state paymentHash preimage fees (List.mem_cons_of_mem e hmem)

/-- Two threads never take a lease with one token. -/
theorem UniqueTokens.thread_eq {h : List Event} (hu : UniqueTokens h) {i j p q : Nat}
    {token : String} (hi : Leased i p token h) (hj : Leased j q token h) : i = j := by
  induction h with
  | nil =>
      obtain ⟨_, _, _, hmem⟩ := hi
      simp at hmem
  | cons e h ih =>
      -- A second entry with the token of the first would repeat it.
      have hfresh : ∀ {k r : Nat}, e.leaseToken = some token → ¬ Leased k r token h := by
        rintro k r he ⟨now, until_, row, hmem⟩
        unfold UniqueTokens at hu
        simp only [List.filterMap_cons, he, List.nodup_cons] at hu
        exact hu.1 (List.mem_filterMap.mpr ⟨_, hmem, rfl⟩)
      obtain ⟨n₁, u₁, r₁, m₁⟩ := hi
      obtain ⟨n₂, u₂, r₂, m₂⟩ := hj
      rcases List.mem_cons.mp m₁ with e₁ | h₁
      · rcases List.mem_cons.mp m₂ with e₂ | h₂
        · have := e₁.trans e₂.symm
          injection this
        · exact absurd ⟨n₂, u₂, r₂, h₂⟩ (hfresh (e₁ ▸ rfl))
      · rcases List.mem_cons.mp m₂ with e₂ | h₂
        · exact absurd ⟨n₁, u₁, r₁, h₁⟩ (hfresh (e₂ ▸ rfl))
        · exact ih hu.tail ⟨n₁, u₁, r₁, h₁⟩ ⟨n₂, u₂, r₂, h₂⟩

/-! ## done at most once -/

/-- A latch no statement clears is set at most once in a chain of versions. -/
theorem flips_le_one {n pid : Nat} {on : Payment → Bool}
    (hon : ∀ a b, Payment.Advances a b → on a = true → on b = true)
    {row : Option Payment} {h : List Event} (hwf : WellFormed n h) (hl : Linked pid row h) :
    h.countP (Event.flips on pid) ≤ if row.any on then 1 else 0 := by
  induction h generalizing row with
  | nil => simp
  | cons e h ih =>
      rw [List.countP_cons]
      cases e with
      | published i q old new =>
          by_cases hq : q = pid
          · subst hq
            simp only [Linked, if_true] at hl
            obtain ⟨rfl, hl⟩ := hl
            have hle := ih hwf.2 hl
            have hadv := hwf.1.advances
            cases old with
            | none =>
                have hzero : h.countP (Event.flips on q) ≤ 0 := hle
                have hno : Event.flips on q (.published i q none new) = false := rfl
                rw [hno, if_neg Bool.false_ne_true]
                omega
            | some o =>
                have hmono := hon o new (hadv o rfl)
                cases ho : on o <;> cases hn : on new <;> simp_all [Event.flips]
          · simp only [Linked, if_neg hq] at hl
            have hle := ih hwf.2 hl
            have hno : Event.flips on pid (.published i q old new) = false := by
              cases old <;> simp [Event.flips, hq]
            simpa [hno] using hle
      | _ =>
          have hle := ih hwf.2 hl
          simpa [Event.flips] using hle

theorem countP_flips_le_one {n pid : Nat} {on : Payment → Bool}
    (hon : ∀ a b, Payment.Advances a b → on a = true → on b = true)
    {row : Option Payment} {h : List Event} (hwf : WellFormed n h) (hl : Linked pid row h) :
    h.countP (Event.flips on pid) ≤ 1 := by
  have := flips_le_one hon hwf hl
  split at this <;> omega

theorem WellFormed.covered_creates {n pid : Nat} {h : List Event} (hwf : WellFormed n h) :
    Covered Event.thread (Event.isLnurlCreate pid) (Event.flips Payment.lnurlClaimed pid) h := by
  induction h with
  | nil => trivial
  | cons e h ih =>
      refine ⟨?_, ih hwf.2⟩
      intro he
      cases e <;> simp only [Event.isLnurlCreate, Bool.false_eq_true, decide_eq_true_eq] at he
      subst he
      exact hwf.1

theorem WellFormed.covered_pays {n pid : Nat} {h : List Event} (hwf : WellFormed n h) :
    Covered Event.thread (Event.isClinkPay pid) (Event.flips Payment.clinkRecorded pid) h := by
  induction h with
  | nil => trivial
  | cons e h ih =>
      refine ⟨?_, ih hwf.2⟩
      intro he
      cases e <;> simp only [Event.isClinkPay, Bool.false_eq_true, decide_eq_true_eq] at he
      subst he
      exact hwf.1

/-- At most one LNURL invoice is requested for a payment. -/
theorem creates_le_one {n pid : Nat} {row : Option Payment} {h : List Event}
    (hwf : WellFormed n h) (hl : Linked pid row h) : h.countP (Event.isLnurlCreate pid) ≤ 1 :=
  hwf.covered_creates.countP_le_one
    (countP_flips_le_one (fun _ _ hadv => hadv.lnurlAttempted) hwf hl)

/-- The CLINK wallet of a payment is called at most once. -/
theorem pays_le_one {n pid : Nat} {row : Option Payment} {h : List Event}
    (hwf : WellFormed n h) (hl : Linked pid row h) : h.countP (Event.isClinkPay pid) ≤ 1 := by
  refine hwf.covered_pays.countP_le_one (countP_flips_le_one (fun a b hadv => ?_) hwf hl)
  intro ha
  simp only [Payment.clinkRecorded, decide_eq_true_eq] at ha ⊢
  exact Nat.lt_of_lt_of_le ha hadv.clinkAttempts

end Backend
