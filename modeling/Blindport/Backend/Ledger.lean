import Blindport.Backend.History

/-!
# Blindport.Backend.Ledger

The invariant of the payment table and of the record.

`RowOk` holds of every version of a payment and `CellOk` of a payment's cell
together with the record.  A session that has a published row has it as it is
committed, apart from wallet columns it sent (`Calm`), or has executed one
statement on such a row; `ExecOk` is what it has to know before it executes
one.  Each way a cell can change has one lemma (`CellOk.lock`,
`CellOk.execute`, `CellOk.publish`, …).  The parameter `n` is
`NWC_MAX_PAYMENT_ATTEMPTS`.
-/

namespace Backend

open Conc

/-! ## rows -/

/-- What holds of every version of a payment. -/
structure RowOk (h : List Event) (p : Payment) : Prop where
  review : p.settlementReviewRequired = true → p.status ≠ .pending ∧ p.status ≠ .paid
  fallback : p.clinkNwcFallback = true → Rejected p.id h
  untried : p.status = .pending → p.nwcAttemptCount = 0 →
    p.observedBlock = false ∧ p.nwcPreimageHash = none
  preimage : p.nwcPreimageHash.isSome → p.invoice.isSome
  leased : ∀ t, p.nwcLeaseToken = some t → ∃ j, Leased j p.id t h

/-- The wallet columns of an object may be sent to `row`. -/
structure UnsentOk (h : List Event) (row : Payment) (u : Unsent) : Prop where
  tried : u.preimageHash.isSome → 0 < row.nwcAttemptCount ∧ row.invoice.isSome
  bare : RetriesBare h → u.preimageHash = none

/-- The row is as it was committed, apart from wallet columns that were sent. -/
def Calm (h : List Event) (p row : Payment) : Prop :=
  ∃ u : Unsent, row = u.flush p ∧ UnsentOk h p u

/-- A statement may record an attempt of thread `i` on `row`. -/
structure RecordOk (n i pid : Nat) (h : List Event) (row : Payment) (token : String)
    (u : Unsent) : Prop where
  fallback : row.method = .clink → row.clinkNwcFallback = true
  leased : ReadsBack h → Leased i pid token h
  cleared : ReadsBack h → UniqueTokens h →
    row.nwcAttemptCount < n ∧ (row.nwcAttemptCount = 0 ∨ Cleared pid token h)
  unblocked : BlocksKept h → RetriesBare h → UniqueTokens h → row.observedBlock = false
  unsent : UnsentOk h row u

/-- What a session has to know before it executes a statement on the published
`row`. -/
def StatementOk (n i pid : Nat) (h : List Event) (row : Payment) : PaymentUpdate → Prop
  | .stage .. => False
  | .settle .. => row.invoiceProvider = some .lnurl → Verified i pid row h
  | .review _ => row.status ≠ .pending
  | .startFallback .. => Rejected pid h
  | .saveNwc _ state code _ preimageHash _ =>
      (row.nwcAttemptCount = 0 → state ≠ .settled ∧ code = none ∧ preimageHash = none) ∧
        (preimageHash.isSome → row.invoice.isSome)
  | .flushNwc _ u => UnsentOk h row u
  | .failNwc code lease u => UnsentOk h row u ∧ (lease = none → code = "lnd_invoice_canceled")
  | .recordNwc token _ _ u => RecordOk n i pid h row token u
  | _ => True

/-- What it has to know of a row it inserted itself. -/
def DraftOk (row : Payment) : PaymentUpdate → Prop
  | .stage .. => row.status = .pending
  | .settle .. => row.invoiceProvider = none
  | _ => False

/-- What a session has to know before it executes a statement on `row`, the
version it sees of the payment in cell `c`. -/
def ExecOk (n i pid : Nat) (h : List Event) (c : Cell Payment) (row : Payment)
    (s : PaymentUpdate) : Prop :=
  match c.committed with
  | some p => Calm h p row ∧ StatementOk n i pid h row s
  | none => DraftOk row s

/-! ## cells -/

/-- What holds of the cell of a payment, with the record. -/
structure CellOk (n : Nat) (h : List Event) (pid : Nat) (c : Cell Payment) : Prop where
  committed_id : ∀ p, c.committed = some p → p.id = pid
  pending_id : ∀ j r, c.pending = some (j, r) → r.id = pid
  committed_ok : ∀ p, c.committed = some p → RowOk h p
  pending_ok : ∀ j r, c.pending = some (j, r) → RowOk h r
  ordered : c.Ordered Payment.Advances
  fresh : ∀ j r, c.pending = some (j, r) → c.committed = none → r.Fresh
  verified : ∀ j r, c.pending = some (j, r) → r.status = .paid →
    (∀ p, c.committed = some p → p.status ≠ .paid) → r.invoiceProvider = some .lnurl →
    (∃ p, c.committed = some p) ∧ Verified j pid r h
  attempt : ∀ j r p, c.pending = some (j, r) → c.committed = some p →
    r.nwcAttemptCount ≠ p.nwcAttemptCount → AttemptOk n j pid p r h
  token : ∀ j r t, c.pending = some (j, r) → r.nwcLeaseToken = some t →
    (∃ p, c.committed = some p ∧ p.nwcLeaseToken = some t) ∨ Leased j pid t h
  blocked : BlocksKept h → RetriesBare h → UniqueTokens h → ∀ j r p,
    c.pending = some (j, r) → c.committed = some p → p.observedBlock = true →
    (r.observedBlock = true ∨ r.status ≠ .pending) ∧ r.nwcAttemptCount = p.nwcAttemptCount
  unlocked : RetriesBare h → ∀ j r p, c.pending = some (j, r) → c.committed = some p →
    p.observedBlock = false → r.observedBlock = true → r.nwcLeaseToken = none
  linked : Linked pid c.committed h

theorem RowOk.cons {h : List Event} {p : Payment} (hr : RowOk h p) (e : Event) :
    RowOk (e :: h) p :=
  ⟨hr.review, fun hf => (hr.fallback hf).cons e, hr.untried, hr.preimage, fun t ht => by
    obtain ⟨j, hj⟩ := hr.leased t ht
    exact ⟨j, hj.cons e⟩⟩

theorem UnsentOk.cons {h : List Event} {row : Payment} {u : Unsent} (hu : UnsentOk h row u)
    (e : Event) : UnsentOk (e :: h) row u :=
  ⟨hu.tried, fun hb => hu.bare hb.tail⟩

theorem Calm.cons {h : List Event} {p row : Payment} (hc : Calm h p row) (e : Event) :
    Calm (e :: h) p row := by
  obtain ⟨u, hu, hok⟩ := hc
  exact ⟨u, hu, hok.cons e⟩

theorem AttemptOk.cons {n i pid : Nat} {old new : Payment} {h : List Event}
    (ha : AttemptOk n i pid old new h) {e : Event} (he : e.isAttempt pid = false) :
    AttemptOk n i pid old new (e :: h) where
  step := ha.step
  status := ha.status
  fallback := ha.fallback
  leased := by
    obtain ⟨token, ht, hl, hc⟩ := ha.leased
    refine ⟨token, ht, fun hrb => (hl hrb.tail).cons e, fun hrb hu => ?_⟩
    obtain ⟨hlt, hz | hcl⟩ := hc hrb.tail hu.tail
    · exact ⟨hlt, .inl hz⟩
    · exact ⟨hlt, .inr (hcl.cons he)⟩

/-- The entry does not publish a version of the payment. -/
def Event.Skips (pid : Nat) (e : Event) : Prop := ∀ i old new, e ≠ .published i pid old new

theorem Event.Skips.isAttempt {pid : Nat} {e : Event} (he : e.Skips pid) :
    e.isAttempt pid = false := by
  cases e with
  | published i q old new =>
      have hq : q ≠ pid := fun hq => he i old new (by rw [hq])
      cases old <;> simp [Event.isAttempt, hq]
  | _ => rfl

theorem Linked.cons {pid : Nat} {row : Option Payment} {h : List Event} (hl : Linked pid row h)
    {e : Event} (he : e.Skips pid) : Linked pid row (e :: h) := by
  cases e with
  | published i q old new =>
      have hq : q ≠ pid := fun hq => he i old new (by rw [hq])
      simpa only [Linked, if_neg hq] using hl
  | _ => exact hl

theorem PublishOk.cons {n i pid : Nat} {old : Option Payment} {new : Payment} {h : List Event}
    (hp : PublishOk n i pid old new h) {e : Event} (he : e.Skips pid) :
    PublishOk n i pid old new (e :: h) where
  advances := hp.advances
  fresh := hp.fresh
  attempt p ho hne := (hp.attempt p ho hne).cons he.isAttempt
  verified hs hno hl := by
    obtain ⟨hex, hv⟩ := hp.verified hs hno hl
    exact ⟨hex, hv.cons e⟩

namespace CellOk

variable {n pid : Nat} {h : List Event} {c : Cell Payment}

theorem cons (hc : CellOk n h pid c) {e : Event} (he : e.Skips pid) : CellOk n (e :: h) pid c where
  committed_id := hc.committed_id
  pending_id := hc.pending_id
  committed_ok p hp := (hc.committed_ok p hp).cons e
  pending_ok j r hr := (hc.pending_ok j r hr).cons e
  ordered := hc.ordered
  fresh := hc.fresh
  verified j r hr hs hp hl := by
    obtain ⟨hex, hv⟩ := hc.verified j r hr hs hp hl
    exact ⟨hex, hv.cons e⟩
  attempt j r p hr hp hne := (hc.attempt j r p hr hp hne).cons he.isAttempt
  token j r t hr ht := by
    rcases hc.token j r t hr ht with hp | hl
    · exact .inl hp
    · exact .inr (hl.cons e)
  blocked hb hrb hu := hc.blocked hb.tail hrb.tail hu.tail
  unlocked hrb := hc.unlocked hrb.tail
  linked := hc.linked.cons he

/-- A row nobody has. -/
theorem free {o : Option Payment} (hid : ∀ p, o = some p → p.id = pid)
    (hok : ∀ p, o = some p → RowOk h p) (hl : Linked pid o h) : CellOk n h pid ⟨o, none⟩ where
  committed_id := hid
  pending_id j r hr := by simp at hr
  committed_ok := hok
  pending_ok j r hr := by simp at hr
  ordered := by intro j r hr; simp at hr
  fresh j r hr := by simp at hr
  verified j r hr := by simp at hr
  attempt j r p hr := by simp at hr
  token j r t hr := by simp at hr
  blocked _ _ _ j r p hr := by simp at hr
  unlocked _ j r p hr := by simp at hr
  linked := hl

/-- The version a session sees is in order. -/
theorem view_ok (hc : CellOk n h pid c) {i : Nat} {row : Payment} (hv : c.view i = some row) :
    RowOk h row ∧ row.id = pid ∧ Cell.Le Payment.Advances c.committed (some row) := by
  have hle := hc.ordered.le_view Payment.Advances.refl i
  rw [hv] at hle
  refine ⟨?_, ?_, hle⟩
  all_goals
    unfold Cell.view at hv
    split at hv
    · rename_i t r hp
      split at hv
      · obtain rfl := Option.some.inj hv
        first | exact hc.pending_ok _ _ hp | exact hc.pending_id _ _ hp
      · first | exact hc.committed_ok _ hv | exact hc.committed_id _ hv
    · first | exact hc.committed_ok _ hv | exact hc.committed_id _ hv

theorem rollback (hc : CellOk n h pid c) : CellOk n h pid ⟨c.committed, none⟩ :=
  free hc.committed_id hc.committed_ok hc.linked

/-- What a commit publishes is in order. -/
theorem publishOk (hc : CellOk n h pid c) {i : Nat} {r : Payment}
    (hr : c.pending = some (i, r)) : PublishOk n i pid c.committed r h where
  advances p hp := by
    have := hc.ordered i r hr
    rw [hp] at this
    exact this
  fresh hn := hc.fresh i r hr hn
  attempt p hp hne := hc.attempt i r p hr hp hne
  verified := hc.verified i r hr

theorem publish (hc : CellOk n h pid c) {i : Nat} {r : Payment} (hr : c.pending = some (i, r)) :
    CellOk n (.published i pid c.committed r :: h) pid ⟨some r, none⟩ := by
  refine free ?_ ?_ (by simpa [Linked] using hc.linked)
  · rintro p hp
    obtain rfl := Option.some.inj hp
    exact hc.pending_id i r hr
  · rintro p hp
    obtain rfl := Option.some.inj hp
    exact (hc.pending_ok i r hr).cons _

end CellOk

theorem Payment.Fresh.rowOk {p : Payment} (hf : p.Fresh) (h : List Event) : RowOk h p where
  review := by simp [hf.review]
  fallback := by simp [hf.fallback]
  untried := by simp [Payment.observedBlock, hf.state, hf.preimage, hf.code]
  preimage := by simp [hf.preimage]
  leased := by simp [hf.token]

/-! ## calm rows -/

namespace Unsent

@[simp] theorem flush_none (p : Payment) : Unsent.none.flush p = p := by
  cases p
  simp [Unsent.none, flush]

/-- The columns of two flushes. -/
def onto (u v : Unsent) : Unsent :=
  ⟨u.lookupAt.or v.lookupAt, u.preimageHash.or v.preimageHash, u.feesPaidMsats.or v.feesPaidMsats⟩

theorem flush_flush (u v : Unsent) (p : Payment) : u.flush (v.flush p) = (u.onto v).flush p := by
  simp [flush, onto, Option.or_assoc]

end Unsent

theorem UnsentOk.none (h : List Event) (row : Payment) : UnsentOk h row .none :=
  ⟨by simp [Unsent.none], fun _ => rfl⟩

theorem Calm.refl (h : List Event) (p : Payment) : Calm h p p :=
  ⟨.none, (Unsent.flush_none p).symm, .none h p⟩

namespace Calm

variable {h : List Event} {p row : Payment}

theorem advances (hc : Calm h p row) : Payment.Advances p row := by
  obtain ⟨u, rfl, -⟩ := hc
  constructor <;> simp [Unsent.flush]

theorem status (hc : Calm h p row) : row.status = p.status := by
  obtain ⟨u, rfl, -⟩ := hc
  rfl

theorem attempts (hc : Calm h p row) : row.nwcAttemptCount = p.nwcAttemptCount := by
  obtain ⟨u, rfl, -⟩ := hc
  rfl

theorem token (hc : Calm h p row) : row.nwcLeaseToken = p.nwcLeaseToken := by
  obtain ⟨u, rfl, -⟩ := hc
  rfl

theorem observedBlock (hc : Calm h p row) (hrb : RetriesBare h) :
    row.observedBlock = p.observedBlock := by
  obtain ⟨u, rfl, hu⟩ := hc
  simp [Payment.observedBlock, Unsent.flush, hu.bare hrb]

theorem rowOk (hc : Calm h p row) (hp : RowOk h p) : RowOk h row := by
  obtain ⟨u, rfl, hu⟩ := hc
  refine ⟨hp.review, hp.fallback, fun hs hz => ?_, fun hpre => ?_, hp.leased⟩
  · have hnone : u.preimageHash = none := by
      cases hpre : u.preimageHash with
      | none => rfl
      | some x =>
          have hpos := (hu.tried (by simp [hpre])).1
          have hz' : p.nwcAttemptCount = 0 := hz
          omega
    simpa [Unsent.flush, Payment.observedBlock, hnone] using hp.untried hs hz
  · cases hpre' : u.preimageHash with
    | none => exact hp.preimage (by simpa [Unsent.flush, hpre'] using hpre)
    | some x => exact (hu.tried (by simp [hpre'])).2

/-- Sending more wallet columns leaves the row calm. -/
theorem flush (hc : Calm h p row) {u : Unsent} (hu : UnsentOk h row u) :
    Calm h p (u.flush row) := by
  obtain ⟨v, rfl, hv⟩ := hc
  refine ⟨u.onto v, Unsent.flush_flush u v p, ?_, ?_⟩
  · intro hpre
    cases hpu : u.preimageHash with
    | none => exact hv.tried (by simpa [Unsent.onto, hpu] using hpre)
    | some x => exact hu.tried (by simp [hpu])
  · intro hrb
    simp [Unsent.onto, hu.bare hrb, hv.bare hrb]

end Calm

/-- A session that has a calm row. -/
theorem CellOk.calm {n pid i : Nat} {h : List Event} {c : Cell Payment} {p row : Payment}
    (hc : CellOk n h pid c) (hp : c.committed = some p) (hcalm : Calm h p row) :
    CellOk n h pid ⟨c.committed, some (i, row)⟩ := by
  constructor
  case committed_id => exact hc.committed_id
  case committed_ok => exact hc.committed_ok
  case linked => exact hc.linked
  all_goals simp only [Option.some.injEq, Prod.mk.injEq, and_imp, hp]
  case pending_id =>
    rintro j r rfl rfl
    exact hcalm.advances.id.trans (hc.committed_id p hp)
  case pending_ok => rintro j r rfl rfl; exact hcalm.rowOk (hc.committed_ok p hp)
  case ordered =>
    intro j r hr
    simp only [Option.some.injEq, Prod.mk.injEq] at hr
    obtain ⟨-, rfl⟩ := hr
    exact hcalm.advances
  case fresh => simp
  case verified =>
    rintro j r rfl rfl hs hno
    exact absurd (hcalm.status ▸ hs) (hno p rfl)
  case attempt => rintro j r q rfl rfl rfl hne; exact absurd hcalm.attempts hne
  case token => rintro j r t rfl rfl ht; exact .inl ⟨p, rfl, hcalm.token ▸ ht⟩
  case blocked =>
    rintro - hrb - j r q rfl rfl rfl hb
    exact ⟨.inl ((hcalm.observedBlock hrb).trans hb), hcalm.attempts⟩
  case unlocked =>
    rintro hrb j r q rfl rfl rfl hno hb
    rw [hcalm.observedBlock hrb, hno] at hb
    contradiction

/-- Locking a row changes nothing of it. -/
theorem CellOk.lock {n pid i : Nat} {h : List Event} {c : Cell Payment} {row : Payment}
    (hc : CellOk n h pid c) (hv : c.view i = some row) (hfree : c.lockedByOther i = false) :
    CellOk n h pid ⟨c.committed, some (i, row)⟩ := by
  rcases Cell.lockedByOther_eq_false.mp hfree with hn | ⟨r, hr⟩
  · have hcom : c.committed = some row := by
      rw [← hv, Cell.view_of_not_held]
      intro r
      rw [hn]
      simp
    exact hc.calm hcom (Calm.refl h row)
  · rw [Cell.view_of_held hr] at hv
    obtain rfl := Option.some.inj hv
    have : c = ⟨c.committed, some (i, r)⟩ := by rw [← hr]
    rwa [← this]

/-! ## statements -/

namespace PaymentUpdate

@[simp] theorem set_id (s : PaymentUpdate) (p : Payment) : (s.set p).id = p.id := by
  cases s <;> rfl

/-- Only `recordNwc` counts. -/
theorem set_attempts {s : PaymentUpdate} (hs : ∀ t now next u, s ≠ .recordNwc t now next u)
    (p : Payment) : (s.set p).nwcAttemptCount = p.nwcAttemptCount := by
  cases s with
  | recordNwc t now next u => exact absurd rfl (hs t now next u)
  | _ => rfl

/-- Only `claimNwc` gives out a token. -/
theorem set_token {s : PaymentUpdate} {p : Payment} {t : String}
    (hs : ∀ now until_, s ≠ .claimNwc now until_ t) (ht : (s.set p).nwcLeaseToken = some t) :
    p.nwcLeaseToken = some t := by
  cases s with
  | claimNwc now until_ token =>
      simp only [set, Option.some.injEq] at ht
      exact absurd (ht ▸ rfl) (hs now until_)
  | saveNwc => simp [set] at ht
  | failNwc => simp [set] at ht
  | _ => exact ht

/-- Only `settle` makes a payment paid. -/
theorem set_paid {s : PaymentUpdate} {p : Payment} (hs : ∀ paidAt v, s ≠ .settle paidAt v)
    (ht : (s.set p).status = .paid) : p.status = .paid := by
  cases s with
  | settle paidAt v => exact absurd rfl (hs paidAt v)
  | expire => simp [set] at ht
  | failNwc => simp [set] at ht
  | failClink => simp [set] at ht
  | _ => exact ht

/-- No statement touches a paid row's status. -/
theorem set_of_paid {s : PaymentUpdate} {p : Payment} (hp : p.status = .paid)
    (hsel : s.selects p = true) : (s.set p).status = .paid := by
  cases s <;> simp_all [selects, set, Unsent.flush]

end PaymentUpdate

section execute

variable {n i pid : Nat} {h : List Event} {c : Cell Payment} {p row : Payment} {s : PaymentUpdate}

theorem StatementOk.reasoned (hok : StatementOk n i pid h row s) : s.reasoned := by
  cases s with
  | failNwc code lease u =>
      cases lease with
      | none => exact hok.2 rfl
      | some t => trivial
  | _ => trivial

theorem ExecOk.reasoned (hok : ExecOk n i pid h c row s) : s.reasoned := by
  unfold ExecOk at hok
  split at hok
  · exact hok.2.reasoned
  · cases s with
    | failNwc => exact hok.elim
    | _ => trivial

theorem StatementOk.not_stage (hok : StatementOk n i pid h row s) : s.isStage = false := by
  cases s with
  | stage => exact hok.elim
  | _ => rfl

/-- The versions a statement writes are in order. -/
theorem RowOk.set (hr : RowOk h row) (hid : row.id = pid) (hsel : s.selects row = true)
    (hok : StatementOk n i pid h row s) : RowOk (.executed i pid s row :: h) (s.set row) where
  review := by
    have := hr.review
    cases s <;> simp_all [PaymentUpdate.selects, PaymentUpdate.set, Unsent.flush, StatementOk]
  fallback := by
    intro hf
    rw [PaymentUpdate.set_id]
    cases s with
    | startFallback => exact (hid ▸ hok : Rejected row.id h).cons _
    | _ => exact (hr.fallback hf).cons _
  untried := by
    intro hs hz
    have hu := hr.untried
    cases s with
    | saveNwc token state code lookupAt preimageHash fees =>
        obtain ⟨hst, hcode, hpre⟩ := hok.1 hz
        simp [PaymentUpdate.set, Payment.observedBlock, hst, hcode, hpre]
    | flushNwc token u => exact ((Calm.refl h row).flush hok).rowOk hr |>.untried hs hz
    | recordNwc => simp [PaymentUpdate.set] at hz
    | failNwc => simp [PaymentUpdate.set] at hs
    | settle => simp [PaymentUpdate.set] at hs
    | expire => simp [PaymentUpdate.set] at hs
    | failClink => simp [PaymentUpdate.set] at hs
    | stage | storeLnurl =>
        obtain ⟨hb, hp⟩ := hu hs hz
        refine ⟨?_, hp⟩
        simp_all [PaymentUpdate.set, Payment.observedBlock]
    | _ => exact hu hs hz
  preimage := by
    intro hp
    have hpre := hr.preimage
    cases s with
    | saveNwc token state code lookupAt preimageHash fees => exact hok.2 hp
    | flushNwc token u => exact ((Calm.refl h row).flush hok).rowOk hr |>.preimage hp
    | failNwc code lease u => exact ((Calm.refl h row).flush hok.1).rowOk hr |>.preimage hp
    | recordNwc token now next u =>
        exact ((Calm.refl h row).flush hok.unsent).rowOk hr |>.preimage hp
    | bindInvoice | storeLnurl => simp [PaymentUpdate.set]
    | _ => exact hpre hp
  leased t ht := by
    rw [PaymentUpdate.set_id]
    by_cases hs : ∃ now until_, s = .claimNwc now until_ t
    · obtain ⟨now, until_, rfl⟩ := hs
      exact ⟨i, now, until_, row, hid ▸ List.mem_cons_self⟩
    · obtain ⟨j, hj⟩ := hr.leased t
        (PaymentUpdate.set_token (fun now until_ e => hs ⟨now, until_, e⟩) ht)
      exact ⟨j, hj.cons _⟩

theorem RowOk.no_preimage (hr : RowOk h row) (hi : row.invoice = none) :
    row.nwcPreimageHash = none := by
  cases hp : row.nwcPreimageHash with
  | none => rfl
  | some x =>
      have := hr.preimage (by simp [hp])
      simp [hi] at this

theorem row_invoice_of_selects {request hash verifyUrl : String} {expiresAt : Datetime}
    (hsel : (PaymentUpdate.storeLnurl request hash verifyUrl expiresAt).selects row = true) :
    row.invoice = none := by
  simp only [PaymentUpdate.selects, decide_eq_true_eq] at hsel
  exact Option.isNone_iff_eq_none.mp hsel.1

/-- A statement that is no observation and no attempt keeps a block, or ends
the payment. -/
theorem observedBlock_set (hr : RowOk h row) (hrb : RetriesBare h) (hsel : s.selects row = true)
    (hok : StatementOk n i pid h row s)
    (hsave : ∀ token state code lookupAt preimageHash fees,
      s ≠ .saveNwc token state code lookupAt preimageHash fees)
    (hrec : ∀ t now next u, s ≠ .recordNwc t now next u)
    (hb : row.observedBlock = true) :
    (s.set row).observedBlock = true ∨ (s.set row).status ≠ .pending := by
  cases s with
  | stage => exact hok.elim
  | saveNwc => exact absurd rfl (hsave _ _ _ _ _ _)
  | recordNwc => exact absurd rfl (hrec _ _ _ _)
  | flushNwc token u =>
      left
      simpa [PaymentUpdate.set, Unsent.flush, Payment.observedBlock, hok.bare hrb] using hb
  | storeLnurl request hash verifyUrl expiresAt =>
      -- The hash is stored before there is an invoice, so before any preimage.
      left
      have hnone := hr.no_preimage (row_invoice_of_selects hsel)
      simpa [PaymentUpdate.set, Payment.observedBlock, hnone] using hb
  | settle => right; simp [PaymentUpdate.set]
  | expire => right; simp [PaymentUpdate.set]
  | failNwc => right; simp [PaymentUpdate.set]
  | failClink => right; simp [PaymentUpdate.set]
  | _ => left; exact hb

/-- A block is recorded by an observation or a failure, and both give the lease
up. -/
theorem token_of_observedBlock (hr : RowOk h row) (hrb : RetriesBare h)
    (hsel : s.selects row = true) (hok : StatementOk n i pid h row s)
    (hno : row.observedBlock = false) (hb : (s.set row).observedBlock = true) :
    (s.set row).nwcLeaseToken = none := by
  cases s with
  | stage => exact hok.elim
  | saveNwc => rfl
  | failNwc => rfl
  | flushNwc token u =>
      simp [PaymentUpdate.set, Unsent.flush, Payment.observedBlock, hok.bare hrb] at hb hno
      simp_all
  | recordNwc token now next u =>
      have hbare := hok.unsent.bare hrb
      simp [PaymentUpdate.set, Unsent.flush, Payment.observedBlock, hbare] at hb hno
      exact absurd hb.2 (hno.2.1 hb.1)
  | storeLnurl request hash verifyUrl expiresAt =>
      have hnone := hr.no_preimage (row_invoice_of_selects hsel)
      simp [PaymentUpdate.set, Payment.observedBlock, hnone] at hb hno
      simp_all
  | _ => exact absurd (hno.symm.trans hb) Bool.false_ne_true

/-- A statement on a calm row. -/
theorem CellOk.execute_calm (hc : CellOk n h pid c) (hp : c.committed = some p)
    (hcalm : Calm h p row) (hsel : s.selects row = true) (hok : StatementOk n i pid h row s) :
    CellOk n (.executed i pid s row :: h) pid ⟨c.committed, some (i, s.set row)⟩ := by
  have hrow := hcalm.rowOk (hc.committed_ok p hp)
  have hid : row.id = pid := hcalm.advances.id.trans (hc.committed_id p hp)
  have hadv := hcalm.advances.trans (PaymentUpdate.set_advances hok.not_stage hsel)
  have hskip : Event.Skips pid (.executed i pid s row) := fun _ _ _ => by simp
  constructor
  case committed_id => exact hc.committed_id
  case committed_ok => exact fun q hq => (hc.committed_ok q hq).cons _
  case linked => exact hc.linked.cons hskip
  all_goals simp only [Option.some.injEq, Prod.mk.injEq, and_imp, hp]
  case pending_id => rintro j r rfl rfl; simpa using hid
  case pending_ok => rintro j r rfl rfl; exact hrow.set hid hsel hok
  case ordered =>
    intro j r hr
    simp only [Option.some.injEq, Prod.mk.injEq] at hr
    obtain ⟨-, rfl⟩ := hr
    exact hadv
  case fresh => simp
  case verified =>
    rintro j r rfl rfl hs hno hl
    cases s with
    | settle paidAt v => exact ⟨⟨p, rfl⟩, (hok hl).cons _⟩
    | _ =>
        refine absurd ?_ (hno p rfl)
        rw [← hcalm.status]
        exact PaymentUpdate.set_paid (by simp) hs
  case attempt =>
    rintro j r q rfl rfl rfl hne
    cases s with
    | recordNwc token now next u =>
        have hsel' := hsel
        simp only [PaymentUpdate.selects, decide_eq_true_eq] at hsel'
        refine AttemptOk.cons ⟨?_, ?_, ?_, ?_⟩ hskip.isAttempt
        · simp [PaymentUpdate.set, hcalm.attempts]
        · rw [← hcalm.status]
          exact hsel'.1
        · obtain ⟨v, rfl, -⟩ := hcalm
          exact hok.fallback
        · rw [← hcalm.token, ← hcalm.attempts]
          exact ⟨token, hsel'.2.1, hok.leased, hok.cleared⟩
    | _ => exact absurd ((PaymentUpdate.set_attempts (by simp) row).trans hcalm.attempts) hne
  case token =>
    rintro j r t rfl rfl ht
    by_cases hs : ∃ now until_, s = .claimNwc now until_ t
    · obtain ⟨now, until_, rfl⟩ := hs
      exact .inr ⟨now, until_, row, List.mem_cons_self⟩
    · left
      refine ⟨p, rfl, ?_⟩
      rw [← hcalm.token]
      exact PaymentUpdate.set_token (fun now until_ e => hs ⟨now, until_, e⟩) ht
  case blocked =>
    rintro hbk hrb hut j r q rfl rfl rfl hb
    rw [← hcalm.observedBlock hrb.tail] at hb
    rw [← hcalm.attempts]
    cases s with
    | saveNwc token state code lookupAt preimageHash fees =>
        refine ⟨.inl ?_, rfl⟩
        exact hbk i pid token state code lookupAt preimageHash fees row List.mem_cons_self hb
    | recordNwc token now next u =>
        have := hok.unblocked hbk.tail hrb.tail hut.tail
        rw [this] at hb
        contradiction
    | _ =>
        refine ⟨?_, PaymentUpdate.set_attempts (by simp) row⟩
        exact observedBlock_set hrow hrb.tail hsel hok (by simp) (by simp) hb
  case unlocked =>
    rintro hrb j r q rfl rfl rfl hno hb
    rw [← hcalm.observedBlock hrb.tail] at hno
    exact token_of_observedBlock hrow hrb.tail hsel hok hno hb

/-- A statement on a row the session inserted. -/
theorem CellOk.execute_draft (hc : CellOk n h pid c) (hn : c.committed = none)
    (hr : c.pending = some (i, row)) (hsel : s.selects row = true) (hok : DraftOk row s) :
    CellOk n (.executed i pid s row :: h) pid ⟨c.committed, some (i, s.set row)⟩ := by
  have hrow := hc.pending_ok i row hr
  have hfresh := hc.fresh i row hr hn
  have hskip : Event.Skips pid (.executed i pid s row) := fun _ _ _ => by simp
  have hfresh' : (s.set row).Fresh := by
    cases s with
    | stage => exact ⟨hfresh.1, hfresh.2, hfresh.3, hfresh.4, hfresh.5, hfresh.6, hfresh.7,
        hfresh.8, hfresh.9⟩
    | settle => exact ⟨hfresh.1, hfresh.2, hfresh.3, hfresh.4, hfresh.5, hfresh.6, hfresh.7,
        hfresh.8, hfresh.9⟩
    | _ => exact hok.elim
  constructor
  case committed_id => exact hc.committed_id
  case committed_ok => exact fun q hq => (hc.committed_ok q hq).cons _
  case linked => exact hc.linked.cons hskip
  all_goals simp only [Option.some.injEq, Prod.mk.injEq, and_imp, hn, reduceCtorEq]
  case pending_id => rintro j r rfl rfl; simpa using hc.pending_id i row hr
  case pending_ok =>
    rintro j r rfl rfl
    exact hfresh'.rowOk _
  case ordered =>
    intro j r hr'
    trivial
  case fresh => rintro j r rfl rfl -; exact hfresh'
  case verified =>
    rintro j r rfl rfl hs - hl
    cases s with
    | settle paidAt v =>
        have hl' : row.invoiceProvider = some .lnurl := hl
        rw [show row.invoiceProvider = none from hok] at hl'
        contradiction
    | stage provider key hash expiresAt nwcGeneration clinkGeneration =>
        have hs' : row.status = .paid := hs
        rw [show row.status = .pending from hok] at hs'
        contradiction
    | _ => exact hok.elim
  case token =>
    rintro j r t rfl rfl ht
    rw [hfresh'.token] at ht
    contradiction
  case attempt => simp
  case blocked => simp
  case unlocked => simp

/-- **Statements.** A statement whose requirements are met keeps the invariant of
the cell. -/
theorem CellOk.execute (hc : CellOk n h pid c) (hv : c.view i = some row)
    (hsel : s.selects row = true) (hok : ExecOk n i pid h c row s) :
    CellOk n (.executed i pid s row :: h) pid ⟨c.committed, some (i, s.set row)⟩ := by
  unfold ExecOk at hok
  split at hok
  · rename_i p hp
    exact hc.execute_calm hp hok.1 hsel hok.2
  · rename_i hn
    refine hc.execute_draft hn ?_ hsel hok
    by_contra hne
    rw [Cell.view_of_not_held] at hv
    · simp [hn] at hv
    · intro r hr
      rw [Cell.view_of_held hr, Option.some.injEq] at hv
      exact hne (hv ▸ hr)

/-- A row as it is inserted. -/
theorem CellOk.insert (hc : CellOk n h pid ⟨none, none⟩) (hid : row.id = pid)
    (hfresh : row.Fresh) (hs : row.status = .pending) :
    CellOk n h pid ⟨none, some (i, row)⟩ := by
  constructor
  case linked => exact hc.linked
  case committed_id => intro p hp; simp at hp
  case committed_ok => intro p hp; simp at hp
  case ordered => intro j r hr; trivial
  all_goals simp only [Option.some.injEq, Prod.mk.injEq, and_imp, reduceCtorEq]
  case pending_id => rintro j r rfl rfl; exact hid
  case pending_ok =>
    rintro j r rfl rfl
    exact hfresh.rowOk _
  case fresh => rintro j r rfl rfl -; exact hfresh
  case verified => rintro j r rfl rfl hp; simp [hs] at hp
  case token =>
    rintro j r t rfl rfl ht
    rw [hfresh.token] at ht
    contradiction
  case attempt => simp
  case blocked => simp
  case unlocked => simp

end execute

end Backend
