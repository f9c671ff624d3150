import Blindport.Backend.Specs.Requests

/-!
# Blindport.Backend.Safety

What holds of every run of the backend: any number of replicas, requests and
worker rounds, interleaved anyhow and stopped anywhere.

A run starts from a database no session has anything of (`World.Start`).  Every
configuration it reaches satisfies the invariant of `Moves`, and every step is a
move of one session (`Reachable.inv`, `Reachable.move`).  The results on
settlement, on CLINK and on LNURL receipts are read off these two.
-/

namespace Backend

open Conc

/-! ## runs -/

/-- The committed payment. -/
def World.payment (g : World) (pid : Nat) : Option Payment := (g.payments.cell pid).committed

/-- The committed subscription. -/
def World.subscription (g : World) (sid : Nat) : Option Subscription :=
  (g.subscriptions.cell sid).committed

/-- The committed referral credit of a payment. -/
def World.credit (g : World) (pid : Nat) : Option ReferralCredit := (g.credits.cell pid).committed

/-- A stored payment no worker has in hand. -/
structure Payment.Resting (p : Payment) : Prop where
  review : p.settlementReviewRequired = true → p.status ≠ .pending ∧ p.status ≠ .paid
  fallback : p.clinkNwcFallback = false
  untried : p.status = .pending → p.nwcAttemptCount = 0 →
    p.observedBlock = false ∧ p.nwcPreimageHash = none
  preimage : p.nwcPreimageHash.isSome → p.invoice.isSome
  token : p.nwcLeaseToken = none

/-- A database no session has anything of, with one open payment for each
subscription at most. -/
structure World.Start (g : World) : Prop where
  payments : ∀ pid, (g.payments.cell pid).pending = none
  subscriptions : ∀ sid, (g.subscriptions.cell sid).pending = none
  credits : ∀ pid, (g.credits.cell pid).pending = none
  history : g.history = []
  keyed : ∀ pid p, g.payment pid = some p → p.id = pid ∧ pid < g.payments.next
  resting : ∀ pid p, g.payment pid = some p → p.Resting
  single : ∀ pid qid p q, g.payment pid = some p → g.payment qid = some q →
    p.status.isOpen = true → q.status.isOpen = true → p.subscriptionId = q.subscriptionId →
    pid = qid
  credited : ∀ pid, (g.credit pid).isSome → ∃ p, g.payment pid = some p ∧ p.status = .paid
  keyedSubs : ∀ sid s, g.subscription sid = some s → s.id = sid ∧ sid < g.subscriptions.next

theorem Payment.Resting.rowOk {p : Payment} (h : p.Resting) : RowOk [] p where
  review := h.review
  fallback hf := by simp [h.fallback] at hf
  untried := h.untried
  preimage := h.preimage
  leased t ht := by simp [h.token] at ht

theorem World.Start.cell {g : World} (h : g.Start) (pid : Nat) :
    g.payments.cell pid = ⟨g.payment pid, none⟩ :=
  Cell.ext rfl (h.payments pid)

theorem World.Start.inv {g : World} (h : g.Start) (n : Nat) : Inv n g where
  cells pid := by
    rw [h.cell pid, h.history]
    exact .free (fun p hp => (h.keyed pid p hp).1) (fun p hp => (h.resting pid p hp).rowOk) trivial
  unused pid hpid := by
    rw [h.cell pid]
    cases hp : g.payment pid with
    | none => rfl
    | some p => exact absurd (h.keyed pid p hp).2 (Nat.not_lt.mpr hpid)
  wf := by
    rw [h.history]
    trivial
  live sid p q hp hq := by
    have key : ∀ k, Live sid (g.payments.cell k) →
        ∃ r, g.payment k = some r ∧ r.subscriptionId = sid ∧ r.status.isOpen = true := by
      rintro k (⟨r, hr, hs, ho⟩ | ⟨j, r, hr, -⟩)
      · exact ⟨r, hr, hs, ho⟩
      · rw [h.payments k] at hr
        contradiction
    obtain ⟨a, ha, hsa, hoa⟩ := key p hp
    obtain ⟨b, hb, hsb, hob⟩ := key q hq
    exact h.single p q a b ha hb hoa hob (hsa.trans hsb.symm)
  credits pid := by
    refine ⟨h.credited pid, fun j r hr => ?_⟩
    rw [h.credits pid] at hr
    contradiction
  subs sid := by
    have hnone (j : Nat) (s : Subscription) :
        (g.subscriptions.cell sid).pending ≠ some (j, s) := by
      simp [h.subscriptions sid]
    exact ⟨fun s hs => (h.keyedSubs sid s hs).1, fun j s hs => absurd hs (hnone j s),
      fun j s hs => absurd hs (hnone j s)⟩
  settled j pid sub hmem := by
    rw [h.history] at hmem
    cases hmem
  unusedSubs sid hsid := by
    refine Cell.ext ?_ (h.subscriptions sid)
    cases hs : (g.subscriptions.cell sid).committed with
    | none => rfl
    | some s => exact absurd (h.keyedSubs sid s hs).2 (Nat.not_lt.mpr hsid)

theorem World.Start.idle {g : World} (h : g.Start) (i : Nat) : Idle i g where
  calm q r _ hr := by
    rw [h.payments q] at hr
    contradiction
  steady k s _ hs := by
    rw [h.subscriptions k] at hs
    contradiction
  tame k s hs := by
    rw [h.subscriptions k] at hs
    contradiction

/-- A configuration some run of the backend reaches. -/
def Reachable (app : App) (c : Config Input World Error) : Prop :=
  ∃ g ls, World.Start g ∧ (backend app).run (System.init g) ls = some c

section reachable

variable {app : App} {c c' : Config Input World Error}

theorem Reachable.safe (h : Reachable app c) : (certified app).Safe c := by
  obtain ⟨g, ls, hg, hrun⟩ := h
  exact (certified app).run_safe ((certified app).safe_init (hg.inv _) hg.idle) hrun

theorem Reachable.run (h : Reachable app c) {ls : List (Label Input Entry)}
    (hrun : (backend app).run c ls = some c') : Reachable app c' := by
  obtain ⟨g, ms, hg, hms⟩ := h
  refine ⟨g, ms ++ ls, hg, ?_⟩
  rw [System.run_append, hms]
  exact hrun

theorem Reachable.inv (h : Reachable app c) : Inv app.cfg.nwcMaxPaymentAttempts c.global :=
  h.safe.inv

/-- Every step is a move of some session. -/
theorem Reachable.move (h : Reachable app c) {l : Label Input Entry}
    (hstep : (backend app).step c l = some c') :
    ∃ i, Move app.cfg.nwcMaxPaymentAttempts i c.global c'.global := by
  rcases ((certified app).step_safe h.safe hstep).2 with e | hmove
  · exact ⟨0, e ▸ .stay _⟩
  · exact hmove

/-- What is committed advances along a run. -/
theorem Reachable.advances (h : Reachable app c) {ls : List (Label Input Entry)}
    (hrun : (backend app).run c ls = some c') (pid : Nat) :
    Cell.Le Payment.Advances (c.global.payment pid) (c'.global.payment pid) :=
  (certified app).run_rel
    (T := fun g g' => Cell.Le Payment.Advances (g.payment pid) (g'.payment pid))
    (fun _ => Cell.Le.refl Payment.Advances.refl _)
    (fun _ _ _ => Cell.Le.trans fun _ _ _ h₁ h₂ => h₁.trans h₂)
    (fun _ _ _ hg hmove => hmove.advances hg pid) h.safe hrun

theorem Reachable.later (h : Reachable app c) {ls : List (Label Input Entry)}
    (hrun : (backend app).run c ls = some c') {pid : Nat} {p : Payment}
    (hp : c.global.payment pid = some p) :
    ∃ p', c'.global.payment pid = some p' ∧ Payment.Advances p p' := by
  have hle := h.advances hrun pid
  rw [hp] at hle
  cases hp' : c'.global.payment pid with
  | none => rw [hp'] at hle; exact absurd hle id
  | some p' => rw [hp'] at hle; exact ⟨p', rfl, hle⟩

end reachable

/-! ## a small deployment -/

namespace Sample

/-- The default settings with the Lightning wallets enabled. -/
def app : App where
  cfg := .default [.lightning, .nwc, .clink] [] List.nodup_nil
  preimageHash _ := none
  invoiceHash _ := none
  depth := 1

def user : User := ⟨0, false, true, 1, true, 1, false, 0⟩

/-- A managed Relay name that was paid for thirty days. -/
def subscription : Subscription :=
  { (⟨.relay, some "a.example", true, .tcp, .framed, .monthly, .exact, none⟩ :
      SubscriptionRequest).row app.cfg 0 ⟨List.replicate 32 0, Uuid.length_zeros⟩ 0
        (some "pool") none 0 with
    status := .active
    currentPeriodStart := some 0
    currentPeriodEnd := some (days 30) }

/-- Its open renewal payment. -/
def payment (method : PaymentMethod) : Payment :=
  { (⟨method, none, none, false⟩ : PaymentRequest).row app.cfg subscription .monthly
      ⟨2000, 0, 2000, 0, 0, 30, none⟩ 0 0 with
    invoice := some "lnbc"
    paymentHash := some "aa"
    expiresAt := some (days 30)
    nwcCredentialGeneration := some 1 }

/-- One account with one subscription and one payment. -/
def world (payment : Payment) : World where
  users := .ofList [user] (·.id)
  subscriptions := .ofList [subscription] (·.id)
  payments := .ofList [payment] (·.id)
  leases := .ofList [] (·.id)
  credits := .ofList [] (·.paymentId)
  orders := []
  history := []

/-- One session takes `k` actions and reads the same inputs at each. -/
def solo (e : Entry) (ω : Input) (k : Nat) : List (Label Input Entry) :=
  .spawn e :: List.replicate k (.act 0 ω)

theorem ofList_singleton {R : Type} (r : R) (key : R → Nat) (id : Nat) :
    ((Table.ofList [r] key).cell id).committed = if key r = id then some r else none := by
  by_cases h : key r = id <;> simp [Table.ofList, h]

theorem world_start {p : Payment} (hid : p.id = 0) (hp : p.Resting) : (world p).Start := by
  have hpay : ∀ pid q, (world p).payment pid = some q → pid = 0 ∧ q = p := by
    intro pid q hq
    rw [World.payment, world, ofList_singleton] at hq
    split at hq
    · rename_i e
      exact ⟨e.symm.trans hid, (Option.some.inj hq).symm⟩
    · contradiction
  refine ⟨fun _ => rfl, fun _ => rfl, fun _ => rfl, rfl, ?_, ?_, ?_, ?_, ?_⟩
  · intro pid q hq
    obtain ⟨rfl, rfl⟩ := hpay pid q hq
    exact ⟨hid, by simp [world, Table.ofList, hid]⟩
  · intro pid q hq
    exact (hpay pid q hq).2 ▸ hp
  · intro pid qid q r hq hr _ _ _
    exact (hpay pid q hq).1.trans (hpay qid r hr).1.symm
  · intro pid hc
    simp [World.credit, world, Table.ofList] at hc
  · intro sid s hs
    rw [World.subscription, world, ofList_singleton] at hs
    split at hs
    · rename_i e
      obtain rfl := Option.some.inj hs
      exact ⟨e, e ▸ Nat.zero_lt_one⟩
    · contradiction

theorem payment_resting (method : PaymentMethod) : (payment method).Resting :=
  ⟨by simp [payment, PaymentRequest.row], rfl, fun _ _ => ⟨rfl, rfl⟩, by simp [payment,
    PaymentRequest.row], rfl⟩

end Sample

/-! ## what a step publishes -/

section publishing

variable {n i : Nat} {g g' : World}

/-- Only a commit changes what is committed. -/
theorem Move.publishes (h : Move n i g g') :
    ((∀ pid, g'.payment pid = g.payment pid) ∧ ∀ sid, g'.subscription sid = g.subscription sid) ∨
      g' = g.commit i ∧ CommitOk i g := by
  cases h with
  | quiet h => exact .inl ⟨fun pid => by unfold World.payment; rw [h.payments],
      fun sid => committed_quiet h⟩
  | note => exact .inl ⟨fun _ => rfl, fun _ => rfl⟩
  | @lock q row hv hfree =>
      refine .inl ⟨fun pid => ?_, fun _ => rfl⟩
      by_cases e : pid = q
      · subst e
        simp [World.payment]
      · simp [World.payment, e]
  | @execute q row s hv hfree hsel hok =>
      refine .inl ⟨fun pid => ?_, fun _ => rfl⟩
      by_cases e : pid = q
      · subst e
        simp [World.payment, World.note]
      · simp [World.payment, World.note, e]
  | insert =>
      refine .inl ⟨fun pid => ?_, fun _ => rfl⟩
      by_cases e : pid = g.payments.next
      · subst e
        simp [World.payment, Table.insert]
      · simp [World.payment, Table.insert, e]
  | @extend k q row s hfree hid hlt =>
      refine .inl ⟨fun _ => rfl, fun sid => ?_⟩
      by_cases e : sid = k
      · subst e
        simp [World.subscription, World.note]
      · simp [World.subscription, World.note, e]
  | credit => exact .inl ⟨fun _ => rfl, fun _ => rfl⟩
  | commit hok => exact .inr ⟨rfl, hok⟩
  | rollback =>
      exact .inl ⟨fun _ => Cell.rollback_committed _ i, fun _ => Cell.rollback_committed _ i⟩

/-- The step publishes the payment as PAID. -/
structure BecomesPaid (pid : Nat) (r : Payment) (g g' : World) : Prop where
  row : g'.payment pid = some r
  paid : r.status = .paid
  unpaid : ∀ p, g.payment pid = some p → p.status ≠ .paid

/-- A payment becomes PAID in the commit of the session that settled it. -/
theorem BecomesPaid.earns {pid : Nat} {r : Payment} (h : BecomesPaid pid r g (g.commit i)) :
    Earns i pid g r := by
  have hrow : (g.payments.cell pid).view i = some r :=
    (Cell.commit_committed _ i).symm.trans h.row
  refine ⟨?_, h.paid, h.unpaid⟩
  by_contra hnot
  have hno : ∀ r', (g.payments.cell pid).pending ≠ some (i, r') := by
    intro r' hr'
    rw [Cell.view_of_held hr', Option.some.injEq] at hrow
    exact hnot (hrow ▸ hr')
  rw [Cell.view_of_not_held hno] at hrow
  exact h.unpaid r hrow h.paid

theorem Earns.becomesPaid {pid : Nat} {r : Payment} (h : Earns i pid g r) :
    BecomesPaid pid r g (g.commit i) :=
  ⟨(Cell.commit_committed _ i).trans (Cell.view_of_held h.pending), h.paid, h.unpaid⟩

/-- The commit of session `i` gives the subscription of the payment the period
the payment grants: the session had settled the payment, then loaded the
subscription, then read the clock. -/
def ExtendsBy (i pid : Nat) (r : Payment) (g g' : World) : Prop :=
  ∃ loaded now, Granted i pid r loaded now g.history ∧
    loaded.currentPeriodEnd = periodEnd (g.subscription r.subscriptionId) ∧
    periodEnd (g'.subscription r.subscriptionId) = some (r.grantedEnd loaded now)

theorem Extends.extendsBy {pid : Nat} {r : Payment} (h : Extends i pid r g) :
    ExtendsBy i pid r g (g.commit i) := by
  obtain ⟨loaded, now, s, hgr, hs, hl, he⟩ := h
  refine ⟨loaded, now, hgr, hl, ?_⟩
  have : (g.commit i).subscription r.subscriptionId = some s :=
    (Cell.commit_committed _ i).trans (Cell.view_of_held hs)
  rw [this]
  exact he

end publishing

/-! ## settlement -/

section settlement

variable {app : App} {c c' : Config Input World Error} {l : Label Input Entry}

/-- A payment that becomes PAID extends its subscription in the same commit. -/
theorem Reachable.extended (h : Reachable app c) (hstep : (backend app).step c l = some c')
    {pid : Nat} {r : Payment} (hpaid : BecomesPaid pid r c.global c'.global) :
    ∃ i, c'.global = c.global.commit i ∧ Earns i pid c.global r ∧
      ExtendsBy i pid r c.global c'.global := by
  obtain ⟨i, hmove⟩ := h.move hstep
  rcases hmove.publishes with ⟨hsame, -⟩ | ⟨e, hok⟩
  · have hrow := hpaid.row
    rw [hsame pid] at hrow
    exact absurd hpaid.paid (hpaid.unpaid r hrow)
  · rw [e] at hpaid
    exact ⟨i, e, hpaid.earns, e ▸ (hok.granted pid r hpaid.earns).extendsBy⟩

/-- A committed period changes only in a commit by which exactly one payment of
the subscription becomes PAID. -/
theorem Reachable.earned (h : Reachable app c) (hstep : (backend app).step c l = some c')
    {sid : Nat}
    (hne : periodEnd (c'.global.subscription sid) ≠ periodEnd (c.global.subscription sid)) :
    ∃! pid, ∃ r, BecomesPaid pid r c.global c'.global ∧ r.subscriptionId = sid := by
  obtain ⟨i, hmove⟩ := h.move hstep
  obtain ⟨e, -, pid, r, hearns, hsub⟩ := periodEnd_move hmove hne
  rw [e]
  refine ⟨pid, ⟨r, hearns.becomesPaid, hsub⟩, ?_⟩
  rintro q ⟨p, hp, hq⟩
  refine h.inv.live sid q pid ?_ ?_
  · rw [← hq]
    exact hp.earns.live h.inv
  · rw [← hsub]
    exact hearns.live h.inv

/-- A session that has raised makes no further action, and closing it publishes
nothing and leaves it nothing. -/
theorem raised_discarded {i : Nat} {e : Error} (hraise : c.thread i = some (.raise e)) :
    (∀ ω, (backend app).step c (.act i ω) = none) ∧
    ∃ c', (backend app).step c (.stop i) = some c' ∧
      (∀ pid, c'.global.payment pid = c.global.payment pid ∧
        ∀ r, (c'.global.payments.cell pid).pending ≠ some (i, r)) ∧
      ∀ sid, c'.global.subscription sid = c.global.subscription sid ∧
        ∀ s, (c'.global.subscriptions.cell sid).pending ≠ some (i, s) := by
  refine ⟨fun ω => by simp [System.step, hraise],
    { c with global := c.global.rollback i, thread := Function.update c.thread i none },
    by simp only [System.step, hraise, backend], ?_, ?_⟩
  · refine fun pid => ⟨Cell.rollback_committed _ i, fun r hr => ?_⟩
    have : ((c.global.payments.cell pid).rollback i).pending = some (i, r) := hr
    rw [Cell.rollback_pending] at this
    exact this.2 rfl
  · refine fun sid => ⟨Cell.rollback_committed _ i, fun s hs => ?_⟩
    have : ((c.global.subscriptions.cell sid).rollback i).pending = some (i, s) := hs
    rw [Cell.rollback_pending] at this
    exact this.2 rfl

/-- **Exactly-once settlement.** From every configuration the backend reaches: a
status other than PENDING is kept for the rest of the run; a step that publishes
a payment as PAID is the commit that gives its subscription the granted period,
and no other step moves a period; what a step publishes, a whole transaction
publishes; and a session that raises leaves nothing behind. -/
theorem settlement_exactly_once (h : Reachable app c) :
    (∀ ls c', (backend app).run c ls = some c' → ∀ pid p, c.global.payment pid = some p →
      ∃ p', c'.global.payment pid = some p' ∧ p'.subscriptionId = p.subscriptionId ∧
        p'.periodDays = p.periodDays ∧ (p.status ≠ .pending → p'.status = p.status)) ∧
    (∀ l c', (backend app).step c l = some c' →
      (∀ pid r, BecomesPaid pid r c.global c'.global →
        ∃ i, c'.global = c.global.commit i ∧ ExtendsBy i pid r c.global c'.global) ∧
      (∀ sid, periodEnd (c'.global.subscription sid) ≠ periodEnd (c.global.subscription sid) →
        ∃! pid, ∃ r, BecomesPaid pid r c.global c'.global ∧ r.subscriptionId = sid) ∧
      (((∀ pid, c'.global.payment pid = c.global.payment pid) ∧
          ∀ sid, c'.global.subscription sid = c.global.subscription sid) ∨
        ∃ i, c'.global = c.global.commit i)) ∧
    ∀ i e, c.thread i = some (.raise e) →
      (∀ ω, (backend app).step c (.act i ω) = none) ∧
      ∃ c', (backend app).step c (.stop i) = some c' ∧
        (∀ pid, c'.global.payment pid = c.global.payment pid ∧
          ∀ r, (c'.global.payments.cell pid).pending ≠ some (i, r)) ∧
        ∀ sid, c'.global.subscription sid = c.global.subscription sid ∧
          ∀ s, (c'.global.subscriptions.cell sid).pending ≠ some (i, s) := by
  refine ⟨fun ls c' hrun pid p hp => ?_, fun l c' hstep => ⟨fun pid r hpaid => ?_,
    fun sid hne => h.earned hstep hne, ?_⟩, fun i e hraise => raised_discarded hraise⟩
  · obtain ⟨p', hp', hadv⟩ := h.later hrun hp
    exact ⟨p', hp', hadv.subscriptionId, hadv.periodDays, hadv.status_eq⟩
  · obtain ⟨i, e, -, hext⟩ := h.extended hstep hpaid
    exact ⟨i, e, hext⟩
  · obtain ⟨i, hmove⟩ := h.move hstep
    rcases hmove.publishes with hsame | ⟨e, -⟩
    · exact .inl hsame
    · exact .inr ⟨i, e⟩

/-- A renewal is settled and stays settled. -/
theorem settlement_exactly_once_renewal :
    ∃ c, Reachable Sample.app c ∧ (c.global.payment 0).map (·.status) = some .paid ∧
      periodEnd (c.global.subscription 0) = some (days 60) ∧
      ∀ ls c', (backend Sample.app).run c ls = some c' →
        ∃ p, c'.global.payment 0 = some p ∧ p.status = .paid := by
  have hrun : (((backend Sample.app).run (System.init (Sample.world (Sample.payment .lightning)))
      (Sample.solo (.checkPayment 0) { clock := days 29, invoicePaid := some true } 11)).map
      fun c => ((c.global.payment 0).map (·.status), periodEnd (c.global.subscription 0))) =
      some (some .paid, some (days 60)) := by decide +kernel
  obtain ⟨c, hc, hobs⟩ := Option.map_eq_some_iff.mp hrun
  simp only [Prod.mk.injEq] at hobs
  have hreach : Reachable Sample.app c :=
    ⟨_, _, Sample.world_start rfl (Sample.payment_resting _), hc⟩
  refine ⟨c, hreach, hobs.1, hobs.2, fun ls c' hls => ?_⟩
  obtain ⟨p, hp, hs⟩ := Option.map_eq_some_iff.mp hobs.1
  obtain ⟨p', hp', -, -, hkept⟩ := (settlement_exactly_once hreach).1 ls c' hls 0 p hp
  exact ⟨p', hp', by rw [hkept (by simp [hs]), hs]⟩

end settlement

/-! ## wallets and receipts -/

section receipts

variable {app : App} {c c' : Config Input World Error} {l : Label Input Entry}

theorem Reachable.linked (h : Reachable app c) (pid : Nat) :
    Linked pid (c.global.payment pid) c.global.history :=
  (h.inv.cells pid).linked

theorem Rejected.countP_pos {pid : Nat} {h : List Event} (hr : Rejected pid h) :
    0 < h.countP (Event.isClinkPay pid) := by
  obtain ⟨i, answer, hmem, -⟩ := hr
  exact List.countP_pos_iff.mpr ⟨_, hmem, by simp [Event.isClinkPay]⟩

/-- What a step publishes of a payment, the session that commits had. -/
theorem Reachable.published (h : Reachable app c) (hstep : (backend app).step c l = some c')
    {pid : Nat} {new : Payment} (hnew : c'.global.payment pid = some new)
    (hne : c.global.payment pid ≠ some new) :
    ∃ i, c'.global = c.global.commit i ∧ (c.global.payments.cell pid).pending = some (i, new) := by
  obtain ⟨i, hmove⟩ := h.move hstep
  rcases hmove.publishes with ⟨hsame, -⟩ | ⟨e, -⟩
  · rw [hsame pid] at hnew
    exact absurd hnew hne
  · refine ⟨i, e, ?_⟩
    have hview : (c.global.payments.cell pid).view i = some new := by
      rw [e] at hnew
      exact (Cell.commit_committed _ i).symm.trans hnew
    rcases view_cases hview with hp | hc
    · exact hp
    · exact absurd hc hne

/-- A recorded send attempt was in order. -/
theorem Reachable.attempt (h : Reachable app c) (hstep : (backend app).step c l = some c')
    {pid : Nat} {old new : Payment} (hold : c.global.payment pid = some old)
    (hnew : c'.global.payment pid = some new)
    (hne : new.nwcAttemptCount ≠ old.nwcAttemptCount) :
    ∃ i, AttemptOk app.cfg.nwcMaxPaymentAttempts i pid old new c.global.history := by
  have hdiff : c.global.payment pid ≠ some new := by
    rw [hold]
    exact fun e => hne (Option.some.inj e ▸ rfl)
  obtain ⟨i, -, hp⟩ := h.published hstep hnew hdiff
  exact ⟨i, (h.inv.cells pid).attempt i new old hp hold hne⟩

/-- **CLINK at most once.** The CLINK wallet of a payment is called at most
once, and an NWC send attempt of a CLINK payment is published only over a row
that records the fallback, after that one call was rejected for good. -/
theorem clink_at_most_once (h : Reachable app c) :
    (∀ pid, c.global.history.countP (Event.isClinkPay pid) ≤ 1) ∧
    ∀ l c', (backend app).step c l = some c' → ∀ pid old new,
      c.global.payment pid = some old → c'.global.payment pid = some new →
      old.method = .clink → new.nwcAttemptCount ≠ old.nwcAttemptCount →
      old.clinkNwcFallback = true ∧ Rejected pid c.global.history ∧
        c.global.history.countP (Event.isClinkPay pid) = 1 := by
  have hle : ∀ pid, c.global.history.countP (Event.isClinkPay pid) ≤ 1 :=
    fun pid => pays_le_one h.inv.wf (h.linked pid)
  refine ⟨hle, fun l c' hstep pid old new hold hnew hm hne => ?_⟩
  obtain ⟨i, hok⟩ := h.attempt hstep hold hnew hne
  have hfallback := hok.fallback hm
  have hrow := (h.inv.cells pid).committed_ok old hold
  have hrej : Rejected pid c.global.history := by
    rw [← (h.inv.cells pid).committed_id old hold]
    exact hrow.fallback hfallback
  exact ⟨hfallback, hrej, Nat.le_antisymm (hle pid) hrej.countP_pos⟩

/-- A CLINK payment is rejected for good and tried with NWC. -/
theorem clink_at_most_once_fallback :
    ∃ c, Reachable Sample.app c ∧
      c.global.history.countP (Event.isClinkPay 0) = 1 ∧ Rejected 0 c.global.history := by
  let ω : Input :=
    { clock := days 29, dbNow := days 29, uuid := "t", invoiceState := some .open,
      credential := true, clinkPay := .error "denied" false true }
  have hrun : (((backend Sample.app).run (System.init (Sample.world (Sample.payment .clink)))
      (Sample.solo (.checkPayment 0) ω 28)).bind fun c =>
        ((backend Sample.app).step c (.act 0 ω)).map fun c' =>
          ((c.global.payment 0).map fun p => (p.method, p.nwcAttemptCount),
            (c'.global.payment 0).map (·.nwcAttemptCount))) =
      some (some (.clink, 0), some 1) := by decide +kernel
  obtain ⟨c, hc, hobs⟩ := Option.bind_eq_some_iff.mp hrun
  obtain ⟨c', hstep, hobs⟩ := Option.map_eq_some_iff.mp hobs
  simp only [Prod.mk.injEq] at hobs
  obtain ⟨old, hold, hm⟩ := Option.map_eq_some_iff.mp hobs.1
  obtain ⟨new, hnew, hcount⟩ := Option.map_eq_some_iff.mp hobs.2
  simp only [Prod.mk.injEq] at hm
  have hreach : Reachable Sample.app c :=
    ⟨_, _, Sample.world_start rfl (Sample.payment_resting _), hc⟩
  obtain ⟨-, hrej, hone⟩ := (clink_at_most_once hreach).2 _ c' hstep 0 old new hold hnew hm.1
    (by omega)
  exact ⟨c, hreach, hone, hrej⟩

/-- An LNURL payment becomes PAID from PENDING, by the session that verified
the settlement before the deadline. -/
theorem Reachable.verified (h : Reachable app c) (hstep : (backend app).step c l = some c')
    {pid : Nat} {r : Payment} (hpaid : BecomesPaid pid r c.global c'.global)
    (hl : r.invoiceProvider = some .lnurl) :
    ∃ i p, c'.global = c.global.commit i ∧ c.global.payment pid = some p ∧
      p.status = .pending ∧ Verified i pid r c.global.history := by
  obtain ⟨i, e, hearns, -⟩ := h.extended hstep hpaid
  have hcell := h.inv.cells pid
  obtain ⟨⟨p, hp⟩, hver⟩ := hcell.verified i r hearns.pending hpaid.paid hpaid.unpaid hl
  refine ⟨i, p, e, hp, ?_, hver⟩
  have hadv := hcell.ordered i r hearns.pending
  rw [hp] at hadv
  rcases Payment.Advances.status hadv with e | ⟨e, -⟩
  · exact absurd (e.symm.trans hpaid.paid) (hpaid.unpaid p hp)
  · exact e

/-- A payment under review is not PAID and has no credit. -/
theorem Reachable.review (h : Reachable app c) {pid : Nat} {p : Payment}
    (hp : c.global.payment pid = some p) (hr : p.settlementReviewRequired = true) :
    p.status ≠ .pending ∧ p.status ≠ .paid ∧ c.global.credit pid = none := by
  obtain ⟨hpend, hpaid⟩ := ((h.inv.cells pid).committed_ok p hp).review hr
  refine ⟨hpend, hpaid, ?_⟩
  cases hc : c.global.credit pid with
  | none => rfl
  | some credit =>
      obtain ⟨q, hq, hs⟩ := (h.inv.credits pid).1 (by
        rw [show (c.global.credits.cell pid).committed = some credit from hc]
        rfl)
      rw [show (c.global.payments.cell pid).committed = some p from hp, Option.some.injEq] at hq
      exact absurd (hq ▸ hs) hpaid

/-- A payment that is neither PENDING nor PAID does not become PAID. -/
theorem Reachable.not_becomesPaid (h : Reachable app c)
    (hstep : (backend app).step c l = some c') {pid : Nat} {p : Payment}
    (hp : c.global.payment pid = some p) (hpend : p.status ≠ .pending) (hpaid : p.status ≠ .paid)
    (r : Payment) : ¬ BecomesPaid pid r c.global c'.global := by
  intro hb
  have hrun : (backend app).run c [l] = some c' := by simp [System.run, hstep]
  obtain ⟨p', hp', hadv⟩ := h.later hrun hp
  rw [hb.row, Option.some.injEq] at hp'
  subst hp'
  exact hpaid ((hadv.status_eq hpend).symm.trans hb.paid)

/-- **LNURL receipts.** At most one LNURL invoice is requested for a payment; an
LNURL payment becomes PAID only from PENDING, in the session that was told of
the settlement and then read the clock before the deadline; and a payment under
review is not PAID, has no credit and moves no period, then and for the rest of
the run. -/
theorem lnurl_receipts (h : Reachable app c) :
    (∀ pid, c.global.history.countP (Event.isLnurlCreate pid) ≤ 1) ∧
    (∀ l c', (backend app).step c l = some c' → ∀ pid r, BecomesPaid pid r c.global c'.global →
      r.invoiceProvider = some .lnurl →
      ∃ i p, c'.global = c.global.commit i ∧ c.global.payment pid = some p ∧
        p.status = .pending ∧ Verified i pid r c.global.history) ∧
    ∀ pid p, c.global.payment pid = some p → p.settlementReviewRequired = true →
      ∀ ls c', (backend app).run c ls = some c' →
        (∃ p', c'.global.payment pid = some p' ∧ p'.settlementReviewRequired = true ∧
          p'.status = p.status ∧ p'.status ≠ .paid) ∧
        c'.global.credit pid = none ∧
        ∀ l c'', (backend app).step c' l = some c'' →
          ∀ sid, periodEnd (c''.global.subscription sid) ≠ periodEnd (c'.global.subscription sid) →
            ∃ i q r, q ≠ pid ∧ BecomesPaid q r c'.global c''.global ∧ r.subscriptionId = sid ∧
              ExtendsBy i q r c'.global c''.global := by
  refine ⟨fun pid => creates_le_one h.inv.wf (h.linked pid),
    fun l c' hstep pid r hpaid hl => h.verified hstep hpaid hl, ?_⟩
  intro pid p hp hr ls c' hrun
  obtain ⟨p', hp', hadv⟩ := h.later hrun hp
  have h' := h.run hrun
  have hr' := hadv.review hr
  obtain ⟨hpend, hpaid, hcredit⟩ := h'.review hp' hr'
  refine ⟨⟨p', hp', hr', hadv.status_eq (h.review hp hr).1, hpaid⟩, hcredit, ?_⟩
  intro l c'' hstep sid hne
  obtain ⟨q, ⟨r, hb, hsub⟩, -⟩ := h'.earned hstep hne
  obtain ⟨i, -, -, hext⟩ := h'.extended hstep hb
  refine ⟨i, q, r, fun e => ?_, hb, hsub, hext⟩
  exact h'.not_becomesPaid hstep hp' hpend hpaid r (e ▸ hb)

/-- A receipt that comes after the deadline is put under review for good. -/
theorem lnurl_receipts_late :
    ∃ c, Reachable Sample.app c ∧
      (c.global.payment 0).map (·.settlementReviewRequired) = some true ∧
      ∀ ls c', (backend Sample.app).run c ls = some c' → c'.global.credit 0 = none ∧
        ∃ p, c'.global.payment 0 = some p ∧ p.status ≠ .paid := by
  let p : Payment :=
    { Sample.payment .lightning with
      invoiceProvider := some .lnurl
      lnurlVerifyUrl := some "url"
      lnurlAttemptedAt := some 0 }
  have hrun : (((backend Sample.app).run (System.init (Sample.world p))
      (Sample.solo (.checkPayment 0) { clock := days 31, invoiceState := some .settled } 15)).map
      fun c => (c.global.payment 0).map (·.settlementReviewRequired)) = some (some true) := by
    decide +kernel
  obtain ⟨c, hc, hobs⟩ := Option.map_eq_some_iff.mp hrun
  have hrest := Sample.payment_resting .lightning
  have hreach : Reachable Sample.app c :=
    ⟨_, _, Sample.world_start (p := p) rfl
      ⟨hrest.review, hrest.fallback, hrest.untried, hrest.preimage, hrest.token⟩, hc⟩
  refine ⟨c, hreach, hobs, fun ls c' hls => ?_⟩
  obtain ⟨q, hq, hr⟩ := Option.map_eq_some_iff.mp hobs
  obtain ⟨⟨q', hq', -, -, hs⟩, hcredit, -⟩ := (lnurl_receipts hreach).2.2 0 q hq hr ls c' hls
  exact ⟨hcredit, q', hq', hs⟩

end receipts

end Backend
