import Blindport.Backend.Requests
import Blindport.Backend.Specs.Reaping

/-!
# Blindport.Backend.Specs.Requests

The requests of an account, and the system they make: every entry point of the
backend keeps to the discipline of `Moves` (`certified`).
-/

namespace Backend

open Conc Conc.Discipline

variable {n i : Nat} {A : World → Prop}

/-! ## subscriptions -/

/-- Inserting a subscription is quiet if it has no period yet and waits for no upgrade. -/
theorem quiet_insert {g : World} {row : Nat → Subscription} (hg : Inv n g)
    (hid : ∀ id, (row id).id = id) (hend : ∀ id, (row id).currentPeriodEnd = none)
    (hlink : ∀ id, (row id).upgradeFromSubscriptionId = none) :
    Quiet i g { g with subscriptions := g.subscriptions.insert i row } where
  payments := rfl
  credits := rfl
  history := rfl
  subs k := by
    by_cases e : k = g.subscriptions.next
    · subst e
      have hcell := hg.unusedSubs _ (Nat.le_refl _)
      simp only [Table.insert, Table.set_cell_self]
      have hlinked : (row g.subscriptions.next).Linked := by
        simp [Subscription.Linked, Subscription.upgradeInitial, hlink]
      refine .write (i := i) ?_ (hid _) ?_ (.inr ⟨by rw [hcell], hlinked⟩)
      · simp [hcell, Cell.lockedByOther]
      · simp [hcell, hend, Cell.view, periodEnd]
    · simpa [Table.insert, e] using Touch.same _
  next := Nat.le_succ _
  unused k hk := by
    have e : k ≠ g.subscriptions.next := by
      have : g.subscriptions.next + 1 ≤ k := hk
      omega
    simp [Table.insert, e]
  later k a b ha hb := by
    have e : k ≠ g.subscriptions.next := by
      rintro rfl
      simp [Table.get, hg.unusedSubs _ (Nat.le_refl _), Cell.view] at ha
    have hab : g.subscriptions.get i k = some b := by simpa [Table.get, Table.insert, e] using hb
    exact .inl (Option.some.inj (ha.symm.trans hab) ▸ .refl a)

/-- Session `i` may insert a subscription: it has settled nothing and inserted no payment. -/
def Staging (i : Nat) (g : World) : Prop := Sober i g ∧ CalmBut i none g

theorem Staging.passive : Passive n i (Staging i) := Sober.passive.and (CalmBut.passive none)

theorem Idle.staging {g : World} (h : Idle i g) : Staging i g := ⟨h.sober, h.calm⟩

/-- Session `i` has inserted the subscription. -/
def Inserted (i : Nat) (sub : Subscription) (g : World) : Prop :=
  g.subscriptions.cell sub.id = ⟨none, some (i, sub)⟩

theorem Inserted.stable (sub : Subscription) : (discipline n).Stable i (Inserted i sub) := by
  intro j g g' hj hg hmove h
  unfold Inserted
  have hcell : g.subscriptions.cell sub.id = ⟨none, some (i, sub)⟩ := h
  rw [held_sub hj hmove sub.id sub (.inl (by rw [hcell]))]
  exact hcell

/-- The load of a subscription. -/
theorem getSubscription_seen (hA : (discipline n).Stable i A) (id : Nat) :
    Spec n i A (getSubscription i id) fun o g => A g ∧ g.subscriptions.get i id = o := by
  refine Triple.atomic hA fun ω g g' b hg h hf => ?_
  simp only [Option.some.injEq, Prod.mk.injEq] at hf
  obtain ⟨rfl, rfl⟩ := hf
  exact ⟨.stay g, h, rfl⟩

theorem refreshSubscription_seen (hA : (discipline n).Stable i A) (id : Nat) :
    Spec n i A (refreshSubscription i id) fun sub g =>
      A g ∧ g.subscriptions.get i id = some sub := by
  refine Spec.bind (getSubscription_seen hA id) fun o => ?_
  cases o with
  | none => exact .raise _
  | some sub => exact .pure fun _ _ h => h

namespace Keeps

theorem hasPendingUpgrade (hA : Passive n i A) (id : Nat) :
    Keeps n i A (Backend.hasPendingUpgrade i id) :=
  .bind (.selectSubscriptions hA _) fun _ => .pure _

theorem requireAccountCapacity (hA : Passive n i A) (cfg : Settings) (userId : Nat)
    (product : ProductType) (additional : Nat) :
    Keeps n i A (Backend.requireAccountCapacity cfg i userId product additional) := by
  refine .bind (.selectSubscriptions hA _) fun held => .ite (.raise _) ?_
  exact .bind (.selectSubscriptions hA _) fun claims => .ite (.raise _) (.pure _)

theorem claimTexts (hA : Passive n i A) (req : SubscriptionRequest) :
    Keeps n i A (Backend.claimTexts req) := by
  unfold Backend.claimTexts
  refine .ite (.pure _) (.bind (.input hA _) fun texts => ?_)
  obtain ⟨poolDomain, token⟩ := texts
  cases poolDomain with
  | none => exact .raise _
  | some poolDomain => exact .pure _

end Keeps

theorem insertSubscription_spec {row : Nat → Subscription} (hid : ∀ id, (row id).id = id)
    (hend : ∀ id, (row id).currentPeriodEnd = none)
    (hlink : ∀ id, (row id).upgradeFromSubscriptionId = none) :
    Spec n i (Staging i) (insertSubscription i row) fun id g =>
      Staging i g ∧ ∃ sub, sub.id = id ∧ Inserted i sub g := by
  refine Spec.bind (Q := fun o g => ∀ id, o = some id →
    Staging i g ∧ ∃ sub, sub.id = id ∧ Inserted i sub g) ?_ fun o => ?_
  · refine Triple.atomic Staging.passive.stable fun ω g g' b hg h hf => ?_
    simp only [Option.map_eq_some_iff] at hf
    obtain ⟨taken, -, hf⟩ := hf
    cases taken with
    | true =>
        simp only [if_true, Prod.mk.injEq] at hf
        obtain ⟨rfl, rfl⟩ := hf
        exact ⟨.stay g, by simp⟩
    | false =>
        simp only [Bool.false_eq_true, if_false, Prod.mk.injEq] at hf
        obtain ⟨rfl, rfl⟩ := hf
        have hq := quiet_insert (i := i) hg hid hend hlink
        refine ⟨.quiet hq, fun id e => ⟨⟨h.1.quiet hq, h.2.quiet hq⟩, row id, hid id, ?_⟩⟩
        obtain rfl := Option.some.inj e
        have hcell := hg.unusedSubs _ (Nat.le_refl _)
        simp [Inserted, hid, Table.insert, hcell, Cell.write]
  · cases o with
    | none => exact .raise _
    | some id => exact .pure fun g _ h => h id rfl

theorem stageSubscription_spec (app : App) (userId : Nat) (req : SubscriptionRequest)
    (excluded : Option Nat) (additional : Nat) :
    Spec n i (Staging i) (stageSubscription app i userId req excluded additional) fun id g =>
      Staging i g ∧ ∃ sub, sub.id = id ∧ Inserted i sub g := by
  have hA : Passive n i (Staging i) := Staging.passive
  refine Spec.bind (Keeps.lockUser hA userId) fun _ => ?_
  refine Spec.bind (Keeps.requireAccountCapacity hA app.cfg userId req.product additional)
    fun _ => ?_
  refine Spec.bind (Keeps.input hA _) fun available => ?_
  split
  · refine Spec.bind (Keeps.selectSubscriptions hA _) fun rivals => ?_
    split
    · exact .raise _
    · refine Spec.bind (Keeps.claimTexts hA req) fun texts => ?_
      refine Spec.bind (Keeps.utcnow hA) fun now => Spec.bind (Keeps.input hA _) fun publicId => ?_
      exact insertSubscription_spec (fun _ => rfl) (fun _ => rfl) fun _ => rfl
  · exact .raise _

theorem createSubscription_spec (app : App) (userId : Nat) (req : SubscriptionRequest) :
    Keeps app.cfg.nwcMaxPaymentAttempts i (Idle i) (createSubscription app i userId req) := by
  unfold createSubscription
  split
  · exact .raise _
  · refine .bind ?_ fun _ => ?_
    · unfold createSubscription.reapForClaim
      exact .ite (reapExpiredDomainClaims_spec app) (.pure _)
    · refine Spec.bind ((stageSubscription_spec app userId req none 0).pre fun g _ h => h.staging)
        fun id => ?_
      refine Spec.bind (commit_sober.pre fun g _ h => h.1.1) fun _ => ?_
      exact .pure fun _ _ h => h

/-- The link of a new upgrade to its source, whose period ends at some time. -/
theorem flushLink_spec {target assigned : Subscription}
    (hend : assigned.currentPeriodEnd = target.currentPeriodEnd)
    (hsource : assigned.upgradeSourcePeriodEnd.isSome = true) :
    Spec n i (fun g => Staging i g ∧ Inserted i target g) (flushSubscription i target assigned)
      fun _ => Sober i := by
  refine Spec.bind (Q := fun _ => Sober i) ?_ fun _ => .pure fun _ _ h => h
  refine Triple.atomic (Staging.passive.stable.and (Inserted.stable target))
    fun ω g g' b hg h hf => ?_
  obtain ⟨⟨hsober, hcalm⟩, hcell⟩ := h
  simp only [Option.map_eq_some_iff, Prod.mk.injEq] at hf
  obtain ⟨⟨t, hit⟩, hupd, rfl, -⟩ := hf
  have hq : Quiet i g { g with subscriptions := t } := by
    rcases Table.update_cases hupd with ⟨-, rfl, -⟩ | ⟨-, row, hv, -, hfree, rfl⟩
    · exact .refl i g
    · have hview : g.subscriptions.get i target.id = some target := by
        exact Cell.view_of_held (by rw [hcell])
      obtain rfl : target = row := Option.some.inj (hview.symm.trans hv)
      refine quiet_set hg hv hfree (flush_samePeriod hend target) (.inr ⟨?_, ?_, hcalm.draftless⟩)
        g.leases g.users
      · rw [hcell]
      · intro _
        have hsent : (Subscription.flush target assigned target).upgradeSourcePeriodEnd =
            assigned.upgradeSourcePeriodEnd := by
          simp only [Subscription.flush, flushed]
          split
          · rename_i e
            exact e.symm
          · rfl
        rw [hsent]
        exact hsource
  exact ⟨.quiet hq, hsober.quiet hq⟩

theorem linkUpgrade_spec (app : App) (source : Subscription) (term : BillingTerm)
    (now : Datetime) (hsource : source.upgradeSource now = true) :
    Keeps n i (Idle i) (linkUpgrade app i source term now) := by
  have hend : source.currentPeriodEnd.isSome = true := by
    simp only [Subscription.upgradeSource, decide_eq_true_eq] at hsource
    cases hend : source.currentPeriodEnd with
    | none => simp [hend] at hsource
    | some _ => rfl
  unfold linkUpgrade
  dsimp only
  split
  · exact .raise _
  · refine Spec.bind ((stageSubscription_spec app _ _ _ _).pre fun g _ h => h.staging) fun id => ?_
    refine Spec.bind (refreshSubscription_seen (Staging.passive.stable.and
      (.exists fun sub => Stable.pure.and (Inserted.stable sub))) id) fun target => ?_
    refine Spec.bind (Spec.pre (flushLink_spec rfl hend) ?_) fun _ => ?_
    · rintro g _ ⟨⟨hstaging, sub, rfl, hcell⟩, hview⟩
      have hview' : g.subscriptions.get i sub.id = some sub := by
        exact Cell.view_of_held (by rw [hcell])
      obtain rfl : sub = target := Option.some.inj (hview'.symm.trans hview)
      exact ⟨hstaging, hcell⟩
    · exact Spec.bind commit_sober fun _ => .pure fun _ _ h => h

/-- `create_wildcard_upgrade`. -/
theorem createWildcardUpgrade_spec (app : App) (userId sourceId : Nat) (term : BillingTerm) :
    Keeps app.cfg.nwcMaxPaymentAttempts i (Idle i)
      (createWildcardUpgrade app i userId sourceId term) := by
  refine .bind (reapExpiredDomainClaims_spec app) fun _ => ?_
  refine .bind (.lockUser Idle.passive userId) fun _ => ?_
  refine .bind (.lockSubscription Idle.passive sourceId) fun source => ?_
  cases source with
  | none => exact .raise _
  | some source =>
      refine .ite (.raise _) (.bind (.utcnow Idle.passive) fun now => ?_)
      split
      · exact .raise _
      · rename_i hsource
        refine .bind (.hasPendingUpgrade Idle.passive source.id) fun pending => .ite (.raise _) ?_
        refine .bind (.openPayments Idle.passive source.id) fun openPayment => ?_
        exact .ite (.raise _) (linkUpgrade_spec app source term now (not_not.mp hsource))

/-! ## cancellation -/

theorem settleOpen_spec (app : App) (ps : List Payment) :
    Spec app.cfg.nwcMaxPaymentAttempts i (fun g => AllKnown ps g ∧ Idle i g)
      (settleOpen app i ps) fun _ => Idle i := by
  induction ps with
  | nil => exact .pure fun g _ h => h.2
  | cons payment rest ih =>
      unfold settleOpen
      split
      · exact .raise _
      · refine Spec.bind (Q := fun _ g => AllKnown rest g ∧ Idle i g) ?_ fun reconciled => ?_
        · refine (((checkAndSettlePayment_spec app payment).frame (AllKnown.durable rest)).pre
            fun g _ h => ?_).mono fun p g _ h => ⟨h.1, h.2.2⟩
          exact ⟨fun p hp => h.1 p (List.mem_cons_of_mem _ hp), h.1 payment List.mem_cons_self, h.2⟩
        · split
          · exact .raise _
          · exact ih

theorem cancelLocked_spec (current : Subscription) :
    Keeps n i (Idle i) (cancelLocked i current) := by
  unfold cancelLocked
  refine .ite (.raise _) (.bind (.utcnow Idle.passive) fun now => ?_)
  refine Spec.bind (amend_idle fun _ row _ => ?_) fun hit => ?_
  · exact ⟨⟨rfl, rfl⟩, .of_settled rfl rfl (by simp [Subscription.cancelled,
      Subscription.upgradeReleased, Subscription.domainReleased])⟩
  split
  · exact Spec.bind (Keeps.releaseLease Sober.passive current) fun _ => commit_sober
  · exact Spec.bind rollback_idle fun _ => .raise _

/-- `cancel_pending_subscription`. -/
theorem cancelPendingSubscription_spec (app : App) (sub : Subscription) :
    Keeps app.cfg.nwcMaxPaymentAttempts i (Idle i) (cancelPendingSubscription app i sub) := by
  refine .bind (.lockUser Idle.passive _) fun _ => ?_
  refine .bind (.getSubscription Idle.passive _) fun current => ?_
  cases current with
  | none => exact .raise _
  | some current =>
      refine .ite (.raise _) ?_
      refine Spec.bind (openPayments_known current.id) fun payments => ?_
      refine Spec.bind (settleOpen_spec app payments) fun _ => ?_
      refine Keeps.bind (.lockUser Idle.passive _) fun _ => ?_
      refine .bind (.getSubscription Idle.passive _) fun current => ?_
      cases current with
      | none => exact .raise _
      | some current => exact cancelLocked_spec current

/-! ## the payment a subscription already has -/

theorem checkAndSettlePayment_idle (app : App) (payment : Payment) :
    Spec app.cfg.nwcMaxPaymentAttempts i (Returns i payment)
      (checkAndSettlePayment app i payment) fun _ => Idle i :=
  (checkAndSettlePayment_spec app payment).mono fun _ _ _ h => h.2

theorem resumeOrder_spec (app : App) (sub : Subscription) (req : PaymentRequest)
    (term : BillingTerm) :
    Keeps app.cfg.nwcMaxPaymentAttempts i (Idle i) (resumeOrder app i sub req term) := by
  unfold resumeOrder
  split
  · exact .pure _
  · refine .bind (.query Idle.passive _) fun order => .ite (.raise _) ?_
    refine Spec.bind (selectPayments_known _) fun ps => ?_
    cases hp : ps.head? with
    | none => exact .pure fun g _ h => h.2
    | some linked =>
        dsimp only
        split
        · exact .raise _
        · split
          · refine Spec.bind ((checkAndSettlePayment_idle app linked).pre fun g _ h => ?_)
              fun settled => .pure fun g _ h => h
            exact ⟨h.1.head hp, h.2⟩
          · exact .pure fun g _ h => h.2

theorem resumeOpen_spec (app : App) (req : PaymentRequest) (term : BillingTerm)
    (ps : List Payment) :
    Spec app.cfg.nwcMaxPaymentAttempts i (fun g => AllKnown ps g ∧ Idle i g)
      (resumeOpen app i req term ps) fun _ => Idle i := by
  induction ps with
  | nil => exact .pure fun g _ h => h.2
  | cons existing rest ih =>
      unfold resumeOpen
      split
      · exact .raise _
      · split
        · exact .raise _
        · refine Spec.bind (Q := fun _ g => AllKnown rest g ∧ Idle i g) ?_ fun settled => ?_
          · refine ((checkAndSettlePayment_idle app existing).frame (AllKnown.durable rest)).pre
              fun g _ h => ?_
            exact ⟨fun p hp => h.1 p (List.mem_cons_of_mem _ hp), h.1 existing List.mem_cons_self,
              h.2⟩
          · split
            · split
              · exact .pure fun g _ h => h.2
              · exact .raise _
            · exact ih

/-- The account lock loads the subscription it was given. -/
theorem lockAccount_spec (hA : Passive n i A) (app : App) (sub : Subscription)
    (term : BillingTerm) :
    Spec n i A (lockAccount app i sub term) fun locked g => locked.id = sub.id ∧ A g := by
  unfold lockAccount
  refine Spec.ite (.raise _) (Spec.bind (Keeps.lockUser hA _) fun _ => ?_)
  refine Spec.bind (refreshSubscription_seen hA.stable _) fun locked => ?_
  refine Spec.bind (Q := fun _ g => locked.id = sub.id ∧ A g) ?_ fun pending => ?_
  · intro g hg h
    have hid : locked.id = sub.id := (hg.subs sub.id).view h.2
    exact Spec.mono (Keeps.hasPendingUpgrade hA locked.id) (fun _ _ _ hq => ⟨hid, hq⟩) g hg h.1
  · have hA' : Passive n i fun g => locked.id = sub.id ∧ A g :=
      (Passive.of_durable (fun _ _ _ _ _ h => h)).and hA
    refine Spec.ite (.raise _) (Spec.bind (Keeps.query hA' _) fun opened => ?_)
    refine Spec.bind (Keeps.selectSubscriptions hA' _) fun reserving => ?_
    exact Spec.ite (.raise _) (.pure fun _ _ h => h)

/-! ## a new payment -/

/-- A payment that clashes with nothing has no rival in sight or undecided. -/
theorem not_live_of_clash {g : World} {row : Payment} (hg : Inv n g) (hidle : Idle i g)
    (hclash : g.payments.clash i g.payments.next (Payment.rivals row) (Payment.mayRival row) =
      some false) (k : Nat) : ¬ Live row.subscriptionId (g.payments.cell k) := by
  intro hlive
  by_cases hk : k < g.payments.next
  · obtain ⟨hview, hother⟩ := Table.clash_eq_false hclash hk (Nat.ne_of_lt hk)
    have hrival : ∀ p, p.subscriptionId = row.subscriptionId → p.status.isOpen = true →
        Payment.rivals row p = true := by
      intro p hs ho
      simp [Payment.rivals, hs, ho]
    rcases hlive with ⟨p, hp, hs, ho⟩ | ⟨j, r, hr, hs, ho⟩
    · cases hv : g.payments.get i k with
      | none =>
          obtain ⟨row', hrow'⟩ := Exists.view (i := i) ⟨p, hp⟩
          rw [hv] at hrow'
          contradiction
      | some q =>
          obtain ⟨c, hc, hcalm⟩ := hidle.view hv
          rw [hp, Option.some.injEq] at hc
          subst hc
          rw [hv] at hview
          have := hrival q (hcalm.advances.subscriptionId.trans hs) (hcalm.status ▸ ho)
          simp [this] at hview
    · by_cases hj : j = i
      · subst hj
        have hv : g.payments.get j k = some r := Cell.view_of_held hr
        obtain ⟨c, hc, -⟩ := hidle.calm k r (by simp) hr
        rcases ho with ho | ho
        · rw [hv] at hview
          simp [hrival r hs ho] at hview
        · rw [hc] at ho
          contradiction
      · have hlocked : (g.payments.cell k).lockedByOther i = true := by
          simp [Cell.lockedByOther, hr, hj]
        obtain ⟨hno, hnew⟩ := (hother hlocked).2 j r hr
        rcases ho with ho | ho
        · rw [hrival r hs ho] at hno
          contradiction
        · have := hnew ho
          simp [Payment.mayRival, hs] at this
  · have hcell := hg.unused k (Nat.le_of_not_lt hk)
    rcases hlive with ⟨p, hp, -⟩ | ⟨j, r, hr, -⟩
    · simp [hcell] at hp
    · simp [hcell] at hr

/-- Session `i` sees a later version of the subscription. -/
def Sees (i : Nat) (sub : Subscription) (g : World) : Prop :=
  ∃ s, g.subscriptions.get i sub.id = some s ∧ sub.Later s

theorem Sees.passive (sub : Subscription) : Passive n i (Sees i sub) where
  stable _ _ _ hj hg hmove h := later_sub_foreign hj hg hmove h
  quiet _ hq h := later_sub_gentle hq h
  silent _ _ h := h

/-- What is committed is a later version of the subscription. -/
def Found (sub : Subscription) (g : World) : Prop :=
  ∃ c, (g.subscriptions.cell sub.id).committed = some c ∧ sub.Later c

theorem Found.durable (sub : Subscription) : (discipline n).Durable (Found sub) := by
  rintro j g g' hg hmove ⟨c, hc, hlater⟩
  have hle := Move.sub_later hg hmove sub.id
  rw [hc] at hle
  cases hc' : (g'.subscriptions.cell sub.id).committed with
  | none =>
      rw [hc'] at hle
      exact absurd hle id
  | some c' =>
      rw [hc'] at hle
      exact ⟨c', hc', hlater.trans hle⟩

/-- What an idle session loads is found by everybody after it. -/
theorem Idle.found {g : World} (h : Idle i g) (hg : Inv n g) {sid : Nat} {sub : Subscription}
    (hv : g.subscriptions.get i sid = some sub) : Found sub g := by
  obtain ⟨c, hc, hlater⟩ := h.tame.view hv
  have hid : sub.id = sid := (hg.subs sid).view hv
  exact ⟨c, hid ▸ hc, hlater⟩

/-- The insert of a fresh payment, quoted for what the session sees. -/
theorem insertPayment_spec {sub : Subscription} {row : Nat → Payment}
    (hid : ∀ id, (row id).id = id) (hfresh : ∀ id, (row id).Fresh)
    (hs : ∀ id, (row id).status = .pending) (hp : ∀ id, (row id).invoiceProvider = none)
    (hsub : ∀ id, (row id).subscriptionId = sub.id) (hquoted : ∀ id, (row id).Quoted)
    (hmatches : ∀ id, (row id).Matches sub) :
    Spec n i (fun g => Idle i g ∧ Sees i sub g) (insertPayment i row) (Draft i) := by
  refine Spec.bind (Q := fun o g => ∀ p, o = some p → Draft i p g) ?_ fun o => ?_
  · refine Triple.atomic (Idle.stable.and (Sees.passive sub).stable) fun ω g g' b hg h hf => ?_
    obtain ⟨h, s, hseen, hlater⟩ := h
    simp only [Option.map_eq_some_iff] at hf
    obtain ⟨taken, hclash, hf⟩ := hf
    cases taken with
    | true =>
        simp only [if_true, Prod.mk.injEq] at hf
        obtain ⟨rfl, rfl⟩ := hf
        exact ⟨.stay g, by simp⟩
    | false =>
        simp only [Bool.false_eq_true, if_false, Prod.mk.injEq] at hf
        obtain ⟨rfl, rfl⟩ := hf
        refine ⟨.insert (hid _) (hfresh _) (hs _) (not_live_of_clash hg h hclash)
          ⟨hquoted _, s, by rw [hsub]; exact hseen, (hmatches _).later hlater⟩, ?_⟩
        rintro p hp'
        obtain rfl := Option.some.inj hp'
        have hcell := hg.unused _ (Nat.le_refl _)
        refine ⟨?_, hs _, hp _, hquoted _, ?_, h.steady, ?_⟩
        · simp [Table.insert, hid, hcell, Cell.write]
        · intro q r hq hr
          have e : q ≠ g.payments.next := fun e => hq (by rw [e, hid])
          simp only [Table.insert, Table.set_cell_of_ne _ _ e] at hr ⊢
          exact h.calm q r (by simp) hr
        · intro _ j s hmem
          rw [hid] at hmem
          exact absurd (hg.settled j _ s hmem) (Nat.lt_irrefl _)
  · cases o with
    | none => exact .raise _
    | some p => exact .pure fun g _ h => h p rfl

/-- A draft of something may be committed. -/
theorem Draft.sober {p : Payment} {g : World} (h : Draft i p g) (hamount : p.amountSats ≠ 0) :
    Sober i g := by
  refine ⟨fun pid r he => ?_, h.steady, fun pid r hr hnew => ?_⟩
  · by_cases e : pid = p.id
    · subst e
      have hr := he.pending
      simp only [h.cell, Option.some.injEq, Prod.mk.injEq, true_and] at hr
      have hpaid := he.paid
      rw [← hr, h.pending] at hpaid
      contradiction
    · obtain ⟨c, hc, hcalm⟩ := h.calm pid r (by simpa using e) he.pending
      exact he.unpaid c hc (hcalm.status ▸ he.paid)
  · by_cases e : pid = p.id
    · subst e
      simp only [h.cell, Option.some.injEq, Prod.mk.injEq, true_and] at hr
      exact hr ▸ hamount
    · obtain ⟨c, hc, -⟩ := h.calm pid r (by simpa using e) hr
      rw [hc] at hnew
      contradiction

/-- Staging the invoice of a draft leaves it pending. -/
theorem Draft.staged {p : Payment} {g : World} (h : Draft i p g) (hamount : p.amountSats ≠ 0)
    {provider : Option InvoiceProvider}
    {key : String} {hash : Option String} {expiresAt : Datetime}
    {nwcGeneration clinkGeneration : Option Nat} :
    Sober i (g.executed i p.id
      (.stage provider key hash expiresAt nwcGeneration clinkGeneration) p) := by
  refine ⟨fun pid r he => ?_, h.steady, fun pid r hr hnew => ?_⟩
  · have hr := he.pending
    by_cases e : pid = p.id
    · subst e
      simp only [World.executed, World.note, Table.set_cell_self, Cell.write_pending,
        Option.some.injEq, Prod.mk.injEq, true_and] at hr
      have hpaid := he.paid
      rw [← hr] at hpaid
      simp [PaymentUpdate.set, h.pending] at hpaid
    · simp only [World.executed, World.note, Table.set_cell_of_ne _ _ e] at hr
      obtain ⟨c, hc, hcalm⟩ := h.calm pid r (by simpa using e) hr
      refine he.unpaid c ?_ (hcalm.status ▸ he.paid)
      simpa [World.executed, World.note, e] using hc
  · by_cases e : pid = p.id
    · subst e
      simp only [World.executed, World.note, Table.set_cell_self, Cell.write_pending,
        Option.some.injEq, Prod.mk.injEq, true_and] at hr
      rw [← hr]
      exact hamount
    · simp only [World.executed, World.note, Table.set_cell_of_ne _ _ e] at hr hnew
      obtain ⟨c, hc, -⟩ := h.calm pid r (by simpa using e) hr
      rw [hc] at hnew
      contradiction

/-- The statement that stages the invoice, and its commit. -/
theorem stage_spec (payment : Payment) (hamount : payment.amountSats ≠ 0)
    (provider : Option InvoiceProvider) (key : String)
    (hash : Option String) (expiresAt : Datetime) (nwcGeneration clinkGeneration : Option Nat) :
    Spec n i (Draft i payment)
      (do
        let _ ← execute i payment.id
          (.stage provider key hash expiresAt nwcGeneration clinkGeneration)
        commit i) fun _ => Idle i := by
  refine Spec.bind (Q := fun _ => Sober i)
    (execute_spec (Draft.passive payment).stable ?_ ?_) fun _ => commit_sober
  · intro g row hg h hv _ _
    have hrow : row = payment := by
      simp only [Table.get, h.cell, Cell.view, if_true, Option.some.injEq] at hv
      exact hv.symm
    subst hrow
    refine ⟨?_, h.staged hamount⟩
    simp [ExecOk, h.cell, DraftOk, h.pending]
  · exact fun g _ h _ => h.sober hamount

theorem stageLightningInvoice_spec (app : App) (payment : Payment)
    (hamount : payment.amountSats ≠ 0) (deadline : Option Datetime)
    (invoiceExpiry : Option Int) (nwcGeneration clinkGeneration : Option Nat) :
    Spec n i (Draft i payment)
      (stageLightningInvoice app i payment deadline invoiceExpiry nwcGeneration clinkGeneration)
      fun _ => Idle i := by
  have hA := Draft.passive (n := n) (i := i) payment
  unfold stageLightningInvoice
  dsimp only
  refine Spec.bind (Keeps.input hA _) fun key => ?_
  split
  · refine Spec.bind (Keeps.localExpiry hA _ _) fun expiresAt => ?_
    exact stage_spec payment hamount _ _ _ _ _ _
  · split
    · exact .raise _
    · refine Spec.bind (Keeps.localExpiry hA _ _) fun expiresAt => ?_
      exact stage_spec payment hamount _ _ _ _ _ _

/-- Only methods with a Lightning invoice have a wallet to record. -/
theorem walletGenerations_spec (hA : Passive n i A) (cfg : Settings) (sub : Subscription)
    (method : PaymentMethod) :
    Spec n i A (walletGenerations cfg i sub method) fun _ g => method.lndBacked = true ∧ A g := by
  cases method with
  | lightning => exact .pure fun g _ h => ⟨rfl, h⟩
  | stablecoinSwap => exact .pure fun g _ h => ⟨rfl, h⟩
  | cashu => exact .raise _
  | nwc =>
      refine Spec.bind (Keeps.getUser hA _) fun user => ?_
      cases user with
      | none => exact .raise _
      | some user =>
          dsimp only
          split
          · exact .pure fun g _ h => ⟨rfl, h⟩
          · exact .raise _
  | clink =>
      refine Spec.bind (Keeps.getUser hA _) fun user => ?_
      cases user with
      | none => exact .raise _
      | some user =>
          dsimp only
          split
          · exact .pure fun g _ h => ⟨rfl, h⟩
          · exact .raise _

theorem driveNewPayment_spec (app : App) (payment : Payment)
    (hm : payment.method.lndBacked = true) :
    Spec app.cfg.nwcMaxPaymentAttempts i (Idle i) (driveNewPayment app i payment) (Returns i) := by
  have hre := checkLnurlPayment_recheck (i := i) app app.depth
  refine Spec.bind ((ensureLightningInvoice_spec app payment).pre fun g _ h => ?_) fun p => ?_
  · exact ⟨fun hm' => absurd hm (by simp [hm']), h⟩
  · split
    · exact reconcileNwcPayment_spec app hre p
    · exact reconcileClinkPayment_spec app hre p
    · exact .pure fun _ _ h => h

/-- `create_payment`, the body of its `try`. -/
theorem issuePayment_spec (app : App) {seen : Subscription} (sub : Subscription)
    (upgradeInitial : Bool) {row : Nat → Payment} (hid : ∀ id, (row id).id = id)
    (hfresh : ∀ id, (row id).Fresh) (hs : ∀ id, (row id).status = .pending)
    (hp : ∀ id, (row id).invoiceProvider = none) (hsub : ∀ id, (row id).subscriptionId = seen.id)
    (hquoted : ∀ id, (row id).Quoted) (hmatches : ∀ id, (row id).Matches seen) :
    Spec app.cfg.nwcMaxPaymentAttempts i (fun g => Idle i g ∧ Sees i seen g)
      (issuePayment app i sub upgradeInitial row) fun _ => Idle i := by
  refine Spec.bind (insertPayment_spec hid hfresh hs hp hsub hquoted hmatches) fun payment => ?_
  have hA := Draft.passive (n := app.cfg.nwcMaxPaymentAttempts) (i := i) payment
  refine Spec.bind (Keeps.reserveSubscriptionResource hA app.cfg sub payment.id) fun sub => ?_
  split
  · split
    · -- A payment of nothing is settled in the transaction that inserts it.
      intro g hg h
      have hl : payment.invoiceProvider ≠ some .lnurl := by simp [h.provider]
      rw [finalizePayment, if_neg hl]
      exact ((settlePayment_draft app payment none).mono fun _ _ _ h => h.2) g hg h
    · exact .raise _
  · rename_i hbase
    refine Spec.pre (Spec.assume (q := payment.Quoted) fun hquote => ?_) fun g _ h => ⟨h.quoted, h⟩
    have hamount : payment.amountSats ≠ 0 := fun e => hbase (hquote.amountSats_eq_zero.mp e)
    refine Spec.bind (Keeps.boundedInvoiceExpiry hA app.cfg _) fun invoiceExpiry => ?_
    refine Spec.bind (walletGenerations_spec hA app.cfg sub payment.method) fun generations => ?_
    refine Spec.assume fun hm => ?_
    refine Spec.bind (stageLightningInvoice_spec app payment hamount _ _ _ _) fun _ => ?_
    exact (driveNewPayment_spec app payment hm).mono fun _ _ _ h => h.2

section row

variable {cfg : Settings} {req : PaymentRequest} {loaded sub : Subscription} {term : BillingTerm}
  {quote : Quote}

theorem PaymentRequest.row_fresh (cfg : Settings) (req : PaymentRequest) (sub : Subscription)
    (term : BillingTerm) (quote : Quote) (now : Datetime) (id : Nat) :
    (req.row cfg sub term quote now id).Fresh :=
  ⟨rfl, rfl, rfl, rfl, rfl, rfl, rfl, rfl, rfl⟩

theorem PaymentRequest.row_quoted {upgradeInitial : Bool}
    (hquote : sub.quote cfg req.method term upgradeInitial = .ok quote) (now : Datetime)
    (id : Nat) : (req.row cfg sub term quote now id).Quoted :=
  ⟨cfg, sub, upgradeInitial, hquote⟩

/-- Whether the subscription waits for an upgrade is read before the account lock, and
the price and the credit after it. -/
theorem PaymentRequest.row_matches (hallowed : loaded.paymentError term = none)
    (hlater : loaded.Later sub)
    (hquote : sub.quote cfg req.method term loaded.upgradeInitial = .ok quote) (now : Datetime)
    (id : Nat) : (req.row cfg sub term quote now id).Matches sub := by
  intro hinitial
  obtain ⟨hloaded, hterm, -, -⟩ := hlater.upgrade hinitial
  obtain ⟨hprice, hdiscount, -⟩ := quote_cases hquote
  have hselected : term = loaded.billingTerm := by
    by_contra hother
    simp [Subscription.paymentError, hloaded, hother] at hallowed
  rw [if_pos hloaded] at hdiscount
  exact ⟨hselected.trans hterm.symm, hdiscount, hprice⟩

end row

theorem adoptCompeting_spec (app : App) (sub : Subscription) (req : PaymentRequest)
    (term : BillingTerm) :
    Keeps app.cfg.nwcMaxPaymentAttempts i (Idle i) (adoptCompeting app i sub req term) := by
  refine Spec.bind
    (Q := fun o g => (∀ p, o = some p → Known p g) ∧ Idle i g) ?_ fun linked => ?_
  · unfold adoptCompeting.linkedPayment
    split
    · exact .pure fun g _ h => ⟨by simp, h⟩
    · refine Spec.bind (selectPayments_known _) fun ps => .pure fun g _ h => ?_
      exact ⟨fun p hp => h.1.head hp, h.2⟩
  · cases linked with
    | some linked =>
        dsimp only
        split
        · split
          · exact (checkAndSettlePayment_idle app linked).pre fun g _ h => ⟨h.1 linked rfl, h.2⟩
          · exact .pure fun g _ h => h.2
        · exact .raise _
    | none =>
        refine Spec.bind ((openPayments_known sub.id).pre fun g _ h => h.2) fun ps => ?_
        cases hp : ps.head? with
        | none => exact .raise _
        | some competing =>
            dsimp only
            split
            · exact .raise _
            · split
              · exact (checkAndSettlePayment_idle app competing).pre
                  fun g _ h => ⟨h.1.head hp, h.2⟩
              · exact .raise _

/-- `create_payment`, after the account lock: `loaded` is what its checks were made on. -/
theorem placePayment_spec (app : App) {loaded locked : Subscription} (hid : locked.id = loaded.id)
    (req : PaymentRequest) {term : BillingTerm} (hallowed : loaded.paymentError term = none) :
    Spec app.cfg.nwcMaxPaymentAttempts i (fun g => Found loaded g ∧ Idle i g)
      (placePayment app i locked req term loaded.upgradeInitial) fun _ => Idle i := by
  have hfound := Found.durable (n := app.cfg.nwcMaxPaymentAttempts) loaded
  have hA := (Passive.of_durable (i := i) hfound).and Idle.passive
  refine Spec.bind ((expireElapsedSubscriptions_spec app.cfg [locked]).frame hfound) fun _ => ?_
  refine Spec.bind ((reapElapsedResourceHolds_spec app).frame hfound) fun _ => ?_
  refine Spec.bind (refreshSubscription_seen hA.stable locked.id) fun sub => ?_
  -- what is read now is no older than what the checks were made on
  refine Spec.pre (P := fun g => loaded.Later sub ∧ Idle i g ∧ Sees i sub g)
    (Spec.assume fun hlater => ?_) fun g hg h => ?_
  · have hseen := Idle.passive.and (Sees.passive (n := app.cfg.nwcMaxPaymentAttempts) (i := i) sub)
    refine Spec.bind (Keeps.requireDomainPaymentReady hseen app.cfg sub) fun _ => ?_
    refine Spec.ite (.raise _) ?_
    split
    · exact .raise _
    · rename_i quote hquote
      refine Spec.bind (Keeps.utcnow hseen) fun now => ?_
      refine Spec.tryCatch (issuePayment_spec app sub loaded.upgradeInitial (fun _ => rfl)
        (req.row_fresh app.cfg sub term quote now) (fun _ => rfl) (fun _ => rfl) (fun _ => rfl)
        (PaymentRequest.row_quoted hquote now)
        (PaymentRequest.row_matches hallowed hlater hquote now)) fun e => ?_
      split
      · exact Spec.bind rollback_spec fun _ => adoptCompeting_spec app sub req term
      · exact Spec.bind rollback_spec fun _ => .raise _
  · obtain ⟨⟨⟨c, hc, hlater⟩, hidle⟩, hview⟩ := h
    have hsub : sub.id = locked.id := (hg.subs locked.id).view hview
    rw [← hid] at hc
    exact ⟨hlater.trans ((hg.subs locked.id).later_view hc hview), hidle, sub,
      by rw [hsub]; exact hview, .refl sub⟩

/-- `create_payment`. -/
theorem createPayment_spec (app : App) (sub : Subscription) (req : PaymentRequest) :
    Keeps app.cfg.nwcMaxPaymentAttempts i (Idle i) (createPayment app i sub req) := by
  unfold createPayment
  refine .ite (.raise _) (.bind (reapExpiredDomainClaims_spec app) fun _ => ?_)
  refine Spec.bind (refreshSubscription_seen Idle.stable sub.id) fun loaded => ?_
  refine Spec.pre (P := fun g => Found loaded g ∧ Idle i g) ?_
    fun g hg h => ⟨h.1.found hg h.2, h.1⟩
  have hfound := Found.durable (n := app.cfg.nwcMaxPaymentAttempts) loaded
  dsimp only
  split
  · exact .raise _
  · rename_i hallowed
    refine Spec.bind ((resumeOrder_spec app loaded req _).frame hfound) fun ordered => ?_
    cases ordered with
    | some payment => exact .pure fun _ _ h => h.2
    | none =>
        refine Spec.bind ((openPayments_known loaded.id).frame hfound) fun existing => ?_
        refine Spec.bind ((resumeOpen_spec app req _ existing).frame hfound) fun resumed => ?_
        cases resumed with
        | some payment => exact .pure fun _ _ h => h.2
        | none =>
            refine Spec.bind (lockAccount_spec ((Passive.of_durable hfound).and Idle.passive) app
              loaded _) fun locked => ?_
            exact Spec.assume fun hid => placePayment_spec app hid req hallowed

/-! ## the system -/

theorem withSubscription_spec {id : Nat} {body : Subscription → Db Unit}
    (h : ∀ sub, Keeps n i (Idle i) (body sub)) :
    Keeps n i (Idle i) (withSubscription i id body) := by
  refine .bind (.getSubscription Idle.passive id) fun sub => ?_
  cases sub with
  | none => exact .pure _
  | some sub => exact h sub

theorem withPayment_spec {id : Nat} {body : Payment → Db Unit}
    (h : ∀ payment, Spec n i (Returns i payment) (body payment) fun _ => Idle i) :
    Keeps n i (Idle i) (withPayment i id body) := by
  refine Spec.bind (getPayment_known id) fun o => ?_
  cases o with
  | none => exact .pure fun g _ h => h.2
  | some payment => exact (h payment).pre fun g _ h => ⟨h.1 payment rfl, h.2⟩

/-- Every entry point keeps to the discipline. -/
theorem program_spec (app : App) (e : Entry) :
    Keeps app.cfg.nwcMaxPaymentAttempts i (Idle i) (program app i e) := by
  cases e with
  | createPayment id req =>
      refine withSubscription_spec fun sub => ?_
      exact .bind (createPayment_spec app sub req) fun _ => .pure _
  | checkPayment id =>
      refine withPayment_spec fun payment => ?_
      exact Spec.bind (checkAndSettlePayment_idle app payment) fun _ => .pure fun g _ h => h
  | expirePayment id =>
      refine withPayment_spec fun payment => ?_
      refine Spec.bind (Q := fun _ => Idle i) ?_ fun _ => .pure fun g _ h => h
      exact ((expirePendingPayment_spec payment).pre fun g _ h => h.2).mono fun _ _ _ h => h.2
  | cancelSubscription id =>
      exact withSubscription_spec fun sub => cancelPendingSubscription_spec app sub
  | upgrade userId id term =>
      exact .bind (createWildcardUpgrade_spec app userId id term) fun _ => .pure _
  | createSubscription userId req =>
      exact .bind (createSubscription_spec app userId req) fun _ => .pure _
  | expireElapsed userId =>
      refine .bind (.selectSubscriptions Idle.passive _) fun rows => ?_
      exact .bind (expireElapsedSubscriptions_spec app.cfg rows) fun _ => .pure _
  | reapDomains => exact reapExpiredDomainClaims_spec app
  | reapHolds => exact reapElapsedResourceHolds_spec app

/-- **The backend keeps to its discipline.** Any number of sessions of any entry
points, interleaved and stopped anyhow, only make the moves of `Moves`. -/
def certified (app : App) : Certified (backend app) (discipline app.cfg.nwcMaxPaymentAttempts) where
  Fresh := Idle
  fresh_stable _ := Idle.stable
  close_move _ _ _ := .rollback
  entry _ e := Triple.mono (program_spec app e) (fun _ _ _ _ => trivial) fun _ _ _ => trivial

end Backend
