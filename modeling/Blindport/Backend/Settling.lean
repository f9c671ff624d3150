import Blindport.Backend.Assertions

/-!
# Blindport.Backend.Settling

The assertions inside of a settlement, in the order of its statements: the
payment is PAID in this session only (`Settled`), the subscription was loaded
(`Loaded`), its new period was sent (`Extended`).

While a session has a payment of a subscription that is PAID and not published,
no other payment of the subscription is open, so no other session can move the
period (`periodEnd_foreign`): the period that was loaded is still the committed
one when the settlement commits.
-/

namespace Backend

open Conc

variable {n i pid : Nat} {r : Payment} {sub : Subscription} {g g' : World}

/-! ## settled -/

/-- In session `i` the payment has been settled. -/
structure Settled (i pid : Nat) (r : Payment) (g : World) : Prop where
  earns : Earns i pid g r
  calm : CalmBut i (some pid) g
  executed : SettledIn i pid r g.history

theorem SettledIn.append {h : List Event} (hs : SettledIn i pid r h) (l : List Event) :
    SettledIn i pid r (l ++ h) := by
  obtain ⟨paidAt, verifiedAt, row, hmem, hr⟩ := hs
  exact ⟨paidAt, verifiedAt, row, List.mem_append_right l hmem, hr⟩

theorem Settled.quiet (h : Settled i pid r g) (hq : Quiet i g g') : Settled i pid r g' := by
  refine ⟨⟨?_, h.earns.paid, ?_⟩, h.calm.quiet hq, ?_⟩
  · rw [hq.payments]
    exact h.earns.pending
  · rw [hq.payments]
    exact h.earns.unpaid
  · rw [hq.history]
    exact h.executed

theorem Settled.passive : Passive n i (Settled i pid r) where
  stable := by
    intro j g g' hj hg hmove h
    have hsame := held_payment hj hg hmove pid r (.inl h.earns.pending)
    obtain ⟨l, hl, -⟩ := Move.history hmove
    refine ⟨⟨?_, h.earns.paid, ?_⟩, CalmBut.stable _ hj hg hmove h.calm, ?_⟩
    · rw [hsame]
      exact h.earns.pending
    · rw [hsame]
      exact h.earns.unpaid
    · rw [hl]
      exact h.executed.append l
  quiet _ hq h := h.quiet hq.toQuiet
  silent _ _ h := ⟨⟨h.earns.pending, h.earns.paid, h.earns.unpaid⟩, h.calm.note _,
    h.executed.append [_]⟩

/-! ## the period of the subscription -/

/-- A payment that is about to be PAID is still open for everybody else. -/
theorem Earns.live (hg : Inv n g) (h : Earns i pid g r) :
    Live r.subscriptionId (g.payments.cell pid) := by
  cases hc : (g.payments.cell pid).committed with
  | none => exact .inr ⟨i, r, h.pending, rfl, .inr hc⟩
  | some p =>
      have hle := (hg.cells pid).ordered i r h.pending
      rw [hc] at hle
      have hadv : Payment.Advances p r := hle
      refine .inl ⟨p, hc, hadv.subscriptionId.symm, ?_⟩
      rcases hadv.status with e | ⟨e, -⟩
      · exact absurd (e.symm.trans h.paid) (h.unpaid p hc)
      · simp [e, PaymentStatus.isOpen]

/-- Only a commit that settles one of its payments moves the committed period
of a subscription. -/
theorem periodEnd_move {j sid : Nat} (hmove : Move n j g g')
    (hne : periodEnd (g'.subscriptions.cell sid).committed ≠
      periodEnd (g.subscriptions.cell sid).committed) :
    g' = g.commit j ∧ CommitOk j g ∧ ∃ q p, Earns j q g p ∧ p.subscriptionId = sid := by
  cases hmove with
  | quiet h =>
      refine absurd ?_ hne
      have ht := h.subs sid
      generalize g'.subscriptions.cell sid = c' at ht ⊢
      cases ht with
      | same => rfl
      | write => rfl
  | note => exact absurd rfl hne
  | lock => exact absurd rfl hne
  | execute => exact absurd rfl hne
  | insert => exact absurd rfl hne
  | @extend k q row s hfree hid hlt =>
      refine absurd ?_ hne
      by_cases e : sid = k
      · subst e
        simp [World.note]
      · simp [World.note, e]
  | credit => exact absurd rfl hne
  | commit hok =>
      have hcom : ((g.commit j).subscriptions.cell sid).committed =
          (g.subscriptions.cell sid).view j := Cell.commit_committed _ j
      rw [hcom] at hne
      by_cases hheld : ∃ s, (g.subscriptions.cell sid).pending = some (j, s)
      · obtain ⟨s, hs⟩ := hheld
        rw [Cell.view_of_held hs] at hne
        exact ⟨rfl, hok, hok.earned sid s hs hne⟩
      · rw [Cell.view_of_not_held fun s hs => hheld ⟨s, hs⟩] at hne
        exact absurd rfl hne
  | rollback =>
      refine absurd ?_ hne
      have hcom : ((g.rollback j).subscriptions.cell sid).committed =
          (g.subscriptions.cell sid).committed := Cell.rollback_committed _ j
      rw [hcom]

/-- The others leave the period alone. -/
theorem periodEnd_foreign {j : Nat} (hj : j ≠ i) (hg : Inv n g) (hmove : Move n j g g')
    (h : Earns i pid g r) :
    periodEnd (g'.subscriptions.cell r.subscriptionId).committed =
      periodEnd (g.subscriptions.cell r.subscriptionId).committed := by
  by_contra hne
  obtain ⟨-, -, q, p, hp, hsub⟩ := periodEnd_move hmove hne
  have hlive := hp.live hg
  rw [hsub] at hlive
  have hpq := hg.live _ pid q (h.live hg) hlive
  have hpend := h.pending
  rw [hpq, hp.pending, Option.some.injEq, Prod.mk.injEq] at hpend
  exact hj hpend.1

/-! ## loaded -/

/-- Session `i` has settled the payment and then loaded its subscription. -/
structure Loaded (i pid : Nat) (r : Payment) (sub : Subscription) (g : World) : Prop where
  settled : Settled i pid r g
  steady : SteadyBut i none g
  key : sub.id = r.subscriptionId
  since : Since (.settling i pid sub) (SettledIn i pid r) g.history
  only : LoadedOnly pid (· = sub) g
  seen : ∃ s, g.subscriptions.get i r.subscriptionId = some s ∧ sub.Later s
  period : sub.currentPeriodEnd = periodEnd (g.subscriptions.cell r.subscriptionId).committed

/-- What a session sees of a subscription does not disappear, and only becomes later. -/
theorem later_sub_foreign {j sid : Nat} {a : Subscription} (hj : j ≠ i) (hg : Inv n g)
    (hmove : Move n j g g') (h : ∃ s, g.subscriptions.get i sid = some s ∧ a.Later s) :
    ∃ s, g'.subscriptions.get i sid = some s ∧ a.Later s := by
  obtain ⟨s, hs, hlater⟩ := h
  by_cases hheld : ∃ s, (g.subscriptions.cell sid).pending = some (i, s)
  · obtain ⟨t, ht⟩ := hheld
    rw [Table.get, held_sub hj hmove sid t (.inl ht)]
    exact ⟨s, hs, hlater⟩
  · have hnot : ∀ s, (g.subscriptions.cell sid).pending ≠ some (i, s) :=
      fun s hs => hheld ⟨s, hs⟩
    rw [Table.get, Cell.view_of_not_held hnot] at hs
    have hview : g'.subscriptions.get i sid = (g'.subscriptions.cell sid).committed := by
      apply Cell.view_of_not_held
      exact fun s' hs' => hnot s' ((hmove.sub_step sid).foreign_pending hj s' hs')
    have hle := hmove.sub_later hg sid
    rw [hs] at hle
    cases hcom : (g'.subscriptions.cell sid).committed with
    | none =>
        rw [hcom] at hle
        exact absurd hle id
    | some s' =>
        rw [hcom] at hle
        exact ⟨s', hview.trans hcom, hlater.trans hle⟩

theorem later_sub_gentle {sid : Nat} {a : Subscription} (hq : Gentle i g g')
    (h : ∃ s, g.subscriptions.get i sid = some s ∧ a.Later s) :
    ∃ s, g'.subscriptions.get i sid = some s ∧ a.Later s := by
  obtain ⟨s, hs, hlater⟩ := h
  have hseen : ∃ s', g'.subscriptions.get i sid = some s' := by
    have ht := hq.subs sid
    unfold Table.get at hs ⊢
    generalize g'.subscriptions.cell sid = c' at ht ⊢
    cases ht with
    | same => exact ⟨s, hs⟩
    | @write s' => exact ⟨s', by simp [Cell.view, Cell.write]⟩
  obtain ⟨s', hs'⟩ := hseen
  obtain ⟨t, ht, halike, -⟩ := hq.alike sid s' hs'
  obtain rfl : t = s := Option.some.inj (ht.symm.trans hs)
  exact ⟨s', hs', hlater.trans halike⟩

theorem committed_quiet {sid : Nat} (hq : Quiet i g g') :
    (g'.subscriptions.cell sid).committed = (g.subscriptions.cell sid).committed := by
  have ht := hq.subs sid
  generalize g'.subscriptions.cell sid = c' at ht ⊢
  cases ht with
  | same => rfl
  | write => rfl

theorem Loaded.passive : Passive n i (Loaded i pid r sub) where
  stable := by
    intro j g g' hj hg hmove h
    obtain ⟨l, hl, -⟩ := Move.history hmove
    refine ⟨Settled.passive.stable hj hg hmove h.settled,
      SteadyBut.stable none hj hg hmove h.steady, h.key, hl ▸ h.since.append l,
      h.only.foreign hj hg hmove h.settled.earns.pending, later_sub_foreign hj hg hmove h.seen, ?_⟩
    rw [h.period, periodEnd_foreign hj hg hmove h.settled.earns]
  quiet hg hq h := by
    refine ⟨h.settled.quiet hq.toQuiet, h.steady.quiet hq.toQuiet, h.key, ?_,
      h.only.quiet hq.toQuiet, later_sub_gentle hq h.seen, ?_⟩
    · rw [hq.history]
      exact h.since
    · rw [committed_quiet hq.toQuiet]
      exact h.period
  silent he hg h := ⟨Settled.passive.silent he hg h.settled, h.steady, h.key, h.since.append [_],
    he.loadedOnly h.only, h.seen, h.period⟩

/-! ## extended -/

/-- Session `i` has settled the payment, the checks passed, and it has sent the period the
payment grants. -/
structure Extended (i pid : Nat) (r : Payment) (g : World) : Prop where
  settled : Settled i pid r g
  grants : Extends i pid r g
  steady : SteadyBut i (some r.subscriptionId) g
  passed : r.snapshotError = none
  only : LoadedOnly pid (fun sub => r.amountSats = 0 → sub.upgradeInitial = true) g

theorem Extended.quiet (h : Extended i pid r g) (hq : Quiet i g g') : Extended i pid r g' := by
  refine ⟨h.settled.quiet hq, ?_, h.steady.quiet hq, h.passed, h.only.quiet hq⟩
  obtain ⟨loaded, now, s, hgr, hs, hl', he⟩ := h.grants
  have ht := hq.subs r.subscriptionId
  have hcom : (g'.subscriptions.cell r.subscriptionId).committed =
      (g.subscriptions.cell r.subscriptionId).committed := committed_quiet hq
  have key : ∃ s', (g'.subscriptions.cell r.subscriptionId).pending = some (i, s') ∧
      s'.currentPeriodEnd = s.currentPeriodEnd := by
    generalize g'.subscriptions.cell r.subscriptionId = c' at ht ⊢
    cases ht with
    | same => exact ⟨s, hs, rfl⟩
    | @write s' hfree hid hend =>
        refine ⟨s', rfl, ?_⟩
        rw [hend, Cell.view_of_held hs]
        rfl
  obtain ⟨s', hs', he'⟩ := key
  exact ⟨loaded, now, s', hq.history ▸ hgr, hs', hcom ▸ hl', he' ▸ he⟩

theorem Extended.passive : Passive n i (Extended i pid r) where
  stable := by
    intro j g g' hj hg hmove h
    obtain ⟨l, hl, -⟩ := Move.history hmove
    refine ⟨Settled.passive.stable hj hg hmove h.settled, ?_,
      SteadyBut.stable _ hj hg hmove h.steady, h.passed,
      h.only.foreign hj hg hmove h.settled.earns.pending⟩
    obtain ⟨loaded, now, s, hgr, hs, hl', he⟩ := h.grants
    have hsame := held_sub hj hmove _ s (.inl hs)
    exact ⟨loaded, now, s, hl ▸ hgr.append l, hsame ▸ hs, hsame ▸ hl', he⟩
  quiet _ hq h := h.quiet hq.toQuiet
  silent he hg h := by
    refine ⟨Settled.passive.silent he hg h.settled, ?_, h.steady, h.passed, he.loadedOnly h.only⟩
    obtain ⟨loaded, now, s, hgr, hs, hl', he⟩ := h.grants
    exact ⟨loaded, now, s, hgr.append [_], hs, hl', he⟩

/-- A settlement may be committed when its period was sent. -/
theorem Extended.commitOk (h : Extended i pid r g) : CommitOk i g where
  granted q p hp := by
    by_cases e : q = pid
    · subst e
      have hpr := hp.pending
      rw [h.settled.earns.pending, Option.some.injEq, Prod.mk.injEq] at hpr
      exact hpr.2 ▸ h.grants
    · obtain ⟨c, hc, hcalm⟩ := h.settled.calm q p (by simpa using e) hp.pending
      exact absurd (hcalm.status ▸ hp.paid) (hp.unpaid c hc)
  earned sid s hs hne := by
    by_cases e : sid = r.subscriptionId
    · exact ⟨pid, r, h.settled.earns, e.symm⟩
    · exact absurd (h.steady sid s (by simpa using e) hs) hne
  atOnce q p hp hnew hzero := by
    by_cases e : q = pid
    · subst e
      rw [h.settled.earns.pending, Option.some.injEq, Prod.mk.injEq] at hp
      obtain ⟨-, rfl⟩ := hp
      exact ⟨h.settled.earns.paid, h.passed, h.only.mono fun sub hsub => hsub hzero⟩
    · obtain ⟨c, hc, -⟩ := h.settled.calm q p (by simpa using e) hp
      rw [hc] at hnew
      contradiction

end Backend
