import Blindport.Backend.Quotes
import Blindport.Backend.Safety

/-!
# Blindport.Backend.Snapshots

What `create_payment` stores is what `_finalize_payment` accepts, whatever the
settings are by then.

Every request runs under settings of its own (`reconfigured`).  Whatever a
session sees of a payment that was inserted in the run is a quote for the
subscription as that session sees it (`Drawn`), and every move keeps that
(`Drawn.move`).  With it go what a load of a subscription found (`Billed`) and
that a payment of nothing is only ever stored paid.
-/

namespace Backend

open Conc

/-! ## changing settings -/

/-- The backend while its settings change.  Every request runs under settings of its
own; of these only the number of NWC attempts is the same for all. -/
def reconfigured (n : Nat) :
    System Input World Error ({app : App // app.cfg.nwcMaxPaymentAttempts = n} × Entry) where
  program i e := program e.1 i e.2
  close := World.rollback

/-- Changing settings keep to the discipline. -/
def certifiedReconfigured (n : Nat) : Certified (reconfigured n) (discipline n) where
  Fresh := Idle
  fresh_stable _ := Idle.stable
  close_move _ _ _ := .rollback
  entry i e := by
    obtain ⟨⟨app, rfl⟩, e⟩ := e
    exact (certified app).entry i e

/-! ## what the sessions see of a payment -/

section views

variable {n m i pid : Nat} {g g' : World} {p q : Payment}

/-- What is committed has the snapshot that every session sees. -/
theorem Inv.sameSnapshot_committed (hg : Inv n g) (hp : (g.payments.cell pid).committed = some p)
    (hq : g.payments.get i pid = some q) : p.SameSnapshot q := by
  have hle := (hg.cells pid).ordered.le_view Payment.Advances.refl i
  rw [hp, show (g.payments.cell pid).view i = some q from hq] at hle
  exact Payment.Advances.sameSnapshot hle

/-- All sessions see the same snapshot. -/
theorem Inv.sameSnapshot (hg : Inv n g) {j : Nat} (hp : g.payments.get i pid = some p)
    (hq : g.payments.get j pid = some q) : p.SameSnapshot q := by
  cases hc : (g.payments.cell pid).committed with
  | some c => exact (hg.sameSnapshot_committed hc hp).symm.trans (hg.sameSnapshot_committed hc hq)
  | none =>
      -- the only session that sees an unpublished row is the one that has it
      rcases view_cases hp with hi | hi
      · rcases view_cases hq with hj | hj
        · rw [hi, Option.some.injEq, Prod.mk.injEq] at hj
          exact hj.2 ▸ .refl p
        · rw [hc] at hj
          contradiction
      · rw [hc] at hi
        contradiction

/-- A move keeps the snapshot that is seen, or inserts the payment. -/
theorem Move.sees_payment (h : Move n m g g') (hp : g'.payments.get i pid = some p) :
    (∃ j q, g.payments.get j pid = some q ∧ q.SameSnapshot p) ∨ pid = g.payments.next := by
  cases h with
  | quiet h => exact .inl ⟨i, p, h.payments ▸ hp, .refl p⟩
  | note => exact .inl ⟨i, p, hp, .refl p⟩
  | @lock k row hv hfree =>
      simp only [Table.get_write hfree] at hp
      split at hp
      · rename_i e
        obtain ⟨rfl, rfl⟩ := e
        exact .inl ⟨i, row, hv, Option.some.inj hp ▸ .refl row⟩
      · exact .inl ⟨i, p, hp, .refl p⟩
  | @execute k row s hv hfree =>
      simp only [World.note, Table.get_write hfree] at hp
      split at hp
      · rename_i e
        obtain ⟨rfl, rfl⟩ := e
        exact .inl ⟨i, row, hv, Option.some.inj hp ▸ s.set_sameSnapshot row⟩
      · exact .inl ⟨i, p, hp, .refl p⟩
  | @insert row =>
      by_cases e : pid = g.payments.next
      · exact .inr e
      · exact .inl ⟨i, p, by simpa [Table.get, Table.insert, e] using hp, .refl p⟩
  | extend => exact .inl ⟨i, p, hp, .refl p⟩
  | credit => exact .inl ⟨i, p, hp, .refl p⟩
  | commit =>
      cases Cell.commit_view (g.payments.cell pid) m i with
      | inl e => exact .inl ⟨m, p, e.symm.trans hp, .refl p⟩
      | inr e => exact .inl ⟨i, p, e.symm.trans hp, .refl p⟩
  | rollback =>
      obtain ⟨j, e⟩ := Cell.exists_view_of_rollback (g.payments.cell pid) m i
      exact .inl ⟨j, p, e.symm.trans hp, .refl p⟩

/-- Payments get keys in order. -/
theorem Move.next_le (h : Move n m g g') : g.payments.next ≤ g'.payments.next := by
  cases h with
  | quiet h => exact Nat.le_of_eq (congrArg Table.next h.payments).symm
  | insert => exact Nat.le_succ _
  | _ => exact Nat.le_refl _

end views

/-! ## what the sessions see of a subscription -/

section subscriptions

variable {n m i pid sid : Nat} {g g' : World} {p : Payment}

/-- A statement on a subscription is seen by its session alone. -/
theorem Touch.view_cases {c c' : Cell Subscription} (h : Touch m sid c c') (i : Nat) :
    c'.view i = c.view i ∨ i = m ∧ ∃ r, c'.view i = some r ∧ Succeeds m c r := by
  cases h with
  | same => exact .inl rfl
  | @write r hfree hid hend hrow =>
      rw [Cell.write_view hfree]
      split
      · rename_i e
        exact .inr ⟨e, r, rfl, hrow⟩
      · exact .inl rfl

/-- Every session sees an upgrade with the end of its source's period. -/
theorem Move.sees_linked (h : Move n m g g')
    (hall : ∀ i sid s, g.subscriptions.get i sid = some s → s.Linked) {s : Subscription}
    (hs : g'.subscriptions.get i sid = some s) : s.Linked := by
  cases h with
  | quiet h =>
      rcases (h.subs sid).view_cases i with e | ⟨rfl, r, hr, hrow⟩
      · exact hall i sid s (e.symm.trans hs)
      · obtain rfl : r = s := Option.some.inj (hr.symm.trans hs)
        rcases hrow with ⟨t, ht, hlater⟩ | ⟨-, hlinked⟩
        · exact hlater.linked (hall i sid t ht)
        · exact hlinked
  | note => exact hall i sid s hs
  | lock => exact hall i sid s hs
  | execute => exact hall i sid s hs
  | insert => exact hall i sid s hs
  | @extend k pid row r hfree hid hlt hv hlater =>
      simp only [World.note, Table.get_write hfree] at hs
      split at hs
      · obtain rfl := Option.some.inj hs
        exact hlater.linked (hall m k row hv)
      · exact hall i sid s hs
  | credit => exact hall i sid s hs
  | commit =>
      cases Cell.commit_view (g.subscriptions.cell sid) m i with
      | inl e => exact hall m sid s (e.symm.trans hs)
      | inr e => exact hall i sid s (e.symm.trans hs)
  | rollback =>
      obtain ⟨j, e⟩ := Cell.exists_view_of_rollback (g.subscriptions.cell sid) m i
      exact hall j sid s (e.symm.trans hs)

/-! ## drawn payments -/

theorem Drawn.same {q : Payment} (h : Drawn i g p) (hsame : p.SameSnapshot q) : Drawn i g q := by
  obtain ⟨hquoted, s, hs, hmatches⟩ := h
  exact ⟨hsame.quoted hquoted, s, hsame.subscriptionId ▸ hs, hsame.matches hmatches⟩

/-- The subscription may become later. -/
theorem Drawn.later {j : Nat} (h : Drawn i g p)
    (hle : Cell.Le Subscription.Later (g.subscriptions.get i p.subscriptionId)
      (g'.subscriptions.get j p.subscriptionId)) : Drawn j g' p := by
  obtain ⟨hquoted, s, hs, hmatches⟩ := h
  rw [hs] at hle
  obtain ⟨s', hs', hlater⟩ := hle.of_some
  exact ⟨hquoted, s', hs', hmatches.later hlater⟩

/-- What a session sees of the payment is a quote for what it sees of the subscription. -/
def DrawnAll (pid : Nat) (g : World) : Prop :=
  ∀ i p, g.payments.get i pid = some p → Drawn i g p

/-- What a session that has inserted no payment sees is for a published subscription. -/
theorem DrawnAll.published (hg : Inv n g) (hall : DrawnAll pid g) (hdraftless : Draftless i g)
    (hp : g.payments.get i pid = some p) :
    (g.subscriptions.cell p.subscriptionId).committed ≠ none := by
  -- the payment is published, so a session that has neither row sees it
  obtain ⟨c, hc⟩ : ∃ c, (g.payments.cell pid).committed = some c := by
    rcases view_cases hp with hheld | hc
    · exact Option.ne_none_iff_exists'.mp (hdraftless pid p hheld)
    · exact ⟨p, hc⟩
  obtain ⟨j, hj, hsub⟩ := Cell.exists_reader (g.payments.cell pid)
    (g.subscriptions.cell p.subscriptionId)
  obtain ⟨-, s, hs, -⟩ := hall j c (hj.trans hc)
  rw [← (hg.sameSnapshot_committed hc hp).subscriptionId] at hs
  rw [← hsub, show (g.subscriptions.cell p.subscriptionId).view j = some s from hs]
  simp

theorem DrawnAll.quiet (hg : Inv n g) (h : Quiet m g g') (hall : DrawnAll pid g) :
    DrawnAll pid g' := by
  intro i p hp
  rw [h.payments] at hp
  have hdrawn := hall i p hp
  refine hdrawn.later ?_
  rcases (h.subs p.subscriptionId).view_cases i with e | ⟨rfl, r, hr, hrow⟩
  · rw [show g'.subscriptions.get i p.subscriptionId = _ from e]
    exact Cell.Le.refl Subscription.Later.refl _
  · obtain ⟨-, s, hs, -⟩ := hdrawn
    have hr' : g'.subscriptions.get i p.subscriptionId = some r := hr
    rw [hs, hr']
    rcases hrow with ⟨t, ht, hlater⟩ | ⟨hnone, -⟩
    · obtain rfl : t = s := Option.some.inj (ht.symm.trans hs)
      exact hlater
    · rcases h.later _ s r hs hr' with hlater | hdraftless
      · exact hlater
      · -- a new link is no payment's subscription
        exact absurd hnone (hall.published hg hdraftless hp)

theorem DrawnAll.commit (hg : Inv n g) (hall : DrawnAll pid g) : DrawnAll pid (g.commit m) := by
  intro i p hp
  obtain ⟨hown, htheirs⟩ :=
    (hg.subs p.subscriptionId).ordered.le_commit Subscription.Later.refl m i
  cases Cell.commit_view (g.payments.cell pid) m i with
  | inl e => exact (hall m p (e.symm.trans hp)).later htheirs
  | inr e => exact (hall i p (e.symm.trans hp)).later hown

theorem DrawnAll.rollback (hall : DrawnAll pid g) : DrawnAll pid (g.rollback m) := by
  intro i p hp
  have hp' : ((g.payments.cell pid).rollback m).view i = some p := hp
  have hsub : (g.rollback m).subscriptions.get i p.subscriptionId =
      if i = m then (g.subscriptions.cell p.subscriptionId).committed
      else g.subscriptions.get i p.subscriptionId := Cell.rollback_view _ m i
  rw [Cell.rollback_view] at hp'
  split at hp'
  · rename_i e
    obtain ⟨j, hj, hseen⟩ := Cell.exists_reader (g.payments.cell pid)
      (g.subscriptions.cell p.subscriptionId)
    refine (hall j p (hj.trans hp')).later ?_
    rw [hsub, if_pos e, ← hseen]
    exact Cell.Le.refl Subscription.Later.refl _
  · rename_i e
    refine (hall i p hp').later ?_
    rw [hsub, if_neg e]
    exact Cell.Le.refl Subscription.Later.refl _

/-- **Drawn payments.** What every session sees of a payment stays a quote for what it
sees of the subscription. -/
theorem DrawnAll.move (hg : Inv n g) (h : Move n m g g') (hall : DrawnAll pid g) :
    DrawnAll pid g' := by
  cases h with
  | quiet h => exact hall.quiet hg h
  | note => exact hall
  | @lock k row hv hfree =>
      intro i p hp
      simp only [Table.get_write hfree] at hp
      split at hp
      · rename_i e
        obtain ⟨rfl, rfl⟩ := e
        exact Option.some.inj hp ▸ hall i row hv
      · exact hall i p hp
  | @execute k row s hv hfree =>
      intro i p hp
      simp only [World.note, Table.get_write hfree] at hp
      split at hp
      · rename_i e
        obtain ⟨rfl, rfl⟩ := e
        obtain rfl := Option.some.inj hp
        exact (hall i row hv).same (s.set_sameSnapshot row)
      · exact hall i p hp
  | @insert row hid hfresh hs hlive hdrawn =>
      intro i p hp
      by_cases e : pid = g.payments.next
      · subst e
        have hcell := hg.unused _ (Nat.le_refl g.payments.next)
        simp only [Table.get, Table.insert, Table.set_cell_self] at hp
        rw [Cell.write_view (by simp [hcell, Cell.lockedByOther])] at hp
        split at hp
        · rename_i e
          subst e
          exact Option.some.inj hp ▸ hdrawn
        · simp [hcell, Cell.view] at hp
      · exact hall i p (by simpa [Table.get, Table.insert, e] using hp)
  | @extend k q row r hfree hid hlt hv hlater =>
      intro i p hp
      refine (hall i p hp).later ?_
      simp only [World.note, Table.get_write hfree]
      split
      · rename_i e
        rw [e.1, e.2, hv]
        exact hlater
      · exact Cell.Le.refl Subscription.Later.refl _
  | credit => exact hall
  | commit => exact hall.commit hg
  | rollback => exact hall.rollback

end subscriptions

/-! ## billed payments -/

/-- A payment of nothing is stored settled, on an upgrade that waited for it. -/
structure SettledAtOnce (pid : Nat) (p : Payment) (h : List Event) : Prop where
  paid : p.status = .paid
  priced : p.servicePriceSats ≠ 0
  loaded : ∃ j sub, .settling j pid sub ∈ h
  initial : ∀ j sub, .settling j pid sub ∈ h → sub.upgradeInitial = true

/-- What holds of the payments from `base` on. -/
structure Billed (base : Nat) (g : World) : Prop where
  base_le : base ≤ g.payments.next
  linked : ∀ i sid s, g.subscriptions.get i sid = some s → s.Linked
  drawn : ∀ pid, base ≤ pid → DrawnAll pid g
  /-- Every load of a subscription to settle the payment found one it is for. -/
  loaded : ∀ j pid sub, base ≤ pid → .settling j pid sub ∈ g.history →
    sub.Linked ∧ ∀ i p, g.payments.get i pid = some p → p.Matches sub
  atOnce : ∀ pid p, base ≤ pid → g.payment pid = some p → p.amountSats = 0 →
    SettledAtOnce pid p g.history

section billed

variable {n m base : Nat} {g g' : World}

theorem World.Start.billed (h : g.Start)
    (hlinked : ∀ sid s, g.subscription sid = some s → s.Linked) : Billed g.payments.next g where
  base_le := Nat.le_refl _
  linked i sid s hs := by
    refine hlinked sid s ?_
    rw [← hs]
    exact (Cell.view_of_not_held (by simp [h.subscriptions sid])).symm
  drawn pid hpid i p hp := by
    simp [Table.get, (h.inv 0).unused pid hpid, Cell.view] at hp
  loaded j pid sub _ hmem := by
    rw [h.history] at hmem
    cases hmem
  atOnce pid p hpid hp := absurd (h.keyed pid p hp).2 (Nat.not_lt.mpr hpid)

theorem Billed.loaded_move (hg : Inv n g) (hb : Billed base g) (h : Move n m g g') {j pid : Nat}
    {sub : Subscription} (hpid : base ≤ pid) (hmem : .settling j pid sub ∈ g'.history) :
    sub.Linked ∧ ∀ i p, g'.payments.get i pid = some p → p.Matches sub := by
  -- whatever the load found matches what some session saw of the payment
  obtain ⟨hlt, hlinked, hmatches⟩ : pid < g.payments.next ∧ sub.Linked ∧
      ∀ i p, g.payments.get i pid = some p → p.Matches sub := by
    rcases h.loads hmem with hmem | ⟨r, hearns, hs⟩
    · exact ⟨hg.settled j pid sub hmem, hb.loaded j pid sub hpid hmem⟩
    · have hr : g.payments.get m pid = some r := Cell.view_of_held hearns.pending
      obtain ⟨-, s, hs', hmatches⟩ := hb.drawn pid hpid m r hr
      obtain rfl : sub = s := Option.some.inj (hs.symm.trans hs')
      exact ⟨hearns.lt_next hg, hb.linked m _ sub hs, fun i p hp =>
        (hg.sameSnapshot hr hp).matches hmatches⟩
  refine ⟨hlinked, fun i p hp => ?_⟩
  rcases h.sees_payment hp with ⟨k, q, hq, hsame⟩ | e
  · exact hsame.matches (hmatches k q hq)
  · omega

/-- What was settled on is recorded. -/
theorem Extends.loaded {i pid : Nat} {r : Payment} (h : Extends i pid r g) :
    ∃ sub, .settling i pid sub ∈ g.history := by
  obtain ⟨sub, now, s, ⟨h₁, h₂, e, h₃, h₄, e', -⟩, -⟩ := h
  exact ⟨sub, by rw [e, e']; simp⟩

theorem Billed.atOnce_move (hg : Inv n g) (hb : Billed base g) (h : Move n m g g') {pid : Nat}
    {p : Payment} (hpid : base ≤ pid) (hp : g'.payment pid = some p) (hamount : p.amountSats = 0) :
    SettledAtOnce pid p g'.history := by
  obtain ⟨l, hhistory, -⟩ := h.history
  -- the row was published before, at first as it was settled
  have hold {q : Payment} (hq : g.payment pid = some q) (hadv : Payment.Advances q p) :
      SettledAtOnce pid p g'.history := by
    have hq' := hb.atOnce pid q hpid hq (hadv.amountSats.symm.trans hamount)
    obtain ⟨j, sub, hmem⟩ := hq'.loaded
    refine ⟨(hadv.status_eq (by simp [hq'.paid])).trans hq'.paid,
      hadv.servicePriceSats ▸ hq'.priced,
      ⟨j, sub, by rw [hhistory]; exact List.mem_append_right _ hmem⟩, fun k s hk => ?_⟩
    rcases h.loads hk with hk | ⟨r, hearns, -⟩
    · exact hq'.initial k s hk
    · exact absurd hq'.paid (hearns.unpaid q hq)
  rcases h.publishes with ⟨hsame, -⟩ | ⟨rfl, hok⟩
  · exact hold ((hsame pid).symm.trans hp) (.refl p)
  · have hview : g.payments.get m pid = some p := (Cell.commit_committed _ m).symm.trans hp
    rcases view_cases hview with hheld | hcom
    · cases hc : (g.payments.cell pid).committed with
      | some q =>
          have hadv := (hg.cells pid).ordered m p hheld
          rw [hc] at hadv
          exact hold hc hadv
      | none =>
          obtain ⟨hpaid, hpassed, honly⟩ := hok.atOnce pid p hheld hc hamount
          obtain ⟨hquoted, -⟩ := hb.drawn pid hpid m p hview
          obtain ⟨sub, hmem⟩ := (hok.granted pid p ⟨hheld, hpaid, by simp [hc]⟩).loaded
          exact ⟨hpaid, hquoted.priced_of_passed hamount hpassed,
            ⟨m, sub, List.mem_append_right _ hmem⟩,
            fun j s hs => honly hc j s (settling_of_published hs)⟩
    · exact hold hcom (.refl p)

/-- **Billed payments.** Every move keeps what holds of the payments from `base` on. -/
theorem Billed.move (hg : Inv n g) (hb : Billed base g) (h : Move n m g g') : Billed base g' where
  base_le := Nat.le_trans hb.base_le h.next_le
  linked _ _ _ hs := h.sees_linked hb.linked hs
  drawn pid hpid := (hb.drawn pid hpid).move hg h
  loaded _ _ _ hpid hmem := hb.loaded_move hg h hpid hmem
  atOnce _ _ hpid hp hamount := hb.atOnce_move hg h hpid hp hamount

end billed

/-! ## runs -/

section runs

variable {n : Nat} {g : World} {ls : List (Label Input ({app : App //
  app.cfg.nwcMaxPaymentAttempts = n} × Entry))} {c : Config Input World Error}

/-- Every configuration that is reached under changing settings. -/
theorem World.Start.billed_run (hg : g.Start)
    (hlinked : ∀ sid s, g.subscription sid = some s → s.Linked)
    (hrun : (reconfigured n).run (System.init g) ls = some c) :
    Inv n c.global ∧ Billed g.payments.next c.global := by
  have hsafe := (certifiedReconfigured n).safe_init (hg.inv n) hg.idle
  refine ⟨((certifiedReconfigured n).run_safe hsafe hrun).inv, ?_⟩
  exact (certifiedReconfigured n).run_rel
    (T := fun g₁ g₂ => Billed g.payments.next g₁ → Billed g.payments.next g₂) (fun _ h => h)
    (fun _ _ _ h₁ h₂ h => h₂ (h₁ h)) (fun _ _ _ hinv hmove hb => hb.move hinv hmove) hsafe hrun
    (hg.billed hlinked)

/-- **A stored payment settles as it was quoted.**  Take any run in which every request
has settings of its own, and any payment it stored.  Whatever session looks at it, the
checks of its billing snapshot pass; on the subscription the session sees, and on every one
that was loaded to settle it, the settlement raises nothing but what the subscription is
not ready for, under any settings; a payment of nothing was settled in the transaction
that stored it.  The days are the standard period and the ceiling of what the top-up buys
of it, and without a discount both branches of `stablecoin_credited_days` give these. -/
theorem billing_snapshot_agrees (hg : g.Start)
    (hlinked : ∀ sid s, g.subscription sid = some s → s.Linked)
    (hrun : (reconfigured n).run (System.init g) ls = some c) {pid : Nat}
    (hnew : g.payments.next ≤ pid) (hstored : (c.global.payment pid).isSome = true) {i : Nat}
    {payment : Payment} (hseen : c.global.payments.get i pid = some payment) :
    payment.snapshotError = none ∧
    (∃ sub, c.global.subscriptions.get i payment.subscriptionId = some sub ∧
      (payment.amountSats ≠ 0 → ∀ cfg,
        payment.subscriptionError cfg sub = sub.settlementReadyError cfg payment)) ∧
    (∀ j sub, .settling j pid sub ∈ c.global.history → ∀ cfg,
      payment.subscriptionError cfg sub = sub.settlementReadyError cfg payment) ∧
    (payment.amountSats = 0 → payment.status = .paid ∧
      ∃ j sub, .settling j pid sub ∈ c.global.history) ∧
    billingPeriodDays payment.billingTerm ≤ payment.periodDays ∧
    payment.periodDays = billingPeriodDays payment.billingTerm +
      ⌈((payment.topupSats * billingPeriodDays payment.billingTerm : Int) : ℚ) /
        ((payment.servicePriceSats + payment.stablecoinSurchargeSats : Int) : ℚ)⌉ ∧
    ∀ {amount price surcharge standard : Int}, 0 < amount → 0 < price + surcharge →
      0 < standard → 0 < amount - price - surcharge →
      stablecoinCreditedDays amount price surcharge standard none =
        some (standard + ((amount - price - surcharge) * standard + (price + surcharge) - 1) /
          (price + surcharge)) ∧
      stablecoinCreditedDays amount price surcharge standard (some price) =
        stablecoinCreditedDays amount price surcharge standard none := by
  obtain ⟨hinv, hb⟩ := hg.billed_run hlinked hrun
  obtain ⟨stored, hstored⟩ := Option.isSome_iff_exists.mp hstored
  obtain ⟨hquoted, sub, hsub, hmatches⟩ := hb.drawn pid hnew i payment hseen
  have hadv : Payment.Advances stored payment := by
    have hle := (hinv.cells pid).ordered.le_view Payment.Advances.refl i
    rw [show (c.global.payments.cell pid).committed = some stored from hstored,
      show (c.global.payments.cell pid).view i = some payment from hseen] at hle
    exact hle
  have hatOnce (hamount : payment.amountSats = 0) :=
    hb.atOnce pid stored hnew hstored (hadv.amountSats.symm.trans hamount)
  have hpriced : payment.servicePriceSats ≠ 0 := by
    by_cases hamount : payment.amountSats = 0
    · rw [hadv.servicePriceSats]
      exact (hatOnce hamount).priced
    · exact hquoted.priced hamount
  refine ⟨hquoted.snapshotError hpriced, ⟨sub, hsub, fun hamount cfg => ?_⟩,
    fun j loaded hmem cfg => ?_, fun hamount => ?_, hquoted.period_le, hquoted.periodDays, ?_⟩
  · exact hquoted.subscriptionError hpriced hmatches (hb.linked i _ sub hsub)
      (fun hzero => absurd hzero hamount) cfg
  · obtain ⟨hlinked, hall⟩ := hb.loaded j pid loaded hnew hmem
    exact hquoted.subscriptionError hpriced (hall i payment hseen) hlinked
      (fun hzero => (hatOnce hzero).initial j loaded hmem) cfg
  · have hsettled := hatOnce hamount
    exact ⟨(hadv.status_eq (by simp [hsettled.paid])).trans hsettled.paid, hsettled.loaded⟩
  · intro amount price surcharge standard hamount hprice hstandard htopup
    have hbranches : stablecoinCreditedDays amount price surcharge standard (some price) =
        stablecoinCreditedDays amount price surcharge standard none := by
      simp [stablecoinCreditedDays]
    rw [← hbranches, stablecoinCreditedDays_topup hamount hprice hstandard htopup,
      ediv_eq_ceil hprice]
    exact ⟨rfl, rfl⟩

end runs

/-! ## a sample -/

namespace Sample

/-- An exact host that was paid for thirty days. -/
def source : Subscription :=
  { subscription with
    domain := some "www.example.org"
    domainIsManaged := false
    domainVerifiedAt := some 0 }

/-- Its monthly wildcard upgrade, with a credit of 4000 sats. -/
def upgrade : Subscription :=
  { source with
    id := 1
    status := .pending
    domain := some "example.org"
    relayHostnameScope := .wildcard
    monthlyPriceSats := 5000
    domainClaimExpiresAt := some (days 40)
    currentPeriodStart := none
    currentPeriodEnd := none
    upgradeFromSubscriptionId := some 0
    upgradeCreditSats := 4000
    upgradeSourcePeriodEnd := some (days 30) }

/-- The account of the two, before any payment of the upgrade. -/
def upgrading : World :=
  { world (payment .lightning) with
    subscriptions := .ofList [source, upgrade] (·.id)
    payments := .ofList [] (·.id) }

theorem mem_of_upgrading {sid : Nat} {s : Subscription} (h : upgrading.subscription sid = some s) :
    s.id = sid ∧ (s = source ∨ s = upgrade) := by
  have hfind : [source, upgrade].find? (·.id = sid) = some s := h
  have hmem : s ∈ [source, upgrade] := List.mem_of_find?_eq_some hfind
  exact ⟨by simpa using List.find?_some hfind, by simpa using hmem⟩

theorem upgrading_start : upgrading.Start where
  payments _ := rfl
  subscriptions _ := rfl
  credits _ := rfl
  history := rfl
  keyed pid p hp := by simp [World.payment, upgrading, Table.ofList] at hp
  resting pid p hp := by simp [World.payment, upgrading, Table.ofList] at hp
  single pid qid p q hp := by simp [World.payment, upgrading, Table.ofList] at hp
  credited pid hc := by simp [World.credit, upgrading, world, Table.ofList] at hc
  keyedSubs sid s hs := by
    obtain ⟨rfl, rfl | rfl⟩ := mem_of_upgrading hs <;> exact ⟨rfl, by decide⟩

theorem upgrading_linked (sid : Nat) (s : Subscription) (hs : upgrading.subscription sid = some s) :
    s.Linked := by
  obtain ⟨-, rfl | rfl⟩ := mem_of_upgrading hs
  · intro h
    exact absurd h (by decide)
  · exact fun _ => rfl

/-- Stablecoin swaps with a smallest invoice of 5000 sats. -/
def swapping : App :=
  { app with
    cfg := .default [.stablecoinSwap] [] List.nodup_nil
    invoiceHash := some }

/-- Another provider, with another smallest invoice, another markup and another price. -/
def repriced : App :=
  { swapping with
    cfg := { Settings.default [] [] List.nodup_nil with
      stablecoinCheckoutProvider := .boltz
      stablecoinSwapMinInvoiceSats := 9000
      stablecoinSwapMarkupBps := 2500
      stablecoinSwapMarkupBps_pos := by decide
      relayWildcardMonthlySats := 8000 } }

/-- The upgrade is paid for under the first settings and settles under the second. -/
def swap : List (Label Input ({a : App // a.cfg.nwcMaxPaymentAttempts = 3} × Entry)) :=
  let ω : Input :=
    { clock := days 3, uuid := "key", createInvoice := some ⟨"lnbc", "key", "", days 4, 600⟩,
      invoicePaid := some true }
  .spawn (⟨swapping, rfl⟩, .createPayment 1 ⟨.stablecoinSwap, none, none, false⟩) ::
    List.replicate 37 (.act 0 ω) ++
    .spawn (⟨repriced, rfl⟩, .checkPayment 0) :: List.replicate 15 (.act 1 ω)

end Sample

/-- A load of the subscription of a payment to settle it. -/
def Event.isSettling (pid : Nat) : Event → Bool
  | .settling _ p _ => p = pid
  | _ => false

/-- Of the 5000 sats of the smallest invoice 3900 are a top-up, and the upgrade settles
with the 53 days it was quoted after every setting of the quote has changed. -/
theorem billing_snapshot_agrees_swap : ∃ c payment,
    (reconfigured 3).run (System.init Sample.upgrading) Sample.swap = some c ∧
    c.global.payments.get 2 0 = some payment ∧ payment.status = .paid ∧ payment.periodDays = 53 ∧
    payment.snapshotError = none ∧ ∃ j sub, .settling j 0 sub ∈ c.global.history ∧
      payment.subscriptionError Sample.repriced.cfg sub =
        sub.settlementReadyError Sample.repriced.cfg payment := by
  have hrun : ((reconfigured 3).run (System.init Sample.upgrading) Sample.swap).map
      (fun c => ((c.global.payments.get 2 0).map fun p => (p.status, p.periodDays),
        (c.global.payment 0).isSome, c.global.history.any (Event.isSettling 0))) =
      some (some (.paid, 53), true, true) := by decide +kernel
  obtain ⟨c, hc, hobs⟩ := Option.map_eq_some_iff.mp hrun
  simp only [Prod.mk.injEq] at hobs
  obtain ⟨hrow, hstored, hloaded⟩ := hobs
  obtain ⟨payment, hseen, hpaid⟩ := Option.map_eq_some_iff.mp hrow
  simp only [Prod.mk.injEq] at hpaid
  obtain ⟨e, hmem, he⟩ := List.any_eq_true.mp hloaded
  obtain ⟨hpassed, -, hagrees, -⟩ := billing_snapshot_agrees Sample.upgrading_start
    Sample.upgrading_linked hc (Nat.zero_le 0) hstored hseen
  cases e with
  | settling j pid sub =>
      obtain rfl : pid = 0 := by simpa [Event.isSettling] using he
      exact ⟨c, payment, hc, hseen, hpaid.1, hpaid.2, hpassed, j, sub, hmem,
        hagrees j sub hmem Sample.repriced.cfg⟩
  | _ => simp [Event.isSettling] at he

end Backend
