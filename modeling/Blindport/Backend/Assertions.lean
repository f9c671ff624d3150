import Blindport.Conc.Discipline
import Blindport.Backend.Moves

/-!
# Blindport.Backend.Assertions

What a session knows between two of its statements.

`Idle i` holds outside of transactions that change something: what session `i`
has of the payments is what is committed, and it has moved no period and ended no
wait for an upgrade.  `Known p`
says that the object `p` was loaded at some time.  The others destroy neither.
The assertions inside of a settlement are `Settled`, `Loaded` and `Extended`,
one for each of its statements.
-/

namespace Backend

open Conc

/-- The rules the sessions keep to; `n` is `NWC_MAX_PAYMENT_ATTEMPTS`. -/
def discipline (n : Nat) : Discipline World where
  Inv := Inv n
  Move := Move n
  preserved := Inv.move

/-! ## what a move does to one row -/

section moves

variable {n i j : Nat} {g g' : World}

theorem Touch.step {sid : Nat} {c c' : Cell Subscription} (h : Touch i sid c c') :
    Cell.Step i (fun _ _ => True) c c' := by
  cases h with
  | same => exact .same c
  | write hfree => exact .write hfree trivial

theorem Move.payment_step (hg : Inv n g) (h : Move n j g g') (pid : Nat) :
    Cell.Step j (fun _ _ => True) (g.payments.cell pid) (g'.payments.cell pid) := by
  have write : ∀ {q : Nat} {row r : Payment}, g.payments.get j q = some row →
      (g.payments.cell q).lockedByOther j = false → Cell.Step j (fun _ _ => True)
        (g.payments.cell pid) ((g.payments.set q ((g.payments.cell q).write j r)).cell pid) := by
    intro q row r _ hfree
    by_cases e : pid = q
    · subst e
      simpa using Cell.Step.write hfree trivial
    · simpa [e] using Cell.Step.same _
  cases h with
  | quiet h => rw [h.payments]; exact .same _
  | note => exact .same _
  | lock hv hfree => exact write hv hfree
  | execute hv hfree => exact write hv hfree
  | @insert row =>
      by_cases e : pid = g.payments.next
      · subst e
        have hempty := hg.unused g.payments.next (Nat.le_refl _)
        have hfree : (g.payments.cell g.payments.next).lockedByOther j = false := by
          simp [hempty, Cell.lockedByOther]
        simpa [Table.insert] using Cell.Step.write hfree trivial
      · simpa [Table.insert, e] using Cell.Step.same _
  | extend => exact .same _
  | credit => exact .same _
  | commit => exact Cell.step_commit _
  | rollback => exact Cell.step_rollback _

theorem Move.sub_step (h : Move n j g g') (sid : Nat) :
    Cell.Step j (fun _ _ => True) (g.subscriptions.cell sid) (g'.subscriptions.cell sid) := by
  cases h with
  | quiet h => exact (h.subs sid).step
  | note => exact .same _
  | lock hv hfree => exact .same _
  | execute hv hfree => exact .same _
  | insert => exact .same _
  | @extend q pid row s hfree =>
      by_cases e : sid = q
      · subst e
        simpa [World.note] using Cell.Step.write hfree trivial
      · simpa [World.note, e] using Cell.Step.same _
  | credit => exact .same _
  | commit => exact Cell.step_commit _
  | rollback => exact Cell.step_rollback _

/-- The record only grows, by entries of the session that moves. -/
theorem Move.history (h : Move n j g g') :
    ∃ l, g'.history = l ++ g.history ∧ ∀ e ∈ l, e.thread = j := by
  cases h with
  | quiet h => exact ⟨[], h.history, by simp⟩
  | @note e ht => exact ⟨[e], rfl, by simpa using ht⟩
  | lock => exact ⟨[], rfl, by simp⟩
  | @execute pid row s => exact ⟨[.executed j pid s row], rfl, by simp [Event.thread]⟩
  | insert => exact ⟨[], rfl, by simp⟩
  | @extend sid pid row s => exact ⟨[.extending j pid row], rfl, by simp [Event.thread]⟩
  | credit => exact ⟨[], rfl, by simp⟩
  | commit => exact ⟨g.published j, rfl, fun e he => versions_thread he⟩
  | rollback => exact ⟨[], rfl, by simp⟩

/-- Only a session that has settled the payment loads its subscription for that. -/
theorem Move.loads (h : Move n j g g') {k pid : Nat} {sub : Subscription}
    (hmem : .settling k pid sub ∈ g'.history) : .settling k pid sub ∈ g.history ∨
      ∃ r, Earns j pid g r ∧ g.subscriptions.get j r.subscriptionId = some sub := by
  cases h with
  | quiet h => exact .inl (h.history ▸ hmem)
  | @note e ht he hok hload =>
      rcases List.mem_cons.mp hmem with heq | hmem
      · obtain rfl : k = j := by rw [← heq] at ht; exact ht
        exact .inr (hload pid sub heq.symm)
      · exact .inl hmem
  | lock => exact .inl hmem
  | execute => exact .inl (by simpa [World.note] using hmem)
  | insert => exact .inl hmem
  | extend => exact .inl (by simpa [World.note] using hmem)
  | credit => exact .inl hmem
  | commit => exact .inl (settling_of_published hmem)
  | rollback => exact .inl hmem

/-- What is committed of a subscription only becomes later. -/
theorem Move.sub_later (hg : Inv n g) (h : Move n j g g') (sid : Nat) :
    Cell.Le Subscription.Later (g.subscriptions.cell sid).committed
      (g'.subscriptions.cell sid).committed :=
  (h.sub_step sid).le Subscription.Later.refl (hg.subs sid).ordered

/-- What is committed only advances. -/
theorem Move.advances (hg : Inv n g) (h : Move n j g g') (pid : Nat) :
    Cell.Le Payment.Advances (g.payments.cell pid).committed (g'.payments.cell pid).committed :=
  (h.payment_step hg pid).le Payment.Advances.refl (hg.cells pid).ordered

end moves

/-! ## objects that were loaded -/

/-- The payment exists. -/
def Exists (pid : Nat) (g : World) : Prop := ∃ c, (g.payments.cell pid).committed = some c

/-- The object `p` is a version of its payment that was committed, up to wallet
columns. -/
def Known (p : Payment) (g : World) : Prop :=
  RowOk g.history p ∧ ∃ c, (g.payments.cell p.id).committed = some c ∧ Payment.Advances p c

/-- The record has the entry. -/
def Recorded (e : Event) (g : World) : Prop := e ∈ g.history

/-- The payment is no longer pending. -/
def Closed (pid : Nat) (g : World) : Prop :=
  ∃ c, (g.payments.cell pid).committed = some c ∧ c.status ≠ .pending

/-- The object `p` is what a session has just loaded. -/
def Seen (pid : Nat) (p : Payment) (g : World) : Prop :=
  p.id = pid ∧ RowOk g.history p ∧
    ∃ c, (g.payments.cell pid).committed = some c ∧ Calm g.history c p

section durable

variable {n i : Nat} {g g' : World}

theorem RowOk.append {h : List Event} {p : Payment} (hr : RowOk h p) (l : List Event) :
    RowOk (l ++ h) p := by
  induction l with
  | nil => exact hr
  | cons e l ih => exact ih.cons e

theorem UnsentOk.append {h : List Event} {p : Payment} {u : Unsent} (hu : UnsentOk h p u)
    (l : List Event) : UnsentOk (l ++ h) p u := by
  induction l with
  | nil => exact hu
  | cons e l ih => exact ih.cons e

theorem Calm.append {h : List Event} {p row : Payment} (hc : Calm h p row) (l : List Event) :
    Calm (l ++ h) p row := by
  obtain ⟨u, hu, hok⟩ := hc
  exact ⟨u, hu, hok.append l⟩

/-- What is committed after a move of a payment that was committed before. -/
theorem committed_move (hg : Inv n g) {j : Nat} (hmove : Move n j g g') {pid : Nat} {c : Payment}
    (hc : (g.payments.cell pid).committed = some c) :
    ∃ c', (g'.payments.cell pid).committed = some c' ∧ Payment.Advances c c' := by
  have hle := hmove.advances hg pid
  rw [hc] at hle
  cases hc' : (g'.payments.cell pid).committed with
  | none => rw [hc'] at hle; exact absurd hle id
  | some c' => rw [hc'] at hle; exact ⟨c', rfl, hle⟩

theorem Exists.durable (pid : Nat) : (discipline n).Durable (Exists pid) := by
  rintro j g g' hg hmove ⟨c, hc⟩
  obtain ⟨c', hc', -⟩ := committed_move hg hmove hc
  exact ⟨c', hc'⟩

theorem Known.durable (p : Payment) : (discipline n).Durable (Known p) := by
  rintro j g g' hg hmove ⟨hok, c, hc, hadv⟩
  obtain ⟨c', hc', hadv'⟩ := committed_move hg hmove hc
  obtain ⟨l, hl, -⟩ := Move.history hmove
  exact ⟨hl ▸ hok.append l, c', hc', hadv.trans hadv'⟩

theorem Closed.durable (pid : Nat) : (discipline n).Durable (Closed pid) := by
  rintro j g g' hg hmove ⟨c, hc, hs⟩
  obtain ⟨c', hc', hadv⟩ := committed_move hg hmove hc
  exact ⟨c', hc', by rwa [hadv.status_eq hs]⟩

theorem Recorded.durable (e : Event) : (discipline n).Durable (Recorded e) := by
  intro j g g' hg hmove h
  obtain ⟨l, hl, -⟩ := Move.history hmove
  unfold Recorded
  rw [hl]
  exact List.mem_append_right l h

theorem UnsentOk.durable (p : Payment) (u : Unsent) :
    (discipline n).Durable fun g => UnsentOk g.history p u := by
  intro j g g' hg hmove h
  obtain ⟨l, hl, -⟩ := Move.history hmove
  exact hl ▸ h.append l

theorem Known.exists {p : Payment} (h : Known p g) : Exists p.id g := by
  obtain ⟨-, c, hc, -⟩ := h
  exact ⟨c, hc⟩

/-- The version a session sees of a payment it knows. -/
theorem Known.advances_view {p : Payment} (h : Known p g) (hg : Inv n g)
    {row : Payment} (hv : g.payments.get i p.id = some row) : Payment.Advances p row := by
  obtain ⟨-, c, hc, hadv⟩ := h
  have := ((hg.cells p.id).view_ok hv).2.2
  rw [hc] at this
  exact hadv.trans this

theorem Seen.known {pid : Nat} {p : Payment} (h : Seen pid p g) : Known p g := by
  obtain ⟨rfl, hok, c, hc, u, rfl, hu⟩ := h
  refine ⟨hok, c, hc, ?_⟩
  constructor <;> simp [Unsent.flush]

/-- What is loaded is not behind anything loaded before. -/
theorem Seen.advances {pid : Nat} {p q : Payment} (h : Seen pid p g) (hq : Known q g)
    (hid : q.id = pid) : Payment.Advances q p := by
  obtain ⟨-, -, c, hc, hcalm⟩ := h
  obtain ⟨-, c', hc', hadv⟩ := hq
  rw [hid, hc, Option.some.injEq] at hc'
  exact (hc' ▸ hadv).trans hcalm.advances

theorem Seen.not_pending {pid : Nat} {p : Payment} (h : Seen pid p g) (hc : Closed pid g) :
    p.status ≠ .pending := by
  obtain ⟨-, -, c, hcom, hcalm⟩ := h
  obtain ⟨c', hc', hs⟩ := hc
  rw [hcom, Option.some.injEq] at hc'
  rw [hcalm.status, hc']
  exact hs

end durable

/-! ## outside of a transaction -/

/-- What session `i` has of the payments but `pid` is calm. -/
def CalmBut (i : Nat) (pid : Option Nat) (g : World) : Prop :=
  ∀ q r, some q ≠ pid → (g.payments.cell q).pending = some (i, r) →
    ∃ c, (g.payments.cell q).committed = some c ∧ Calm g.history c r

/-- Session `i` has moved no period but that of `sid`. -/
def SteadyBut (i : Nat) (sid : Option Nat) (g : World) : Prop :=
  ∀ k s, some k ≠ sid → (g.subscriptions.cell k).pending = some (i, s) →
    s.currentPeriodEnd = periodEnd (g.subscriptions.cell k).committed

/-- Session `i` has inserted no subscription and ended no wait for an upgrade. -/
def Tame (i : Nat) (g : World) : Prop :=
  ∀ sid s, (g.subscriptions.cell sid).pending = some (i, s) →
    ∃ c, (g.subscriptions.cell sid).committed = some c ∧ s.Later c

/-- Session `i` has changed nothing but wallet columns and subscriptions'
deadlines. -/
structure Idle (i : Nat) (g : World) : Prop where
  calm : CalmBut i none g
  steady : SteadyBut i none g
  tame : Tame i g

/-- Session `i` may commit: it has settled nothing, moved no period and inserted no
payment of nothing. -/
structure Sober (i : Nat) (g : World) : Prop where
  unpaid : ∀ pid r, ¬ Earns i pid g r
  steady : SteadyBut i none g
  owed : ∀ pid r, (g.payments.cell pid).pending = some (i, r) →
    (g.payments.cell pid).committed = none → r.amountSats ≠ 0

section stable

variable {n i : Nat} {g g' : World}

/-- Rows of session `i` are out of the others' reach. -/
theorem held_payment {j : Nat} (hj : j ≠ i) (hg : Inv n g) (h : Move n j g g') (pid : Nat)
    (r : Payment) :
    (g.payments.cell pid).pending = some (i, r) ∨ (g'.payments.cell pid).pending = some (i, r) →
    g'.payments.cell pid = g.payments.cell pid := by
  have hstep := h.payment_step hg pid
  rintro (hp | hp)
  · exact hstep.foreign hj r hp
  · exact hstep.foreign hj r (hstep.foreign_pending hj r hp)

theorem held_sub {j : Nat} (hj : j ≠ i) (h : Move n j g g') (sid : Nat) (s : Subscription) :
    (g.subscriptions.cell sid).pending = some (i, s) ∨
      (g'.subscriptions.cell sid).pending = some (i, s) →
    g'.subscriptions.cell sid = g.subscriptions.cell sid := by
  have hstep := h.sub_step sid
  rintro (hp | hp)
  · exact hstep.foreign hj s hp
  · exact hstep.foreign hj s (hstep.foreign_pending hj s hp)

theorem CalmBut.stable (pid : Option Nat) : (discipline n).Stable i (CalmBut i pid) := by
  intro j g g' hj hg hmove h q r hq hr
  have hsame := held_payment hj hg hmove q r (.inr hr)
  rw [hsame] at hr ⊢
  obtain ⟨l, hl, -⟩ := Move.history hmove
  obtain ⟨c, hc, hcalm⟩ := h q r hq hr
  exact ⟨c, hc, hl ▸ hcalm.append l⟩

theorem SteadyBut.stable (sid : Option Nat) : (discipline n).Stable i (SteadyBut i sid) := by
  intro j g g' hj hg hmove h k s hk hs
  have hsame := held_sub hj hmove k s (.inr hs)
  rw [hsame] at hs ⊢
  exact h k s hk hs

theorem Tame.stable : (discipline n).Stable i (Tame i) := by
  intro j g g' hj hg hmove h k s hs
  have hsame := held_sub hj hmove k s (.inr hs)
  rw [hsame] at hs ⊢
  exact h k s hs

theorem Idle.stable : (discipline n).Stable i (Idle i) := by
  intro j g g' hj hg hmove h
  exact ⟨CalmBut.stable none hj hg hmove h.calm, SteadyBut.stable none hj hg hmove h.steady,
    Tame.stable hj hg hmove h.tame⟩

theorem Earns.foreign {j : Nat} (hj : j ≠ i) (hg : Inv n g) (hmove : Move n j g g') {pid : Nat}
    {r : Payment} (h : Earns i pid g' r) : Earns i pid g r := by
  have hsame := held_payment hj hg hmove pid r (.inr h.pending)
  exact ⟨hsame ▸ h.pending, h.paid, hsame ▸ h.unpaid⟩

theorem Sober.stable : (discipline n).Stable i (Sober i) := by
  intro j g g' hj hg hmove h
  refine ⟨fun pid r he => ?_, SteadyBut.stable none hj hg hmove h.steady, fun pid r hr hnew => ?_⟩
  · exact h.unpaid pid r (Earns.foreign hj hg hmove he)
  · have hsame := held_payment hj hg hmove pid r (.inr hr)
    rw [hsame] at hr hnew
    exact h.owed pid r hr hnew

/-- What session `i` has of a payment is committed but for wallet columns. -/
theorem CalmBut.draftless (h : CalmBut i none g) : Draftless i g := by
  intro pid r hr hnew
  obtain ⟨c, hc, -⟩ := h pid r (by simp) hr
  rw [hc] at hnew
  contradiction

theorem Idle.sober (h : Idle i g) : Sober i g := by
  refine ⟨fun pid r he => ?_, h.steady,
    fun pid r hr hnew => absurd hnew (h.calm.draftless pid r hr)⟩
  obtain ⟨c, hc, hcalm⟩ := h.calm pid r (by simp) he.pending
  exact he.unpaid c hc (hcalm.status ▸ he.paid)

theorem Sober.commitOk (h : Sober i g) : CommitOk i g where
  granted pid r he := absurd he (h.unpaid pid r)
  earned sid s hs hne := absurd (h.steady sid s (by simp) hs) hne
  atOnce pid r hr hnew hzero := absurd hzero (h.owed pid r hr hnew)

/-- After a commit or a rollback a session has nothing. -/
theorem idle_commit (g : World) : Idle i (g.commit i) where
  calm q r _ hr := by
    have : ((g.payments.cell q).commit i).pending = some (i, r) := hr
    rw [Cell.commit_pending] at this
    exact absurd rfl this.2
  steady k s _ hs := by
    have : ((g.subscriptions.cell k).commit i).pending = some (i, s) := hs
    rw [Cell.commit_pending] at this
    exact absurd rfl this.2
  tame k s hs := by
    have : ((g.subscriptions.cell k).commit i).pending = some (i, s) := hs
    rw [Cell.commit_pending] at this
    exact absurd rfl this.2

theorem idle_rollback (g : World) : Idle i (g.rollback i) where
  calm q r _ hr := by
    have : ((g.payments.cell q).rollback i).pending = some (i, r) := hr
    rw [Cell.rollback_pending] at this
    exact absurd rfl this.2
  steady k s _ hs := by
    have : ((g.subscriptions.cell k).rollback i).pending = some (i, s) := hs
    rw [Cell.rollback_pending] at this
    exact absurd rfl this.2
  tame k s hs := by
    have : ((g.subscriptions.cell k).rollback i).pending = some (i, s) := hs
    rw [Cell.rollback_pending] at this
    exact absurd rfl this.2

/-- What an idle session sees of a payment. -/
theorem Idle.view (h : Idle i g) {pid : Nat} {row : Payment}
    (hv : g.payments.get i pid = some row) :
    ∃ c, (g.payments.cell pid).committed = some c ∧ Calm g.history c row := by
  by_cases hheld : ∃ r, (g.payments.cell pid).pending = some (i, r)
  · obtain ⟨r, hr⟩ := hheld
    have : g.payments.get i pid = some r := by simp [Table.get, hr]
    rw [this, Option.some.injEq] at hv
    exact h.calm pid row (by simp) (hv ▸ hr)
  · have : g.payments.get i pid = (g.payments.cell pid).committed :=
      Cell.view_of_not_held fun r hr => hheld ⟨r, hr⟩
    exact ⟨row, this ▸ hv, Calm.refl _ row⟩

/-- The period end of a subscription an idle session sees is the committed one. -/
theorem SteadyBut.periodEnd_view {o : Option Nat} (h : SteadyBut i o g) {sid : Nat}
    (hne : some sid ≠ o) :
    periodEnd (g.subscriptions.get i sid) = periodEnd (g.subscriptions.cell sid).committed := by
  by_cases hheld : ∃ s, (g.subscriptions.cell sid).pending = some (i, s)
  · obtain ⟨s, hs⟩ := hheld
    have hv : g.subscriptions.get i sid = some s := by simp [Table.get, hs]
    rw [hv, ← h sid s hne hs]
    rfl
  · rw [Table.get, Cell.view_of_not_held fun s hs => hheld ⟨s, hs⟩]

/-- What a tame session sees of a subscription waits for what is committed. -/
theorem Tame.view (h : Tame i g) {sid : Nat} {s : Subscription}
    (hv : g.subscriptions.get i sid = some s) :
    ∃ c, (g.subscriptions.cell sid).committed = some c ∧ s.Later c := by
  by_cases hheld : ∃ r, (g.subscriptions.cell sid).pending = some (i, r)
  · obtain ⟨r, hr⟩ := hheld
    have hrs : g.subscriptions.get i sid = some r := Cell.view_of_held hr
    obtain rfl : r = s := Option.some.inj (hrs.symm.trans hv)
    exact h sid r hr
  · rw [Table.get, Cell.view_of_not_held fun r hr => hheld ⟨r, hr⟩] at hv
    exact ⟨s, hv, .refl s⟩

theorem Idle.seen (h : Idle i g) (hg : Inv n g) {pid : Nat} {row : Payment}
    (hv : g.payments.get i pid = some row) : Seen pid row g := by
  obtain ⟨hok, hid, -⟩ := (hg.cells pid).view_ok hv
  exact ⟨hid, hok, h.view hv⟩

end stable

/-! ## passive assertions -/

/-- The entries of session `i` that say nothing about payments and periods. -/
inductive Event.Silent (i : Nat) : Event → Prop where
  | clock (t : Datetime) : Silent i (.clock i t)
  | tried (sid : Nat) (ip : String) (port : Option Nat) : Silent i (.tried i sid ip port)

theorem Event.Silent.skips {i : Nat} {e : Event} (h : e.Silent i) (pid : Nat) : e.Skips pid := by
  cases h <;> simp [Event.Skips]

/-- An assertion of session `i` that neither the others nor statements on
subscriptions, users and leases destroy, as long as these end no wait for an upgrade. -/
structure Passive (n i : Nat) (A : World → Prop) : Prop where
  stable : (discipline n).Stable i A
  quiet : ∀ {g g' : World}, Inv n g → Gentle i g g' → A g → A g'
  silent : ∀ {g : World} {e : Event}, e.Silent i → Inv n g → A g → A (g.note e)

section passive

variable {n i : Nat} {g g' : World}

theorem Event.Silent.move {e : Event} (h : e.Silent i) (g : World) : Move n i g (g.note e) := by
  refine .note ?_ h.skips ?_ ?_
  · cases h <;> rfl
  · cases h <;> trivial
  · cases h <;> simp

theorem Passive.of_durable {F : World → Prop} (hF : (discipline n).Durable F) :
    Passive n i F where
  stable := hF.stable
  quiet hg h hA := hF hg (.quiet h.toQuiet) hA
  silent he hg hA := hF hg (he.move _) hA

theorem Passive.and {A B : World → Prop} (hA : Passive n i A) (hB : Passive n i B) :
    Passive n i fun g => A g ∧ B g where
  stable := hA.stable.and hB.stable
  quiet hg h hAB := ⟨hA.quiet hg h hAB.1, hB.quiet hg h hAB.2⟩
  silent he hg hAB := ⟨hA.silent he hg hAB.1, hB.silent he hg hAB.2⟩

theorem CalmBut.note {pid : Option Nat} (h : CalmBut i pid g) (e : Event) :
    CalmBut i pid (g.note e) := by
  intro q r hq hr
  obtain ⟨c, hc, hcalm⟩ := h q r hq hr
  exact ⟨c, hc, hcalm.cons e⟩

theorem CalmBut.quiet {pid : Option Nat} (h : CalmBut i pid g) (hq : Quiet i g g') :
    CalmBut i pid g' := by
  intro q r hne hr
  rw [hq.payments] at hr ⊢
  rw [hq.history]
  exact h q r hne hr

/-- A quiet statement moves no period. -/
theorem SteadyBut.quiet {sid : Option Nat} (h : SteadyBut i sid g) (hq : Quiet i g g') :
    SteadyBut i sid g' := by
  intro k s hk hs
  have hview := h.periodEnd_view hk
  have ht := hq.subs k
  revert hs
  generalize g'.subscriptions.cell k = c' at ht ⊢
  intro hs
  cases ht with
  | same => exact h k s hk hs
  | write hfree hid hend =>
      simp only [Cell.write_pending, Option.some.injEq, Prod.mk.injEq, true_and] at hs
      rw [← hs, hend, Cell.write_committed]
      exact hview

theorem Tame.gentle (h : Tame i g) (hq : Gentle i g g') : Tame i g' := by
  intro k s' hs'
  obtain ⟨s, hs, -, hback⟩ := hq.alike k s' (Cell.view_of_held hs')
  obtain ⟨c, hc, hlater⟩ := h.view hs
  refine ⟨c, ?_, hback.trans hlater⟩
  have ht := hq.subs k
  generalize g'.subscriptions.cell k = c' at ht ⊢
  cases ht with
  | same => exact hc
  | write => exact hc

theorem Idle.passive : Passive n i (Idle i) where
  stable := Idle.stable
  quiet _ hq h := ⟨h.calm.quiet hq.toQuiet, h.steady.quiet hq.toQuiet, h.tame.gentle hq⟩
  silent _ _ h := ⟨h.calm.note _, h.steady, h.tame⟩

theorem Sober.quiet (h : Sober i g) (hq : Quiet i g g') : Sober i g' := by
  have hp := hq.payments
  refine ⟨fun pid r he => h.unpaid pid r ?_, h.steady.quiet hq, fun pid r hr hnew => ?_⟩
  · exact ⟨hp ▸ he.pending, he.paid, hp ▸ he.unpaid⟩
  · rw [hp] at hr hnew
    exact h.owed pid r hr hnew

theorem Sober.passive : Passive n i (Sober i) where
  stable := Sober.stable
  quiet _ hq h := h.quiet hq.toQuiet
  silent _ _ h := ⟨fun pid r he => h.unpaid pid r ⟨he.pending, he.paid, he.unpaid⟩, h.steady,
    h.owed⟩

theorem CalmBut.passive (pid : Option Nat) : Passive n i (CalmBut i pid) where
  stable := CalmBut.stable pid
  quiet _ hq h := h.quiet hq.toQuiet
  silent _ _ h := h.note _

theorem Idle.note (h : Idle i g) (e : Event) : Idle i (g.note e) :=
  ⟨h.calm.note e, h.steady, h.tame⟩

end passive

/-! ## loads of the subscription of a payment -/

section loads

variable {n i pid : Nat} {r : Payment} {P Q : Subscription → Prop} {g g' : World}

theorem LoadedOnly.mono (h : LoadedOnly pid P g) (hPQ : ∀ sub, P sub → Q sub) :
    LoadedOnly pid Q g :=
  fun hnew j sub hmem => hPQ sub (h hnew j sub hmem)

/-- Of a published payment nothing is said. -/
theorem LoadedOnly.of_stored {c : Payment} (h : (g.payments.cell pid).committed = some c) :
    LoadedOnly pid P g := by
  intro hnew
  rw [h] at hnew
  contradiction

/-- Nobody else settles a payment session `i` has. -/
theorem LoadedOnly.foreign {j : Nat} (h : LoadedOnly pid P g) (hj : j ≠ i) (hg : Inv n g)
    (hmove : Move n j g g') (hheld : (g.payments.cell pid).pending = some (i, r)) :
    LoadedOnly pid P g' := by
  have hsame := held_payment hj hg hmove pid r (.inl hheld)
  intro hnew k sub hmem
  rw [hsame] at hnew
  rcases hmove.loads hmem with hmem | ⟨r', hearns, -⟩
  · exact h hnew k sub hmem
  · have hp := hearns.pending
    rw [hheld, Option.some.injEq, Prod.mk.injEq] at hp
    exact absurd hp.1.symm hj

theorem LoadedOnly.quiet (h : LoadedOnly pid P g) (hq : Quiet i g g') : LoadedOnly pid P g' := by
  intro hnew j sub hmem
  rw [hq.payments] at hnew
  rw [hq.history] at hmem
  exact h hnew j sub hmem

theorem LoadedOnly.note (h : LoadedOnly pid P g) {e : Event}
    (he : ∀ j sub, e = .settling j pid sub → P sub) : LoadedOnly pid P (g.note e) := by
  intro hnew j sub hmem
  rcases List.mem_cons.mp hmem with heq | hmem
  · exact he j sub heq.symm
  · exact h hnew j sub hmem

theorem Event.Silent.loadedOnly {e : Event} (he : e.Silent i) (h : LoadedOnly pid P g) :
    LoadedOnly pid P (g.note e) :=
  h.note fun j sub heq => by cases he <;> simp at heq

end loads

end Backend
