import Blindport.Backend.Settling

/-!
# Blindport.Backend.Specs.Session

The specifications of single statements.

`Keeps` is the specification of everything that leaves an assertion alone.  The
statements on subscriptions, users and leases keep every passive assertion; the
statements on payments have the specifications the services need: `execute` from
an idle session, `commit` and `rollback`, and the loads.
-/

namespace Backend

open Conc Conc.Discipline

variable {n i : Nat} {α β : Type} {A P F : World → Prop} {Q : α → World → Prop}
  {E : Error → World → Prop}

/-- The specification of a program of session `i`; where it raises nothing is
said. -/
def Spec (n i : Nat) (P : World → Prop) (p : Db α) (Q : α → World → Prop) : Prop :=
  (discipline n).Triple i P p Q fun _ _ => True

namespace Spec

theorem pure {a : α} (h : ∀ g, Inv n g → P g → Q a g) : Spec n i P (Pure.pure a : Db α) Q :=
  Triple.pure h

theorem raise (e : Error) : Spec n i P (Prog.raise e : Db α) Q :=
  Triple.raise fun _ _ _ => trivial

theorem bind {p : Db α} {k : α → Db β} {R : β → World → Prop} (hp : Spec n i P p Q)
    (hk : ∀ a, Spec n i (Q a) (k a) R) : Spec n i P (p >>= k) R :=
  Triple.bind hp hk

theorem ite {c : Prop} [Decidable c] {p q : Db α} (hp : Spec n i P p Q) (hq : Spec n i P q Q) :
    Spec n i P (if c then p else q) Q := by
  split
  · exact hp
  · exact hq

theorem mono {p : Db α} {Q' : α → World → Prop} (hp : Spec n i P p Q)
    (h : ∀ a g, Inv n g → Q a g → Q' a g) : Spec n i P p Q' :=
  Triple.mono hp h fun _ _ _ => trivial

theorem pre {p : Db α} {P' : World → Prop} (hp : Spec n i P p Q)
    (h : ∀ g, Inv n g → P' g → P g) : Spec n i P' p Q :=
  Triple.pre hp h

theorem frame {p : Db α} (hF : (discipline n).Durable F) (hp : Spec n i P p Q) :
    Spec n i (fun g => F g ∧ P g) p fun a g => F g ∧ Q a g :=
  Triple.mono (Triple.frame hF hp) (fun _ _ _ h => h) fun _ _ _ => trivial

theorem assume {p : Db α} {q : Prop} (h : q → Spec n i P p Q) :
    Spec n i (fun g => q ∧ P g) p Q :=
  Triple.assume h

theorem ofExists {ι : Sort*} {P : ι → World → Prop} {p : Db α} (h : ∀ x, Spec n i (P x) p Q) :
    Spec n i (fun g => ∃ x, P x g) p Q := by
  rintro g hg ⟨x, hx⟩
  exact h x g hg hx

theorem tryCatch {p : Db α} {handler : Error → Db α} (hp : Spec n i P p Q)
    (hh : ∀ e, Spec n i (fun _ => True) (handler e) Q) : Spec n i P (p.tryCatch handler) Q :=
  Triple.tryCatch hp hh

end Spec

/-- The program keeps the assertion; where it raises nothing is said. -/
def Keeps (n i : Nat) (A : World → Prop) (p : Db α) : Prop := Spec n i A p fun _ => A

namespace Keeps

theorem pure (a : α) : Keeps n i A (Pure.pure a : Db α) := Spec.pure fun _ _ h => h

theorem raise (e : Error) : Keeps n i A (Prog.raise e : Db α) := Spec.raise e

theorem bind {p : Db α} {k : α → Db β} (hp : Keeps n i A p) (hk : ∀ a, Keeps n i A (k a)) :
    Keeps n i A (p >>= k) :=
  Spec.bind hp hk

theorem ite {c : Prop} [Decidable c] {p q : Db α} (hp : Keeps n i A p) (hq : Keeps n i A q) :
    Keeps n i A (if c then p else q) :=
  Spec.ite hp hq

theorem forEach {xs : List α} {body : α → Db Unit} (h : ∀ x ∈ xs, Keeps n i A (body x)) :
    Keeps n i A (Prog.forEach xs body) :=
  Triple.forEach h

theorem query (hA : Passive n i A) (f : World → α) : Keeps n i A (Backend.query f) := by
  refine Triple.atomic hA.stable fun ω g g' b hg h hf => ?_
  simp only [Option.some.injEq, Prod.mk.injEq] at hf
  exact hf.1 ▸ ⟨.stay g, h⟩

theorem input (hA : Passive n i A) (f : Input → α) : Keeps n i A (Backend.input f) := by
  refine Triple.atomic hA.stable fun ω g g' b hg h hf => ?_
  simp only [Option.some.injEq, Prod.mk.injEq] at hf
  exact hf.1 ▸ ⟨.stay g, h⟩

/-- One action that adds a silent entry. -/
theorem call (hA : Passive n i A) {f : Input → α} {e : α → Event}
    (he : ∀ a, (e a).Silent i) : Keeps n i A (Backend.call f e) := by
  refine Triple.atomic hA.stable fun ω g g' b hg h hf => ?_
  simp only [Option.some.injEq, Prod.mk.injEq] at hf
  exact hf.1 ▸ ⟨(he _).move g, hA.silent (he _) hg h⟩

theorem utcnow (hA : Passive n i A) : Keeps n i A (Backend.utcnow i) :=
  .call hA .clock

/-- One action that is a gentle statement. -/
theorem gentle (hA : Passive n i A) {f : Input → World → Option (World × α)}
    (h : ∀ ω g g' b, Inv n g → f ω g = some (g', b) → Gentle i g g') :
    Keeps n i A (Prog.atomic f : Db α) := by
  refine Triple.atomic hA.stable fun ω g g' b hg hP hf => ?_
  have hq := h ω g g' b hg hf
  exact ⟨.quiet hq.toQuiet, hA.quiet hg hq hP⟩

end Keeps

/-! ## statements on subscriptions -/

/-- The row keeps its key and its period. -/
def Subscription.SamePeriod (a b : Subscription) : Prop :=
  b.id = a.id ∧ b.currentPeriodEnd = a.currentPeriodEnd

/-- The row keeps its key, its period and what it waits for. -/
def Subscription.Kept (a b : Subscription) : Prop := a.SamePeriod b ∧ a.SameClaim b

theorem Subscription.Kept.trans {a b c : Subscription} (h₁ : a.Kept b) (h₂ : b.Kept c) :
    a.Kept c where
  left := ⟨h₂.1.1.trans h₁.1.1, h₂.1.2.trans h₁.1.2⟩
  right := {
    status := h₂.2.status.trans h₁.2.status
    monthly := h₂.2.monthly.trans h₁.2.monthly
    yearly := h₂.2.yearly.trans h₁.2.yearly
    link := h₂.2.link.trans h₁.2.link
    billingTerm := h₂.2.billingTerm.trans h₁.2.billingTerm
    credit := h₂.2.credit.trans h₁.2.credit
    sourceEnd := h₂.2.sourceEnd.trans h₁.2.sourceEnd }

/-- Writing one subscription is quiet if the row keeps its key and its period, and is a
later version or one of a subscription nobody else has seen. -/
theorem quiet_set {g : World} {sid : Nat} {row s : Subscription} (hg : Inv n g)
    (hv : g.subscriptions.get i sid = some row)
    (hfree : (g.subscriptions.cell sid).lockedByOther i = false) (hs : row.SamePeriod s)
    (hrow : row.Later s ∨
      (g.subscriptions.cell sid).committed = none ∧ s.Linked ∧ Draftless i g)
    (leases : Table IPLease) (users : Table User) :
    Quiet i g { g with
      subscriptions := g.subscriptions.set sid ((g.subscriptions.cell sid).write i s)
      leases := leases
      users := users } where
  payments := rfl
  credits := rfl
  history := rfl
  subs k := by
    by_cases e : k = sid
    · subst e
      simp only [Table.set_cell_self]
      have hv' : (g.subscriptions.cell k).view i = some row := hv
      refine .write hfree (hs.1.trans ((hg.subs k).view hv)) ?_ ?_
      · rw [hs.2, hv']
        rfl
      · rcases hrow with hlater | ⟨hnew, hlinked, -⟩
        · exact .inl ⟨row, hv', hlater⟩
        · exact .inr ⟨hnew, hlinked⟩
    · simpa [e] using Touch.same _
  next := Nat.le_refl _
  unused k hk := by
    have hlt : sid < g.subscriptions.next := by
      by_contra hge
      have hc := hg.unusedSubs sid (Nat.le_of_not_lt hge)
      simp [Table.get, hc, Cell.view] at hv
    have e : k ≠ sid := by
      have : g.subscriptions.next ≤ k := hk
      omega
    simp [e]
  later k a b ha hb := by
    by_cases e : k = sid
    · subst e
      obtain rfl : row = a := Option.some.inj (hv.symm.trans ha)
      obtain rfl : s = b := by simpa [Table.get, Cell.view, Cell.write] using hb
      rcases hrow with hlater | ⟨-, -, hdraft⟩
      · exact .inl hlater
      · exact .inr hdraft
    · have hab : g.subscriptions.get i k = some b := by simpa [Table.get, e] using hb
      exact .inl (Option.some.inj (ha.symm.trans hab) ▸ .refl a)

/-- It is gentle if the row waits for the same. -/
theorem gentle_set {g : World} {sid : Nat} {row s : Subscription} (hg : Inv n g)
    (hv : g.subscriptions.get i sid = some row)
    (hfree : (g.subscriptions.cell sid).lockedByOther i = false) (hs : row.SamePeriod s)
    (halike : row.Alike s) (leases : Table IPLease) (users : Table User) :
    Gentle i g { g with
      subscriptions := g.subscriptions.set sid ((g.subscriptions.cell sid).write i s)
      leases := leases
      users := users } where
  toQuiet := quiet_set hg hv hfree hs (.inl halike.1) leases users
  alike k b hb := by
    by_cases e : k = sid
    · subst e
      obtain rfl : s = b := by simpa [Table.get, Cell.view, Cell.write] using hb
      exact ⟨row, hv, halike⟩
    · exact ⟨b, by simpa [Table.get, e] using hb, .refl b⟩

/-- A statement on users and leases. -/
theorem gentle_same (g : World) (leases : Table IPLease) (users : Table User) :
    Gentle i g { g with leases := leases, users := users } where
  payments := rfl
  credits := rfl
  history := rfl
  subs _ := .same _
  next := Nat.le_refl _
  unused _ _ := rfl
  later _ a _ ha hb := .inl (Option.some.inj (ha.symm.trans hb) ▸ .refl a)
  alike _ b hb := ⟨b, hb, .refl b⟩

/-- A conditional update of a subscription. -/
theorem quiet_update {g : World} {sid : Nat} {p : Subscription → Bool}
    {f : Subscription → Subscription} {t : Table Subscription} {hit : Bool} (hg : Inv n g)
    (hf : ∀ row : Subscription, p row = true → row.SamePeriod (f row) ∧ row.Later (f row))
    (h : g.subscriptions.update i sid p f = some (t, hit)) :
    Quiet i g { g with subscriptions := t } := by
  rcases Table.update_cases h with ⟨-, rfl, -⟩ | ⟨-, row, hv, hp, hfree, rfl⟩
  · exact .refl i g
  · exact quiet_set hg hv hfree (hf row hp).1 (.inl (hf row hp).2) g.leases g.users

/-- One that begins and ends no wait. -/
theorem gentle_update {g : World} {sid : Nat} {p : Subscription → Bool}
    {f : Subscription → Subscription} {t : Table Subscription} {hit : Bool} (hg : Inv n g)
    (hf : ∀ row : Subscription, p row = true → row.SamePeriod (f row) ∧ row.Alike (f row))
    (h : g.subscriptions.update i sid p f = some (t, hit)) (leases : Table IPLease) :
    Gentle i g { g with subscriptions := t, leases := leases } := by
  rcases Table.update_cases h with ⟨-, rfl, -⟩ | ⟨-, row, hv, hp, hfree, rfl⟩
  · exact gentle_same g leases g.users
  · exact gentle_set hg hv hfree (hf row hp).1 (hf row hp).2 leases g.users

/-- A conditional update that may end a wait. -/
theorem amend_spec {B : World → Prop} {id : Nat} {p : World → Subscription → Bool}
    {f : Subscription → Subscription} (hA : (discipline n).Stable i A)
    (hAB : ∀ {g g'}, Inv n g → Quiet i g g' → A g → B g')
    (hf : ∀ g row, p g row = true → row.SamePeriod (f row) ∧ row.Later (f row)) :
    Spec n i A (updateSubscription i id p f) fun _ => B := by
  refine Triple.atomic hA fun ω g g' b hg hP h => ?_
  simp only [Option.map_eq_some_iff, Prod.mk.injEq] at h
  obtain ⟨⟨t, hit⟩, hupd, rfl, -⟩ := h
  have hq := quiet_update hg (hf g) hupd
  exact ⟨.quiet hq, hAB hg hq hP⟩

/-- In an idle session. -/
theorem amend_idle {id : Nat} {p : World → Subscription → Bool} {f : Subscription → Subscription}
    (hf : ∀ g row, p g row = true → row.SamePeriod (f row) ∧ row.Later (f row)) :
    Spec n i (Idle i) (updateSubscription i id p f) fun _ => Sober i :=
  amend_spec Idle.stable (fun _ hq h => h.sober.quiet hq) hf

theorem flush_samePeriod {loaded assigned : Subscription}
    (h : assigned.currentPeriodEnd = loaded.currentPeriodEnd) (row : Subscription) :
    row.SamePeriod (Subscription.flush loaded assigned row) :=
  ⟨rfl, by simp [Subscription.flush, flushed, h]⟩

/-- What was not assigned stays as it is in the row. -/
theorem Subscription.Kept.flush {loaded assigned : Subscription} (h : loaded.Kept assigned)
    (row : Subscription) : row.Kept (Subscription.flush loaded assigned row) := by
  refine ⟨flush_samePeriod h.1.2 row, ?_, rfl, rfl, ?_, ?_, ?_, ?_⟩
  · simp [Subscription.flush, flushed, h.2.status]
  · simp [Subscription.flush, flushed, h.2.link]
  · simp [Subscription.flush, flushed, h.2.billingTerm]
  · simp [Subscription.flush, flushed, h.2.credit]
  · simp [Subscription.flush, flushed, h.2.sourceEnd]

namespace Keeps

theorem updateSubscription (hA : Passive n i A) {id : Nat} {p : World → Subscription → Bool}
    {f : Subscription → Subscription}
    (hf : ∀ g row, p g row = true → row.SamePeriod (f row) ∧ row.Alike (f row)) :
    Keeps n i A (Backend.updateSubscription i id p f) := by
  refine Keeps.gentle hA fun ω g g' b hg h => ?_
  simp only [Option.map_eq_some_iff, Prod.mk.injEq] at h
  obtain ⟨⟨t, hit⟩, hupd, rfl, -⟩ := h
  exact gentle_update hg (hf g) hupd g.leases

/-- A conditional update that keeps what the row waits for. -/
theorem keepSubscription (hA : Passive n i A) {id : Nat} {p : World → Subscription → Bool}
    {f : Subscription → Subscription} (hf : ∀ row : Subscription, row.Kept (f row)) :
    Keeps n i A (Backend.updateSubscription i id p f) :=
  .updateSubscription hA fun _ row _ => ⟨(hf row).1, (hf row).2.alike⟩

theorem getSubscription (hA : Passive n i A) (id : Nat) :
    Keeps n i A (Backend.getSubscription i id) :=
  .query hA _

theorem selectSubscriptions (hA : Passive n i A) (p : Subscription → Bool) :
    Keeps n i A (Backend.selectSubscriptions i p) :=
  .query hA _

theorem openPayments (hA : Passive n i A) (id : Nat) :
    Keeps n i A (Backend.openPayments i id) :=
  .query hA _

theorem getUser (hA : Passive n i A) (id : Nat) : Keeps n i A (Backend.getUser i id) :=
  .query hA _

theorem lockUser (hA : Passive n i A) (id : Nat) : Keeps n i A (Backend.lockUser i id) := by
  refine Keeps.bind (Keeps.gentle hA fun ω g g' b hg h => ?_) fun o => ?_
  · simp only [Option.map_eq_some_iff, Prod.mk.injEq] at h
    obtain ⟨⟨t, row⟩, -, rfl, -⟩ := h
    exact gentle_same g g.leases t
  · cases o with
    | none => exact .raise _
    | some user => exact .pure _

theorem lockSubscription (hA : Passive n i A) (id : Nat) :
    Keeps n i A (Backend.lockSubscription i id) := by
  refine Keeps.gentle hA fun ω g g' b hg h => ?_
  simp only [Option.map_eq_some_iff, Prod.mk.injEq] at h
  obtain ⟨⟨t, row⟩, hlock, rfl, -⟩ := h
  rcases Table.lock_cases hlock with ⟨-, rfl, -⟩ | ⟨row, -, hv, hfree, rfl⟩
  · exact gentle_same g g.leases g.users
  · exact gentle_set hg hv hfree ⟨rfl, rfl⟩ (.refl row) g.leases g.users

theorem flushSubscription (hA : Passive n i A) {loaded assigned : Subscription}
    (h : loaded.Kept assigned) : Keeps n i A (Backend.flushSubscription i loaded assigned) :=
  .bind (.keepSubscription hA h.flush) fun _ => .pure _

theorem queueNotification (hA : Passive n i A) : Keeps n i A Backend.queueNotification := by
  refine Keeps.bind (Keeps.input hA _) fun notified => ?_
  split
  · exact .pure _
  · exact .raise _

end Keeps

/-! ## transactions -/

theorem commit_spec (hA : Passive n i A) (h : ∀ g, Inv n g → A g → CommitOk i g) :
    Spec n i A (commit i) fun _ => Idle i := by
  refine Triple.atomic hA.stable fun ω g g' b hg hP hf => ?_
  simp only [Option.some.injEq, Prod.mk.injEq] at hf
  exact hf.1 ▸ ⟨.commit (h g hg hP), idle_commit g⟩

theorem commit_sober : Spec n i (Sober i) (commit i) fun _ => Idle i :=
  commit_spec Sober.passive fun _ _ h => h.commitOk

theorem commit_idle : Spec n i (Idle i) (commit i) fun _ => Idle i :=
  commit_sober.pre fun _ _ h => h.sober

theorem rollback_spec : Spec n i (fun _ => True) (rollback i) fun _ => Idle i := by
  refine Triple.atomic .true fun ω g g' b hg _ hf => ?_
  simp only [Option.some.injEq, Prod.mk.injEq] at hf
  exact hf.1 ▸ ⟨.rollback, idle_rollback g⟩

/-- Whatever holds before, a rollback leaves the session idle. -/
theorem rollback_idle : Spec n i A (rollback i) fun _ => Idle i :=
  rollback_spec.pre fun _ _ _ => trivial

/-! ## loads -/

/-- `_reload_payment` in an idle session. -/
theorem reloadPayment_spec (pid : Nat) :
    Spec n i (Idle i) (reloadPayment i pid) fun p g => Idle i g ∧ Seen pid p g := by
  refine Spec.bind (Q := fun o g => Idle i g ∧ ∀ p, o = some p → Seen pid p g) ?_ fun o => ?_
  · refine Triple.atomic Idle.stable fun ω g g' b hg h hf => ?_
    simp only [Option.some.injEq, Prod.mk.injEq] at hf
    obtain ⟨rfl, rfl⟩ := hf
    exact ⟨.stay g, h, fun p hp => h.seen hg hp⟩
  · cases o with
    | none => exact .raise _
    | some p => exact .pure fun g _ h => ⟨h.1, h.2 p rfl⟩

/-- Session `i` has the row of `p`, as `p`. -/
def Holds (i : Nat) (p : Payment) (g : World) : Prop :=
  (g.payments.cell p.id).pending = some (i, p)

theorem Holds.passive (p : Payment) : Passive n i (Holds i p) where
  stable := by
    intro j g g' hj hg hmove h
    unfold Holds
    rw [held_payment hj hg hmove p.id p (.inl h)]
    exact h
  quiet _ hq h := by
    unfold Holds
    rw [hq.payments]
    exact h
  silent _ _ h := h

/-- Locking a row leaves an idle session idle. -/
theorem Idle.lock {g : World} (h : Idle i g) {pid : Nat} {row : Payment}
    (hv : g.payments.get i pid = some row) :
    Idle i { g with payments := g.payments.set pid ((g.payments.cell pid).write i row) } := by
  refine ⟨fun q r _ hr => ?_, h.steady, h.tame⟩
  by_cases e : q = pid
  · subst e
    simp only [Table.set_cell_self, Cell.write_pending, Option.some.injEq, Prod.mk.injEq,
      true_and] at hr
    subst hr
    simpa using h.view hv
  · simp only [Table.set_cell_of_ne _ _ e] at hr ⊢
    exact h.calm q r (by simp) hr

/-- `_lock_payment` in an idle session. -/
theorem lockPayment_spec (pid : Nat) :
    Spec n i (Idle i) (lockPayment i pid) fun p g => Idle i g ∧ Holds i p g ∧ Seen pid p g := by
  refine Spec.bind
    (Q := fun o g => Idle i g ∧ ∀ p, o = some p → Holds i p g ∧ Seen pid p g) ?_ fun o => ?_
  · refine Triple.atomic Idle.stable fun ω g g' b hg h hf => ?_
    simp only [Option.map_eq_some_iff, Prod.mk.injEq] at hf
    obtain ⟨⟨t, row⟩, hlock, rfl, rfl⟩ := hf
    rcases Table.lock_cases hlock with ⟨rfl, rfl, -⟩ | ⟨row, rfl, hv, hfree, rfl⟩
    · exact ⟨.stay g, h, by simp⟩
    · refine ⟨.lock hv hfree, h.lock hv, ?_⟩
      rintro p hp
      obtain rfl := Option.some.inj hp
      have hseen := h.seen hg hv
      refine ⟨?_, ?_⟩
      · simp [Holds, hseen.1]
      · obtain ⟨hid, hok, c, hc, hcalm⟩ := hseen
        exact ⟨hid, hok, c, by simpa using hc, hcalm⟩
  · cases o with
    | none => exact .raise _
    | some p => exact .pure fun g _ h => ⟨h.1, (h.2 p rfl).1, (h.2 p rfl).2⟩

/-! ## `UPDATE payment` -/

/-- The database after a statement hit. -/
def World.executed (i pid : Nat) (s : PaymentUpdate) (row : Payment) (g : World) : World :=
  ({ g with payments := g.payments.set pid ((g.payments.cell pid).write i (s.set row)) } :
    World).note (.executed i pid s row)

theorem execute_spec {pid : Nat} {s : PaymentUpdate} {Q : Bool → World → Prop}
    (hP : (discipline n).Stable i P)
    (hit : ∀ g row, Inv n g → P g → g.payments.get i pid = some row →
      (g.payments.cell pid).lockedByOther i = false → s.selects row = true →
      ExecOk n i pid g.history (g.payments.cell pid) row s ∧ Q true (g.executed i pid s row))
    (miss : ∀ g, Inv n g → P g →
      (∀ row, g.payments.get i pid = some row → s.selects row = false) → Q false g) :
    Spec n i P (execute i pid s) Q := by
  refine Triple.atomic hP fun ω g g' b hg h hf => ?_
  cases hupd : g.payments.update i pid s.selects s.set with
  | none =>
      rw [hupd] at hf
      cases hv : g.payments.get i pid <;> simp [hv] at hf
  | some result =>
      obtain ⟨t, hitted⟩ := result
      rw [hupd] at hf
      rcases Table.update_cases hupd with ⟨rfl, rfl, hno⟩ | ⟨rfl, row, hv, hsel, hfree, rfl⟩
      · have hf' : some (g, false) = some (g', b) := by
          cases hv : g.payments.get i pid <;> simpa [hv] using hf
        simp only [Option.some.injEq, Prod.mk.injEq] at hf'
        obtain ⟨rfl, rfl⟩ := hf'
        exact ⟨.stay g, miss g hg h hno⟩
      · simp only [hv, Option.some.injEq, Prod.mk.injEq] at hf
        obtain ⟨rfl, rfl⟩ := hf
        obtain ⟨hok, hQ⟩ := hit g row hg h hv hfree hsel
        exact ⟨.execute hv hfree hsel hok, hQ⟩

/-- Session `i` has executed the statement on the committed row and nothing
else. -/
structure Wrote (i pid : Nat) (s : PaymentUpdate) (g : World) : Prop where
  sober : Sober i g
  row : ∃ c row, g.payments.cell pid = ⟨some c, some (i, s.set row)⟩ ∧ s.selects row = true ∧
    Calm g.history c row ∧ Recorded (.executed i pid s row) g

theorem Wrote.passive {pid : Nat} {s : PaymentUpdate} : Passive n i (Wrote i pid s) where
  stable := by
    intro j g g' hj hg hmove h
    obtain ⟨c, row, hcell, hsel, hcalm, hrec⟩ := h.row
    obtain ⟨l, hl, -⟩ := Move.history hmove
    have hsame := held_payment hj hg hmove pid (s.set row) (.inl (by simp [hcell]))
    exact ⟨Sober.stable hj hg hmove h.sober, c, row, hsame ▸ hcell, hsel, hl ▸ hcalm.append l,
      Recorded.durable _ hg hmove hrec⟩
  quiet hg hq h := by
    obtain ⟨c, row, hcell, hsel, hcalm, hrec⟩ := h.row
    refine ⟨Sober.passive.quiet hg hq h.sober, c, row, hq.payments ▸ hcell, hsel,
      hq.history ▸ hcalm, ?_⟩
    unfold Recorded
    rw [hq.history]
    exact hrec
  silent he hg h := by
    obtain ⟨c, row, hcell, hsel, hcalm, hrec⟩ := h.row
    exact ⟨Sober.passive.silent he hg h.sober, c, row, hcell, hsel, hcalm.cons _,
      List.mem_cons_of_mem _ hrec⟩

/-- An idle session after a statement that settles nothing. -/
theorem Idle.executed {g : World} (h : Idle i g) {pid : Nat} {s : PaymentUpdate} {row : Payment}
    (hv : g.payments.get i pid = some row) (hsel : s.selects row = true)
    (hs : ∀ paidAt v, s ≠ .settle paidAt v) : Wrote i pid s (g.executed i pid s row) := by
  obtain ⟨c, hc, hcalm⟩ := h.view hv
  refine ⟨⟨fun q r he => ?_, h.steady, fun q r hr hnew => ?_⟩, c, row, ?_, hsel, hcalm.cons _,
    List.mem_cons_self⟩
  · by_cases e : q = pid
    · subst e
      have hp := he.pending
      simp only [World.executed, World.note, Table.set_cell_self, Cell.write_pending,
        Option.some.injEq, Prod.mk.injEq, true_and] at hp
      have hpaid := PaymentUpdate.set_paid hs (hp ▸ he.paid)
      refine he.unpaid c (by simpa [World.executed, World.note] using hc) ?_
      rw [← hcalm.status]
      exact hpaid
    · refine h.sober.unpaid q r ⟨?_, he.paid, ?_⟩
      · simpa [World.executed, World.note, e] using he.pending
      · simpa [World.executed, World.note, e] using he.unpaid
  · by_cases e : q = pid
    · subst e
      simp [World.executed, World.note, hc] at hnew
    · refine h.sober.owed q r ?_ ?_
      · simpa [World.executed, World.note, e] using hr
      · simpa [World.executed, World.note, e] using hnew
  · simp [World.executed, World.note, Cell.write, hc]

/-- What a statement leaves that hit, or that did not. -/
def Hit (i pid : Nat) (s : PaymentUpdate) : Bool → World → Prop
  | true, g => Wrote i pid s g
  | false, g => Idle i g ∧ ∀ row, g.payments.get i pid = some row → s.selects row = false

/-- A statement in an idle session. -/
theorem execute_idle {pid : Nat} {s : PaymentUpdate} (hF : (discipline n).Durable F)
    (hs : ∀ paidAt v, s ≠ .settle paidAt v)
    (hok : ∀ g row, Inv n g → F g → Seen pid row g → s.selects row = true →
      StatementOk n i pid g.history row s) :
    Spec n i (fun g => F g ∧ Idle i g) (execute i pid s) fun hit g => F g ∧ Hit i pid s hit g := by
  refine execute_spec (hF.stable.and Idle.stable) ?_ ?_
  · rintro g row hg ⟨hf, hidle⟩ hv hfree hsel
    obtain ⟨c, hc, hcalm⟩ := hidle.view hv
    have hexec : ExecOk n i pid g.history (g.payments.cell pid) row s := by
      simp only [ExecOk, hc]
      exact ⟨hcalm, hok g row hg hf (hidle.seen hg hv) hsel⟩
    exact ⟨hexec, hF hg (.execute hv hfree hsel hexec) hf, hidle.executed hv hsel hs⟩
  · rintro g hg ⟨hf, hidle⟩ hno
    exact ⟨hf, hidle, hno⟩

/-- A commit publishes what the statement wrote. -/
theorem commit_wrote {pid : Nat} {s : PaymentUpdate} :
    Spec n i (Wrote i pid s) (commit i) fun _ g =>
      Idle i g ∧ ∃ row, s.selects row = true ∧ row.id = pid ∧ Known (s.set row) g := by
  refine Triple.atomic Wrote.passive.stable fun ω g g' b hg h hf => ?_
  simp only [Option.some.injEq, Prod.mk.injEq] at hf
  obtain ⟨rfl, -⟩ := hf
  have hmove : Move n i g (g.commit i) := .commit h.sober.commitOk
  refine ⟨hmove, idle_commit g, ?_⟩
  obtain ⟨c, row, hcell, hsel, hcalm, -⟩ := h.row
  have hid : (s.set row).id = pid := (hg.cells pid).pending_id i _ (by simp [hcell])
  refine ⟨row, hsel, by simpa using hid, ?_, s.set row, ?_, .refl _⟩
  · have := ((hg.move hmove).cells pid).committed_ok (s.set row)
    exact this (by simp [World.commit, Table.commit, hcell])
  · rw [hid]
    simp [World.commit, Table.commit, hcell]

/-- The reload after a transaction, with what is known by then. -/
theorem reload_frame {pid : Nat} (hF : (discipline n).Durable F) :
    Spec n i (fun g => F g ∧ Idle i g) (reloadPayment i pid) fun p g =>
      F g ∧ Idle i g ∧ Seen pid p g :=
  (reloadPayment_spec pid).frame hF

/-- A conditional statement, what goes with it, and the reload: `R` is what
follows both from a hit and from a miss. -/
theorem conditional_spec {pid : Nat} {s : PaymentUpdate} {b : Db Unit} {R : World → Prop}
    (hF : (discipline n).Durable F) (hR : (discipline n).Durable R)
    (hs : ∀ paidAt v, s ≠ .settle paidAt v)
    (hok : ∀ g row, Inv n g → F g → Seen pid row g → s.selects row = true →
      StatementOk n i pid g.history row s)
    (hhit : ∀ g row, Inv n g → F g → s.selects row = true → row.id = pid →
      Known (s.set row) g → R g)
    (hmiss : ∀ g, Inv n g → F g → Hit i pid s false g → R g)
    (hbody : ∀ {A : World → Prop}, Passive n i A → Keeps n i A b) :
    Spec n i (fun g => F g ∧ Idle i g)
      (do
        if ← execute i pid s then
          b
          commit i
          reloadPayment i pid
        else
          rollback i
          reloadPayment i pid)
      fun p g => R g ∧ Idle i g ∧ Seen pid p g := by
  refine Spec.bind (execute_idle hF hs hok) fun hit => ?_
  cases hit with
  | true =>
      simp only [if_true]
      refine Spec.bind ((hbody Wrote.passive).frame hF) fun _ => ?_
      refine Spec.bind (commit_wrote.frame hF) fun _ => (reload_frame hR).pre ?_
      rintro g hg ⟨hf, hidle, row, hsel, hid, hknown⟩
      exact ⟨hhit g row hg hf hsel hid hknown, hidle⟩
  | false =>
      simp only [Bool.false_eq_true, if_false]
      refine Spec.pre (P := R) ?_ fun g hg h => hmiss g hg h.1 h.2
      refine Spec.bind (Q := fun _ g => R g ∧ Idle i g) ?_ fun _ => reload_frame hR
      exact (rollback_spec.frame hR).pre fun g _ h => ⟨h, trivial⟩

end Backend
