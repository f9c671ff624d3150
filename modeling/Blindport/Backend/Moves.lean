import Blindport.Backend.Ledger
import Blindport.Backend.Quotes

/-!
# Blindport.Backend.Moves

What a session may do to the database, and the invariant all of that keeps.

`Move` has one constructor for each kind of action of the services; what a
session has to know before it takes one is in its premises.  A commit in which
a payment becomes PAID has to carry the new period of its subscription, and no
other commit may move a period (`CommitOk`).  `Inv` is preserved by every move
(`Inv.move`), and `Foreign` is what a move looks like to the other sessions.
-/

namespace Backend

open Conc

/-! ## subscriptions -/

/-- The period end of a row, if there is one. -/
def periodEnd (o : Option Subscription) : Option Datetime := o.bind (·.currentPeriodEnd)

/-- The row is a later version of what session `i` sees, or one of a subscription that
nobody else has seen. -/
def Succeeds (i : Nat) (c : Cell Subscription) (r : Subscription) : Prop :=
  (∃ s, c.view i = some s ∧ s.Later r) ∨ c.committed = none ∧ r.Linked

/-- Session `i` leaves the row of a subscription or writes it, keeping the
period. -/
inductive Touch (i sid : Nat) : Cell Subscription → Cell Subscription → Prop where
  | same (c : Cell Subscription) : Touch i sid c c
  | write {c : Cell Subscription} {r : Subscription} (hfree : c.lockedByOther i = false)
      (hid : r.id = sid) (hend : r.currentPeriodEnd = periodEnd (c.view i))
      (hrow : Succeeds i c r) : Touch i sid c (c.write i r)

/-- The rows of a subscription carry its key, and what a session has of it is later than
what is committed. -/
structure SubOk (sid : Nat) (c : Cell Subscription) : Prop where
  committed_id : ∀ s, c.committed = some s → s.id = sid
  pending_id : ∀ j s, c.pending = some (j, s) → s.id = sid
  ordered : c.Ordered Subscription.Later

theorem SubOk.view {sid i : Nat} {c : Cell Subscription} (hc : SubOk sid c) {s : Subscription}
    (hv : c.view i = some s) : s.id = sid := by
  unfold Cell.view at hv
  split at hv
  · rename_i t r hp
    split at hv
    · exact Option.some.inj hv ▸ hc.pending_id t r hp
    · exact hc.committed_id s hv
  · exact hc.committed_id s hv

/-- A session sees nothing older than what is committed. -/
theorem SubOk.later_view {sid i : Nat} {c : Cell Subscription} (hc : SubOk sid c)
    {a s : Subscription} (ha : c.committed = some a) (hv : c.view i = some s) : a.Later s := by
  have hle := hc.ordered.le_view Subscription.Later.refl i
  rw [ha, hv] at hle
  exact hle

theorem SubOk.write {sid i : Nat} {c : Cell Subscription} {r : Subscription} (hc : SubOk sid c)
    (hid : r.id = sid) (hrow : Succeeds i c r) : SubOk sid (c.write i r) := by
  refine ⟨hc.committed_id, fun j s hs => ?_, fun j s hs => ?_⟩
  · simp only [Cell.write, Option.some.injEq, Prod.mk.injEq] at hs
    exact hs.2 ▸ hid
  · simp only [Cell.write, Option.some.injEq, Prod.mk.injEq] at hs
    obtain ⟨-, rfl⟩ := hs
    rw [Cell.write_committed]
    cases hcom : c.committed with
    | none => trivial
    | some a =>
        rcases hrow with ⟨s, hv, hlater⟩ | ⟨hnone, -⟩
        · exact (hc.later_view hcom hv).trans hlater
        · rw [hcom] at hnone
          contradiction

theorem SubOk.touch {sid i : Nat} {c c' : Cell Subscription} (hc : SubOk sid c)
    (h : Touch i sid c c') : SubOk sid c' := by
  cases h with
  | same => exact hc
  | write hfree hid hend hrow => exact hc.write hid hrow

theorem SubOk.commit {sid i : Nat} {c : Cell Subscription} (hc : SubOk sid c) :
    SubOk sid (c.commit i) := by
  unfold Cell.commit
  split
  · rename_i t r hp
    split
    · refine ⟨fun s hs => ?_, fun j s hs => by simp at hs, fun j s hs => by simp at hs⟩
      exact Option.some.inj hs ▸ hc.pending_id t r hp
    · exact hc
  · exact hc

theorem SubOk.rollback {sid i : Nat} {c : Cell Subscription} (hc : SubOk sid c) :
    SubOk sid (c.rollback i) := by
  unfold Cell.rollback
  split
  · split
    · exact ⟨hc.committed_id, fun j s hs => by simp at hs, fun j s hs => by simp at hs⟩
    · exact hc
  · exact hc

/-! ## open payments and credits -/

/-- The cell has, or may come to have, an open payment of the subscription. -/
def Live (sid : Nat) (c : Cell Payment) : Prop :=
  (∃ p, c.committed = some p ∧ p.subscriptionId = sid ∧ p.status.isOpen) ∨
    ∃ j r, c.pending = some (j, r) ∧ r.subscriptionId = sid ∧
      (r.status.isOpen ∨ c.committed = none)

/-- A referral credit belongs to a paid payment. -/
def CreditOk (credit : Cell ReferralCredit) (c : Cell Payment) : Prop :=
  (credit.committed.isSome → ∃ p, c.committed = some p ∧ p.status = .paid) ∧
    ∀ j r, credit.pending = some (j, r) → ∃ p, c.view j = some p ∧ p.status = .paid

/-! ## settlement -/

/-- The entry `e`, and what was recorded before it. -/
def Since (e : Event) (P : List Event → Prop) (h : List Event) : Prop :=
  ∃ h₁ h₂, h = h₁ ++ e :: h₂ ∧ P h₂

theorem Since.append {e : Event} {P : List Event → Prop} {h : List Event} (hs : Since e P h)
    (l : List Event) : Since e P (l ++ h) := by
  obtain ⟨h₁, h₂, rfl, hP⟩ := hs
  exact ⟨l ++ h₁, h₂, by simp, hP⟩

theorem Since.head {e : Event} {P : List Event → Prop} {h : List Event} (hP : P h) :
    Since e P (e :: h) :=
  ⟨[], h, rfl, hP⟩

/-- The end of the period a payment grants on the subscription `sub` at `now`:
a renewal goes on from the running period, an activation starts now. -/
def Payment.grantedEnd (payment : Payment) (sub : Subscription) (now : Datetime) : Datetime :=
  (if payment.isRenewal sub then sub.renewalBase now else now) + days payment.periodDays

/-- In session `i` the payment has become PAID and not been published. -/
structure Earns (i pid : Nat) (g : World) (r : Payment) : Prop where
  pending : (g.payments.cell pid).pending = some (i, r)
  paid : r.status = .paid
  unpaid : ∀ p, (g.payments.cell pid).committed = some p → p.status ≠ .paid

/-- Session `i` settled the payment, as `r`. -/
def SettledIn (i pid : Nat) (r : Payment) (h : List Event) : Prop :=
  ∃ paidAt verifiedAt row, .executed i pid (.settle paidAt verifiedAt) row ∈ h ∧
    r = (PaymentUpdate.settle paidAt verifiedAt).set row

/-- Session `i` settled the payment as `r`, then loaded the subscription, then
read the clock. -/
def Granted (i pid : Nat) (r : Payment) (loaded : Subscription) (now : Datetime)
    (h : List Event) : Prop :=
  Since (.clock i now) (Since (.settling i pid loaded) (SettledIn i pid r)) h

/-- Session `i` carries the period that the payment `r` grants. -/
def Extends (i pid : Nat) (r : Payment) (g : World) : Prop :=
  ∃ loaded now s, Granted i pid r loaded now g.history ∧
    (g.subscriptions.cell r.subscriptionId).pending = some (i, s) ∧
    loaded.currentPeriodEnd = periodEnd (g.subscriptions.cell r.subscriptionId).committed ∧
    s.currentPeriodEnd = some (r.grantedEnd loaded now)

/-- Every load of a subscription to settle the payment found one with `P`, as long as the
payment is not published. -/
def LoadedOnly (pid : Nat) (P : Subscription → Prop) (g : World) : Prop :=
  (g.payments.cell pid).committed = none → ∀ j sub, .settling j pid sub ∈ g.history → P sub

/-- What session `i` may commit: every payment that becomes PAID with its
period, no other period, and a new payment of nothing only when it was settled on an
upgrade that waited for it. -/
structure CommitOk (i : Nat) (g : World) : Prop where
  granted : ∀ pid r, Earns i pid g r → Extends i pid r g
  earned : ∀ sid s, (g.subscriptions.cell sid).pending = some (i, s) →
    s.currentPeriodEnd ≠ periodEnd (g.subscriptions.cell sid).committed →
    ∃ pid r, Earns i pid g r ∧ r.subscriptionId = sid
  atOnce : ∀ pid r, (g.payments.cell pid).pending = some (i, r) →
    (g.payments.cell pid).committed = none → r.amountSats = 0 →
    r.status = .paid ∧ r.snapshotError = none ∧
      LoadedOnly pid (fun sub => sub.upgradeInitial = true) g

/-! ## moves -/

/-- Session `i` has inserted no payment that is not published. -/
def Draftless (i : Nat) (g : World) : Prop :=
  ∀ pid r, (g.payments.cell pid).pending = some (i, r) → (g.payments.cell pid).committed ≠ none

/-- A statement of session `i` on users, leases and subscriptions that moves no
period. -/
structure Quiet (i : Nat) (g g' : World) : Prop where
  payments : g'.payments = g.payments
  credits : g'.credits = g.credits
  history : g'.history = g.history
  subs : ∀ sid, Touch i sid (g.subscriptions.cell sid) (g'.subscriptions.cell sid)
  next : g.subscriptions.next ≤ g'.subscriptions.next
  unused : ∀ sid, g'.subscriptions.next ≤ sid →
    g'.subscriptions.cell sid = g.subscriptions.cell sid
  later : ∀ sid s s', g.subscriptions.get i sid = some s → g'.subscriptions.get i sid = some s' →
    s.Later s' ∨ Draftless i g

/-- A quiet statement that begins and ends no wait for an upgrade. -/
structure Gentle (i : Nat) (g g' : World) : Prop extends Quiet i g g' where
  alike : ∀ sid s', g'.subscriptions.get i sid = some s' →
    ∃ s, g.subscriptions.get i sid = some s ∧ s.Alike s'

/-- What session `i` has to know of a payment before it inserts it: the columns are quoted,
and for the upgrade the subscription waits for. -/
def Drawn (i : Nat) (g : World) (r : Payment) : Prop :=
  r.Quoted ∧ ∃ s, g.subscriptions.get i r.subscriptionId = some s ∧ r.Matches s

/-- What session `i` may do. -/
inductive Move (n i : Nat) : World → World → Prop where
  | quiet {g g' : World} (h : Quiet i g g') : Move n i g g'
  /-- An adapter call or a clock reading. -/
  | note {g : World} {e : Event} (ht : e.thread = i) (he : ∀ pid, e.Skips pid)
      (hok : EventOk n g.history e)
      (hload : ∀ pid sub, e = .settling i pid sub → ∃ r, Earns i pid g r ∧
        g.subscriptions.get i r.subscriptionId = some sub) : Move n i g (g.note e)
  /-- `SELECT … FOR UPDATE` of a payment. -/
  | lock {g : World} {pid : Nat} {row : Payment} (hv : g.payments.get i pid = some row)
      (hfree : (g.payments.cell pid).lockedByOther i = false) :
      Move n i g { g with payments := g.payments.set pid ((g.payments.cell pid).write i row) }
  /-- `UPDATE payment`. -/
  | execute {g : World} {pid : Nat} {row : Payment} {s : PaymentUpdate}
      (hv : g.payments.get i pid = some row)
      (hfree : (g.payments.cell pid).lockedByOther i = false) (hsel : s.selects row = true)
      (hok : ExecOk n i pid g.history (g.payments.cell pid) row s) :
      Move n i g (({ g with
        payments := g.payments.set pid ((g.payments.cell pid).write i (s.set row)) } : World).note
          (.executed i pid s row))
  /-- `INSERT INTO payment`. -/
  | insert {g : World} {row : Nat → Payment} (hid : (row g.payments.next).id = g.payments.next)
      (hfresh : (row g.payments.next).Fresh) (hs : (row g.payments.next).status = .pending)
      (hlive : ∀ pid, ¬ Live (row g.payments.next).subscriptionId (g.payments.cell pid))
      (hdrawn : Drawn i g (row g.payments.next)) :
      Move n i g { g with payments := g.payments.insert i row }
  /-- The flush of the subscription of a settled payment. -/
  | extend {g : World} {sid pid : Nat} {row s : Subscription}
      (hfree : (g.subscriptions.cell sid).lockedByOther i = false) (hid : s.id = sid)
      (hlt : sid < g.subscriptions.next) (hv : g.subscriptions.get i sid = some row)
      (hlater : row.Later s) :
      Move n i g (({ g with
        subscriptions := g.subscriptions.set sid ((g.subscriptions.cell sid).write i s) } :
          World).note (.extending i pid row))
  /-- `INSERT INTO referral_credit`. -/
  | credit {g : World} {pid : Nat} {p : Payment} {credit : ReferralCredit}
      (hfree : (g.credits.cell pid).lockedByOther i = false)
      (hv : g.payments.get i pid = some p) (hpaid : p.status = .paid) :
      Move n i g { g with
        credits := g.credits.set pid ((g.credits.cell pid).write i credit) }
  | commit {g : World} (hok : CommitOk i g) : Move n i g (g.commit i)
  | rollback {g : World} : Move n i g (g.rollback i)

/-- The invariant of the database. -/
structure Inv (n : Nat) (g : World) : Prop where
  cells : ∀ pid, CellOk n g.history pid (g.payments.cell pid)
  unused : ∀ pid, g.payments.next ≤ pid → g.payments.cell pid = ⟨none, none⟩
  wf : WellFormed n g.history
  live : ∀ sid p q, Live sid (g.payments.cell p) → Live sid (g.payments.cell q) → p = q
  credits : ∀ pid, CreditOk (g.credits.cell pid) (g.payments.cell pid)
  subs : ∀ sid, SubOk sid (g.subscriptions.cell sid)
  settled : ∀ j pid sub, .settling j pid sub ∈ g.history → pid < g.payments.next
  unusedSubs : ∀ sid, g.subscriptions.next ≤ sid → g.subscriptions.cell sid = ⟨none, none⟩

theorem Quiet.refl (i : Nat) (g : World) : Quiet i g g :=
  ⟨rfl, rfl, rfl, fun _ => .same _, Nat.le_refl _, fun _ _ => rfl, fun _ s _ hs hs' =>
    .inl (Option.some.inj (hs.symm.trans hs') ▸ .refl s)⟩

theorem Move.stay {n i : Nat} (g : World) : Move n i g g := .quiet (.refl i g)

/-! ## one payment at a time -/

section cells

variable {n i : Nat} {g : World}

theorem Inv.lt_next (hg : Inv n g) {pid : Nat} {row : Payment}
    (hv : g.payments.get i pid = some row) : pid < g.payments.next := by
  by_contra hge
  have hc := hg.unused pid (Nat.le_of_not_lt hge)
  simp [Table.get, hc, Cell.view] at hv

/-- One payment cell changes, and the record. -/
theorem Inv.setPayment (hg : Inv n g) {pid : Nat} {c : Cell Payment} {h : List Event}
    (hlt : pid < g.payments.next)
    (hrec : ∀ q c, CellOk n g.history q c → CellOk n h q c) (hwf : WellFormed n h)
    (hc : CellOk n h pid c) (hlive : ∀ sid, Live sid c → Live sid (g.payments.cell pid))
    (hcredit : ∀ k, CreditOk k (g.payments.cell pid) → CreditOk k c)
    (hloads : ∀ j q sub, .settling j q sub ∈ h → .settling j q sub ∈ g.history) :
    Inv n { g with payments := g.payments.set pid c, history := h } where
  cells q := by
    by_cases e : q = pid
    · subst e
      simpa using hc
    · simpa [e] using hrec q _ (hg.cells q)
  unused q hq := by
    have e : q ≠ pid := by
      simp only [Table.set_next] at hq
      omega
    simpa [e] using hg.unused q hq
  wf := hwf
  live sid p q hp hq := by
    have back : ∀ k, Live sid ((g.payments.set pid c).cell k) → Live sid (g.payments.cell k) := by
      intro k hk
      by_cases e : k = pid
      · subst e
        exact hlive sid (by simpa using hk)
      · simpa [e] using hk
    exact hg.live sid p q (back p hp) (back q hq)
  credits q := by
    by_cases e : q = pid
    · subst e
      simpa using hcredit _ (hg.credits q)
    · simpa [e] using hg.credits q
  subs := hg.subs
  settled j q sub hmem := hg.settled j q sub (hloads j q sub hmem)
  unusedSubs := hg.unusedSubs

/-- A row that keeps the subscription and is open only if it was keeps the cell
from becoming live. -/
theorem live_write {c : Cell Payment} {row r : Payment} {sid : Nat} (hv : c.view i = some row)
    (hsub : r.subscriptionId = row.subscriptionId)
    (hopen : r.status.isOpen = true → row.status.isOpen = true)
    (h : Live sid (c.write i r)) : Live sid c := by
  rcases h with hc | ⟨j, r', hr', hs, ho⟩
  · exact .inl hc
  · simp only [Cell.write, Option.some.injEq, Prod.mk.injEq] at hr'
    obtain ⟨-, rfl⟩ := hr'
    simp only [Cell.write] at ho
    by_cases hheld : ∃ r₀, c.pending = some (i, r₀)
    · obtain ⟨r₀, hr₀⟩ := hheld
      rw [Cell.view_of_held hr₀] at hv
      obtain rfl := Option.some.inj hv
      refine .inr ⟨i, r₀, hr₀, hsub ▸ hs, ?_⟩
      rcases ho with ho | ho
      · exact .inl (hopen ho)
      · exact .inr ho
    · rw [Cell.view_of_not_held (fun r₀ h => hheld ⟨r₀, h⟩)] at hv
      refine .inl ⟨row, hv, hsub ▸ hs, hopen ?_⟩
      rcases ho with ho | ho
      · exact ho
      · simp [ho] at hv

/-- A paid row that is written paid keeps its credit in order. -/
theorem CreditOk.write {k : Cell ReferralCredit} {c : Cell Payment} {row r : Payment}
    (h : CreditOk k c) (hv : c.view i = some row) (hfree : c.lockedByOther i = false)
    (hpaid : row.status = .paid → r.status = .paid) : CreditOk k (c.write i r) := by
  refine ⟨h.1, fun j cr hj => ?_⟩
  obtain ⟨p, hp, hs⟩ := h.2 j cr hj
  by_cases e : i = j
  · subst e
    rw [hv, Option.some.injEq] at hp
    exact ⟨r, by simp [Cell.write, Cell.view], hpaid (hp ▸ hs)⟩
  · -- The row is not another session's, so the other one sees what is committed.
    have hcom : c.view j = c.committed := by
      apply Cell.view_of_not_held
      intro r' hr'
      rcases Cell.lockedByOther_eq_false.mp hfree with hn | ⟨r'', hr''⟩
      · simp [hn] at hr'
      · rw [hr'', Option.some.injEq, Prod.mk.injEq] at hr'
        exact e hr'.1
    refine ⟨p, ?_, hs⟩
    rw [← hp, hcom]
    simp [Cell.write, Cell.view, e]

end cells

/-! ## commits -/

section commit

variable {n i : Nat} {g : World}

theorem version_of_held {pid : Nat} {r : Payment}
    (h : (g.payments.cell pid).pending = some (i, r)) :
    g.version i pid = some (.published i pid (g.payments.cell pid).committed r) := by
  simp [World.version, h]

theorem version_of_not_held {pid : Nat}
    (h : ∀ r, (g.payments.cell pid).pending ≠ some (i, r)) : g.version i pid = none := by
  unfold World.version
  split
  · rename_i j r hp
    have hne : j ≠ i := fun e => h r (e ▸ hp)
    simp [hne]
  · rfl

theorem version_eq_some {pid : Nat} {e : Event} (h : g.version i pid = some e) :
    ∃ r, (g.payments.cell pid).pending = some (i, r) ∧
      e = .published i pid (g.payments.cell pid).committed r := by
  by_cases hheld : ∃ r, (g.payments.cell pid).pending = some (i, r)
  · obtain ⟨r, hr⟩ := hheld
    rw [version_of_held hr, Option.some.injEq] at h
    exact ⟨r, hr, h.symm⟩
  · rw [version_of_not_held fun r hr => hheld ⟨r, hr⟩] at h
    contradiction

theorem versions_thread {ks : List Nat} {e : Event} (he : e ∈ ks.filterMap (g.version i)) :
    e.thread = i := by
  obtain ⟨pid, -, hv⟩ := List.mem_filterMap.mp he
  obtain ⟨r, -, rfl⟩ := version_eq_some hv
  rfl

theorem settling_of_published {j pid : Nat} {sub : Subscription}
    (h : .settling j pid sub ∈ g.published i ++ g.history) :
    .settling j pid sub ∈ g.history := by
  rcases List.mem_append.mp h with hmem | hmem
  · obtain ⟨q, -, hv⟩ := List.mem_filterMap.mp hmem
    obtain ⟨r, -, e⟩ := version_eq_some hv
    cases e
  · exact hmem

theorem versions_skip {ks : List Nat} {pid : Nat}
    (h : pid ∈ ks → ∀ r, (g.payments.cell pid).pending ≠ some (i, r)) {e : Event}
    (he : e ∈ ks.filterMap (g.version i)) : e.Skips pid := by
  obtain ⟨q, hq, hv⟩ := List.mem_filterMap.mp he
  obtain ⟨r, hr, rfl⟩ := version_eq_some hv
  intro j old new heq
  injection heq with _ hpid
  subst hpid
  exact h hq r hr

theorem CellOk.append {pid : Nat} {h : List Event} {c : Cell Payment} (hc : CellOk n h pid c)
    {l : List Event} (hl : ∀ e ∈ l, e.Skips pid) : CellOk n (l ++ h) pid c := by
  induction l with
  | nil => exact hc
  | cons e l ih =>
      exact (ih fun e he => hl e (List.mem_cons_of_mem _ he)).cons (hl e List.mem_cons_self)

theorem PublishOk.append {pid : Nat} {old : Option Payment} {new : Payment} {h : List Event}
    (hp : PublishOk n i pid old new h) {l : List Event} (hl : ∀ e ∈ l, e.Skips pid) :
    PublishOk n i pid old new (l ++ h) := by
  induction l with
  | nil => exact hp
  | cons e l ih =>
      exact (ih fun e he => hl e (List.mem_cons_of_mem _ he)).cons (hl e List.mem_cons_self)

/-- The versions of different payments may be published together. -/
theorem wellFormed_versions (hg : Inv n g) {ks : List Nat} (hks : ks.Nodup) :
    WellFormed n (ks.filterMap (g.version i) ++ g.history) := by
  induction ks with
  | nil => exact hg.wf
  | cons pid ks ih =>
      obtain ⟨hpid, hks⟩ := List.nodup_cons.mp hks
      cases hv : g.version i pid with
      | none => simpa [List.filterMap_cons, hv] using ih hks
      | some e =>
          obtain ⟨r, hr, rfl⟩ := version_eq_some hv
          simp only [List.filterMap_cons, hv, List.cons_append]
          refine ⟨?_, ih hks⟩
          exact ((hg.cells pid).publishOk hr).append fun e he =>
            versions_skip (fun hmem => absurd hmem hpid) he

/-- Where a commit publishes the version of one payment. -/
theorem published_split (hg : Inv n g) {pid : Nat} {r : Payment}
    (hr : (g.payments.cell pid).pending = some (i, r)) :
    ∃ l₁ l₂, g.published i ++ g.history =
        l₁ ++ .published i pid (g.payments.cell pid).committed r :: (l₂ ++ g.history) ∧
      (∀ e ∈ l₁, e.Skips pid) ∧ ∀ e ∈ l₂, e.Skips pid := by
  have hlt : pid ∈ List.range g.payments.next := by
    rw [List.mem_range]
    have hv : g.payments.get i pid = some r := by simp [Table.get, hr]
    exact hg.lt_next hv
  obtain ⟨l₁, l₂, hl⟩ := List.mem_iff_append.mp hlt
  have hnd : (l₁ ++ pid :: l₂).Nodup := hl ▸ List.nodup_range
  obtain ⟨-, hnd₂, hdisj⟩ := List.nodup_append.mp hnd
  have h₁ : pid ∉ l₁ := fun h => hdisj pid h pid List.mem_cons_self rfl
  have h₂ : pid ∉ l₂ := (List.nodup_cons.mp hnd₂).1
  refine ⟨l₁.filterMap (g.version i), l₂.filterMap (g.version i), ?_, ?_, ?_⟩
  · simp [World.published, hl, List.filterMap_append, version_of_held hr]
  · exact fun e he => versions_skip (fun hmem => absurd hmem h₁) he
  · exact fun e he => versions_skip (fun hmem => absurd hmem h₂) he

/-- Publishing keeps the invariant of every cell. -/
theorem cellOk_commit (hg : Inv n g) (pid : Nat) :
    CellOk n (g.published i ++ g.history) pid ((g.payments.cell pid).commit i) := by
  by_cases hheld : ∃ r, (g.payments.cell pid).pending = some (i, r)
  · obtain ⟨r, hr⟩ := hheld
    obtain ⟨l₁, l₂, hpub, h₁, h₂⟩ := published_split hg hr
    rw [hpub, Cell.commit_of_held hr]
    have hold : CellOk n (l₂ ++ g.history) pid (g.payments.cell pid) := (hg.cells pid).append h₂
    exact (hold.publish hr).append h₁
  · have hnot : ∀ r, (g.payments.cell pid).pending ≠ some (i, r) := fun r hr => hheld ⟨r, hr⟩
    rw [Cell.commit_of_not_held hnot]
    exact (hg.cells pid).append fun e he => versions_skip (fun _ => hnot) he

theorem live_commit {sid : Nat} {c : Cell Payment} (h : Live sid (c.commit i)) : Live sid c := by
  by_cases hheld : ∃ r, c.pending = some (i, r)
  · obtain ⟨r, hr⟩ := hheld
    rw [Cell.commit_of_held hr] at h
    rcases h with ⟨p, hp, hs, ho⟩ | ⟨j, r', hr', -⟩
    · obtain rfl := Option.some.inj hp
      exact .inr ⟨i, r, hr, hs, .inl ho⟩
    · simp at hr'
  · rwa [Cell.commit_of_not_held fun r hr => hheld ⟨r, hr⟩] at h

theorem live_rollback {sid : Nat} {c : Cell Payment} (h : Live sid (c.rollback i)) :
    Live sid c := by
  rcases h with ⟨p, hp, hs⟩ | ⟨j, r, hr, hs, ho⟩
  · exact .inl ⟨p, by simpa using hp, hs⟩
  · rw [Cell.rollback_pending] at hr
    exact .inr ⟨j, r, hr.1, hs, by simpa using ho⟩

/-- What another session sees of a row does not depend on a commit or a
rollback, if the row is its own. -/
theorem CreditOk.commit {k : Cell ReferralCredit} {c : Cell Payment}
    (hle : ∀ p, c.committed = some p → p.status = .paid →
      ∃ q, c.view i = some q ∧ q.status = .paid)
    (h : CreditOk k c) : CreditOk (k.commit i) (c.commit i) := by
  constructor
  · intro hk
    rw [Cell.commit_committed] at hk ⊢
    by_cases hheld : ∃ r, k.pending = some (i, r)
    · obtain ⟨r, hr⟩ := hheld
      exact h.2 i r hr
    · rw [Cell.view_of_not_held fun r hr => hheld ⟨r, hr⟩] at hk
      obtain ⟨p, hp, hs⟩ := h.1 hk
      exact hle p hp hs
  · intro j r hr
    rw [Cell.commit_pending] at hr
    obtain ⟨p, hp, hs⟩ := h.2 j r hr.1
    by_cases hheld : ∃ r', c.pending = some (i, r')
    · obtain ⟨r', hr'⟩ := hheld
      have hcom : c.view j = c.committed := by
        apply Cell.view_of_not_held
        intro r'' hr''
        rw [hr', Option.some.injEq, Prod.mk.injEq] at hr''
        exact hr.2 hr''.1.symm
      obtain ⟨q, hq, hqs⟩ := hle p (hcom ▸ hp) hs
      rw [Cell.view_of_held hr', Option.some.injEq] at hq
      refine ⟨q, ?_, hqs⟩
      simp [Cell.commit_of_held hr', Cell.view, hq]
    · rw [Cell.commit_of_not_held fun r' hr' => hheld ⟨r', hr'⟩]
      exact ⟨p, hp, hs⟩

theorem CreditOk.rollback {k : Cell ReferralCredit} {c : Cell Payment} (h : CreditOk k c) :
    CreditOk (k.rollback i) (c.rollback i) := by
  constructor
  · simpa using h.1
  · intro j r hr
    rw [Cell.rollback_pending] at hr
    obtain ⟨p, hp, hs⟩ := h.2 j r hr.1
    refine ⟨p, ?_, hs⟩
    rw [← hp]
    by_cases hheld : ∃ r', c.pending = some (j, r')
    · obtain ⟨r', hr'⟩ := hheld
      rw [Cell.view_of_held hr', Cell.view_of_held ((Cell.rollback_pending c i).mpr ⟨hr', hr.2⟩)]
    · have hnot : ∀ r', c.pending ≠ some (j, r') := fun r' hr' => hheld ⟨r', hr'⟩
      rw [Cell.view_of_not_held hnot, Cell.view_of_not_held, Cell.rollback_committed]
      intro r' hr'
      exact hnot r' ((Cell.rollback_pending c i).mp hr').1

theorem Inv.commit (hg : Inv n g) : Inv n (g.commit i) where
  cells pid := cellOk_commit hg pid
  unused pid hpid := by
    have := hg.unused pid hpid
    simp [World.commit, Table.commit, this, Cell.commit]
  wf := wellFormed_versions hg List.nodup_range
  live sid p q hp hq := hg.live sid p q (live_commit hp) (live_commit hq)
  credits pid := by
    refine (hg.credits pid).commit fun p hp hs => ?_
    have hle := (hg.cells pid).ordered.le_view Payment.Advances.refl i
    rw [hp] at hle
    cases hv : (g.payments.cell pid).view i with
    | none => rw [hv] at hle; exact absurd hle id
    | some q =>
        rw [hv] at hle
        refine ⟨q, rfl, ?_⟩
        rw [Payment.Advances.status_eq hle (by simp [hs]), hs]
  subs sid := (hg.subs sid).commit
  settled j pid sub hmem := hg.settled j pid sub (settling_of_published hmem)
  unusedSubs sid hsid := by
    have := hg.unusedSubs sid hsid
    simp [World.commit, Table.commit, this, Cell.commit]

theorem Inv.rollback (hg : Inv n g) : Inv n (g.rollback i) where
  cells pid := by
    change CellOk n g.history pid ((g.payments.cell pid).rollback i)
    by_cases hheld : ∃ r, (g.payments.cell pid).pending = some (i, r)
    · obtain ⟨r, hr⟩ := hheld
      simpa [Cell.rollback, hr] using (hg.cells pid).rollback
    · have hsame : (g.payments.cell pid).rollback i = g.payments.cell pid := by
        unfold Cell.rollback
        split
        · rename_i j r hp
          have hne : j ≠ i := fun e => hheld ⟨r, e ▸ hp⟩
          simp [hne]
        · rfl
      rw [hsame]
      exact hg.cells pid
  unused pid hpid := by
    have := hg.unused pid hpid
    simp [World.rollback, Table.rollback, this, Cell.rollback]
  wf := hg.wf
  live sid p q hp hq := hg.live sid p q (live_rollback hp) (live_rollback hq)
  credits pid := (hg.credits pid).rollback
  subs sid := (hg.subs sid).rollback
  settled := hg.settled
  unusedSubs sid hsid := by
    have := hg.unusedSubs sid hsid
    simp [World.rollback, Table.rollback, this, Cell.rollback]

end commit

/-! ## every move keeps the invariant -/

section move

variable {n i : Nat} {g g' : World}

theorem Inv.note (hg : Inv n g) {e : Event} (he : ∀ pid, e.Skips pid)
    (hok : EventOk n g.history e)
    (hload : ∀ j pid sub, e = .settling j pid sub → pid < g.payments.next) : Inv n (g.note e) :=
  { hg with
    cells := fun pid => (hg.cells pid).cons (he pid)
    wf := ⟨hok, hg.wf⟩
    settled := fun j pid sub hmem => by
      rcases List.mem_cons.mp hmem with heq | hmem
      · exact hload j pid sub heq.symm
      · exact hg.settled j pid sub hmem }

/-- A payment a session has exists. -/
theorem Earns.lt_next (hg : Inv n g) {pid : Nat} {r : Payment} (h : Earns i pid g r) :
    pid < g.payments.next :=
  hg.lt_next (Cell.view_of_held h.pending : g.payments.get i pid = some r)

theorem Inv.insert (hg : Inv n g) {row : Nat → Payment}
    (hid : (row g.payments.next).id = g.payments.next) (hfresh : (row g.payments.next).Fresh)
    (hs : (row g.payments.next).status = .pending)
    (hlive : ∀ pid, ¬ Live (row g.payments.next).subscriptionId (g.payments.cell pid)) :
    Inv n { g with payments := g.payments.insert i row } := by
  have hempty := hg.unused g.payments.next (Nat.le_refl _)
  have hself : (g.payments.insert i row).cell g.payments.next =
      ⟨none, some (i, row g.payments.next)⟩ := by
    simp [Table.insert, hempty, Cell.write]
  have hother : ∀ q, q ≠ g.payments.next →
      (g.payments.insert i row).cell q = g.payments.cell q := by
    intro q hq
    simp [Table.insert, hq]
  constructor
  case cells =>
    intro q
    by_cases e : q = g.payments.next
    · subst e
      rw [hself]
      exact (hempty ▸ hg.cells g.payments.next).insert hid hfresh hs
    · rw [hother q e]
      exact hg.cells q
  case unused =>
    intro q hq
    have hq' : g.payments.next + 1 ≤ q := hq
    rw [hother q (by omega)]
    exact hg.unused q (by omega)
  case wf => exact hg.wf
  case live =>
    -- Only the new cell can be live for the new row's subscription.
    have split : ∀ sid k, Live sid ((g.payments.insert i row).cell k) →
        Live sid (g.payments.cell k) ∨
          k = g.payments.next ∧ sid = (row g.payments.next).subscriptionId := by
      intro sid k hk
      by_cases e : k = g.payments.next
      · subst e
        rw [hself] at hk
        rcases hk with ⟨p, hp, -⟩ | ⟨j, r, hr, hsub, -⟩
        · simp at hp
        · simp only [Option.some.injEq, Prod.mk.injEq] at hr
          exact .inr ⟨rfl, by rw [← hsub, hr.2]⟩
      · rw [hother k e] at hk
        exact .inl hk
    intro sid p q hp hq
    rcases split sid p hp with hp | ⟨rfl, rfl⟩
    · rcases split sid q hq with hq | ⟨rfl, rfl⟩
      · exact hg.live sid p q hp hq
      · exact absurd hp (hlive p)
    · rcases split _ q hq with hq | ⟨rfl, -⟩
      · exact absurd hq (hlive q)
      · rfl
  case credits =>
    intro q
    by_cases e : q = g.payments.next
    · subst e
      have hk := hg.credits g.payments.next
      rw [hempty] at hk
      refine ⟨fun h => ?_, fun j r h => ?_⟩
      · obtain ⟨p, hp, -⟩ := hk.1 h
        simp at hp
      · obtain ⟨p, hp, -⟩ := hk.2 j r h
        simp [Cell.view] at hp
    · simp only
      rw [hother q e]
      exact hg.credits q
  case subs => exact hg.subs
  case settled => exact fun j pid sub hmem => Nat.lt_succ_of_lt (hg.settled j pid sub hmem)
  case unusedSubs => exact hg.unusedSubs

/-- **The invariant.** Every move of a session keeps it. -/
theorem Inv.move (hg : Inv n g) (h : Move n i g g') : Inv n g' := by
  cases h with
  | quiet h =>
      constructor
      case cells => rw [h.payments, h.history]; exact hg.cells
      case unused => rw [h.payments]; exact hg.unused
      case wf => rw [h.history]; exact hg.wf
      case live => rw [h.payments]; exact hg.live
      case credits => rw [h.payments, h.credits]; exact hg.credits
      case subs => exact fun sid => (hg.subs sid).touch (h.subs sid)
      case settled => rw [h.payments, h.history]; exact hg.settled
      case unusedSubs =>
        intro sid hsid
        rw [h.unused sid hsid]
        exact hg.unusedSubs sid (Nat.le_trans h.next hsid)
  | note ht he hok hload =>
      refine hg.note he hok fun j pid sub e => ?_
      obtain rfl : j = i := by rw [e] at ht; exact ht
      obtain ⟨r, hearns, -⟩ := hload pid sub e
      exact hearns.lt_next hg
  | lock hv hfree =>
      refine hg.setPayment (hg.lt_next hv) (fun _ _ h => h) hg.wf ((hg.cells _).lock hv hfree)
        (fun _ => live_write hv rfl fun h => h) (fun k hk => hk.write hv hfree fun h => h)
        fun _ _ _ hmem => hmem
  | @execute pid row s hv hfree hsel hok =>
      have hskip : ∀ q, Event.Skips q (.executed i pid s row) := fun q _ _ _ => by simp
      refine hg.setPayment (hg.lt_next hv) (fun q c h => h.cons (hskip q))
        ⟨⟨hsel, hok.reasoned⟩, hg.wf⟩
        ((hg.cells pid).execute hv hsel hok) (fun sid => live_write hv ?_ ?_)
        (fun k hk => hk.write hv hfree fun h => PaymentUpdate.set_of_paid h hsel)
        fun _ _ _ hmem => by simpa using hmem
      · cases s <;> rfl
      · cases s <;> simp_all [PaymentUpdate.set, PaymentUpdate.selects, PaymentStatus.isOpen,
          Unsent.flush]
  | insert hid hfresh hs hlive => exact hg.insert hid hfresh hs hlive
  | @extend sid pid row s hfree hid hlt hv hlater =>
      have hunused : ∀ k, g.subscriptions.next ≤ k →
          (g.subscriptions.set sid ((g.subscriptions.cell sid).write i s)).cell k =
            ⟨none, none⟩ := by
        intro k hk
        have e : k ≠ sid := by omega
        simpa [e] using hg.unusedSubs k hk
      have hsubs : ∀ k, SubOk k
          ((g.subscriptions.set sid ((g.subscriptions.cell sid).write i s)).cell k) := by
        intro k
        by_cases e : k = sid
        · subst e
          simpa using (hg.subs k).write hid (.inl ⟨row, hv, hlater⟩)
        · simpa [e] using hg.subs k
      refine Inv.note ?_ (fun q _ _ _ => by simp) trivial (by simp)
      exact ⟨hg.cells, hg.unused, hg.wf, hg.live, hg.credits, hsubs, hg.settled, hunused⟩
  | @credit pid p credit hfree hv hpaid =>
      refine { hg with credits := fun q => ?_ }
      by_cases e : q = pid
      · subst e
        simp only [Table.set_cell_self]
        refine ⟨(hg.credits q).1, fun j r hr => ?_⟩
        simp only [Cell.write_pending, Option.some.injEq, Prod.mk.injEq] at hr
        obtain ⟨rfl, -⟩ := hr
        exact ⟨p, hv, hpaid⟩
      · simpa [e] using hg.credits q
  | commit hok => exact hg.commit
  | rollback => exact hg.rollback

end move

end Backend
