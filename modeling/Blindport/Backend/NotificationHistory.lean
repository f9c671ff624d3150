import Mathlib.Data.List.Perm.Subperm
import Blindport.Backend.Notifications

/-!
# Blindport.Backend.NotificationHistory

What the record of the outbox says.

Between the commit that moves a delivery to `SENDING` and the one that queues it
again, the delivery is the turn of one thread (`turn`).  A delivery that is queued is
nobody's turn, and a thread whose lease is on the row has not lost its turn
(`Ordered`); so nobody else sends in between, and a delivery is sent at most as often
as it was counted.
-/

namespace Backend

namespace Notifications

open Conc Journal

/-! ## the rules of the record -/

/-- How deliveries are stored. -/
def feed : Feed Nat Delivery Event where
  publication
    | .stored _ rows => some rows
    | _ => none
  init := rowOf outbox.rows

/-- The record of a thread whose turn it is. -/
structure Acts (id : Nat) (trace : List Event) : Prop where
  claimed : ∃ row, .stored .claim [(id, row)] ∈ trace
  authorized : ∃ row, .stored .authorize [(id, row)] ∈ trace
  pending : ∀ rows, .stored .requeue rows ∉ trace

/-- A flush that gives a delivery a terminal state and takes its lease: a column that
was loaded with the same value is left as it is. -/
structure Closes (loaded : Delivery) (state : DeliveryState) (old new : Delivery) : Prop where
  attempts : new.attemptCount = old.attemptCount
  state : new.state = state ∨ (loaded.state = state ∧ new.state = old.state)
  token : new.leaseToken = none ∨ (loaded.leaseToken = none ∧ new.leaseToken = old.leaseToken)

/-- What a commit of one delivery publishes. -/
structure Publishes (h : List (Nat × Event)) (rows : List (Nat × Delivery)) (id : Nat)
    (old new : Delivery) : Prop where
  rows : rows = [(id, new)]
  old : feed.committedAt h id = some old

/-- What a transaction may publish. -/
def Stores (h : List (Nat × Event)) (i : Nat) (rows : List (Nat × Delivery)) : Kind → Prop
  | .queue => ∃ id now, rows = [(id, .queued now)] ∧ feed.committedAt h id = none
  | .claim => ∃ id old new, Publishes h rows id old new ∧ old.state.isTerminal = false ∧
      new.state = old.state ∧ new.attemptCount = old.attemptCount ∧
      new.leaseToken = some i ∧ own i h = []
  | .authorize => ∃ id old new, Publishes h rows id old new ∧ old.state = .queued ∧
      old.leaseToken = some i ∧ old.attemptCount < maxNotificationAttempts ∧
      new.state = .sending ∧ new.attemptCount = old.attemptCount + 1 ∧
      new.leaseToken = old.leaseToken ∧ ∃ row, own i h = [.stored .claim [(id, row)]]
  | .requeue => ∃ id old new outcome, Publishes h rows id old new ∧ old.leaseToken = some i ∧
      (new.state = .queued ∨ new.state = old.state) ∧ new.attemptCount = old.attemptCount ∧
      new.leaseToken = old.leaseToken ∧ Acts id (own i h) ∧ .sent id outcome ∈ own i h ∧
      outcome.isRetryable = true
  | .finish => ∃ id old new loaded state, Publishes h rows id old new ∧
      old.leaseToken = some i ∧ state.isTerminal = true ∧ Closes loaded state old new ∧
      (loaded = old ∨ (.reloaded id (some loaded) ∈ own i h ∧ Acts id (own i h)))
  | .cancel => ∀ id new, (id, new) ∈ rows → ∃ old loaded found, feed.committedAt h id = some old ∧
      .listed found ∈ own i h ∧ (id, loaded) ∈ found ∧ Closes loaded .cancelled old new
  | .bulkCancel => ∀ id new, (id, new) ∈ rows → ∃ old, feed.committedAt h id = some old ∧
      old.state = .queued ∧ new.state = .cancelled ∧ new.attemptCount = old.attemptCount ∧
      new.leaseToken = none
  | .release => ∃ id old new, Publishes h rows id old new ∧ old.leaseToken = some i ∧
      new.state = old.state ∧ new.attemptCount = old.attemptCount ∧ new.leaseToken = none

/-- What a thread may put on record. -/
def rules : Rules Nat Delivery Event where
  toFeed := feed
  Allowed h i
    | .listed found => ∀ id row, (id, row) ∈ found →
        feed.committedAt h id = some row ∧ row.state = .queued
    | .reloaded id row => row = feed.committedAt h id
    | .stored kind rows => Stores h i rows kind
    | .sent id _ => Acts id (own i h) ∧ ∀ id' outcome, .sent id' outcome ∉ own i h
  rival := rival
  rival_symm _ _ := rfl

/-! ## one publication -/

theorem rowOf_singleton {id k : Nat} {row new : Delivery} (h : rowOf [(id, row)] k = some new) :
    id = k ∧ row = new := by
  have hmem := mem_of_rowOf h
  simp only [List.mem_singleton, Prod.mk.injEq] at hmem
  exact ⟨hmem.1.symm, hmem.2.symm⟩

/-- A lease is taken by a claim, and otherwise kept. -/
theorem Stores.token {h : List (Nat × Event)} {j : Nat} {rows : List (Nat × Delivery)}
    {kind : Kind} (hstores : Stores h j rows kind) {id i : Nat} {new : Delivery}
    (hnew : rowOf rows id = some new) (htoken : new.leaseToken = some i) :
    (kind = .claim ∧ j = i ∧ own j h = []) ∨
    ∃ old, feed.committedAt h id = some old ∧ old.leaseToken = some i := by
  have hcloses : ∀ {loaded : Delivery} {state : DeliveryState} {old : Delivery},
      Closes loaded state old new → old.leaseToken = some i := by
    intro loaded state old hc
    cases hc.token with
    | inl hnone => rw [hnone] at htoken; cases htoken
    | inr hkept => rw [← hkept.2, htoken]
  cases kind with
  | queue =>
      obtain ⟨k, now, rfl, -⟩ := hstores
      obtain ⟨rfl, rfl⟩ := rowOf_singleton hnew
      cases htoken
  | claim =>
      obtain ⟨k, old, row, ⟨rfl, hold⟩, -, -, -, hrow, hfresh⟩ := hstores
      obtain ⟨rfl, rfl⟩ := rowOf_singleton hnew
      rw [htoken, Option.some.injEq] at hrow
      exact .inl ⟨rfl, hrow.symm, hfresh⟩
  | authorize =>
      obtain ⟨k, old, row, ⟨rfl, hold⟩, -, -, -, -, -, hrow, -⟩ := hstores
      obtain ⟨rfl, rfl⟩ := rowOf_singleton hnew
      exact .inr ⟨old, hold, hrow ▸ htoken⟩
  | requeue =>
      obtain ⟨k, old, row, -, ⟨rfl, hold⟩, -, -, -, hrow, -⟩ := hstores
      obtain ⟨rfl, rfl⟩ := rowOf_singleton hnew
      exact .inr ⟨old, hold, hrow ▸ htoken⟩
  | finish =>
      obtain ⟨k, old, row, loaded, state, ⟨rfl, hold⟩, -, -, hc, -⟩ := hstores
      obtain ⟨rfl, rfl⟩ := rowOf_singleton hnew
      exact .inr ⟨old, hold, hcloses hc⟩
  | cancel =>
      obtain ⟨old, loaded, found, hold, -, -, hc⟩ := hstores id new (mem_of_rowOf hnew)
      exact .inr ⟨old, hold, hcloses hc⟩
  | bulkCancel =>
      obtain ⟨old, -, -, -, -, hnone⟩ := hstores id new (mem_of_rowOf hnew)
      rw [hnone] at htoken
      cases htoken
  | release =>
      obtain ⟨k, old, row, ⟨rfl, hold⟩, -, -, -, hnone⟩ := hstores
      obtain ⟨rfl, rfl⟩ := rowOf_singleton hnew
      rw [hnone] at htoken
      cases htoken

/-- Only an authorized attempt is counted. -/
theorem Stores.attempts {h : List (Nat × Event)} {j : Nat} {rows : List (Nat × Delivery)}
    {kind : Kind} (hstores : Stores h j rows kind) {id : Nat} {new : Delivery}
    (hnew : rowOf rows id = some new) :
    (kind = .queue ∧ feed.committedAt h id = none ∧ new.attemptCount = 0) ∨
    ∃ old, feed.committedAt h id = some old ∧
      new.attemptCount = old.attemptCount + (if kind = .authorize then 1 else 0) ∧
      (kind = .authorize → old.attemptCount < maxNotificationAttempts) := by
  cases kind with
  | queue =>
      obtain ⟨k, now, rfl, hnone⟩ := hstores
      obtain ⟨rfl, rfl⟩ := rowOf_singleton hnew
      exact .inl ⟨rfl, hnone, rfl⟩
  | claim =>
      obtain ⟨k, old, row, ⟨rfl, hold⟩, -, -, hsame, -, -⟩ := hstores
      obtain ⟨rfl, rfl⟩ := rowOf_singleton hnew
      exact .inr ⟨old, hold, by simp [hsame], by simp⟩
  | authorize =>
      obtain ⟨k, old, row, ⟨rfl, hold⟩, -, -, hlt, -, hnext, -, -⟩ := hstores
      obtain ⟨rfl, rfl⟩ := rowOf_singleton hnew
      exact .inr ⟨old, hold, by simp [hnext], fun _ => hlt⟩
  | requeue =>
      obtain ⟨k, old, row, -, ⟨rfl, hold⟩, -, -, hsame, -, -⟩ := hstores
      obtain ⟨rfl, rfl⟩ := rowOf_singleton hnew
      exact .inr ⟨old, hold, by simp [hsame], by simp⟩
  | finish =>
      obtain ⟨k, old, row, loaded, state, ⟨rfl, hold⟩, -, -, hc, -⟩ := hstores
      obtain ⟨rfl, rfl⟩ := rowOf_singleton hnew
      exact .inr ⟨old, hold, by simp [hc.attempts], by simp⟩
  | cancel =>
      obtain ⟨old, loaded, found, hold, -, -, hc⟩ := hstores id new (mem_of_rowOf hnew)
      exact .inr ⟨old, hold, by simp [hc.attempts], by simp⟩
  | bulkCancel =>
      obtain ⟨old, hold, -, -, hsame, -⟩ := hstores id new (mem_of_rowOf hnew)
      exact .inr ⟨old, hold, by simp [hsame], by simp⟩
  | release =>
      obtain ⟨k, old, row, ⟨rfl, hold⟩, -, -, hsame, -⟩ := hstores
      obtain ⟨rfl, rfl⟩ := rowOf_singleton hnew
      exact .inr ⟨old, hold, by simp [hsame], by simp⟩

/-! ## turns -/

/-- The thread whose turn a delivery is: it moved it to `SENDING` and has not queued it
again. -/
def turn : List (Nat × Event) → Nat → Option Nat
  | [], _ => none
  | (j, e) :: h, id =>
      match e with
      | .stored .authorize rows => if (rowOf rows id).isSome then some j else turn h id
      | .stored .requeue rows => if (rowOf rows id).isSome then none else turn h id
      | _ => turn h id

/-- An event that publishes nothing of a delivery is not seen in what the thread did to
it. -/
theorem Acts.tail {id i j : Nat} {e : Event} {h : List (Nat × Event)}
    (hacts : Acts id (own i ((j, e) :: h))) (hclaims : ∀ row, e ≠ .stored .claim [(id, row)])
    (hauthorizes : ∀ row, e ≠ .stored .authorize [(id, row)]) : Acts id (own i h) := by
  by_cases hj : j = i
  · subst hj
    rw [own_cons_self] at hacts
    obtain ⟨⟨row, hclaim⟩, ⟨row', hauthorize⟩, hpending⟩ := hacts
    refine ⟨⟨row, ?_⟩, ⟨row', ?_⟩, fun rows hmem => hpending rows (List.mem_cons_of_mem _ hmem)⟩
    · cases List.mem_cons.mp hclaim with
      | inl heq => exact absurd heq.symm (hclaims row)
      | inr hmem => exact hmem
    · cases List.mem_cons.mp hauthorize with
      | inl heq => exact absurd heq.symm (hauthorizes row')
      | inr hmem => exact hmem
  · rwa [own_cons_of_ne hj] at hacts

/-- Whose turn it is agrees with the table. -/
structure Ordered (h : List (Nat × Event)) : Prop where
  /-- A delivery that is not there is nobody's turn. -/
  absent : ∀ id, feed.committedAt h id = none → turn h id = none
  /-- A delivery that is queued is nobody's turn. -/
  idle : ∀ id row, feed.committedAt h id = some row → row.state = .queued → turn h id = none
  /-- A thread with the lease has not lost its turn. -/
  holder : ∀ id row i, feed.committedAt h id = some row → row.leaseToken = some i →
    Acts id (own i h) → turn h id = some i

/-- An event that publishes nothing of a delivery. -/
theorem committedAt_skip {j id : Nat} {e : Event} {h : List (Nat × Event)}
    (hskip : ∀ kind rows, e = .stored kind rows → rowOf rows id = none) :
    feed.committedAt ((j, e) :: h) id = feed.committedAt h id ∧
    turn ((j, e) :: h) id = turn h id ∧ ∀ kind row, e ≠ .stored kind [(id, row)] := by
  cases e with
  | listed found => exact ⟨rfl, rfl, by simp⟩
  | reloaded id' row => exact ⟨rfl, rfl, by simp⟩
  | sent id' outcome => exact ⟨rfl, rfl, by simp⟩
  | stored kind rows =>
      have hnone := hskip kind rows rfl
      refine ⟨?_, ?_, ?_⟩
      · rw [Feed.committedAt]
        change (rowOf rows id).or _ = _
        rw [hnone, Option.none_or]
      · cases kind <;> simp [turn, hnone]
      · intro kind' row heq
        cases heq
        simp [rowOf] at hnone

/-- An event that publishes a delivery. -/
theorem committedAt_publish {j id : Nat} {kind : Kind} {rows : List (Nat × Delivery)}
    {new : Delivery} {h : List (Nat × Event)} (hnew : rowOf rows id = some new) :
    feed.committedAt ((j, .stored kind rows) :: h) id = some new := by
  rw [Feed.committedAt]
  change (rowOf rows id).or _ = _
  rw [hnew, Option.some_or]

/-- Every event publishes something of a delivery or nothing. -/
theorem publish_or_skip (e : Event) (id : Nat) :
    (∃ kind rows new, e = .stored kind rows ∧ rowOf rows id = some new) ∨
    ∀ kind rows, e = .stored kind rows → rowOf rows id = none := by
  cases e with
  | stored kind rows =>
      cases hnew : rowOf rows id with
      | some new => exact .inl ⟨kind, rows, new, rfl, hnew⟩
      | none =>
          refine .inr fun kind' rows' heq => ?_
          cases heq
          exact hnew
  | _ => exact .inr fun kind rows heq => by cases heq

/-- The turn after a publication. -/
theorem turn_publish {j id : Nat} {kind : Kind} {rows : List (Nat × Delivery)} {new : Delivery}
    {h : List (Nat × Event)} (hnew : rowOf rows id = some new) :
    turn ((j, .stored kind rows) :: h) id =
      if kind = .authorize then some j else if kind = .requeue then none else turn h id := by
  cases kind <;> simp [turn, hnew]

/-- A finished delivery is not queued. -/
theorem finish_not_queued {h : List (Nat × Event)} (hordered : Ordered h) {j id : Nat}
    {old new loaded : Delivery} {state : DeliveryState} (hold : feed.committedAt h id = some old)
    (htoken : old.leaseToken = some j) (hstate : state.isTerminal = true)
    (hc : Closes loaded state old new)
    (hloaded : loaded = old ∨ (.reloaded id (some loaded) ∈ own j h ∧ Acts id (own j h))) :
    new.state ≠ .queued := by
  intro hqueued
  cases hc.state with
  | inl hnew =>
      rw [← hnew, hqueued] at hstate
      cases hstate
  | inr hkept =>
      rw [hkept.2] at hqueued
      cases hloaded with
      | inl heq =>
          rw [← hkept.1, heq, hqueued] at hstate
          cases hstate
      | inr hacts =>
          -- the lease is still its own, so the delivery is not queued
          have hturn := hordered.holder id old j hold htoken hacts.2
          rw [hordered.idle id old hold hqueued] at hturn
          cases hturn

/-- What a canceller listed was queued. -/
theorem listed_queued {h : List (Nat × Event)} (hjust : rules.Justified h) {j id : Nat}
    {found : List (Nat × Delivery)} {row : Delivery} (hlisted : .listed found ∈ own j h)
    (hrow : (id, row) ∈ found) : row.state = .queued := by
  obtain ⟨a, b, rfl⟩ := List.append_of_mem (mem_own.mp hlisted)
  exact (hjust.allowed id row hrow).2

/-- A publication that leaves a delivery queued leaves it nobody's turn. -/
theorem idle_publish {h : List (Nat × Event)} (hjust : rules.Justified h) (hordered : Ordered h)
    {j id : Nat} {kind : Kind} {rows : List (Nat × Delivery)} {new : Delivery}
    (hstores : Stores h j rows kind) (hnew : rowOf rows id = some new)
    (hqueued : new.state = .queued) : turn ((j, .stored kind rows) :: h) id = none := by
  rw [turn_publish hnew]
  cases kind with
  | queue =>
      obtain ⟨k, now, rfl, hnone⟩ := hstores
      obtain ⟨rfl, -⟩ := rowOf_singleton hnew
      simpa using hordered.absent _ hnone
  | claim =>
      obtain ⟨k, old, row, ⟨rfl, hold⟩, -, hstate, -⟩ := hstores
      obtain ⟨rfl, rfl⟩ := rowOf_singleton hnew
      simpa using hordered.idle _ old hold (hstate ▸ hqueued)
  | authorize =>
      obtain ⟨k, old, row, ⟨rfl, -⟩, -, -, -, hstate, -⟩ := hstores
      obtain ⟨-, rfl⟩ := rowOf_singleton hnew
      rw [hstate] at hqueued
      cases hqueued
  | requeue => rfl
  | finish =>
      obtain ⟨k, old, row, loaded, state, ⟨rfl, hold⟩, htoken, hstate, hc, hloaded⟩ := hstores
      obtain ⟨rfl, rfl⟩ := rowOf_singleton hnew
      exact absurd hqueued (finish_not_queued hordered hold htoken hstate hc hloaded)
  | cancel =>
      obtain ⟨old, loaded, found, -, hlisted, hrow, hc⟩ := hstores id new (mem_of_rowOf hnew)
      have hloaded := listed_queued hjust hlisted hrow
      cases hc.state with
      | inl hstate => rw [hstate] at hqueued; cases hqueued
      | inr hkept => rw [hkept.1] at hloaded; cases hloaded
  | bulkCancel =>
      obtain ⟨old, -, -, hstate, -⟩ := hstores id new (mem_of_rowOf hnew)
      rw [hstate] at hqueued
      cases hqueued
  | release =>
      obtain ⟨k, old, row, ⟨rfl, hold⟩, -, hstate, -⟩ := hstores
      obtain ⟨rfl, rfl⟩ := rowOf_singleton hnew
      simpa using hordered.idle _ old hold (hstate ▸ hqueued)

/-- A publication that leaves the lease of a thread leaves it its turn. -/
theorem holder_publish {h : List (Nat × Event)} (hordered : Ordered h) {i j id : Nat}
    {kind : Kind} {rows : List (Nat × Delivery)} {new : Delivery}
    (hstores : Stores h j rows kind) (hnew : rowOf rows id = some new)
    (htoken : new.leaseToken = some i)
    (hacts : Acts id (own i ((j, .stored kind rows) :: h))) :
    turn ((j, .stored kind rows) :: h) id = some i := by
  cases hstores.token hnew htoken with
  | inl hclaim =>
      -- a claim is the first event of its thread
      obtain ⟨rfl, rfl, hfresh⟩ := hclaim
      obtain ⟨row, hauthorize⟩ := hacts.authorized
      rw [own_cons_self, hfresh] at hauthorize
      simp at hauthorize
  | inr hkept =>
      obtain ⟨old, hold, htoken'⟩ := hkept
      have hrest (hclaims : kind ≠ .claim) (hauthorizes : kind ≠ .authorize)
          (hrequeues : kind ≠ .requeue) : turn ((j, .stored kind rows) :: h) id = some i := by
        rw [turn_publish hnew, if_neg hauthorizes, if_neg hrequeues]
        refine hordered.holder id old i hold htoken' (hacts.tail ?_ ?_)
        · exact fun row heq => hclaims (Event.stored.inj heq).1
        · exact fun row heq => hauthorizes (Event.stored.inj heq).1
      cases kind with
      | claim =>
          obtain ⟨k, old', row, ⟨rfl, hold'⟩, -, -, -, hrow, hfresh⟩ := hstores
          obtain ⟨rfl, rfl⟩ := rowOf_singleton hnew
          rw [htoken, Option.some.injEq] at hrow
          subst hrow
          obtain ⟨row, hauthorize⟩ := hacts.authorized
          rw [own_cons_self, hfresh] at hauthorize
          simp at hauthorize
      | authorize =>
          obtain ⟨k, old', row, ⟨rfl, hold'⟩, -, hmine, -⟩ := hstores
          have hkey := (rowOf_singleton hnew).1
          subst hkey
          rw [hold, Option.some.injEq] at hold'
          rw [← hold', htoken', Option.some.injEq] at hmine
          rw [turn_publish hnew, if_pos rfl, hmine]
      | requeue =>
          obtain ⟨k, old', row, outcome, ⟨rfl, hold'⟩, hmine, -⟩ := hstores
          have hkey := (rowOf_singleton hnew).1
          subst hkey
          rw [hold, Option.some.injEq] at hold'
          rw [← hold', htoken', Option.some.injEq] at hmine
          subst hmine
          exact absurd (by rw [own_cons_self]; exact List.mem_cons_self) (hacts.pending _)
      | queue => exact hrest (by simp) (by simp) (by simp)
      | finish => exact hrest (by simp) (by simp) (by simp)
      | cancel => exact hrest (by simp) (by simp) (by simp)
      | bulkCancel => exact hrest (by simp) (by simp) (by simp)
      | release => exact hrest (by simp) (by simp) (by simp)

/-- **Every history is ordered.** -/
theorem ordered {h : List (Nat × Event)} (hjust : rules.Justified h) : Ordered h := by
  induction h with
  | nil =>
      exact ⟨fun _ _ => rfl, fun _ _ _ _ => rfl, fun _ _ _ _ _ hacts => by
        obtain ⟨row, hmem⟩ := hacts.authorized
        cases hmem⟩
  | cons p h ih =>
      obtain ⟨j, e⟩ := p
      have hordered := ih hjust.2
      refine ⟨fun id hnone => ?_, fun id row hrow hqueued => ?_,
        fun id row i hrow htoken hacts => ?_⟩
      all_goals
        rcases publish_or_skip e id with ⟨kind, rows, new, rfl, hnew⟩ | hskip
      · rw [committedAt_publish hnew] at hnone
        cases hnone
      · obtain ⟨hcommitted, hturn, -⟩ := @committedAt_skip j id e h hskip
        rw [hturn]
        exact hordered.absent id (hcommitted ▸ hnone)
      · rw [committedAt_publish hnew, Option.some.injEq] at hrow
        subst hrow
        exact idle_publish hjust.2 hordered hjust.1 hnew hqueued
      · obtain ⟨hcommitted, hturn, -⟩ := @committedAt_skip j id e h hskip
        rw [hturn]
        exact hordered.idle id row (hcommitted ▸ hrow) hqueued
      · rw [committedAt_publish hnew, Option.some.injEq] at hrow
        subst hrow
        exact holder_publish hordered hjust.1 hnew htoken hacts
      · obtain ⟨hcommitted, hturn, hother⟩ := @committedAt_skip j id e h hskip
        rw [hturn]
        exact hordered.holder id row i (hcommitted ▸ hrow) htoken
          (hacts.tail (hother _) (hother _))

/-! ## sends -/

/-- A thread that moved a delivery to `SENDING` keeps its turn until it queues it again. -/
theorem turn_of_authorized {h : List (Nat × Event)} (hjust : rules.Justified h) {j id : Nat}
    {row : Delivery} (hauthorized : .stored .authorize [(id, row)] ∈ own j h)
    (hpending : ∀ rows, .stored .requeue rows ∉ own j h) : turn h id = some j := by
  induction h with
  | nil => cases hauthorized
  | cons p h ih =>
      obtain ⟨k, e⟩ := p
      have hordered := ordered hjust.2
      -- what the thread did before this event
      have hbefore (hne : k = j → e ≠ .stored .authorize [(id, row)]) : turn h id = some j := by
        by_cases hk : k = j
        · subst hk
          rw [own_cons_self] at hauthorized hpending
          refine ih hjust.2 ?_ fun rows hmem => hpending rows (List.mem_cons_of_mem _ hmem)
          cases List.mem_cons.mp hauthorized with
          | inl heq => exact absurd heq.symm (hne rfl)
          | inr hmem => exact hmem
        · rw [own_cons_of_ne hk] at hauthorized hpending
          exact ih hjust.2 hauthorized hpending
      rcases publish_or_skip e id with ⟨kind, rows, new, rfl, hnew⟩ | hskip
      · have hstores : Stores h k rows kind := hjust.1
        rw [turn_publish hnew]
        by_cases hauthorizes : kind = .authorize
        · subst hauthorizes
          rw [if_pos rfl]
          by_contra hne
          have hk : k ≠ j := fun heq => hne (by rw [heq])
          obtain ⟨id', old, new', ⟨rfl, hold⟩, hqueued, -⟩ := hstores
          obtain ⟨rfl, -⟩ := rowOf_singleton hnew
          have hturn := hbefore fun heq => absurd heq hk
          rw [hordered.idle _ old hold hqueued] at hturn
          cases hturn
        rw [if_neg hauthorizes]
        have hturn := hbefore fun _ heq => hauthorizes (Event.stored.inj heq).1
        by_cases hrequeues : kind = .requeue
        · subst hrequeues
          exfalso
          obtain ⟨id', old, new', outcome, ⟨rfl, hold⟩, htoken, -, -, -, hacts, -⟩ := hstores
          obtain ⟨rfl, -⟩ := rowOf_singleton hnew
          have hmine := hordered.holder _ old k hold htoken hacts
          rw [hturn, Option.some.injEq] at hmine
          subst hmine
          exact hpending _ (by rw [own_cons_self]; exact List.mem_cons_self)
        · rw [if_neg hrequeues]
          exact hturn
      · obtain ⟨-, hturn, hother⟩ := @committedAt_skip k id e h hskip
        rw [hturn]
        exact hbefore fun _ => hother _ row

/-- A thread sends once. -/
theorem sent_once {h : List (Nat × Event)} (hjust : rules.Justified h) {j id id' : Nat}
    {outcome outcome' : Outcome} (h₁ : .sent id outcome ∈ own j h)
    (h₂ : .sent id' outcome' ∈ own j h) : id = id' ∧ outcome = outcome' := by
  induction h with
  | nil => cases h₁
  | cons p h ih =>
      obtain ⟨k, e⟩ := p
      by_cases hk : k = j
      · subst hk
        rw [own_cons_self] at h₁ h₂
        cases List.mem_cons.mp h₁ with
        | inl heq₁ =>
            subst heq₁
            cases List.mem_cons.mp h₂ with
            | inl heq₂ =>
                cases heq₂
                exact ⟨rfl, rfl⟩
            | inr hmem₂ => exact absurd hmem₂ (hjust.1.2 _ _)
        | inr hmem₁ =>
            cases List.mem_cons.mp h₂ with
            | inl heq₂ =>
                subst heq₂
                exact absurd hmem₁ (hjust.1.2 _ _)
            | inr hmem₂ => exact ih hjust.2 hmem₁ hmem₂
      · rw [own_cons_of_ne hk] at h₁ h₂
        exact ih hjust.2 h₁ h₂

/-- What a thread sent it had moved to `SENDING`. -/
theorem sent_authorized {h : List (Nat × Event)} (hjust : rules.Justified h) {j id : Nat}
    {outcome : Outcome} (hsent : .sent id outcome ∈ own j h) :
    ∃ row, .stored .authorize [(id, row)] ∈ own j h := by
  obtain ⟨a, b, rfl⟩ := List.append_of_mem (mem_own.mp hsent)
  obtain ⟨row, hmem⟩ := hjust.allowed.1.authorized
  refine ⟨row, ?_⟩
  rw [own_append, own_cons_self]
  exact List.mem_append_right _ (List.mem_cons_of_mem _ hmem)

/-- A delivery that was sent is sent again only when a failure that allows it was
recorded by its sender. -/
theorem sent_again {h₁ h₂ : List (Nat × Event)} {i j id : Nat} {outcome outcome' : Outcome}
    (hjust : rules.Justified (h₁ ++ (i, .sent id outcome) :: h₂))
    (hearlier : (j, .sent id outcome') ∈ h₂) :
    outcome'.isRetryable = true ∧ ∃ a b row, h₂ = a ++ (j, .stored .requeue [(id, row)]) :: b ∧
      (j, .sent id outcome') ∈ b := by
  have hallowed : Acts id (own i h₂) ∧ ∀ id' outcome, .sent id' outcome ∉ own i h₂ :=
    hjust.allowed
  have hrest : rules.Justified h₂ := (hjust.suffix : rules.Justified (_ :: h₂)).2
  obtain ⟨row, hauthorized⟩ := hallowed.1.authorized
  have hturn := turn_of_authorized hrest hauthorized hallowed.1.pending
  have hsent := mem_own.mpr hearlier
  have hne : j ≠ i := fun heq => hallowed.2 _ _ (heq ▸ hsent)
  obtain ⟨row', hauthorized'⟩ := sent_authorized hrest hsent
  -- it is the turn of `i`, so `j` has given it up
  have hrequeued : ∃ rows, .stored .requeue rows ∈ own j h₂ := by
    by_contra hnone
    have hturn' := turn_of_authorized hrest hauthorized' fun rows hmem => hnone ⟨rows, hmem⟩
    rw [hturn, Option.some.injEq] at hturn'
    exact hne hturn'.symm
  obtain ⟨rows, hrequeued⟩ := hrequeued
  obtain ⟨a, b, rfl⟩ := List.append_of_mem (mem_own.mp hrequeued)
  obtain ⟨id', old, new, outcome'', ⟨rfl, -⟩, -, -, -, -, -, hsent', hretryable⟩ :=
    hrest.allowed
  have hsent'' : .sent id' outcome'' ∈ own j (a ++ (j, .stored .requeue [(id', new)]) :: b) := by
    rw [own_append, own_cons_self]
    exact List.mem_append_right _ (List.mem_cons_of_mem _ hsent')
  obtain ⟨rfl, rfl⟩ := sent_once hrest hsent hsent''
  exact ⟨hretryable, a, b, new, rfl, mem_own.mp hsent'⟩

/-! ## attempts -/

/-- The threads that sent a delivery. -/
def senders (h : List (Nat × Event)) (id : Nat) : List Nat :=
  h.filterMap fun p =>
    match p.2 with
    | .sent id' _ => if id' = id then some p.1 else none
    | _ => none

/-- The threads that moved a delivery to `SENDING`. -/
def authorizers (h : List (Nat × Event)) (id : Nat) : List Nat :=
  h.filterMap fun p =>
    match p.2 with
    | .stored .authorize rows => if (rowOf rows id).isSome then some p.1 else none
    | _ => none

theorem mem_senders {h : List (Nat × Event)} {id j : Nat} :
    j ∈ senders h id ↔ ∃ outcome, (j, .sent id outcome) ∈ h := by
  simp only [senders, List.mem_filterMap]
  constructor
  · rintro ⟨⟨k, e⟩, hmem, heq⟩
    cases e <;> simp only [reduceCtorEq, Option.ite_none_right_eq_some, Option.some.injEq] at heq
    obtain ⟨rfl, rfl⟩ := heq
    exact ⟨_, hmem⟩
  · rintro ⟨outcome, hmem⟩
    exact ⟨_, hmem, by simp⟩

theorem mem_authorizers {h : List (Nat × Event)} {id j : Nat} {row : Delivery}
    (hmem : (j, .stored .authorize [(id, row)]) ∈ h) : j ∈ authorizers h id := by
  simp only [authorizers, List.mem_filterMap]
  exact ⟨_, hmem, by simp [rowOf]⟩

/-- The attempts a delivery counts are those of the record. -/
theorem authorizers_length {h : List (Nat × Event)} (hjust : rules.Justified h) (id : Nat) :
    match feed.committedAt h id with
    | none => authorizers h id = []
    | some row => (authorizers h id).length = row.attemptCount ∧
        row.attemptCount ≤ maxNotificationAttempts := by
  induction h with
  | nil => rfl
  | cons p h ih =>
      obtain ⟨j, e⟩ := p
      have hrest := ih hjust.2
      rcases publish_or_skip e id with ⟨kind, rows, new, rfl, hnew⟩ | hskip
      · rw [committedAt_publish hnew]
        have hlength : (authorizers ((j, .stored kind rows) :: h) id).length =
            (authorizers h id).length + (if kind = .authorize then 1 else 0) := by
          cases kind <;> simp [authorizers, hnew]
        have hstores : Stores h j rows kind := hjust.1
        simp only [hlength]
        cases hstores.attempts hnew with
        | inl hqueue =>
            obtain ⟨rfl, hnone, hzero⟩ := hqueue
            rw [hnone] at hrest
            simp [hrest, hzero]
        | inr hkept =>
            obtain ⟨old, hold, hnext, hbound⟩ := hkept
            rw [hold] at hrest
            obtain ⟨hcount, hle⟩ := hrest
            refine ⟨by rw [hnext, hcount], ?_⟩
            rw [hnext]
            split
            · rename_i hkind
              exact hbound hkind
            · exact hle
      · obtain ⟨hcommitted, -, -⟩ := @committedAt_skip j id e h hskip
        have hsame : authorizers ((j, e) :: h) id = authorizers h id := by
          cases e with
          | stored kind rows =>
              have hnone := hskip kind rows rfl
              cases kind <;> simp [authorizers, hnone]
          | _ => rfl
        rw [hcommitted, hsame]
        exact hrest

theorem senders_nodup {h : List (Nat × Event)} (hjust : rules.Justified h) (id : Nat) :
    (senders h id).Nodup := by
  induction h with
  | nil => exact List.nodup_nil
  | cons p h ih =>
      obtain ⟨j, e⟩ := p
      have hrest := ih hjust.2
      cases e with
      | sent id' outcome =>
          by_cases hid : id' = id
          · subst hid
            have hcons : senders ((j, .sent id' outcome) :: h) id' = j :: senders h id' := by
              simp [senders]
            rw [hcons, List.nodup_cons]
            refine ⟨fun hmem => ?_, hrest⟩
            obtain ⟨outcome', hmem⟩ := mem_senders.mp hmem
            exact hjust.1.2 _ _ (mem_own.mpr hmem)
          · have hsame : senders ((j, .sent id' outcome) :: h) id = senders h id := by
              simp [senders, hid]
            rw [hsame]
            exact hrest
      | _ => exact hrest

/-- A delivery is sent at most as often as attempts are allowed. -/
theorem senders_length {h : List (Nat × Event)} (hjust : rules.Justified h) (id : Nat) :
    (senders h id).length ≤ maxNotificationAttempts := by
  have hsubset : senders h id ⊆ authorizers h id := by
    intro j hj
    obtain ⟨outcome, hmem⟩ := mem_senders.mp hj
    obtain ⟨row, hauthorized⟩ := sent_authorized hjust (mem_own.mpr hmem)
    exact mem_authorizers (mem_own.mp hauthorized)
  have hle := (List.subperm_of_subset (senders_nodup hjust id) hsubset).length_le
  have hcount := authorizers_length hjust id
  split at hcount
  · rw [hcount] at hle
    exact Nat.le_trans hle (Nat.zero_le _)
  · omega

/-! ## terminal states -/

/-- Every delivery `_cancel_invalid_queued_deliveries` writes back is still as it was
loaded. -/
def WrittenBackAsLoaded (h : List (Nat × Event)) : Prop :=
  ∀ h₁ h₂ i rows, h = h₁ ++ (i, .stored .cancel rows) :: h₂ → ∀ id new, (id, new) ∈ rows →
    ∀ found loaded, .listed found ∈ own i h₂ → (id, loaded) ∈ found →
      feed.committedAt h₂ id = some loaded

/-- A delivery in a terminal state keeps it. -/
def Absorbing (h : List (Nat × Event)) : Prop :=
  ∀ h₁ h₂ i kind rows, h = h₁ ++ (i, .stored kind rows) :: h₂ → ∀ id old new,
    feed.committedAt h₂ id = some old → old.state.isTerminal = true →
    rowOf rows id = some new → new.state = old.state

theorem WrittenBackAsLoaded.tail {p : Nat × Event} {h : List (Nat × Event)}
    (hwritten : WrittenBackAsLoaded (p :: h)) : WrittenBackAsLoaded h := by
  intro h₁ h₂ i rows heq
  exact hwritten (p :: h₁) h₂ i rows (by rw [heq, List.cons_append])

/-- A lease that is lost does not come back. -/
theorem token_was {h₁ h₂ : List (Nat × Event)} (hjust : rules.Justified (h₁ ++ h₂)) {i id : Nat}
    {claimed row : Delivery} (hclaimed : .stored .claim [(id, claimed)] ∈ own i h₂)
    (hrow : feed.committedAt (h₁ ++ h₂) id = some row) (htoken : row.leaseToken = some i) :
    ∃ row', feed.committedAt h₂ id = some row' ∧ row'.leaseToken = some i := by
  induction h₁ generalizing row with
  | nil => exact ⟨row, hrow, htoken⟩
  | cons p h₁ ih =>
      obtain ⟨j, e⟩ := p
      rw [List.cons_append] at hjust hrow
      rcases publish_or_skip e id with ⟨kind, rows, new, rfl, hnew⟩ | hskip
      · rw [committedAt_publish hnew, Option.some.injEq] at hrow
        subst hrow
        have hstores : Stores (h₁ ++ h₂) j rows kind := hjust.1
        cases hstores.token hnew htoken with
        | inl hclaim =>
            -- a thread claims once
            obtain ⟨-, rfl, hfresh⟩ := hclaim
            rw [own_append, List.append_eq_nil_iff] at hfresh
            rw [hfresh.2] at hclaimed
            cases hclaimed
        | inr hkept =>
            obtain ⟨old, hold, htoken'⟩ := hkept
            exact ih hjust.2 hold htoken'
      · obtain ⟨hcommitted, -, -⟩ := @committedAt_skip j id e (h₁ ++ h₂) hskip
        exact ih hjust.2 (hcommitted ▸ hrow) htoken

/-- A claim comes before everything else its thread records. -/
theorem claimed_before {h : List (Nat × Event)} (hjust : rules.Justified h) {i id : Nat}
    {row : Delivery} {e : Event} (hne : ∀ rows, e ≠ .stored .claim rows)
    (hclaimed : .stored .claim [(id, row)] ∈ own i h) (hmem : e ∈ own i h) :
    ∃ a b, h = a ++ (i, e) :: b ∧ .stored .claim [(id, row)] ∈ own i b := by
  obtain ⟨a, b, rfl⟩ := List.append_of_mem (mem_own.mp hmem)
  refine ⟨a, b, rfl, ?_⟩
  cases List.mem_append.mp (mem_own.mp hclaimed) with
  | inl hafter =>
      obtain ⟨a₁, a₂, rfl⟩ := List.append_of_mem hafter
      rw [List.append_assoc, List.cons_append] at hjust
      obtain ⟨id', old, new, -, -, -, -, -, hfresh⟩ := hjust.allowed
      simp [own_append] at hfresh
  | inr hbefore =>
      cases List.mem_cons.mp hbefore with
      | inl heq => exact absurd (Prod.mk.inj heq).2.symm (hne _)
      | inr hmem => exact mem_own.mpr hmem

/-- What a thread loads while the lease is its own carries the lease. -/
theorem reloaded_token {h : List (Nat × Event)} (hjust : rules.Justified h) {i id : Nat}
    {loaded row : Delivery} (hacts : Acts id (own i h))
    (hreloaded : .reloaded id (some loaded) ∈ own i h)
    (hrow : feed.committedAt h id = some row) (htoken : row.leaseToken = some i) :
    loaded.leaseToken = some i := by
  obtain ⟨claimed, hclaimed⟩ := hacts.claimed
  obtain ⟨a, b, rfl, hbefore⟩ := claimed_before hjust (by simp) hclaimed hreloaded
  have hloaded : some loaded = feed.committedAt b id := hjust.allowed
  have hsplit : a ++ (i, .reloaded id (some loaded)) :: b =
      (a ++ [(i, .reloaded id (some loaded))]) ++ b := by simp
  rw [hsplit] at hjust hrow
  obtain ⟨row', hrow', htoken'⟩ := token_was hjust hbefore hrow htoken
  rw [← hloaded, Option.some.injEq] at hrow'
  rw [hrow']
  exact htoken'

/-- A delivery in a terminal state is not leased. -/
theorem terminal_free {h : List (Nat × Event)} (hjust : rules.Justified h)
    (hwritten : WrittenBackAsLoaded h) {id : Nat} {row : Delivery}
    (hrow : feed.committedAt h id = some row) (hterminal : row.state.isTerminal = true) :
    row.leaseToken = none := by
  induction h generalizing row with
  | nil => cases hrow
  | cons p h ih =>
      obtain ⟨j, e⟩ := p
      have hrest {row : Delivery} (hrow : feed.committedAt h id = some row)
          (hterminal : row.state.isTerminal = true) : row.leaseToken = none :=
        ih hjust.2 hwritten.tail hrow hterminal
      rcases publish_or_skip e id with ⟨kind, rows, new, rfl, hnew⟩ | hskip
      · rw [committedAt_publish hnew, Option.some.injEq] at hrow
        subst hrow
        have hstores : Stores h j rows kind := hjust.1
        cases kind with
        | queue =>
            obtain ⟨k, now, rfl, -⟩ := hstores
            obtain ⟨-, rfl⟩ := rowOf_singleton hnew
            cases hterminal
        | claim =>
            obtain ⟨k, old, row, ⟨rfl, -⟩, hlive, hstate, -⟩ := hstores
            obtain ⟨-, rfl⟩ := rowOf_singleton hnew
            rw [hstate, hlive] at hterminal
            cases hterminal
        | authorize =>
            obtain ⟨k, old, row, ⟨rfl, -⟩, -, -, -, hstate, -⟩ := hstores
            obtain ⟨-, rfl⟩ := rowOf_singleton hnew
            rw [hstate] at hterminal
            cases hterminal
        | requeue =>
            obtain ⟨k, old, row, outcome, ⟨rfl, hold⟩, htoken, hstate, -⟩ := hstores
            obtain ⟨rfl, rfl⟩ := rowOf_singleton hnew
            cases hstate with
            | inl hqueued => rw [hqueued] at hterminal; cases hterminal
            | inr hsame =>
                rw [hsame] at hterminal
                rw [hrest hold hterminal] at htoken
                cases htoken
        | finish =>
            obtain ⟨k, old, row, loaded, state, ⟨rfl, hold⟩, htoken, -, hc, hloaded⟩ := hstores
            obtain ⟨rfl, rfl⟩ := rowOf_singleton hnew
            cases hc.token with
            | inl hnone => exact hnone
            | inr hkept =>
                exfalso
                have htaken : loaded.leaseToken = some j := by
                  cases hloaded with
                  | inl heq => rw [heq]; exact htoken
                  | inr hacts => exact reloaded_token hjust.2 hacts.2 hacts.1 hold htoken
                rw [hkept.1] at htaken
                cases htaken
        | cancel =>
            have hmem := mem_of_rowOf hnew
            obtain ⟨old, loaded, found, hold, hlisted, hfound, hc⟩ := hstores id new hmem
            have hsame := hwritten [] h j rows rfl id new hmem found loaded hlisted hfound
            rw [hold, Option.some.injEq] at hsame
            cases hc.token with
            | inl hnone => exact hnone
            | inr hkept => rw [hkept.2, hsame, hkept.1]
        | bulkCancel =>
            obtain ⟨old, -, -, -, -, hnone⟩ := hstores id new (mem_of_rowOf hnew)
            exact hnone
        | release =>
            obtain ⟨k, old, row, ⟨rfl, -⟩, -, -, -, hnone⟩ := hstores
            obtain ⟨-, rfl⟩ := rowOf_singleton hnew
            exact hnone
      · obtain ⟨hcommitted, -, -⟩ := @committedAt_skip j id e h hskip
        exact hrest (hcommitted ▸ hrow) hterminal

/-- Where what is written back is as it was loaded, terminal states are kept. -/
theorem absorbing_of_written {h : List (Nat × Event)} (hjust : rules.Justified h)
    (hwritten : WrittenBackAsLoaded h) : Absorbing h := by
  intro h₁ h₂ i kind rows heq id old new hold hterminal hnew
  subst heq
  have hrest : rules.Justified ((i, .stored kind rows) :: h₂) := hjust.suffix
  have hwritten₂ : WrittenBackAsLoaded ((i, .stored kind rows) :: h₂) := by
    clear hjust hrest
    induction h₁ with
    | nil => exact hwritten
    | cons p h₁ ih => exact ih hwritten.tail
  have hfree := terminal_free hrest.2 hwritten₂.tail hold hterminal
  -- a delivery that nobody leases and that is not queued is published by nobody
  have hleased {j : Nat} {old' : Delivery} (hold' : feed.committedAt h₂ id = some old')
      (htoken : old'.leaseToken = some j) : False := by
    rw [hold, Option.some.injEq] at hold'
    rw [← hold', hfree] at htoken
    cases htoken
  have hqueued {old' : Delivery} (hold' : feed.committedAt h₂ id = some old')
      (hstate : old'.state.isTerminal = false) : False := by
    rw [hold, Option.some.injEq] at hold'
    rw [← hold', hterminal] at hstate
    cases hstate
  have hstores : Stores h₂ i rows kind := hrest.1
  exfalso
  cases kind with
  | queue =>
      obtain ⟨k, now, rfl, hnone⟩ := hstores
      obtain ⟨rfl, -⟩ := rowOf_singleton hnew
      rw [hold] at hnone
      cases hnone
  | claim =>
      obtain ⟨k, old', row, ⟨rfl, hold'⟩, hlive, -⟩ := hstores
      obtain ⟨rfl, -⟩ := rowOf_singleton hnew
      exact hqueued hold' hlive
  | authorize =>
      obtain ⟨k, old', row, ⟨rfl, hold'⟩, hstate, -⟩ := hstores
      obtain ⟨rfl, -⟩ := rowOf_singleton hnew
      exact hqueued hold' (by rw [hstate]; rfl)
  | requeue =>
      obtain ⟨k, old', row, outcome, ⟨rfl, hold'⟩, htoken, -⟩ := hstores
      obtain ⟨rfl, -⟩ := rowOf_singleton hnew
      exact hleased hold' htoken
  | finish =>
      obtain ⟨k, old', row, loaded, state, ⟨rfl, hold'⟩, htoken, -⟩ := hstores
      obtain ⟨rfl, -⟩ := rowOf_singleton hnew
      exact hleased hold' htoken
  | cancel =>
      have hmem := mem_of_rowOf hnew
      obtain ⟨old', loaded, found, hold', hlisted, hfound, -⟩ := hstores id new hmem
      have hsame := hwritten₂ [] h₂ i rows rfl id new hmem found loaded hlisted hfound
      exact hqueued hsame (by rw [listed_queued hrest.2 hlisted hfound]; rfl)
  | bulkCancel =>
      obtain ⟨old', hold', hstate, -⟩ := hstores id new (mem_of_rowOf hnew)
      exact hqueued hold' (by rw [hstate]; rfl)
  | release =>
      obtain ⟨k, old', row, ⟨rfl, hold'⟩, htoken, -⟩ := hstores
      obtain ⟨rfl, -⟩ := rowOf_singleton hnew
      exact hleased hold' htoken

end Notifications

end Backend
