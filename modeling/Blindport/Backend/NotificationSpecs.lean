import Blindport.Backend.NotificationHistory

/-!
# Blindport.Backend.NotificationSpecs

The programs of the outbox keep to the rules of its record, one specification each,
and the two contracts of the outbox: a delivery is sent at most once unless a failure
that allows it was recorded, and terminal states are kept where nothing is written back
over a change.
-/

namespace Backend

namespace Notifications

open Conc Journal Rules

/-! ## flushes -/

/-- A flush of a terminal state over a row that differs from the old one in the end of
its lease at most. -/
theorem closes_flushed {loaded assigned old row : Delivery} {state : DeliveryState}
    (hassigned : assigned.state = state) (hcount : assigned.attemptCount = loaded.attemptCount)
    (htoken : assigned.leaseToken = none) (hstate : row.state = old.state)
    (hcount' : row.attemptCount = old.attemptCount) (htoken' : row.leaseToken = old.leaseToken) :
    Closes loaded state old (flushed loaded assigned row) where
  attempts := by simp [flushed, written, hcount, hcount']
  state := by
    simp only [flushed, written, hassigned]
    split
    · rename_i heq
      exact .inr ⟨heq.symm, hstate⟩
    · exact .inl rfl
  token := by
    simp only [flushed, written, htoken]
    split
    · rename_i heq
      exact .inr ⟨heq.symm, htoken'⟩
    · exact .inl rfl

/-- A flush over the row that was loaded writes all that was assigned. -/
theorem flushed_self (loaded assigned : Delivery) : flushed loaded assigned loaded = assigned := by
  have hcolumn {α : Type} [DecidableEq α] (a b : α) : written a b a = b := by
    unfold written
    split
    · rename_i heq
      exact heq.symm
    · rfl
  simp [flushed, hcolumn]

variable {lease : Int} {i id : Nat} {es : List Event} {X : Error → World → Prop}

/-- What holds of a session wherever it stops. -/
def Somewhere (i : Nat) (g : World) : Prop := ∃ es hs, At i es hs g

/-- What holds of a session that has locked nothing. -/
def Unlocked (i : Nat) (g : World) : Prop := ∃ es, At i es free g

/-- A locked delivery is assigned to and committed. -/
theorem save_spec {kind : Kind} {loaded assigned old row : Delivery}
    (hstores : ∀ h, own i h = es → feed.committedAt h id = some old →
      Stores h i [(id, flushed loaded assigned row)] kind) :
    rules.discipline.Triple i (At i es (only id (some old) row))
      (save i id kind loaded assigned)
      (fun _ => At i (.stored kind [(id, flushed loaded assigned row)] :: es) free) X := by
  have hheld : only id (some old) row id = some (some old, row) := by simp [only]
  unfold save flush
  refine (triple_update_held hheld).bind fun result => ?_
  cases result with
  | missed => exact .assume fun hfalse => absurd hfalse (by simp)
  | taken =>
      refine .assume fun htaken => ?_
      obtain ⟨r, hr⟩ := htaken
      cases hr
  | done =>
      refine .assume fun _ => ?_
      have honly : Function.update (only id (some old) row) id
          (some (some old, flushed loaded assigned row)) =
          only id (some old) (flushed loaded assigned row) := by
        simp [only]
      rw [honly]
      exact triple_commit_only rfl fun g hinv hown hold => hstores g.history hown hold

/-- A delivery whose lease is checked is assigned to and committed. -/
theorem saveFenced_spec {kind : Kind} {loaded assigned : Delivery}
    (hstores : ∀ h old until', own i h = es → feed.committedAt h id = some old →
      old.leaseToken = some i →
      Stores h i [(id, flushed loaded assigned { old with leaseUntil := until' })] kind) :
    rules.discipline.Triple i (At i es free) (saveFenced lease i id kind loaded assigned)
      (fun _ => Unlocked i) X := by
  unfold saveFenced
  refine triple_input.bind fun fencedAt => (triple_update rfl).bind fun fence => ?_
  cases fence with
  | missed => exact triple_rollback.mono (fun _ _ _ hat => ⟨es, hat⟩) fun _ _ h => h
  | taken =>
      exact .assume fun _ => triple_rollback.mono (fun _ _ _ hat => ⟨es, hat⟩) fun _ _ h => h
  | done =>
      refine triple_exists fun old => .assume fun htoken => ?_
      have htoken : old.leaseToken = some i := by simpa using htoken
      refine Discipline.Triple.mono (save_spec fun h hown hold => ?_)
        (fun _ _ _ hat => ⟨_, hat⟩) fun _ _ h => h
      exact hstores h old _ hown hold htoken

/-- The end of a delivery behind the fence. -/
theorem finishFenced_spec {loaded assigned : Delivery} (hacts : Acts id es)
    (hreloaded : .reloaded id (some loaded) ∈ es) (hterminal : assigned.state.isTerminal = true)
    (hcount : assigned.attemptCount = loaded.attemptCount) (htoken : assigned.leaseToken = none) :
    rules.discipline.Triple i (At i es free) (saveFenced lease i id .finish loaded assigned)
      (fun _ => Unlocked i) X := by
  refine saveFenced_spec fun h old until' hown hold hleased => ?_
  subst hown
  exact ⟨id, old, _, loaded, _, ⟨rfl, hold⟩, hleased, hterminal,
    closes_flushed rfl hcount htoken rfl rfl rfl, .inr ⟨hreloaded, hacts⟩⟩

theorem recordOutcome_spec {loaded : Delivery} {now : Datetime} {outcome : Outcome}
    (hacts : Acts id es) (hreloaded : .reloaded id (some loaded) ∈ es)
    (hsent : .sent id outcome ∈ es) :
    rules.discipline.Triple i (At i es free) (recordOutcome lease i id loaded now outcome)
      (fun _ => Unlocked i) X := by
  unfold recordOutcome
  cases outcome with
  | delivered => exact finishFenced_spec hacts hreloaded rfl rfl rfl
  | raised => exact finishFenced_spec hacts hreloaded rfl rfl rfl
  | smtpError code retryable ambiguous =>
      simp only
      split
      · exact finishFenced_spec hacts hreloaded rfl rfl rfl
      rename_i hclear
      split
      · rename_i hretry
        have hretryable : (Outcome.smtpError code retryable ambiguous).isRetryable = true := by
          simp [Outcome.isRetryable, hretry.1, hclear]
        refine saveFenced_spec fun h old until' hown hold hleased => ?_
        subst hown
        refine ⟨id, old, _, _, ⟨rfl, hold⟩, hleased, ?_, ?_, ?_, hacts, hsent, hretryable⟩
        · simp only [flushed, written]
          split
          · exact .inr rfl
          · exact .inl rfl
        · simp [flushed, written]
        · simp [flushed, written]
      · exact finishFenced_spec hacts hreloaded rfl rfl rfl

/-! ## sending -/

theorem reload_spec :
    rules.discipline.Triple i (At i es free) (reload i id)
      (fun loaded => At i (.reloaded id (some loaded) :: es) free) (fun _ => Somewhere i) := by
  unfold reload
  refine (triple_load (F := fun _ => True) (fun _ => rfl) fun g hinv hat => ⟨?_, trivial⟩).bind
    fun row => .assume fun _ => ?_
  · change g.get i id = _
    rw [get_of_held_none (congrFun hat.2 id)]
    exact hinv.committed id
  · cases row with
    | none => exact .raise fun g _ hat => ⟨_, _, hat⟩
    | some loaded => exact .pure fun g _ hat => hat

theorem Acts.reloaded (h : Acts id es) (row : Option Delivery) : Acts id (.reloaded id row :: es) :=
  ⟨h.claimed.imp fun _ => List.mem_cons_of_mem _, h.authorized.imp fun _ => List.mem_cons_of_mem _,
    fun rows hmem => by
      simp only [List.mem_cons, reduceCtorEq, false_or] at hmem
      exact h.pending rows hmem⟩

theorem Acts.sent {outcome : Outcome} (h : Acts id es) : Acts id (.sent id outcome :: es) :=
  ⟨h.claimed.imp fun _ => List.mem_cons_of_mem _, h.authorized.imp fun _ => List.mem_cons_of_mem _,
    fun rows hmem => by
      simp only [List.mem_cons, reduceCtorEq, false_or] at hmem
      exact h.pending rows hmem⟩

theorem sendMessage_spec (hacts : Acts id es) (hfirst : ∀ id' outcome, .sent id' outcome ∉ es) :
    rules.discipline.Triple i (At i es free) (sendMessage i id)
      (fun outcome => At i (.sent id outcome :: es) free) X := by
  refine Discipline.Triple.atomic stable_at fun ω g g' b hinv hat hact => ?_
  obtain ⟨rfl, rfl⟩ := Prod.mk.inj (Option.some.inj hact)
  refine ⟨.single (.note rfl ?_), at_note hat⟩
  change Acts id (own i g.history) ∧ _
  rw [hat.1]
  exact ⟨hacts, hfirst⟩

theorem crossBoundary_spec {now : Datetime} {claimed authorized : Delivery} :
    rules.discipline.Triple i
      (At i [.stored .authorize [(id, authorized)], .stored .claim [(id, claimed)]] free)
      (crossBoundary lease i id now) (fun _ => Unlocked i) (fun _ => Somewhere i) := by
  have hacts : Acts id [.stored .authorize [(id, authorized)], .stored .claim [(id, claimed)]] :=
    ⟨⟨claimed, by simp⟩, ⟨authorized, by simp⟩, by simp⟩
  unfold crossBoundary
  refine reload_spec.bind fun loaded => triple_input.bind fun available => ?_
  split
  · refine reload_spec.bind fun loaded' => triple_input.bind fun eligible => ?_
    have hacts' := (hacts.reloaded (some loaded)).reloaded (some loaded')
    split
    · refine triple_input.bind fun rendered => ?_
      split
      · refine (sendMessage_spec hacts' (by simp)).bind fun outcome => ?_
        exact recordOutcome_spec hacts'.sent (by simp) (by simp)
      · exact finishFenced_spec hacts' (by simp) rfl rfl rfl
    · exact finishFenced_spec hacts' (by simp) rfl rfl rfl
  · exact finishFenced_spec (hacts.reloaded (some loaded)) (by simp) rfl rfl rfl

/-- The end of a delivery under its lock. -/
theorem finishLocked_spec {delivery assigned : Delivery} (hleased : delivery.leaseToken = some i)
    (hterminal : assigned.state.isTerminal = true)
    (hcount : assigned.attemptCount = delivery.attemptCount)
    (htoken : assigned.leaseToken = none) :
    rules.discipline.Triple i (At i es (only id (some delivery) delivery))
      (save i id .finish delivery assigned) (fun _ => Unlocked i) X := by
  refine Discipline.Triple.mono (save_spec fun h hown hold => ?_)
    (fun _ _ _ hat => ⟨_, hat⟩) fun _ _ h => h
  exact ⟨id, delivery, _, delivery, _, ⟨rfl, hold⟩, hleased, hterminal,
    closes_flushed rfl hcount htoken rfl rfl rfl, .inl rfl⟩

theorem sendNotification_spec {delivery claimed : Delivery} {now : Datetime}
    (hleased : delivery.leaseToken = some i) :
    rules.discipline.Triple i
      (At i [.stored .claim [(id, claimed)]] (only id (some delivery) delivery))
      (sendNotification lease i id delivery now) (fun _ => Unlocked i) (fun _ => Somewhere i) := by
  unfold sendNotification
  split
  · exact .raise fun g _ hat => ⟨_, _, hat⟩
  rename_i hqueued
  have hqueued : delivery.state = .queued := by simpa using hqueued
  split
  · exact finishLocked_spec hleased rfl rfl rfl
  rename_i hcount
  refine Discipline.Triple.bind (save_spec fun h hown hold => ?_) fun _ => crossBoundary_spec
  rw [flushed_self]
  exact ⟨id, delivery, _, ⟨rfl, hold⟩, hqueued, hleased, by omega, rfl, rfl, rfl, claimed, hown⟩

theorem processClaimedDelivery_spec {claimed : Delivery} {now : Datetime} :
    rules.discipline.Triple i (At i [.stored .claim [(id, claimed)]] free)
      (processClaimedDelivery lease i id now) (fun _ => Unlocked i) (fun _ => Somewhere i) := by
  unfold processClaimedDelivery
  refine (triple_lock rfl).bind fun row => ?_
  cases row with
  | none => exact .pure fun g _ hat => ⟨_, hat⟩
  | some delivery =>
      refine .assume fun hleased => ?_
      have hleased : delivery.leaseToken = some i := by simpa using hleased
      simp only
      split
      · exact finishLocked_spec hleased rfl rfl rfl
      refine triple_input.bind fun userExists => ?_
      split
      · refine triple_input.bind fun eligible => ?_
        split
        · refine triple_input.bind fun adapter => ?_
          split
          · exact sendNotification_spec hleased
          · exact .raise fun g _ hat => ⟨_, _, hat⟩
        · exact finishLocked_spec hleased rfl rfl rfl
      · exact finishLocked_spec hleased rfl rfl rfl

/-! ## leases -/

theorem claimDueDelivery_spec :
    rules.discipline.Triple i (At i [] free) (claimDueDelivery lease i)
      (fun o g => match o with
        | none => At i [] free g
        | some id => ∃ claimed, At i [.stored .claim [(id, claimed)]] free g) X := by
  unfold claimDueDelivery
  refine triple_input.bind fun now => ?_
  refine (triple_query (F := fun _ => True) fun _ _ _ => trivial).bind fun found =>
    .assume fun _ => ?_
  cases found with
  | none => exact .pure fun g _ hat => hat
  | some p =>
      obtain ⟨id, seen⟩ := p
      have hmissed (result : Written) (hne : result ≠ .done) :
          rules.discipline.Triple i (At i [] free)
            (do
              commitAll (Event.stored .claim) i
              if result = .done then pure (some id) else pure none : Db (Option Nat))
            (fun o g => match o with
              | none => At i [] free g
              | some id => ∃ claimed, At i [.stored .claim [(id, claimed)]] free g) X := by
        refine (triple_commit_free fun _ => rfl).bind fun _ => ?_
        rw [if_neg hne]
        exact .pure fun g _ hat => hat
      refine (triple_update rfl).bind fun result => ?_
      cases result with
      | missed => exact hmissed .missed (by simp)
      | taken => exact .assume fun _ => hmissed .taken (by simp)
      | done =>
          refine triple_exists fun old => .assume fun hdue => ?_
          have hlive : old.state.isTerminal = false := by
            simp only [Delivery.isDue, decide_eq_true_eq] at hdue
            cases hdue.1 with
            | inl hstate => rw [hstate]; rfl
            | inr hstate => rw [hstate]; rfl
          refine Discipline.Triple.bind (triple_commit_only rfl fun g hinv hown hold => ?_)
            fun _ => .pure fun g _ hat => ⟨_, hat⟩
          exact ⟨id, old, _, ⟨rfl, hold⟩, hlive, rfl, rfl, rfl, hown⟩

theorem releaseLease_spec :
    rules.discipline.Triple i (At i es free) (releaseLease i id) (fun _ => Unlocked i) X := by
  unfold releaseLease
  refine (triple_update rfl).bind fun result => ?_
  cases result with
  | missed =>
      exact (triple_commit_free fun _ => rfl).mono (fun _ _ _ hat => ⟨_, hat⟩) fun _ _ h => h
  | taken =>
      exact .assume fun _ =>
        (triple_commit_free fun _ => rfl).mono (fun _ _ _ hat => ⟨_, hat⟩) fun _ _ h => h
  | done =>
      refine triple_exists fun old => .assume fun hleased => ?_
      have hleased : old.leaseToken = some i := by simpa using hleased
      refine Discipline.Triple.mono (triple_commit_only rfl fun g hinv hown hold => ?_)
        (fun _ _ _ hat => ⟨_, hat⟩) fun _ _ h => h
      exact ⟨id, old, _, ⟨rfl, hold⟩, hleased, rfl, rfl, rfl⟩

theorem reconcileDelivery_spec :
    rules.discipline.Triple i (At i [] free) (reconcileDelivery lease i)
      (fun _ _ => True) (fun _ _ => True) := by
  unfold reconcileDelivery
  refine triple_input.bind fun attemptedAt => claimDueDelivery_spec.bind fun o => ?_
  cases o with
  | none => exact .pure fun _ _ _ => trivial
  | some id =>
      refine triple_exists fun claimed => ?_
      refine Discipline.Triple.bind (.tryCatch processClaimedDelivery_spec fun e => ?_) fun _ => ?_
      · refine triple_exists fun es => triple_exists fun hs => ?_
        exact triple_rollback.mono (fun _ _ _ hat => ⟨_, hat⟩) fun _ _ h => h
      · refine triple_exists fun es => ?_
        exact releaseLease_spec.mono (fun _ _ _ _ => trivial) fun _ _ h => h

/-! ## cancelling -/

theorem mem_deliveries {g : World} {row : Delivery} (hmem : (id, row) ∈ deliveries g i) :
    g.get i id = some row := by
  obtain ⟨id', -, hrow⟩ := List.mem_filterMap.mp hmem
  obtain ⟨row', hrow', heq⟩ := Option.map_eq_some_iff.mp hrow
  cases heq
  exact hrow'

theorem listQueued_spec {batchSize : Nat} :
    rules.discipline.Triple i (At i [] free) (listQueued i batchSize)
      (fun found g => (∀ id row, (id, row) ∈ found → row.state = .queued) ∧
        At i [.listed found] free g) X := by
  refine Discipline.Triple.atomic stable_at fun ω g g' b hinv hat hact => ?_
  obtain ⟨rfl, rfl⟩ := Prod.mk.inj (Option.some.inj hact)
  have hfound : ∀ id row, (id, row) ∈ (((deliveries g i).filter fun p =>
      p.2.state = .queued).insertionSort fun a b => a.1 ≤ b.1).take batchSize →
      feed.committedAt g.history id = some row ∧ row.state = .queued := by
    intro id row hmem
    have hmem := (List.perm_insertionSort _ _).mem_iff.mp (List.mem_of_mem_take hmem)
    obtain ⟨hmem, hstate⟩ := List.mem_filter.mp hmem
    refine ⟨?_, by simpa using hstate⟩
    rw [← mem_deliveries hmem, get_of_held_none (congrFun hat.2 id)]
    exact (hinv.committed id).symm
  exact ⟨.single (.note rfl hfound), fun id row hmem => (hfound id row hmem).2, at_note hat⟩

/-- What a canceller has written so far. -/
def Cancelling (i : Nat) (found : List (Nat × Delivery)) (g : World) : Prop :=
  ∃ hs, (∀ id old new, hs id = some (old, new) → ∃ row loaded, old = some row ∧
      (id, loaded) ∈ found ∧ Closes loaded .cancelled row new) ∧ At i [.listed found] hs g

/-- A second flush of the same delivery. -/
theorem Closes.again {loaded loaded' old row assigned : Delivery}
    (h : Closes loaded .cancelled old row) (hqueued : loaded'.state = .queued)
    (hstate : assigned.state = .cancelled) (hcount : assigned.attemptCount = loaded'.attemptCount)
    (htoken : assigned.leaseToken = none) :
    Closes loaded' .cancelled old (flushed loaded' assigned row) where
  attempts := by simp [flushed, written, hcount, h.attempts]
  state := .inl (by simp [flushed, written, hstate, hqueued])
  token := by
    simp only [flushed, written, htoken]
    split
    · rename_i heq
      cases h.token with
      | inl hnone => exact .inl hnone
      | inr hkept => exact .inr ⟨heq.symm, hkept.2⟩
    · exact .inl rfl

theorem cancelOne_spec {found : List (Nat × Delivery)} {now : Datetime}
    (hfound : ∀ id row, (id, row) ∈ found → row.state = .queued) {p : Nat × Delivery}
    (hp : p ∈ found) :
    rules.discipline.Triple i (Cancelling i found)
      (do
        if ← Journal.input Input.eligible then pure ()
        else
          let _ ← flush i p.1 p.2
            (p.2.terminal .cancelled (some "notification_no_longer_eligible") now) : Db Unit)
      (fun _ => Cancelling i found) X := by
  refine triple_exists fun hs => .assume fun hheld => triple_input.bind fun eligible => ?_
  have hkeep : ∀ g, At i [.listed found] hs g → Cancelling i found g := fun g hat =>
    ⟨hs, hheld, hat⟩
  -- one more delivery is written
  have hwrite {old row : Delivery} (hc : Closes p.2 .cancelled old row) {g : World}
      (hat : At i [.listed found] (Function.update hs p.1 (some (some old, row))) g) :
      Cancelling i found g := by
    refine ⟨_, fun id' old' new' heq => ?_, hat⟩
    by_cases hid : id' = p.1
    · subst hid
      rw [Function.update_self] at heq
      cases heq
      exact ⟨old, p.2, rfl, hp, hc⟩
    · rw [Function.update_of_ne hid] at heq
      exact hheld id' old' new' heq
  split
  · exact .pure fun g _ hat => hkeep g hat
  unfold flush
  cases hrow : hs p.1 with
  | none =>
      refine (triple_update hrow).bind fun result => ?_
      cases result with
      | missed => exact .pure fun g _ hat => hkeep g hat
      | taken => exact .assume fun _ => .pure fun g _ hat => hkeep g hat
      | done =>
          refine triple_exists fun row => .assume fun _ => .pure fun g _ hat => hwrite ?_ hat
          exact closes_flushed rfl rfl rfl rfl rfl rfl
  | some held =>
      obtain ⟨old, new⟩ := held
      obtain ⟨row, loaded, rfl, -, hc⟩ := hheld p.1 old new hrow
      refine (triple_update_held hrow).bind fun result => ?_
      cases result with
      | missed => exact .assume fun _ => .pure fun g _ hat => hkeep g hat
      | taken => exact .assume fun _ => .pure fun g _ hat => hkeep g hat
      | done =>
          refine .assume fun _ => .pure fun g _ hat => hwrite ?_ hat
          exact hc.again (hfound p.1 p.2 hp) rfl rfl rfl

theorem cancelInvalidQueuedDeliveries_spec {batchSize : Nat} :
    rules.discipline.Triple i (At i [] free) (cancelInvalidQueuedDeliveries i batchSize)
      (fun _ _ => True) (fun _ _ => True) := by
  unfold cancelInvalidQueuedDeliveries
  refine triple_input.bind fun now => listQueued_spec.bind fun found => .assume fun hfound => ?_
  refine Discipline.Triple.bind (Q := fun _ => Cancelling i found) ?_ fun _ => ?_
  · refine Discipline.Triple.pre (Discipline.Triple.forEach fun p hp => cancelOne_spec hfound hp)
      fun g _ hat => ⟨free, fun id old new heq => ?_, hat⟩
    cases heq
  · refine triple_exists fun hs => .assume fun hheld => ?_
    refine (triple_commit (fun _ => rfl) fun g rows hinv hown hne hrows => ?_).mono
      (fun _ _ _ _ => trivial) fun _ _ h => h
    intro id new hmem
    obtain ⟨old, heq, hold⟩ := (hrows id new).mp hmem
    obtain ⟨row, loaded, rfl, hloaded, hc⟩ := hheld id old new heq
    exact ⟨row, loaded, found, hold, by rw [hown]; exact List.mem_singleton_self _, hloaded, hc⟩

/-- What a bulk cancellation has written so far. -/
def BulkCancelling (i : Nat) (g : World) : Prop :=
  ∃ hs, (∀ id old new, hs id = some (old, new) → ∃ row, old = some row ∧ row.state = .queued ∧
      new.state = .cancelled ∧ new.attemptCount = row.attemptCount ∧ new.leaseToken = none) ∧
    At i [] hs g

theorem bulkCancelOne_spec {id : Nat} {now : Datetime} {code : String} :
    rules.discipline.Triple i (BulkCancelling i)
      (do
        let _ ← Journal.updateRow rival i id (fun d => d.state = .queued) fun d =>
          d.terminal .cancelled (some (sanitizeErrorCode code)) now : Db Unit)
      (fun _ => BulkCancelling i) X := by
  refine triple_exists fun hs => .assume fun hheld => ?_
  have hkeep : ∀ g, At i [] hs g → BulkCancelling i g := fun g hat => ⟨hs, hheld, hat⟩
  cases hrow : hs id with
  | none =>
      refine (triple_update hrow).bind fun result => ?_
      cases result with
      | missed => exact .pure fun g _ hat => hkeep g hat
      | taken => exact .assume fun _ => .pure fun g _ hat => hkeep g hat
      | done =>
          refine triple_exists fun row => .assume fun hqueued => .pure fun g _ hat => ?_
          have hqueued : row.state = .queued := by simpa using hqueued
          refine ⟨_, fun id' old' new' heq => ?_, hat⟩
          by_cases hid : id' = id
          · subst hid
            rw [Function.update_self] at heq
            cases heq
            exact ⟨row, rfl, hqueued, rfl, rfl, rfl⟩
          · rw [Function.update_of_ne hid] at heq
            exact hheld id' old' new' heq
  | some held =>
      -- a delivery that was cancelled before is not queued
      obtain ⟨old, new⟩ := held
      obtain ⟨row, -, -, hstate, -⟩ := hheld id old new hrow
      refine (triple_update_held hrow).bind fun result => ?_
      cases result with
      | missed => exact .assume fun _ => .pure fun g _ hat => hkeep g hat
      | taken => exact .assume fun _ => .pure fun g _ hat => hkeep g hat
      | done => exact .assume fun hqueued => absurd hqueued (by simp [hstate])

theorem cancelQueued_spec {targets : List Nat} {code : String} :
    rules.discipline.Triple i (At i [] free) (Notifications.cancelQueued i targets code)
      (fun _ _ => True) (fun _ _ => True) := by
  unfold Notifications.cancelQueued
  refine triple_input.bind fun now => ?_
  refine Discipline.Triple.bind (Q := fun _ => BulkCancelling i) ?_ fun _ => ?_
  · refine Discipline.Triple.pre (Discipline.Triple.forEach fun id _ => bulkCancelOne_spec)
      fun g _ hat => ⟨free, fun id old new heq => ?_, hat⟩
    cases heq
  · refine triple_exists fun hs => .assume fun hheld => ?_
    refine (triple_commit (fun _ => rfl) fun g rows hinv hown hne hrows => ?_).mono
      (fun _ _ _ _ => trivial) fun _ _ h => h
    intro id new hmem
    obtain ⟨old, heq, hold⟩ := (hrows id new).mp hmem
    obtain ⟨row, rfl, hrow⟩ := hheld id old new heq
    exact ⟨row, hold, hrow⟩

theorem queueNotification_spec :
    rules.discipline.Triple i (At i [] free) (queueNotification i id)
      (fun _ _ => True) (fun _ _ => True) := by
  unfold queueNotification
  refine triple_input.bind fun now => (triple_insert rfl).bind fun result => ?_
  have hnothing : rules.discipline.Triple i (At i [] free)
      (commitAll (Event.stored .queue) i : Db Unit) (fun _ _ => True) (fun _ _ => True) :=
    (triple_commit_free fun _ => rfl).mono (fun _ _ _ _ => trivial) fun _ _ h => h
  cases result with
  | missed => exact hnothing
  | taken => exact hnothing
  | done =>
      refine Discipline.Triple.mono (triple_commit_only rfl fun g hinv hown hold => ?_)
        (fun _ _ _ _ => trivial) fun _ _ h => h
      exact ⟨id, now, rfl, hold⟩

/-! ## runs -/

/-- The programs keep to the rules. -/
def certified (lease : Int) : Certified (system lease) rules.discipline where
  Fresh i := At i [] free
  fresh_stable _ := stable_at
  close_move _ _ _ := .single .rollback
  entry _ e := by
    cases e with
    | queue id => exact queueNotification_spec
    | reconcile => exact reconcileDelivery_spec
    | cancelInvalid batchSize => exact cancelInvalidQueuedDeliveries_spec
    | cancelQueued targets code => exact cancelQueued_spec

theorem run_inv {ls : List (Label Input Entry)} {c : Config Input World Error}
    (hrun : (system lease).run (System.init (ofStored outbox)) ls = some c) :
    rules.Inv c.global :=
  Rules.run_inv (certified lease) (inv_ofStored outbox rfl) (fun _ => ⟨rfl, rfl⟩) hrun

/-- **At most one message.**  In every run, a delivery that was sent is sent again only
after its sender has recorded a failure that is neither ambiguous nor final; and it is
never sent more than `MAX_NOTIFICATION_ATTEMPTS` times. -/
theorem notification_at_most_once (lease : Int) {ls : List (Label Input Entry)}
    {c : Config Input World Error}
    (hrun : (system lease).run (System.init (ofStored outbox)) ls = some c) :
    (∀ h₁ h₂ i id outcome, c.global.history = h₁ ++ (i, .sent id outcome) :: h₂ →
      ∀ j outcome', (j, .sent id outcome') ∈ h₂ → outcome'.isRetryable = true ∧
        ∃ a b row, h₂ = a ++ (j, .stored .requeue [(id, row)]) :: b ∧
          (j, .sent id outcome') ∈ b) ∧
    ∀ id, (senders c.global.history id).length ≤ maxNotificationAttempts := by
  have hjust := (run_inv hrun).justified
  refine ⟨?_, senders_length hjust⟩
  intro h₁ h₂ i id outcome heq j outcome' hmem
  rw [heq] at hjust
  exact sent_again hjust hmem

/-- **Terminal states are kept where nothing is written back over a change.**  In every run
in which each delivery that `_cancel_invalid_queued_deliveries` writes back is still as it
was loaded, a delivery that was sent, cancelled, failed or is ambiguous keeps its state. -/
theorem notification_terminal_absorbing (lease : Int) {ls : List (Label Input Entry)}
    {c : Config Input World Error}
    (hrun : (system lease).run (System.init (ofStored outbox)) ls = some c)
    (hwritten : WrittenBackAsLoaded c.global.history) :
    (∀ id, (c.global.cell id).committed = feed.committedAt c.global.history id) ∧
    Absorbing c.global.history :=
  ⟨(run_inv hrun).committed, absorbing_of_written (run_inv hrun).justified hwritten⟩

/-! ## samples -/

/-- Everything is in order, and the message ends in some way. -/
def ready (now : Datetime) (outcome : Outcome) : Input :=
  ⟨now, true, true, true, true, true, outcome⟩

/-- A delivery is queued, fails with an error that may pass, and is sent a minute and a
half later. -/
def retriedRun : List (Label Input Entry) :=
  Label.spawn (.queue 7) :: List.replicate 3 (Label.act 0 (ready 0 .delivered)) ++
  Label.spawn .reconcile ::
    List.replicate 23 (Label.act 1 (ready 0 (.smtpError "greylisted" true false))) ++
  Label.spawn .reconcile :: List.replicate 23 (Label.act 2 (ready 90000000 .delivered))

/-- The delivery is cancelled by a worker that has listed it, after another one has sent
it. -/
def overwrittenRun : List (Label Input Entry) :=
  Label.spawn (.queue 7) :: List.replicate 3 (Label.act 0 (ready 0 .delivered)) ++
  Label.spawn (.cancelInvalid 10) :: List.replicate 2 (Label.act 1 (ready 0 .delivered)) ++
  Label.spawn .reconcile :: List.replicate 23 (Label.act 2 (ready 0 .delivered)) ++
  List.replicate 3 (Label.act 1 { ready 0 .delivered with eligible := false })

/-- The delivery was sent twice, and of twenty times it was not more. -/
theorem notification_retried : ∃ c,
    (system 60000000).run (System.init (ofStored outbox)) retriedRun = some c ∧
    senders c.global.history 7 = [2, 1] ∧
    (senders c.global.history 7).length ≤ maxNotificationAttempts := by
  have hrun : (system 60000000).run (System.init (ofStored outbox)) retriedRun = some _ := rfl
  exact ⟨_, hrun, rfl, (notification_at_most_once 60000000 hrun).2 7⟩

/-- The delivery is listed, cancelled and written back, with nobody in between. -/
def cancelledRun : List (Label Input Entry) :=
  Label.spawn (.queue 7) :: List.replicate 3 (Label.act 0 (ready 0 .delivered)) ++
  Label.spawn (.cancelInvalid 10) ::
    List.replicate 5 (Label.act 1 { ready 0 .delivered with eligible := false })

/-- What was listed is written back as it was loaded, and stays cancelled. -/
theorem notification_cancelled_absorbing : ∃ c,
    (system 60000000).run (System.init (ofStored outbox)) cancelledRun = some c ∧
    Absorbing c.global.history := by
  have hrun : (system 60000000).run (System.init (ofStored outbox)) cancelledRun = some _ := rfl
  refine ⟨_, hrun, (notification_terminal_absorbing 60000000 hrun ?_).2⟩
  intro h₁ h₂ i rows heq
  change [(1, Event.stored .cancel [(7, (Delivery.queued 0).terminal .cancelled
    (some "notification_no_longer_eligible") 0)]), (1, .listed [(7, .queued 0)]),
    (0, .stored .queue [(7, .queued 0)])] = _ at heq
  cases h₁ with
  | nil =>
      cases heq
      intro id new hmem found loaded hlisted hloaded
      have hfound : found = [(7, .queued 0)] := by simpa [own] using hlisted
      subst hfound
      simp only [List.mem_singleton, Prod.mk.injEq] at hloaded
      obtain ⟨rfl, rfl⟩ := hloaded
      rfl
  | cons p h₁ =>
      -- nothing else was written back
      have hmem : (i, Event.stored .cancel rows) ∈ [((1 : Nat), Event.listed [(7, .queued 0)]),
          (0, .stored .queue [(7, .queued 0)])] := by
        rw [(List.cons.inj heq).2]
        simp
      simp at hmem

/-- The delivery that was sent is recorded as cancelled. -/
theorem sent_recorded_cancelled : ∃ c,
    (system 60000000).run (System.init (ofStored outbox)) overwrittenRun = some c ∧
    ¬ Absorbing c.global.history := by
  have hrun : (system 60000000).run (System.init (ofStored outbox)) overwrittenRun = some _ := rfl
  refine ⟨_, hrun, fun habsorbing => ?_⟩
  have hsame := habsorbing [] _ 1 .cancel _ rfl 7 _ _ rfl rfl rfl
  cases hsame

end Notifications

end Backend
