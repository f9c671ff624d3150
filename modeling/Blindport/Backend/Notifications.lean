import Mathlib.Algebra.Group.Int.Defs
import Mathlib.Data.List.Sort
import Blindport.Conc.Transaction
import Blindport.Backend.Models

/-!
# Blindport.Backend.Notifications

The e-mail outbox: `services/notifications.py` and
`services/notification_reconciliation.py`.

Deliveries are claimed under a lease, moved to `SENDING` in a commit of its own,
sent, and finished in another transaction that the lease fences; beside that they are
cancelled, one by one from a list that was read without a lock, and in bulk.  The token
of a lease is the number of the thread that claims: a thread claims once.

An object of the session remembers what was loaded; a flush writes the columns
whose value is another one than that (`flushed`).
-/

namespace Backend

namespace Notifications

open Conc

/-! ## deliveries -/

/-- `NotificationDeliveryState`. -/
inductive DeliveryState where
  | queued
  | sending
  | sent
  | deliveryAmbiguous
  | cancelled
  | failed
  | expired
  deriving DecidableEq

/-- `_TERMINAL_STATES`. -/
def DeliveryState.isTerminal : DeliveryState → Bool
  | .queued | .sending => false
  | _ => true

/-- `NotificationDelivery`, without the columns that only say whom it is for and what it
says. -/
structure Delivery where
  state : DeliveryState
  attemptCount : Nat
  errorCode : Option String
  updatedAt : Datetime
  lastAttemptAt : Option Datetime
  nextAttemptAt : Option Datetime
  sentAt : Option Datetime
  terminalAt : Option Datetime
  leaseToken : Option Nat
  leaseUntil : Option Datetime
  deriving DecidableEq

/-- `MAX_NOTIFICATION_ATTEMPTS`. -/
def maxNotificationAttempts : Nat := 20

/-- `_sanitize_error_code`. -/
def sanitizeErrorCode (code : String) : String :=
  if code.toList.all (fun c => c.isLower || c.isDigit || c = '_') ∧ 1 ≤ code.length ∧
      code.length ≤ 64 then code
  else "notification_error"

/-- `_retry_delay`. -/
def retryDelay (attemptCount : Nat) : Int :=
  (min 3600 (5 * 2 ^ min attemptCount 10) : Nat) * 1000000

namespace Delivery

/-- `_terminal`. -/
def terminal (d : Delivery) (state : DeliveryState) (code : Option String) (now : Datetime) :
    Delivery :=
  { d with
    state := state
    errorCode := code
    updatedAt := now
    terminalAt := some now
    nextAttemptAt := none
    leaseToken := none
    leaseUntil := none }

/-- What `queue_notification` inserts. -/
def queued (now : Datetime) : Delivery where
  state := .queued
  attemptCount := 0
  errorCode := none
  updatedAt := now
  lastAttemptAt := none
  nextAttemptAt := none
  sentAt := none
  terminalAt := none
  leaseToken := none
  leaseUntil := none

/-- The delivery may be claimed. -/
def isDue (now : Datetime) (d : Delivery) : Bool :=
  (d.state = .queued ∨ d.state = .sending) ∧ d.nextAttemptAt.all (· ≤ now) ∧
    d.leaseUntil.all (· ≤ now)

end Delivery

/-- A column of a flush: an assigned value that is the loaded one is not written. -/
def written {α : Type} [DecidableEq α] (loaded assigned row : α) : α :=
  if assigned = loaded then row else assigned

/-- The row after a flush. -/
def flushed (loaded assigned row : Delivery) : Delivery where
  state := written loaded.state assigned.state row.state
  attemptCount := written loaded.attemptCount assigned.attemptCount row.attemptCount
  errorCode := written loaded.errorCode assigned.errorCode row.errorCode
  updatedAt := written loaded.updatedAt assigned.updatedAt row.updatedAt
  lastAttemptAt := written loaded.lastAttemptAt assigned.lastAttemptAt row.lastAttemptAt
  nextAttemptAt := written loaded.nextAttemptAt assigned.nextAttemptAt row.nextAttemptAt
  sentAt := written loaded.sentAt assigned.sentAt row.sentAt
  terminalAt := written loaded.terminalAt assigned.terminalAt row.terminalAt
  leaseToken := written loaded.leaseToken assigned.leaseToken row.leaseToken
  leaseUntil := written loaded.leaseUntil assigned.leaseUntil row.leaseUntil

/-! ## programs -/

/-- What `send_message` does. -/
inductive Outcome where
  | delivered
  /-- `SmtpDeliveryError`. -/
  | smtpError (code : String) (retryable ambiguous : Bool)
  | raised
  deriving DecidableEq

/-- A failure after which the message may be sent again. -/
def Outcome.isRetryable : Outcome → Bool
  | .smtpError _ retryable ambiguous => retryable && !ambiguous
  | _ => false

/-- What is read outside of the table: the clock, the recipient, whether the event is
still worth a message, and the mail server. -/
structure Input where
  now : Datetime
  userExists : Bool
  eligible : Bool
  adapterConfigured : Bool
  recipientAvailable : Bool
  rendered : Bool
  outcome : Outcome

/-- The transactions that publish deliveries. -/
inductive Kind where
  | queue
  | claim
  | authorize
  | requeue
  | finish
  | cancel
  | bulkCancel
  | release
  deriving DecidableEq

/-- What goes on record. -/
inductive Event where
  | listed (rows : List (Nat × Delivery))
  | reloaded (id : Nat) (row : Option Delivery)
  | stored (kind : Kind) (rows : List (Nat × Delivery))
  | sent (id : Nat) (outcome : Outcome)
  deriving DecidableEq

/-- The table and the record. -/
abbrev World := Journal Nat Delivery Event

/-- What a program raises. -/
inductive Error where
  | valueError (message : String)
  | unavailable
  deriving DecidableEq

/-- Programs of the reconciler. -/
abbrev Db := Prog Input World Error

/-- No two deliveries are in each other's way. -/
def rival (_ _ : Delivery) : Bool := false

/-- The UPDATE of a flush, by primary key. -/
def flush (i id : Nat) (loaded assigned : Delivery) : Db Journal.Written :=
  Journal.updateRow rival i id (fun _ => true) (flushed loaded assigned)

/-- Assign to a loaded delivery and commit. -/
def save (i id : Nat) (kind : Kind) (loaded assigned : Delivery) : Db Unit := do
  let _ ← flush i id loaded assigned
  Journal.commitAll (.stored kind) i

/-- Sorted as `_claim_due_delivery` looks at the deliveries: those without a time come
last. -/
def claimOrder (a b : Nat × Delivery) : Bool :=
  match a.2.nextAttemptAt, b.2.nextAttemptAt with
  | some x, some y => x < y ∨ (x = y ∧ a.1 ≤ b.1)
  | some _, none => true
  | none, some _ => false
  | none, none => a.1 ≤ b.1

/-- The deliveries a session sees. -/
def deliveries (g : World) (i : Nat) : List (Nat × Delivery) :=
  g.keys.filterMap fun id => (g.get i id).map fun d => (id, d)

/-- `_claim_due_delivery`; `lease` is `NOTIFICATION_DELIVERY_LEASE_SECONDS`. -/
def claimDueDelivery (lease : Int) (i : Nat) : Db (Option Nat) := do
  let now ← Journal.input Input.now
  let found ← Journal.query fun g =>
    (((deliveries g i).filter fun p => p.2.isDue now).insertionSort fun a b =>
      claimOrder a b = true).head?
  match found with
  | none => pure none
  | some (id, _) =>
      let result ← Journal.updateRow rival i id (Delivery.isDue now) fun d =>
        { d with leaseToken := some i, leaseUntil := some (now + lease) }
      Journal.commitAll (.stored .claim) i
      if result = .done then pure (some id) else pure none

/-- `_release_lease`. -/
def releaseLease (i id : Nat) : Db Unit := do
  let _ ← Journal.updateRow rival i id (fun d => d.leaseToken = some i) fun d =>
    { d with leaseToken := none, leaseUntil := none }
  Journal.commitAll (.stored .release) i

/-- `fence_notification_lease`, and what is assigned and committed behind it. -/
def saveFenced (lease : Int) (i id : Nat) (kind : Kind) (loaded assigned : Delivery) :
    Db Unit := do
  let fencedAt ← Journal.input Input.now
  let fence ← Journal.updateRow rival i id (fun d => d.leaseToken = some i) fun d =>
    { d with leaseUntil := some (fencedAt + lease) }
  match fence with
  | .done => save i id kind loaded assigned
  | _ => Journal.rollbackAll i

/-- The attributes of a delivery are loaded again after they have expired.  A delivery is
never deleted. -/
def reload (i id : Nat) : Db Delivery := do
  match ← Journal.load i id (.reloaded id) with
  | none => .raise .unavailable
  | some delivery => pure delivery

/-- `send_message`. -/
def sendMessage (i id : Nat) : Db Outcome :=
  .atomic fun ω g => some (g.note i (.sent id ω.outcome), ω.outcome)

/-- What `send_notification` records of the outcome. -/
def recordOutcome (lease : Int) (i id : Nat) (loaded : Delivery) (now : Datetime) :
    Outcome → Db Unit
  | .delivered =>
      saveFenced lease i id .finish loaded
        { loaded.terminal .sent none now with sentAt := some now }
  | .smtpError code retryable ambiguous =>
      let code := some (sanitizeErrorCode code)
      if ambiguous then
        saveFenced lease i id .finish loaded (loaded.terminal .deliveryAmbiguous code now)
      else if retryable ∧ loaded.attemptCount < maxNotificationAttempts then
        saveFenced lease i id .requeue loaded
          { loaded with
            state := .queued, errorCode := code, updatedAt := now,
            nextAttemptAt := some (now + retryDelay loaded.attemptCount) }
      else saveFenced lease i id .finish loaded (loaded.terminal .failed code now)
  | .raised =>
      saveFenced lease i id .finish loaded
        (loaded.terminal .failed (some "smtp_internal_error") now)

/-- `send_notification`, behind the committed transition to `SENDING`. -/
def crossBoundary (lease : Int) (i id : Nat) (now : Datetime) : Db Unit := do
  let loaded ← reload i id
  if ← Journal.input Input.recipientAvailable then
    let loaded ← reload i id
    if ← Journal.input Input.eligible then
      if ← Journal.input Input.rendered then
        let outcome ← sendMessage i id
        recordOutcome lease i id loaded now outcome
      else
        saveFenced lease i id .finish loaded
          (loaded.terminal .failed (some "smtp_internal_error") now)
    else
      saveFenced lease i id .finish loaded
        (loaded.terminal .cancelled (some "notification_no_longer_eligible") now)
  else
    saveFenced lease i id .finish loaded
      (loaded.terminal .failed (some "recipient_unavailable") now)

/-- `send_notification`, of a delivery that is locked. -/
def sendNotification (lease : Int) (i id : Nat) (delivery : Delivery) (now : Datetime) :
    Db Unit := do
  if delivery.state ≠ .queued then .raise (.valueError "notification delivery is not queued")
  else if maxNotificationAttempts ≤ delivery.attemptCount then
    save i id .finish delivery (delivery.terminal .failed (some "attempts_exhausted") now)
  else
    save i id .authorize delivery
      { delivery with
        attemptCount := delivery.attemptCount + 1, state := .sending, lastAttemptAt := some now,
        updatedAt := now, nextAttemptAt := none }
    crossBoundary lease i id now

/-- `_process_claimed_delivery`. -/
def processClaimedDelivery (lease : Int) (i id : Nat) (now : Datetime) : Db Unit := do
  match ← Journal.lockRow i id fun d => d.leaseToken = some i with
  | none => pure ()
  | some delivery =>
      if delivery.state = .sending then
        save i id .finish delivery
          (delivery.terminal .deliveryAmbiguous (some "worker_interrupted") now)
      else if ← Journal.input Input.userExists then
        if ← Journal.input Input.eligible then
          if ← Journal.input Input.adapterConfigured then
            sendNotification lease i id delivery now
          else .raise .unavailable
        else
          save i id .finish delivery
            (delivery.terminal .cancelled (some "notification_no_longer_eligible") now)
      else
        save i id .finish delivery
          (delivery.terminal .failed (some "recipient_unavailable") now)

/-- One delivery of `reconcile_notifications_once`: claimed, processed and released. -/
def reconcileDelivery (lease : Int) (i : Nat) : Db Unit := do
  let attemptedAt ← Journal.input Input.now
  match ← claimDueDelivery lease i with
  | none => pure ()
  | some id =>
      Prog.tryCatch (processClaimedDelivery lease i id attemptedAt) fun _ => Journal.rollbackAll i
      releaseLease i id

/-- `SELECT … WHERE state = 'queued' ORDER BY id LIMIT …`, put on record. -/
def listQueued (i batchSize : Nat) : Db (List (Nat × Delivery)) :=
  .atomic fun _ g =>
    let found := (((deliveries g i).filter fun p => p.2.state = .queued).insertionSort
      fun a b => a.1 ≤ b.1).take batchSize
    some (g.note i (.listed found), found)

/-- `_cancel_invalid_queued_deliveries`. -/
def cancelInvalidQueuedDeliveries (i batchSize : Nat) : Db Unit := do
  let now ← Journal.input Input.now
  let found ← listQueued i batchSize
  Prog.forEach found fun p => do
    if ← Journal.input Input.eligible then pure ()
    else
      let _ ← flush i p.1 p.2
        (p.2.terminal .cancelled (some "notification_no_longer_eligible") now)
  Journal.commitAll (.stored .cancel) i

/-- `_cancel_queued`, of the deliveries its conditions select. -/
def cancelQueued (i : Nat) (targets : List Nat) (code : String) : Db Unit := do
  let now ← Journal.input Input.now
  Prog.forEach targets fun id => do
    let _ ← Journal.updateRow rival i id (fun d => d.state = .queued) fun d =>
      d.terminal .cancelled (some (sanitizeErrorCode code)) now
  Journal.commitAll (.stored .bulkCancel) i

/-- `queue_notification`; the key is the next one of the sequence. -/
def queueNotification (i id : Nat) : Db Unit := do
  let now ← Journal.input Input.now
  let _ ← Journal.insertRow rival i id (Delivery.queued now)
  Journal.commitAll (.stored .queue) i

/-- What runs against the outbox. -/
inductive Entry where
  | queue (id : Nat)
  | reconcile
  | cancelInvalid (batchSize : Nat)
  | cancelQueued (targets : List Nat) (code : String)

/-- Any number of them; a session that ends is rolled back. -/
def system (lease : Int) : System Input World Error Entry where
  program i
    | .queue id => queueNotification i id
    | .reconcile => reconcileDelivery lease i
    | .cancelInvalid batchSize => cancelInvalidQueuedDeliveries i batchSize
    | .cancelQueued targets code => Notifications.cancelQueued i targets code
  close i g := g.rollback i

/-- An empty outbox. -/
def outbox : Journal.Stored Nat Delivery rival := ⟨[], List.nodup_nil, by simp⟩

end Notifications

end Backend
