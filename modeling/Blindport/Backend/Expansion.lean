import Blindport.Backend.Models
import Blindport.Conc.Machine
import Blindport.Data.Paging
import Blindport.Data.Table

/-!
# Blindport.Backend.Expansion

From an announcement to the deliveries of its recipients: `queue_announcement` takes
the recipients down, and any number of replicas run `_expand_queued_announcements`,
which goes through them page by page.

A cycle of the expansion is a transaction of several statements; it has the row of its
announcement locked until it commits, and its deliveries are not committed before.  It
may stop at any statement.  The other transactions on these rows are short, and one
step each.
-/

namespace Backend.Announcements

open Conc

/-! ## the rows -/

/-- `AnnouncementState`. -/
inductive AnnouncementState where
  | draft
  | queued
  | completed
  | cancelled
  deriving DecidableEq

/-- What `queue_announcement` reads of a `User`. -/
structure User where
  hasNotificationEmail : Bool
  notificationEmailGeneration : Int
  isAdmin : Bool
  isSuspended : Bool

/-- `Announcement`, without its text and its times. -/
structure Announcement where
  state : AnnouncementState
  recipientCount : Nat
  recipientCursor : Nat
  recipientMaxUserId : Option Nat
  expansionComplete : Bool

/-- `AnnouncementRecipientSnapshot`, of one announcement. -/
structure Recipient where
  userId : Nat
  recipientGeneration : Int
  deriving DecidableEq

/-- `NotificationCategory`. -/
inductive NotificationCategory where
  | account
  | service
  deriving DecidableEq

/-- `NotificationKind`. -/
inductive NotificationKind where
  | expiration7Day
  | expiration1Day
  | subscriptionActivated
  | subscriptionRenewed
  | automaticRenewalFailed
  | automaticRenewalUnconfirmed
  | subscriptionExpired
  | serviceAnnouncement
  deriving DecidableEq

/-- `NotificationDeliveryState`. -/
inductive NotificationDeliveryState where
  | queued
  | sending
  | sent
  | deliveryAmbiguous
  | cancelled
  | failed
  | expired
  deriving DecidableEq

/-- `NotificationDelivery`: whom it is for and what it says, beside its state. -/
structure NotificationDelivery where
  userId : Nat
  subscriptionId : Option Nat
  paymentId : Option Nat
  announcementId : Option Nat
  category : NotificationCategory
  kind : NotificationKind
  recipientGeneration : Int
  eventAt : Option Datetime
  state : NotificationDeliveryState

/-- The committed rows, each under its key; deliveries under their idempotency key. -/
structure Database where
  users : AList fun _ : Nat => User
  nextUser : Nat
  announcements : AList fun _ : Nat => Announcement
  nextAnnouncement : Nat
  snapshots : AList fun _ : Nat × Nat => Int
  deliveries : AList fun _ : String => NotificationDelivery

/-- The recipients of an announcement. -/
def Database.recipients (db : Database) (a : Nat) : List Recipient :=
  ((Table.rows db.snapshots).filter fun row => row.1.1 = a).map fun row => ⟨row.1.2, row.2⟩

/-! ## `queue_announcement` -/

/-- The `WHERE` of `eligible_recipients`. -/
def User.eligible (user : User) : Bool :=
  user.hasNotificationEmail ∧ 1 ≤ user.notificationEmailGeneration ∧ ¬user.isAdmin ∧
    ¬user.isSuspended

/-- The rows of the `INSERT … SELECT`. -/
def eligibleRecipients (db : Database) (a : Nat) : List ((Nat × Nat) × Int) :=
  ((Table.rows db.users).filter fun row => row.2.eligible).map fun row =>
    ((a, row.1), row.2.notificationEmailGeneration)

/-- `queue_announcement`, of a draft. -/
def queueAnnouncement (db : Database) (a : Nat) (announcement : Announcement) : Database :=
  let db := { db with snapshots := Table.insertAll (eligibleRecipients db a) db.snapshots }
  let recipientCount := (db.recipients a).length
  let announcement := { announcement with
    state := if recipientCount = 0 then .completed else .queued
    recipientCount := recipientCount
    recipientCursor := 0
    recipientMaxUserId := ((db.recipients a).map Recipient.userId).max?
    expansionComplete := recipientCount = 0 }
  { db with announcements := db.announcements.insert a announcement }

/-! ## `queue_notification` -/

/-- `_validate_idempotency_key`. -/
def validateIdempotencyKey (value : String) : Bool :=
  value ≠ "" ∧ value.length ≤ 255 ∧ value.toList.all fun c => c.toNat < 128

/-- `_validate_recipient_generation_override`. -/
def validateRecipientGenerationOverride (generation : Int) (category : NotificationCategory)
    (kind : NotificationKind) (announcementId : Option Nat) : Bool :=
  1 ≤ generation ∧ category = .service ∧ kind = .serviceAnnouncement ∧ announcementId.isSome

/-- The idempotency key of a recipient. -/
def announcementKey (a user : Nat) : String :=
  "announcement:" ++ Nat.repr a ++ ":user:" ++ Nat.repr user

/-- The delivery that `_expand_queued_announcements` asks `queue_notification` for. -/
def announcementDelivery (a : Nat) (recipient : Recipient) : NotificationDelivery where
  userId := recipient.userId
  subscriptionId := none
  paymentId := none
  announcementId := some a
  category := .service
  kind := .serviceAnnouncement
  recipientGeneration := recipient.recipientGeneration
  eventAt := none
  state := .queued

/-- The checks of `queue_notification` before it looks for a delivery. -/
def notificationValid (key : String) (delivery : NotificationDelivery) : Bool :=
  validateIdempotencyKey key ∧
    validateRecipientGenerationOverride delivery.recipientGeneration delivery.category
      delivery.kind delivery.announcementId

/-- `_reuse_queued_delivery`: the delivery there is, for the one that is asked for. -/
def reuseQueuedDelivery (existing delivery : NotificationDelivery) :
    Option NotificationDelivery :=
  if existing.userId ≠ delivery.userId ∨ existing.category ≠ delivery.category ∨
      existing.kind ≠ delivery.kind ∨ existing.subscriptionId ≠ delivery.subscriptionId ∨
      existing.paymentId ≠ delivery.paymentId ∨
      existing.announcementId ≠ delivery.announcementId ∨ existing.eventAt ≠ delivery.eventAt then
    none
  else if existing.state = .queued ∧ delivery.announcementId = none then
    some { existing with recipientGeneration := delivery.recipientGeneration }
  else some existing

/-! ## `_expand_queued_announcements` -/

/-- The next statement of a cycle: the `SELECT` of the page, the `SELECT` or the `INSERT`
of `queue_notification` for the first of the recipients that are left, or the end. -/
inductive Stage where
  | page
  | look (left : List Recipient)
  | insert (left : List Recipient)
  | finish

/-- A cycle: the announcement as it was when its row was locked, the page, and the
deliveries that are not committed. -/
structure Cycle where
  batchSize : Nat
  id : Nat
  announcement : Announcement
  recipients : List Recipient
  written : AList fun _ : String => NotificationDelivery
  stage : Stage

namespace Cycle

/-- Where the loop over the page stands. -/
def loop : List Recipient → Stage
  | [] => .finish
  | left => .look left

/-- A delivery that the cycle sees. -/
def find (c : Cycle) (db : Database) (key : String) : Option NotificationDelivery :=
  (c.written.lookup key).or (db.deliveries.lookup key)

/-- The page after the cursor. -/
def page (c : Cycle) (db : Database) : List Recipient :=
  Paging.page Recipient.userId c.batchSize c.announcement.recipientCursor (db.recipients c.id)

/-- `_reuse_queued_delivery` in the loop: it goes on, or raises. -/
def reuse (c : Cycle) (existing : NotificationDelivery) (recipient : Recipient)
    (left : List Recipient) : Option Cycle :=
  let key := announcementKey c.id recipient.userId
  (reuseQueuedDelivery existing (announcementDelivery c.id recipient)).map fun delivery =>
    { c with
      written := if delivery.recipientGeneration = existing.recipientGeneration then c.written
        else c.written.insert key delivery
      stage := loop left }

/-- What is written to the announcement at the end. -/
def finished (c : Cycle) : Announcement :=
  match c.recipients.getLast? with
  | none => { c.announcement with expansionComplete := true }
  | some last => { c.announcement with
      recipientCursor := last.userId
      expansionComplete :=
        c.recipients.length < c.batchSize || c.announcement.expansionComplete }

/-- `session.commit()`. -/
def commit (c : Cycle) (db : Database) : Database :=
  { db with
    announcements := db.announcements.insert c.id c.finished
    deliveries := Table.insertAll (Table.rows c.written) db.deliveries }

end Cycle

/-- What one statement leads to: the cycle goes on, it has committed, or it has raised and
is rolled back. -/
inductive Next where
  | running (c : Cycle)
  | committed (db : Database)
  | raised

/-- The next statement of a cycle; `none` when it has to wait for a delivery that another
one has inserted. -/
def perform (db : Database) (others : List Cycle) (c : Cycle) : Option Next :=
  match c.stage with
  | .page => some (.running { c with
      recipients := c.page db, stage := Cycle.loop (c.page db) })
  | .look [] => some (.running { c with stage := .finish })
  | .look (recipient :: left) =>
      let key := announcementKey c.id recipient.userId
      if notificationValid key (announcementDelivery c.id recipient) then
        match c.find db key with
        | some existing =>
            match c.reuse existing recipient left with
            | some c => some (.running c)
            | none => some .raised
        | none => some (.running { c with stage := .insert (recipient :: left) })
      else some .raised
  | .insert [] => some (.running { c with stage := .finish })
  | .insert (recipient :: left) =>
      let key := announcementKey c.id recipient.userId
      if others.any fun d => (d.written.lookup key).isSome then none
      else match c.find db key with
        | some existing =>
            match c.reuse existing recipient left with
            | some c => some (.running c)
            | none => some .raised
        | none => some (.running { c with
            written := c.written.insert key (announcementDelivery c.id recipient)
            stage := Cycle.loop left })
  | .finish => some (.committed (c.commit db))

/-! ## any number of replicas -/

/-- The database, and the cycles under way. -/
structure State where
  db : Database
  cycles : AList fun _ : Nat => Cycle

/-- No user, no announcement.  The first id of a sequence is 1. -/
def State.init : State := ⟨⟨∅, 1, ∅, 1, ∅, ∅⟩, ∅⟩

/-- A cycle has the row of the announcement. -/
def State.locked (s : State) (a : Nat) : Bool :=
  (Table.rows s.cycles).any fun row => row.2.id = a

/-- The cycles beside `i`. -/
def State.others (s : State) (i : Nat) : List Cycle :=
  (Table.rows (s.cycles.erase i)).map Prod.snd

/-- What may happen. -/
inductive Event where
  /-- A user signs up. -/
  | signUp (user : User)
  /-- The columns of a user change. -/
  | change (id : Nat) (user : User)
  /-- `create_announcement`. -/
  | create
  /-- `queue_announcement`. -/
  | queue (a : Nat)
  /-- `cancel_announcement`. -/
  | cancel (a : Nat)
  /-- `mark_announcement_completed_if_done`. -/
  | complete (a : Nat)
  /-- `queue_notification` for something else than an announcement. -/
  | notify (key : String) (delivery : NotificationDelivery)
  /-- A delivery is sent, cancelled, or fails. -/
  | progress (key : String) (state : NotificationDeliveryState)
  /-- A replica starts a cycle, and its `SELECT … FOR UPDATE` returns an announcement. -/
  | expand (i : Nat) (batchSize : Nat) (a : Nat)
  /-- A replica performs its next statement. -/
  | perform (i : Nat)
  /-- A replica stops, and its transaction is rolled back. -/
  | crash (i : Nat)

/-- Change the row of an announcement that no cycle has. -/
def State.update (s : State) (a : Nat) (f : Announcement → Option Database) : Option State :=
  if s.locked a then none
  else (s.db.announcements.lookup a).bind fun announcement =>
    (f announcement).map fun db => { s with db := db }

/-- One step; `none` when it is not possible. -/
def step (s : State) : Event → Option State
  | .signUp user => some { s with db := { s.db with
      users := s.db.users.insert s.db.nextUser user, nextUser := s.db.nextUser + 1 } }
  | .change id user =>
      if (s.db.users.lookup id).isSome then
        some { s with db := { s.db with users := s.db.users.insert id user } }
      else none
  | .create => some { s with db := { s.db with
      announcements :=
        s.db.announcements.insert s.db.nextAnnouncement ⟨.draft, 0, 0, none, false⟩
      nextAnnouncement := s.db.nextAnnouncement + 1 } }
  | .queue a => s.update a fun announcement =>
      if announcement.state = .draft then some (queueAnnouncement s.db a announcement) else none
  | .cancel a => s.update a fun announcement =>
      if announcement.state = .completed ∨ announcement.state = .cancelled then none
      else some { s.db with
        announcements := s.db.announcements.insert a { announcement with state := .cancelled } }
  | .complete a => s.update a fun announcement =>
      if announcement.expansionComplete then some { s.db with
        announcements := s.db.announcements.insert a { announcement with state := .completed } }
      else none
  | .notify key delivery =>
      if "announcement:".toList.isPrefixOf key.toList ∨ delivery.announcementId.isSome then none
      else some { s with db := { s.db with deliveries := s.db.deliveries.insert key delivery } }
  | .progress key state =>
      (s.db.deliveries.lookup key).map fun delivery => { s with db := { s.db with
        deliveries := s.db.deliveries.insert key { delivery with state := state } } }
  | .expand i batchSize a =>
      -- `reconcile_notifications_once` checks the batch size
      if 1 ≤ batchSize ∧ batchSize ≤ 1000 ∧ (s.cycles.lookup i).isNone ∧ ¬s.locked a then
        (s.db.announcements.lookup a).bind fun announcement =>
          if announcement.state = .queued ∧ ¬announcement.expansionComplete then
            some { s with cycles := s.cycles.insert i ⟨batchSize, a, announcement, [], ∅, .page⟩ }
          else none
      else none
  | .perform i =>
      (s.cycles.lookup i).bind fun c => (perform s.db (s.others i) c).map fun
        | .running c => { s with cycles := s.cycles.insert i c }
        | .committed db => { s with db := db, cycles := s.cycles.erase i }
        | .raised => { s with cycles := s.cycles.erase i }
  | .crash i => some { s with cycles := s.cycles.erase i }

/-- The deliveries of an announcement: the user and the generation of each. -/
def Database.deliveriesOf (db : Database) (a : Nat) : List Recipient :=
  ((Table.rows db.deliveries).filter fun row => row.2.announcementId = some a).map fun row =>
    ⟨row.2.userId, row.2.recipientGeneration⟩

end Backend.Announcements
