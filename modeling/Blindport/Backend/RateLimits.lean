import Mathlib.Data.List.Sort
import Blindport.Conc.Machine
import Blindport.Data.Table

/-!
# Blindport.Backend.RateLimits

`services/rate_limits.py`: the durable limits, one transaction for each call of
`enforce_rate_limit`, any number of them at once, under READ COMMITTED.

A call that is under way has its own versions of the rows it has written: the
lease row `RateLimitMaintenance`, the rows it has deleted, the row of its window.
It has these rows locked until it commits.  The next statement of a call sees its
own versions over the committed rows; it waits while another call has a row that
it wants to write.

`step` lets a call begin, lets one perform its next statement, or ends one at any
point with a rollback.  A call reads the clock when it begins, and the clock does
not go back.
-/

namespace Backend.RateLimits

open Conc

/-- `RateLimitScope`. -/
inductive RateLimitScope where
  | signup
  | adminLogin
  | browserLogin
  | paymentCreate
  | domainVerify
  | clientCertificate
  deriving DecidableEq

/-- `RateLimitSpec`. -/
structure RateLimitSpec where
  scope : RateLimitScope
  requests : Nat
  windowSeconds : Nat

/-- The settings of the limits; every window is positive and the retention covers
it. -/
structure Settings where
  requests : RateLimitScope → Nat
  windowSeconds : RateLimitScope → Nat
  bucketRetentionSeconds : Nat
  cleanupIntervalSeconds : Nat
  cleanupBatchSize : Nat
  maxBuckets : Nat
  windowSeconds_pos : ∀ scope, 1 ≤ windowSeconds scope
  windowSeconds_le : ∀ scope, windowSeconds scope ≤ bucketRetentionSeconds

/-- `spec_for`. -/
def specFor (settings : Settings) (scope : RateLimitScope) : RateLimitSpec :=
  ⟨scope, settings.requests scope, settings.windowSeconds scope⟩

/-! ## the rows -/

/-- The columns of `uq_ratelimitbucket_scope_identifier_window`. -/
structure BucketKey where
  scope : RateLimitScope
  identifierHash : String
  windowStart : Nat
  deriving DecidableEq

/-- The other columns of `RateLimitBucket`.  Times are microseconds. -/
structure RateLimitBucket where
  id : Nat
  requestCount : Nat
  expiresAt : Nat

/-- `RateLimitMaintenance`; there is one row, the lease. -/
structure RateLimitMaintenance where
  nextCleanupAt : Nat
  bucketCount : Int

/-- What is committed, and the next id of the buckets. -/
structure Database where
  maintenance : Option RateLimitMaintenance
  buckets : AList fun _ : BucketKey => RateLimitBucket
  nextId : Nat

/-- A second, in microseconds. -/
def second : Nat := 1000000

/-- The start of the window that a time is in. -/
def windowStart (spec : RateLimitSpec) (now : Nat) : Nat :=
  now / second / spec.windowSeconds * spec.windowSeconds * second

def windowEnd (spec : RateLimitSpec) (now : Nat) : Nat :=
  windowStart spec now + spec.windowSeconds * second

/-! ## a call under way -/

/-- Where a call is in `enforce_rate_limit`: the next statement. -/
inductive Stage where
  | insertMaintenance
  | claimCleanup
  | selectStale
  | deleteStale (ids : List Nat)
  | subtractDeleted
  | consumeExisting
  | reserveSlot
  | insertBucket
  | releaseSlot
  | consumeAgain
  | finish (consumed : Option Nat)

/-- The stage after a bucket was counted, or was not. -/
def Stage.counted (otherwise : Stage) : Option Nat → Stage
  | some n => .finish (some n)
  | none => otherwise

/-- The arguments of a call, and its own versions of the rows. -/
structure Call where
  scope : RateLimitScope
  identifier : String
  now : Nat
  stage : Stage
  maintenance : Option RateLimitMaintenance
  deleted : List BucketKey
  bucket : Option RateLimitBucket

section Statements

variable (settings : Settings) (hashIdentifier : RateLimitScope → String → String)

namespace Call

def spec (c : Call) : RateLimitSpec := specFor settings c.scope

/-- The row of its window. -/
def key (c : Call) : BucketKey where
  scope := c.scope
  identifierHash := hashIdentifier c.scope c.identifier
  windowStart := windowStart (c.spec settings) c.now

def expiresAt (c : Call) : Nat :=
  windowEnd (c.spec settings) c.now + settings.bucketRetentionSeconds * second

/-- It has written the row of a bucket. -/
def Holds (c : Call) (k : BucketKey) : Prop :=
  k ∈ c.deleted ∨ c.bucket.isSome ∧ k = c.key settings hashIdentifier

instance (c : Call) (k : BucketKey) : Decidable (c.Holds settings hashIdentifier k) :=
  inferInstanceAs (Decidable (_ ∨ _))

/-- The lease row it sees. -/
def lease (c : Call) (db : Database) : Option RateLimitMaintenance :=
  c.maintenance.or db.maintenance

/-- The bucket it sees. -/
def find (c : Call) (db : Database) (k : BucketKey) : Option RateLimitBucket :=
  if c.bucket.isSome ∧ k = c.key settings hashIdentifier then c.bucket
  else if k ∈ c.deleted then none
  else db.buckets.lookup k

end Call

/-- Another call has the lease row. -/
def leaseLocked (others : List Call) : Bool := others.any (·.maintenance.isSome)

/-- Another call has the row of a bucket. -/
def bucketLocked (others : List Call) (k : BucketKey) : Bool :=
  others.any fun c => c.Holds settings hashIdentifier k

/-! ## the statements

`none` when the statement has to wait. -/

/-- `UPDATE` of the lease row, with whether it was updated.  A row that does not
satisfy `p` is not waited for. -/
def updateMaintenance (db : Database) (others : List Call) (c : Call)
    (p : RateLimitMaintenance → Bool) (f : RateLimitMaintenance → RateLimitMaintenance) :
    Option (Call × Bool) :=
  match c.lease db with
  | none => some (c, false)
  | some m =>
      if p m then
        if leaseLocked others then none else some ({ c with maintenance := some (f m) }, true)
      else some (c, false)

/-- The `INSERT … ON CONFLICT DO NOTHING` of `_cleanup_if_due`. -/
def insertMaintenance (db : Database) (others : List Call) (c : Call) : Option Call :=
  if leaseLocked others then none
  else match c.lease db with
    | some _ => some c
    | none => some { c with maintenance := some ⟨c.now, 0⟩ }

/-- The `UPDATE` that takes the cleanup. -/
def claimCleanup (db : Database) (others : List Call) (c : Call) : Option (Call × Bool) :=
  updateMaintenance db others c (fun m => m.nextCleanupAt ≤ c.now) fun m =>
    { m with nextCleanupAt := c.now + settings.cleanupIntervalSeconds * second }

/-- `ORDER BY expires_at, id`. -/
def expiresBefore (a b : RateLimitBucket) : Prop :=
  a.expiresAt < b.expiresAt ∨ a.expiresAt = b.expiresAt ∧ a.id ≤ b.id

instance : DecidableRel expiresBefore := fun _ _ => inferInstanceAs (Decidable (_ ∨ _))

/-- `stale_ids`: the subquery of the `DELETE`. -/
def staleIds (db : Database) (c : Call) : List Nat :=
  let stale := (Table.rows db.buckets).filter fun row => row.2.expiresAt ≤ c.now
  (((stale.map Prod.snd).insertionSort expiresBefore).take settings.cleanupBatchSize).map
    RateLimitBucket.id

/-- The `DELETE` reaches one of its rows.  A row that is gone is passed over. -/
def deleteStale (db : Database) (others : List Call) (c : Call) (id : Nat) : Option Call :=
  match (Table.rows db.buckets).find? fun row => row.2.id = id ∧ row.1 ∉ c.deleted with
  | none => some c
  | some row =>
      if bucketLocked settings hashIdentifier others row.1 then none
      else some { c with deleted := row.1 :: c.deleted }

/-- The `UPDATE` of `bucket_count` after the `DELETE`. -/
def subtractDeleted (db : Database) (others : List Call) (c : Call) : Option (Call × Bool) :=
  updateMaintenance db others c (fun _ => true) fun m =>
    { m with
      bucketCount :=
        if m.bucketCount ≥ c.deleted.length then m.bucketCount - c.deleted.length else 0 }

/-- `_consume_existing_bucket`. -/
def consumeExistingBucket (db : Database) (others : List Call) (c : Call) :
    Option (Call × Option Nat) :=
  match c.find settings hashIdentifier db (c.key settings hashIdentifier) with
  | none => some (c, none)
  | some b =>
      if bucketLocked settings hashIdentifier others (c.key settings hashIdentifier) then none
      else some ({ c with bucket := some { b with
          requestCount := b.requestCount + 1, expiresAt := c.expiresAt settings } },
        some (b.requestCount + 1))

/-- `_reserve_bucket_slot`. -/
def reserveBucketSlot (db : Database) (others : List Call) (c : Call) : Option (Call × Bool) :=
  updateMaintenance db others c (fun m => m.bucketCount < settings.maxBuckets) fun m =>
    { m with bucketCount := m.bucketCount + 1 }

/-- The `INSERT … ON CONFLICT DO NOTHING` of `enforce_rate_limit`; an id is used up
either way. -/
def insertBucket (db : Database) (others : List Call) (c : Call) :
    Option (Database × Call × Option Nat) :=
  let next := { db with nextId := db.nextId + 1 }
  if bucketLocked settings hashIdentifier others (c.key settings hashIdentifier) then none
  else match c.find settings hashIdentifier db (c.key settings hashIdentifier) with
    | some _ => some (next, c, none)
    | none => some (next, { c with bucket := some ⟨db.nextId, 1, c.expiresAt settings⟩ }, some 1)

/-- `_release_bucket_slot`. -/
def releaseBucketSlot (db : Database) (others : List Call) (c : Call) : Option (Call × Bool) :=
  updateMaintenance db others c (fun _ => true) fun m => { m with bucketCount := m.bucketCount - 1 }

/-- `session.commit()`. -/
def Call.commit (c : Call) (db : Database) : Database :=
  let kept := Table.eraseAll c.deleted db.buckets
  { db with
    maintenance := c.lease db
    buckets := match c.bucket with
      | some b => kept.insert (c.key settings hashIdentifier) b
      | none => kept }

/-! ## `enforce_rate_limit` -/

/-- How a call ended. -/
inductive Outcome where
  | allowed
  | exceeded (retryAfter : Nat)
  | conflictDisappeared
  deriving DecidableEq

/-- What `enforce_rate_limit` does after its commit. -/
def Call.outcome (c : Call) : Option Nat → Outcome
  | none => .exceeded settings.cleanupIntervalSeconds
  | some consumed =>
      if (c.spec settings).requests < consumed then
        .exceeded (max 1 ((windowEnd (c.spec settings) c.now - c.now + (second - 1)) / second))
      else .allowed

/-- What one statement leads to: the call goes on, or it has ended. -/
inductive Next where
  | running (db : Database) (c : Call)
  | ended (db : Database) (outcome : Outcome)

/-- The next statement of a call. -/
def perform (db : Database) (others : List Call) (c : Call) : Option Next :=
  match c.stage with
  | .insertMaintenance => do
      let c ← insertMaintenance db others c
      return .running db { c with stage := .claimCleanup }
  | .claimCleanup => do
      let (c, claimed) ← claimCleanup settings db others c
      return .running db { c with stage := if claimed then .selectStale else .consumeExisting }
  | .selectStale =>
      return .running db { c with stage := .deleteStale (staleIds settings db c) }
  | .deleteStale [] =>
      return .running db
        { c with stage := if c.deleted = [] then .consumeExisting else .subtractDeleted }
  | .deleteStale (id :: ids) => do
      let c ← deleteStale settings hashIdentifier db others c id
      return .running db { c with stage := .deleteStale ids }
  | .subtractDeleted => do
      let (c, _) ← subtractDeleted db others c
      return .running db { c with stage := .consumeExisting }
  | .consumeExisting => do
      let (c, consumed) ← consumeExistingBucket settings hashIdentifier db others c
      return .running db { c with stage := Stage.counted .reserveSlot consumed }
  | .reserveSlot => do
      let (c, reserved) ← reserveBucketSlot settings db others c
      return .running db { c with stage := if reserved then .insertBucket else .finish none }
  | .insertBucket => do
      let (db, c, consumed) ← insertBucket settings hashIdentifier db others c
      return .running db { c with stage := Stage.counted .releaseSlot consumed }
  | .releaseSlot => do
      let (c, _) ← releaseBucketSlot db others c
      return .running db { c with stage := .consumeAgain }
  | .consumeAgain => do
      let (c, consumed) ← consumeExistingBucket settings hashIdentifier db others c
      match consumed with
      | some n => return .running db { c with stage := .finish (some n) }
      | none => return .ended db .conflictDisappeared
  | .finish consumed =>
      return .ended (c.commit settings hashIdentifier db) (c.outcome settings consumed)

/-! ## any number of calls -/

/-- A call that has ended. -/
structure Finished where
  scope : RateLimitScope
  identifier : String
  now : Nat
  outcome : Outcome

/-- The database, the calls under way, the number of the next one, the last time
read, and the calls that have ended. -/
structure State where
  db : Database
  calls : AList fun _ : Nat => Call
  next : Nat
  clock : Nat
  finished : List Finished

/-- Nothing has happened yet. -/
def State.init : State := ⟨⟨none, ∅, 0⟩, ∅, 0, 0, []⟩

/-- What the scheduler may choose. -/
inductive Event where
  | call (scope : RateLimitScope) (identifier : String) (now : Nat)
  | perform (i : Nat)
  | abort (i : Nat)

/-- The calls under way. -/
def State.underWay (s : State) : List Call := (Table.rows s.calls).map Prod.snd

/-- The calls beside `i`. -/
def State.others (s : State) (i : Nat) : List Call :=
  (Table.rows (s.calls.erase i)).map Prod.snd

/-- One choice of the scheduler; `none` when it is not possible.  The identifiers of
direct clients are refused. -/
def step (s : State) : Event → Option State
  | .call scope identifier now =>
      if now < s.clock then none
      else if "client:".toList.isPrefixOf identifier.toList then some { s with clock := now }
      else some { s with
        calls := s.calls.insert s.next
          ⟨scope, identifier, now, .insertMaintenance, none, [], none⟩
        next := s.next + 1
        clock := now }
  | .perform i =>
      match s.calls.lookup i with
      | none => none
      | some c =>
          match perform settings hashIdentifier s.db (s.others i) c with
          | none => none
          | some (.running db c) => some { s with db := db, calls := s.calls.insert i c }
          | some (.ended db outcome) =>
              some { s with
                db := db
                calls := s.calls.erase i
                finished := ⟨c.scope, c.identifier, c.now, outcome⟩ :: s.finished }
  | .abort i => some { s with calls := s.calls.erase i }

/-- The calls for an identifier that succeeded in the window with this start. -/
def State.allowed (s : State) (scope : RateLimitScope) (identifier : String) (window : Nat) :
    Nat :=
  s.finished.countP fun f => f.scope = scope ∧ f.identifier = identifier ∧
    windowStart (specFor settings scope) f.now = window ∧ f.outcome = .allowed

/-- `bucket_count`, as stored. -/
def Database.bucketCount (db : Database) : Int :=
  match db.maintenance with
  | some m => m.bucketCount
  | none => 0

/-- No call begins once the bucket of a call that is still under way has expired. -/
def Prompt (s : State) : Event → Prop
  | .call _ _ now => ∀ c ∈ s.underWay, now < c.expiresAt settings
  | .perform _ => True
  | .abort _ => True

instance (s : State) : ∀ e, Decidable (Prompt settings s e)
  | .call _ _ now => inferInstanceAs (Decidable (∀ c ∈ s.underWay, now < c.expiresAt settings))
  | .perform _ => isTrue trivial
  | .abort _ => isTrue trivial

end Statements

end Backend.RateLimits
