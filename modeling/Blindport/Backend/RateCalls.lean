import Blindport.Backend.RateLimits

/-!
# Blindport.Backend.RateCalls

What one call of `enforce_rate_limit` knows, from its first statement to its commit.

`CallOk` says it, of the committed rows and the call's own versions: above all what
its version of `bucket_count` has to be at each stage.

* `perform_running` — a statement keeps it;
* `CallOk.commit` — at the end the count is that of the rows again;
* `CallOk.frame` — the commits of other calls keep it.
-/

namespace Backend.RateLimits

open Conc

section Calls

variable (settings : Settings) (hashIdentifier : RateLimitScope → String → String)

/-! ## windows -/

/-- When the row of a window expires. -/
def expiresOf (k : BucketKey) : Nat :=
  k.windowStart + (settings.windowSeconds k.scope + settings.bucketRetentionSeconds) * second

theorem Call.expiresAt_eq (c : Call) :
    c.expiresAt settings = expiresOf settings (c.key settings hashIdentifier) := by
  simp only [Call.expiresAt, expiresOf, windowEnd, Call.key, Call.spec, specFor, Nat.add_mul]
  omega

/-- A time is before the end of its window. -/
theorem lt_windowEnd (scope : RateLimitScope) (now : Nat) :
    now < windowEnd (specFor settings scope) now := by
  have hpos : 0 < settings.windowSeconds scope := settings.windowSeconds_pos scope
  have hsecond : now < (now / second + 1) * second :=
    Nat.lt_mul_of_div_lt (Nat.lt_succ_self _) (by decide)
  have hwindow : now / second + 1 ≤
      now / second / settings.windowSeconds scope * settings.windowSeconds scope +
        settings.windowSeconds scope := by
    have := Nat.div_add_mod' (now / second) (settings.windowSeconds scope)
    have := Nat.mod_lt (now / second) hpos
    omega
  calc
    now < (now / second + 1) * second := hsecond
    _ ≤ _ := Nat.mul_le_mul_right second hwindow
    _ = windowEnd (specFor settings scope) now := by
          rw [windowEnd, windowStart, specFor, Nat.add_mul]

theorem Call.now_lt_expires (c : Call) :
    c.now < expiresOf settings (c.key settings hashIdentifier) := by
  rw [← c.expiresAt_eq settings hashIdentifier, Call.expiresAt]
  have := lt_windowEnd settings c.scope c.now
  rw [Call.spec]
  omega

/-! ## what a call knows -/

/-- The number of committed buckets. -/
def Database.rows (db : Database) : Nat := db.buckets.entries.length

/-- The call has a slot for a bucket it has not inserted. -/
def Stage.reserved : Stage → Int
  | .insertBucket => 1
  | .releaseSlot => 1
  | _ => 0

/-- The deleted rows are out of the count. -/
def Stage.subtracted : Stage → Bool
  | .insertMaintenance => false
  | .claimCleanup => false
  | .selectStale => false
  | .deleteStale _ => false
  | .subtractDeleted => false
  | _ => true

/-- The bucket of the call is a row that is not committed. -/
def Call.fresh (c : Call) (db : Database) : Int :=
  if c.bucket.isSome ∧ db.buckets.lookup (c.key settings hashIdentifier) = none then 1 else 0

/-- What the call's version of `bucket_count` has to be. -/
def Call.due (c : Call) (db : Database) : Int :=
  db.rows - (if c.stage.subtracted then c.deleted.length else 0) + c.stage.reserved +
    c.fresh settings hashIdentifier db

/-- What a call has written at each stage. -/
def StageOk (db : Database) (c : Call) : Prop :=
  match c.stage with
  | .insertMaintenance => c.deleted = [] ∧ c.bucket = none ∧ c.maintenance = none
  | .claimCleanup => c.deleted = [] ∧ c.bucket = none
  | .selectStale => c.deleted = [] ∧ c.bucket = none ∧ c.maintenance.isSome
  | .deleteStale ids => c.bucket = none ∧ c.maintenance.isSome ∧
      ∀ id ∈ ids, ∀ k b, db.buckets.lookup k = some b → b.id = id → b.expiresAt ≤ c.now
  | .subtractDeleted => c.bucket = none ∧ c.maintenance.isSome
  | .consumeExisting => c.bucket = none
  | .reserveSlot => c.bucket = none
  | .insertBucket => c.bucket = none ∧ c.maintenance.isSome
  | .releaseSlot => c.bucket = none ∧ c.maintenance.isSome
  | .consumeAgain => c.bucket = none
  | .finish consumed => c.bucket.map RateLimitBucket.requestCount = consumed

/-- The version of its bucket is one request ahead of the committed one. -/
def BucketOk (db : Database) (c : Call) (b : RateLimitBucket) : Prop :=
  match db.buckets.lookup (c.key settings hashIdentifier) with
  | some b₀ => b = { b₀ with requestCount := b₀.requestCount + 1 }
  | none => b.requestCount = 1 ∧ b.expiresAt = expiresOf settings (c.key settings hashIdentifier) ∧
      b.id < db.nextId ∧ ∀ k b', db.buckets.lookup k = some b' → b'.id ≠ b.id

structure CallOk (db : Database) (c : Call) : Prop where
  stage : StageOk db c
  nodup : c.deleted.Nodup
  stale : ∀ k ∈ c.deleted, (db.buckets.lookup k).isSome ∧ expiresOf settings k ≤ c.now
  unleased : c.maintenance = none →
    c.deleted = [] ∧ c.fresh settings hashIdentifier db = 0 ∧ c.stage.reserved = 0
  bucket : ∀ b, c.bucket = some b → BucketOk settings hashIdentifier db c b
  balance : ∀ m, c.maintenance = some m →
    m.bucketCount = c.due settings hashIdentifier db ∧ m.bucketCount ≤ settings.maxBuckets

/-- What holds of the committed rows. -/
structure DbOk (db : Database) : Prop where
  count : db.bucketCount = db.rows
  cap : db.rows ≤ settings.maxBuckets
  expires : ∀ k b, db.buckets.lookup k = some b → b.expiresAt = expiresOf settings k
  below : ∀ k b, db.buckets.lookup k = some b → b.id < db.nextId
  unique : ∀ k b k' b', db.buckets.lookup k = some b → db.buckets.lookup k' = some b' →
    b.id = b'.id → k = k'

variable {settings hashIdentifier} {db : Database} {others : List Call} {c : Call}

/-- A call without a bucket adds no row. -/
theorem Call.fresh_of_none (hbucket : c.bucket = none) (db : Database) :
    c.fresh settings hashIdentifier db = 0 := by
  rw [Call.fresh, hbucket, if_neg (by simp)]

/-- The window of a call is not among the rows it deletes. -/
theorem CallOk.key_notMem (h : CallOk settings hashIdentifier db c) :
    c.key settings hashIdentifier ∉ c.deleted := fun hmem =>
  absurd (h.stale _ hmem).2 (not_le.mpr (c.now_lt_expires settings hashIdentifier))

/-- The lease row a call sees has the count it needs. -/
theorem CallOk.lease_count (h : CallOk settings hashIdentifier db c) (hdb : DbOk settings db)
    {m : RateLimitMaintenance} (hm : c.lease db = some m) :
    m.bucketCount = c.due settings hashIdentifier db ∧ m.bucketCount ≤ settings.maxBuckets := by
  cases hown : c.maintenance with
  | some m' =>
      rw [Call.lease, hown, Option.some_or, Option.some.injEq] at hm
      subst hm
      exact h.balance m' hown
  | none =>
      rw [Call.lease, hown, Option.none_or] at hm
      obtain ⟨hdeleted, hfresh, hreserved⟩ := h.unleased hown
      have hcount := hdb.count
      have hcap := hdb.cap
      rw [Database.bucketCount, hm] at hcount
      simp only at hcount
      rw [Call.due, hdeleted, hfresh, hreserved, List.length_nil, hcount]
      constructor
      · split <;> omega
      · omega

/-- A call that goes to another stage, with another version of the lease row. -/
theorem CallOk.move (h : CallOk settings hashIdentifier db c) {st : Stage}
    {o : Option RateLimitMaintenance}
    (hstage : StageOk db { c with stage := st, maintenance := o })
    (hkeep : o = none → c.maintenance = none ∧ st.reserved = 0)
    (hbalance : ∀ m, o = some m →
      m.bucketCount = db.rows - (if st.subtracted then c.deleted.length else 0) + st.reserved +
        c.fresh settings hashIdentifier db ∧ m.bucketCount ≤ settings.maxBuckets) :
    CallOk settings hashIdentifier db { c with stage := st, maintenance := o } where
  stage := hstage
  nodup := h.nodup
  stale := h.stale
  unleased ho :=
    have hnone := h.unleased (hkeep ho).1
    ⟨hnone.1, hnone.2.1, (hkeep ho).2⟩
  bucket := h.bucket
  balance := hbalance

/-! ## the statements -/

theorem updateMaintenance_cases {p : RateLimitMaintenance → Bool}
    {f : RateLimitMaintenance → RateLimitMaintenance} {c' : Call} {hit : Bool}
    (h : updateMaintenance db others c p f = some (c', hit)) :
    (hit = false ∧ c' = c ∧ ∀ m, c.lease db = some m → p m = false) ∨
    (hit = true ∧ leaseLocked others = false ∧
      ∃ m, c.lease db = some m ∧ p m = true ∧ c' = { c with maintenance := some (f m) }) := by
  unfold updateMaintenance at h
  split at h
  · rename_i hnone
    cases h
    exact Or.inl ⟨rfl, rfl, fun m hm => by rw [hnone] at hm; cases hm⟩
  · rename_i m hm
    split at h
    · rename_i hp
      split at h
      · cases h
      · rename_i hlocked
        cases h
        exact Or.inr ⟨rfl, Bool.eq_false_iff.mpr hlocked, m, hm, hp, rfl⟩
    · rename_i hp
      cases h
      refine Or.inl ⟨rfl, rfl, fun m' hm' => ?_⟩
      rw [hm, Option.some.injEq] at hm'
      exact hm' ▸ Bool.eq_false_iff.mpr hp

theorem consumeExistingBucket_cases {c' : Call} {consumed : Option Nat}
    (h : consumeExistingBucket settings hashIdentifier db others c = some (c', consumed)) :
    (consumed = none ∧ c' = c ∧
      c.find settings hashIdentifier db (c.key settings hashIdentifier) = none) ∨
    (bucketLocked settings hashIdentifier others (c.key settings hashIdentifier) = false ∧
      ∃ b, c.find settings hashIdentifier db (c.key settings hashIdentifier) = some b ∧
        consumed = some (b.requestCount + 1) ∧
        c' = { c with bucket := some { b with
          requestCount := b.requestCount + 1, expiresAt := c.expiresAt settings } }) := by
  unfold consumeExistingBucket at h
  split at h
  · rename_i hnone
    cases h
    exact Or.inl ⟨rfl, rfl, hnone⟩
  · rename_i b hb
    split at h
    · cases h
    · rename_i hlocked
      cases h
      exact Or.inr ⟨Bool.eq_false_iff.mpr hlocked, b, hb, rfl, rfl⟩

/-- Before it has a bucket of its own a call sees the committed one. -/
theorem CallOk.find_key (h : CallOk settings hashIdentifier db c) (hbucket : c.bucket = none) :
    c.find settings hashIdentifier db (c.key settings hashIdentifier) =
      db.buckets.lookup (c.key settings hashIdentifier) := by
  rw [Call.find, hbucket, if_neg (by simp), if_neg h.key_notMem]

/-- A call that writes its bucket: an update of a committed row, or an insert with a
slot. -/
theorem CallOk.write (h : CallOk settings hashIdentifier db c) (hbucket : c.bucket = none)
    (hsub : c.stage.subtracted = true) {b : RateLimitBucket}
    (hok : BucketOk settings hashIdentifier db c b)
    (hreserved : c.stage.reserved =
      if db.buckets.lookup (c.key settings hashIdentifier) = none then 1 else 0) :
    CallOk settings hashIdentifier db
      { c with bucket := some b, stage := .finish (some b.requestCount) } := by
  -- the slot turns into the row
  have hfresh : Call.fresh settings hashIdentifier
      { c with bucket := some b, stage := .finish (some b.requestCount) } db =
        c.stage.reserved := by
    rw [hreserved]
    change (if (some b).isSome = true ∧
      db.buckets.lookup (c.key settings hashIdentifier) = none then (1 : Int) else 0) = _
    simp
  have hbefore : c.fresh settings hashIdentifier db = 0 := c.fresh_of_none hbucket db
  constructor
  case stage => rfl
  case nodup => exact h.nodup
  case stale => exact h.stale
  case unleased =>
    intro hnone
    obtain ⟨hdeleted, -, hzero⟩ := h.unleased hnone
    exact ⟨hdeleted, hfresh.trans hzero, rfl⟩
  case bucket =>
    intro b' hb'
    cases hb'
    exact hok
  case balance =>
    intro m hm
    obtain ⟨hcount, hcap⟩ := h.balance m hm
    rw [Call.due, hsub, hbefore] at hcount
    refine ⟨?_, hcap⟩
    rw [hcount, Call.due, hfresh]
    simp only [Stage.subtracted, Stage.reserved, if_true]
    omega

/-- A call that has deleted one more stale row. -/
theorem CallOk.delete (h : CallOk settings hashIdentifier db c) (hdb : DbOk settings db)
    {id : Nat} {ids : List Nat} (hstage : c.stage = .deleteStale (id :: ids))
    {k : BucketKey} {b : RateLimitBucket} (hlookup : db.buckets.lookup k = some b)
    (hid : b.id = id) (hk : k ∉ c.deleted) :
    CallOk settings hashIdentifier db
      { c with deleted := k :: c.deleted, stage := .deleteStale ids } := by
  have hst := h.stage
  rw [StageOk, hstage] at hst
  obtain ⟨hbucket, hlease, hids⟩ := hst
  have hexpired : expiresOf settings k ≤ c.now := by
    rw [← hdb.expires k b hlookup]
    exact hids id List.mem_cons_self k b hlookup hid
  constructor
  case stage => exact ⟨hbucket, hlease, fun id' hid' => hids id' (List.mem_cons_of_mem id hid')⟩
  case nodup => exact List.nodup_cons.mpr ⟨hk, h.nodup⟩
  case stale =>
    intro k' hk'
    cases List.mem_cons.mp hk' with
    | inl heq =>
        rw [heq, hlookup]
        exact ⟨rfl, hexpired⟩
    | inr hmem => exact h.stale k' hmem
  case unleased =>
    intro hnone
    simp only at hnone
    simp [hnone] at hlease
  case bucket => exact h.bucket
  case balance =>
    intro m hm
    have hbalance := h.balance m hm
    rw [Call.due, hstage] at hbalance
    exact hbalance

/-- A row with an id of the subquery has expired. -/
theorem expired_of_mem_staleIds (hdb : DbOk settings db) {id : Nat}
    (hid : id ∈ staleIds settings db c) {k : BucketKey} {b : RateLimitBucket}
    (hlookup : db.buckets.lookup k = some b) (hb : b.id = id) : b.expiresAt ≤ c.now := by
  obtain ⟨b', hb', rfl⟩ := List.mem_map.mp hid
  have hmem := (List.mem_insertionSort _).mp (List.mem_of_mem_take hb')
  obtain ⟨⟨k', b''⟩, hrow, rfl⟩ := List.mem_map.mp hmem
  obtain ⟨hrow, hexpired⟩ := List.mem_filter.mp hrow
  have hlookup' := Table.mem_rows.mp hrow
  have hk := hdb.unique k b k' b'' hlookup hlookup' hb
  subst hk
  rw [hlookup, Option.some.injEq] at hlookup'
  subst hlookup'
  exact of_decide_eq_true hexpired

/-- A call deletes no more rows than there are. -/
theorem CallOk.length_deleted (h : CallOk settings hashIdentifier db c) :
    c.deleted.length ≤ db.rows := by
  have := Table.length_eraseAll h.nodup fun k hk => (h.stale k hk).1
  rw [Database.rows]
  omega

/-- The id counter may go up. -/
theorem CallOk.next (h : CallOk settings hashIdentifier db c) {n : Nat} (hn : db.nextId ≤ n) :
    CallOk settings hashIdentifier { db with nextId := n } c where
  stage := h.stage
  nodup := h.nodup
  stale := h.stale
  unleased := h.unleased
  bucket b hb := by
    have hok := h.bucket b hb
    unfold BucketOk at hok ⊢
    cases hlookup : db.buckets.lookup (c.key settings hashIdentifier) with
    | some b₀ =>
        simp only [hlookup] at hok ⊢
        exact hok
    | none =>
        simp only [hlookup] at hok ⊢
        exact ⟨hok.1, hok.2.1, hok.2.2.1.trans_le hn, hok.2.2.2⟩
  balance := h.balance

/-! ## one statement -/

/-- What a statement does to the identity of its call and to its locks. -/
structure Moved (settings : Settings) (hashIdentifier : RateLimitScope → String → String)
    (others : List Call) (c c' : Call) : Prop where
  scope : c'.scope = c.scope
  identifier : c'.identifier = c.identifier
  now : c'.now = c.now
  lease : c'.maintenance.isSome → c.maintenance.isSome ∨ leaseLocked others = false
  holds : ∀ k, c'.Holds settings hashIdentifier k →
    c.Holds settings hashIdentifier k ∨ bucketLocked settings hashIdentifier others k = false

theorem Moved.stage (st : Stage) :
    Moved settings hashIdentifier others c { c with stage := st } :=
  ⟨rfl, rfl, rfl, Or.inl, fun _ => Or.inl⟩

theorem Moved.maintenance (hfree : leaseLocked others = false) (o : Option RateLimitMaintenance)
    (st : Stage) :
    Moved settings hashIdentifier others c { c with maintenance := o, stage := st } :=
  ⟨rfl, rfl, rfl, fun _ => Or.inr hfree, fun _ => Or.inl⟩

theorem Moved.bucket
    (hfree : bucketLocked settings hashIdentifier others (c.key settings hashIdentifier) = false)
    (o : Option RateLimitBucket) (st : Stage) :
    Moved settings hashIdentifier others c { c with bucket := o, stage := st } := by
  refine ⟨rfl, rfl, rfl, Or.inl, fun k hk => ?_⟩
  cases hk with
  | inl hdeleted => exact Or.inl (Or.inl hdeleted)
  | inr hkey =>
      right
      rw [hkey.2]
      exact hfree

theorem Moved.deleted {k : BucketKey}
    (hfree : bucketLocked settings hashIdentifier others k = false) (st : Stage) :
    Moved settings hashIdentifier others c { c with deleted := k :: c.deleted, stage := st } := by
  refine ⟨rfl, rfl, rfl, Or.inl, fun k' hk' => ?_⟩
  cases hk' with
  | inl hdeleted =>
      cases List.mem_cons.mp hdeleted with
      | inl heq => exact Or.inr (heq ▸ hfree)
      | inr hmem => exact Or.inl (Or.inl hmem)
  | inr hkey => exact Or.inl (Or.inr hkey)

/-- A call that only goes on to another stage, where it has to know no more. -/
theorem CallOk.goto (h : CallOk settings hashIdentifier db c) {st : Stage}
    (hstage : StageOk db { c with stage := st }) (hreserved : st.reserved = c.stage.reserved)
    (hsub : st.subtracted = c.stage.subtracted ∨ c.deleted = []) :
    CallOk settings hashIdentifier db { c with stage := st } := by
  refine h.move (o := c.maintenance) hstage (fun ho => ⟨ho, ?_⟩) fun m hm => ?_
  · rw [hreserved]
    exact (h.unleased ho).2.2
  · have hbalance := h.balance m hm
    rw [Call.due] at hbalance
    rw [hreserved]
    cases hsub with
    | inl heq => rwa [heq]
    | inr hnil =>
        rw [hnil] at hbalance ⊢
        simpa using hbalance

/-- A call that changes its version of the count, and goes on to where that count is
due. -/
theorem CallOk.update (h : CallOk settings hashIdentifier db c) (hdb : DbOk settings db)
    {st : Stage} {m m' : RateLimitMaintenance} (hm : c.lease db = some m)
    (hstage : StageOk db { c with stage := st, maintenance := some m' })
    (hcount : m'.bucketCount = m.bucketCount + (st.reserved - c.stage.reserved) -
      ((if st.subtracted then c.deleted.length else 0) -
        (if c.stage.subtracted then c.deleted.length else 0) : Int))
    (hcap : m'.bucketCount ≤ settings.maxBuckets) :
    CallOk settings hashIdentifier db { c with stage := st, maintenance := some m' } := by
  refine h.move hstage (fun ho => by cases ho) fun m'' hm'' => ?_
  cases hm''
  have hdue := (h.lease_count hdb hm).1
  rw [Call.due] at hdue
  exact ⟨by omega, hcap⟩

/-! Each statement, from its stage to the next. -/

/-- What a call knows after a statement, which wrote nothing that another call has. -/
structure Kept (settings : Settings) (hashIdentifier : RateLimitScope → String → String)
    (db : Database) (others : List Call) (c c' : Call) : Prop where
  ok : CallOk settings hashIdentifier db c'
  moved : Moved settings hashIdentifier others c c'

theorem insertMaintenance_kept (h : CallOk settings hashIdentifier db c)
    (hdb : DbOk settings db) (hstage : c.stage = .insertMaintenance) {c₁ : Call}
    (hc₁ : insertMaintenance db others c = some c₁) :
    Kept settings hashIdentifier db others c { c₁ with stage := .claimCleanup } := by
  have hst := h.stage
  rw [StageOk, hstage] at hst
  obtain ⟨hdeleted, hbucket, hnone⟩ := hst
  unfold insertMaintenance at hc₁
  split at hc₁
  · cases hc₁
  · rename_i hfree
    split at hc₁
    · cases hc₁
      refine ⟨h.goto ⟨hdeleted, hbucket⟩ ?_ (Or.inr hdeleted), Moved.stage _⟩
      rw [hstage]
      rfl
    · -- the first call of all: there is no bucket yet
      rename_i hlease
      cases hc₁
      refine ⟨h.move ⟨hdeleted, hbucket⟩ (fun ho => by cases ho) ?_,
        Moved.maintenance (Bool.eq_false_iff.mpr hfree) _ _⟩
      intro m hm
      cases hm
      rw [Call.lease, hnone, Option.none_or] at hlease
      have hcount := hdb.count
      rw [Database.bucketCount, hlease] at hcount
      rw [c.fresh_of_none hbucket]
      simp only [Stage.subtracted, Stage.reserved, Bool.false_eq_true, if_false] at hcount ⊢
      omega

theorem claimCleanup_kept (h : CallOk settings hashIdentifier db c) (hdb : DbOk settings db)
    (hstage : c.stage = .claimCleanup) {c₁ : Call} {claimed : Bool}
    (hc₁ : claimCleanup settings db others c = some (c₁, claimed)) :
    Kept settings hashIdentifier db others c
      { c₁ with stage := if claimed then .selectStale else .consumeExisting } := by
  have hst := h.stage
  rw [StageOk, hstage] at hst
  obtain ⟨hdeleted, hbucket⟩ := hst
  rcases updateMaintenance_cases hc₁ with ⟨rfl, rfl, -⟩ | ⟨rfl, hfree, m, hm, -, rfl⟩
  · refine ⟨h.goto hbucket ?_ (Or.inr hdeleted), Moved.stage _⟩
    rw [hstage]
    rfl
  · have hcap := (h.lease_count hdb hm).2
    refine ⟨h.update hdb hm ⟨hdeleted, hbucket, rfl⟩ ?_ hcap, Moved.maintenance hfree _ _⟩
    rw [hstage]
    simp [Stage.reserved, Stage.subtracted]

theorem selectStale_kept (h : CallOk settings hashIdentifier db c) (hdb : DbOk settings db)
    (hstage : c.stage = .selectStale) :
    Kept settings hashIdentifier db others c
      { c with stage := .deleteStale (staleIds settings db c) } := by
  have hst := h.stage
  rw [StageOk, hstage] at hst
  obtain ⟨hdeleted, hbucket, hlease⟩ := hst
  have hstale : ∀ id ∈ staleIds settings db c, ∀ k b, db.buckets.lookup k = some b →
      b.id = id → b.expiresAt ≤ c.now := fun id hid k b hlookup hb =>
    expired_of_mem_staleIds hdb hid hlookup hb
  refine ⟨h.goto ⟨hbucket, hlease, hstale⟩ ?_ (Or.inr hdeleted), Moved.stage _⟩
  rw [hstage]
  rfl

theorem deleteStale_kept (h : CallOk settings hashIdentifier db c) (hdb : DbOk settings db)
    {id : Nat} {ids : List Nat} (hstage : c.stage = .deleteStale (id :: ids)) {c₁ : Call}
    (hc₁ : deleteStale settings hashIdentifier db others c id = some c₁) :
    Kept settings hashIdentifier db others c { c₁ with stage := .deleteStale ids } := by
  have hst := h.stage
  rw [StageOk, hstage] at hst
  obtain ⟨hbucket, hlease, hids⟩ := hst
  unfold deleteStale at hc₁
  split at hc₁
  · cases hc₁
    have hids : ∀ id ∈ ids, ∀ k b, db.buckets.lookup k = some b → b.id = id →
        b.expiresAt ≤ c.now := fun id' hid' => hids id' (List.mem_cons_of_mem id hid')
    refine ⟨h.goto ⟨hbucket, hlease, hids⟩ ?_ (Or.inl ?_), Moved.stage _⟩
    all_goals
      rw [hstage]
      rfl
  · rename_i row hrow
    split at hc₁
    · cases hc₁
    · rename_i hfree
      cases hc₁
      have hmem := Table.mem_rows.mp (List.mem_of_find?_eq_some hrow)
      have hfound := List.find?_some hrow
      simp only [decide_eq_true_eq] at hfound
      exact ⟨h.delete hdb hstage hmem hfound.1 hfound.2,
        Moved.deleted (Bool.eq_false_iff.mpr hfree) _⟩

theorem deleted_kept (h : CallOk settings hashIdentifier db c)
    (hstage : c.stage = .deleteStale []) :
    Kept settings hashIdentifier db others c
      { c with stage := if c.deleted = [] then .consumeExisting else .subtractDeleted } := by
  have hst := h.stage
  rw [StageOk, hstage] at hst
  obtain ⟨hbucket, hlease, -⟩ := hst
  split
  · rename_i hnil
    refine ⟨h.goto hbucket ?_ (Or.inr hnil), Moved.stage _⟩
    rw [hstage]
    rfl
  · refine ⟨h.goto ⟨hbucket, hlease⟩ ?_ (Or.inl ?_), Moved.stage _⟩
    all_goals
      rw [hstage]
      rfl

theorem subtractDeleted_kept (h : CallOk settings hashIdentifier db c) (hdb : DbOk settings db)
    (hstage : c.stage = .subtractDeleted) {c₁ : Call} {hit : Bool}
    (hc₁ : subtractDeleted db others c = some (c₁, hit)) :
    Kept settings hashIdentifier db others c { c₁ with stage := .consumeExisting } := by
  have hst := h.stage
  rw [StageOk, hstage] at hst
  obtain ⟨hbucket, hlease⟩ := hst
  rcases updateMaintenance_cases hc₁ with ⟨rfl, rfl, hmiss⟩ | ⟨rfl, hfree, m, hm, -, rfl⟩
  · -- it has the lease row
    obtain ⟨m, hm⟩ := Option.isSome_iff_exists.mp hlease
    have hseen : c₁.lease db = some m := by rw [Call.lease, hm, Option.some_or]
    exact absurd (hmiss m hseen) (by simp)
  · obtain ⟨hcount, hcap⟩ := h.lease_count hdb hm
    have hall : (c.deleted.length : Int) ≤ m.bucketCount := by
      have := h.length_deleted
      rw [Call.due, hstage, c.fresh_of_none hbucket] at hcount
      simp only [Stage.subtracted, Stage.reserved, Bool.false_eq_true, if_false] at hcount
      omega
    refine ⟨h.update hdb hm hbucket ?_ ?_, Moved.maintenance hfree _ _⟩
    · rw [hstage]
      simp only [Stage.subtracted, Stage.reserved, Bool.false_eq_true, if_false, if_true]
      rw [if_pos hall]
      omega
    · simp only
      rw [if_pos hall]
      omega

/-- An update of the bucket, from either of its two places. -/
theorem consumeExistingBucket_kept (h : CallOk settings hashIdentifier db c)
    (hdb : DbOk settings db) (hsub : c.stage.subtracted = true) (hreserved : c.stage.reserved = 0)
    (hbucket : c.bucket = none) {c₁ : Call} {n : Nat}
    (hc₁ : consumeExistingBucket settings hashIdentifier db others c = some (c₁, some n)) :
    Kept settings hashIdentifier db others c { c₁ with stage := .finish (some n) } := by
  rcases consumeExistingBucket_cases hc₁ with ⟨hn, -, -⟩ | ⟨hfree, b, hb, hn, rfl⟩
  · cases hn
  · rw [h.find_key hbucket] at hb
    cases hn
    -- the expiry of a row is that of its window
    have hsame : c.expiresAt settings = b.expiresAt := by
      rw [c.expiresAt_eq settings hashIdentifier, hdb.expires _ _ hb]
    have hok : BucketOk settings hashIdentifier db c { b with
        requestCount := b.requestCount + 1, expiresAt := c.expiresAt settings } := by
      unfold BucketOk
      rw [hb, hsame]
    refine ⟨h.write hbucket hsub hok ?_, Moved.bucket hfree _ _⟩
    rw [hreserved, hb, if_neg (by simp)]

theorem reserveBucketSlot_kept (h : CallOk settings hashIdentifier db c)
    (hdb : DbOk settings db) (hstage : c.stage = .reserveSlot) {c₁ : Call} {reserved : Bool}
    (hc₁ : reserveBucketSlot settings db others c = some (c₁, reserved)) :
    Kept settings hashIdentifier db others c
      { c₁ with stage := if reserved then .insertBucket else .finish none } := by
  have hst := h.stage
  rw [StageOk, hstage] at hst
  rcases updateMaintenance_cases hc₁ with ⟨rfl, rfl, -⟩ | ⟨rfl, hfree, m, hm, hless, rfl⟩
  · have hfinish : StageOk db { c₁ with stage := .finish none } := by
      simp only [StageOk, hst, Option.map_none]
    refine ⟨h.goto hfinish ?_ (Or.inl ?_), Moved.stage _⟩
    all_goals
      rw [hstage]
      rfl
  · have hless : m.bucketCount < settings.maxBuckets := of_decide_eq_true hless
    refine ⟨h.update hdb hm ⟨hst, rfl⟩ ?_ (by simp only; omega), Moved.maintenance hfree _ _⟩
    rw [hstage]
    simp [Stage.reserved, Stage.subtracted]

theorem insertBucket_kept (h : CallOk settings hashIdentifier db c)
    (hdb : DbOk settings db) (hstage : c.stage = .insertBucket) {db₁ : Database} {c₁ : Call}
    {consumed : Option Nat}
    (hc₁ : insertBucket settings hashIdentifier db others c = some (db₁, c₁, consumed)) :
    Kept settings hashIdentifier db₁ others c
        { c₁ with stage := Stage.counted .releaseSlot consumed } ∧
      db₁ = { db with nextId := db.nextId + 1 } := by
  have hst := h.stage
  rw [StageOk, hstage] at hst
  obtain ⟨hbucket, hlease⟩ := hst
  have hnext := h.next (Nat.le_succ db.nextId)
  unfold insertBucket at hc₁
  dsimp only at hc₁
  split at hc₁
  · cases hc₁
  · rename_i hfree
    rw [h.find_key hbucket] at hc₁
    split at hc₁
    · cases hc₁
      refine ⟨⟨hnext.goto ⟨hbucket, hlease⟩ ?_ (Or.inl ?_), Moved.stage _⟩, rfl⟩
      all_goals
        rw [hstage]
        rfl
    · rename_i hnone
      cases hc₁
      have hok : BucketOk settings hashIdentifier { db with nextId := db.nextId + 1 } c
          ⟨db.nextId, 1, c.expiresAt settings⟩ := by
        unfold BucketOk
        simp only [hnone]
        exact ⟨trivial, c.expiresAt_eq settings hashIdentifier, Nat.lt_succ_self _,
          fun k b' hb' => (hdb.below k b' hb').ne⟩
      refine ⟨⟨hnext.write hbucket ?_ hok ?_, Moved.bucket (Bool.eq_false_iff.mpr hfree) _ _⟩, rfl⟩
      · rw [hstage]
        rfl
      · rw [hstage]
        simp only [hnone, if_true]
        rfl

theorem releaseBucketSlot_kept (h : CallOk settings hashIdentifier db c)
    (hdb : DbOk settings db) (hstage : c.stage = .releaseSlot) {c₁ : Call} {hit : Bool}
    (hc₁ : releaseBucketSlot db others c = some (c₁, hit)) :
    Kept settings hashIdentifier db others c { c₁ with stage := .consumeAgain } := by
  have hst := h.stage
  rw [StageOk, hstage] at hst
  obtain ⟨hbucket, hlease⟩ := hst
  rcases updateMaintenance_cases hc₁ with ⟨rfl, rfl, hmiss⟩ | ⟨rfl, hfree, m, hm, -, rfl⟩
  · obtain ⟨m, hm⟩ := Option.isSome_iff_exists.mp hlease
    have hseen : c₁.lease db = some m := by rw [Call.lease, hm, Option.some_or]
    exact absurd (hmiss m hseen) (by simp)
  · have hcap := (h.lease_count hdb hm).2
    refine ⟨h.update hdb hm hbucket ?_ (by simp only; omega), Moved.maintenance hfree _ _⟩
    rw [hstage]
    simp only [Stage.subtracted, Stage.reserved, if_true]
    omega

/-- A statement of a call that goes on leaves the committed rows alone, writes only
rows that no other call has, and keeps what the call knows. -/
theorem perform_running (h : CallOk settings hashIdentifier db c) (hdb : DbOk settings db)
    {db' : Database} {c' : Call}
    (hp : perform settings hashIdentifier db others c = some (.running db' c')) :
    Kept settings hashIdentifier db' others c c' ∧
      ∃ n, db.nextId ≤ n ∧ db' = { db with nextId := n } := by
  have hsame : ∃ n, db.nextId ≤ n ∧ db = { db with nextId := n } := ⟨db.nextId, le_rfl, rfl⟩
  have hst := h.stage
  unfold perform at hp
  unfold StageOk at hst
  split at hp <;> rename_i hstage <;>
    simp only [Option.bind_eq_bind, Option.bind_eq_some_iff, Option.pure_def, Option.some.injEq,
      Next.running.injEq, reduceCtorEq] at hp <;> simp only [hstage] at hst
  · obtain ⟨c₁, hc₁, rfl, rfl⟩ := hp
    exact ⟨insertMaintenance_kept h hdb hstage hc₁, hsame⟩
  · obtain ⟨⟨c₁, claimed⟩, hc₁, rfl, rfl⟩ := hp
    exact ⟨claimCleanup_kept h hdb hstage hc₁, hsame⟩
  · obtain ⟨rfl, rfl⟩ := hp
    exact ⟨selectStale_kept h hdb hstage, hsame⟩
  · obtain ⟨rfl, rfl⟩ := hp
    exact ⟨deleted_kept h hstage, hsame⟩
  · obtain ⟨c₁, hc₁, rfl, rfl⟩ := hp
    exact ⟨deleteStale_kept h hdb hstage hc₁, hsame⟩
  · obtain ⟨⟨c₁, hit⟩, hc₁, rfl, rfl⟩ := hp
    exact ⟨subtractDeleted_kept h hdb hstage hc₁, hsame⟩
  · obtain ⟨⟨c₁, consumed⟩, hc₁, rfl, rfl⟩ := hp
    have hsub : c.stage.subtracted = true := by rw [hstage]; rfl
    have hreserved : c.stage.reserved = 0 := by rw [hstage]; rfl
    cases consumed with
    | some n => exact ⟨consumeExistingBucket_kept h hdb hsub hreserved hst hc₁, hsame⟩
    | none =>
        rcases consumeExistingBucket_cases hc₁ with ⟨-, rfl, -⟩ | ⟨-, b, -, hn, -⟩
        · refine ⟨⟨h.goto hst ?_ (Or.inl ?_), Moved.stage _⟩, hsame⟩
          all_goals
            rw [hstage]
            rfl
        · cases hn
  · obtain ⟨⟨c₁, reserved⟩, hc₁, rfl, rfl⟩ := hp
    exact ⟨reserveBucketSlot_kept h hdb hstage hc₁, hsame⟩
  · obtain ⟨⟨db₁, c₁, consumed⟩, hc₁, rfl, rfl⟩ := hp
    obtain ⟨hkept, hnext⟩ := insertBucket_kept h hdb hstage hc₁
    exact ⟨hkept, db.nextId + 1, Nat.le_succ _, hnext⟩
  · obtain ⟨⟨c₁, hit⟩, hc₁, rfl, rfl⟩ := hp
    exact ⟨releaseBucketSlot_kept h hdb hstage hc₁, hsame⟩
  · obtain ⟨⟨c₁, consumed⟩, hc₁, hp⟩ := hp
    have hsub : c.stage.subtracted = true := by rw [hstage]; rfl
    have hreserved : c.stage.reserved = 0 := by rw [hstage]; rfl
    cases consumed with
    | some n =>
        simp only [Option.some.injEq, Next.running.injEq] at hp
        obtain ⟨rfl, rfl⟩ := hp
        exact ⟨consumeExistingBucket_kept h hdb hsub hreserved hst hc₁, hsame⟩
    | none => simp at hp

/-- A call ends with its commit, or without having been allowed. -/
theorem perform_ended {db' : Database} {outcome : Outcome}
    (hp : perform settings hashIdentifier db others c = some (.ended db' outcome)) :
    (db' = db ∧ outcome ≠ .allowed) ∨
      ∃ consumed, c.stage = .finish consumed ∧ db' = c.commit settings hashIdentifier db ∧
        outcome = c.outcome settings consumed := by
  unfold perform at hp
  split at hp <;> rename_i hstage <;>
    simp only [Option.bind_eq_bind, Option.bind_eq_some_iff, Option.pure_def, Option.some.injEq,
      Next.ended.injEq, reduceCtorEq, and_false, exists_false] at hp
  · obtain ⟨⟨c₁, consumed⟩, -, hp⟩ := hp
    cases consumed with
    | some n => simp at hp
    | none =>
        simp only [Option.some.injEq, Next.ended.injEq] at hp
        exact Or.inl ⟨hp.1.symm, hp.2 ▸ by simp⟩
  · exact Or.inr ⟨_, hstage, hp.1.symm, hp.2.symm⟩

/-! ## the commit -/

/-- The committed buckets are then those the call saw. -/
theorem lookup_commit (c : Call) (db : Database) (k : BucketKey) :
    (c.commit settings hashIdentifier db).buckets.lookup k =
      c.find settings hashIdentifier db k := by
  unfold Call.commit Call.find
  cases c.bucket with
  | none => simp [Table.lookup_eraseAll]
  | some b =>
      by_cases hk : k = c.key settings hashIdentifier
      · subst hk
        simp
      · simp [AList.lookup_insert_ne hk, Table.lookup_eraseAll, hk]

theorem rows_commit (h : CallOk settings hashIdentifier db c) :
    ((c.commit settings hashIdentifier db).rows : Int) =
      db.rows - c.deleted.length + c.fresh settings hashIdentifier db := by
  have herase := Table.length_eraseAll h.nodup fun k hk => (h.stale k hk).1
  unfold Call.commit Database.rows
  cases hbucket : c.bucket with
  | none =>
      rw [c.fresh_of_none hbucket]
      simp only
      omega
  | some b =>
      have hinsert := Table.length_insert (Table.eraseAll c.deleted db.buckets)
        (c.key settings hashIdentifier) b
      rw [Table.lookup_eraseAll, if_neg h.key_notMem] at hinsert
      rw [Call.fresh, hbucket]
      cases hlookup : db.buckets.lookup (c.key settings hashIdentifier) with
      | none =>
          rw [hlookup] at hinsert
          simp only [Option.isSome_none, Bool.false_eq_true, if_false] at hinsert
          simp only [Option.isSome_some, and_self, if_true]
          omega
      | some b₀ =>
          rw [hlookup] at hinsert
          simp only [Option.isSome_some, if_true] at hinsert
          simp only [reduceCtorEq, and_false, if_false]
          omega

/-- A row that a call sees is a committed one, as far as its id and its expiry go, or
the new row of its window. -/
theorem CallOk.find_cases (h : CallOk settings hashIdentifier db c) {k : BucketKey}
    {b : RateLimitBucket} (hfind : c.find settings hashIdentifier db k = some b) :
    (∃ b₀, db.buckets.lookup k = some b₀ ∧ b.id = b₀.id ∧ b.expiresAt = b₀.expiresAt) ∨
      (k = c.key settings hashIdentifier ∧ b.expiresAt = expiresOf settings k ∧
        b.id < db.nextId ∧ ∀ k' b', db.buckets.lookup k' = some b' → b'.id ≠ b.id) := by
  unfold Call.find at hfind
  split at hfind
  · rename_i hown
    obtain ⟨-, rfl⟩ := hown
    have hok := h.bucket b hfind
    unfold BucketOk at hok
    cases hlookup : db.buckets.lookup (c.key settings hashIdentifier) with
    | some b₀ =>
        simp only [hlookup] at hok
        left
        exact ⟨b₀, rfl, by rw [hok], by rw [hok]⟩
    | none =>
        simp only [hlookup] at hok
        exact Or.inr ⟨rfl, hok.2⟩
  · split at hfind
    · cases hfind
    · exact Or.inl ⟨b, hfind, rfl, rfl⟩

/-- At its end a call has the count that its commit leaves. -/
theorem CallOk.count_commit (h : CallOk settings hashIdentifier db c) (hdb : DbOk settings db)
    {consumed : Option Nat} (hstage : c.stage = .finish consumed) :
    (c.commit settings hashIdentifier db).bucketCount =
        (c.commit settings hashIdentifier db).rows ∧
      (c.commit settings hashIdentifier db).rows ≤ settings.maxBuckets := by
  have hrows := rows_commit h
  cases hlease : c.lease db with
  | none =>
      have hstored : (c.commit settings hashIdentifier db).maintenance = none := hlease
      obtain ⟨hown, hdbnone⟩ := Option.or_eq_none_iff.mp hlease
      obtain ⟨hdeleted, hfresh, -⟩ := h.unleased hown
      have hcount := hdb.count
      rw [Database.bucketCount, hdbnone] at hcount
      rw [hdeleted, hfresh, List.length_nil] at hrows
      rw [Database.bucketCount, hstored]
      simp only at hcount ⊢
      omega
  | some m =>
      have hstored : (c.commit settings hashIdentifier db).maintenance = some m := hlease
      obtain ⟨hcount, hcap⟩ := h.lease_count hdb hlease
      rw [Call.due, hstage] at hcount
      simp only [Stage.subtracted, Stage.reserved, if_true] at hcount
      rw [Database.bucketCount, hstored]
      simp only
      omega

theorem CallOk.commit (h : CallOk settings hashIdentifier db c) (hdb : DbOk settings db)
    {consumed : Option Nat} (hstage : c.stage = .finish consumed) :
    DbOk settings (c.commit settings hashIdentifier db) := by
  obtain ⟨hcount, hcap⟩ := h.count_commit hdb hstage
  constructor
  case count => exact hcount
  case cap => exact hcap
  case expires =>
    intro k b hb
    rw [lookup_commit] at hb
    rcases h.find_cases hb with ⟨b₀, hb₀, -, hexpires⟩ | ⟨-, hexpires, -⟩
    · rw [hexpires]
      exact hdb.expires k b₀ hb₀
    · exact hexpires
  case below =>
    intro k b hb
    rw [lookup_commit] at hb
    rcases h.find_cases hb with ⟨b₀, hb₀, hid, -⟩ | ⟨-, -, hid, -⟩
    · rw [hid]
      exact hdb.below k b₀ hb₀
    · exact hid
  case unique =>
    intro k b k' b' hb hb' hid
    rw [lookup_commit] at hb hb'
    rcases h.find_cases hb with ⟨b₀, hb₀, hid₀, -⟩ | ⟨hk, -, -, hnew⟩
    · rcases h.find_cases hb' with ⟨b₁, hb₁, hid₁, -⟩ | ⟨-, -, -, hnew'⟩
      · exact hdb.unique k b₀ k' b₁ hb₀ hb₁ (by rw [← hid₀, hid, hid₁])
      · exact absurd (hid₀.symm.trans hid) (hnew' k b₀ hb₀)
    · rcases h.find_cases hb' with ⟨b₁, hb₁, hid₁, -⟩ | ⟨hk', -⟩
      · exact absurd (hid₁.symm.trans hid.symm) (hnew k' b₁ hb₁)
      · rw [hk, hk']

/-! ## the others -/

/-- A call without the lease row changes no row but its own bucket, which was there. -/
theorem CallOk.find_unleased (h : CallOk settings hashIdentifier db c)
    (hlease : c.maintenance = none) (k : BucketKey) :
    (c.find settings hashIdentifier db k = none ↔ db.buckets.lookup k = none) ∧
      ∀ b, c.find settings hashIdentifier db k = some b →
        ∃ b₀, db.buckets.lookup k = some b₀ ∧ b.id = b₀.id ∧ b.expiresAt = b₀.expiresAt := by
  obtain ⟨hdeleted, hfresh, -⟩ := h.unleased hlease
  unfold Call.find
  rw [hdeleted, if_neg (List.not_mem_nil : k ∉ [])]
  split
  · rename_i hown
    obtain ⟨hsome, rfl⟩ := hown
    obtain ⟨b, hb⟩ := Option.isSome_iff_exists.mp hsome
    have hok := h.bucket b hb
    unfold BucketOk at hok
    cases hlookup : db.buckets.lookup (c.key settings hashIdentifier) with
    | none =>
        rw [Call.fresh, if_pos ⟨hsome, hlookup⟩] at hfresh
        exact absurd hfresh (by decide)
    | some b₀ =>
        simp only [hlookup] at hok
        rw [hb]
        refine ⟨by simp, fun b' hb' => ⟨b₀, rfl, ?_⟩⟩
        cases hb'
        rw [hok]
        exact ⟨rfl, rfl⟩
  · exact ⟨Iff.rfl, fun b hb => ⟨b, hb, rfl, rfl⟩⟩

theorem find_of_not_holds {k : BucketKey} (h : ¬c.Holds settings hashIdentifier k) :
    c.find settings hashIdentifier db k = db.buckets.lookup k := by
  rw [Call.Holds, not_or] at h
  rw [Call.find, if_neg h.2, if_neg h.1]

section Frame

variable {d : Call}

/-- The bucket of a call is not changed by the commit of another one. -/
theorem lookup_commit_key (hsome : c.bucket.isSome)
    (hapart : ∀ k, c.Holds settings hashIdentifier k → ¬d.Holds settings hashIdentifier k) :
    (d.commit settings hashIdentifier db).buckets.lookup (c.key settings hashIdentifier) =
      db.buckets.lookup (c.key settings hashIdentifier) := by
  rw [lookup_commit]
  exact find_of_not_holds (hapart _ (Or.inr ⟨hsome, rfl⟩))

theorem fresh_commit
    (hapart : ∀ k, c.Holds settings hashIdentifier k → ¬d.Holds settings hashIdentifier k) :
    c.fresh settings hashIdentifier (d.commit settings hashIdentifier db) =
      c.fresh settings hashIdentifier db := by
  unfold Call.fresh
  cases hsome : c.bucket.isSome with
  | false => simp
  | true => rw [lookup_commit_key hsome hapart]

/-- **What a call knows is kept by the commit of another one**, when they do not both
have the lease row and have no bucket in common. -/
theorem CallOk.frame (h : CallOk settings hashIdentifier db c)
    (hd : CallOk settings hashIdentifier db d)
    (hlease : c.maintenance.isSome → d.maintenance = none)
    (hapart : ∀ k, c.Holds settings hashIdentifier k → ¬d.Holds settings hashIdentifier k) :
    CallOk settings hashIdentifier (d.commit settings hashIdentifier db) c := by
  have hfresh : c.fresh settings hashIdentifier (d.commit settings hashIdentifier db) =
      c.fresh settings hashIdentifier db := fresh_commit hapart
  have hunleased : ∀ hc : c.maintenance.isSome, ∀ k b,
      (d.commit settings hashIdentifier db).buckets.lookup k = some b →
        ∃ b₀, db.buckets.lookup k = some b₀ ∧ b.id = b₀.id ∧ b.expiresAt = b₀.expiresAt := by
    intro hc k b hb
    rw [lookup_commit] at hb
    exact (hd.find_unleased (hlease hc) k).2 b hb
  constructor
  case stage =>
    have hst := h.stage
    unfold StageOk at hst ⊢
    split
    all_goals
      rename_i hstage
      simp only [hstage] at hst
    -- only the rows that are to be deleted are looked at
    case h_4 =>
      refine ⟨hst.1, hst.2.1, fun id hid k b hb hbid => ?_⟩
      obtain ⟨b₀, hb₀, hid₀, hexpires⟩ := hunleased hst.2.1 k b hb
      rw [hexpires]
      exact hst.2.2 id hid k b₀ hb₀ (hid₀.symm.trans hbid)
    all_goals exact hst
  case nodup => exact h.nodup
  case stale =>
    intro k hk
    rw [lookup_commit, find_of_not_holds (hapart k (Or.inl hk))]
    exact h.stale k hk
  case unleased =>
    intro hnone
    rw [hfresh]
    exact h.unleased hnone
  case bucket =>
    intro b hb
    have hok := h.bucket b hb
    have hsome : c.bucket.isSome := by rw [hb]; rfl
    unfold BucketOk at hok ⊢
    rw [lookup_commit_key hsome hapart]
    cases hlookup : db.buckets.lookup (c.key settings hashIdentifier) with
    | some b₀ =>
        simp only [hlookup] at hok
        exact hok
    | none =>
        simp only [hlookup] at hok
        -- a new row comes with the lease row
        have hc : c.maintenance.isSome := by
          by_contra hnot
          have hzero := (h.unleased (Option.not_isSome_iff_eq_none.mp hnot)).2.1
          rw [Call.fresh, if_pos ⟨hsome, hlookup⟩] at hzero
          exact absurd hzero (by decide)
        refine ⟨hok.1, hok.2.1, hok.2.2.1, fun k b' hb' => ?_⟩
        obtain ⟨b₀, hb₀, hid, -⟩ := hunleased hc k b' hb'
        rw [hid]
        exact hok.2.2.2 k b₀ hb₀
  case balance =>
    intro m hm
    have hc : c.maintenance.isSome := by rw [hm]; rfl
    obtain ⟨hdeleted, hzero, -⟩ := hd.unleased (hlease hc)
    have hrows := rows_commit hd
    rw [hdeleted, hzero, List.length_nil] at hrows
    have hbalance := h.balance m hm
    rw [Call.due] at hbalance ⊢
    rw [hfresh]
    have hsame : ((d.commit settings hashIdentifier db).rows : Int) = db.rows := by omega
    rw [hsame]
    exact hbalance

end Frame

end Calls

end Backend.RateLimits
