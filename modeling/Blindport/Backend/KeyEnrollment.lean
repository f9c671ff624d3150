import Blindport.Conc.Transaction
import Blindport.Backend.Models

/-!
# Blindport.Backend.KeyEnrollment

`services/wireguard.py`: `enroll_key`, the enrolment and rotation of an account's
WireGuard key.

The calls share the table of peers, one row per account.  The subscriptions and the
identity of the account are read from outside, anew each time, so that the identity
may be reset at any point of a call.
-/

namespace Backend

namespace KeyEnrollment

open Conc

/-! ## the service -/

/-- `WireGuardPeer`, with all its columns. -/
structure Peer where
  userId : Nat
  instanceId : String
  publicKey : String
  generation : Int
  createdAt : Datetime
  updatedAt : Datetime
  deriving DecidableEq

/-- What a call is given. -/
structure Request where
  userId : Nat
  instanceId : String
  generation : Int
  publicKey : String
  deriving DecidableEq

/-- The identity of an account: its instance, and whether its key verifies the signature
of the request. -/
structure Identity where
  instanceId : String
  verifies : Bool

/-- What a call reads outside of the table. -/
structure Outside where
  /-- The prefixes of `_active_routed_subscriptions`, sorted. -/
  prefixes : List String
  identity : Option Identity
  now : Datetime

/-- The settings a configuration carries. -/
structure Relay where
  publicKey : String
  endpoint : String
  mtu : Nat
  persistentKeepaliveSeconds : Nat
  deriving DecidableEq

/-- `WireGuardClientConfig`. -/
structure ClientConfig where
  instanceId : String
  generation : Int
  publicKey : Option String
  assignedPrefixes : List String
  relay : Relay
  deriving DecidableEq

/-- What a call raises. -/
inductive Error where
  | valueError (message : String)
  | conflict (message : String)
  | integrity
  deriving DecidableEq

/-- What goes on record: the row a request is compared with, the row found after a lost
race, what is stored, and how the call ends. -/
inductive Event where
  | compared (req : Request) (row : Option Peer)
  | found (userId : Nat) (row : Option Peer)
  | stored (rows : List (Nat × Peer))
  | responded (req : Request) (config : ClientConfig)
  | rejected (req : Request) (error : Error)
  deriving DecidableEq

/-- The table and the record. -/
abbrev World := Journal Nat Peer Event

/-- Programs of a call. -/
abbrev Db := Prog Outside World Error

/-- `public_key` is unique. -/
def rival (r r' : Peer) : Bool := r.publicKey = r'.publicKey

/-- `client_config`. -/
def clientConfig (relay : Relay) (i userId : Nat) : Db ClientConfig := do
  let prefixes ← Journal.input Outside.prefixes
  if prefixes.isEmpty then
    .raise (.valueError "account has no active WireGuard Blindport IP subscription")
  else
    match ← Journal.input Outside.identity with
    | none => .raise (.conflict "client identity must be enrolled first")
    | some identity =>
        let row ← Journal.query fun g => g.get i userId
        let peer := row.filter (·.instanceId = identity.instanceId)
        pure ⟨identity.instanceId, (peer.map (·.generation)).getD 0, peer.map (·.publicKey),
          prefixes, relay⟩

/-- `_raise_conflict`. -/
def conflict (req : Request) : Option Peer → Error
  | none => .conflict "WireGuard public key is already enrolled"
  | some current =>
      if current.instanceId ≠ req.instanceId then
        .conflict "a different instance_id owns the WireGuard key"
      else if req.generation < current.generation then .conflict "generation is stale"
      else .conflict "generation must advance by exactly one"

/-- The row a lost race has left; `same` says whether it is what was asked for. -/
def resolve (relay : Relay) (i : Nat) (req : Request) (same : Peer → Bool) :
    Db ClientConfig := do
  let winner ← Journal.load i req.userId (.found req.userId)
  if winner.any same then clientConfig relay i req.userId
  else .raise (conflict req winner)

/-- The key and the generation are those of the request. -/
def Peer.carries (row : Peer) (req : Request) : Bool :=
  row.publicKey = req.publicKey ∧ row.generation = req.generation

/-- The row is what was asked for. -/
def Peer.isRetry (row : Peer) (req : Request) : Bool :=
  row.instanceId = req.instanceId ∧ row.carries req

/-- `enroll_key` for an account whose instance was replaced. -/
def replaceInstance (relay : Relay) (i : Nat) (req : Request) (current : Peer) :
    Db ClientConfig := do
  if req.generation ≠ 1 then
    .raise (.conflict "first enrollment after an identity reset requires generation 1")
  else
    let now ← Journal.input Outside.now
    let same (row : Peer) : Bool :=
      row.instanceId = current.instanceId ∧ row.generation = current.generation
    let replaced (row : Peer) : Peer :=
      { row with
        instanceId := req.instanceId, publicKey := req.publicKey, generation := req.generation,
        updatedAt := now }
    match ← Journal.updateRow rival i req.userId same replaced with
    | .taken => .raise .integrity
    | .missed => do
        Journal.commitAll .stored i
        resolve relay i req (·.isRetry req)
    | .done => do
        Journal.commitAll .stored i
        clientConfig relay i req.userId

/-- `enroll_key` for an account without a key. -/
def enrollFirst (relay : Relay) (i : Nat) (req : Request) : Db ClientConfig := do
  if req.generation ≠ 1 then .raise (.conflict "first enrollment requires generation 1")
  else
    let now ← Journal.input Outside.now
    let row : Peer := ⟨req.userId, req.instanceId, req.publicKey, req.generation, now, now⟩
    match ← Journal.insertRow rival i req.userId row with
    | .done => do
        Journal.commitAll .stored i
        clientConfig relay i req.userId
    | _ => do
        Journal.rollbackAll i
        resolve relay i req (·.carries req)

/-- `enroll_key` for the instance that is enrolled. -/
def rotate (relay : Relay) (i : Nat) (req : Request) (current : Peer) : Db ClientConfig := do
  if req.generation ≠ current.generation + 1 then .raise (conflict req current)
  else
    let now ← Journal.input Outside.now
    let same (row : Peer) : Bool :=
      row.instanceId = req.instanceId ∧ row.generation = current.generation
    let rotated (row : Peer) : Peer :=
      { row with publicKey := req.publicKey, generation := req.generation, updatedAt := now }
    match ← Journal.updateRow rival i req.userId same rotated with
    | .taken => .raise .integrity
    | .missed => do
        Journal.commitAll .stored i
        resolve relay i req (·.carries req)
    | .done => do
        Journal.commitAll .stored i
        clientConfig relay i req.userId

/-- `enroll_key` once the row of the account is loaded. -/
def settleKey (relay : Relay) (i : Nat) (req : Request) (config : ClientConfig) :
    Option Peer → Db ClientConfig
  | none => enrollFirst relay i req
  | some current =>
      if current.instanceId ≠ req.instanceId then replaceInstance relay i req current
      else if current.isRetry req then pure config
      else rotate relay i req current

/-- `enroll_key`; the second test is that of `_verify_identity_signature`. -/
def enrollKey (relay : Relay) (i : Nat) (req : Request) : Db ClientConfig := do
  let config ← clientConfig relay i req.userId
  match ← Journal.input Outside.identity with
  | none => .raise (.conflict "client identity must be enrolled first")
  | some identity =>
      if identity.instanceId ≠ req.instanceId then
        .raise (.conflict "instance_id does not match enrolled identity")
      else if ¬ identity.verifies then .raise (.valueError "WireGuard key signature is invalid")
      else
        let current ← Journal.load i req.userId (.compared req)
        settleKey relay i req config current

/-- A request: the configuration, or the error after the session was closed. -/
def serve (relay : Relay) (i : Nat) (req : Request) : Db Unit :=
  Prog.tryCatch (do
    let config ← enrollKey relay i req
    Journal.record i (.responded req config))
  fun e => do
    Journal.rollbackAll i
    Journal.record i (.rejected req e)

/-- Calls of `enroll_key`; a session that ends is rolled back. -/
def system (relay : Relay) : System Outside World Error Request where
  program i req := serve relay i req
  close i g := g.rollback i

/-! ## the rules of the record -/

/-- A row that follows another: the same instance advances by one generation, another one
starts at one. -/
def Succeeds : Option Peer → Peer → Prop
  | none, row => row.generation = 1
  | some old, row =>
      if row.instanceId = old.instanceId then row.generation = old.generation + 1
      else row.generation = 1

/-- The request retries what the row holds. -/
def Retries (req : Request) (row : Option Peer) : Prop := row.any (·.isRetry req) = true

/-- The generation of the request is the one that is due. -/
def Due (req : Request) : Option Peer → Prop
  | none => req.generation = 1
  | some row =>
      if req.instanceId = row.instanceId then req.generation = row.generation + 1
      else req.generation = 1

/-- The record of a call: nothing yet; compared; after a lost race; or stored. -/
inductive Trace (req : Request) : List Event → Prop where
  | fresh : Trace req []
  | compared (row : Option Peer) (hretries : ¬ Retries req row) : Trace req [.compared req row]
  | lost (row winner : Option Peer) (hretries : ¬ Retries req row) (hdue : Due req row) :
      Trace req [.found req.userId winner, .compared req row]
  | stored (row : Option Peer) (new : Peer) (hretries : ¬ Retries req row) (hdue : Due req row)
      (hnew : new.isRetry req = true) :
      Trace req [.stored [(req.userId, new)], .compared req row]

/-- The record of a call that succeeds: it retried what it was compared with, it found its
key after a lost race, or it stored it. -/
inductive Success (req : Request) : List Event → Prop where
  | retried (row : Peer) (hretry : row.isRetry req = true) :
      Success req [.compared req (some row)]
  | lost (row : Option Peer) (winner : Peer) (hretries : ¬ Retries req row) (hdue : Due req row)
      (hwinner : winner.carries req = true) :
      Success req [.found req.userId (some winner), .compared req row]
  | stored (row : Option Peer) (new : Peer) (hretries : ¬ Retries req row) (hdue : Due req row)
      (hnew : new.isRetry req = true) :
      Success req [.stored [(req.userId, new)], .compared req row]

/-- How rows are stored. -/
def feed (start : Journal.Stored Nat Peer rival) : Feed Nat Peer Event where
  publication
    | .stored rows => some rows
    | _ => none
  init := Journal.rowOf start.rows

/-- What a call may put on record. -/
def rules (start : Journal.Stored Nat Peer rival) : Rules Nat Peer Event where
  toFeed := feed start
  Allowed h i
    | .compared req row => row = (feed start).committedAt h req.userId ∧ Journal.own i h = []
    | .found userId row => row = (feed start).committedAt h userId
    | .stored rows => ∃ req row new, Journal.own i h = [.compared req row] ∧
        ¬ Retries req row ∧ Due req row ∧ rows = [(req.userId, new)] ∧
        new.isRetry req = true ∧ Succeeds ((feed start).committedAt h req.userId) new
    | .responded req _ => Success req (Journal.own i h)
    | .rejected req _ => Trace req (Journal.own i h)
  rival := rival
  rival_symm r r' := by
    simp only [rival, decide_eq_decide]
    exact eq_comm

/-! ## the programs keep the rules -/

variable {relay : Relay} {start : Journal.Stored Nat Peer rival} {i : Nat} {req : Request}

open Journal Rules

/-- What holds where a call raises. -/
def Failed (i : Nat) (req : Request) (_ : Error) (g : World) : Prop :=
  ∃ es hs, Trace req es ∧ At i es hs g

/-- What holds where a call returns. -/
def Succeeded (i : Nat) (req : Request) (_ : ClientConfig) (g : World) : Prop :=
  ∃ es, Success req es ∧ At i es free g

/-- A raise is a failure of the call. -/
theorem raise_spec {e : Error} {es : List Event} {hs : Nat → Option (Option Peer × Peer)}
    (htrace : Trace req es) {Q : ClientConfig → World → Prop} :
    (rules start).discipline.Triple i (At i es hs) (.raise e : Db ClientConfig) Q
      (Failed i req) :=
  .raise fun _ _ hat => ⟨es, hs, htrace, hat⟩

/-- The configuration is read without a trace. -/
theorem clientConfig_spec {userId : Nat} {es : List Event} (htrace : Trace req es) :
    (rules start).discipline.Triple i (At i es free) (clientConfig relay i userId)
      (fun _ => At i es free) (Failed i req) := by
  refine triple_input.bind fun prefixes => ?_
  split
  · exact raise_spec htrace
  · refine triple_input.bind fun identity => ?_
    cases identity with
    | none => exact raise_spec htrace
    | some identity =>
        refine (triple_query (F := fun _ => True) fun _ _ _ => trivial).bind fun row => ?_
        exact .assume fun _ => .pure fun g _ hat => hat

/-- The configuration as the answer of a call that succeeded. -/
theorem answer_spec {userId : Nat} {es : List Event} (htrace : Trace req es)
    (hsuccess : Success req es) :
    (rules start).discipline.Triple i (At i es free) (clientConfig relay i userId)
      (Succeeded i req) (Failed i req) :=
  (clientConfig_spec htrace).mono (fun _ _ _ hat => ⟨es, hsuccess, hat⟩) fun _ _ h => h

theorem resolve_spec {row : Option Peer} {same : Peer → Bool} (hretries : ¬ Retries req row)
    (hdue : Due req row) (hsame : ∀ winner, same winner = true → winner.carries req = true) :
    (rules start).discipline.Triple i (At i [.compared req row] free)
      (resolve relay i req same) (Succeeded i req) (Failed i req) := by
  have hload : (rules start).discipline.Triple i (At i [.compared req row] free)
      (Journal.load i req.userId (.found req.userId) : Db (Option Peer))
      (fun winner g => True ∧ At i [.found req.userId winner, .compared req row] free g)
      (Failed i req) := by
    refine triple_load (fun _ => rfl) fun g hinv hat => ⟨?_, trivial⟩
    change g.get i req.userId = _
    rw [get_of_held_none (congrFun hat.2 req.userId)]
    exact hinv.committed req.userId
  refine hload.bind fun winner => .assume fun _ => ?_
  have htrace := Trace.lost row winner hretries hdue
  split
  · rename_i hany
    cases winner with
    | none => cases hany
    | some w => exact answer_spec htrace (.lost row w hretries hdue (hsame w hany))
  · exact raise_spec htrace

/-- A row that is stored is committed and answered. -/
theorem publish_spec {row old : Option Peer} {new : Peer} (hretries : ¬ Retries req row)
    (hdue : Due req row) (hnew : new.isRetry req = true) (hsucceeds : Succeeds old new) :
    (rules start).discipline.Triple i
      (At i [.compared req row] (only req.userId old new))
      (do commitAll Event.stored i; clientConfig relay i req.userId)
      (Succeeded i req) (Failed i req) := by
  refine Discipline.Triple.bind (triple_commit_only rfl fun g hinv hown hold => ?_) fun _ => ?_
  · subst hold
    exact ⟨req, row, new, hown, hretries, hdue, rfl, hnew, hsucceeds⟩
  · exact answer_spec (.stored row new hretries hdue hnew) (.stored row new hretries hdue hnew)

theorem enrollFirst_spec :
    (rules start).discipline.Triple i (At i [.compared req none] free) (enrollFirst relay i req)
      (Succeeded i req) (Failed i req) := by
  have hretries : ¬ Retries req none := by simp [Retries]
  unfold enrollFirst
  split
  · exact raise_spec (.compared none hretries)
  rename_i hone
  have hone : req.generation = 1 := by simpa using hone
  refine triple_input.bind fun now => (triple_insert rfl).bind fun written => ?_
  have hcarries : ∀ winner : Peer, winner.carries req = true → winner.carries req = true :=
    fun _ h => h
  cases written with
  | done =>
      exact publish_spec hretries hone (by simp [Peer.isRetry, Peer.carries]) hone
  | missed => exact triple_rollback.bind fun _ => resolve_spec hretries hone hcarries
  | taken => exact triple_rollback.bind fun _ => resolve_spec hretries hone hcarries

theorem replaceInstance_spec {current : Peer} (hother : current.instanceId ≠ req.instanceId) :
    (rules start).discipline.Triple i (At i [.compared req (some current)] free)
      (replaceInstance relay i req current) (Succeeded i req) (Failed i req) := by
  have hretries : ¬ Retries req (some current) := by simp [Retries, Peer.isRetry, hother]
  have htrace := Trace.compared _ hretries
  unfold replaceInstance
  split
  · exact raise_spec htrace
  rename_i hone
  have hone : req.generation = 1 := by simpa using hone
  have hdue : Due req (some current) := by
    rw [Due, if_neg (Ne.symm hother)]
    exact hone
  refine triple_input.bind fun now => (triple_update rfl).bind fun written => ?_
  cases written with
  | taken => exact .assume fun _ => raise_spec htrace
  | missed =>
      refine (triple_commit_free fun _ => rfl).bind fun _ =>
        resolve_spec hretries hdue fun winner h => ?_
      simp only [Peer.isRetry, decide_eq_true_eq] at h
      exact h.2
  | done =>
      refine triple_exists fun row => .assume fun hfound => ?_
      simp only [Bool.decide_and, Bool.and_eq_true, decide_eq_true_eq] at hfound
      refine publish_spec hretries hdue ?_ ?_
      · simp [Peer.isRetry, Peer.carries]
      · rw [Succeeds, if_neg]
        · exact hone
        · rw [hfound.1]
          exact Ne.symm hother

theorem rotate_spec {current : Peer} (hinstance : current.instanceId = req.instanceId)
    (hretries : ¬ Retries req (some current)) :
    (rules start).discipline.Triple i (At i [.compared req (some current)] free)
      (rotate relay i req current) (Succeeded i req) (Failed i req) := by
  have htrace := Trace.compared _ hretries
  unfold rotate
  split
  · exact raise_spec htrace
  rename_i hnext
  have hnext : req.generation = current.generation + 1 := by simpa using hnext
  have hdue : Due req (some current) := by
    rw [Due, if_pos hinstance.symm]
    exact hnext
  refine triple_input.bind fun now => (triple_update rfl).bind fun written => ?_
  cases written with
  | taken => exact .assume fun _ => raise_spec htrace
  | missed =>
      exact (triple_commit_free fun _ => rfl).bind fun _ => resolve_spec hretries hdue fun _ h => h
  | done =>
      refine triple_exists fun row => .assume fun hfound => ?_
      simp only [Bool.decide_and, Bool.and_eq_true, decide_eq_true_eq] at hfound
      refine publish_spec hretries hdue ?_ ?_
      · simp [Peer.isRetry, Peer.carries, hfound.1]
      · rw [Succeeds, if_pos rfl, hfound.2]
        exact hnext

theorem settleKey_spec {config : ClientConfig} {row : Option Peer} :
    (rules start).discipline.Triple i (At i [.compared req row] free)
      (settleKey relay i req config row) (Succeeded i req) (Failed i req) := by
  unfold settleKey
  split
  · exact enrollFirst_spec
  rename_i current
  split
  · rename_i hother
    exact replaceInstance_spec hother
  rename_i hinstance
  have hinstance : current.instanceId = req.instanceId := by simpa using hinstance
  split
  · rename_i hretry
    exact .pure fun g _ hat => ⟨_, .retried current hretry, hat⟩
  · rename_i hretry
    exact rotate_spec hinstance (by simpa [Retries] using hretry)

theorem enrollKey_spec :
    (rules start).discipline.Triple i (At i [] free) (enrollKey relay i req)
      (Succeeded i req) (Failed i req) := by
  refine (clientConfig_spec .fresh).bind fun config => triple_input.bind fun identity => ?_
  cases identity with
  | none => exact raise_spec .fresh
  | some identity =>
      simp only
      split
      · exact raise_spec .fresh
      split
      · exact raise_spec .fresh
      have hload : (rules start).discipline.Triple i (At i [] free)
          (Journal.load i req.userId (.compared req) : Db (Option Peer))
          (fun row g => True ∧ At i [.compared req row] free g) (Failed i req) := by
        refine triple_load (fun _ => rfl) fun g hinv hat => ⟨⟨?_, hat.1⟩, trivial⟩
        rw [get_of_held_none (congrFun hat.2 req.userId)]
        exact hinv.committed req.userId
      exact hload.bind fun row => .assume fun _ => settleKey_spec

theorem respond_spec :
    (rules start).discipline.Triple i (At i [] free)
      (do
        let config ← enrollKey relay i req
        record i (.responded req config))
      (fun _ _ => True) (Failed i req) := by
  refine enrollKey_spec.bind fun config => triple_exists fun es => .assume fun hsuccess => ?_
  refine (triple_record rfl fun g hinv hat => ?_).mono (fun _ _ _ _ => trivial) fun _ _ h => h
  change Success req (own i g.history)
  rw [hat.1]
  exact hsuccess

theorem serve_spec :
    (rules start).discipline.Triple i (At i [] free) (serve relay i req)
      (fun _ _ => True) (fun _ _ => True) := by
  refine .tryCatch respond_spec fun e => ?_
  refine triple_exists fun es => triple_exists fun hs => .assume fun htrace => ?_
  refine triple_rollback.bind fun _ => ?_
  refine (triple_record rfl fun g hinv hat => ?_).mono (fun _ _ _ _ => trivial) fun _ _ h => h
  change Trace req (own i g.history)
  rw [hat.1]
  exact htrace

/-- The calls keep to the rules. -/
def certified (relay : Relay) (start : Journal.Stored Nat Peer rival) :
    Certified (system relay) (rules start).discipline where
  Fresh i := At i [] free
  fresh_stable _ := stable_at
  close_move _ _ _ := .single .rollback
  entry _ _ := serve_spec

theorem run_inv {ls : List (Label Outside Request)} {c : Config Outside World Error}
    (hrun : (system relay).run (System.init (ofStored start)) ls = some c) :
    (rules start).Inv c.global :=
  Rules.run_inv (certified relay start) (inv_ofStored start rfl) (fun _ => ⟨rfl, rfl⟩) hrun

/-! ## what the record says -/

/-- What a call is compared with comes before everything else it records. -/
theorem compared_before {h : List (Nat × Event)} (hjust : (rules start).Justified h)
    {row : Option Peer} {e : Event} (hne : ∀ req row, e ≠ .compared req row)
    (hcompared : (i, .compared req row) ∈ h) (hmem : (i, e) ∈ h) :
    ∃ h', (rules start).Allowed h' i e ∧ .compared req row ∈ own i h' := by
  obtain ⟨a, b, rfl⟩ := List.append_of_mem hmem
  refine ⟨b, hjust.allowed, ?_⟩
  cases List.mem_append.mp hcompared with
  | inl hafter =>
      obtain ⟨a₁, a₂, rfl⟩ := List.append_of_mem hafter
      rw [List.append_assoc, List.cons_append] at hjust
      have hfirst : own i (a₂ ++ (i, e) :: b) = [] := hjust.allowed.2
      simp [own_append] at hfirst
  | inr hbefore =>
      cases List.mem_cons.mp hbefore with
      | inl heq => exact absurd (Prod.mk.inj heq).2.symm (hne req row)
      | inr hmem => exact mem_own.mpr hmem

/-- A call that retries what is stored stores nothing and is not rejected. -/
theorem retry_stored {h : List (Nat × Event)} (hjust : (rules start).Justified h)
    {row : Option Peer} (hcompared : (i, .compared req row) ∈ h) (hretries : Retries req row) :
    (∀ rows, (i, .stored rows) ∉ h) ∧ ∀ req' e, (i, .rejected req' e) ∉ h := by
  constructor
  · intro rows hmem
    obtain ⟨b, hallowed, hown⟩ := compared_before hjust (by simp) hcompared hmem
    obtain ⟨req', row', new, htrace, hnot, -⟩ := hallowed
    rw [htrace, List.mem_singleton, Event.compared.injEq] at hown
    obtain ⟨rfl, rfl⟩ := hown
    exact hnot hretries
  · intro req' e hmem
    obtain ⟨b, hallowed, hown⟩ := compared_before hjust (by simp) hcompared hmem
    have htrace : Trace req' (own i b) := hallowed
    generalize own i b = es at hown htrace
    cases htrace with
    | fresh => cases hown
    | compared row' hnot =>
        simp only [List.mem_singleton, Event.compared.injEq] at hown
        obtain ⟨rfl, rfl⟩ := hown
        exact hnot hretries
    | lost row' winner hnot hdue =>
        simp only [List.mem_cons, reduceCtorEq, List.not_mem_nil, or_false, false_or,
          Event.compared.injEq] at hown
        obtain ⟨rfl, rfl⟩ := hown
        exact hnot hretries
    | stored row' new hnot hdue hnew =>
        simp only [List.mem_cons, reduceCtorEq, List.not_mem_nil, or_false, false_or,
          Event.compared.injEq] at hown
        obtain ⟨rfl, rfl⟩ := hown
        exact hnot hretries

/-- A generation that is not due is rejected, and nothing is stored. -/
theorem stale_stored {h : List (Nat × Event)} (hjust : (rules start).Justified h)
    {row : Option Peer} (hcompared : (i, .compared req row) ∈ h) (hretries : ¬ Retries req row)
    (hdue : ¬ Due req row) :
    (∀ rows, (i, .stored rows) ∉ h) ∧ ∀ req' config, (i, .responded req' config) ∉ h := by
  constructor
  · intro rows hmem
    obtain ⟨b, hallowed, hown⟩ := compared_before hjust (by simp) hcompared hmem
    obtain ⟨req', row', new, htrace, -, hdue', -⟩ := hallowed
    rw [htrace, List.mem_singleton, Event.compared.injEq] at hown
    obtain ⟨rfl, rfl⟩ := hown
    exact hdue hdue'
  · intro req' config hmem
    obtain ⟨b, hallowed, hown⟩ := compared_before hjust (by simp) hcompared hmem
    have hsuccess : Success req' (own i b) := hallowed
    generalize own i b = es at hown hsuccess
    cases hsuccess with
    | retried row' hretry =>
        simp only [List.mem_singleton, Event.compared.injEq] at hown
        obtain ⟨rfl, rfl⟩ := hown
        exact hretries (by simpa [Retries] using hretry)
    | lost row' winner hnot hdue' hwinner =>
        simp only [List.mem_cons, reduceCtorEq, List.not_mem_nil, or_false, false_or,
          Event.compared.injEq] at hown
        obtain ⟨rfl, rfl⟩ := hown
        exact hdue hdue'
    | stored row' new hnot hdue' hnew =>
        simp only [List.mem_cons, reduceCtorEq, List.not_mem_nil, or_false, false_or,
          Event.compared.injEq] at hown
        obtain ⟨rfl, rfl⟩ := hown
        exact hdue hdue'

/-- A call that succeeds has seen its key and its generation in the table. -/
theorem success_carried {h : List (Nat × Event)} (hjust : (rules start).Justified h)
    {config : ClientConfig} (hmem : (i, .responded req config) ∈ h) :
    ∃ h' row, h' <:+ h ∧ (feed start).committedAt h' req.userId = some row ∧
      row.carries req = true := by
  obtain ⟨a, b, rfl⟩ := List.append_of_mem hmem
  have hsuccess : Success req (own i b) := hjust.allowed
  have hrest : (rules start).Justified b := (hjust.suffix : (rules start).Justified (_ :: b)).2
  have hsuffix : ∀ {b₁ : List (Nat × Event)}, b₁ <:+ b →
      b₁ <:+ a ++ (i, .responded req config) :: b :=
    fun hb => hb.trans ((List.suffix_cons _ b).trans (List.suffix_append a _))
  generalize hown : own i b = es at hsuccess
  cases hsuccess with
  | retried row hretry =>
      obtain ⟨b₁, b₂, rfl, -, -⟩ := own_eq_cons hown
      have hrow : some row = (feed start).committedAt b₂ req.userId := hrest.allowed.1
      refine ⟨b₂, row, hsuffix ⟨b₁ ++ [(i, .compared req (some row))], by simp⟩, hrow.symm, ?_⟩
      simp only [Peer.isRetry, decide_eq_true_eq] at hretry
      exact hretry.2
  | lost row winner hnot hdue hwinner =>
      obtain ⟨b₁, b₂, rfl, -, -⟩ := own_eq_cons hown
      have hrow : some winner = (feed start).committedAt b₂ req.userId := hrest.allowed
      exact ⟨b₂, winner, hsuffix ⟨b₁ ++ [(i, .found req.userId (some winner))], by simp⟩,
        hrow.symm, hwinner⟩
  | stored row new hnot hdue hnew =>
      obtain ⟨b₁, b₂, rfl, -, -⟩ := own_eq_cons hown
      refine ⟨(i, .stored [(req.userId, new)]) :: b₂, new, hsuffix ⟨b₁, rfl⟩, ?_, ?_⟩
      · rw [Feed.committedAt]
        change (rowOf [(req.userId, new)] req.userId).or _ = some new
        simp [rowOf]
      · simp only [Peer.isRetry, decide_eq_true_eq] at hnew
        exact hnew.2

/-- A retry ends at once with the configuration it has read. -/
theorem settleKey_retry {config : ClientConfig} {row : Peer} (hretry : row.isRetry req = true) :
    settleKey relay i req config (some row) = pure config := by
  have hinstance : row.instanceId = req.instanceId := by
    simp only [Peer.isRetry, decide_eq_true_eq] at hretry
    exact hretry.1
  simp [settleKey, hinstance, hretry]

/-- **The contract of `enroll_key`.**  In every run, whatever becomes of the identities:
the stored generation of an instance advances by one and starts at one; a call that is
compared with the row it asks for succeeds and stores nothing; one whose generation is not
due is rejected and stores nothing; and no two accounts hold one key. -/
theorem key_enrollment_contract (relay : Relay) (start : Journal.Stored Nat Peer rival)
    {ls : List (Label Outside Request)} {c : Config Outside World Error}
    (hrun : (system relay).run (System.init (ofStored start)) ls = some c) :
    (∀ userId, (c.global.cell userId).committed =
      (feed start).committedAt c.global.history userId) ∧
    (∀ h₁ h₂ i rows, c.global.history = h₁ ++ (i, .stored rows) :: h₂ → ∃ userId row,
      rows = [(userId, row)] ∧ Succeeds ((feed start).committedAt h₂ userId) row) ∧
    (∀ i req row, (i, .compared req (some row)) ∈ c.global.history → row.isRetry req = true →
      (∀ config, settleKey relay i req config (some row) = pure config) ∧
      (∀ rows, (i, .stored rows) ∉ c.global.history) ∧
      ∀ req' e, (i, .rejected req' e) ∉ c.global.history) ∧
    (∀ i req row, (i, .compared req row) ∈ c.global.history → ¬ Retries req row →
      ¬ Due req row → (∀ rows, (i, .stored rows) ∉ c.global.history) ∧
        ∀ req' config, (i, .responded req' config) ∉ c.global.history) ∧
    (∀ i req config, (i, .responded req config) ∈ c.global.history → ∃ h row,
      h <:+ c.global.history ∧ (feed start).committedAt h req.userId = some row ∧
        row.carries req = true) ∧
    (∀ userId userId' row row', userId ≠ userId' →
      (c.global.cell userId).committed = some row →
      (c.global.cell userId').committed = some row' → row.publicKey ≠ row'.publicKey) := by
  have hinv := run_inv hrun
  have hjust := hinv.justified
  refine ⟨hinv.committed, ?_, ?_, fun i req row => stale_stored hjust,
    fun i req config => success_carried hjust, ?_⟩
  · intro h₁ h₂ i rows heq
    rw [heq] at hjust
    obtain ⟨req, row, new, -, -, -, hrows, -, hsucceeds⟩ := hjust.allowed
    exact ⟨req.userId, new, hrows, hsucceeds⟩
  · intro i req row hcompared hretry
    obtain ⟨hstored, hrejected⟩ := retry_stored hjust hcompared (by simpa [Retries] using hretry)
    exact ⟨fun config => settleKey_retry hretry, hstored, hrejected⟩
  · intro userId userId' row row' hne hrow hrow'
    have hunique := hinv.unique userId userId' row row' hne (.inl hrow) (.inl hrow')
    simpa [rules, rival] using hunique

/-! ## a sample -/

/-- No keys yet. -/
def nobody : Journal.Stored Nat Peer rival := ⟨[], List.nodup_nil, by simp⟩

def sampleRelay : Relay := ⟨"relaykey", "relay.example.org:51820", 1420, 25⟩

def sampleRequest : Request := ⟨1, "3f0c9a52-6d0e-4a0f-8f7c-1d2e3f405162", 1, "clientkey"⟩

def samplePeer : Peer := ⟨1, "3f0c9a52-6d0e-4a0f-8f7c-1d2e3f405162", "clientkey", 1, 0, 0⟩

def sampleOutside : Outside :=
  ⟨["192.0.2.7/32"], some ⟨"3f0c9a52-6d0e-4a0f-8f7c-1d2e3f405162", true⟩, 0⟩

/-- The first call stores the key, the second one retries it. -/
def retriedRun : List (Label Outside Request) :=
  Label.spawn sampleRequest :: List.replicate 12 (Label.act 0 sampleOutside) ++
  Label.spawn sampleRequest :: List.replicate 6 (Label.act 1 sampleOutside)

/-- The retry finds the key of the first call, and has stored nothing. -/
theorem key_enrollment_retried : ∃ c,
    (system sampleRelay).run (System.init (ofStored nobody)) retriedRun = some c ∧
    (1, .compared sampleRequest (some samplePeer)) ∈ c.global.history ∧
    ∀ rows, (1, .stored rows) ∉ c.global.history := by
  have hrun : (system sampleRelay).run (System.init (ofStored nobody)) retriedRun = some _ := rfl
  refine ⟨_, hrun, by decide, ?_⟩
  have hcontract := (key_enrollment_contract sampleRelay nobody hrun).2.2.1
  exact (hcontract 1 sampleRequest samplePeer (by decide) (by decide)).2.1

end KeyEnrollment

end Backend
