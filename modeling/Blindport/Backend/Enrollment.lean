import Blindport.Conc.Transaction
import Blindport.Backend.Models

/-!
# Blindport.Backend.Enrollment

`services/client_enrollment.py`: the enrolment of client-controlled mTLS keys.

Any number of `enroll_client_certificate` calls run against the table of client
credentials, one row per user, each in a session of its own.  They put on record
what they load and store, and how they end; the claims about them are statements
about that record.
-/

namespace Backend

namespace Enrollment

open Conc

/-! ## the service -/

/-- `ClientCredential`, with all its columns. -/
structure Credential where
  userId : Nat
  instanceId : String
  publicKeyFingerprint : String
  generation : Int
  clientCertPem : String
  serial : String
  notBefore : Datetime
  notAfter : Datetime
  renewAfter : Datetime
  createdAt : Datetime
  updatedAt : Datetime
  deriving DecidableEq

/-- `ClientEnrollment`. -/
structure ClientEnrollment where
  instanceId : String
  generation : Int
  caCertPem : String
  clientCertPem : String
  serial : String
  notBefore : Datetime
  notAfter : Datetime
  renewAfter : Datetime
  deriving DecidableEq

/-- What a call is given; `fingerprint` is of the key of its CSR, if that is an Ed25519
key. -/
structure Request where
  userId : Nat
  instanceId : String
  generation : Int
  fingerprint : Option String
  deriving DecidableEq

/-- What `issue_client_cert_for_public_key` answers, and the clock after it. -/
structure Issued where
  clientCertPem : String
  serial : Nat
  notBefore : Datetime
  notAfter : Datetime
  now : Datetime

/-- What a call raises. -/
inductive Error where
  | valueError (message : String)
  | conflict (message : String)
  | runtimeError (message : String)
  deriving DecidableEq

/-- What goes on record. -/
inductive Event where
  | loaded (userId : Nat) (row : Option Credential)
  | stored (rows : List (Nat × Credential))
  | responded (userId : Nat) (generation : Int) (response : ClientEnrollment)
  | rejected (error : Error)
  deriving DecidableEq

/-- The table and the record. -/
abbrev World := Journal Nat Credential Event

/-- Programs of a call. -/
abbrev Db := Prog Issued World Error

/-- `instance_id` is unique. -/
def rival (r r' : Credential) : Bool := r.instanceId = r'.instanceId

/-- `_response`. -/
def response (ca : String) (credential : Credential) : ClientEnrollment where
  instanceId := credential.instanceId
  generation := credential.generation
  caCertPem := ca
  clientCertPem := credential.clientCertPem
  serial := credential.serial
  notBefore := credential.notBefore
  notAfter := credential.notAfter
  renewAfter := credential.renewAfter

/-- `_load`. -/
def load (i userId : Nat) : Db (Option Credential) := Journal.load i userId (.loaded userId)

/-- `_matches`. -/
def Credential.matches (credential : Credential) (req : Request) (fingerprint : String) : Bool :=
  credential.instanceId = req.instanceId ∧ credential.publicKeyFingerprint = fingerprint ∧
    credential.generation = req.generation

/-- `_raise_conflict`. -/
def conflict (req : Request) (fingerprint : String) : Option Credential → Error
  | none => .conflict "instance_id is already enrolled"
  | some credential =>
      if credential.instanceId ≠ req.instanceId then
        .conflict "a different instance_id is already enrolled"
      else if credential.publicKeyFingerprint ≠ fingerprint then
        .conflict "a different public key is already enrolled"
      else if req.generation < credential.generation then .conflict "generation is stale"
      else .conflict "generation must advance by exactly one"

/-- `timedelta * 2 / 3`, which rounds to the nearest microsecond. -/
def twoThirds (span : Int) : Int := (4 * span + 3) / 6

/-- `_new_credential`. -/
def newCredential (req : Request) (fingerprint : String) (issued : Issued) : Credential where
  userId := req.userId
  instanceId := req.instanceId
  publicKeyFingerprint := fingerprint
  generation := req.generation
  clientCertPem := issued.clientCertPem
  serial := String.ofList (Nat.toDigits 16 issued.serial)
  notBefore := issued.notBefore
  notAfter := issued.notAfter
  renewAfter := issued.notBefore + twoThirds (issued.notAfter - issued.notBefore)
  createdAt := issued.now
  updatedAt := issued.now

/-- The columns the `UPDATE` of a renewal sets. -/
def Credential.renewed (candidate row : Credential) : Credential :=
  { row with
    generation := candidate.generation
    clientCertPem := candidate.clientCertPem
    serial := candidate.serial
    notBefore := candidate.notBefore
    notAfter := candidate.notAfter
    renewAfter := candidate.renewAfter
    updatedAt := candidate.updatedAt }

/-- Another call was first: its row is the answer when it is what was asked for. -/
def resolve (ca : String) (i : Nat) (req : Request) (fingerprint : String) :
    Db ClientEnrollment := do
  Journal.rollbackAll i
  let winner ← load i req.userId
  match winner with
  | some row =>
      if row.matches req fingerprint then pure (response ca row)
      else .raise (conflict req fingerprint winner)
  | none => .raise (conflict req fingerprint winner)

/-- `enroll_client_certificate` for a user without a credential. -/
def enrollFirst (ca : String) (i : Nat) (req : Request) (fingerprint : String) :
    Db ClientEnrollment := do
  if req.generation ≠ 1 then .raise (.conflict "first enrollment requires generation 1")
  else
    let candidate ← Journal.input (newCredential req fingerprint)
    match ← Journal.insertRow rival i req.userId candidate with
    | .done =>
        Journal.commitAll .stored i
        let row ← load i req.userId
        pure (response ca (row.getD candidate))
    | _ => resolve ca i req fingerprint

/-- `enroll_client_certificate` for a user whose credential was loaded. -/
def renew (ca : String) (i : Nat) (req : Request) (fingerprint : String) (current : Credential) :
    Db ClientEnrollment := do
  if current.matches req fingerprint then pure (response ca current)
  else if current.instanceId ≠ req.instanceId ∨ current.publicKeyFingerprint ≠ fingerprint then
    .raise (conflict req fingerprint current)
  else if req.generation ≠ current.generation + 1 then
    .raise (conflict req fingerprint current)
  else
    let candidate ← Journal.input (newCredential req fingerprint)
    let same (row : Credential) : Bool :=
      row.instanceId = req.instanceId ∧ row.publicKeyFingerprint = fingerprint ∧
        row.generation = current.generation
    match ← Journal.updateRow rival i req.userId same candidate.renewed with
    | .done =>
        Journal.commitAll .stored i
        match ← load i req.userId with
        | none => .raise (.runtimeError "client credential disappeared")
        | some winner => pure (response ca winner)
    | _ => resolve ca i req fingerprint

/-- `enroll_client_certificate`. -/
def enrollClientCertificate (ca : String) (i : Nat) (req : Request) : Db ClientEnrollment := do
  match req.fingerprint with
  | none => .raise (.valueError "CSR public key must be Ed25519")
  | some fingerprint =>
      match ← load i req.userId with
      | none => enrollFirst ca i req fingerprint
      | some current => renew ca i req fingerprint current

/-- A request: the answer, or the error after the session was closed. -/
def serve (ca : String) (i : Nat) (req : Request) : Db Unit :=
  Prog.tryCatch (do
    let enrolled ← enrollClientCertificate ca i req
    Journal.record i (.responded req.userId req.generation enrolled))
  fun e => do
    Journal.rollbackAll i
    Journal.record i (.rejected e)

/-- Calls of `enroll_client_certificate`; a session that ends is rolled back. -/
def system (ca : String) : System Issued World Error Request where
  program i req := serve ca i req
  close i g := g.rollback i

/-! ## the rules of the record -/

/-- A row that follows another: the first one has generation one, and every other one
keeps the instance and the key and is the next generation. -/
def Succeeds : Option Credential → Credential → Prop
  | none, row => row.generation = 1
  | some old, row => row.instanceId = old.instanceId ∧
      row.publicKeyFingerprint = old.publicKeyFingerprint ∧ row.generation = old.generation + 1

/-- A call stored nothing. -/
def StoredNothing (trace : List Event) : Prop := ∀ rows, .stored rows ∉ trace

/-- The record of a call that answers: what it loaded last is what was asked for, or it
stored that itself and answers with what it loaded then. -/
def Answers (ca : String) (userId : Nat) (generation : Int) (trace : List Event)
    (answer : ClientEnrollment) : Prop :=
  (∃ row rest, trace = .loaded userId (some row) :: rest ∧ StoredNothing rest ∧
      row.generation = generation ∧ answer = response ca row) ∨
  (∃ row winner old, trace = [.loaded userId (some winner), .stored [(userId, row)],
      .loaded userId old] ∧ row.generation = generation ∧ answer = response ca winner)

/-- How rows are stored. -/
def feed (start : Journal.Stored Nat Credential rival) : Feed Nat Credential Event where
  publication
    | .stored rows => some rows
    | _ => none
  init := Journal.rowOf start.rows

variable (ca : String) (start : Journal.Stored Nat Credential rival)

/-- What a call may put on record. -/
def rules : Rules Nat Credential Event where
  toFeed := feed start
  Allowed h i
    | .loaded userId row => row = (feed start).committedAt h userId
    | .stored rows => ∃ userId row old, rows = [(userId, row)] ∧
        Succeeds ((feed start).committedAt h userId) row ∧
        Journal.own i h = [.loaded userId old]
    | .responded userId generation answer =>
        Answers ca userId generation (Journal.own i h) answer
    | .rejected _ => StoredNothing (Journal.own i h)
  rival := rival
  rival_symm r r' := by
    simp only [rival, decide_eq_decide]
    exact eq_comm

/-! ## the programs keep the rules -/

variable {ca start}

open Journal Rules

/-- What holds where a call raises. -/
def Failed (i : Nat) (_ : Error) (g : World) : Prop :=
  ∃ es hs, StoredNothing es ∧ At i es hs g

/-- What holds where a call returns. -/
def Answered (ca : String) (i : Nat) (req : Request) (answer : ClientEnrollment) (g : World) :
    Prop :=
  ∃ es, Answers ca req.userId req.generation es answer ∧ At i es free g

theorem load_spec {i userId : Nat} {es : List Event} {X : Error → World → Prop} :
    (rules ca start).discipline.Triple i (At i es free) (load i userId)
      (fun row => At i (.loaded userId row :: es) free) X := by
  refine (triple_load (F := fun _ => True) (fun _ => rfl) fun g hinv hat => ⟨?_, trivial⟩).mono
    (fun _ _ _ h => h.2) fun _ _ h => h
  change g.get i userId = _
  rw [get_of_held_none (congrFun hat.2 userId)]
  exact hinv.committed userId

/-- After a call has stored its row there is one to load. -/
theorem load_stored_spec {i userId : Nat} {row : Credential} {es : List Event}
    {X : Error → World → Prop} :
    (rules ca start).discipline.Triple i (At i (.stored [(userId, row)] :: es) free)
      (load i userId)
      (fun o g => ∃ winner, o = some winner ∧
        At i (.loaded userId (some winner) :: .stored [(userId, row)] :: es) free g) X := by
  refine (triple_load (F := fun o => o ≠ none) (fun _ => rfl) fun g hinv hat => ?_).mono
    (fun o g _ h => ?_) fun _ _ h => h
  · have hrow : g.get i userId = (feed start).committedAt g.history userId := by
      rw [get_of_held_none (congrFun hat.2 userId)]
      exact hinv.committed userId
    refine ⟨hrow, ?_⟩
    rw [hrow]
    have hmem : (i, Event.stored [(userId, row)]) ∈ g.history := by
      rw [← mem_own, hat.1]
      exact List.mem_cons_self
    exact Feed.committedAt_of_mem rfl (by simp [rowOf]) hmem
  · obtain ⟨winner, rfl⟩ := Option.ne_none_iff_exists'.mp h.1
    exact ⟨winner, rfl, h.2⟩

theorem resolve_spec {i : Nat} {req : Request} {fingerprint : String} {es : List Event}
    {hs : Nat → Option (Option Credential × Credential)} (hes : StoredNothing es) :
    (rules ca start).discipline.Triple i (At i es hs) (resolve ca i req fingerprint)
      (Answered ca i req) (Failed i) := by
  unfold resolve
  refine triple_rollback.bind fun _ => load_spec.bind fun winner => ?_
  have hfailed : ∀ o, StoredNothing (.loaded req.userId o :: es) := by
    intro o rows hmem
    simp only [List.mem_cons, reduceCtorEq, false_or] at hmem
    exact hes rows hmem
  cases winner with
  | none => exact .raise fun g _ hat => ⟨_, _, hfailed none, hat⟩
  | some row =>
      simp only
      split
      · rename_i hmatches
        have hgeneration : row.generation = req.generation := by
          simp only [Credential.matches, decide_eq_true_eq] at hmatches
          exact hmatches.2.2
        exact .pure fun g _ hat => ⟨_, .inl ⟨row, es, rfl, hes, hgeneration, rfl⟩, hat⟩
      · exact .raise fun g _ hat => ⟨_, _, hfailed (some row), hat⟩

/-- A row that was stored is committed, loaded again and answered. -/
theorem publish_spec {i : Nat} {req : Request} {row : Credential} {old o : Option Credential}
    {k : Option Credential → Db ClientEnrollment} (hrow : row.generation = req.generation)
    (hsucceeds : Succeeds old row) (hk : ∀ winner, k (some winner) = pure (response ca winner)) :
    (rules ca start).discipline.Triple i
      (At i [.loaded req.userId o] (only req.userId old row))
      (do commitAll Event.stored i; let loaded ← load i req.userId; k loaded)
      (Answered ca i req) (Failed i) := by
  refine Discipline.Triple.bind (triple_commit_only rfl fun g hinv hown hold => ?_) fun _ => ?_
  · subst hold
    exact ⟨req.userId, row, o, rfl, hsucceeds, hown⟩
  · refine load_stored_spec.bind fun loaded => triple_exists fun winner => .assume fun hloaded => ?_
    subst hloaded
    rw [hk winner]
    exact .pure fun g _ hat => ⟨_, .inr ⟨row, winner, o, rfl, hrow, rfl⟩, hat⟩

/-- What is issued carries the generation that was asked for. -/
theorem issue_spec {i : Nat} {req : Request} {fingerprint : String} {es : List Event}
    {X : Error → World → Prop} :
    (rules ca start).discipline.Triple i (At i es free) (input (newCredential req fingerprint))
      (fun candidate g => candidate.generation = req.generation ∧ At i es free g) X := by
  refine Discipline.Triple.atomic stable_at fun ω g g' b hinv hat hact => ?_
  obtain ⟨rfl, rfl⟩ := Prod.mk.inj (Option.some.inj hact)
  exact ⟨.refl, rfl, hat⟩

theorem storedNothing_loaded (userId : Nat) (o : Option Credential) :
    StoredNothing [.loaded userId o] := by
  intro rows hmem
  simp at hmem

theorem enrollFirst_spec {i : Nat} {req : Request} {fingerprint : String} :
    (rules ca start).discipline.Triple i (At i [.loaded req.userId none] free)
      (enrollFirst ca i req fingerprint) (Answered ca i req) (Failed i) := by
  have hnothing := storedNothing_loaded req.userId none
  unfold enrollFirst
  split
  · exact .raise fun g _ hat => ⟨_, _, hnothing, hat⟩
  rename_i hgeneration
  have hone : req.generation = 1 := by simpa using hgeneration
  refine issue_spec.bind fun candidate => .assume fun hcandidate => ?_
  refine (triple_insert rfl).bind fun written => ?_
  cases written with
  | missed => exact resolve_spec hnothing
  | taken => exact resolve_spec hnothing
  | done => exact publish_spec hcandidate (hcandidate.trans hone) fun _ => rfl

theorem renew_spec {i : Nat} {req : Request} {fingerprint : String} {current : Credential} :
    (rules ca start).discipline.Triple i (At i [.loaded req.userId (some current)] free)
      (renew ca i req fingerprint current) (Answered ca i req) (Failed i) := by
  have hnothing := storedNothing_loaded req.userId (some current)
  unfold renew
  split
  · rename_i hmatches
    have hgeneration : current.generation = req.generation := by
      simp only [Credential.matches, decide_eq_true_eq] at hmatches
      exact hmatches.2.2
    refine .pure fun g _ hat => ⟨_, .inl ⟨current, [], rfl, ?_, hgeneration, rfl⟩, hat⟩
    exact fun rows => List.not_mem_nil
  split
  · exact .raise fun g _ hat => ⟨_, _, hnothing, hat⟩
  split
  · exact .raise fun g _ hat => ⟨_, _, hnothing, hat⟩
  rename_i hnext
  refine issue_spec.bind fun candidate => .assume fun hcandidate => ?_
  refine (triple_update rfl).bind fun written => ?_
  cases written with
  | missed => exact resolve_spec hnothing
  | taken => exact .assume fun _ => resolve_spec hnothing
  | done =>
      -- the row that was found is of the generation that was loaded
      refine triple_exists fun row => .assume fun hfound => ?_
      simp only [Bool.decide_and, Bool.and_eq_true, decide_eq_true_eq] at hfound
      have hgeneration : (candidate.renewed row).generation = req.generation := hcandidate
      have hsucceeds : Succeeds (some row) (candidate.renewed row) :=
        ⟨rfl, rfl, by rw [hgeneration, hfound.2.2]; omega⟩
      exact publish_spec hgeneration hsucceeds fun _ => rfl

theorem enrollClientCertificate_spec {i : Nat} {req : Request} :
    (rules ca start).discipline.Triple i (At i [] free) (enrollClientCertificate ca i req)
      (Answered ca i req) (Failed i) := by
  unfold enrollClientCertificate
  split
  · exact .raise fun g _ hat => ⟨_, _, fun rows => List.not_mem_nil, hat⟩
  · refine load_spec.bind fun row => ?_
    cases row with
    | none => exact enrollFirst_spec
    | some current => exact renew_spec

theorem answer_spec {i : Nat} {req : Request} :
    (rules ca start).discipline.Triple i (At i [] free)
      (do
        let enrolled ← enrollClientCertificate ca i req
        record i (.responded req.userId req.generation enrolled))
      (fun _ _ => True) (Failed i) := by
  refine enrollClientCertificate_spec.bind fun answer => triple_exists fun es =>
    .assume fun hanswers => ?_
  refine (triple_record rfl fun g hinv hat => ?_).mono (fun _ _ _ _ => trivial) fun _ _ h => h
  change Answers _ _ _ (own i g.history) _
  rw [hat.1]
  exact hanswers

theorem serve_spec {i : Nat} {req : Request} :
    (rules ca start).discipline.Triple i (At i [] free) (serve ca i req)
      (fun _ _ => True) (fun _ _ => True) := by
  refine .tryCatch answer_spec fun e => ?_
  refine triple_exists fun es => triple_exists fun hs => .assume fun hnothing => ?_
  refine triple_rollback.bind fun _ => ?_
  refine (triple_record rfl fun g hinv hat => ?_).mono (fun _ _ _ _ => trivial) fun _ _ h => h
  change StoredNothing (own i g.history)
  rw [hat.1]
  exact hnothing

/-- The calls keep to the rules. -/
def certified (ca : String) (start : Journal.Stored Nat Credential rival) :
    Certified (system ca) (rules ca start).discipline where
  Fresh i := At i [] free
  fresh_stable _ := stable_at
  close_move _ _ _ := .single .rollback
  entry _ _ := serve_spec

theorem run_inv {ls : List (Label Issued Request)} {c : Config Issued World Error}
    (hrun : (system ca).run (System.init (ofStored start)) ls = some c) :
    (rules ca start).Inv c.global :=
  Rules.run_inv (certified ca start) (inv_ofStored start rfl) (fun _ => ⟨rfl, rfl⟩) hrun

/-! ## what the record says -/

/-- Nobody stores a row of the user. -/
def Quiet (userId : Nat) (h : List (Nat × Event)) : Prop :=
  ∀ j row, (j, Event.stored [(userId, row)]) ∉ h

/-- What a user has is of a later generation than what the user had, unless nothing was
stored in between. -/
theorem committedAt_later {h₁ h₂ : List (Nat × Event)}
    (hjust : (rules ca start).Justified (h₁ ++ h₂))
    {userId : Nat} {row : Credential} (hrow : (feed start).committedAt h₂ userId = some row) :
    ∃ row', (feed start).committedAt (h₁ ++ h₂) userId = some row' ∧
      row.generation ≤ row'.generation ∧
      (row'.generation = row.generation → Quiet userId h₁ ∧ row' = row) := by
  induction h₁ with
  | nil => exact ⟨row, hrow, Int.le_refl _, fun _ => ⟨fun _ _ => List.not_mem_nil, rfl⟩⟩
  | cons p h₁ ih =>
      obtain ⟨j, e⟩ := p
      rw [List.cons_append] at hjust
      obtain ⟨row₁, hrow₁, hle, hsame⟩ := ih hjust.2
      have hskip (hkind : (feed start).publication e = none)
          (hevent : ∀ r, e ≠ .stored [(userId, r)]) :
          ∃ row', (feed start).committedAt ((j, e) :: h₁ ++ h₂) userId = some row' ∧
            row.generation ≤ row'.generation ∧
            (row'.generation = row.generation → Quiet userId ((j, e) :: h₁) ∧ row' = row) := by
        refine ⟨row₁, ?_, hle, fun h => ⟨fun k r hmem => ?_, (hsame h).2⟩⟩
        · rw [List.cons_append, Feed.committedAt, hkind]
          exact hrow₁
        · cases List.mem_cons.mp hmem with
          | inl heq => exact hevent r (Prod.mk.inj heq).2.symm
          | inr hmem => exact (hsame h).1 k r hmem
      cases e with
      | loaded u r => exact hskip rfl (by simp)
      | responded u n a => exact hskip rfl (by simp)
      | rejected e => exact hskip rfl (by simp)
      | stored rows =>
          obtain ⟨u, r, old, rfl, hsucceeds, -⟩ := hjust.1
          rw [List.cons_append, Feed.committedAt]
          change ∃ row', (rowOf [(u, r)] userId).or _ = some row' ∧ _
          by_cases hu : u = userId
          · subst hu
            rw [hrow₁] at hsucceeds
            refine ⟨r, by simp [rowOf], by have := hsucceeds.2.2; omega, fun h => ?_⟩
            have := hsucceeds.2.2
            omega
          · refine ⟨row₁, by simp [rowOf, hu, hrow₁], hle, fun h =>
              ⟨fun k r' hmem => ?_, (hsame h).2⟩⟩
            cases List.mem_cons.mp hmem with
            | inl heq => simp [Ne.symm hu] at heq
            | inr hmem => exact (hsame h).1 k r' hmem

/-- What a user has when nothing was stored. -/
theorem committedAt_quiet {h₁ h₂ : List (Nat × Event)}
    (hjust : (rules ca start).Justified (h₁ ++ h₂)) {userId : Nat} (hquiet : Quiet userId h₁) :
    (feed start).committedAt (h₁ ++ h₂) userId = (feed start).committedAt h₂ userId := by
  induction h₁ with
  | nil => rfl
  | cons p h₁ ih =>
      obtain ⟨j, e⟩ := p
      rw [List.cons_append] at hjust
      have hrest := ih hjust.2 fun k r hmem => hquiet k r (List.mem_cons_of_mem _ hmem)
      rw [List.cons_append, Feed.committedAt]
      cases e with
      | loaded u r => exact hrest
      | responded u n a => exact hrest
      | rejected e => exact hrest
      | stored rows =>
          obtain ⟨u, r, old, rfl, -, -⟩ := hjust.1
          have hu : u ≠ userId := fun e => hquiet j r (by simp [e])
          change (rowOf [(u, r)] userId).or _ = _
          simpa [rowOf, hu] using hrest

/-- What a user had at two times, when the generation is the same. -/
theorem committedAt_unique {h h₁ h₂ : List (Nat × Event)} (hjust : (rules ca start).Justified h)
    (hsuffix₁ : h₁ <:+ h) (hsuffix₂ : h₂ <:+ h) {userId : Nat} {row₁ row₂ : Credential}
    (hrow₁ : (feed start).committedAt h₁ userId = some row₁)
    (hrow₂ : (feed start).committedAt h₂ userId = some row₂)
    (hsame : row₁.generation = row₂.generation) : row₁ = row₂ := by
  have key : ∀ {a b : List (Nat × Event)}, a <:+ b → b <:+ h → ∀ {r r' : Credential},
      (feed start).committedAt a userId = some r → (feed start).committedAt b userId = some r' →
      r'.generation = r.generation → r' = r := by
    intro a b hab hbh r r' hr hr' hgeneration
    obtain ⟨t, rfl⟩ := hab
    obtain ⟨u, rfl⟩ := hbh
    obtain ⟨r₁, hr₁, -, heq⟩ := committedAt_later (hjust.suffix) hr
    rw [hr', Option.some.injEq] at hr₁
    subst hr₁
    exact (heq hgeneration).2
  cases List.suffix_or_suffix_of_suffix hsuffix₁ hsuffix₂ with
  | inl h₁₂ => exact (key h₁₂ hsuffix₂ hrow₁ hrow₂ hsame.symm).symm
  | inr h₂₁ => exact key h₂₁ hsuffix₁ hrow₂ hrow₁ hsame

/-- An answer is the row the call loaded last. -/
theorem answer_loaded {h : List (Nat × Event)} (hjust : (rules ca start).Justified h)
    {i userId : Nat} {generation : Int} {answer : ClientEnrollment}
    (hmem : (i, .responded userId generation answer) ∈ h) :
    ∃ h₁ row, h₁ <:+ h ∧ (feed start).committedAt h₁ userId = some row ∧
      answer = response ca row := by
  obtain ⟨a, b, rfl⟩ := List.append_of_mem hmem
  have hanswers : Answers ca userId generation (own i b) answer := hjust.allowed
  have hloaded : ∃ row rest, own i b = .loaded userId (some row) :: rest ∧
      answer = response ca row := by
    cases hanswers with
    | inl h =>
        obtain ⟨row, rest, hown, -, -, hanswer⟩ := h
        exact ⟨row, rest, hown, hanswer⟩
    | inr h =>
        obtain ⟨row, winner, old, hown, -, hanswer⟩ := h
        exact ⟨winner, _, hown, hanswer⟩
  obtain ⟨row, rest, hown, hanswer⟩ := hloaded
  obtain ⟨b₁, b₂, rfl, -, -⟩ := own_eq_cons hown
  have hrest : (rules ca start).Justified ((i, .responded userId generation answer) ::
      (b₁ ++ (i, .loaded userId (some row)) :: b₂)) := hjust.suffix
  have hload : (rules ca start).Allowed b₂ i (.loaded userId (some row)) := hrest.2.allowed
  exact ⟨b₂, row, ⟨a ++ (i, .responded userId generation answer) :: b₁ ++
    [(i, .loaded userId (some row))], by simp⟩, hload.symm, hanswer⟩

/-! ## the contract -/

/-- What is promised of a history of calls. -/
structure AsPromised (start : Journal.Stored Nat Credential rival) (h : List (Nat × Event)) :
    Prop where
  /-- The instance and the key never change, and the generation advances by one. -/
  stored : ∀ h₁ h₂ i rows, h = h₁ ++ (i, .stored rows) :: h₂ → ∃ userId row,
    rows = [(userId, row)] ∧ Succeeds ((feed start).committedAt h₂ userId) row
  /-- An answer carries the generation that was asked for. -/
  generation : ∀ i userId generation answer, (i, .responded userId generation answer) ∈ h →
    answer.generation = generation
  /-- One generation of a user, one certificate. -/
  certificate : ∀ i j userId generation answer answer',
    (i, .responded userId generation answer) ∈ h →
    (j, .responded userId generation answer') ∈ h → answer = answer'
  /-- A call that is rejected stores nothing. -/
  rejected : ∀ i e rows, (i, .rejected e) ∈ h → (i, .stored rows) ∉ h

/-- Between the commit of a call that is answered and the load it is answered from, nobody
stores a row of its user. -/
def Undisturbed (h : List (Nat × Event)) : Prop :=
  ∀ h₁ h₂ h₃ i userId generation answer winner row,
    h = h₁ ++ (i, .loaded userId winner) :: (h₂ ++ (i, .stored [(userId, row)]) :: h₃) →
    (i, .responded userId generation answer) ∈ h₁ → Quiet userId h₂

/-- A call that is rejected stores nothing, before it is or after. -/
theorem rejected_stored {h : List (Nat × Event)} (hjust : (rules ca start).Justified h) {i : Nat}
    {e : Error} {rows : List (Nat × Credential)} (hrejected : (i, .rejected e) ∈ h) :
    (i, .stored rows) ∉ h := by
  intro hstored
  obtain ⟨a, b, rfl⟩ := List.append_of_mem hstored
  obtain ⟨userId, row, old, -, -, hown⟩ := hjust.allowed
  cases List.mem_append.mp hrejected with
  | inl hafter =>
      obtain ⟨a₁, a₂, rfl⟩ := List.append_of_mem hafter
      rw [List.append_assoc, List.cons_append] at hjust
      have hnothing : StoredNothing (own i (a₂ ++ (i, .stored rows) :: b)) := hjust.allowed
      exact hnothing rows (by simp [own_append])
  | inr hbefore =>
      cases List.mem_cons.mp hbefore with
      | inl heq => simp at heq
      | inr hbefore =>
          rw [← mem_own, hown] at hbefore
          simp at hbefore

/-- Responses that carry one generation of a user carry one certificate. -/
theorem answers_agree {h : List (Nat × Event)} (hjust : (rules ca start).Justified h)
    {i j userId : Nat} {n m : Int} {answer answer' : ClientEnrollment}
    (hmem : (i, .responded userId n answer) ∈ h) (hmem' : (j, .responded userId m answer') ∈ h)
    (hsame : answer.generation = answer'.generation) : answer = answer' := by
  obtain ⟨h₁, row, hsuffix, hrow, rfl⟩ := answer_loaded hjust hmem
  obtain ⟨h₂, row', hsuffix', hrow', rfl⟩ := answer_loaded hjust hmem'
  rw [committedAt_unique hjust hsuffix hsuffix' hrow hrow' hsame]

/-- The events of a call that stored a row, when it is answered. -/
theorem answered_own {h₁ h₂ h₃ : List (Nat × Event)} {i userId : Nat} {generation : Int}
    {answer : ClientEnrollment} {winner : Option Credential} {row : Credential}
    (hanswers : Answers ca userId generation
      (own i (h₁ ++ (i, .loaded userId winner) :: (h₂ ++ (i, .stored [(userId, row)]) :: h₃)))
      answer) :
    row.generation = generation ∧ ∃ w, winner = some w ∧ answer = response ca w := by
  simp only [own_append, own_cons_self] at hanswers
  cases hanswers with
  | inl h =>
      -- a call that answers with what it found has stored nothing
      obtain ⟨row', rest, hown, hnothing, -, -⟩ := h
      exfalso
      have hstored : Event.stored [(userId, row)] ∈ rest := by
        cases hq : own i h₁ with
        | nil =>
            rw [hq, List.nil_append, List.cons.injEq] at hown
            rw [← hown.2]
            simp
        | cons e es =>
            rw [hq, List.cons_append, List.cons.injEq] at hown
            rw [← hown.2]
            simp
      exact hnothing _ hstored
  | inr h =>
      obtain ⟨row', w, old, hown, hgeneration, hanswer⟩ := h
      -- the stored row is the second of three events
      cases hq : own i h₁ with
      | cons e es =>
          exfalso
          rw [hq] at hown
          cases es with
          | nil =>
              simp only [List.cons_append, List.nil_append, List.cons.injEq, reduceCtorEq,
                false_and, and_false] at hown
          | cons e' es =>
              have hlength := congrArg List.length hown
              simp at hlength
              omega
      | nil =>
          rw [hq, List.nil_append, List.cons.injEq] at hown
          obtain ⟨hload, hrest⟩ := hown
          cases hr : own i h₂ with
          | nil =>
              rw [hr, List.nil_append, List.cons.injEq] at hrest
              cases hload
              cases hrest.1
              exact ⟨hgeneration, w, rfl, hanswer⟩
          | cons e es =>
              exfalso
              rw [hr, List.cons_append, List.cons.injEq] at hrest
              cases es with
              | nil => simp at hrest
              | cons e' es =>
                  have hlength := congrArg List.length hrest.2
                  simp at hlength

/-- **The contract of `enroll_client_certificate`.**  In every run the table holds what was
stored last, answers that carry one generation of a user carry one certificate, and the
history is as promised exactly when no call's row was replaced before the call had loaded
it again. -/
theorem enrollment_as_promised_iff (ca : String) (start : Journal.Stored Nat Credential rival)
    {ls : List (Label Issued Request)} {c : Config Issued World Error}
    (hrun : (system ca).run (System.init (ofStored start)) ls = some c) :
    (∀ userId, (c.global.cell userId).committed =
      (feed start).committedAt c.global.history userId) ∧
    (∀ i j userId n m answer answer', (i, .responded userId n answer) ∈ c.global.history →
      (j, .responded userId m answer') ∈ c.global.history →
      answer.generation = answer'.generation → answer = answer') ∧
    (AsPromised start c.global.history ↔ Undisturbed c.global.history) := by
  have hinv := run_inv hrun
  have hcommitted := hinv.committed
  have hjust := hinv.justified
  generalize c.global.history = h at hcommitted hjust ⊢
  refine ⟨hcommitted, fun i j userId n m answer answer' => answers_agree hjust, ?_, ?_⟩
  · intro hpromised h₁ h₂ h₃ i userId generation answer winner row heq hmem
    have hgeneration := hpromised.generation i userId generation answer
      (heq ▸ List.mem_append_left _ hmem)
    subst heq
    -- what the call stored and what it loaded then
    obtain ⟨a, b, rfl⟩ := List.append_of_mem hmem
    rw [List.append_assoc, List.cons_append] at hjust
    obtain ⟨hrow, w, rfl, rfl⟩ := answered_own hjust.allowed
    have hrest : (rules ca start).Justified ((i, .loaded userId (some w)) ::
        (h₂ ++ (i, .stored [(userId, row)]) :: h₃)) := hjust.suffix.2.suffix
    have hstored : (feed start).committedAt ((i, .stored [(userId, row)]) :: h₃) userId =
        some row := by
      rw [Feed.committedAt]
      change (rowOf [(userId, row)] userId).or _ = some row
      simp [rowOf]
    have hloaded : some w = (feed start).committedAt
        (h₂ ++ (i, .stored [(userId, row)]) :: h₃) userId := hrest.1
    obtain ⟨w', hw', -, hsame⟩ := committedAt_later hrest.2 hstored
    rw [← hloaded, Option.some.injEq] at hw'
    subst hw'
    exact (hsame (hgeneration.trans hrow.symm)).1
  · intro hundisturbed
    have hgeneration : ∀ i userId generation answer,
        (i, .responded userId generation answer) ∈ h → answer.generation = generation := by
      intro i userId generation answer hmem
      obtain ⟨a, b, rfl⟩ := List.append_of_mem hmem
      have hanswers : Answers ca userId generation (own i b) answer := hjust.allowed
      cases hanswers with
      | inl hfound =>
          obtain ⟨row, rest, -, -, hrow, rfl⟩ := hfound
          exact hrow
      | inr hstored =>
          obtain ⟨row, winner, old, hown, hrow, rfl⟩ := hstored
          obtain ⟨b₁, b', rfl, -, hown⟩ := own_eq_cons hown
          obtain ⟨b₂, b₃, rfl, -, -⟩ := own_eq_cons hown
          have hquiet : Quiet userId b₂ := by
            refine hundisturbed (a ++ (i, .responded userId generation (response ca winner)) :: b₁)
              b₂ b₃ i userId generation (response ca winner) (some winner) row ?_ (by simp)
            simp
          have hrest : (rules ca start).Justified ((i, .loaded userId (some winner)) ::
              (b₂ ++ (i, .stored [(userId, row)]) :: b₃)) := (hjust.suffix).2.suffix
          have hloaded : some winner = (feed start).committedAt
              (b₂ ++ (i, .stored [(userId, row)]) :: b₃) userId := hrest.1
          rw [committedAt_quiet hrest.2 hquiet, Feed.committedAt] at hloaded
          change some winner = (rowOf [(userId, row)] userId).or _ at hloaded
          simp only [rowOf, List.find?_cons, decide_true, Option.map_some, Option.some_or,
            Option.some.injEq] at hloaded
          rw [hloaded]
          exact hrow
    refine ⟨?_, hgeneration, ?_, ?_⟩
    · rintro h₁ h₂ i rows rfl
      obtain ⟨userId, row, old, hrows, hsucceeds, -⟩ := hjust.allowed
      exact ⟨userId, row, hrows, hsucceeds⟩
    · intro i j userId generation answer answer' hmem hmem'
      refine answers_agree hjust hmem hmem' ?_
      rw [hgeneration _ _ _ _ hmem, hgeneration _ _ _ _ hmem']
    · intro i e rows hrejected hstored
      exact rejected_stored hjust hrejected hstored

/-! ## a renewal that overtakes the first enrolment -/

/-- No credentials yet. -/
def nobody : Journal.Stored Nat Credential rival := ⟨[], List.nodup_nil, by simp⟩

/-- A first enrolment of the user. -/
def firstRequest : Request :=
  ⟨1, "3f0c9a52-6d0e-4a0f-8f7c-1d2e3f405162", 1, some "9f86d081884c7d65"⟩

/-- A renewal with the same key. -/
def renewalRequest : Request := { firstRequest with generation := 2 }

/-- Two certificates. -/
def issued (serial : Nat) : Issued := ⟨"-----BEGIN CERTIFICATE-----", serial, 0, 7776000000000, 60⟩

/-- A first enrolment, its renewal, the renewal once more, and the first request again,
each after the other: the third call finds its row and the fourth is behind it. -/
def inTurnRun : List (Label Issued Request) :=
  Label.spawn firstRequest :: List.replicate 6 (Label.act 0 (issued 161)) ++
  Label.spawn renewalRequest :: List.replicate 6 (Label.act 1 (issued 162)) ++
  Label.spawn renewalRequest :: List.replicate 2 (Label.act 2 (issued 163)) ++
  Label.spawn firstRequest :: List.replicate 3 (Label.act 3 (issued 164))

/-- The renewal runs between the commit of the first call and its second load. -/
def overtakenRun : List (Label Issued Request) :=
  Label.spawn firstRequest :: List.replicate 4 (Label.act 0 (issued 161)) ++
  Label.spawn renewalRequest :: List.replicate 4 (Label.act 1 (issued 162)) ++
  List.replicate 2 (Label.act 0 (issued 161))

/-- The renewed row. -/
def renewedRow : Credential :=
  (newCredential renewalRequest "9f86d081884c7d65" (issued 162)).renewed
    (newCredential firstRequest "9f86d081884c7d65" (issued 161))

/-- Calls that do not overlap: two of them answer with one certificate, and the last
stores nothing. -/
theorem enrollment_as_promised_in_turn : ∃ c,
    (system "CA").run (System.init (ofStored nobody)) inTurnRun = some c ∧
    (1, .responded 1 2 (response "CA" renewedRow)) ∈ c.global.history ∧
    (2, .responded 1 2 (response "CA" renewedRow)) ∈ c.global.history ∧
    (∃ e, (3, .rejected e) ∈ c.global.history) ∧
    (AsPromised nobody c.global.history ↔ Undisturbed c.global.history) := by
  have hrun : (system "CA").run (System.init (ofStored nobody)) inTurnRun = some _ := rfl
  exact ⟨_, hrun, by decide, by decide, ⟨_, List.mem_cons_self⟩,
    (enrollment_as_promised_iff "CA" nobody hrun).2.2⟩

/-- The call that asked for generation one is answered with generation two. -/
theorem overtaken_answer_not_promised : ∃ c,
    (system "CA").run (System.init (ofStored nobody)) overtakenRun = some c ∧
    ¬ AsPromised nobody c.global.history := by
  refine ⟨_, rfl, fun h => ?_⟩
  have hanswer := h.generation 0 1 1 (response "CA" renewedRow) (by decide)
  revert hanswer
  decide

end Enrollment

end Backend
