import Blindport.Agent.Provisioning

/-!
# Blindport.Agent.Outage

What the cached authorisations are for.  `CacheContract s` says of a state `s` of the
agent what a call in it owes: during an outage the last authorisation that was
fetched and cached, and never a cached one after a rejection or for another
identity.

Each version has a file of its own, and a request over v3 that gets no answer looks
into the v3 file only.  The body of an answer is escaped when it is stored, and is read
back only up to the length a body may have.  So an agent keeps the contract exactly
while the last answer it cached came over v3 and is not too long once escaped
(`cache_contract_iff`).
-/

namespace Agent

variable {V1 V2 V3 : Type}

/-! ## the contract -/

/-- The request fails as infrastructure. -/
def Answer.Infrastructure : Answer → Prop
  | unreachable => True
  | response status _ => 500 ≤ status

namespace Stored

/-- For whom an answer was stored. -/
def identity : Stored V2 V3 → CredentialIdentity
  | v2 identity _ _ | v3 identity _ _ => identity

/-- What a call that finds the stored answer returns. -/
def result : Stored V2 V3 → ProvisioningResult V1 V2 V3
  | v2 _ _ config => .cacheV2 config
  | v3 _ _ config => .cacheV3 config

/-- The stored answer passes the checks at an instant. -/
def ValidAt (lib : Library V2 V3) (now : Time) : Stored V2 V3 → Prop
  | v2 identity _ config => lib.v2.validate config now = .ok () ∧
      lib.v2.bound config identity.instanceId identity.generation now = true
  | v3 identity _ config => lib.v3.validate config now = .ok () ∧
      lib.v3.bound config identity.instanceId identity.generation now = true

end Stored

/-- A call during which every request fails as infrastructure and the identity
stays the same. -/
structure Outage (c : Call V1) (current : CredentialIdentity) : Prop where
  client : c.client = true
  secure : c.insecureSkipTLS = false
  credentials : c.credentials = true
  cache : c.cache = true
  fails : ∀ a ∈ [c.first, c.second], a.v3.Infrastructure ∧ a.v2.Infrastructure
  identity : ∀ a ∈ [c.first, c.second],
    a.identity = current ∧ a.afterFetch = current ∧ a.afterCache = current

/-- The attempt met an authoritative rejection. -/
def Attempt.Rejected (lib : Library V2 V3) (a : Attempt V1) : Prop :=
  (∃ e, lib.fetch lib.v3 a.v3 a.identity.instanceId a.fetchedAt = .error e ∧
    e.kind = .terminal) ∨
  (∃ e₃ e₂, lib.fetch lib.v3 a.v3 a.identity.instanceId a.fetchedAt = .error e₃ ∧
    e₃.kind = .featureUnavailable ∧
    lib.fetch lib.v2 a.v2 a.identity.instanceId a.fetchedAt = .error e₂ ∧ e₂.kind = .terminal)

/-- The file holds an answer for an identity. -/
def HoldsFor (lib : Library V2 V3) (file : Option Bytes) (identity : CredentialIdentity) : Prop :=
  ∃ b value envelope, file = some b ∧ lib.json.document b = some value ∧
    lib.json.unmarshal b value = some envelope ∧ envelope.instanceId = identity.instanceId ∧
      envelope.generation = identity.generation

/-- What an attempt that returned a cached answer made sure of: the file is for the
identity it started with, that identity is still the agent's, and the answer is bound
to it. -/
def Attempt.Own (lib : Library V2 V3) (disk : Disk) (a : Attempt V1) :
    ProvisioningResult V1 V2 V3 → Prop
  | .cacheV2 config => a.afterCache = a.identity ∧ HoldsFor lib disk.v2 a.identity ∧
      lib.v2.bound config a.identity.instanceId a.identity.generation a.loadedAt = true
  | .cacheV3 config => a.afterCache = a.identity ∧ HoldsFor lib disk.v3 a.identity ∧
      lib.v3.bound config a.identity.instanceId a.identity.generation a.loadedAt = true
  | _ => True

section Contract

variable [DecidableEq V2] [DecidableEq V3] (lib : Library V2 V3)

/-- Some attempt the call made met an authoritative rejection. -/
def Call.Rejected (s : State V2 V3) (c : Call V1) : Prop :=
  c.first.Rejected lib ∨ ((attempt lib s c.first).2 = none ∧ c.second.Rejected lib)

/-- What a call owes in a state. -/
structure CacheContract (V1 : Type) (s : State V2 V3) : Prop where
  latest : ∀ (c : Call V1) (stored : Stored V2 V3), s.latest = some stored →
    Outage c stored.identity → stored.ValidAt lib c.first.loadedAt →
    (fetchProvisioningWithCache lib s c).2 = .ok stored.result
  rejected : ∀ (c : Call V1) (r : ProvisioningResult V1 V2 V3), c.Rejected lib s →
    (fetchProvisioningWithCache lib s c).2 = .ok r → r.isCached = false
  identity : ∀ (c : Call V1) (r : ProvisioningResult V1 V2 V3),
    (fetchProvisioningWithCache lib s c).2 = .ok r →
    ∃ a ∈ [c.first, c.second], a.Own lib (fetchProvisioningWithCache lib s c).1.disk r

end Contract

/-! ## the files -/

section Files

variable {α : Type} [DecidableEq α] {lib : Library V2 V3} {codec : Codec α}

omit [DecidableEq α] in
theorem parse_eq_ok {json : EncodingJson} {raw : Bytes} {now : Time} {config : α} :
    codec.parse json raw now = .ok config ↔ raw ≠ [] ∧ raw.length ≤ maxProvisioningJSON ∧
      (∃ value, json.document raw = some value ∧ value.distinct = true ∧
        codec.decode value = some config) ∧ codec.validate config now = .ok () := by
  unfold Codec.parse
  by_cases hsize : raw = [] ∨ maxProvisioningJSON < raw.length
  · rw [if_pos hsize]
    simp only [reduceCtorEq, false_iff]
    rintro ⟨hne, hle, -⟩
    cases hsize with
    | inl h => exact hne h
    | inr h => omega
  rw [if_neg hsize]
  rw [not_or, Nat.not_lt] at hsize
  cases hdocument : json.document raw with
  | none => simp
  | some value =>
      cases hdistinct : value.distinct with
      | false => simp [hdistinct]
      | true =>
          simp only [Bool.true_eq_false, if_false, Option.some.injEq, exists_eq_left', hdistinct,
            true_and]
          cases hdecode : codec.decode value with
          | none => simp
          | some config' =>
              simp only [Option.some.injEq]
              constructor
              · intro h
                cases hvalidate : codec.validate config' now with
                | error stage => rw [hvalidate] at h; cases h
                | ok u =>
                    rw [hvalidate] at h
                    obtain rfl := Except.ok.inj h
                    exact ⟨hsize.1, hsize.2, rfl, hvalidate⟩
              · rintro ⟨-, -, rfl, hvalidate⟩
                rw [hvalidate]

omit [DecidableEq α] in
/-- An escaped body says what it said, but may be too long. -/
theorem parse_compact {json : EncodingJson} {raw : Bytes} {storedAt now : Time} {config : α}
    (h : codec.parse json raw storedAt = .ok config)
    (hvalid : codec.validate config now = .ok ()) :
    codec.parse json (json.compact raw) now =
      if (json.compact raw).length ≤ maxProvisioningJSON then .ok config
      else .error .envelope := by
  obtain ⟨-, -, ⟨value, hvalue, hdistinct, hdecode⟩, -⟩ := parse_eq_ok.mp h
  have hcompact := json.document_compact raw value hvalue
  split
  · rename_i hlen
    refine parse_eq_ok.mpr ⟨fun hnil => ?_, hlen, ⟨value, hcompact, hdistinct, hdecode⟩, hvalid⟩
    rw [hnil, json.document_nil] at hcompact
    cases hcompact
  · rename_i hlen
    unfold Codec.parse
    rw [if_pos (.inr (Nat.lt_of_not_le hlen))]

/-- A marshalled envelope is read back with its response escaped. -/
theorem unmarshal_marshal {json : EncodingJson} {e : Envelope} {b : Bytes} {response : Document}
    (h : json.marshal e = some b) (hresponse : json.document e.response = some response)
    (hdistinct : response.distinct = true) :
    ∃ value, json.document b = some value ∧ value.distinct = true ∧
      json.unmarshal b value = some { e with response := json.compact e.response } := by
  obtain ⟨version, generation, response', hversion, hgeneration, hresponse', hfile⟩ :=
    json.document_marshal e b h
  obtain rfl : response = response' := Option.some.inj (hresponse.symm.trans hresponse')
  refine ⟨_, hfile, ?_, ?_⟩
  · simp [Document.distinct, Document.distinctMembers, hdistinct]
  · have hnames : ["version", "instance_id", "generation", "response"].dedup =
        ["version", "instance_id", "generation", "response"] := by decide
    simp [EncodingJson.unmarshal, Document.hasExactFields, hnames, Document.member,
      List.lookup_cons, Document.goString, EncodingJson.goInt, hversion, hgeneration,
      json.rawMember_marshal e b h]

/-- What a stored file stands for. -/
theorem stored_spec {version : Int} {identity : CredentialIdentity} {raw b : Bytes} {config : α}
    {now : Time} (h : lib.stored codec version identity raw config now = some b) :
    Entitlement.isCanonicalInstanceID lib.go identity.instanceId = true ∧
    1 ≤ identity.generation ∧ identity.generation ≤ maxCredentialGeneration ∧
    codec.parse lib.json raw now = .ok config ∧
    codec.bound config identity.instanceId identity.generation now = true ∧
    lib.json.marshal ⟨version, identity.instanceId, identity.generation, raw⟩ = some b ∧
    b.length ≤ maxAuthorizationCacheSize := by
  unfold Library.stored at h
  split at h
  · cases h
  rename_i hchecks
  split at h
  · cases h
  rename_i hparse
  simp only [not_or, Bool.not_eq_false, Int.not_lt, not_not] at hchecks hparse
  split at h
  · cases h
  rename_i stored hmarshal
  split at h
  · cases h
  rename_i hsize
  obtain rfl := Option.some.inj h
  exact ⟨hchecks.1, hchecks.2.1, hchecks.2.2.1, hparse.1, hparse.2, hmarshal,
    Nat.not_lt.mp hsize⟩

/-- A stored file is read back as long as its answer is valid, unless its body has become
too long. -/
theorem load_stored {version : Int} {identity : CredentialIdentity} {raw b : Bytes} {config : α}
    {storedAt now : Time}
    (h : lib.stored codec version identity raw config storedAt = some b)
    (hvalid : codec.validate config now = .ok ())
    (hbound : codec.bound config identity.instanceId identity.generation now = true) :
    lib.load codec version (some b) identity.instanceId identity.generation now =
      if (lib.json.compact raw).length ≤ maxProvisioningJSON then some config else none := by
  obtain ⟨hcanonical, hpos, hle, hparse, -, hmarshal, hsize⟩ := stored_spec h
  obtain ⟨-, -, ⟨response, hresponse, hdistinct, -⟩, -⟩ := parse_eq_ok.mp hparse
  obtain ⟨value, hvalue, hkeys, hread⟩ := unmarshal_marshal hmarshal hresponse hdistinct
  have hne : b ≠ [] := by
    rintro rfl
    rw [lib.json.document_nil] at hvalue
    cases hvalue
  unfold Library.load
  dsimp only
  rw [if_neg (by
    simp only [not_or, Bool.not_eq_false, Int.not_lt, Nat.not_lt]
    exact ⟨hne, hsize, hcanonical, hpos, hle⟩)]
  simp only [hvalue, hkeys, Bool.true_eq_false, if_false, hread, ne_eq, not_true_eq_false, or_self,
    parse_compact hparse hvalid]
  by_cases hlen : (lib.json.compact raw).length ≤ maxProvisioningJSON
  · simp only [if_pos hlen, hbound, if_true]
  · simp only [if_neg hlen]

omit [DecidableEq α] in
/-- What a file that is read was made sure of. -/
theorem load_spec {version : Int} {file : Option Bytes} {instanceId : String} {generation : Int}
    {now : Time} {config : α}
    (h : lib.load codec version file instanceId generation now = some config) :
    HoldsFor lib file ⟨instanceId, generation⟩ ∧
      codec.bound config instanceId generation now = true := by
  unfold Library.load at h
  split at h
  · cases h
  rename_i raw
  split at h
  · cases h
  split at h
  · cases h
  rename_i value hvalue
  split at h
  · cases h
  split at h
  · cases h
  rename_i envelope henvelope
  split at h
  · cases h
  rename_i hmatch
  simp only [not_or, not_not] at hmatch
  split at h
  · cases h
  split at h
  · rename_i hbound
    obtain rfl := Option.some.inj h
    rw [hmatch.2.1, hmatch.2.2] at hbound
    exact ⟨⟨raw, value, envelope, rfl, hvalue, henvelope, hmatch.2.1, hmatch.2.2⟩, hbound⟩
  · cases h

end Files

/-! ## one attempt -/

section Steps

variable [DecidableEq V2] [DecidableEq V3] {lib : Library V2 V3}

variable (lib) in
omit [DecidableEq V3] in
/-- What an attempt over v2 leaves. -/
theorem attemptV2_state (s : State V2 V3) (a : Attempt V1) :
    (attemptV2 lib s a).1 = s ∨
    ∃ config raw b, lib.stored lib.v2 authorizationCacheVersion a.identity raw config a.storedAt =
        some b ∧
      (attemptV2 lib s a).1 = ⟨{ s.disk with v2 := some b }, some (.v2 a.identity raw config)⟩ := by
  unfold attemptV2
  split
  · rename_i config raw hfetch
    split
    · exact .inl rfl
    split
    · exact .inl rfl
    rename_i stored hstored
    dsimp only
    split
    · split
      · exact .inr ⟨config, raw, stored, hstored, rfl⟩
      · exact .inr ⟨config, raw, stored, hstored, rfl⟩
    split
    · exact .inr ⟨config, raw, stored, hstored, rfl⟩
    · exact .inl rfl
  · left
    repeat' split
    all_goals rfl

variable (lib) in
/-- What an attempt leaves: the state as it was, or a stored answer. -/
theorem attempt_state (s : State V2 V3) (a : Attempt V1) :
    (attempt lib s a).1 = s ∨
    (∃ config raw b,
        lib.stored lib.v3 authorizationV3CacheVersion a.identity raw config a.storedAt =
        some b ∧
      (attempt lib s a).1 = ⟨{ s.disk with v3 := some b }, some (.v3 a.identity raw config)⟩) ∨
    ∃ config raw b, lib.stored lib.v2 authorizationCacheVersion a.identity raw config a.storedAt =
        some b ∧
      (attempt lib s a).1 = ⟨{ s.disk with v2 := some b }, some (.v2 a.identity raw config)⟩ := by
  unfold attempt
  split
  · rename_i config raw hfetch
    split
    · exact .inl rfl
    split
    · exact .inl rfl
    rename_i stored hstored
    dsimp only
    split
    · split
      · exact .inr (.inl ⟨config, raw, stored, hstored, rfl⟩)
      · exact .inr (.inl ⟨config, raw, stored, hstored, rfl⟩)
    split
    · exact .inr (.inl ⟨config, raw, stored, hstored, rfl⟩)
    · exact .inl rfl
  · split
    · exact .inl rfl
    · exact .inl rfl
    · cases attemptV2_state lib s a with
      | inl h => exact .inl h
      | inr h => exact .inr (.inr h)

omit [DecidableEq V2] [DecidableEq V3] in
theorem fromCache_eq_ok {a : Attempt V1} {loaded : Option (ProvisioningResult V1 V2 V3)}
    {r : ProvisioningResult V1 V2 V3} : a.fromCache loaded = some (.ok r) ↔
      a.afterFetch = a.identity ∧ a.afterCache = a.identity ∧ loaded = some r := by
  unfold Attempt.fromCache
  by_cases hfetch : a.afterFetch = a.identity
  · by_cases hcache : a.afterCache = a.identity
    · cases loaded <;> simp [hfetch, hcache]
    · simp [hfetch, hcache]
  · simp [hfetch]

omit [DecidableEq V3] in
/-- An attempt over v2 that returns a cached answer found no infrastructure, and made
sure that the answer is its own. -/
theorem attemptV2_cached {s : State V2 V3} {a : Attempt V1} {r : ProvisioningResult V1 V2 V3}
    (h : (attemptV2 lib s a).2 = some (.ok r)) (hr : r.isCached = true) :
    (attemptV2 lib s a).1 = s ∧ a.Own lib s.disk r ∧
    ∃ e, lib.fetch lib.v2 a.v2 a.identity.instanceId a.fetchedAt = .error e ∧
      e.kind = .infrastructure := by
  unfold attemptV2 at h ⊢
  cases hfetch : lib.fetch lib.v2 a.v2 a.identity.instanceId a.fetchedAt with
  | ok fetched =>
      exfalso
      simp only [hfetch] at h
      repeat' split at h
      all_goals first
        | (cases h; done)
        | (obtain rfl := Except.ok.inj (Option.some.inj h); cases hr)
  | error e =>
      simp only [hfetch] at h ⊢
      cases hkind : e.kind with
      | featureUnavailable =>
          exfalso
          simp only [hkind] at h
          cases hv1 : a.v1 with
          | ok config =>
              simp only [hv1] at h
              obtain rfl := Except.ok.inj (Option.some.inj h)
              cases hr
          | error text => simp [hv1] at h
      | terminal => simp [hkind] at h
      | infrastructure =>
          simp only [hkind] at h ⊢
          obtain ⟨-, hcache, hload⟩ := fromCache_eq_ok.mp h
          obtain ⟨config, hfile, rfl⟩ := Option.map_eq_some_iff.mp hload
          obtain ⟨hholds, hbound⟩ := load_spec hfile
          exact ⟨trivial, ⟨hcache, hholds, hbound⟩, e, rfl, hkind⟩

/-- An attempt that returns a cached answer met no rejection, and made sure that the
answer is its own. -/
theorem attempt_cached {s : State V2 V3} {a : Attempt V1} {r : ProvisioningResult V1 V2 V3}
    (h : (attempt lib s a).2 = some (.ok r)) (hr : r.isCached = true) :
    (attempt lib s a).1 = s ∧ a.Own lib s.disk r ∧ ¬ a.Rejected lib := by
  unfold attempt at h ⊢
  cases hfetch : lib.fetch lib.v3 a.v3 a.identity.instanceId a.fetchedAt with
  | ok fetched =>
      exfalso
      simp only [hfetch] at h
      repeat' split at h
      all_goals first
        | (cases h; done)
        | (obtain rfl := Except.ok.inj (Option.some.inj h); cases hr)
  | error e =>
      simp only [hfetch] at h ⊢
      cases hkind : e.kind with
      | terminal => simp [hkind] at h
      | infrastructure =>
          simp only [hkind] at h ⊢
          obtain ⟨-, hcache, hload⟩ := fromCache_eq_ok.mp h
          obtain ⟨config, hfile, rfl⟩ := Option.map_eq_some_iff.mp hload
          obtain ⟨hholds, hbound⟩ := load_spec hfile
          refine ⟨trivial, ⟨hcache, hholds, hbound⟩, ?_⟩
          rintro (⟨e', he', hterminal⟩ | ⟨e', -, he', hmissing, -⟩)
          · obtain rfl := Except.error.inj (hfetch.symm.trans he')
            rw [hkind] at hterminal
            cases hterminal
          · obtain rfl := Except.error.inj (hfetch.symm.trans he')
            rw [hkind] at hmissing
            cases hmissing
      | featureUnavailable =>
          simp only [hkind] at h ⊢
          obtain ⟨hstate, hown, e₂, he₂, hinfra⟩ := attemptV2_cached h hr
          refine ⟨hstate, hown, ?_⟩
          rintro (⟨e', he', hterminal⟩ | ⟨-, e', -, -, he', hterminal⟩)
          · obtain rfl := Except.error.inj (hfetch.symm.trans he')
            rw [hkind] at hterminal
            cases hterminal
          · obtain rfl := Except.error.inj (he₂.symm.trans he')
            rw [hinfra] at hterminal
            cases hterminal

variable (lib) in
/-- What a call leaves: the state as it was, or what its attempts left. -/
theorem fetch_state (s : State V2 V3) (c : Call V1) :
    (fetchProvisioningWithCache lib s c).1 = s ∨
    (fetchProvisioningWithCache lib s c).1 = (attempt lib s c.first).1 ∨
    (fetchProvisioningWithCache lib s c).1 =
      (attempt lib (attempt lib s c.first).1 c.second).1 := by
  unfold fetchProvisioningWithCache
  split
  · exact .inl rfl
  split
  · split <;> exact .inl rfl
  split
  · exact .inl rfl
  split
  · exact .inl rfl
  split
  · rename_i s₁ r h
    exact .inr (.inl (by rw [h]))
  · rename_i s₁ h
    right; right
    rw [h]
    split
    · rename_i s₂ r h₂
      rw [h₂]
    · rename_i s₂ h₂
      rw [h₂]

/-- The attempt that decided a call with a cached answer. -/
theorem fetch_cached {s : State V2 V3} {c : Call V1} {r : ProvisioningResult V1 V2 V3}
    (h : (fetchProvisioningWithCache lib s c).2 = .ok r) (hr : r.isCached = true) :
    (attempt lib s c.first).2 = some (.ok r) ∧
      (fetchProvisioningWithCache lib s c).1 = (attempt lib s c.first).1 ∨
    (attempt lib s c.first).2 = none ∧
      (attempt lib (attempt lib s c.first).1 c.second).2 = some (.ok r) ∧
      (fetchProvisioningWithCache lib s c).1 =
        (attempt lib (attempt lib s c.first).1 c.second).1 := by
  unfold fetchProvisioningWithCache at h ⊢
  split at h
  · cases h
  rename_i hclient
  split at h
  · split at h
    · obtain rfl := Except.ok.inj h
      cases hr
    · cases h
  rename_i hsecure
  split at h
  · cases h
  rename_i hcredentials
  split at h
  · cases h
  rename_i hcache
  rw [if_neg hclient, if_neg hsecure, if_neg hcredentials, if_neg hcache]
  cases hfirst : attempt lib s c.first with
  | mk s₁ r₁ =>
      cases r₁ with
      | some r₁ =>
          simp only [hfirst] at h
          exact .inl ⟨congrArg some h, rfl⟩
      | none =>
          simp only [hfirst] at h ⊢
          cases hsecond : attempt lib s₁ c.second with
          | mk s₂ r₂ =>
              cases r₂ with
              | some r₂ =>
                  simp only [hsecond] at h
                  exact .inr ⟨trivial, congrArg some h, rfl⟩
              | none => simp [hsecond] at h

/-- An attempt that left nothing to decide was not rejected. -/
theorem not_rejected_of_continue {s : State V2 V3} {a : Attempt V1}
    (h : (attempt lib s a).2 = none) : ¬ a.Rejected lib := by
  intro hrejected
  unfold attempt at h
  rcases hrejected with ⟨e, he, hkind⟩ | ⟨e₃, e₂, he₃, hmissing, he₂, hterminal⟩
  · simp [he, hkind] at h
  · have hv2 : (attemptV2 lib s a).2 = some (.error (.fetch .terminal e₂.status .unknown)) := by
      unfold attemptV2
      rw [he₂]
      simp only [hterminal]
    rw [he₃] at h
    simp only [hmissing] at h
    rw [hv2] at h
    cases h

/-! ## every history -/

/-- The file of the last cached answer holds it. -/
def Kept (lib : Library V2 V3) (s : State V2 V3) : Prop :=
  match s.latest with
  | none => True
  | some (.v2 identity raw config) => ∃ b storedAt, s.disk.v2 = some b ∧
      lib.stored lib.v2 authorizationCacheVersion identity raw config storedAt = some b
  | some (.v3 identity raw config) => ∃ b storedAt, s.disk.v3 = some b ∧
      lib.stored lib.v3 authorizationV3CacheVersion identity raw config storedAt = some b

theorem Kept.attempt {s : State V2 V3} (h : Kept lib s) (a : Attempt V1) :
    Kept lib (attempt lib s a).1 := by
  rcases attempt_state lib s a with hs | ⟨config, raw, b, hb, hs⟩ | ⟨config, raw, b, hb, hs⟩
  · rw [hs]
    exact h
  · rw [hs]
    exact ⟨b, a.storedAt, rfl, hb⟩
  · rw [hs]
    exact ⟨b, a.storedAt, rfl, hb⟩

theorem Kept.fetch {s : State V2 V3} (h : Kept lib s) (c : Call V1) :
    Kept lib (fetchProvisioningWithCache lib s c).1 := by
  rcases fetch_state lib s c with hs | hs | hs
  · rw [hs]
    exact h
  · rw [hs]
    exact h.attempt c.first
  · rw [hs]
    exact (h.attempt c.first).attempt c.second

theorem Kept.run {s : State V2 V3} (h : Kept lib s) (cs : List (Call V1)) :
    Kept lib (run lib s cs) := by
  induction cs generalizing s with
  | nil => exact h
  | cons c cs ih => exact ih (h.fetch c)

/-! ## an outage -/

omit [DecidableEq V2] [DecidableEq V3] in
/-- A request without an answer fails as infrastructure. -/
theorem fetch_infrastructure {α : Type} {codec : Codec α} {answer : Answer} {instanceId : String}
    {now : Time} (hcanonical : Entitlement.isCanonicalInstanceID lib.go instanceId = true)
    (h : answer.Infrastructure) :
    lib.fetch codec answer instanceId now = .error { kind := .infrastructure } := by
  unfold Library.fetch
  rw [if_neg (by simp [hcanonical])]
  cases answer with
  | unreachable => rfl
  | response status body =>
      have hge : 500 ≤ status := h
      dsimp only
      rw [if_neg (by omega), if_pos hge]

/-- During an outage the first attempt decides, and it looks into the v3 file. -/
theorem fetch_outage {s : State V2 V3} {c : Call V1} {current : CredentialIdentity}
    (h : Outage c current)
    (hcanonical : Entitlement.isCanonicalInstanceID lib.go current.instanceId = true) :
    (fetchProvisioningWithCache lib s c).2 =
      match lib.load lib.v3 authorizationV3CacheVersion s.disk.v3 current.instanceId
        current.generation c.first.loadedAt with
      | some config => .ok (.cacheV3 config)
      | none => .error (.fetch .infrastructure 0 .unknown) := by
  obtain ⟨hid, hafter, hcache⟩ := h.identity c.first (by simp)
  have hfetch : lib.fetch lib.v3 c.first.v3 c.first.identity.instanceId c.first.fetchedAt =
      .error { kind := .infrastructure } :=
    fetch_infrastructure (by rw [hid]; exact hcanonical) (h.fails c.first (by simp)).1
  have hattempt : attempt lib s c.first =
      (s, c.first.fromCache ((lib.load lib.v3 authorizationV3CacheVersion s.disk.v3
        current.instanceId current.generation c.first.loadedAt).map .cacheV3)) := by
    unfold attempt
    simp only [hfetch]
    rw [hid]
  unfold fetchProvisioningWithCache
  rw [if_neg (by simp [h.client]), if_neg (by simp [h.secure]), if_neg (by simp [h.credentials]),
    if_neg (by simp [h.cache]), hattempt]
  unfold Attempt.fromCache
  rw [if_neg (by simp [hafter, hid]), if_neg (by simp [hcache, hid])]
  cases lib.load lib.v3 authorizationV3CacheVersion s.disk.v3 current.instanceId
    current.generation c.first.loadedAt with
  | some config => rfl
  | none => rfl

/-! ## the contract in every state -/

/-- A cached answer is never returned after a rejection. -/
theorem not_cached_of_rejected {s : State V2 V3} {c : Call V1} {r : ProvisioningResult V1 V2 V3}
    (hrejected : c.Rejected lib s) (h : (fetchProvisioningWithCache lib s c).2 = .ok r) :
    r.isCached = false := by
  by_contra hr
  rw [Bool.not_eq_false] at hr
  rcases fetch_cached h hr with ⟨hfirst, -⟩ | ⟨hfirst, hsecond, -⟩
  · rcases hrejected with hone | ⟨hnone, -⟩
    · exact (attempt_cached hfirst hr).2.2 hone
    · rw [hfirst] at hnone
      cases hnone
  · rcases hrejected with hone | ⟨-, htwo⟩
    · exact not_rejected_of_continue hfirst hone
    · exact (attempt_cached hsecond hr).2.2 htwo

/-- A cached answer is the agent's own. -/
theorem own_of_cached {s : State V2 V3} {c : Call V1} {r : ProvisioningResult V1 V2 V3}
    (h : (fetchProvisioningWithCache lib s c).2 = .ok r) :
    ∃ a ∈ [c.first, c.second], a.Own lib (fetchProvisioningWithCache lib s c).1.disk r := by
  cases hr : r.isCached with
  | false =>
      refine ⟨c.first, by simp, ?_⟩
      cases r with
      | onlineV1 _ | onlineV2 _ | onlineV3 _ => trivial
      | cacheV2 _ | cacheV3 _ => cases hr
  | true =>
      rcases fetch_cached h hr with ⟨hfirst, hstate⟩ | ⟨-, hsecond, hstate⟩
      · obtain ⟨hs, hown, -⟩ := attempt_cached hfirst hr
        refine ⟨c.first, by simp, ?_⟩
        rw [hstate, hs]
        exact hown
      · obtain ⟨hs, hown, -⟩ := attempt_cached hsecond hr
        refine ⟨c.second, by simp, ?_⟩
        rw [hstate, hs]
        exact hown

/-- What an outage serves after an answer that was cached over v3. -/
theorem fetch_v3 {s : State V2 V3} (hkept : Kept lib s) {c : Call V1}
    {identity : CredentialIdentity} {raw : Bytes} {config : V3}
    (hlatest : s.latest = some (.v3 identity raw config)) (hout : Outage c identity)
    (hvalid : (Stored.v3 identity raw config).ValidAt lib c.first.loadedAt) :
    (fetchProvisioningWithCache lib s c).2 =
      if (lib.json.compact raw).length ≤ maxProvisioningJSON then .ok (.cacheV3 config)
      else .error (.fetch .infrastructure 0 .unknown) := by
  rw [Kept, hlatest] at hkept
  obtain ⟨b, storedAt, hfile, hstored⟩ := hkept
  rw [fetch_outage hout (stored_spec hstored).1, hfile, load_stored hstored hvalid.1 hvalid.2]
  by_cases hlen : (lib.json.compact raw).length ≤ maxProvisioningJSON
  · rw [if_pos hlen, if_pos hlen]
  · rw [if_neg hlen, if_neg hlen]

/-- An outage never serves an answer that was stored over v2. -/
theorem ne_cacheV2 {s : State V2 V3} {c : Call V1} {current : CredentialIdentity}
    (hout : Outage c current)
    (hcanonical : Entitlement.isCanonicalInstanceID lib.go current.instanceId = true)
    (config : V2) :
    (fetchProvisioningWithCache lib s c).2 ≠ .ok (.cacheV2 config) := by
  rw [fetch_outage hout hcanonical]
  cases lib.load lib.v3 authorizationV3CacheVersion s.disk.v3 current.instanceId
    current.generation c.first.loadedAt with
  | some config' => simp
  | none => simp

/-- A call without any answer. -/
def silentCall (V1 : Type) (current : CredentialIdentity) (now : Time) : Call V1 where
  first := ⟨current, .unreachable, .unreachable, .error "", now, now, now, current, current, .done⟩
  second := ⟨current, .unreachable, .unreachable, .error "", now, now, now, current, current, .done⟩

theorem silentCall_outage (V1 : Type) (current : CredentialIdentity) (now : Time) :
    Outage (silentCall V1 current now) current where
  client := rfl
  secure := rfl
  credentials := rfl
  cache := rfl
  fails a ha := by
    simp only [silentCall, List.mem_cons, List.not_mem_nil, or_false, or_self] at ha
    rw [ha]
    exact ⟨trivial, trivial⟩
  identity a ha := by
    simp only [silentCall, List.mem_cons, List.not_mem_nil, or_false, or_self] at ha
    rw [ha]
    exact ⟨rfl, rfl, rfl⟩

/-- The last cached answer was valid when it was stored. -/
theorem Kept.valid {s : State V2 V3} (h : Kept lib s) {stored : Stored V2 V3}
    (hlatest : s.latest = some stored) :
    Entitlement.isCanonicalInstanceID lib.go stored.identity.instanceId = true ∧
      ∃ storedAt, stored.ValidAt lib storedAt := by
  rw [Kept, hlatest] at h
  cases stored with
  | v2 identity raw config | v3 identity raw config =>
      obtain ⟨b, storedAt, -, hstored⟩ := h
      obtain ⟨hcanonical, -, -, hparse, hbound, -, -⟩ := stored_spec hstored
      exact ⟨hcanonical, storedAt, (parse_eq_ok.mp hparse).2.2.2, hbound⟩

/-- **The cached authorisation in an outage.** After every history of answers over
both endpoints, from whatever files the agent found and wherever the writes of its files
failed: no call returns a cached answer after a rejection or for another identity, and the
last answer that was fetched and cached is what an outage returns, if and only if that
answer came over v3 and its body, escaped as it is stored, is no longer than a body may
be. -/
theorem cache_contract_iff (lib : Library V2 V3) (disk : Disk) (calls : List (Call V1)) :
    CacheContract lib V1 (run lib (start disk) calls) ↔
      ∀ stored, (run lib (start disk) calls).latest = some stored →
        ∃ identity raw config, stored = .v3 identity raw config ∧
          (lib.json.compact raw).length ≤ maxProvisioningJSON := by
  have hkept : Kept lib (run lib (start disk) calls) := Kept.run (by trivial) calls
  constructor
  · intro hcontract stored hlatest
    obtain ⟨hcanonical, storedAt, hvalid⟩ := hkept.valid hlatest
    have hout := silentCall_outage V1 stored.identity storedAt
    have hserved := hcontract.latest _ _ hlatest hout hvalid
    cases stored with
    | v2 identity raw config => exact absurd hserved (ne_cacheV2 hout hcanonical config)
    | v3 identity raw config =>
        refine ⟨identity, raw, config, rfl, ?_⟩
        rw [fetch_v3 hkept hlatest hout hvalid] at hserved
        by_contra hlong
        rw [if_neg hlong] at hserved
        cases hserved
  · intro hreadable
    refine ⟨?_, fun c r hrejected h => not_cached_of_rejected hrejected h,
      fun c r h => own_of_cached h⟩
    intro c stored hlatest hout hvalid
    obtain ⟨identity, raw, config, rfl, hlen⟩ := hreadable stored hlatest
    rw [fetch_v3 hkept hlatest hout hvalid, if_pos hlen]
    rfl

end Steps

/-! ## a sample -/

namespace Sample

/-- The bytes of an ASCII text. -/
def bytes (s : String) : Bytes := s.toList.map fun c => UInt8.ofNat c.toNat

/-- The enrolled identity. -/
def identity : CredentialIdentity := ⟨"7d444840-9dc0-4d1a-8c5c-2f1f2a3c9b10", 1⟩

/-- The authoritative empty response over v2. -/
def response : Bytes := bytes "\x7b\"version\":2,\"subscriptions\":[]\x7d"

/-- The file that is written for it. -/
def file : Bytes :=
  bytes "\x7b\"version\":1,\"instance_id\":\"7d444840-9dc0-4d1a-8c5c-2f1f2a3c9b10\"," ++
    bytes "\"generation\":1,\"response\":" ++ response ++ bytes "\x7d"

/-- What the file says. -/
def envelope : Envelope := ⟨1, identity.instanceId, 1, response⟩

/-- What the response says. -/
def value : Document := .object [("version", .number "2"), ("subscriptions", .array [])]

/-- `encoding/json` on the response and on its file. -/
def json : EncodingJson where
  document b :=
    if b = response then some value
    else if b = file then
      some (.object [("version", .number "1"), ("instance_id", .string identity.instanceId),
        ("generation", .number "1"), ("response", value)])
    else none
  rawMember b name := if b = file ∧ name = "response" then some response else none
  int literal := if literal = "1" then some 1 else if literal = "2" then some 2 else none
  compact b := b
  marshal e := if e = envelope then some file else none
  document_nil := by decide +kernel
  document_compact _ _ h := h
  document_marshal e b h := by
    obtain ⟨rfl, hb⟩ := Option.ite_none_right_eq_some.mp h
    obtain rfl := Option.some.inj hb
    refine ⟨"1", "1", value, rfl, rfl, rfl, ?_⟩
    rw [if_neg (by decide +kernel), if_pos rfl]
    rfl
  rawMember_marshal e b h := by
    obtain ⟨rfl, hb⟩ := Option.ite_none_right_eq_some.mp h
    obtain rfl := Option.some.inj hb
    rfl

/-- The response without subscriptions of one version, which is valid at every instant. -/
def codec (version : String) : Codec Unit where
  decode
    | .object [("version", .number literal), ("subscriptions", .array [])] =>
        if literal = version then some () else none
    | _ => none
  validate _ _ := .ok ()
  bound _ _ _ _ := true

def lib : Library Unit Unit where
  go := ⟨fun c => [c], fun _ => none, fun _ => none, fun c => c⟩
  json := json
  v2 := codec "2"
  v3 := codec "3"

/-- A call to a backend that knows v2 but not v3. -/
def call : Call Unit where
  first := ⟨identity, .response 404 none, .response 200 (some response), .error "", 0, 0, 0,
    identity, identity, .done⟩
  second := (silentCall Unit identity 0).first

end Sample

/-- An agent whose backend answered over v2 gets an error in the outage that follows,
although the answer is in its file and still valid. -/
theorem v2_answer_not_served :
    ¬ CacheContract Sample.lib Unit (run Sample.lib (start ⟨none, none⟩) [Sample.call]) := by
  have hlatest : (run Sample.lib (start ⟨none, none⟩) [Sample.call]).latest =
      some (.v2 Sample.identity Sample.response ()) := by decide +kernel
  have hfails : (fetchProvisioningWithCache Sample.lib
      (run Sample.lib (start ⟨none, none⟩) [Sample.call]) (silentCall Unit Sample.identity 1)).2 =
      .error (.fetch .infrastructure 0 .unknown) := by decide +kernel
  intro hcontract
  have hserved := hcontract.latest _ _ hlatest (silentCall_outage Unit Sample.identity 1) ⟨rfl, rfl⟩
  rw [hfails] at hserved
  cases hserved

end Agent
