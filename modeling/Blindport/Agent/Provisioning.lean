import Blindport.Entitlement.Metadata

/-!
# Blindport.Agent.Provisioning

`fetchProvisioningWithCache` of `provisioning_v2.go`: the agent asks for its
authorisation over v3, falls back to v2 and then v1 where the backend does not
know the newer endpoint, and keeps the last answer of each of the two newer
versions in a file of its own for an outage.

Everything a call reads from outside is in `Attempt`: what the backend answers,
the clock, the identity at each look at it, and how far the write of a file came.
`run` is any history of calls; it keeps beside the files the last answer that was
fetched and came into its file.
-/

namespace Agent

open Entitlement (isCanonicalInstanceID)

abbrev Bytes := List UInt8

/-- A `time.Time`. -/
abbrev Time := Int

/-! ## what the files and answers hold -/

/-- `credentialIdentity`. -/
structure CredentialIdentity where
  instanceId : String
  generation : Int
deriving DecidableEq

/-- `v3ValidationStage`. -/
inductive ValidationStage where
  | unknown
  | envelope
  | subscription
  | edgeMetadata
  | edgeClaim
  | entitlement
  | entitlementTime
  | identity
deriving DecidableEq

/-- `authorizationCacheEnvelope`. -/
structure Envelope where
  version : Int
  instanceId : String
  generation : Int
  response : Bytes
deriving DecidableEq

/-! ## JSON -/

/-- A JSON value as `encoding/json` reads it: numbers as they are written, and the
members of an object in their order. -/
inductive Document where
  | null
  | bool (value : Bool)
  | number (literal : String)
  | string (text : String)
  | array (items : List Document)
  | object (members : List (String × Document))

namespace Document

mutual

/-- `rejectDuplicateJSONKeys` passes. -/
def distinct : Document → Bool
  | array items => distinctItems items
  | object members => decide (members.map Prod.fst).Nodup && distinctMembers members
  | _ => true

def distinctItems : List Document → Bool
  | [] => true
  | item :: items => item.distinct && distinctItems items

def distinctMembers : List (String × Document) → Bool
  | [] => true
  | (_, value) :: members => value.distinct && distinctMembers members

end

/-- `hasExactJSONFields`. -/
def hasExactFields (names : List String) : Document → Bool
  | object members =>
      let fields := (members.map Prod.fst).dedup
      decide (fields.length = names.length ∧ ∀ name ∈ names, name ∈ fields)
  | _ => false

/-- The value of a member; of several the last one counts. -/
def member (name : String) : Document → Option Document
  | object members => members.reverse.lookup name
  | _ => none

/-- The value is decoded into a Go string. -/
def goString : Document → Option String
  | string text => some text
  | null => some ""
  | _ => none

end Document

/-- `encoding/json`, and what it promises: there is no value in an empty text; a raw
message is marshalled without blanks and with some characters of its strings escaped,
which changes nothing of what it says; an envelope is marshalled member by member. -/
structure EncodingJson where
  /-- The value of a text that has nothing behind it. -/
  document : Bytes → Option Document
  /-- The text of a member of the object, as a `json.RawMessage` keeps it. -/
  rawMember : Bytes → String → Option Bytes
  /-- A number literal is decoded into an `int`. -/
  int : String → Option Int
  /-- What a `json.RawMessage` is marshalled to. -/
  compact : Bytes → Bytes
  /-- `json.Marshal` of an envelope. -/
  marshal : Envelope → Option Bytes
  document_nil : document [] = none
  document_compact : ∀ raw value, document raw = some value → document (compact raw) = some value
  document_marshal : ∀ e b, marshal e = some b → ∃ version generation response,
    int version = some e.version ∧ int generation = some e.generation ∧
    document e.response = some response ∧
    document b = some (.object [("version", .number version), ("instance_id", .string e.instanceId),
      ("generation", .number generation), ("response", response)])
  rawMember_marshal : ∀ e b, marshal e = some b → rawMember b "response" = some (compact e.response)

namespace EncodingJson

variable (json : EncodingJson)

/-- The value is decoded into a Go `int`. -/
def goInt : Document → Option Int
  | .number literal => json.int literal
  | .null => some 0
  | _ => none

/-- `UnmarshalJSON` of an envelope. -/
def unmarshal (raw : Bytes) (value : Document) : Option Envelope :=
  if value.hasExactFields ["version", "instance_id", "generation", "response"] = false then none
  else do
    let version ← json.goInt (← value.member "version")
    let instanceId ← (← value.member "instance_id").goString
    let generation ← json.goInt (← value.member "generation")
    let response ← json.rawMember raw "response"
    pure ⟨version, instanceId, generation, response⟩

end EncodingJson

/-- One version of the response: how its JSON is decoded, what `validateProvisioningV2`
or `validateProvisioningV3` says of it at an instant, and `validateV2Identity` or
`validateV3Identity`, whose generation is negative where it is not asked for. -/
structure Codec (α : Type) where
  decode : Document → Option α
  validate : α → Time → Except ValidationStage Unit
  bound : α → String → Int → Time → Bool

def maxProvisioningJSON : Nat := 1 <<< 20
def maxAuthorizationCacheSize : Nat := maxProvisioningJSON + 1024
def maxCredentialGeneration : Int := 2 ^ 31 - 1
def authorizationCacheVersion : Int := 1
def authorizationV3CacheVersion : Int := 3

/-- `parseProvisioningV2` and `parseProvisioningV3`. -/
def Codec.parse {α : Type} (codec : Codec α) (json : EncodingJson) (raw : Bytes) (now : Time) :
    Except ValidationStage α :=
  if raw = [] ∨ maxProvisioningJSON < raw.length then .error .envelope
  else
    match json.document raw with
    | none => .error .envelope
    | some value =>
        if value.distinct = false then .error .envelope
        else
          match codec.decode value with
          | none => .error .envelope
          | some config =>
              match codec.validate config now with
              | .error stage => .error stage
              | .ok () => .ok config

/-- What the agent's code is compiled with. -/
structure Library (V2 V3 : Type) where
  go : Entitlement.GoJson
  json : EncodingJson
  v2 : Codec V2
  v3 : Codec V3

/-! ## one request -/

/-- What came of a request: no response, or a status with a body that could be
read or not. -/
inductive Answer where
  | unreachable
  | response (status : Nat) (body : Option Bytes)
deriving DecidableEq

/-- `v2FetchKind`. -/
inductive FetchKind where
  | featureUnavailable
  | terminal
  | infrastructure
deriving DecidableEq

/-- `v2FetchError` and `v3FetchError`. -/
structure FetchError where
  kind : FetchKind
  status : Nat := 0
  stage : ValidationStage := .unknown
deriving DecidableEq

/-- `fetchProvisioningV2` and `fetchProvisioningV3`, from the response on. -/
def Library.fetch {V2 V3 α : Type} (lib : Library V2 V3) (codec : Codec α) (answer : Answer)
    (instanceId : String) (now : Time) : Except FetchError (α × Bytes) :=
  if isCanonicalInstanceID lib.go instanceId = false then .error { kind := .terminal }
  else
    match answer with
    | .unreachable => .error { kind := .infrastructure }
    | .response status body =>
        if status = 404 then .error { kind := .featureUnavailable }
        else if 500 ≤ status then .error { kind := .infrastructure }
        else if status ≠ 200 then .error { kind := .terminal, status := status }
        else
          match body with
          | none => .error { kind := .terminal }
          | some raw =>
              if maxProvisioningJSON < raw.length then .error { kind := .terminal }
              else
                match codec.parse lib.json raw now with
                | .error stage => .error { kind := .terminal, stage := stage }
                | .ok config =>
                    if codec.bound config instanceId (-1) now = false then
                      .error { kind := .terminal, stage := .identity }
                    else .ok (config, raw)

/-! ## the two files -/

/-- The contents of `authorization.json` and `authorization-v3.json`. -/
structure Disk where
  v2 : Option Bytes
  v3 : Option Bytes
deriving DecidableEq

section Cache

variable {V2 V3 α : Type} [DecidableEq α] (lib : Library V2 V3) (codec : Codec α)

/-- What `store` and `storeV3` write, once every check has passed. -/
def Library.stored (version : Int) (identity : CredentialIdentity) (raw : Bytes) (config : α)
    (now : Time) : Option Bytes :=
  if isCanonicalInstanceID lib.go identity.instanceId = false ∨ identity.generation < 1 ∨
      maxCredentialGeneration < identity.generation ∨ codec.validate config now ≠ .ok () ∨
      raw = [] ∨ maxProvisioningJSON < raw.length then none
  else if codec.parse lib.json raw now ≠ .ok config ∨
      codec.bound config identity.instanceId identity.generation now = false then none
  else
    match lib.json.marshal ⟨version, identity.instanceId, identity.generation, raw⟩ with
    | none => none
    | some stored => if maxAuthorizationCacheSize < stored.length then none else some stored

/-- `loadV3`, and `load` with `parseAuthorizationCache`. -/
def Library.load (version : Int) (file : Option Bytes) (instanceId : String) (generation : Int)
    (now : Time) : Option α :=
  match file with
  | none => none
  | some raw =>
      if raw = [] ∨ maxAuthorizationCacheSize < raw.length ∨
          isCanonicalInstanceID lib.go instanceId = false ∨ generation < 1 ∨
          maxCredentialGeneration < generation then none
      else
        match lib.json.document raw with
        | none => none
        | some value =>
            if value.distinct = false then none
            else
              match lib.json.unmarshal raw value with
              | none => none
              | some envelope =>
                  if envelope.version ≠ version ∨ envelope.instanceId ≠ instanceId ∨
                      envelope.generation ≠ generation then none
                  else
                    match codec.parse lib.json envelope.response now with
                    | .error _ => none
                    | .ok config =>
                        if codec.bound config envelope.instanceId envelope.generation now then
                          some config
                        else none

end Cache

/-! ## a call -/

/-- How far the write of a file came. -/
inductive Write where
  /-- It failed before `os.Rename`, which leaves the file as it was. -/
  | failed
  /-- It failed after `os.Rename`, when the directory was opened or synced. -/
  | unsynced
  | done
deriving DecidableEq

/-- Everything one attempt of a call reads. -/
structure Attempt (V1 : Type) where
  /-- `credentials.identity()`. -/
  identity : CredentialIdentity
  v3 : Answer
  v2 : Answer
  /-- `fetchConfigWithClient`. -/
  v1 : Except String V1
  /-- `time.Now()` when the answers are checked, stored and a file is read. -/
  fetchedAt : Time
  storedAt : Time
  loadedAt : Time
  /-- The identity after the request, and after the file was written or read. -/
  afterFetch : CredentialIdentity
  afterCache : CredentialIdentity
  writes : Write

/-- `provisioningResult`, with its source. -/
inductive ProvisioningResult (V1 V2 V3 : Type) where
  | onlineV1 (config : V1)
  | onlineV2 (config : V2)
  | cacheV2 (config : V2)
  | onlineV3 (config : V3)
  | cacheV3 (config : V3)
deriving DecidableEq

/-- The authorisation came from a file. -/
def ProvisioningResult.isCached {V1 V2 V3 : Type} : ProvisioningResult V1 V2 V3 → Bool
  | cacheV2 _ | cacheV3 _ => true
  | _ => false

/-- `provisioningFailureKind`. -/
inductive FailureKind where
  | infrastructure
  | terminal
deriving DecidableEq

/-- `provisioningFetchError`, or an error with a text of its own. -/
inductive Failure where
  | fetch (kind : FailureKind) (status : Nat) (stage : ValidationStage)
  | message (text : String)
deriving DecidableEq

/-- An answer that was fetched and came into its file, with its body and for whom. -/
inductive Stored (V2 V3 : Type) where
  | v2 (identity : CredentialIdentity) (raw : Bytes) (config : V2)
  | v3 (identity : CredentialIdentity) (raw : Bytes) (config : V3)
deriving DecidableEq

/-- The files, and the last answer that was fetched and came into its file. -/
structure State (V2 V3 : Type) where
  disk : Disk
  latest : Option (Stored V2 V3)

section Call

variable {V1 V2 V3 : Type} [DecidableEq V2] [DecidableEq V3] (lib : Library V2 V3)

/-- The branch for a failure of the infrastructure: a file is read between two looks at
the identity.  `none` is `continue`. -/
def Attempt.fromCache (a : Attempt V1) (loaded : Option (ProvisioningResult V1 V2 V3)) :
    Option (Except Failure (ProvisioningResult V1 V2 V3)) :=
  if a.afterFetch ≠ a.identity then none
  else if a.afterCache ≠ a.identity then none
  else
    match loaded with
    | some result => some (.ok result)
    | none => some (.error (.fetch .infrastructure 0 .unknown))

/-- The loop body of `fetchProvisioningWithCache` once v3 is not there: `none` is
`continue`. -/
def attemptV2 (s : State V2 V3) (a : Attempt V1) :
    State V2 V3 × Option (Except Failure (ProvisioningResult V1 V2 V3)) :=
  match lib.fetch lib.v2 a.v2 a.identity.instanceId a.fetchedAt with
  | .ok (config, raw) =>
      if lib.v2.bound config a.identity.instanceId a.identity.generation a.fetchedAt = false ∨
          a.afterFetch ≠ a.identity then (s, none)
      else
        match lib.stored lib.v2 authorizationCacheVersion a.identity raw config a.storedAt with
        | none => (s, some (.error (.message "authorization cache update failure")))
        | some stored =>
            let s' : State V2 V3 :=
              ⟨{ s.disk with v2 := some stored }, some (.v2 a.identity raw config)⟩
            -- an unchanged file is not written again
            if s.disk.v2 = some stored ∨ a.writes = .done then
              if a.afterCache ≠ a.identity then (s', none)
              else (s', some (.ok (.onlineV2 config)))
            else if a.writes = .unsynced then
              (s', some (.error (.message "authorization cache update failure")))
            else (s, some (.error (.message "authorization cache update failure")))
  | .error e =>
      match e.kind with
      | .featureUnavailable =>
          match a.v1 with
          | .ok config => (s, some (.ok (.onlineV1 config)))
          | .error text => (s, some (.error (.message text)))
      | .infrastructure =>
          (s, a.fromCache ((lib.load lib.v2 authorizationCacheVersion s.disk.v2
            a.identity.instanceId a.identity.generation a.loadedAt).map .cacheV2))
      | .terminal => (s, some (.error (.fetch .terminal e.status .unknown)))

/-- The loop body of `fetchProvisioningWithCache`: `none` is `continue`. -/
def attempt (s : State V2 V3) (a : Attempt V1) :
    State V2 V3 × Option (Except Failure (ProvisioningResult V1 V2 V3)) :=
  match lib.fetch lib.v3 a.v3 a.identity.instanceId a.fetchedAt with
  | .ok (config, raw) =>
      if lib.v3.bound config a.identity.instanceId a.identity.generation a.fetchedAt = false ∨
          a.afterFetch ≠ a.identity then (s, none)
      else
        match lib.stored lib.v3 authorizationV3CacheVersion a.identity raw config a.storedAt with
        | none => (s, some (.error (.message "authorization cache update failure")))
        | some stored =>
            let s' : State V2 V3 :=
              ⟨{ s.disk with v3 := some stored }, some (.v3 a.identity raw config)⟩
            if a.writes = .done then
              if a.afterCache ≠ a.identity then (s', none)
              else (s', some (.ok (.onlineV3 config)))
            else if a.writes = .unsynced then
              (s', some (.error (.message "authorization cache update failure")))
            else (s, some (.error (.message "authorization cache update failure")))
  | .error e =>
      match e.kind with
      | .infrastructure =>
          (s, a.fromCache ((lib.load lib.v3 authorizationV3CacheVersion s.disk.v3
            a.identity.instanceId a.identity.generation a.loadedAt).map .cacheV3))
      | .terminal => (s, some (.error (.fetch .terminal e.status e.stage)))
      | .featureUnavailable => attemptV2 lib s a

/-- What a call was made with. -/
structure Call (V1 : Type) where
  insecureSkipTLS : Bool := false
  client : Bool := true
  credentials : Bool := true
  cache : Bool := true
  first : Attempt V1
  second : Attempt V1

/-- `fetchProvisioningWithCache`. -/
def fetchProvisioningWithCache (s : State V2 V3) (c : Call V1) :
    State V2 V3 × Except Failure (ProvisioningResult V1 V2 V3) :=
  if c.client = false then (s, .error (.message "provisioning HTTP client is required"))
  else if c.insecureSkipTLS then
    match c.first.v1 with
    | .ok config => (s, .ok (.onlineV1 config))
    | .error text => (s, .error (.message text))
  else if c.credentials = false then
    (s, .error (.message "v2 provisioning requires a client identity"))
  else if c.cache = false then
    (s, .error (.message "v2 provisioning requires an authorization cache"))
  else
    match attempt lib s c.first with
    | (s₁, some r) => (s₁, r)
    | (s₁, none) =>
        match attempt lib s₁ c.second with
        | (s₂, some r) => (s₂, r)
        | (s₂, none) => (s₂, .error (.fetch .infrastructure 0 .unknown))

/-- The files an agent finds when it starts. -/
def start (disk : Disk) : State V2 V3 := ⟨disk, none⟩

/-- A history of calls. -/
def run (s : State V2 V3) : List (Call V1) → State V2 V3
  | [] => s
  | c :: cs => run (fetchProvisioningWithCache lib s c).1 cs

end Call

end Agent
