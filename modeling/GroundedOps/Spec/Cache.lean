import GroundedOps.Lib.Machine
import GroundedOps.Spec.Answering
import Mathlib.Data.List.Sort

/-!
# The cache of authorized results

`modules/cache/cache_policy.py`. A key is a digest of everything that a result depends on: the
access of the caller, the versions and the request. SHA-256 of the canonical JSON text is the
parameter `digest`.

The backend is not trusted: a `get` raises, returns nothing or something foreign, or replays any
record that was ever passed to `set`; a `set` may raise. `CacheWorld` keeps what was passed to
`set` and what the calls have loaded.
-/

namespace GroundedOps

inductive CacheKind
  | retrieval | answer
  deriving DecidableEq, Repr

def CacheKind.value : CacheKind → String
  | .retrieval => "retrieval"
  | .answer => "answer"

def CacheVersions.check (policy corpus model : String) : Bool :=
  [policy, corpus, model].all fun value => !isBlank value && value.length ≤ 128

structure CacheVersions where
  policy : String
  corpus : String
  model : String
  valid : CacheVersions.check policy corpus model = true
  deriving DecidableEq

/-- The object of a record. -/
inductive CacheValue
  | evidence (value : EvidenceSet)
  | answer (value : GroundedAnswer)
  deriving DecidableEq

structure CacheRecord where
  key : String
  kind : CacheKind
  value : CacheValue
  deriving DecidableEq

structure CachedValue (α : Type) where
  value : α
  cacheHit : Bool
  deriving DecidableEq, Repr

/-! ## Keys -/

/-- `sorted` -/
def sorted (values : List String) : List String := values.insertionSort (· ≤ ·)

/-- The `authorization` of a payload. -/
structure CacheAuthorization where
  principalId : String
  roles : List String
  groups : List String
  known : Bool
  deriving DecidableEq

/-- The `request` of a payload. -/
inductive CacheRequest
  | retrieval (query : String) (limit offset : ℕ) (sourceIds documentIds : List String)
      (includeHistorical : Bool)
  | answer (question : String)
  deriving DecidableEq

/-- What is written as canonical JSON and digested. -/
structure CachePayload where
  schema : ℕ := 1
  kind : String
  tenantId : String
  authorization : CacheAuthorization
  versions : CacheVersions
  request : CacheRequest
  deriving DecidableEq

def payload (kind : CacheKind) (principal : Principal) (versions : CacheVersions)
    (request : CacheRequest) : CachePayload where
  kind := kind.value
  tenantId := principal.tenantId
  authorization := {
    principalId := principal.id
    roles := sorted principal.roles
    groups := sorted principal.groups
    known := principal.known }
  versions := versions
  request := request

/-- `_key`: `digest` is the SHA-256 of the canonical JSON text, in hexadecimal. -/
def cacheKey (digest : CachePayload → String) (kind : CacheKind) (payload : CachePayload) : String :=
  "groundedops:v1:" ++ kind.value ++ ":" ++ digest payload

def retrievalPayload (context : QueryContext) (versions : CacheVersions) : CachePayload :=
  payload .retrieval context.principal versions
    (.retrieval context.query context.limit context.offset (sorted context.sourceIds)
      (sorted context.documentIds) context.includeHistorical)

def answerPayload (question : Question) (principal : Principal) (versions : CacheVersions) :
    CachePayload :=
  payload .answer principal versions (.answer question.text)

/-! ## Eligibility -/

def allowedReasons : List AuthorizationReason := [.public, .principal, .role, .group]

def eligibleRetrieval (value : EvidenceSet) (principal : Principal) : Bool :=
  principal.known && !value.degraded && value.evidence.all fun item =>
    item.tenantId = principal.tenantId && item.authorizationReason ∈ allowedReasons

def eligibleAnswer (value : GroundedAnswer) (question : Question) (principal : Principal) : Bool :=
  principal.known && value.status = .verified && value.question.text = question.text

/-! ## The backend -/

/-- What `get` does; `replayed n` returns the `n`-th record passed to `set`, if there is one. -/
inductive Fetched
  | raises
  | nothing
  /-- an object that is not a `CacheRecord` -/
  | foreign
  | replayed (n : ℕ)
  deriving DecidableEq, Repr

/-- What the backend does in a call. -/
structure BackendReply where
  get : Fetched
  setRaises : Bool := false
  deriving DecidableEq, Repr

/-- The backend fails at whatever it is asked. -/
def BackendReply.Fails (reply : BackendReply) : Prop := reply.get = .raises ∧ reply.setRaises = true

/-- A load that returned, with the arguments of its call. -/
inductive CacheLoad
  | retrieval (context : QueryContext) (versions : CacheVersions) (value : EvidenceSet)
  | answer (question : Question) (principal : Principal) (versions : CacheVersions)
      (value : GroundedAnswer)

/-- The records passed to `set`, with their TTL, and the loads that returned. -/
structure CacheWorld where
  passed : List (CacheRecord × ℕ) := []
  loads : List CacheLoad := []

/-- `_read` -/
def CacheWorld.read (world : CacheWorld) (fetched : Fetched) (key : String) (kind : CacheKind) :
    Option CacheRecord :=
  match fetched with
  | .raises | .nothing | .foreign => none
  | .replayed n =>
    match world.passed[n]? with
    | none => none
    | some (record, _) => if record.key ≠ key ∨ record.kind ≠ kind then none else some record

/-- `_write`: a `set` that raises is ignored, and may have stored the record all the same. -/
def CacheWorld.write (world : CacheWorld) (record : CacheRecord) (ttlSeconds : ℕ) : CacheWorld :=
  { world with passed := world.passed ++ [(record, ttlSeconds)] }

def CacheWorld.loaded (world : CacheWorld) (load : CacheLoad) : CacheWorld :=
  { world with loads := world.loads ++ [load] }

/-! ## The cache -/

structure VersionSafeCache where
  retrievalTtlSeconds : ℕ := 300
  answerTtlSeconds : ℕ := 120
  retrievalTtlSeconds_pos : 0 < retrievalTtlSeconds := by decide
  answerTtlSeconds_pos : 0 < answerTtlSeconds := by decide

/-- What `retrieval` and `answer` do of one kind: reuse the record that is read, if it holds an
eligible value, else load one and write it if it is eligible. -/
structure Reuse (α : Type) where
  kind : CacheKind
  key : String
  eligible : α → Bool
  ttlSeconds : ℕ
  wrap : α → CacheValue
  /-- the `isinstance` check of a record's value -/
  unwrap : CacheValue → Option α
  /-- a reused value, as it is returned -/
  reused : α → α
  load : α → CacheLoad

/-- The value that is reused. -/
def Reuse.hit {α : Type} (reuse : Reuse α) (fetched : Fetched) (world : CacheWorld) : Option α :=
  match world.read fetched reuse.key reuse.kind with
  | none => none
  | some record => (reuse.unwrap record.value).filter reuse.eligible

variable {E : Type}

def Reuse.run {α : Type} (reuse : Reuse α) (load : Except E α) (reply : BackendReply)
    (world : CacheWorld) : Except E (CachedValue α) × CacheWorld :=
  match reuse.hit reply.get world with
  | some value => (.ok ⟨reuse.reused value, true⟩, world)
  | none =>
    match load with
    | .error error => (.error error, world)
    | .ok value =>
      let world := world.loaded (reuse.load value)
      (.ok ⟨value, false⟩,
        if reuse.eligible value then
          world.write ⟨reuse.key, reuse.kind, reuse.wrap value⟩ reuse.ttlSeconds
        else world)

def CacheValue.evidence? : CacheValue → Option EvidenceSet
  | .evidence value => some value
  | .answer _ => none

def CacheValue.answer? : CacheValue → Option GroundedAnswer
  | .evidence _ => none
  | .answer value => some value

namespace VersionSafeCache

variable (cache : VersionSafeCache) (digest : CachePayload → String)

def retrievalKey (context : QueryContext) (versions : CacheVersions) : String :=
  cacheKey digest .retrieval (retrievalPayload context versions)

def answerKey (question : Question) (principal : Principal) (versions : CacheVersions) : String :=
  cacheKey digest .answer (answerPayload question principal versions)

def retrievalReuse (context : QueryContext) (versions : CacheVersions) : Reuse EvidenceSet where
  kind := .retrieval
  key := retrievalKey digest context versions
  eligible := fun value => eligibleRetrieval value context.principal
  ttlSeconds := cache.retrievalTtlSeconds
  wrap := .evidence
  unwrap := CacheValue.evidence?
  reused := id
  load := .retrieval context versions

def answerReuse (question : Question) (principal : Principal) (versions : CacheVersions) :
    Reuse GroundedAnswer where
  kind := .answer
  key := answerKey digest question principal versions
  eligible := fun value => eligibleAnswer value question principal
  ttlSeconds := cache.answerTtlSeconds
  wrap := .answer
  unwrap := CacheValue.answer?
  reused := fun value => { value with question := question }
  load := .answer question principal versions

def retrieval (context : QueryContext) (versions : CacheVersions) :
    Except E EvidenceSet → BackendReply → CacheWorld →
      Except E (CachedValue EvidenceSet) × CacheWorld :=
  (cache.retrievalReuse digest context versions).run

def answer (question : Question) (principal : Principal) (versions : CacheVersions) :
    Except E GroundedAnswer → BackendReply → CacheWorld →
      Except E (CachedValue GroundedAnswer) × CacheWorld :=
  (cache.answerReuse digest question principal versions).run

end VersionSafeCache

/-! ## Runs -/

/-- A call, with what its `load` does and what the backend does in it. -/
inductive CacheCall (E : Type)
  | retrieval (context : QueryContext) (versions : CacheVersions) (load : Except E EvidenceSet)
      (reply : BackendReply)
  | answer (question : Question) (principal : Principal) (versions : CacheVersions)
      (load : Except E GroundedAnswer) (reply : BackendReply)

/-- What a call returns, or the exception of its `load`. -/
inductive CacheResult (E : Type)
  | retrieval (result : Except E (CachedValue EvidenceSet))
  | answer (result : Except E (CachedValue GroundedAnswer))

namespace CacheCall

def payload : CacheCall E → CachePayload
  | .retrieval context versions _ _ => retrievalPayload context versions
  | .answer question principal versions _ _ => answerPayload question principal versions

def reply : CacheCall E → BackendReply
  | .retrieval _ _ _ reply => reply
  | .answer _ _ _ _ reply => reply

/-- The call without a cache: what its `load` does. -/
def uncached : CacheCall E → CacheResult E
  | .retrieval _ _ load _ => .retrieval (load.map fun value => ⟨value, false⟩)
  | .answer _ _ _ load _ => .answer (load.map fun value => ⟨value, false⟩)

end CacheCall

namespace VersionSafeCache

variable (cache : VersionSafeCache) (digest : CachePayload → String)

def perform (world : CacheWorld) : CacheCall E → CacheResult E × CacheWorld
  | .retrieval context versions load reply =>
    let (result, world) := cache.retrieval digest context versions load reply world
    (.retrieval result, world)
  | .answer question principal versions load reply =>
    let (result, world) := cache.answer digest question principal versions load reply world
    (.answer result, world)

def step (world : CacheWorld) (call : CacheCall E) : CacheWorld := (cache.perform digest world call).2

/-- The results of a sequence of calls. -/
def results (world : CacheWorld) : List (CacheCall E) → List (CacheResult E)
  | [] => []
  | call :: calls =>
    (cache.perform digest world call).1 :: results (cache.step digest world call) calls

end VersionSafeCache

end GroundedOps
