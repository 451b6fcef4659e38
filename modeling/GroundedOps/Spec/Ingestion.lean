import GroundedOps.Spec.Text

/-!
# Sources, documents, versions and ingestion jobs

`domain/ingestion.py`: the identities that ingestion stores, and the guarded lifecycle of
a job. Identifiers drawn by `uuid4` and SHA-256 digests are not checked again by the
constructors here: 32 and 64 hexadecimal digits always pass. Times are instants.

What the platform supplies is a `Platform`: SHA-256, `uuid4`, and the collation by which
PostgreSQL compares text.
-/

namespace GroundedOps.Ingestion

/-- Contents are compared byte by byte. -/
instance contentDecidableEq : DecidableEq ByteArray := ByteArray.decEq

/-! ## The platform -/

structure Platform where
  /-- `sha256(content).hexdigest()` -/
  sha256 : ByteArray → String
  /-- the n-th `uuid4().hex` drawn -/
  uuid4 : ℕ → String
  /-- `<=` on text columns -/
  collation : String → String → Bool
  collation_total : ∀ a b, collation a b ∨ collation b a
  collation_trans : ∀ a b c, collation a b → collation b c → collation a c
  collation_antisymm : ∀ a b, collation a b → collation b a → a = b

/-- No two digests and no two identifiers collide, and an identifier is hexadecimal. -/
structure Platform.CollisionFree (P : Platform) : Prop where
  sha256 : Function.Injective P.sha256
  uuid4 : Function.Injective P.uuid4
  uuid4_hex : ∀ n, ':' ∉ (P.uuid4 n).toList

/-- `sha256(f"{owner}:{part}".encode()).hexdigest()` -/
def Platform.keyOf (P : Platform) (owner part : String) : String :=
  P.sha256 (owner ++ ":" ++ part).toUTF8

/-- The row comparison `(a.timestamp, a.revision) <= (b.timestamp, b.revision)` -/
def Platform.revisionLe (P : Platform) (a b : ℤ × String) : Bool :=
  a.1 < b.1 || (a.1 == b.1 && P.collation a.2 b.2)

/-! ## Identities -/

def validPolicy (policy : List String) : Bool :=
  policy ≠ [] && policy.length ≤ 100 && policy.all validIdentifier

/-- The bound on external references and canonical keys. -/
def validText (value : String) : Bool := value ≠ "" && value.length ≤ 2048

structure Source where
  id : String
  tenantId : String
  type : String
  externalRef : String
  policy : List String
  cursor : Option String := none
  identifiers_valid : (validIdentifier id && validIdentifier tenantId && validIdentifier type) = true
  policy_valid : validPolicy policy = true
  externalRef_valid : validText externalRef = true
  deriving DecidableEq

structure Document where
  id : String
  tenantId : String
  sourceId : String
  canonicalKey : String
  currentVersionId : Option String := none
  deleted : Bool := false
  canonicalKey_valid : validText canonicalKey = true
  deriving DecidableEq

/-- The constructor, for a new document of a source; `none` is its `ValueError`. -/
def Source.document (source : Source) (id canonicalKey : String) : Option Document :=
  if h : validText canonicalKey = true then
    some { id, tenantId := source.tenantId, sourceId := source.id, canonicalKey
           canonicalKey_valid := h }
  else none

structure DocumentVersion where
  id : String
  tenantId : String
  documentId : String
  sourceVersion : String
  contentHash : String
  sourceTimestamp : ℤ
  parserVersion : String
  rawRef : Option String := none
  normalizedRef : Option String := none
  identifiers_valid : (validIdentifier sourceVersion && validIdentifier parserVersion) = true
  deriving DecidableEq

/-- The constructor, for a new version of a document; `none` is its `ValueError`. -/
def Document.version (document : Document) (id sourceVersion contentHash : String)
    (sourceTimestamp : ℤ) (parserVersion : String) : Option DocumentVersion :=
  if h : (validIdentifier sourceVersion && validIdentifier parserVersion) = true then
    some { id, tenantId := document.tenantId, documentId := document.id, sourceVersion, contentHash
           sourceTimestamp, parserVersion, identifiers_valid := h }
  else none

/-- What `promote` compares. -/
def DocumentVersion.revision (version : DocumentVersion) : ℤ × String :=
  (version.sourceTimestamp, version.sourceVersion)

/-! ## Jobs -/

inductive JobState
  | queued | fetching | parsing | indexing | completed | retrying | failed
  deriving DecidableEq, Repr

def JobState.terminal (state : JobState) : Bool := state == .completed || state == .failed

/-- The states that `resume_from` may name. -/
inductive Checkpoint
  | fetching | parsing | indexing
  deriving DecidableEq, Repr

def Checkpoint.state : Checkpoint → JobState
  | .fetching => .fetching
  | .parsing => .parsing
  | .indexing => .indexing

def JobState.checkpoint : JobState → Option Checkpoint
  | .fetching => some .fetching
  | .parsing => some .parsing
  | .indexing => some .indexing
  | _ => none

inductive ErrorClass
  | artifact | parserInput | indexPreparation | workerInternal | workerLost
  deriving DecidableEq, Repr

structure IngestionJob where
  id : String
  tenantId : String
  idempotencyKey : String
  state : JobState := .queued
  attempts : ℕ := 0
  errorClass : Option ErrorClass := none
  resumeFrom : Option Checkpoint := none
  deriving DecidableEq, Repr

/-- `permitted` -/
def JobState.permitted : JobState → List JobState
  | .queued => [.fetching]
  | .fetching => [.parsing, .retrying]
  | .parsing => [.indexing, .retrying]
  | .indexing => [.completed, .retrying]
  | .retrying => [.fetching, .parsing, .indexing, .failed]
  | .completed => []
  | .failed => []

/-- `none` is `InvalidTransition`. -/
def IngestionJob.transition (job : IngestionJob) (target : JobState) : Option IngestionJob :=
  if target ∈ job.state.permitted then
    some { job with
      state := target
      resumeFrom := if job.state = .retrying then none else job.resumeFrom }
  else none

/-! ## Events of a source -/

inductive SourceEventKind
  | new | changed | unchanged | deleted | malformed
  deriving DecidableEq, Repr

/-- `SourceEvent`, less the licence fields that ingestion does not read. -/
structure SourceEvent where
  kind : SourceEventKind
  source : Source
  canonicalKey : String
  sourceVersion : String
  sourceTimestamp : ℤ
  content : Option ByteArray

/-! ## Failures -/

/-- What an operation raises. -/
inductive Raised
  | artifactFailure
  | parserInput
  | indexPreparation
  | pipelineInput
  /-- `ValueError`, `InvalidTransition` included -/
  | value
  | policyViolation
  | bulkProjection
  /-- any other `Exception`, a database error included -/
  | exception
  /-- the worker dies: no handler runs -/
  | crash
  deriving DecidableEq, Repr

/-- The error class of what `_continue` catches. -/
def Raised.classified : Raised → Option ErrorClass
  | .artifactFailure => some .artifact
  | .parserInput => some .parserInput
  | .indexPreparation => some .indexPreparation
  | _ => none

/-- The operations of a worker that can fail, each at most once in a delivery. -/
inductive Operation
  | claim | claimCommit
  | getDelivery | getArtifact | getJob | submit | saveResumed
  | putRaw | saveParsing
  | parse | putNormalized | updateArtifacts | saveIndexing
  | chunk | getProjection | ensureSchema | validateProjection
  | bulk | compensate | clearOthers | setCurrent
  | promote | saveCompleted | saveFailed | commit
  | recordError | errorCommit
  | publish | markDispatched
  deriving DecidableEq, Repr

/-- How an operation fails: as its interface documents, with any other exception, or by the
death of the worker. -/
inductive Fault
  | failure | exception | crash
  deriving DecidableEq, Repr

/-- What goes wrong in one submission or delivery. -/
structure Faults where
  /-- the advisory lock of the job is taken -/
  busy : Bool := false
  fault : Operation → Option Fault := fun _ => none
  /-- whether a request that fails took effect all the same -/
  applied : Operation → Bool := fun _ => false
  /-- the items that the bulk request reports in error -/
  rejected : String → Bool := fun _ => false

def Fault.raised (failure : Raised) : Fault → Raised
  | .failure => failure
  | .exception => .exception
  | .crash => .crash

end GroundedOps.Ingestion
