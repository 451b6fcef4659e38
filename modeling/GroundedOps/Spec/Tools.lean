import GroundedOps.Spec.Auth
import GroundedOps.Spec.Ingestion
import GroundedOps.Spec.Investigation

/-!
# The tools of an investigation

`InvestigationTools` of `modules/investigation/tools.py`. Its backends are a `ToolBackends`: the
retriever, the version store and the incident search return any value of their types or raise
any exception. `ThreadTimeoutRunner` runs each operation in a thread of its own; a `Deadline`
says whether it ends in time.
-/

namespace GroundedOps.Investigation

open Hoare
open Ingestion (DocumentVersion)

/-- What the code of a tool raises. -/
inductive ToolException
  /-- `InvestigationToolError` -/
  | toolError (code : ToolErrorCode)
  /-- `TimeoutError`, of which `ToolTimeout` is one -/
  | timeout
  /-- the `ValueError` of a constructor -/
  | value
  /-- any other `Exception` -/
  | other
  deriving DecidableEq, Repr

abbrev ToolStep := Act ToolException PolicyLog

/-- What becomes of an operation in its thread. -/
inductive Deadline
  | met
  /-- the tool goes on without it, and finds the log as the thread has left it so far -/
  | missed (log : PolicyLog)
  /-- no thread could be started -/
  | noThread

structure ToolBackends where
  retrieve : QueryContext → ToolStep EvidenceSet
  getVersion : String → String → ToolStep (Option DocumentVersion)
  search : String → String → ℕ → ToolStep (List IncidentRecord)
  access : PolicyAccess
  correlationId : String
  maxResults : ℕ
  deadline : Deadline
  /-- `datetime.isoformat` -/
  isoformat : ℤ → String

/-- A constructor that may raise. -/
def orValueError {α : Type} : Option α → ToolStep α
  | some a => pure a
  | none => throw .value

namespace InvestigationTools

variable (backends : ToolBackends)

/-- `ThreadTimeoutRunner.run` -/
def runInThread {α : Type} (operation : ToolStep α) : ToolStep α :=
  match backends.deadline with
  | .met => operation
  | .missed log => do
    set log
    throw .timeout
  | .noThread => throw .other

/-- `_run` -/
def run {α : Type} (operation : ToolStep α) : ToolStep α :=
  tryCatch (runInThread backends operation) fun raised =>
    if raised = .timeout then throw (.toolError .timeout) else throw raised

/-- The `try` block of each tool. -/
def guarded {α : Type} (operation : ToolStep α) : ToolStep α :=
  tryCatch (run backends operation) fun raised =>
    match raised with
    | .toolError code => throw (.toolError code)
    | _ => throw (.toolError .backendUnavailable)

/-- `_require_principal` -/
def requirePrincipal (principal : Principal) : ToolStep Unit := do
  if !principal.known then throw (.toolError .unknownPrincipal)

/-- `_require_limit` -/
def requireLimit (limit : ℕ) : ToolStep Unit := do
  if backends.maxResults < limit then throw (.toolError .invalidInput)

/-- `self._enforcer.authorize_reads` -/
def authorizeReads (principal : Principal) (references : List DocumentRef) :
    ToolStep (List (DocumentRef × AuthorizedDocument)) :=
  raiseAs (fun _ => .other)
    (PolicyEnforcer.authorizeReads backends.access principal references backends.correlationId)

/-! ## Retrieval -/

/-- The query context of a request: its checks are among those of the request. -/
def queryContext (principal : Principal) (request : RetrieveRequest) : QueryContext where
  query := request.query
  principal := principal
  limit := request.limit
  includeHistorical := request.includeHistorical
  valid := by
    have hvalid := request.valid
    unfold boundedQuery at hvalid
    unfold QueryContext.check
    rw [hvalid]
    rfl

/-- `_bounded_evidence` -/
def boundedEvidence (result : EvidenceSet) (limit : ℕ) : EvidenceSet :=
  let evidence := result.evidence.take limit
  { evidence := evidence
    strategy := result.strategy
    total := min result.total evidence.length
    tookMs := result.tookMs
    degraded := result.degraded
    degradationReason := result.degradationReason
    valid := result.valid }

def retrieve (principal : Principal) (request : RetrieveRequest) : ToolStep EvidenceSet := do
  requirePrincipal principal
  requireLimit backends request.limit
  let result ← guarded backends (backends.retrieve (queryContext principal request))
  return boundedEvidence result request.limit

/-! ## Version comparison -/

/-- `_require_authorized` -/
def requireAuthorized (principal : Principal) (references : List DocumentRef) : ToolStep Unit := do
  let authorized ← tryCatch (authorizeReads backends principal references) fun _ =>
    throw (.toolError .backendUnavailable)
  if authorized.length ≠ references.length then throw (.toolError .policyDenied)

/-- `_authorized_versions` -/
def authorizedVersions (principal : Principal) (references : List DocumentRef)
    (request : CompareVersionsRequest) :
    ToolStep (Option DocumentVersion × Option DocumentVersion) := do
  requireAuthorized backends principal references
  let left ← backends.getVersion principal.tenantId request.leftVersionId
  let right ← backends.getVersion principal.tenantId request.rightVersionId
  return (left, right)

/-- `_matches_version` -/
def matchesVersion (version : Option DocumentVersion) (request : CompareVersionsRequest)
    (expectedVersionId : String) : Bool :=
  version.any fun version =>
    version.documentId == request.documentId && version.id == expectedVersionId

/-- `_compare` -/
def compare (left right : DocumentVersion) : VersionComparison :=
  let fields : List VersionChange := [
    ⟨"source_version", left.sourceVersion, right.sourceVersion⟩,
    ⟨"content_hash", left.contentHash, right.contentHash⟩,
    ⟨"source_timestamp", backends.isoformat left.sourceTimestamp,
      backends.isoformat right.sourceTimestamp⟩,
    ⟨"parser_version", left.parserVersion, right.parserVersion⟩]
  { documentId := left.documentId
    leftVersionId := left.id
    rightVersionId := right.id
    sameContent := left.contentHash == right.contentHash
    changes := fields.filter fun change => change.before != change.after }

/-- The two references are built before the `try` block. -/
def compareVersions (principal : Principal) (request : CompareVersionsRequest) :
    ToolStep VersionComparison := do
  requirePrincipal principal
  let left ← orValueError
    (DocumentRef.make principal.tenantId request.documentId (some request.leftVersionId))
  let right ← orValueError
    (DocumentRef.make principal.tenantId request.documentId (some request.rightVersionId))
  let versions ← guarded backends (authorizedVersions backends principal [left, right] request)
  if !matchesVersion versions.1 request request.leftVersionId ||
      !matchesVersion versions.2 request request.rightVersionId then
    throw (.toolError .backendUnavailable)
  match versions with
  | (some left, some right) => return compare backends left right
  | _ => throw (.toolError .backendUnavailable)

/-! ## Incident search -/

def recordReference (record : IncidentRecord) : Option DocumentRef :=
  DocumentRef.make record.tenantId record.documentId (some record.documentVersionId)

/-- `_authorized_incidents` -/
def authorizedIncidents (principal : Principal) (request : IncidentSearchRequest) :
    ToolStep (List IncidentRecord × List (DocumentRef × AuthorizedDocument)) := do
  let records ← backends.search principal.tenantId request.query request.limit
  let bounded := records.take request.limit
  let references ← orValueError (bounded.mapM recordReference)
  let authorized ← authorizeReads backends principal references
  return (bounded, authorized)

/-- The tuple of the records whose reference is authorized. -/
def authorizedRecords (authorized : List (DocumentRef × AuthorizedDocument)) :
    List IncidentRecord → ToolStep (List IncidentRecord)
  | [] => pure []
  | record :: records => do
    let reference ← orValueError (recordReference record)
    let rest ← authorizedRecords authorized records
    return if (lookupAuthorized authorized reference).isSome then record :: rest else rest

def searchIncidents (principal : Principal) (request : IncidentSearchRequest) :
    ToolStep (List IncidentRecord) := do
  requirePrincipal principal
  requireLimit backends request.limit
  let (records, authorized) ← guarded backends (authorizedIncidents backends principal request)
  authorizedRecords authorized records

end InvestigationTools

end GroundedOps.Investigation
