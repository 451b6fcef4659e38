import GroundedOps.Spec.Lifecycle
import GroundedOps.Spec.Retrieval

/-!
# Where policies are read

`get_document_policies` of `adapters/postgres/ingestion_repository.py`, for all references of a
call at once, and of `adapters/policy/snapshot.py`; and `IngestionPipeline.run`, whose branch for
an event of kind `deleted` is what deletes a document.

The runtime gives each call a connection of its own, and every statement sees the rows that are
committed when it starts: the two `SELECT`s of one call may see two databases.
-/

namespace GroundedOps.Ingestion

open Hoare

namespace IngestionRepository

/-- The rows of the `SELECT` from `documents`, each with its source. -/
def selectDocuments (db : Database) (tenantId : String) (documentIds : List String) :
    List (Document × Source) :=
  (db.documents.rows.filter fun document =>
      document.tenantId == tenantId && documentIds.contains document.id).filterMap fun document =>
    (db.sources.find (document.tenantId, document.sourceId)).map fun source => (document, source)

/-- The pairs of the `SELECT` from `document_versions`. -/
def selectVersions (db : Database) (tenantId : String) (versionIds : List String) :
    List (String × String) :=
  (db.documentVersions.rows.filter fun version =>
    version.tenantId == tenantId && versionIds.contains version.id).map fun version =>
      (version.documentId, version.id)

/-- The loop over the references: `none` is the `ValueError` of the constructor. -/
def resolvePolicies (tenantId : String) (documents : List (Document × Source))
    (versions : List (String × String)) :
    List DocumentRef → Option (List (DocumentRef × DocumentPolicy))
  | [] => some []
  | reference :: references =>
    match documents.reverse.find? fun row => row.1.id == reference.documentId with
    | none => resolvePolicies tenantId documents versions references
    | some (document, source) =>
      if reference.documentVersionId.all fun versionId =>
          versions.contains (reference.documentId, versionId) then do
        let policy ← DocumentPolicy.make tenantId document.sourceId reference.documentId
          reference.documentVersionId source.policy document.deleted
        let resolved ← resolvePolicies tenantId documents versions references
        return (reference, policy) :: resolved
      else resolvePolicies tenantId documents versions references

/-- `get_document_policies`, whose statements see `first` and `second`. -/
def getDocumentPolicies (first second : Database) (tenantId : String)
    (references : List DocumentRef) : Option (List (DocumentRef × DocumentPolicy)) :=
  let inScope := Dict.firsts id (references.filter fun reference => reference.tenantId == tenantId)
  if inScope.isEmpty then some []
  else
    let documentIds := Dict.firsts id (inScope.map DocumentRef.documentId)
    let documents := selectDocuments first tenantId documentIds
    let versionIds := Dict.firsts id (inScope.filterMap DocumentRef.documentVersionId)
    let versions := if versionIds.isEmpty then [] else selectVersions second tenantId versionIds
    resolvePolicies tenantId documents versions inScope

end IngestionRepository

/-- The stores of the runtime: its n-th call sees the databases `reads n`. -/
def runtimeStores (reads : ℕ → Database × Database) (append : ℕ → AuthorizationAudit → Bool) :
    PolicyAccess where
  getDocumentPolicies n tenantId references :=
    (IngestionRepository.getDocumentPolicies (reads n).1 (reads n).2 tenantId references).map
      fun resolved reference => resolved.lookup reference
  append := append

/-! ## The offline store -/

namespace SnapshotPolicyStore

/-- The dictionary of the constructor: a later policy of the same reference replaces an earlier
one, in its place. `none` is the `ValueError` of `DocumentRef`. -/
def policies (items : List DocumentPolicy) : Option (DocumentRef → Option DocumentPolicy) :=
  (items.mapM fun item =>
    (DocumentRef.make item.tenantId item.documentId item.documentVersionId).map (·, item)).map
      fun entries reference => entries.reverse.lookup reference

def getDocumentPolicies (policies : DocumentRef → Option DocumentPolicy) (tenantId : String)
    (references : List DocumentRef) : List (DocumentRef × DocumentPolicy) :=
  (references.filter fun reference => reference.tenantId == tenantId).filterMap fun reference =>
    (policies reference).map fun policy => (reference, policy)

end SnapshotPolicyStore

/-! ## Deletion -/

/-- What `IngestionPipeline.run` returns. -/
inductive RunOutcome
  | deleted (documentId : Option String)
  | ingested (outcome : PipelineOutcome)
  deriving DecidableEq, Repr

/-- `run` -/
def IngestionPipeline.run (c : Components) (faults : Faults) (maxAttempts : ℕ)
    (event : SourceEvent) : Step RunOutcome := do
  if event.kind = .deleted then
    let document := (← readDatabase).documents.lookup
      (event.source.tenantId, event.source.id, event.canonicalKey)
    match document with
    | none => return .deleted none
    | some document =>
      IngestionRepository.delete event.source.tenantId document.id
      return .deleted (some document.id)
  let content ← content event
  let submission ← IngestionRepository.submit c.platform faults event.source event.canonicalKey
    event.sourceVersion (c.platform.sha256 content) event.sourceTimestamp parserVersion
  return .ingested (← continueJob c faults maxAttempts event submission submission.job)

end GroundedOps.Ingestion
