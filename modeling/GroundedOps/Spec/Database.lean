import GroundedOps.Lib.Table
import GroundedOps.Spec.Ingestion
import GroundedOps.Spec.Policy

/-!
# The ingestion tables

The tables of the migrations `0001_ingestion`, `0002_pipeline_checkpoint` and
`0006_worker_delivery`, and each SQL statement of
`adapters/postgres/ingestion_repository.py` as a function on them. Every reference to a
row of another table is one that the statement before it has just made or read, so foreign
keys are never violated and are not modelled. `none` is an error of the database, or the
`ValueError` that the repository raises when no row was updated.
-/

namespace GroundedOps.Ingestion

/-- A row of `ingestion_jobs`. -/
structure JobRow where
  job : IngestionJob
  versionId : String
  deliveryAttempts : ℕ := 0
  createdAt : ℤ
  dispatchedAt : Option ℤ := none
  deriving DecidableEq, Repr

def Source.pk (source : Source) : String × String := (source.tenantId, source.id)

def Document.pk (document : Document) : String × String := (document.tenantId, document.id)

def Document.unique (document : Document) : String × String × String :=
  (document.tenantId, document.sourceId, document.canonicalKey)

def DocumentVersion.pk (version : DocumentVersion) : String × String :=
  (version.tenantId, version.id)

def DocumentVersion.unique (version : DocumentVersion) : String × String × String :=
  (version.tenantId, version.documentId, version.sourceVersion)

def JobRow.pk (row : JobRow) : String × String := (row.job.tenantId, row.job.id)

def JobRow.unique (row : JobRow) : String × String := (row.job.tenantId, row.job.idempotencyKey)

abbrev Sources := Table Source.pk Source.pk
abbrev Documents := Table Document.pk Document.unique
abbrev DocumentVersions := Table DocumentVersion.pk DocumentVersion.unique
abbrev IngestionJobs := Table JobRow.pk JobRow.unique

structure Database where
  sources : Sources := ∅
  documents : Documents := ∅
  documentVersions : DocumentVersions := ∅
  ingestionJobs : IngestionJobs := ∅

/-! ## Sources -/

/-- `UPDATE SET policy=EXCLUDED.policy` -/
def Source.withPolicy (row excluded : Source) : Source :=
  { row with policy := excluded.policy, policy_valid := excluded.policy_valid }

/-- `INSERT INTO sources ... ON CONFLICT (tenant_id,id) DO UPDATE` -/
def Sources.upsert (sources : Sources) (source : Source) : Sources :=
  match sources.find source.pk with
  | none => sources.put source
  | some _ =>
    sources.modify (fun row => if row.pk = source.pk then row.withPolicy source else row)
      (fun row => by split <;> rfl) (fun row => by split <;> rfl)

/-! ## Versions -/

/-- The new value of a reference column: `COALESCE(old,new)` if it is not in conflict. -/
def coalesceRef (old : Option String) (new : String) : Option String := some (old.getD new)

def refAgrees (old : Option String) (new : String) : Bool := old.all (· == new)

def DocumentVersion.withArtifacts (version : DocumentVersion) (rawRef normalizedRef : String) :
    DocumentVersion :=
  { version with
    rawRef := coalesceRef version.rawRef rawRef
    normalizedRef := coalesceRef version.normalizedRef normalizedRef }

/-- `update_artifacts` -/
def DocumentVersions.updateArtifacts (versions : DocumentVersions) (tenantId versionId : String)
    (rawRef normalizedRef : String) : Option DocumentVersions :=
  match versions.find (tenantId, versionId) with
  | none => none
  | some version =>
    if refAgrees version.rawRef rawRef && refAgrees version.normalizedRef normalizedRef then
      some (versions.modify
        (fun row => if row.pk = (tenantId, versionId) then row.withArtifacts rawRef normalizedRef
          else row)
        (fun row => by split <;> rfl) (fun row => by split <;> rfl))
    else none

/-! ## Documents -/

/-- The `WHERE` clause of `promote`. -/
def Document.promotable (P : Platform) (versions : DocumentVersions) (document : Document)
    (version : DocumentVersion) : Bool :=
  !document.deleted &&
    match document.currentVersionId with
    | none => true
    | some currentVersionId =>
      match versions.find (version.tenantId, currentVersionId) with
      | none => false
      | some current => P.revisionLe current.revision version.revision

def Documents.setCurrent (P : Platform) (documents : Documents) (versions : DocumentVersions)
    (version : DocumentVersion) : Documents :=
  documents.modify
    (fun row =>
      if row.pk = (version.tenantId, version.documentId) ∧ row.promotable P versions version then
        { row with currentVersionId := some version.id }
      else row)
    (fun row => by split <;> rfl) (fun row => by split <;> rfl)

/-- `promote` -/
def Database.promote (P : Platform) (db : Database) (tenantId versionId : String) :
    Option Database :=
  match db.documentVersions.find (tenantId, versionId) with
  | none => none
  | some version =>
    some { db with documents := db.documents.setCurrent P db.documentVersions version }

/-- `delete` -/
def Database.delete (db : Database) (tenantId documentId : String) : Database :=
  let documents := db.documents.modify
    (fun row =>
      if row.pk = (tenantId, documentId) then { row with currentVersionId := none, deleted := true }
      else row)
    (fun row => by split <;> rfl) (fun row => by split <;> rfl)
  { db with documents }

/-! ## Jobs -/

/-- The columns that `save_job` sets. -/
def IngestionJob.withColumns (job saved : IngestionJob) : IngestionJob :=
  { job with
    state := saved.state
    attempts := saved.attempts
    errorClass := saved.errorClass
    resumeFrom := saved.resumeFrom }

/-- An update of one job's columns other than its keys. -/
def IngestionJobs.update (jobs : IngestionJobs) (tenantId jobId : String) (f : JobRow → JobRow)
    (hp : ∀ row, (f row).pk = row.pk) (hu : ∀ row, (f row).unique = row.unique) : IngestionJobs :=
  jobs.modify (fun row => if row.pk = (tenantId, jobId) then f row else row)
    (fun row => by split; exacts [hp row, rfl]) (fun row => by split; exacts [hu row, rfl])

def IngestionJobs.setJob (jobs : IngestionJobs) (job : IngestionJob) : IngestionJobs :=
  jobs.update job.tenantId job.id (fun row => { row with job := row.job.withColumns job })
    (fun _ => rfl) (fun _ => rfl)

/-- `save_job` -/
def IngestionJobs.saveJob (jobs : IngestionJobs) (job : IngestionJob) : Option IngestionJobs :=
  match jobs.find (job.tenantId, job.id) with
  | none => none
  | some _ => some (jobs.setJob job)

/-- The `SET` of `claim_delivery` -/
def JobRow.counted (row : JobRow) : JobRow :=
  { row with deliveryAttempts := row.deliveryAttempts + 1 }

def IngestionJobs.countDelivery (jobs : IngestionJobs) (tenantId jobId : String) : IngestionJobs :=
  jobs.update tenantId jobId JobRow.counted (fun _ => rfl) (fun _ => rfl)

/-- `claim_delivery`: `none` if the job is unknown or terminal, else the deliveries so far,
this one included. -/
def IngestionJobs.claimDelivery (jobs : IngestionJobs) (tenantId jobId : String) :
    Option (ℕ × IngestionJobs) :=
  match jobs.find (tenantId, jobId) with
  | none => none
  | some row =>
    if row.job.state.terminal then none
    else some (row.deliveryAttempts + 1, jobs.countDelivery tenantId jobId)

def JobRow.failLost (row : JobRow) : JobRow :=
  if row.job.state.terminal then row
  else
    { row with job := { row.job with
        state := .failed, errorClass := some .workerLost, resumeFrom := none } }

/-- `fail_lost_delivery` -/
def IngestionJobs.failLostDelivery (jobs : IngestionJobs) (tenantId jobId : String) :
    IngestionJobs :=
  jobs.update tenantId jobId JobRow.failLost
    (fun row => by unfold JobRow.failLost; split <;> rfl)
    (fun row => by unfold JobRow.failLost; split <;> rfl)

/-- The `CASE` of `record_worker_error` on `resume_from`. -/
def IngestionJob.errorCheckpoint (job : IngestionJob) : Option Checkpoint :=
  match job.state with
  | .queued => some .fetching
  | .retrying => some (job.resumeFrom.getD .fetching)
  | state => state.checkpoint

def JobRow.workerError (row : JobRow) (maxAttempts : ℕ) : JobRow :=
  if row.job.state.terminal then row
  else
    { row with job := { row.job with
        state := if maxAttempts ≤ row.job.attempts + 1 ∨ maxAttempts ≤ row.deliveryAttempts
          then .failed else .retrying
        attempts := row.job.attempts + 1
        errorClass := some .workerInternal
        resumeFrom := row.job.errorCheckpoint } }

/-- `record_worker_error` -/
def IngestionJobs.recordWorkerError (jobs : IngestionJobs) (tenantId jobId : String)
    (maxAttempts : ℕ) : IngestionJobs :=
  jobs.update tenantId jobId (fun row => row.workerError maxAttempts)
    (fun row => by unfold JobRow.workerError; split <;> rfl)
    (fun row => by unfold JobRow.workerError; split <;> rfl)

/-- `mark_dispatched` -/
def IngestionJobs.markDispatched (jobs : IngestionJobs) (tenantId jobId : String) (now : ℤ) :
    IngestionJobs :=
  jobs.update tenantId jobId
    (fun row => if row.job.state.terminal then row else { row with dispatchedAt := some now })
    (fun row => by split <;> rfl) (fun row => by split <;> rfl)

/-- Not dispatched yet, or more than a minute ago; `now` is in microseconds. -/
def JobRow.due (row : JobRow) (now : ℤ) : Bool :=
  !row.job.state.terminal && row.dispatchedAt.all fun dispatched => dispatched < now - 60000000

/-- `dispatched_at NULLS FIRST,created_at` -/
def JobRow.recoveryLe (a b : JobRow) : Bool :=
  match a.dispatchedAt, b.dispatchedAt with
  | none, none => a.createdAt ≤ b.createdAt
  | none, some _ => true
  | some _, none => false
  | some x, some y => x < y || (x == y && a.createdAt ≤ b.createdAt)

/-- `claim_recovery_batch` -/
def IngestionJobs.claimRecoveryBatch (jobs : IngestionJobs) (limit : ℕ) (now : ℤ) :
    List (String × String) × IngestionJobs :=
  let due := ((jobs.rows.filter (·.due now)).mergeSort JobRow.recoveryLe).take limit
  let keys := due.map JobRow.pk
  (keys, jobs.modify
    (fun row => if row.pk ∈ keys then { row with dispatchedAt := some now } else row)
    (fun row => by split <;> rfl) (fun row => by split <;> rfl))

/-! ## Reads -/

structure DeliveryRecord where
  source : Source
  canonicalKey : String
  sourceVersion : String
  sourceTimestamp : ℤ
  contentHash : String
  deriving DecidableEq

/-- `get_delivery` -/
def Database.getDelivery (db : Database) (tenantId jobId : String) : Option DeliveryRecord := do
  let row ← db.ingestionJobs.find (tenantId, jobId)
  let version ← db.documentVersions.find (tenantId, row.versionId)
  let document ← db.documents.find (tenantId, version.documentId)
  let source ← db.sources.find (tenantId, document.sourceId)
  return { source
           canonicalKey := document.canonicalKey
           sourceVersion := version.sourceVersion
           sourceTimestamp := version.sourceTimestamp
           contentHash := version.contentHash }

def Database.getJob (db : Database) (tenantId jobId : String) : Option IngestionJob :=
  (db.ingestionJobs.find (tenantId, jobId)).map JobRow.job

/-- The `current_version_id` of the document of a version. -/
def Database.currentVersionOf (db : Database) (tenantId versionId : String) : Option String := do
  let version ← db.documentVersions.find (tenantId, versionId)
  let document ← db.documents.find (tenantId, version.documentId)
  document.currentVersionId

/-- `get_document_policies`, for one reference; `none` also where the constructor raises. -/
def Database.getDocumentPolicy (db : Database) (reference : DocumentRef) :
    Option DocumentPolicy := do
  let document ← db.documents.find (reference.tenantId, reference.documentId)
  let source ← db.sources.find (reference.tenantId, document.sourceId)
  let known := reference.documentVersionId.all fun versionId =>
    db.documentVersions.rows.any fun version =>
      version.pk = (reference.tenantId, versionId) && version.documentId == reference.documentId
  if known then
    DocumentPolicy.make reference.tenantId document.sourceId reference.documentId
      reference.documentVersionId source.policy document.deleted
  else none

end GroundedOps.Ingestion
