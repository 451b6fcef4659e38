import GroundedOps.Spec.World

/-!
# The ingestion pipeline

`IngestionRepository` on the database of a `World`, `OpenSearchPreparationSink.prepare` of
`grounded_ops/worker.py` with the index writer behind it, and `IngestionPipeline.resume` of
`modules/ingestion/pipeline.py`. The parser and the chunker are the pipeline's constructor
arguments. The audit recorder of a worker is ephemeral; of its events the log keeps the
promotions.
-/

namespace GroundedOps.Ingestion

open Hoare

/-! ## Parsed documents and chunks -/

structure ParsedSection where
  title : Option String
  level : ℕ
  text : String
  start : ℕ
  «end» : ℕ
  deriving DecidableEq, Repr

structure ParsedDocument where
  parserVersion : String
  normalizedText : String
  sections : List ParsedSection
  deriving DecidableEq, Repr

structure ProvenanceSpan where
  start : ℕ
  «end» : ℕ
  title : Option String
  level : ℕ
  deriving DecidableEq, Repr

structure Chunk where
  ordinal : ℕ
  text : String
  start : ℕ
  «end» : ℕ
  spans : List ProvenanceSpan
  parserVersion : String
  chunkerVersion : String
  deriving DecidableEq, Repr

structure PreparedChunk where
  id : String
  tenantId : String
  sourceId : String
  documentId : String
  documentVersionId : String
  ordinal : ℕ
  text : String
  start : ℕ
  «end» : ℕ
  contentHash : String
  spans : List ProvenanceSpan
  parserVersion : String
  chunkerVersion : String
  deriving DecidableEq, Repr

/-- What a worker's pipeline is built from. -/
structure Components where
  platform : Platform
  /-- `MarkdownParser.parse`; `none` is `ParserInputError` -/
  parse : ByteArray → Option ParsedDocument
  /-- `StructuralChunker(max_tokens).chunk` -/
  chunk : ParsedDocument → List Chunk

/-- The ids under which the chunks of a version are indexed. -/
def Components.chunkIds (c : Components) (versionId : String) (content : ByteArray) : List String :=
  match c.parse content with
  | none => []
  | some parsed => (c.chunk parsed).map fun chunk => c.platform.keyOf versionId (toString chunk.ordinal)

/-- `MarkdownParser.VERSION` -/
def parserVersion : String := "markdown-1"

structure Submission where
  document : Document
  version : DocumentVersion
  job : IngestionJob

/-! ## The repository -/

namespace IngestionRepository

def insertDocument (document : Document) : Step Unit := do
  let db ← readDatabase
  let documents ← orRaise .exception (db.documents.insertNew document)
  writeDatabase { db with documents }

def insertVersion (version : DocumentVersion) : Step Unit := do
  let db ← readDatabase
  let documentVersions ← orRaise .exception (db.documentVersions.insertNew version)
  writeDatabase { db with documentVersions }

def insertJob (row : JobRow) : Step Unit := do
  let db ← readDatabase
  let ingestionJobs ← orRaise .exception (db.ingestionJobs.insertNew row)
  writeDatabase { db with ingestionJobs }

def submit (P : Platform) (faults : Faults) (source : Source)
    (canonicalKey sourceVersion contentHash : String) (sourceTimestamp : ℤ)
    (parserVersion : String) : Step Submission := do
  reach faults .submit
  let document ← orRaise .value (source.document (← uuid4 P) canonicalKey)
  let candidate ← orRaise .value
    (document.version (← uuid4 P) sourceVersion contentHash sourceTimestamp parserVersion)
  let db ← readDatabase
  writeDatabase { db with sources := db.sources.upsert source }
  insertDocument document
  let document ← orRaise .exception
    ((← readDatabase).documents.lookup (source.tenantId, source.id, canonicalKey))
  insertVersion { candidate with documentId := document.id }
  let version ← orRaise .exception
    ((← readDatabase).documentVersions.lookup (source.tenantId, document.id, sourceVersion))
  if version.contentHash ≠ contentHash then throw .value
  let key := P.keyOf document.id sourceVersion
  insertJob {
    job := { id := ← uuid4 P, tenantId := source.tenantId, idempotencyKey := key }
    versionId := version.id
    createdAt := (← get).now }
  let row ← orRaise .exception ((← readDatabase).ingestionJobs.lookup (source.tenantId, key))
  return ⟨document, version, row.job⟩

def saveJob (faults : Faults) (operation : Operation) (job : IngestionJob) :
    Step IngestionJob := do
  reach faults operation
  let db ← readDatabase
  let ingestionJobs ← orRaise .value (db.ingestionJobs.saveJob job)
  writeDatabase { db with ingestionJobs }
  return job

def updateArtifacts (faults : Faults) (tenantId versionId rawRef normalizedRef : String) :
    Step Unit := do
  reach faults .updateArtifacts
  let db ← readDatabase
  let documentVersions ← orRaise .value
    (db.documentVersions.updateArtifacts tenantId versionId rawRef normalizedRef)
  writeDatabase { db with documentVersions }

def promote (P : Platform) (faults : Faults) (tenantId versionId : String) : Step Unit := do
  reach faults .promote
  let db ← readDatabase
  writeDatabase (← orRaise .value (db.promote P tenantId versionId))

end IngestionRepository

/-! ## The index sink -/

/-- `PolicyEnforcer.validate_projections`, of one projection. -/
def validateProjection (faults : Faults) (projection : VersionProjection) : Step Unit := do
  reach faults .validateProjection
  let reference ← orRaise .value
    (DocumentRef.make projection.tenantId projection.documentId projection.documentVersionId)
  match (← readDatabase).getDocumentPolicy reference with
  | none => throw .policyViolation
  | some policy =>
    if policy.deleted ∨ policy.sourceId ≠ projection.sourceId ∨
        ¬ (policy.policy ⊆ projection.policy ∧ projection.policy ⊆ policy.policy) then
      throw .policyViolation

def onIndex (f : Index → Index) (w : World) : World := { w with index := f w.index }

/-- `OpenSearchIndexWriter.upsert` -/
def upsert (faults : Faults) (projection : VersionProjection) : Step Unit := do
  validateProjection faults projection
  request faults .bulk .exception (onIndex (·.bulk projection faults.rejected))
  let failed := (projection.chunks.map IndexChunk.chunkId).filter faults.rejected
  let successful := (projection.chunks.map IndexChunk.chunkId).filter (!faults.rejected ·)
  if failed ≠ [] then
    if successful ≠ [] then
      request faults .compensate .exception (onIndex (·.deleteIds successful))
    throw .bulkProjection
  request faults .clearOthers .exception (onIndex (·.clearOthers projection))
  request faults .setCurrent .exception (onIndex (·.setCurrent projection))

def PreparedChunk.indexChunk (chunk : PreparedChunk) : IndexChunk where
  chunkId := chunk.id
  ordinal := chunk.ordinal
  text := chunk.text
  start := chunk.start
  «end» := chunk.end
  contentHash := chunk.contentHash
  parserVersion := chunk.parserVersion
  chunkerVersion := chunk.chunkerVersion

namespace OpenSearchPreparationSink

def projection (source : Source) (version : DocumentVersion) (first : PreparedChunk)
    (chunks : List PreparedChunk) : VersionProjection where
  tenantId := first.tenantId
  sourceId := first.sourceId
  documentId := first.documentId
  documentVersionId := first.documentVersionId
  policy := source.policy
  sourceTimestamp := version.sourceTimestamp
  chunks := chunks.map PreparedChunk.indexChunk

/-- An exception of the index becomes an `IndexPreparationError`; death does not. -/
def unavailable (raised : Raised) : Raised :=
  if raised = .crash then .crash else .indexPreparation

def prepare (faults : Faults) (chunks : List PreparedChunk) : Step Unit := do
  match chunks with
  | [] => return
  | first :: _ =>
    reach faults .getProjection
    let db ← readDatabase
    match db.sources.find (first.tenantId, first.sourceId),
        db.documentVersions.find (first.tenantId, first.documentVersionId) with
    | some source, some version =>
      raiseAs unavailable do
        reach faults .ensureSchema
        observe (.projected (projection source version first chunks))
        upsert faults (projection source version first chunks)
    | _, _ => throw .indexPreparation

end OpenSearchPreparationSink

/-! ## The pipeline -/

structure DeadLetter where
  jobId : String
  retryKey : String
  errorClass : Option ErrorClass
  attempts : ℕ
  deriving DecidableEq, Repr

structure PipelineOutcome where
  kind : JobState
  job : IngestionJob
  versionId : String
  documentId : String
  preparedChunks : List PreparedChunk
  dlq : Option DeadLetter
  deriving DecidableEq, Repr

namespace IngestionPipeline

variable (c : Components) (faults : Faults)

/-- `_outcome`; `none` is the error class `"unknown"` of the dead letter. -/
def outcome (submission : Submission) (job : IngestionJob) (prepared : List PreparedChunk) :
    PipelineOutcome where
  kind := job.state
  job := job
  versionId := submission.version.id
  documentId := submission.document.id
  preparedChunks := prepared
  dlq := if job.state = .failed then
      some ⟨job.id, job.idempotencyKey, job.errorClass, job.attempts⟩
    else none

/-- `_content` -/
def content (event : SourceEvent) : Step ByteArray :=
  match event.kind, event.content with
  | .malformed, _ => throw .pipelineInput
  | _, none => throw .pipelineInput
  | _, some content => pure content

def preparedChunk (event : SourceEvent) (submission : Submission) (chunk : Chunk) :
    PreparedChunk where
  id := c.platform.keyOf submission.version.id (toString chunk.ordinal)
  tenantId := event.source.tenantId
  sourceId := event.source.id
  documentId := submission.document.id
  documentVersionId := submission.version.id
  ordinal := chunk.ordinal
  text := chunk.text
  start := chunk.start
  «end» := chunk.end
  contentHash := c.platform.sha256 chunk.text.toUTF8
  spans := chunk.spans
  parserVersion := chunk.parserVersion
  chunkerVersion := chunk.chunkerVersion

/-- `_prepare` -/
def prepare (event : SourceEvent) (submission : Submission) (chunks : List Chunk) :
    List PreparedChunk :=
  chunks.map (preparedChunk c event submission)

/-- `save_job(job.transition(target))` -/
def advance (operation : Operation) (job : IngestionJob) (target : JobState) :
    Step IngestionJob := do
  IngestionRepository.saveJob faults operation (← orRaise .value (job.transition target))

/-- The first branch of `_continue`: leave `queued` or `retrying`. -/
def leaveWaiting (job : IngestionJob) : Step IngestionJob := do
  match job.state with
  | .queued => advance faults .saveResumed job .fetching
  | .retrying =>
    let checkpoint ← orRaise .pipelineInput job.resumeFrom
    let resumed ← orRaise .value (job.transition checkpoint.state)
    IngestionRepository.saveJob faults .saveResumed { resumed with errorClass := none }
  | _ => return job

/-- `FETCHING`: keep the raw artifact. -/
def fetch (event : SourceEvent) (content : ByteArray) (job : IngestionJob) :
    Step (ArtifactRef × IngestionJob) := do
  let raw ← DocumentStore.put c.platform faults .putRaw event.source.tenantId .raw content
  let job ← advance faults .saveParsing job .parsing
  return (raw, job)

/-- `PARSING`: keep the normalized artifact; `raw` is what `FETCHING` put, if it ran. -/
def normalize (event : SourceEvent) (submission : Submission) (content : ByteArray)
    (raw : Option ArtifactRef) (job : IngestionJob) : Step IngestionJob := do
  reach faults .parse .parserInput
  let parsed ← orRaise .parserInput (c.parse content)
  let raw ← match raw with
    | some raw => pure raw
    | none => DocumentStore.put c.platform faults .putRaw event.source.tenantId .raw content
  let normalized ← DocumentStore.put c.platform faults .putNormalized event.source.tenantId
    .normalized parsed.normalizedText.toUTF8
  IngestionRepository.updateArtifacts faults event.source.tenantId submission.version.id raw.key
    normalized.key
  advance faults .saveIndexing job .indexing

/-- `INDEXING`: project the chunks and promote the version. -/
def index (event : SourceEvent) (submission : Submission) (content : ByteArray)
    (job : IngestionJob) : Step (IngestionJob × List PreparedChunk) := do
  reach faults .chunk .parserInput
  let parsed ← orRaise .parserInput (c.parse content)
  let prepared := prepare c event submission (c.chunk parsed)
  observe (.prepared job.tenantId job.id)
  OpenSearchPreparationSink.prepare faults prepared
  IngestionRepository.promote c.platform faults event.source.tenantId submission.version.id
  let promoted ← readDatabase
  observe (.promoted event.source.tenantId submission.version.id
    (promoted.currentVersionOf event.source.tenantId submission.version.id))
  let job ← advance faults .saveCompleted job .completed
  return (job, prepared)

/-- The `try` block of `_continue` after its first stage. What it raises comes with the job as
it then is: a stage assigns it last. -/
def laterStages (event : SourceEvent) (submission : Submission) (content : ByteArray)
    (raw : Option ArtifactRef) (job : IngestionJob) :
    Act (IngestionJob × Raised) World (IngestionJob × List PreparedChunk) := do
  let job ←
    if job.state = .parsing then
      raiseAs (Prod.mk job) (normalize c faults event submission content raw job)
    else pure job
  if job.state = .indexing then
    raiseAs (Prod.mk job) (index c faults event submission content job)
  else return (job, [])

/-- The `try` block of `_continue`. -/
def stages (event : SourceEvent) (submission : Submission) (content : ByteArray)
    (job : IngestionJob) :
    Act (IngestionJob × Raised) World (IngestionJob × List PreparedChunk) := do
  if job.state = .fetching then
    let (raw, job) ← raiseAs (Prod.mk job) (fetch c faults event content job)
    laterStages c faults event submission content raw job
  else laterStages c faults event submission content none job

/-- `_failed_attempt` -/
def failedAttempt (maxAttempts : ℕ) (submission : Submission) (job : IngestionJob)
    (errorClass : ErrorClass) : Step PipelineOutcome := do
  let retrying ← orRaise .value (job.transition .retrying)
  let resumeFrom ← orRaise .value job.state.checkpoint
  let job := { retrying with
    attempts := job.attempts + 1
    errorClass := some errorClass
    resumeFrom := some resumeFrom }
  let job ←
    if maxAttempts ≤ job.attempts then orRaise .value (job.transition .failed) else pure job
  let job ← IngestionRepository.saveJob faults .saveFailed job
  return outcome submission job []

/-- `_continue` -/
def continueJob (maxAttempts : ℕ) (event : SourceEvent) (submission : Submission)
    (job : IngestionJob) : Step PipelineOutcome := do
  if job.state.terminal then return outcome submission job []
  let job ← leaveWaiting faults job
  let content ← content event
  handle
    (do let (job, prepared) ← stages c faults event submission content job
        return outcome submission job prepared)
    fun (job, raised) =>
      match raised.classified with
      | some errorClass => failedAttempt faults maxAttempts submission job errorClass
      | none => throw raised

/-- `resume` -/
def resume (maxAttempts : ℕ) (tenantId jobId : String) (event : SourceEvent) :
    Step PipelineOutcome := do
  reach faults .getJob
  let job ← orRaise .pipelineInput ((← readDatabase).getJob tenantId jobId)
  if event.source.tenantId ≠ tenantId then throw .pipelineInput
  let content ← content event
  let submission ← IngestionRepository.submit c.platform faults event.source event.canonicalKey
    event.sourceVersion (c.platform.sha256 content) event.sourceTimestamp parserVersion
  if submission.job.id ≠ jobId then throw .pipelineInput
  continueJob c faults maxAttempts event submission job

end IngestionPipeline

end GroundedOps.Ingestion
