import GroundedOps.Spec.Lifecycle

/-!
# Replay of the authoritative state

`replay_authoritative` of `modules/indexing/replay.py`: a search projection built from the
database and the artifacts alone. The index of the `World` is the candidate.

The digests of the model do not collide, which no 64 digits can promise, so the pattern that
`ArtifactRef` checks its digest against is a parameter, `validDigest`.
-/

namespace GroundedOps.Ingestion

open Hoare

inductive ReplayError
  /-- `ReplayIntegrityError` -/
  | integrity (message : String)
  /-- what the store, the parser or the index writer raises -/
  | raised (raised : Raised)
  deriving DecidableEq, Repr

structure ReplaySummary where
  documents : ℕ
  versions : ℕ
  chunks : ℕ
  chunkIds : List String
  deriving DecidableEq, Repr

abbrev ReplayStep := Act ReplayError World

/-! ## The query -/

/-- A row of the query: a version with a completed job, its document and its source. -/
structure ReplayRow where
  version : DocumentVersion
  document : Document
  source : Source
  deriving DecidableEq

/-- `v.id=d.current_version_id` -/
def ReplayRow.isCurrent (row : ReplayRow) : Bool :=
  row.document.currentVersionId == some row.version.id

/-- `NOT d.deleted AND d.current_version_id IS NOT NULL` -/
def Document.active (document : Document) : Bool :=
  !document.deleted && document.currentVersionId.isSome

/-- The row that a completed job is joined to. -/
def Database.replayRow (db : Database) (row : JobRow) : Option ReplayRow := do
  guard (row.job.state = .completed)
  let version ← db.documentVersions.find (row.job.tenantId, row.versionId)
  let document ← db.documents.find (version.tenantId, version.documentId)
  guard document.active
  let source ← db.sources.find (document.tenantId, document.sourceId)
  return ⟨version, document, source⟩

/-- `ORDER BY v.tenant_id,v.document_id,(v.id=d.current_version_id),v.source_timestamp,
v.source_version` -/
def ReplayRow.le (P : Platform) (a b : ReplayRow) : Bool :=
  if a.version.tenantId ≠ b.version.tenantId then P.collation a.version.tenantId b.version.tenantId
  else if a.version.documentId ≠ b.version.documentId then
    P.collation a.version.documentId b.version.documentId
  else if a.isCurrent ≠ b.isCurrent then b.isCurrent
  else P.revisionLe a.version.revision b.version.revision

def Database.replayRows (P : Platform) (db : Database) : List ReplayRow :=
  (db.ingestionJobs.rows.filterMap db.replayRow).mergeSort (ReplayRow.le P)

/-! ## One version -/

variable (c : Components) (validDigest : String → Bool)

/-- `_reference` -/
def reference (tenant : String) (kind : ArtifactKind) (key : Option String) :
    ReplayStep ArtifactRef :=
  match key with
  | none => throw (.integrity "artifact reference is missing")
  | some key =>
    match key.toList.splitOn '/' with
    | [owner, part, digest] =>
      if owner ≠ tenant.toList ∨ part ≠ kind.value.toList then
        throw (.integrity "artifact reference is invalid")
      else if validIdentifier tenant && validDigest (String.ofList digest) then
        pure ⟨tenant, kind, String.ofList digest⟩
      else throw (.integrity "artifact reference is invalid")
    | _ => throw (.integrity "artifact reference is invalid")

def chunkIdsOf (versionId : String) (chunks : List Chunk) : List String :=
  chunks.map fun chunk => c.platform.keyOf versionId (toString chunk.ordinal)

/-- The chunk of the projection; `version_chunk_ids[chunk.ordinal]` may raise. -/
def replayChunk (chunkIds : List String) (chunk : Chunk) : ReplayStep IndexChunk :=
  match chunkIds[chunk.ordinal]? with
  | none => throw (.raised .exception)
  | some chunkId => pure {
      chunkId, ordinal := chunk.ordinal, text := chunk.text, start := chunk.start,
      «end» := chunk.end, contentHash := c.platform.sha256 chunk.text.toUTF8,
      parserVersion := chunk.parserVersion, chunkerVersion := chunk.chunkerVersion }

def ReplayRow.projection (row : ReplayRow) (chunks : List IndexChunk) : VersionProjection where
  tenantId := row.version.tenantId
  sourceId := row.document.sourceId
  documentId := row.version.documentId
  documentVersionId := row.version.id
  policy := row.source.policy
  sourceTimestamp := row.version.sourceTimestamp
  chunks := chunks

/-- The body of the loop: the ids of the chunks that it has indexed. -/
def replayVersion (faults : Faults) (row : ReplayRow) : ReplayStep (List String) := do
  let tenant := row.version.tenantId
  let rawRef ← reference validDigest tenant .raw row.version.rawRef
  raiseAs .raised (reach faults .getArtifact .artifactFailure)
  let raw ← raiseAs .raised (DocumentStore.get c.platform rawRef)
  let normalizedRef ← reference validDigest tenant .normalized row.version.normalizedRef
  let normalized ← raiseAs .raised (DocumentStore.get c.platform normalizedRef)
  if c.platform.sha256 raw ≠ row.version.contentHash then
    throw (.integrity "raw content does not match metadata")
  let parsed ← raiseAs .raised (orRaise .parserInput (c.parse raw))
  if parsed.normalizedText.toUTF8 ≠ normalized then
    throw (.integrity "normalized content does not match raw artifact")
  let chunks := c.chunk parsed
  if chunks.isEmpty then return []
  let chunkIds := chunkIdsOf c row.version.id chunks
  let indexChunks ← chunks.mapM (replayChunk c chunkIds)
  raiseAs .raised do
    observe (.projected (row.projection indexChunks))
    upsert faults (row.projection indexChunks)
  return chunkIds

/-! ## All versions -/

/-- `replay_authoritative`; `faults` says what goes wrong at each version. -/
def replayAuthoritative (faults : ReplayRow → Faults) : ReplayStep ReplaySummary := do
  let db := (← get).database
  let activeDocuments := db.documents.rows.countP Document.active
  let rows := db.replayRows c.platform
  if rows.countP ReplayRow.isCurrent ≠ activeDocuments then
    throw (.integrity "current version is not restorable")
  let chunkIds ← rows.mapM fun row => replayVersion c validDigest (faults row) row
  return ⟨activeDocuments, rows.length, chunkIds.flatten.length, chunkIds.flatten⟩

end GroundedOps.Ingestion
