import GroundedOps.Lib.Process
import GroundedOps.Spec.IndexWriter

/-!
# The index writer, a request at a time

`OpenSearchIndexWriter.upsert` and `remove_document` of `adapters/opensearch/index_writer.py` as
routines over the requests they send, and any number of such calls side by side.

* `IndexRequest.Serves`: how the cluster may answer. Any item of a bulk request may be rejected,
  and any request may raise with any part of it done.
* `Corpus`: the chunk ids of each version, no id in two of them.
* `indexCalls`: calls that start, are served and stop in any order, but no two upserts of a
  document at once.
-/

namespace GroundedOps.Ingestion

open Process

inductive WriterError
  | policyViolation (message : String)
  | bulkProjection (failedChunkIds : List String)
  /-- An exception of the client. -/
  | raised (message : String)
  deriving DecidableEq, Repr

/-- What a call asks of the policy enforcer and of the cluster. -/
inductive IndexRequest
  | validateProjections (projection : VersionProjection)
  | validateRemoval (tenantId documentId : String)
  | bulk (entries : List IndexEntry)
  | deleteByQuery (query : IndexEntry → Bool)
  | updateByQuery (query : IndexEntry → Bool) (isCurrent : Bool)

/-- The items of a bulk request: an id and whether it is in error. -/
abbrev IndexRequest.Answer : IndexRequest → Type
  | bulk _ => List (String × Bool)
  | _ => Unit

abbrev Writing := Routine WriterError IndexRequest IndexRequest.Answer

def send (request : IndexRequest) : Writing request.Answer := Routine.request request

/-- How the enforcer and the cluster may answer. -/
def IndexRequest.Serves : (request : IndexRequest) → Index → Except WriterError request.Answer →
    Index → Prop
  | .validateProjections _, s, _, t => t = s
  | .validateRemoval _ _, s, _, t => t = s
  | .bulk entries, s, answer, t =>
    ∃ items : List (IndexEntry × Bool), items.map Prod.fst = entries ∧
      t = ((items.filter fun item => !item.2).map Prod.fst).foldl Table.put s ∧
      (answer = .ok (items.map fun item => (item.1.chunkId, item.2)) ∨
        ∃ error, answer = .error error)
  | .deleteByQuery query, s, answer, t =>
    ∃ reached : IndexEntry → Bool, t = s.filter (fun entry => !(query entry && reached entry)) ∧
      ((reached = fun _ => true) ∨ ∃ error, answer = .error error)
  | .updateByQuery query isCurrent, s, answer, t =>
    ∃ reached : IndexEntry → Bool, t = s.flag (fun entry => query entry && reached entry) isCurrent ∧
      ((reached = fun _ => true) ∨ ∃ error, answer = .error error)

namespace OpenSearchIndexWriter

/-- The query of the first update: the other versions of the document. -/
def isOther (projection : VersionProjection) (entry : IndexEntry) : Bool :=
  Index.ofDocument projection entry && entry.documentVersionId != projection.documentVersionId

/-- The query of the second update: the version itself. -/
def isOwn (projection : VersionProjection) (entry : IndexEntry) : Bool :=
  Index.ofDocument projection entry && entry.documentVersionId == projection.documentVersionId

def upsert (projection : VersionProjection) : Writing Unit := do
  let () ← send (.validateProjections projection)
  let items : List (String × Bool) ← send (.bulk (projection.chunks.map projection.entry))
  let failed := (items.filter fun item => item.2).map Prod.fst
  let successful := (items.filter fun item => !item.2).map Prod.fst
  if failed ≠ [] then
    if successful ≠ [] then
      let () ← send (.deleteByQuery fun entry => entry.chunkId ∈ successful)
    throw (.bulkProjection failed)
  let () ← send (.updateByQuery (isOther projection) false)
  let () ← send (.updateByQuery (isOwn projection) true)

def removeDocument (tenantId documentId : String) : Writing Unit := do
  let () ← send (.validateRemoval tenantId documentId)
  let () ← send (.deleteByQuery fun entry =>
    entry.tenantId == tenantId && entry.documentId == documentId)

end OpenSearchIndexWriter

/-! ## Calls side by side -/

inductive IndexCall
  | upsert (projection : VersionProjection)
  | removeDocument (tenantId documentId : String)
  deriving DecidableEq, Repr

def IndexCall.body : IndexCall → Writing Unit
  | .upsert projection => OpenSearchIndexWriter.upsert projection
  | .removeDocument tenantId documentId => OpenSearchIndexWriter.removeDocument tenantId documentId

abbrev IndexAnswered (request : IndexRequest) := Except WriterError request.Answer

abbrev IndexCalls := Pool Index IndexCall IndexRequest IndexAnswered (Except WriterError Unit)

/-- The chunk ids of every version of every document. -/
structure Corpus where
  chunkIds : (tenantId documentId versionId : String) → List String
  unique : ∀ {t d v t' d' v' id}, id ∈ chunkIds t d v → id ∈ chunkIds t' d' v' →
    t = t' ∧ d = d' ∧ v = v'

/-- A projection carries the chunks of its version, each once. -/
structure Corpus.Carries (corpus : Corpus) (projection : VersionProjection) : Prop where
  nodup : (projection.chunks.map IndexChunk.chunkId).Nodup
  chunkIds : ∀ id, id ∈ projection.chunks.map IndexChunk.chunkId ↔
    id ∈ corpus.chunkIds projection.tenantId projection.documentId projection.documentVersionId

/-- An upsert may start when no other of its document is running. -/
def MayStart (corpus : Corpus) (calls : IndexCalls) : IndexCall → Prop
  | .upsert projection => corpus.Carries projection ∧
      ∀ i other rest, System.Runs calls i (.upsert other) rest →
        ¬(other.tenantId = projection.tenantId ∧ other.documentId = projection.documentId)
  | .removeDocument _ _ => True

def indexCalls (corpus : Corpus) :
    System Index IndexCall IndexRequest IndexAnswered (Except WriterError Unit) where
  body call := call.body.run
  serve := IndexRequest.Serves
  may := MayStart corpus

/-! ## What holds of the index -/

/-- No document has current chunks of two versions. -/
def AtMostOneCurrent (index : Index) : Prop :=
  ∀ entry ∈ index, ∀ entry' ∈ index, entry.isCurrent = true → entry'.isCurrent = true →
    entry.tenantId = entry'.tenantId → entry.documentId = entry'.documentId →
    entry.documentVersionId = entry'.documentVersionId

/-- The current chunks of the document are those of the projection. -/
def CurrentIs (projection : VersionProjection) (index : Index) : Prop :=
  ∀ entry, entry ∈ index ∧ Index.ofDocument projection entry = true ∧ entry.isCurrent = true ↔
    ∃ chunk ∈ projection.chunks, entry = { projection.entry chunk with isCurrent := true }

/-- The entries of one document are as they were. -/
def SameDocument (tenantId documentId : String) (index index' : Index) : Prop :=
  ∀ entry : IndexEntry, entry.tenantId = tenantId → entry.documentId = documentId →
    (entry ∈ index' ↔ entry ∈ index)

end GroundedOps.Ingestion
