import GroundedOps.Lib.Table
import GroundedOps.Spec.Ingestion

/-!
# The lexical index

The chunks of `adapters/opensearch/index_writer.py` as the index holds them, and each
request of `OpenSearchIndexWriter` as a function on the index. A request names chunks by
the write alias, which has one index behind it.
-/

namespace GroundedOps.Ingestion

structure IndexChunk where
  chunkId : String
  ordinal : ℕ
  text : String
  start : ℕ
  «end» : ℕ
  contentHash : String
  parserVersion : String
  chunkerVersion : String
  deriving DecidableEq, Repr

structure VersionProjection where
  tenantId : String
  sourceId : String
  documentId : String
  documentVersionId : String
  policy : List String
  sourceTimestamp : ℤ
  chunks : List IndexChunk
  deriving DecidableEq, Repr

/-- A document of the index. -/
structure IndexEntry where
  tenantId : String
  sourceId : String
  documentId : String
  documentVersionId : String
  policy : List String
  chunk : IndexChunk
  sourceTimestamp : ℤ
  isCurrent : Bool
  deriving DecidableEq, Repr

/-- The `_id` -/
def IndexEntry.chunkId (entry : IndexEntry) : String := entry.chunk.chunkId

abbrev Index := Table IndexEntry.chunkId IndexEntry.chunkId

/-- What the bulk request indexes for one chunk. -/
def VersionProjection.entry (projection : VersionProjection) (chunk : IndexChunk) : IndexEntry where
  tenantId := projection.tenantId
  sourceId := projection.sourceId
  documentId := projection.documentId
  documentVersionId := projection.documentVersionId
  policy := projection.policy
  chunk := chunk
  sourceTimestamp := projection.sourceTimestamp
  isCurrent := false

namespace Index

/-- The items that are not in error. -/
def accepted (projection : VersionProjection) (rejected : String → Bool) : List IndexEntry :=
  (projection.chunks.filter fun chunk => !rejected chunk.chunkId).map projection.entry

/-- `client.bulk` -/
def bulk (index : Index) (projection : VersionProjection) (rejected : String → Bool) : Index :=
  (accepted projection rejected).foldl Table.put index

/-- `client.delete_by_query` on ids. -/
def deleteIds (index : Index) (ids : List String) : Index :=
  index.filter fun entry => entry.chunkId ∉ ids

/-- The `common_filters`. -/
def ofDocument (projection : VersionProjection) (entry : IndexEntry) : Bool :=
  entry.tenantId == projection.tenantId && entry.documentId == projection.documentId

/-- `client.update_by_query`: set `is_current` on the matching entries. -/
def flag (index : Index) (query : IndexEntry → Bool) (isCurrent : Bool) : Index :=
  index.modify (fun entry => if query entry then { entry with isCurrent } else entry)
    (fun entry => by split <;> rfl) (fun entry => by split <;> rfl)

/-- The first update of `upsert`: the other versions of the document. -/
def clearOthers (index : Index) (projection : VersionProjection) : Index :=
  index.flag (fun entry => ofDocument projection entry &&
    entry.documentVersionId != projection.documentVersionId) false

/-- The second update of `upsert`: the version itself. -/
def setCurrent (index : Index) (projection : VersionProjection) : Index :=
  index.flag (fun entry => ofDocument projection entry &&
    entry.documentVersionId == projection.documentVersionId) true

end Index

end GroundedOps.Ingestion
