import GroundedOps.Spec.IndexWriter
import GroundedOps.Spec.Retrieval

/-!
# Lexical search

`OpenSearchBM25Adapter` of `adapters/opensearch/search.py` on the index that the writer fills.
The request is read as what it does to the list of chunks: the filters, the `match` query with
the scores it gives, the sort and the slice. How a chunk is scored is a parameter; `none` is a
chunk that the query does not match.
-/

namespace GroundedOps

open Ingestion (Index IndexEntry)

namespace OpenSearchBM25Adapter

/-- `{"terms": {field: values}}`, which is left out if there are no values. -/
def termsFilter (values : List String) (field : String) : Bool := values.isEmpty || field ∈ values

/-- The `filter` clauses. -/
def filters (request : SearchRequest String) (entry : IndexEntry) : Bool :=
  entry.tenantId == request.tenantId &&
    (entry.policy.any fun value => value ∈ request.accessPolicy) &&
    (request.includeHistorical || entry.isCurrent) &&
    termsFilter request.sourceIds entry.sourceId &&
    termsFilter request.documentIds entry.documentId

/-- `_hit` -/
def hit (entry : IndexEntry) (score : ℚ) : SearchHit where
  chunkId := entry.chunkId
  tenantId := entry.tenantId
  sourceId := entry.sourceId
  documentId := entry.documentId
  documentVersionId := entry.documentVersionId
  policy := entry.policy
  ordinal := entry.chunk.ordinal
  text := entry.chunk.text
  start := entry.chunk.start
  stop := entry.chunk.end
  contentHash := entry.chunk.contentHash
  parserVersion := entry.chunk.parserVersion
  chunkerVersion := entry.chunk.chunkerVersion
  sourceTimestamp := entry.sourceTimestamp
  isCurrent := entry.isCurrent
  score := score

/-- `"sort": [{"_score": "desc"}, {"chunk_id": "asc"}]` -/
def rankLe (a b : SearchHit) : Bool :=
  if a.score = b.score then a.chunkId ≤ b.chunkId else b.score < a.score

variable (score : String → IndexEntry → Option ℚ)

/-- The chunks that the query matches, best first. -/
def ranked (query : String) (entries : List IndexEntry) : List SearchHit :=
  (entries.filterMap fun entry => (score query entry).map (hit entry)).mergeSort rankLe

/-- `search` -/
def search (index : Index) (tookMs : ℤ) : SearchAccess String := fun request =>
  let hits := ranked score request.query (index.rows.filter (filters request))
  some {
    hits := (hits.drop request.offset).take request.limit
    total := hits.length
    tookMs := tookMs }

end OpenSearchBM25Adapter

end GroundedOps
