import GroundedOps.Spec.Policy
import Mathlib.Data.Rat.Defs

/-!
# Retrieval

`modules/retrieval/retriever.py` (BM25), `dense.py` and `hybrid.py`. The search
adapters and the embedder are what the process can reach of OpenSearch and of the
embedding provider: a `SearchAccess` answers a request with any hits at all, or
raises. Scores are rationals, times are microseconds.

Every retriever asks the enforcer about the references of what it found and keeps
only the evidence whose reference the enforcer returned.
-/

namespace GroundedOps

open Hoare

def QueryContext.check (query : String) (limit offset : ℕ) : Bool :=
  !isBlank query && query.length ≤ 1000 && 1 ≤ limit && limit ≤ 100 && offset ≤ 10000

structure QueryContext where
  query : String
  principal : Principal
  limit : ℕ := 10
  offset : ℕ := 0
  sourceIds : List String := []
  documentIds : List String := []
  includeHistorical : Bool := false
  valid : QueryContext.check query limit offset = true

structure Evidence where
  chunkId : String
  tenantId : String
  sourceId : String
  documentId : String
  documentVersionId : String
  ordinal : ℤ
  text : String
  span : ℤ × ℤ
  contentHash : String
  parserVersion : String
  chunkerVersion : String
  sourceTimestamp : ℤ
  isCurrent : Bool
  score : ℚ
  authorizationReason : AuthorizationReason
  deriving DecidableEq, Repr

structure EvidenceSet where
  evidence : List Evidence
  strategy : String
  total : ℕ
  tookMs : ℤ
  degraded : Bool := false
  degradationReason : Option String := none
  valid : degraded = degradationReason.isSome := by rfl
  deriving DecidableEq

/-- What a retriever raises. -/
inductive RetrievalError
  /-- `RetrievalUnavailable`, with its `degradation_reason` -/
  | unavailable (degradationReason : Option String)
  /-- any other exception -/
  | other
  deriving DecidableEq, Repr

/-! ## The search adapters -/

/-- `SearchRequest`; `DenseSearchRequest` has the vector and the corpus version in place
of the query. -/
structure SearchRequest (Q : Type) where
  query : Q
  tenantId : String
  accessPolicy : List String
  limit : ℕ
  offset : ℕ
  sourceIds : List String
  documentIds : List String
  includeHistorical : Bool
  deriving DecidableEq, Repr

/-- `SearchHit` and `DenseSearchHit` have the same fields. -/
structure SearchHit where
  chunkId : String
  tenantId : String
  sourceId : String
  documentId : String
  documentVersionId : String
  policy : List String
  ordinal : ℤ
  text : String
  start : ℤ
  stop : ℤ
  contentHash : String
  parserVersion : String
  chunkerVersion : String
  sourceTimestamp : ℤ
  isCurrent : Bool
  score : ℚ
  deriving DecidableEq, Repr

structure SearchResult where
  hits : List SearchHit
  total : ℕ
  tookMs : ℤ
  deriving DecidableEq, Repr

/-- `DenseSearchRequest.vector` and `.corpus_version`. -/
structure DenseQuery where
  vector : List ℚ
  corpusVersion : String
  deriving DecidableEq, Repr

/-- A search adapter during a call: an answer, or an exception. -/
abbrev SearchAccess (Q : Type) := SearchRequest Q → Option SearchResult

inductive EmbeddingFailure
  /-- `EmbeddingProviderError` -/
  | provider
  /-- any other exception -/
  | other
  deriving DecidableEq, Repr

/-! ## References and evidence of the hits -/

def hitReference (hit : SearchHit) : Option DocumentRef :=
  DocumentRef.make hit.tenantId hit.documentId (some hit.documentVersionId)

def evidenceReference (item : Evidence) : Option DocumentRef :=
  DocumentRef.make item.tenantId item.documentId (some item.documentVersionId)

def hitEvidence (hit : SearchHit) (reason : AuthorizationReason) : Evidence :=
  { chunkId := hit.chunkId
    tenantId := hit.tenantId
    sourceId := hit.sourceId
    documentId := hit.documentId
    documentVersionId := hit.documentVersionId
    ordinal := hit.ordinal
    text := hit.text
    span := (hit.start, hit.stop)
    contentHash := hit.contentHash
    parserVersion := hit.parserVersion
    chunkerVersion := hit.chunkerVersion
    sourceTimestamp := hit.sourceTimestamp
    isCurrent := hit.isCurrent
    score := hit.score
    authorizationReason := reason }

/-- The loop over the hits that keeps the authorized ones. -/
def authorizedEvidence (hits : List SearchHit)
    (authorized : List (DocumentRef × AuthorizedDocument)) : List Evidence :=
  hits.filterMap fun hit =>
    (hitReference hit).bind fun reference =>
      (lookupAuthorized authorized reference).map fun document =>
        hitEvidence hit document.decision.reason

/-- The request a retriever makes for a context and a scope. -/
def searchRequest {Q : Type} (query : Q) (scope : SearchScope) (context : QueryContext) :
    SearchRequest Q :=
  { query := query
    tenantId := scope.tenantId
    accessPolicy := scope.accessPolicy
    limit := context.limit
    offset := context.offset
    sourceIds := context.sourceIds
    documentIds := context.documentIds
    includeHistorical := context.includeHistorical }

variable (access : PolicyAccess) (correlationId : String)

/-- The part BM25 and dense retrieval share: search, authorize the references of the hits. -/
def searchAuthorized {Q : Type} (search : SearchAccess Q) (request : SearchRequest Q)
    (principal : Principal) :
    Act Unit PolicyLog (SearchResult × List (DocumentRef × AuthorizedDocument)) := do
  match search request with
  | none => throw ()
  | some result =>
    match result.hits.mapM hitReference with
    | none => throw ()
    | some references =>
      let authorized ← PolicyEnforcer.authorizeReads access principal references correlationId
      return (result, authorized)

/-! ## The three retrievers -/

/-- `BM25Retriever._retrieve` -/
def BM25Retriever.retrieve (search : SearchAccess String) (context : QueryContext) :
    Act RetrievalError PolicyLog EvidenceSet := do
  match PolicyEnforcer.searchScope context.principal with
  | none => return { evidence := [], strategy := "bm25", total := 0, tookMs := 0 }
  | some scope =>
    let (result, authorized) ← raiseAs (fun _ => .unavailable none) <|
      searchAuthorized access correlationId search (searchRequest context.query scope context)
        context.principal
    let evidence := authorizedEvidence result.hits authorized
    return { evidence := evidence, strategy := "bm25", total := evidence.length, tookMs := result.tookMs }

/-- `DenseRetriever.retrieve` -/
def DenseRetriever.retrieve (search : SearchAccess DenseQuery)
    (embedQuery : String → Except EmbeddingFailure (List ℚ)) (corpusVersion : String)
    (context : QueryContext) :
    Act RetrievalError PolicyLog EvidenceSet := do
  match PolicyEnforcer.searchScope context.principal with
  | none => return { evidence := [], strategy := "dense-candidate", total := 0, tookMs := 0 }
  | some scope =>
    match embedQuery context.query with
    | .error .provider => throw (.unavailable (some "embedding_provider_unavailable"))
    | .error .other => throw (.unavailable none)
    | .ok vector =>
      let (result, authorized) ← raiseAs (fun _ => .unavailable none) <|
        searchAuthorized access correlationId search
          (searchRequest ⟨vector, corpusVersion⟩ scope context) context.principal
      let evidence := authorizedEvidence result.hits authorized
      return { evidence := evidence, strategy := "dense-candidate", total := evidence.length,
               tookMs := result.tookMs }

namespace HybridRetriever

/-- One entry of the `scores` and `evidence_by_identity` dictionaries, which have the same
keys in the same order. -/
structure Entry where
  score : ℚ
  evidence : Evidence
  deriving DecidableEq, Repr

def identity (item : Evidence) : String × String := (item.chunkId, item.documentVersionId)

/-- Add a leg's share for one item: `scores[identity] += share`, and `setdefault`. -/
def addShare (share : ℚ) (item : Evidence) : List Entry → List Entry
  | [] => [⟨share, item⟩]
  | entry :: entries =>
    if identity entry.evidence = identity item then
      { entry with score := entry.score + share } :: entries
    else entry :: addShare share item entries

/-- The loop over one leg, from rank `rank` on. -/
def addLeg (rrfK : ℕ) : ℕ → List Evidence → List Entry → List Entry
  | _, [], entries => entries
  | rank, item :: items, entries =>
    addLeg rrfK (rank + 1) items (addShare (1 / ((rrfK + rank : ℕ) : ℚ)) item entries)

/-- The sort key `(-score, chunk_id, document_version_id)`. -/
def sortLe (a b : Evidence) : Bool :=
  if a.score = b.score then
    if a.chunkId = b.chunkId then a.documentVersionId ≤ b.documentVersionId
    else a.chunkId ≤ b.chunkId
  else b.score < a.score

/-- The loop that keeps the authorized entries, with their fused score. -/
def authorizedEntries (entries : List Entry) (decisions : List (DocumentRef × AuthorizedDocument)) :
    List Evidence :=
  entries.filterMap fun entry =>
    (evidenceReference entry.evidence).bind fun reference =>
      (lookupAuthorized decisions reference).map fun document =>
        { entry.evidence with
          score := entry.score, authorizationReason := document.decision.reason }

/-- A leg: any retriever at all. -/
abbrev Leg := QueryContext → Act RetrievalError PolicyLog EvidenceSet

/-- `_retrieve`: the evidence of a leg, or the degradation reason of its failure. -/
def retrieveLeg (leg : Leg) (context : QueryContext) :
    Act RetrievalError PolicyLog (Option EvidenceSet × Option String) :=
  tryCatch ((fun result => (some result, none)) <$> leg context) fun error =>
    match error with
    | .unavailable degradationReason => pure (none, degradationReason)
    | .other => throw .other

def legEvidence : Option EvidenceSet → List Evidence
  | some result => result.evidence
  | none => []

def strategy : Option EvidenceSet → Option EvidenceSet → String
  | none, _ => "hybrid-rrf-candidate:lexical-missing"
  | some _, none => "hybrid-rrf-candidate:dense-missing"
  | some _, some _ => "hybrid-rrf-candidate"

def legTookMs : Option EvidenceSet → ℤ
  | some result => result.tookMs
  | none => 0

/-- `dense_failure if dense is None and dense_failure == "embedding_provider_unavailable"` -/
def degradationReason (dense : Option EvidenceSet) (denseFailure : Option String) : Option String :=
  if dense.isNone then denseFailure.filter (· = "embedding_provider_unavailable") else none

/-- What `retrieve` does with the answers of its legs. -/
def fuse (rrfK : ℕ) (lexical dense : Option EvidenceSet) (denseFailure : Option String)
    (context : QueryContext) : Act RetrievalError PolicyLog EvidenceSet := do
  if lexical.isNone && dense.isNone then throw (.unavailable none)
  let entries := addLeg rrfK 1 (legEvidence dense) (addLeg rrfK 1 (legEvidence lexical) [])
  match (entries.map Entry.evidence).mapM evidenceReference with
  | none => throw (.unavailable none)
  | some references =>
    let decisions ← raiseAs (fun _ => .unavailable none) <|
      PolicyEnforcer.authorizeReads access context.principal references correlationId
    let authorized := (authorizedEntries entries decisions).mergeSort sortLe
    let limited := authorized.take context.limit
    return { evidence := limited
             strategy := strategy lexical dense
             total := limited.length
             tookMs := legTookMs lexical + legTookMs dense
             degraded := (degradationReason dense denseFailure).isSome
             degradationReason := degradationReason dense denseFailure }

def retrieve (rrfK : ℕ) (lexical dense : Leg) (context : QueryContext) :
    Act RetrievalError PolicyLog EvidenceSet := do
  let (lexicalResult, _) ← retrieveLeg lexical context
  let (denseResult, denseFailure) ← retrieveLeg dense context
  fuse access correlationId rrfK lexicalResult denseResult denseFailure context

end HybridRetriever

end GroundedOps
