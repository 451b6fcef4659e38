import GroundedOps.Spec.Retrieval

/-!
# The reranker

`modules/retrieval/reranker.py`: a bounded part of the evidence of a retrieval is sent to a
provider, and comes back in the order of the provider's scores. The provider answers with anything
at all or raises; its timeout is the one exception that `rerank` catches.
-/

namespace GroundedOps

structure RerankRequest where
  query : String
  candidates : List (String × String)
  model : String
  timeoutMs : ℕ
  deriving DecidableEq, Repr

structure RerankResponse where
  scores : List (String × ℚ)
  latencyMs : ℤ
  deriving DecidableEq, Repr

/-- What the provider does with a request. -/
inductive RerankOutcome
  | response (response : RerankResponse)
  /-- `RerankTimeout` -/
  | timeout (latencyMs : ℤ)
  /-- any other exception -/
  | raises
  deriving DecidableEq, Repr

/-- `RerankProvider.rerank` -/
abbrev RerankProvider := RerankRequest → RerankOutcome

inductive RerankError
  | valueError (message : String)
  | keyError
  /-- what the provider raised -/
  | provider
  deriving DecidableEq, Repr

/-- The constructor's arguments that `rerank` reads; it rejects others. -/
structure Reranker where
  model : String
  candidateLimit : ℕ
  timeoutMs : ℕ
  valid : (model ≠ "" && 0 < candidateLimit && 0 < timeoutMs) = true

namespace Reranker

/-- `len(returned) != len(set(returned)) or set(returned) != set(expected)`, negated -/
def validResponse (expected : List String) (response : RerankResponse) : Bool :=
  let returned := response.scores.map Prod.fst
  returned.Nodup && (returned.all (· ∈ expected) && expected.all (· ∈ returned))

/-- `by_identity[identity]`: of candidates with one identity the last is kept. -/
def byIdentity (candidates : List Evidence) (identity : String) : Option Evidence :=
  candidates.findRev? fun evidence => evidence.chunkId = identity

/-- `previous_rank[identity]` -/
def previousRank (expected : List String) (identity : String) : ℕ :=
  ((expected.zipIdx.findRev? fun item => item.1 = identity).map Prod.snd).getD 0

/-- The sort key `(-score, previous_rank, identity)`. -/
def sortLe (expected : List String) (a b : String × ℚ) : Bool :=
  if a.2 = b.2 then
    if previousRank expected a.1 = previousRank expected b.1 then a.1 ≤ b.1
    else previousRank expected a.1 < previousRank expected b.1
  else b.2 < a.2

/-- `replace(by_identity[identity], score=score)`; `none` is a `KeyError`. -/
def rescored (candidates : List Evidence) (item : String × ℚ) : Option Evidence :=
  (byIdentity candidates item.1).map fun evidence => { evidence with score := item.2 }

variable (reranker : Reranker)

def candidates (previous : EvidenceSet) : List Evidence :=
  previous.evidence.take reranker.candidateLimit

def request (query : String) (previous : EvidenceSet) : RerankRequest where
  query := query
  candidates := (reranker.candidates previous).map fun evidence => (evidence.chunkId, evidence.text)
  model := reranker.model
  timeoutMs := reranker.timeoutMs

/-- What `rerank` makes of a response. -/
def ranking (previous : EvidenceSet) (response : RerankResponse) : Except RerankError EvidenceSet :=
  let candidates := reranker.candidates previous
  let expected := candidates.map Evidence.chunkId
  if validResponse expected response then
    let ranked := response.scores.mergeSort (sortLe expected)
    match ranked.mapM (rescored candidates) with
    | none => .error .keyError
    | some evidence =>
      .ok { evidence := evidence
            strategy := previous.strategy ++ "+reranker-candidate"
            total := evidence.length
            tookMs := previous.tookMs + response.latencyMs }
  else .error (.valueError "invalid reranker response")

/-- What `rerank` returns when the provider does not answer in time. -/
def fallback (previous : EvidenceSet) (latencyMs : ℤ) : EvidenceSet where
  evidence := previous.evidence
  strategy := previous.strategy ++ ":reranker-timeout-fallback"
  total := previous.total
  tookMs := previous.tookMs + latencyMs

def rerank (provider : RerankProvider) (query : String) (previous : EvidenceSet) :
    Except RerankError EvidenceSet :=
  if isBlank query then .error (.valueError "invalid reranker query")
  else
    match provider (reranker.request query previous) with
    | .response response => reranker.ranking previous response
    | .timeout latencyMs => .ok (fallback previous latencyMs)
    | .raises => .error .provider

end Reranker

end GroundedOps
