import GroundedOps.Lib.Dict
import Mathlib.Tactic

/-!
# The retrieval benchmark

`evals/retrieval/baseline.py`. A candidate answers the question of a golden query with any source
identifiers at all, or raises. Metrics are rationals: `1 / math.log2(rank + 1)` is a parameter, any
`RankDiscount`, and the digest of the configuration another.
-/

namespace GroundedOps.Benchmark

structure BenchmarkConfig where
  strategy : String
  k : ℕ
  indexSchema : String
  deriving DecidableEq, Repr

structure GoldenQuery where
  id : String
  question : String
  relevantSourceIds : List String
  deriving DecidableEq, Repr

structure CandidateResult where
  sourceIds : List String
  latencyMs : ℚ
  deriving DecidableEq, Repr

/-- `RetrievalCandidate.search`; `none` is an exception. -/
abbrev RetrievalCandidate := String → ℕ → Option CandidateResult

structure QueryReport where
  queryId : String
  retrievedSourceIds : List String
  recallAtK : ℚ
  reciprocalRank : ℚ
  ndcgAtK : ℚ
  latencyMs : Option ℚ
  error : Option String
  deriving DecidableEq, Repr

structure BenchmarkReport where
  configHash : String
  datasetHash : String
  recallAtK : ℚ
  mrr : ℚ
  ndcgAtK : ℚ
  latencyP50Ms : ℚ
  latencyP95Ms : ℚ
  /-- the keys of `errors`, whose values are all `"retrieval_error"` -/
  errors : List String
  queries : List QueryReport
  deriving DecidableEq, Repr

/-- What a relevant source at a rank is worth. -/
structure RankDiscount where
  value : ℕ → ℚ
  pos : ∀ rank, 0 < value rank
  decreasing : StrictAnti value

/-- The triple that `_metrics` returns. -/
structure Metrics where
  recallAtK : ℚ
  reciprocalRank : ℚ
  ndcgAtK : ℚ
  deriving DecidableEq, Repr

/-- `_metrics` -/
def metrics (discount : RankDiscount) (retrieved relevant : List String) (k : ℕ) : Metrics :=
  let relevantSet := relevant.dedup
  if relevantSet = [] then ⟨0, 0, 0⟩
  else
    let ranked := retrieved.take k
    let found := relevantSet.filter (· ∈ ranked)
    let recallAtK : ℚ := found.length / relevantSet.length
    let reciprocalRank : ℚ :=
      match (ranked.zipIdx 1).find? fun item => item.1 ∈ relevantSet with
      | some item => 1 / item.2
      | none => 0
    let dcg := (((ranked.zipIdx 1).filter fun item => item.1 ∈ relevantSet).map
      fun item => discount.value item.2).sum
    let ideal := ((List.range' 1 (min k relevantSet.length)).map discount.value).sum
    ⟨recallAtK, reciprocalRank, dcg / ideal⟩

/-- `_percentile`: linear interpolation between the neighbours in the sorted list. -/
def percentile (values : List ℚ) (quantile : ℚ) : ℚ :=
  if values = [] then 0
  else
    let ordered := values.mergeSort fun a b => a ≤ b
    let position : ℚ := (ordered.length - 1 : ℕ) * quantile
    let lower := ⌊position⌋.toNat
    let upper := ⌈position⌉.toNat
    if lower = upper then ordered.getD lower 0
    else
      ordered.getD lower 0 + (ordered.getD upper 0 - ordered.getD lower 0) * (position - lower)

/-- The report of one query. -/
def queryReport (discount : RankDiscount) (candidate : RetrievalCandidate) (k : ℕ)
    (query : GoldenQuery) : QueryReport :=
  match candidate query.question k with
  | some result =>
    let retrieved := result.sourceIds.take k
    let ⟨recallAtK, reciprocalRank, ndcgAtK⟩ := metrics discount retrieved query.relevantSourceIds k
    ⟨query.id, retrieved, recallAtK, reciprocalRank, ndcgAtK, some result.latencyMs, none⟩
  | none => ⟨query.id, [], 0, 0, 0, none, some "retrieval_error"⟩

/-- `run_benchmark`; an error is the message of its `ValueError`. -/
def runBenchmark (discount : RankDiscount) (configHash : BenchmarkConfig → String)
    (queries : List GoldenQuery) (candidate : RetrievalCandidate) (config : BenchmarkConfig)
    (datasetHash : String) : Except String BenchmarkReport :=
  if queries = [] then .error "benchmark requires queries"
  else if config.k = 0 then .error "benchmark k must be positive"
  else
    let reports := queries.map (queryReport discount candidate config.k)
    let latencies := reports.filterMap QueryReport.latencyMs
    let size : ℚ := reports.length
    .ok
      { configHash := configHash config
        datasetHash := datasetHash
        recallAtK := (reports.map QueryReport.recallAtK).sum / size
        mrr := (reports.map QueryReport.reciprocalRank).sum / size
        ndcgAtK := (reports.map QueryReport.ndcgAtK).sum / size
        latencyP50Ms := percentile latencies (1 / 2)
        latencyP95Ms := percentile latencies (19 / 20)
        errors := Dict.firsts id ((reports.filter fun report => report.error.isSome).map QueryReport.queryId)
        queries := reports }

end GroundedOps.Benchmark
