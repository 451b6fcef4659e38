import GroundedOps.Lib.Lists
import GroundedOps.Proof.Cache
import GroundedOps.Spec.Reranker

/-!
# Reranking a degraded retrieval

* `rerank_isOk`: when a rerank returns.
* `rerank_evidence`: what it returns is evidence of the retrieval, with other scores.
* `rerank_not_degraded`: whatever it returns is not degraded.
* `degradationKept_iff`: **a degraded retrieval stays degraded, and out of the cache, exactly when
  its rerank raises.**
* `reranked_cached`: a miss of a known principal writes the rerank of a degraded retrieval.
-/

namespace GroundedOps

namespace Reranker

variable {reranker : Reranker} {provider : RerankProvider} {query : String}
  {previous result : EvidenceSet} {candidates : List Evidence} {identity : String}

/-! ## The candidates -/

theorem byIdentity_of_mem (h : identity ∈ candidates.map Evidence.chunkId) :
    ∃ evidence, byIdentity candidates identity = some evidence := by
  obtain ⟨evidence, hmem, hid⟩ := List.mem_map.1 h
  refine Option.isSome_iff_exists.1 ?_
  unfold byIdentity
  rw [List.findRev?_eq_find?_reverse, List.find?_isSome]
  exact ⟨evidence, List.mem_reverse.2 hmem, decide_eq_true hid⟩

theorem mem_of_byIdentity {evidence : Evidence} (h : byIdentity candidates identity = some evidence) :
    evidence ∈ candidates := by
  unfold byIdentity at h
  rw [List.findRev?_eq_find?_reverse] at h
  exact List.mem_reverse.1 (List.mem_of_find?_eq_some h)

theorem rescored_mem {item : String × ℚ} {evidence : Evidence}
    (h : rescored candidates item = some evidence) :
    ∃ candidate ∈ candidates, evidence = { candidate with score := item.2 } := by
  obtain ⟨candidate, hfound, rfl⟩ := Option.map_eq_some_iff.1 h
  exact ⟨candidate, mem_of_byIdentity hfound, rfl⟩

/-! ## What a rerank returns -/

/-- The rerank gets an answer that it can use, or a timeout. -/
def Answered (reranker : Reranker) (provider : RerankProvider) (query : String)
    (previous : EvidenceSet) : Bool :=
  !isBlank query &&
    match provider (reranker.request query previous) with
    | .response response =>
      validResponse ((reranker.candidates previous).map Evidence.chunkId) response
    | .timeout _ => true
    | .raises => false

/-- Of a valid response every identity is that of a candidate. -/
theorem ranking_of_valid {response : RerankResponse}
    (h : validResponse ((reranker.candidates previous).map Evidence.chunkId) response = true) :
    ∃ evidence, (response.scores.mergeSort
        (sortLe ((reranker.candidates previous).map Evidence.chunkId))).mapM
          (rescored (reranker.candidates previous)) = some evidence := by
  refine Lists.exists_mapM fun item hitem => ?_
  have hvalid : (response.scores.map Prod.fst).all
      (· ∈ (reranker.candidates previous).map Evidence.chunkId) = true := by
    simp only [validResponse, Bool.and_eq_true] at h
    exact h.2.1
  have hmem : item.1 ∈ response.scores.map Prod.fst :=
    List.mem_map_of_mem ((List.mergeSort_perm _ _).subset hitem)
  have hexpected := of_decide_eq_true (List.all_eq_true.1 hvalid item.1 hmem)
  obtain ⟨evidence, hfound⟩ := byIdentity_of_mem hexpected
  rw [rescored, hfound]
  rfl

theorem rerank_isOk :
    (∃ result, reranker.rerank provider query previous = .ok result) ↔
      reranker.Answered provider query previous = true := by
  unfold rerank Answered
  by_cases hblank : isBlank query = true
  · simp [hblank]
  · simp only [hblank]
    cases provider (reranker.request query previous) with
    | timeout latencyMs => simp
    | raises => simp
    | response response =>
      by_cases hvalid : validResponse ((reranker.candidates previous).map Evidence.chunkId) response = true
      · obtain ⟨evidence, hevidence⟩ := ranking_of_valid hvalid
        simp [ranking, hvalid, hevidence]
      · simp [ranking, hvalid]

/-- What is returned is a timeout's fallback or made from the ranked candidates. -/
theorem rerank_cases (h : reranker.rerank provider query previous = .ok result) :
    (∃ latencyMs, result = fallback previous latencyMs) ∨
      ∃ (response : RerankResponse) (evidence : List Evidence),
        (response.scores.mergeSort
          (sortLe ((reranker.candidates previous).map Evidence.chunkId))).mapM
            (rescored (reranker.candidates previous)) = some evidence ∧
        result = { evidence := evidence
                   strategy := previous.strategy ++ "+reranker-candidate"
                   total := evidence.length
                   tookMs := previous.tookMs + response.latencyMs } := by
  unfold rerank at h
  split at h
  · cases h
  · split at h
    · rename_i response _
      unfold ranking at h
      dsimp only at h
      split at h
      · split at h
        · cases h
        · rename_i evidence hevidence
          cases h
          exact Or.inr ⟨response, evidence, hevidence, rfl⟩
      · cases h
    · rename_i latencyMs _
      cases h
      exact Or.inl ⟨latencyMs, rfl⟩
    · cases h

theorem rerank_evidence (h : reranker.rerank provider query previous = .ok result) :
    ∀ item ∈ result.evidence, ∃ candidate ∈ previous.evidence, ∃ score : ℚ,
      item = { candidate with score := score } := by
  intro item hitem
  rcases rerank_cases h with ⟨latencyMs, rfl⟩ | ⟨response, evidence, hevidence, rfl⟩
  · exact ⟨item, hitem, item.score, rfl⟩
  · obtain ⟨scored, -, hscored⟩ :=
      (Lists.exists_of_forall₂ (Lists.forall₂_of_mapM hevidence)).2 item hitem
    obtain ⟨candidate, hcandidate, rfl⟩ := rescored_mem hscored
    exact ⟨candidate, List.mem_of_mem_take hcandidate, scored.2, rfl⟩

/-- Both ways of returning leave the flag and the reason at their defaults. -/
theorem rerank_not_degraded (h : reranker.rerank provider query previous = .ok result) :
    result.degraded = false ∧ result.degradationReason = none := by
  rcases rerank_cases h with ⟨latencyMs, rfl⟩ | ⟨response, evidence, -, rfl⟩
  · exact ⟨rfl, rfl⟩
  · exact ⟨rfl, rfl⟩

end Reranker

/-! ## Degradation -/

/-- **Degradation survives the rerank of a retrieval and is not cached.** -/
structure DegradationKept (reranker : Reranker) (provider : RerankProvider) (query : String)
    (previous : EvidenceSet) : Prop where
  kept : ∀ result, reranker.rerank provider query previous = .ok result →
    result.degraded = previous.degraded ∧ result.degradationReason = previous.degradationReason
  uncached : previous.degraded = true → ∀ (cache : VersionSafeCache) (digest : CachePayload → String)
    (context : QueryContext) (versions : CacheVersions) (reply : BackendReply) (world : CacheWorld),
    (cache.retrieval digest context versions (reranker.rerank provider query previous) reply
      world).2.passed = world.passed

section Cached

variable {reranker : Reranker} {provider : RerankProvider} {query : String}
  {previous result : EvidenceSet} {context : QueryContext}

/-- A set that is not degraded has no reason. -/
theorem EvidenceSet.reason_eq_none (h : previous.degraded = false) : previous.degradationReason = none := by
  have hvalid := previous.valid
  rw [h] at hvalid
  exact Option.not_isSome_iff_eq_none.1 (by rw [← hvalid]; exact Bool.false_ne_true)

/-- A call whose load raises passes nothing to the backend. -/
theorem run_raising {α : Type} {reuse : Reuse α} {load : Except E α} {reply : BackendReply}
    (h : ∀ value, load ≠ .ok value) : (reuse.run load reply world).2 = world := by
  unfold Reuse.run
  split
  · rfl
  · cases load with
    | error error => rfl
    | ok value => exact absurd rfl (h value)

/-- A call that misses passes the record of an eligible value. -/
theorem run_missing {α : Type} {reuse : Reuse α} {value : α} {reply : BackendReply}
    (hmiss : reuse.hit reply.get world = none) (heligible : reuse.eligible value = true) :
    (reuse.run (.ok value : Except E α) reply world).2.passed =
      world.passed ++ [(⟨reuse.key, reuse.kind, reuse.wrap value⟩, reuse.ttlSeconds)] := by
  unfold Reuse.run
  rw [hmiss]
  dsimp only
  rw [if_pos heligible]
  rfl

/-- **A degraded retrieval stays degraded, and out of the cache, exactly when its rerank raises.** -/
theorem degradationKept_iff (reranker : Reranker) (provider : RerankProvider) (query : String)
    (previous : EvidenceSet) :
    DegradationKept reranker provider query previous ↔
      previous.degraded = false ∨ reranker.Answered provider query previous = false := by
  constructor
  · intro h
    by_cases hanswered : reranker.Answered provider query previous = true
    · obtain ⟨result, hresult⟩ := Reranker.rerank_isOk.2 hanswered
      have hkept := (h.kept result hresult).1
      rw [(Reranker.rerank_not_degraded hresult).1] at hkept
      exact Or.inl hkept.symm
    · exact Or.inr (Bool.not_eq_true _ ▸ hanswered)
  · intro h
    rcases h with hdegraded | hanswered
    · refine ⟨fun result hresult => ?_, fun h => absurd h (by rw [hdegraded]; decide)⟩
      obtain ⟨hflag, hreason⟩ := Reranker.rerank_not_degraded hresult
      exact ⟨hflag.trans hdegraded.symm, hreason.trans (EvidenceSet.reason_eq_none hdegraded).symm⟩
    · have hraises : ∀ result, reranker.rerank provider query previous ≠ .ok result := by
        intro result hresult
        have htrue := Reranker.rerank_isOk.1 ⟨result, hresult⟩
        rw [hanswered] at htrue
        cases htrue
      refine ⟨fun result hresult => absurd hresult (hraises result), ?_⟩
      intro _ cache digest context versions reply world
      exact congrArg CacheWorld.passed (run_raising hraises)

/-- **The rerank of a degraded retrieval is written** by every call of a known principal that may
read the evidence and finds nothing to reuse. -/
theorem reranked_cached {cache : VersionSafeCache} {versions : CacheVersions} {reply : BackendReply}
    (hresult : reranker.rerank provider query previous = .ok result)
    (hknown : context.principal.known = true)
    (hread : ∀ item ∈ previous.evidence, item.tenantId = context.principal.tenantId ∧
      item.authorizationReason ∈ allowedReasons)
    (hmiss : (cache.retrievalReuse digest context versions).hit reply.get world = none) :
    (cache.retrieval digest context versions (reranker.rerank provider query previous) reply
      world).2.passed = world.passed ++
        [(⟨VersionSafeCache.retrievalKey digest context versions, .retrieval, .evidence result⟩,
          cache.retrievalTtlSeconds)] := by
  have hall : ∀ item ∈ result.evidence, item.tenantId = context.principal.tenantId ∧
      item.authorizationReason ∈ allowedReasons := by
    intro item hitem
    obtain ⟨candidate, hcandidate, score, rfl⟩ := Reranker.rerank_evidence hresult item hitem
    exact hread candidate hcandidate
  have heligible : eligibleRetrieval result context.principal = true := by
    simp only [eligibleRetrieval, hknown, (Reranker.rerank_not_degraded hresult).1, Bool.not_false,
      Bool.true_and, List.all_eq_true, Bool.and_eq_true, decide_eq_true_eq]
    exact hall
  rw [hresult]
  exact run_missing hmiss heligible

end Cached

/-! ## A timeout -/

def sampleReranker : Reranker := ⟨"reranker-v1", 10, 400, by decide⟩

/-- What is left of a hybrid retrieval when the embedding provider is down. -/
def sampleDegraded : EvidenceSet where
  evidence := [
    { chunkId := "chunk-1", tenantId := "alpha", sourceId := "source-1", documentId := "document-1"
      documentVersionId := "version-1", ordinal := 0, text := "Authorized evidence.", span := (0, 20)
      contentHash := "hash-1", parserVersion := "markdown-v1", chunkerVersion := "structural-v1"
      sourceTimestamp := 0, isCurrent := true, score := 1, authorizationReason := .public }]
  strategy := "hybrid-rrf-candidate:dense-missing"
  total := 1
  tookMs := 20
  degraded := true
  degradationReason := some "embedding_provider_unavailable"

/-- The rerank of a degraded retrieval times out: the flag is lost, and the fallback is cached. -/
theorem timeout_loses_degradation :
    ¬(∀ (reranker : Reranker) (provider : RerankProvider) (query : String) (previous result : EvidenceSet),
      previous.degraded = true → reranker.rerank provider query previous = .ok result →
        result.degraded = previous.degraded ∧
          result.degradationReason = previous.degradationReason) ∧
    ¬∀ (reranker : Reranker) (provider : RerankProvider) (query : String) (previous : EvidenceSet),
      previous.degraded = true → ∀ (cache : VersionSafeCache) (digest : CachePayload → String)
        (context : QueryContext) (versions : CacheVersions) (reply : BackendReply) (world : CacheWorld),
        (cache.retrieval digest context versions (reranker.rerank provider query previous) reply
          world).2.passed = world.passed := by
  constructor
  · intro h
    have hlost := h sampleReranker (fun _ => .timeout 400) "procedure" sampleDegraded
      (Reranker.fallback sampleDegraded 400) rfl (by decide)
    exact absurd hlost.1 (by decide)
  · intro h
    have hcached := h sampleReranker (fun _ => .timeout 400) "procedure" sampleDegraded rfl {}
      sampleDigest (sampleRetrieval []) sampleVersions ⟨.nothing, false⟩ {}
    exact absurd hcached (by decide)

end GroundedOps
