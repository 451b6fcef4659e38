import GroundedOps.Proof.Policy
import GroundedOps.Spec.Retrieval

/-!
# Retrieval never leaks

Whatever the search adapters and the legs answer, the evidence of BM25, dense and hybrid
retrieval is what the enforcer returned for their references in the same call.

* `retrieve_readable`: **each evidence is `Shown` to the principal by the answer of the
  policy store in that call**, and an unknown principal gets no evidence.
-/

namespace GroundedOps

open Hoare PolicyEnforcer

/-- The item is of the principal's tenant, and between `log` and `log'` the policy store was
asked about its document version and answered with a policy of that version, not deleted, that
lets the principal in. -/
def Shown (principal : Principal) (log log' : PolicyLog) (item : Evidence) : Prop :=
  item.tenantId = principal.tenantId ∧
    ∃ answer reference policy, log'.answers = log.answers ++ [answer] ∧
      evidenceReference item = some reference ∧ Readable principal answer reference policy

/-- Everything in the result is shown, and nothing to an unknown principal. -/
def OnlyShown (principal : Principal) (log : PolicyLog) (result : EvidenceSet)
    (log' : PolicyLog) : Prop :=
  (∀ item ∈ result.evidence, Shown principal log log' item) ∧
    (principal.known = false → result.evidence = [])

/-- The log when the two legs have returned. -/
def LegsReturned (lexical dense : HybridRetriever.Leg) (context : QueryContext)
    (log log' : PolicyLog) : Prop :=
  ∃ first second log₁, exec (HybridRetriever.retrieveLeg lexical context) log = (.ok first, log₁) ∧
    exec (HybridRetriever.retrieveLeg dense context) log₁ = (.ok second, log')

variable {access : PolicyAccess} {correlationId : String} {principal : Principal}
  {log log' : PolicyLog} {references : List DocumentRef}
  {authorized : List (DocumentRef × AuthorizedDocument)} {item : Evidence}

/-! ## The evidence that is kept -/

theorem make_tenantId {tenantId documentId : String} {documentVersionId : Option String}
    {reference : DocumentRef}
    (h : DocumentRef.make tenantId documentId documentVersionId = some reference) :
    reference.tenantId = tenantId := by
  unfold DocumentRef.make at h
  split at h
  · cases h; rfl
  · cases h

/-- An item whose reference was authorized is shown. -/
theorem shown_of_authorized {reference : DocumentRef} {document : AuthorizedDocument}
    (hdone : ReadsDone principal references correlationId log authorized log')
    (href : evidenceReference item = some reference)
    (hfound : lookupAuthorized authorized reference = some document) :
    Shown principal log log' item := by
  obtain ⟨answer, hanswers, hread⟩ := readsDone_readable hdone hfound
  refine ⟨?_, answer, reference, document.policy, hanswers, href, hread⟩
  rw [← make_tenantId href]
  exact hread.sameTenant

theorem authorizedEvidence_shown {hits : List SearchHit}
    (hdone : ReadsDone principal references correlationId log authorized log') :
    ∀ item ∈ authorizedEvidence hits authorized, Shown principal log log' item := by
  intro item hitem
  obtain ⟨hit, -, hkept⟩ := List.mem_filterMap.1 hitem
  obtain ⟨reference, href, hfound⟩ := Option.bind_eq_some_iff.1 hkept
  obtain ⟨document, hdocument, rfl⟩ := Option.map_eq_some_iff.1 hfound
  exact shown_of_authorized hdone href hdocument

theorem authorizedEntries_shown {entries : List HybridRetriever.Entry}
    (hdone : ReadsDone principal references correlationId log authorized log') :
    ∀ item ∈ HybridRetriever.authorizedEntries entries authorized,
      Shown principal log log' item := by
  intro item hitem
  obtain ⟨entry, -, hkept⟩ := List.mem_filterMap.1 hitem
  obtain ⟨reference, href, hfound⟩ := Option.bind_eq_some_iff.1 hkept
  obtain ⟨document, hdocument, rfl⟩ := Option.map_eq_some_iff.1 hfound
  exact shown_of_authorized hdone href hdocument

theorem authorizedEvidence_nil (hits : List SearchHit) : authorizedEvidence hits [] = [] := by
  simp [authorizedEvidence, lookupAuthorized]

theorem authorizedEntries_nil (entries : List HybridRetriever.Entry) :
    HybridRetriever.authorizedEntries entries [] = [] := by
  simp [HybridRetriever.authorizedEntries, lookupAuthorized]

/-! ## The retrievers -/

theorem searchAuthorized_spec {Q : Type} {search : SearchAccess Q} {request : SearchRequest Q} :
    wp (searchAuthorized access correlationId search request principal)
      (fun found log' => ∃ references,
        ReadsDone principal references correlationId log found.2 log')
      (fun _ _ => True) log := by
  unfold searchAuthorized
  cases search request with
  | none => simp
  | some result =>
    simp only
    cases result.hits.mapM hitReference with
    | none => simp
    | some references =>
      simp only [wp_bind, wp_pure]
      exact wp_mono authorizeReads_spec (fun _ _ hdone => ⟨references, hdone⟩) (fun _ _ _ => trivial)

/-- What BM25 and dense retrieval build from a search that returned. -/
theorem onlyShown_of_searched {hits : List SearchHit} {result : EvidenceSet}
    (hdone : ReadsDone principal references correlationId log authorized log')
    (hresult : result.evidence = authorizedEvidence hits authorized) :
    OnlyShown principal log result log' := by
  refine ⟨?_, fun hknown => ?_⟩
  · rw [hresult]; exact authorizedEvidence_shown hdone
  · rw [hresult, readsDone_unknown hdone hknown, authorizedEvidence_nil]

theorem onlyShown_of_empty {result : EvidenceSet} (hempty : result.evidence = []) :
    OnlyShown principal log result log' :=
  ⟨by simp [hempty], fun _ => hempty⟩

theorem bm25_onlyShown (search : SearchAccess String) (context : QueryContext) :
    wp (BM25Retriever.retrieve access correlationId search context)
      (OnlyShown context.principal log) (fun _ _ => True) log := by
  unfold BM25Retriever.retrieve
  cases PolicyEnforcer.searchScope context.principal with
  | none => exact onlyShown_of_empty rfl
  | some scope =>
    simp only [wp_bind, wp_raiseAs]
    refine wp_mono searchAuthorized_spec (fun found log' hfound => ?_) (fun _ _ _ => trivial)
    obtain ⟨references, hdone⟩ := hfound
    exact onlyShown_of_searched hdone rfl

theorem dense_onlyShown (search : SearchAccess DenseQuery)
    (embedQuery : String → Except EmbeddingFailure (List ℚ)) (corpusVersion : String)
    (context : QueryContext) :
    wp (DenseRetriever.retrieve access correlationId search embedQuery corpusVersion context)
      (OnlyShown context.principal log) (fun _ _ => True) log := by
  unfold DenseRetriever.retrieve
  cases PolicyEnforcer.searchScope context.principal with
  | none => exact onlyShown_of_empty rfl
  | some scope =>
    cases embedQuery context.query with
    | error failure => cases failure <;> simp
    | ok vector =>
      simp only [wp_bind, wp_raiseAs]
      refine wp_mono searchAuthorized_spec (fun found log' hfound => ?_) (fun _ _ _ => trivial)
      obtain ⟨references, hdone⟩ := hfound
      exact onlyShown_of_searched hdone rfl

theorem fuse_onlyShown {rrfK : ℕ} {lexical dense : Option EvidenceSet}
    {denseFailure : Option String} {context : QueryContext} :
    wp (HybridRetriever.fuse access correlationId rrfK lexical dense denseFailure context)
      (OnlyShown context.principal log) (fun _ _ => True) log := by
  unfold HybridRetriever.fuse
  split
  · simp
  · dsimp only
    split
    · simp
    · simp only [wp_bind, wp_raiseAs, wp_pure]
      refine wp_mono authorizeReads_spec (fun decisions log' hdone => ?_) (fun _ _ _ => trivial)
      refine ⟨fun item hitem => ?_, fun hknown => ?_⟩
      · -- sorting and cutting to the limit adds nothing
        have hsorted := List.mem_of_mem_take hitem
        rw [List.mem_mergeSort] at hsorted
        exact authorizedEntries_shown hdone item hsorted
      · simp only [readsDone_unknown hdone hknown, authorizedEntries_nil, List.mergeSort_nil,
          List.take_nil]

/-- **Retrieval never leaks.** Whatever the search adapters answer, the embedder and the legs
do and the stores behind the enforcer answer, each evidence that BM25, dense or hybrid
retrieval returns is of the principal's tenant and of a document version for which the policy
store, in that call, returned a matching policy that is not deleted and grants the principal;
an unknown principal gets nothing. -/
theorem retrieve_readable (access : PolicyAccess) (correlationId : String) (context : QueryContext)
    (log : PolicyLog) :
    (∀ search, wp (BM25Retriever.retrieve access correlationId search context)
      (OnlyShown context.principal log) (fun _ _ => True) log) ∧
    (∀ search embedQuery corpusVersion,
      wp (DenseRetriever.retrieve access correlationId search embedQuery corpusVersion context)
        (OnlyShown context.principal log) (fun _ _ => True) log) ∧
    ∀ rrfK lexical dense,
      wp (HybridRetriever.retrieve access correlationId rrfK lexical dense context)
        (fun result log' => ∃ before, LegsReturned lexical dense context log before ∧
          OnlyShown context.principal before result log') (fun _ _ => True) log := by
  refine ⟨fun search => bm25_onlyShown search context,
    fun search embedQuery corpusVersion => dense_onlyShown search embedQuery corpusVersion context,
    fun rrfK lexical dense => ?_⟩
  unfold HybridRetriever.retrieve
  simp only [wp_bind]
  refine wp_mono wp_self (fun first log₁ hfirst => ?_) (fun _ _ _ => trivial)
  refine wp_mono wp_self (fun second before hsecond => ?_) (fun _ _ _ => trivial)
  refine wp_mono fuse_onlyShown (fun result log' hshown => ?_) (fun _ _ _ => trivial)
  exact ⟨before, ⟨first, second, log₁, hfirst, hsecond⟩, hshown⟩

end GroundedOps
