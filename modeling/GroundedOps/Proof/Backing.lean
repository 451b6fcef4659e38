import GroundedOps.Proof.LogRules
import GroundedOps.Proof.PolicyRead

/-!
# What the policy store stands behind

* `Backed`: an answer that the policy store gave lets the principal read the referenced version.
* `Retriever.backed`: whatever an index or a leg returns, the evidence of a retriever is backed.
* `mayRead_of_backed`: what the store of the runtime backs, the rows of one of its reads allow.
-/

namespace GroundedOps

open Hoare PolicyEnforcer

/-! ## Answers of the store -/

/-- The store answered with a policy that lets the principal read the referenced version. -/
def Backed (access : PolicyAccess) (principal : Principal) (reference : DocumentRef) : Prop :=
  ∃ answer policy n,
    access.getDocumentPolicies n answer.tenantId answer.references = some answer.policies ∧
      Readable principal answer reference policy

/-- The version of the item is backed. -/
def ItemBacked (access : PolicyAccess) (principal : Principal) (item : Evidence) : Prop :=
  ∃ reference, evidenceReference item = some reference ∧ Backed access principal reference

/-- The retrievers of `modules/retrieval`; the legs of the hybrid one may be anything. -/
inductive Retriever (access : PolicyAccess) :
    (QueryContext → Act RetrievalError PolicyLog EvidenceSet) → Prop
  | bm25 (correlationId : String) (search : SearchAccess String) :
      Retriever access (BM25Retriever.retrieve access correlationId search)
  | dense (correlationId : String) (search : SearchAccess DenseQuery)
      (embedQuery : String → Except EmbeddingFailure (List ℚ)) (corpusVersion : String) :
      Retriever access (DenseRetriever.retrieve access correlationId search embedQuery corpusVersion)
  | hybrid (correlationId : String) (rrfK : ℕ) (lexical dense : HybridRetriever.Leg) :
      Retriever access (HybridRetriever.retrieve access correlationId rrfK lexical dense)

section Backed

variable {access : PolicyAccess} {principal : Principal} {correlationId : String}
  {log log' : PolicyLog} {item : Evidence} {result : EvidenceSet} {reference : DocumentRef}

/-- A reference that was made is of the document and version it was made for. -/
theorem make_fields {tenantId documentId : String} {documentVersionId : Option String}
    (h : DocumentRef.make tenantId documentId documentVersionId = some reference) :
    reference.tenantId = tenantId ∧ reference.documentId = documentId ∧
      reference.documentVersionId = documentVersionId := by
  unfold DocumentRef.make at h
  split at h
  · cases h
    exact ⟨rfl, rfl, rfl⟩
  · cases h

theorem backed_of_onlyShown (hshown : OnlyShown principal log result log')
    (hgiven : Given access log log') : ∀ item ∈ result.evidence, ItemBacked access principal item := by
  intro item hitem
  obtain ⟨-, answer, reference, policy, hanswers, href, hread⟩ := hshown.1 item hitem
  obtain ⟨n, hn⟩ := hgiven.last hanswers
  exact ⟨reference, href, answer, policy, n, hn, hread⟩

/-- What was authorized in a call is backed. -/
theorem backed_of_authorized {references : List DocumentRef}
    {authorized : List (DocumentRef × AuthorizedDocument)} {document : AuthorizedDocument}
    (hdone : ReadsDone principal references correlationId log authorized log')
    (hgiven : Given access log log')
    (hfound : lookupAuthorized authorized reference = some document) :
    Backed access principal reference := by
  obtain ⟨answer, hanswers, hread⟩ := readsDone_readable hdone hfound
  obtain ⟨n, hn⟩ := hgiven.last hanswers
  exact ⟨answer, document.policy, n, hn, hread⟩

/-- **The evidence of every retriever is backed.** -/
theorem Retriever.backed {retrieve : QueryContext → Act RetrievalError PolicyLog EvidenceSet}
    (h : Retriever access retrieve) (context : QueryContext) (log : PolicyLog) :
    wp (retrieve context)
      (fun result _ => ∀ item ∈ result.evidence, ItemBacked access context.principal item)
      (fun _ _ => True) log := by
  cases h with
  | bm25 correlationId search =>
    exact wp_mono (wp_and (bm25_onlyShown search context)
      ((given_rule access context.principal correlationId).bm25 search log))
      (fun _ _ hboth => backed_of_onlyShown hboth.1 hboth.2) (fun _ _ _ => trivial)
  | dense correlationId search embedQuery corpusVersion =>
    exact wp_mono (wp_and (dense_onlyShown search embedQuery corpusVersion context)
      ((given_rule access context.principal correlationId).dense search embedQuery corpusVersion log))
      (fun _ _ hboth => backed_of_onlyShown hboth.1 hboth.2) (fun _ _ _ => trivial)
  | hybrid correlationId rrfK lexical dense =>
    unfold HybridRetriever.retrieve
    simp only [wp_bind]
    -- the legs may do anything: what they return is authorized again
    refine wp_mono wp_self (fun first log₁ _ => ?_) (fun _ _ _ => trivial)
    refine wp_mono wp_self (fun second log₂ _ => ?_) (fun _ _ _ => trivial)
    exact wp_mono (wp_and fuse_onlyShown
      ((given_rule access context.principal correlationId).fuse rrfK _ _ _ log₂))
      (fun _ _ hboth => backed_of_onlyShown hboth.1 hboth.2) (fun _ _ _ => trivial)

end Backed

/-! ## The store of the runtime -/

namespace Ingestion

/-- The rows let the principal read the version: its document is not deleted, and the source of
the document grants it. -/
structure MayRead (db : Database) (principal : Principal) (tenantId documentId versionId : String) :
    Prop where
  known : principal.known = true
  tenant : tenantId = principal.tenantId
  granted : ∃ document ∈ db.documents, document.pk = (tenantId, documentId) ∧
    document.deleted = false ∧ ∃ source ∈ db.sources,
      source.pk = (tenantId, document.sourceId) ∧ Grants principal source.policy
  version : ∃ version ∈ db.documentVersions,
    version.pk = (tenantId, versionId) ∧ version.documentId = documentId

theorem mayRead_of_backed {reads : ℕ → Database × Database} {append : ℕ → AuthorizationAudit → Bool}
    {principal : Principal} {tenantId documentId versionId : String} {reference : DocumentRef}
    (hmake : DocumentRef.make tenantId documentId (some versionId) = some reference)
    (h : Backed (runtimeStores reads append) principal reference) :
    ∃ n, MayRead (between (reads n).1 (reads n).2) principal tenantId documentId versionId := by
  obtain ⟨answer, policy, n, hgiven, hread⟩ := h
  obtain ⟨rfl, rfl, hnamed⟩ := make_fields hmake
  unfold runtimeStores at hgiven
  dsimp only at hgiven
  rw [getDocumentPolicies_eq, Option.map_some, Option.some.injEq] at hgiven
  have hanswered := hread.answered
  rw [← hgiven] at hanswered
  dsimp only at hanswered
  rw [Lists.lookup_filterMap] at hanswered
  split at hanswered
  · unfold Database.getDocumentPolicy at hanswered
    obtain ⟨document, hdocument, hrest⟩ := Option.bind_eq_some_iff.1 hanswered
    obtain ⟨source, hsource, hmade⟩ := Option.bind_eq_some_iff.1 hrest
    obtain ⟨hdocument, hpk⟩ := Table.find_eq_some.1 hdocument
    obtain ⟨hsource, hspk⟩ := Table.find_eq_some.1 hsource
    dsimp only at hmade
    split at hmade
    · rename_i hversion
      rw [hnamed, Option.all_some] at hversion
      obtain ⟨version, hmem, hkeys⟩ := List.any_eq_true.1 hversion
      rw [Bool.and_eq_true, decide_eq_true_eq, beq_iff_eq] at hkeys
      unfold DocumentPolicy.make at hmade
      split at hmade
      · cases hmade
        exact ⟨n, hread.known, hread.sameTenant, ⟨document, hdocument, hpk, hread.notDeleted, source,
          hsource, hspk, hread.grants⟩, version, hmem, hkeys⟩
      · cases hmade
    · cases hmade
  · cases hanswered

end Ingestion

end GroundedOps
