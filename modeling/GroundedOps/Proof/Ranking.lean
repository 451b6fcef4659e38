import GroundedOps.Proof.Answering
import GroundedOps.Proof.Reads
import GroundedOps.Spec.Search

/-!
# Pages of the authorized ranking

* `scope_iff_grants`: the `terms` filter on the policy field lets through what the authorizer
  allows.
* `retrieve_page`: **retrieval returns the page of the ranking of the chunks that the principal
  may read**, when the index agrees with the policy store.
-/

namespace GroundedOps

open Hoare PolicyEnforcer OpenSearchBM25Adapter
open Ingestion (Index IndexEntry)

/-! ## The two access rules -/

section Scope

variable {principal : Principal} {policy policy' : List String} {scope : SearchScope}
  {tenantId documentId action : String}

/-- A principal shares an entry with the policy exactly if the policy grants it. -/
theorem scope_iff_grants (h : searchScope principal = some scope) :
    (policy.any fun value => value ∈ scope.accessPolicy) = true ↔ Grants principal policy := by
  unfold searchScope at h
  split at h
  · cases h
  cases h
  simp only [List.any_eq_true, decide_eq_true_eq, List.mem_cons, List.mem_append, List.mem_map]
  unfold Grants
  constructor
  · rintro ⟨value, hvalue, rfl | rfl | ⟨role, hrole, rfl⟩ | ⟨group, hgroup, rfl⟩⟩
    · exact Or.inl hvalue
    · exact Or.inr (Or.inl hvalue)
    · exact Or.inr (Or.inr (Or.inl ⟨role, hrole, hvalue⟩))
    · exact Or.inr (Or.inr (Or.inr ⟨group, hgroup, hvalue⟩))
  · rintro (hpublic | hprincipal | ⟨role, hrole, hvalue⟩ | ⟨group, hgroup, hvalue⟩)
    · exact ⟨_, hpublic, Or.inl rfl⟩
    · exact ⟨_, hprincipal, Or.inr (Or.inl rfl)⟩
    · exact ⟨_, hvalue, Or.inr (Or.inr (Or.inl ⟨role, hrole, rfl⟩))⟩
    · exact ⟨_, hvalue, Or.inr (Or.inr (Or.inr ⟨group, hgroup, rfl⟩))⟩

/-- The authorizer reads a policy as a set. -/
theorem authorize_congr (h : ∀ value, value ∈ policy ↔ value ∈ policy') :
    authorize principal ⟨tenantId, documentId, action, policy⟩ =
      authorize principal ⟨tenantId, documentId, action, policy'⟩ := by
  unfold authorize
  simp only [h]

end Scope

/-! ## The ranking -/

/-- The reference of a chunk. -/
def entryReference (entry : IndexEntry) : Option DocumentRef :=
  DocumentRef.make entry.tenantId entry.documentId (some entry.documentVersionId)

/-- The decision of the authorizer on a policy as the index has it. -/
def chunkDecision (principal : Principal) (tenantId documentId : String) (policy : List String) :
    Decision :=
  authorize principal ⟨tenantId, documentId, "read", policy⟩

/-- The chunk satisfies the filters of the context and the principal may read it. -/
def readableChunk (context : QueryContext) (entry : IndexEntry) : Bool :=
  entry.tenantId == context.principal.tenantId &&
    (chunkDecision context.principal entry.tenantId entry.documentId entry.policy).allowed &&
    (context.includeHistorical || entry.isCurrent) &&
    termsFilter context.sourceIds entry.sourceId && termsFilter context.documentIds entry.documentId

/-- **The authorized ranking**: the matching chunks that the principal may read, best first. -/
def authorizedRanking (score : String → IndexEntry → Option ℚ) (index : Index)
    (context : QueryContext) : List SearchHit :=
  ranked score context.query (index.rows.filter (readableChunk context))

/-- A slice of a ranking. -/
def page (ranking : List SearchHit) (offset limit : ℕ) : List SearchHit :=
  (ranking.drop offset).take limit

/-- The evidence of a chunk of the ranking. -/
def rankedEvidence (principal : Principal) (hit : SearchHit) : Evidence :=
  hitEvidence hit (chunkDecision principal hit.tenantId hit.documentId hit.policy).reason

/-- The chunks have valid identifiers and the policy of their version, which the policy store
knows and which is not deleted; the audit store takes every event. -/
structure Authoritative (access : PolicyAccess) (index : Index) : Prop where
  recorded : Recorded access
  valid : ∀ entry ∈ index, (entryReference entry).isSome = true
  answers : ∀ n tenantId asked, ∃ policies,
    access.getDocumentPolicies n tenantId asked = some policies ∧
      ∀ entry ∈ index, ∀ reference ∈ asked, entryReference entry = some reference →
        ∃ policy, policies reference = some policy ∧ matchesReference policy reference = true ∧
          ∀ value, value ∈ policy.policy ↔ value ∈ entry.policy

section Ranking

variable {access : PolicyAccess} {index : Index} {score : String → IndexEntry → Option ℚ}
  {context : QueryContext} {scope : SearchScope} {entry : IndexEntry} {hit : SearchHit}
  {correlationId : String} {tookMs : ℤ} {log : PolicyLog} {ranking : List SearchHit}

/-- **The two access rules agree**: the filters keep what the principal may read. -/
theorem filters_eq_readable (hscope : searchScope context.principal = some scope) :
    filters (searchRequest context.query scope context) entry = readableChunk context entry := by
  have hknown : context.principal.known = true := by
    unfold searchScope at hscope
    split at hscope
    · cases hscope
    · simp_all
  have htenant : scope.tenantId = context.principal.tenantId := by
    unfold searchScope at hscope
    split at hscope
    · cases hscope
    · cases hscope
      rfl
  have hrules : entry.tenantId = context.principal.tenantId →
      (entry.policy.any fun value => value ∈ scope.accessPolicy) =
        (chunkDecision context.principal entry.tenantId entry.documentId entry.policy).allowed := by
    intro hsame
    rw [Bool.eq_iff_iff, scope_iff_grants hscope]
    unfold chunkDecision
    rw [authorize_allowed_iff]
    exact ⟨fun hgrants => ⟨hknown, hsame.symm, rfl, hgrants⟩, fun h => h.2.2.2⟩
  unfold filters readableChunk searchRequest
  dsimp only
  rw [htenant]
  by_cases hsame : entry.tenantId = context.principal.tenantId
  · rw [hrules hsame]
  · have hne : (entry.tenantId == context.principal.tenantId) = false := by simpa using hsame
    simp only [hne, Bool.false_and]

/-- A hit of the ranking is a chunk that the principal may read. -/
theorem mem_authorizedRanking (h : hit ∈ authorizedRanking score index context) :
    ∃ entry ∈ index, readableChunk context entry = true ∧
      ∃ value, hit = OpenSearchBM25Adapter.hit entry value := by
  unfold authorizedRanking ranked at h
  rw [List.mem_mergeSort] at h
  obtain ⟨entry, hentry, hhit⟩ := List.mem_filterMap.1 h
  obtain ⟨hmem, hreadable⟩ := List.mem_filter.1 hentry
  obtain ⟨value, -, rfl⟩ := Option.map_eq_some_iff.1 hhit
  exact ⟨entry, hmem, hreadable, value, rfl⟩

/-- What the store answers about a chunk decides as the index does. -/
theorem decideRead_of_answer {policies : DocumentRef → Option DocumentPolicy}
    {reference : DocumentRef} {policy : DocumentPolicy} (href : entryReference entry = some reference)
    (hanswer : policies reference = some policy) (hmatches : matchesReference policy reference = true)
    (hpolicy : ∀ value, value ∈ policy.policy ↔ value ∈ entry.policy)
    (hreadable : readableChunk context entry = true) :
    ∃ document, decideRead context.principal policies reference = some document ∧
      document.decision =
        chunkDecision context.principal entry.tenantId entry.documentId entry.policy := by
  unfold readableChunk at hreadable
  simp only [Bool.and_eq_true] at hreadable
  obtain ⟨⟨⟨⟨-, hallowed⟩, -⟩, -⟩, -⟩ := hreadable
  obtain ⟨-, htenant, hdocument, -⟩ := matchesReference_iff.1 hmatches
  have hids : reference.tenantId = entry.tenantId ∧ reference.documentId = entry.documentId := by
    unfold entryReference DocumentRef.make at href
    split at href
    · cases href
      exact ⟨rfl, rfl⟩
    · cases href
  have hsame : authorize context.principal
      ⟨policy.tenantId, policy.documentId, "read", policy.policy⟩ =
        chunkDecision context.principal entry.tenantId entry.documentId entry.policy := by
    rw [htenant, hdocument, hids.1, hids.2]
    exact authorize_congr hpolicy
  exact ⟨⟨policy, chunkDecision context.principal entry.tenantId entry.documentId entry.policy⟩,
    decideRead_eq_some.2 ⟨hanswer, hmatches, hsame.symm, hallowed⟩, rfl⟩

/-- **Authorizing chunks that the principal may read** keeps them all. -/
theorem wp_authorizeHits (hindex : Authoritative access index)
    (hknown : context.principal.known = true) (hid : context.principal.id ≠ "")
    {hits : List SearchHit} {references : List DocumentRef}
    (hhits : ∀ hit ∈ hits, hit ∈ authorizedRanking score index context)
    (hreferences : hits.mapM hitReference = some references) :
    wp (authorizeReads access context.principal references correlationId)
      (fun items _ => authorizedEvidence hits items = hits.map (rankedEvidence context.principal))
      (fun _ _ => False) log := by
  have hpairs := Lists.exists_of_forall₂ (Lists.forall₂_of_mapM hreferences)
  have hscoped : ∀ reference ∈ references,
      reference.tenantId = context.principal.tenantId ∧ reference.tenantId ≠ "" := by
    intro reference hmem
    obtain ⟨hit, hhit, href⟩ := hpairs.2 reference hmem
    obtain ⟨entry, -, hreadable, value, rfl⟩ := mem_authorizedRanking (hhits hit hhit)
    unfold readableChunk at hreadable
    simp only [Bool.and_eq_true, beq_iff_eq] at hreadable
    have hvalid := reference.valid
    unfold DocumentRef.check at hvalid
    simp only [Bool.and_eq_true] at hvalid
    refine ⟨?_, fun hempty => ?_⟩
    · unfold hitReference DocumentRef.make at href
      split at href
      · cases href
        exact hreadable.1.1.1.1
      · cases href
    · rw [hempty] at hvalid
      exact absurd hvalid.1.1 (by decide)
  refine wp_mono (authorizeReads_returns hindex.recorded hid hknown hscoped
    fun n asked => hindex.answers n context.principal.tenantId asked) (fun items log' h => ?_)
    (fun _ _ hfalse => hfalse)
  have hone : ∀ hit ∈ hits, ((hitReference hit).bind fun reference =>
      (lookupAuthorized items reference).map fun document =>
        hitEvidence hit document.decision.reason) = some (rankedEvidence context.principal hit) := by
    intro hit hhit
    obtain ⟨reference, hmem, href⟩ := hpairs.1 hit hhit
    obtain ⟨entry, hentry, hreadable, value, rfl⟩ := mem_authorizedRanking (hhits hit hhit)
    obtain ⟨asked, policies, hanswers, hasked, hlookup⟩ := h reference hmem
    obtain ⟨policy, hanswer, hmatches, hpolicy⟩ := hanswers entry hentry reference hasked href
    obtain ⟨document, hdocument, hdecision⟩ :=
      decideRead_of_answer href hanswer hmatches hpolicy hreadable
    rw [href, Option.bind_some, hlookup, hdocument, Option.map_some, hdecision]
    rfl
  unfold authorizedEvidence
  rw [List.filterMap_congr hone]
  exact congrFun List.filterMap_eq_map hits

/-! ## Pages -/

theorem page_append (ranking : List SearchHit) (offset limit limit' : ℕ) :
    page ranking offset limit ++ page ranking (offset + limit) limit' =
      page ranking offset (limit + limit') := by
  unfold page
  rw [List.take_add, List.drop_drop]

/-- **Consecutive pages are the ranking.** -/
theorem pages_flatten (ranking : List SearchHit) (limit n : ℕ) :
    ((List.range n).map fun i => page ranking (i * limit) limit).flatten =
      ranking.take (n * limit) := by
  induction n with
  | zero => simp
  | succ n ih =>
    have hfirst : ranking.take (n * limit) = page ranking 0 (n * limit) := rfl
    rw [List.range_succ, List.map_append, List.flatten_append, ih, hfirst]
    have hlast := page_append ranking 0 (n * limit) limit
    rw [Nat.zero_add] at hlast
    simp only [List.map_cons, List.map_nil, List.flatten_cons, List.flatten_nil, List.append_nil]
    rw [hlast, Nat.succ_mul]
    rfl

/-- **Filtered search returns the page of the authorized ranking.** Over an index that agrees
with the policy store, retrieval of a known principal with an identifier returns exactly the
chunks at `[offset, offset + limit)` of the ranking of those it may read, and the pages of a
context are the whole ranking. -/
theorem retrieve_page (access : PolicyAccess) (correlationId : String) (index : Index)
    (score : String → IndexEntry → Option ℚ) (tookMs : ℤ) (context : QueryContext) (log : PolicyLog)
    (hindex : Authoritative access index) (hknown : context.principal.known = true)
    (hid : context.principal.id ≠ "") :
    wp (BM25Retriever.retrieve access correlationId (search score index tookMs) context)
      (fun result _ => result.evidence =
        (page (authorizedRanking score index context) context.offset context.limit).map
          (rankedEvidence context.principal))
      (fun _ _ => False) log ∧
    ∀ n, ((List.range n).map fun i =>
        page (authorizedRanking score index context) (i * context.limit) context.limit).flatten =
      (authorizedRanking score index context).take (n * context.limit) := by
  refine ⟨?_, pages_flatten _ _⟩
  unfold BM25Retriever.retrieve
  cases hscope : searchScope context.principal with
  | none =>
    unfold searchScope at hscope
    rw [hknown] at hscope
    cases hscope
  | some scope =>
    -- the filter of the request is the rule of the policy, on an index that agrees with it
    have hranking : ranked score context.query
        (index.rows.filter (filters (searchRequest context.query scope context))) =
          authorizedRanking score index context := by
      unfold authorizedRanking
      congr 1
      exact List.filter_congr fun entry _ => filters_eq_readable hscope
    have hhits : ∀ hit ∈ page (authorizedRanking score index context) context.offset context.limit,
        hit ∈ authorizedRanking score index context := fun hit hmem =>
      List.mem_of_mem_drop (List.mem_of_mem_take hmem)
    obtain ⟨references, hreferences⟩ : ∃ references,
        (page (authorizedRanking score index context) context.offset context.limit).mapM
          hitReference = some references := by
      refine Lists.exists_mapM fun hit hmem => ?_
      obtain ⟨entry, hentry, -, value, rfl⟩ := mem_authorizedRanking (hhits hit hmem)
      exact hindex.valid entry hentry
    have hsearch : search score index tookMs (searchRequest context.query scope context) = some {
        hits := page (authorizedRanking score index context) context.offset context.limit
        total := (authorizedRanking score index context).length
        tookMs := tookMs } := by
      unfold search
      rw [← hranking]
      rfl
    simp only [wp_bind, wp_raiseAs]
    unfold searchAuthorized
    rw [hsearch]
    simp only [hreferences, wp_bind, wp_pure]
    exact wp_authorizeHits hindex hknown hid hhits hreferences

end Ranking

/-! ## One public chunk -/

def publicChunk : IndexEntry where
  tenantId := "t-1"
  sourceId := "s-1"
  documentId := "d-1"
  documentVersionId := "v-1"
  policy := ["public"]
  chunk := ⟨"c-1", 0, "because", 0, 7, "h", "1", "1"⟩
  sourceTimestamp := 0
  isCurrent := true

def publicIndex : Index := ⟨[publicChunk], by decide, by decide⟩

theorem publicIndex_authoritative : Authoritative publicStores publicIndex := by
  refine ⟨fun _ _ => rfl, fun entry hentry => ?_, fun n tenantId asked => ⟨_, rfl, ?_⟩⟩
  · obtain rfl := List.mem_singleton.1 hentry
    decide
  · intro entry hentry reference _ href
    obtain rfl := List.mem_singleton.1 hentry
    have hreference : DocumentRef.make "t-1" "d-1" (some "v-1") = some reference := href
    rw [DocumentRef.make, dif_pos (by decide)] at hreference
    obtain rfl := Option.some.inj hreference
    refine ⟨_, dif_pos (by decide), rfl, fun value => Iff.rfl⟩

/-- A question of a reader with an identifier. -/
def askedBy (id : String) : QueryContext where
  query := "why"
  principal := { id, tenantId := "t-1", roles := [], groups := [] }
  valid := by decide

/-- The audit recorder refuses a principal without an identifier, and the search with it. -/
theorem retrieve_unidentified : ¬ ∀ (access : PolicyAccess) (correlationId : String) (index : Index)
    (score : String → IndexEntry → Option ℚ) (tookMs : ℤ) (context : QueryContext) (log : PolicyLog),
    Authoritative access index → context.principal.known = true →
      wp (BM25Retriever.retrieve access correlationId (search score index tookMs) context)
        (fun result _ => result.evidence =
          (page (authorizedRanking score index context) context.offset context.limit).map
            (rankedEvidence context.principal))
        (fun _ _ => False) log := by
  intro h
  have hpage := h publicStores "correlation" publicIndex (fun _ _ => some 1) 0 (askedBy "") {}
    publicIndex_authoritative rfl
  have hraised : (exec (BM25Retriever.retrieve publicStores "correlation"
      (search (fun _ _ => some 1) publicIndex 0) (askedBy "")) {}).1 = .error (.unavailable none) := by
    decide +kernel
  rcases hexec : exec (BM25Retriever.retrieve publicStores "correlation"
    (search (fun _ _ => some 1) publicIndex 0) (askedBy "")) {} with ⟨error | result, log'⟩
  · exact wp_error hpage hexec
  · rw [hexec] at hraised
    cases hraised

/-- The one chunk is the first page of every reader of the tenant. -/
theorem retrieve_page_public :
    wp (BM25Retriever.retrieve publicStores "correlation" (search (fun _ _ => some 1) publicIndex 0)
        (askedBy "p-1"))
      (fun result _ => result.evidence.map Evidence.chunkId = ["c-1"]) (fun _ _ => False) {} := by
  refine wp_mono (retrieve_page publicStores "correlation" publicIndex (fun _ _ => some 1) 0
    (askedBy "p-1") {} publicIndex_authoritative rfl (by decide)).1 (fun result _ h => ?_)
    (fun _ _ h => h)
  rw [h]
  decide +kernel

end GroundedOps
