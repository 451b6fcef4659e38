import GroundedOps.Proof.Generation
import GroundedOps.Proof.Provenance
import GroundedOps.Spec.Search

/-!
# What a verified answer rests on

From the raw document to the answer: the pipeline fills the index, the retriever searches it, the
packer, the provider and the verifier make an answer of what was found.

* `EvidenceOf`, `bm25_evidence`: what lexical retrieval returns is of entries of the index.
* `Passage`: a passage of a stored document of the tenant, which a citation names.
* `answersQuote_of_sound`: a sound session over an index of passages quotes these.
* `answers_quote`: **a verified answer cites passages of stored documents, and every token of a
  claim stands in one of those that the claim cites.**
-/

namespace GroundedOps

open Hoare CitationVerifier
open Ingestion (Platform World Index IndexEntry LifecycleEvent DocumentVersion ParsedDocument
  StructuralChunker markdownComponents sliceText)

/-! ## Search -/

/-- The evidence is of the entry. -/
structure EvidenceOf (entry : IndexEntry) (tenantId : String) (item : Evidence) : Prop where
  tenantId : entry.tenantId = tenantId
  chunkId : item.chunkId = entry.chunkId
  documentVersionId : item.documentVersionId = entry.documentVersionId
  text : item.text = entry.chunk.text
  span : item.span = ((entry.chunk.start : ℤ), (entry.chunk.end : ℤ))

section Search

variable {score : String → IndexEntry → Option ℚ} {index : Index} {tookMs : ℤ}
  {request : SearchRequest String} {result : SearchResult} {hit : SearchHit}

/-- A hit is of an entry that passes the filters. -/
theorem exists_entry_of_hit
    (h : OpenSearchBM25Adapter.search score index tookMs request = some result)
    (hhit : hit ∈ result.hits) :
    ∃ entry ∈ index, entry.tenantId = request.tenantId ∧
      ∃ value, hit = OpenSearchBM25Adapter.hit entry value := by
  unfold OpenSearchBM25Adapter.search at h
  cases h
  have hranked := List.mem_of_mem_drop (List.mem_of_mem_take hhit)
  unfold OpenSearchBM25Adapter.ranked at hranked
  rw [List.mem_mergeSort, List.mem_filterMap] at hranked
  obtain ⟨entry, hentry, hscore⟩ := hranked
  obtain ⟨hmem, hfilter⟩ := List.mem_filter.1 hentry
  obtain ⟨value, -, rfl⟩ := Option.map_eq_some_iff.1 hscore
  refine ⟨entry, hmem, ?_, value, rfl⟩
  simp only [OpenSearchBM25Adapter.filters, Bool.and_eq_true, beq_iff_eq] at hfilter
  exact hfilter.1.1.1.1

/-- What is kept of a hit is what its entry has. -/
theorem evidenceOf_authorized {authorized : List (DocumentRef × AuthorizedDocument)}
    {item : Evidence} {tenantId : String}
    (hentries : ∀ hit ∈ result.hits, ∃ entry ∈ index, entry.tenantId = tenantId ∧
      ∃ value, hit = OpenSearchBM25Adapter.hit entry value)
    (hitem : item ∈ authorizedEvidence result.hits authorized) :
    ∃ entry ∈ index, EvidenceOf entry tenantId item := by
  unfold authorizedEvidence at hitem
  obtain ⟨hit, hhit, hkept⟩ := List.mem_filterMap.1 hitem
  obtain ⟨entry, hentry, htenant, value, rfl⟩ := hentries hit hhit
  obtain ⟨reference, -, hfound⟩ := Option.bind_eq_some_iff.1 hkept
  obtain ⟨document, -, rfl⟩ := Option.map_eq_some_iff.1 hfound
  exact ⟨entry, hentry, htenant, rfl, rfl, rfl, rfl⟩

/-- **Lexical retrieval returns what the index holds** of the principal's tenant. -/
theorem bm25_evidence (access : PolicyAccess) (correlationId : String) (context : QueryContext)
    (log : PolicyLog) :
    wp (BM25Retriever.retrieve access correlationId
        (OpenSearchBM25Adapter.search score index tookMs) context)
      (fun found _ => ∀ item ∈ found.evidence, ∃ entry ∈ index,
        EvidenceOf entry context.principal.tenantId item)
      (fun _ _ => True) log := by
  unfold BM25Retriever.retrieve
  cases hscope : PolicyEnforcer.searchScope context.principal with
  | none => exact fun item hitem => absurd hitem List.not_mem_nil
  | some scope =>
    have htenant : scope.tenantId = context.principal.tenantId := by
      unfold PolicyEnforcer.searchScope at hscope
      split at hscope
      · cases hscope
      · cases hscope
        rfl
    simp only [wp_bind, wp_raiseAs]
    unfold searchAuthorized
    cases hsearch : OpenSearchBM25Adapter.search score index tookMs
        (searchRequest context.query scope context) with
    | none => trivial
    | some result =>
      have hentries : ∀ hit ∈ result.hits, ∃ entry ∈ index, entry.tenantId = scope.tenantId ∧
          ∃ value, hit = OpenSearchBM25Adapter.hit entry value :=
        fun _ hhit => exists_entry_of_hit hsearch hhit
      dsimp only
      cases result.hits.mapM hitReference with
      | none => trivial
      | some references =>
        simp only [wp_bind, wp_pure]
        refine wp_mono wp_self (fun authorized log' _ => ?_) (fun _ _ _ => trivial)
        intro item hitem
        rw [← htenant]
        exact evidenceOf_authorized hentries hitem

end Search

/-! ## Sessions -/

/-- The citation names a passage of a stored document of the tenant: the characters from `start`
to `stop` of its normalized text. -/
structure Passage (P : Platform) (w : World) (tenantId : String) (citation : CitationPayload)
    (parsed : ParsedDocument) (start stop : ℕ) : Prop where
  stored : ∃ version ∈ w.database.documentVersions, version.tenantId = tenantId ∧
    version.id = citation.documentVersionId ∧
      ∃ content, w.objects version.rawArtifact = some content ∧
        P.sha256 content = version.contentHash ∧ Ingestion.MarkdownParser.parse content = some parsed
  span : citation.span = ((start : ℤ), (stop : ℤ))
  start_lt : start < stop
  stop_le : stop ≤ parsed.normalizedText.length

/-- Every claim of a verified final event cites passages of stored documents of the tenant, and each
of its tokens stands in one of them. -/
def AnswersQuote (P : Platform) (w : World) (casefold : String → String) (tenantId : String)
    (s : AskState) : Prop :=
  ∀ payload, .final payload ∈ s.events → payload.status = "verified" →
    payload.claims ≠ [] ∧ ∀ claim ∈ payload.claims, claim.citations ≠ [] ∧
      (∀ citation ∈ claim.citations, ∃ parsed start stop,
        Passage P w tenantId citation parsed start stop) ∧
      ∀ token ∈ tokens casefold claim.text, ∃ citation ∈ claim.citations, ∃ parsed start stop,
        Passage P w tenantId citation parsed start stop ∧
          token ∈ tokens casefold (sliceText parsed.normalizedText start stop)

section Sessions

variable {P : Platform} {w : World} {tenantId : String} {citation : CitationPayload}
  {item : Evidence} {entry : IndexEntry}

/-- A citation of evidence names the passage that its entry quotes. -/
theorem passage_of_quotes {version : DocumentVersion} {document : Ingestion.Document}
    {content : ByteArray} {parsed : ParsedDocument} (hid : identity item = citation.identity)
    (hof : EvidenceOf entry tenantId item)
    (hquotes : entry.Quotes P w version document content parsed) :
    Passage P w tenantId citation parsed entry.chunk.start entry.chunk.end ∧
      item.text = sliceText parsed.normalizedText entry.chunk.start entry.chunk.end := by
  simp only [identity, CitationPayload.identity, Prod.mk.injEq] at hid
  obtain ⟨-, hversion, hspan⟩ := hid
  have htenant : version.tenantId = entry.tenantId := congrArg Prod.fst hquotes.version_pk
  have hversionId : version.id = entry.documentVersionId := congrArg Prod.snd hquotes.version_pk
  refine ⟨⟨⟨version, hquotes.version_mem, htenant.trans hof.tenantId, ?_, content, hquotes.stored,
    hquotes.digest, hquotes.parse⟩, ?_, hquotes.start_lt, hquotes.end_le⟩, ?_⟩
  · rw [hversionId, ← hof.documentVersionId]
    exact hversion
  · rw [← hspan]
    exact hof.span
  · exact hof.text.trans hquotes.text

/-- **From the index to the answer**: what a sound session answers from entries of the index quotes
the stored documents, when the index holds passages of these. -/
theorem answersQuote_of_sound {service : AskService} {evidenceSet : EvidenceSet}
    {principal : Principal} {before : PolicyLog} {s : AskState}
    (hquotes : ∀ entry ∈ w.index, ∃ version document content parsed,
      entry.Quotes P w version document content parsed)
    (hevidence : ∀ item ∈ evidenceSet.evidence, ∃ entry ∈ w.index,
      EvidenceOf entry principal.tenantId item)
    (hsound : service.Sound evidenceSet principal before s) :
    AnswersQuote P w service.casefold principal.tenantId s := by
  have hitem : ∀ item ∈ (ContextPacker.pack service.maxTokens evidenceSet).evidence,
      ∀ citation : CitationPayload, identity item = citation.identity →
        ∃ parsed start stop, Passage P w principal.tenantId citation parsed start stop ∧
          item.text = sliceText parsed.normalizedText start stop := by
    intro item hpacked citation hid
    have hfound := List.mem_of_find?_eq_some (ContextPacker.mem_pack hpacked)
    obtain ⟨entry, hentry, hof⟩ := hevidence item hfound
    obtain ⟨version, document, content, parsed, hquote⟩ := hquotes entry hentry
    exact ⟨parsed, entry.chunk.start, entry.chunk.end, passage_of_quotes hid hof hquote⟩
  intro payload hmem hstatus
  have hanswer := hsound payload hmem hstatus
  refine ⟨hanswer.claims_ne, fun claim hclaim => ⟨hanswer.cited claim hclaim, ?_, ?_⟩⟩
  · intro citation hcitation
    obtain ⟨-, item, hpacked, hid⟩ := hanswer.resolved claim hclaim citation hcitation
    obtain ⟨parsed, start, stop, hpassage, -⟩ := hitem item hpacked citation hid
    exact ⟨parsed, start, stop, hpassage⟩
  · -- the packed text that supports a token is the passage of its entry
    intro token htoken
    obtain ⟨citation, hcitation, item, hpacked, hid, hsupport⟩ :=
      hanswer.supported claim hclaim token htoken
    obtain ⟨parsed, start, stop, hpassage, htext⟩ := hitem item hpacked citation hid
    rw [htext] at hsupport
    exact ⟨citation, hcitation, parsed, start, stop, hpassage, hsupport⟩

end Sessions

namespace AskService

/-- **A verified answer quotes the stored documents.** Over the index that any run of the worker has
left, and for whatever the provider answers: a verified final event cites, for each of its claims,
passages of documents of the principal's tenant that are in the object store, and every token of the
claim stands in one of those passages. -/
theorem answers_quote {P : Platform} (hP : P.CollisionFree) (chunker : StructuralChunker)
    (es : List LifecycleEvent) (score : String → IndexEntry → Option ℚ) (tookMs : ℤ)
    (access : PolicyAccess) (correlationId : String) (service : AskService) (env : AskEnvironment)
    (question : Question) (principal : Principal) (log : PolicyLog) :
    let w := Machine.run (World.live (markdownComponents P chunker)) {} es
    wp (events service { env with
        retrieve := BM25Retriever.retrieve access correlationId
          (OpenSearchBM25Adapter.search score w.index tookMs) } question principal)
      (fun _ => AnswersQuote P w service.casefold principal.tenantId)
      (fun _ => AnswersQuote P w service.casefold principal.tenantId) { log := log } := by
  intro w
  have hkept : Ingestion.Kept (markdownComponents P chunker) w := Ingestion.life_kept hP es
  have hquotes : ∀ entry ∈ w.index, ∃ version document content parsed,
      entry.Quotes P w version document content parsed := fun entry hentry =>
    Ingestion.quotes_of_sourced hP hkept (Ingestion.index_sourced hP es entry hentry)
  refine wp_events_of (fun hold payload hmem hstatus => absurd hstatus (hold _ hmem payload rfl))
    fun {evidenceSet before s} hretrieved hquiet => ?_
  -- what was retrieved are entries of the index, and these are passages
  have hevidence := wp_ok (bm25_evidence access correlationId (queryContext question principal) log)
    hretrieved
  exact wp_mono (answerFrom_sound hquiet)
    (fun _ _ hsound => answersQuote_of_sound hquotes hevidence hsound)
    (fun _ _ hsound => answersQuote_of_sound hquotes hevidence hsound)

/-- A document is submitted and delivered. -/
def sampleShelving : List LifecycleEvent :=
  [.worker ⟨.submit { Ingestion.sampleEvent "# A b" 1 with sourceVersion := "one" }, {}, 0⟩,
    .worker ⟨.deliver "tenant" "uuu", {}, 0⟩]

def sampleShelf : World :=
  Machine.run (World.live (markdownComponents Ingestion.samplePlatform Ingestion.pairChunker)) {}
    sampleShelving

/-- The policies of the database; the provider answers with the second chunk, word for word. -/
def sampleReader : AskEnvironment where
  access :=
    { getDocumentPolicies := fun _ _ _ =>
        some fun reference => sampleShelf.database.getDocumentPolicy reference
      append := fun _ _ => true }
  correlationId := "id"
  retrieve := fun _ => throw .other
  attempt := fun _ =>
    ⟨none, [.completed ⟨[⟨"b", [⟨"uu:1", "uu", (4, 5)⟩]⟩], "model", 1, 1⟩], .exhausted⟩
  cancelled := fun _ => false
  closed := fun _ => false

/-- What `sampleReader` retrieves from the shelf. -/
def sampleReading : AskEnvironment :=
  { sampleReader with
    retrieve := BM25Retriever.retrieve sampleReader.access "id"
      (OpenSearchBM25Adapter.search (fun _ _ => some 1) sampleShelf.index 0) }

theorem answers_quote_sample :
    sampleShelf.index.rows.map (fun entry => entry.chunk.text) = ["# A ", "b"] ∧
      wp (events ⟨100, 2, id, by decide, by decide, by decide⟩ sampleReading
          ⟨"q", "what?", by decide⟩ ⟨"alice", "tenant", [], [], true⟩)
        (fun _ => AnswersQuote Ingestion.samplePlatform sampleShelf id "tenant")
        (fun _ => AnswersQuote Ingestion.samplePlatform sampleShelf id "tenant") { log := {} } :=
  ⟨by decide +kernel, answers_quote Ingestion.samplePlatform_collisionFree Ingestion.pairChunker
    sampleShelving (fun _ _ => some 1) 0 sampleReader.access "id" _ sampleReader _ _ {}⟩

end AskService

end GroundedOps
