import GroundedOps.Proof.Fusion

/-!
# Pages of the fused rankings

Hybrid retrieval over adapters that return the slice `[offset, offset + limit)` of a fixed ranking.
Each leg cuts its ranking at the same offsets, and the fused items of the two slices are cut again
to the limit: a chunk on page `p` of one ranking may be on another page of the other, and a page of
up to twice `limit` chunks shows `limit` of them.

* `hybrid_fused`: a page is the first items of the fusion of what is authorized in the two slices.
* `mem_hybridPage`: **a chunk is shown on a page exactly if it is `Placed` there.**
* `paginates_iff`: **the pages partition the authorized chunks** exactly if each is placed on one
  page.
* `pages_lose`: two rankings of one chunk each, of which one is never shown.
-/

namespace GroundedOps

open Hoare PolicyEnforcer

/-! ## A fixed policy store -/

/-- The policy store answers always, and always by the same policies. -/
def FixedStore (access : PolicyAccess) (policies : DocumentRef → Option DocumentPolicy) : Prop :=
  ∀ n tenantId references, ∃ answer, access.getDocumentPolicies n tenantId references = some answer ∧
    ∀ reference ∈ references, answer reference = policies reference

section Fixed

variable {access : PolicyAccess} {principal : Principal} {reference : DocumentRef}
  {policies : DocumentRef → Option DocumentPolicy} {correlationId : String} {log : PolicyLog}
  {references : List DocumentRef}

theorem FixedStore.storesAnswer (hfixed : FixedStore access policies) (haudit : Recorded access)
    (htenant : principal.tenantId ≠ "") (hid : principal.id ≠ "") : StoresAnswer access principal := by
  refine ⟨haudit, fun n references => ?_, htenant, hid⟩
  obtain ⟨answer, hanswer, -⟩ := hfixed n principal.tenantId references
  rw [hanswer]
  rfl

/-- A decision reads one policy. -/
theorem decideRead_congr {policies' : DocumentRef → Option DocumentPolicy}
    (h : principal.known = true → reference.tenantId = principal.tenantId →
      policies reference = policies' reference) :
    decideRead principal policies reference = decideRead principal policies' reference := by
  by_cases hscoped : principal.known = true ∧ reference.tenantId = principal.tenantId
  · unfold decideRead
    rw [h hscoped.1 hscoped.2]
  · have hnone : ∀ policies, decideRead principal policies reference = none := by
      intro policies
      rw [Option.eq_none_iff_forall_ne_some]
      intro document hdecided
      exact hscoped (decideRead_scoped hdecided)
    rw [hnone, hnone]

/-- **Over a fixed store**, a call decides each reference by the store's policies. -/
theorem authorizeReads_fixed (hfixed : FixedStore access policies) (h : StoresAnswer access principal) :
    wp (authorizeReads access principal references correlationId)
      (fun items _ => ∀ reference ∈ references,
        lookupAuthorized items reference = decideRead principal policies reference)
      (fun _ _ => False) log := by
  refine wp_mono (wp_and ((authorizeReads_total h).total authorizeReads_spec) authorizeReads_given)
    (fun items log' hboth => ?_) (fun _ _ hboth => hboth.1)
  obtain ⟨hdone, hgiven⟩ := hboth
  intro reference hmem
  rw [readsDone_decides hdone hmem]
  apply decideRead_congr
  intro hknown hsame
  have hscoped : reference ∈ scopedReferences principal references :=
    List.mem_filter.2 ⟨Dict.mem_firsts_id.2 hmem, decide_eq_true hsame⟩
  cases hdone with
  | unknown hknown' => rw [hknown] at hknown'; cases hknown'
  | foreign hknown' hnone => rw [hnone] at hscoped; cases hscoped
  | asked answer hknown' hanswers htenant hreferences haudit =>
    obtain ⟨n, hgave⟩ := hgiven answer hanswers
    obtain ⟨answer', hanswer', hsame'⟩ := hfixed n answer.tenantId answer.references
    rw [hgave, Option.some.injEq] at hanswer'
    rw [answered_concat hanswers, hanswer']
    exact hsame' reference (hreferences ▸ hscoped)

end Fixed

/-! ## The two rankings -/

def hitIdentity (hit : SearchHit) : String × String := (hit.chunkId, hit.documentVersionId)

/-- An adapter over a fixed ranking. -/
def rankingSearch {Q : Type} (ranking : List SearchHit) (tookMs : ℤ) : SearchAccess Q := fun request =>
  some { hits := page ranking request.offset request.limit, total := ranking.length, tookMs := tookMs }

/-- A lexical and a dense ranking of distinct chunks with valid identifiers. -/
structure Rankings where
  lexical : List SearchHit
  dense : List SearchHit
  lexical_distinct : (lexical.map hitIdentity).Nodup
  dense_distinct : (dense.map hitIdentity).Nodup
  valid : ∀ hit ∈ lexical ++ dense, (hitReference hit).isSome = true

/-- The principal may read the chunk. -/
def authorizedHit (decide : DocumentRef → Option AuthorizedDocument) (hit : SearchHit) : Bool :=
  ((hitReference hit).bind decide).isSome

/-- The evidence of the authorized hits. -/
def decidedEvidence (decide : DocumentRef → Option AuthorizedDocument) (hits : List SearchHit) :
    List Evidence :=
  hits.filterMap fun hit => (hitReference hit).bind fun reference =>
    (decide reference).map fun document => hitEvidence hit document.decision.reason

section Legs

variable {access : PolicyAccess} {policies : DocumentRef → Option DocumentPolicy}
  {correlationId corpusVersion : String} {log : PolicyLog} {context : QueryContext}
  {ranking hits : List SearchHit} {tookMs : ℤ} {vector : List ℚ}
  {embedQuery : String → Except EmbeddingFailure (List ℚ)}
  {decide : DocumentRef → Option AuthorizedDocument}

theorem map_identity_decidedEvidence :
    (decidedEvidence decide hits).map HybridRetriever.identity =
      (hits.filter (authorizedHit decide)).map hitIdentity := by
  induction hits with
  | nil => rfl
  | cons hit hits ih =>
    unfold decidedEvidence authorizedHit at ih ⊢
    rw [List.filterMap_cons, List.filter_cons]
    cases href : hitReference hit with
    | none =>
      simpa using ih
    | some reference =>
      cases hdecided : decide reference with
      | none => simpa [hdecided] using ih
      | some document =>
        simp only [Option.bind_some, hdecided, Option.map_some, Option.isSome_some, if_true,
          List.map_cons, ih]
        rfl

/-- The evidence of a leg is authorized. -/
theorem mem_decidedEvidence {item : Evidence} (h : item ∈ decidedEvidence decide hits) :
    ((evidenceReference item).bind decide).isSome = true ∧ (evidenceReference item).isSome = true := by
  obtain ⟨hit, -, hitem⟩ := List.mem_filterMap.1 h
  obtain ⟨reference, href, hdecided⟩ := Option.bind_eq_some_iff.1 hitem
  obtain ⟨document, hdocument, rfl⟩ := Option.map_eq_some_iff.1 hdecided
  have hsame : evidenceReference (hitEvidence hit document.decision.reason) = some reference := href
  rw [hsame, Option.bind_some, hdocument]
  exact ⟨rfl, rfl⟩

/-- What a leg does with its slice. -/
theorem searchAuthorized_fixed {Q : Type} {request : SearchRequest Q}
    (hfixed : FixedStore access policies) (h : StoresAnswer access context.principal)
    (hvalid : ∀ hit ∈ ranking, (hitReference hit).isSome = true) :
    wp (searchAuthorized access correlationId (rankingSearch ranking tookMs) request context.principal)
      (fun found _ => authorizedEvidence found.1.hits found.2 =
        decidedEvidence (decideRead context.principal policies) (page ranking request.offset request.limit))
      (fun _ _ => False) log := by
  have hslice : ∀ hit ∈ page ranking request.offset request.limit, (hitReference hit).isSome = true :=
    fun hit hmem => hvalid hit (List.mem_of_mem_drop (List.mem_of_mem_take hmem))
  obtain ⟨references, hreferences⟩ := Lists.exists_mapM hslice
  have hpairs := Lists.exists_of_forall₂ (Lists.forall₂_of_mapM hreferences)
  unfold searchAuthorized rankingSearch
  simp only [hreferences, wp_bind, wp_pure]
  refine wp_mono (authorizeReads_fixed hfixed h) (fun items log' hdecides => ?_) (fun _ _ hfalse => hfalse)
  unfold authorizedEvidence decidedEvidence
  apply List.filterMap_congr
  intro hit hhit
  obtain ⟨reference, hmem, href⟩ := hpairs.1 hit hhit
  rw [href, Option.bind_some, Option.bind_some, hdecides reference hmem]

/-- Nobody unknown may read. -/
theorem decidedEvidence_unknown (h : searchScope context.principal = none) :
    decidedEvidence (decideRead context.principal policies) hits = [] := by
  have hunknown : context.principal.known = false := by
    unfold searchScope at h
    split at h
    · simp_all
    · cases h
  apply List.filterMap_eq_nil_iff.2
  intro hit _
  rw [Option.eq_none_iff_forall_ne_some]
  intro item hitem
  obtain ⟨reference, -, hdecided⟩ := Option.bind_eq_some_iff.1 hitem
  obtain ⟨document, hdocument, -⟩ := Option.map_eq_some_iff.1 hdecided
  have hknown := (decideRead_scoped hdocument).1
  rw [hunknown] at hknown
  cases hknown

/-- **The lexical leg** returns the authorized evidence of its slice. -/
theorem bm25_fixed (hfixed : FixedStore access policies) (h : StoresAnswer access context.principal)
    (hvalid : ∀ hit ∈ ranking, (hitReference hit).isSome = true) :
    wp (BM25Retriever.retrieve access correlationId (rankingSearch ranking tookMs) context)
      (fun result _ => result.evidence = decidedEvidence (decideRead context.principal policies)
        (page ranking context.offset context.limit))
      (fun _ _ => False) log := by
  unfold BM25Retriever.retrieve
  split
  · rename_i hscope
    exact (decidedEvidence_unknown hscope).symm
  · simp only [wp_bind, wp_raiseAs]
    exact wp_mono (searchAuthorized_fixed hfixed h hvalid) (fun _ _ hfound => hfound)
      (fun _ _ hfalse => hfalse)

/-- **The dense leg** does, with an embedder that answers. -/
theorem dense_fixed (hfixed : FixedStore access policies) (h : StoresAnswer access context.principal)
    (hembed : embedQuery context.query = .ok vector)
    (hvalid : ∀ hit ∈ ranking, (hitReference hit).isSome = true) :
    wp (DenseRetriever.retrieve access correlationId (rankingSearch ranking tookMs) embedQuery
        corpusVersion context)
      (fun result _ => result.evidence = decidedEvidence (decideRead context.principal policies)
        (page ranking context.offset context.limit))
      (fun _ _ => False) log := by
  unfold DenseRetriever.retrieve
  split
  · rename_i hscope
    exact (decidedEvidence_unknown hscope).symm
  · rw [hembed]
    simp only [wp_bind, wp_raiseAs]
    exact wp_mono (searchAuthorized_fixed hfixed h hvalid) (fun _ _ hfound => hfound)
      (fun _ _ hfalse => hfalse)

end Legs

namespace HybridRetriever

/-! ## The chunks of a page -/

/-- The authorized chunks of a page in the slice of each ranking. -/
structure Slices where
  lexical : List (String × String)
  dense : List (String × String)
  deriving DecidableEq

/-- The chunks of the page, each once. -/
def Slices.chunks (slices : Slices) : List (String × String) :=
  Dict.firsts id (slices.lexical ++ slices.dense)

/-- The reciprocal-rank score of a chunk on the page. -/
def Slices.score (rrfK : ℕ) (slices : Slices) (x : String × String) : ℚ :=
  Fusion.shareOf id (fun rank => 1 / ((rrfK + rank : ℕ) : ℚ)) x 1 slices.lexical +
    Fusion.shareOf id (fun rank => 1 / ((rrfK + rank : ℕ) : ℚ)) x 1 slices.dense

/-- On the page, `x` is ahead of `y`: by its score, or by its ids. -/
def Slices.Ahead (rrfK : ℕ) (slices : Slices) (x y : String × String) : Prop :=
  slices.score rrfK y < slices.score rrfK x ∨ slices.score rrfK x = slices.score rrfK y ∧
    (x.1 < y.1 ∨ x.1 = y.1 ∧ x.2 < y.2)

instance (rrfK : ℕ) (slices : Slices) : DecidableRel (slices.Ahead rrfK) := fun x y => by
  unfold Slices.Ahead
  infer_instance

/-- The chunk is on the page, and fewer than `limit` chunks of the page are ahead of it. -/
def Slices.Fits (rrfK : ℕ) (slices : Slices) (limit : ℕ) (x : String × String) : Prop :=
  x ∈ slices.chunks ∧ slices.chunks.countP (fun y => slices.Ahead rrfK y x) < limit

section Fits

variable {rrfK n : ℕ} {decide : DocumentRef → Option AuthorizedDocument}
  {lexical dense ranking : List Evidence} {x : String × String} {item : Evidence}

theorem shareOf_identity {share : ℕ → ℚ} {rank : ℕ} {leg : List Evidence} :
    Fusion.shareOf identity share x rank leg = Fusion.shareOf id share x rank (leg.map identity) := by
  unfold Fusion.shareOf
  rw [List.map_id]

theorem score_eq : rrfScore rrfK lexical dense x =
    Slices.score rrfK ⟨lexical.map identity, dense.map identity⟩ x := by
  unfold rrfScore legShare Slices.score
  rw [shareOf_identity, shareOf_identity]

/-- The chunks of the legs are those of the fused ranking, if all are authorized. -/
theorem mem_chunks_iff (h : FusedRanking rrfK decide lexical dense ranking)
    (hall : ∀ item, item ∈ lexical ∨ item ∈ dense →
      ((evidenceReference item).bind decide).isSome = true) :
    x ∈ Slices.chunks ⟨lexical.map identity, dense.map identity⟩ ↔ x ∈ ranking.map identity := by
  have hstands : ∀ copy, Stands lexical dense copy → identity copy ∈ ranking.map identity := by
    intro copy hcopy
    obtain ⟨document, hdocument⟩ :=
      Option.isSome_iff_exists.1 (hall copy (hcopy.imp_right And.left))
    obtain ⟨reference, href, hdecided⟩ := Option.bind_eq_some_iff.1 hdocument
    have hsome : authorizedAs decide (rrfScore rrfK lexical dense (identity copy)) copy = some
        { copy with
          score := rrfScore rrfK lexical dense (identity copy)
          authorizationReason := document.decision.reason } := by
      unfold authorizedAs
      rw [href, Option.bind_some, hdecided, Option.map_some]
    exact List.mem_map.2 ⟨_, (h.exact _).2 ⟨copy, hcopy, hsome⟩, rfl⟩
  unfold Slices.chunks
  rw [Dict.mem_firsts_id, List.mem_append]
  constructor
  · intro hx
    by_cases hlexical : x ∈ lexical.map identity
    · obtain ⟨copy, hcopy, rfl⟩ := List.mem_map.1 hlexical
      exact hstands copy (Or.inl hcopy)
    · obtain ⟨copy, hcopy, rfl⟩ := List.mem_map.1 (hx.resolve_left hlexical)
      exact hstands copy (Or.inr ⟨hcopy, hlexical⟩)
  · intro hx
    obtain ⟨item, hitem, rfl⟩ := List.mem_map.1 hx
    obtain ⟨copy, hcopy, hsome⟩ := (h.exact item).1 hitem
    rw [(authorizedAs_eq_some hsome).1]
    rcases hcopy with hmem | ⟨hmem, -⟩
    · exact Or.inl (List.mem_map_of_mem hmem)
    · exact Or.inr (List.mem_map_of_mem hmem)

/-- **The first items of the fused ranking** are the chunks that fit. -/
theorem mem_take_fused (h : FusedRanking rrfK decide lexical dense ranking)
    (hall : ∀ item, item ∈ lexical ∨ item ∈ dense →
      ((evidenceReference item).bind decide).isSome = true) :
    x ∈ (ranking.take n).map identity ↔
      Slices.Fits rrfK ⟨lexical.map identity, dense.map identity⟩ n x := by
  have hperm : (ranking.map identity).Perm (Slices.chunks ⟨lexical.map identity, dense.map identity⟩) :=
    (List.perm_ext_iff_of_nodup h.distinct Dict.nodup_firsts_id).2 fun x => (mem_chunks_iff h hall).symm
  have hscore : ∀ item ∈ ranking,
      item.score = Slices.score rrfK ⟨lexical.map identity, dense.map identity⟩ (identity item) := by
    intro item hitem
    obtain ⟨copy, -, hsome⟩ := (h.exact item).1 hitem
    rw [(authorizedAs_eq_some hsome).1, (authorizedAs_eq_some hsome).2, score_eq]
  have hcount : ∀ item ∈ ranking, ranking.countP (fun other => Precedes other item) =
      (Slices.chunks ⟨lexical.map identity, dense.map identity⟩).countP fun y =>
        Slices.Ahead rrfK ⟨lexical.map identity, dense.map identity⟩ y (identity item) := by
    intro item hitem
    rw [← hperm.countP_eq, List.countP_map]
    apply List.countP_congr
    intro other hother
    rw [Function.comp, decide_eq_true_eq, decide_eq_true_eq, Slices.Ahead, Precedes, hscore item hitem,
      hscore other hother]
    rfl
  constructor
  · intro hx
    obtain ⟨item, htake, rfl⟩ := List.mem_map.1 hx
    have hitem : item ∈ ranking := List.mem_of_mem_take htake
    refine ⟨(mem_chunks_iff h hall).2 (List.mem_map_of_mem hitem), ?_⟩
    rw [← hcount item hitem]
    exact (Fusion.mem_take_iff precedes_asymm h.sorted hitem n).1 htake
  · rintro ⟨hx, hfew⟩
    obtain ⟨item, hitem, rfl⟩ := List.mem_map.1 ((mem_chunks_iff h hall).1 hx)
    rw [← hcount item hitem] at hfew
    exact List.mem_map_of_mem ((Fusion.mem_take_iff precedes_asymm h.sorted hitem n).2 hfew)

end Fits

end HybridRetriever

/-! ## Hybrid retrieval over two rankings -/

open HybridRetriever

/-- A hybrid retriever over BM25 and dense retrieval, with adapters over fixed rankings. -/
structure HybridSystem where
  access : PolicyAccess
  correlationId : String
  embedQuery : String → Except EmbeddingFailure (List ℚ)
  corpusVersion : String
  rrfK : ℕ
  rankings : Rankings
  tookMs : ℤ

namespace HybridSystem

def retrieve (system : HybridSystem) : QueryContext → Act RetrievalError PolicyLog EvidenceSet :=
  HybridRetriever.retrieve system.access system.correlationId system.rrfK
    (BM25Retriever.retrieve system.access system.correlationId
      (rankingSearch system.rankings.lexical system.tookMs))
    (DenseRetriever.retrieve system.access system.correlationId
      (rankingSearch system.rankings.dense system.tookMs) system.embedQuery system.corpusVersion)

/-- The context of page `p`, where the constructor takes its offset. -/
def pageContext (context : QueryContext) (p : ℕ) : Option QueryContext :=
  if h : QueryContext.check context.query context.limit (p * context.limit) = true then
    some { context with offset := p * context.limit, valid := h }
  else none

/-- The chunks that the request for page `p` shows, made at `log`. -/
def shown (system : HybridSystem) (context : QueryContext) (log : PolicyLog) (p : ℕ) :
    List (String × String) :=
  match pageContext context p with
  | none => []
  | some context =>
    match (exec (system.retrieve context) log).1 with
    | .ok result => result.evidence.map HybridRetriever.identity
    | .error _ => []

/-- The authorized chunks of page `p` in each ranking. -/
def slices (system : HybridSystem) (decide : DocumentRef → Option AuthorizedDocument) (limit p : ℕ) :
    Slices where
  lexical := ((page system.rankings.lexical (p * limit) limit).filter (authorizedHit decide)).map hitIdentity
  dense := ((page system.rankings.dense (p * limit) limit).filter (authorizedHit decide)).map hitIdentity

/-- **Page `p` has room for the chunk**: it can be asked for, one of its slices has the chunk, and
fewer than `limit` authorized chunks of the slices are ahead of it. -/
def Placed (system : HybridSystem) (decide : DocumentRef → Option AuthorizedDocument) (limit p : ℕ)
    (x : String × String) : Prop :=
  p * limit ≤ 10000 ∧ (system.slices decide limit p).Fits system.rrfK limit x

/-- The stores answer, the policy store always by the same policies; so does the embedder. -/
structure Answers (system : HybridSystem) (policies : DocumentRef → Option DocumentPolicy)
    (context : QueryContext) : Prop where
  fixed : FixedStore system.access policies
  recorded : Recorded system.access
  tenantId : context.principal.tenantId ≠ ""
  id : context.principal.id ≠ ""
  embeds : ∃ vector, system.embedQuery context.query = .ok vector

/-- The pages do not repeat a chunk, whenever they are asked for. -/
def NoRepeats (system : HybridSystem) (context : QueryContext) (logs : ℕ → PolicyLog) : Prop :=
  ∀ p q, p ≠ q → ∀ x ∈ system.shown context (logs p) p, x ∉ system.shown context (logs q) q

/-- Every authorized chunk of either ranking is on a page. -/
def NoLoss (system : HybridSystem) (decide : DocumentRef → Option AuthorizedDocument)
    (context : QueryContext) (logs : ℕ → PolicyLog) : Prop :=
  ∀ hit ∈ system.rankings.lexical ++ system.rankings.dense, authorizedHit decide hit = true →
    ∃ p, hitIdentity hit ∈ system.shown context (logs p) p

variable {system : HybridSystem} {policies : DocumentRef → Option DocumentPolicy}
  {context : QueryContext} {log : PolicyLog} {p : ℕ} {x : String × String}

theorem retrieveLeg_returns {leg : Leg} {P : EvidenceSet → Prop}
    (h : wp (leg context) (fun result _ => P result) (fun _ _ => False) log) :
    wp (retrieveLeg leg context) (fun found _ => ∃ result, found.1 = some result ∧ P result)
      (fun _ _ => False) log := by
  unfold retrieveLeg
  rw [wp_tryCatch, wp_map]
  exact wp_mono h (fun result _ hP => ⟨result, rfl, hP⟩) (fun _ _ hfalse => hfalse.elim)

/-- The evidence of a slice is what the fusion asks of a leg. -/
theorem properEvidence_page {decide : DocumentRef → Option AuthorizedDocument} {ranking : List SearchHit}
    (hdistinct : (ranking.map hitIdentity).Nodup) (offset limit : ℕ) :
    ProperEvidence (decidedEvidence decide (page ranking offset limit)) := by
  refine ⟨?_, fun item hitem => (mem_decidedEvidence hitem).2⟩
  rw [map_identity_decidedEvidence]
  refine hdistinct.sublist (List.Sublist.map _ ?_)
  exact List.filter_sublist.trans ((List.take_sublist _ _).trans (List.drop_sublist _ _))

/-- **A page is the first items of the fusion** of what is authorized in the two slices. -/
theorem hybrid_fused (h : system.Answers policies context) :
    wp (system.retrieve context)
      (fun result _ => FusedResult system.rrfK context.limit (decideRead context.principal policies)
        (some (decidedEvidence (decideRead context.principal policies)
          (page system.rankings.lexical context.offset context.limit)))
        (some (decidedEvidence (decideRead context.principal policies)
          (page system.rankings.dense context.offset context.limit))) result)
      (fun _ _ => False) log := by
  have hstores : StoresAnswer system.access context.principal :=
    h.fixed.storesAnswer h.recorded h.tenantId h.id
  obtain ⟨vector, hembed⟩ := h.embeds
  have hlexical : ∀ hit ∈ system.rankings.lexical, (hitReference hit).isSome = true := fun hit hmem =>
    system.rankings.valid hit (List.mem_append_left _ hmem)
  have hdense : ∀ hit ∈ system.rankings.dense, (hitReference hit).isSome = true := fun hit hmem =>
    system.rankings.valid hit (List.mem_append_right _ hmem)
  unfold retrieve HybridRetriever.retrieve
  rw [wp_bind]
  refine wp_mono (retrieveLeg_returns (bm25_fixed h.fixed hstores hlexical)) (fun found log₁ h₁ => ?_)
    (fun _ _ hfalse => hfalse)
  obtain ⟨first, hfirst, hevidence⟩ := h₁
  rw [wp_bind]
  refine wp_mono (retrieveLeg_returns (dense_fixed h.fixed hstores hembed hdense))
    (fun found' log₂ h₂ => ?_) (fun _ _ hfalse => hfalse)
  obtain ⟨second, hsecond, hevidence'⟩ := h₂
  have hproper : ProperEvidence (legEvidence found.1) := by
    rw [hfirst, legEvidence, hevidence]
    exact properEvidence_page system.rankings.lexical_distinct _ _
  have hproper' : ProperEvidence (legEvidence found'.1) := by
    rw [hsecond, legEvidence, hevidence']
    exact properEvidence_page system.rankings.dense_distinct _ _
  have hany : found.1.isSome ∨ found'.1.isSome := Or.inl (by rw [hfirst]; rfl)
  refine wp_mono (fuse_fused (fun references => authorizeReads_fixed h.fixed hstores) hproper hproper' hany)
    (fun result log' hfused => ?_) (fun _ _ hfalse => hfalse)
  rw [hfirst, hsecond, Option.map_some, Option.map_some, hevidence, hevidence'] at hfused
  exact hfused

/-- **What a page shows** is what has room on it. -/
theorem mem_shown_iff (h : system.Answers policies context) :
    x ∈ system.shown context log p ↔
      system.Placed (decideRead context.principal policies) context.limit p x := by
  unfold shown Placed
  have hvalid := context.valid
  unfold QueryContext.check at hvalid
  simp only [Bool.and_eq_true, decide_eq_true_eq] at hvalid
  by_cases hoffset : p * context.limit ≤ 10000
  · have hcheck : QueryContext.check context.query context.limit (p * context.limit) = true := by
      unfold QueryContext.check
      simp only [Bool.and_eq_true, decide_eq_true_eq]
      exact ⟨hvalid.1, hoffset⟩
    unfold pageContext
    rw [dif_pos hcheck]
    dsimp only
    -- the page differs from the context in its offset alone
    have hanswers : system.Answers policies
        { context with offset := p * context.limit, valid := hcheck } :=
      ⟨h.fixed, h.recorded, h.tenantId, h.id, h.embeds⟩
    rcases hexec : exec (system.retrieve { context with offset := p * context.limit, valid := hcheck }) log
      with ⟨_ | result, log'⟩
    · exact (wp_error (hybrid_fused hanswers) hexec).elim
    · obtain ⟨ranking, hranking, htake, -, -⟩ := wp_ok (hybrid_fused hanswers) hexec
      dsimp only at hranking htake ⊢
      rw [htake, mem_take_fused hranking]
      · rw [Option.getD_some, Option.getD_some, map_identity_decidedEvidence, map_identity_decidedEvidence]
        exact (and_iff_right hoffset).symm
      · rintro item (hitem | hitem)
        · exact (mem_decidedEvidence hitem).1
        · exact (mem_decidedEvidence hitem).1
  · have hcheck : ¬ QueryContext.check context.query context.limit (p * context.limit) = true := by
      unfold QueryContext.check
      simp only [Bool.and_eq_true, decide_eq_true_eq]
      exact fun hall => hoffset hall.2
    unfold pageContext
    rw [dif_neg hcheck]
    exact ⟨fun hmem => absurd hmem List.not_mem_nil, fun hplaced => absurd hplaced.1 hoffset⟩

/-- What is placed is an authorized chunk of a ranking. -/
theorem Placed.authorized {decide : DocumentRef → Option AuthorizedDocument} {limit : ℕ}
    (h : system.Placed decide limit p x) :
    ∃ hit ∈ system.rankings.lexical ++ system.rankings.dense,
      authorizedHit decide hit = true ∧ hitIdentity hit = x := by
  obtain ⟨-, hmem, -⟩ := h
  have hslice : ∀ ranking : List SearchHit,
      x ∈ ((page ranking (p * limit) limit).filter (authorizedHit decide)).map hitIdentity →
        ∃ hit ∈ ranking, authorizedHit decide hit = true ∧ hitIdentity hit = x := by
    intro ranking hx
    obtain ⟨hit, hhit, heq⟩ := List.mem_map.1 hx
    obtain ⟨hpage, hauthorized⟩ := List.mem_filter.1 hhit
    exact ⟨hit, List.mem_of_mem_drop (List.mem_of_mem_take hpage), hauthorized, heq⟩
  unfold Slices.chunks at hmem
  rw [Dict.mem_firsts_id, List.mem_append] at hmem
  rcases hmem with hlexical | hdense
  · obtain ⟨hit, hhit, hrest⟩ := hslice _ hlexical
    exact ⟨hit, List.mem_append_left _ hhit, hrest⟩
  · obtain ⟨hit, hhit, hrest⟩ := hslice _ hdense
    exact ⟨hit, List.mem_append_right _ hhit, hrest⟩

/-- No page behind the ends of both rankings has room for anything. -/
theorem Placed.offset_lt {decide : DocumentRef → Option AuthorizedDocument} {limit : ℕ}
    (h : system.Placed decide limit p x) :
    p * limit < system.rankings.lexical.length ∨ p * limit < system.rankings.dense.length := by
  by_contra hbehind
  rw [not_or, not_lt, not_lt] at hbehind
  have hempty : system.slices decide limit p = ⟨[], []⟩ := by
    unfold slices page
    rw [List.drop_eq_nil_of_le hbehind.1, List.drop_eq_nil_of_le hbehind.2, List.take_nil]
    rfl
  obtain ⟨-, hmem, -⟩ := h
  rw [hempty] at hmem
  exact absurd hmem List.not_mem_nil

/-- **When hybrid pages partition the authorized chunks.** Over fixed rankings and a fixed policy
store, the pages repeat no chunk and lose none, whenever they are asked for, if and only if each
authorized chunk of either ranking has exactly one page that has room for it. -/
theorem paginates_iff (system : HybridSystem) (policies : DocumentRef → Option DocumentPolicy)
    (context : QueryContext) (logs : ℕ → PolicyLog) (h : system.Answers policies context) :
    (system.NoRepeats context logs ∧
        system.NoLoss (decideRead context.principal policies) context logs) ↔
      ∀ hit ∈ system.rankings.lexical ++ system.rankings.dense,
        authorizedHit (decideRead context.principal policies) hit = true →
          ∃! p, system.Placed (decideRead context.principal policies) context.limit p (hitIdentity hit) := by
  constructor
  · rintro ⟨hrepeats, hloss⟩ hit hmem hauthorized
    obtain ⟨p, hp⟩ := hloss hit hmem hauthorized
    refine ⟨p, (mem_shown_iff h).1 hp, fun q hq => ?_⟩
    by_contra hne
    exact hrepeats p q (Ne.symm hne) _ hp ((mem_shown_iff h).2 hq)
  · intro hplaced
    refine ⟨fun p q hne x hp hq => ?_, fun hit hmem hauthorized => ?_⟩
    · have hp' := (mem_shown_iff h).1 hp
      have hq' := (mem_shown_iff h).1 hq
      obtain ⟨hit, hmem, hauthorized, rfl⟩ := hp'.authorized
      exact hne ((hplaced hit hmem hauthorized).unique hp' hq')
    · obtain ⟨p, hp, -⟩ := hplaced hit hmem hauthorized
      exact ⟨p, (mem_shown_iff h).2 hp⟩

/-! ## One chunk in each ranking -/

def publicPolicies (reference : DocumentRef) : Option DocumentPolicy :=
  DocumentPolicy.make reference.tenantId "s-1" reference.documentId reference.documentVersionId
    ["public"] false

def chunkHit (chunkId : String) : SearchHit :=
  { OpenSearchBM25Adapter.hit publicChunk 1 with chunkId := chunkId }

/-- Of two public chunks, each ranking has one. -/
def oneEach : HybridSystem where
  access := publicStores
  correlationId := "correlation"
  embedQuery _ := .ok [1]
  corpusVersion := "corpus-1"
  rrfK := 60
  rankings :=
    { lexical := [chunkHit "c-1"]
      dense := [chunkHit "c-2"]
      lexical_distinct := by decide
      dense_distinct := by decide
      valid := by decide }
  tookMs := 0

/-- A question of a reader for one chunk at a time. -/
def oneByOne : QueryContext := { askedBy "p-1" with limit := 1, valid := by decide }

theorem oneEach_answers {context : QueryContext} (htenant : context.principal.tenantId ≠ "")
    (hid : context.principal.id ≠ "") : oneEach.Answers publicPolicies context :=
  ⟨fun _ _ _ => ⟨publicPolicies, rfl, fun _ _ => rfl⟩, fun _ _ => rfl, htenant, hid, [1], rfl⟩

theorem oneEach_slices : oneEach.slices (decideRead oneByOne.principal publicPolicies) 1 0 =
    ⟨[("c-1", "v-1")], [("c-2", "v-1")]⟩ := by
  decide +kernel

/-- Both chunks are on page 0, which shows the first one; no other page has the second. -/
theorem pages_lose : ¬ ∀ (system : HybridSystem) (policies : DocumentRef → Option DocumentPolicy)
    (context : QueryContext) (logs : ℕ → PolicyLog), system.Answers policies context →
      system.NoRepeats context logs ∧
        system.NoLoss (decideRead context.principal policies) context logs := by
  intro h
  have hanswers : oneEach.Answers publicPolicies oneByOne := oneEach_answers (by decide) (by decide)
  obtain ⟨p, hp⟩ := (h oneEach publicPolicies oneByOne (fun _ => {}) hanswers).2 (chunkHit "c-2")
    (by decide) (by decide +kernel)
  have hplaced := (mem_shown_iff hanswers).1 hp
  have hfirst : p = 0 := by
    have hoffset : p * 1 < 1 ∨ p * 1 < 1 := hplaced.offset_lt
    omega
  subst hfirst
  obtain ⟨-, -, hfew⟩ := hplaced
  have hslices : oneEach.slices (decideRead oneByOne.principal publicPolicies) oneByOne.limit 0 =
      ⟨[("c-1", "v-1")], [("c-2", "v-1")]⟩ := oneEach_slices
  rw [hslices] at hfew
  have hahead : (Slices.chunks ⟨[("c-1", "v-1")], [("c-2", "v-1")]⟩).countP
      (fun y => Slices.Ahead 60 ⟨[("c-1", "v-1")], [("c-2", "v-1")]⟩ y ("c-2", "v-1")) = 1 := by
    decide +kernel
  have hcount : (Slices.chunks ⟨[("c-1", "v-1")], [("c-2", "v-1")]⟩).countP
      (fun y => Slices.Ahead 60 ⟨[("c-1", "v-1")], [("c-2", "v-1")]⟩ y ("c-2", "v-1")) < 1 := hfew
  omega

/-- A page of ten has room for both. -/
theorem paginates_oneEach : oneEach.NoRepeats (askedBy "p-1") (fun _ => {}) ∧
    oneEach.NoLoss (decideRead (askedBy "p-1").principal publicPolicies) (askedBy "p-1") (fun _ => {}) := by
  refine (paginates_iff oneEach publicPolicies (askedBy "p-1") (fun _ => {})
    (oneEach_answers (by decide) (by decide))).2 fun hit hmem _ => ?_
  have hslices : oneEach.slices (decideRead (askedBy "p-1").principal publicPolicies) 10 0 =
      ⟨[("c-1", "v-1")], [("c-2", "v-1")]⟩ := by
    decide +kernel
  refine ⟨0, ⟨by decide, ?_⟩, fun q hq => ?_⟩
  · have hmem' : hitIdentity hit ∈ Slices.chunks ⟨[("c-1", "v-1")], [("c-2", "v-1")]⟩ := by
      have hchunks : Slices.chunks ⟨[("c-1", "v-1")], [("c-2", "v-1")]⟩ =
          (oneEach.rankings.lexical ++ oneEach.rankings.dense).map hitIdentity := by decide
      rw [hchunks]
      exact List.mem_map_of_mem hmem
    have hfits : Slices.Fits 60 ⟨[("c-1", "v-1")], [("c-2", "v-1")]⟩ 10 (hitIdentity hit) :=
      ⟨hmem', lt_of_le_of_lt List.countP_le_length (by decide)⟩
    rw [← hslices] at hfits
    exact hfits
  · have hoffset : q * 10 < 1 ∨ q * 10 < 1 := hq.offset_lt
    omega

end HybridSystem

end GroundedOps
