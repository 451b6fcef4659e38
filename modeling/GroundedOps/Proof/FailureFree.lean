import GroundedOps.Proof.Canonical
import GroundedOps.Proof.Lifecycle

/-!
# A delivery in which nothing fails

Where no operation fails, a stage returns if the store takes its contents, the references it
records agree with those of the version, and the policies admit its projection.

* `Completable`: the content of a job can be normalized, stored and projected.
* `returns_stages`: then the stages of `_continue` return.
* `step_completes`: **so does the delivery, with its job completed.**
-/

namespace GroundedOps.Ingestion

open Hoare

/-! ## Primitives without failures -/

section Free

variable {operation : Operation} {failure : Raised} {w : World} {N : Unit → World → Prop}
  {E : Raised → World → Prop} {α : Type} {M : α → World → Prop}

theorem wp_reach_free : wp (reach {} operation failure) N E w ↔ N ⟨⟩ w := Iff.rfl

theorem wp_request_free {effect : World → World} :
    wp (request {} operation failure effect) N E w ↔ N ⟨⟩ (effect w) := Iff.rfl

theorem wp_orRaise_some {raised : Raised} {a : α} : wp (orRaise raised (some a)) M E w ↔ M a w :=
  Iff.rfl

theorem wp_transaction_free {m : Step α} : wp (transaction {} operation m) M E w ↔
    wp m M (fun raised w' => E raised { w' with database := w.database }) w := by
  rw [wp_transaction]
  simp

end Free

section Store

variable {P : Platform} {operation : Operation} {w : World} {content : ByteArray}
  {tenantId : String} {kind : ArtifactKind}

/-- The store takes a content that is not too large. -/
theorem returns_put (hP : P.CollisionFree) (hintact : Intact P w.objects)
    (hsize : content.size ≤ DocumentStore.maxBytes) :
    Returns (DocumentStore.put P {} operation tenantId kind content) w := by
  have hobject : (DocumentStore.putObject ⟨tenantId, kind, P.sha256 content⟩ content w).objects
      ⟨tenantId, kind, P.sha256 content⟩ = some content := putObject_self hP hintact rfl
  unfold Returns DocumentStore.put
  rw [if_neg (not_lt.2 hsize)]
  simp only [wp_bind, wp_request_free, DocumentStore.get, Hoare.wp_get, hobject, wp_orRaise_some]
  rw [if_neg (by simp [hsize])]
  trivial

/-- A stored artifact can be read. -/
theorem returns_get {reference : ArtifactRef} (hintact : Intact P w.objects)
    (hobject : w.objects reference = some content) :
    wp (DocumentStore.get P reference) (fun out w' => out = content ∧ w' = w) (fun _ _ => False) w := by
  obtain ⟨hdigest, hsize⟩ := hintact reference content hobject
  unfold DocumentStore.get
  simp only [wp_bind, Hoare.wp_get, hobject, wp_orRaise_some]
  rw [if_neg (by simp [hsize, hdigest])]
  exact ⟨rfl, rfl⟩

end Store

/-- The content of a version can be normalized, stored and projected. -/
structure Completable (c : Components) (db : Database) (source : Source)
    (version : DocumentVersion) (content : ByteArray) (parsed : ParsedDocument) : Prop where
  parse : c.parse content = some parsed
  size : parsed.normalizedText.toUTF8.size ≤ DocumentStore.maxBytes
  admits : (c.projection source version content).chunks = [] ∨
    db.Admits (c.projection source version content)

namespace IngestionPipeline

variable {c : Components} {operation : Operation} {event : SourceEvent}
  {submission : Submission} {content : ByteArray} {job : IngestionJob} {db : Database}
  {w : World} {parsed : ParsedDocument}

/-! ## Saving -/

theorem returns_saveJob {job' : IngestionJob} (hs : Saved db w.database job)
    (ht : job'.tenantId = job.tenantId) (hi : job'.id = job.id) :
    Returns (IngestionRepository.saveJob {} operation job') w :=
  wp_saveJob hs ht hi (fun _ _ _ _ => trivial) fun _ hf => absurd hf.symm (Option.some_ne_none _)

theorem returns_advance {target : JobState} (hs : Saved db w.database job)
    (hr : job.state ≠ .retrying) (ht : target ∈ job.state.permitted) :
    Returns (advance {} operation job target) w :=
  wp_advance hs hr ht (fun _ _ _ _ => trivial) fun _ hf => absurd hf.symm (Option.some_ne_none _)

/-- A parked job can be taken up. -/
theorem returns_leaveWaiting {filed : Prop} (hs : Saved db w.database job)
    (hparked : job.Parked filed) (hopen : job.state.terminal = false) :
    Returns (leaveWaiting {} job) w := by
  unfold IngestionJob.Parked at hparked
  cases leavesWaiting {} hopen with
  | queued hstate hstep =>
    rw [hstep]
    exact returns_saveJob hs rfl rfl
  | resumed checkpoint hstate hresume hstep =>
    rw [hstep]
    exact returns_saveJob hs rfl rfl
  | stuck hstate hresume _ =>
    simp only [hstate, hresume] at hparked
    obtain ⟨checkpoint, hnone, -⟩ := hparked
    cases hnone
  | staying _ hstep =>
    rw [hstep]
    trivial

/-! ## The stages -/

theorem returns_fetch (hP : c.platform.CollisionFree) (hintact : Intact c.platform w.objects)
    (hsize : content.size ≤ DocumentStore.maxBytes) (hs : Saved db w.database job)
    (hst : job.state = .fetching) : Returns (fetch c {} event content job) w := by
  unfold fetch
  refine (returns_put hP hintact hsize).bind (wp_put_stocks hP hintact) fun raw w₁ hput => ?_
  have hs₁ : Saved db w₁.database job := hput.2.1.database ▸ hs
  refine Returns.bind (returns_advance hs₁ (by simp [hst]) (by simp [hst, JobState.permitted]))
    wp_self fun _ _ _ => ?_
  trivial

/-- The references that `PARSING` records agree with what the version has. -/
def Agreeing (c : Components) (versions : DocumentVersions) (event : SourceEvent)
    (submission : Submission) (content : ByteArray) (parsed : ParsedDocument) : Prop :=
  ∃ v, versions.find (versionKey event submission) = some v ∧
    refAgrees v.rawRef (rawArtifact c event content).key = true ∧
    refAgrees v.normalizedRef (parsed.artifact c.platform event.source.tenantId).key = true

theorem returns_updateArtifacts
    (hagrees : Agreeing c w.database.documentVersions event submission content parsed) :
    Returns (IngestionRepository.updateArtifacts {} event.source.tenantId submission.version.id
      (rawArtifact c event content).key (parsed.artifact c.platform event.source.tenantId).key)
      w := by
  obtain ⟨v, hfind, hraw, hnormalized⟩ := hagrees
  have hupdate : ∃ versions, w.database.documentVersions.updateArtifacts event.source.tenantId
      submission.version.id (rawArtifact c event content).key
      (parsed.artifact c.platform event.source.tenantId).key = some versions := by
    unfold DocumentVersions.updateArtifacts
    unfold versionKey at hfind
    simp only [hfind, hraw, hnormalized, Bool.and_self, if_true]
    exact ⟨_, rfl⟩
  obtain ⟨versions, hupdate⟩ := hupdate
  unfold Returns IngestionRepository.updateArtifacts
  simp only [wp_bind, wp_reach_free, wp_readDatabase, hupdate, wp_orRaise_some, wp_writeDatabase]

/-- What `PARSING` does once the raw artifact is there. -/
theorem returns_normalize_rest (hP : c.platform.CollisionFree)
    (hintact : Intact c.platform w.objects)
    (hsize : parsed.normalizedText.toUTF8.size ≤ DocumentStore.maxBytes)
    (hs : Saved db w.database job) (hst : job.state = .parsing)
    (hagrees : Agreeing c w.database.documentVersions event submission content parsed) :
    Returns (do
        let normalized ← DocumentStore.put c.platform {} .putNormalized event.source.tenantId
          .normalized parsed.normalizedText.toUTF8
        IngestionRepository.updateArtifacts {} event.source.tenantId submission.version.id
          (rawArtifact c event content).key normalized.key
        advance {} .saveIndexing job .indexing) w := by
  refine (returns_put hP hintact hsize).bind (wp_put_stocks hP hintact) fun normalized w₁ hput => ?_
  obtain ⟨rfl, hstocked, -⟩ := hput
  have hs₁ : Saved db w₁.database job := hstocked.database ▸ hs
  have hagrees₁ : Agreeing c w₁.database.documentVersions event submission content parsed :=
    hstocked.database ▸ hagrees
  have hspec : wp (IngestionRepository.updateArtifacts {} event.source.tenantId
      submission.version.id (rawArtifact c event content).key
      (parsed.artifact c.platform event.source.tenantId).key)
      (fun _ w' => Saved db w'.database job) (fun _ _ => True) w₁ :=
    wp_updateArtifacts hs₁ (fun _ _ _ hs₂ => hs₂) fun _ => trivial
  refine (returns_updateArtifacts hagrees₁).bind hspec fun _ w₂ hs₂ => ?_
  exact returns_advance hs₂ (by simp [hst]) (by simp [hst, JobState.permitted])

theorem returns_normalize (hP : c.platform.CollisionFree)
    (hintact : Intact c.platform w.objects) (hparse : c.parse content = some parsed)
    (hraw : content.size ≤ DocumentStore.maxBytes)
    (hsize : parsed.normalizedText.toUTF8.size ≤ DocumentStore.maxBytes)
    (hs : Saved db w.database job) (hst : job.state = .parsing)
    (hagrees : Agreeing c w.database.documentVersions event submission content parsed)
    {raw : Option ArtifactRef} (hput : ∀ reference, raw = some reference →
      reference = rawArtifact c event content) :
    Returns (normalize c {} event submission content raw job) w := by
  unfold normalize Returns
  rw [wp_bind, wp_reach_free, hparse, wp_bind, wp_orRaise_some]
  cases raw with
  | some reference =>
    obtain rfl := hput reference rfl
    exact returns_normalize_rest hP hintact hsize hs hst hagrees
  | none =>
    dsimp only
    refine (returns_put hP hintact hraw).bind (wp_put_stocks hP hintact) fun _ w₁ hstored => ?_
    obtain ⟨rfl, hstocked, -⟩ := hstored
    exact returns_normalize_rest hP (hstocked.grown.intact hintact) hsize
      (hstocked.database ▸ hs) hst (hstocked.database ▸ hagrees)

/-- The index takes a projection that the policies admit. -/
theorem returns_upsert {π : VersionProjection} (hadmits : w.database.Admits π) :
    Returns (upsert {} π) w := by
  obtain ⟨reference, policy, hreference, hpolicy, hfits⟩ := hadmits
  unfold Returns upsert validateProjection
  simp only [wp_bind, wp_reach_free, hreference, wp_orRaise_some, wp_readDatabase, hpolicy]
  rw [if_neg hfits]
  simp

theorem returns_prepare (hsub : submission.Of event db) (hs : Saved db w.database job)
    (hsource : event.source ∈ db.sources) (hparse : c.parse content = some parsed)
    (hadmits : (bodyProjection c event submission content).chunks = [] ∨
      db.Admits (bodyProjection c event submission content)) :
    Returns (OpenSearchPreparationSink.prepare {} (prepare c event submission (c.chunk parsed)))
      w := by
  cases hprepared : prepare c event submission (c.chunk parsed) with
  | nil => trivial
  | cons first rest =>
    obtain ⟨version, hsourceFind, hversionFind, hπ⟩ := found_of_prepared hsub hs hsource hparse hprepared
    have hchunks : (bodyProjection c event submission content).chunks ≠ [] := by
      rw [← hπ]
      simp [OpenSearchPreparationSink.projection]
    have hadmits' : w.database.Admits (bodyProjection c event submission content) :=
      (hadmits.resolve_left hchunks).congr hs.sources hs.documents hs.versions
    unfold Returns OpenSearchPreparationSink.prepare
    simp only [wp_bind, wp_reach_free, wp_readDatabase, hsourceFind, hversionFind, wp_raiseAs,
      wp_observe]
    rw [hπ]
    exact returns_upsert hadmits'

theorem returns_index (hsub : submission.Of event db) (hs : Saved db w.database job)
    (hsource : event.source ∈ db.sources) (hst : job.state = .indexing)
    (hparse : c.parse content = some parsed)
    (hadmits : (bodyProjection c event submission content).chunks = [] ∨
      db.Admits (bodyProjection c event submission content)) :
    Returns (index c {} event submission content job) w := by
  unfold index Returns
  simp only [wp_bind, wp_reach_free, hparse, wp_orRaise_some, wp_observe, wp_readDatabase, wp_pure]
  have hs' : Saved db ({ w with log := w.log ++ [.prepared job.tenantId job.id] } : World).database
      job := hs
  refine wp_mono ((returns_prepare hsub hs' hsource hparse hadmits).total
    (wp_prepare_projects hsub hs' hsource hparse)) ?_ fun _ _ h => h
  rintro _ w₁ ⟨-, hw₁⟩
  have hs₁ : Saved db w₁.database job := by
    rw [hw₁]
    exact hs
  refine wp_promote hsub hs₁ (fun _ w₂ _ _ _ hs₂ => ?_)
    fun _ hf => absurd hf.symm (Option.some_ne_none _)
  exact returns_advance hs₂ (by simp [hst]) (by simp [hst, JobState.permitted])

theorem returns_laterStages_indexing {raw : Option ArtifactRef} (hsub : submission.Of event db)
    (hs : Saved db w.database job) (hsource : event.source ∈ db.sources)
    (hst : job.state = .indexing)
    (hready : Completable c db event.source submission.version content parsed) :
    Returns (laterStages c {} event submission content raw job) w := by
  unfold laterStages Returns
  simp only [hst, reduceCtorEq, if_false, if_true, wp_bind, wp_pure, wp_raiseAs]
  exact returns_index hsub hs hsource hst hready.parse hready.admits

theorem returns_laterStages_parsing (hP : c.platform.CollisionFree)
    (hintact : Intact c.platform w.objects) {raw : Option ArtifactRef}
    (hsub : submission.Of event db) (hs : Saved db w.database job)
    (hsource : event.source ∈ db.sources) (hst : job.state = .parsing)
    (hsize : content.size ≤ DocumentStore.maxBytes)
    (hready : Completable c db event.source submission.version content parsed)
    (hagrees : Agreeing c w.database.documentVersions event submission content parsed)
    (hput : ∀ reference, raw = some reference → reference = rawArtifact c event content) :
    Returns (laterStages c {} event submission content raw job) w := by
  unfold laterStages Returns
  simp only [hst, if_true, wp_bind, wp_raiseAs]
  have hnormalize := returns_normalize hP hintact hready.parse hsize hready.size hs hst hagrees hput
  refine wp_mono (hnormalize.total (wp_normalize hs hst fun _ => rfl)) ?_ fun _ _ h => h
  rintro _ w₁ ⟨rfl, hs₁, -, -⟩
  have hlater := @returns_laterStages_indexing c _ _ content _ _ w₁ _ none hsub hs₁ hsource rfl hready
  unfold laterStages Returns at hlater
  simp only [IngestionJob.at, reduceCtorEq, if_false, wp_bind, wp_pure] at hlater
  exact hlater

/-- **The stages return** if the content can be completed. -/
theorem returns_stages (hP : c.platform.CollisionFree) (hintact : Intact c.platform w.objects)
    (hsub : submission.Of event db) (hs : Saved db w.database job)
    (hsource : event.source ∈ db.sources) (hst : job.state.checkpoint ≠ none)
    (hsize : content.size ≤ DocumentStore.maxBytes)
    (hready : Completable c db event.source submission.version content parsed)
    (hagrees : Agreeing c w.database.documentVersions event submission content parsed) :
    Returns (stages c {} event submission content job) w := by
  unfold stages
  cases hstate : job.state with
  | fetching =>
    unfold Returns
    simp only [if_true, wp_bind, wp_raiseAs]
    refine wp_mono ((returns_fetch hP hintact hsize hs hstate).total
      (wp_and (wp_fetch hs hstate) (wp_fetch_stocks hP hintact))) ?_ fun _ _ h => h
    rintro ⟨raw, _⟩ w₁ ⟨⟨rfl, hs₁, -, -⟩, rfl, -, hfetched⟩
    refine returns_laterStages_parsing hP (hfetched.grown.intact hintact) hsub hs₁ hsource rfl hsize
      hready (hfetched.versions ▸ hagrees) ?_
    rintro _ ⟨⟩
    rfl
  | parsing =>
    simp only [reduceCtorEq, if_false]
    exact returns_laterStages_parsing hP hintact hsub hs hsource hstate hsize hready hagrees
      fun _ h => by cases h
  | indexing =>
    simp only [reduceCtorEq, if_false]
    exact returns_laterStages_indexing hsub hs hsource hstate hready
  | queued => exact absurd (by rw [hstate]; rfl) hst
  | retrying => exact absurd (by rw [hstate]; rfl) hst
  | completed => exact absurd (by rw [hstate]; rfl) hst
  | failed => exact absurd (by rw [hstate]; rfl) hst

/-! ## The body -/

/-- The references of a version in order agree with what `PARSING` records. -/
theorem agreeing_of_shelved (hP : c.platform.CollisionFree) (hshelved : Shelved c w)
    (hsub : submission.Of event w.database)
    (hhash : submission.version.contentHash = c.platform.sha256 content)
    (hparse : c.parse content = some parsed) :
    Agreeing c w.database.documentVersions event submission content parsed := by
  have hpk : submission.version.pk = versionKey event submission :=
    congrArg (·, submission.version.id) hsub.tenantId
  refine ⟨submission.version, Table.find_eq_some.2 ⟨hsub.version, hpk⟩, ?_⟩
  rcases hshelved.refs _ hsub.version with ⟨hraw, hnormalized⟩ | ⟨found, parsed', hfiled⟩
  · rw [hraw, hnormalized]
    exact ⟨rfl, rfl⟩
  · have hdigest := (hshelved.intact _ _ hfiled.raw).1
    obtain rfl : found = content := hP.sha256 (hdigest.trans hhash)
    obtain rfl : parsed' = parsed := Option.some.inj (hfiled.parse.symm.trans hparse)
    have hartifact : submission.version.rawArtifact = rawArtifact c event found := by
      unfold DocumentVersion.rawArtifact rawArtifact
      rw [hsub.tenantId, hhash]
    rw [hfiled.rawRef, hfiled.normalizedRef, hartifact, hsub.tenantId]
    exact ⟨beq_self_eq_true _, beq_self_eq_true _⟩

/-- The job is saved as completed. -/
def Completes (job : IngestionJob) (w w' : World) : Prop :=
  ∃ job', SameJob job job' ∧ job'.state = .completed ∧
    w'.database.ingestionJobs = w.database.ingestionJobs.setJob job'

/-- **`_continue`** completes a job that is not terminal. -/
theorem wp_continueJob_completes {maxAttempts : ℕ} {filed : Prop} (hP : c.platform.CollisionFree)
    (hshelved : Shelved c w) (hsub : submission.Of event w.database)
    (hs : Saved w.database w.database job) (hsource : event.source ∈ w.database.sources)
    (hhash : submission.version.contentHash = c.platform.sha256 content)
    (hparked : job.Parked filed) (hopen : job.state.terminal = false)
    (hcontent : event.content = some content) (hkind : event.kind ≠ .malformed)
    (hsize : content.size ≤ DocumentStore.maxBytes)
    (hready : Completable c w.database event.source submission.version content parsed) :
    wp (continueJob c {} maxAttempts event submission job) (fun _ w' => Completes job w w')
      (fun _ _ => False) w := by
  refine wp_continueJob_of hcontent hkind (fun hterm => absurd (hopen.symm.trans hterm) (by decide))
    fun _ => ?_
  refine wp_mono ((returns_leaveWaiting hs hparked hopen).total
    (wp_and (wp_leaveWaiting hs hopen) (wp_leaveWaiting_parked hparked hopen))) ?_ fun _ _ h => h
  rintro job₁ w₁ ⟨⟨hsame, -, -, hcheck, hs₁, -, -⟩, -, -, -, honly⟩
  have hagrees := agreeing_of_shelved hP hshelved hsub hhash hready.parse
  have hintact : Intact c.platform w₁.objects := honly.objects.symm ▸ hshelved.intact
  refine wp_mono ((returns_stages hP hintact hsub hs₁ hsource hcheck hsize hready
    (honly.versions.symm ▸ hagrees)).total (wp_stages hsub hs₁ hcheck)) ?_ fun _ _ h => h.elim
  rintro ⟨_, prepared⟩ w₂ ⟨rfl, hdone, -⟩
  exact ⟨job₁.at .completed, hsame, rfl, hdone.saved.jobs⟩

end IngestionPipeline

/-! ## The delivery -/

section Delivery

open IngestionPipeline (Completes)

variable {c : Components} {tenantId jobId : String} {w : World} {row : JobRow} {source : Source}
  {version : DocumentVersion} {document : Document} {content : ByteArray} {parsed : ParsedDocument}

/-- What `get_delivery` reads of a job. -/
def recordOf (source : Source) (version : DocumentVersion) (document : Document) :
    DeliveryRecord where
  source := source
  canonicalKey := document.canonicalKey
  sourceVersion := version.sourceVersion
  sourceTimestamp := version.sourceTimestamp
  contentHash := version.contentHash

theorem getDelivery_of_content {db : Database}
    (hrow : db.ingestionJobs.find (tenantId, jobId) = some row)
    (hjob : JobContent c db row source version document content) :
    db.getDelivery tenantId jobId = some (recordOf source version document) := by
  have ht : row.job.tenantId = tenantId := congrArg Prod.fst (Table.find_eq_some.1 hrow).2
  have htv : version.tenantId = row.job.tenantId := congrArg Prod.fst hjob.version_pk
  have htd : document.tenantId = version.tenantId := congrArg Prod.fst hjob.document_pk
  have hversion : db.documentVersions.find (tenantId, row.versionId) = some version :=
    Table.find_eq_some.2 ⟨hjob.version_mem, by rw [hjob.version_pk, ht]⟩
  have hdocument : db.documents.find (tenantId, version.documentId) = some document :=
    Table.find_eq_some.2 ⟨hjob.document_mem, by rw [hjob.document_pk, htv, ht]⟩
  have hsource : db.sources.find (tenantId, document.sourceId) = some source :=
    Table.find_eq_some.2 ⟨hjob.source_mem, by rw [hjob.source_pk, htd, htv, ht]⟩
  unfold Database.getDelivery
  rw [hrow]
  simp only [Option.bind_eq_bind, Option.bind_some, hversion, hdocument, hsource]
  rfl

/-- The version of a job is stored. -/
theorem JobContent.stored {db : Database}
    (hjob : JobContent c db row source version document content) :
    VersionStored db ⟨source, document.canonicalKey, version.sourceVersion,
      c.platform.sha256 content, version.sourceTimestamp⟩ document version := by
  have hts : source.tenantId = document.tenantId := congrArg Prod.fst hjob.source_pk
  have his : source.id = document.sourceId := congrArg Prod.snd hjob.source_pk
  have htd : document.tenantId = version.tenantId := congrArg Prod.fst hjob.document_pk
  have hid : document.id = version.documentId := congrArg Prod.snd hjob.document_pk
  refine ⟨hjob.document_mem, ?_, hjob.version_mem, ?_⟩
  · unfold Document.unique SubmitArgs.documentKey
    rw [hts, his]
  · unfold DocumentVersion.unique
    rw [hts, htd, hid]

/-- **A resumed job** that is not terminal is completed. -/
theorem wp_resume_completes (hP : c.platform.CollisionFree) (h : Kept c w)
    (hrow : w.database.ingestionJobs.find (tenantId, jobId) = some row)
    (hjob : JobContent c w.database row source version document content)
    (hopen : row.job.state.terminal = false) (hsize : content.size ≤ DocumentStore.maxBytes)
    (hready : Completable c w.database source version content parsed) :
    wp (IngestionPipeline.resume c {} maxDeliveries tenantId jobId
        ((recordOf source version document).event content))
      (fun _ w' => Completes row.job w w') (fun _ _ => False) w := by
  obtain ⟨hmem, hpk⟩ := Table.find_eq_some.1 hrow
  have htenant : source.tenantId = tenantId := by
    have ht : source.tenantId = row.job.tenantId := congrArg Prod.fst hjob.versionKey
    exact ht.trans (congrArg Prod.fst hpk)
  have hgetJob : w.database.getJob tenantId jobId = some row.job := by
    unfold Database.getJob
    rw [hrow]
    rfl
  have hget : IngestionPipeline.content ((recordOf source version document).event content) =
      pure content := rfl
  unfold IngestionPipeline.resume
  simp only [wp_bind, wp_reach_free, wp_readDatabase, hgetJob, wp_orRaise_some, hget]
  split
  · rename_i hother
    exact absurd htenant hother
  simp only [wp_bind, wp_pure]
  -- the version is stored already, so submitting its event again finds the same rows
  have hknown := wp_submit_known h.consistent hjob.stored hjob.digest.symm
    (show validIdentifier parserVersion = true by decide) hmem hjob.version_pk.symm
  refine wp_mono (wp_and hknown wp_submit_objects) ?_ fun _ _ hf => hf.1
  rintro _ w₁ ⟨⟨rfl, hdb⟩, hobjects⟩
  rw [find_upsert_self hjob.source_mem] at hdb
  split
  · rename_i hother
    exact absurd (congrArg Prod.snd hpk) hother
  have hsaved : Saved w₁.database w₁.database row.job := by
    refine Saved.refl ?_
    have hfind : w.database.getJob row.job.tenantId row.job.id = some row.job := by
      have hkeys : (row.job.tenantId, row.job.id) = (tenantId, jobId) := hpk
      obtain ⟨rfl, rfl⟩ := Prod.mk.inj hkeys
      exact hgetJob
    rw [hdb]
    exact hfind
  have hsub : Submission.Of ⟨document, version, row.job⟩
      ((recordOf source version document).event content) w₁.database := by
    refine ⟨hdb ▸ hjob.version_mem, ?_, (congrArg Prod.snd hjob.document_pk).symm⟩
    have ht : source.tenantId = row.job.tenantId := congrArg Prod.fst hjob.versionKey
    exact (congrArg Prod.fst hjob.version_pk).trans ht.symm
  have hshelved : Shelved c w₁ := h.shelved.of_same (.of_eq hobjects) (by rw [hdb])
  -- what the job needs was said of the database before, which the submission has left
  have hready₁ : Completable c w₁.database source version content parsed := hdb ▸ hready
  refine wp_mono (IngestionPipeline.wp_continueJob_completes hP hshelved hsub hsaved
    (hdb ▸ hjob.source_mem) hjob.digest.symm (h.parked row hmem) hopen rfl
    SourceEventKind.noConfusion hsize hready₁) ?_ fun _ _ hf => hf
  rintro _ w₂ ⟨job', hsame, hstate, hjobs⟩
  exact ⟨job', hsame, hstate, by rw [hjobs, hdb]⟩

theorem wp_body_completes (hP : c.platform.CollisionFree) (h : Kept c w)
    (hrow : w.database.ingestionJobs.find (tenantId, jobId) = some row)
    (hjob : JobContent c w.database row source version document content)
    (hopen : row.job.state.terminal = false)
    (hready : Completable c w.database source version content parsed) :
    wp (body c {} tenantId jobId) (fun _ w' => Completes row.job w w') (fun _ _ => False) w := by
  have ht : row.job.tenantId = tenantId := congrArg Prod.fst (Table.find_eq_some.1 hrow).2
  have hartifact : version.rawArtifact = ⟨tenantId, .raw, version.contentHash⟩ := by
    have htv : version.tenantId = row.job.tenantId := congrArg Prod.fst hjob.version_pk
    unfold DocumentVersion.rawArtifact
    rw [htv, ht]
  -- the content of the job is what is stored under its digest
  obtain ⟨found, hfound⟩ := h.shelved.content version hjob.version_mem
  obtain rfl : found = content := h.shelved.intact.eq hP hfound hjob.digest.symm
  rw [hartifact] at hfound
  have hsize := (h.shelved.intact _ _ hfound).2
  unfold body
  rw [wp_transaction_free]
  simp only [wp_bind, wp_reach_free, wp_readDatabase, getDelivery_of_content hrow hjob,
    wp_orRaise_some]
  refine wp_mono (returns_get h.shelved.intact hfound) ?_ fun _ _ hf => hf
  rintro _ _ ⟨rfl, rfl⟩
  exact wp_resume_completes hP h hrow hjob hopen hsize hready

theorem wp_claim_free (hrow : w.database.ingestionJobs.find (tenantId, jobId) = some row)
    (hopen : row.job.state.terminal = false) (hfew : row.deliveryAttempts < maxDeliveries) :
    wp (claim {} tenantId jobId)
      (fun out w' => out = none ∧ w' = { w with database := { w.database with
        ingestionJobs := w.database.ingestionJobs.countDelivery tenantId jobId } })
      (fun _ _ => False) w := by
  have hclaim : w.database.ingestionJobs.claimDelivery tenantId jobId =
      some (row.deliveryAttempts + 1, w.database.ingestionJobs.countDelivery tenantId jobId) := by
    unfold IngestionJobs.claimDelivery
    simp [hrow, hopen]
  unfold claim
  rw [wp_transaction_free]
  simp only [wp_bind, wp_reach_free, wp_readDatabase, hclaim, wp_writeDatabase]
  rw [if_neg (by omega)]
  exact ⟨rfl, rfl⟩

theorem wp_runJob_completes (hP : c.platform.CollisionFree) (h : Kept c w)
    (hrow : w.database.ingestionJobs.find (tenantId, jobId) = some row)
    (hjob : JobContent c w.database row source version document content)
    (hopen : row.job.state.terminal = false) (hfew : row.deliveryAttempts < maxDeliveries)
    (hready : Completable c w.database source version content parsed) :
    wp (runJob c {} tenantId jobId) (fun _ w' => ∃ row',
      w'.database.ingestionJobs.find (tenantId, jobId) = some row' ∧ row'.job.state = .completed)
      (fun _ _ => False) w := by
  have hpk : row.pk = (tenantId, jobId) := (Table.find_eq_some.1 hrow).2
  unfold runJob
  rw [if_neg Bool.false_ne_true, wp_bind]
  refine wp_mono (wp_claim_free hrow hopen hfew) ?_ fun _ _ hf => hf
  rintro _ _ ⟨rfl, rfl⟩
  obtain ⟨hkept, hcontent⟩ := h.claimed hrow hjob
  have hcounted := find_counted hrow
  have hready₁ : Completable c (w.claimed tenantId jobId
      (w.database.ingestionJobs.countDelivery tenantId jobId)).database source version content
      parsed :=
    ⟨hready.parse, hready.size, hready.admits.imp id fun hadmits =>
      hadmits.congr rfl rfl (.refl _)⟩
  simp only [wp_bind, wp_observe, wp_tryCatch, wp_pure]
  rw [claimed_eq]
  refine wp_mono (wp_body_completes hP hkept hcounted hcontent hopen hready₁) ?_ fun _ _ hf => hf.elim
  rintro _ w' ⟨job', hsame, hstate, hjobs⟩
  have hkeys : (job'.tenantId, job'.id) = (tenantId, jobId) := by
    rw [hsame.1, hsame.2]
    exact hpk
  obtain ⟨rfl, rfl⟩ := Prod.mk.inj hkeys
  refine ⟨{ row.counted with job := row.counted.job.withColumns job' }, ?_, hstate⟩
  rw [hjobs, find_setJob_self]
  exact congrArg (Option.map _) hcounted

/-- **A delivery in which nothing fails completes its job**, if the job may still be delivered and
its content can be completed. -/
theorem step_completes {now : ℤ} (hP : c.platform.CollisionFree) (h : Kept c w)
    (hrow : w.database.ingestionJobs.find (tenantId, jobId) = some row)
    (hjob : JobContent c w.database row source version document content)
    (hopen : row.job.state.terminal = false) (hfew : row.deliveryAttempts < maxDeliveries)
    (hready : Completable c w.database source version content parsed) :
    ∃ row', (w.step c ⟨.deliver tenantId jobId, {}, now⟩).database.ingestionJobs.find
      (tenantId, jobId) = some row' ∧ row'.job.state = .completed := by
  refine wp_state (P := fun w' : World => ∃ row', w'.database.ingestionJobs.find
    (tenantId, jobId) = some row' ∧ row'.job.state = .completed) ?_
  rw [WorkerEvent.perform, wp_bind]
  exact wp_mono (wp_runJob_completes hP (h.at now) hrow hjob hopen hfew hready)
    (fun _ _ hdone => hdone) fun _ _ hf => hf.elim

end Delivery

end GroundedOps.Ingestion
