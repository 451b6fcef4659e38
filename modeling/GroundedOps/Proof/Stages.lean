import GroundedOps.Proof.Artifacts

/-!
# What the stages leave behind

The stages of `_continue` once more, for the artifacts, the references and the index: what each
leaves when it returns and when it raises.

* `wp_stages_keep`: the stages record the artifacts unless the job resumes at `INDEXING`, and
  end with the version projected. What they raise leaves the index the same beside the
  projection, and if it is caught, the references as they were or as `PARSING` records them.
* `wp_continueJob_keeps`: a body keeps the artifacts in order and parks its job.
-/

namespace GroundedOps.Ingestion

open Hoare

/-! ## The index after the last stage -/

/-- What `INDEXING` leaves of the index when it returns. -/
inductive IndexProjected (faults : Faults) (db : Database) (π : VersionProjection)
    (index index' : Index) : Prop
  | empty (hnil : π.chunks = []) (h : index' = index)
  | upserted (hne : π.chunks ≠ []) (admits : db.Admits π)
      (accepted : ∀ id ∈ π.chunkIds, faults.rejected id = false)
      (h : index' = index.upserted π faults.rejected)

theorem IndexProjected.beside {faults : Faults} {db : Database} {π : VersionProjection}
    {index index' : Index} (h : IndexProjected faults db π index index') : π.SameBeside index index' := by
  cases h with
  | empty _ h => exact h ▸ .refl π index
  | upserted _ _ _ h =>
    have hbulk : π.SameBeside index (index.bulk π faults.rejected) :=
      VersionProjection.sameBeside_bulk
    exact h ▸ (hbulk.trans VersionProjection.sameBeside_clearOthers).trans
      VersionProjection.sameBeside_setCurrent

/-- What lets a projection pass is in columns that bodies do not change. -/
theorem Database.Admits.congr {db db' : Database} {π : VersionProjection} (h : db.Admits π)
    (hsources : db'.sources = db.sources) (hdocuments : db'.documents = db.documents)
    (hversions : SameVersions db.documentVersions db'.documentVersions) : db'.Admits π := by
  obtain ⟨reference, policy, hreference, hpolicy, hfits⟩ := h
  refine ⟨reference, policy, hreference, ?_, hfits⟩
  have hany : ∀ versionId, (db'.documentVersions.rows.any fun version =>
        version.pk = (reference.tenantId, versionId) && version.documentId == reference.documentId) =
      db.documentVersions.rows.any fun version =>
        version.pk = (reference.tenantId, versionId) && version.documentId == reference.documentId := by
    intro versionId
    have hmap : ∀ versions : DocumentVersions, (versions.rows.any fun version =>
          version.pk = (reference.tenantId, versionId) && version.documentId == reference.documentId) =
        (versions.rows.map DocumentVersion.bare).any fun version =>
          version.pk = (reference.tenantId, versionId) && version.documentId == reference.documentId := by
      intro versions
      rw [List.any_map]
      rfl
    rw [hmap, hmap, hversions]
  unfold Database.getDocumentPolicy at hpolicy ⊢
  rw [hsources, hdocuments]
  simp only [hany]
  exact hpolicy

namespace IngestionPipeline

variable {c : Components} {faults : Faults} {operation : Operation} {event : SourceEvent}
  {submission : Submission} {content : ByteArray} {job : IngestionJob} {db : Database}
  {w : World} {maxAttempts : ℕ}

/-! ## Saving -/

/-- Neither the objects nor the versions nor the index nor the log have changed. -/
structure JobsOnly (w w' : World) : Prop where
  objects : w'.objects = w.objects
  versions : w'.database.documentVersions = w.database.documentVersions
  index : w'.index = w.index
  log : w'.log = w.log

theorem JobsOnly.refl (w : World) : JobsOnly w w := ⟨rfl, rfl, rfl, rfl⟩

theorem wp_saveJob_only : wp (IngestionRepository.saveJob faults operation job)
    (fun out w' => out = job ∧ JobsOnly w w') (fun _ w' => JobsOnly w w') w := by
  simp only [IngestionRepository.saveJob, wp_bind, wp_reach, wp_readDatabase, wp_orRaise,
    wp_writeDatabase, wp_pure]
  exact ⟨fun _ => ⟨fun _ _ => ⟨trivial, rfl, rfl, rfl, rfl⟩, fun _ => .refl w⟩, fun _ _ => .refl w⟩

theorem wp_advance_only {target : JobState} : wp (advance faults operation job target)
    (fun _ w' => JobsOnly w w') (fun _ w' => JobsOnly w w') w := by
  simp only [advance, wp_bind, wp_orRaise]
  exact ⟨fun _ _ => wp_mono wp_saveJob_only (fun _ _ h => h.2) fun _ _ h => h, fun _ => .refl w⟩

/-! ## `FETCHING` and `PARSING` -/

/-- Objects may have been put, but neither the versions nor the index nor the log have changed. -/
structure Fetched (P : Platform) (w w' : World) : Prop where
  grown : Grown P w w'
  versions : w'.database.documentVersions = w.database.documentVersions
  index : w'.index = w.index
  log : w'.log = w.log

theorem Fetched.of_only {P : Platform} {w' : World} (h : JobsOnly w w') : Fetched P w w' :=
  ⟨.of_eq h.objects, h.versions, h.index, h.log⟩

theorem Fetched.of_stocked {P : Platform} {w' : World} (h : Stocked P w w') : Fetched P w w' :=
  ⟨h.grown, by rw [h.database], h.index, h.log⟩

theorem Fetched.trans {P : Platform} {w₁ w' : World} (h : Fetched P w w₁) (h' : Fetched P w₁ w') :
    Fetched P w w' :=
  ⟨h.grown.trans h'.grown, h'.versions.trans h.versions, h'.index.trans h.index,
    h'.log.trans h.log⟩

/-- The raw artifact of a content. -/
def rawArtifact (c : Components) (event : SourceEvent) (content : ByteArray) : ArtifactRef :=
  ⟨event.source.tenantId, .raw, c.platform.sha256 content⟩

theorem wp_fetch_stocks (hP : c.platform.CollisionFree) (hintact : Intact c.platform w.objects) :
    wp (fetch c faults event content job)
      (fun out w' => out.1 = rawArtifact c event content ∧
        w'.objects (rawArtifact c event content) = some content ∧ Fetched c.platform w w')
      (fun _ w' => Fetched c.platform w w') w := by
  unfold fetch
  rw [wp_bind]
  refine wp_mono (wp_put_stocks hP hintact) ?_ (fun _ _ h => .of_stocked h)
  rintro raw w₁ ⟨hraw, hstocked, hobject⟩
  rw [wp_bind]
  refine wp_mono wp_advance_only ?_ (fun _ _ h => (Fetched.of_stocked hstocked).trans (.of_only h))
  intro _ w₂ honly
  refine ⟨hraw, ?_, (Fetched.of_stocked hstocked).trans (.of_only honly)⟩
  rw [honly.objects]
  exact hobject

/-- What the version is recorded under. -/
def versionKey (event : SourceEvent) (submission : Submission) : String × String :=
  (event.source.tenantId, submission.version.id)

/-- `PARSING` has recorded the artifacts of the version. -/
abbrev Normalized (c : Components) (event : SourceEvent) (submission : Submission)
    (content : ByteArray) (w w' : World) : Prop :=
  Archived c event.source.tenantId submission.version.id content w w' ∧ w'.index = w.index ∧
    w'.log = w.log

/-- What `PARSING` leaves when it raises: nothing is recorded, if the exception is caught. -/
structure NormalizeRaised (P : Platform) (w : World) (raised : Raised) (w' : World) : Prop where
  grown : Grown P w w'
  index : w'.index = w.index
  versions : raised.classified ≠ none →
    w'.database.documentVersions = w.database.documentVersions

theorem NormalizeRaised.of_fetched {P : Platform} {w' : World} {raised : Raised}
    (h : Fetched P w w') : NormalizeRaised P w raised w' :=
  ⟨h.grown, h.index, fun _ => h.versions⟩

theorem wp_updateArtifacts_exact {tenantId versionId rawRef normalizedRef : String} :
    wp (IngestionRepository.updateArtifacts faults tenantId versionId rawRef normalizedRef)
      (fun _ w' => w.database.documentVersions.updateArtifacts tenantId versionId rawRef
          normalizedRef = some w'.database.documentVersions ∧
        w'.objects = w.objects ∧ w'.index = w.index ∧ w'.log = w.log)
      (fun raised w' => w' = w ∧ raised.classified = none) w := by
  simp only [IngestionRepository.updateArtifacts, wp_bind, wp_reach, wp_readDatabase, wp_orRaise,
    wp_writeDatabase]
  refine ⟨fun _ => ⟨fun versions hversions => ⟨hversions, ?_⟩, fun _ => ⟨trivial, rfl⟩⟩,
    fun fault _ => ⟨trivial, classified_raised fault⟩⟩
  exact ⟨trivial, trivial, trivial⟩

/-- `save_job` raises nothing that is caught. -/
theorem wp_advance_unclassified {target : JobState} : wp (advance faults operation job target)
    (fun _ _ => True) (fun raised _ => raised.classified = none) w := by
  simp only [advance, IngestionRepository.saveJob, wp_bind, wp_reach, wp_readDatabase, wp_orRaise,
    wp_writeDatabase, wp_pure]
  exact ⟨fun _ _ => ⟨fun _ => ⟨fun _ _ => trivial, fun _ => rfl⟩,
    fun fault _ => classified_raised fault⟩, fun _ => rfl⟩

/-- What `PARSING` does once the raw artifact is there. -/
theorem wp_normalize_rest_archives (hP : c.platform.CollisionFree) {w₀ : World}
    (hintact : Intact c.platform w.objects) {parsed : ParsedDocument}
    (hparse : c.parse content = some parsed) (hfetched : Fetched c.platform w₀ w)
    (hraw : w.objects (rawArtifact c event content) = some content) :
    wp (do
        let normalized ← DocumentStore.put c.platform faults .putNormalized event.source.tenantId
          .normalized parsed.normalizedText.toUTF8
        IngestionRepository.updateArtifacts faults event.source.tenantId submission.version.id
          (rawArtifact c event content).key normalized.key
        advance faults .saveIndexing job .indexing)
      (fun _ w' => Normalized c event submission content w₀ w')
      (NormalizeRaised c.platform w₀) w := by
  rw [wp_bind]
  refine wp_mono (wp_put_stocks hP hintact) ?_
    (fun _ _ h => .of_fetched (hfetched.trans (.of_stocked h)))
  rintro normalized w₁ ⟨rfl, hstocked, hobject⟩
  have hfetched₁ := hfetched.trans (.of_stocked hstocked)
  rw [wp_bind]
  refine wp_mono wp_updateArtifacts_exact ?_ ?_
  · rintro _ w₂ ⟨hupdate, hobjects, hindex, hlog⟩
    have hgrown₂ : Grown c.platform w₀ w₂ := hfetched₁.grown.trans (.of_eq hobjects)
    refine wp_mono (wp_and wp_advance_only wp_advance_unclassified) ?_ ?_
    · rintro _ w₃ ⟨honly, -⟩
      refine ⟨⟨hgrown₂.trans (.of_eq honly.objects), parsed, hparse, ?_, ?_, ?_⟩, ?_, ?_⟩
      · rw [honly.objects, hobjects]
        exact hstocked.grown.kept _ _ hraw
      · rw [honly.objects, hobjects]
        exact hobject
      · rw [honly.versions, ← hfetched₁.versions]
        exact hupdate
      · exact honly.index.trans (hindex.trans hfetched₁.index)
      · exact honly.log.trans (hlog.trans hfetched₁.log)
    · rintro raised w₃ ⟨honly, hclass⟩
      exact ⟨hgrown₂.trans (.of_eq honly.objects),
        honly.index.trans (hindex.trans hfetched₁.index), fun h => absurd hclass h⟩
  · rintro raised _ ⟨rfl, -⟩
    exact .of_fetched hfetched₁

/-- **`PARSING`** records both artifacts of the version, or nothing if what it raises is caught. -/
theorem wp_normalize_archives (hP : c.platform.CollisionFree)
    (hintact : Intact c.platform w.objects) {raw : Option ArtifactRef}
    (hraw : ∀ reference, raw = some reference → reference = rawArtifact c event content ∧
      w.objects reference = some content) :
    wp (normalize c faults event submission content raw job)
      (fun _ w' => Normalized c event submission content w w') (NormalizeRaised c.platform w) w := by
  have hsame : Fetched c.platform w w := .of_only (.refl w)
  simp only [normalize, wp_bind, wp_reach, wp_orRaise]
  refine ⟨fun _ => ⟨fun parsed hparse => ?_, fun _ => .of_fetched hsame⟩,
    fun _ _ => .of_fetched hsame⟩
  cases raw with
  | some reference =>
    obtain ⟨rfl, hobject⟩ := hraw reference rfl
    exact wp_normalize_rest_archives hP hintact hparse hsame hobject
  | none =>
    dsimp only
    rw [wp_bind]
    refine wp_mono (wp_put_stocks hP hintact) ?_ (fun _ _ h => .of_fetched (.of_stocked h))
    rintro raw w₁ ⟨rfl, hstocked, hobject⟩
    exact wp_normalize_rest_archives hP (hstocked.grown.intact hintact) hparse
      (.of_stocked hstocked) hobject

/-! ## `INDEXING` -/

/-- What the body of a job projects. -/
abbrev bodyProjection (c : Components) (event : SourceEvent) (submission : Submission)
    (content : ByteArray) : VersionProjection :=
  c.projection event.source submission.version content

/-- The sink projects the version, under its source. -/
theorem projection_eq {parsed : ParsedDocument} {version : DocumentVersion}
    {first : PreparedChunk} {rest : List PreparedChunk} (hsub : submission.Of event db)
    (hparse : c.parse content = some parsed)
    (hprepared : prepare c event submission (c.chunk parsed) = first :: rest)
    (hbare : version.bare = submission.version.bare) :
    OpenSearchPreparationSink.projection event.source version first (first :: rest) =
      bodyProjection c event submission content := by
  have hmem : first ∈ prepare c event submission (c.chunk parsed) := by
    rw [hprepared]
    exact List.mem_cons_self
  obtain ⟨chunk, -, rfl⟩ := List.mem_map.1 hmem
  obtain ⟨-, -, -, hstamp, -⟩ := version_of_bare hbare
  have hdocument : submission.document.id = submission.version.documentId := hsub.documentId.symm
  unfold OpenSearchPreparationSink.projection bodyProjection Components.projection
  rw [← hprepared, hstamp, hparse]
  simp only [preparedChunk, hdocument, Option.elim_some, prepare, List.map_map,
    VersionProjection.mk.injEq, true_and]
  rfl

/-- **The sink finds the source and the version of the chunks it is given**, and projects them. -/
theorem found_of_prepared {parsed : ParsedDocument} {first : PreparedChunk} {rest : List PreparedChunk}
    (hsub : submission.Of event db) (hs : Saved db w.database job) (hsource : event.source ∈ db.sources)
    (hparse : c.parse content = some parsed)
    (hprepared : prepare c event submission (c.chunk parsed) = first :: rest) :
    ∃ version, w.database.sources.find (first.tenantId, first.sourceId) = some event.source ∧
      w.database.documentVersions.find (first.tenantId, first.documentVersionId) = some version ∧
      OpenSearchPreparationSink.projection event.source version first (first :: rest) =
        bodyProjection c event submission content := by
  have hmem : first ∈ prepare c event submission (c.chunk parsed) := by
    rw [hprepared]
    exact List.mem_cons_self
  obtain ⟨chunk, -, hfirst⟩ := List.mem_map.1 hmem
  obtain ⟨version, hversion, hbare⟩ := find_version hsub.version hs.versions
  refine ⟨version, ?_, ?_, projection_eq hsub hparse hprepared hbare⟩
  · rw [hs.sources, ← hfirst]
    exact Table.find_of_mem hsource
  · rw [hsub.tenantId] at hversion
    rw [← hfirst]
    exact hversion

theorem wp_prepare_projects {parsed : ParsedDocument} (hsub : submission.Of event db)
    (hs : Saved db w.database job) (hsource : event.source ∈ db.sources)
    (hparse : c.parse content = some parsed) :
    wp (OpenSearchPreparationSink.prepare faults (prepare c event submission (c.chunk parsed)))
      (fun _ w' => IndexProjected faults db (bodyProjection c event submission content) w.index
        w'.index ∧ w' = w.noted w'.index (bodyProjection c event submission content).calls)
      (fun _ w' => (bodyProjection c event submission content).SameBeside w.index w'.index ∧
        ∃ passed, w' = w.noted w'.index passed) w := by
  have hsame : ∃ passed, w = w.noted w.index passed := ⟨[], w.noted_nil.symm⟩
  cases hprepared : prepare c event submission (c.chunk parsed) with
  | nil =>
    have hnil : c.chunk parsed = [] := List.map_eq_nil_iff.1 hprepared
    have hchunks : (bodyProjection c event submission content).chunks = [] := by
      show ((c.parse content).elim [] c.chunk).map _ = []
      rw [hparse, Option.elim_some, hnil, List.map_nil]
    have hcalls : (bodyProjection c event submission content).calls = [] := if_pos hchunks
    rw [hcalls]
    exact ⟨.empty hchunks rfl, w.noted_nil.symm⟩
  | cons first rest =>
    obtain ⟨version, hsourceFind, hversionFind, hπ⟩ := found_of_prepared hsub hs hsource hparse hprepared
    simp only [OpenSearchPreparationSink.prepare, wp_bind, wp_reach, wp_readDatabase]
    have hchunks : (bodyProjection c event submission content).chunks ≠ [] := by
      rw [← hπ]
      simp [OpenSearchPreparationSink.projection]
    have hcalls : (bodyProjection c event submission content).calls =
        [bodyProjection c event submission content] :=
      if_neg hchunks
    refine ⟨fun _ => ?_, fun _ _ => ⟨.refl _ _, hsame⟩⟩
    rw [hsourceFind, hversionFind]
    simp only [wp_raiseAs, wp_bind, wp_reach, wp_observe]
    refine ⟨fun _ => ?_, fun _ _ => ⟨.refl _ _, hsame⟩⟩
    rw [hπ, hcalls]
    refine wp_mono wp_upsert_beside ?_ ?_
    · rintro _ _ ⟨hadmits, haccepted, rfl⟩
      exact ⟨.upserted hchunks (hadmits.congr hs.sources.symm hs.documents.symm hs.versions.symm)
        haccepted rfl, rfl⟩
    · rintro _ _ ⟨index, hbeside, rfl⟩
      exact ⟨hbeside, [_], rfl⟩

/-- What `INDEXING` leaves when it raises. -/
structure IndexRaised (w : World) (π : VersionProjection) (w' : World) : Prop where
  objects : w'.objects = w.objects
  versions : w'.database.documentVersions = w.database.documentVersions
  beside : π.SameBeside w.index w'.index

theorem wp_promote_only {tenantId versionId : String} :
    wp (IngestionRepository.promote c.platform faults tenantId versionId)
      (fun _ w' => JobsOnly w w') (fun _ w' => JobsOnly w w') w := by
  simp only [IngestionRepository.promote, wp_bind, wp_reach, wp_readDatabase, wp_orRaise,
    wp_writeDatabase]
  refine ⟨fun _ => ⟨fun database hpromote => ⟨rfl, ?_, rfl, rfl⟩, fun _ => .refl w⟩,
    fun _ _ => .refl w⟩
  unfold Database.promote at hpromote
  split at hpromote
  · cases hpromote
  · cases hpromote
    rfl

/-- **`INDEXING`** moves nothing but the index, and projects the version if it returns. -/
theorem wp_index_projects (hsub : submission.Of event db) (hs : Saved db w.database job)
    (hsource : event.source ∈ db.sources) :
    wp (index c faults event submission content job)
      (fun _ w' => w'.objects = w.objects ∧
        w'.database.documentVersions = w.database.documentVersions ∧
        IndexProjected faults db (bodyProjection c event submission content) w.index w'.index ∧
        (bodyProjection c event submission content).Passed w w')
      (fun _ w' => IndexRaised w (bodyProjection c event submission content) w') w := by
  have hsame : IndexRaised w (bodyProjection c event submission content) w :=
    ⟨rfl, rfl, .refl _ _⟩
  simp only [index, wp_bind, wp_reach, wp_orRaise, wp_observe, wp_readDatabase, wp_pure]
  refine ⟨fun _ => ⟨fun parsed hparse => ?_, fun _ => hsame⟩, fun _ _ => hsame⟩
  have hs' : Saved db ({ w with log := w.log ++ [.prepared job.tenantId job.id] } : World).database
      job := hs
  refine wp_mono (wp_prepare_projects hsub hs' hsource hparse) ?_ ?_
  · rintro _ w₁ ⟨hprojected, hw₁⟩
    have hobjects : w₁.objects = w.objects := by rw [hw₁]; rfl
    have hversions : w₁.database.documentVersions = w.database.documentVersions := by rw [hw₁]; rfl
    -- the log has one projection more, and the note of the preparation is none
    have hpassed : (bodyProjection c event submission content).Passed w w₁ := by
      unfold VersionProjection.Passed
      rw [hw₁, projections_noted, World.projections, List.filterMap_append]
      congr 1
      exact List.append_nil _
    refine wp_mono wp_promote_only ?_ ?_
    · intro _ w₂ honly
      refine wp_mono wp_advance_only ?_ ?_
      · intro _ w₃ honly₃
        refine ⟨honly₃.objects.trans (honly.objects.trans hobjects),
          honly₃.versions.trans (honly.versions.trans hversions),
          honly₃.index.trans honly.index ▸ hprojected, ?_⟩
        have hpromoted : w₃.projections = w₂.projections := by
          unfold World.projections
          rw [honly₃.log, List.filterMap_append]
          exact List.append_nil _
        exact hpromoted.trans (hpassed.of_log honly.log)
      · intro _ w₃ honly₃
        exact ⟨honly₃.objects.trans (honly.objects.trans hobjects),
          honly₃.versions.trans (honly.versions.trans hversions),
          honly₃.index.trans honly.index ▸ hprojected.beside⟩
    · intro _ w₂ honly
      exact ⟨honly.objects.trans hobjects, honly.versions.trans hversions,
        honly.index ▸ hprojected.beside⟩
  · rintro _ w₁ ⟨hbeside, passed, hw₁⟩
    exact ⟨by rw [hw₁]; rfl, by rw [hw₁]; rfl, hbeside⟩

/-! ## All stages -/

/-- The artifacts after the stages: as they were, or as `PARSING` records them. -/
inductive Archiving (c : Components) (event : SourceEvent) (submission : Submission)
    (content : ByteArray) (unchanged : Prop) (w w' : World) : Prop
  | unchanged (grown : Grown c.platform w w')
      (versions : w'.database.documentVersions = w.database.documentVersions) (h : unchanged)
  | archived (h : Archived c event.source.tenantId submission.version.id content w w')

/-- How the stages end when they return, from the state `start` of the job. -/
structure StagesDone (c : Components) (faults : Faults) (event : SourceEvent)
    (submission : Submission) (content : ByteArray) (db : Database) (start : JobState)
    (w w' : World) : Prop where
  artifacts : Archiving c event submission content (start = .indexing) w w'
  index : IndexProjected faults db (bodyProjection c event submission content) w.index w'.index
  passed : (bodyProjection c event submission content).Passed w w'

/-- How they end when they raise, with the job in the state `state`. -/
structure StagesLeft (c : Components) (event : SourceEvent) (submission : Submission)
    (content : ByteArray) (start state : JobState) (raised : Raised) (w w' : World) : Prop where
  grown : Grown c.platform w w'
  beside : (bodyProjection c event submission content).SameBeside w.index w'.index
  artifacts : raised.classified ≠ none →
    Archiving c event submission content (state = .indexing → start = .indexing) w w'

theorem wp_laterStages_indexing_projects {raw : Option ArtifactRef} (hsub : submission.Of event db)
    (hs : Saved db w.database job) (hsource : event.source ∈ db.sources)
    (hst : job.state = .indexing) :
    wp (laterStages c faults event submission content raw job)
      (fun _ w' => w'.objects = w.objects ∧
        w'.database.documentVersions = w.database.documentVersions ∧
        IndexProjected faults db (bodyProjection c event submission content) w.index w'.index ∧
        (bodyProjection c event submission content).Passed w w')
      (fun out w' => out.1.state = .indexing ∧
        IndexRaised w (bodyProjection c event submission content) w') w := by
  unfold laterStages
  simp only [hst, reduceCtorEq, if_false, if_true, wp_bind, wp_pure, wp_raiseAs]
  exact wp_mono (wp_index_projects hsub hs hsource) (fun _ _ h => h) (fun _ _ h => ⟨trivial, h⟩)

theorem wp_laterStages_parsing_keeps (hP : c.platform.CollisionFree)
    (hintact : Intact c.platform w.objects) {raw : Option ArtifactRef}
    (hsub : submission.Of event db) (hs : Saved db w.database job)
    (hsource : event.source ∈ db.sources) (hst : job.state = .parsing)
    (hraw : ∀ reference, raw = some reference → reference = rawArtifact c event content ∧
      w.objects reference = some content)
    (hput : raw.isSome → faults.fault .putRaw = none) {start : JobState} :
    wp (laterStages c faults event submission content raw job)
      (fun _ w' => StagesDone c faults event submission content db start w w')
      (fun out w' => StagesLeft c event submission content start out.1.state out.2 w w') w := by
  unfold laterStages
  simp only [hst, if_true, wp_bind, wp_raiseAs]
  refine wp_mono (wp_and (wp_normalize hs hst hput) (wp_normalize_archives hP hintact hraw)) ?_ ?_
  · rintro _ w₁ ⟨⟨rfl, hs₁, -, -⟩, harchived, hindex, hlog⟩
    have hlater := @wp_laterStages_indexing_projects c faults _ _ content _ _ w₁ none
      hsub hs₁ hsource rfl
    unfold laterStages at hlater
    simp only [IngestionJob.at, reduceCtorEq, if_false, wp_bind, wp_pure] at hlater
    refine wp_mono hlater ?_ ?_
    · rintro _ w' ⟨hobjects, hversions, hprojected, hpassed⟩
      exact ⟨.archived (harchived.of_same hobjects hversions), hindex ▸ hprojected,
        hpassed.after hlog⟩
    · rintro out w' ⟨-, h⟩
      exact ⟨harchived.grown.trans (.of_eq h.objects), hindex ▸ h.beside,
        fun _ => .archived (harchived.of_same h.objects h.versions)⟩
  · rintro raised w' ⟨-, h⟩
    exact ⟨h.grown, h.index.symm ▸ .refl _ _, fun hclass =>
      .unchanged h.grown (h.versions hclass) fun hindexing => by cases hindexing⟩

theorem StagesDone.of_fetched {start : JobState} {w₁ w' : World} (hstart : start ≠ .indexing)
    (hfetched : Fetched c.platform w w₁)
    (h : StagesDone c faults event submission content db start w₁ w') :
    StagesDone c faults event submission content db start w w' := by
  refine ⟨?_, hfetched.index ▸ h.index, h.passed.after hfetched.log⟩
  cases h.artifacts with
  | unchanged _ _ h => exact absurd h hstart
  | archived h => exact .archived (h.after hfetched.grown hfetched.versions)

theorem StagesLeft.of_fetched {start state : JobState} {raised : Raised} {w₁ w' : World}
    (hfetched : Fetched c.platform w w₁)
    (h : StagesLeft c event submission content start state raised w₁ w') :
    StagesLeft c event submission content start state raised w w' := by
  refine ⟨hfetched.grown.trans h.grown, hfetched.index ▸ h.beside, fun hclass => ?_⟩
  cases h.artifacts hclass with
  | unchanged hgrown hversions hsame =>
    exact .unchanged (hfetched.grown.trans hgrown) (hversions.trans hfetched.versions) hsame
  | archived h => exact .archived (h.after hfetched.grown hfetched.versions)

/-- **The stages**: they record the artifacts, unless the job is at `INDEXING` already, and
project the version; or raise. -/
theorem wp_stages_keep (hP : c.platform.CollisionFree) (hintact : Intact c.platform w.objects)
    (hsub : submission.Of event db) (hs : Saved db w.database job)
    (hsource : event.source ∈ db.sources) (hst : job.state.checkpoint ≠ none) :
    wp (stages c faults event submission content job)
      (fun _ w' => StagesDone c faults event submission content db job.state w w')
      (fun out w' => StagesLeft c event submission content job.state out.1.state out.2 w w') w := by
  unfold stages
  cases hstate : job.state with
  | fetching =>
    simp only [if_true, wp_bind, wp_raiseAs]
    refine wp_mono (wp_and (wp_fetch hs hstate) (wp_fetch_stocks hP hintact)) ?_ ?_
    · rintro ⟨raw, _⟩ w₁ ⟨⟨rfl, hs₁, -, hclear⟩, rfl, hobject, hfetched⟩
      refine wp_mono (wp_laterStages_parsing_keeps hP (hfetched.grown.intact hintact) hsub hs₁
        hsource rfl ?_ fun _ => hclear .putRaw (by decide))
        (fun _ _ h => h.of_fetched (by decide) hfetched) (fun _ _ h => h.of_fetched hfetched)
      rintro _ ⟨⟩
      exact ⟨rfl, hobject⟩
    · rintro raised w' ⟨-, h⟩
      exact ⟨h.grown, h.index.symm ▸ .refl _ _, fun _ =>
        .unchanged h.grown h.versions fun hindexing => by cases hstate.symm.trans hindexing⟩
  | parsing =>
    simp only [reduceCtorEq, if_false]
    exact wp_laterStages_parsing_keeps hP hintact hsub hs hsource hstate
      (fun _ h => by cases h) (fun h => by cases h)
  | indexing =>
    simp only [reduceCtorEq, if_false]
    refine wp_mono (wp_laterStages_indexing_projects hsub hs hsource hstate) ?_ ?_
    · rintro _ w' ⟨hobjects, hversions, hprojected, hpassed⟩
      exact ⟨.unchanged (.of_eq hobjects) hversions rfl, hprojected, hpassed⟩
    · rintro out w' ⟨-, h⟩
      exact ⟨.of_eq h.objects, h.beside,
        fun _ => .unchanged (.of_eq h.objects) h.versions fun _ => rfl⟩
  | queued => exact absurd (by rw [hstate]; rfl) hst
  | retrying => exact absurd (by rw [hstate]; rfl) hst
  | completed => exact absurd (by rw [hstate]; rfl) hst
  | failed => exact absurd (by rw [hstate]; rfl) hst

/-! ## The body -/

end IngestionPipeline

/-- What a job looks like between two events; `filed` says whether its version is filed. -/
def IngestionJob.Parked (job : IngestionJob) (filed : Prop) : Prop :=
  match job.state with
  | .queued => job.errorClass = none ∧ job.resumeFrom = none
  | .retrying => ∃ checkpoint, job.resumeFrom = some checkpoint ∧ (checkpoint = .indexing → filed)
  | .completed => job.errorClass = none ∧ job.resumeFrom = none ∧ filed
  | .failed => True
  | _ => False

theorem IngestionJob.Parked.imp {job : IngestionJob} {filed filed' : Prop}
    (h : job.Parked filed) (himp : filed → filed') : job.Parked filed' := by
  unfold IngestionJob.Parked at h ⊢
  cases hstate : job.state with
  | queued => simpa [hstate] using h
  | fetching => simp [hstate] at h
  | parsing => simp [hstate] at h
  | indexing => simp [hstate] at h
  | completed =>
    simp only [hstate] at h
    exact ⟨h.1, h.2.1, himp h.2.2⟩
  | retrying =>
    simp only [hstate] at h
    obtain ⟨checkpoint, hresume, hfiled⟩ := h
    exact ⟨checkpoint, hresume, fun hindexing => himp (hfiled hindexing)⟩
  | failed => trivial

namespace IngestionPipeline

variable {c : Components} {faults : Faults} {event : SourceEvent} {submission : Submission}
  {content : ByteArray} {job : IngestionJob} {db : Database} {w : World} {maxAttempts : ℕ}

theorem wp_leaveWaiting_parked {filed : Prop} (hparked : job.Parked filed)
    (hopen : job.state.terminal = false) :
    wp (leaveWaiting faults job)
      (fun out w' => out.errorClass = none ∧ out.resumeFrom = none ∧
        (out.state = .indexing → filed) ∧ JobsOnly w w')
      (fun _ w' => JobsOnly w w') w := by
  unfold IngestionJob.Parked at hparked
  cases leavesWaiting faults hopen with
  | queued hstate hstep =>
    simp only [hstate] at hparked
    rw [hstep]
    refine wp_mono wp_saveJob_only ?_ (fun _ _ h => h)
    rintro _ w' ⟨rfl, honly⟩
    exact ⟨hparked.1, hparked.2, fun h => JobState.noConfusion h, honly⟩
  | resumed checkpoint hstate hresume hstep =>
    simp only [hstate, hresume] at hparked
    obtain ⟨_, heq, hfiled⟩ := hparked
    cases heq
    rw [hstep]
    refine wp_mono wp_saveJob_only ?_ (fun _ _ h => h)
    rintro _ w' ⟨rfl, honly⟩
    refine ⟨rfl, rfl, fun hindexing => hfiled ?_, honly⟩
    cases checkpoint with
    | fetching => cases hindexing
    | parsing => cases hindexing
    | indexing => rfl
  | stuck _ _ hstep =>
    rw [hstep]
    exact .refl w
  | staying hcheck _ =>
    -- a parked job is in no stage
    cases hstate : job.state <;> simp [hstate, JobState.checkpoint] at hparked hcheck

/-- A failed attempt leaves its job failed, or waiting at the stage that failed. -/
theorem wp_failedAttempt_parks {errorClass : ErrorClass} (hs : Saved db w.database job)
    (hst : job.state.checkpoint ≠ none) :
    wp (failedAttempt faults maxAttempts submission job errorClass)
      (fun _ w' => ∃ job', SameJob job job' ∧ Saved db w'.database job' ∧ JobsOnly w w' ∧
        (job'.state = .failed ∨ job'.state = .retrying ∧ job'.resumeFrom = job.state.checkpoint))
      (fun _ w' => JobsOnly w w') w := by
  obtain ⟨checkpoint, hcheckpoint⟩ := Option.ne_none_iff_exists'.1 hst
  rw [failedAttempt_eq hcheckpoint, wp_bind]
  refine wp_mono (wp_and wp_saveJob_only (wp_saveJob hs sameJob_afterFailure.1 sameJob_afterFailure.2
    (N := fun out w' => Saved db w'.database out) (E := fun _ _ => True)
    (fun _ _ _ h => h) (fun _ _ => trivial))) ?_ (fun _ _ h => h.1)
  rintro _ w' ⟨⟨rfl, honly⟩, hs'⟩
  refine ⟨_, sameJob_afterFailure, hs', honly, ?_⟩
  unfold IngestionJob.afterFailure
  dsimp only
  split
  · exact Or.inl rfl
  · exact Or.inr ⟨rfl, hcheckpoint.symm⟩

theorem Archiving.shelves {unchanged : Prop} {w' : World} {version : DocumentVersion}
    (hs : Shelved c w) (hv : version ∈ w.database.documentVersions)
    (hpk : version.pk = versionKey event submission)
    (hhash : version.contentHash = c.platform.sha256 content)
    (h : Archiving c event submission content unchanged w w') :
    Shelves c w w' ∧ (unchanged ∨ FiledIn c w' (versionKey event submission)) := by
  cases h with
  | unchanged grown versions h => exact ⟨hs.shelves grown versions, Or.inl h⟩
  | archived h =>
    have hshelves := h.shelves hs hv hpk hhash
    exact ⟨hshelves.1, Or.inr hshelves.2⟩

/-- What a body leaves that returns: the job parked, and the version projected if it is
completed. -/
structure BodyKeeps (c : Components) (faults : Faults) (π : VersionProjection)
    (versionKey : String × String) (job : IngestionJob) (w w' : World) : Prop where
  shelves : Shelves c w w'
  beside : π.SameBeside w.index w'.index
  job : ∃ job', SameJob job job' ∧
    w'.database.ingestionJobs = w.database.ingestionJobs.setJob job' ∧
    job'.Parked (FiledIn c w' versionKey) ∧
    (job'.state = .completed → job.state.terminal = false →
      IndexProjected faults w.database π w.index w'.index ∧ π.Passed w w')

/-- What a body leaves that raises, outside the database. -/
structure BodyStops (c : Components) (π : VersionProjection) (w w' : World) : Prop where
  grown : Grown c.platform w w'
  beside : π.SameBeside w.index w'.index

theorem BodyStops.refl {π : VersionProjection} (w : World) : BodyStops c π w w :=
  ⟨.refl w, .refl _ _⟩

theorem BodyStops.of_only {π : VersionProjection} {w₁ w' : World} (h : JobsOnly w₁ w')
    (h₁ : BodyStops c π w w₁) : BodyStops c π w w' :=
  ⟨h₁.grown.trans (.of_eq h.objects), h.index.symm ▸ h₁.beside⟩

/-- **`_continue`** keeps the artifacts in order and parks the job. -/
theorem wp_continueJob_keeps (hP : c.platform.CollisionFree) (hshelved : Shelved c w)
    (hsub : submission.Of event w.database) (hs : Saved w.database w.database job)
    (hsource : event.source ∈ w.database.sources)
    (hhash : submission.version.contentHash = c.platform.sha256 content)
    (hparked : job.Parked (FiledIn c w (versionKey event submission)))
    (hcontent : event.content = some content) (hkind : event.kind ≠ .malformed) :
    wp (continueJob c faults maxAttempts event submission job)
      (fun _ w' => BodyKeeps c faults (bodyProjection c event submission content)
        (versionKey event submission) job w w')
      (fun _ w' => BodyStops c (bodyProjection c event submission content) w w') w := by
  refine wp_continueJob_of hcontent hkind (fun hterm => ?_) fun hopen => ?_
  · have hself : w.database.ingestionJobs = w.database.ingestionJobs.setJob job := hs.jobs
    exact ⟨hshelved.shelves (.refl w) rfl, .refl _ _, job, ⟨rfl, rfl⟩, hself, hparked,
      fun _ hopen => absurd hterm (by rw [hopen]; decide)⟩
  refine wp_mono (wp_and (wp_leaveWaiting hs hopen) (wp_leaveWaiting_parked hparked hopen)) ?_
    (fun _ _ h => (BodyStops.refl w).of_only h.2)
  rintro job₁ w₁ ⟨⟨hsame₁, -, -, hcheck, hs₁, -, -⟩, herror, hresume, hfiled, honly⟩
  have hshelved₁ : Shelved c w₁ := hshelved.of_same (.of_eq honly.objects) honly.versions
  have hshelves₁ : Shelves c w w₁ := hshelved.shelves (.of_eq honly.objects) honly.versions
  have hpk : submission.version.pk = versionKey event submission :=
    congrArg (·, submission.version.id) hsub.tenantId
  have hversion₁ : submission.version ∈ w₁.database.documentVersions :=
    honly.versions ▸ hsub.version
  -- a job that starts at `INDEXING` has been filed before
  have hbefore : ∀ {w₂}, Shelves c w₁ w₂ → job₁.state = .indexing →
      FiledIn c w₂ (versionKey event submission) := by
    intro w₂ hshelves₂ hindexing
    have hfiled₁ := (hfiled hindexing).kept hshelves₁.grown hshelves₁.refs
    exact hfiled₁.kept hshelves₂.grown hshelves₂.refs
  refine wp_mono (wp_and (wp_stages hsub hs₁ hcheck)
    (wp_stages_keep hP hshelved₁.intact hsub hs₁ hsource hcheck)) ?_ ?_
  · rintro ⟨_, prepared⟩ w₂ ⟨⟨rfl, hdone, -⟩, hkept⟩
    obtain ⟨hshelves₂, hresumed⟩ := hkept.artifacts.shelves hshelved₁ hversion₁ hpk hhash
    have hfiled₂ : FiledIn c w₂ (versionKey event submission) :=
      hresumed.elim (hbefore hshelves₂) id
    refine ⟨hshelves₁.trans hshelves₂, honly.index ▸ hkept.index.beside,
      job₁.at .completed, hsame₁, hdone.saved.jobs, ⟨herror, hresume, hfiled₂⟩, fun _ _ => ?_⟩
    exact ⟨honly.index ▸ hkept.index, hkept.passed.after honly.log⟩
  · rintro ⟨job₂, raised⟩ w₂ ⟨hraised, hleft⟩
    obtain ⟨s, hcheck₂, hout⟩ := hraised.stage
    have hstopped : BodyStops c (bodyProjection c event submission content) w w₂ :=
      ⟨hshelves₁.grown.trans hleft.grown, honly.index ▸ hleft.beside⟩
    dsimp only at hout hleft
    refine ⟨fun errorClass hclass => ?_, fun _ => hstopped⟩
    · have hcaught : raised.classified ≠ none := by rw [hclass]; simp
      have hs₂ := hraised.raised.saved hcaught
      obtain ⟨hshelves₂, hresumed⟩ :=
        (hleft.artifacts hcaught).shelves hshelved₁ hversion₁ hpk hhash
      subst hout
      refine wp_mono (wp_failedAttempt_parks hs₂ hcheck₂) ?_ (fun _ _ h => hstopped.of_only h)
      rintro outcome w₃ ⟨job', hsame', hs₃, honly₃, hstate⟩
      have hshelves₃ : Shelves c w₂ w₃ :=
        hshelves₂.shelved.shelves (.of_eq honly₃.objects) honly₃.versions
      refine ⟨(hshelves₁.trans hshelves₂).trans hshelves₃, (hstopped.of_only honly₃).beside, job',
        ⟨hsame'.1.trans hsame₁.1, hsame'.2.trans hsame₁.2⟩, hs₃.jobs, ?_, ?_⟩
      · unfold IngestionJob.Parked
        rcases hstate with hfailed | ⟨hretrying, hcheckpoint⟩
        · rw [hfailed]
          trivial
        · -- it will resume at the stage that failed
          rw [hretrying]
          obtain ⟨checkpoint, hsome⟩ := Option.ne_none_iff_exists'.1 hcheck₂
          refine ⟨checkpoint, hcheckpoint.trans hsome, ?_⟩
          rintro rfl
          have hindexing : s = .indexing := by
            cases s <;> first | rfl | cases hsome
          have hfiled₂ : FiledIn c w₂ (versionKey event submission) :=
            hresumed.elim (fun hwas => hbefore hshelves₂ (hwas hindexing)) id
          exact hfiled₂.kept hshelves₃.grown hshelves₃.refs
      · intro hcompleted
        rcases hstate with hfailed | ⟨hretrying, -⟩
        · rw [hfailed] at hcompleted
          cases hcompleted
        · rw [hretrying] at hcompleted
          cases hcompleted

end IngestionPipeline

end GroundedOps.Ingestion
