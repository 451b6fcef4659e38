import GroundedOps.Proof.Lifecycle
import GroundedOps.Proof.Scans
import GroundedOps.Spec.Parsing
import GroundedOps.Spec.Replay

/-!
# Replay calls the index writer as ingestion did

Ingestion and replay build the projection of a version in two places: the sink from the chunks
that the pipeline prepared, replay from the stored artifacts and the rows of its query.

* `Components.Numbered`: the chunks carry their positions, as those of Markdown do.
* `wp_replayVersion`: what the body of the loop passes to the writer, and what it leaves.
* `completionCalls`: the calls of the writer in the event in which a version was completed.
* `completion_calls`: they pass the projection of the content, under the source of that time.
* `replay_calls`: **row by row, replay passes what ingestion had passed.**
-/

namespace GroundedOps.Ingestion

open Hoare

/-! ## Chunks that carry their positions -/

def Components.Numbered (c : Components) : Prop :=
  ∀ parsed, (c.chunk parsed).map Chunk.ordinal = List.range (c.chunk parsed).length

theorem markdown_numbered (platform : Platform) (chunker : StructuralChunker) :
    (markdownComponents platform chunker).Numbered := by
  intro parsed
  show ((chunker.chunk parsed).map CountedChunk.toChunk).map Chunk.ordinal = _
  apply List.ext_getElem
  · simp [markdownComponents]
  · intro i _ _
    simp [StructuralChunker.chunk, StructuralChunker.buildChunk]

section Body

variable {c : Components} {validDigest : String → Bool} {faults : Faults} {row : ReplayRow}
  {w : World}

/-- A chunk finds its own id under its position. -/
theorem replayChunk_eq (hn : c.Numbered) {parsed : ParsedDocument} {chunk : Chunk}
    (h : chunk ∈ c.chunk parsed) (versionId : String) :
    replayChunk c (chunkIdsOf c versionId (c.chunk parsed)) chunk =
      pure (c.indexChunk versionId chunk) := by
  obtain ⟨i, hi, rfl⟩ := List.mem_iff_getElem.1 h
  have hordinal : (c.chunk parsed)[i].ordinal = i := by
    have hmap : ((c.chunk parsed).map Chunk.ordinal)[i]? = some i := by
      rw [hn parsed, List.getElem?_range hi]
    rw [List.getElem?_map, List.getElem?_eq_getElem hi] at hmap
    exact Option.some.inj hmap
  have hid : (chunkIdsOf c versionId (c.chunk parsed))[(c.chunk parsed)[i].ordinal]? =
      some (c.platform.keyOf versionId (toString (c.chunk parsed)[i].ordinal)) := by
    unfold chunkIdsOf
    rw [List.getElem?_map, hordinal, List.getElem?_eq_getElem hi, Option.map_some, hordinal]
  unfold replayChunk
  rw [hid]
  rfl

/-! ## The body of the loop -/

/-- What replay passes for the row, if `raw` is the content of its version. -/
def ReplayRow.projects (c : Components) (row : ReplayRow) (raw : ByteArray) : VersionProjection :=
  row.projection (((c.parse raw).elim [] c.chunk).map (c.indexChunk row.version.id))

/-- `_reference` reads and changes nothing. -/
theorem wp_reference {tenant : String} {kind : ArtifactKind} {key : Option String}
    {N : ArtifactRef → World → Prop} {E : ReplayError → World → Prop} (hN : ∀ r, N r w)
    (hE : ∀ e, E e w) : wp (reference validDigest tenant kind key) N E w := by
  unfold reference
  split
  · exact hE _
  · split
    · split
      · exact hE _
      · split
        · exact hN _
        · exact hE _
    · exact hE _

/-- **The body of the loop** projects the content that the digest of its version names. -/
theorem wp_replayVersion (hn : c.Numbered) : wp (replayVersion c validDigest faults row)
    (fun _ w' => ∃ raw, c.platform.sha256 raw = row.version.contentHash ∧
      IndexProjected faults w.database (row.projects c raw) w.index w'.index ∧
      w' = w.noted w'.index (row.projects c raw).calls)
    (fun _ w' => ∃ passed, w' = w.noted w'.index passed ∧ (passed = [] ∨
      ∃ raw, c.platform.sha256 raw = row.version.contentHash ∧
        passed = (row.projects c raw).calls)) w := by
  -- a step that raises before the upsert leaves the world and passes nothing
  have hsame : ∃ passed, w = w.noted w.index passed ∧ (passed = [] ∨
      ∃ raw, c.platform.sha256 raw = row.version.contentHash ∧
        passed = (row.projects c raw).calls) := ⟨[], w.noted_nil.symm, Or.inl rfl⟩
  unfold replayVersion
  rw [wp_bind]
  refine wp_reference (fun rawRef => ?_) fun _ => hsame
  simp only [wp_bind, wp_raiseAs, wp_reach]
  refine ⟨fun _ => ?_, fun _ _ => hsame⟩
  refine DocumentStore.wp_getObject (fun raw _ => ?_) hsame
  refine wp_reference (fun normalizedRef => ?_) fun _ => hsame
  refine DocumentStore.wp_getObject (fun normalized _ => ?_) hsame
  split
  · exact hsame
  rename_i hdigest
  -- from here on the bytes read are those the version was made of
  rw [ne_eq, not_not] at hdigest
  simp only [wp_bind, wp_raiseAs, wp_orRaise]
  refine ⟨fun parsed hparse => ?_, fun _ => hsame⟩
  split
  · exact hsame
  have hchunks : (row.projects c raw).chunks =
      (c.chunk parsed).map (c.indexChunk row.version.id) := by
    show ((c.parse raw).elim [] c.chunk).map _ = _
    rw [hparse, Option.elim_some]
  split
  · rename_i hempty
    have hnil : (row.projects c raw).chunks = [] := by
      rw [hchunks, List.isEmpty_iff.1 hempty, List.map_nil]
    have hcalls : (row.projects c raw).calls = [] := if_pos hnil
    refine ⟨raw, hdigest, .empty hnil rfl, ?_⟩
    rw [hcalls]
    exact w.noted_nil.symm
  · rename_i hne
    have hsome : (row.projects c raw).chunks ≠ [] := by
      intro hnil
      rw [hchunks, List.map_eq_nil_iff] at hnil
      exact hne (List.isEmpty_iff.2 hnil)
    have hcalls : (row.projects c raw).calls = [row.projects c raw] := if_neg hsome
    have hprojects : row.projection ((c.chunk parsed).map (c.indexChunk row.version.id)) =
        row.projects c raw := by
      unfold ReplayRow.projects
      rw [hparse, Option.elim_some]
    rw [mapM_eq_pure fun chunk hchunk => replayChunk_eq hn hchunk row.version.id]
    simp only [wp_bind, wp_pure, wp_raiseAs, wp_observe, hprojects]
    refine wp_mono wp_upsert_beside ?_ ?_
    · rintro _ _ ⟨hadmits, haccepted, rfl⟩
      refine ⟨raw, hdigest, .upserted hsome hadmits haccepted rfl, ?_⟩
      rw [hcalls]
      rfl
    · rintro _ _ ⟨index, -, rfl⟩
      exact ⟨[row.projects c raw], rfl, Or.inr ⟨raw, hdigest, hcalls.symm⟩⟩

end Body

/-! ## The rows of the query -/

section Rows

variable {P : Platform} {db : Database} {row : ReplayRow}

/-- A row of the query joins a completed version with its document and its source. -/
structure ReplayRow.Joins (db : Database) (row : ReplayRow) : Prop where
  completed : db.ingestionJobs.completed row.version.pk
  version : row.version ∈ db.documentVersions
  document : row.document ∈ db.documents
  document_pk : row.document.pk = (row.version.tenantId, row.version.documentId)
  active : row.document.active = true
  source : row.source ∈ db.sources
  source_pk : row.source.pk = (row.document.tenantId, row.document.sourceId)

theorem joins_of_mem (h : row ∈ db.replayRows P) : row.Joins db := by
  obtain ⟨job, hjob, hrow⟩ := List.mem_filterMap.1 (List.mem_mergeSort.1 h)
  unfold Database.replayRow at hrow
  simp only [guard, Option.bind_eq_bind, Option.bind_eq_some_iff, Option.pure_def] at hrow
  obtain ⟨_, hstate, version, hversion, document, hdocument, _, hactive, source, hsource, heq⟩ := hrow
  cases heq
  obtain ⟨hvmem, hvpk⟩ := Table.find_eq_some.1 hversion
  obtain ⟨hdmem, hdpk⟩ := Table.find_eq_some.1 hdocument
  obtain ⟨hsmem, hspk⟩ := Table.find_eq_some.1 hsource
  refine ⟨⟨job, hjob, hvpk.symm, ?_⟩, hvmem, hdmem, hdpk, ?_, hsmem, hspk⟩
  · by_contra hne
    rw [if_neg hne] at hstate
    cases hstate
  · by_contra hne
    rw [if_neg hne] at hactive
    cases hactive

end Rows

/-! ## The same projection -/

/-- Two projections are of the same version, with the same chunks in the same order: they are
equal but for the policy. -/
structure VersionProjection.Agrees (π π' : VersionProjection) : Prop where
  tenantId : π'.tenantId = π.tenantId
  sourceId : π'.sourceId = π.sourceId
  documentId : π'.documentId = π.documentId
  documentVersionId : π'.documentVersionId = π.documentVersionId
  sourceTimestamp : π'.sourceTimestamp = π.sourceTimestamp
  chunks : π'.chunks = π.chunks

/-- A version of the tables, its document, a source under which it may have been projected, and
its content. -/
structure VersionContent (c : Components) (db : Database) (k : String × String) (source : Source)
    (version : DocumentVersion) (document : Document) (content : ByteArray) : Prop where
  version_mem : version ∈ db.documentVersions
  version_pk : version.pk = k
  document_mem : document ∈ db.documents
  document_pk : document.pk = (version.tenantId, version.documentId)
  source_pk : source.pk = (document.tenantId, document.sourceId)
  digest : c.platform.sha256 content = version.contentHash

section Agrees

variable {c : Components} {db : Database} {row : ReplayRow} {source : Source}
  {version : DocumentVersion} {document : Document} {content raw : ByteArray}
  {π π' : VersionProjection}

theorem VersionProjection.Agrees.calls (h : π.Agrees π') :
    List.Forall₂ VersionProjection.Agrees π.calls π'.calls := by
  unfold VersionProjection.calls
  rw [h.chunks]
  by_cases hnil : π.chunks = []
  · rw [if_pos hnil, if_pos hnil]
    exact .nil
  · rw [if_neg hnil, if_neg hnil]
    exact .cons h .nil

/-- A content under the digest of a version has one projection, whoever builds it. -/
theorem VersionContent.agrees (hP : c.platform.CollisionFree)
    (h : VersionContent c db row.version.pk source version document content) (hrow : row.Joins db)
    (hraw : c.platform.sha256 raw = row.version.contentHash) :
    (c.projection source version content).Agrees (row.projects c raw) := by
  obtain rfl : row.version = version := Table.eq_of_pk hrow.version h.version_mem h.version_pk.symm
  obtain rfl : row.document = document :=
    Table.eq_of_pk hrow.document h.document_mem (hrow.document_pk.trans h.document_pk.symm)
  obtain rfl : raw = content := hP.sha256 (hraw.trans h.digest.symm)
  have hsource : (row.version.tenantId, row.document.sourceId) = source.pk := by
    have ht : row.document.tenantId = row.version.tenantId := congrArg Prod.fst hrow.document_pk
    rw [h.source_pk, ht]
  exact ⟨congrArg Prod.fst hsource, congrArg Prod.snd hsource, rfl, rfl, rfl, rfl⟩

end Agrees

/-! ## The event that completes a version -/

section Live

variable {c : Components} {w : World} {k : String × String} {event : LifecycleEvent}
  {d : Document}

/-- Documents stay, in the columns that never change. -/
theorem live_documents (hc : Consistent c.platform w.database w.uuids) (event : LifecycleEvent)
    (hd : d ∈ w.database.documents) : ∃ d' ∈ (w.live c event).database.documents, d'.bare = d.bare := by
  have hcalled : ∀ {w'}, DocumentsOnly w w' → ∃ d' ∈ w'.database.documents, d'.bare = d.bare :=
    fun h => Lists.exists_of_map_eq h.documents.symm hd
  cases event with
  | worker event =>
    cases step_effect w event hc with
    | submitted source _ content _ s w₁ w₂ before _ submitted after _ _ _ =>
      have hd₁ : d ∈ w₁.database.documents := by
        rw [before]
        exact hd
      have hd₂ := submitted.documents_subset hd₁
      rw [← after.documents] at hd₂
      exact ⟨d, hd₂, rfl⟩
    | unfinished rows _ _ _ =>
      have hsame : d ∈ (w.step c event).database.documents := by
        rw [rows.documents]
        exact hd
      exact ⟨d, hsame, rfl⟩
    | finished row version document content _ rows _ _ _ =>
      exact Lists.exists_of_map_eq rows.same.documents.symm hd
  | promote tenantId versionId => exact hcalled (promote_documentsOnly w tenantId versionId)
  | delete tenantId documentId => exact hcalled (delete_documentsOnly w tenantId documentId)

theorem life_documents (hP : c.platform.CollisionFree)
    (hc : Consistent c.platform w.database w.uuids) (es : List LifecycleEvent)
    (hd : d ∈ w.database.documents) :
    ∃ d' ∈ (Machine.run (World.live c) w es).database.documents, d'.bare = d.bare := by
  have hrun : Consistent c.platform (Machine.run (World.live c) w es).database
      (Machine.run (World.live c) w es).uuids ∧
      ∃ d' ∈ (Machine.run (World.live c) w es).database.documents, d'.bare = d.bare := by
    refine Machine.run_inv (I := fun w' : World => Consistent c.platform w'.database w'.uuids ∧
      ∃ d' ∈ w'.database.documents, d'.bare = d.bare) (fun w' event h => ?_) ⟨hc, d, hd, rfl⟩
    obtain ⟨hc', d', hd', hbare⟩ := h
    obtain ⟨d'', hd'', hbare'⟩ := live_documents hc' event hd'
    exact ⟨live_consistent hP event hc', d'', hd'', hbare'.trans hbare⟩
  exact hrun.2

/-- **Only a delivery completes a version**, and it has passed the projection of its content under
the stored source, and left it in the index. -/
theorem live_completes (hP : c.platform.CollisionFree) (h : Kept c w)
    (hopen : ¬ w.database.ingestionJobs.completed k)
    (hdone : (w.live c event).database.ingestionJobs.completed k) :
    ∃ source version document content,
      VersionContent c w.database k source version document content ∧
        source ∈ w.database.sources ∧
        (c.projection source version content).Passed w (w.live c event) ∧
        ∃ faults, IndexProjected faults w.database (c.projection source version content) w.index
          (w.live c event).index := by
  cases event with
  | worker event =>
    cases step_effect w event h.consistent with
    | submitted source _ content _ s w₁ w₂ before _ submitted after _ _ _ =>
      have hbefore := submitted.completed (after.completed.1 hdone)
      rw [before] at hbefore
      exact absurd hbefore hopen
    | unfinished rows _ _ _ => exact absurd (rows.completed.1 hdone) hopen
    | finished row version document _ reached rows _ _ _ =>
      obtain rfl : k = version.pk := ((rows.completed k).1 hdone).resolve_left hopen
      obtain ⟨source, version', document', content, hjob⟩ := h.content reached.row_mem
      obtain rfl : version = version' :=
        Table.eq_of_pk reached.version_mem hjob.version_mem
          (reached.version_pk.trans hjob.version_pk.symm)
      obtain rfl : document = document' :=
        Table.eq_of_pk reached.document_mem hjob.document_mem
          (reached.document_pk.trans hjob.document_pk.symm)
      refine ⟨source, version, document, content, ⟨hjob.version_mem, rfl, hjob.document_mem,
        hjob.document_pk, hjob.source_pk, hjob.digest⟩, hjob.source_mem, ?_⟩
      have haction := reached.action
      have hpending := reached.pending
      obtain ⟨action, faults, now⟩ := event
      dsimp only at haction
      subst haction
      have hfind : w.database.ingestionJobs.find (row.job.tenantId, row.job.id) = some row :=
        Table.find_of_mem reached.row_mem
      have hdelivered : DeliveryKeeps c faults (c.projection source version content) row
          { w with now } (w.step c ⟨.deliver row.job.tenantId row.job.id, faults, now⟩) :=
        step_delivery_keeps hP h hfind hjob
      -- the row that is completed now is that of the delivered job
      obtain ⟨row', hrow', hkey, hstate⟩ := hdone
      rcases hdelivered.rows row' hrow' with ⟨hold, -⟩ | ⟨hbare, -⟩
      · exact absurd ⟨row', hold, hkey, hstate⟩ hopen
      · have hpk : row'.pk = row.pk := congrArg Prod.fst hbare
        obtain ⟨hprojected, hpassed⟩ := hdelivered.projected hpending row' hrow' hpk hstate
        exact ⟨hpassed, faults, hprojected⟩
  | promote tenantId versionId =>
    obtain ⟨row, hrow, hkey, hstate⟩ := hdone
    rw [World.live, (promote_documentsOnly w tenantId versionId).jobs] at hrow
    exact absurd ⟨row, hrow, hkey, hstate⟩ hopen
  | delete tenantId documentId =>
    obtain ⟨row, hrow, hkey, hstate⟩ := hdone
    rw [World.live, (delete_documentsOnly w tenantId documentId).jobs] at hrow
    exact absurd ⟨row, hrow, hkey, hstate⟩ hopen

end Live

/-! ## Runs -/

instance completedDecidable (jobs : IngestionJobs) (k : String × String) :
    Decidable (jobs.completed k) :=
  inferInstanceAs (Decidable (∃ r ∈ jobs.rows, (r.job.tenantId, r.versionId) = k ∧
    r.job.state = .completed))

/-- The calls of the index writer in the event of the run in which the version is completed. -/
def completionCalls (c : Components) (k : String × String) :
    World → List LifecycleEvent → List VersionProjection
  | _, [] => []
  | w, event :: events =>
    if ¬ w.database.ingestionJobs.completed k ∧
        (w.live c event).database.ingestionJobs.completed k then
      (w.live c event).projections.drop w.projections.length
    else completionCalls c k (w.live c event) events

section Runs

variable {c : Components} {w : World} {k : String × String} {es : List LifecycleEvent}
  {source : Source} {version : DocumentVersion} {document : Document} {content : ByteArray}

/-- What a version has been projected from is still in the tables at the end of the run, and is
projected the same. -/
theorem VersionContent.run (hP : c.platform.CollisionFree) (h : Kept c w)
    (hv : VersionContent c w.database k source version document content)
    (es : List LifecycleEvent) :
    ∃ version' document', VersionContent c (Machine.run (World.live c) w es).database k source
        version' document' content ∧
      c.projection source version' content = c.projection source version content := by
  obtain ⟨version', hversion', hbare, -⟩ := (life_shelves hP h es).refs version hv.version_mem
  obtain ⟨document', hdocument', hbare'⟩ := life_documents hP h.consistent es hv.document_mem
  obtain ⟨hkeys, hid, -, -, hhash⟩ := version_of_bare hbare
  have hpk : document'.pk = document.pk := (document_bare_eq hbare').1
  have ht : document'.tenantId = document.tenantId := congrArg Prod.fst hpk
  have hsource : document'.sourceId = document.sourceId :=
    congrArg (fun u => u.2.1) (document_bare_eq hbare').2
  refine ⟨version', document', ⟨hversion', ?_, hdocument', ?_, ?_, hv.digest.trans hhash.symm⟩,
    projection_congr hbare⟩
  · exact (bare_eq hbare).1.trans hv.version_pk
  · rw [hpk, hv.document_pk, hkeys]
  · rw [hv.source_pk, hsource, ht]

/-- **The event that completes a version passes the projection of its content.** -/
theorem completion_calls (hP : c.platform.CollisionFree) (h : Kept c w)
    (hopen : ¬ w.database.ingestionJobs.completed k)
    (hdone : (Machine.run (World.live c) w es).database.ingestionJobs.completed k) :
    ∃ source version document content,
      VersionContent c (Machine.run (World.live c) w es).database k source version document content ∧
        completionCalls c k w es = (c.projection source version content).calls := by
  induction es generalizing w with
  | nil => exact absurd hdone hopen
  | cons event events ih =>
    have hnext := (live_kept hP h event).1
    by_cases hnow : (w.live c event).database.ingestionJobs.completed k
    · obtain ⟨source, version, document, content, hcontent, -, hpassed, -⟩ :=
        live_completes hP h hopen hnow
      obtain ⟨version', document', hlater, hsame⟩ := hcontent.run hP h (event :: events)
      refine ⟨source, version', document', content, hlater, ?_⟩
      rw [completionCalls, if_pos ⟨hopen, hnow⟩, hpassed, List.drop_left, hsame]
    · obtain ⟨source, version, document, content, hcontent, hcalls⟩ := ih hnext hnow hdone
      refine ⟨source, version, document, content, hcontent, ?_⟩
      rw [completionCalls, if_neg fun hboth => hnow hboth.2]
      exact hcalls

end Runs

/-! ## Replay of all versions -/

/-- What has been passed to the index writer since `w` agrees with `lives`, one by one. -/
def PassedAs (lives : List VersionProjection) (w w' : World) : Prop :=
  ∃ replayed, w'.projections = w.projections ++ replayed ∧
    List.Forall₂ VersionProjection.Agrees lives replayed

section Replay

variable {c : Components} {validDigest : String → Bool} {faults : ReplayRow → Faults}
  {w w₁ : World} {live : ReplayRow → List VersionProjection}

theorem PassedAs.nil : PassedAs [] w w := ⟨[], (List.append_nil _).symm, .nil⟩

theorem PassedAs.noted {lives more : List VersionProjection} (h : PassedAs lives w w₁)
    {index : Index} {passed : List VersionProjection}
    (hmore : List.Forall₂ VersionProjection.Agrees more passed) :
    PassedAs (lives ++ more) w (w₁.noted index passed) := by
  obtain ⟨replayed, hsince, hagree⟩ := h
  refine ⟨replayed ++ passed, ?_, List.rel_append hagree hmore⟩
  rw [projections_noted, hsince, List.append_assoc]

/-- Replay passes, row by row, what agrees with `live`; where it raises, the rest is missing. -/
theorem wp_replayAuthoritative_calls (hn : c.Numbered)
    (hlive : ∀ row ∈ w.database.replayRows c.platform, ∀ raw,
      c.platform.sha256 raw = row.version.contentHash →
        List.Forall₂ VersionProjection.Agrees (live row) (row.projects c raw).calls) :
    wp (replayAuthoritative c validDigest faults)
      (fun _ w' => PassedAs ((w.database.replayRows c.platform).flatMap live) w w')
      (fun _ w' => ∃ lives, lives <+: (w.database.replayRows c.platform).flatMap live ∧
        PassedAs lives w w') w := by
  unfold replayAuthoritative
  simp only [wp_bind, Hoare.wp_get]
  split
  · exact ⟨[], List.nil_prefix, .nil⟩
  simp only [wp_bind, wp_pure]
  refine wp_mapM (I := fun done w' => PassedAs (done.flatMap live) w w') ?_ .nil
  intro done row rest hrows w₁ hdone
  have hrow : row ∈ w.database.replayRows c.platform := by
    rw [hrows]
    exact List.mem_append_right _ List.mem_cons_self
  have hflat : (w.database.replayRows c.platform).flatMap live =
      done.flatMap live ++ live row ++ rest.flatMap live := by
    rw [hrows, List.flatMap_append, List.flatMap_cons, List.append_assoc]
  have hpassed : ∀ {index raw}, c.platform.sha256 raw = row.version.contentHash →
      PassedAs (done.flatMap live ++ live row) w (w₁.noted index (row.projects c raw).calls) :=
    fun hraw => hdone.noted (hlive row hrow _ hraw)
  refine wp_mono (wp_replayVersion hn) ?_ ?_
  · rintro _ w₂ ⟨raw, hraw, -, hw₂⟩
    rw [hw₂, List.flatMap_append, List.flatMap_cons, List.flatMap_nil, List.append_nil]
    exact hpassed hraw
  · rintro _ w₂ ⟨passed, hw₂, hcases⟩
    rw [hw₂, hflat]
    rcases hcases with rfl | ⟨raw, hraw, rfl⟩
    · refine ⟨done.flatMap live, ?_, ?_⟩
      · rw [List.append_assoc]
        exact List.prefix_append _ _
      · have hnone : PassedAs (done.flatMap live ++ []) w (w₁.noted w₂.index []) :=
          hdone.noted List.Forall₂.nil
        rw [List.append_nil] at hnone
        exact hnone
    · exact ⟨done.flatMap live ++ live row, List.prefix_append _ _, hpassed hraw⟩

end Replay

/-- **Replay passes to the index writer what ingestion had passed**: after every run, and row by
row of its query, the projection of a version agrees with the one that was passed in the event in
which the version was completed. A replay that raises has passed a part of them, in order. -/
theorem replay_calls {platform : Platform} (hP : platform.CollisionFree)
    (chunker : StructuralChunker) (es : List LifecycleEvent) (candidate : Index)
    (validDigest : String → Bool) (faults : ReplayRow → Faults) :
    let c := markdownComponents platform chunker
    let w : World := { Machine.run (World.live c) {} es with index := candidate }
    let lives := (w.database.replayRows platform).flatMap fun row =>
      completionCalls c row.version.pk {} es
    wp (replayAuthoritative c validDigest faults) (fun _ w' => PassedAs lives w w')
      (fun _ w' => ∃ some, some <+: lives ∧ PassedAs some w w') w := by
  intro c w lives
  refine wp_replayAuthoritative_calls (markdown_numbered platform chunker) ?_
  intro row hrow raw hraw
  have hjoins : row.Joins w.database := joins_of_mem hrow
  have hfresh : ¬ ({} : World).database.ingestionJobs.completed row.version.pk := by
    rintro ⟨job, hjob, -⟩
    exact Table.not_mem_empty hjob
  have hdone : (Machine.run (World.live c) {} es).database.ingestionJobs.completed
      row.version.pk := hjoins.completed
  obtain ⟨source, version, document, content, hcontent, hcalls⟩ :=
    completion_calls hP Kept.empty hfresh hdone
  have hagrees := hcontent.agrees hP hjoins hraw
  show List.Forall₂ _ (completionCalls c row.version.pk {} es) _
  rw [hcalls]
  exact hagrees.calls

/-- The run of one document, its job crashed once, and a replay. -/
theorem replay_calls_sample :
    let c := markdownComponents samplePlatform ⟨2, by decide⟩
    let es : List LifecycleEvent := [
      .worker { action := .submit { sampleEvent "a b c" 0 with sourceVersion := "1" } },
      .worker { action := .deliver "tenant" (samplePlatform.uuid4 2)
                faults := { fault := fun o => if o = .commit then some .crash else none } },
      .worker { action := .deliver "tenant" (samplePlatform.uuid4 2) }]
    let w : World := { Machine.run (World.live c) {} es with index := ∅ }
    let lives := (w.database.replayRows samplePlatform).flatMap fun row =>
      completionCalls c row.version.pk {} es
    wp (replayAuthoritative c (fun _ => true) fun _ => {}) (fun _ w' => PassedAs lives w w')
      (fun _ w' => ∃ some, some <+: lives ∧ PassedAs some w w') w :=
  replay_calls samplePlatform_collisionFree _ _ _ _ _

end GroundedOps.Ingestion
