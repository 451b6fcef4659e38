import GroundedOps.Proof.Promotion
import GroundedOps.Proof.Stages
import GroundedOps.Spec.Lifecycle

/-!
# Every delivery keeps the artifacts in order

* `Kept`: the tables are consistent, the artifacts are in order and every job is parked.
* `wp_runJob_keeps`: what one delivery leaves of the artifacts, the jobs and the index.
-/

namespace GroundedOps.Ingestion

open Hoare
open IngestionPipeline (BodyKeeps BodyStops SameJob wp_continueJob_keeps)

/-! ## The content of a job -/

/-- The rows of a job, its source, and the content of its version. -/
structure JobContent (c : Components) (db : Database) (row : JobRow) (source : Source)
    (version : DocumentVersion) (document : Document) (content : ByteArray) : Prop
    extends JobRows db row version document where
  source_mem : source ∈ db.sources
  source_pk : source.pk = (document.tenantId, document.sourceId)
  digest : c.platform.sha256 content = version.contentHash

section JobContent

variable {c : Components} {db : Database} {row : JobRow} {source source' : Source}
  {version version' : DocumentVersion} {document document' : Document}
  {content content' : ByteArray}

/-- A job has one content. -/
theorem JobContent.unique (hP : c.platform.CollisionFree)
    (h : JobContent c db row source version document content)
    (h' : JobContent c db row source' version' document' content') :
    source' = source ∧ version' = version ∧ document' = document ∧ content' = content := by
  obtain rfl : version' = version :=
    Table.eq_of_pk h'.version_mem h.version_mem (h'.version_pk.trans h.version_pk.symm)
  obtain rfl : document' = document :=
    Table.eq_of_pk h'.document_mem h.document_mem (h'.document_pk.trans h.document_pk.symm)
  obtain rfl : source' = source :=
    Table.eq_of_pk h'.source_mem h.source_mem (h'.source_pk.trans h.source_pk.symm)
  exact ⟨rfl, rfl, rfl, hP.sha256 (h'.digest.trans h.digest.symm)⟩

theorem JobContent.versionKey (h : JobContent c db row source version document content) :
    (source.tenantId, version.id) = (row.job.tenantId, row.versionId) := by
  have hs : source.tenantId = document.tenantId := congrArg Prod.fst h.source_pk
  have hd : document.tenantId = version.tenantId := congrArg Prod.fst h.document_pk
  rw [hs, hd]
  exact h.version_pk

/-- What a delivery reads is the content of its job. -/
theorem jobContent_of_delivery {tenantId jobId : String} {record : DeliveryRecord}
    (hrow : db.ingestionJobs.find (tenantId, jobId) = some row)
    (hdelivery : db.getDelivery tenantId jobId = some record)
    (hdigest : c.platform.sha256 content = record.contentHash) :
    ∃ version document, JobContent c db row record.source version document content := by
  obtain ⟨row', version, document, hrow', hrows, hsource, hpk, -, -, -, hhash⟩ :=
    getDelivery_eq hdelivery
  obtain rfl : row = row' := Option.some.inj (hrow.symm.trans hrow')
  exact ⟨version, document, hrows, hsource, hpk, hdigest.trans hhash⟩

end JobContent

/-! ## The body -/

section Body

variable {c : Components} {faults : Faults} {tenantId jobId : String} {w : World} {row : JobRow}
  {source : Source} {version : DocumentVersion} {document : Document} {content : ByteArray}

/-- **A resumed job** keeps the artifacts in order. -/
theorem wp_resume_keeps (hP : c.platform.CollisionFree)
    (hc : Consistent c.platform w.database w.uuids) (hshelved : Shelved c w)
    (hrow : w.database.ingestionJobs.find (tenantId, jobId) = some row)
    (hjob : JobContent c w.database row source version document content)
    (hparked : row.job.Parked (FiledIn c w (row.job.tenantId, row.versionId)))
    {record : DeliveryRecord} {found : ByteArray}
    (hdelivery : w.database.getDelivery tenantId jobId = some record)
    (hdigest : c.platform.sha256 found = record.contentHash)
    (hclear : Clear faults [.getDelivery, .getArtifact]) :
    wp (IngestionPipeline.resume c faults maxDeliveries tenantId jobId (record.event found))
      (fun _ w' => BodyKeeps c faults (c.projection source version content)
        (row.job.tenantId, row.versionId) row.job w w')
      (fun _ w' => BodyStops c (c.projection source version content) w w') w := by
  refine wp_resume_of (fun _ w' hdrawn hobjects => ⟨.of_eq hobjects, hdrawn.index.symm ▸ .refl _ _⟩) ?_
  intro row' s w₁ hrow' hgetJob hsubmit hsubmitted hid hobjects hsaved
  obtain rfl : row = row' := Option.some.inj (hrow.symm.trans hrow')
  have hindex : w₁.index = w.index := hsubmitted.drawn.index
  have hresumed : Resumed c faults tenantId jobId w w₁ record found row s :=
    ⟨hdelivery, hdigest, hrow, hsubmitted, hid, hclear.append (.cons hgetJob (.cons hsubmit .nil))⟩
  obtain ⟨hdb, hrows, hhash⟩ := hresumed.known hc
  obtain ⟨_, _, hdelivered⟩ := jobContent_of_delivery hrow hdelivery hdigest
  obtain ⟨hsourceEq, -, -, hcontentEq⟩ := hdelivered.unique hP hjob
  subst hsourceEq hcontentEq
  obtain rfl : s.version = version :=
    Table.eq_of_pk hrows.version_mem hjob.version_mem (hrows.version_pk.trans hjob.version_pk.symm)
  have hgrown : Grown c.platform w w₁ := .of_eq hobjects
  have hshelves : Shelves c w w₁ := hshelved.shelves hgrown (by rw [hdb])
  have hkey : IngestionPipeline.versionKey (record.event content) s =
      (row.job.tenantId, row.versionId) :=
    hjob.versionKey
  have hparked₁ : row.job.Parked
      (FiledIn c w₁ (IngestionPipeline.versionKey (record.event content) s)) := by
    rw [hkey]
    exact hparked.imp fun hfiled => hfiled.kept hgrown hshelves.refs
  have hsourceMem : (record.event content).source ∈ w₁.database.sources := by
    rw [hdb]
    exact hjob.source_mem
  refine wp_mono (wp_continueJob_keeps hP hshelves.shelved (hsubmitted.of rfl) hsaved hsourceMem
    hhash.symm hparked₁ rfl SourceEventKind.noConfusion) (fun _ w' h => ?_) (fun _ w' h => ?_)
  · obtain ⟨job', hsame', hjobs, hpark, hprojected⟩ := h.job
    refine ⟨hshelves.trans h.shelves, hindex ▸ h.beside, job', hsame', ?_, hkey ▸ hpark, ?_⟩
    · rw [hjobs, hdb]
    · rw [← hindex, ← hdb]
      intro hcompleted hopen
      obtain ⟨hdone, hpassed⟩ := hprojected hcompleted hopen
      exact ⟨hdone, hpassed.after hsubmitted.drawn.log⟩
  · exact ⟨hgrown.trans h.grown, hindex ▸ h.beside⟩

/-- **The body** keeps the artifacts in order, or leaves the database alone. -/
theorem wp_body_keeps (hP : c.platform.CollisionFree)
    (hc : Consistent c.platform w.database w.uuids) (hshelved : Shelved c w)
    (hrow : w.database.ingestionJobs.find (tenantId, jobId) = some row)
    (hjob : JobContent c w.database row source version document content)
    (hparked : row.job.Parked (FiledIn c w (row.job.tenantId, row.versionId))) :
    wp (body c faults tenantId jobId)
      (fun _ w' => BodyKeeps c faults (c.projection source version content)
        (row.job.tenantId, row.versionId) row.job w w')
      (fun _ w' => w'.database = w.database ∧
        BodyStops c (c.projection source version content) w w') w := by
  refine wp_body_of (fun _ => ⟨rfl, .refl w⟩) fun record found hrecord hfound hclear => ?_
  refine wp_mono (wp_resume_keeps hP hc hshelved hrow hjob hparked hrecord hfound hclear)
    (fun outcome w' h => ?_) (fun raised w' h => ?_)
  · exact ⟨fun _ => h, fun _ _ => ⟨rfl, ⟨h.shelves.grown.kept, h.shelves.grown.intact⟩, h.beside⟩⟩
  · exact ⟨rfl, ⟨h.grown.kept, h.grown.intact⟩, h.beside⟩

end Body

/-! ## Rows of jobs -/

section Rows

variable {jobs : IngestionJobs} {tenantId jobId : String} {f : JobRow → JobRow}
  {hp : ∀ row, (f row).pk = row.pk} {hu : ∀ row, (f row).unique = row.unique} {row row' : JobRow}

theorem mem_countDelivery (hrow : jobs.find (tenantId, jobId) = some row)
    (h : row' ∈ jobs.countDelivery tenantId jobId) :
    row' ∈ jobs ∧ row'.pk ≠ (tenantId, jobId) ∨ row' = row.counted := by
  rcases mem_update_cases h with hold | ⟨r, hr, hpk, rfl⟩
  · exact Or.inl hold
  · obtain ⟨hmem, hk⟩ := Table.find_eq_some.1 hrow
    rw [Table.eq_of_pk hr hmem (hpk.trans hk.symm)]
    exact Or.inr rfl

/-- The rows after an update of a job whose delivery has been counted. -/
theorem mem_counted_update (hrow : jobs.find (tenantId, jobId) = some row)
    (h : row' ∈ (jobs.countDelivery tenantId jobId).update tenantId jobId f hp hu) :
    row' ∈ jobs ∧ row'.pk ≠ (tenantId, jobId) ∨ row' = f row.counted := by
  rcases mem_update_cases h with ⟨hold, hpk⟩ | ⟨r, hr, hpk, rfl⟩
  · rcases mem_countDelivery hrow hold with hold | rfl
    · exact Or.inl hold
    · exact absurd (Table.find_eq_some.1 hrow).2 hpk
  · rcases mem_countDelivery hrow hr with ⟨-, hne⟩ | rfl
    · exact absurd hpk hne
    · exact Or.inr rfl

theorem mem_counted_failLost (hrow : jobs.find (tenantId, jobId) = some row)
    (h : row' ∈ (jobs.countDelivery tenantId jobId).failLostDelivery tenantId jobId) :
    row' ∈ jobs ∧ row'.pk ≠ (tenantId, jobId) ∨ row' = row.counted.failLost := by
  unfold IngestionJobs.failLostDelivery at h
  exact mem_counted_update hrow h

theorem mem_counted_workerError {maxAttempts : ℕ} (hrow : jobs.find (tenantId, jobId) = some row)
    (h : row' ∈ (jobs.countDelivery tenantId jobId).recordWorkerError tenantId jobId maxAttempts) :
    row' ∈ jobs ∧ row'.pk ≠ (tenantId, jobId) ∨ row' = row.counted.workerError maxAttempts := by
  unfold IngestionJobs.recordWorkerError at h
  exact mem_counted_update hrow h

theorem failLost_parked {filed : Prop} (h : row.job.Parked filed) :
    row.failLost.job.Parked filed := by
  unfold JobRow.failLost
  split
  · exact h
  · exact trivial

/-- A recorded error parks the job where its next delivery resumes. -/
theorem workerError_parked {filed : Prop} {maxAttempts : ℕ} (h : row.job.Parked filed) :
    (row.workerError maxAttempts).job.Parked filed := by
  unfold JobRow.workerError
  split
  · exact h
  rename_i hopen
  have hwaiting : ∃ checkpoint, row.job.errorCheckpoint = some checkpoint ∧
      (checkpoint = .indexing → filed) := by
    unfold IngestionJob.errorCheckpoint
    unfold IngestionJob.Parked at h
    cases hstate : row.job.state with
    | queued => exact ⟨.fetching, rfl, fun hindexing => by cases hindexing⟩
    | retrying =>
      simp only [hstate] at h
      obtain ⟨checkpoint, hresume, hfiled⟩ := h
      exact ⟨checkpoint, by rw [hresume]; rfl, hfiled⟩
    | fetching => simp only [hstate] at h
    | parsing => simp only [hstate] at h
    | indexing => simp only [hstate] at h
    | completed => simp [hstate, JobState.terminal] at hopen
    | failed => simp [hstate, JobState.terminal] at hopen
  by_cases hlast : maxAttempts ≤ row.job.attempts + 1 ∨ maxAttempts ≤ row.deliveryAttempts
  · simp only [if_pos hlast]
    trivial
  · simp only [if_neg hlast]
    exact hwaiting

end Rows

/-! ## Deliveries -/

/-- The tables are consistent, the artifacts in order, and every job is parked. -/
structure Kept (c : Components) (w : World) : Prop where
  consistent : Consistent c.platform w.database w.uuids
  shelved : Shelved c w
  parked : ∀ row ∈ w.database.ingestionJobs,
    row.job.Parked (FiledIn c w (row.job.tenantId, row.versionId))

/-- Every job has a content. -/
theorem Kept.content {c : Components} {w : World} {row : JobRow} (h : Kept c w)
    (hrow : row ∈ w.database.ingestionJobs) : ∃ source version document content,
      JobContent c w.database row source version document content := by
  obtain ⟨version, hversion, hvpk, -⟩ := h.consistent.job_version row hrow
  obtain ⟨document, hdocument, hdpk⟩ := h.consistent.version_document version hversion
  obtain ⟨source, hsource, hspk⟩ := h.consistent.document_source document hdocument
  obtain ⟨content, hcontent⟩ := h.shelved.content version hversion
  exact ⟨source, version, document, content, ⟨hrow, hversion, hvpk, hdocument, hdpk⟩, hsource,
    hspk, (h.shelved.intact _ _ hcontent).1⟩

/-- **What one delivery of the job leaves**: its row parked, and its version projected if the
job is now completed. -/
structure DeliveryKeeps (c : Components) (faults : Faults) (π : VersionProjection) (row : JobRow)
    (w w' : World) : Prop where
  shelves : Shelves c w w'
  beside : π.SameBeside w.index w'.index
  rows : ∀ row' ∈ w'.database.ingestionJobs,
    row' ∈ w.database.ingestionJobs ∧ row'.pk ≠ row.pk ∨
      row'.bare = row.bare ∧ row'.job.Parked (FiledIn c w' (row.job.tenantId, row.versionId))
  projected : row.job.state.terminal = false → ∀ row' ∈ w'.database.ingestionJobs,
    row'.pk = row.pk → row'.job.state = .completed →
      IndexProjected faults w.database π w.index w'.index ∧ π.Passed w w'

section Delivery

variable {c : Components} {faults : Faults} {tenantId jobId : String} {w w' : World} {row : JobRow}
  {source : Source} {version : DocumentVersion} {document : Document} {content : ByteArray}
  {π : VersionProjection}

/-- A delivery that changes no more than the row of its job, and does not complete it. -/
theorem DeliveryKeeps.of_rows (h : Kept c w) (hg : Grown c.platform w w')
    (hversions : w'.database.documentVersions = w.database.documentVersions)
    (hbeside : π.SameBeside w.index w'.index)
    (hrows : ∀ row' ∈ w'.database.ingestionJobs,
      row' ∈ w.database.ingestionJobs ∧ row'.pk ≠ row.pk ∨
        row'.bare = row.bare ∧ row'.job.Parked (FiledIn c w (row.job.tenantId, row.versionId)) ∧
          (row.job.state.terminal = false → row'.job.state ≠ .completed)) :
    DeliveryKeeps c faults π row w w' := by
  have hshelves := h.shelved.shelves hg hversions
  refine ⟨hshelves, hbeside, fun row' hrow' => ?_, fun hopen row' hrow' hpk hcompleted => ?_⟩
  · rcases hrows row' hrow' with hold | ⟨hbare, hparked, -⟩
    · exact Or.inl hold
    · exact Or.inr ⟨hbare, hparked.imp fun hfiled => hfiled.kept hg hshelves.refs⟩
  · rcases hrows row' hrow' with ⟨-, hne⟩ | ⟨-, -, hstate⟩
    · exact absurd hpk hne
    · exact absurd hcompleted (hstate hopen)

theorem DeliveryKeeps.same (h : Kept c w) (hrow : row ∈ w.database.ingestionJobs)
    (hobjects : w'.objects = w.objects) (hdb : w'.database = w.database)
    (hindex : w'.index = w.index) : DeliveryKeeps c faults π row w w' := by
  refine .of_rows h (.of_eq hobjects) (by rw [hdb]) (hindex.symm ▸ .refl _ _) fun row' hrow' => ?_
  rw [hdb] at hrow'
  by_cases hpk : row'.pk = row.pk
  · obtain rfl : row' = row := Table.eq_of_pk hrow' hrow hpk
    exact Or.inr ⟨rfl, h.parked row' hrow, not_completed_of_open⟩
  · exact Or.inl ⟨hrow', hpk⟩

theorem projections_claimed {jobs : IngestionJobs} :
    (w.claimed tenantId jobId jobs).projections = w.projections := by
  show List.filterMap _ (w.log ++ _) = _
  rw [List.filterMap_append]
  exact List.append_nil _

/-- The body of a claimed job returns. -/
theorem DeliveryKeeps.of_body (hrow : w.database.ingestionJobs.find (tenantId, jobId) = some row)
    (h : BodyKeeps c faults π (row.job.tenantId, row.versionId) row.job
      (w.claimed tenantId jobId (w.database.ingestionJobs.countDelivery tenantId jobId)) w') :
    DeliveryKeeps c faults π row w w' := by
  obtain ⟨hmem, hpk⟩ := Table.find_eq_some.1 hrow
  obtain ⟨job', hsame, hjobs, hparked, hprojected⟩ := h.job
  have hkeys : (job'.tenantId, job'.id) = (tenantId, jobId) := by
    rw [hsame.1, hsame.2]
    exact hpk
  have ht : job'.tenantId = tenantId := congrArg Prod.fst hkeys
  have hi : job'.id = jobId := congrArg Prod.snd hkeys
  subst ht hi
  -- the body wrote one row, that of its own job
  have hrows : ∀ row' ∈ w'.database.ingestionJobs,
      row' ∈ w.database.ingestionJobs ∧ row'.pk ≠ row.pk ∨
        row' = { row.counted with job := row.job.withColumns job' } := by
    intro row' hrow'
    rw [hjobs] at hrow'
    rw [hpk]
    exact mem_counted_update hrow hrow'
  have hshelves : Shelves c w w' :=
    ⟨⟨h.shelves.grown.kept, h.shelves.grown.intact⟩, h.shelves.refs, h.shelves.shelved⟩
  refine ⟨hshelves, h.beside, fun row' hrow' => ?_, fun hopen row' hrow' hk hcompleted => ?_⟩
  · rcases hrows row' hrow' with hold | rfl
    · exact Or.inl hold
    · exact Or.inr ⟨rfl, hparked⟩
  · rcases hrows row' hrow' with ⟨-, hne⟩ | rfl
    · exact absurd hk hne
    · obtain ⟨hdone, hpassed⟩ := hprojected hcompleted hopen
      refine ⟨?_, ?_⟩
      · cases hdone with
        | empty hnil hindex => exact .empty hnil hindex
        | upserted hne admits accepted hindex =>
          exact .upserted hne (admits.congr rfl rfl (.refl _)) accepted hindex
      · unfold VersionProjection.Passed at hpassed ⊢
        rw [projections_claimed] at hpassed
        exact hpassed

/-- A claim that finds its job keeps everything but the count. -/
theorem Kept.claimed (h : Kept c w) (hrow : w.database.ingestionJobs.find (tenantId, jobId) = some row)
    (hjob : JobContent c w.database row source version document content) :
    Kept c (w.claimed tenantId jobId (w.database.ingestionJobs.countDelivery tenantId jobId)) ∧
      JobContent c (w.claimed tenantId jobId
        (w.database.ingestionJobs.countDelivery tenantId jobId)).database row.counted source version
        document content := by
  obtain ⟨hmem, hpk⟩ := Table.find_eq_some.1 hrow
  have hsame : Unfinished w.database (w.claimed tenantId jobId
      (w.database.ingestionJobs.countDelivery tenantId jobId)).database := countDelivery_unfinished
  have hgrown : Grown c.platform w (w.claimed tenantId jobId
      (w.database.ingestionJobs.countDelivery tenantId jobId)) := .of_eq rfl
  have hcounted : row.counted ∈ w.database.ingestionJobs.countDelivery tenantId jobId :=
    mem_update_self hmem hpk
  refine ⟨⟨h.consistent.of_same hsame.same, h.shelved.of_same hgrown rfl, fun row' hrow' => ?_⟩,
    ⟨hcounted, hjob.version_mem, hjob.version_pk, hjob.document_mem, hjob.document_pk⟩,
    hjob.source_mem, hjob.source_pk, hjob.digest⟩
  rcases mem_countDelivery hrow hrow' with ⟨hold, -⟩ | rfl
  · exact h.parked row' hold
  · exact h.parked row hmem

/-- **One delivery** of a known job. -/
theorem wp_runJob_keeps (hP : c.platform.CollisionFree) (h : Kept c w)
    (hrow : w.database.ingestionJobs.find (tenantId, jobId) = some row)
    (hjob : JobContent c w.database row source version document content) :
    wp (runJob c faults tenantId jobId)
      (fun _ w' => DeliveryKeeps c faults (c.projection source version content) row w w')
      (fun _ w' => DeliveryKeeps c faults (c.projection source version content) row w w') w := by
  obtain ⟨hmem, hpk⟩ := Table.find_eq_some.1 hrow
  have hparked := h.parked row hmem
  have hsame : ∀ {w'}, w'.objects = w.objects → w'.database = w.database → w'.index = w.index →
      DeliveryKeeps c faults (c.projection source version content) row w w' :=
    .same h hmem
  unfold runJob
  split
  · exact hsame rfl rfl rfl
  rw [wp_bind]
  refine wp_claim (fun _ _ _ => hsame rfl rfl rfl) (fun deliveries jobs hclaim _ => ?_)
    (fun deliveries jobs hclaim _ _ => ?_) (fun _ => hsame rfl rfl rfl)
  · -- the job has been delivered too often
    obtain ⟨row₁, hrow₁, hopen, -, rfl⟩ := claimDelivery_eq hclaim
    obtain rfl : row = row₁ := Option.some.inj (hrow.symm.trans hrow₁)
    refine .of_rows h (.of_eq rfl) rfl (.refl _ _) fun row' hrow' => ?_
    rw [hpk]
    refine (mem_counted_failLost hrow hrow').imp id ?_
    rintro rfl
    have hfailed : row.counted.failLost.job.state = .failed := by
      unfold JobRow.failLost
      rw [if_neg (by simpa [JobRow.counted] using hopen)]
    refine ⟨?_, failLost_parked hparked, fun _ => by rw [hfailed]; decide⟩
    exact congrArg Prod.fst (failLost_fate row.counted)
  · obtain ⟨row₁, hrow₁, hopen, -, rfl⟩ := claimDelivery_eq hclaim
    obtain rfl : row = row₁ := Option.some.inj (hrow.symm.trans hrow₁)
    obtain ⟨hkept, hcontent⟩ := h.claimed hrow hjob
    have hcounted := find_counted hrow
    simp only [wp_bind, wp_observe, wp_tryCatch, wp_pure]
    rw [claimed_eq]
    refine wp_mono (wp_body_keeps hP hkept.consistent hkept.shelved hcounted hcontent hparked)
      (fun _ w' hbody => .of_body hrow hbody) ?_
    rintro raised w₁ ⟨hdb, hstopped⟩
    -- the body is rolled back; its error is recorded, or is lost as well
    have hgrown : Grown c.platform w w₁ := ⟨hstopped.grown.kept, hstopped.grown.intact⟩
    have hlost : DeliveryKeeps c faults (c.projection source version content) row w w₁ := by
      refine .of_rows h hgrown (by rw [hdb]; rfl) hstopped.beside fun row' hrow' => ?_
      rw [hdb] at hrow'
      rw [hpk]
      refine (mem_countDelivery hrow hrow').imp id ?_
      rintro rfl
      exact ⟨rfl, hparked, not_completed_of_open⟩
    have hrecorded : ∀ {w₂ : World}, w₂ = { w₁ with database := { w₁.database with
          ingestionJobs := w₁.database.ingestionJobs.recordWorkerError tenantId jobId
            maxDeliveries } } →
        DeliveryKeeps c faults (c.projection source version content) row w w₂ := by
      rintro w₂ rfl
      refine .of_rows h ⟨hgrown.kept, hgrown.intact⟩ (by rw [hdb]; rfl) hstopped.beside
        fun row' hrow' => ?_
      rw [hdb] at hrow'
      rw [hpk]
      refine (mem_counted_workerError hrow hrow').imp id ?_
      rintro rfl
      have hfate := workerError_fate row.counted maxDeliveries
      refine ⟨congrArg Prod.fst hfate, workerError_parked hparked, fun _ hcompleted => ?_⟩
      have hsnd := congrArg Prod.snd hfate
      have hstate : row.job.state = .completed := (decide_eq_decide.1 hsnd).1 hcompleted
      exact not_completed_of_open hopen hstate
    split
    · exact hlost
    · exact wp_recordError (fun _ => hrecorded rfl) (fun _ => hlost) (hrecorded rfl)

end Delivery

end GroundedOps.Ingestion
