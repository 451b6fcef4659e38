import GroundedOps.Proof.Deliveries
import GroundedOps.Proof.Upkeep

/-!
# The life of the authoritative state

* `live_consistent`: every event keeps the tables consistent.
* `live_buried`: a deleted document has no current version.
* `live_kept`: **every event keeps the artifacts in order and every job parked**, and loses no
  object and no reference.
* `life_kept`: so they are after every run.
-/

namespace GroundedOps.Ingestion

open Hoare

variable {c : Components} {P : Platform} {w w' : World} {db db' : Database}

/-! ## Calls of the repository -/

/-- Only columns of documents have changed. -/
structure DocumentsOnly (w w' : World) : Prop where
  sources : w'.database.sources = w.database.sources
  documents : w'.database.documents.rows.map Document.bare =
    w.database.documents.rows.map Document.bare
  versions : w'.database.documentVersions = w.database.documentVersions
  jobs : w'.database.ingestionJobs = w.database.ingestionJobs
  objects : w'.objects = w.objects
  quiet : Quiet w w'

theorem DocumentsOnly.refl (w : World) : DocumentsOnly w w := ⟨rfl, rfl, rfl, rfl, rfl, .refl w⟩

theorem DocumentsOnly.same (h : DocumentsOnly w w') : SameRows w.database w'.database :=
  ⟨h.sources, h.documents, h.versions ▸ .refl _, by rw [h.jobs]⟩

theorem promote_documentsOnly (w : World) (tenantId versionId : String) :
    DocumentsOnly w (w.call P (.promote tenantId versionId)) := by
  refine wp_state (P := DocumentsOnly w) ?_
  rw [RepositoryCall.perform, wp_transaction]
  simp only [IngestionRepository.promote, wp_bind, wp_reach, wp_readDatabase, wp_orRaise,
    wp_writeDatabase]
  refine ⟨fun _ => ⟨fun database hpromote => ?_, fun _ => .refl w⟩, fun _ _ => .refl w⟩
  refine ⟨fun _ => ?_, fun _ _ => .refl w⟩
  unfold Database.promote at hpromote
  split at hpromote
  · cases hpromote
  · cases hpromote
    exact ⟨rfl, setCurrent_bare, rfl, rfl, rfl, rfl, rfl, rfl⟩

theorem delete_documentsOnly (w : World) (tenantId documentId : String) :
    DocumentsOnly w (w.call P (.delete tenantId documentId)) := by
  refine wp_state (P := DocumentsOnly w) ?_
  rw [RepositoryCall.perform, wp_transaction]
  simp only [IngestionRepository.delete, wp_bind, wp_readDatabase, wp_writeDatabase]
  refine ⟨fun _ => ⟨rfl, ?_, rfl, rfl, rfl, rfl, rfl, rfl⟩, fun _ _ => .refl w⟩
  unfold Database.delete Table.modify
  rw [List.map_map]
  apply List.map_congr_left
  intro row _
  simp only [Function.comp_apply]
  split
  · rfl
  · rfl

/-- **Every event keeps the tables consistent.** -/
theorem live_consistent (hP : c.platform.CollisionFree) (event : LifecycleEvent)
    (hc : Consistent c.platform w.database w.uuids) :
    Consistent c.platform (w.live c event).database (w.live c event).uuids := by
  have hcalled : ∀ {w'}, DocumentsOnly w w' → Consistent c.platform w'.database w'.uuids :=
    fun h => h.quiet.uuids ▸ hc.of_same h.same
  cases event with
  | worker event =>
    exact Effect.consistent (w := { w with now := event.now }) hP hc (step_effect w event hc)
  | promote tenantId versionId => exact hcalled (promote_documentsOnly w tenantId versionId)
  | delete tenantId documentId => exact hcalled (delete_documentsOnly w tenantId documentId)

/-! ## Deleted documents -/

/-- A deleted document has no current version. -/
def Buried (db : Database) : Prop :=
  ∀ d ∈ db.documents, d.deleted = true → d.currentVersionId = none

theorem Buried.promoted {version : DocumentVersion} (h : Buried db) :
    Buried (db.promoted P version) := by
  intro d hd hdeleted
  obtain ⟨old, hold, rfl⟩ := mem_promoted.1 hd
  unfold Document.promotedTo at hdeleted ⊢
  split at hdeleted
  · rename_i hguard
    have hopen : old.deleted = false := by
      have hpromotable := hguard.2
      unfold Document.promotable at hpromotable
      rw [Bool.and_eq_true, Bool.not_eq_true'] at hpromotable
      exact hpromotable.1
    exact absurd hdeleted (by simp [hopen])
  · rename_i hguard
    rw [if_neg hguard]
    exact h old hold hdeleted

theorem Buried.delete {tenantId documentId : String} (h : Buried db) :
    Buried (db.delete tenantId documentId) := by
  intro d hd hdeleted
  obtain ⟨old, hold, rfl⟩ := mem_deleted.1 hd
  unfold Document.deletedBy at hdeleted ⊢
  split at hdeleted
  · rename_i hk
    rw [if_pos hk]
  · rename_i hk
    rw [if_neg hk]
    exact h old hold hdeleted

/-- **No event makes a version of a deleted document current.** -/
theorem live_buried (event : LifecycleEvent) (hc : Consistent c.platform w.database w.uuids)
    (h : Buried w.database) : Buried (w.live c event).database := by
  cases event with
  | worker event =>
    cases step_effect w event hc with
    | submitted source _ content _ s w₁ w₂ before _ submitted after _ _ _ =>
      intro d hd hdeleted
      have hd₂ : d ∈ w₂.database.documents := after.documents ▸ hd
      rcases submitted.mem_documents hd₂ with hold | ⟨-, -, hnone⟩
      · rw [before] at hold
        exact h d hold hdeleted
      · exact hnone
    | unfinished rows _ _ _ =>
      intro d hd
      have hold : d ∈ w.database.documents := rows.documents ▸ hd
      exact h d hold
    | finished row version document content _ rows _ _ _ =>
      intro d hd
      have hnew : d ∈ (w.step c event).database.documents := hd
      rw [rows.documents] at hnew
      exact h.promoted d hnew
  | promote tenantId versionId =>
    intro d hd
    rcases call_promote c.platform w tenantId versionId with hdb | ⟨version, -, hdb⟩
    · exact h d (hdb ▸ hd)
    · exact h.promoted d (hdb ▸ hd)
  | delete tenantId documentId =>
    intro d hd
    exact h.delete d (call_delete c.platform w tenantId documentId ▸ hd)

/-! ## Artifacts and jobs -/

/-- What an event keeps: the artifacts in order, every job parked, no object or reference lost. -/
structure LiveKeeps (c : Components) (w w' : World) : Prop where
  shelves : Shelves c w w'
  parked : ∀ row ∈ w'.database.ingestionJobs,
    row.job.Parked (FiledIn c w' (row.job.tenantId, row.versionId))

/-- The jobs are those from before, or new ones. -/
theorem LiveKeeps.of_jobs (h : Kept c w) (hshelves : Shelves c w w')
    (hjobs : ∀ row' ∈ w'.database.ingestionJobs,
      (∃ row ∈ w.database.ingestionJobs, row'.job = row.job ∧ row'.versionId = row.versionId) ∨
        row'.job.state = .queued ∧ row'.job.errorClass = none ∧ row'.job.resumeFrom = none) :
    LiveKeeps c w w' := by
  refine ⟨hshelves, fun row' hrow' => ?_⟩
  rcases hjobs row' hrow' with ⟨row, hrow, hjob, hversion⟩ | ⟨hqueued, herror, hresume⟩
  · rw [hjob, hversion]
    exact (h.parked row hrow).imp fun hfiled => hfiled.kept hshelves.grown hshelves.refs
  · unfold IngestionJob.Parked
    rw [hqueued]
    exact ⟨herror, hresume⟩

theorem DocumentsOnly.keeps (h : Kept c w) (hcall : DocumentsOnly w w') : LiveKeeps c w w' := by
  refine .of_jobs h (h.shelved.shelves (.of_eq hcall.objects) hcall.versions) fun row' hrow' => ?_
  exact Or.inl ⟨row', hcall.jobs ▸ hrow', rfl, rfl⟩

theorem mem_markDispatched {jobs : IngestionJobs} {tenantId jobId : String} {now : ℤ}
    {row' : JobRow} (h : row' ∈ jobs.markDispatched tenantId jobId now) :
    ∃ row ∈ jobs, row'.job = row.job ∧ row'.versionId = row.versionId := by
  unfold IngestionJobs.markDispatched at h
  rcases mem_update_cases h with ⟨hold, -⟩ | ⟨row, hrow, -, rfl⟩
  · exact ⟨row', hold, rfl, rfl⟩
  · refine ⟨row, hrow, ?_⟩
    split
    · exact ⟨rfl, rfl⟩
    · exact ⟨rfl, rfl⟩

theorem mem_claimRecoveryBatch {jobs : IngestionJobs} {limit : ℕ} {now : ℤ} {row' : JobRow}
    (h : row' ∈ (jobs.claimRecoveryBatch limit now).2) :
    ∃ row ∈ jobs, row'.job = row.job ∧ row'.versionId = row.versionId := by
  unfold IngestionJobs.claimRecoveryBatch Table.modify at h
  obtain ⟨row, hrow, rfl⟩ := List.mem_map.1 h
  refine ⟨row, hrow, ?_⟩
  split
  · exact ⟨rfl, rfl⟩
  · exact ⟨rfl, rfl⟩

/-! ## Submissions -/

section Submission

variable {faults : Faults} {event : SourceEvent}

/-- A version that `submit` inserts has no references. -/
theorem wp_submit_blank {source : Source} {canonicalKey sourceVersion contentHash
      parserVersion : String} {stamp : ℤ} :
    wp (IngestionRepository.submit P faults source canonicalKey sourceVersion contentHash stamp
        parserVersion)
      (fun _ w' => ∀ v ∈ w'.database.documentVersions,
        v ∈ w.database.documentVersions ∨
          v.Blank ∧ v.tenantId = source.tenantId ∧ v.contentHash = contentHash)
      (fun _ _ => True) w := by
  simp only [IngestionRepository.submit, IngestionRepository.insertDocument,
    IngestionRepository.insertVersion, IngestionRepository.insertJob, wp_bind, wp_reach, wp_uuid4,
    wp_orRaise, wp_readDatabase, wp_writeDatabase]
  refine ⟨fun _ => ⟨fun document hdocument => ⟨fun candidate hcandidate => ?_, fun _ => trivial⟩,
    fun _ => trivial⟩, fun _ _ => trivial⟩
  have ht : document.tenantId = source.tenantId := congrArg Prod.fst (document_eq hdocument).1
  obtain ⟨hpk, -, hhash, -⟩ := version_eq hcandidate
  have hblank : candidate.Blank := by
    unfold Document.version at hcandidate
    split at hcandidate
    · cases hcandidate
      exact ⟨rfl, rfl⟩
    · cases hcandidate
  refine ⟨fun documents _ => ⟨fun found _ => ?_, fun _ => trivial⟩, fun _ => trivial⟩
  refine ⟨fun versions hversions => ⟨fun version _ => ?_, fun _ => trivial⟩, fun _ => trivial⟩
  have hmem : ∀ v ∈ versions, v ∈ w.database.documentVersions ∨
      v.Blank ∧ v.tenantId = source.tenantId ∧ v.contentHash = contentHash := by
    intro v hv
    rcases Table.mem_insertNew hversions hv with hold | rfl
    · exact Or.inl hold
    · exact Or.inr ⟨hblank, (congrArg Prod.fst hpk).trans ht, hhash⟩
  split
  · trivial
  · simp only [wp_bind, wp_uuid4, Hoare.wp_get, wp_readDatabase, wp_writeDatabase, wp_orRaise,
      wp_pure]
    exact ⟨fun _ _ => ⟨fun _ _ => hmem, fun _ => trivial⟩, fun _ => trivial⟩

/-- What a submission event leaves of objects and versions. -/
structure Deposits (P : Platform) (event : SourceEvent) (w w' : World) : Prop where
  grown : Grown P w w'
  versions : ∀ v ∈ w'.database.documentVersions, v ∈ w.database.documentVersions ∨
    v.Blank ∧ ∃ content, w'.objects v.rawArtifact = some content

theorem wp_submitEvent_deposits (hP : c.platform.CollisionFree)
    (hintact : Intact c.platform w.objects) : wp (submitEvent c faults event)
    (fun _ w' => Deposits c.platform event w w') (fun _ w' => Deposits c.platform event w w') w := by
  have hsame : ∀ {w'}, Stocked c.platform w w' → Deposits c.platform event w w' :=
    fun h => ⟨h.grown, fun v hv => Or.inl (h.database ▸ hv)⟩
  have hrefl : Stocked c.platform w w := ⟨.refl w, rfl, rfl, rfl⟩
  unfold submitEvent
  split
  · exact hsame hrefl
  simp only [wp_bind, wp_orRaise]
  refine ⟨fun content _ => ?_, fun _ => hsame hrefl⟩
  refine wp_mono (wp_put_stocks hP hintact) ?_ (fun _ w₁ h => hsame h)
  rintro _ w₁ ⟨-, hstocked, hobject⟩
  rw [wp_transaction]
  refine wp_mono (wp_and wp_submit_objects wp_submit_blank) ?_ ?_
  · rintro s w₂ ⟨hobjects, hversions⟩
    have hgrown : Grown c.platform w w₂ := hstocked.grown.trans (.of_eq hobjects)
    -- what follows the transaction touches neither the objects nor the versions
    have hdone : ∀ {w'}, w'.objects = w₂.objects →
        w'.database.documentVersions = w₂.database.documentVersions →
        Deposits c.platform event w w' := by
      intro w' hobjects' hversions'
      refine ⟨hgrown.trans (.of_eq hobjects'), fun v hv => ?_⟩
      rw [hversions'] at hv
      rcases hversions v hv with hold | ⟨hblank, ht, hhash⟩
      · exact Or.inl (hstocked.database ▸ hold)
      · refine Or.inr ⟨hblank, content, ?_⟩
        unfold DocumentVersion.rawArtifact
        rw [hobjects', hobjects, ht, hhash]
        exact hobject
    refine ⟨fun _ => ?_, fun _ _ => ?_⟩
    · simp only [wp_observe]
      split
      · simp only [publish, wp_bind, wp_request, wp_transaction, Hoare.wp_get, wp_writeDatabase,
          wp_pure]
        refine ⟨fun _ => ⟨fun _ => hdone rfl rfl, fun _ _ => hdone rfl rfl⟩, fun _ _ => ?_⟩
        split
        · exact hdone rfl rfl
        · exact hdone rfl rfl
      · exact hdone rfl rfl
    · exact ⟨⟨hgrown.kept, hgrown.intact⟩, fun v hv => Or.inl (hstocked.database ▸ hv)⟩
  · rintro _ w₂ ⟨hobjects, -⟩
    have hgrown : Grown c.platform w w₂ := hstocked.grown.trans (.of_eq hobjects)
    exact ⟨⟨hgrown.kept, hgrown.intact⟩, fun v hv => Or.inl (hstocked.database ▸ hv)⟩

/-- A submission keeps the artifacts in order. -/
theorem Deposits.shelves (hs : Shelved c w) (h : Deposits c.platform event w w')
    (hkept : ∀ v ∈ w.database.documentVersions, v ∈ w'.database.documentVersions) :
    Shelves c w w' := by
  refine ⟨h.grown, .of_subset hkept, h.grown.intact hs.intact, fun v hv => ?_, fun v hv => ?_⟩
  · rcases h.versions v hv with hold | ⟨-, hcontent⟩
    · obtain ⟨content, hobject⟩ := hs.content v hold
      exact ⟨content, h.grown.kept _ _ hobject⟩
    · exact hcontent
  · rcases h.versions v hv with hold | ⟨hblank, -⟩
    · exact (hs.refs v hold).imp id fun hfiled => hfiled.grown h.grown
    · exact Or.inl hblank

theorem submission_keeps {now : ℤ} (hP : c.platform.CollisionFree) (h : Kept c w) :
    LiveKeeps c w (w.step c ⟨.submit event, faults, now⟩) := by
  have hdeposits : Deposits c.platform event { w with now }
      (w.step c ⟨.submit event, faults, now⟩) := by
    refine wp_state (P := Deposits c.platform event { w with now }) ?_
    rw [WorkerEvent.perform, wp_bind]
    exact wp_submitEvent_deposits hP h.shelved.intact
  have hdeposits' : Deposits c.platform event w (w.step c ⟨.submit event, faults, now⟩) :=
    ⟨⟨hdeposits.grown.kept, hdeposits.grown.intact⟩, hdeposits.versions⟩
  have hevent : SubmissionEvent c event { w with now } (w.step c ⟨.submit event, faults, now⟩) :=
    submission_cases
  cases hevent with
  | rejected database _ =>
    refine .of_jobs h (hdeposits'.shelves h.shelved fun v hv => ?_) fun row' hrow' => ?_
    · rw [database]
      exact hv
    · rw [database] at hrow'
      exact Or.inl ⟨row', hrow', rfl, rfl⟩
  | committed content _ s w₁ w₂ before _ submitted database _ _ _ =>
    -- a job of the new database is an old one, or was queued by this submission
    have hold : ∀ row ∈ w₂.database.ingestionJobs,
        (∃ row₀ ∈ w.database.ingestionJobs, row.job = row₀.job ∧ row.versionId = row₀.versionId) ∨
          row.job.state = .queued ∧ row.job.errorClass = none ∧ row.job.resumeFrom = none := by
      intro row hrow
      rcases submitted.mem_jobs hrow with hold | rfl
      · rw [before] at hold
        exact Or.inl ⟨row, hold, rfl, rfl⟩
      · exact Or.inr ⟨rfl, rfl, rfl⟩
    refine .of_jobs h (hdeposits'.shelves h.shelved fun v hv => ?_) fun row' hrow' => ?_
    · have hv₁ : v ∈ w₁.database.documentVersions := by
        rw [before]
        exact hv
      have hv₂ := submitted.versions_subset hv₁
      rcases database with hdb | hdb
      · rw [hdb]
        exact hv₂
      · rw [hdb]
        exact hv₂
    · rcases database with hdb | hdb
      · rw [hdb] at hrow'
        exact hold row' hrow'
      · rw [hdb] at hrow'
        obtain ⟨row, hrow, hjob, hversion⟩ := mem_markDispatched hrow'
        rw [hjob, hversion]
        exact hold row hrow

end Submission

/-! ## Events and runs -/

section Live

variable {tenantId jobId : String} {faults : Faults} {now : ℤ}

theorem wp_publishAll_objects {keys : List (String × String)} :
    wp (keys.forM (publish faults)) (fun _ w' => w'.objects = w.objects)
      (fun _ w' => w'.objects = w.objects) w := by
  induction keys generalizing w with
  | nil => rfl
  | cons key keys ih =>
    show wp (publish faults key >>= fun _ => keys.forM (publish faults)) _ _ _
    rw [wp_bind, publish, wp_request]
    refine ⟨fun _ => ih, fun _ _ => ?_⟩
    split
    · rfl
    · rfl

theorem recovery_keeps {limit : ℕ} (h : Kept c w) :
    LiveKeeps c w (w.step c ⟨.recover limit, faults, now⟩) := by
  have hobjects : (w.step c ⟨.recover limit, faults, now⟩).objects = w.objects := by
    refine wp_state (P := fun w' : World => w'.objects = w.objects) ?_
    rw [WorkerEvent.perform, wp_bind, recoverPending, wp_bind, wp_transaction]
    dsimp only
    split
    · simp
    · simp only [wp_bind, Hoare.wp_get, wp_writeDatabase, wp_pure]
      exact ⟨fun _ => wp_publishAll_objects, fun _ _ => trivial⟩
  have hevent : RecoveryEvent { w with now } (w.step c ⟨.recover limit, faults, now⟩) :=
    recovery_cases
  rcases hevent.database with hdb | ⟨limit', hdb⟩
  · refine .of_jobs h (h.shelved.shelves (.of_eq hobjects) (by rw [hdb])) fun row' hrow' => ?_
    rw [hdb] at hrow'
    exact Or.inl ⟨row', hrow', rfl, rfl⟩
  · refine .of_jobs h (h.shelved.shelves (.of_eq hobjects) (by rw [hdb])) fun row' hrow' => ?_
    rw [hdb] at hrow'
    exact Or.inl (mem_claimRecoveryBatch hrow')

/-- A delivery of a job that is not there does nothing. -/
theorem wp_runJob_unknown (h : w.database.ingestionJobs.find (tenantId, jobId) = none) :
    wp (runJob c faults tenantId jobId) (fun _ w' => w' = w) (fun _ w' => w' = w) w := by
  unfold runJob
  split
  · rfl
  rw [wp_bind]
  have hclaim : w.database.ingestionJobs.claimDelivery tenantId jobId = none := by
    unfold IngestionJobs.claimDelivery
    rw [h]
  refine wp_claim (fun row hrow _ => ?_) (fun _ _ hsome _ => ?_) (fun _ _ hsome _ _ => ?_)
    (fun _ => rfl)
  · rw [h] at hrow
    cases hrow
  · rw [hclaim] at hsome
    cases hsome
  · rw [hclaim] at hsome
    cases hsome

/-- What a delivery leaves of the other rows, and of its own. -/
theorem DeliveryKeeps.keeps {row : JobRow} {π : VersionProjection} (h : Kept c w)
    (hd : DeliveryKeeps c faults π row w w') : LiveKeeps c w w' := by
  refine ⟨hd.shelves, fun row' hrow' => ?_⟩
  rcases hd.rows row' hrow' with ⟨hold, -⟩ | ⟨hbare, hparked⟩
  · exact (h.parked row' hold).imp fun hfiled => hfiled.kept hd.shelves.grown hd.shelves.refs
  · have ht : row'.job.tenantId = row.job.tenantId := congrArg (fun u => u.1.1) hbare
    have hv : row'.versionId = row.versionId := congrArg (fun u => u.2.2) hbare
    rw [ht, hv]
    exact hparked

theorem Kept.at (h : Kept c w) (now : ℤ) : Kept c { w with now } :=
  ⟨h.consistent, ⟨h.shelved.intact, h.shelved.content, h.shelved.refs⟩, h.parked⟩

/-- **One delivery** of a known job, in a run. -/
theorem step_delivery_keeps (hP : c.platform.CollisionFree) (h : Kept c w) {row : JobRow}
    {source : Source} {version : DocumentVersion} {document : Document} {content : ByteArray}
    (hrow : w.database.ingestionJobs.find (tenantId, jobId) = some row)
    (hjob : JobContent c w.database row source version document content) :
    DeliveryKeeps c faults (c.projection source version content) row { w with now }
      (w.step c ⟨.deliver tenantId jobId, faults, now⟩) := by
  refine wp_state (P := DeliveryKeeps c faults (c.projection source version content) row
    { w with now }) ?_
  rw [WorkerEvent.perform, wp_bind]
  exact wp_runJob_keeps hP (h.at now) hrow hjob

theorem delivery_keeps (hP : c.platform.CollisionFree) (h : Kept c w) :
    LiveKeeps c w (w.step c ⟨.deliver tenantId jobId, faults, now⟩) := by
  cases hrow : w.database.ingestionJobs.find (tenantId, jobId) with
  | none =>
    have hsame : w.step c ⟨.deliver tenantId jobId, faults, now⟩ = { w with now } := by
      refine wp_state (P := fun w' => w' = { w with now }) ?_
      rw [WorkerEvent.perform, wp_bind]
      exact wp_runJob_unknown hrow
    rw [hsame]
    exact .of_jobs h (h.shelved.shelves (.of_eq rfl) rfl)
      fun row' hrow' => Or.inl ⟨row', hrow', rfl, rfl⟩
  | some row =>
    obtain ⟨source, version, document, content, hjob⟩ := h.content (Table.find_eq_some.1 hrow).1
    have hdelivered : DeliveryKeeps c faults (c.projection source version content) row
        { w with now } (w.step c ⟨.deliver tenantId jobId, faults, now⟩) :=
      step_delivery_keeps hP h hrow hjob
    have hkeeps := hdelivered.keeps (h.at now)
    exact ⟨⟨⟨hkeeps.shelves.grown.kept, hkeeps.shelves.grown.intact⟩, hkeeps.shelves.refs,
      hkeeps.shelves.shelved⟩, hkeeps.parked⟩

/-- **Every event keeps the artifacts in order and every job parked**, and loses no object and no
reference. -/
theorem live_kept (hP : c.platform.CollisionFree) (h : Kept c w) (event : LifecycleEvent) :
    Kept c (w.live c event) ∧ Shelves c w (w.live c event) := by
  have hkeeps : LiveKeeps c w (w.live c event) := by
    cases event with
    | worker event =>
      obtain ⟨action, faults, now⟩ := event
      cases action with
      | submit event => exact submission_keeps hP h
      | deliver tenantId jobId => exact delivery_keeps hP h
      | recover limit => exact recovery_keeps h
    | promote tenantId versionId => exact (promote_documentsOnly w tenantId versionId).keeps h
    | delete tenantId documentId => exact (delete_documentsOnly w tenantId documentId).keeps h
  exact ⟨⟨live_consistent hP event h.consistent, hkeeps.shelves.shelved, hkeeps.parked⟩,
    hkeeps.shelves⟩

/-- A completed version stays so. -/
theorem live_completed {k : String × String} (h : Kept c w) (event : LifecycleEvent)
    (hdone : w.database.ingestionJobs.completed k) :
    (w.live c event).database.ingestionJobs.completed k := by
  cases event with
  | worker event =>
    cases step_effect w event h.consistent with
    | submitted _ _ _ _ _ w₁ w₂ before _ submitted after _ _ _ =>
      obtain ⟨row, hrow, hkey, hstate⟩ := hdone
      have hfind : w₁.database.ingestionJobs.find row.pk = some row := by
        rw [before]
        exact Table.find_of_mem hrow
      have hmem := (Table.find_eq_some.1 (submitted.find_job hfind)).1
      exact after.completed.2 ⟨row, hmem, hkey, hstate⟩
    | unfinished rows _ _ _ => exact rows.completed.2 hdone
    | finished row version document content _ rows _ _ _ => exact (rows.completed k).2 (Or.inl hdone)
  | promote tenantId versionId =>
    rw [World.live, (promote_documentsOnly w tenantId versionId).jobs]
    exact hdone
  | delete tenantId documentId =>
    rw [World.live, (delete_documentsOnly w tenantId documentId).jobs]
    exact hdone

theorem Kept.empty : Kept c {} := by
  refine ⟨Consistent.empty c.platform 0, ⟨fun _ _ hnone => ?_, fun v hv => ?_, fun v hv => ?_⟩,
    fun row hrow => ?_⟩
  · cases hnone
  · exact absurd hv Table.not_mem_empty
  · exact absurd hv Table.not_mem_empty
  · exact absurd hrow Table.not_mem_empty

/-- **After every run** the artifacts are in order and every job is parked. -/
theorem life_kept (hP : c.platform.CollisionFree) (es : List LifecycleEvent) :
    Kept c (Machine.run (World.live c) {} es) :=
  Machine.run_inv (fun _ event h => (live_kept hP h event).1) Kept.empty

/-- From then on no object and no reference is lost. -/
theorem life_shelves (hP : c.platform.CollisionFree) (h : Kept c w) (es : List LifecycleEvent) :
    Shelves c w (Machine.run (World.live c) w es) := by
  have hrun : Kept c (Machine.run (World.live c) w es) ∧
      Shelves c w (Machine.run (World.live c) w es) := by
    refine Machine.run_inv (I := fun w' => Kept c w' ∧ Shelves c w w') (fun w' event hkept => ?_)
      ⟨h, h.shelved.shelves (.refl w) rfl⟩
    obtain ⟨hnext, hshelves⟩ := live_kept hP hkept.1 event
    exact ⟨hnext, hkept.2.trans hshelves⟩
  exact hrun.2

end Live

end GroundedOps.Ingestion
