import GroundedOps.Proof.Consistency

/-!
# What an event does to the tables and the index

Each event of the worker, seen from the documents: it makes a submission, or completes a
job and promotes its version, or does neither.

* `Effect`: these three, with what becomes of the index.
* `step_effect`: every event on consistent tables has such an effect.
* `run_consistent`: the tables are consistent after every run.
-/

namespace GroundedOps.Ingestion

open Hoare
open IngestionPipeline (BodyLeft BodyReturned SameJob bodyOperations)

/-! ## Completed jobs -/

/-- The version with key `k` has a completed job. -/
def IngestionJobs.completed (jobs : IngestionJobs) (k : String × String) : Prop :=
  ∃ r ∈ jobs, (r.job.tenantId, r.versionId) = k ∧ r.job.state = .completed

/-- What the documents see of a job. -/
def JobRow.fate (row : JobRow) : ((String × String) × String × String) × Bool :=
  (row.bare, decide (row.job.state = .completed))

section Jobs

variable {jobs jobs' : IngestionJobs} {tenantId jobId : String} {f : JobRow → JobRow}
  {hp : ∀ row, (f row).pk = row.pk} {hu : ∀ row, (f row).unique = row.unique} {row : JobRow}
  {job : IngestionJob} {k : String × String}

/-- An update that keeps a column of its job keeps the column. -/
theorem map_update {β : Type} {g : JobRow → β}
    (h : ∀ r ∈ jobs, r.pk = (tenantId, jobId) → g (f r) = g r) :
    (jobs.update tenantId jobId f hp hu).rows.map g = jobs.rows.map g := by
  unfold IngestionJobs.update Table.modify
  rw [List.map_map]
  apply List.map_congr_left
  intro r hr
  simp only [Function.comp_apply]
  by_cases hpk : r.pk = (tenantId, jobId)
  · rw [if_pos hpk]; exact h r hr hpk
  · rw [if_neg hpk]

theorem completed_congr (h : jobs'.rows.map JobRow.fate = jobs.rows.map JobRow.fate) :
    jobs'.completed k ↔ jobs.completed k := by
  have hone : ∀ {a b : IngestionJobs}, b.rows.map JobRow.fate = a.rows.map JobRow.fate →
      b.completed k → a.completed k := by
    rintro a b hab ⟨r, hr, hk, hstate⟩
    obtain ⟨r', hr', hfate⟩ := Lists.exists_of_map_eq hab hr
    have hbare : r'.bare = r.bare := congrArg Prod.fst hfate
    have hsame : decide (r'.job.state = .completed) = decide (r.job.state = .completed) :=
      congrArg Prod.snd hfate
    have ht : r'.job.tenantId = r.job.tenantId := congrArg (fun u => u.1.1) hbare
    have hv : r'.versionId = r.versionId := congrArg (fun u => u.2.2) hbare
    exact ⟨r', hr', by rw [ht, hv]; exact hk, by simpa [hstate] using hsame⟩
  exact ⟨hone h, hone h.symm⟩

/-- Saving a job as completed completes its version and no other. -/
theorem completed_setJob (hrow : row ∈ jobs) (hpk : row.pk = (job.tenantId, job.id))
    (hstate : job.state = .completed) :
    (jobs.setJob job).completed k ↔ jobs.completed k ∨ k = (row.job.tenantId, row.versionId) := by
  constructor
  · rintro ⟨r', hr', hk, hcompleted⟩
    rcases mem_update_cases hr' with ⟨hr, -⟩ | ⟨r, hr, hrpk, rfl⟩
    · exact Or.inl ⟨r', hr, hk, hcompleted⟩
    · obtain rfl : r = row := Table.eq_of_pk hr hrow (hrpk.trans hpk.symm)
      exact Or.inr hk.symm
  · rintro (⟨r, hr, hk, hcompleted⟩ | rfl)
    · by_cases hrpk : r.pk = (job.tenantId, job.id)
      · exact ⟨_, mem_update_self hr hrpk, hk, hstate⟩
      · exact ⟨r, mem_update_of_ne hr hrpk, hk, hcompleted⟩
    · exact ⟨_, mem_update_self hrow hpk, rfl, hstate⟩

end Jobs

/-! ## Databases in which no version completes -/

/-- Nothing has been inserted, promoted or completed. -/
structure Unfinished (db db' : Database) : Prop where
  sources : db'.sources = db.sources
  documents : db'.documents = db.documents
  versions : SameVersions db.documentVersions db'.documentVersions
  jobs : db'.ingestionJobs.rows.map JobRow.fate = db.ingestionJobs.rows.map JobRow.fate

section Unfinished

variable {db db' db'' : Database} {tenantId jobId : String} {k : String × String}

theorem Unfinished.refl (db : Database) : Unfinished db db := ⟨rfl, rfl, .refl _, rfl⟩

theorem Unfinished.trans (h : Unfinished db db') (h' : Unfinished db' db'') : Unfinished db db'' :=
  ⟨h'.sources.trans h.sources, h'.documents.trans h.documents, h.versions.trans h'.versions,
    h'.jobs.trans h.jobs⟩

/-- Only jobs have changed, and none of their fates. -/
theorem Unfinished.of_jobs {ingestionJobs : IngestionJobs}
    (h : ingestionJobs.rows.map JobRow.fate = db.ingestionJobs.rows.map JobRow.fate) :
    Unfinished db { db with ingestionJobs } :=
  ⟨rfl, rfl, .refl _, h⟩

theorem bare_of_fate {jobs jobs' : IngestionJobs}
    (h : jobs'.rows.map JobRow.fate = jobs.rows.map JobRow.fate) :
    jobs'.rows.map JobRow.bare = jobs.rows.map JobRow.bare := by
  have hfst := congrArg (List.map Prod.fst) h
  rw [List.map_map, List.map_map] at hfst
  exact hfst

theorem Unfinished.same (h : Unfinished db db') : SameRows db db' :=
  ⟨h.sources, by rw [h.documents], h.versions, bare_of_fate h.jobs⟩

theorem Unfinished.completed (h : Unfinished db db') :
    db'.ingestionJobs.completed k ↔ db.ingestionJobs.completed k :=
  completed_congr h.jobs

/-- A job that is in neither state completed before nor after has the same fate. -/
theorem fate_eq {row row' : JobRow} (hbare : row'.bare = row.bare)
    (h : row'.job.state = .completed ↔ row.job.state = .completed) : row'.fate = row.fate := by
  rw [JobRow.fate, JobRow.fate, hbare, decide_eq_decide.2 h]

theorem not_completed_of_open {row : JobRow} (h : row.job.state.terminal = false) :
    row.job.state ≠ .completed := by
  intro hstate
  rw [hstate] at h
  cases h

theorem failLost_fate (row : JobRow) : row.failLost.fate = row.fate := by
  unfold JobRow.failLost
  split
  · rfl
  · rename_i hopen
    rw [Bool.not_eq_true] at hopen
    exact fate_eq rfl (iff_of_false (by simp) (not_completed_of_open hopen))

theorem workerError_fate (row : JobRow) (maxAttempts : ℕ) :
    (row.workerError maxAttempts).fate = row.fate := by
  unfold JobRow.workerError
  split
  · rfl
  · rename_i hopen
    rw [Bool.not_eq_true] at hopen
    refine fate_eq rfl (iff_of_false ?_ (not_completed_of_open hopen))
    dsimp only
    split
    · simp
    · simp

theorem countDelivery_unfinished :
    Unfinished db { db with ingestionJobs := db.ingestionJobs.countDelivery tenantId jobId } :=
  .of_jobs (map_update fun _ _ _ => rfl)

theorem failLost_unfinished :
    Unfinished db { db with ingestionJobs := db.ingestionJobs.failLostDelivery tenantId jobId } :=
  .of_jobs (map_update fun r _ _ => failLost_fate r)

theorem workerError_unfinished {maxAttempts : ℕ} : Unfinished db { db with
    ingestionJobs := db.ingestionJobs.recordWorkerError tenantId jobId maxAttempts } :=
  .of_jobs (map_update fun r _ _ => workerError_fate r maxAttempts)

theorem markDispatched_unfinished {now : ℤ} : Unfinished db { db with
    ingestionJobs := db.ingestionJobs.markDispatched tenantId jobId now } := by
  refine .of_jobs (map_update fun r _ _ => ?_)
  split
  · rfl
  · rfl

theorem claimRecoveryBatch_unfinished {limit : ℕ} {now : ℤ} : Unfinished db { db with
    ingestionJobs := (db.ingestionJobs.claimRecoveryBatch limit now).2 } := by
  refine .of_jobs ?_
  unfold IngestionJobs.claimRecoveryBatch Table.modify
  rw [List.map_map]
  apply List.map_congr_left
  intro r _
  simp only [Function.comp_apply]
  split
  · rfl
  · rfl

/-- A pending job is saved, not completed. -/
theorem Saved.unfinished {job : IngestionJob} {row : JobRow} (h : Saved db db' job)
    (hrow : row ∈ db.ingestionJobs) (hpk : row.pk = (job.tenantId, job.id))
    (hopen : row.job.state.terminal = false) (hstate : job.state ≠ .completed) :
    Unfinished db db' := by
  refine ⟨h.sources, h.documents, h.versions, ?_⟩
  rw [h.jobs]
  refine map_update fun r hr hrpk => ?_
  have hsame : r = row := Table.eq_of_pk hr hrow (hrpk.trans hpk.symm)
  subst hsame
  exact fate_eq rfl (iff_of_false hstate (not_completed_of_open hopen))

/-- One version has been promoted and its job completed. -/
structure Finished (P : Platform) (version : DocumentVersion) (db db' : Database) : Prop where
  same : SameRows db db'
  documents : db'.documents = db.documents.setCurrent P db.documentVersions version
  completed : ∀ k, db'.ingestionJobs.completed k ↔ db.ingestionJobs.completed k ∨ k = version.pk

theorem Unfinished.finished {P : Platform} {version : DocumentVersion} (h : Unfinished db db')
    (h' : Finished P version db' db'') : Finished P version db db'' := by
  refine ⟨h.same.trans h'.same, ?_, fun k => ?_⟩
  · rw [h'.documents, h.documents]
    exact setCurrent_congr h.versions.symm rfl
  · rw [h'.completed, h.completed]

theorem setCurrent_bare {P : Platform} {documents : Documents} {versions : DocumentVersions}
    {version : DocumentVersion} :
    (documents.setCurrent P versions version).rows.map Document.bare =
      documents.rows.map Document.bare := by
  unfold Documents.setCurrent Table.modify
  rw [List.map_map]
  apply List.map_congr_left
  intro row _
  simp only [Function.comp_apply]
  split
  · rfl
  · rfl

/-- The job of a promoted version is saved as completed. -/
theorem Saved.finished {P : Platform} {job : IngestionJob} {row : JobRow}
    {version : DocumentVersion} (h : Saved (db.promoted P version) db' job)
    (hrow : row ∈ db.ingestionJobs) (hpk : row.pk = (job.tenantId, job.id))
    (hversion : version.pk = (row.job.tenantId, row.versionId)) (hstate : job.state = .completed) :
    Finished P version db db' := by
  refine ⟨⟨h.sources, ?_, h.versions, ?_⟩, h.documents, fun k => ?_⟩
  · rw [h.documents]
    exact setCurrent_bare
  · rw [h.jobs]
    exact map_update fun _ _ _ => rfl
  · rw [h.jobs, hversion]
    exact completed_setJob hrow hpk hstate

end Unfinished

/-! ## Effects -/

/-- The submissions that have committed, in order. -/
def World.submissions (w : World) : List SourceEvent :=
  w.log.filterMap fun observation =>
    match observation with
    | .submitted event => some event
    | _ => none

/-- What a delivery has to pass before `INDEXING`. -/
def deliveryOperations (job : IngestionJob) : List Operation :=
  [.claim, .claimCommit, .getDelivery, .getArtifact, .getJob, .submit] ++ bodyOperations job

/-- The event delivers a pending job, of these rows and this content, and nothing stops the
delivery before `INDEXING`. -/
structure Reached (c : Components) (w : World) (event : WorkerEvent) (row : JobRow)
    (version : DocumentVersion) (document : Document) (content : ByteArray) : Prop
    extends JobRows w.database row version document where
  action : event.action = .deliver row.job.tenantId row.job.id
  digest : c.platform.sha256 content = version.contentHash
  free : event.faults.busy = false
  pending : row.job.state.terminal = false
  deliveries : row.deliveryAttempts < maxDeliveries
  passed : Clear event.faults (deliveryOperations row.job)

/-- What an event that completes no job leaves of the index. -/
inductive IndexKept (c : Components) (event : WorkerEvent) (w w' : World) : Prop
  | same (h : w'.index = w.index)
  | left (row : JobRow) (version : DocumentVersion) (document : Document) (content : ByteArray)
      (reached : Reached c w event row version document content)
      (h : IndexLeft c event.faults version content w.index w'.index)

/-- **What one event of the worker does.** -/
inductive Effect (c : Components) (event : WorkerEvent) (w w' : World) : Prop
  /-- a submission commits -/
  | submitted (source : SourceEvent) (action : event.action = .submit source)
      (content : ByteArray) (hcontent : source.content = some content) (s : Submission)
      (w₁ w₂ : World) (before : w₁.database = w.database) (uuids : w₁.uuids = w.uuids)
      (submitted : Submitted c.platform (source.args c.platform content) w₁ w₂ s)
      (after : Unfinished w₂.database w'.database) (index : w'.index = w.index)
      (drawn : w'.uuids = w₂.uuids) (submissions : w'.submissions = w.submissions ++ [source])
  /-- no job is made or completed -/
  | unfinished (rows : Unfinished w.database w'.database) (index : IndexKept c event w w')
      (uuids : w.uuids ≤ w'.uuids) (submissions : w'.submissions = w.submissions)
  /-- a job is completed and its version promoted -/
  | finished (row : JobRow) (version : DocumentVersion) (document : Document)
      (content : ByteArray) (reached : Reached c w event row version document content)
      (rows : Finished c.platform version w.database w'.database)
      (index : IndexDone c event.faults version content w.index w'.index)
      (uuids : w.uuids ≤ w'.uuids) (submissions : w'.submissions = w.submissions)

section Effect

variable {c : Components} {faults : Faults} {tenantId jobId : String} {w w' : World} {now : ℤ}

theorem submissions_of_logged {p : Observation → Prop} (h : Logged p w w')
    (hp : ∀ event, ¬ p (.submitted event)) : w'.submissions = w.submissions := by
  obtain ⟨more, hlog, hmore⟩ := h
  have hnone : more.filterMap (fun observation => match observation with
      | .submitted event => some event
      | _ => none) = [] := by
    rw [List.filterMap_eq_nil_iff]
    intro o ho
    cases o with
    | submitted event => exact absurd (hmore _ ho) (hp event)
    | claimed => rfl
    | body => rfl
    | prepared => rfl
    | projected => rfl
    | promoted => rfl
  rw [World.submissions, hlog, List.filterMap_append, hnone, List.append_nil]
  rfl

theorem submissions_of_body (h : Logged (Observation.OfBody tenantId jobId) w w') :
    w'.submissions = w.submissions := by
  refine submissions_of_logged h fun event hbody => ?_
  cases hbody

theorem submissions_of_log (h : w'.log = w.log) : w'.submissions = w.submissions := by
  rw [World.submissions, h]
  rfl

theorem submissions_of_claimed (h : w'.log = w.log ++ [.claimed tenantId jobId]) :
    w'.submissions = w.submissions := by
  rw [World.submissions, h, List.filterMap_append]
  exact List.append_nil _

theorem submissions_claimed {jobs : IngestionJobs} :
    (w.claimed tenantId jobId jobs).submissions = w.submissions := by
  show List.filterMap _ (w.log ++ _) = _
  rw [List.filterMap_append]
  exact List.append_nil _

/-- The rows of a job whose delivery has been counted. -/
theorem JobRows.of_counted {jobs : IngestionJobs} {row : JobRow} {version : DocumentVersion}
    {document : Document}
    (h : JobRows { w.database with ingestionJobs := jobs } row.counted version document)
    (hrow : row ∈ w.database.ingestionJobs) : JobRows w.database row version document :=
  ⟨hrow, h.version_mem, h.version_pk, h.document_mem, h.document_pk⟩

/-- What a claimed body has found when its pipeline starts. -/
structure Stored (c : Components) (w w₁ : World) (tenantId jobId : String) (row row₁ : JobRow)
    (s : Submission) (content : ByteArray) : Prop
    extends JobRows w.database row s.version s.document where
  pk : row.pk = (tenantId, jobId)
  counted : row₁ = row.counted
  pending : row.job.state.terminal = false
  deliveries : row.deliveryAttempts < maxDeliveries
  digest : c.platform.sha256 content = s.version.contentHash
  rows : Unfinished w.database w₁.database

theorem Resumed.stored {deliveries : ℕ} {jobs : IngestionJobs} {w₁ : World}
    {record : DeliveryRecord} {content : ByteArray} {row₁ : JobRow} {s : Submission}
    (hc : Consistent c.platform w.database w.uuids)
    (hclaim : w.database.ingestionJobs.claimDelivery tenantId jobId = some (deliveries, jobs))
    (hbound : deliveries ≤ maxDeliveries)
    (h : Resumed c faults tenantId jobId (w.claimed tenantId jobId jobs) w₁ record content row₁ s) :
    ∃ row, Stored c w w₁ tenantId jobId row row₁ s content := by
  obtain ⟨row, hrow, hopen, rfl, rfl⟩ := claimDelivery_eq hclaim
  obtain ⟨hmem, hpk⟩ := Table.find_eq_some.1 hrow
  have hcounted : row.counted = row₁ := by
    have hfind : (w.database.ingestionJobs.countDelivery tenantId jobId).find (tenantId, jobId) =
        some row₁ := h.row
    rw [find_counted hrow] at hfind
    exact Option.some.inj hfind
  subst hcounted
  have hsame : Unfinished w.database (w.claimed tenantId jobId
      (w.database.ingestionJobs.countDelivery tenantId jobId)).database := countDelivery_unfinished
  have hclaimed : Consistent c.platform (w.claimed tenantId jobId
      (w.database.ingestionJobs.countDelivery tenantId jobId)).database w.uuids :=
    hc.of_same hsame.same
  obtain ⟨hdb, hrows, hdigest⟩ := Resumed.known hclaimed h
  refine ⟨row, hrows.of_counted hmem, hpk, rfl, hopen, ?_, hdigest, hdb ▸ hsame⟩
  omega

/-- A claimed body has reached the stages before `INDEXING`, if it passes them. -/
theorem Stored.reached {w₁ : World} {record : DeliveryRecord} {jobs : IngestionJobs}
    {content : ByteArray} {row row₁ : JobRow} {s : Submission}
    (hst : Stored c w w₁ tenantId jobId row row₁ s content)
    (h : Resumed c faults tenantId jobId (w.claimed tenantId jobId jobs) w₁ record content row₁ s)
    (hpassed : Clear faults [.claim, .claimCommit]) (hfree : faults.busy = false)
    (hbody : Clear faults (bodyOperations row₁.job)) :
    Reached c w ⟨.deliver tenantId jobId, faults, now⟩ row s.version s.document content := by
  have ht : row.job.tenantId = tenantId := congrArg Prod.fst hst.pk
  have hj : row.job.id = jobId := congrArg Prod.snd hst.pk
  rw [hst.counted] at hbody
  exact ⟨hst.toJobRows, by rw [ht, hj], hst.digest, hfree, hst.pending, hst.deliveries,
    (hpassed.append h.passed).append hbody⟩

/-- What a body leaves that rolls back. -/
theorem BodyAborted.kept {deliveries : ℕ} {jobs : IngestionJobs}
    (hc : Consistent c.platform w.database w.uuids)
    (hclaim : w.database.ingestionJobs.claimDelivery tenantId jobId = some (deliveries, jobs))
    (hbound : deliveries ≤ maxDeliveries) (hpassed : Clear faults [.claim, .claimCommit])
    (hfree : faults.busy = false)
    (h : BodyAborted c faults tenantId jobId (w.claimed tenantId jobId jobs) w') :
    IndexKept c ⟨.deliver tenantId jobId, faults, now⟩ w w' ∧ w.uuids ≤ w'.uuids := by
  cases h with
  | early h => exact ⟨.same h.index, h.uuids⟩
  | late w₁ record content row₁ s resumed left =>
    have hdrawn := resumed.submitted.drawn
    have huuids : w.uuids ≤ w'.uuids := by
      rw [left.uuids]
      exact hdrawn.uuids
    rcases left.passed with hsame | hclear
    · exact ⟨.same (hsame.trans hdrawn.index), huuids⟩
    · obtain ⟨row, hstored⟩ := resumed.stored hc hclaim hbound
      have hleft : IndexLeft c faults s.version content w.index w'.index := by
        have hindex := left.index
        rw [hdrawn.index] at hindex
        exact hindex
      exact ⟨.left row s.version s.document content
        (hstored.reached resumed hpassed hfree hclear) hleft, huuids⟩

theorem delivery_effect (hc : Consistent c.platform w.database w.uuids)
    (h : Delivery c faults tenantId jobId w w') :
    Effect c ⟨.deliver tenantId jobId, faults, now⟩ w w' := by
  cases h with
  | idle database quiet =>
    exact .unfinished (database ▸ .refl _) (.same quiet.index) quiet.uuids.ge
      (submissions_of_log quiet.log)
  | terminal row hrow state database index uuids log =>
    exact .unfinished (database ▸ .refl _) (.same index) uuids.ge (submissions_of_claimed log)
  | lost deliveries jobs claim lost database index uuids log =>
    obtain ⟨row, -, -, -, rfl⟩ := claimDelivery_eq claim
    refine .unfinished ?_ (.same index) uuids.ge (submissions_of_claimed log)
    rw [database]
    exact countDelivery_unfinished.trans failLost_unfinished
  | committed deliveries jobs claim bound passed free body =>
    obtain ⟨w₁, record, content, row₁, s, hresumed, hreturned⟩ := body.returned
    have hdrawn := hresumed.submitted.drawn
    have hsubmissions : w₁.submissions = w.submissions :=
      (submissions_of_log hdrawn.log).trans submissions_claimed
    have huuids : w.uuids ≤ w₁.uuids := hdrawn.uuids
    have hindex : w₁.index = w.index := hdrawn.index
    -- the row that the body starts from is the stored one, with the delivery counted
    obtain ⟨row, hstored⟩ := hresumed.stored hc claim bound
    have hcounted := hstored.counted
    have hopen₁ : row₁.job.state.terminal = false := by
      rw [hcounted]
      exact hstored.pending
    have hpk₁ : row₁.pk = (row₁.job.tenantId, row₁.job.id) := rfl
    have hmem₁ : row₁ ∈ w₁.database.ingestionJobs :=
      (Table.find_eq_some.1 (hresumed.submitted.find_job hresumed.row)).1
    cases hreturned with
    | terminal hterm _ =>
      rw [hopen₁] at hterm
      cases hterm
    | completed job' same state attempts pending saved index hpassed log uuids =>
      have hfinished : Finished c.platform s.version w₁.database w'.database := by
        refine saved.finished hmem₁ ?_ ?_ state
        · rw [same.1, same.2]
          exact hpk₁
        · rw [hcounted]
          exact hstored.version_pk
      refine .finished row s.version s.document content
        (hstored.reached hresumed passed free hpassed) (hstored.rows.finished hfinished) ?_ ?_ ?_
      · exact hindex ▸ index
      · exact uuids ▸ huuids
      · exact (submissions_of_body log).trans hsubmissions
    | attempted job' attempted pending saved left =>
      -- the job is not completed, so its version keeps what it had
      have hstate : job'.state ≠ .completed := by
        rcases attempted.state with ⟨hretry, -⟩ | hfailed
        · simp [hretry]
        · simp [hfailed]
      have hunfinished : Unfinished w₁.database w'.database := by
        refine saved.unfinished hmem₁ ?_ hopen₁ hstate
        rw [attempted.same.1, attempted.same.2]
        exact hpk₁
      refine .unfinished (hstored.rows.trans hunfinished) ?_ ?_ ?_
      · rcases left.passed with hsame | hclear
        · exact .same (hsame.trans hindex)
        · exact .left row s.version s.document content
            (hstored.reached hresumed passed free hclear) (hindex ▸ left.index)
      · exact left.uuids ▸ huuids
      · exact (submissions_of_body left.log).trans hsubmissions
  | aborted deliveries jobs claim bound passed free body database =>
    -- what the body wrote is rolled back; its error is recorded or not
    obtain ⟨hkept, huuids⟩ := body.kept hc claim bound passed free
    obtain ⟨row, -, -, -, rfl⟩ := claimDelivery_eq claim
    refine .unfinished ?_ hkept huuids ?_
    · rcases database with hdb | hdb
      · rw [hdb]
        exact countDelivery_unfinished
      · rw [hdb]
        exact countDelivery_unfinished.trans workerError_unfinished
    · exact (submissions_of_body body.logged).trans submissions_claimed

theorem submission_effect {source : SourceEvent} (h : SubmissionEvent c source w w') :
    Effect c ⟨.submit source, faults, now⟩ w w' := by
  cases h with
  | rejected database drawn =>
    exact .unfinished (database ▸ .refl _) (.same drawn.index) drawn.uuids
      (submissions_of_log drawn.log)
  | committed content hcontent s w₁ w₂ before quiet submitted database index uuids log =>
    refine .submitted source rfl content hcontent s w₁ w₂ before quiet.uuids submitted ?_ index
      uuids ?_
    · rcases database with hdb | hdb
      · rw [hdb]
        exact .refl _
      · rw [hdb]
        exact markDispatched_unfinished
    · rw [World.submissions, log, List.filterMap_append]
      rfl

theorem recovery_effect {limit : ℕ} (h : RecoveryEvent w w') :
    Effect c ⟨.recover limit, faults, now⟩ w w' := by
  refine .unfinished ?_ (.same h.quiet.index) h.quiet.uuids.ge (submissions_of_log h.quiet.log)
  rcases h.database with hdb | ⟨limit, hdb⟩
  · exact hdb ▸ .refl _
  · rw [hdb]
    exact claimRecoveryBatch_unfinished

/-- **Every event has its effect**, on consistent tables. -/
theorem step_effect (w : World) (event : WorkerEvent)
    (hc : Consistent c.platform w.database w.uuids) :
    Effect c event { w with now := event.now } (w.step c event) := by
  obtain ⟨action, faults, now⟩ := event
  cases action with
  | submit source => exact submission_effect submission_cases
  | deliver tenantId jobId => exact delivery_effect hc delivery_cases
  | recover limit => exact recovery_effect recovery_cases

/-- What a step does to the tables keeps them consistent. -/
theorem Effect.consistent {event : WorkerEvent} (hP : c.platform.CollisionFree)
    (hc : Consistent c.platform w.database w.uuids) (h : Effect c event w w') :
    Consistent c.platform w'.database w'.uuids := by
  cases h with
  | submitted source _ content _ s w₁ w₂ before uuids submitted after _ drawn _ =>
    have hc₁ : Consistent c.platform w₁.database w₁.uuids := by
      rw [before, uuids]
      exact hc
    have hc₂ : Consistent c.platform w₂.database w₂.uuids := submitted.consistent hP hc₁
    exact drawn ▸ hc₂.of_same after.same
  | unfinished rows _ uuids _ => exact (hc.of_same rows.same).mono uuids
  | finished row version document content _ rows _ uuids _ =>
    exact (hc.of_same rows.same).mono uuids

/-- **The tables are consistent after every run.** -/
theorem run_consistent (hP : c.platform.CollisionFree) (es : List WorkerEvent) :
    Consistent c.platform (Machine.run (World.step c) {} es).database
      (Machine.run (World.step c) {} es).uuids := by
  refine Machine.run_inv (I := fun w : World => Consistent c.platform w.database w.uuids)
    (fun w event hc => ?_) (Consistent.empty c.platform 0)
  have heffect := step_effect w event hc
  exact Effect.consistent (w := { w with now := event.now }) hP hc heffect

end Effect

end GroundedOps.Ingestion
