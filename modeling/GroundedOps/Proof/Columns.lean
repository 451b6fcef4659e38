import GroundedOps.Proof.Deliveries

/-!
# The columns of a job row

`state`, `error_class` and `resume_from` are written by the pipeline, which saves the job it
holds in memory, and by three statements that set them one by one.

* `IngestionJob.WellFormed`: what the transitions of a job in memory maintain.
* `wp_continueJob_wellFormed`: a body that returns saves a job that is well formed.
* `rows_wellFormed_iff`: **the rows stay well formed in exactly the runs in which no recorded
  error is the last of its job**: `record_worker_error` then sets the row failed and leaves it
  a checkpoint.
-/

namespace GroundedOps.Ingestion

open Hoare

/-- A checkpoint while the job retries, no error once it is completed, an error once it has
failed. -/
structure IngestionJob.WellFormed (job : IngestionJob) : Prop where
  resume : job.resumeFrom ≠ none ↔ job.state = .retrying
  completed : job.state = .completed → job.errorClass = none
  failed : job.state = .failed → job.errorClass ≠ none

/-- A job that neither retries nor has failed has no error. -/
def IngestionJob.Blameless (job : IngestionJob) : Prop :=
  job.state ≠ .retrying → job.state ≠ .failed → job.errorClass = none

/-- Neither an error nor a checkpoint: what a running job has. -/
structure IngestionJob.Blank (job : IngestionJob) : Prop where
  errorClass : job.errorClass = none
  resumeFrom : job.resumeFrom = none

def Database.Blameless (db : Database) : Prop := ∀ row ∈ db.ingestionJobs, row.job.Blameless

def Database.WellFormed (db : Database) : Prop := ∀ row ∈ db.ingestionJobs, row.job.WellFormed

/-! ## The pipeline -/

namespace IngestionPipeline

variable {c : Components} {faults : Faults} {operation : Operation} {event : SourceEvent}
  {submission : Submission} {content : ByteArray} {job : IngestionJob} {db : Database}
  {w : World} {maxAttempts : ℕ}

/-- An open job that does not retry is blank. -/
theorem blank_of_running (hw : job.WellFormed) (hb : job.Blameless)
    (hopen : job.state.terminal = false) (hr : job.state ≠ .retrying) : job.Blank := by
  have hfailed : job.state ≠ .failed := by
    intro h
    rw [h] at hopen
    cases hopen
  exact ⟨hb hr hfailed, by_contra fun h => hr (hw.resume.1 h)⟩

theorem wp_saveJob_returns : wp (IngestionRepository.saveJob faults operation job)
    (fun job' _ => job' = job) (fun _ _ => True) w := by
  simp [IngestionRepository.saveJob]

/-- **A job that leaves its waiting state is blank.** -/
theorem wp_leaveWaiting_blank (hw : job.WellFormed) (hb : job.Blameless)
    (hopen : job.state.terminal = false) :
    wp (leaveWaiting faults job) (fun job' _ => job'.Blank) (fun _ _ => True) w := by
  cases leavesWaiting faults hopen with
  | queued hstate hstep =>
    have hblank : job.Blank := blank_of_running hw hb hopen (by rw [hstate]; decide)
    rw [hstep]
    refine wp_mono wp_saveJob_returns ?_ (fun _ _ h => h)
    rintro _ _ rfl
    exact ⟨hblank.errorClass, hblank.resumeFrom⟩
  | resumed _ _ _ hstep =>
    rw [hstep]
    refine wp_mono wp_saveJob_returns ?_ (fun _ _ h => h)
    rintro _ _ rfl
    exact ⟨rfl, rfl⟩
  | stuck _ _ hstep =>
    rw [hstep]
    trivial
  | staying hcheck hstep =>
    rw [hstep]
    refine blank_of_running hw hb hopen fun hstate => hcheck ?_
    rw [hstate]
    rfl

/-- **A failed attempt** saves a job that retries with a checkpoint, or has failed without. -/
theorem wp_failedAttempt_wellFormed {errorClass : ErrorClass} (hs : Saved db w.database job)
    (hst : job.state.checkpoint ≠ none) :
    wp (failedAttempt faults maxAttempts submission job errorClass)
      (fun _ w' => ∃ job', SameJob job job' ∧ Saved db w'.database job' ∧ job'.WellFormed ∧
        job'.Blameless)
      (fun _ _ => True) w := by
  obtain ⟨checkpoint, hcheckpoint⟩ := Option.ne_none_iff_exists'.1 hst
  rw [failedAttempt_eq hcheckpoint, wp_bind]
  refine wp_saveJob hs sameJob_afterFailure.1 sameJob_afterFailure.2 (fun _ w' _ hs' => ?_)
    fun _ _ => trivial
  refine ⟨_, sameJob_afterFailure, hs', ?_⟩
  unfold IngestionJob.afterFailure
  dsimp only
  split
  · refine ⟨⟨?_, ?_, ?_⟩, fun _ hfailed => absurd rfl hfailed⟩
    · simp
    · simp
    · simp
  · refine ⟨⟨?_, ?_, ?_⟩, fun hretrying => absurd rfl hretrying⟩
    · simp
    · simp
    · simp

/-- What a body that returns leaves in the row of its job. -/
def Returned (w : World) (job : IngestionJob) (w' : World) : Prop :=
  ∃ job', SameJob job job' ∧
    w'.database.ingestionJobs = w.database.ingestionJobs.setJob job' ∧ job'.WellFormed ∧
    job'.Blameless

theorem wp_continueJob_wellFormed (hsub : submission.Of event w.database)
    (hs : Saved w.database w.database job) (hw : job.WellFormed) (hb : job.Blameless)
    (hcontent : event.content = some content) (hkind : event.kind ≠ .malformed) :
    wp (continueJob c faults maxAttempts event submission job)
      (fun _ w' => Returned w job w') (fun _ _ => True) w := by
  refine wp_continueJob_of hcontent hkind (fun _ => ⟨job, ⟨rfl, rfl⟩, hs.jobs, hw, hb⟩) fun hopen => ?_
  refine wp_mono (wp_and (wp_leaveWaiting hs hopen) (wp_leaveWaiting_blank hw hb hopen)) ?_
    (fun _ _ _ => trivial)
  rintro job₁ w₁ ⟨⟨hsame, -, -, hcheck, hs₁, -, -⟩, hblank⟩
  refine wp_mono (wp_stages hsub hs₁ hcheck) ?_ ?_
  · rintro ⟨_, prepared⟩ w₂ ⟨rfl, hdone, -⟩
    refine ⟨job₁.at .completed, hsame, hdone.saved.jobs, ⟨?_, ?_, ?_⟩, ?_⟩
    · simp [IngestionJob.at, hblank.resumeFrom]
    · exact fun _ => hblank.errorClass
    · simp [IngestionJob.at]
    · exact fun _ _ => hblank.errorClass
  · rintro ⟨job₂, raised⟩ w₂ h
    obtain ⟨s, hcheck₂, hout⟩ := h.stage
    subst hout
    refine ⟨fun errorClass hclass => ?_, fun _ => trivial⟩
    · have hs₂ := h.raised.saved (hclass ▸ Option.some_ne_none _)
      refine wp_mono (wp_failedAttempt_wellFormed hs₂ hcheck₂) ?_ (fun _ _ h => h)
      rintro _ w₃ ⟨job', hsame', hs₃, hformed, hblameless⟩
      exact ⟨job', ⟨hsame'.1.trans hsame.1, hsame'.2.trans hsame.2⟩, hs₃.jobs, hformed, hblameless⟩

end IngestionPipeline

/-! ## Deliveries -/

open IngestionPipeline (Returned wp_continueJob_wellFormed)

section Delivery

variable {c : Components} {faults : Faults} {tenantId jobId : String} {w w' : World} {row : JobRow}

/-- Both hold of every row. -/
def Database.Sound (db : Database) : Prop := db.Blameless ∧ db.WellFormed

/-- An update of one job keeps the rows sound if it keeps that of the job. -/
theorem sound_update {db : Database} {f : JobRow → JobRow} {hp : ∀ row, (f row).pk = row.pk}
    {hu : ∀ row, (f row).unique = row.unique} (h : db.Sound)
    (hf : ∀ row ∈ db.ingestionJobs, (f row).job.WellFormed ∧ (f row).job.Blameless) :
    Database.Sound { db with ingestionJobs := db.ingestionJobs.update tenantId jobId f hp hu } := by
  have hrows : ∀ row ∈ db.ingestionJobs.update tenantId jobId f hp hu,
      row.job.WellFormed ∧ row.job.Blameless := by
    intro row hrow
    rcases mem_update_cases hrow with ⟨hold, -⟩ | ⟨old, hold, -, rfl⟩
    · exact ⟨h.2 row hold, h.1 row hold⟩
    · exact hf old hold
  exact ⟨fun row hrow => (hrows row hrow).2, fun row hrow => (hrows row hrow).1⟩

/-- A job that a submission inserts. -/
theorem newJob_wellFormed {P : Platform} {documentId sourceVersion versionId : String} {uuid : ℕ}
    {now : ℤ} :
    (newJob P tenantId documentId sourceVersion versionId uuid now).job.WellFormed ∧
      (newJob P tenantId documentId sourceVersion versionId uuid now).job.Blameless := by
  refine ⟨⟨?_, ?_, ?_⟩, fun _ _ => rfl⟩
  · simp [newJob]
  · simp [newJob]
  · simp [newJob]

theorem Submitted.sound {args : SubmitArgs} {s : Submission}
    (hs : Submitted c.platform args w w' s) (h : w.database.Sound) : w'.database.Sound := by
  constructor
  · intro row hrow
    rcases hs.mem_jobs hrow with hold | rfl
    · exact h.1 row hold
    · exact newJob_wellFormed.2
  · intro row hrow
    rcases hs.mem_jobs hrow with hold | rfl
    · exact h.2 row hold
    · exact newJob_wellFormed.1

theorem returned_sound {job : IngestionJob} (h : Returned w job w') (hw : w.database.Sound) :
    w'.database.Sound := by
  obtain ⟨job', -, hjobs, hformed, hblameless⟩ := h
  have hsaved : Database.Sound
      { w.database with ingestionJobs := w.database.ingestionJobs.setJob job' } := by
    unfold IngestionJobs.setJob
    exact sound_update hw fun _ _ =>
      ⟨⟨hformed.resume, hformed.completed, hformed.failed⟩, hblameless⟩
  constructor
  · intro row hrow
    exact hsaved.1 row (hjobs ▸ hrow)
  · intro row hrow
    exact hsaved.2 row (hjobs ▸ hrow)

theorem wp_resume_sound (h : w.database.Sound) {record : DeliveryRecord} {content : ByteArray} :
    wp (IngestionPipeline.resume c faults maxDeliveries tenantId jobId (record.event content))
      (fun _ w' => w'.database.Sound) (fun _ _ => True) w := by
  refine wp_resume_of (fun _ _ _ _ => trivial) ?_
  intro row s w₁ hrow _ _ hsubmitted _ _ hsaved
  have hsound := hsubmitted.sound h
  obtain ⟨hmem, -⟩ := Table.find_eq_some.1 (hsubmitted.find_job hrow)
  refine wp_mono (wp_continueJob_wellFormed (hsubmitted.of rfl) hsaved (hsound.2 row hmem)
    (hsound.1 row hmem) rfl SourceEventKind.noConfusion) (fun _ w' hreturned => ?_) (fun _ _ h => h)
  exact returned_sound hreturned hsound

/-- **The body** leaves sound rows when it returns, and the rows it found when it raises. -/
theorem wp_body_sound (h : w.database.Sound) : wp (body c faults tenantId jobId)
    (fun _ w' => w'.database.Sound) (fun _ w' => w'.database = w.database) w := by
  refine wp_body_of (fun _ => rfl) fun record content _ _ _ => ?_
  refine wp_mono (wp_resume_sound h) (fun outcome w' hsound => ?_) (fun _ _ _ => rfl)
  exact ⟨fun _ => hsound, fun _ _ => rfl⟩

/-- One more delivery changes no column of the job. -/
theorem sound_countDelivery {db : Database} (h : db.Sound) : Database.Sound
    { db with ingestionJobs := db.ingestionJobs.countDelivery tenantId jobId } := by
  unfold IngestionJobs.countDelivery
  exact sound_update h fun row hrow => ⟨h.2 row hrow, h.1 row hrow⟩

theorem failLost_wellFormed (hw : row.job.WellFormed) (hb : row.job.Blameless) :
    row.failLost.job.WellFormed ∧ row.failLost.job.Blameless := by
  unfold JobRow.failLost
  split
  · exact ⟨hw, hb⟩
  · refine ⟨⟨?_, ?_, ?_⟩, fun _ hfailed => absurd rfl hfailed⟩
    · simp
    · simp
    · simp

theorem sound_failLost {db : Database} (h : db.Sound) : Database.Sound
    { db with ingestionJobs := db.ingestionJobs.failLostDelivery tenantId jobId } := by
  unfold IngestionJobs.failLostDelivery
  exact sound_update h fun row hrow => failLost_wellFormed (h.2 row hrow) (h.1 row hrow)

/-- An error recorded now is the last of the job: no attempt or no delivery is left. -/
def JobRow.Last (row : JobRow) : Prop :=
  maxDeliveries ≤ row.job.attempts + 1 ∨ maxDeliveries ≤ row.deliveryAttempts

theorem errorCheckpoint_ne_none {job : IngestionJob} (hopen : job.state.terminal = false) :
    job.errorCheckpoint ≠ none := by
  unfold IngestionJob.errorCheckpoint
  cases hstate : job.state with
  | completed => rw [hstate] at hopen; cases hopen
  | failed => rw [hstate] at hopen; cases hopen
  | queued => exact Option.some_ne_none _
  | retrying => exact Option.some_ne_none _
  | fetching => exact Option.some_ne_none _
  | parsing => exact Option.some_ne_none _
  | indexing => exact Option.some_ne_none _

theorem workerError_blameless (hb : row.job.Blameless) :
    (row.workerError maxDeliveries).job.Blameless := by
  unfold JobRow.workerError
  split
  · exact hb
  · intro hretrying hfailed
    dsimp only at hretrying hfailed
    split at hretrying
    · rename_i hlast
      exact absurd (if_pos hlast) hfailed
    · exact absurd rfl hretrying

/-- **A recorded error keeps the row well formed exactly if it is not the last.** -/
theorem workerError_wellFormed_iff (hopen : row.job.state.terminal = false) :
    (row.workerError maxDeliveries).job.WellFormed ↔ ¬ row.Last := by
  have hcheck := errorCheckpoint_ne_none hopen
  unfold JobRow.workerError JobRow.Last
  rw [if_neg (by rw [hopen]; exact Bool.false_ne_true)]
  constructor
  · intro hw hlast
    have hstate := hw.resume.1 hcheck
    dsimp only at hstate
    rw [if_pos hlast] at hstate
    cases hstate
  · intro hmore
    refine ⟨?_, ?_, ?_⟩
    · simp only [if_neg hmore]
      exact iff_of_true hcheck trivial
    · simp [hmore]
    · simp

/-- **The delivery records the last error of its job**: its body raises, with an attempt or a
delivery budget that ends here. -/
structure RecordsLast (c : Components) (faults : Faults) (tenantId jobId : String) (w : World) :
    Prop where
  free : faults.busy = false
  passed : Clear faults [.claim, .claimCommit, .recordError, .errorCommit]
  row : ∃ row, w.database.ingestionJobs.find (tenantId, jobId) = some row ∧
    row.job.state.terminal = false ∧ row.deliveryAttempts < maxDeliveries ∧ row.counted.Last
  raises : ∃ raised w', raised ≠ .crash ∧ exec (body c faults tenantId jobId)
    (w.claimed tenantId jobId (w.database.ingestionJobs.countDelivery tenantId jobId)) =
      (.error raised, w')

theorem mem_recordWorkerError {jobs : IngestionJobs} {maxAttempts : ℕ} {row' : JobRow}
    (h : row' ∈ jobs.recordWorkerError tenantId jobId maxAttempts) :
    row' ∈ jobs ∨ ∃ row ∈ jobs, row.pk = (tenantId, jobId) ∧ row' = row.workerError maxAttempts := by
  unfold IngestionJobs.recordWorkerError at h
  exact (mem_update_cases h).imp And.left id

/-- What a delivery leaves of the rows. -/
def Leaves (c : Components) (faults : Faults) (tenantId jobId : String) (w w' : World) : Prop :=
  w'.database.Blameless ∧ (w'.database.WellFormed ∨ RecordsLast c faults tenantId jobId w)

theorem wp_recordError_leaves (h : w.database.Sound) {w₀ : World}
    (hrow : w.database.ingestionJobs.find (tenantId, jobId) = some row)
    (hopen : row.job.state.terminal = false)
    (hlast : Clear faults [.recordError, .errorCommit] → row.Last →
      RecordsLast c faults tenantId jobId w₀) :
    wp (recordError faults tenantId jobId) (fun _ w' => Leaves c faults tenantId jobId w₀ w')
      (fun _ w' => Leaves c faults tenantId jobId w₀ w') w := by
  have hsame : Leaves c faults tenantId jobId w₀ w := ⟨h.1, Or.inl h.2⟩
  have hrecorded : Clear faults [.recordError, .errorCommit] → Leaves c faults tenantId jobId w₀
      { w with database := { w.database with ingestionJobs :=
        w.database.ingestionJobs.recordWorkerError tenantId jobId maxDeliveries } } := by
    intro hclear
    refine ⟨fun row' hrow' => ?_, ?_⟩
    · rcases mem_recordWorkerError hrow' with hold | ⟨old, hold, -, rfl⟩
      · exact h.1 row' hold
      · exact workerError_blameless (h.1 old hold)
    · by_cases hmore : row.Last
      · exact Or.inr (hlast hclear hmore)
      · refine Or.inl fun row' hrow' => ?_
        rcases mem_recordWorkerError hrow' with hold | ⟨old, hold, hpk, rfl⟩
        · exact h.2 row' hold
        · obtain ⟨hmem, hk⟩ := Table.find_eq_some.1 hrow
          obtain rfl : old = row := Table.eq_of_pk hold hmem (hpk.trans hk.symm)
          exact (workerError_wellFormed_iff hopen).2 hmore
  rw [recordError, wp_bind, wp_transaction]
  simp only [wp_bind, wp_reach, wp_readDatabase, wp_writeDatabase, wp_pure, wp_orRaise]
  refine ⟨fun hrecord => ⟨fun hcommit => ?_, fun _ _ => hsame⟩, fun _ _ => hsame⟩
  have hdone := hrecorded (.cons hrecord (.cons hcommit .nil))
  exact ⟨fun _ _ => hdone, fun _ => hdone⟩

/-- **A delivery keeps the rows well formed** unless it records the last error of its job. -/
theorem wp_runJob_leaves (h : w.database.Sound) : wp (runJob c faults tenantId jobId)
    (fun _ w' => Leaves c faults tenantId jobId w w')
    (fun _ w' => Leaves c faults tenantId jobId w w') w := by
  have hkept : ∀ {w' : World}, w'.database.Sound → Leaves c faults tenantId jobId w w' :=
    fun hsound => ⟨hsound.1, Or.inl hsound.2⟩
  unfold runJob
  split
  · exact hkept h
  rename_i hfree
  rw [Bool.not_eq_true] at hfree
  rw [wp_bind]
  refine wp_claim (fun _ _ _ => hkept h) (fun deliveries jobs hclaim _ => ?_)
    (fun deliveries jobs hclaim hfew hpassed => ?_) (fun _ => hkept h)
  · obtain ⟨row, -, -, -, rfl⟩ := claimDelivery_eq hclaim
    exact hkept (sound_failLost (sound_countDelivery h))
  · obtain ⟨row, hrow, hopen, rfl, rfl⟩ := claimDelivery_eq hclaim
    have hsound : (w.claimed tenantId jobId
        (w.database.ingestionJobs.countDelivery tenantId jobId)).database.Sound :=
      sound_countDelivery h
    have hcounted := find_counted hrow
    simp only [wp_bind, wp_observe, wp_tryCatch, wp_pure]
    rw [claimed_eq]
    refine wp_mono (wp_and wp_self (wp_body_sound hsound)) (fun _ _ hbody => hkept hbody.2) ?_
    rintro raised w₁ ⟨hexec, hdb⟩
    split
    · exact hkept (hdb ▸ hsound)
    rename_i halive
    have hfind : w₁.database.ingestionJobs.find (tenantId, jobId) = some row.counted := by
      rw [hdb]
      exact hcounted
    refine wp_recordError_leaves (hdb ▸ hsound) hfind hopen fun hclear hlast => ?_
    exact ⟨hfree, hpassed.append hclear, ⟨row, hrow, hopen, hfew, hlast⟩, raised, w₁, halive, hexec⟩

/-- An operation that is clear does not fail. -/
theorem Clear.no_fault {operations : List Operation} {operation : Operation} {fault : Fault}
    (h : Clear faults operations) (ho : operation ∈ operations) :
    faults.fault operation ≠ some fault := by
  rw [h operation ho]
  intro hnone
  cases hnone

/-- The claim of an open job with a delivery left. -/
theorem wp_claim_open (hclear : Clear faults [.claim, .claimCommit])
    (hrow : w.database.ingestionJobs.find (tenantId, jobId) = some row)
    (hopen : row.job.state.terminal = false) (hfew : row.deliveryAttempts < maxDeliveries)
    {N : Option JobState → World → Prop} {E : Raised → World → Prop}
    (hN : N none { w with database := { w.database with
      ingestionJobs := w.database.ingestionJobs.countDelivery tenantId jobId } }) :
    wp (claim faults tenantId jobId) N E w := by
  have hclaim : w.database.ingestionJobs.claimDelivery tenantId jobId =
      some (row.deliveryAttempts + 1, w.database.ingestionJobs.countDelivery tenantId jobId) := by
    unfold IngestionJobs.claimDelivery
    simp [hrow, hopen]
  rw [claim, wp_transaction]
  simp only [wp_bind, wp_reach, wp_readDatabase, hclaim, wp_writeDatabase]
  refine ⟨fun _ => ?_, fun fault hf => absurd hf (hclear.no_fault (by decide))⟩
  rw [if_neg (by omega), wp_pure]
  exact ⟨fun _ => hN, fun fault hf => absurd hf (hclear.no_fault (by decide))⟩

/-- **A delivery that records the last error of its job** leaves the row failed with a
checkpoint. -/
theorem wp_runJob_breaks (h : w.database.Sound) (hlast : RecordsLast c faults tenantId jobId w) :
    wp (runJob c faults tenantId jobId) (fun _ w' => ¬ w'.database.WellFormed)
      (fun _ w' => ¬ w'.database.WellFormed) w := by
  obtain ⟨row, hrow, hopen, hfew, hcounted⟩ := hlast.row
  obtain ⟨raised, w₁, halive, hexec⟩ := hlast.raises
  have hclear := hlast.passed
  have hsound : (w.claimed tenantId jobId
      (w.database.ingestionJobs.countDelivery tenantId jobId)).database.Sound :=
    sound_countDelivery h
  have hdb := wp_error (wp_body_sound hsound) hexec
  have hbody : wp (body c faults tenantId jobId) (fun _ _ => False)
      (fun e w' => raised = e ∧ w₁ = w') (w.claimed tenantId jobId
        (w.database.ingestionJobs.countDelivery tenantId jobId)) := by
    unfold wp
    rw [hexec]
    exact ⟨rfl, rfl⟩
  unfold runJob
  rw [hlast.free, if_neg Bool.false_ne_true, wp_bind]
  refine wp_claim_open (fun o ho => hclear o ?_) hrow hopen hfew ?_
  · exact List.mem_append_left [.recordError, .errorCommit] ho
  simp only [wp_bind, wp_observe, wp_tryCatch, wp_pure]
  rw [claimed_eq]
  refine wp_mono hbody (fun _ _ hfalse => hfalse.elim) ?_
  rintro _ _ ⟨rfl, rfl⟩
  rw [if_neg halive]
  -- the row that is written is failed, and still has a checkpoint
  have hbroken : ¬ Database.WellFormed { w₁.database with
      ingestionJobs :=
        w₁.database.ingestionJobs.recordWorkerError tenantId jobId maxDeliveries } := by
    intro hformed
    have hfind : (w₁.database.ingestionJobs.recordWorkerError tenantId jobId maxDeliveries).find
        (tenantId, jobId) = some (row.counted.workerError maxDeliveries) := by
      rw [find_recordWorkerError_self, hdb]
      show ((w.database.ingestionJobs.countDelivery tenantId jobId).find _).map _ = _
      rw [find_counted hrow]
      rfl
    have hrow' : row.counted.job.state.terminal = false := hopen
    exact (workerError_wellFormed_iff hrow').1 (hformed _ (Table.find_eq_some.1 hfind).1) hcounted
  rw [recordError, wp_bind, wp_transaction]
  simp only [wp_bind, wp_reach, wp_readDatabase, wp_writeDatabase, wp_pure, wp_orRaise]
  refine ⟨fun _ => ⟨fun _ => ⟨fun _ _ => hbroken, fun _ => hbroken⟩, fun fault hf => ?_⟩,
    fun fault hf => ?_⟩
  · exact absurd hf (hclear.no_fault (by decide))
  · exact absurd hf (hclear.no_fault (by decide))

end Delivery

/-! ## Runs -/

section Runs

variable {c : Components} {w w' : World} {event : WorkerEvent}

/-- The event is a delivery that records the last error of its job. -/
def WorkerEvent.RecordsLast (c : Components) (w : World) (event : WorkerEvent) : Prop :=
  match event.action with
  | .deliver tenantId jobId =>
    Ingestion.RecordsLast c event.faults tenantId jobId { w with now := event.now }
  | _ => False

/-- A change of the columns that are not the job's keeps the rows sound. -/
theorem sound_of_aside {db db' : Database} (h : db.Sound)
    (haside : ∀ k, ∃ f : JobRow → JobRow, (∀ row, (f row).job = row.job ∧
      (f row).deliveryAttempts = row.deliveryAttempts) ∧
      db'.ingestionJobs.find k = (db.ingestionJobs.find k).map f) : db'.Sound := by
  have hrows : ∀ row' ∈ db'.ingestionJobs, ∃ row ∈ db.ingestionJobs, row'.job = row.job := by
    intro row' hrow'
    obtain ⟨f, hf, hfind⟩ := haside row'.pk
    rw [Table.find_of_mem hrow'] at hfind
    obtain ⟨row, hrow, rfl⟩ := Option.map_eq_some_iff.1 hfind.symm
    exact ⟨row, (Table.find_eq_some.1 hrow).1, (hf row).1⟩
  constructor
  · intro row' hrow'
    obtain ⟨row, hrow, hjob⟩ := hrows row' hrow'
    rw [hjob]
    exact h.1 row hrow
  · intro row' hrow'
    obtain ⟨row, hrow, hjob⟩ := hrows row' hrow'
    rw [hjob]
    exact h.2 row hrow

theorem submission_sound {source : SourceEvent} (h : w.database.Sound)
    (he : SubmissionEvent c source w w') : w'.database.Sound := by
  cases he with
  | rejected database _ => exact database ▸ h
  | committed content _ s w₁ w₂ before _ submitted database _ _ _ =>
    have hsound : w₂.database.Sound := submitted.sound (before ▸ h)
    rcases database with hdb | hdb
    · exact hdb ▸ hsound
    · exact sound_of_aside hsound fun k => by rw [hdb]; exact markDispatched_aside k

theorem recovery_sound (h : w.database.Sound) (he : RecoveryEvent w w') : w'.database.Sound := by
  rcases he.database with hdb | ⟨limit, hdb⟩
  · exact hdb ▸ h
  · exact sound_of_aside h fun k => by rw [hdb]; exact claimRecoveryBatch_aside k

/-- **One event** keeps the rows well formed exactly if it does not record a last error. -/
theorem step_wellFormed_iff (h : w.database.Sound) :
    (w.step c event).database.Blameless ∧
      ((w.step c event).database.WellFormed ↔ ¬ event.RecordsLast c w) := by
  obtain ⟨action, faults, now⟩ := event
  cases action with
  | submit source =>
    have hevent : SubmissionEvent c source { w with now } (w.step c ⟨.submit source, faults, now⟩) :=
      submission_cases
    have hn : Database.Sound ({ w with now } : World).database := h
    have hsound := submission_sound hn hevent
    exact ⟨hsound.1, iff_of_true hsound.2 id⟩
  | recover limit =>
    have hevent : RecoveryEvent { w with now } (w.step c ⟨.recover limit, faults, now⟩) :=
      recovery_cases
    have hn : Database.Sound ({ w with now } : World).database := h
    have hsound := recovery_sound hn hevent
    exact ⟨hsound.1, iff_of_true hsound.2 id⟩
  | deliver tenantId jobId =>
    have hleaves : Leaves c faults tenantId jobId { w with now }
        (w.step c ⟨.deliver tenantId jobId, faults, now⟩) := by
      refine wp_state (P := Leaves c faults tenantId jobId { w with now }) ?_
      rw [WorkerEvent.perform, wp_bind]
      exact wp_runJob_leaves h
    refine ⟨hleaves.1, fun hformed hlast => ?_, fun hnot => hleaves.2.resolve_right hnot⟩
    have hbroken : ¬ (w.step c ⟨.deliver tenantId jobId, faults, now⟩).database.WellFormed := by
      refine wp_state (P := fun w' : World => ¬ w'.database.WellFormed) ?_
      rw [WorkerEvent.perform, wp_bind]
      exact wp_runJob_breaks h hlast
    exact hbroken hformed

/-- **The rows of the jobs are well formed after every event of a run exactly when no event of
it records the last error of a job.** -/
theorem rows_wellFormed_iff (c : Components) (es : List WorkerEvent) :
    Machine.Always (World.step c) (fun w => w.database.WellFormed) {} es ↔
      Machine.Meets (World.step c) (fun w event => ¬ event.RecordsLast c w) {} es := by
  refine Machine.always_iff_meets (I := fun w => w.database.Blameless) (fun w event hb hw => ?_)
    (fun w event hb hw => ?_) (fun row hrow => absurd hrow Table.not_mem_empty)
    (fun row hrow => absurd hrow Table.not_mem_empty)
  · exact (step_wellFormed_iff ⟨hb, hw⟩).1
  · exact (step_wellFormed_iff ⟨hb, hw⟩).2

/-- A job is delivered until nothing is left, and its pipeline transaction never commits. -/
def neverCommitted : List WorkerEvent :=
  let delivery : WorkerEvent := ⟨.deliver "tenant" "uuu",
    { fault := fun operation => if operation = .commit then some .exception else none }, 0⟩
  [⟨.submit (sampleEvent "a" 1), {}, 0⟩, delivery, delivery, delivery]

/-- The job has then failed with a checkpoint. -/
theorem failed_row_resumes : ¬ ∀ (c : Components) (es : List WorkerEvent),
    Machine.Always (World.step c) (fun w => w.database.WellFormed) {} es := by
  intro h
  have hrow : (Machine.run (World.step sampleComponents) {} neverCommitted
      ).database.ingestionJobs.rows.map (fun row => (row.job.state, row.job.resumeFrom)) =
      [(.failed, some .fetching)] := by decide +kernel
  have hmem := List.mem_singleton_self ((.failed, some .fetching) : JobState × Option Checkpoint)
  rw [← hrow] at hmem
  obtain ⟨row, hrow, heq⟩ := List.mem_map.1 hmem
  injection heq with hfailed hresume
  have hformed := (h sampleComponents neverCommitted).last row hrow
  have hretrying := hformed.resume.1 (by rw [hresume]; exact Option.some_ne_none _)
  rw [hfailed] at hretrying
  cases hretrying

end Runs

end GroundedOps.Ingestion
