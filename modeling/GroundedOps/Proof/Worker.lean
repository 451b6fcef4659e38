import GroundedOps.Proof.Pipeline
import GroundedOps.Proof.Submission
import GroundedOps.Spec.Worker
import Mathlib.Data.String.Basic

/-!
# What one delivery does

* `delivery_cases`: a delivery leaves the database alone, or finds its job terminal, or
  finds it lost, or claims it and runs its body; the body commits, or rolls back, with or
  without an error recorded.
* `submission_cases`: a submission event commits a submission and marks its job
  dispatched, or changes nothing.
-/

namespace GroundedOps.Ingestion

open Hoare
open IngestionPipeline (Attempted BodyReturned BodyLeft SameJob bodyOperations wp_continueJob)

variable {c : Components} {faults : Faults} {tenantId jobId : String} {w w' : World}

/-! ## The body -/

/-- What the second transaction of `run_job` has read when its pipeline starts on the job. -/
structure Resumed (c : Components) (faults : Faults) (tenantId jobId : String) (w w₁ : World)
    (record : DeliveryRecord) (content : ByteArray) (row : JobRow) (s : Submission) : Prop where
  delivery : w.database.getDelivery tenantId jobId = some record
  digest : c.platform.sha256 content = record.contentHash
  row : w.database.ingestionJobs.find (tenantId, jobId) = some row
  submitted : Submitted c.platform ⟨record.source, record.canonicalKey, record.sourceVersion,
    c.platform.sha256 content, record.sourceTimestamp⟩ w w₁ s
  job : s.job.id = jobId
  passed : Clear faults [.getDelivery, .getArtifact, .getJob, .submit]

/-- What a body that does not commit leaves outside the database. -/
inductive BodyAborted (c : Components) (faults : Faults) (tenantId jobId : String)
    (w w' : World) : Prop
  | early (h : Drawn w w')
  | late (w₁ : World) (record : DeliveryRecord) (content : ByteArray) (row : JobRow)
      (s : Submission) (resumed : Resumed c faults tenantId jobId w w₁ record content row s)
      (left : BodyLeft c faults s.version content row.job w₁ w')

/-- What a body that commits does. -/
structure BodyCommitted (c : Components) (faults : Faults) (tenantId jobId : String)
    (w w' : World) : Prop where
  returned : ∃ w₁ record content row s, Resumed c faults tenantId jobId w w₁ record content row s ∧
    BodyReturned c faults maxDeliveries s.version content w₁.database row.job w₁ w'
  commit : faults.fault .commit = none

theorem Submitted.of {P : Platform} {args : SubmitArgs} {s : Submission}
    (h : Submitted P args w w' s) {event : SourceEvent} (he : event.source = args.source) :
    s.Of event w'.database := by
  refine ⟨h.version, ?_, congrArg (fun u => u.2.1) h.version_unique⟩
  rw [he]
  exact congrArg Prod.fst h.version_unique

/-- A body that cannot commit leaves what a body leaves that does not complete. -/
theorem bodyReturned_left {maxAttempts : ℕ} {version : DocumentVersion} {content : ByteArray}
    {db : Database} {job : IngestionJob}
    (h : BodyReturned c faults maxAttempts version content db job w w')
    (hf : faults.fault .commit ≠ none) : BodyLeft c faults version content job w w' := by
  cases h with
  | terminal _ hw => rw [hw]; exact .quiet (.refl w)
  | completed job' _ _ _ _ _ index passed log uuids =>
    exact ⟨index.left .commit (by decide) hf, Or.inr passed, log, uuids⟩
  | attempted _ _ _ _ left => exact left

/-- **To resume a job** is to submit its stored content again and to continue the job behind that. -/
theorem wp_resume_of {record : DeliveryRecord} {content : ByteArray} {N : PipelineOutcome → World → Prop}
    {E : Raised → World → Prop}
    (hstopped : ∀ raised w', Drawn w w' → w'.objects = w.objects → E raised w')
    (hcontinued : ∀ row s w₁, w.database.ingestionJobs.find (tenantId, jobId) = some row →
      faults.fault .getJob = none → faults.fault .submit = none →
      Submitted c.platform ⟨record.source, record.canonicalKey, record.sourceVersion,
        c.platform.sha256 content, record.sourceTimestamp⟩ w w₁ s →
      s.job.id = jobId → w₁.objects = w.objects → Saved w₁.database w₁.database row.job →
      wp (IngestionPipeline.continueJob c faults maxDeliveries (record.event content) s row.job) N E w₁) :
    wp (IngestionPipeline.resume c faults maxDeliveries tenantId jobId (record.event content)) N E w := by
  have hearly : ∀ raised, E raised w := fun raised => hstopped raised w (.refl w) rfl
  simp only [IngestionPipeline.resume, wp_bind, wp_reach, wp_readDatabase, wp_orRaise]
  refine ⟨fun hgetJob => ⟨fun job hjob => ?_, fun _ => hearly _⟩, fun _ _ => hearly _⟩
  obtain ⟨row, hrow, rfl⟩ := Option.map_eq_some_iff.1 hjob
  split
  · exact hearly _
  have hget : IngestionPipeline.content (record.event content) = pure content := rfl
  simp only [hget, wp_bind, wp_pure]
  have hspec : wp (IngestionRepository.submit c.platform faults record.source record.canonicalKey
      record.sourceVersion (c.platform.sha256 content) record.sourceTimestamp parserVersion) _ _ w :=
    @wp_submit _ _ ⟨record.source, record.canonicalKey, record.sourceVersion,
      c.platform.sha256 content, record.sourceTimestamp⟩ _ _
  refine wp_mono (wp_and hspec wp_submit_objects) ?_ (fun raised w' h => hstopped raised w' h.1 h.2)
  rintro s w₁ ⟨⟨hsubmitted, hsubmit⟩, hobjects⟩
  split
  · exact hstopped _ w₁ hsubmitted.drawn hobjects
  rename_i hid
  simp only [ne_eq, not_not] at hid
  have hsaved : Saved w₁.database w₁.database row.job := by
    refine Saved.refl ?_
    obtain ⟨hmem, -⟩ := Table.find_eq_some.1 (hsubmitted.find_job hrow)
    show (w₁.database.ingestionJobs.find row.pk).map JobRow.job = _
    rw [Table.find_of_mem hmem]
    rfl
  exact hcontinued row s w₁ hrow hgetJob hsubmit hsubmitted hid hobjects hsaved

/-- **The body** of a delivery resumes the job with what is stored, in one transaction. -/
theorem wp_body_of {N : JobState → World → Prop} {E : Raised → World → Prop}
    (hstopped : ∀ raised, E raised w)
    (hresumed : ∀ record content, w.database.getDelivery tenantId jobId = some record →
      c.platform.sha256 content = record.contentHash → Clear faults [.getDelivery, .getArtifact] →
      wp (IngestionPipeline.resume c faults maxDeliveries tenantId jobId (record.event content))
        (fun outcome w' => (faults.fault .commit = none → N outcome.kind w') ∧
          ∀ fault, faults.fault .commit = some fault →
            E (fault.raised .exception) { w' with database := w.database })
        (fun raised w' => E raised { w' with database := w.database }) w) :
    wp (body c faults tenantId jobId) N E w := by
  rw [body, wp_transaction]
  simp only [wp_bind, wp_reach, wp_readDatabase, wp_orRaise]
  refine ⟨fun hget => ⟨fun record hrecord => ⟨fun hartifact => ?_, fun _ _ => hstopped _⟩,
    fun _ => hstopped _⟩, fun _ _ => hstopped _⟩
  refine DocumentStore.wp_getObject (fun content hcontent => ?_) (hstopped _)
  exact hresumed record content hrecord hcontent (.cons hget (.cons hartifact .nil))

theorem wp_resume {record : DeliveryRecord} {content : ByteArray}
    (hdelivery : w.database.getDelivery tenantId jobId = some record)
    (hcontent : c.platform.sha256 content = record.contentHash)
    (hclear : Clear faults [.getDelivery, .getArtifact]) :
    wp (IngestionPipeline.resume c faults maxDeliveries tenantId jobId (record.event content))
      (fun _ w' => ∃ w₁ record content row s,
        Resumed c faults tenantId jobId w w₁ record content row s ∧
        BodyReturned c faults maxDeliveries s.version content w₁.database row.job w₁ w')
      (fun _ w' => BodyAborted c faults tenantId jobId w w') w := by
  refine wp_resume_of (fun _ _ hdrawn _ => .early hdrawn) ?_
  intro row s w₁ hrow hgetJob hsubmit hsubmitted hid _ hsaved
  have hresumed : Resumed c faults tenantId jobId w w₁ record content row s :=
    ⟨hdelivery, hcontent, hrow, hsubmitted, hid, hclear.append (.cons hgetJob (.cons hsubmit .nil))⟩
  refine wp_mono (wp_continueJob (hsubmitted.of rfl) hsaved rfl ?_)
    (fun _ w' h => ?_) (fun _ w' h => ?_)
  · exact SourceEventKind.noConfusion
  · exact ⟨w₁, record, content, row, s, hresumed, h⟩
  · exact .late w₁ record content row s hresumed h

/-- **The body** commits what its pipeline did, or leaves the database alone. -/
theorem wp_body : wp (body c faults tenantId jobId)
    (fun _ w' => BodyCommitted c faults tenantId jobId w w')
    (fun _ w' => w'.database = w.database ∧ BodyAborted c faults tenantId jobId w w') w := by
  refine wp_body_of (fun _ => ⟨rfl, .early (.refl w)⟩) fun record content hrecord hcontent hclear => ?_
  refine wp_mono (wp_resume hrecord hcontent hclear) (fun outcome w' h => ?_) (fun raised w' h => ?_)
  · refine ⟨fun hcommit => ⟨h, hcommit⟩, fun fault hf => ⟨rfl, ?_⟩⟩
    obtain ⟨w₁, record, content, row, s, hresumed, hend⟩ := h
    have hleft := bodyReturned_left hend (by rw [hf]; exact Option.some_ne_none _)
    exact .late w₁ record content row s hresumed ⟨hleft.index, hleft.passed, hleft.log, hleft.uuids⟩
  · refine ⟨rfl, ?_⟩
    cases h with
    | early h => exact .early ⟨h.index, h.log, h.uuids⟩
    | late w₁ record content row s hresumed hleft =>
      exact .late w₁ record content row s hresumed
        ⟨hleft.index, hleft.passed, hleft.log, hleft.uuids⟩

theorem Resumed.logged {w₁ : World} {record : DeliveryRecord} {content : ByteArray}
    {row : JobRow} {s : Submission} (h : Resumed c faults tenantId jobId w w₁ record content row s)
    (hlog : Logged (Observation.OfBody row.job.tenantId row.job.id) w₁ w') :
    Logged (Observation.OfBody tenantId jobId) w w' := by
  have hpk : row.pk = (tenantId, jobId) := (Table.find_eq_some.1 h.row).2
  have ht : row.job.tenantId = tenantId := congrArg Prod.fst hpk
  have hj : row.job.id = jobId := congrArg Prod.snd hpk
  rw [ht, hj] at hlog
  exact (Logged.of_eq h.submitted.drawn.log).trans hlog

theorem BodyAborted.logged (h : BodyAborted c faults tenantId jobId w w') :
    Logged (Observation.OfBody tenantId jobId) w w' := by
  cases h with
  | early h => exact .of_eq h.log
  | late w₁ record content row s resumed left => exact resumed.logged left.log

theorem BodyCommitted.logged (h : BodyCommitted c faults tenantId jobId w w') :
    Logged (Observation.OfBody tenantId jobId) w w' := by
  obtain ⟨w₁, record, content, row, s, hresumed, hend⟩ := h.returned
  cases hend with
  | terminal _ hw => rw [hw]; exact .of_eq hresumed.submitted.drawn.log
  | completed _ _ _ _ _ _ _ _ log _ => exact hresumed.logged log
  | attempted _ _ _ _ left => exact hresumed.logged left.log

/-! ## The delivery -/

/-- The world in which a claimed body runs. -/
def World.claimed (w : World) (tenantId jobId : String) (ingestionJobs : IngestionJobs) : World :=
  { w with
    database := { w.database with ingestionJobs }
    log := w.log ++ [.claimed tenantId jobId, .body tenantId jobId] }

theorem claimed_eq {ingestionJobs : IngestionJobs} : ({ w with
      database := { w.database with ingestionJobs }
      log := w.log ++ [.claimed tenantId jobId] ++ [.body tenantId jobId] } : World) =
    w.claimed tenantId jobId ingestionJobs := by
  simp [World.claimed]

/-- **What one delivery does.** -/
inductive Delivery (c : Components) (faults : Faults) (tenantId jobId : String) (w w' : World) :
    Prop
  /-- it is turned away, or does not get through its claim -/
  | idle (database : w'.database = w.database) (quiet : Quiet w w')
  /-- the job is terminal -/
  | terminal (row : JobRow) (hrow : w.database.ingestionJobs.find (tenantId, jobId) = some row)
      (state : row.job.state.terminal = true) (database : w'.database = w.database)
      (index : w'.index = w.index) (uuids : w'.uuids = w.uuids)
      (log : w'.log = w.log ++ [.claimed tenantId jobId])
  /-- the job has been delivered too often -/
  | lost (deliveries : ℕ) (jobs : IngestionJobs)
      (claim : w.database.ingestionJobs.claimDelivery tenantId jobId = some (deliveries, jobs))
      (lost : maxDeliveries < deliveries)
      (database : w'.database =
        { w.database with ingestionJobs := jobs.failLostDelivery tenantId jobId })
      (index : w'.index = w.index) (uuids : w'.uuids = w.uuids)
      (log : w'.log = w.log ++ [.claimed tenantId jobId])
  /-- the body commits -/
  | committed (deliveries : ℕ) (jobs : IngestionJobs)
      (claim : w.database.ingestionJobs.claimDelivery tenantId jobId = some (deliveries, jobs))
      (bound : deliveries ≤ maxDeliveries) (passed : Clear faults [.claim, .claimCommit])
      (free : faults.busy = false)
      (body : BodyCommitted c faults tenantId jobId (w.claimed tenantId jobId jobs) w')
  /-- the body rolls back; its error is recorded, or is lost as well -/
  | aborted (deliveries : ℕ) (jobs : IngestionJobs)
      (claim : w.database.ingestionJobs.claimDelivery tenantId jobId = some (deliveries, jobs))
      (bound : deliveries ≤ maxDeliveries) (passed : Clear faults [.claim, .claimCommit])
      (free : faults.busy = false)
      (body : BodyAborted c faults tenantId jobId (w.claimed tenantId jobId jobs) w')
      (database : w'.database = { w.database with ingestionJobs := jobs } ∨
        w'.database = { w.database with
          ingestionJobs := jobs.recordWorkerError tenantId jobId maxDeliveries })

/-- The claim: `none` if the body is to run. -/
theorem wp_claim {N : Option JobState → World → Prop} {E : Raised → World → Prop}
    (hterminal : ∀ row, w.database.ingestionJobs.find (tenantId, jobId) = some row →
      row.job.state.terminal = true → N (some row.job.state) w)
    (hlost : ∀ deliveries jobs,
      w.database.ingestionJobs.claimDelivery tenantId jobId = some (deliveries, jobs) →
      maxDeliveries < deliveries → N (some .failed) { w with database :=
        { w.database with ingestionJobs := jobs.failLostDelivery tenantId jobId } })
    (hclaim : ∀ deliveries jobs,
      w.database.ingestionJobs.claimDelivery tenantId jobId = some (deliveries, jobs) →
      deliveries ≤ maxDeliveries → Clear faults [.claim, .claimCommit] →
      N none { w with database := { w.database with ingestionJobs := jobs } })
    (hE : ∀ raised, E raised w) :
    wp (claim faults tenantId jobId) N E w := by
  rw [claim, wp_transaction]
  simp only [wp_bind, wp_reach, wp_readDatabase]
  refine ⟨fun hf => ?_, fun _ _ => hE _⟩
  split
  · rename_i hnone
    simp only [wp_bind, wp_orRaise, wp_pure]
    refine ⟨fun job hjob => ⟨fun _ => ?_, fun _ _ => hE _⟩, fun _ => hE _⟩
    obtain ⟨row, hrow, rfl⟩ := Option.map_eq_some_iff.1 hjob
    refine hterminal row hrow ?_
    unfold IngestionJobs.claimDelivery at hnone
    rw [hrow] at hnone
    by_contra hopen
    simp [hopen] at hnone
  · rename_i deliveries jobs hclaimed
    simp only [wp_bind, wp_writeDatabase]
    split
    · rename_i hmany
      simp only [wp_bind, wp_writeDatabase, wp_pure]
      exact ⟨fun _ => hlost deliveries jobs hclaimed hmany, fun _ _ => hE _⟩
    · rename_i hfew
      simp only [wp_pure]
      exact ⟨fun hcommit => hclaim deliveries jobs hclaimed (not_lt.1 hfew)
        (.cons hf (.cons hcommit .nil)), fun _ _ => hE _⟩

theorem wp_recordError {N : JobState → World → Prop} {E : Raised → World → Prop}
    (hN : ∀ state, N state { w with database := { w.database with
      ingestionJobs := w.database.ingestionJobs.recordWorkerError tenantId jobId maxDeliveries } })
    (hE : ∀ raised, E raised w)
    (hunknown : E .pipelineInput { w with database := { w.database with
      ingestionJobs := w.database.ingestionJobs.recordWorkerError tenantId jobId maxDeliveries } }) :
    wp (recordError faults tenantId jobId) N E w := by
  rw [recordError, wp_bind, wp_transaction]
  simp only [wp_bind, wp_reach, wp_readDatabase, wp_writeDatabase, wp_pure, wp_orRaise]
  refine ⟨fun _ => ⟨fun _ => ⟨fun job _ => hN job.state, fun _ => hunknown⟩, fun _ _ => hE _⟩,
    fun _ _ => hE _⟩

theorem wp_runJob : wp (runJob c faults tenantId jobId)
    (fun _ w' => Delivery c faults tenantId jobId w w')
    (fun _ w' => Delivery c faults tenantId jobId w w') w := by
  unfold runJob
  split
  · exact .idle rfl (.refl w)
  rename_i hfree
  rw [Bool.not_eq_true] at hfree
  rw [wp_bind]
  refine wp_claim (fun row hrow hterm => ?_) (fun deliveries jobs hclaim hmany => ?_)
    (fun deliveries jobs hclaim hfew hpassed => ?_) (fun _ => .idle rfl (.refl w))
  · exact .terminal row hrow hterm rfl rfl rfl rfl
  · exact .lost deliveries jobs hclaim hmany rfl rfl rfl rfl
  · have habort : ∀ {w₁ w'}, w₁.database = { w.database with ingestionJobs := jobs } →
        BodyAborted c faults tenantId jobId (w.claimed tenantId jobId jobs) w₁ →
        w'.index = w₁.index → w'.log = w₁.log → w'.uuids = w₁.uuids →
        (w'.database = w₁.database ∨ w'.database = { w₁.database with
          ingestionJobs := w₁.database.ingestionJobs.recordWorkerError tenantId jobId
            maxDeliveries }) → Delivery c faults tenantId jobId w w' := by
      intro w₁ w' hdb hbody hidx hlog huuids hor
      rw [hdb] at hor
      refine .aborted deliveries jobs hclaim hfew hpassed hfree ?_ hor
      -- the body has raised: only its row may be written after it
      cases hbody with
      | early h => exact .early ⟨hidx.trans h.index, hlog.trans h.log, huuids ▸ h.uuids⟩
      | late w₂ record content row s hresumed hleft =>
        exact .late w₂ record content row s hresumed ⟨hidx ▸ hleft.index,
          hleft.passed.imp hidx.trans id, hleft.log.trans (.of_eq hlog), huuids.trans hleft.uuids⟩
    simp only [wp_bind, wp_observe, wp_tryCatch, wp_pure]
    rw [claimed_eq]
    refine wp_mono wp_body (fun _ w' h => .committed deliveries jobs hclaim hfew hpassed hfree h) ?_
    rintro raised w₁ ⟨hdb, hbody⟩
    split
    · exact habort hdb hbody rfl rfl rfl (Or.inl rfl)
    · exact wp_recordError (fun _ => habort hdb hbody rfl rfl rfl (Or.inr rfl))
        (fun _ => habort hdb hbody rfl rfl rfl (Or.inl rfl))
        (habort hdb hbody rfl rfl rfl (Or.inr rfl))

/-- **One delivery** in a run of the worker. -/
theorem delivery_cases {faults : Faults} {now : ℤ} : Delivery c faults tenantId jobId
    { w with now } (w.step c ⟨.deliver tenantId jobId, faults, now⟩) := by
  refine wp_state (P := Delivery c faults tenantId jobId { w with now }) ?_
  rw [WorkerEvent.perform, wp_bind]
  exact wp_runJob

/-! ## Submissions and recovery -/

def SourceEvent.args (P : Platform) (event : SourceEvent) (content : ByteArray) : SubmitArgs :=
  ⟨event.source, event.canonicalKey, event.sourceVersion, P.sha256 content, event.sourceTimestamp⟩

/-- **What one submission event does.** -/
inductive SubmissionEvent (c : Components) (event : SourceEvent) (w w' : World) : Prop
  | rejected (database : w'.database = w.database) (drawn : Drawn w w')
  | committed (content : ByteArray) (hcontent : event.content = some content) (s : Submission)
      (w₁ w₂ : World) (before : w₁.database = w.database) (quiet : Quiet w w₁)
      (submitted : Submitted c.platform (event.args c.platform content) w₁ w₂ s)
      (database : w'.database = w₂.database ∨ w'.database = { w₂.database with
        ingestionJobs := w₂.database.ingestionJobs.markDispatched event.source.tenantId s.job.id
          w₂.now })
      (index : w'.index = w.index) (uuids : w'.uuids = w₂.uuids)
      (log : w'.log = w.log ++ [.submitted event])

theorem wp_submitEvent {event : SourceEvent} : wp (submitEvent c faults event)
    (fun _ w' => SubmissionEvent c event w w') (fun _ w' => SubmissionEvent c event w w') w := by
  have hrejected : ∀ {w'}, w'.database = w.database → Quiet w w' → SubmissionEvent c event w w' :=
    fun hdb hq => .rejected hdb ⟨hq.index, hq.log, hq.uuids.ge⟩
  unfold submitEvent
  split
  · exact hrejected rfl (.refl w)
  simp only [wp_bind, wp_orRaise]
  refine ⟨fun content hcontent => ?_, fun _ => hrejected rfl (.refl w)⟩
  refine DocumentStore.wp_putObject (fun _ w₁ hdb hq => ?_) (fun _ _ hdb hq => hrejected hdb hq)
  rw [wp_transaction]
  have hdraw : ∀ {w₂ : World}, Drawn w₁ w₂ → SubmissionEvent c event w
      { w₂ with database := w₁.database } := fun h =>
    .rejected hdb ⟨h.index.trans hq.index, h.log.trans hq.log, hq.uuids ▸ h.uuids⟩
  have hspec : wp (IngestionRepository.submit c.platform faults event.source event.canonicalKey
      event.sourceVersion (c.platform.sha256 content) event.sourceTimestamp parserVersion) _ _ w₁ :=
    @wp_submit _ _ (event.args c.platform content) _ _
  refine wp_mono hspec ?_ (fun _ _ => hdraw)
  rintro s w₂ ⟨hsubmitted, -⟩
  refine ⟨fun _ => ?_, fun _ _ => hdraw hsubmitted.drawn⟩
  -- the submission has committed: whether the job is published only marks its row
  have hdone : ∀ {w'}, w'.database = w₂.database ∨ w'.database = { w₂.database with
        ingestionJobs := w₂.database.ingestionJobs.markDispatched event.source.tenantId s.job.id
          w₂.now } → w'.index = w₂.index → w'.uuids = w₂.uuids →
      w'.log = w₂.log ++ [.submitted event] → SubmissionEvent c event w w' := by
    intro w' hdb' hidx huuids hlog
    refine .committed content hcontent s w₁ w₂ hdb hq hsubmitted hdb' ?_ huuids ?_
    · exact hidx.trans (hsubmitted.drawn.index.trans hq.index)
    · rw [hlog, hsubmitted.drawn.log, hq.log]
  simp only [wp_observe]
  split
  · simp only [publish, wp_bind, wp_request, wp_transaction, Hoare.wp_get, wp_writeDatabase,
      wp_pure]
    refine ⟨fun _ => ⟨fun _ => hdone (Or.inr rfl) rfl rfl rfl,
      fun _ _ => hdone (Or.inl rfl) rfl rfl rfl⟩, fun _ _ => ?_⟩
    split <;> exact hdone (Or.inl rfl) rfl rfl rfl
  · exact hdone (Or.inl rfl) rfl rfl rfl

theorem submission_cases {faults : Faults} {now : ℤ} {event : SourceEvent} :
    SubmissionEvent c event { w with now } (w.step c ⟨.submit event, faults, now⟩) := by
  refine wp_state (P := SubmissionEvent c event { w with now }) ?_
  rw [WorkerEvent.perform, wp_bind]
  exact wp_submitEvent

/-- What a recovery does to the database. -/
structure RecoveryEvent (w w' : World) : Prop where
  database : w'.database = w.database ∨ ∃ limit, w'.database = { w.database with
    ingestionJobs := (w.database.ingestionJobs.claimRecoveryBatch limit w.now).2 }
  quiet : Quiet w w'

theorem wp_publishAll {keys : List (String × String)} {w₀ : World} (h : RecoveryEvent w₀ w) :
    wp (keys.forM (publish faults)) (fun _ w' => RecoveryEvent w₀ w')
      (fun _ w' => RecoveryEvent w₀ w') w := by
  induction keys generalizing w with
  | nil => exact h
  | cons key keys ih =>
    have hq : ∀ queue, RecoveryEvent w₀ { w with queue } :=
      fun _ => ⟨h.database, h.quiet.index, h.quiet.log, h.quiet.uuids⟩
    show wp (publish faults key >>= fun _ => keys.forM (publish faults)) _ _ _
    rw [wp_bind, publish, wp_request]
    refine ⟨fun _ => ih (hq _), fun _ _ => ?_⟩
    split
    · exact hq _
    · exact h

theorem recovery_cases {faults : Faults} {now : ℤ} {limit : ℕ} :
    RecoveryEvent { w with now } (w.step c ⟨.recover limit, faults, now⟩) := by
  have hsame : RecoveryEvent { w with now } { w with now } := ⟨Or.inl rfl, .refl _⟩
  refine wp_state (P := RecoveryEvent { w with now }) ?_
  rw [WorkerEvent.perform, wp_bind, recoverPending, wp_bind, wp_transaction]
  dsimp only
  split
  · exact hsame
  · simp only [wp_bind, Hoare.wp_get, wp_writeDatabase, wp_pure]
    refine ⟨fun _ => wp_publishAll ⟨Or.inr ⟨limit, rfl⟩, rfl, rfl, rfl⟩, fun _ _ => hsame⟩

/-! ## A small worker -/

def byteChar (b : UInt8) : Char :=
  ⟨b.toUInt32, Or.inl (by have := b.toNat_lt; simp only [UInt8.toNat_toUInt32]; omega)⟩

/-- The bytes as characters, in the place of a digest. -/
def samplePlatform : Platform where
  sha256 content := String.ofList (content.data.toList.map byteChar)
  uuid4 n := String.ofList (List.replicate (n + 1) 'u')
  collation a b := a ≤ b
  collation_total a b := by simpa using le_total a b
  collation_trans a b c := by simpa using le_trans
  collation_antisymm a b := by simpa using le_antisymm

theorem byteChar_injective : Function.Injective byteChar :=
  fun _ _ h => UInt8.toUInt32_inj.1 (congrArg Char.val h)

theorem samplePlatform_collisionFree : samplePlatform.CollisionFree where
  sha256 a b h := by
    have hlist := List.map_injective_iff.2 byteChar_injective (String.ofList_injective h)
    exact ByteArray.ext (Array.toList_inj.1 hlist)
  uuid4 m n h := by
    have hlength := congrArg List.length (String.ofList_injective h)
    simpa using hlength
  uuid4_hex n := by simp [samplePlatform]

/-- A parser that takes every content, and a chunker that makes one chunk of it. -/
def sampleComponents : Components where
  platform := samplePlatform
  parse content := some ⟨parserVersion, samplePlatform.sha256 content, []⟩
  chunk document :=
    [⟨0, document.normalizedText, 0, document.normalizedText.length, [], parserVersion, "structural-1"⟩]

def sampleSource : Source where
  id := "source"
  tenantId := "tenant"
  type := "markdown"
  externalRef := "https://example.org/doc"
  policy := ["public"]
  identifiers_valid := by decide
  policy_valid := by decide
  externalRef_valid := by decide

/-- The event of a scan that finds `content`. -/
def sampleEvent (content : String) (capturedAt : ℤ) : SourceEvent where
  kind := .new
  source := sampleSource
  canonicalKey := "doc.md"
  sourceVersion := samplePlatform.sha256 content.toUTF8
  sourceTimestamp := capturedAt
  content := some content.toUTF8

end GroundedOps.Ingestion
