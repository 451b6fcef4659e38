import GroundedOps.Proof.Worker

/-!
# The delivery budget of a job

Two counters bound the work on a job, `delivery_attempts` and `attempts`, and three
statements and the pipeline advance them, with rollbacks and crashes between.

* `row_step`: what one event of the worker does to the row of a job, and to the tally of
  its committed claims, pipeline bodies and sink calls.
* `run_budgeted`: after every run the counters and the tally of each job are in bounds.
* `deliveries_bounded`: **a job runs at most `maxDeliveries` bodies, is terminal after one
  more committed claim, and never changes again once it is.**
-/

namespace GroundedOps.Ingestion

open Hoare
open IngestionPipeline (Attempted BodyReturned SameJob)

/-! ## The tally -/

def Observation.claims (k : String × String) : Observation → Bool
  | .claimed tenantId jobId => tenantId == k.1 && jobId == k.2
  | _ => false

def Observation.begins (k : String × String) : Observation → Bool
  | .body tenantId jobId => tenantId == k.1 && jobId == k.2
  | _ => false

def Observation.prepares (k : String × String) : Observation → Bool
  | .prepared tenantId jobId => tenantId == k.1 && jobId == k.2
  | _ => false

/-- Committed claims of the job. -/
def World.claims (w : World) (k : String × String) : ℕ := w.log.countP (Observation.claims k)

/-- Pipeline bodies begun for the job. -/
def World.bodies (w : World) (k : String × String) : ℕ := w.log.countP (Observation.begins k)

/-- Calls of the index sink for the job. -/
def World.sinkCalls (w : World) (k : String × String) : ℕ := w.log.countP (Observation.prepares k)

/-- The tally of the job has not moved. -/
structure SameTally (w w' : World) (k : String × String) : Prop where
  claims : w'.claims k = w.claims k
  bodies : w'.bodies k = w.bodies k
  sinkCalls : w'.sinkCalls k = w.sinkCalls k

variable {c : Components} {faults : Faults} {tenantId jobId : String} {w w' : World}
  {k : String × String} {row row' : JobRow} {jobs : IngestionJobs}

theorem SameTally.of_log (h : w'.log = w.log) : SameTally w w' k := by
  refine ⟨?_, ?_, ?_⟩
  · rw [World.claims, h]; rfl
  · rw [World.bodies, h]; rfl
  · rw [World.sinkCalls, h]; rfl

theorem count_of_logged {p : Observation → Prop} {q : Observation → Bool}
    (h : Logged p w w') (hp : ∀ observation, p observation → q observation = false) :
    w'.log.countP q = w.log.countP q := by
  obtain ⟨more, hlog, hmore⟩ := h
  have hnone : more.countP q = 0 := by
    rw [List.countP_eq_zero]
    intro o ho
    rw [hp o (hmore o ho)]
    exact Bool.false_ne_true
  rw [hlog, List.countP_append, hnone, Nat.add_zero]

theorem ofBody_claims (o : Observation) (h : Observation.OfBody tenantId jobId o) :
    o.claims k = false := by
  cases h <;> rfl

theorem ofBody_begins (o : Observation) (h : Observation.OfBody tenantId jobId o) :
    o.begins k = false := by
  cases h <;> rfl

theorem ofBody_prepares (hk : k ≠ (tenantId, jobId)) (o : Observation)
    (h : Observation.OfBody tenantId jobId o) : o.prepares k = false := by
  cases h with
  | prepared =>
    by_contra hsame
    simp only [Observation.prepares, Bool.not_eq_false, Bool.and_eq_true, beq_iff_eq] at hsame
    exact hk (Prod.ext hsame.1.symm hsame.2.symm)
  | projected => rfl
  | promoted => rfl

/-- A body of another job leaves the tally alone. -/
theorem SameTally.of_logged (h : Logged (Observation.OfBody tenantId jobId) w w')
    (hk : k ≠ (tenantId, jobId)) : SameTally w w' k :=
  ⟨count_of_logged h ofBody_claims, count_of_logged h ofBody_begins,
    count_of_logged h (ofBody_prepares hk)⟩

theorem SameTally.trans {w₁ w₂ w₃ : World} (h : SameTally w₁ w₂ k) (h' : SameTally w₂ w₃ k) :
    SameTally w₁ w₃ k :=
  ⟨h'.claims.trans h.claims, h'.bodies.trans h.bodies, h'.sinkCalls.trans h.sinkCalls⟩

/-! ## One event -/

/-- What a committed or aborted body may have done to the columns of its job. -/
inductive JobRan (job job' : IngestionJob) : Prop
  | unchanged (h : job' = job)
  | completed (state : job'.state = .completed) (attempts : job'.attempts = job.attempts)
  | attempted (attempts : job'.attempts = job.attempts + 1)
      (state : job'.attempts < maxDeliveries ∨ job'.state.terminal = true)

/-- **What one event does to the row of a job**, and to its tally. -/
inductive RowStep (w w' : World) (k : String × String) (row row' : JobRow) : Prop
  | aside (job : row'.job = row.job) (deliveries : row'.deliveryAttempts = row.deliveryAttempts)
      (tally : SameTally w w' k)
  | terminal (state : row.job.state.terminal = true) (job : row'.job = row.job)
      (deliveries : row'.deliveryAttempts = row.deliveryAttempts)
      (bodies : w'.bodies k = w.bodies k) (sinkCalls : w'.sinkCalls k = w.sinkCalls k)
  | lost (pending : row.job.state.terminal = false) (state : row'.job.state.terminal = true)
      (deliveries : row'.deliveryAttempts = row.deliveryAttempts + 1)
      (attempts : row'.job.attempts = row.job.attempts) (bodies : w'.bodies k = w.bodies k)
  | ran (pending : row.job.state.terminal = false)
      (deliveries : row'.deliveryAttempts = row.deliveryAttempts + 1)
      (bound : row'.deliveryAttempts ≤ maxDeliveries) (job : JobRan row.job row'.job)
      (claims : w'.claims k = w.claims k + 1) (bodies : w'.bodies k = w.bodies k + 1)

/-- A job that an event creates. -/
structure RowCreated (w w' : World) (k : String × String) (row' : JobRow) : Prop where
  state : row'.job.state = .queued
  attempts : row'.job.attempts = 0
  deliveries : row'.deliveryAttempts = 0
  tally : SameTally w w' k

/-- What one event does to the rows of all jobs. -/
structure RowsStep (w w' : World) : Prop where
  step : ∀ k row, w.database.ingestionJobs.find k = some row →
    ∃ row', w'.database.ingestionJobs.find k = some row' ∧ RowStep w w' k row row'
  created : ∀ k row', w.database.ingestionJobs.find k = none →
    w'.database.ingestionJobs.find k = some row' → RowCreated w w' k row'
  unknown : ∀ k, w'.database.ingestionJobs.find k = none → SameTally w w' k

/-- The jobs keep their columns and deliveries. -/
theorem RowsStep.aside (htally : ∀ k, SameTally w w' k)
    (hrows : ∀ k, ∃ f : JobRow → JobRow, (∀ row, (f row).job = row.job ∧
      (f row).deliveryAttempts = row.deliveryAttempts) ∧
      w'.database.ingestionJobs.find k = (w.database.ingestionJobs.find k).map f) :
    RowsStep w w' := by
  refine ⟨fun k row hrow => ?_, fun k row' hnone hsome => ?_, fun k _ => htally k⟩
  · obtain ⟨f, hf, hfind⟩ := hrows k
    exact ⟨f row, by rw [hfind, hrow]; rfl, .aside (hf row).1 (hf row).2 (htally k)⟩
  · obtain ⟨f, -, hfind⟩ := hrows k
    rw [hfind, hnone] at hsome
    cases hsome

theorem RowsStep.of_database (hdb : w'.database = w.database) (htally : ∀ k, SameTally w w' k) :
    RowsStep w w' :=
  .aside htally fun k => ⟨id, fun _ => ⟨rfl, rfl⟩, by rw [hdb, Option.map_id]; rfl⟩

/-! ## Deliveries -/

/-- The tally of a claimed body, and of what it then does. -/
theorem claimed_tally (h : Logged (Observation.OfBody tenantId jobId)
      (w.claimed tenantId jobId jobs) w') :
    w'.claims (tenantId, jobId) = w.claims (tenantId, jobId) + 1 ∧
      w'.bodies (tenantId, jobId) = w.bodies (tenantId, jobId) + 1 := by
  constructor
  · rw [World.claims, count_of_logged h ofBody_claims]
    simp [World.claimed, World.claims, Observation.claims]
  · rw [World.bodies, count_of_logged h ofBody_begins]
    simp [World.claimed, World.bodies, Observation.begins]

/-- A delivery leaves the tally of the other jobs alone. -/
theorem claimed_sameTally (hk : k ≠ (tenantId, jobId)) :
    SameTally w (w.claimed tenantId jobId jobs) k := by
  have hne : ¬ (tenantId = k.1 ∧ jobId = k.2) := fun h => hk (Prod.ext h.1.symm h.2.symm)
  refine ⟨?_, ?_, ?_⟩
  · simp [World.claimed, World.claims, Observation.claims, hne]
  · simp [World.claimed, World.bodies, Observation.begins, hne]
  · simp [World.claimed, World.sinkCalls, Observation.prepares]

/-- The rows of the other jobs after a delivery, and the tally. -/
theorem rowsStep_of_body (hclaim : ∃ row, w.database.ingestionJobs.find (tenantId, jobId) = some row)
    (hlog : Logged (Observation.OfBody tenantId jobId) (w.claimed tenantId jobId jobs) w')
    (hself : ∀ row, w.database.ingestionJobs.find (tenantId, jobId) = some row →
      ∃ row', w'.database.ingestionJobs.find (tenantId, jobId) = some row' ∧
        RowStep w w' (tenantId, jobId) row row')
    (hother : ∀ k, k ≠ (tenantId, jobId) → ∀ row, w.database.ingestionJobs.find k = some row →
      w'.database.ingestionJobs.find k = some row)
    (hnew : ∀ k, k ≠ (tenantId, jobId) → ∀ row', w.database.ingestionJobs.find k = none →
      w'.database.ingestionJobs.find k = some row' →
      row'.job.state = .queued ∧ row'.job.attempts = 0 ∧ row'.deliveryAttempts = 0) :
    RowsStep w w' := by
  have htally : ∀ k, k ≠ (tenantId, jobId) → SameTally w w' k :=
    fun k hk => (claimed_sameTally hk).trans (.of_logged hlog hk)
  obtain ⟨row₀, hrow₀⟩ := hclaim
  refine ⟨fun k row hrow => ?_, fun k row' hnone hsome => ?_, fun k hnone => ?_⟩
  · by_cases hk : k = (tenantId, jobId)
    · subst hk; exact hself row hrow
    · exact ⟨row, hother k hk row hrow, .aside rfl rfl (htally k hk)⟩
  · have hk : k ≠ (tenantId, jobId) := by rintro rfl; rw [hrow₀] at hnone; cases hnone
    obtain ⟨hstate, hattempts, hdeliveries⟩ := hnew k hk row' hnone hsome
    exact ⟨hstate, hattempts, hdeliveries, htally k hk⟩
  · refine htally k ?_
    rintro rfl
    obtain ⟨row', hrow', -⟩ := hself row₀ hrow₀
    rw [hrow'] at hnone
    cases hnone

/-- A committed body saves its job, completed or with one more attempt. -/
theorem bodyReturned_saved {version : DocumentVersion} {content : ByteArray} {job : IngestionJob}
    (hopen : job.state.terminal = false)
    (h : BodyReturned c faults maxDeliveries version content w.database job w w') :
    ∃ job', SameJob job job' ∧
      w'.database.ingestionJobs = w.database.ingestionJobs.setJob job' ∧
      JobRan job (job.withColumns job') := by
  cases h with
  | terminal hterm _ => rw [hterm] at hopen; cases hopen
  | completed job' same state attempts _ saved _ _ _ _ =>
    exact ⟨job', same, saved.jobs, .completed state attempts⟩
  | attempted job' attempted _ saved _ =>
    refine ⟨job', attempted.same, saved.jobs, .attempted attempted.attempts ?_⟩
    rcases attempted.state with ⟨-, hlt⟩ | hfailed
    · exact Or.inl hlt
    · exact Or.inr (by rw [IngestionJob.withColumns, hfailed]; rfl)

theorem committed_rows {deliveries : ℕ}
    (hclaim : w.database.ingestionJobs.claimDelivery tenantId jobId = some (deliveries, jobs))
    (hbound : deliveries ≤ maxDeliveries)
    (hbody : BodyCommitted c faults tenantId jobId (w.claimed tenantId jobId jobs) w') :
    RowsStep w w' := by
  have hlog := hbody.logged
  obtain ⟨row, hrow, hopen, rfl, hjobs⟩ := claimDelivery_eq hclaim
  obtain ⟨w₁, record, content, row₁, s, hresumed, hend⟩ := hbody.returned
  have hself₁ : jobs.find (tenantId, jobId) = some row₁ := hresumed.row
  rw [hjobs, find_counted hrow] at hself₁
  obtain rfl : row.counted = row₁ := Option.some.inj hself₁
  have hpk : row.pk = (tenantId, jobId) := (Table.find_eq_some.1 hrow).2
  obtain ⟨job', hsame, hsaved, hran⟩ := bodyReturned_saved hopen hend
  have hkey : (job'.tenantId, job'.id) = (tenantId, jobId) := by rw [hsame.1, hsame.2]; exact hpk
  have hfind₁ := hresumed.submitted.find_job hresumed.row
  refine rowsStep_of_body ⟨row, hrow⟩ hlog (fun row' hrow' => ?_) (fun k hk row' hrow' => ?_)
    (fun k hk row' hnone hsome => ?_)
  · obtain rfl : row = row' := Option.some.inj (hrow.symm.trans hrow')
    refine ⟨{ row.counted with job := row.job.withColumns job' }, ?_,
      .ran hopen rfl hbound hran (claimed_tally hlog).1 (claimed_tally hlog).2⟩
    rw [hsaved, ← hkey, find_setJob_self, hkey, hfind₁]
    rfl
  · rw [hsaved, find_setJob_of_ne (hkey ▸ hk)]
    refine hresumed.submitted.find_job ?_
    show jobs.find k = _
    rw [hjobs, find_countDelivery_of_ne hk, hrow']
  · rw [hsaved, find_setJob_of_ne (hkey ▸ hk)] at hsome
    obtain ⟨hmem, hk'⟩ := Table.find_eq_some.1 hsome
    rcases hresumed.submitted.mem_jobs hmem with hold | hnew
    · have hfind : jobs.find k = some row' := Table.find_eq_some.2 ⟨hold, hk'⟩
      rw [hjobs, find_countDelivery_of_ne hk, hnone] at hfind
      cases hfind
    · rw [hnew]; exact ⟨rfl, rfl, rfl⟩

/-- The error of a body counts an attempt, unless it is lost. -/
theorem workerError_ran (row : JobRow) (hopen : row.job.state.terminal = false) :
    JobRan row.job (row.workerError maxDeliveries).job := by
  unfold JobRow.workerError
  rw [if_neg (by rw [hopen]; exact Bool.false_ne_true)]
  refine .attempted rfl ?_
  dsimp only
  split
  · exact Or.inr rfl
  · rename_i h
    rw [not_or, not_le] at h
    exact Or.inl h.1

theorem aborted_rows {deliveries : ℕ}
    (hclaim : w.database.ingestionJobs.claimDelivery tenantId jobId = some (deliveries, jobs))
    (hbound : deliveries ≤ maxDeliveries)
    (hbody : BodyAborted c faults tenantId jobId (w.claimed tenantId jobId jobs) w')
    (hdb : w'.database = { w.database with ingestionJobs := jobs } ∨ w'.database =
      { w.database with ingestionJobs := jobs.recordWorkerError tenantId jobId maxDeliveries }) :
    RowsStep w w' := by
  have hlog := hbody.logged
  obtain ⟨row, hrow, hopen, rfl, hjobs⟩ := claimDelivery_eq hclaim
  have hself : jobs.find (tenantId, jobId) = some row.counted := hjobs ▸ find_counted hrow
  have hother : ∀ k, k ≠ (tenantId, jobId) →
      w'.database.ingestionJobs.find k = w.database.ingestionJobs.find k := by
    intro k hk
    have hclaimed : jobs.find k = w.database.ingestionJobs.find k := by
      rw [hjobs, find_countDelivery_of_ne hk]
    rcases hdb with hdb | hdb
    · rw [hdb]; exact hclaimed
    · rw [hdb]; exact (find_recordWorkerError_of_ne hk).trans hclaimed
  refine rowsStep_of_body ⟨row, hrow⟩ hlog (fun row' hrow' => ?_)
    (fun k hk row' hrow' => (hother k hk).trans hrow')
    (fun k hk row' hnone hsome => by rw [hother k hk, hnone] at hsome; cases hsome)
  obtain rfl : row = row' := Option.some.inj (hrow.symm.trans hrow')
  obtain ⟨hclaims, hbodies⟩ := claimed_tally hlog
  rcases hdb with hdb | hdb
  · exact ⟨row.counted, by rw [hdb]; exact hself,
      .ran hopen rfl hbound (.unchanged rfl) hclaims hbodies⟩
  · refine ⟨row.counted.workerError maxDeliveries, ?_, ?_⟩
    · rw [hdb]
      exact find_recordWorkerError_self.trans (by rw [hself]; rfl)
    · have hran := workerError_ran row.counted hopen
      have hdel : (row.counted.workerError maxDeliveries).deliveryAttempts =
          row.deliveryAttempts + 1 := by
        unfold JobRow.workerError; split <;> rfl
      exact .ran hopen hdel (hdel ▸ hbound) hran hclaims hbodies

theorem delivery_rows (h : Delivery c faults tenantId jobId w w') : RowsStep w w' := by
  -- a delivery that ends at the claim runs no body, and touches the tally of no other job
  have hclaimed : ∀ {k}, w'.log = w.log ++ [.claimed tenantId jobId] →
      w'.bodies k = w.bodies k ∧ w'.sinkCalls k = w.sinkCalls k := by
    intro k hlog
    simp [World.bodies, World.sinkCalls, hlog, Observation.begins, Observation.prepares]
  have hother : ∀ {k}, w'.log = w.log ++ [.claimed tenantId jobId] → k ≠ (tenantId, jobId) →
      SameTally w w' k := by
    intro k hlog hk
    have hne : ¬ (tenantId = k.1 ∧ jobId = k.2) := fun h => hk (Prod.ext h.1.symm h.2.symm)
    exact ⟨by simp [World.claims, hlog, Observation.claims, hne], (hclaimed hlog).1,
      (hclaimed hlog).2⟩
  cases h with
  | idle database quiet => exact .of_database database fun k => .of_log quiet.log
  | terminal row hrow state database index uuids log =>
    refine ⟨fun k row' hrow' => ⟨row', by rw [database]; exact hrow', ?_⟩,
      fun k row' hnone hsome => ?_, fun k hnone => ?_⟩
    · by_cases hk : k = (tenantId, jobId)
      · subst hk
        obtain rfl : row = row' := Option.some.inj (hrow.symm.trans hrow')
        exact .terminal state rfl rfl (hclaimed log).1 (hclaimed log).2
      · exact .aside rfl rfl (hother log hk)
    · rw [database, hnone] at hsome; cases hsome
    · refine hother log ?_
      rintro rfl
      rw [database, hrow] at hnone; cases hnone
  | lost deliveries jobs claim lost database index uuids log =>
    -- the claim counted the delivery and then failed the job, in one update of its row
    obtain ⟨row, hrow, hopen, rfl, hjobs⟩ := claimDelivery_eq claim
    have hfind : ∀ k, k ≠ (tenantId, jobId) →
        w'.database.ingestionJobs.find k = w.database.ingestionJobs.find k := by
      intro k hk
      rw [database, hjobs]
      exact (find_failLostDelivery_of_ne hk).trans (find_countDelivery_of_ne hk)
    have hself : w'.database.ingestionJobs.find (tenantId, jobId) =
        some row.counted.failLost := by
      rw [database, hjobs]
      exact find_failLostDelivery_self.trans (congrArg _ (find_counted hrow))
    refine ⟨fun k row' hrow' => ?_, fun k row' hnone hsome => ?_, fun k hnone => ?_⟩
    · by_cases hk : k = (tenantId, jobId)
      · subst hk
        obtain rfl : row = row' := Option.some.inj (hrow.symm.trans hrow')
        refine ⟨_, hself, ?_⟩
        have hcounted : row.counted.job.state.terminal = false := hopen
        unfold JobRow.failLost
        rw [if_neg (by rw [hcounted]; exact Bool.false_ne_true)]
        exact .lost hopen rfl rfl rfl (hclaimed log).1
      · exact ⟨row', (hfind k hk).trans hrow', .aside rfl rfl (hother log hk)⟩
    · by_cases hk : k = (tenantId, jobId)
      · subst hk; rw [hrow] at hnone; cases hnone
      · rw [hfind k hk, hnone] at hsome; cases hsome
    · refine hother log ?_
      rintro rfl
      rw [hself] at hnone; cases hnone
  | committed deliveries jobs claim bound passed free body => exact committed_rows claim bound body
  | aborted deliveries jobs claim bound passed free body database =>
    exact aborted_rows claim bound body database

/-! ## The other events -/

theorem markDispatched_aside {now : ℤ} (k : String × String) : ∃ f : JobRow → JobRow,
    (∀ row, (f row).job = row.job ∧ (f row).deliveryAttempts = row.deliveryAttempts) ∧
    (jobs.markDispatched tenantId jobId now).find k = (jobs.find k).map f := by
  unfold IngestionJobs.markDispatched IngestionJobs.update
  rw [Table.find_modify]
  refine ⟨_, fun row => ?_, rfl⟩
  dsimp only
  split
  · split <;> exact ⟨rfl, rfl⟩
  · exact ⟨rfl, rfl⟩

theorem claimRecoveryBatch_aside {limit : ℕ} {now : ℤ} (k : String × String) :
    ∃ f : JobRow → JobRow,
      (∀ row, (f row).job = row.job ∧ (f row).deliveryAttempts = row.deliveryAttempts) ∧
      (jobs.claimRecoveryBatch limit now).2.find k = (jobs.find k).map f := by
  unfold IngestionJobs.claimRecoveryBatch
  rw [Table.find_modify]
  refine ⟨_, fun row => ?_, rfl⟩
  split <;> exact ⟨rfl, rfl⟩

theorem submitted_tally {event : SourceEvent} (h : w'.log = w.log ++ [.submitted event]) :
    SameTally w w' k := by
  refine ⟨?_, ?_, ?_⟩
  · simp [World.claims, h, Observation.claims]
  · simp [World.bodies, h, Observation.begins]
  · simp [World.sinkCalls, h, Observation.prepares]

theorem submission_rows {event : SourceEvent} (h : SubmissionEvent c event w w') :
    RowsStep w w' := by
  cases h with
  | rejected database drawn => exact .of_database database fun k => .of_log drawn.log
  | committed content hcontent s w₁ w₂ before quiet submitted database index uuids log =>
    -- the rows after the submission, then those after `mark_dispatched`
    have haside : ∀ k, ∃ f : JobRow → JobRow, (∀ row, (f row).job = row.job ∧
        (f row).deliveryAttempts = row.deliveryAttempts) ∧
        w'.database.ingestionJobs.find k = (w₂.database.ingestionJobs.find k).map f := by
      intro k
      rcases database with hdb | hdb
      · exact ⟨id, fun _ => ⟨rfl, rfl⟩, by rw [hdb, Option.map_id]; rfl⟩
      · rw [hdb]; exact markDispatched_aside k
    refine ⟨fun k row hrow => ?_, fun k row' hnone hsome => ?_, fun k _ => submitted_tally log⟩
    · obtain ⟨f, hf, hfind⟩ := haside k
      rw [submitted.find_job (before ▸ hrow), Option.map_some] at hfind
      exact ⟨f row, hfind, .aside (hf row).1 (hf row).2 (submitted_tally log)⟩
    · obtain ⟨f, hf, hfind⟩ := haside k
      rw [hsome] at hfind
      obtain ⟨row, hrow, rfl⟩ := Option.map_eq_some_iff.1 hfind.symm
      obtain ⟨hmem, hk⟩ := Table.find_eq_some.1 hrow
      rcases submitted.mem_jobs hmem with hold | rfl
      · have hfind₁ := Table.find_eq_some.2 ⟨hold, hk⟩
        rw [before, hnone] at hfind₁
        cases hfind₁
      · exact ⟨by rw [(hf _).1]; rfl, by rw [(hf _).1]; rfl, by rw [(hf _).2]; rfl,
          submitted_tally log⟩

theorem recovery_rows (h : RecoveryEvent w w') : RowsStep w w' := by
  have htally : ∀ k, SameTally w w' k := fun k => .of_log h.quiet.log
  rcases h.database with hdb | ⟨limit, hdb⟩
  · exact .of_database hdb htally
  · exact .aside htally fun k => by rw [hdb]; exact claimRecoveryBatch_aside k

/-- **One event of the worker**, on the rows of all jobs. -/
theorem row_step (w : World) (event : WorkerEvent) :
    RowsStep { w with now := event.now } (w.step c event) := by
  obtain ⟨action, faults, now⟩ := event
  cases action with
  | submit event => exact submission_rows submission_cases
  | deliver tenantId jobId => exact delivery_rows delivery_cases
  | recover limit => exact recovery_rows recovery_cases

/-! ## Runs -/

/-- The counters of a job and its tally are in bounds; while it is not terminal, every
committed claim has counted a delivery. -/
structure JobBudgeted (w : World) (k : String × String) (row : JobRow) : Prop where
  bodies : w.bodies k ≤ maxDeliveries
  attempts : row.job.attempts ≤ row.deliveryAttempts
  attempts_max : row.job.attempts ≤ maxDeliveries
  pending : row.job.state.terminal = false → w.claims k = row.deliveryAttempts ∧
    w.bodies k ≤ row.deliveryAttempts ∧ row.deliveryAttempts ≤ maxDeliveries ∧
    row.job.attempts < maxDeliveries

/-- Every job is in bounds, and nothing has been done for a job that is not there. -/
structure Budgeted (w : World) : Prop where
  job : ∀ k row, w.database.ingestionJobs.find k = some row → JobBudgeted w k row
  unknown : ∀ k, w.database.ingestionJobs.find k = none → w.claims k = 0 ∧ w.bodies k = 0

theorem JobBudgeted.step (h : JobBudgeted w k row) (hs : RowStep w w' k row row') :
    JobBudgeted w' k row' := by
  cases hs with
  | aside job deliveries tally =>
    refine ⟨tally.bodies ▸ h.bodies, ?_, job ▸ h.attempts_max, fun hp => ?_⟩
    · rw [job, deliveries]; exact h.attempts
    · rw [job] at hp
      rw [tally.claims, tally.bodies, deliveries, job]
      exact h.pending hp
  | terminal state job deliveries bodies sinkCalls =>
    refine ⟨bodies ▸ h.bodies, ?_, job ▸ h.attempts_max, fun hp => ?_⟩
    · rw [job, deliveries]; exact h.attempts
    · rw [job, state] at hp; cases hp
  | lost pending state deliveries attempts bodies =>
    have ha := h.attempts
    refine ⟨bodies ▸ h.bodies, by omega, attempts ▸ h.attempts_max, fun hp => ?_⟩
    rw [state] at hp; cases hp
  | ran pending deliveries bound job claims bodies =>
    obtain ⟨hclaims, hbodies, -, hattempts⟩ := h.pending pending
    have ha := h.attempts
    have hjob : row'.job.attempts ≤ row.job.attempts + 1 := by
      cases job with
      | unchanged h => rw [h]; omega
      | completed _ attempts => omega
      | attempted attempts _ => omega
    refine ⟨by omega, by omega, by omega, fun hp => ⟨by omega, by omega, bound, ?_⟩⟩
    cases job with
    | unchanged h => rw [h]; exact hattempts
    | completed state _ => rw [state] at hp; cases hp
    | attempted _ state => exact state.resolve_right (by rw [hp]; exact Bool.false_ne_true)

theorem Budgeted.step (h : Budgeted w) (hs : RowsStep w w') : Budgeted w' := by
  refine ⟨fun k row' hrow' => ?_, fun k hnone => ?_⟩
  · cases hrow : w.database.ingestionJobs.find k with
    | some row =>
      obtain ⟨row'', hrow'', hstep⟩ := hs.step k row hrow
      obtain rfl : row'' = row' := Option.some.inj (hrow''.symm.trans hrow')
      exact (h.job k row hrow).step hstep
    | none =>
      obtain ⟨hclaims, hbodies⟩ := h.unknown k hrow
      obtain ⟨state, attempts, deliveries, tally⟩ := hs.created k row' hrow hrow'
      refine ⟨?_, by omega, by omega, fun _ => ⟨?_, ?_, by omega, ?_⟩⟩
      · rw [tally.bodies, hbodies]; exact Nat.zero_le _
      · rw [tally.claims, hclaims, deliveries]
      · rw [tally.bodies, hbodies]; exact Nat.zero_le _
      · rw [attempts]; decide
  · have hbefore : w.database.ingestionJobs.find k = none := by
      cases hrow : w.database.ingestionJobs.find k with
      | none => rfl
      | some row =>
        obtain ⟨row', hrow', -⟩ := hs.step k row hrow
        rw [hrow'] at hnone; cases hnone
    obtain ⟨hclaims, hbodies⟩ := h.unknown k hbefore
    have htally := hs.unknown k hnone
    exact ⟨htally.claims.trans hclaims, htally.bodies.trans hbodies⟩

theorem step_budgeted (w : World) (event : WorkerEvent) (h : Budgeted w) :
    Budgeted (w.step c event) :=
  Budgeted.step (w := { w with now := event.now })
    ⟨fun k row hrow => ⟨(h.job k row hrow).1, (h.job k row hrow).2, (h.job k row hrow).3,
      (h.job k row hrow).4⟩, h.unknown⟩ (row_step w event)

/-- **The counters stay in bounds** along every run from the empty world. -/
theorem run_budgeted (es : List WorkerEvent) : Budgeted (Machine.run (World.step c) {} es) := by
  refine Machine.run_inv (I := Budgeted) step_budgeted ⟨fun k row hrow => ?_, fun k _ => ⟨rfl, rfl⟩⟩
  exact absurd (Table.find_eq_some.1 hrow).1 Table.not_mem_empty

/-- The job is as it was, and the index sink has not been called for it. -/
def Settled (k : String × String) (job : IngestionJob) (sinkCalls : ℕ) (w : World) : Prop :=
  (∃ row, w.database.ingestionJobs.find k = some row ∧ row.job = job) ∧ w.sinkCalls k = sinkCalls

/-- **A terminal job never changes again.** -/
theorem settled_run {k : String × String} {job : IngestionJob} {sinkCalls : ℕ}
    (hterm : job.state.terminal = true) (h : Settled k job sinkCalls w) (more : List WorkerEvent) :
    Settled k job sinkCalls (Machine.run (World.step c) w more) := by
  refine Machine.run_inv (I := Settled k job sinkCalls) (fun w event h => ?_) h
  obtain ⟨⟨row, hrow, hjob⟩, hcalls⟩ := h
  obtain ⟨row', hrow', hstep⟩ := (row_step (c := c) w event).step k row hrow
  subst hjob
  cases hstep with
  | aside job _ tally => exact ⟨⟨row', hrow', job⟩, tally.sinkCalls.trans hcalls⟩
  | terminal _ job _ _ sink => exact ⟨⟨row', hrow', job⟩, sink.trans hcalls⟩
  | lost pending _ _ _ _ => rw [pending] at hterm; cases hterm
  | ran pending _ _ _ _ _ => rw [pending] at hterm; cases hterm

/-- Every job has run at most `maxDeliveries` bodies, its attempts are within its deliveries
and `maxDeliveries`, and it is terminal if one more claim than that has committed. -/
def WithinBudget (w : World) : Prop :=
  ∀ k row, w.database.ingestionJobs.find k = some row →
    w.bodies k ≤ maxDeliveries ∧ row.job.attempts ≤ row.deliveryAttempts ∧
      row.job.attempts ≤ maxDeliveries ∧
      (maxDeliveries + 1 ≤ w.claims k → row.job.state.terminal = true)

/-- A job that is terminal in `w` has the same columns after any more events, and they do not
call the index sink for it. -/
def TerminalForGood (c : Components) (w : World) : Prop :=
  ∀ k row, w.database.ingestionJobs.find k = some row → row.job.state.terminal = true →
    ∀ more, Settled k row.job (w.sinkCalls k) (Machine.run (World.step c) w more)

/-- **The delivery budget and the terminality of jobs.** Along every run of the worker, with
any submissions, deliveries, faults and crashes, the jobs stay within their budget, and a
terminal job keeps its columns and is never passed to the index sink again. -/
theorem deliveries_bounded (c : Components) (es : List WorkerEvent) :
    WithinBudget (Machine.run (World.step c) {} es) ∧
      TerminalForGood c (Machine.run (World.step c) {} es) := by
  constructor
  · intro k row hrow
    have hjob := (run_budgeted (c := c) es).job k row hrow
    refine ⟨hjob.bodies, hjob.attempts, hjob.attempts_max, fun hclaims => ?_⟩
    by_contra hopen
    obtain ⟨hcount, -, hbound, -⟩ := hjob.pending (Bool.eq_false_iff.2 hopen)
    omega
  · intro k row hrow hterm more
    exact settled_run hterm ⟨⟨row, hrow, rfl⟩, rfl⟩ more

/-- The deliveries of the job that do not find its lock taken. -/
def deliveriesOf (k : String × String) (es : List WorkerEvent) : ℕ :=
  es.countP fun event =>
    match event.action with
    | .deliver tenantId jobId => (tenantId, jobId) = k && !event.faults.busy
    | _ => false

/-- A delivery whose worker dies before its claim commits. -/
def dyingDelivery : WorkerEvent where
  action := .deliver "tenant" "uuu"
  faults := { fault := fun operation => if operation = .claimCommit then some .crash else none }

/-- A delivery that dies before its claim has committed is not counted by anything: after
any number of them the job is still queued. -/
theorem uncommitted_claims_not_counted : ¬ ∀ es k row,
    (Machine.run (World.step sampleComponents) {} es).database.ingestionJobs.find k = some row →
      maxDeliveries + 1 ≤ deliveriesOf k es → row.job.state.terminal = true := by
  intro h
  let es : List WorkerEvent :=
    ⟨.submit (sampleEvent "a" 1), {}, 0⟩ :: List.replicate (maxDeliveries + 1) dyingDelivery
  have hqueued : ((Machine.run (World.step sampleComponents) {} es).database.ingestionJobs.find
      ("tenant", "uuu")).map (fun row => row.job.state) = some .queued := by
    decide +kernel
  obtain ⟨row, hrow, hstate⟩ := Option.map_eq_some_iff.1 hqueued
  have hterm := h es ("tenant", "uuu") row hrow (by decide +kernel)
  rw [hstate] at hterm
  cases hterm

end GroundedOps.Ingestion
