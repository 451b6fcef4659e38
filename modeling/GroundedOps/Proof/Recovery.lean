import GroundedOps.Lib.Backlog
import GroundedOps.Proof.Consistency
import GroundedOps.Proof.Deliveries

/-!
# The recovery of lost jobs

A job whose message was lost has no worker that knows of it; only `recover_pending` finds it
again, the longest waiting first and so many at a time, while others are submitted, delivered
and recovered.

* `recovery_done`: what a recovery claims and queues.
* `step_dispatches`: what one event of the worker does to the dispatches of all jobs.
* `recovery_reaches`: **no job starves**: once the recoveries have claimed more than there were
  jobs ahead of it, it is queued or over.
* `recoveries_spaced`: **a job that has been dispatched is left alone for a minute**, in every run.
-/

namespace GroundedOps.Ingestion

open Hoare

variable {c : Components} {faults : Faults} {tenantId jobId : String} {w w' w₁ w₂ : World}
  {k : String × String} {row row' other : JobRow} {jobs jobs' : IngestionJobs}

/-! ## The order of recovery -/

theorem recoveryLe_total (a b : JobRow) : (a.recoveryLe b || b.recoveryLe a) = true := by
  unfold JobRow.recoveryLe
  cases a.dispatchedAt <;> cases b.dispatchedAt <;> simp <;> omega

theorem recoveryLe_trans (a b d : JobRow) (hab : a.recoveryLe b = true)
    (hbd : b.recoveryLe d = true) : a.recoveryLe d = true := by
  unfold JobRow.recoveryLe at hab hbd ⊢
  cases ha : a.dispatchedAt <;> cases hb : b.dispatchedAt <;> cases hd : d.dispatchedAt <;>
    simp only [ha, hb, hd, Bool.or_eq_true, Bool.and_eq_true, beq_iff_eq, decide_eq_true_eq,
      Bool.false_eq_true] at hab hbd ⊢ <;> omega

theorem recoveryLe_of_eq (hd : row'.dispatchedAt = row.dispatchedAt)
    (hc : row'.createdAt = row.createdAt) : row'.recoveryLe other = row.recoveryLe other := by
  unfold JobRow.recoveryLe
  rw [hd, hc]

theorem recoveryLe_of_eq_right (hd : row'.dispatchedAt = row.dispatchedAt)
    (hc : row'.createdAt = row.createdAt) : other.recoveryLe row' = other.recoveryLe row := by
  unfold JobRow.recoveryLe
  rw [hd, hc]

/-- A job is due when it is not over, and its last dispatch is more than a minute old. -/
theorem due_iff {now : ℤ} : row.due now = true ↔ row.job.state.terminal = false ∧
    ∀ dispatched, row.dispatchedAt = some dispatched → dispatched < now - 60000000 := by
  unfold JobRow.due
  cases row.dispatchedAt <;> simp

/-- One that has just been dispatched is behind every job that was due. -/
theorem not_recoveryLe_of_dispatched {now₀ now : ℤ} (hdue : row.due now₀ = true) (hnow : now₀ ≤ now)
    (hother : other.dispatchedAt = some now) : ¬ other.recoveryLe row = true := by
  have hdispatched := (due_iff.1 hdue).2
  unfold JobRow.recoveryLe
  rw [hother]
  cases h : row.dispatchedAt with
  | none => simp
  | some dispatched =>
    have hlt : dispatched < now₀ - 60000000 := hdispatched dispatched h
    simp
    omega

/-- The jobs that are not over and that recovery takes before that of `row`. -/
def IngestionJobs.ahead (jobs : IngestionJobs) (row : JobRow) : Finset (String × String) :=
  ((jobs.rows.filter fun other => !other.job.state.terminal && (other.pk != row.pk) &&
    other.recoveryLe row).map JobRow.pk).toFinset

theorem mem_ahead : k ∈ jobs.ahead row ↔ ∃ other, jobs.find k = some other ∧
    other.job.state.terminal = false ∧ k ≠ row.pk ∧ other.recoveryLe row = true := by
  unfold IngestionJobs.ahead
  simp only [List.mem_toFinset, List.mem_map, List.mem_filter, Bool.and_eq_true,
    Bool.not_eq_true', bne_iff_ne]
  constructor
  · rintro ⟨other, ⟨hmem, ⟨hopen, hne⟩, hle⟩, rfl⟩
    exact ⟨other, Table.find_of_mem hmem, hopen, hne, hle⟩
  · rintro ⟨other, hfind, hopen, hne, hle⟩
    obtain ⟨hmem, rfl⟩ := Table.find_eq_some.1 hfind
    exact ⟨other, ⟨hmem, ⟨hopen, hne⟩, hle⟩, rfl⟩

/-! ## The batch -/

/-- The jobs that a recovery claims. -/
def IngestionJobs.batch (jobs : IngestionJobs) (limit : ℕ) (now : ℤ) : List JobRow :=
  Backlog.served JobRow.recoveryLe limit (jobs.rows.filter (·.due now))

theorem claimRecoveryBatch_keys {limit : ℕ} {now : ℤ} :
    (jobs.claimRecoveryBatch limit now).1 = (jobs.batch limit now).map JobRow.pk := rfl

theorem batch_nodup {limit : ℕ} {now : ℤ} : ((jobs.batch limit now).map JobRow.pk).Nodup := by
  refine Backlog.nodup_map_served ?_
  exact jobs.pk_nodup.sublist (List.filter_sublist.map JobRow.pk)

theorem due_of_mem_batch {limit : ℕ} {now : ℤ} (h : other ∈ jobs.batch limit now) :
    other ∈ jobs ∧ other.due now = true := by
  have hmem := Backlog.mem_of_mem_served h
  exact List.mem_filter.1 hmem

/-- A search after a claim of a batch. -/
theorem find_claimed {limit : ℕ} {now : ℤ} : (jobs.claimRecoveryBatch limit now).2.find k =
    (jobs.find k).map fun row =>
      if row.pk ∈ (jobs.batch limit now).map JobRow.pk then { row with dispatchedAt := some now }
      else row := by
  unfold IngestionJobs.claimRecoveryBatch
  rw [Table.find_modify]
  rfl

/-- **What a recovery does**: with a limit in its bounds, and unless its claim is rolled back, it
claims a batch and queues it. -/
structure RecoveryDone (faults : Faults) (limit : ℕ) (w w' : World) : Prop where
  claimed : 1 ≤ limit ∧ limit ≤ 1000 → faults.fault .claimCommit = none →
    w'.database.ingestionJobs = (w.database.ingestionJobs.claimRecoveryBatch limit w.now).2
  queued : 1 ≤ limit ∧ limit ≤ 1000 → faults.fault .claimCommit = none →
    faults.fault .publish = none →
    w'.queue = w.queue ++ (w.database.ingestionJobs.batch limit w.now).map JobRow.pk
  refused : ¬ (1 ≤ limit ∧ limit ≤ 1000) ∨ faults.fault .claimCommit ≠ none →
    w'.database.ingestionJobs = w.database.ingestionJobs

theorem wp_publishBatch {keys : List (String × String)} : wp (keys.forM (publish faults))
    (fun _ w' => w'.database = w.database ∧ w'.queue = w.queue ++ keys)
    (fun _ w' => w'.database = w.database ∧ faults.fault .publish ≠ none) w := by
  induction keys generalizing w with
  | nil => exact ⟨rfl, (List.append_nil _).symm⟩
  | cons key keys ih =>
    show wp (publish faults key >>= fun _ => keys.forM (publish faults)) _ _ _
    rw [wp_bind, publish, wp_request]
    constructor
    · intro _
      refine wp_mono ih ?_ fun _ _ h => h
      rintro _ w' ⟨hdb, hqueue⟩
      exact ⟨hdb, by rw [hqueue, List.append_assoc]; rfl⟩
    · intro fault hfault
      have hfails : faults.fault .publish ≠ none := by
        rw [hfault]
        exact Option.some_ne_none fault
      split
      · exact ⟨rfl, hfails⟩
      · exact ⟨rfl, hfails⟩

/-- **A recovery** claims its batch in one transaction, and queues it when that has committed. -/
theorem wp_recoverPending {limit : ℕ} : wp (recoverPending faults limit)
    (fun _ w' => RecoveryDone faults limit w w') (fun _ w' => RecoveryDone faults limit w w') w := by
  rw [recoverPending, wp_bind, wp_transaction]
  dsimp only
  split
  · rename_i hlimit
    exact ⟨fun h => absurd h hlimit, fun h => absurd h hlimit, fun _ => rfl⟩
  · rename_i hlimit
    have hbounds : 1 ≤ limit ∧ limit ≤ 1000 := not_not.1 hlimit
    simp only [wp_bind, Hoare.wp_get, wp_writeDatabase, wp_pure]
    constructor
    · intro hcommit
      have hlost : ¬ (1 ≤ limit ∧ limit ≤ 1000) ∨ faults.fault .claimCommit ≠ none → False := by
        rintro (h | h)
        · exact h hbounds
        · exact h hcommit
      refine wp_mono wp_publishBatch ?_ ?_
      · rintro _ w' ⟨hdb, hqueue⟩
        exact ⟨fun _ _ => by rw [hdb], fun _ _ _ => hqueue, fun h => (hlost h).elim⟩
      · rintro _ w' ⟨hdb, hfails⟩
        exact ⟨fun _ _ => by rw [hdb], fun _ _ h => absurd h hfails, fun h => (hlost h).elim⟩
    · intro fault hfault
      have hfails : faults.fault .claimCommit ≠ none := by
        rw [hfault]
        exact Option.some_ne_none fault
      exact ⟨fun _ h => absurd h hfails, fun _ h => absurd h hfails, fun _ => rfl⟩

theorem recovery_done {limit : ℕ} {now : ℤ} :
    RecoveryDone faults limit { w with now } (w.step c ⟨.recover limit, faults, now⟩) := by
  refine wp_state (P := RecoveryDone faults limit { w with now }) ?_
  rw [WorkerEvent.perform, wp_bind]
  exact wp_recoverPending

/-! ## What does not dispatch -/

/-- The dispatches of the jobs, and the times at which these were made, have not moved. -/
def SameDispatch (jobs jobs' : IngestionJobs) : Prop :=
  ∀ k, ∃ f : JobRow → JobRow,
    (∀ row, (f row).createdAt = row.createdAt ∧ (f row).dispatchedAt = row.dispatchedAt) ∧
      jobs'.find k = (jobs.find k).map f

theorem SameDispatch.refl (jobs : IngestionJobs) : SameDispatch jobs jobs :=
  fun _ => ⟨id, fun _ => ⟨rfl, rfl⟩, by rw [Option.map_id]; rfl⟩

theorem SameDispatch.trans {jobs'' : IngestionJobs} (h : SameDispatch jobs jobs')
    (h' : SameDispatch jobs' jobs'') : SameDispatch jobs jobs'' := by
  intro k
  obtain ⟨f, hf, hfind⟩ := h k
  obtain ⟨g, hg, hfind'⟩ := h' k
  refine ⟨g ∘ f, fun row => ?_, by rw [hfind', hfind, Option.map_map]⟩
  have hfirst := hf row
  have hsecond := hg (f row)
  exact ⟨hsecond.1.trans hfirst.1, hsecond.2.trans hfirst.2⟩

theorem sameDispatch_update {f : JobRow → JobRow} {hp : ∀ row, (f row).pk = row.pk}
    {hu : ∀ row, (f row).unique = row.unique}
    (hf : ∀ row, (f row).createdAt = row.createdAt ∧ (f row).dispatchedAt = row.dispatchedAt) :
    SameDispatch jobs (jobs.update tenantId jobId f hp hu) := by
  intro k
  unfold IngestionJobs.update
  rw [Table.find_modify]
  refine ⟨_, fun row => ?_, rfl⟩
  split
  · exact hf row
  · exact ⟨rfl, rfl⟩

theorem sameDispatch_recordWorkerError {maxAttempts : ℕ} :
    SameDispatch jobs (jobs.recordWorkerError tenantId jobId maxAttempts) := by
  refine sameDispatch_update fun row => ?_
  unfold JobRow.workerError
  split
  · exact ⟨rfl, rfl⟩
  · exact ⟨rfl, rfl⟩

theorem sameDispatch_failLostDelivery :
    SameDispatch jobs (jobs.failLostDelivery tenantId jobId) := by
  refine sameDispatch_update fun row => ?_
  unfold JobRow.failLost
  split
  · exact ⟨rfl, rfl⟩
  · exact ⟨rfl, rfl⟩

theorem sameDispatch_claimDelivery {deliveries : ℕ}
    (h : jobs.claimDelivery tenantId jobId = some (deliveries, jobs')) : SameDispatch jobs jobs' := by
  obtain ⟨row, -, -, -, rfl⟩ := claimDelivery_eq h
  exact sameDispatch_update fun _ => ⟨rfl, rfl⟩

/-- A resumed job is submitted again, as the job that it is: no other is inserted. -/
theorem Resumed.same_jobs {record : DeliveryRecord} {content : ByteArray} {s : Submission}
    (h : Resumed c faults tenantId jobId w w₁ record content row s) :
    w₁.database.ingestionJobs = w.database.ingestionJobs := by
  rcases Table.insertNew_cases h.submitted.jobs with ⟨hsame, -⟩ | ⟨hrows, -, hfresh⟩
  · exact hsame
  -- the inserted job would be the one that is resumed, which has its key
  obtain ⟨row', hmem', hjob, hunique⟩ := h.submitted.job
  have hinserted : newJob c.platform record.source.tenantId s.document.id record.sourceVersion
      s.version.id (w.uuids + 2) w.now ∈ w₁.database.ingestionJobs := by
    rw [← Table.mem_rows, hrows]
    exact List.mem_append_right _ List.mem_cons_self
  have hsame : row' = newJob c.platform record.source.tenantId s.document.id record.sourceVersion
      s.version.id (w.uuids + 2) w.now := Table.eq_of_uk hmem' hinserted hunique
  have hid : (newJob c.platform record.source.tenantId s.document.id record.sourceVersion
      s.version.id (w.uuids + 2) w.now).job.id = jobId := by
    rw [← hsame, hjob]
    exact h.job
  obtain ⟨hmem, hpk⟩ := Table.find_eq_some.1 h.row
  obtain ⟨row₀, version, document, hrow₀, hrows₀, -, hspk, -⟩ := getDelivery_eq h.delivery
  obtain rfl : row = row₀ := Option.some.inj (h.row.symm.trans hrow₀)
  have hrow : row.job.tenantId = tenantId := congrArg Prod.fst hpk
  have hversion : version.tenantId = row.job.tenantId := congrArg Prod.fst hrows₀.version_pk
  have hdocument : document.tenantId = version.tenantId := congrArg Prod.fst hrows₀.document_pk
  have hsource : record.source.tenantId = document.tenantId := congrArg Prod.fst hspk
  have htenant : record.source.tenantId = tenantId := by rw [hsource, hdocument, hversion, hrow]
  refine absurd ?_ (hfresh row hmem)
  rw [hpk]
  exact Prod.ext htenant.symm hid.symm

/-- **A delivery dispatches no job**, and makes none. -/
theorem delivery_sameDispatch (h : Delivery c faults tenantId jobId w w') :
    SameDispatch w.database.ingestionJobs w'.database.ingestionJobs := by
  cases h with
  | idle database quiet => rw [database]; exact .refl _
  | terminal row hrow state database index uuids log => rw [database]; exact .refl _
  | lost deliveries jobs claim lost database index uuids log =>
    rw [database]
    exact (sameDispatch_claimDelivery claim).trans sameDispatch_failLostDelivery
  | committed deliveries jobs claim bound passed free body =>
    have hclaimed : SameDispatch w.database.ingestionJobs jobs := sameDispatch_claimDelivery claim
    obtain ⟨w₁, record, content, row, s, hresumed, hend⟩ := body.returned
    have hjobs : w₁.database.ingestionJobs = jobs := hresumed.same_jobs
    rw [← hjobs] at hclaimed
    cases hend with
    | terminal _ hw => rw [hw]; exact hclaimed
    | completed job' same state attempts current saved _ _ _ _ =>
      rw [saved.jobs]
      exact hclaimed.trans (sameDispatch_update fun _ => ⟨rfl, rfl⟩)
    | attempted job' attempted current saved _ =>
      rw [saved.jobs]
      exact hclaimed.trans (sameDispatch_update fun _ => ⟨rfl, rfl⟩)
  | aborted deliveries jobs claim bound passed free body database =>
    have hclaimed : SameDispatch w.database.ingestionJobs jobs := sameDispatch_claimDelivery claim
    rcases database with hdb | hdb
    · rw [hdb]; exact hclaimed
    · rw [hdb]; exact hclaimed.trans sameDispatch_recordWorkerError

/-! ## One event -/

/-- Unless it fails to publish, the event has put the job on the queue. -/
def Queued (faults : Faults) (w w' : World) (k : String × String) : Prop :=
  faults.fault .publish = none → ∃ more, w'.queue = w.queue ++ more ∧ k ∈ more

/-- **What one event does to the dispatches of the jobs**: a job that is there keeps its own or
has just been queued, and at most one job is new. -/
structure Dispatches (faults : Faults) (w w' : World) : Prop where
  kept : ∀ k row, w.database.ingestionJobs.find k = some row →
    ∃ row', w'.database.ingestionJobs.find k = some row' ∧ row'.createdAt = row.createdAt ∧
      (row'.dispatchedAt = row.dispatchedAt ∨
        row'.dispatchedAt = some w.now ∧ Queued faults w w' k)
  created : ∀ k row', w.database.ingestionJobs.find k = none →
    w'.database.ingestionJobs.find k = some row' →
      row'.createdAt = w.now ∧ ∀ dispatched, row'.dispatchedAt = some dispatched → dispatched = w.now
  single : ∃ k₀, ∀ k, w.database.ingestionJobs.find k = none →
    w'.database.ingestionJobs.find k ≠ none → k = k₀

theorem SameDispatch.none (h : SameDispatch jobs jobs') (hk : jobs.find k = none) :
    jobs'.find k = none := by
  obtain ⟨f, -, hfind⟩ := h k
  rw [hfind, hk]
  rfl

theorem Dispatches.of_same
    (h : SameDispatch w.database.ingestionJobs w'.database.ingestionJobs) :
    Dispatches faults w w' := by
  have hnone : ∀ k, w.database.ingestionJobs.find k = none →
      w'.database.ingestionJobs.find k = none := fun _ => h.none
  refine ⟨fun k row hrow => ?_, fun k row' hk hrow' => ?_, ⟨("", ""), fun k hk hnew => ?_⟩⟩
  · obtain ⟨f, hf, hfind⟩ := h k
    exact ⟨f row, by rw [hfind, hrow]; rfl, (hf row).1, Or.inl (hf row).2⟩
  · rw [hnone k hk] at hrow'
    cases hrow'
  · exact absurd (hnone k hk) hnew

theorem Dispatches.of_jobs (h : w'.database.ingestionJobs = w.database.ingestionJobs) :
    Dispatches faults w w' :=
  .of_same (h ▸ .refl _)

/-- What is marked after an event has just been queued by it, if it publishes at all. -/
theorem Dispatches.marked (h : Dispatches faults w w₁) {p : JobRow → Prop} [DecidablePred p]
    (hfind : ∀ k, w'.database.ingestionJobs.find k = (w₁.database.ingestionJobs.find k).map
      fun row => if p row then { row with dispatchedAt := some w.now } else row)
    (hsame : w₁.queue = w.queue)
    (hqueue : faults.fault .publish = none → ∃ more, w'.queue = w.queue ++ more ∧
      ∀ k row, w₁.database.ingestionJobs.find k = some row → p row → k ∈ more) :
    Dispatches faults w w' := by
  have hnone : ∀ k, w₁.database.ingestionJobs.find k = none →
      w'.database.ingestionJobs.find k = none := by
    intro k hk
    rw [hfind, hk]
    rfl
  refine ⟨fun k row hrow => ?_, fun k row' hk hrow' => ?_, ?_⟩
  · obtain ⟨row₁, hrow₁, hcreated, hdispatched⟩ := h.kept k row hrow
    by_cases hp : p row₁
    · refine ⟨{ row₁ with dispatchedAt := some w.now }, ?_, hcreated, Or.inr ⟨rfl, ?_⟩⟩
      · rw [hfind, hrow₁, Option.map_some, if_pos hp]
      · intro hpublish
        obtain ⟨more, hmore, hall⟩ := hqueue hpublish
        exact ⟨more, hmore, hall k row₁ hrow₁ hp⟩
    · refine ⟨row₁, ?_, hcreated, hdispatched.imp_right ?_⟩
      · rw [hfind, hrow₁, Option.map_some, if_neg hp]
      · rintro ⟨hnow, hqueued⟩
        refine ⟨hnow, fun hpublish => ?_⟩
        -- nothing had been queued before the mark
        obtain ⟨more, hmore, hk⟩ := hqueued hpublish
        rw [hsame] at hmore
        have hnil : more = [] := List.self_eq_append_right.1 hmore
        rw [hnil] at hk
        cases hk
  · cases hrow₁ : w₁.database.ingestionJobs.find k with
    | none => rw [hnone k hrow₁] at hrow'; cases hrow'
    | some row₁ =>
      obtain ⟨hcreated, hdispatched⟩ := h.created k row₁ hk hrow₁
      rw [hfind, hrow₁, Option.map_some] at hrow'
      split at hrow'
      · cases hrow'
        exact ⟨hcreated, fun dispatched hd => (Option.some.inj hd).symm⟩
      · cases hrow'
        exact ⟨hcreated, hdispatched⟩
  · obtain ⟨k₀, hk₀⟩ := h.single
    exact ⟨k₀, fun k hk hnew => hk₀ k hk fun hk₁ => hnew (hnone k hk₁)⟩

/-- **A recovery dispatches its batch.** -/
theorem RecoveryDone.dispatches {limit : ℕ} (h : RecoveryDone faults limit w w') :
    Dispatches faults w w' := by
  by_cases hlimit : 1 ≤ limit ∧ limit ≤ 1000
  swap
  · exact .of_jobs (h.refused (Or.inl hlimit))
  by_cases hcommit : faults.fault .claimCommit = none
  swap
  · exact .of_jobs (h.refused (Or.inr hcommit))
  have hstart : Dispatches faults w w := .of_jobs rfl
  refine hstart.marked (fun k => by rw [h.claimed hlimit hcommit, find_claimed]) rfl ?_
  intro hpublish
  refine ⟨_, h.queued hlimit hcommit hpublish, fun k row hrow hp => ?_⟩
  rwa [(Table.find_eq_some.1 hrow).2] at hp

/-! ### Submissions -/

/-- The clock and the queue have not moved. -/
structure Still (w w' : World) : Prop where
  now : w'.now = w.now
  queue : w'.queue = w.queue

theorem wp_put_still {operation : Operation} {kind : ArtifactKind} {content : ByteArray} :
    wp (DocumentStore.put c.platform faults operation tenantId kind content)
      (fun _ w' => w'.database = w.database ∧ Still w w')
      (fun _ w' => w'.database = w.database ∧ Still w w') w := by
  have hput : ∀ reference : ArtifactRef,
      (DocumentStore.putObject reference content w).database = w.database ∧
        Still w (DocumentStore.putObject reference content w) := by
    intro reference
    unfold DocumentStore.putObject
    split
    · exact ⟨rfl, rfl, rfl⟩
    · exact ⟨rfl, rfl, rfl⟩
  simp only [DocumentStore.put]
  split
  · exact ⟨rfl, rfl, rfl⟩
  · simp only [wp_bind, wp_request, wp_pure]
    refine ⟨fun _ => ?_, fun fault _ => ?_⟩
    · exact DocumentStore.wp_getObject (fun _ _ => hput _) (hput _)
    · split
      · exact hput _
      · exact ⟨rfl, rfl, rfl⟩

theorem wp_submit_still {source : Source} {canonicalKey sourceVersion contentHash version : String}
    {stamp : ℤ} :
    wp (IngestionRepository.submit c.platform faults source canonicalKey sourceVersion contentHash
        stamp version)
      (fun _ w' => Still w w') (fun _ w' => Still w w') w := by
  have hstill : ∀ k database, Still w { w with database, uuids := w.uuids + k } :=
    fun _ _ => ⟨rfl, rfl⟩
  simp only [IngestionRepository.submit, IngestionRepository.insertDocument,
    IngestionRepository.insertVersion, IngestionRepository.insertJob, wp_bind, wp_reach, wp_uuid4,
    wp_orRaise, wp_readDatabase, wp_writeDatabase]
  refine ⟨fun _ => ⟨fun _ _ => ⟨fun _ _ => ?_, fun _ => hstill 2 _⟩, fun _ => hstill 1 _⟩,
    fun _ _ => hstill 0 _⟩
  refine ⟨fun _ _ => ⟨fun _ _ => ?_, fun _ => hstill 2 _⟩, fun _ => hstill 2 _⟩
  refine ⟨fun _ _ => ⟨fun _ _ => ?_, fun _ => hstill 2 _⟩, fun _ => hstill 2 _⟩
  split
  · exact hstill 2 _
  · simp only [wp_bind, wp_uuid4, Hoare.wp_get, wp_readDatabase, wp_writeDatabase, wp_orRaise,
      wp_pure]
    refine ⟨fun _ _ => ⟨fun _ _ => hstill 3 _, fun _ => hstill 3 _⟩, fun _ => hstill 3 _⟩

/-- A submission that has committed makes at most one job, just now, and dispatches no other. -/
theorem Submitted.dispatches {P : Platform} {args : SubmitArgs} {s : Submission}
    (h : Submitted P args w₁ w₂ s) (hdb : w₁.database = w.database) (hnow : w₁.now = w.now)
    (hjobs : w'.database.ingestionJobs = w₂.database.ingestionJobs) : Dispatches faults w w' := by
  have hnew : ∀ k row', w.database.ingestionJobs.find k = none →
      w'.database.ingestionJobs.find k = some row' → row' = newJob P args.source.tenantId s.document.id
        args.sourceVersion s.version.id (w₁.uuids + 2) w₁.now ∧ row'.pk = k := by
    intro k row' hnone hrow'
    rw [hjobs] at hrow'
    obtain ⟨hmem, hk⟩ := Table.find_eq_some.1 hrow'
    rcases h.mem_jobs hmem with hold | hnew
    · rw [← hdb, Table.find_eq_some.2 ⟨hold, hk⟩] at hnone
      cases hnone
    · exact ⟨hnew, hk⟩
  refine ⟨fun k row hrow => ⟨row, ?_, rfl, Or.inl rfl⟩, fun k row' hnone hrow' => ?_,
    ⟨(args.source.tenantId, P.uuid4 (w₁.uuids + 2)), fun k hnone hsome => ?_⟩⟩
  · rw [hjobs]
    exact h.find_job (hdb ▸ hrow)
  · obtain ⟨rfl, -⟩ := hnew k row' hnone hrow'
    exact ⟨hnow, fun dispatched hd => by cases hd⟩
  · obtain ⟨row', hrow'⟩ := Option.ne_none_iff_exists'.1 hsome
    obtain ⟨rfl, hk⟩ := hnew k row' hnone hrow'
    exact hk.symm

/-- **A submission** dispatches the job it publishes, and no other. -/
theorem wp_submitEvent_dispatches {event : SourceEvent} : wp (submitEvent c faults event)
    (fun _ w' => Dispatches faults w w') (fun _ w' => Dispatches faults w w') w := by
  have hrejected : ∀ {w'}, w'.database = w.database → Dispatches faults w w' :=
    fun hdb => .of_jobs (by rw [hdb])
  unfold submitEvent
  split
  · exact hrejected rfl
  simp only [wp_bind, wp_orRaise]
  refine ⟨fun content _ => ?_, fun _ => hrejected rfl⟩
  refine wp_mono wp_put_still ?_ fun _ _ h => hrejected h.1
  rintro _ w₁ ⟨hdb, hstill⟩
  rw [wp_transaction]
  have hspec : wp (IngestionRepository.submit c.platform faults event.source event.canonicalKey
      event.sourceVersion (c.platform.sha256 content) event.sourceTimestamp parserVersion) _ _ w₁ :=
    @wp_submit _ _ (event.args c.platform content) _ _
  refine wp_mono (wp_and hspec wp_submit_still) ?_ fun _ w₂ _ => hrejected hdb
  rintro s w₂ ⟨⟨hsubmitted, -⟩, hstill₂⟩
  refine ⟨fun _ => ?_, fun _ _ => hrejected hdb⟩
  -- the submission has committed: what follows may only mark its job
  have hnow : w₂.now = w.now := hstill₂.now.trans hstill.now
  have hqueue : w₂.queue = w.queue := hstill₂.queue.trans hstill.queue
  have hdone : ∀ {w' : World}, w'.database.ingestionJobs = w₂.database.ingestionJobs →
      Dispatches faults w w' := fun hjobs => hsubmitted.dispatches hdb hstill.now hjobs
  simp only [wp_observe]
  split
  · simp only [publish, wp_bind, wp_request, wp_transaction, Hoare.wp_get, wp_writeDatabase,
      wp_pure]
    refine ⟨fun _ => ⟨fun _ => ?_, fun _ _ => hdone rfl⟩, fun _ _ => ?_⟩
    · have hcommitted : Dispatches faults w w₂ := hdone rfl
      refine hcommitted.marked (p := fun row => row.pk = (event.source.tenantId, s.job.id) ∧
        row.job.state.terminal = false) (fun k => ?_) hqueue fun _ => ⟨_, by rw [← hqueue], ?_⟩
      · unfold IngestionJobs.markDispatched IngestionJobs.update
        rw [Table.find_modify, ← hnow]
        congr 1
        funext row
        by_cases hk : row.pk = (event.source.tenantId, s.job.id) <;>
          cases hterm : row.job.state.terminal <;> simp [hk, hterm]
      · rintro k row hrow ⟨hk, -⟩
        rw [← (Table.find_eq_some.1 hrow).2, hk]
        exact List.mem_singleton_self _
    · split <;> exact hdone rfl
  · exact hdone rfl

/-- **One event of the worker**, on the dispatches of all jobs. -/
theorem step_dispatches (w : World) (event : WorkerEvent) :
    Dispatches event.faults { w with now := event.now } (w.step c event) := by
  obtain ⟨action, faults, now⟩ := event
  cases action with
  | submit source =>
    refine wp_state (P := Dispatches faults { w with now }) ?_
    rw [WorkerEvent.perform, wp_bind]
    exact wp_submitEvent_dispatches
  | deliver tenantId jobId => exact .of_same (delivery_sameDispatch delivery_cases)
  | recover limit =>
    have hdone : RecoveryDone faults limit { w with now }
        (w.step c ⟨.recover limit, faults, now⟩) := recovery_done
    exact hdone.dispatches

theorem RowStep.over (h : RowStep w w' k row row') (hterm : row.job.state.terminal = true) :
    row'.job.state.terminal = true := by
  cases h with
  | aside job deliveries tally => rw [job]; exact hterm
  | terminal state job deliveries bodies sinkCalls => rw [job]; exact hterm
  | lost pending state deliveries attempts bodies => exact state
  | ran pending deliveries bound job claims bodies => rw [pending] at hterm; cases hterm

/-- What one event does to a job that is there. -/
theorem step_kept (event : WorkerEvent) (hrow : w.database.ingestionJobs.find k = some row) :
    ∃ row', (w.step c event).database.ingestionJobs.find k = some row' ∧
      row'.createdAt = row.createdAt ∧
      (row.job.state.terminal = true → row'.job.state.terminal = true) ∧
      (row'.dispatchedAt = row.dispatchedAt ∨ row'.dispatchedAt = some event.now ∧
        Queued event.faults w (w.step c event) k) := by
  obtain ⟨row', hrow', hcreated, hdispatched⟩ := (step_dispatches (c := c) w event).kept k row hrow
  obtain ⟨row'', hrow'', hstep⟩ := (row_step (c := c) w event).step k row hrow
  obtain rfl : row' = row'' := Option.some.inj (hrow'.symm.trans hrow'')
  exact ⟨row', hrow', hcreated, hstep.over, hdispatched⟩

/-! ## No job starves -/

/-- The jobs that an event claims at most for recovery, and does if as many are due. -/
def WorkerEvent.serves (event : WorkerEvent) : ℕ :=
  match event.action with
  | .recover limit =>
    if (1 ≤ limit ∧ limit ≤ 1000) ∧ (event.faults.fault .claimCommit).isNone then limit else 0
  | _ => 0

/-- The jobs that an event may put ahead of one: a submission that is not dispatched comes before
every job that has been. -/
def WorkerEvent.overtakes (event : WorkerEvent) (row : JobRow) : ℕ :=
  match event.action with
  | .submit _ => if row.dispatchedAt.isSome then 1 else 0
  | _ => 0

/-- The event finds the job over, or puts it on the queue. -/
def WorkerEvent.requeues (c : Components) (event : WorkerEvent) (w : World)
    (k : String × String) : Prop :=
  ∃ row, (w.step c event).database.ingestionJobs.find k = some row ∧
    (row.job.state.terminal = true ∨ row.dispatchedAt = some event.now ∧
      (event.faults.fault .publish = none →
        ∃ more, (w.step c event).queue = w.queue ++ more ∧ k ∈ more))

/-- The job waits as it did when it had the row `row`. -/
def Waits (row : JobRow) (w : World) : Prop :=
  ∃ row', w.database.ingestionJobs.find row.pk = some row' ∧ row'.createdAt = row.createdAt ∧
    row'.dispatchedAt = row.dispatchedAt ∧ row'.job.state.terminal = false

section Waiting

variable {now₀ : ℤ} {event : WorkerEvent}

/-- A job waits on, or the event reaches it. -/
theorem waits_step (event : WorkerEvent) (hwaits : Waits row w) :
    event.requeues c w row.pk ∨ Waits row (w.step c event) := by
  obtain ⟨row₁, hrow₁, hcreated₁, hdispatched₁, -⟩ := hwaits
  obtain ⟨row₂, hrow₂, hcreated₂, -, hdispatched₂⟩ := step_kept (c := c) event hrow₁
  cases hterm : row₂.job.state.terminal with
  | true => exact Or.inl ⟨row₂, hrow₂, Or.inl hterm⟩
  | false =>
    rcases hdispatched₂ with hsame | ⟨hnow, hqueued⟩
    · exact Or.inr ⟨row₂, hrow₂, hcreated₂.trans hcreated₁, hsame.trans hdispatched₁, hterm⟩
    · exact Or.inl ⟨row₂, hrow₂, Or.inr ⟨hnow, hqueued⟩⟩

/-- Who is ahead after an event was so before, or has just been submitted and not dispatched. -/
theorem ahead_step (hdue : row.due now₀ = true) (hnow : now₀ ≤ event.now)
    (hcreated : row.createdAt < event.now)
    (hk : k ∈ (w.step c event).database.ingestionJobs.ahead row) :
    k ∈ w.database.ingestionJobs.ahead row ∨
      w.database.ingestionJobs.find k = none ∧ row.dispatchedAt.isSome = true := by
  obtain ⟨other', hother', hopen, hne, hle⟩ := mem_ahead.1 hk
  cases hother : w.database.ingestionJobs.find k with
  | some other =>
    left
    obtain ⟨row', hrow', hcreated', hover, hdispatched⟩ := step_kept (c := c) event hother
    obtain rfl : other' = row' := Option.some.inj (hother'.symm.trans hrow')
    have hpending : other.job.state.terminal = false := by
      by_contra h
      rw [hover (Bool.not_eq_false _ ▸ h)] at hopen
      cases hopen
    rcases hdispatched with hsame | ⟨hjust, -⟩
    · exact mem_ahead.2 ⟨other, hother, hpending, hne, by rwa [← recoveryLe_of_eq hsame hcreated']⟩
    · exact absurd hle (not_recoveryLe_of_dispatched hdue hnow hjust)
  | none =>
    right
    refine ⟨rfl, ?_⟩
    obtain ⟨hnew, hdispatched⟩ := (step_dispatches (c := c) w event).created k other' hother hother'
    cases hd : row.dispatchedAt with
    | some dispatched => rfl
    | none =>
      -- a job that was never dispatched is older than one that is submitted now
      exfalso
      unfold JobRow.recoveryLe at hle
      rw [hd] at hle
      have hnew' : other'.createdAt = event.now := hnew
      cases hd' : other'.dispatchedAt with
      | none =>
        rw [hd'] at hle
        simp at hle
        omega
      | some dispatched =>
        rw [hd'] at hle
        simp at hle

/-- Only a submission makes a job. -/
theorem submit_of_created (hnone : w.database.ingestionJobs.find k = none)
    (hnew : (w.step c event).database.ingestionJobs.find k ≠ none) :
    ∃ source, event.action = .submit source := by
  obtain ⟨action, faults, now⟩ := event
  cases action with
  | submit source => exact ⟨source, rfl⟩
  | deliver tenantId jobId =>
    have hdelivery : Delivery c faults tenantId jobId { w with now }
        (w.step c ⟨.deliver tenantId jobId, faults, now⟩) := delivery_cases
    exact absurd ((delivery_sameDispatch hdelivery).none hnone) hnew
  | recover limit =>
    refine absurd ?_ hnew
    have hdone : RecoveryDone faults limit { w with now }
        (w.step c ⟨.recover limit, faults, now⟩) := recovery_done
    by_cases hclaims : (1 ≤ limit ∧ limit ≤ 1000) ∧ faults.fault .claimCommit = none
    · rw [hdone.claimed hclaims.1 hclaims.2, find_claimed]
      show (w.database.ingestionJobs.find k).map _ = none
      rw [hnone]
      rfl
    · rw [hdone.refused (not_and_or.1 hclaims)]
      exact hnone

/-- An event puts at most one job ahead of another, and only a submission does. -/
theorem ahead_card_step (hdue : row.due now₀ = true) (hnow : now₀ ≤ event.now)
    (hcreated : row.createdAt < event.now) :
    ((w.step c event).database.ingestionJobs.ahead row).card ≤
      (w.database.ingestionJobs.ahead row).card + event.overtakes row := by
  by_cases hnew : ∃ k, w.database.ingestionJobs.find k = none ∧
      (w.step c event).database.ingestionJobs.find k ≠ none ∧ row.dispatchedAt.isSome = true
  · obtain ⟨k₁, hnone₁, hsome₁, hdispatched⟩ := hnew
    obtain ⟨source, haction⟩ := submit_of_created hnone₁ hsome₁
    obtain ⟨k₀, hsingle⟩ := (step_dispatches (c := c) w event).single
    have hsubset : (w.step c event).database.ingestionJobs.ahead row ⊆
        insert k₀ (w.database.ingestionJobs.ahead row) := by
      intro k hk
      rcases ahead_step hdue hnow hcreated hk with hold | ⟨hnone, -⟩
      · exact Finset.mem_insert_of_mem hold
      · obtain ⟨other, hother, -⟩ := mem_ahead.1 hk
        have hsome : (w.step c event).database.ingestionJobs.find k ≠ none := by
          rw [hother]
          exact Option.some_ne_none other
        exact Finset.mem_insert.2 (Or.inl (hsingle k hnone hsome))
    have hone : event.overtakes row = 1 := by
      unfold WorkerEvent.overtakes
      rw [haction]
      exact if_pos hdispatched
    have hcard := Finset.card_le_card hsubset
    have hinsert := Finset.card_insert_le k₀ (w.database.ingestionJobs.ahead row)
    omega
  · have hsubset : (w.step c event).database.ingestionJobs.ahead row ⊆
        w.database.ingestionJobs.ahead row := by
      intro k hk
      rcases ahead_step hdue hnow hcreated hk with hold | ⟨hnone, hdispatched⟩
      · exact hold
      · obtain ⟨other, hother, -⟩ := mem_ahead.1 hk
        refine absurd ⟨k, hnone, ?_, hdispatched⟩ hnew
        rw [hother]
        exact Option.some_ne_none other
    have hcard := Finset.card_le_card hsubset
    omega

/-- **A recovery that does not reach a job claims a full batch of jobs ahead of it.** -/
theorem ahead_card_recovery {limit : ℕ} (hdue : row.due now₀ = true) (hnow : now₀ ≤ event.now)
    (hcreated : row.createdAt < event.now) (haction : event.action = .recover limit)
    (hlimit : 1 ≤ limit ∧ limit ≤ 1000) (hcommit : event.faults.fault .claimCommit = none)
    (hbefore : Waits row w) (hafter : Waits row (w.step c event)) :
    ((w.step c event).database.ingestionJobs.ahead row).card + limit ≤
      (w.database.ingestionJobs.ahead row).card := by
  obtain ⟨action, faults, now⟩ := event
  dsimp only at hnow hcreated haction hcommit
  subst haction
  have hdone : RecoveryDone faults limit { w with now }
      (w.step c ⟨.recover limit, faults, now⟩) := recovery_done
  have hjobs : (w.step c ⟨.recover limit, faults, now⟩).database.ingestionJobs =
      (w.database.ingestionJobs.claimRecoveryBatch limit now).2 := hdone.claimed hlimit hcommit
  obtain ⟨row₁, hrow₁, hcreated₁, hdispatched₁, hopen₁⟩ := hbefore
  obtain ⟨row₂, hrow₂, -, hdispatched₂, -⟩ := hafter
  obtain ⟨hmem₁, hpk₁⟩ := Table.find_eq_some.1 hrow₁
  have hlate : ∀ dispatched, row.dispatchedAt = some dispatched → dispatched < now - 60000000 := by
    intro dispatched hd
    have hlt := (due_iff.1 hdue).2 dispatched hd
    omega
  -- the job is due, and has not been claimed
  have hdue₁ : row₁ ∈ w.database.ingestionJobs.rows.filter (·.due now) :=
    List.mem_filter.2 ⟨hmem₁, due_iff.2 ⟨hopen₁, fun d hd => hlate d (hdispatched₁ ▸ hd)⟩⟩
  have hleft : row₁ ∉ w.database.ingestionJobs.batch limit now := by
    intro hin
    have hclaimed : row₁.pk ∈ (w.database.ingestionJobs.batch limit now).map JobRow.pk :=
      List.mem_map_of_mem hin
    rw [hjobs, find_claimed, hrow₁, Option.map_some, if_pos hclaimed] at hrow₂
    have hjust : some now = row.dispatchedAt := by
      rw [← hdispatched₂, ← Option.some.inj hrow₂]
    have hlt := hlate now hjust.symm
    omega
  -- so the batch is full, of jobs that were ahead of it and are not any more
  have hbatch : ∀ other ∈ w.database.ingestionJobs.batch limit now,
      other.pk ∈ w.database.ingestionJobs.ahead row := by
    intro other hin
    obtain ⟨hmem, hother⟩ := due_of_mem_batch hin
    have hle : other.recoveryLe row₁ = true :=
      Backlog.le_of_not_mem_served recoveryLe_trans recoveryLe_total hdue₁ hleft hin
    refine mem_ahead.2 ⟨other, Table.find_of_mem hmem, (due_iff.1 hother).1, ?_, ?_⟩
    · intro hpk
      have hsame : other = row₁ := Table.eq_of_pk hmem hmem₁ (hpk.trans hpk₁.symm)
      exact hleft (hsame ▸ hin)
    · rwa [recoveryLe_of_eq_right hdispatched₁ hcreated₁] at hle
  let keys : Finset (String × String) :=
    ((w.database.ingestionJobs.batch limit now).map JobRow.pk).toFinset
  have hkeys : keys ⊆ w.database.ingestionJobs.ahead row := by
    intro k hk
    obtain ⟨other, hin, rfl⟩ := List.mem_map.1 (List.mem_toFinset.1 hk)
    exact hbatch other hin
  have hcard : keys.card = limit := by
    rw [List.toFinset_card_of_nodup batch_nodup, List.length_map]
    exact Backlog.length_served_of_not_mem hdue₁ hleft
  have hsubset : (w.step c ⟨.recover limit, faults, now⟩).database.ingestionJobs.ahead row ⊆
      w.database.ingestionJobs.ahead row \ keys := by
    intro k hk
    obtain ⟨other', hother', -, -, hle⟩ := mem_ahead.1 hk
    rw [hjobs, find_claimed] at hother'
    obtain ⟨other, hother, hother''⟩ := Option.map_eq_some_iff.1 hother'
    have hunclaimed : k ∉ keys := by
      intro hin
      rw [(Table.find_eq_some.1 hother).2, if_pos (List.mem_toFinset.1 hin)] at hother''
      have hjust : other'.dispatchedAt = some now := by rw [← hother'']
      exact not_recoveryLe_of_dispatched hdue hnow hjust hle
    refine Finset.mem_sdiff.2 ⟨?_, hunclaimed⟩
    rcases ahead_step hdue hnow hcreated hk with hold | ⟨hnone, -⟩
    · exact hold
    · rw [hother] at hnone
      cases hnone
  have hless := Finset.card_le_card hsubset
  have hsum := Finset.card_sdiff_add_card_eq_card hkeys
  omega

/-- A job that waits is reached, or less is ahead of it by what is claimed. -/
theorem waiting_step (hdue : row.due now₀ = true) (hnow : now₀ ≤ event.now)
    (hcreated : row.createdAt < event.now) (hwaits : Waits row w) :
    event.requeues c w row.pk ∨ Waits row (w.step c event) ∧
      ((w.step c event).database.ingestionJobs.ahead row).card + event.serves ≤
        (w.database.ingestionJobs.ahead row).card + event.overtakes row := by
  rcases waits_step (c := c) event hwaits with hreached | hafter
  · exact Or.inl hreached
  refine Or.inr ⟨hafter, ?_⟩
  have hcard := ahead_card_step (c := c) (w := w) hdue hnow hcreated
  unfold WorkerEvent.serves
  split
  · rename_i limit haction
    split
    · rename_i hclaims
      obtain ⟨hlimit, hcommit⟩ := hclaims
      have hclaimed := ahead_card_recovery hdue hnow hcreated haction hlimit
        (Option.isNone_iff_eq_none.1 hcommit) hwaits hafter
      omega
    · exact hcard
  · exact hcard

end Waiting

/-- **No job starves**: in every run of submissions, deliveries and recoveries, whatever fails in
them, a job that is due is over, or is put on the queue, as soon as the recoveries have claimed
more jobs than were ahead of it and were submitted in between. -/
theorem recovery_reaches (c : Components) (w : World) (row : JobRow) (now₀ : ℤ)
    (es : List WorkerEvent) (hrow : row ∈ w.database.ingestionJobs) (hdue : row.due now₀ = true)
    (hclock : ∀ event ∈ es, now₀ ≤ event.now ∧ row.createdAt < event.now)
    (hserved : (w.database.ingestionJobs.ahead row).card +
        (es.map fun event => event.overtakes row).sum <
      (es.map WorkerEvent.serves).sum) :
    ∃ pre event, pre ++ [event] <+: es ∧
      event.requeues c (Machine.run (World.step c) w pre) row.pk := by
  have hwaits : Waits row w := ⟨row, Table.find_of_mem hrow, rfl, rfl, (due_iff.1 hdue).1⟩
  have hstep : ∀ w, ∀ event ∈ es, Waits row w → event.requeues c w row.pk ∨
      Waits row (w.step c event) ∧
        ((w.step c event).database.ingestionJobs.ahead row).card + event.serves ≤
          (w.database.ingestionJobs.ahead row).card + event.overtakes row := by
    intro w event hevent hwaits
    obtain ⟨hnow, hcreated⟩ := hclock event hevent
    exact waiting_step hdue hnow hcreated hwaits
  exact Machine.reached_of_potential (Waits row) (fun w event => event.requeues c w row.pk)
    (fun w => (w.database.ingestionJobs.ahead row).card) WorkerEvent.serves
    (fun event => event.overtakes row) hstep hwaits hserved

/-- A submission that dies before it is published, so that no worker hears of its job. -/
def lostSubmission : WorkerEvent where
  action := .submit (sampleEvent "a" 1)
  faults := { fault := fun operation => if operation = .publish then some .crash else none }

theorem lostSubmission_kept : ((World.step sampleComponents {} lostSubmission).database.ingestionJobs.find
    ("tenant", "uuu")).isSome = true := by
  decide +kernel

theorem recovery_reaches_lost : ∃ pre event,
    pre ++ [event] <+: [(⟨.recover 1, {}, 1⟩ : WorkerEvent)] ∧
      event.requeues sampleComponents
        (Machine.run (World.step sampleComponents) (World.step sampleComponents {} lostSubmission) pre)
        ("tenant", "uuu") := by
  have hrow := Table.find_eq_some.1 (Option.some_get lostSubmission_kept).symm
  have hreaches := recovery_reaches sampleComponents (World.step sampleComponents {} lostSubmission)
    (Option.get _ lostSubmission_kept) 0 [⟨.recover 1, {}, 1⟩] hrow.1 (by decide +kernel)
    (by decide +kernel) (by decide +kernel)
  rw [hrow.2] at hreaches
  exact hreaches

/-! ## Recoveries are spaced -/

/-- The event is a recovery that claims the job. -/
def WorkerEvent.recovers (event : WorkerEvent) (w : World) (k : String × String) : Bool :=
  match event.action with
  | .recover limit =>
    (1 ≤ limit && limit ≤ 1000) && (event.faults.fault .claimCommit).isNone &&
      (w.database.ingestionJobs.claimRecoveryBatch limit event.now).1.contains k
  | _ => false

/-- When the job was dispatched last. -/
def World.dispatchedAt (w : World) (k : String × String) : Option ℤ :=
  (w.database.ingestionJobs.find k).bind JobRow.dispatchedAt

theorem due_of_recovers {event : WorkerEvent} (h : event.recovers w k = true) :
    (∃ row, w.database.ingestionJobs.find k = some row ∧ row.due event.now = true) ∧
      (w.step c event).dispatchedAt k = some event.now := by
  obtain ⟨action, faults, now⟩ := event
  unfold WorkerEvent.recovers at h
  split at h
  · rename_i limit haction
    dsimp only at haction
    subst haction
    simp only [Bool.and_eq_true, decide_eq_true_eq, Option.isNone_iff_eq_none,
      List.contains_iff_mem] at h
    obtain ⟨⟨hlimit, hcommit⟩, hclaimed⟩ := h
    obtain ⟨row, hin, hpk⟩ := List.mem_map.1 (claimRecoveryBatch_keys ▸ hclaimed)
    obtain ⟨hmem, hdue⟩ := due_of_mem_batch hin
    have hrow : w.database.ingestionJobs.find k = some row := Table.find_eq_some.2 ⟨hmem, hpk⟩
    refine ⟨⟨row, hrow, hdue⟩, ?_⟩
    have hdone : RecoveryDone faults limit { w with now }
        (w.step c ⟨.recover limit, faults, now⟩) := recovery_done
    have hjobs : (w.step c ⟨.recover limit, faults, now⟩).database.ingestionJobs =
        (w.database.ingestionJobs.claimRecoveryBatch limit now).2 := hdone.claimed hlimit hcommit
    unfold World.dispatchedAt
    rw [hjobs, find_claimed, hrow, Option.map_some, if_pos (List.mem_map_of_mem hin)]
    rfl
  · cases h

/-- **Recoveries of one job are spaced**: in every run whose clock does not go back, they are no
more than the minutes that the run takes, and one. -/
theorem recoveries_spaced (c : Components) (w : World) (k : String × String)
    (es : List WorkerEvent) (start finish : ℤ) (hclock : es.Pairwise fun e e' => e.now ≤ e'.now)
    (hstart : ∀ event ∈ es, start ≤ event.now) (hfinish : ∀ event ∈ es, event.now ≤ finish)
    (hle : start ≤ finish) :
    (Machine.hits (World.step c) (fun w event => event.recovers w k) w es : ℤ) * 60000000 ≤
      finish - start + 60000000 := by
  refine Machine.hits_spaced WorkerEvent.now (fun w => w.dispatchedAt k) ?_ ?_ ?_ hclock hstart
    hfinish hle
  · intro w event hhit t hmark
    obtain ⟨⟨row, hrow, hdue⟩, -⟩ := due_of_recovers (c := c) hhit
    have hdispatched : row.dispatchedAt = some t := by
      simpa [World.dispatchedAt, hrow] using hmark
    have hlt := (due_iff.1 hdue).2 t hdispatched
    push_cast
    omega
  · intro w event hhit
    exact (due_of_recovers hhit).2
  · intro w event
    cases hrow : w.database.ingestionJobs.find k with
    | some row =>
      obtain ⟨row', hrow', -, -, hdispatched⟩ := step_kept (c := c) event hrow
      simp only [World.dispatchedAt, hrow, hrow', Option.bind_some]
      rcases hdispatched with hsame | ⟨hjust, -⟩
      · exact Or.inl hsame
      · exact Or.inr hjust
    | none =>
      cases hrow' : (w.step c event).database.ingestionJobs.find k with
      | none => exact Or.inl (by simp [World.dispatchedAt, hrow, hrow'])
      | some row' =>
        obtain ⟨-, hdispatched⟩ := (step_dispatches (c := c) w event).created k row' hrow hrow'
        simp only [World.dispatchedAt, hrow, hrow', Option.bind_some, Option.bind_none]
        cases hd : row'.dispatchedAt with
        | none => exact Or.inl rfl
        | some dispatched => exact Or.inr (congrArg some (hdispatched dispatched hd))

/-- A submission that is lost, and recovered twice. -/
def recoveredTwice : List WorkerEvent :=
  [lostSubmission, ⟨.recover 1, {}, 1⟩, ⟨.recover 1, {}, 2⟩, ⟨.recover 1, {}, 60000002⟩]

theorem recoveries_spaced_twice :
    Machine.hits (World.step sampleComponents) (fun w event => event.recovers w ("tenant", "uuu")) {}
        recoveredTwice = 2 ∧
      (Machine.hits (World.step sampleComponents) (fun w event => event.recovers w ("tenant", "uuu"))
        {} recoveredTwice : ℤ) * 60000000 ≤ 60000002 - 0 + 60000000 :=
  ⟨by decide +kernel, recoveries_spaced sampleComponents {} ("tenant", "uuu") recoveredTwice 0
    60000002 (by decide +kernel) (by decide +kernel) (by decide +kernel) (by decide)⟩

end GroundedOps.Ingestion
