import GroundedOps.Lib.Machine
import GroundedOps.Spec.Pipeline

/-!
# The ingestion worker

`submit_event`, `recover_pending` and `run_job` of `grounded_ops/worker.py`.

`World.step` is one of these, with everything that may go wrong in it. Deliveries of one
job exclude each other by the advisory lock. Those of jobs of one source overlap up to
`submit`, which takes the row lock of the source until the transaction ends; what a
delivery reads before is its own job and what never changes (the policy of the source is
the exception, and has a model of its own), so whole deliveries may be taken as steps.
-/

namespace GroundedOps.Ingestion

open Hoare

/-- `MAX_DELIVERIES` -/
def maxDeliveries : ℕ := 3

/-- What `run_job` returns. -/
inductive JobResult
  | busy
  | state (state : JobState)
  deriving DecidableEq, Repr

variable (c : Components) (faults : Faults)

/-- `queue.publish` -/
def publish (key : String × String) : Step Unit :=
  request faults .publish .exception fun w => { w with queue := w.queue ++ [key] }

def submitEvent (event : SourceEvent) : Step IngestionJob := do
  if event.kind ∉ [.new, .changed, .unchanged] then throw .pipelineInput
  let content ← orRaise .pipelineInput event.content
  let _ ← DocumentStore.put c.platform faults .putRaw event.source.tenantId .raw content
  let submission ← transaction faults .commit <|
    IngestionRepository.submit c.platform faults event.source event.canonicalKey
      event.sourceVersion (c.platform.sha256 content) event.sourceTimestamp parserVersion
  observe (.submitted event)
  if !submission.job.state.terminal then
    publish faults (event.source.tenantId, submission.job.id)
    transaction faults .markDispatched do
      let w ← get
      writeDatabase { w.database with
        ingestionJobs := w.database.ingestionJobs.markDispatched event.source.tenantId
          submission.job.id w.now }
  return submission.job

def recoverPending (limit : ℕ := 100) : Step ℕ := do
  let pending ← transaction faults .claimCommit do
    if ¬ (1 ≤ limit ∧ limit ≤ 1000) then throw .value
    let w ← get
    let (keys, ingestionJobs) := w.database.ingestionJobs.claimRecoveryBatch limit w.now
    writeDatabase { w.database with ingestionJobs }
    return keys
  pending.forM (publish faults)
  return pending.length

/-- The first transaction of `run_job`: `none` if the body is to run. -/
def claim (tenantId jobId : String) : Step (Option JobState) :=
  transaction faults .claimCommit do
    reach faults .claim
    let db ← readDatabase
    match db.ingestionJobs.claimDelivery tenantId jobId with
    | none =>
      let job ← orRaise .pipelineInput (db.getJob tenantId jobId)
      return some job.state
    | some (deliveries, ingestionJobs) =>
      writeDatabase { db with ingestionJobs }
      if maxDeliveries < deliveries then
        writeDatabase { db with ingestionJobs := ingestionJobs.failLostDelivery tenantId jobId }
        return some .failed
      else return none

/-- The event that `run_job` resumes with. -/
def DeliveryRecord.event (delivery : DeliveryRecord) (content : ByteArray) : SourceEvent where
  kind := .new
  source := delivery.source
  canonicalKey := delivery.canonicalKey
  sourceVersion := delivery.sourceVersion
  sourceTimestamp := delivery.sourceTimestamp
  content := some content

/-- The second transaction of `run_job`. -/
def body (tenantId jobId : String) : Step JobState :=
  transaction faults .commit do
    reach faults .getDelivery
    let delivery ← orRaise .pipelineInput ((← readDatabase).getDelivery tenantId jobId)
    reach faults .getArtifact .artifactFailure
    let content ← DocumentStore.get c.platform ⟨tenantId, .raw, delivery.contentHash⟩
    let outcome ← IngestionPipeline.resume c faults maxDeliveries tenantId jobId
      (delivery.event content)
    return outcome.kind

/-- The third transaction of `run_job`, after any `Exception` of the second. -/
def recordError (tenantId jobId : String) : Step JobState := do
  let job ← transaction faults .errorCommit do
    reach faults .recordError
    let db ← readDatabase
    let db := { db with
      ingestionJobs := db.ingestionJobs.recordWorkerError tenantId jobId maxDeliveries }
    writeDatabase db
    return db.getJob tenantId jobId
  return (← orRaise .pipelineInput job).state

def runJob (tenantId jobId : String) : Step JobResult := do
  if faults.busy then return .busy
  let claimed ← claim faults tenantId jobId
  observe (.claimed tenantId jobId)
  match claimed with
  | some state => return .state state
  | none =>
    observe (.body tenantId jobId)
    let state ← tryCatch (body c faults tenantId jobId) fun raised =>
      if raised = .crash then throw .crash else recordError faults tenantId jobId
    return .state state

/-! ## Runs -/

inductive WorkerAction
  | submit (event : SourceEvent)
  | deliver (tenantId jobId : String)
  | recover (limit : ℕ)

/-- An action, what goes wrong in it, and the time at which it runs. -/
structure WorkerEvent where
  action : WorkerAction
  faults : Faults := {}
  now : ℤ := 0

def WorkerEvent.perform (event : WorkerEvent) : Step Unit :=
  match event.action with
  | .submit source => do let _ ← submitEvent c event.faults source
  | .deliver tenantId jobId => do let _ ← runJob c event.faults tenantId jobId
  | .recover limit => do let _ ← recoverPending event.faults limit

/-- The world after an event, whether or not it raised. -/
def World.step (w : World) (event : WorkerEvent) : World :=
  (exec (event.perform c) { w with now := event.now }).2

end GroundedOps.Ingestion
