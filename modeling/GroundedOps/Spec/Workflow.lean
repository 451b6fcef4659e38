import GroundedOps.Lib.Hoare
import GroundedOps.Spec.Investigation
import Mathlib.Data.Int.Log
import Mathlib.Data.Rat.Floor

/-!
# The investigation workflow

`InvestigationWorkflow` of `modules/investigation/workflow.py`: one node of a persisted
state machine at a time, with five budgets. Elapsed times are compared exactly; a reported
duration is what the arithmetic of doubles makes of it.

What a worker meets is `Collaborators`: its `n`-th interaction with its clock, planner,
tools, verifier or reporter. `Workflow` computations keep a trace of these interactions,
which no function reads; the name a clock reading has in it says which line took it.
-/

namespace GroundedOps.Investigation

open Hoare

/-! ## The world of a worker -/

/-- What a tool raises. -/
inductive ToolRaise
  /-- `InvestigationToolError` -/
  | toolError (code : ToolErrorCode)
  /-- any other exception -/
  | other
  deriving DecidableEq, Repr

/-- The collaborators of a worker at its `n`-th interaction with any of them. `none` is an
exception; a clock without timezone raises in `_now`. -/
structure Collaborators where
  clock : ℕ → Option ℤ
  plan : ℕ → InvestigationTask → Option PlanResult
  retrieve : ℕ → Principal → RetrieveRequest → Except ToolRaise EvidenceSet
  compareVersions : ℕ → Principal → CompareVersionsRequest → Except ToolRaise VersionComparison
  searchIncidents : ℕ → Principal → IncidentSearchRequest → Except ToolRaise (List IncidentRecord)
  verify : ℕ → InvestigationState → Option VerificationResult
  report : ℕ → InvestigationState → Option ReportResult

/-- The line that took a reading of the clock. -/
inductive ClockUse
  | created | started | budget | toolStarted | toolFinished | finished | updated
  deriving DecidableEq, Repr

/-- The costly actions. -/
inductive CostlyCall
  | planner | verifier | reporter
  | tool (name : String) (retrieval : Bool)
  deriving DecidableEq, Repr

inductive WorkflowEvent
  | nodeStarted (state : InvestigationState)
  | clockRead (use : ClockUse) (now : ℤ)
  | invoked (call : CostlyCall) (state : InvestigationState)
  /-- the planner, verifier or reporter returned, having used tokens -/
  | used (tokens : ℕ)
  | toolReturned (result : ToolResult)
  deriving DecidableEq

structure WorkflowWorld where
  interactions : ℕ := 0
  trace : List WorkflowEvent := []
  deriving DecidableEq

/-- A computation of the workflow; its one exception stands for any. -/
abbrev Workflow (α : Type) := Act Unit WorkflowWorld α

/-! ## The workflow -/

namespace InvestigationWorkflow

def emit (event : WorkflowEvent) : Workflow Unit :=
  modify fun world => { world with trace := world.trace ++ [event] }

/-- The number of the next interaction. -/
def interaction : Workflow ℕ := do
  let world ← get
  set { world with interactions := world.interactions + 1 }
  return world.interactions

def orRaise {α : Type} : Option α → Workflow α
  | some a => pure a
  | none => throw ()

variable (env : Collaborators)

/-- `_now` -/
def now (use : ClockUse) : Workflow ℤ := do
  let n ← interaction
  let reading ← orRaise (env.clock n)
  emit (.clockRead use reading)
  return reading

/-- The double nearest to a rational that is not negative, ties to an even mantissa. Durations are
far from both ends of the range. -/
def nearestDouble (q : ℚ) : ℚ :=
  let scale : ℚ := 2 ^ (52 - Int.log 2 q)
  let mantissa := ⌊q * scale⌋
  let rest := q * scale - mantissa
  if rest < 1 / 2 ∨ rest = 1 / 2 ∧ 2 ∣ mantissa then mantissa / scale else (mantissa + 1) / scale

/-- `_duration_ms`; both the division in `total_seconds` and the multiplication round. -/
def durationMs (started finished : ℤ) : ℕ :=
  let seconds := nearestDouble ((finished - started).toNat / 1000000)
  ⌊nearestDouble (seconds * 1000)⌋₊

/-- A millisecond is lost to the rounding. -/
example : durationMs 0 1001000 = 1000 := by decide +kernel

/-- `_terminal` -/
def terminal (state : InvestigationState) (reason : StopReason) : Workflow InvestigationState := do
  let finishedAt ← now env .finished
  return state.stopped reason finishedAt

/-- `elapsed >= state.budget.max_duration_seconds` -/
def timedOut (budget : InvestigationBudget) (startedAt now : ℤ) : Bool :=
  budget.maxDurationSeconds ≤ ((now - startedAt : ℤ) : ℚ) / 1000000

/-- `_budget_reason` -/
def budgetReason (state : InvestigationState) (includeSteps : Bool) :
    Workflow (Option StopReason) := do
  if includeSteps && state.budget.maxSteps ≤ state.steps then return some .maxSteps
  if state.budget.maxTokens ≤ state.tokensUsed then return some .tokenBudget
  match state.startedAt with
  | none => return none
  | some startedAt =>
    let now ← now env .budget
    return if timedOut state.budget startedAt now then some .timeout else none

/-- `_tool_budget_reason` -/
def toolBudgetReason (state : InvestigationState) (retrieval : Bool) : Option StopReason :=
  if state.budget.maxToolCalls ≤ state.toolCalls then some .toolBudget
  else if retrieval && state.budget.maxRetrievalAttempts ≤ state.retrievalAttempts then
    some .retrievalBudget
  else none

/-- `_after_node` -/
def afterNode (state : InvestigationState) : Workflow InvestigationState := do
  match ← budgetReason env state false with
  | some reason => terminal env state reason
  | none => return state

/-- `_plan` -/
def plan (state : InvestigationState) : Workflow InvestigationState := do
  emit (.invoked .planner state)
  let n ← interaction
  let result ← orRaise (env.plan n state.task)
  emit (.used result.tokensUsed)
  let advanced := (state.recordUsage result.tokensUsed result.costMicrousd).withPlan result.plan
  let advanced ← orRaise (advanced.moveTo .retrieve)
  afterNode env advanced

/-- `_tool_call`; `operation` is the call of the tool, at an interaction. -/
def toolCall (state : InvestigationState) (name : String) (retrieval : Bool)
    (operation : ℕ → Except ToolRaise ToolResult) :
    Workflow (InvestigationState × Option ToolResult) := do
  match toolBudgetReason state retrieval with
  | some reason => return (← terminal env state reason, none)
  | none =>
    let started ← now env .toolStarted
    emit (.invoked (.tool name retrieval) state)
    let n ← interaction
    match operation n with
    | .error .other => throw ()
    | .error (.toolError code) =>
      let finished ← now env .toolFinished
      let action := failedAction state name (durationMs started finished) code
      let advanced := (state.recordAction retrieval action).withPending .toolFailure
      let advanced ← orRaise (advanced.moveTo .verify)
      return (advanced, none)
    | .ok result =>
      emit (.toolReturned result)
      let finished ← now env .toolFinished
      let action := succeededAction state name (durationMs started finished) result
      let advanced := state.recordAction retrieval action
      match ← budgetReason env advanced false with
      | some reason => return (← terminal env advanced reason, some result)
      | none => return (advanced, some result)

/-- The three loops over the requests of a plan: call the tool for each, and add what it
returned; the last component says whether the loop ran to its end. -/
def toolLoop {R : Type} (name : String) (retrieval : Bool)
    (operation : R → ℕ → Except ToolRaise ToolResult)
    (add : InvestigationState → ToolResult → InvestigationState) :
    List R → InvestigationState → Workflow (InvestigationState × Bool)
  | [], state => return (state, true)
  | request :: requests, state => do
    let (advanced, result) ← toolCall env state name retrieval (operation request)
    match advanced.terminal, result with
    | false, some result => toolLoop name retrieval operation add requests (add advanced result)
    | _, _ => return (advanced, false)

def retrieveRequests (principal : Principal) (requests : List RetrieveRequest) :
    InvestigationState → Workflow (InvestigationState × Bool) :=
  toolLoop env "retrieve" true
    (fun request n => ToolResult.evidence <$> env.retrieve n principal request) InvestigationState.addResult requests

def searchIncidentsRequests (principal : Principal) (requests : List IncidentSearchRequest) :
    InvestigationState → Workflow (InvestigationState × Bool) :=
  toolLoop env "search_incidents" true
    (fun request n => ToolResult.incidents <$> env.searchIncidents n principal request) InvestigationState.addResult
    requests

def compareVersionsRequests (principal : Principal) (requests : List CompareVersionsRequest) :
    InvestigationState → Workflow (InvestigationState × Bool) :=
  toolLoop env "compare_versions" false
    (fun request n => ToolResult.comparison <$> env.compareVersions n principal request) InvestigationState.addResult
    requests

/-- `_retrieve` -/
def retrieve (state : InvestigationState) : Workflow InvestigationState := do
  match state.plan with
  | none => terminal env state .workflowFailure
  | some plan =>
    let advanced := state.recordStep
    let (advanced, finished) ← retrieveRequests env state.task.principal plan.retrievals advanced
    if !finished then return advanced
    let (advanced, finished) ← searchIncidentsRequests env state.task.principal plan.incidents advanced
    if !finished then return advanced
    orRaise (advanced.moveTo .compare)

/-- `_compare` -/
def compare (state : InvestigationState) : Workflow InvestigationState := do
  match state.plan with
  | none => terminal env state .workflowFailure
  | some plan =>
    let advanced := state.recordStep
    let (advanced, finished) ←
      compareVersionsRequests env state.task.principal plan.comparisons advanced
    if !finished then return advanced
    orRaise (advanced.moveTo .verify)

/-- `_verify` -/
def verify (state : InvestigationState) : Workflow InvestigationState := do
  emit (.invoked .verifier state)
  let n ← interaction
  let result ← orRaise (env.verify n state)
  emit (.used result.tokensUsed)
  let reason := state.pendingStopReason <|>
    if result.sufficient then none else some .insufficientEvidence
  let advanced := ((state.recordUsage result.tokensUsed result.costMicrousd).withUnresolved
    result.unresolvedQuestions).withPending (reason.getD .success)
  let advanced ← orRaise (advanced.moveTo .report)
  afterNode env advanced

/-- `_report` -/
def report (state : InvestigationState) : Workflow InvestigationState := do
  emit (.invoked .reporter state)
  let n ← interaction
  let result ← orRaise (env.report n state)
  emit (.used result.tokensUsed)
  let advanced :=
    (state.recordUsage result.tokensUsed result.costMicrousd).withSummary result.summary
  let reason ← budgetReason env advanced false
  terminal env advanced ((reason <|> advanced.pendingStopReason).getD .success)

/-- The dispatch of `_advance`; `done` has no node to run. -/
def runNode (state : InvestigationState) : Workflow InvestigationState :=
  match state.node with
  | .plan => plan env state
  | .retrieve => retrieve env state
  | .compare => compare env state
  | .verify => verify env state
  | .report => report env state
  | .done => throw ()

/-- A queued investigation starts to run. -/
def begin (state : InvestigationState) : Workflow InvestigationState := do
  if h : state.status = .queued then
    let startedAt ← now env .started
    return state.running h startedAt
  else return state

/-- What `_persist` saves. -/
def persisted (current state : InvestigationState) : Workflow InvestigationState := do
  let updatedAt ← now env .updated
  return state.stamped (current.revision + 1) updatedAt

/-- `_advance` from the state that `get` returned to the state it saves. -/
def advance (current : InvestigationState) : Workflow InvestigationState := do
  let state ← begin env current
  match ← budgetReason env state true with
  | some reason => persisted env current (← terminal env state reason)
  | none =>
    emit (.nodeStarted state)
    let advanced ← tryCatch (runNode env state) fun _ => terminal env state .workflowFailure
    persisted env current advanced

/-- `cancel` from the state that `get` returned to the state it saves. -/
def cancel (current : InvestigationState) : Workflow InvestigationState := do
  persisted env current (← terminal env current .cancelled)

def start (task : InvestigationTask) (budget : InvestigationBudget) :
    Workflow InvestigationState := do
  let now ← now env .created
  return .queued task budget now

end InvestigationWorkflow

/-! ## Runs -/

/-- One call that saves a state: by a worker, or by the owner. -/
inductive WorkflowCall
  | advance (env : Collaborators)
  | cancel (env : Collaborators)

/-- What a call computes from the state it read: nothing of a terminal state, which it
returns. -/
def WorkflowCall.compute (call : WorkflowCall) (current : InvestigationState) :
    Workflow (Option InvestigationState) :=
  if current.terminal then pure none
  else
    match call with
    | .advance env => some <$> InvestigationWorkflow.advance env current
    | .cancel env => some <$> InvestigationWorkflow.cancel env current

/-- What the call does, from the state it read. -/
def WorkflowCall.outcome (call : WorkflowCall) (current : InvestigationState) :
    Except Unit (Option InvestigationState) × WorkflowWorld :=
  exec (call.compute current) {}

/-- The persisted state of an investigation and the trace of all the calls made on it. -/
structure InvestigationRun where
  state : InvestigationState
  trace : List WorkflowEvent := []

/-- The run when `start` has returned. -/
def InvestigationRun.init (task : InvestigationTask) (budget : InvestigationBudget) (now : ℤ) :
    InvestigationRun :=
  { state := .queued task budget now, trace := [.clockRead .created now] }

/-- A call reads the state, computes, and saves unless it raised or there was nothing to do. -/
def InvestigationRun.step (run : InvestigationRun) (call : WorkflowCall) : InvestigationRun :=
  match call.outcome run.state with
  | (.ok (some state), world) => { state := state, trace := run.trace ++ world.trace }
  | (_, world) => { run with trace := run.trace ++ world.trace }

end GroundedOps.Investigation
