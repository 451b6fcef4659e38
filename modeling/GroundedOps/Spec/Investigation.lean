import GroundedOps.Spec.Answering

/-!
# Investigations

The data of `modules/investigation/workflow.py` and of the tools in `tools.py`, and the
updates of an investigation's state, one definition for each `replace`. A state carries the
check of its constructor: `done` is the node of the terminal states, and only they have a
stop reason. Times are readings of an aware clock in microseconds.

The field `obtained` of a `ToolAction` is a ghost: it holds what the call returned, and
nothing reads it.
-/

namespace GroundedOps.Investigation

/-! ## Requests and records of the tools -/

def boundedQuery (query : String) (limit : ℕ) : Bool :=
  !isBlank query && query.length ≤ 1000 && 1 ≤ limit && limit ≤ 100

structure RetrieveRequest where
  query : String
  limit : ℕ := 5
  includeHistorical : Bool := false
  valid : boundedQuery query limit = true
  deriving DecidableEq

structure IncidentSearchRequest where
  query : String
  limit : ℕ := 5
  valid : boundedQuery query limit = true
  deriving DecidableEq

def CompareVersionsRequest.check (documentId leftVersionId rightVersionId : String) : Bool :=
  validIdentifier documentId && validIdentifier leftVersionId && validIdentifier rightVersionId &&
    leftVersionId ≠ rightVersionId

structure CompareVersionsRequest where
  documentId : String
  leftVersionId : String
  rightVersionId : String
  valid : CompareVersionsRequest.check documentId leftVersionId rightVersionId = true
  deriving DecidableEq

structure IncidentRecord where
  incidentId : String
  tenantId : String
  documentId : String
  documentVersionId : String
  title : String
  summary : String
  occurredAt : ℤ
  deriving DecidableEq, Repr

structure VersionChange where
  field : String
  before : String
  after : String
  deriving DecidableEq, Repr

structure VersionComparison where
  documentId : String
  leftVersionId : String
  rightVersionId : String
  sameContent : Bool
  changes : List VersionChange
  deriving DecidableEq, Repr

inductive ToolErrorCode
  | unknownPrincipal | invalidInput | policyDenied | timeout | backendUnavailable
  deriving DecidableEq, Repr

/-- What a tool returns. -/
inductive ToolResult
  | evidence (result : EvidenceSet)
  | incidents (result : List IncidentRecord)
  | comparison (result : VersionComparison)
  deriving DecidableEq

/-- `_result_count` -/
def resultCount : ToolResult → ℕ
  | .evidence result => result.evidence.length
  | .incidents result => result.length
  | .comparison _ => 1

/-! ## States -/

inductive InvestigationStatus
  | queued | running | completed | partial_ | failed | cancelled
  deriving DecidableEq, Repr

inductive InvestigationNode
  | plan | retrieve | compare | verify | report | done
  deriving DecidableEq, Repr

inductive StopReason
  | success | insufficientEvidence | maxSteps | timeout | tokenBudget | toolBudget
  | retrievalBudget | toolFailure | cancelled | workflowFailure
  deriving DecidableEq, Repr

inductive ToolActionOutcome
  | succeeded | failed
  deriving DecidableEq, Repr

structure InvestigationBudget where
  maxSteps : ℕ
  maxDurationSeconds : ℚ
  maxTokens : ℕ
  maxToolCalls : ℕ
  maxRetrievalAttempts : ℕ
  maxSteps_pos : 0 < maxSteps
  maxDurationSeconds_pos : 0 < maxDurationSeconds
  maxTokens_pos : 0 < maxTokens
  maxToolCalls_pos : 0 < maxToolCalls
  maxRetrievalAttempts_pos : 0 < maxRetrievalAttempts
  deriving DecidableEq

structure InvestigationTask where
  id : String
  question : Question
  principal : Principal
  valid : validIdentifier id = true
  deriving DecidableEq

structure InvestigationPlan where
  retrievals : List RetrieveRequest := []
  comparisons : List CompareVersionsRequest := []
  incidents : List IncidentSearchRequest := []
  deriving DecidableEq

structure PlanResult where
  plan : InvestigationPlan
  tokensUsed : ℕ
  costMicrousd : ℕ
  deriving DecidableEq

structure VerificationResult where
  sufficient : Bool
  unresolvedQuestions : List String
  tokensUsed : ℕ
  costMicrousd : ℕ
  valid : unresolvedQuestions.any isBlank = false
  deriving DecidableEq

structure ReportResult where
  summary : String
  tokensUsed : ℕ
  costMicrousd : ℕ
  valid : isBlank summary = false

structure ToolAction where
  node : InvestigationNode
  tool : String
  outcome : ToolActionOutcome
  durationMs : ℕ
  resultCount : ℕ
  errorCode : Option ToolErrorCode := none
  /-- ghost: what the call returned -/
  obtained : Option ToolResult := none
  deriving DecidableEq

def InvestigationStatus.terminal : InvestigationStatus → Bool
  | .queued | .running => false
  | .completed | .partial_ | .failed | .cancelled => true

def InvestigationState.check (status : InvestigationStatus) (node : InvestigationNode)
    (stopReason : Option StopReason) : Bool :=
  status.terminal == (node == .done) && status.terminal == stopReason.isSome

structure InvestigationState where
  task : InvestigationTask
  budget : InvestigationBudget
  status : InvestigationStatus
  node : InvestigationNode
  createdAt : ℤ
  updatedAt : ℤ
  startedAt : Option ℤ := none
  finishedAt : Option ℤ := none
  revision : ℕ := 0
  steps : ℕ := 0
  tokensUsed : ℕ := 0
  costMicrousd : ℕ := 0
  toolCalls : ℕ := 0
  retrievalAttempts : ℕ := 0
  plan : Option InvestigationPlan := none
  evidence : List Evidence := []
  incidents : List IncidentRecord := []
  comparisons : List VersionComparison := []
  toolActions : List ToolAction := []
  unresolvedQuestions : List String := []
  summary : Option String := none
  pendingStopReason : Option StopReason := none
  stopReason : Option StopReason := none
  valid : InvestigationState.check status node stopReason = true
  deriving DecidableEq

namespace InvestigationState

def id (state : InvestigationState) : String := state.task.id

def terminal (state : InvestigationState) : Bool := state.status.terminal

def withNode (state : InvestigationState) (node : InvestigationNode)
    (valid : check state.status node state.stopReason = true) : InvestigationState :=
  { state with node := node, valid := valid }

/-- `replace(state, node=node)`; `none` is the `ValueError` of the constructor. -/
def moveTo (state : InvestigationState) (node : InvestigationNode) : Option InvestigationState :=
  if h : check state.status node state.stopReason = true then some (state.withNode node h) else none

/-- `_tool_call`, when the call has ended: the counters and the action. -/
def recordAction (state : InvestigationState) (retrieval : Bool) (action : ToolAction) :
    InvestigationState :=
  { state with
    toolCalls := state.toolCalls + 1
    retrievalAttempts := state.retrievalAttempts + (if retrieval then 1 else 0)
    toolActions := state.toolActions ++ [action] }

/-- `_plan`, `_verify` and `_report`, when the collaborator has returned. -/
def recordUsage (state : InvestigationState) (tokensUsed costMicrousd : ℕ) : InvestigationState :=
  { state with
    steps := state.steps + 1
    tokensUsed := state.tokensUsed + tokensUsed
    costMicrousd := state.costMicrousd + costMicrousd }

/-- `_retrieve` and `_compare`, before they call a tool. -/
def recordStep (state : InvestigationState) : InvestigationState :=
  { state with steps := state.steps + 1 }

def withPlan (state : InvestigationState) (plan : InvestigationPlan) : InvestigationState :=
  { state with plan := some plan }

def withPending (state : InvestigationState) (reason : StopReason) : InvestigationState :=
  { state with pendingStopReason := some reason }

def withUnresolved (state : InvestigationState) (questions : List String) : InvestigationState :=
  { state with unresolvedQuestions := questions }

def withSummary (state : InvestigationState) (summary : String) : InvestigationState :=
  { state with summary := some summary }

/-- `_persist` -/
def stamped (state : InvestigationState) (revision : ℕ) (updatedAt : ℤ) : InvestigationState :=
  { state with revision := revision, updatedAt := updatedAt }

/-- `replace(advanced, evidence=advanced.evidence + retrieval_result.evidence)`, and so for the
two other tools. -/
def addResult (state : InvestigationState) : ToolResult → InvestigationState
  | .evidence result => { state with evidence := state.evidence ++ result.evidence }
  | .incidents result => { state with incidents := state.incidents ++ result }
  | .comparison result => { state with comparisons := state.comparisons ++ [result] }

end InvestigationState

def defaultSummary : StopReason → String
  | .success => "Investigation completed with sufficient evidence."
  | .insufficientEvidence => "Investigation stopped with insufficient evidence."
  | .maxSteps => "Investigation stopped at the step budget."
  | .timeout => "Investigation stopped at the duration budget."
  | .tokenBudget => "Investigation stopped at the token budget."
  | .toolBudget => "Investigation stopped at the tool-call budget."
  | .retrievalBudget => "Investigation stopped at the retrieval budget."
  | .toolFailure => "Investigation completed partially after a tool failure."
  | .cancelled => "Investigation was cancelled."
  | .workflowFailure => "Investigation failed safely."

def terminalStatus : StopReason → InvestigationStatus
  | .success => .completed
  | .cancelled => .cancelled
  | .workflowFailure => .failed
  | _ => .partial_

theorem terminalStatus_check (reason : StopReason) :
    InvestigationState.check (terminalStatus reason) .done (some reason) = true := by
  cases reason <;> rfl

/-- `state.summary or _default_summary(reason)` -/
def summaryOr (summary : Option String) (reason : StopReason) : String :=
  match summary with
  | some summary => if summary = "" then defaultSummary reason else summary
  | none => defaultSummary reason

/-- What `_terminal` makes of a state. -/
def InvestigationState.stopped (state : InvestigationState) (reason : StopReason) (finishedAt : ℤ) :
    InvestigationState :=
  { state with
    status := terminalStatus reason
    node := .done
    stopReason := some reason
    finishedAt := some finishedAt
    summary := some (summaryOr state.summary reason)
    valid := terminalStatus_check reason }

/-- What `start` creates. -/
def InvestigationState.queued (task : InvestigationTask) (budget : InvestigationBudget) (now : ℤ) :
    InvestigationState :=
  { task := task, budget := budget, status := .queued, node := .plan
    createdAt := now, updatedAt := now, valid := rfl }

/-- A queued state that starts to run. -/
def InvestigationState.running (state : InvestigationState) (h : state.status = .queued) (startedAt : ℤ) :
    InvestigationState :=
  { state with
    status := .running
    startedAt := some startedAt
    valid := by have hvalid := state.valid; rw [h] at hvalid; exact hvalid }

def failedAction (state : InvestigationState) (name : String) (duration : ℕ)
    (code : ToolErrorCode) : ToolAction :=
  { node := state.node, tool := name, outcome := .failed, durationMs := duration
    resultCount := 0, errorCode := some code }

def succeededAction (state : InvestigationState) (name : String) (duration : ℕ)
    (result : ToolResult) : ToolAction :=
  { node := state.node, tool := name, outcome := .succeeded, durationMs := duration
    resultCount := resultCount result, obtained := some result }

end GroundedOps.Investigation
