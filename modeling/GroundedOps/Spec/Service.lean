import GroundedOps.Lib.Archive
import GroundedOps.Spec.Cancellation

/-!
# The investigation service

`InvestigationLifecycle.submit`, `status` and `report` of `interfaces/http/investigations.py`, for
any number of calls at once, among the workers and owners that advance and cancel investigations.
Each access of a call to the store or to the queue is atomic, and the others happen between them.

The routes, which validate the body and answer an error with its status code, and the telemetry are
not modelled.
-/

namespace GroundedOps.Investigation

/-! ## Reports -/

structure InvestigationReport where
  investigationId : String
  summary : String
  evidence : List Evidence
  incidents : List IncidentRecord
  comparisons : List VersionComparison
  toolActions : List ToolAction
  unresolvedQuestions : List String
  stopReason : StopReason
  tokensUsed : ℕ
  costMicrousd : ℕ
  durationMs : ℕ
  deriving DecidableEq

/-- `InvestigationWorkflow.report`, of the state it read; `none` is `InvestigationNotTerminal`. -/
def InvestigationState.report (state : InvestigationState) : Option InvestigationReport :=
  match state.terminal, state.stopReason with
  | true, some stopReason =>
    some
      { investigationId := state.id
        summary := summaryOr state.summary stopReason
        evidence := state.evidence
        incidents := state.incidents
        comparisons := state.comparisons
        toolActions := state.toolActions
        unresolvedQuestions := state.unresolvedQuestions
        stopReason := stopReason
        tokensUsed := state.tokensUsed
        costMicrousd := state.costMicrousd
        durationMs := InvestigationWorkflow.durationMs (state.startedAt.getD state.createdAt)
          (state.finishedAt.getD state.updatedAt) }
  | _, _ => none

/-! ## Calls -/

inductive LifecycleError
  | investigationNotFound | idempotencyConflict | investigationDispatchUnavailable
  | investigationNotTerminal
  /-- of a constructor or of `_now` -/
  | valueError
  deriving DecidableEq, Repr

inductive LifecycleRequest
  | submit (questionText idempotencyKey : String) (principal : Principal)
  | status (investigationId : String) (principal : Principal)
  | report (investigationId : String) (principal : Principal)
  deriving DecidableEq

inductive LifecycleReply
  /-- `Submission` -/
  | submission (state : InvestigationState) (replayed : Bool)
  | status (state : InvestigationState)
  | report (report : InvestigationReport)
  | raised (error : LifecycleError)
  deriving DecidableEq

/-- What a call does next. -/
inductive LifecyclePoint
  /-- `InvestigationWorkflow.start` -/
  | start (task : InvestigationTask)
  /-- `_owned`, when the investigation exists -/
  | replay (investigationId : String)
  | enqueue (investigationId : String) (state : InvestigationState) (replayed : Bool)
  | status
  /-- `_owned`, before the report -/
  | reportOwned
  /-- `InvestigationWorkflow.report` -/
  | report
  | ended (reply : LifecycleReply)
  deriving DecidableEq

structure LifecycleCall where
  request : LifecycleRequest
  point : LifecyclePoint
  deriving DecidableEq

/-- What the queue does with an id; it may also take it and raise. -/
inductive Enqueued
  | accepted | refused | lost
  deriving DecidableEq, Repr

namespace InvestigationLifecycle

/-- `_investigation_id`; `sha256` is the digest in hexadecimal. -/
def investigationId (sha256 : ByteArray → String) (principal : Principal) (idempotencyKey : String) :
    String :=
  let message := principal.tenantId ++ "\x00" ++ principal.id ++ "\x00" ++ idempotencyKey
  "inv-" ++ String.ofList ((sha256 message.toUTF8).toList.take 40)

/-- The task that `submit` builds; `none` is a `ValueError`. -/
def submittedTask (sha256 : ByteArray → String) (questionText idempotencyKey : String)
    (principal : Principal) : Option InvestigationTask :=
  let id := investigationId sha256 principal idempotencyKey
  if hid : validIdentifier id = true then
    if hquestion : Question.check ("question-" ++ id) questionText = true then
      some ⟨id, ⟨"question-" ++ id, questionText, hquestion⟩, principal, hid⟩
    else none
  else none

/-- `_owned` -/
def owned (principal : Principal) (found : Option InvestigationState) :
    Except LifecycleError InvestigationState :=
  match found with
  | none => .error .investigationNotFound
  | some state => if ownedBy principal state then .ok state else .error .investigationNotFound

/-- Where a call starts. -/
def received (sha256 : ByteArray → String) : LifecycleRequest → LifecyclePoint
  | .submit questionText idempotencyKey principal =>
    match submittedTask sha256 questionText idempotencyKey principal with
    | none => .ended (.raised .valueError)
    | some task => .start task
  | .status _ _ => .status
  | .report _ _ => .reportOwned

/-- A submission of an investigation that exists. -/
def replayed (questionText : String) (principal : Principal) (investigationId : String)
    (found : Option InvestigationState) : LifecyclePoint :=
  match owned principal found with
  | .error error => .ended (.raised error)
  | .ok state =>
    if state.task.question.text ≠ questionText then .ended (.raised .idempotencyConflict)
    else .enqueue investigationId state true

def statusReply (principal : Principal) (found : Option InvestigationState) : LifecycleReply :=
  match owned principal found with
  | .error error => .raised error
  | .ok state => .status state

def reportPoint (principal : Principal) (found : Option InvestigationState) : LifecyclePoint :=
  match owned principal found with
  | .error error => .ended (.raised error)
  | .ok _ => .report

def reportReply (found : Option InvestigationState) : LifecycleReply :=
  match found with
  | none => .raised .investigationNotFound
  | some state =>
    match state.report with
    | none => .raised .investigationNotTerminal
    | some report => .report report

/-- What `submit` does when it has tried to queue the investigation. -/
def submitted (state : InvestigationState) (replayed : Bool) : Enqueued → LifecycleReply
  | .accepted => .submission state replayed
  | .refused | .lost => .raised .investigationDispatchUnavailable

end InvestigationLifecycle

/-! ## The service -/

/-- The store with its workers, what the queue has taken, and the calls. -/
structure Service (St T C : Type) where
  investigations : Revision.System St InvestigationState T
  queue : List String := []
  calls : C → Option LifecycleCall := fun _ => none

inductive ServiceEvent (T C : Type)
  /-- a worker or an owner reads an investigation -/
  | get (thread : T) (investigationId : String)
  /-- it advances or cancels what it has read -/
  | save (thread : T) (call : WorkflowCall)
  | receive (c : C) (request : LifecycleRequest)
  /-- the next access of a call, with the clock and the queue it meets -/
  | proceed (c : C) (clock : Option ℤ) (enqueued : Enqueued)

namespace Service

open InvestigationLifecycle

variable {St T C : Type} {store : Revision.Store St String InvestigationState}

def init (st : St) : Service St T C :=
  { investigations := ⟨st, fun _ => none, []⟩ }

/-- What the store holds. -/
def find (store : Revision.Store St String InvestigationState) (svc : Service St T C)
    (investigationId : String) : Option InvestigationState :=
  store.get svc.investigations.store investigationId

variable [DecidableEq T] [DecidableEq C]

def setPoint (svc : Service St T C) (c : C) (call : LifecycleCall) (point : LifecyclePoint) :
    Service St T C :=
  { svc with calls := Function.update svc.calls c (some { call with point := point }) }

/-- `InvestigationWorkflow.start`, which reads the clock before it creates the state. -/
def start (update : Revision.Update store WorkflowCall) (budget : InvestigationBudget)
    (svc : Service St T C) (c : C) (call : LifecycleCall) (task : InvestigationTask)
    (clock : Option ℤ) : Service St T C :=
  match clock with
  | none => svc.setPoint c call (.ended (.raised .valueError))
  | some now =>
    let state : InvestigationState := .queued task budget now
    let investigations := Revision.access update svc.investigations (.create state)
    match store.create svc.investigations.store state with
    | none => svc.setPoint c call (.replay task.id)
    | some _ => { svc with investigations }.setPoint c call (.enqueue task.id state false)

def enqueue (svc : Service St T C) (c : C) (call : LifecycleCall) (investigationId : String)
    (state : InvestigationState) (replayed : Bool) (enqueued : Enqueued) : Service St T C :=
  let queue := if enqueued = .refused then svc.queue else svc.queue ++ [investigationId]
  { svc with queue }.setPoint c call (.ended (submitted state replayed enqueued))

def proceed (update : Revision.Update store WorkflowCall) (budget : InvestigationBudget)
    (svc : Service St T C) (c : C) (call : LifecycleCall) (clock : Option ℤ) (enqueued : Enqueued) :
    Service St T C :=
  match call.request, call.point with
  | .submit _ _ _, .start task => start update budget svc c call task clock
  | .submit questionText _ principal, .replay investigationId =>
    svc.setPoint c call
      (replayed questionText principal investigationId (svc.find store investigationId))
  | .submit _ _ _, .enqueue investigationId state replayed =>
    svc.enqueue c call investigationId state replayed enqueued
  | .status investigationId principal, .status =>
    svc.setPoint c call (.ended (statusReply principal (svc.find store investigationId)))
  | .report investigationId principal, .reportOwned =>
    svc.setPoint c call (reportPoint principal (svc.find store investigationId))
  | .report investigationId _, .report =>
    svc.setPoint c call (.ended (reportReply (svc.find store investigationId)))
  | _, _ => svc

def step (update : Revision.Update store WorkflowCall) (sha256 : ByteArray → String)
    (budget : InvestigationBudget) (svc : Service St T C) : ServiceEvent T C → Service St T C
  | .get thread investigationId =>
    { svc with investigations :=
        Revision.access update svc.investigations (.get thread investigationId) }
  | .save thread call =>
    { svc with investigations := Revision.access update svc.investigations (.save thread call) }
  | .receive c request =>
    match svc.calls c with
    | none => svc.setPoint c ⟨request, received sha256 request⟩ (received sha256 request)
    | some _ => svc
  | .proceed c clock enqueued =>
    match svc.calls c with
    | none => svc
    | some call => proceed update budget svc c call clock enqueued

end Service

end GroundedOps.Investigation
