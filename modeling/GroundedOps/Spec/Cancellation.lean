import GroundedOps.Lib.Revision
import GroundedOps.Spec.Workflow

/-!
# Cancelling an investigation

`InvestigationLifecycle.cancel` of `interfaces/http/investigations.py` over
`InvestigationWorkflow.cancel`: the read of `_owned`, the read of the workflow and the save of
`_persist` are three accesses to the store, and workers read and save the same investigation
before, between and after them.

The telemetry around a call is not modelled.
-/

namespace GroundedOps.Investigation

open Hoare

/-- What `InvestigationLifecycle.cancel` raises; `workflowClock` is the `ValueError` of `_now`. -/
inductive CancelError
  | investigationNotFound | investigationAlreadyTerminal
  | concurrentInvestigationUpdate | workflowClock
  deriving DecidableEq, Repr

/-- The status that the `cancel` route answers an error with, if it has one. -/
def CancelError.httpStatus : CancelError → Option ℕ
  | .investigationNotFound => some 404
  | .investigationAlreadyTerminal => some 409
  | .concurrentInvestigationUpdate | .workflowClock => none

/-- The access to the store that a call of `cancel` makes next. -/
inductive CancelPoint
  /-- the `get` of `_owned` -/
  | owned
  /-- the `get` of `InvestigationWorkflow.cancel` -/
  | read
  /-- the `save` of `_persist`, over what the workflow read -/
  | save (current : InvestigationState)
  | ended (result : Except CancelError InvestigationState)
  deriving DecidableEq

namespace InvestigationLifecycle

/-- The comparison of `_owned`. -/
def ownedBy (principal : Principal) (state : InvestigationState) : Bool :=
  state.task.principal.tenantId = principal.tenantId && state.task.principal.id = principal.id

/-- From the first read to the second. -/
def afterOwned (principal : Principal) : Option InvestigationState → CancelPoint
  | none => .ended (.error .investigationNotFound)
  | some current =>
    if !ownedBy principal current then .ended (.error .investigationNotFound)
    else if current.terminal && current.status ≠ .cancelled then
      .ended (.error .investigationAlreadyTerminal)
    else .read

/-- What `cancel` does with the state that the workflow returned. -/
def answer (cancelled : InvestigationState) : Except CancelError InvestigationState :=
  if cancelled.status ≠ .cancelled then .error .investigationAlreadyTerminal else .ok cancelled

/-- From the second read to the save: the workflow returns a terminal state as it is. -/
def afterRead : Option InvestigationState → CancelPoint
  | none => .ended (.error .investigationNotFound)
  | some current => if current.terminal then .ended (answer current) else .save current

/-- What the workflow makes of the state it read, before it saves it. -/
def computed (env : Collaborators) (current : InvestigationState) :
    Except Unit InvestigationState :=
  (exec (InvestigationWorkflow.cancel env current) {}).1

end InvestigationLifecycle

/-- The store with the workers on one investigation, and a call of `cancel` on it. -/
structure CancelRace (St T : Type) where
  workers : Revision.System St InvestigationState T
  point : CancelPoint := .owned

/-- A worker reads or saves, or `cancel` makes its next access, with its clock. -/
inductive RaceEvent (T : Type)
  | worker (event : Revision.Event T WorkflowCall)
  | cancel (env : Collaborators)

namespace CancelRace

open InvestigationLifecycle

variable {St T : Type} {store : Revision.Store St String InvestigationState}

/-- `_persist`: a save that conflicts raises. -/
def save (store : Revision.Store St String InvestigationState) (race : CancelRace St T)
    (current state : InvestigationState) : CancelRace St T :=
  match store.save race.workers.store state current.revision with
  | none => { race with point := .ended (.error .concurrentInvestigationUpdate) }
  | some st =>
    { workers := { race.workers with store := st, history := race.workers.history ++ [state] }
      point := .ended (answer state) }

variable [DecidableEq T]

def step (update : Revision.Update store WorkflowCall) (investigationId : String)
    (principal : Principal) (race : CancelRace St T) : RaceEvent T → CancelRace St T
  | .worker event => { race with workers := Revision.step update investigationId race.workers event }
  | .cancel env =>
    match race.point with
    | .owned => { race with point := afterOwned principal (store.get race.workers.store investigationId) }
    | .read => { race with point := afterRead (store.get race.workers.store investigationId) }
    | .save current =>
      match computed env current with
      | .error _ => { race with point := .ended (.error .workflowClock) }
      | .ok state => race.save store current state
    | .ended _ => race

end CancelRace

end GroundedOps.Investigation
