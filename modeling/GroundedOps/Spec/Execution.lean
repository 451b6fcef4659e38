import GroundedOps.Lib.Revision
import GroundedOps.Spec.Workflow

/-!
# Running an investigation to its end

`InvestigationWorkflow.advance` and `run` of `modules/investigation/workflow.py` over a store.
Each advance meets collaborators of its own. The loop of `_run` has no counter; here it has
fuel, and `none` is what it returns without any left.
-/

namespace GroundedOps.Investigation

open Hoare

/-- What `advance` raises: no investigation of the id, whatever the workflow raised, or a save
over an older revision. -/
inductive AdvanceError
  | investigationNotFound | raised | concurrentInvestigationUpdate
  deriving DecidableEq, Repr

namespace InvestigationWorkflow

variable {St : Type} (store : Revision.Store St String InvestigationState)

/-- `_advance`, with the reads and the save. -/
def advanceStored (env : Collaborators) (investigationId : String) (st : St) :
    Except AdvanceError (InvestigationState × St) :=
  match store.get st investigationId with
  | none => .error .investigationNotFound
  | some current =>
    if current.terminal then .ok (current, st)
    else
      match (exec (advance env current) {}).1 with
      | .error _ => .error .raised
      | .ok state =>
        match store.save st state current.revision with
        | none => .error .concurrentInvestigationUpdate
        | some st => .ok (state, st)

/-- The loop of `_run`, from the state it holds; the first of `envs` are those of the next
advance. -/
def runLoop (investigationId : String) :
    ℕ → (ℕ → Collaborators) → InvestigationState → St →
      Option (Except AdvanceError (InvestigationState × St))
  | fuel, envs, state, st =>
    if state.terminal then some (.ok (state, st))
    else
      match fuel with
      | 0 => none
      | fuel + 1 =>
        match advanceStored store (envs 0) investigationId st with
        | .error error => some (.error error)
        | .ok (state, st) => runLoop investigationId fuel (fun n => envs (n + 1)) state st

/-- `_run`, with fuel for so many advances. -/
def run (fuel : ℕ) (envs : ℕ → Collaborators) (investigationId : String) (st : St) :
    Option (Except AdvanceError (InvestigationState × St)) :=
  match store.get st investigationId with
  | none => some (.error .investigationNotFound)
  | some state => runLoop store investigationId fuel envs state st

end InvestigationWorkflow

end GroundedOps.Investigation
