import GroundedOps.Spec.Workflow

/-!
# The two stores of investigations

`InMemoryInvestigationStore` of `modules/investigation/workflow.py`, a dictionary of
states, and `PostgresInvestigationStore` of `adapters/postgres/investigation_store.py`, a
table of rows with the state as a JSON payload. `none` is `ConcurrentInvestigationUpdate`.
The payload is made and read by a `TypeAdapter`, which is a parameter.
-/

namespace GroundedOps.Investigation

namespace InMemoryInvestigationStore

/-- `_states` -/
abbrev States := String → Option InvestigationState

def create (states : States) (state : InvestigationState) : Option States :=
  if (states state.id).isSome then none else some (Function.update states state.id (some state))

def get (states : States) (investigationId : String) : Option InvestigationState :=
  states investigationId

def save (states : States) (state : InvestigationState) (expectedRevision : ℕ) : Option States :=
  match states state.id with
  | none => none
  | some current =>
    if current.revision ≠ expectedRevision ∨ state.revision ≠ expectedRevision + 1 then none
    else some (Function.update states state.id (some state))

end InMemoryInvestigationStore

/-- `TypeAdapter(InvestigationState)`: what it dumps it reads back. -/
structure StateAdapter (Payload : Type) where
  dumpPython : InvestigationState → Payload
  validatePython : Payload → Option InvestigationState
  round_trip : ∀ state, validatePython (dumpPython state) = some state

namespace PostgresInvestigationStore

/-- A row of the `investigations` table, under its `id`. -/
structure Row (Payload : Type) where
  tenantId : String
  principalId : String
  status : InvestigationStatus
  node : InvestigationNode
  revision : ℕ
  statePayload : Payload
  createdAt : ℤ
  updatedAt : ℤ

abbrev Table (Payload : Type) := String → Option (Row Payload)

variable {Payload : Type} (adapter : StateAdapter Payload)

/-- `_parameters` -/
def parameters (state : InvestigationState) : Row Payload where
  tenantId := state.task.principal.tenantId
  principalId := state.task.principal.id
  status := state.status
  node := state.node
  revision := state.revision
  statePayload := adapter.dumpPython state
  createdAt := state.createdAt
  updatedAt := state.updatedAt

/-- `INSERT ... ON CONFLICT (id) DO NOTHING` -/
def create (table : Table Payload) (state : InvestigationState) : Option (Table Payload) :=
  if (table state.id).isSome then none
  else some (Function.update table state.id (some (parameters adapter state)))

def get (table : Table Payload) (investigationId : String) : Option InvestigationState :=
  (table investigationId).bind fun row => adapter.validatePython row.statePayload

/-- `UPDATE ... WHERE id=:id AND revision=:expected` -/
def save (table : Table Payload) (state : InvestigationState) (expectedRevision : ℕ) :
    Option (Table Payload) :=
  match table state.id with
  | none => none
  | some row =>
    if row.revision = expectedRevision then
      some (Function.update table state.id
        (some { parameters adapter state with createdAt := row.createdAt }))
    else none

end PostgresInvestigationStore

end GroundedOps.Investigation
