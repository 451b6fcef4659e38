import GroundedOps.Lib.Generators

/-!
# Telemetry of operations

`observability/telemetry.py`: `Telemetry.operation` and the span that it wraps in `_safe_span`. Both
are generators behind `contextmanager`. What the process calls of OpenTelemetry and of the logger is
a `TelemetryCall`; a `Telemetry` says of every history of calls whether the last one raises, with
what, and what the span manager's `__enter__` returns. Readings of the clock and `uuid4` are
parameters.

A `Body` is what runs inside an operation: it ends with a value or an exception, sets the outcome of
an operation around it, or runs further operations and bindings.
-/

namespace GroundedOps

open Generators

/-! ## Names -/

inductive TelemetryComponent
  | api | worker | retrieval | generation | agent | indexing
  deriving DecidableEq, Repr

def TelemetryComponent.value : TelemetryComponent → String
  | .api => "api"
  | .worker => "worker"
  | .retrieval => "retrieval"
  | .generation => "generation"
  | .agent => "agent"
  | .indexing => "indexing"

inductive TelemetryOperation
  | httpRequest | ingestionRun | ingestionResume | retrievalQuery | generationRequest
  | investigationRun | investigationStep | indexRebuild | indexRollback
  deriving DecidableEq, Repr

def TelemetryOperation.value : TelemetryOperation → String
  | .httpRequest => "http.request"
  | .ingestionRun => "ingestion.run"
  | .ingestionResume => "ingestion.resume"
  | .retrievalQuery => "retrieval.query"
  | .generationRequest => "generation.request"
  | .investigationRun => "investigation.run"
  | .investigationStep => "investigation.step"
  | .indexRebuild => "index.rebuild"
  | .indexRollback => "index.rollback"

inductive TelemetryOutcome
  | success | error | partially | cancelled
  deriving DecidableEq, Repr

def TelemetryOutcome.value : TelemetryOutcome → String
  | .success => "success"
  | .error => "error"
  | .partially => "partial"
  | .cancelled => "cancelled"

inductive EntryPoint
  | api | worker | cli | internal
  deriving DecidableEq, Repr

def EntryPoint.value : EntryPoint → String
  | .api => "api"
  | .worker => "worker"
  | .cli => "cli"
  | .internal => "internal"

structure TelemetryContext where
  correlationId : String
  entryPoint : EntryPoint
  deriving DecidableEq, Repr

/-- The arguments of `operation`. -/
structure OperationCall where
  component : TelemetryComponent
  operation : TelemetryOperation
  defaultEntryPoint : EntryPoint := .internal
  deriving DecidableEq, Repr

/-! ## The world -/

structure OperationAttributes where
  component : String
  operation : String
  outcome : String
  deriving DecidableEq, Repr

/-- What is logged as JSON. -/
structure OperationPayload extends OperationAttributes where
  event : String
  correlationId : String
  entryPoint : String
  durationMs : ℚ
  errorType : Option String
  deriving DecidableEq, Repr

/-- A call that may raise; span managers are told apart by the number of calls before them. -/
inductive TelemetryCall
  | startSpan (name : String)
  | enterSpan (manager : ℕ)
  | exitSpan (manager : ℕ) (error : Option Exn)
  | setAttribute (span : ℕ) (name value : String)
  /-- `set_status(Status(StatusCode.ERROR))` -/
  | setStatus (span : ℕ)
  /-- `requests.add(1, attributes)` -/
  | addRequest (attributes : OperationAttributes)
  | recordDuration (seconds : ℚ) (attributes : OperationAttributes)
  /-- `logger.log`, at level `ERROR` or `INFO` -/
  | log (error : Bool) (payload : OperationPayload)
  deriving DecidableEq, Repr

/-- An `Observation`, and the `error_type` of its operation. -/
structure ObservationCell where
  outcome : TelemetryOutcome := .success
  errorType : Option String := none
  deriving DecidableEq, Repr

structure TelemetryWorld where
  /-- `_CURRENT` -/
  current : Option TelemetryContext := none
  observations : List ObservationCell := []
  calls : List TelemetryCall := []
  /-- the readings of the clock, and the identifiers drawn -/
  readings : ℕ := 0
  drawn : ℕ := 0
  deriving DecidableEq, Repr

structure Telemetry where
  /-- what the last call of a history raises -/
  raises : List TelemetryCall → Option Exn
  raises_exception : ∀ calls error, raises calls = some error → error.isException = true
  /-- the span that `__enter__`, called last, returns -/
  span : List TelemetryCall → Option ℕ
  clock : ℕ → ℚ
  uuid4 : ℕ → String

/-! ## Operations -/

/-- `round(value, 3)`: half goes to the even neighbour. -/
def roundThousandths (value : ℚ) : ℚ :=
  let scaled := value * 1000
  let rest := scaled - ⌊scaled⌋
  let rounded : ℤ :=
    if rest < 1 / 2 then ⌊scaled⌋
    else if 1 / 2 < rest then ⌊scaled⌋ + 1
    else if ⌊scaled⌋ % 2 = 0 then ⌊scaled⌋ else ⌊scaled⌋ + 1
  rounded / 1000

/-- `_best_effort` -/
def bestEffort {Y : Type} (operation : Code TelemetryWorld Y Unit) : Code TelemetryWorld Y Unit :=
  operation.tryExcept Exn.isException fun _ => pure ()

namespace Telemetry

variable {Y : Type} (telemetry : Telemetry)

def call (c : TelemetryCall) : Code TelemetryWorld Y Unit := Code.act fun world =>
  let world := { world with calls := world.calls ++ [c] }
  match telemetry.raises world.calls with
  | none => (.ok (), world)
  | some error => (.error error, world)

/-- `self._clock()` -/
def readClock : Code TelemetryWorld Y ℚ := Code.act fun world =>
  (.ok (telemetry.clock world.readings), { world with readings := world.readings + 1 })

/-- `new_context`, for a new correlation identifier -/
def newContext (entryPoint : EntryPoint) : Code TelemetryWorld Y TelemetryContext :=
  Code.act fun world =>
    (.ok ⟨telemetry.uuid4 world.drawn, entryPoint⟩, { world with drawn := world.drawn + 1 })

def setCurrent (current : Option TelemetryContext) : Code TelemetryWorld Y Unit :=
  Code.modify fun world => { world with current }

/-- `Observation()` -/
def newObservation : Code TelemetryWorld Y ℕ := Code.act fun world =>
  (.ok world.observations.length, { world with observations := world.observations ++ [{}] })

def observed (observation : ℕ) : Code TelemetryWorld Y ObservationCell :=
  Code.read fun world => world.observations.getD observation {}

def observe (observation : ℕ) (f : ObservationCell → ObservationCell) : Code TelemetryWorld Y Unit :=
  Code.modify fun world => { world with observations := world.observations.modify observation f }

/-- `_span_attribute` -/
def spanAttribute (span : Option ℕ) (name value : String) : Code TelemetryWorld Y Unit :=
  match span with
  | none => pure ()
  | some span => bestEffort (telemetry.call (.setAttribute span name value))

/-- `_span_status` -/
def spanStatus (span : Option ℕ) : Code TelemetryWorld Y Unit :=
  match span with
  | none => pure ()
  | some span => bestEffort (telemetry.call (.setStatus span))

/-- The manager of a new span and what its `__enter__` returns; `none` if one of the calls raises. -/
def openSpan (operation : TelemetryOperation) : Code TelemetryWorld Y (Option (ℕ × Option ℕ)) :=
  Code.tryExcept
    (do
      let manager ← Code.read fun world => world.calls.length
      telemetry.call (.startSpan operation.value)
      telemetry.call (.enterSpan manager)
      let span ← Code.read fun world => telemetry.span world.calls
      return some (manager, span))
    Exn.isException fun _ => return none

/-- `_safe_span` -/
def safeSpan (operation : TelemetryOperation) : Code TelemetryWorld (Option ℕ) Unit := do
  match ← telemetry.openSpan operation with
  | none => Code.yield none
  | some (manager, span) =>
    Code.tryFinally (Code.yield span) fun businessError =>
      bestEffort (telemetry.call (.exitSpan manager businessError))

/-- The block of `operation` inside its span. -/
def observing (call : OperationCall) (context : TelemetryContext) (observation : ℕ)
    (span : Option ℕ) : Code TelemetryWorld ℕ Unit := do
  telemetry.spanAttribute span "groundedops.correlation_id" context.correlationId
  telemetry.spanAttribute span "groundedops.entry_point" context.entryPoint.value
  telemetry.spanAttribute span "groundedops.component" call.component.value
  Code.tryFinally
    (Code.tryExcept (Code.yield observation) Exn.isException fun error => do
      observe observation fun cell => { cell with outcome := .error, errorType := some error.className }
      telemetry.spanStatus span
      telemetry.spanAttribute span "error.type" error.className
      Code.raise error)
    fun _ => do
      let cell ← observed observation
      telemetry.spanAttribute span "groundedops.outcome" cell.outcome.value
      if cell.outcome = .error then telemetry.spanStatus span else pure ()

/-- What `operation` emits in the end. -/
def emit (call : OperationCall) (context : TelemetryContext) (observation : ℕ) (started : ℚ) :
    Code TelemetryWorld Y Unit := do
  let ended ← telemetry.readClock
  let durationSeconds := max 0 (ended - started)
  let cell ← observed observation
  let attributes : OperationAttributes :=
    ⟨call.component.value, call.operation.value, cell.outcome.value⟩
  bestEffort (telemetry.call (.addRequest attributes))
  bestEffort (telemetry.call (.recordDuration durationSeconds attributes))
  let failed : Bool := cell.outcome = .error
  let payload : OperationPayload :=
    { attributes with
      event := if failed then "operation_failed" else "operation_completed"
      correlationId := context.correlationId
      entryPoint := context.entryPoint.value
      durationMs := roundThousandths (durationSeconds * 1000)
      errorType := cell.errorType }
  bestEffort (telemetry.call (.log failed payload))

/-- The context of an operation that runs in none, which becomes the current one. -/
def bindNew (call : OperationCall) : Code TelemetryWorld Y TelemetryContext := do
  let context ← telemetry.newContext call.defaultEntryPoint
  setCurrent (some context)
  return context

def operation (call : OperationCall) : Code TelemetryWorld ℕ Unit := do
  let existing ← Code.read TelemetryWorld.current
  let context ← match existing with
    | some context => pure context
    | none => telemetry.bindNew call
  let observation ← newObservation
  let started ← telemetry.readClock
  Code.tryFinally
    (do
      let _ ← Code.within (telemetry.safeSpan call.operation)
        (telemetry.observing call context observation)
      return ())
    fun _ => do
      telemetry.emit call context observation started
      -- `_CURRENT.reset(context_token)`
      if existing.isNone then setCurrent none else pure ()

/-- `Telemetry.bind` -/
def bind (context : TelemetryContext) : Code TelemetryWorld TelemetryContext Unit := do
  let before ← Code.read TelemetryWorld.current
  setCurrent (some context)
  Code.tryFinally (Code.yield context) fun _ => setCurrent before

end Telemetry

/-! ## Bodies -/

/-- What runs inside an operation. What goes on after a nested operation may depend on how that
ended, as after a `try` around it. -/
inductive Body (A : Type)
  | done (result : Except Exn A)
  /-- `observation.outcome = outcome`, for the operation that is `depth` operations out -/
  | setOutcome (depth : ℕ) (outcome : TelemetryOutcome) (rest : Body A)
  | operation (call : OperationCall) (inner : Body A) (rest : Except Exn (Option A) → Body A)
  | bind (context : TelemetryContext) (inner : Body A) (rest : Except Exn (Option A) → Body A)

namespace Body

variable {A : Type}

/-- An assignment to the outcome of an operation around the body, if there is one so far out. -/
def assign (observations : List ℕ) (depth : ℕ) (outcome : TelemetryOutcome) :
    Code TelemetryWorld Empty Unit :=
  match observations[depth]? with
  | some observation => Telemetry.observe observation fun cell => { cell with outcome }
  | none => pure ()

/-- The body as it runs, with the observations of the operations around it. -/
def code (telemetry : Telemetry) : Body A → List ℕ → Code TelemetryWorld Empty A
  | .done result, _ => Code.act fun world => (result, world)
  | .setOutcome depth outcome rest, observations =>
    assign observations depth outcome >>= fun _ => rest.code telemetry observations
  | .operation call inner rest, observations =>
    (Code.within (telemetry.operation call) fun observation =>
        inner.code telemetry (observation :: observations)).result >>=
      fun result => (rest result).code telemetry observations
  | .bind context inner rest, observations =>
    (Code.within (Telemetry.bind context) fun _ => inner.code telemetry observations).result >>=
      fun result => (rest result).code telemetry observations

/-- The body without its telemetry: a `with` is its block. -/
def plain : Body A → Except Exn A
  | .done result => result
  | .setOutcome _ _ rest => rest.plain
  | .operation _ inner rest => (rest (inner.plain.map some)).plain
  | .bind _ inner rest => (rest (inner.plain.map some)).plain

end Body

end GroundedOps
