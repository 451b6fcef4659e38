import GroundedOps.Lib.Batches
import GroundedOps.Lib.Hoare
import GroundedOps.Spec.Breaker
import GroundedOps.Spec.Text
import Mathlib.Data.Rat.Defs

/-!
# The embedder

`modules/embeddings/embedder.py`. The provider answers a request with anything at all or raises an
`EmbeddingProviderError`, and may answer by the requests before it. The circuit breaker may be shared:
before each of its operations others may have used it. Vectors are lists of rationals; SHA-256 is a
parameter.
-/

namespace GroundedOps

open Hoare

structure EmbeddingRequest where
  inputs : List String
  model : String
  dimensions : ℕ
  deriving DecidableEq, Repr

structure EmbeddingResponse where
  vectors : List (List ℚ)
  model : String
  usageTokens : ℤ
  deriving DecidableEq, Repr

structure EmbeddingProviderError where
  message : String
  retryable : Bool
  deriving DecidableEq, Repr

structure EmbeddingRecord where
  vector : List ℚ
  model : String
  modelVersion : String
  dimensions : ℕ
  contentHash : String
  kind : String
  usageTokens : ℤ
  deriving DecidableEq, Repr

/-- What an embedding call raises. -/
inductive EmbeddingError
  | provider (error : EmbeddingProviderError)
  | valueError (message : String)
  | indexError
  /-- `AssertionError("unreachable")` -/
  | assertion
  /-- `RuntimeError("open circuit requires timestamp")` -/
  | requiresTimestamp
  deriving DecidableEq, Repr

/-- What is raised inside of one attempt. -/
inductive EmbeddingAttemptError
  | circuit (error : AcquireError)
  | provider (error : EmbeddingProviderError)
  deriving DecidableEq, Repr

/-! ## The world -/

/-- A call of the provider, and what came of it. -/
structure EmbeddingCall where
  request : EmbeddingRequest
  outcome : Except EmbeddingProviderError EmbeddingResponse

structure EmbeddingWorld (T : Type) where
  breaker : CircuitBreaker T := {}
  calls : List EmbeddingCall := []
  /-- the operations of the breaker, each with a reading of the clock -/
  operations : ℕ := 0
  /-- the delays of `sleep` -/
  slept : List ℚ := []

/-- An open breaker has the time at which it was opened. -/
def CircuitBreaker.Stamped {T : Type} (b : CircuitBreaker T) : Prop :=
  b.state = .open → b.openedAt ≠ none

structure EmbeddingAccess (T : Type) [Zero T] [LinearOrder T] [Sub T] where
  policy : CircuitPolicy T
  /-- the answer to the last request of a history -/
  provider : List EmbeddingRequest → Except EmbeddingProviderError EmbeddingResponse
  clock : ℕ → T
  /-- what others have done to the breaker before an operation -/
  others : ℕ → CircuitBreaker T → CircuitBreaker T
  others_stamped : ∀ n b, b.Stamped → (others n b).Stamped
  sha256 : ByteArray → String

def Embedder.check (model modelVersion : String) (dimensions batchSize maxAttempts : ℕ)
    (retryDelays : List ℚ) : Bool :=
  model ≠ "" && modelVersion ≠ "" && 0 < dimensions && 0 < batchSize && 0 < maxAttempts &&
    maxAttempts ≤ 3 && maxAttempts - 1 ≤ retryDelays.length && retryDelays.all fun delay => 0 ≤ delay

/-- The constructor's arguments; it rejects those that do not pass `check`. -/
structure Embedder where
  model : String
  modelVersion : String
  dimensions : ℕ
  batchSize : ℕ := 64
  maxAttempts : ℕ := 2
  retryDelays : List ℚ := [1 / 20]
  valid : Embedder.check model modelVersion dimensions batchSize maxAttempts retryDelays = true

namespace Embedder

/-- `any(not value.strip() for value in inputs)` -/
def hasBlank (inputs : List String) : Bool := inputs.any isBlank

/-- `_validate_inputs`; `false` is its `ValueError`. -/
def validateInputs (inputs : List String) : Bool :=
  let tokenCounts := inputs.map fun value => (splitWords value).length
  !(inputs.isEmpty || hasBlank inputs || (tokenCounts.any fun count => 8192 < count) ||
    300000 < tokenCounts.sum)

section Attempts

variable {T : Type} [Zero T] [LinearOrder T] [Sub T] (access : EmbeddingAccess T)

/-- `_acquire`, after what others have done. -/
def acquire : Act EmbeddingAttemptError (EmbeddingWorld T) Unit := do
  let world : EmbeddingWorld T ← get
  let breaker := access.others world.operations world.breaker
  match breaker.acquire access.policy (access.clock world.operations) with
  | .ok breaker => set { world with breaker, operations := world.operations + 1 }
  | .error error =>
    set { world with breaker, operations := world.operations + 1 }
    throw (.circuit error)

/-- `_record_success` or `_record_failure`, after what others have done. -/
def record (f : CircuitBreaker T → T → CircuitBreaker T) :
    Act EmbeddingAttemptError (EmbeddingWorld T) Unit :=
  modify fun world =>
    { world with
      breaker := f (access.others world.operations world.breaker) (access.clock world.operations)
      operations := world.operations + 1 }

/-- `with self._circuit_breaker.attempt(): return self._provider.embed(request)` -/
def attempt (request : EmbeddingRequest) :
    Act EmbeddingAttemptError (EmbeddingWorld T) EmbeddingResponse := do
  acquire access
  let world : EmbeddingWorld T ← get
  let outcome := access.provider (world.calls.map EmbeddingCall.request ++ [request])
  set { world with calls := world.calls ++ [EmbeddingCall.mk request outcome] }
  match outcome with
  | .ok response =>
    record access fun b _ => b.recordSuccess
    return response
  | .error error =>
    record access fun b now => b.recordFailure access.policy now
    throw (.provider error)

variable (embedder : Embedder)

/-- The loop of `_request`, with the attempts that remain and the number of the next. -/
def requestFrom (request : EmbeddingRequest) :
    ℕ → ℕ → Act EmbeddingError (EmbeddingWorld T) EmbeddingResponse
  | 0, _ => throw .assertion
  | remaining + 1, number =>
    handle (attempt access request) fun error =>
      match error with
      | .circuit .circuitOpen =>
        throw (EmbeddingError.provider ⟨"embedding provider unavailable", true⟩)
      | .circuit .requiresTimestamp => throw EmbeddingError.requiresTimestamp
      | .provider error =>
        if !error.retryable || number + 1 == embedder.maxAttempts then
          throw (EmbeddingError.provider ⟨"embedding provider unavailable", error.retryable⟩)
        else
          match embedder.retryDelays[number]? with
          | none => throw EmbeddingError.indexError
          | some delay => do
            modify fun world => { world with slept := world.slept ++ [delay] }
            requestFrom request remaining (number + 1)

/-- `_request` -/
def request (request : EmbeddingRequest) : Act EmbeddingError (EmbeddingWorld T) EmbeddingResponse :=
  requestFrom access embedder request embedder.maxAttempts 0

/-- The two checks of a response. -/
def validResponse (batch : List String) (response : EmbeddingResponse) : Bool :=
  !(response.model != embedder.model || response.vectors.length != batch.length) &&
    !(response.vectors.any fun vector => vector.length != embedder.dimensions)

/-- `_distribute` -/
def distribute (total : ℤ) (size : ℕ) : List ℤ := Batches.shares total size

/-- The records of a batch; the three lists have one length, as `zip(…, strict=True)` asks. -/
def batchRecords (kind : String) (batch : List String) (response : EmbeddingResponse) :
    List EmbeddingRecord :=
  (batch.zip (response.vectors.zip (distribute response.usageTokens batch.length))).map
    fun (content, vector, usage) =>
      { vector := vector
        model := embedder.model
        modelVersion := embedder.modelVersion
        dimensions := embedder.dimensions
        contentHash := access.sha256 content.toUTF8
        kind := kind
        usageTokens := usage }

def embeddingRequest (batch : List String) : EmbeddingRequest :=
  ⟨batch, embedder.model, embedder.dimensions⟩

/-- The loop of `_embed` over the batches. -/
def embedBatches (kind : String) :
    List (List String) → List EmbeddingRecord → Act EmbeddingError (EmbeddingWorld T) (List EmbeddingRecord)
  | [], records => return records
  | batch :: batches, records => do
    let response ← request access embedder (embedder.embeddingRequest batch)
    if embedder.validResponse batch response then
      embedBatches kind batches (records ++ batchRecords access embedder kind batch response)
    else throw (.provider ⟨"embedding provider returned invalid response", false⟩)

/-- `_embed` -/
def embed (inputs : List String) (kind : String) :
    Act EmbeddingError (EmbeddingWorld T) (List EmbeddingRecord) :=
  if validateInputs inputs then
    embedBatches access embedder kind (Batches.batches embedder.batchSize inputs) []
  else throw (.valueError "invalid embedding input")

def embedPassages (passages : List String) :
    Act EmbeddingError (EmbeddingWorld T) (List EmbeddingRecord) :=
  embed access embedder passages "passage"

/-- `embed_query`: the one record of the query. -/
def embedQuery (query : String) : Act EmbeddingError (EmbeddingWorld T) EmbeddingRecord := do
  match ← embed access embedder [query] "query" with
  | record :: _ => return record
  | [] => throw .indexError

end Attempts

end Embedder

end GroundedOps
