import GroundedOps.Spec.Answering
import GroundedOps.Spec.Breaker

/-!
# The Ask session

`interfaces/http/ask.py`: `AskService._events` with `_generate`, and the payloads of
its events; `GroundedDeltaGuard` of `modules/security/untrusted_content.py`.

A session is a generator. `emit` is a `yield`: it appends the event, and the consumer
may close the generator there. What the session meets is an `AskEnvironment`: the
retriever, the stores behind the verifier's enforcer, what each attempt at the provider
does (the circuit breaker is shared with other sessions, so its answer is part of
this), and every reading of `session.cancelled`.
-/

namespace GroundedOps

open Hoare

/-! ## Payloads -/

structure CitationPayload where
  evidenceId : String
  documentVersionId : String
  span : ℤ × ℤ
  resolved : Bool
  deriving DecidableEq, Repr

structure ClaimPayload where
  text : String
  citations : List CitationPayload
  deriving DecidableEq, Repr

structure SourcePayload where
  evidenceId : String
  sourceId : String
  documentId : String
  documentVersionId : String
  span : ℤ × ℤ
  deriving DecidableEq, Repr

structure ErrorPayload where
  code : String
  message : String
  deriving DecidableEq, Repr

structure DegradedPayload where
  active : Bool
  mode : Option String
  reason : Option String
  deriving DecidableEq, Repr

/-- The payload of a final event; only an answer has an `answer_id` and only a failure or a
fallback an `error`. -/
structure FinalPayload where
  status : String
  answerId : Option String := none
  answer : Option String
  claims : List ClaimPayload
  sources : List SourcePayload
  usage : Option AnswerUsage
  abstention : Option String
  error : Option ErrorPayload := none
  degraded : DegradedPayload
  deriving DecidableEq

inductive AskEvent
  | status (status : String)
  | delta (text : String)
  | final (payload : FinalPayload)
  deriving DecidableEq

/-- `_claims` -/
def claimPayloads (answer : GroundedAnswer) : List ClaimPayload :=
  answer.claims.map fun claim =>
    ⟨claim.text, claim.citations.map fun citation =>
      ⟨citation.evidenceId, citation.documentVersionId, citation.span, citation.resolved⟩⟩

def sourcePayload (item : Evidence) : SourcePayload :=
  ⟨item.chunkId, item.sourceId, item.documentId, item.documentVersionId, item.span⟩

/-- The set of identities that an answer cites. -/
def citedIdentities (answer : GroundedAnswer) : List (String × String × (ℤ × ℤ)) :=
  answer.claims.flatMap fun claim => claim.citations.map Citation.identity

/-- `_sources` -/
def sourcePayloads (answer : GroundedAnswer) (evidenceSet : EvidenceSet) : List SourcePayload :=
  (evidenceSet.evidence.filter fun item => (citedIdentities answer).contains (identity item)).map
    sourcePayload

/-- `_degraded` -/
def degradedPayload (evidenceSet : EvidenceSet) : DegradedPayload :=
  ⟨evidenceSet.degraded, if evidenceSet.degraded then some "bm25_only" else none,
    evidenceSet.degradationReason⟩

/-- `_final_answer` -/
def finalAnswer (answer : GroundedAnswer) (evidenceSet : EvidenceSet) : AskEvent :=
  .final
    { status := answer.status.value
      answerId := some answer.question.id
      answer := some (" ".intercalate (answer.claims.map Claim.text))
      claims := claimPayloads answer
      sources := sourcePayloads answer evidenceSet
      usage := some answer.usage
      abstention := none
      degraded := degradedPayload evidenceSet }

/-- `_final_abstention` -/
def finalAbstention (decision : AbstentionReason) (question : Question) (usage : AnswerUsage)
    (evidenceSet : EvidenceSet) : AskEvent :=
  let answer := AbstentionDecider.toAnswer decision question usage
  .final
    { status := answer.status.value
      answer := some decision.message
      claims := []
      sources := []
      usage := some answer.usage
      abstention := some decision.value
      degraded := degradedPayload evidenceSet }

/-- `_failure` -/
def failure (code message : String) : AskEvent :=
  .final
    { status := "failed"
      answer := none
      claims := []
      sources := []
      usage := none
      abstention := none
      error := some ⟨code, message⟩
      degraded := ⟨false, none, none⟩ }

/-- `_generation_failure` -/
def generationFailure (error : GenerationProviderError) : AskEvent :=
  failure ("generation_" ++ error.failure.value) "generation temporarily unavailable"

/-- `_generation_fallback`, with `_evidence_sources` -/
def generationFallback (error : GenerationProviderError) (evidenceSet : EvidenceSet) : AskEvent :=
  let code := "generation_" ++ error.failure.value
  .final
    { status := "degraded"
      answer := none
      claims := []
      sources := evidenceSet.evidence.map sourcePayload
      usage := none
      abstention := none
      error := some ⟨code, "generation temporarily unavailable"⟩
      degraded := ⟨true, some "evidence_only", some code⟩ }

/-! ## The environment of a session -/

inductive GenerationStreamEvent
  /-- `GenerationDelta` -/
  | delta (text : String)
  /-- `GenerationCompleted` -/
  | completed (response : GenerationResponse)
  deriving DecidableEq, Repr

/-- How the stream of an attempt ends. -/
inductive StreamEnd
  | exhausted
  | providerError (error : GenerationProviderError)
  /-- any other exception -/
  | raised
  deriving DecidableEq, Repr

/-- One attempt at the provider: what `_acquire` raises, if it does, and the stream. -/
structure GenerationAttempt where
  refused : Option AcquireError
  events : List GenerationStreamEvent
  ending : StreamEnd
  deriving DecidableEq, Repr

structure AskEnvironment where
  /-- the retriever, any at all -/
  retrieve : QueryContext → Act RetrievalError PolicyLog EvidenceSet
  /-- the stores behind the verifier's enforcer -/
  access : PolicyAccess
  correlationId : String
  attempt : ℕ → GenerationAttempt
  /-- the `n`-th reading of `session.cancelled` -/
  cancelled : ℕ → Bool
  /-- whether the consumer closes the generator at its `n`-th event -/
  closed : ℕ → Bool

/-- The checked arguments of `AskService` and of its packer, and `str.casefold`. -/
structure AskService where
  maxTokens : ℕ
  maxGenerationAttempts : ℕ
  casefold : String → String
  maxTokens_pos : 0 < maxTokens
  maxGenerationAttempts_pos : 0 < maxGenerationAttempts
  maxGenerationAttempts_le : maxGenerationAttempts ≤ 2

/-- What a session has done: the events it yielded, the calls of the enforcers, the readings
of `session.cancelled`, and for each call of `provider.stream` how many events had been
yielded before it. -/
structure AskState where
  log : PolicyLog := {}
  events : List AskEvent := []
  readings : ℕ := 0
  calls : List ℕ := []

/-- How a session ends other than by returning. -/
inductive AskExit
  /-- the consumer closed the generator -/
  | closed
  /-- an exception went through it -/
  | raised
  deriving DecidableEq, Repr

/-! ## The session -/

namespace AskService

variable (service : AskService) (env : AskEnvironment)

/-- `yield`: the consumer may close the generator at the event. -/
def emit (event : AskEvent) : Act AskExit AskState Unit := do
  let s ← get
  set { s with events := s.events ++ [event] }
  if env.closed s.events.length then throw .closed

/-- `session.cancelled` -/
def readCancelled : Act AskExit AskState Bool := do
  let s ← get
  set { s with readings := s.readings + 1 }
  return env.cancelled s.readings

/-- A call that goes through an enforcer. -/
def policyCall {ε α : Type} (call : Act ε PolicyLog α) : Act AskExit AskState (Except ε α) := do
  let s ← get
  let (result, log) := exec call s.log
  set { s with log := log }
  return result

/-- `GroundedDeltaGuard.filter`, for a candidate that already has the delta. -/
def deltaReleased (evidence : List Evidence) (candidate : String) : Bool :=
  !candidate.isEmpty && evidence.any fun item => candidate.toList.isPrefixOf item.text.toList

/-- What is left of an attempt when its stream has been read. -/
inductive AttemptOutcome
  | circuitOpen
  | cancelled
  | failed (error : GenerationProviderError) (emittedDelta : Bool)
  | finished (completed : Option GenerationResponse)

/-- `provider.stream` -/
def callProvider : Act AskExit AskState Unit := do
  let s ← get
  set { s with calls := s.calls ++ [s.events.length] }

/-- The loop over the events of a stream, with the guard's candidate. -/
def readStream (evidence : List Evidence) (ending : StreamEnd) :
    List GenerationStreamEvent → String → Bool → Option GenerationResponse →
      Act AskExit AskState AttemptOutcome
  | [], _, emittedDelta, completed =>
    match ending with
    | .exhausted => pure (.finished completed)
    | .providerError error => pure (.failed error emittedDelta)
    | .raised => throw .raised
  | event :: events, candidate, emittedDelta, completed => do
    if ← readCancelled env then return .cancelled
    match event with
    | .delta text =>
      let candidate := candidate ++ text
      if deltaReleased evidence candidate then
        emit env (.delta text)
        readStream evidence ending events candidate true completed
      else readStream evidence ending events candidate emittedDelta completed
    | .completed response =>
      readStream evidence ending events candidate emittedDelta (some response)

/-- The body of the loop in `_generate`, up to its exception handlers. -/
def runAttempt (context : PackedContext) (attempt : ℕ) : Act AskExit AskState AttemptOutcome :=
  let answer := env.attempt attempt
  match answer.refused with
  | some .circuitOpen => pure .circuitOpen
  | some .requiresTimestamp => throw .raised
  | none => do
    callProvider
    readStream env context.evidence answer.ending answer.events "" false none

/-- `_generate`, from attempt number `attempt` on, with `left` attempts left. -/
def generate (context : PackedContext) (evidenceSet : EvidenceSet) :
    (left attempt : ℕ) → Act AskExit AskState (Option GenerationResponse)
  | 0, _ => return none
  | left + 1, attempt => do
    match ← runAttempt env context attempt with
    | .circuitOpen =>
      emit env (generationFallback ⟨.unavailable, true⟩ evidenceSet)
      return none
    | .cancelled => return none
    | .failed error emittedDelta =>
      if error.retryable && !emittedDelta && attempt + 1 < service.maxGenerationAttempts then
        generate context evidenceSet left (attempt + 1)
      else
        emit env <|
          if error.failure = .incomplete ∨ error.failure = .malformedOutput then
            generationFailure error
          else generationFallback error evidenceSet
        return none
    | .finished none =>
      emit env (generationFailure ⟨.incomplete, false⟩)
      return none
    | .finished (some response) => return some response

/-- The context that `_events` retrieves for: a valid question is a valid query. -/
def queryContext (question : Question) (principal : Principal) : QueryContext where
  query := question.text
  principal := principal
  valid := by
    have h := question.valid
    simp only [Question.check, Bool.and_eq_true] at h
    rw [QueryContext.check, h.1.2, h.2]
    rfl

def noUsage : AnswerUsage := ⟨"none", 0, 0, by decide⟩

/-- `_events`, from the evidence on. -/
def answerFrom (question : Question) (principal : Principal) (evidenceSet : EvidenceSet) :
    Act AskExit AskState Unit := do
  let context := ContextPacker.pack service.maxTokens evidenceSet
  match AbstentionDecider.decision service.casefold context none false with
  | some earlyAbstention =>
    emit env (finalAbstention earlyAbstention question noUsage evidenceSet)
  | none =>
    emit env (.status "generating")
    match ← generate service env context evidenceSet service.maxGenerationAttempts 0 with
    | none => return ()
    | some response =>
      match buildGroundedDraft question context response with
      | .error (.provider error) => emit env (generationFailure error)
      | .error .invalidUsage => throw .raised
      | .ok draft =>
        match ← policyCall (CitationVerifier.verify service.casefold env.access
            env.correlationId draft evidenceSet principal) with
        | .error _ => throw .raised
        | .ok verification =>
          match AbstentionDecider.decision service.casefold context (some verification) false with
          | some decision => emit env (finalAbstention decision question draft.usage evidenceSet)
          | none => emit env (finalAnswer verification.answer evidenceSet)

/-- `_events` -/
def events (question : Question) (principal : Principal) : Act AskExit AskState Unit := do
  emit env (.status "retrieving")
  if ← readCancelled env then return ()
  match ← policyCall (env.retrieve (queryContext question principal)) with
  | .error (.unavailable _) =>
    emit env (failure "retrieval_unavailable" "retrieval temporarily unavailable")
  | .error .other => throw .raised
  | .ok evidenceSet => answerFrom service env question principal evidenceSet

end AskService

end GroundedOps
