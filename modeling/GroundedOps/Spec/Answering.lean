import GroundedOps.Spec.Retrieval

/-!
# Grounded answers

`domain/answering.py` and the stages of `modules/answering`: the context packer, the
draft builder of `generator.py`, the citation verifier and the abstention decider.
The types carry the checks of their constructors; a `make` that returns `none` is
the `ValueError`.

Case folding is a parameter `casefold`: the stages use it and nothing depends on
what it maps a text to.
-/

namespace GroundedOps

open Hoare

/-! ## The public contracts -/

inductive VerificationStatus
  | unverified | verified | abstained
  deriving DecidableEq, Repr

def VerificationStatus.value : VerificationStatus → String
  | .unverified => "unverified"
  | .verified => "verified"
  | .abstained => "abstained"

inductive AbstentionReason
  | insufficientEvidence | unauthorizedEvidence | conflictingEvidence
  deriving DecidableEq, Repr

def AbstentionReason.value : AbstentionReason → String
  | .insufficientEvidence => "insufficient_evidence"
  | .unauthorizedEvidence => "unauthorized_evidence"
  | .conflictingEvidence => "conflicting_evidence"

def Question.check (id text : String) : Bool :=
  !isBlank id && !isBlank text && text.length ≤ 1000

structure Question where
  id : String
  text : String
  valid : Question.check id text = true
  deriving DecidableEq

def Citation.check (evidenceId documentVersionId : String) (span : ℤ × ℤ) : Bool :=
  !isBlank evidenceId && !isBlank documentVersionId && 0 ≤ span.1 && span.1 < span.2

structure Citation where
  evidenceId : String
  documentVersionId : String
  span : ℤ × ℤ
  resolved : Bool := false
  valid : Citation.check evidenceId documentVersionId span = true
  deriving DecidableEq

structure Claim where
  text : String
  citations : List Citation
  valid : isBlank text = false
  deriving DecidableEq

def AnswerUsage.check (model : String) (inputTokens outputTokens : ℤ) : Bool :=
  !isBlank model && 0 ≤ inputTokens && 0 ≤ outputTokens

structure AnswerUsage where
  model : String
  inputTokens : ℤ
  outputTokens : ℤ
  valid : AnswerUsage.check model inputTokens outputTokens = true
  deriving DecidableEq

def GroundedAnswer.check (claims : List Claim) (status : VerificationStatus)
    (abstentionReason : Option AbstentionReason) : Bool :=
  (status ≠ .verified ||
    (!claims.isEmpty && claims.all fun claim =>
      !claim.citations.isEmpty && claim.citations.all Citation.resolved)) &&
    if status = .abstained then abstentionReason.isSome && claims.isEmpty
    else abstentionReason.isNone

structure GroundedAnswer where
  question : Question
  claims : List Claim
  status : VerificationStatus
  usage : AnswerUsage
  abstentionReason : Option AbstentionReason := none
  valid : GroundedAnswer.check claims status abstentionReason = true
  deriving DecidableEq

def GroundedAnswer.make (question : Question) (claims : List Claim) (status : VerificationStatus)
    (usage : AnswerUsage) (abstentionReason : Option AbstentionReason) : Option GroundedAnswer :=
  if h : GroundedAnswer.check claims status abstentionReason = true then
    some ⟨question, claims, status, usage, abstentionReason, h⟩
  else none

/-! ## The context packer -/

/-- `(chunk_id, document_version_id, span)` of an evidence item. -/
def identity (item : Evidence) : String × String × (ℤ × ℤ) :=
  (item.chunkId, item.documentVersionId, item.span)

structure PackedContext where
  evidence : List Evidence
  tokenCount : ℕ
  maxTokens : ℕ
  conflicts : List (String × List String)
  truncated : Bool
  deriving DecidableEq

namespace ContextPacker

def deduplicate (evidence : List Evidence) : List Evidence := Dict.firsts identity evidence

/-- The values of the `sources` dictionary: the items of each source. -/
def sourceGroups (evidence : List Evidence) : List (List Evidence) :=
  (Dict.firsts id (evidence.map Evidence.sourceId)).map fun sourceId =>
    evidence.filter (·.sourceId = sourceId)

/-- The `while` loop, from depth `depth` on; `fuel` bounds its rounds. -/
def diverseRounds (groups : List (List Evidence)) (total : ℕ) :
    ℕ → ℕ → List Evidence → List Evidence
  | 0, _, ordered => ordered
  | fuel + 1, depth, ordered =>
    if ordered.length < total then
      diverseRounds groups total fuel (depth + 1)
        (ordered ++ groups.filterMap fun items => items[depth]?)
    else ordered

/-- A round below the greatest depth adds an item, so no more rounds than items are run. -/
def diverseOrder (evidence : List Evidence) : List Evidence :=
  diverseRounds (sourceGroups evidence) evidence.length evidence.length 0 []

/-- The loop that selects candidates, with the tokens selected so far. -/
def select (maxTokens : ℕ) : ℕ → List Evidence → List Evidence × ℕ
  | tokenCount, [] => ([], tokenCount)
  | tokenCount, item :: items =>
    let itemTokens := (splitWords item.text).length
    if maxTokens - tokenCount < itemTokens then select maxTokens tokenCount items
    else
      let (selected, count) := select maxTokens (tokenCount + itemTokens) items
      (item :: selected, count)

def conflicts (evidence : List Evidence) : List (String × List String) :=
  let documentIds := (Dict.firsts id (evidence.map Evidence.documentId)).mergeSort (· ≤ ·)
  (documentIds.map fun documentId =>
    let versions := (evidence.filter (·.documentId = documentId)).map Evidence.documentVersionId
    (documentId, (Dict.firsts id versions).mergeSort (· ≤ ·))).filter fun entry =>
      1 < entry.2.length

def pack (maxTokens : ℕ) (evidenceSet : EvidenceSet) : PackedContext :=
  let unique := deduplicate evidenceSet.evidence
  let (packed, tokenCount) := select maxTokens 0 (diverseOrder unique)
  { evidence := packed
    tokenCount := tokenCount
    maxTokens := maxTokens
    conflicts := conflicts packed
    truncated := packed.length < unique.length }

end ContextPacker

/-! ## Provider responses and the draft -/

structure ProposedCitation where
  evidenceId : String
  documentVersionId : String
  span : ℤ × ℤ
  deriving DecidableEq, Repr

structure ProposedClaim where
  text : String
  citations : List ProposedCitation
  deriving DecidableEq, Repr

structure GenerationResponse where
  claims : List ProposedClaim
  model : String
  inputTokens : ℤ
  outputTokens : ℤ
  deriving DecidableEq, Repr

inductive GenerationFailure
  | timeout | unavailable | incomplete | malformedOutput
  deriving DecidableEq, Repr

def GenerationFailure.value : GenerationFailure → String
  | .timeout => "timeout"
  | .unavailable => "provider_unavailable"
  | .incomplete => "incomplete"
  | .malformedOutput => "malformed_output"

structure GenerationProviderError where
  failure : GenerationFailure
  retryable : Bool
  deriving DecidableEq, Repr

/-- The key a citation and an evidence item are compared by. -/
def Citation.identity (citation : Citation) : String × String × (ℤ × ℤ) :=
  (citation.evidenceId, citation.documentVersionId, citation.span)

def draftCitation (citation : ProposedCitation) : Option Citation :=
  if h : Citation.check citation.evidenceId citation.documentVersionId citation.span = true then
    some ⟨citation.evidenceId, citation.documentVersionId, citation.span, false, h⟩
  else none

def draftClaim (claim : ProposedClaim) : Option Claim :=
  (claim.citations.mapM draftCitation).bind fun citations =>
    if h : isBlank claim.text = false then some ⟨claim.text, citations, h⟩ else none

/-- What `build_grounded_draft` raises. -/
inductive DraftError
  /-- `GenerationProviderError` -/
  | provider (error : GenerationProviderError)
  /-- the `ValueError` of an `AnswerUsage` -/
  | invalidUsage
  deriving DecidableEq, Repr

def malformedOutput : GenerationProviderError := ⟨.malformedOutput, false⟩

def buildGroundedDraft (question : Question) (context : PackedContext)
    (response : GenerationResponse) : Except DraftError GroundedAnswer :=
  let evidenceIdentities := context.evidence.map identity
  match response.claims.mapM draftClaim with
  | none => .error (.provider malformedOutput)
  | some claims =>
    if claims.isEmpty || claims.any (fun claim => claim.citations.isEmpty) ||
        claims.any (fun claim => claim.citations.any fun citation =>
          citation.identity ∉ evidenceIdentities) then
      .error (.provider malformedOutput)
    else if h : AnswerUsage.check response.model response.inputTokens response.outputTokens = true then
      .ok { question := question, claims := claims, status := .unverified,
            usage := ⟨response.model, response.inputTokens, response.outputTokens, h⟩,
            valid := rfl }
    else .error .invalidUsage

/-! ## The citation verifier -/

inductive VerificationFailure
  | missingCitation | evidenceNotFound | versionMismatch | spanMismatch | evidenceUnauthorized
  | unsupportedClaim
  deriving DecidableEq, Repr

structure VerificationResult where
  answer : GroundedAnswer
  failures : List VerificationFailure
  deriving DecidableEq

/-- The resolved copy of a citation. -/
def Citation.resolve (citation : Citation) : Citation := { citation with resolved := true }

namespace CitationVerifier

/-- `_resolve` -/
def resolve (citation : Citation) (evidence : List Evidence) : Except VerificationFailure Evidence :=
  let matchingId := evidence.filter (·.chunkId = citation.evidenceId)
  if matchingId.isEmpty then .error .evidenceNotFound
  else
    let matchingVersion := matchingId.filter (·.documentVersionId = citation.documentVersionId)
    if matchingVersion.isEmpty then .error .versionMismatch
    else
      match matchingVersion.find? (·.span = citation.span) with
      | some item => .ok item
      | none => .error .spanMismatch

/-- The loop over the citations of a claim: the failures, the resolved evidence. -/
def resolveAll (evidence : List Evidence) :
    List Citation → List VerificationFailure × List Evidence
  | [] => ([], [])
  | citation :: citations =>
    let (failures, resolved) := resolveAll evidence citations
    match resolve citation evidence with
    | .error failure => (failure :: failures, resolved)
    | .ok item => (failures, item :: resolved)

variable (casefold : String → String) (access : PolicyAccess) (correlationId : String)

/-- `_tokens` -/
def tokens (text : String) : List String := asciiWords (casefold text)

/-- One round of the loop over the claims: the verified claim, or the failures it adds. A
reference that is not valid raises. -/
def verifyClaim (evidence : List Evidence) (principal : Principal) (claim : Claim) :
    Act Unit PolicyLog (Except (List VerificationFailure) Claim) := do
  if claim.citations.isEmpty then return .error [.missingCitation]
  let (failures, resolved) := resolveAll evidence claim.citations
  if resolved.length ≠ claim.citations.length then return .error failures
  match resolved.mapM evidenceReference with
  | none => throw ()
  | some references =>
    let authorized ← tryCatch
      (some <$> PolicyEnforcer.authorizeReads access principal references correlationId)
      fun _ => pure none
    match authorized with
    | none => return .error [.evidenceUnauthorized]
    | some authorized =>
      if references.any fun reference => (lookupAuthorized authorized reference).isNone then
        return .error [.evidenceUnauthorized]
      let support := resolved.flatMap fun item => tokens casefold item.text
      if (tokens casefold claim.text).all fun token => token ∈ support then
        return .ok { claim with citations := claim.citations.map Citation.resolve }
      else return .error [.unsupportedClaim]

/-- The loop over the claims: the failures, the verified claims. -/
def verifyClaims (evidence : List Evidence) (principal : Principal) :
    List Claim → Act Unit PolicyLog (List VerificationFailure × List Claim)
  | [] => pure ([], [])
  | claim :: claims => do
    let outcome ← verifyClaim casefold access correlationId evidence principal claim
    let (failures, verified) ← verifyClaims evidence principal claims
    return match outcome with
      | .error new => (new ++ failures, verified)
      | .ok verifiedClaim => (failures, verifiedClaim :: verified)

def verify (answer : GroundedAnswer) (evidenceSet : EvidenceSet) (principal : Principal) :
    Act Unit PolicyLog VerificationResult := do
  if answer.status = .abstained then return ⟨answer, []⟩
  let (failures, verifiedClaims) ←
    verifyClaims casefold access correlationId evidenceSet.evidence principal answer.claims
  let uniqueFailures := Dict.firsts id failures
  if !uniqueFailures.isEmpty || verifiedClaims.length ≠ answer.claims.length then
    return ⟨answer, uniqueFailures⟩
  match GroundedAnswer.make answer.question verifiedClaims .verified answer.usage none with
  | none => throw ()
  | some verified => return ⟨verified, []⟩

end CitationVerifier

/-! ## Abstention -/

def AbstentionReason.message : AbstentionReason → String
  | .insufficientEvidence => "I do not have enough authorized evidence to answer this question."
  | .unauthorizedEvidence => "I cannot use the evidence required to answer this question."
  | .conflictingEvidence => "The authorized evidence contains an unresolved version conflict."

namespace AbstentionDecider

/-- `_has_irreconcilable_conflict` -/
def hasIrreconcilableConflict (casefold : String → String) (context : PackedContext) : Bool :=
  context.conflicts.any fun entry =>
    let texts := (context.evidence.filter (·.documentId = entry.1)).map fun item =>
      " ".intercalate (splitWords (casefold item.text))
    1 < (Dict.firsts id texts).length

/-- `decide`; a decision is its reason, and its message is the reason's. -/
def decision (casefold : String → String) (context : PackedContext)
    (verification : Option VerificationResult) (authorizationDenied : Bool) :
    Option AbstentionReason :=
  if authorizationDenied then some .unauthorizedEvidence
  else if context.evidence.isEmpty then some .insufficientEvidence
  else if hasIrreconcilableConflict casefold context then some .conflictingEvidence
  else if verification.any fun result => !result.failures.isEmpty then some .insufficientEvidence
  else none

/-- `to_answer` -/
def toAnswer (reason : AbstentionReason) (question : Question) (usage : AnswerUsage) :
    GroundedAnswer :=
  { question := question, claims := [], status := .abstained, usage := usage,
    abstentionReason := some reason, valid := rfl }

end AbstentionDecider

end GroundedOps
