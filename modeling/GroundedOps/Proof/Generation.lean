import GroundedOps.Proof.Ask
import GroundedOps.Spec.Generation

/-!
# The generation provider: what the model is told, and what is made of its answer

* `prompt_boundary`: **a request says one thing about the question and the evidence**, a message
  that reads back as them and as nothing else, whatever they contain.
* `stream_cases`: an attempt yields the deltas that the client streamed, and at its end one
  response or an error.
* `verified_from_model`: **a verified answer is what the model answered**, claim for claim, and
  cites what the request had told it of.
-/

namespace GroundedOps

open Hoare JsonText CitationVerifier

/-! ## The prompt -/

theorem spanData_inj {span span' : ℤ × ℤ} (h : spanData span = spanData span') : span = span' := by
  simp only [spanData, Data.arr.injEq, List.cons.injEq, Data.int.injEq, and_true] at h
  exact Prod.ext h.1 h.2

theorem promptItem_inj {item item' : PromptItem} (h : item.data = item'.data) : item = item' := by
  obtain ⟨evidenceId, documentId, documentVersionId, span, isCurrent, text⟩ := item
  obtain ⟨evidenceId', documentId', documentVersionId', span', isCurrent', text'⟩ := item'
  simp only [PromptItem.data, Data.obj.injEq, List.cons.injEq, Prod.mk.injEq, Data.str.injEq,
    Data.bool.injEq, true_and, and_true] at h
  obtain ⟨rfl, rfl, rfl, hspan, rfl, rfl⟩ := h
  rw [spanData_inj hspan]

theorem promptData_inj {question question' : String} {items items' : List PromptItem}
    (h : promptData question items = promptData question' items') :
    question = question' ∧ items = items' := by
  simp only [promptData, Data.obj.injEq, List.cons.injEq, Prod.mk.injEq, Data.str.injEq,
    Data.arr.injEq, true_and, and_true] at h
  obtain ⟨rfl, hitems⟩ := h
  exact ⟨rfl, List.map_injective_iff.2 (fun _ _ h => promptItem_inj h) hitems⟩

/-- **The prompt is a data boundary.** Two requests of a provider differ in the content of their one
message and in nothing else. That content is a line of printable ASCII; any JSON parser reads it as
an object of the question and the evidence, and it is the content for no other question and no
other evidence. -/
theorem prompt_boundary {ν : Type} (read : List ℕ → ν) (provider : OpenAIGenerationProvider)
    (question question' : Question) (context context' : PackedContext) :
    ∃ content : List Char,
      provider.request question context =
        { provider.request question' context' with input := [("user", content)] } ∧
      Printable content ∧
      Json.parse read (units content) =
        some ((promptData question.text (context.evidence.map promptItem)).value read) ∧
      ((provider.request question' context').input = [("user", content)] ↔
        question'.text = question.text ∧
          context'.evidence.map promptItem = context.evidence.map promptItem) := by
  refine ⟨_, rfl, dumps_printable _, parse_dumps _, fun h => ?_, fun h => ?_⟩
  · have hcontent : dumps (promptData question'.text (context'.evidence.map promptItem)) =
        dumps (promptData question.text (context.evidence.map promptItem)) :=
      (Prod.ext_iff.1 (List.cons.inj h).1).2
    exact promptData_inj (dumps_inj hcontent)
  · have hprompt : (buildGenerationPrompt question'.text context'.evidence).inputText =
        (buildGenerationPrompt question.text context.evidence).inputText := by
      unfold buildGenerationPrompt
      rw [h.1, h.2]
    rw [OpenAIGenerationProvider.request, hprompt]

/-! ## The response -/

/-- A claim of an answer, as a final event shows it. -/
def ClaimPayload.answered (claim : ClaimPayload) : AnswerClaim :=
  ⟨claim.text, claim.citations.map fun citation =>
    ⟨citation.evidenceId, citation.documentVersionId, [citation.span.1, citation.span.2]⟩⟩

/-- The claim of an answer that a proposed claim was made from. -/
def ProposedClaim.answered (claim : ProposedClaim) : AnswerClaim :=
  ⟨claim.text, claim.citations.map fun citation =>
    ⟨citation.evidenceId, citation.documentVersionId, [citation.span.1, citation.span.2]⟩⟩

theorem spanOf_eq_some {values : List ℤ} {span : ℤ × ℤ} (h : spanOf values = some span) :
    values = [span.1, span.2] := by
  unfold spanOf at h
  split at h
  · cases h
    rfl
  · cases h

theorem proposedCitation_eq_some {citation : AnswerCitation} {proposed : ProposedCitation}
    (h : proposedCitation citation = some proposed) :
    citation = ⟨proposed.evidenceId, proposed.documentVersionId,
      [proposed.span.1, proposed.span.2]⟩ := by
  obtain ⟨span, hspan, rfl⟩ := Option.map_eq_some_iff.1 h
  obtain ⟨evidenceId, documentVersionId, values⟩ := citation
  simp only [AnswerCitation.mk.injEq, true_and]
  exact spanOf_eq_some hspan

/-- What an optional function preserves, it preserves over a list. -/
theorem map_of_mapM {α β γ : Type} {f : α → Option β} {g : α → γ} {g' : β → γ} {l : List α}
    {l' : List β} (hkept : ∀ a b, f a = some b → g a = g' b) (h : l.mapM f = some l') :
    l.map g = l'.map g' := by
  induction l generalizing l' with
  | nil =>
    cases h
    rfl
  | cons a l ih =>
    rw [List.mapM_cons] at h
    cases ha : f a with
    | none =>
      rw [ha] at h
      cases h
    | some b =>
      rw [ha] at h
      cases hl : l.mapM f with
      | none =>
        simp only [hl, Option.bind_eq_bind, Option.bind_some] at h
        cases h
      | some bs =>
        simp only [hl, Option.bind_eq_bind, Option.bind_some] at h
        cases h
        rw [List.map_cons, List.map_cons, hkept a b ha, ih hl]

theorem proposedClaim_eq_some {claim : AnswerClaim} {proposed : ProposedClaim}
    (h : proposedClaim claim = some proposed) : claim = proposed.answered := by
  obtain ⟨citations, hcitations, rfl⟩ := Option.map_eq_some_iff.1 h
  obtain ⟨text, answered⟩ := claim
  have hback := map_of_mapM (g := id) (fun _ _ => proposedCitation_eq_some) hcitations
  rw [List.map_id] at hback
  rw [ProposedClaim.answered, ← hback]

namespace OpenAIGenerationProvider

variable {validate : String → Option (List AnswerClaim)} {result : ClientResponse}
  {response : GenerationResponse}

/-- What a response answers, when it is one that is taken. -/
structure Answers (validate : String → Option (List AnswerClaim)) (result : ClientResponse)
    (response : GenerationResponse) : Prop where
  error : result.error = false
  status : result.status = some "completed"
  claims : validate result.outputText = some (response.claims.map ProposedClaim.answered)
  claims_ne : response.claims ≠ []
  usage : result.usage = some ⟨response.inputTokens, response.outputTokens⟩
  model : result.model = response.model

theorem parseResponse_ok (h : parseResponse validate result = .ok response) :
    Answers validate result response := by
  unfold parseResponse at h
  split at h
  · cases h
  · rename_i herror
    split at h
    · cases h
    · rename_i hstatus
      split at h
      · rename_i payload usage hpayload husage
        split at h
        · cases h
        · rename_i hne
          split at h
          · cases h
          · rename_i claims hclaims
            cases h
            have hback := map_of_mapM (g := id) (fun _ _ => proposedClaim_eq_some) hclaims
            rw [List.map_id] at hback
            refine ⟨by simpa using herror, not_not.1 hstatus, hback ▸ hpayload, ?_, husage, rfl⟩
            rintro rfl
            rw [hback] at hne
            exact hne rfl
      · cases h

/-- The texts of the deltas before the event that ends the loop, if one does. -/
def deltaTexts : List ClientEvent → List String
  | .outputTextDelta delta :: events => delta :: deltaTexts events
  | .other :: events => deltaTexts events
  | _ => []

/-- **What an attempt yields**: the deltas, and a response only at the end of a stream in which
nothing failed. -/
theorem stream_cases (validate : String → Option (List AnswerClaim))
    (result : Except ClientError ClientResponse) (events : List ClientEvent) :
    (∃ ending, ending ≠ .exhausted ∧
      stream validate result events = ((deltaTexts events).map .delta, ending)) ∨
    ∃ answer response, result = .ok answer ∧ parseResponse validate answer = .ok response ∧
      (.incomplete ∉ events ∧ .failed ∉ events) ∧
      stream validate result events =
        ((deltaTexts events).map .delta ++ [.completed response], .exhausted) := by
  induction events with
  | nil =>
    unfold stream finish
    cases result with
    | error error =>
      dsimp only
      cases classify error with
      | none => exact Or.inl ⟨.raised, fun h => (nomatch h), rfl⟩
      | some error => exact Or.inl ⟨.providerError error, fun h => (nomatch h), rfl⟩
    | ok answer =>
      dsimp only
      cases hparse : parseResponse validate answer with
      | error error => exact Or.inl ⟨.providerError error, fun h => (nomatch h), rfl⟩
      | ok response =>
        exact Or.inr ⟨answer, response, rfl, hparse, ⟨List.not_mem_nil, List.not_mem_nil⟩, rfl⟩
  | cons event events ih =>
    cases event with
    | outputTextDelta delta =>
      rcases ih with ⟨ending, hne, hstream⟩ | ⟨answer, response, hok, hparse, hclean, hstream⟩
      · refine Or.inl ⟨ending, hne, ?_⟩
        rw [stream, hstream]
        rfl
      · refine Or.inr ⟨answer, response, hok, hparse, ?_, ?_⟩
        · simpa using hclean
        · rw [stream, hstream]
          rfl
    | incomplete => exact Or.inl ⟨.providerError ⟨.incomplete, false⟩, fun h => (nomatch h), rfl⟩
    | failed => exact Or.inl ⟨.providerError ⟨.unavailable, true⟩, fun h => (nomatch h), rfl⟩
    | other =>
      rcases ih with ⟨ending, hne, hstream⟩ | ⟨answer, response, hok, hparse, hclean, hstream⟩
      · refine Or.inl ⟨ending, hne, ?_⟩
        rw [stream, hstream]
        rfl
      · refine Or.inr ⟨answer, response, hok, hparse, ?_, ?_⟩
        · simpa using hclean
        · rw [stream, hstream]
          rfl

/-- A completed event is the answer of the client's final response. -/
theorem answers_of_completed {refused : Option AcquireError} {client : ClientStream}
    (h : .completed response ∈ (attempt validate refused client).events) :
    ∃ result, client.result = .ok result ∧ Answers validate result response := by
  unfold attempt at h
  rcases stream_cases validate client.result client.events with
    ⟨ending, -, hstream⟩ | ⟨answer, response', hok, hparse, -, hstream⟩
  · rw [hstream] at h
    simp at h
  · rw [hstream] at h
    simp only [List.mem_append, List.mem_map, reduceCtorEq, and_false, exists_false,
      List.mem_singleton, GenerationStreamEvent.completed.injEq, false_or] at h
    exact ⟨answer, hok, h ▸ parseResponse_ok hparse⟩

end OpenAIGenerationProvider

/-! ## The draft and the verified answer -/

section Draft

variable {question : Question} {context : PackedContext} {response : GenerationResponse}
  {draft : GroundedAnswer}

def Claim.answered (claim : Claim) : AnswerClaim :=
  ⟨claim.text, claim.citations.map fun citation =>
    ⟨citation.evidenceId, citation.documentVersionId, [citation.span.1, citation.span.2]⟩⟩

theorem draftCitation_eq_some {proposed : ProposedCitation} {citation : Citation}
    (h : draftCitation proposed = some citation) :
    proposed = ⟨citation.evidenceId, citation.documentVersionId, citation.span⟩ := by
  unfold draftCitation at h
  split at h
  · cases h
    rfl
  · cases h

theorem draftClaim_eq_some {proposed : ProposedClaim} {claim : Claim}
    (h : draftClaim proposed = some claim) : proposed.answered = claim.answered := by
  obtain ⟨citations, hcitations, hclaim⟩ := Option.bind_eq_some_iff.1 h
  split at hclaim
  · cases hclaim
    have hback := map_of_mapM (g := id) (fun _ _ => draftCitation_eq_some) hcitations
    rw [List.map_id] at hback
    simp only [ProposedClaim.answered, Claim.answered, hback, List.map_map]
    rfl
  · cases hclaim

/-- A draft says what the response says. -/
theorem draft_answered (h : buildGroundedDraft question context response = .ok draft) :
    draft.claims.map Claim.answered = response.claims.map ProposedClaim.answered ∧
      draft.usage.model = response.model ∧ draft.usage.inputTokens = response.inputTokens ∧
      draft.usage.outputTokens = response.outputTokens := by
  unfold buildGroundedDraft at h
  dsimp only at h
  split at h
  · cases h
  · rename_i claims hclaims
    split at h
    · cases h
    · split at h
      · cases h
        refine ⟨?_, rfl, rfl, rfl⟩
        exact (map_of_mapM (fun _ _ => draftClaim_eq_some) hclaims).symm
      · cases h

variable {casefold : String → String} {access : PolicyAccess} {correlationId : String}
  {evidenceSet : EvidenceSet} {principal : Principal} {log : PolicyLog}

/-- The verifier does not touch the usage. -/
theorem verify_usage : wp (verify casefold access correlationId draft evidenceSet principal)
    (fun result _ => result.answer.usage = draft.usage) (fun _ _ => True) log := by
  unfold verify
  split
  · exact rfl
  · rw [wp_bind]
    refine wp_mono wp_self (fun claims log₁ _ => ?_) (fun _ _ _ => trivial)
    dsimp only
    split
    · exact rfl
    · split
      · exact trivial
      · rename_i verified hmake
        unfold GroundedAnswer.make at hmake
        split at hmake
        · cases hmake
          exact rfl
        · cases hmake

/-- A verified answer says what its draft says. -/
theorem verified_answered {log' : PolicyLog} {answer : GroundedAnswer}
    (h : List.Forall₂ (ClaimVerified casefold evidenceSet.evidence principal log log')
      draft.claims answer.claims) :
    (claimPayloads answer).map ClaimPayload.answered = draft.claims.map Claim.answered := by
  unfold claimPayloads
  rw [List.map_map]
  generalize draft.claims = claims at h ⊢
  generalize answer.claims = verified at h ⊢
  induction h with
  | nil => rfl
  | cons hclaim _ ih =>
    rw [List.map_cons, List.map_cons, ih]
    congr 1
    simp only [Function.comp_apply, ClaimPayload.answered, Claim.answered, hclaim.text,
      hclaim.citations, List.map_map]
    rfl

end Draft

/-! ## The session -/

namespace AskService

variable {service : AskService} {env : AskEnvironment} {s : AskState} {log : PolicyLog}
  {context : PackedContext} {evidenceSet : EvidenceSet} {question : Question}
  {principal : Principal}

/-- The response of a stream is one of its events. -/
theorem readStream_completed {evidence : List Evidence} {ending : StreamEnd} :
    ∀ {events : List GenerationStreamEvent} {candidate : String} {emittedDelta : Bool}
      {completed : Option GenerationResponse} {s : AskState},
      wp (readStream env evidence ending events candidate emittedDelta completed)
        (fun outcome _ => ∀ response, outcome = .finished (some response) →
          completed = some response ∨ .completed response ∈ events)
        (fun _ _ => True) s := by
  intro events
  induction events with
  | nil =>
    intro candidate emittedDelta completed s
    unfold readStream
    cases ending with
    | exhausted =>
      intro response h
      cases h
      exact Or.inl rfl
    | providerError error =>
      intro response h
      cases h
    | raised => exact trivial
  | cons event events ih =>
    intro candidate emittedDelta completed s
    unfold readStream
    rw [wp_bind]
    refine wp_mono wp_self (fun cancelled s₁ _ => ?_) (fun _ _ _ => trivial)
    have hmore : ∀ {outcome : AttemptOutcome} {completed' : Option GenerationResponse},
        (∀ response, outcome = .finished (some response) →
          completed' = some response ∨ .completed response ∈ events) →
        (∀ response, completed' = some response →
          completed = some response ∨ event = .completed response) →
        ∀ response, outcome = .finished (some response) →
          completed = some response ∨ .completed response ∈ event :: events := by
      intro outcome completed' houtcome hlater response hfinished
      rcases houtcome response hfinished with hsame | hmem
      · rcases hlater response hsame with hsame | rfl
        · exact Or.inl hsame
        · exact Or.inr List.mem_cons_self
      · exact Or.inr (List.mem_cons_of_mem _ hmem)
    split
    · intro response h
      cases h
    · cases event with
      | delta text =>
        dsimp only
        split
        · rw [wp_bind]
          refine wp_mono wp_self (fun _ s₂ _ => ?_) (fun _ _ _ => trivial)
          exact wp_mono ih (fun _ _ h => hmore h fun _ hsame => Or.inl hsame) (fun _ _ h => h)
        · exact wp_mono ih (fun _ _ h => hmore h fun _ hsame => Or.inl hsame) (fun _ _ h => h)
      | completed response =>
        refine wp_mono ih (fun _ _ h => hmore h fun _ hsame => ?_) (fun _ _ h => h)
        exact Or.inr (congrArg _ (Option.some.inj hsame))

/-- The response of the attempts is an event of one of them. -/
theorem generate_completed : ∀ {left attempt : ℕ} {s : AskState},
    wp (generate service env context evidenceSet left attempt)
      (fun result _ => ∀ response, result = some response →
        ∃ n, .completed response ∈ (env.attempt n).events)
      (fun _ _ => True) s := by
  intro left
  induction left with
  | zero =>
    intro attempt s response h
    cases h
  | succ left ih =>
    intro attempt s
    have hrun : wp (runAttempt env context attempt)
        (fun outcome _ => ∀ response, outcome = .finished (some response) →
          .completed response ∈ (env.attempt attempt).events) (fun _ _ => True) s := by
      unfold runAttempt
      dsimp only
      split
      · intro response h
        cases h
      · exact trivial
      · rw [wp_bind]
        refine wp_mono wp_self (fun _ s₁ _ => ?_) (fun _ _ _ => trivial)
        refine wp_mono readStream_completed (fun outcome _ h response hfinished => ?_)
          (fun _ _ h => h)
        exact (h response hfinished).resolve_left (Option.some_ne_none response).symm
    have hdone : ∀ {event : AskEvent} {s : AskState},
        wp (do emit env event; return none : Act AskExit AskState (Option GenerationResponse))
          (fun result _ => ∀ response, result = some response →
            ∃ n, .completed response ∈ (env.attempt n).events)
          (fun _ _ => True) s := by
      intro event s
      rw [wp_bind]
      refine wp_mono wp_self (fun _ _ _ response h => ?_) (fun _ _ _ => trivial)
      cases h
    rw [generate, wp_bind]
    refine wp_mono hrun (fun outcome s₁ houtcome => ?_) (fun _ _ h => h)
    cases outcome with
    | circuitOpen => exact hdone
    | cancelled =>
      intro response h
      cases h
    | failed error emittedDelta =>
      dsimp only
      split
      · exact ih
      · exact hdone
    | finished completed =>
      cases completed with
      | none => exact hdone
      | some response =>
        intro response' h
        cases h
        exact ⟨attempt, houtcome response rfl⟩

/-- A final event shows the response, and cites the context that it was asked about. -/
structure Shows (context : PackedContext) (response : GenerationResponse)
    (payload : FinalPayload) : Prop where
  claims : payload.claims.map ClaimPayload.answered = response.claims.map ProposedClaim.answered
  answer : payload.answer = some (" ".intercalate (response.claims.map ProposedClaim.text))
  usage : payload.usage.map (fun usage => (usage.model, usage.inputTokens, usage.outputTokens)) =
    some (response.model, response.inputTokens, response.outputTokens)
  cited : ∀ claim ∈ payload.claims, ∀ citation ∈ claim.citations,
    citation.resolved = true ∧ ∃ item ∈ context.evidence.map promptItem,
      item.evidenceId = citation.evidenceId ∧
        item.documentVersionId = citation.documentVersionId ∧ item.span = citation.span

theorem finalAnswer_shows {response : GenerationResponse} {draft answer : GroundedAnswer}
    {log' : PolicyLog} {casefold : String → String}
    (hdraft : buildGroundedDraft question context response = .ok draft)
    (hverified : List.Forall₂ (ClaimVerified casefold evidenceSet.evidence principal log log')
      draft.claims answer.claims) (husage : answer.usage = draft.usage)
    {payload : FinalPayload} (hpayload : finalAnswer answer evidenceSet = .final payload) :
    Shows context response payload := by
  obtain ⟨hclaims, hmodel, hinput, houtput⟩ := draft_answered hdraft
  have hcites := (buildGroundedDraft_ok hdraft).2
  have hanswered := (verified_answered hverified).trans hclaims
  cases hpayload
  refine ⟨hanswered, ?_, ?_, fun claim hclaim citation hcitation => ?_⟩
  · -- the texts are those of the claims
    have htexts : (claimPayloads answer).map ClaimPayload.text =
        response.claims.map ProposedClaim.text := by
      have h := congrArg (List.map AnswerClaim.text) hanswered
      simpa only [List.map_map, Function.comp_def, ClaimPayload.answered,
        ProposedClaim.answered] using h
    have hjoined : answer.claims.map Claim.text = (claimPayloads answer).map ClaimPayload.text := by
      rw [claimPayloads, List.map_map]
      rfl
    dsimp only
    rw [hjoined, htexts]
  · dsimp only [Option.map_some]
    rw [husage, hmodel, hinput, houtput]
  · obtain ⟨drafted, hmem, _, -, -, hcitations⟩ := exists_claim_of_payload hverified hclaim
    rw [hcitations] at hcitation
    obtain ⟨proposed, hproposed, rfl⟩ := List.mem_map.1 hcitation
    obtain ⟨item, hitem, hid⟩ := hcites drafted hmem proposed hproposed
    simp only [identity, Citation.identity, Prod.mk.injEq] at hid
    exact ⟨rfl, promptItem item, List.mem_map_of_mem hitem, hid.1, hid.2.1, hid.2.2⟩

/-- Every verified final event so far shows a response that an attempt completed with. -/
def Told (service : AskService) (env : AskEnvironment) (evidenceSet : EvidenceSet) (s : AskState) :
    Prop :=
  ∀ payload, .final payload ∈ s.events → payload.status = "verified" →
    ∃ n response, .completed response ∈ (env.attempt n).events ∧
      Shows (ContextPacker.pack service.maxTokens evidenceSet) response payload

theorem told_of_old (hold : ∀ event ∈ s.events, Unverified event) :
    Told service env evidenceSet s :=
  fun payload hmem hstatus => absurd hstatus (hold _ hmem payload rfl)

/-- One event after others of which none is verified. -/
theorem told_append {event : AskEvent} (hold : ∀ event ∈ s.events, Unverified event)
    (hnew : ∀ payload, event = .final payload → payload.status = "verified" →
      ∃ n response, .completed response ∈ (env.attempt n).events ∧
        Shows (ContextPacker.pack service.maxTokens evidenceSet) response payload) :
    Told service env evidenceSet { s with events := s.events ++ [event] } := by
  intro payload hmem hstatus
  rcases List.mem_append.1 hmem with hmem | hmem
  · exact absurd hstatus (hold _ hmem payload rfl)
  · exact hnew payload (List.mem_singleton.1 hmem).symm hstatus

theorem answerFrom_told (hs : Quiet log s) :
    wp (answerFrom service env question principal evidenceSet)
      (fun _ => Told service env evidenceSet) (fun _ => Told service env evidenceSet) s := by
  have hemit : ∀ {s : AskState} {event : AskEvent},
      Told service env evidenceSet { s with events := s.events ++ [event] } →
      wp (emit env event) (fun _ => Told service env evidenceSet)
        (fun _ => Told service env evidenceSet) s := by
    intro s event htold
    refine wp_mono emit_spec (fun _ _ h => ?_) (fun _ _ h => ?_)
    · rw [h]; exact htold
    · rw [h]; exact htold
  have hquiet : ∀ {s : AskState} {event : AskEvent},
      (∀ event ∈ s.events, Unverified event) → Unverified event →
      wp (emit env event) (fun _ => Told service env evidenceSet)
        (fun _ => Told service env evidenceSet) s := by
    intro s event hold hevent
    exact hemit (told_append hold fun payload heq hstatus => absurd hstatus (hevent payload heq))
  unfold answerFrom
  dsimp only
  split
  · exact hquiet hs.2 unverified_finalAbstention
  · rw [wp_bind]
    refine wp_mono (emit_quiet hs unverified_status) (fun _ s₁ hs₁ => ?_)
      (fun _ _ h => told_of_old h.2)
    rw [wp_bind]
    refine wp_mono (wp_and (generate_quiet hs₁) generate_completed) (fun completed s₂ h₂ => ?_)
      (fun _ _ h => told_of_old h.1.2)
    obtain ⟨hs₂, hcompleted⟩ := h₂
    cases completed with
    | none => exact told_of_old hs₂.2
    | some response =>
      obtain ⟨n, hevent⟩ := hcompleted response rfl
      dsimp only
      split
      · exact hquiet hs₂.2 unverified_failure
      · exact told_of_old hs₂.2
      · rename_i draft hdraft
        have hunverified := (buildGroundedDraft_ok hdraft).1
        rw [wp_bind]
        refine wp_mono (policyCall_spec (wp_and (verify_spec hunverified) verify_usage))
          (fun result s₃ h₃ => ?_) (fun _ _ h => h.elim)
        obtain ⟨hevents, -, hok, -⟩ := h₃
        have hold : ∀ event ∈ s₃.events, Unverified event := by rw [hevents]; exact hs₂.2
        cases result with
        | error error => exact told_of_old hold
        | ok verification =>
          obtain ⟨hverified, husage⟩ := hok verification rfl
          dsimp only
          split
          · exact hquiet hold unverified_finalAbstention
          · refine hemit (told_append hold fun payload hpayload hstatus => ?_)
            -- only the verifier's own status prints as `verified`
            have hanswer : verification.answer.status = .verified := by
              cases hpayload
              revert hstatus
              cases verification.answer.status <;> simp [VerificationStatus.value]
            exact ⟨n, response, hevent, finalAnswer_shows hdraft (hverified hanswer) husage hpayload⟩

/-- What a session with this provider has to say of a verified final event. -/
def ModelAnswered (service : AskService) (env : AskEnvironment)
    (validate : String → Option (List AnswerClaim)) (client : ℕ → ClientStream)
    (question : Question) (principal : Principal) (log : PolicyLog) (s : AskState) : Prop :=
  ∀ payload, .final payload ∈ s.events → payload.status = "verified" →
    ∃ evidenceSet before n result answer,
      exec (env.retrieve (queryContext question principal)) log = (.ok evidenceSet, before) ∧
      (client n).result = .ok result ∧ result.error = false ∧
      result.status = some "completed" ∧ validate result.outputText = some answer ∧
      payload.claims.map ClaimPayload.answered = answer ∧
      payload.answer = some (" ".intercalate (answer.map AnswerClaim.text)) ∧
      payload.usage.map (fun usage =>
        (usage.model, (⟨usage.inputTokens, usage.outputTokens⟩ : ResponseUsage))) =
          result.usage.map (fun usage => (result.model, usage)) ∧
      ∀ claim ∈ payload.claims, ∀ citation ∈ claim.citations, citation.resolved = true ∧
        ∃ item ∈ (ContextPacker.pack service.maxTokens evidenceSet).evidence.map promptItem,
          item.evidenceId = citation.evidenceId ∧
            item.documentVersionId = citation.documentVersionId ∧ item.span = citation.span

theorem modelAnswered_of_told {validate : String → Option (List AnswerClaim)}
    {refused : ℕ → Option AcquireError} {client : ℕ → ClientStream} {before : PolicyLog}
    (hretrieved : exec (env.retrieve (queryContext question principal)) log =
      (.ok evidenceSet, before))
    (h : Told service (env.overClient validate refused client) evidenceSet s) :
    ModelAnswered service env validate client question principal log s := by
  intro payload hmem hstatus
  obtain ⟨n, response, hevent, hshows⟩ := h payload hmem hstatus
  obtain ⟨result, hresult, hanswers⟩ := OpenAIGenerationProvider.answers_of_completed hevent
  refine ⟨evidenceSet, before, n, result, _, hretrieved, hresult, hanswers.error, hanswers.status,
    hanswers.claims, hshows.claims, ?_, ?_, hshows.cited⟩
  · rw [hshows.answer, List.map_map]
    rfl
  · have husage := hshows.usage
    cases hpayload : payload.usage with
    | none =>
      rw [hpayload] at husage
      cases husage
    | some usage =>
      rw [hpayload, Option.map_some, Option.some.injEq, Prod.mk.injEq, Prod.mk.injEq] at husage
      obtain ⟨hmodel, hinput, houtput⟩ := husage
      rw [hanswers.usage, Option.map_some, Option.map_some, hmodel, hinput, houtput, hanswers.model]

/-- **The rule for a session**: what holds as long as no event is verified, and of the answer from
whatever was retrieved, holds of the session however it ends. -/
theorem wp_events_of {Q : AskState → Prop}
    (hold : ∀ {s : AskState}, (∀ event ∈ s.events, Unverified event) → Q s)
    (hanswer : ∀ {evidenceSet : EvidenceSet} {before : PolicyLog} {s : AskState},
      exec (env.retrieve (queryContext question principal)) log = (.ok evidenceSet, before) →
      Quiet before s →
      wp (answerFrom service env question principal evidenceSet) (fun _ => Q) (fun _ => Q) s) :
    wp (events service env question principal) (fun _ => Q) (fun _ => Q) { log := log } := by
  have hstart : Quiet log { log := log } := ⟨rfl, fun _ h => absurd h List.not_mem_nil⟩
  unfold events
  rw [wp_bind]
  refine wp_mono (emit_quiet hstart unverified_status) (fun _ s₁ hs₁ => ?_) (fun _ _ h => hold h.2)
  rw [wp_bind]
  refine wp_mono (readCancelled_quiet hs₁) (fun cancelled s₂ hs₂ => ?_) (fun _ _ h => hold h.2)
  split
  · exact hold hs₂.2
  · rw [wp_bind]
    refine wp_mono (policyCall_spec wp_self) (fun result s₃ h₃ => ?_) (fun _ _ h => h.elim)
    obtain ⟨hevents, -, hok, -⟩ := h₃
    have hquiet : Quiet s₃.log s₃ := ⟨rfl, by rw [hevents]; exact hs₂.2⟩
    cases result with
    | error error =>
      cases error with
      | unavailable degradationReason =>
        exact wp_mono (emit_quiet hquiet unverified_failure) (fun _ _ h => hold h.2)
          (fun _ _ h => hold h.2)
      | other => exact hold hquiet.2
    | ok evidenceSet =>
      have hretrieved := hok evidenceSet rfl
      rw [hs₂.1] at hretrieved
      exact hanswer hretrieved hquiet

/-- **A verified answer is what the model answered.** Whatever the client streams and returns in
the attempts of a session, and whatever else the session meets: a verified final event shows, claim
for claim and citation for citation, the answer in the text of one completed response of the
client, with that response's usage; and each citation is of an item of the evidence in the request
that the response answers. -/
theorem verified_from_model (service : AskService) (env : AskEnvironment)
    (validate : String → Option (List AnswerClaim)) (refused : ℕ → Option AcquireError)
    (client : ℕ → ClientStream) (question : Question) (principal : Principal) (log : PolicyLog) :
    wp (events service (env.overClient validate refused client) question principal)
      (fun _ => ModelAnswered service env validate client question principal log)
      (fun _ => ModelAnswered service env validate client question principal log)
      { log := log } := by
  refine wp_events_of (fun hold payload hmem hstatus => absurd hstatus (hold _ hmem payload rfl))
    fun hretrieved hquiet => ?_
  exact wp_mono (answerFrom_told hquiet) (fun _ _ h => modelAnswered_of_told hretrieved h)
    (fun _ _ h => modelAnswered_of_told hretrieved h)

end AskService

end GroundedOps
