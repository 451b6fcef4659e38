import GroundedOps.Proof.Answering
import GroundedOps.Spec.Ask

/-!
# Verified answers are sound, from the retriever to the event

* `finalAnswer_sound`: the event built from an answer that the verifier marked verified
  says what `SoundAnswer` asks for, given the packed context its draft was built on.
* `events_sound`: **so does every final event with status `verified` that a session
  emits**, whatever it meets and wherever the consumer stops it.
-/

namespace GroundedOps

open Hoare CitationVerifier

def CitationPayload.identity (citation : CitationPayload) : String × String × (ℤ × ℤ) :=
  (citation.evidenceId, citation.documentVersionId, citation.span)

/-- What a verified final event has to say: of the packed context, of the calls of the policy
store between `log` and `log'`, and of the retrieved evidence. -/
structure SoundAnswer (casefold : String → String) (context : PackedContext)
    (evidenceSet : EvidenceSet) (principal : Principal) (log log' : PolicyLog)
    (payload : FinalPayload) : Prop where
  claims_ne : payload.claims ≠ []
  cited : ∀ claim ∈ payload.claims, claim.citations ≠ []
  resolved : ∀ claim ∈ payload.claims, ∀ citation ∈ claim.citations, citation.resolved = true ∧
    ∃ item ∈ context.evidence, identity item = citation.identity
  authorized : ∀ claim ∈ payload.claims, ∀ citation ∈ claim.citations, ∀ item ∈ context.evidence,
    identity item = citation.identity → Authorized principal log log' item
  supported : ∀ claim ∈ payload.claims, ∀ token ∈ tokens casefold claim.text,
    ∃ citation ∈ claim.citations, ∃ item ∈ context.evidence,
      identity item = citation.identity ∧ token ∈ tokens casefold item.text
  answer : payload.answer = some (" ".intercalate (payload.claims.map ClaimPayload.text))
  sources : payload.sources = (evidenceSet.evidence.filter fun item =>
    payload.claims.any fun claim => claim.citations.any fun citation =>
      citation.identity = identity item).map sourcePayload

/-! ## The event of a verified answer -/

section Answer

variable {casefold : String → String} {context : PackedContext} {evidenceSet : EvidenceSet}
  {principal : Principal} {log log' : PolicyLog} {draft answer : GroundedAnswer}

/-- A payload's claim comes from a verified claim, and that from a claim of the draft. -/
theorem exists_claim_of_payload
    (hverified : List.Forall₂ (ClaimVerified casefold evidenceSet.evidence principal log log')
      draft.claims answer.claims)
    {claimPayload : ClaimPayload} (h : claimPayload ∈ claimPayloads answer) :
    ∃ claim ∈ draft.claims, ∃ verified,
      ClaimVerified casefold evidenceSet.evidence principal log log' claim verified ∧
        claimPayload.text = claim.text ∧
        claimPayload.citations = claim.citations.map fun citation =>
          ⟨citation.evidenceId, citation.documentVersionId, citation.span, true⟩ := by
  obtain ⟨verified, hmem, rfl⟩ := List.mem_map.1 h
  obtain ⟨claim, hclaim, hv⟩ := (Lists.exists_of_forall₂ hverified).2 verified hmem
  refine ⟨claim, hclaim, verified, hv, hv.text, ?_⟩
  simp only [hv.citations, List.map_map]
  rfl

theorem sourcePayloads_eq : sourcePayloads answer evidenceSet =
    (evidenceSet.evidence.filter fun item =>
      (claimPayloads answer).any fun claim => claim.citations.any fun citation =>
        citation.identity = identity item).map sourcePayload := by
  unfold sourcePayloads
  congr 1
  apply List.filter_congr
  intro item _
  rw [Bool.eq_iff_iff]
  simp only [citedIdentities, claimPayloads, List.contains_iff_mem, decide_eq_true_eq, List.mem_flatMap, List.mem_map,
    List.any_map, List.any_eq_true, Function.comp_apply]
  rfl

/-- **The event of a verified answer is sound**, when the draft cites the packed context. -/
theorem finalAnswer_sound
    (hverified : List.Forall₂ (ClaimVerified casefold evidenceSet.evidence principal log log')
      draft.claims answer.claims)
    (hstatus : answer.status = .verified)
    (hpacked : ∀ item ∈ context.evidence,
      evidenceSet.evidence.find? (fun other => identity other = identity item) = some item)
    (hdraft : ∀ claim ∈ draft.claims, ∀ citation ∈ claim.citations,
      ∃ item ∈ context.evidence, identity item = citation.identity)
    {payload : FinalPayload} (hpayload : finalAnswer answer evidenceSet = .final payload) :
    SoundAnswer casefold context evidenceSet principal log log' payload := by
  cases hpayload
  refine ⟨?_, ?_, ?_, ?_, ?_, ?_, sourcePayloads_eq⟩
  · have hvalid := answer.valid
    simp only [GroundedAnswer.check, hstatus, ne_eq, not_true, decide_false, Bool.false_or,
      Bool.and_eq_true, Bool.not_eq_true', List.isEmpty_eq_false_iff] at hvalid
    simpa [claimPayloads] using hvalid.1.1
  · intro claimPayload hmem
    obtain ⟨claim, -, _, hv, -, hcitations⟩ := exists_claim_of_payload hverified hmem
    rw [hcitations]
    simpa using hv.cited
  · intro claimPayload hmem citation hcitation
    obtain ⟨claim, hclaim, _, -, -, hcitations⟩ := exists_claim_of_payload hverified hmem
    rw [hcitations] at hcitation
    obtain ⟨proposed, hproposed, rfl⟩ := List.mem_map.1 hcitation
    exact ⟨rfl, hdraft claim hclaim proposed hproposed⟩
  · intro claimPayload hmem citation hcitation item hitem hid
    obtain ⟨claim, -, _, hv, -, hcitations⟩ := exists_claim_of_payload hverified hmem
    rw [hcitations] at hcitation
    obtain ⟨proposed, hproposed, rfl⟩ := List.mem_map.1 hcitation
    -- the packed item is the one the verifier resolved the citation to
    have hfirst := hpacked item hitem
    rw [hid] at hfirst
    exact hv.authorized proposed hproposed item hfirst
  · intro claimPayload hmem token htoken
    obtain ⟨claim, hclaim, _, hv, htext, hcitations⟩ := exists_claim_of_payload hverified hmem
    rw [htext] at htoken
    obtain ⟨proposed, hproposed, item, hitem, htok⟩ := hv.supported token htoken
    obtain ⟨packed, hpackedmem, hid⟩ := hdraft claim hclaim proposed hproposed
    have hfirst := hpacked packed hpackedmem
    rw [hid, hitem] at hfirst
    cases hfirst
    rw [hcitations]
    exact ⟨_, List.mem_map_of_mem hproposed, item, hpackedmem, hid, htok⟩
  · simp only [claimPayloads, List.map_map]
    rfl

end Answer

/-! ## The session -/

namespace AskService

variable {service : AskService} {env : AskEnvironment} {s s₀ : AskState} {log : PolicyLog}
  {event : AskEvent} {context : PackedContext} {evidenceSet : EvidenceSet}
  {question : Question} {principal : Principal}

/-- `yield` appends the event, whether or not the consumer stops there. -/
theorem emit_spec : wp (emit env event)
    (fun _ s' => s' = { s with events := s.events ++ [event] })
    (fun _ s' => s' = { s with events := s.events ++ [event] }) s := by
  unfold emit
  simp only [wp_bind, wp_get, wp_set]
  split <;> simp

/-! ## What holds of every event -/

section Emits

variable {P : AskEvent → Prop}

/-- All events so far have a property, and the enforcers were last called as in `log`. -/
def Emits (P : AskEvent → Prop) (log : PolicyLog) (s : AskState) : Prop :=
  s.log = log ∧ ∀ event ∈ s.events, P event

theorem emit_emits (hs : Emits P log s) (hevent : P event) :
    wp (emit env event) (fun _ => Emits P log) (fun _ => Emits P log) s := by
  have hemits : Emits P log { s with events := s.events ++ [event] } := by
    refine ⟨hs.1, fun other hother => ?_⟩
    rcases List.mem_append.1 hother with hold | hnew
    · exact hs.2 other hold
    · rw [List.mem_singleton.1 hnew]; exact hevent
  exact wp_mono emit_spec (fun _ _ h => h ▸ hemits) (fun _ _ h => h ▸ hemits)

theorem readCancelled_emits (hs : Emits P log s) :
    wp (readCancelled env) (fun _ => Emits P log) (fun _ => Emits P log) s := hs

/-- Reading a stream emits deltas only. -/
theorem readStream_emits (hdelta : ∀ text, P (.delta text)) {evidence : List Evidence}
    {ending : StreamEnd} :
    ∀ {events : List GenerationStreamEvent} {candidate : String} {emittedDelta : Bool}
      {completed : Option GenerationResponse} {s : AskState}, Emits P log s →
      wp (readStream env evidence ending events candidate emittedDelta completed)
        (fun _ => Emits P log) (fun _ => Emits P log) s := by
  intro events
  induction events with
  | nil =>
    intro candidate emittedDelta completed s hs
    unfold readStream
    cases ending <;> exact hs
  | cons event events ih =>
    intro candidate emittedDelta completed s hs
    unfold readStream
    rw [wp_bind]
    refine wp_mono (readCancelled_emits hs) (fun cancelled s₁ hs₁ => ?_) (fun _ _ h => h)
    split
    · exact hs₁
    · cases event with
      | delta text =>
        simp only
        split
        · rw [wp_bind]
          exact wp_mono (emit_emits hs₁ (hdelta text)) (fun _ _ hs₂ => ih hs₂) (fun _ _ h => h)
        · exact ih hs₁
      | completed response => exact ih hs₁

theorem runAttempt_emits (hdelta : ∀ text, P (.delta text)) {attempt : ℕ} (hs : Emits P log s) :
    wp (runAttempt env context attempt) (fun _ => Emits P log) (fun _ => Emits P log) s := by
  unfold runAttempt
  simp only
  split
  · exact hs
  · exact hs
  · -- the call of the provider is no event
    simp only [callProvider, wp_bind, wp_get, wp_set]
    exact readStream_emits hdelta hs

/-- The attempts emit deltas, failures and fallbacks. -/
theorem generate_emits (hdelta : ∀ text, P (.delta text))
    (hfailure : ∀ error, P (generationFailure error))
    (hfallback : ∀ error, P (generationFallback error evidenceSet)) :
    ∀ {left attempt : ℕ} {s : AskState}, Emits P log s →
      wp (generate service env context evidenceSet left attempt)
        (fun _ => Emits P log) (fun _ => Emits P log) s := by
  intro left
  induction left with
  | zero => intro attempt s hs; exact hs
  | succ left ih =>
    intro attempt s hs
    rw [generate, wp_bind]
    refine wp_mono (runAttempt_emits hdelta hs) (fun outcome s₁ hs₁ => ?_) (fun _ _ h => h)
    have hdone : ∀ {event : AskEvent}, P event →
        wp (do emit env event; return none : Act AskExit AskState (Option GenerationResponse))
          (fun _ => Emits P log) (fun _ => Emits P log) s₁ := by
      intro event hevent
      rw [wp_bind]
      exact wp_mono (emit_emits hs₁ hevent) (fun _ _ h => h) (fun _ _ h => h)
    cases outcome with
    | circuitOpen => exact hdone (hfallback _)
    | cancelled => exact hs₁
    | failed error emittedDelta =>
      simp only
      split
      · exact ih hs₁
      · refine hdone ?_
        split
        · exact hfailure error
        · exact hfallback error
    | finished completed =>
      cases completed with
      | none => exact hdone (hfailure _)
      | some response => exact hs₁

end Emits

/-! ## What is verified -/

/-- The event is not a verified answer. -/
def Unverified (event : AskEvent) : Prop :=
  ∀ payload, event = .final payload → payload.status ≠ "verified"

/-- Nothing verified has been emitted, and the enforcers were last called as in `log`. -/
def Quiet (log : PolicyLog) (s : AskState) : Prop :=
  s.log = log ∧ ∀ event ∈ s.events, Unverified event

theorem emit_quiet (hs : Quiet log s) (hevent : Unverified event) :
    wp (emit env event) (fun _ => Quiet log) (fun _ => Quiet log) s := emit_emits hs hevent

theorem readCancelled_quiet (hs : Quiet log s) :
    wp (readCancelled env) (fun _ => Quiet log) (fun _ => Quiet log) s := hs

theorem unverified_failure {code message : String} : Unverified (failure code message) := by
  rintro payload ⟨⟩; simp

theorem unverified_generationFallback {error : GenerationProviderError} :
    Unverified (generationFallback error evidenceSet) := by
  rintro payload ⟨⟩; simp

theorem unverified_finalAbstention {decision : AbstentionReason} {usage : AnswerUsage} :
    Unverified (finalAbstention decision question usage evidenceSet) := by
  rintro payload ⟨⟩; simp [AbstentionDecider.toAnswer, VerificationStatus.value]

theorem unverified_status {status : String} : Unverified (.status status) := by
  rintro payload ⟨⟩

theorem unverified_delta {text : String} : Unverified (.delta text) := by
  rintro payload ⟨⟩

theorem generate_quiet {left attempt : ℕ} (hs : Quiet log s) :
    wp (generate service env context evidenceSet left attempt)
      (fun _ => Quiet log) (fun _ => Quiet log) s :=
  generate_emits (fun _ => unverified_delta) (fun _ => unverified_failure)
    (fun _ => unverified_generationFallback) hs

/-- Every verified final event so far is sound, for the packed context and the calls of the
policy store since `log`. -/
def Sound (service : AskService) (evidenceSet : EvidenceSet) (principal : Principal)
    (log : PolicyLog) (s : AskState) : Prop :=
  ∀ payload, .final payload ∈ s.events → payload.status = "verified" →
    SoundAnswer service.casefold (ContextPacker.pack service.maxTokens evidenceSet) evidenceSet
      principal log s.log payload

theorem sound_of_quiet (hs : Quiet log s) : Sound service evidenceSet principal log s :=
  fun payload hmem hstatus => absurd hstatus (hs.2 _ hmem payload rfl)

/-- The event of an answer is the only one that can be verified, so it decides. -/
theorem sound_append (hold : ∀ event ∈ s.events, Unverified event)
    (hnew : ∀ payload, event = .final payload → payload.status = "verified" →
      SoundAnswer service.casefold (ContextPacker.pack service.maxTokens evidenceSet) evidenceSet
        principal log s.log payload) :
    Sound service evidenceSet principal log { s with events := s.events ++ [event] } := by
  intro payload hmem hstatus
  rcases List.mem_append.1 hmem with hmem | hmem
  · exact absurd hstatus (hold _ hmem payload rfl)
  · exact hnew payload (List.mem_singleton.1 hmem).symm hstatus

/-- A call of an enforcer is no event and no call of the provider. -/
theorem policyCall_spec {ε α : Type} {call : Act ε PolicyLog α} {N : α → PolicyLog → Prop}
    {E : ε → PolicyLog → Prop} (h : wp call N E s.log) :
    wp (policyCall call)
      (fun result s' => s'.events = s.events ∧ s'.calls = s.calls ∧
        (∀ a, result = .ok a → N a s'.log) ∧ ∀ e, result = .error e → E e s'.log)
      (fun _ _ => False) s := by
  unfold policyCall
  simp only [wp_bind, wp_get, wp_set, wp_pure]
  unfold wp at h
  rcases hexec : exec call s.log with ⟨result, log'⟩
  rw [hexec] at h
  cases result with
  | ok a =>
    refine ⟨trivial, trivial, ?_, ?_⟩
    · intro _ heq; cases heq; exact h
    · intro _ heq; cases heq
  | error e =>
    refine ⟨trivial, trivial, ?_, ?_⟩
    · intro _ heq; cases heq
    · intro _ heq; cases heq; exact h

theorem answerFrom_sound (hs : Quiet log s) :
    wp (answerFrom service env question principal evidenceSet)
      (fun _ => Sound service evidenceSet principal log)
      (fun _ => Sound service evidenceSet principal log) s := by
  have hquiet : ∀ {s : AskState} {event : AskEvent},
      (∀ event ∈ s.events, Unverified event) → Unverified event →
      wp (emit env event) (fun _ => Sound service evidenceSet principal log)
        (fun _ => Sound service evidenceSet principal log) s := by
    intro s event hold hevent
    refine wp_mono emit_spec (fun _ _ h => ?_) (fun _ _ h => ?_)
    · rw [h]; exact sound_append hold fun payload heq hstatus => absurd hstatus (hevent payload heq)
    · rw [h]; exact sound_append hold fun payload heq hstatus => absurd hstatus (hevent payload heq)
  unfold answerFrom
  simp only
  split
  · exact hquiet hs.2 unverified_finalAbstention
  · rw [wp_bind]
    refine wp_mono (emit_quiet hs unverified_status) (fun _ s₁ hs₁ => ?_)
      (fun _ _ h => sound_of_quiet h)
    rw [wp_bind]
    refine wp_mono (generate_quiet hs₁) (fun completed s₂ hs₂ => ?_) (fun _ _ h => sound_of_quiet h)
    cases completed with
    | none => exact sound_of_quiet hs₂
    | some response =>
      simp only
      split
      · exact hquiet hs₂.2 unverified_failure
      · exact sound_of_quiet hs₂
      · rename_i draft hdraft
        obtain ⟨hunverified, hcites⟩ := buildGroundedDraft_ok hdraft
        rw [wp_bind]
        refine wp_mono (policyCall_spec (verify_spec hunverified)) (fun result s₃ h₃ => ?_)
          (fun _ _ h => h.elim)
        obtain ⟨hevents, -, hok, -⟩ := h₃
        have hold : ∀ event ∈ s₃.events, Unverified event := by rw [hevents]; exact hs₂.2
        cases result with
        | error e =>
          intro payload hmem hstatus
          exact absurd hstatus (hold _ hmem payload rfl)
        | ok verification =>
          have hverified := hok verification rfl
          rw [hs₂.1] at hverified
          simp only
          split
          · exact hquiet hold unverified_finalAbstention
          · have hlast : Sound service evidenceSet principal log
                { s₃ with events := s₃.events ++ [finalAnswer verification.answer evidenceSet] } := by
              refine sound_append hold fun payload hpayload hstatus => ?_
              -- only the verifier's own status prints as `verified`
              have hanswer : verification.answer.status = .verified := by
                cases hpayload
                revert hstatus
                cases verification.answer.status <;> simp [VerificationStatus.value]
              exact finalAnswer_sound (hverified hanswer) hanswer
                (fun item hitem => ContextPacker.mem_pack hitem) hcites hpayload
            refine wp_mono emit_spec (fun _ _ h => ?_) (fun _ _ h => ?_)
            · rw [h]; exact hlast
            · rw [h]; exact hlast

/-- The verified final events of a session are sound for the evidence that was retrieved. -/
def SessionSound (service : AskService) (env : AskEnvironment) (question : Question)
    (principal : Principal) (log : PolicyLog) (s : AskState) : Prop :=
  ∀ payload, .final payload ∈ s.events → payload.status = "verified" →
    ∃ evidenceSet before,
      exec (env.retrieve (queryContext question principal)) log = (.ok evidenceSet, before) ∧
      SoundAnswer service.casefold (ContextPacker.pack service.maxTokens evidenceSet) evidenceSet
        principal before s.log payload

/-- **Verified answers are sound end to end.** Whatever the retriever returns, the provider's
attempts yield and the policy store answers, and whether or not the session is cancelled or
closed on the way: if it has emitted a final event with status `verified`, the claims of that
event are not empty, each has a citation, each citation is resolved and is one of the packed
items, the policy store let the principal read every such item during verification, the cited
items have every token of the claim, the answer is the claims' texts joined, and the sources
are the retrieved items that are cited. -/
theorem events_sound (service : AskService) (env : AskEnvironment) (question : Question)
    (principal : Principal) (log : PolicyLog) :
    wp (events service env question principal)
      (fun _ => SessionSound service env question principal log)
      (fun _ => SessionSound service env question principal log) { log := log } := by
  have hsession : ∀ {s : AskState}, (∀ event ∈ s.events, Unverified event) →
      SessionSound service env question principal log s :=
    fun hold payload hmem hstatus => absurd hstatus (hold _ hmem payload rfl)
  have hstart : Quiet log { log := log } := ⟨rfl, fun _ h => absurd h List.not_mem_nil⟩
  unfold events
  rw [wp_bind]
  refine wp_mono (emit_quiet hstart unverified_status) (fun _ s₁ hs₁ => ?_) (fun _ _ h => hsession h.2)
  rw [wp_bind]
  refine wp_mono (readCancelled_quiet hs₁) (fun cancelled s₂ hs₂ => ?_) (fun _ _ h => hsession h.2)
  split
  · exact hsession hs₂.2
  · rw [wp_bind]
    refine wp_mono (policyCall_spec wp_self) (fun result s₃ h₃ => ?_) (fun _ _ h => h.elim)
    obtain ⟨hevents, -, hok, -⟩ := h₃
    have hold : ∀ event ∈ s₃.events, Unverified event := by rw [hevents]; exact hs₂.2
    cases result with
    | error error =>
      cases error with
      | unavailable degradationReason =>
        have hs₃ : Quiet s₃.log s₃ := ⟨rfl, hold⟩
        exact wp_mono (emit_quiet hs₃ unverified_failure) (fun _ _ h => hsession h.2)
          (fun _ _ h => hsession h.2)
      | other => exact hsession hold
    | ok evidenceSet =>
      have hretrieved := hok evidenceSet rfl
      rw [hs₂.1] at hretrieved
      have hs₃ : Quiet s₃.log s₃ := ⟨rfl, hold⟩
      refine wp_mono (answerFrom_sound hs₃) (fun _ s₄ hsound => ?_) (fun _ s₄ hsound => ?_)
      · exact fun payload hmem hstatus =>
          ⟨evidenceSet, s₃.log, hretrieved, hsound payload hmem hstatus⟩
      · exact fun payload hmem hstatus =>
          ⟨evidenceSet, s₃.log, hretrieved, hsound payload hmem hstatus⟩

end AskService

end GroundedOps
