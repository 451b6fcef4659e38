import GroundedOps.Proof.Ask
import GroundedOps.Proof.Breaker

/-!
# The protocol of a session

What a session that is neither cancelled nor closed yields, when its retriever and its
provider fail only in the ways they document.

* `verify_returns`: the verifier does not raise, and passes an answer only as verified.
* `generate_protocol`: the attempts at the provider yield deltas, then at most one final
  event, and no attempt follows a delta.
* `events_returns`: a session that is not cancelled ends so, or raises because of what it meets.
* `session_protocol`: **a session yields `retrieving`, then a final event, or `generating`,
  deltas and a final event.**
-/

namespace GroundedOps

open Hoare PolicyEnforcer

/-! ## The verifier returns -/

namespace CitationVerifier

variable {casefold : String → String} {access : PolicyAccess} {correlationId : String}
  {evidence : List Evidence} {claim : Claim} {principal : Principal} {log : PolicyLog}

theorem resolveAll_length {citations : List Citation} :
    (resolveAll evidence citations).1.length + (resolveAll evidence citations).2.length =
      citations.length := by
  induction citations with
  | nil => rfl
  | cons citation citations ih =>
    simp only [resolveAll]
    cases resolve citation evidence with
    | error failure =>
      simp only [List.length_cons]
      omega
    | ok item =>
      simp only [List.length_cons]
      omega

theorem mem_resolveAll {citations : List Citation} {item : Evidence}
    (h : item ∈ (resolveAll evidence citations).2) : item ∈ evidence := by
  induction citations with
  | nil => exact absurd h List.not_mem_nil
  | cons citation citations ih =>
    simp only [resolveAll] at h
    cases hres : resolve citation evidence with
    | error failure =>
      rw [hres] at h
      exact ih h
    | ok found =>
      rw [hres] at h
      rcases List.mem_cons.1 h with rfl | hmem
      · exact List.mem_of_find?_eq_some (resolve_ok hres)
      · exact ih hmem

/-- A claim that may stand in a verified answer. -/
def Resolved (claim : Claim) : Prop :=
  claim.citations ≠ [] ∧ ∀ citation ∈ claim.citations, citation.resolved = true

/-- The items have valid identifiers. -/
def Referable (evidence : List Evidence) : Prop :=
  ∀ item ∈ evidence, (evidenceReference item).isSome = true

/-- **One claim**: verified, or at least one failure. -/
theorem verifyClaim_returns :
    wp (verifyClaim casefold access correlationId evidence principal claim)
      (fun outcome _ => (∀ failures, outcome = .error failures → failures ≠ []) ∧
        ∀ verified, outcome = .ok verified → Resolved verified)
      (fun _ _ => ¬ Referable evidence) log := by
  have hfailed : ∀ failures, failures ≠ [] →
      (∀ failures', (.error failures : Except (List VerificationFailure) Claim) = .error failures' →
        failures' ≠ []) ∧ ∀ verified, (.error failures : Except _ Claim) = .ok verified →
          Resolved verified := by
    intro failures hne
    refine ⟨fun failures' heq => ?_, fun verified heq => ?_⟩
    · cases heq; exact hne
    · cases heq
  unfold verifyClaim
  by_cases hcited : claim.citations = []
  · simp only [hcited, List.isEmpty_nil, if_true, wp_pure]
    exact hfailed _ (by simp)
  · have hne : claim.citations.isEmpty = false := by simpa using hcited
    simp only [hne, Bool.false_eq_true, if_false]
    by_cases hlen : (resolveAll evidence claim.citations).2.length = claim.citations.length
    · simp only [hlen, ne_eq, not_true, if_false]
      cases href : (resolveAll evidence claim.citations).2.mapM evidenceReference with
      | none =>
        -- a reference is not valid
        rw [wp_throw]
        intro hvalid
        obtain ⟨references, hsome⟩ := Lists.exists_mapM fun item hitem => hvalid item (mem_resolveAll hitem)
        rw [href] at hsome
        cases hsome
      | some references =>
        simp only [wp_bind, wp_tryCatch, wp_map, wp_pure]
        refine wp_mono wp_self (fun authorized log' _ => ?_) (fun _ log' _ => hfailed _ (by simp))
        split
        · exact hfailed _ (by simp)
        · split
          · refine ⟨fun failures heq => ?_, fun verified heq => ?_⟩
            · cases heq
            · cases heq
              refine ⟨by simpa using hcited, fun citation hcitation => ?_⟩
              obtain ⟨citation₀, -, rfl⟩ := List.mem_map.1 hcitation
              rfl
          · exact hfailed _ (by simp)
    · -- a citation that is not resolved has a failure
      have hsum : (resolveAll evidence claim.citations).1.length +
          (resolveAll evidence claim.citations).2.length = claim.citations.length :=
        resolveAll_length
      simp only [hlen, ne_eq, not_false_eq_true, if_true, wp_pure]
      refine hfailed _ fun hnil => hlen ?_
      rw [hnil, List.length_nil] at hsum
      omega

theorem verifyClaims_returns :
    ∀ {claims : List Claim} {log : PolicyLog},
      wp (verifyClaims casefold access correlationId evidence principal claims)
        (fun result _ => (result.1 = [] → result.2.length = claims.length) ∧
          ∀ verified ∈ result.2, Resolved verified)
        (fun _ _ => ¬ Referable evidence) log := by
  intro claims
  induction claims with
  | nil => exact fun {log} => ⟨fun _ => rfl, fun _ h => absurd h List.not_mem_nil⟩
  | cons claim claims ih =>
    intro log
    rw [verifyClaims, wp_bind]
    refine wp_mono verifyClaim_returns (fun outcome log₁ h₁ => ?_) (fun _ _ h => h)
    obtain ⟨hfailures, hverified⟩ := h₁
    rw [wp_bind]
    refine wp_mono ih (fun result log₂ h₂ => ?_) (fun _ _ h => h)
    obtain ⟨hlen, hall⟩ := h₂
    simp only [wp_pure]
    cases outcome with
    | error new =>
      refine ⟨fun hnil => ?_, hall⟩
      exact absurd (List.append_eq_nil_iff.1 hnil).1 (hfailures new rfl)
    | ok verified =>
      refine ⟨fun hnil => congrArg Nat.succ (hlen hnil), fun v hv => ?_⟩
      rcases List.mem_cons.1 hv with rfl | hv
      · exact hverified v rfl
      · exact hall v hv

/-- Claims that are all resolved make a verified answer. -/
theorem make_verified {question : Question} {claims : List Claim} {usage : AnswerUsage}
    (hne : claims ≠ []) (hall : ∀ claim ∈ claims, Resolved claim) :
    ∃ answer, GroundedAnswer.make question claims .verified usage none = some answer ∧
      answer.status = .verified ∧ answer.question = question := by
  have hcheck : GroundedAnswer.check claims .verified none = true := by
    have hempty : claims.isEmpty = false := by simpa using hne
    have hclaims : (claims.all fun claim =>
        !claim.citations.isEmpty && claim.citations.all Citation.resolved) = true := by
      refine List.all_eq_true.2 fun claim hclaim => ?_
      obtain ⟨hcited, hresolved⟩ := hall claim hclaim
      rw [Bool.and_eq_true]
      exact ⟨by simpa using hcited, List.all_eq_true.2 hresolved⟩
    simp only [GroundedAnswer.check, hempty, hclaims]
    decide
  exact ⟨_, dif_pos hcheck, rfl, rfl⟩

/-- **The verifier does not raise** for evidence with valid identifiers, and an answer without
failures is the draft's question, verified. -/
theorem verify_returns {answer : GroundedAnswer} {evidenceSet : EvidenceSet}
    (hdraft : answer.status = .unverified) (hclaims : answer.claims ≠ []) :
    wp (verify casefold access correlationId answer evidenceSet principal)
      (fun result _ => result.failures = [] →
        result.answer.status = .verified ∧ result.answer.question = answer.question)
      (fun _ _ => ¬ Referable evidenceSet.evidence) log := by
  unfold verify
  rw [hdraft]
  simp only [reduceCtorEq, if_false, wp_bind]
  refine wp_mono verifyClaims_returns (fun result log' h => ?_) (fun _ _ h => h)
  obtain ⟨hlen, hall⟩ := h
  have hfirsts : Dict.firsts id result.1 = [] → result.1 = [] := by
    intro hnil
    by_contra hne
    exact Dict.firsts_id_ne_nil hne hnil
  split
  · rename_i hfailed
    rw [wp_pure]
    intro hnone
    have hnil : Dict.firsts id result.1 = [] := hnone
    have hsame := hlen (hfirsts hnil)
    simp only [Bool.or_eq_true, decide_eq_true_eq, ne_eq, hnil, List.isEmpty_nil, Bool.not_true,
      Bool.false_eq_true, false_or] at hfailed
    exact absurd hsame hfailed
  · rename_i hpassed
    simp only [Bool.or_eq_true, not_or, decide_eq_true_eq, ne_eq, not_not] at hpassed
    have hne : result.2 ≠ [] := by
      intro hnil
      rw [hnil, List.length_nil] at hpassed
      exact hclaims (List.length_eq_zero_iff.1 hpassed.2.symm)
    obtain ⟨verified, hmake, hverified⟩ := @make_verified answer.question _ answer.usage hne hall
    rw [hmake]
    exact fun _ => hverified

end CitationVerifier

/-! ## The draft -/

/-- A response makes a draft of the question with claims, or is malformed, or reports no valid
usage. -/
theorem buildGroundedDraft_cases (question : Question) (context : PackedContext)
    (response : GenerationResponse) :
    (∃ error, buildGroundedDraft question context response = .error (.provider error)) ∨
      (buildGroundedDraft question context response = .error .invalidUsage ∧
        ¬ AnswerUsage.check response.model response.inputTokens response.outputTokens = true) ∨
      ∃ draft, buildGroundedDraft question context response = .ok draft ∧ draft.claims ≠ [] ∧
        draft.question = question := by
  unfold buildGroundedDraft
  dsimp only
  cases response.claims.mapM draftClaim with
  | none => exact Or.inl ⟨_, rfl⟩
  | some claims =>
    dsimp only
    split
    · exact Or.inl ⟨_, rfl⟩
    · rename_i hchecked
      simp only [Bool.or_eq_true, not_or] at hchecked
      split
      · exact Or.inr (Or.inr ⟨_, rfl, by simpa using hchecked.1.1, rfl⟩)
      · rename_i husage
        exact Or.inr (Or.inl ⟨rfl, husage⟩)

/-! ## The session -/

namespace AskService

/-- What the retriever, the provider and the breaker may do, and nothing is cut short. -/
structure Cooperative (T : Type) [Zero T] [LinearOrder T] [Sub T] (env : AskEnvironment)
    (context : QueryContext) : Prop where
  uncancelled : ∀ n, env.cancelled n = false
  read : ∀ n, env.closed n = false
  /-- a set of evidence with valid identifiers, or `RetrievalUnavailable` -/
  retrieves : ∀ log, wp (env.retrieve context)
    (fun evidenceSet _ => ∀ item ∈ evidenceSet.evidence, (evidenceReference item).isSome = true)
    (fun error _ => ∃ degradationReason, error = .unavailable degradationReason) log
  /-- the stream ends, or raises a `GenerationProviderError` -/
  provides : ∀ attempt, (env.attempt attempt).ending ≠ .raised
  /-- a completed response reports a model, and no negative count of tokens -/
  completes : ∀ attempt response, .completed response ∈ (env.attempt attempt).events →
    AnswerUsage.check response.model response.inputTokens response.outputTokens = true
  /-- the breaker, in any state that it can reach -/
  breaker : ∀ attempt, ∃ (policy : CircuitPolicy T) (history : List (AttemptEvent T)) (now : T),
    (env.attempt attempt).refused =
      match (Machine.run (CircuitHistory.step policy) {} history).breaker.acquire policy now with
      | .ok _ => none
      | .error error => some error

/-- **The events of a session**, all of them. -/
inductive SessionEvents : List AskEvent → Prop
  | early (payload : FinalPayload) :
    SessionEvents [.status "retrieving", .final payload]
  | generated (texts : List String) (payload : FinalPayload) :
    SessionEvents (.status "retrieving" :: .status "generating" ::
      (texts.map .delta ++ [.final payload]))

/-- The provider is called at most `maxGenerationAttempts` times, and never after a delta. -/
structure CallsBounded (service : AskService) (s : AskState) : Prop where
  attempts : s.calls.length ≤ service.maxGenerationAttempts
  before_deltas : ∀ call ∈ s.calls, ∀ text, .delta text ∉ s.events.take call

section Session

variable {T : Type} [Zero T] [LinearOrder T] [Sub T] {service : AskService} {env : AskEnvironment}
  {context : QueryContext} {s : AskState} {event : AskEvent} {packed : PackedContext}
  {evidenceSet : EvidenceSet} {question : Question} {principal : Principal}

/-- No breaker asks for a timestamp: an open one has been stamped. -/
theorem Cooperative.timed (h : Cooperative T env context) (attempt : ℕ) :
    (env.attempt attempt).refused ≠ some .requiresTimestamp := by
  obtain ⟨policy, history, now, hrefused⟩ := h.breaker attempt
  have hstamped : CircuitHistory.Stamped (Machine.run (CircuitHistory.step policy) {} history) :=
    Machine.run_inv (fun s e hs => CircuitHistory.step_stamped s e hs)
      (fun hopen => by cases hopen)
  rw [hrefused]
  cases hacquire : (Machine.run (CircuitHistory.step policy) {} history).breaker.acquire policy now with
  | ok b => simp
  | error error =>
    obtain rfl := CircuitHistory.acquire_error hstamped hacquire
    simp

/-- Only a consumer that closes the session stops it at an event. -/
theorem emit_returns :
    wp (emit env event) (fun _ s' => s' = { s with events := s.events ++ [event] })
      (fun _ _ => ¬ Cooperative T env context) s := by
  unfold emit
  simp only [wp_bind, wp_get, wp_set]
  split
  · rename_i hclosed
    rw [wp_throw]
    intro h
    rw [h.read] at hclosed
    exact Bool.false_ne_true hclosed
  · rfl

/-- How the loop over a stream ends, when it has yielded `texts`. -/
def ReadEnd (events : List GenerationStreamEvent) (emittedDelta : Bool)
    (completed : Option GenerationResponse) (texts : List String) : AttemptOutcome → Prop
  | .failed _ emitted => emitted = false → emittedDelta = false ∧ texts = []
  | .finished response => response = completed ∨ ∃ r, response = some r ∧ .completed r ∈ events
  | _ => False

section ReadEnd

variable {event : GenerationStreamEvent} {events : List GenerationStreamEvent} {emittedDelta : Bool}
  {completed later : Option GenerationResponse} {texts : List String} {outcome : AttemptOutcome}

/-- One event more in front, which may be what completes the stream. -/
theorem ReadEnd.cons (h : ReadEnd events emittedDelta later texts outcome)
    (hlater : later = completed ∨ ∃ r, later = some r ∧ event = .completed r) :
    ReadEnd (event :: events) emittedDelta completed texts outcome := by
  cases outcome with
  | circuitOpen => exact h
  | cancelled => exact h
  | failed error emitted => exact h
  | finished response =>
    rcases h with rfl | ⟨r, hr, hmem⟩
    · rcases hlater with hsame | ⟨r, hr, rfl⟩
      · exact Or.inl hsame
      · exact Or.inr ⟨r, hr, List.mem_cons_self⟩
    · exact Or.inr ⟨r, hr, List.mem_cons_of_mem _ hmem⟩

/-- A stream that has yielded a delta is not one that has failed without. -/
theorem ReadEnd.emitted {text : String} (h : ReadEnd events true completed texts outcome) :
    ReadEnd events emittedDelta completed (text :: texts) outcome := by
  cases outcome with
  | circuitOpen => exact h
  | cancelled => exact h
  | failed error emitted => exact fun hnone => absurd (h hnone).1 (by decide)
  | finished response => exact h

end ReadEnd

/-- The loop over a stream yields deltas, and tells whether it has. -/
theorem readStream_returns (hcancelled : ∀ n, env.cancelled n = false) {evidence : List Evidence}
    {ending : StreamEnd} (hending : Cooperative T env context → ending ≠ .raised) :
    ∀ {events : List GenerationStreamEvent} {candidate : String} {emittedDelta : Bool}
      {completed : Option GenerationResponse} {s : AskState},
      wp (readStream env evidence ending events candidate emittedDelta completed)
        (fun outcome s' => ∃ texts : List String, s'.events = s.events ++ texts.map .delta ∧
          s'.calls = s.calls ∧ ReadEnd events emittedDelta completed texts outcome)
        (fun _ _ => ¬ Cooperative T env context) s := by
  intro events
  induction events with
  | nil =>
    intro candidate emittedDelta completed s
    unfold readStream
    have hsame : s.events = s.events ++ ([] : List String).map AskEvent.delta := by simp
    cases ending with
    | exhausted => exact ⟨[], hsame, rfl, Or.inl rfl⟩
    | providerError error => exact ⟨[], hsame, rfl, fun h => ⟨h, rfl⟩⟩
    | raised => exact fun h => hending h rfl
  | cons event events ih =>
    intro candidate emittedDelta completed s
    unfold readStream
    simp only [readCancelled, wp_bind, wp_get, wp_set, wp_pure, hcancelled, Bool.false_eq_true,
      if_false]
    cases event with
    | delta text =>
      dsimp only
      split
      · -- the delta is yielded
        rw [wp_bind]
        refine wp_mono emit_returns (fun _ s₁ h₁ => ?_) (fun _ _ h => h)
        subst h₁
        refine wp_mono ih (fun outcome s₂ h₂ => ?_) (fun _ _ h => h)
        obtain ⟨texts, hevents, hcalls, houtcome⟩ := h₂
        refine ⟨text :: texts, ?_, hcalls, (houtcome.cons (Or.inl rfl)).emitted⟩
        rw [hevents, List.append_assoc]
        rfl
      · -- the guard holds it back
        refine wp_mono ih (fun outcome s₂ h₂ => ?_) (fun _ _ h => h)
        obtain ⟨texts, hevents, hcalls, houtcome⟩ := h₂
        exact ⟨texts, hevents, hcalls, houtcome.cons (Or.inl rfl)⟩
    | completed response =>
      dsimp only
      refine wp_mono ih (fun outcome s₂ h₂ => ?_) (fun _ _ h => h)
      obtain ⟨texts, hevents, hcalls, houtcome⟩ := h₂
      exact ⟨texts, hevents, hcalls, houtcome.cons (Or.inr ⟨response, rfl, rfl⟩)⟩

theorem runAttempt_returns (hcancelled : ∀ n, env.cancelled n = false) {attempt : ℕ} :
    wp (runAttempt env packed attempt)
      (fun outcome s' => ∃ texts : List String, s'.events = s.events ++ texts.map .delta ∧
        s'.calls.length ≤ s.calls.length + 1 ∧
        (∀ call ∈ s'.calls, call ∈ s.calls ∨ call = s.events.length) ∧
        match outcome with
        | .circuitOpen => True
        | .cancelled => False
        | .failed _ emitted => emitted = false → texts = []
        | .finished response => ∀ r, response = some r → Cooperative T env context →
            AnswerUsage.check r.model r.inputTokens r.outputTokens = true)
      (fun _ _ => ¬ Cooperative T env context) s := by
  unfold runAttempt
  dsimp only
  cases hrefused : (env.attempt attempt).refused with
  | some error =>
    cases error with
    | circuitOpen => exact ⟨[], by simp, Nat.le_succ _, fun call hcall => Or.inl hcall, trivial⟩
    | requiresTimestamp => exact fun h => h.timed attempt hrefused
  | none =>
    simp only [callProvider, wp_bind, wp_get, wp_set]
    refine wp_mono (readStream_returns hcancelled fun h => h.provides attempt)
      (fun outcome s' hout => ?_) (fun _ _ hf => hf)
    obtain ⟨texts, hevents, hcalls, houtcome⟩ := hout
    refine ⟨texts, hevents, ?_, fun call hcall => ?_, ?_⟩
    · rw [hcalls, List.length_append]
      exact le_rfl
    · rw [hcalls] at hcall
      exact (List.mem_append.1 hcall).imp_right List.mem_singleton.1
    · cases outcome with
      | circuitOpen => exact trivial
      | cancelled => exact houtcome
      | failed error emitted => exact fun hemitted => (houtcome hemitted).2
      | finished response =>
        rintro r rfl
        rcases houtcome with hnone | ⟨r', hr', hmem⟩
        · exact absurd hnone (Option.some_ne_none r)
        · cases hr'
          exact fun h => h.completes attempt r hmem

/-- What the attempts make of a session with the events `before`: deltas, and a final event or a
response. The provider has been called before any delta. -/
def AttemptsEnd (T : Type) [Zero T] [LinearOrder T] [Sub T] (service : AskService) (env : AskEnvironment)
    (context : QueryContext) (before : List AskEvent) (result : Option GenerationResponse)
    (s' : AskState) : Prop :=
  ∃ texts : List String,
    s'.calls.length ≤ service.maxGenerationAttempts ∧
    (∀ call ∈ s'.calls, call = before.length) ∧
    match result with
    | none => ∃ payload, s'.events = before ++ (texts.map .delta ++ [.final payload])
    | some response => s'.events = before ++ texts.map .delta ∧ (Cooperative T env context →
        AnswerUsage.check response.model response.inputTokens response.outputTokens = true)

/-- **The attempts**: the provider is called for each attempt that the breaker admits. -/
theorem generate_protocol (hcancelled : ∀ n, env.cancelled n = false) :
    ∀ {left attempt : ℕ} {s : AskState}, 0 < left →
      attempt + left = service.maxGenerationAttempts → s.calls.length ≤ attempt →
      (∀ call ∈ s.calls, call = s.events.length) →
      wp (generate service env packed evidenceSet left attempt)
        (fun result s' => AttemptsEnd T service env context s.events result s')
        (fun _ _ => ¬ Cooperative T env context) s := by
  intro left
  induction left with
  | zero => exact fun {attempt s} hpos => absurd hpos (Nat.lt_irrefl 0)
  | succ left ih =>
    intro attempt s _ hleft hcalls hbefore
    rw [generate, wp_bind]
    refine wp_mono (runAttempt_returns hcancelled) (fun outcome s₁ h₁ => ?_) (fun _ _ hf => hf)
    obtain ⟨texts, hevents, hlength, hmem, houtcome⟩ := h₁
    have hcall : ∀ call ∈ s₁.calls, call = s.events.length := by
      intro call hc
      rcases hmem call hc with hold | hnew
      · exact hbefore call hold
      · exact hnew
    have hbound : s₁.calls.length ≤ service.maxGenerationAttempts := by omega
    -- an attempt that ends the session yields one final event
    have hdone : ∀ payload, wp (do emit env (.final payload); return none :
          Act AskExit AskState (Option GenerationResponse))
        (fun result s' => AttemptsEnd T service env context s.events result s')
        (fun _ _ => ¬ Cooperative T env context) s₁ := by
      intro payload
      rw [wp_bind]
      refine wp_mono emit_returns (fun _ s₂ h₂ => ?_) (fun _ _ hf => hf)
      subst h₂
      exact ⟨texts, hbound, hcall, payload, by rw [hevents, List.append_assoc]⟩
    cases outcome with
    | circuitOpen => exact hdone _
    | cancelled => exact absurd houtcome id
    | failed error emitted =>
      dsimp only
      split
      · rename_i hretry
        simp only [Bool.and_eq_true, Bool.not_eq_true', decide_eq_true_eq] at hretry
        obtain ⟨⟨-, hemitted⟩, hmore⟩ := hretry
        have htexts : texts = [] := houtcome hemitted
        have hsame : s₁.events = s.events := by rw [hevents, htexts, List.map_nil, List.append_nil]
        rw [← hsame] at hcall ⊢
        exact ih (by omega) (by omega) (by omega) hcall
      · split
        · exact hdone _
        · exact hdone _
    | finished completed =>
      cases completed with
      | none => exact hdone _
      | some response => exact ⟨texts, hbound, hcall, hevents, houtcome response rfl⟩

/-- A session that has yielded a final event early. -/
theorem early_returns {payload : FinalPayload}
    (hs : s.events = [.status "retrieving"]) (hcalls : s.calls = []) :
    wp (emit env (.final payload)) (fun _ s' => SessionEvents s'.events ∧ CallsBounded service s')
      (fun _ _ => ¬ Cooperative T env context) s := by
  refine wp_mono emit_returns (fun _ s' hs' => ?_) (fun _ _ hf => hf)
  subst hs'
  refine ⟨?_, ?_, ?_⟩
  · simp only [hs, List.cons_append, List.nil_append]
    exact .early payload
  · simp only [hcalls, List.length_nil]
    exact Nat.zero_le _
  · intro call hcall
    simp only [hcalls] at hcall
    exact absurd hcall List.not_mem_nil

/-- A session whose attempts have yielded deltas, and then its final event. -/
theorem generated_events {texts : List String} {payload : FinalPayload}
    (hs : s.events = [.status "retrieving", .status "generating"] ++
      (texts.map .delta ++ [.final payload]))
    (hattempts : s.calls.length ≤ service.maxGenerationAttempts)
    (hcalls : ∀ call ∈ s.calls, call = 2) :
    SessionEvents s.events ∧ CallsBounded service s := by
  refine ⟨hs ▸ .generated texts payload, hattempts, fun call hcall text hmem => ?_⟩
  rw [hcalls call hcall, hs] at hmem
  simp at hmem

theorem answerFrom_protocol (hcancelled : ∀ n, env.cancelled n = false)
    (hvalid : Cooperative T env context → CitationVerifier.Referable evidenceSet.evidence)
    (hs : s.events = [.status "retrieving"]) (hcalls : s.calls = []) :
    wp (answerFrom service env question principal evidenceSet)
      (fun _ s' => SessionEvents s'.events ∧ CallsBounded service s')
      (fun _ _ => ¬ Cooperative T env context) s := by
  unfold answerFrom
  dsimp only
  split
  · exact early_returns hs hcalls
  · rw [wp_bind]
    refine wp_mono emit_returns (fun _ s₁ h₁ => ?_) (fun _ _ hf => hf)
    have hevents₁ : s₁.events = [.status "retrieving", .status "generating"] := by
      rw [h₁, hs]
      rfl
    have hcalls₁ : s₁.calls = [] := by rw [h₁, hcalls]
    rw [wp_bind]
    refine wp_mono (generate_protocol hcancelled service.maxGenerationAttempts_pos (Nat.zero_add _)
      (by rw [hcalls₁]; exact le_rfl) (by rw [hcalls₁]; exact fun _ hc => absurd hc List.not_mem_nil))
      (fun completed s₂ h₂ => ?_) (fun _ _ hf => hf)
    obtain ⟨texts, hattempts, hcalls₂, hcompleted⟩ := h₂
    rw [hevents₁] at hcalls₂
    -- a final event after the deltas ends the session
    have hlast : ∀ {s₃ : AskState} {payload : FinalPayload},
        s₃.events = s₁.events ++ texts.map .delta → s₃.calls = s₂.calls →
        wp (emit env (.final payload)) (fun _ s' => SessionEvents s'.events ∧ CallsBounded service s')
          (fun _ _ => ¬ Cooperative T env context) s₃ := by
      intro s₃ payload hevents hsame
      refine wp_mono emit_returns (fun _ s' hs' => ?_) (fun _ _ hf => hf)
      subst hs'
      have hall : s₃.events ++ [.final payload] =
          [.status "retrieving", .status "generating"] ++ (texts.map .delta ++ [.final payload]) := by
        rw [hevents, hevents₁, List.append_assoc]
      refine generated_events hall ?_ ?_
      · simp only [hsame]
        exact hattempts
      · simp only [hsame]
        exact hcalls₂
    cases completed with
    | none =>
      obtain ⟨payload, hevents⟩ := hcompleted
      rw [hevents₁] at hevents
      exact generated_events hevents hattempts hcalls₂
    | some response =>
      obtain ⟨hevents, husage⟩ := hcompleted
      rcases buildGroundedDraft_cases question (ContextPacker.pack service.maxTokens evidenceSet)
        response with ⟨error, herror⟩ | ⟨hinvalid, hcheck⟩ | ⟨draft, hdraft, hclaims, -⟩
      · simp only [herror]
        exact hlast hevents rfl
      · simp only [hinvalid]
        exact fun h => hcheck (husage h)
      · simp only [hdraft]
        rw [wp_bind]
        have hunverified := (buildGroundedDraft_ok hdraft).1
        refine wp_mono (policyCall_spec (CitationVerifier.verify_returns hunverified hclaims))
          (fun result s₃ h₃ => ?_) (fun _ _ hf => hf.elim)
        obtain ⟨hevents₃, hcalls₃, hok, herror⟩ := h₃
        cases result with
        | error error => exact fun h => herror error rfl (hvalid h)
        | ok verification =>
          dsimp only
          split
          · exact hlast (hevents₃.trans hevents) hcalls₃
          · exact hlast (hevents₃.trans hevents) hcalls₃

/-- **A session that is not cancelled** returns after a final event, or something has not done as
it should. -/
theorem events_returns (service : AskService) (env : AskEnvironment) (question : Question)
    (principal : Principal) (log : PolicyLog) (hcancelled : ∀ n, env.cancelled n = false) :
    wp (events service env question principal)
      (fun _ s => SessionEvents s.events ∧ CallsBounded service s)
      (fun _ _ => ¬ Cooperative T env (queryContext question principal)) { log := log } := by
  unfold events
  rw [wp_bind]
  refine wp_mono emit_returns (fun _ s₁ h₁ => ?_) (fun _ _ hf => hf)
  subst h₁
  simp only [readCancelled, wp_bind, wp_get, wp_set, wp_pure, hcancelled, Bool.false_eq_true,
    if_false]
  refine wp_mono (policyCall_spec wp_self) (fun result s₂ h₂ => ?_) (fun _ _ hf => hf.elim)
  obtain ⟨hevents, hcalls, hok, herror⟩ := h₂
  cases result with
  | error error =>
    cases error with
    | unavailable degradationReason => exact early_returns hevents hcalls
    | other =>
      intro h
      obtain ⟨degradationReason, hunavailable⟩ := wp_error (h.retrieves _) (herror _ rfl)
      cases hunavailable
  | ok evidenceSet =>
    exact answerFrom_protocol hcancelled (fun h => wp_ok (h.retrieves _) (hok evidenceSet rfl))
      hevents hcalls

/-- **The protocol of a session.** When nothing cuts it short, a session yields `retrieving`,
then a final event, or `generating`, deltas and a final event; it calls the provider at most
`maxGenerationAttempts` times, and never after a delta. -/
theorem session_protocol (service : AskService) (env : AskEnvironment) (question : Question)
    (principal : Principal) (log : PolicyLog)
    (h : Cooperative T env (queryContext question principal)) :
    wp (events service env question principal)
      (fun _ s => SessionEvents s.events ∧ CallsBounded service s) (fun _ _ => False)
      { log := log } :=
  wp_mono (events_returns service env question principal log h.uncancelled) (fun _ _ hs => hs)
    fun _ _ hraised => hraised h

end Session

/-- A retrieved item, a delta of its text and a response that cites it. -/
theorem session_protocol_sample :
    let item : Evidence :=
      { chunkId := "chunk", tenantId := "alpha", sourceId := "source", documentId := "document"
        documentVersionId := "version", ordinal := 0, text := "rotate the key", span := (0, 14)
        contentHash := "", parserVersion := "", chunkerVersion := "", sourceTimestamp := 0
        isCurrent := true, score := 1, authorizationReason := .public }
    let env : AskEnvironment :=
      { retrieve := fun _ => pure { evidence := [item], strategy := "bm25", total := 1, tookMs := 0 }
        access := { getDocumentPolicies := fun _ _ _ => none, append := fun _ _ => true }
        correlationId := "id"
        attempt := fun _ => ⟨none, [.delta "rotate", .completed
          ⟨[⟨"rotate the key", [⟨"chunk", "version", (0, 14)⟩]⟩], "model", 1, 1⟩], .exhausted⟩
        cancelled := fun _ => false
        closed := fun _ => false }
    let service : AskService := ⟨100, 2, id, by decide, by decide, by decide⟩
    wp (events service env ⟨"q", "how?", by decide⟩ ⟨"alice", "alpha", [], [], true⟩)
      (fun _ s => SessionEvents s.events ∧ CallsBounded service s) (fun _ _ => False)
      { log := {} } := by
  intro item env service
  refine session_protocol (T := ℤ) service env _ _ _ ⟨fun _ => rfl, fun _ => rfl, fun log => ?_,
    fun _ => by simp [env], fun attempt response hmem => ?_, fun attempt => ?_⟩
  · intro item' hitem
    rw [List.mem_singleton.1 hitem]
    decide
  · have hone : response = ⟨[⟨"rotate the key", [⟨"chunk", "version", (0, 14)⟩]⟩], "model", 1, 1⟩ := by
      simpa [env] using hmem
    rw [hone]
    decide
  · exact ⟨⟨1, 1, by decide, by decide⟩, [], 0, rfl⟩

end AskService

end GroundedOps
