import GroundedOps.Proof.Ask

/-!
# Deltas quote the evidence

What a session has emitted as deltas is the beginning of one packed text. The guard of an attempt
holds all that the attempt was sent: either that is what was emitted, or it is the beginning of no
text and nothing more is released. A new attempt, with a new guard, follows only one that has
emitted nothing.

* `readStream_quotes`: the loop over a stream keeps this.
* `generate_quotes`: so do the attempts together.
* `deltas_quote`: **at every point of a session, the deltas so far are a prefix of the text of one
  packed item.**
-/

namespace GroundedOps

open Hoare

/-- What an event adds to the unverified answer. -/
def AskEvent.deltaText : AskEvent → List Char
  | .delta text => text.toList
  | _ => []

/-- The texts of the deltas, joined. -/
def deltaText (events : List AskEvent) : List Char := events.flatMap AskEvent.deltaText

def NoDelta (events : List AskEvent) : Prop := ∀ text, AskEvent.delta text ∉ events

/-- The deltas, if there are any, are the beginning of one item's text. -/
def Quotes (evidence : List Evidence) (events : List AskEvent) : Prop :=
  NoDelta events ∨ ∃ item ∈ evidence, deltaText events <+: item.text.toList

variable {evidence : List Evidence} {sent sent' : List AskEvent} {event : AskEvent}

theorem deltaText_append : deltaText (sent ++ sent') = deltaText sent ++ deltaText sent' := by
  unfold deltaText
  rw [List.flatMap_append]

theorem deltaText_of_noDelta (h : NoDelta sent) : deltaText sent = [] := by
  unfold deltaText
  rw [List.flatMap_eq_nil_iff]
  intro event hevent
  cases event with
  | status status => rfl
  | delta text => exact absurd hevent (h text)
  | final payload => rfl

/-- What quotes does so at every point. -/
theorem Quotes.at_point (h : Quotes evidence sent) (hbegins : sent' <+: sent) :
    Quotes evidence sent' := by
  rcases h with hnone | ⟨item, hitem, hquote⟩
  · exact Or.inl fun text hmem => hnone text (hbegins.subset hmem)
  · obtain ⟨rest, rfl⟩ := hbegins
    rw [deltaText_append] at hquote
    exact Or.inr ⟨item, hitem, (List.prefix_append _ _).trans hquote⟩

/-- An event that is no delta changes nothing. -/
theorem noDelta_concat (h : NoDelta sent) (hevent : ∀ text, event ≠ .delta text) :
    NoDelta (sent ++ [event]) := by
  intro text hmem
  rcases List.mem_append.1 hmem with hold | hnew
  · exact h text hold
  · exact hevent text (List.mem_singleton.1 hnew).symm

theorem Quotes.concat (h : Quotes evidence sent) (hevent : ∀ text, event ≠ .delta text) :
    Quotes evidence (sent ++ [event]) := by
  rcases h with hnone | ⟨item, hitem, hquote⟩
  · exact Or.inl (noDelta_concat hnone hevent)
  · refine Or.inr ⟨item, hitem, ?_⟩
    have hnothing : event.deltaText = [] := by
      cases event with
      | status status => rfl
      | delta text => exact absurd rfl (hevent text)
      | final payload => rfl
    have htext : deltaText [event] = [] := by simp [deltaText, hnothing]
    rw [deltaText_append, htext, List.append_nil]
    exact hquote

namespace AskService

variable {service : AskService} {env : AskEnvironment} {s : AskState} {context : PackedContext}
  {evidenceSet : EvidenceSet} {question : Question} {principal : Principal}

/-! ## The guard -/

/-- The candidate is the beginning of no text, and no continuation of it is. -/
def Broken (evidence : List Evidence) (candidate : String) : Prop :=
  ∀ item ∈ evidence, ¬ candidate.toList <+: item.text.toList

/-- **The guard has seen what was emitted, or it is broken.** -/
structure Guarded (evidence : List Evidence) (sent : List AskEvent) (candidate : String)
    (emittedDelta : Bool) : Prop where
  quotes : Quotes evidence sent
  seen : candidate.toList = deltaText sent ∨ Broken evidence candidate
  emitted : emittedDelta = false → NoDelta sent

theorem deltaReleased_iff {candidate : String} : deltaReleased evidence candidate = true ↔
    candidate ≠ "" ∧ ∃ item ∈ evidence, candidate.toList <+: item.text.toList := by
  simp [deltaReleased]

/-- A new guard. -/
theorem guarded_of_noDelta (h : NoDelta sent) : Guarded evidence sent "" false :=
  ⟨Or.inl h, Or.inl (deltaText_of_noDelta h).symm, fun _ => h⟩

/-- A delta that is released goes on with what was emitted. -/
theorem Guarded.released {candidate text : String} {emittedDelta : Bool}
    (h : Guarded evidence sent candidate emittedDelta)
    (hreleased : deltaReleased evidence (candidate ++ text) = true) :
    Guarded evidence (sent ++ [.delta text]) (candidate ++ text) true := by
  obtain ⟨-, item, hitem, hbegins⟩ := deltaReleased_iff.1 hreleased
  have hwhole : (candidate ++ text).toList = deltaText (sent ++ [.delta text]) := by
    rcases h.seen with hseen | hbroken
    · rw [String.toList_append, deltaText_append, hseen]
      simp [deltaText, AskEvent.deltaText]
    · -- a broken guard releases nothing
      rw [String.toList_append] at hbegins
      exact absurd ((List.prefix_append _ _).trans hbegins) (hbroken item hitem)
  refine ⟨Or.inr ⟨item, hitem, ?_⟩, Or.inl hwhole, fun hfalse => by cases hfalse⟩
  rw [← hwhole]
  exact hbegins

/-- A delta that is suppressed breaks the guard, unless nothing was said. -/
theorem Guarded.suppressed {candidate text : String} {emittedDelta : Bool}
    (h : Guarded evidence sent candidate emittedDelta)
    (hsuppressed : ¬ deltaReleased evidence (candidate ++ text) = true) :
    Guarded evidence sent (candidate ++ text) emittedDelta := by
  refine ⟨h.quotes, ?_, h.emitted⟩
  rw [deltaReleased_iff, not_and] at hsuppressed
  by_cases hempty : candidate ++ text = ""
  · have hcandidate : candidate.toList = [] := by
      have htext := congrArg String.toList hempty
      rw [String.toList_append] at htext
      exact (List.append_eq_nil_iff.1 htext).1
    rcases h.seen with hseen | hbroken
    · left
      rw [hempty, ← hseen, hcandidate]
      rfl
    · right
      intro item hitem hbegins
      refine hbroken item hitem ?_
      rw [hcandidate]
      exact List.nil_prefix
  · right
    intro item hitem hbegins
    exact hsuppressed hempty ⟨item, hitem, hbegins⟩

/-! ## The attempts -/

theorem emit_events (env : AskEnvironment) {P : List AskEvent → Prop} (h : P (s.events ++ [event])) :
    wp (emit env event) (fun _ s' => P s'.events) (fun _ s' => P s'.events) s :=
  wp_mono emit_spec (fun _ _ hs => by rw [hs]; exact h) (fun _ _ hs => by rw [hs]; exact h)

/-- What is known when an attempt has ended: if it may be repeated, nothing was emitted. -/
def AttemptQuotes (evidence : List Evidence) (outcome : AttemptOutcome) (s : AskState) : Prop :=
  Quotes evidence s.events ∧ ∀ error, outcome = .failed error false → NoDelta s.events

theorem readStream_quotes {ending : StreamEnd} {stream : List GenerationStreamEvent}
    {candidate : String} {emittedDelta : Bool} {completed : Option GenerationResponse}
    (h : Guarded evidence s.events candidate emittedDelta) :
    wp (readStream env evidence ending stream candidate emittedDelta completed)
      (AttemptQuotes evidence) (fun _ s' => Quotes evidence s'.events) s := by
  induction stream generalizing candidate emittedDelta completed s with
  | nil =>
    unfold readStream
    cases ending with
    | exhausted => exact ⟨h.quotes, fun error heq => by cases heq⟩
    | providerError error =>
      refine ⟨h.quotes, fun error' heq => ?_⟩
      cases heq
      exact h.emitted rfl
    | raised => exact h.quotes
  | cons event stream ih =>
    unfold readStream
    rw [wp_bind]
    have hread : wp (readCancelled env) (fun _ s' => s'.events = s.events) (fun _ _ => False) s := rfl
    refine wp_mono hread (fun cancelled s₁ hs₁ => ?_) (fun _ _ hfalse => hfalse.elim)
    rw [← hs₁] at h
    split
    · exact ⟨h.quotes, fun error heq => by cases heq⟩
    · cases event with
      | delta text =>
        simp only
        by_cases hreleased : deltaReleased evidence (candidate ++ text) = true
        · rw [if_pos hreleased, wp_bind]
          have hnext := h.released hreleased
          have hemit := emit_events env (P := fun sent => Guarded evidence sent (candidate ++ text) true) hnext
          exact wp_mono hemit (fun _ s₂ hs₂ => ih hs₂) (fun _ s₂ hs₂ => hs₂.quotes)
        · rw [if_neg hreleased]
          exact ih (h.suppressed hreleased)
      | completed response => exact ih h

theorem runAttempt_quotes {attempt : ℕ} (h : NoDelta s.events) :
    wp (runAttempt env context attempt) (AttemptQuotes context.evidence)
      (fun _ s' => Quotes context.evidence s'.events) s := by
  unfold runAttempt
  simp only
  split
  · exact ⟨Or.inl h, fun error heq => by cases heq⟩
  · exact Or.inl h
  · simp only [callProvider, wp_bind, wp_get, wp_set]
    exact readStream_quotes (guarded_of_noDelta h)

/-- **The attempts quote one text together.** -/
theorem generate_quotes {left attempt : ℕ} (h : NoDelta s.events) :
    wp (generate service env context evidenceSet left attempt)
      (fun _ s' => Quotes context.evidence s'.events)
      (fun _ s' => Quotes context.evidence s'.events) s := by
  induction left generalizing attempt s with
  | zero => exact Or.inl h
  | succ left ih =>
    rw [generate, wp_bind]
    refine wp_mono (runAttempt_quotes h) (fun outcome s₁ hs₁ => ?_) (fun _ _ hs₁ => hs₁)
    obtain ⟨hquotes, hfailed⟩ := hs₁
    have hdone : ∀ {event : AskEvent}, (∀ text, event ≠ .delta text) →
        wp (do emit env event; return none : Act AskExit AskState (Option GenerationResponse))
          (fun _ s' => Quotes context.evidence s'.events)
          (fun _ s' => Quotes context.evidence s'.events) s₁ := by
      intro event hevent
      rw [wp_bind]
      exact emit_events env (hquotes.concat hevent)
    cases outcome with
    | circuitOpen => exact hdone fun text heq => by cases heq
    | cancelled => exact hquotes
    | failed error emittedDelta =>
      simp only
      split
      · -- only an attempt that has emitted nothing is repeated
        rename_i hretry
        have hsilent : emittedDelta = false := by
          simp only [Bool.and_eq_true, Bool.not_eq_true'] at hretry
          exact hretry.1.2
        subst hsilent
        exact ih (hfailed error rfl)
      · refine hdone fun text heq => ?_
        split at heq <;> cases heq
    | finished completed =>
      cases completed with
      | none => exact hdone fun text heq => by cases heq
      | some response => exact hquotes

/-! ## The session -/

theorem answerFrom_quotes (h : NoDelta s.events) :
    wp (answerFrom service env question principal evidenceSet)
      (fun _ s' => Quotes (ContextPacker.pack service.maxTokens evidenceSet).evidence s'.events)
      (fun _ s' => Quotes (ContextPacker.pack service.maxTokens evidenceSet).evidence s'.events) s := by
  unfold answerFrom
  simp only
  split
  · exact emit_events env (Or.inl (noDelta_concat h fun text heq => by cases heq))
  · rw [wp_bind]
    have hgenerating : NoDelta (s.events ++ [.status "generating"]) :=
      noDelta_concat h fun text heq => by cases heq
    refine wp_mono (emit_events env hgenerating) (fun _ s₁ hs₁ => ?_) (fun _ _ hs₁ => Or.inl hs₁)
    rw [wp_bind]
    refine wp_mono (generate_quotes hs₁) (fun completed s₂ hs₂ => ?_) (fun _ _ hs₂ => hs₂)
    cases completed with
    | none => exact hs₂
    | some response =>
      simp only
      split
      · exact emit_events env (hs₂.concat fun text heq => by cases heq)
      · exact hs₂
      · rw [wp_bind]
        refine wp_mono (policyCall_spec wp_self) (fun result s₃ hs₃ => ?_) (fun _ _ hs₃ => hs₃.elim)
        rw [← hs₃.1] at hs₂
        cases result with
        | error error => exact hs₂
        | ok verification =>
          simp only
          split
          · exact emit_events env (hs₂.concat fun text heq => by cases heq)
          · exact emit_events env (hs₂.concat fun text heq => by cases heq)

/-- At every point so far, the deltas are a prefix of the text of one item of what was packed from
the evidence that the session's retriever returned. -/
def SessionQuotes (service : AskService) (env : AskEnvironment) (question : Question)
    (principal : Principal) (log : PolicyLog) (s : AskState) : Prop :=
  ∀ events, events <+: s.events → NoDelta events ∨ ∃ retrieved before,
    exec (env.retrieve (queryContext question principal)) log = (.ok retrieved, before) ∧
      ∃ item ∈ (ContextPacker.pack service.maxTokens retrieved).evidence,
        deltaText events <+: item.text.toList

/-- **Unverified deltas only ever quote evidence**: whatever the retriever returns and the provider's
attempts yield or raise, and wherever the session is cancelled or closed. -/
theorem deltas_quote (service : AskService) (env : AskEnvironment) (question : Question)
    (principal : Principal) (log : PolicyLog) :
    SessionQuotes service env question principal log
      (exec (events service env question principal) { log := log }).2 := by
  have hsilent : ∀ {s : AskState}, NoDelta s.events →
      SessionQuotes service env question principal log s :=
    fun hnone events hbegins => Or.inl fun text hmem => hnone text (hbegins.subset hmem)
  have hstart : NoDelta ({ log := log } : AskState).events := fun text hmem => absurd hmem List.not_mem_nil
  apply wp_state
  unfold events
  rw [wp_bind]
  have hretrieving : NoDelta (({ log := log } : AskState).events ++ [.status "retrieving"]) :=
    noDelta_concat hstart fun text heq => by cases heq
  have hemitted : wp (emit env (.status "retrieving")) (fun _ s' => s'.log = log ∧ NoDelta s'.events)
      (fun _ s' => NoDelta s'.events) { log := log } :=
    wp_mono emit_spec (fun _ _ hs => by rw [hs]; exact ⟨rfl, hretrieving⟩)
      (fun _ _ hs => by rw [hs]; exact hretrieving)
  refine wp_mono hemitted (fun _ s₁ hs₁ => ?_) (fun _ _ hs₁ => hsilent hs₁)
  obtain ⟨hlog₁, hnone₁⟩ := hs₁
  rw [wp_bind]
  have hread : wp (readCancelled env) (fun _ s' => s'.log = s₁.log ∧ s'.events = s₁.events)
      (fun _ _ => False) s₁ := ⟨rfl, rfl⟩
  refine wp_mono hread (fun cancelled s₂ hs₂ => ?_) (fun _ _ hfalse => hfalse.elim)
  obtain ⟨hlog₂, hevents₂⟩ := hs₂
  rw [← hevents₂] at hnone₁
  split
  · exact hsilent hnone₁
  · rw [wp_bind]
    refine wp_mono (policyCall_spec wp_self) (fun result s₃ hs₃ => ?_) (fun _ _ hs₃ => hs₃.elim)
    obtain ⟨hevents₃, -, hok, -⟩ := hs₃
    rw [← hevents₃] at hnone₁
    cases result with
    | error error =>
      cases error with
      | unavailable degradationReason =>
        have hfailed : NoDelta (s₃.events ++ [failure "retrieval_unavailable"
            "retrieval temporarily unavailable"]) := noDelta_concat hnone₁ fun text heq => by cases heq
        exact wp_mono (emit_events env hfailed) (fun _ _ hs => hsilent hs) (fun _ _ hs => hsilent hs)
      | other => exact hsilent hnone₁
    | ok retrieved =>
      have hretrieved := hok retrieved rfl
      -- nothing before the retrieval writes to the log
      rw [hlog₂, hlog₁] at hretrieved
      -- from the retrieval on, a delta is answered by the evidence that was retrieved
      have hsession : ∀ {s : AskState},
          Quotes (ContextPacker.pack service.maxTokens retrieved).evidence s.events →
            SessionQuotes service env question principal log s := by
        intro s hquotes events hbegins
        refine (hquotes.at_point hbegins).imp_right fun hitem => ?_
        exact ⟨retrieved, s₃.log, hretrieved, hitem⟩
      exact wp_mono (answerFrom_quotes hnone₁) (fun _ _ hs => hsession hs) (fun _ _ hs => hsession hs)

end AskService

end GroundedOps
