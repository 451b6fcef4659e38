import GroundedOps.Spec.Workflow

/-!
# Rules for the workflow

How each helper of the workflow acts on the world, as weakest preconditions, and one
rule for the three loops over the requests of a plan (`wp_toolLoop`), with one for what
follows them in a node (`wp_afterLoop`). A reading of the clock either gives a time or
raises; `wp_now` asks for both.
-/

namespace GroundedOps.Investigation

open Hoare

def WorkflowWorld.next (w : WorkflowWorld) : WorkflowWorld :=
  { w with interactions := w.interactions + 1 }

def WorkflowWorld.log (w : WorkflowWorld) (event : WorkflowEvent) : WorkflowWorld :=
  { w with trace := w.trace ++ [event] }

@[simp] theorem WorkflowWorld.next_trace (w : WorkflowWorld) : w.next.trace = w.trace := rfl

@[simp] theorem WorkflowWorld.log_trace (w : WorkflowWorld) (event : WorkflowEvent) :
    (w.log event).trace = w.trace ++ [event] := rfl

namespace InvestigationWorkflow

variable {env : Collaborators} {w : WorkflowWorld} {α : Type} {state : InvestigationState}
  {E : Unit → WorkflowWorld → Prop}

/-! ## States -/

@[simp] theorem stopped_terminal (state : InvestigationState) (reason : StopReason) (now : ℤ) :
    (state.stopped reason now).terminal = true := by
  cases reason <;> rfl

theorem moveTo_eq {node : InvestigationNode} {advanced : InvestigationState}
    (h : state.moveTo node = some advanced) :
    ∃ valid, advanced = state.withNode node valid := by
  unfold InvestigationState.moveTo at h
  split at h
  · cases h; exact ⟨_, rfl⟩
  · cases h

/-! ## Helpers -/

@[simp] theorem wp_emit {event : WorkflowEvent} {N : Unit → WorkflowWorld → Prop} :
    wp (emit event) N E w ↔ N ⟨⟩ (w.log event) := Iff.rfl

@[simp] theorem wp_interaction {N : ℕ → WorkflowWorld → Prop} :
    wp interaction N E w ↔ N w.interactions w.next := Iff.rfl

@[simp] theorem wp_orRaise {o : Option α} {N : α → WorkflowWorld → Prop} :
    wp (orRaise o) N E w ↔ (∀ a, o = some a → N a w) ∧ (o = none → E () w) := by
  cases o with
  | none => simp [orRaise]
  | some a => simp [orRaise]

@[simp] theorem wp_now {use : ClockUse} {N : ℤ → WorkflowWorld → Prop} :
    wp (now env use) N E w ↔
      (∀ t, env.clock w.interactions = some t → N t (w.next.log (.clockRead use t))) ∧
        (env.clock w.interactions = none → E () w.next) := by
  simp only [now, wp_bind, wp_interaction, wp_orRaise, wp_emit, wp_pure]

@[simp] theorem wp_terminal {reason : StopReason} {N : InvestigationState → WorkflowWorld → Prop} :
    wp (terminal env state reason) N E w ↔
      (∀ t, env.clock w.interactions = some t →
        N (state.stopped reason t) (w.next.log (.clockRead .finished t))) ∧
      (env.clock w.interactions = none → E () w.next) := by
  simp only [terminal, wp_bind, wp_now, wp_pure]

/-- A budget check finds a counter at its limit, or reads the clock if the investigation has
started; it raises only where the clock does. -/
theorem wp_budgetReason_clock {includeSteps : Bool} {N : Option StopReason → WorkflowWorld → Prop}
    (hsteps : includeSteps = true → state.budget.maxSteps ≤ state.steps → N (some .maxSteps) w)
    (htokens : state.budget.maxTokens ≤ state.tokensUsed → N (some .tokenBudget) w)
    (hnone : (includeSteps = true → state.steps < state.budget.maxSteps) →
      state.tokensUsed < state.budget.maxTokens → state.startedAt = none → N none w)
    (hread : (includeSteps = true → state.steps < state.budget.maxSteps) →
      state.tokensUsed < state.budget.maxTokens → ∀ startedAt t, state.startedAt = some startedAt →
      N (if timedOut state.budget startedAt t then some .timeout else none)
        (w.next.log (.clockRead .budget t)))
    (hraise : env.clock w.interactions = none → E () w.next) :
    wp (budgetReason env state includeSteps) N E w := by
  unfold budgetReason
  split
  · rename_i hfull
    rw [Bool.and_eq_true, decide_eq_true_eq] at hfull
    exact hsteps hfull.1 hfull.2
  · rename_i hfree
    simp only [Bool.and_eq_true, decide_eq_true_eq, not_and, not_le] at hfree
    split
    · rename_i hfull; exact htokens hfull
    · rename_i hcheap
      rw [not_le] at hcheap
      split
      · rename_i hstarted; exact hnone hfree hcheap hstarted
      · rename_i startedAt hstarted
        simp only [wp_bind, wp_now, wp_pure]
        exact ⟨fun t _ => hread hfree hcheap startedAt t hstarted, hraise⟩

/-- The budget check, of any clock. -/
theorem wp_budgetReason {includeSteps : Bool} {N : Option StopReason → WorkflowWorld → Prop}
    (hsteps : includeSteps = true → state.budget.maxSteps ≤ state.steps → N (some .maxSteps) w)
    (htokens : state.budget.maxTokens ≤ state.tokensUsed → N (some .tokenBudget) w)
    (hnone : (includeSteps = true → state.steps < state.budget.maxSteps) →
      state.tokensUsed < state.budget.maxTokens → state.startedAt = none → N none w)
    (hread : (includeSteps = true → state.steps < state.budget.maxSteps) →
      state.tokensUsed < state.budget.maxTokens → ∀ startedAt t, state.startedAt = some startedAt →
      N (if timedOut state.budget startedAt t then some .timeout else none)
        (w.next.log (.clockRead .budget t)))
    (hraise : E () w.next) :
    wp (budgetReason env state includeSteps) N E w :=
  wp_budgetReason_clock hsteps htokens hnone hread fun _ => hraise

/-- **The rule for the loops over requests**: `I` holds before each call, of the requests that
are left, and the loop ends with `I` of none or, where it returns early, with `Q`. -/
theorem wp_toolLoop_rest {R : Type} {name : String} {retrieval : Bool}
    {operation : R → ℕ → Except ToolRaise ToolResult}
    {add : InvestigationState → ToolResult → InvestigationState}
    {I : List R → InvestigationState → WorkflowWorld → Prop}
    {Q : InvestigationState → WorkflowWorld → Prop}
    (hcall : ∀ request requests state w, I (request :: requests) state w →
      wp (toolCall env state name retrieval (operation request))
        (fun out w' => match out.1.terminal, out.2 with
          | false, some result => I requests (add out.1 result) w'
          | _, _ => Q out.1 w') E w) :
    ∀ {requests : List R} {state : InvestigationState} {w : WorkflowWorld}, I requests state w →
      wp (toolLoop env name retrieval operation add requests state)
        (fun out w' => if out.2 then I [] out.1 w' else Q out.1 w') E w := by
  intro requests
  induction requests with
  | nil => intro state w h; exact h
  | cons request requests ih =>
    intro state w h
    unfold toolLoop
    rw [wp_bind]
    refine wp_mono (hcall request requests state w h) (fun out w' hout => ?_) (fun _ _ hE => hE)
    obtain ⟨advanced, result⟩ := out
    simp only at hout ⊢
    cases hterm : advanced.terminal with
    | true => rw [hterm] at hout; exact hout
    | false =>
      rw [hterm] at hout
      cases result with
      | none => exact hout
      | some result => exact ih hout

/-- The rule for an invariant that does not depend on the requests. -/
theorem wp_toolLoop {R : Type} {name : String} {retrieval : Bool}
    {operation : R → ℕ → Except ToolRaise ToolResult}
    {add : InvestigationState → ToolResult → InvestigationState}
    {I Q : InvestigationState → WorkflowWorld → Prop}
    (hcall : ∀ request state w, I state w →
      wp (toolCall env state name retrieval (operation request))
        (fun out w' => match out.1.terminal, out.2 with
          | false, some result => I (add out.1 result) w'
          | _, _ => Q out.1 w') E w) :
    ∀ {requests : List R} {state : InvestigationState} {w : WorkflowWorld}, I state w →
      wp (toolLoop env name retrieval operation add requests state)
        (fun out w' => if out.2 then I out.1 w' else Q out.1 w') E w :=
  wp_toolLoop_rest (I := fun _ => I) fun request _ state w => hcall request state w

/-- A node ends with the state of a loop that did not run to its end, and goes on after one that did. -/
theorem wp_afterLoop {loop : Workflow (InvestigationState × Bool)}
    {node : InvestigationState × Bool → Workflow InvestigationState}
    {I Q : InvestigationState → WorkflowWorld → Prop}
    (hloop : wp loop (fun out w' => if out.2 then I out.1 w' else Q out.1 w') E w)
    (hend : ∀ advanced w', Q advanced w' → wp (node (advanced, false)) Q E w')
    (hrest : ∀ advanced w', I advanced w' → wp (node (advanced, true)) Q E w') :
    wp (loop >>= node) Q E w := by
  rw [wp_bind]
  refine wp_mono hloop (fun out w' hout => ?_) (fun _ _ h => h)
  obtain ⟨advanced, finished⟩ := out
  cases finished with
  | false => exact hend advanced w' hout
  | true => exact hrest advanced w' hout

end InvestigationWorkflow

/-! ## A small investigation -/

def sampleTask : InvestigationTask :=
  { id := "inv-1"
    question := ⟨"q-1", "why", by decide⟩
    principal := { id := "p-1", tenantId := "t-1", roles := [], groups := [] }
    valid := by decide }

/-- Ten seconds, and more than enough of everything else. -/
def sampleBudget : InvestigationBudget :=
  ⟨10, 10, 1000, 10, 10, by decide, by decide, by decide, by decide, by decide⟩

def sampleEvidence : Evidence :=
  { chunkId := "c-1", tenantId := "t-1", sourceId := "s-1", documentId := "d-1"
    documentVersionId := "v-1", ordinal := 0, text := "because", span := (0, 7)
    contentHash := "h", parserVersion := "1", chunkerVersion := "1", sourceTimestamp := 0
    isCurrent := true, score := 1, authorizationReason := .public }

/-- A worker that plans one retrieval and finds one item. -/
def sampleWorker (clock : ℕ → Option ℤ) : Collaborators where
  clock := clock
  plan _ _ := some ⟨{ retrievals := [{ query := "why", valid := by decide }] }, 5, 1⟩
  retrieve _ _ _ := .ok { evidence := [sampleEvidence], strategy := "bm25", total := 1, tookMs := 1 }
  compareVersions _ _ _ := .error .other
  searchIncidents _ _ _ := .error .other
  verify _ _ := some ⟨true, [], 5, 1, by decide⟩
  report _ _ := some ⟨"done", 5, 1, by decide⟩

/-- The small investigation when its one retrieval has been planned. -/
def samplePlanned : InvestigationRun :=
  (InvestigationRun.init sampleTask sampleBudget 0).step (.advance (sampleWorker fun _ => some 0))

end GroundedOps.Investigation
