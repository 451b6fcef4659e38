import GroundedOps.Lib.Machine
import GroundedOps.Proof.Workflow

/-!
# Budgets of an investigation

* `Allowed`: what holds when a costly action is invoked, of the trace so far and of the
  state it is invoked with.
* `WithinBudget`: what holds of a persisted state.
* `budgets_enforced`: **every invocation of a run is `Allowed` and every state it persists
  is `WithinBudget`.**
* `tool_invoked_late`: a tool can be invoked at a clock reading past the deadline, the one
  that times the call, which no check looks at.
-/

namespace GroundedOps.Investigation

open Hoare InvestigationWorkflow

/-! ## The rules -/

/-- The last event of a trace that `f` picks, as `f` reads it. -/
def lastOf {β : Type} (f : WorkflowEvent → Option β) (trace : List WorkflowEvent) : Option β :=
  (trace.filterMap f).getLast?

def WorkflowEvent.startedNode : WorkflowEvent → Option InvestigationState
  | .nodeStarted state => some state
  | _ => none

def WorkflowEvent.reading : WorkflowEvent → Option (ClockUse × ℤ)
  | .clockRead use now => some (use, now)
  | _ => none

def WorkflowEvent.budgetReading : WorkflowEvent → Option ℤ
  | .clockRead .budget now => some now
  | _ => none

def WorkflowEvent.usage : WorkflowEvent → Option ℕ
  | .used tokens => some tokens
  | _ => none

/-- The node had a step left, the state had tokens left, and at the last budget check the
deadline had not passed. -/
structure Ready (before : List WorkflowEvent) (state : InvestigationState) : Prop where
  steps : ∃ started, lastOf WorkflowEvent.startedNode before = some started ∧
    started.steps < state.budget.maxSteps
  tokens : state.tokensUsed < state.budget.maxTokens
  elapsed : ∃ startedAt now, state.startedAt = some startedAt ∧
    lastOf WorkflowEvent.budgetReading before = some now ∧
    timedOut state.budget startedAt now = false

/-- **When a costly action may be invoked**: for the planner, the verifier and the reporter
the budget check took the last reading of the clock; for a tool a call is left, and for the
two that retrieve an attempt. -/
structure Allowed (before : List WorkflowEvent) (call : CostlyCall) (state : InvestigationState) :
    Prop extends Ready before state where
  last : (∀ name retrieval, call ≠ .tool name retrieval) →
    ∃ now, lastOf WorkflowEvent.budgetReading before = some now ∧
      lastOf WorkflowEvent.reading before = some (.budget, now)
  tool : ∀ name retrieval, call = .tool name retrieval →
    state.toolCalls < state.budget.maxToolCalls ∧
      (name = "retrieve" ∨ name = "search_incidents" →
        state.retrievalAttempts < state.budget.maxRetrievalAttempts)

/-- Every invocation of the trace was allowed where it was made. -/
def AllAllowed (trace : List WorkflowEvent) : Prop :=
  ∀ before call state after, trace = before ++ .invoked call state :: after →
    Allowed before call state

/-- **What a persisted state keeps to**; tokens can pass their limit by the usage of the last
call of the planner, the verifier or the reporter, and no further. -/
structure WithinBudget (trace : List WorkflowEvent) (state : InvestigationState) : Prop where
  steps : state.steps ≤ state.budget.maxSteps
  toolCalls : state.toolCalls ≤ state.budget.maxToolCalls
  retrievalAttempts : state.retrievalAttempts ≤ state.budget.maxRetrievalAttempts
  tokens : state.tokensUsed <
    state.budget.maxTokens + (lastOf WorkflowEvent.usage trace).getD 0

/-! ## Traces -/

section Trace

variable {β : Type} {f : WorkflowEvent → Option β} {trace more before : List WorkflowEvent}
  {event : WorkflowEvent} {call : CostlyCall} {state : InvestigationState}

theorem lastOf_append : lastOf f (trace ++ more) = (lastOf f more).or (lastOf f trace) := by
  simp [lastOf, List.filterMap_append, List.getLast?_append]

theorem lastOf_concat : lastOf f (trace ++ [event]) = (f event).or (lastOf f trace) := by
  rw [lastOf_append]
  cases h : f event <;> simp [lastOf, h]

/-- An event that `f` does not pick leaves the last one. -/
theorem lastOf_skip (h : f event = none) : lastOf f (trace ++ [event]) = lastOf f trace := by
  rw [lastOf_concat, h, Option.none_or]

theorem lastOf_append_some {b : β} (h : lastOf f more = some b) :
    lastOf f (trace ++ more) = some b := by
  rw [lastOf_append, h, Option.some_or]

theorem Ready.prepend (h : Ready before state) : Ready (trace ++ before) state := by
  obtain ⟨started, hstarted, hsteps⟩ := h.steps
  obtain ⟨startedAt, now, hat, hnow, hin⟩ := h.elapsed
  exact ⟨⟨started, lastOf_append_some hstarted, hsteps⟩, h.tokens,
    startedAt, now, hat, lastOf_append_some hnow, hin⟩

theorem Allowed.prepend (h : Allowed before call state) : Allowed (trace ++ before) call state := by
  refine ⟨h.toReady.prepend, fun hcall => ?_, h.tool⟩
  obtain ⟨now, hnow, hlast⟩ := h.last hcall
  exact ⟨now, lastOf_append_some hnow, lastOf_append_some hlast⟩

theorem Ready.skip (h : Ready trace state) (hnode : event.startedNode = none)
    (hbudget : event.budgetReading = none) : Ready (trace ++ [event]) state := by
  obtain ⟨started, hstarted, hsteps⟩ := h.steps
  obtain ⟨startedAt, now, hat, hnow, hin⟩ := h.elapsed
  exact ⟨⟨started, (lastOf_skip hnode).trans hstarted, hsteps⟩, h.tokens,
    startedAt, now, hat, (lastOf_skip hbudget).trans hnow, hin⟩

theorem AllAllowed.concat (h : AllAllowed trace)
    (hevent : ∀ call state, event = .invoked call state → Allowed trace call state) :
    AllAllowed (trace ++ [event]) := by
  intro before call state after heq
  rcases List.eq_nil_or_concat after with rfl | ⟨after, last, rfl⟩
  · obtain ⟨rfl, hlast⟩ := List.append_inj' heq rfl
    exact hevent call state (List.head_eq_of_cons_eq hlast)
  · rw [List.concat_eq_append, ← List.cons_append, ← List.append_assoc] at heq
    obtain ⟨rfl, -⟩ := List.append_inj' heq rfl
    exact h before call state after rfl

theorem AllAllowed.skip (h : AllAllowed trace) (hevent : ∀ call state, event ≠ .invoked call state) :
    AllAllowed (trace ++ [event]) :=
  h.concat fun call state heq => absurd heq (hevent call state)

theorem AllAllowed.append (h : AllAllowed trace) (hmore : AllAllowed more) :
    AllAllowed (trace ++ more) := by
  intro before call state after heq
  rcases List.append_eq_append_iff.1 heq with ⟨between, rfl, hrest⟩ | ⟨between, htrace, hrest⟩
  · exact (hmore between call state after hrest).prepend
  · cases between with
    | nil =>
      rw [List.append_nil] at htrace
      subst htrace
      have hhead := hmore [] call state after (by simpa using hrest.symm)
      have hready : Allowed (trace ++ []) call state := hhead.prepend
      rwa [List.append_nil] at hready
    | cons event between =>
      rw [List.cons_append] at hrest
      obtain ⟨rfl, -⟩ := List.cons.inj hrest
      exact h before call state between htrace

end Trace

/-! ## The state that a node ends with -/

namespace InvestigationWorkflow

variable {env : Collaborators} {w : WorkflowWorld} {state : InvestigationState}

/-- The world has seen only allowed invocations. -/
def Ruled (w : WorkflowWorld) : Prop := AllAllowed w.trace

/-- What a node, or a loop over requests, ends with. -/
structure Ended (state : InvestigationState) (w : WorkflowWorld) : Prop
    extends WithinBudget w.trace state where
  ruled : Ruled w
  live : state.terminal = false → state.tokensUsed < state.budget.maxTokens
  started : state.startedAt ≠ none

/-- What holds before each call of a tool. -/
structure Calling (state : InvestigationState) (w : WorkflowWorld) : Prop extends Ended state w where
  ready : Ready w.trace state
  running : state.terminal = false

theorem Ruled.read (h : Ruled w) (use : ClockUse) (t : ℤ) :
    Ruled (w.next.log (.clockRead use t)) :=
  AllAllowed.skip h (by simp)

theorem Ended.skip (h : Ended state w) (event : WorkflowEvent) (husage : event.usage = none)
    (hevent : ∀ call state, event ≠ .invoked call state) : Ended state (w.next.log event) :=
  { h with
    tokens := by
      rw [WorkflowWorld.log_trace, WorkflowWorld.next_trace, lastOf_skip husage]; exact h.tokens
    ruled := AllAllowed.skip h.ruled hevent }

theorem Ended.read (h : Ended state w) (use : ClockUse) (t : ℤ) :
    Ended state (w.next.log (.clockRead use t)) :=
  h.skip _ rfl (by simp)

theorem Ended.stopped (h : Ended state w) (reason : StopReason) (t : ℤ) :
    Ended (state.stopped reason t) w :=
  { h with live := fun hlive => by rw [stopped_terminal] at hlive; cases hlive }

/-- Stopping a state that has ended keeps what it ended with. -/
theorem terminal_ended {reason : StopReason} (h : Ended state w) :
    wp (terminal env state reason) Ended (fun _ => Ruled) w := by
  rw [wp_terminal]
  exact ⟨fun t _ => (h.stopped reason t).read .finished t, fun _ => h.ruled⟩

theorem toolBudgetReason_none {retrieval : Bool} (h : toolBudgetReason state retrieval = none) :
    state.toolCalls < state.budget.maxToolCalls ∧
      (retrieval = true → state.retrievalAttempts < state.budget.maxRetrievalAttempts) := by
  unfold toolBudgetReason at h
  split at h
  · cases h
  · split at h
    · cases h
    · rename_i hcalls hattempts
      simp only [Bool.and_eq_true, decide_eq_true_eq, not_and, not_le] at hattempts
      exact ⟨not_le.1 hcalls, hattempts⟩

/-- Recording an action that had a call, and an attempt, left. -/
theorem recordAction_ended {retrieval : Bool} {action : ToolAction} (h : Ended state w)
    (hcalls : state.toolCalls < state.budget.maxToolCalls)
    (hattempts : retrieval = true → state.retrievalAttempts < state.budget.maxRetrievalAttempts) :
    Ended (state.recordAction retrieval action) w := by
  refine { h with toolCalls := hcalls, retrievalAttempts := ?_ }
  cases retrieval with
  | false => exact h.retrievalAttempts
  | true => exact hattempts rfl

/-- A budget check that finds nothing leaves the state ready for the next action, with its
reading the last one. -/
theorem budgetReason_ready {includeSteps : Bool} {N : Option StopReason → WorkflowWorld → Prop}
    (hstarted : state.startedAt ≠ none)
    (hfound : ∀ reason, N (some reason) w ∧ ∀ t, N (some reason) (w.next.log (.clockRead .budget t)))
    (hready : state.tokensUsed < state.budget.maxTokens →
      (includeSteps = true → state.steps < state.budget.maxSteps) → ∀ startedAt t,
      state.startedAt = some startedAt → timedOut state.budget startedAt t = false →
      N none (w.next.log (.clockRead .budget t)))
    (hruled : Ruled w) :
    wp (budgetReason env state includeSteps) N (fun _ => Ruled) w := by
  refine wp_budgetReason (fun _ _ => (hfound _).1) (fun _ => (hfound _).1)
    (fun _ _ hnone => absurd hnone hstarted) (fun hsteps htokens startedAt t hat => ?_) hruled
  split
  · exact (hfound _).2 t
  · rename_i hin
    rw [Bool.not_eq_true] at hin
    exact hready htokens hsteps startedAt t hat hin

/-- A tool call that a budget stops. -/
theorem stopCall {reason : StopReason} {result : Option ToolResult} (h : Ended state w) :
    wp (do return (← terminal env state reason, result))
      (fun out w' => match out.1.terminal, out.2 with
        | false, some result => Calling (out.1.addResult result) w'
        | _, _ => Ended out.1 w')
      (fun _ => Ruled) w := by
  rw [wp_bind, wp_terminal]
  refine ⟨fun t _ => ?_, fun _ => h.ruled⟩
  rw [wp_pure, stopped_terminal]
  exact (h.stopped reason t).read .finished t

/-- Adding what a tool returned changes no counter. -/
theorem addResult_calling {result : ToolResult} (h : Calling state w) :
    Calling (state.addResult result) w := by
  cases result <;>
    exact { h with ready := { h.ready with }, running := h.running, live := h.live, started := h.started }

/-- Every tool that retrieves counts an attempt. -/
def CountsAttempts (name : String) (retrieval : Bool) : Prop :=
  name = "retrieve" ∨ name = "search_incidents" → retrieval = true

/-- **A tool is invoked with a call left**, and ends within the budget. -/
theorem toolCall_allowed {name : String} {retrieval : Bool}
    {operation : ℕ → Except ToolRaise ToolResult} (hname : CountsAttempts name retrieval)
    (h : Calling state w) :
    wp (toolCall env state name retrieval operation)
      (fun out w' => match out.1.terminal, out.2 with
        | false, some result => Calling (out.1.addResult result) w'
        | _, _ => Ended out.1 w')
      (fun _ => Ruled) w := by
  unfold toolCall
  split
  · exact stopCall h.toEnded
  · rename_i hfree
    obtain ⟨hcalls, hattempts⟩ := toolBudgetReason_none hfree
    simp only [wp_bind, wp_now, wp_emit, wp_interaction]
    refine ⟨fun started _ => ?_, fun _ => h.ruled⟩
    -- the reading that times the call is none of a budget check, and the state is still ready
    have hread := h.toEnded.read .toolStarted started
    have hready : Ready (w.trace ++ [.clockRead .toolStarted started]) state := h.ready.skip rfl rfl
    have hallowed : Allowed (w.trace ++ [.clockRead .toolStarted started]) (.tool name retrieval)
        state := by
      refine ⟨hready, fun hcall => absurd rfl (hcall name retrieval), ?_⟩
      rintro _ _ ⟨rfl, rfl⟩
      exact ⟨hcalls, fun htool => hattempts (hname htool)⟩
    set w₁ := w.next.log (.clockRead .toolStarted started) with hw₁
    have hinvoked : Ended state (w₁.log (.invoked (.tool name retrieval) state)) :=
      { hread with
        tokens := by rw [WorkflowWorld.log_trace, lastOf_skip rfl]; exact hread.tokens
        ruled := AllAllowed.concat hread.ruled (by rintro _ _ ⟨rfl, rfl⟩; exact hallowed) }
    have hready' : Ready (w₁.log (.invoked (.tool name retrieval) state)).trace state :=
      hready.skip rfl rfl
    split
    · exact hinvoked.ruled
    · rename_i code _
      simp only [wp_bind, wp_now, wp_orRaise, wp_pure]
      refine ⟨fun finished _ => ⟨fun advanced hmoved => ?_, fun _ => ?_⟩, fun _ => hinvoked.ruled⟩
      · obtain ⟨_, rfl⟩ := moveTo_eq hmoved
        have hended : Ended (state.recordAction retrieval (failedAction state name
            (durationMs started finished) code)) _ :=
          recordAction_ended (hinvoked.read .toolFinished finished) hcalls hattempts
        split
        · rename_i hnone; cases hnone
        · exact { hended with }
      · exact hinvoked.ruled.read .toolFinished finished
    · rename_i result _
      simp only [wp_bind, wp_emit, wp_now]
      have hreturned := hinvoked.skip (.toolReturned result) rfl (by simp)
      refine ⟨fun finished _ => ?_, fun _ => hreturned.ruled⟩
      have hended : Ended (state.recordAction retrieval (succeededAction state name
          (durationMs started finished) result)) _ :=
        recordAction_ended (hreturned.read .toolFinished finished) hcalls hattempts
      refine budgetReason_ready h.started (fun reason => ⟨?_, fun t => ?_⟩)
        (fun htokens _ startedAt t hat hin => ?_) hended.ruled
      · exact stopCall hended
      · exact stopCall (hended.read .budget t)
      · have hlive : (state.recordAction retrieval (succeededAction state name
            (durationMs started finished) result)).terminal = false := h.running
        rw [wp_pure, hlive]
        refine addResult_calling ⟨hended.read .budget t, ⟨?_, htokens, startedAt, t, hat, ?_, hin⟩, hlive⟩
        · obtain ⟨node, hnode, hsteps⟩ := hready'.steps
          refine ⟨node, ?_, hsteps⟩
          simp only [WorkflowWorld.log_trace, WorkflowWorld.next_trace] at hnode ⊢
          rw [lastOf_skip rfl, lastOf_skip rfl, lastOf_skip rfl]
          exact hnode
        · rw [WorkflowWorld.log_trace, lastOf_concat]; rfl

/-- A loop over requests invokes its tool with a call left. -/
theorem toolLoop_allowed {R : Type} {name : String} {retrieval : Bool}
    {operation : R → ℕ → Except ToolRaise ToolResult} {requests : List R}
    (hname : CountsAttempts name retrieval) (h : Calling state w) :
    wp (toolLoop env name retrieval operation InvestigationState.addResult requests state)
      (fun out w' => if out.2 then Calling out.1 w' else Ended out.1 w') (fun _ => Ruled) w :=
  wp_toolLoop (I := Calling) (Q := Ended)
    (fun _ _ _ hcalling => toolCall_allowed hname hcalling) h

/-! ## Nodes -/

/-- What a node starts with: the state is ready, by a budget check that took the last reading
of the clock. -/
structure Starting (state : InvestigationState) (w : WorkflowWorld) : Prop
    extends Calling state w where
  last : ∃ now, lastOf WorkflowEvent.budgetReading w.trace = some now ∧
    lastOf WorkflowEvent.reading w.trace = some (.budget, now)
  steps_lt : state.steps < state.budget.maxSteps

theorem recordStep_calling (h : Starting state w) : Calling state.recordStep w :=
  { h with steps := h.steps_lt, ready := { h.ready with }, running := h.running, live := h.live,
           started := h.started }

theorem moveTo_ended {node : InvestigationNode} {moved : InvestigationState}
    (h : Calling state w) (hmoved : state.moveTo node = some moved) : Ended moved w := by
  obtain ⟨_, rfl⟩ := moveTo_eq hmoved
  exact { h.toEnded with }

theorem retrieve_allowed (h : Starting state w) :
    wp (retrieve env state) Ended (fun _ => Ruled) w := by
  unfold retrieve
  split
  · exact terminal_ended h.toEnded
  · have hstart := recordStep_calling h
    refine wp_afterLoop (toolLoop_allowed (fun _ => rfl) hstart) (fun _ _ h => h) fun advanced w₁ h₁ => ?_
    refine wp_afterLoop (toolLoop_allowed (fun _ => rfl) h₁) (fun _ _ h => h) fun searching w₂ h₂ => ?_
    exact wp_orRaise.2 ⟨fun moved hmoved => moveTo_ended h₂ hmoved, fun _ => h₂.ruled⟩

theorem compare_allowed (h : Starting state w) :
    wp (compare env state) Ended (fun _ => Ruled) w := by
  have hname : CountsAttempts "compare_versions" false := by
    rintro (hname | hname) <;> simp at hname
  unfold compare
  split
  · exact terminal_ended h.toEnded
  · have hstart := recordStep_calling h
    refine wp_afterLoop (toolLoop_allowed hname hstart) (fun _ _ h => h) fun advanced w₁ h₁ => ?_
    exact wp_orRaise.2 ⟨fun moved hmoved => moveTo_ended h₁ hmoved, fun _ => h₁.ruled⟩

/-- The planner, the verifier and the reporter are invoked right after the budget check. -/
theorem invoke_ruled {call : CostlyCall} (h : Starting state w)
    (hcall : ∀ name retrieval, call ≠ .tool name retrieval) :
    Ruled (w.log (.invoked call state)).next := by
  refine AllAllowed.concat h.ruled ?_
  rintro _ _ ⟨rfl, rfl⟩
  exact ⟨h.ready, fun _ => h.last, fun name retrieval heq => absurd heq (hcall name retrieval)⟩

/-- What is left of a node when its collaborator has returned: the state has used its tokens
and has not been checked for them. -/
structure Used (state : InvestigationState) (w : WorkflowWorld) : Prop
    extends WithinBudget w.trace state where
  ruled : Ruled w
  started : state.startedAt ≠ none

theorem used_of_starting {call : CostlyCall} {tokens cost : ℕ} (h : Starting state w)
    (hcall : ∀ name retrieval, call ≠ .tool name retrieval) :
    Used (state.recordUsage tokens cost)
      ((w.log (.invoked call state)).next.log (.used tokens)) where
  steps := h.steps_lt
  toolCalls := h.toolCalls
  retrievalAttempts := h.retrievalAttempts
  tokens := by
    have htokens := h.ready.tokens
    rw [WorkflowWorld.log_trace, lastOf_concat]
    simp only [InvestigationState.recordUsage, WorkflowEvent.usage, Option.some_or, Option.getD_some]
    omega
  ruled := AllAllowed.skip (invoke_ruled h hcall) (by simp)
  started := h.started

theorem Used.ended (h : Used state w) (reason : StopReason) (t : ℤ) :
    Ended (state.stopped reason t) w :=
  { h with live := fun hlive => by rw [stopped_terminal] at hlive; cases hlive }

theorem Used.read (h : Used state w) (use : ClockUse) (t : ℤ) :
    Used state (w.next.log (.clockRead use t)) :=
  { h with
    tokens := by
      rw [WorkflowWorld.log_trace, WorkflowWorld.next_trace, lastOf_skip rfl]; exact h.tokens
    ruled := h.ruled.read use t }

theorem terminal_used {reason : StopReason} (h : Used state w) :
    wp (terminal env state reason) Ended (fun _ => Ruled) w := by
  rw [wp_terminal]
  exact ⟨fun t _ => (h.ended reason t).read .finished t, fun _ => h.ruled⟩

theorem afterNode_allowed (h : Used state w) :
    wp (afterNode env state) Ended (fun _ => Ruled) w := by
  unfold afterNode
  rw [wp_bind]
  refine budgetReason_ready h.started (fun reason => ⟨terminal_used h, fun t => terminal_used (h.read .budget t)⟩)
    (fun htokens _ _ t _ _ => ?_) h.ruled
  exact { h.read .budget t with live := fun _ => htokens }

theorem plan_allowed (h : Starting state w) : wp (plan env state) Ended (fun _ => Ruled) w := by
  unfold plan
  simp only [wp_bind, wp_emit, wp_interaction, wp_orRaise]
  refine ⟨fun result _ => ?_, fun _ => invoke_ruled h (by simp)⟩
  have hused : Used (state.recordUsage result.tokensUsed result.costMicrousd)
      ((w.log (.invoked .planner state)).next.log (.used result.tokensUsed)) :=
    used_of_starting h (by simp)
  refine ⟨fun advanced hmoved => ?_, fun _ => hused.ruled⟩
  obtain ⟨_, rfl⟩ := moveTo_eq hmoved
  exact afterNode_allowed { hused with }

theorem verify_allowed (h : Starting state w) : wp (verify env state) Ended (fun _ => Ruled) w := by
  unfold verify
  simp only [wp_bind, wp_emit, wp_interaction, wp_orRaise]
  refine ⟨fun result _ => ?_, fun _ => invoke_ruled h (by simp)⟩
  have hused : Used (state.recordUsage result.tokensUsed result.costMicrousd)
      ((w.log (.invoked .verifier state)).next.log (.used result.tokensUsed)) :=
    used_of_starting h (by simp)
  refine ⟨fun advanced hmoved => ?_, fun _ => hused.ruled⟩
  obtain ⟨_, rfl⟩ := moveTo_eq hmoved
  exact afterNode_allowed { hused with }

theorem report_allowed (h : Starting state w) : wp (report env state) Ended (fun _ => Ruled) w := by
  unfold report
  simp only [wp_bind, wp_emit, wp_interaction, wp_orRaise]
  refine ⟨fun result _ => ?_, fun _ => invoke_ruled h (by simp)⟩
  have hcounted : Used (state.recordUsage result.tokensUsed result.costMicrousd)
      ((w.log (.invoked .reporter state)).next.log (.used result.tokensUsed)) :=
    used_of_starting h (by simp)
  have hused : Used ((state.recordUsage result.tokensUsed result.costMicrousd).withSummary
      result.summary) ((w.log (.invoked .reporter state)).next.log (.used result.tokensUsed)) :=
    { hcounted with }
  exact budgetReason_ready h.started
    (fun reason => ⟨terminal_used hused, fun t => terminal_used (hused.read .budget t)⟩)
    (fun _ _ _ t _ _ => terminal_used (hused.read .budget t)) hused.ruled

theorem runNode_allowed (h : Starting state w) : wp (runNode env state) Ended (fun _ => Ruled) w := by
  unfold runNode
  split
  · exact plan_allowed h
  · exact retrieve_allowed h
  · exact compare_allowed h
  · exact verify_allowed h
  · exact report_allowed h
  · exact h.ruled

/-! ## Calls -/

/-- What holds of a persisted state that is not terminal. -/
structure Advancing (state : InvestigationState) : Prop where
  steps : state.steps ≤ state.budget.maxSteps
  toolCalls : state.toolCalls ≤ state.budget.maxToolCalls
  retrievalAttempts : state.retrievalAttempts ≤ state.budget.maxRetrievalAttempts
  tokens : state.tokensUsed < state.budget.maxTokens
  started : state.status = .queued ∨ state.startedAt ≠ none

/-- A state that has tokens left is within its budget under any trace. -/
theorem Advancing.ended (h : Advancing state) (hstarted : state.startedAt ≠ none) (hw : Ruled w) :
    Ended state w :=
  { h with
    tokens := Nat.lt_add_right _ h.tokens
    ruled := hw
    live := fun _ => h.tokens
    started := hstarted }

theorem persisted_ended {current : InvestigationState} (h : Ended state w) :
    wp (persisted env current state) Ended (fun _ => Ruled) w := by
  unfold persisted
  simp only [wp_bind, wp_now, wp_pure]
  exact ⟨fun t _ => { h.read .updated t with }, fun _ => h.ruled⟩

/-- `_advance` once the investigation has started. -/
theorem advance_ended {current : InvestigationState} (h : Advancing state)
    (hlive : state.terminal = false) (hstarted : state.startedAt ≠ none) (hw : Ruled w) :
    wp (do
      match ← budgetReason env state true with
      | some reason => persisted env current (← terminal env state reason)
      | none =>
        emit (.nodeStarted state)
        let advanced ← tryCatch (runNode env state) fun _ => terminal env state .workflowFailure
        persisted env current advanced) Ended (fun _ => Ruled) w := by
  have hstop : ∀ {reason : StopReason} {w : WorkflowWorld}, Ruled w →
      wp (do persisted env current (← terminal env state reason)) Ended (fun _ => Ruled) w := by
    intro reason w hw
    rw [wp_bind]
    exact wp_mono (terminal_ended (h.ended hstarted hw)) (fun _ _ hended => persisted_ended hended)
      (fun _ _ hruled => hruled)
  rw [wp_bind]
  refine budgetReason_ready hstarted (fun reason => ⟨hstop hw, fun t => hstop (hw.read .budget t)⟩)
    (fun htokens hsteps startedAt t hat hin => ?_) hw
  simp only [wp_bind, wp_emit, wp_tryCatch]
  -- the node starts with the reading of this check the last one
  have hread : Ruled ((w.next.log (.clockRead .budget t)).log (.nodeStarted state)) :=
    AllAllowed.skip (hw.read .budget t) (by simp)
  have hnow : lastOf WorkflowEvent.budgetReading
      ((w.next.log (.clockRead .budget t)).log (.nodeStarted state)).trace = some t := by
    rw [WorkflowWorld.log_trace, lastOf_skip rfl, WorkflowWorld.log_trace, lastOf_concat]; rfl
  have hlast : lastOf WorkflowEvent.reading
      ((w.next.log (.clockRead .budget t)).log (.nodeStarted state)).trace = some (.budget, t) := by
    rw [WorkflowWorld.log_trace, lastOf_skip rfl, WorkflowWorld.log_trace, lastOf_concat]; rfl
  have hnode : lastOf WorkflowEvent.startedNode
      ((w.next.log (.clockRead .budget t)).log (.nodeStarted state)).trace = some state := by
    rw [WorkflowWorld.log_trace, lastOf_concat]; rfl
  have hstarting : Starting state ((w.next.log (.clockRead .budget t)).log (.nodeStarted state)) :=
    { h.ended hstarted hread with
      ready := ⟨⟨state, hnode, hsteps rfl⟩, htokens, startedAt, t, hat, hnow, hin⟩
      running := hlive
      last := ⟨t, hnow, hlast⟩
      steps_lt := hsteps rfl }
  refine wp_mono (runNode_allowed hstarting) (fun _ _ hended => persisted_ended hended)
    (fun _ _ hruled => ?_)
  have hfailed : wp (do persisted env current (← terminal env state .workflowFailure)) Ended
      (fun _ => Ruled) _ := hstop hruled
  rw [wp_bind] at hfailed
  exact hfailed

theorem advance_allowed (h : Advancing state) (hlive : state.terminal = false) (hw : Ruled w) :
    wp (advance env state) Ended (fun _ => Ruled) w := by
  unfold advance begin
  by_cases hqueued : state.status = .queued
  · rw [dif_pos hqueued]
    simp only [wp_bind, wp_now, wp_pure]
    refine ⟨fun t _ => ?_, fun _ => hw⟩
    have hrunning : Advancing (state.running hqueued t) :=
      { h with started := Or.inr (by simp [InvestigationState.running]) }
    have hended := @advance_ended env _ _ state hrunning rfl
      (by simp [InvestigationState.running]) (hw.read .started t)
    rw [wp_bind] at hended
    exact hended
  · rw [dif_neg hqueued, wp_bind, wp_pure]
    exact advance_ended h hlive (h.started.resolve_left hqueued) hw

theorem cancel_allowed (h : Advancing state) (hw : Ruled w) :
    wp (cancel env state)
      (fun state' w' => WithinBudget w'.trace state' ∧ Ruled w' ∧ state'.terminal = true)
      (fun _ => Ruled) w := by
  unfold cancel persisted
  simp only [wp_bind, wp_terminal, wp_now, wp_pure]
  refine ⟨fun t _ => ⟨fun t' _ => ⟨?_, (hw.read .finished t).read .updated t', rfl⟩,
    fun _ => hw.read .finished t⟩, fun _ => hw⟩
  exact { h with tokens := Nat.lt_add_right _ h.tokens }

end InvestigationWorkflow

/-- What holds of a run: its invocations were allowed, its state is within the budget, and a
state that is not terminal can go on. -/
structure RunOk (run : InvestigationRun) : Prop where
  allowed : AllAllowed run.trace
  within : WithinBudget run.trace run.state
  advancing : run.state.terminal = false → Advancing run.state

/-- More trace keeps a state within the budget, if it ends with the usage of the last call. -/
theorem WithinBudget.prepend {trace more : List WorkflowEvent} {state : InvestigationState}
    (h : WithinBudget more state) : WithinBudget (trace ++ more) state := by
  refine { h with tokens := ?_ }
  have htokens := h.tokens
  rw [lastOf_append]
  cases hlast : lastOf WorkflowEvent.usage more with
  | none => rw [hlast] at htokens; exact Nat.lt_of_lt_of_le htokens (by simp)
  | some tokens => rw [hlast] at htokens; exact htokens

/-- What a call computes from a state that is not terminal. -/
theorem compute_allowed {call : WorkflowCall} {state : InvestigationState}
    (h : Advancing state) (hlive : state.terminal = false) :
    wp (call.compute state)
      (fun saved w' => AllAllowed w'.trace ∧ ∀ state', saved = some state' →
        WithinBudget w'.trace state' ∧ (state'.terminal = false → Advancing state'))
      (fun _ w' => AllAllowed w'.trace) {} := by
  have hw : Ruled {} := by
    intro before call state after heq
    simp at heq
  unfold WorkflowCall.compute
  rw [if_neg (by rw [hlive]; exact Bool.false_ne_true)]
  cases call with
  | advance env =>
    rw [wp_map]
    refine wp_mono (advance_allowed h hlive hw) (fun state' w' hended => ?_) (fun _ _ hruled => hruled)
    refine ⟨hended.ruled, fun _ heq => ?_⟩
    cases heq
    exact ⟨hended.toWithinBudget, fun hlive' => ⟨hended.steps, hended.toolCalls,
      hended.retrievalAttempts, hended.live hlive', Or.inr hended.started⟩⟩
  | cancel env =>
    rw [wp_map]
    refine wp_mono (cancel_allowed h hw) (fun state' w' hdone => ?_) (fun _ _ hruled => hruled)
    obtain ⟨hwithin, hruled, hterminal⟩ := hdone
    refine ⟨hruled, fun _ heq => ?_⟩
    cases heq
    exact ⟨hwithin, fun hlive' => by rw [hterminal] at hlive'; cases hlive'⟩

/-- A call that saves nothing leaves the state, and more trace. -/
theorem RunOk.unsaved {run : InvestigationRun} {more : List WorkflowEvent} (h : RunOk run)
    (hlive : run.state.terminal = false) (hmore : AllAllowed more) :
    RunOk { run with trace := run.trace ++ more } :=
  ⟨h.allowed.append hmore,
    { h.within with tokens := Nat.lt_add_right _ (h.advancing hlive).tokens }, h.advancing⟩

/-- **One call keeps the budgets.** -/
theorem step_runOk (run : InvestigationRun) (call : WorkflowCall) (h : RunOk run) :
    RunOk (run.step call) := by
  cases hterminal : run.state.terminal with
  | true =>
    have hnothing : call.outcome run.state = (.ok none, {}) := by
      unfold WorkflowCall.outcome WorkflowCall.compute
      rw [if_pos hterminal]; rfl
    unfold InvestigationRun.step
    rw [hnothing]
    simpa using h
  | false =>
    have hspec := @compute_allowed call _ (h.advancing hterminal) hterminal
    unfold InvestigationRun.step
    split
    · rename_i state world hout
      obtain ⟨hallowed, hsaved⟩ := wp_ok hspec hout
      obtain ⟨hwithin, hadvancing⟩ := hsaved state rfl
      exact ⟨h.allowed.append hallowed, hwithin.prepend, hadvancing⟩
    · rename_i result world _ hout
      cases result with
      | ok saved => exact h.unsaved hterminal (wp_ok hspec hout).1
      | error e => exact h.unsaved hterminal (wp_error hspec hout)

/-- **Budgets are enforced before every costly action.** In every run of calls on an
investigation, with any clocks and collaborators, the planner, the verifier, the reporter or a
tool is invoked only when its node had a step left, tokens were left, and the deadline had not
passed at the reading of the last budget check, which for all but the tools is the last reading
of the clock; a tool only with a call left and, if it retrieves, an attempt. Every persisted
state is within its budget, but for the tokens of the last call. -/
theorem budgets_enforced (task : InvestigationTask) (budget : InvestigationBudget) (now : ℤ)
    (calls : List WorkflowCall) :
    Machine.Always InvestigationRun.step
      (fun run => AllAllowed run.trace ∧ WithinBudget run.trace run.state)
      (.init task budget now) calls := by
  have hinit : RunOk (.init task budget now) := by
    refine ⟨?_, ⟨Nat.zero_le _, Nat.zero_le _, Nat.zero_le _, budget.maxTokens_pos⟩, fun _ =>
      ⟨Nat.zero_le _, Nat.zero_le _, Nat.zero_le _, budget.maxTokens_pos, Or.inl rfl⟩⟩
    intro before call state after heq
    rcases before with _ | ⟨event, before⟩ <;> simp [InvestigationRun.init] at heq
  intro pre _
  have hrun : RunOk (Machine.run InvestigationRun.step (.init task budget now) pre) :=
    Machine.run_inv step_runOk hinit
  exact ⟨hrun.allowed, hrun.within⟩

/-! ## A tool call at a reading past the deadline -/

/-- The deadline had not passed at the last reading of the clock. -/
def InTimeAtLastReading (before : List WorkflowEvent) (state : InvestigationState) : Prop :=
  ∀ startedAt use now, state.startedAt = some startedAt →
    lastOf WorkflowEvent.reading before = some (use, now) → timedOut state.budget startedAt now = false

/-- The budget check of the node reads 9 s, and the reading that times the call reads 11 s. -/
def slowStart : WorkflowCall :=
  .advance (sampleWorker fun n => some (if n = 0 then 9000000 else 11000000))

/-- **A tool is invoked with the deadline past** at the last reading of the clock. -/
theorem tool_invoked_late :
    ¬ ∀ before call state after,
      (samplePlanned.step slowStart).trace = before ++ .invoked call state :: after →
        InTimeAtLastReading before state := by
  intro h
  have hsplit : (samplePlanned.step slowStart).trace = (samplePlanned.step slowStart).trace.take 11 ++
      .invoked (.tool "retrieve" true) samplePlanned.state.recordStep ::
        (samplePlanned.step slowStart).trace.drop 12 := by decide +kernel
  have hlast : lastOf WorkflowEvent.reading ((samplePlanned.step slowStart).trace.take 11) =
      some (.toolStarted, 11000000) := by decide +kernel
  have hintime := h _ _ _ _ hsplit 0 _ _ (by decide +kernel) hlast
  exact absurd hintime (by decide +kernel)

end GroundedOps.Investigation
