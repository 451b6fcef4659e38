import GroundedOps.Lib.Machine
import GroundedOps.Proof.Success

/-!
# What an investigation says of its tool calls

* `SavedRun`: the persisted state, with the trace of each call that saved one.
* `Accounts`: the counters and the actions of the state are those of the tools that the saved
  calls have invoked.
* `Contained`: **no saved advance invokes a tool in a node that an exception then leaves.**
* `accounted_iff`: the states of a run account for its tool calls exactly when every call is
  contained.
* `raising_tool_forgotten`: a tool that raises is forgotten, with the failure it causes.
-/

namespace GroundedOps.Investigation

open Hoare InvestigationWorkflow

/-! ## Traces -/

/-- The tool that is invoked. -/
def WorkflowEvent.tool : WorkflowEvent → Option String
  | .invoked (.tool name _) _ => some name
  | _ => none

/-- The tools invoked, in order. -/
def invocations (trace : List WorkflowEvent) : List String := trace.filterMap WorkflowEvent.tool

/-- The invocations that count as attempts to retrieve. -/
def attempts (trace : List WorkflowEvent) : ℕ :=
  (invocations trace).countP fun name => name = "retrieve" ∨ name = "search_incidents"

/-- The invocations that returned or raised `InvestigationToolError`, with their outcome: after
any other exception the workflow does not time the call. -/
def ended : List WorkflowEvent → List (String × ToolActionOutcome)
  | .invoked (.tool name _) _ :: .toolReturned _ :: rest => (name, .succeeded) :: ended rest
  | .invoked (.tool name _) _ :: .clockRead .toolFinished _ :: rest => (name, .failed) :: ended rest
  | _ :: rest => ended rest
  | [] => []

/-- What an action says of its invocation. -/
def ToolAction.entry (action : ToolAction) : String × ToolActionOutcome := (action.tool, action.outcome)

/-- An event that ends an invocation. -/
def WorkflowEvent.closes : WorkflowEvent → Bool
  | .toolReturned _ => true
  | .clockRead .toolFinished _ => true
  | _ => false

/-! ## Runs -/

/-- The persisted state of an investigation, and the trace of each call that saved a state. -/
structure SavedRun where
  state : InvestigationState
  saved : List (List WorkflowEvent) := []

def SavedRun.init (task : InvestigationTask) (budget : InvestigationBudget) (now : ℤ) : SavedRun :=
  { state := .queued task budget now }

def SavedRun.step (run : SavedRun) (call : WorkflowCall) : SavedRun :=
  match call.outcome run.state with
  | (.ok (some state), world) => { state := state, saved := run.saved ++ [world.trace] }
  | _ => run

/-- **The state accounts for the tools invoked by the calls that were saved.** -/
structure SavedRun.Accounts (run : SavedRun) : Prop where
  calls : run.state.toolCalls = (run.saved.map fun trace => (invocations trace).length).sum
  attempts : run.state.retrievalAttempts = (run.saved.map attempts).sum
  actions : run.state.toolActions.map ToolAction.entry = run.saved.flatMap ended

/-- An advance as far as its node, if its budget check lets it run one. -/
def nodeOf (env : Collaborators) (current : InvestigationState) : Workflow (Option InvestigationState) := do
  let state ← begin env current
  match ← budgetReason env state true with
  | some _ => return none
  | none =>
    emit (.nodeStarted state)
    some <$> runNode env state

/-- The tools invoked in a node that an exception leaves. -/
def forgotten (env : Collaborators) (current : InvestigationState) : List String :=
  match exec (nodeOf env current) {} with
  | (.ok _, _) => []
  | (.error _, world) => invocations world.trace

/-- **No tool has been invoked in a node that an exception leaves**, if the advance is saved. -/
def Contained (run : SavedRun) : WorkflowCall → Prop
  | .advance env => (WorkflowCall.advance env).saved run.state ≠ none → forgotten env run.state = []
  | .cancel _ => True

/-! ## Counting -/

section Traces

variable {trace more : List WorkflowEvent} {event : WorkflowEvent}

theorem invocations_append : invocations (trace ++ more) = invocations trace ++ invocations more :=
  List.filterMap_append

theorem attempts_append : attempts (trace ++ more) = attempts trace + attempts more := by
  unfold attempts
  rw [invocations_append, List.countP_append]

theorem tool_ne_none (h : event.tool ≠ none) :
    ∃ name retrieval state, event = .invoked (.tool name retrieval) state := by
  unfold WorkflowEvent.tool at h
  split at h
  · exact ⟨_, _, _, rfl⟩
  · exact absurd rfl h

theorem closes_eq_true (h : event.closes = true) :
    (∃ result, event = .toolReturned result) ∨ ∃ now, event = .clockRead .toolFinished now := by
  unfold WorkflowEvent.closes at h
  split at h
  · exact .inl ⟨_, rfl⟩
  · exact .inr ⟨_, rfl⟩
  · cases h

/-- An event that no invocation waits for. -/
theorem ended_cons (hevent : event.tool = none ∨ ∀ next, more.head? = some next → next.closes = false) :
    ended (event :: more) = ended more := by
  rw [ended.eq_def]
  split
  · rename_i heq
    cases heq
    rcases hevent with hevent | hevent
    · cases hevent
    · have hopen := hevent _ rfl
      cases hopen
  · rename_i heq
    cases heq
    rcases hevent with hevent | hevent
    · cases hevent
    · have hopen := hevent _ rfl
      cases hopen
  · rename_i heq
    cases heq
    rfl
  · rename_i heq
    cases heq

theorem ended_append (hmore : ∀ next, more.head? = some next → next.closes = false) :
    ended (trace ++ more) = ended trace ++ ended more := by
  fun_induction ended trace with
  | case1 name retrieval state result rest ih =>
    rw [List.cons_append, List.cons_append, List.cons_append, ended, ih]
  | case2 name retrieval state now rest ih =>
    rw [List.cons_append, List.cons_append, List.cons_append, ended, ih]
  | case3 event rest hreturned hraised ih =>
    rw [List.cons_append, ended_cons, ih]
    by_cases htool : event.tool = none
    · exact .inl htool
    · refine .inr fun next hnext => ?_
      cases rest with
      | nil => exact hmore next hnext
      | cons head rest =>
        cases hnext
        by_contra hcloses
        obtain ⟨name, retrieval, state, rfl⟩ := tool_ne_none htool
        rcases closes_eq_true (Bool.not_eq_false _ ▸ hcloses) with ⟨result, rfl⟩ | ⟨now, rfl⟩
        · exact hreturned name retrieval state result rest rfl rfl
        · exact hraised name retrieval state now rest rfl rfl
  | case4 => rfl

/-- Nothing ends without having been invoked. -/
theorem ended_of_invocations (h : invocations trace = []) : ended trace = [] := by
  fun_induction ended trace with
  | case1 name retrieval state result rest ih => cases h
  | case2 name retrieval state now rest ih => cases h
  | case3 event rest hreturned hraised ih =>
    refine ih ?_
    unfold invocations at h ⊢
    rw [List.filterMap_eq_nil_iff] at h ⊢
    exact fun event hmem => h event (List.mem_cons_of_mem _ hmem)
  | case4 => rfl

end Traces

/-! ## Nodes -/

namespace InvestigationWorkflow

variable {env : Collaborators} {w w' : WorkflowWorld} {base state : InvestigationState}

/-- What the trace of a call has added to the counters and actions of `base`. -/
def ToolsCounted (base state : InvestigationState) (w : WorkflowWorld) : Prop :=
  state.toolCalls = base.toolCalls + (invocations w.trace).length ∧
    state.retrievalAttempts = base.retrievalAttempts + attempts w.trace ∧
    state.toolActions.map ToolAction.entry = base.toolActions.map ToolAction.entry ++ ended w.trace

/-- Events that invoke no tool and end no invocation. -/
theorem ToolsCounted.log (h : ToolsCounted base state w) {event : WorkflowEvent} (htool : event.tool = none)
    (hcloses : event.closes = false) (hw : w'.trace = w.trace ++ [event]) : ToolsCounted base state w' := by
  obtain ⟨hcalls, hattempts, hactions⟩ := h
  have hinvocations : invocations [event] = [] := by simp [invocations, htool]
  have hended : ended [event] = [] := ended_of_invocations hinvocations
  unfold ToolsCounted attempts at *
  rw [hw, ended_append fun next hnext => by cases hnext; exact hcloses, invocations_append,
    hinvocations, hended, List.append_nil, List.append_nil]
  exact ⟨hcalls, hattempts, hactions⟩

theorem ToolsCounted.read (h : ToolsCounted base state w) {use : ClockUse} {t : ℤ} (huse : use ≠ .toolFinished) :
    ToolsCounted base state (w.next.log (.clockRead use t)) := by
  refine h.log rfl ?_ rfl
  cases use with
  | toolFinished => exact absurd rfl huse
  | _ => rfl

/-- The name of a tool says whether its calls count as attempts to retrieve. -/
def Counts (name : String) (isRetrieval : Bool) : Prop :=
  isRetrieval = decide (name = "retrieve" ∨ name = "search_incidents")

/-- An invocation that has ended, with its action. -/
theorem ToolsCounted.record (h : ToolsCounted base state w) {name : String} {isRetrieval : Bool}
    (hname : Counts name isRetrieval) {action : ToolAction} {invoked : InvestigationState} {t : ℤ}
    {rest : List WorkflowEvent} (hrest : invocations rest = [])
    (hended : ended (.invoked (.tool name isRetrieval) invoked :: rest) = [action.entry])
    (hw : w'.trace =
      w.trace ++ (.clockRead .toolStarted t :: .invoked (.tool name isRetrieval) invoked :: rest)) :
    ToolsCounted base (state.recordAction isRetrieval action) w' := by
  obtain ⟨hcalls, hattempts, hactions⟩ := h
  have hinvocations : invocations
      (.clockRead .toolStarted t :: .invoked (.tool name isRetrieval) invoked :: rest) = [name] := by
    have hname : WorkflowEvent.tool (.invoked (.tool name isRetrieval) invoked) = some name := rfl
    unfold invocations at hrest ⊢
    rw [List.filterMap_cons_none rfl, List.filterMap_cons_some hname, hrest]
  have hadded : ended (.clockRead .toolStarted t :: .invoked (.tool name isRetrieval) invoked :: rest) =
      [action.entry] := by
    rw [ended_cons (.inl rfl), hended]
  have hone : attempts (.clockRead .toolStarted t :: .invoked (.tool name isRetrieval) invoked :: rest) =
      if isRetrieval then 1 else 0 := by
    unfold attempts
    rw [hinvocations, hname, List.countP_singleton]
  refine ⟨?_, ?_, ?_⟩
  · rw [hw, invocations_append, hinvocations, List.length_append, ← Nat.add_assoc, ← hcalls]
    rfl
  · rw [hw, attempts_append, hone, ← Nat.add_assoc, ← hattempts]
    rfl
  · rw [hw, ended_append fun next hnext => by cases hnext; rfl, hadded, ← List.append_assoc, ← hactions]
    exact List.map_append

theorem terminal_counted {reason : StopReason} (h : ToolsCounted base state w) :
    wp (terminal env state reason) (ToolsCounted base) (fun _ _ => True) w := by
  rw [wp_terminal]
  exact ⟨fun t _ => h.read (by decide), fun _ => trivial⟩

/-- A budget check, and what follows from it. -/
theorem wp_budgetReason_counted {includeSteps : Bool} {N : Option StopReason → WorkflowWorld → Prop}
    (h : ToolsCounted base state w) (hthen : ∀ reason w', ToolsCounted base state w' → N reason w') :
    wp (budgetReason env state includeSteps) N (fun _ _ => True) w :=
  wp_budgetReason (fun _ _ => hthen _ _ h) (fun _ => hthen _ _ h) (fun _ _ _ => hthen _ _ h)
    (fun _ _ _ _ _ => hthen _ _ (h.read (by decide))) trivial

theorem stopCall_counted {reason : StopReason} {result : Option ToolResult} (h : ToolsCounted base state w) :
    wp (do return (← terminal env state reason, result)) (fun out w' => ToolsCounted base out.1 w')
      (fun _ _ => True) w := by
  rw [wp_bind]
  exact wp_mono (terminal_counted h) (fun _ _ h => h) (fun _ _ h => h)

/-- **A call of a tool that does not raise is counted and recorded.** -/
theorem toolCall_counted {name : String} {isRetrieval : Bool}
    {operation : ℕ → Except ToolRaise ToolResult} (hname : Counts name isRetrieval)
    (h : ToolsCounted base state w) :
    wp (toolCall env state name isRetrieval operation) (fun out w' => ToolsCounted base out.1 w')
      (fun _ _ => True) w := by
  unfold toolCall
  split
  · exact stopCall_counted h
  · simp only [wp_bind, wp_now, wp_emit, wp_interaction, implies_true, and_true]
    intro started _
    split
    · trivial
    · rename_i code hcode
      simp only [wp_bind, wp_now, wp_orRaise, wp_pure, implies_true, and_true]
      intro finished _ advanced hmoved
      obtain ⟨_, rfl⟩ := moveTo_eq hmoved
      have htrace : (((w.next.log (.clockRead .toolStarted started)).log
          (.invoked (.tool name isRetrieval) state)).next.next.log
            (.clockRead .toolFinished finished)).trace = w.trace ++
          [.clockRead .toolStarted started, .invoked (.tool name isRetrieval) state,
            .clockRead .toolFinished finished] := by simp
      have hrecorded : ToolsCounted base (state.recordAction isRetrieval
          (failedAction state name (durationMs started finished) code)) _ :=
        h.record hname rfl rfl htrace
      exact hrecorded
    · rename_i result hresult
      simp only [wp_bind, wp_emit, wp_now, implies_true, and_true]
      intro finished _
      have htrace : ((((w.next.log (.clockRead .toolStarted started)).log
          (.invoked (.tool name isRetrieval) state)).next.log (.toolReturned result)).next.log
            (.clockRead .toolFinished finished)).trace = w.trace ++
          [.clockRead .toolStarted started, .invoked (.tool name isRetrieval) state,
            .toolReturned result, .clockRead .toolFinished finished] := by simp
      have hrecorded : ToolsCounted base (state.recordAction isRetrieval
          (succeededAction state name (durationMs started finished) result)) _ :=
        h.record hname rfl rfl htrace
      refine wp_budgetReason_counted hrecorded fun reason w' hcounted => ?_
      cases reason with
      | none => exact hcounted
      | some reason => exact stopCall_counted hcounted

/-- So are those of a loop, however it ends. -/
theorem toolLoop_counted {R : Type} {name : String} {isRetrieval : Bool}
    {operation : R → ℕ → Except ToolRaise ToolResult} {requests : List R}
    (hname : Counts name isRetrieval) (h : ToolsCounted base state w) :
    wp (toolLoop env name isRetrieval operation InvestigationState.addResult requests state)
      (fun out w' => if out.2 then ToolsCounted base out.1 w' else ToolsCounted base out.1 w')
      (fun _ _ => True) w := by
  refine wp_toolLoop (I := ToolsCounted base) (Q := ToolsCounted base) (fun _ _ _ hcounted => ?_) h
  refine wp_mono (toolCall_counted hname hcounted) (fun out w' hout => ?_) (fun _ _ h => h)
  split
  · rename_i result _ _
    cases result <;> exact hout
  · exact hout

theorem orRaise_counted {node : InvestigationNode} (h : ToolsCounted base state w) :
    wp (orRaise (state.moveTo node)) (ToolsCounted base) (fun _ _ => True) w := by
  rw [wp_orRaise]
  refine ⟨fun moved hmoved => ?_, fun _ => trivial⟩
  obtain ⟨_, rfl⟩ := moveTo_eq hmoved
  exact h

/-- A collaborator that is not a tool: two events, and a state with the same counters. -/
theorem ToolsCounted.consult (h : ToolsCounted base state w) {call : CostlyCall} {invoked : InvestigationState}
    {tokens : ℕ} (hcall : (WorkflowEvent.invoked call invoked).tool = none) :
    ToolsCounted base state ((w.log (.invoked call invoked)).next.log (.used tokens)) :=
  (h.log hcall rfl rfl : ToolsCounted base state (w.log (.invoked call invoked))).log rfl rfl rfl

theorem afterNode_counted (h : ToolsCounted base state w) :
    wp (afterNode env state) (ToolsCounted base) (fun _ _ => True) w := by
  unfold afterNode
  rw [wp_bind]
  refine wp_budgetReason_counted h fun reason w' hcounted => ?_
  cases reason with
  | none => exact hcounted
  | some reason => exact terminal_counted hcounted

/-- **A node that returns has counted every tool it invoked.** -/
theorem runNode_counted (h : ToolsCounted base state w) :
    wp (runNode env state) (ToolsCounted base) (fun _ _ => True) w := by
  have hmoved : ∀ {current moved : InvestigationState} {node : InvestigationNode} {w : WorkflowWorld},
      current.moveTo node = some moved → ToolsCounted base current w → ToolsCounted base moved w := by
    intro current moved node w hmoved h
    obtain ⟨_, rfl⟩ := moveTo_eq hmoved
    exact h
  unfold runNode
  split
  · unfold plan
    simp only [wp_bind, wp_emit, wp_interaction, wp_orRaise, implies_true, and_true]
    exact fun result _ advanced hadvanced => afterNode_counted (hmoved hadvanced (h.consult rfl))
  · unfold retrieve
    split
    · exact terminal_counted h
    · refine wp_afterLoop (toolLoop_counted rfl h) (fun _ _ h => h) fun advanced w₁ h₁ => ?_
      refine wp_afterLoop (toolLoop_counted rfl h₁) (fun _ _ h => h) fun searching w₂ h₂ => ?_
      exact orRaise_counted h₂
  · unfold compare
    split
    · exact terminal_counted h
    · refine wp_afterLoop (toolLoop_counted rfl h) (fun _ _ h => h) fun advanced w₁ h₁ => ?_
      exact orRaise_counted h₁
  · unfold verify
    simp only [wp_bind, wp_emit, wp_interaction, wp_orRaise, implies_true, and_true]
    exact fun result _ advanced hadvanced => afterNode_counted (hmoved hadvanced (h.consult rfl))
  · unfold report
    simp only [wp_bind, wp_emit, wp_interaction, wp_orRaise, implies_true, and_true]
    exact fun result _ => wp_budgetReason_counted (h.consult rfl)
      fun _ _ hcounted => terminal_counted hcounted
  · trivial

/-! ## An advance -/

/-- What an advance saves: a state that counts the tools invoked, or, where an exception has left
the node after tools were invoked, one that has forgotten them. -/
def CountedOrForgotten (env : Collaborators) (current saved : InvestigationState) (w : WorkflowWorld) :
    Prop :=
  forgotten env current = [] ∧ ToolsCounted current saved w ∨
    forgotten env current ≠ [] ∧ saved.toolCalls = current.toolCalls ∧
      invocations w.trace = forgotten env current

theorem persisted_trace {current : InvestigationState} {N : InvestigationState → WorkflowWorld → Prop}
    (h : ∀ updatedAt w', w'.trace = w.trace ++ [.clockRead .updated updatedAt] →
      N (state.stamped (current.revision + 1) updatedAt) w') :
    wp (persisted env current state) N (fun _ _ => True) w := by
  unfold persisted
  simp only [wp_bind, wp_now, wp_pure, implies_true, and_true]
  exact fun updatedAt _ => h updatedAt _ rfl

theorem persisted_counted {current : InvestigationState} (h : ToolsCounted base state w) :
    wp (persisted env current state) (ToolsCounted base) (fun _ _ => True) w :=
  persisted_trace fun _ _ htrace => h.log rfl rfl htrace

/-- The same counters and actions. -/
def SameCounts (state state' : InvestigationState) : Prop :=
  state.toolCalls = state'.toolCalls ∧ state.retrievalAttempts = state'.retrievalAttempts ∧
    state.toolActions = state'.toolActions

/-- A state with the same counters, after no invocation. -/
theorem SameCounts.counted (h : SameCounts state base) (hw : invocations w.trace = []) :
    ToolsCounted base state w := by
  unfold ToolsCounted attempts
  rw [hw, ended_of_invocations hw, h.1, h.2.1, h.2.2]
  exact ⟨rfl, rfl, (List.append_nil _).symm⟩

theorem begin_counted (h : ToolsCounted base state w) :
    wp (begin env state) (fun started w' => ToolsCounted base started w' ∧ SameCounts started state)
      (fun _ _ => True) w := by
  unfold begin
  split
  · simp only [wp_bind, wp_now, wp_pure, implies_true, and_true]
    exact fun _ _ => ⟨h.read (by decide), rfl, rfl, rfl⟩
  · exact ⟨h, rfl, rfl, rfl⟩

theorem ToolsCounted.start (current : InvestigationState) : ToolsCounted current current {} :=
  ⟨rfl, rfl, (List.append_nil _).symm⟩

theorem advance_accounted {current : InvestigationState} :
    wp (advance env current) (CountedOrForgotten env current) (fun _ _ => True) {} := by
  unfold advance
  rw [wp_bind]
  refine wp_mono (wp_and wp_self (begin_counted (.start current))) ?_ (fun _ _ _ => trivial)
  rintro started w₁ ⟨hbegin, hstarted, hsame⟩
  rw [wp_bind]
  refine wp_mono (wp_and wp_self (wp_budgetReason_counted hstarted
    (N := fun _ => ToolsCounted current started) fun _ _ h => h)) ?_ (fun _ _ _ => trivial)
  rintro reason w₂ ⟨hbudget, hchecked⟩
  cases reason with
  | some reason =>
    have hnone : forgotten env current = [] := by
      unfold forgotten nodeOf
      rw [exec_bind, hbegin]
      simp only
      rw [exec_bind, hbudget]
      rfl
    rw [wp_bind]
    refine wp_mono (terminal_counted hchecked) (fun stopped w₃ hstopped => ?_) (fun _ _ h => h)
    exact wp_mono (persisted_counted hstopped) (fun _ _ h => .inl ⟨hnone, h⟩) (fun _ _ h => h)
  | none =>
    -- the node runs within the budget, and `forgotten` is read off its run
    have hnode : exec (nodeOf env current) {} =
        ((exec (runNode env started) (w₂.log (.nodeStarted started))).1.map some,
          (exec (runNode env started) (w₂.log (.nodeStarted started))).2) := by
      unfold nodeOf
      rw [exec_bind, hbegin]
      simp only
      rw [exec_bind, hbudget]
      simp only
      rw [exec_bind]
      exact exec_map
    have hlogged : ToolsCounted current started (w₂.log (.nodeStarted started)) :=
      hchecked.log rfl rfl rfl
    simp only [wp_bind, wp_emit, wp_tryCatch]
    refine wp_mono (wp_and wp_self (runNode_counted hlogged)) ?_ ?_
    · rintro advanced w₃ ⟨hrun, hcounted⟩
      rw [hrun] at hnode
      have hnone : forgotten env current = [] := by
        unfold forgotten
        rw [hnode]
        rfl
      exact wp_mono (persisted_counted hcounted) (fun _ _ h => .inl ⟨hnone, h⟩) (fun _ _ h => h)
    · -- an exception has left the node
      rintro ⟨⟩ w₃ ⟨hrun, -⟩
      rw [hrun] at hnode
      have hforgotten : forgotten env current = invocations w₃.trace := by
        unfold forgotten
        rw [hnode]
        rfl
      -- the state that is kept is the one before the node, so its calls are not counted
      rw [wp_terminal]
      refine ⟨fun t _ => persisted_trace fun updatedAt w₄ htrace => ?_, fun _ => trivial⟩
      have hinvocations : invocations w₄.trace = invocations w₃.trace := by
        rw [htrace, invocations_append, WorkflowWorld.log_trace, WorkflowWorld.next_trace,
          invocations_append]
        simp [invocations, WorkflowEvent.tool]
      by_cases hnone : forgotten env current = []
      · refine .inl ⟨hnone, SameCounts.counted hsame ?_⟩
        rw [hinvocations, ← hforgotten, hnone]
      · exact .inr ⟨hnone, hsame.1, hinvocations.trans hforgotten.symm⟩

theorem cancel_counted {current : InvestigationState} :
    wp (InvestigationWorkflow.cancel env current) (ToolsCounted current) (fun _ _ => True) {} := by
  unfold InvestigationWorkflow.cancel
  rw [wp_bind]
  exact wp_mono (terminal_counted (.start current)) (fun _ _ h => persisted_counted h) (fun _ _ h => h)

end InvestigationWorkflow

/-! ## Runs -/

section Runs

variable {run : SavedRun} {call : WorkflowCall} {state : InvestigationState} {world : WorkflowWorld}

/-- A saved call that has counted its tools. -/
theorem SavedRun.Accounts.add (h : run.Accounts) (hcounted : ToolsCounted run.state state world) :
    SavedRun.Accounts { state := state, saved := run.saved ++ [world.trace] } := by
  obtain ⟨hcalls, hattempts, hactions⟩ := hcounted
  refine ⟨?_, ?_, ?_⟩
  · dsimp only
    rw [hcalls, h.calls, List.map_append, List.sum_append]
    simp
  · dsimp only
    rw [hattempts, h.attempts, List.map_append, List.sum_append]
    simp
  · dsimp only
    rw [hactions, h.actions, List.flatMap_append]
    simp

/-- A saved call that has forgotten its tools. -/
theorem SavedRun.Accounts.not_add (h : run.Accounts) (hcalls : state.toolCalls = run.state.toolCalls)
    (hinvoked : invocations world.trace ≠ []) :
    ¬ SavedRun.Accounts { state := state, saved := run.saved ++ [world.trace] } := by
  intro hadded
  have hsum := hadded.calls
  dsimp only at hsum
  rw [hcalls, h.calls, List.map_append, List.sum_append] at hsum
  simp only [List.map_cons, List.map_nil, List.sum_cons, List.sum_nil] at hsum
  exact hinvoked (List.length_eq_zero_iff.1 (by omega))

theorem compute_accounted {current : InvestigationState} :
    wp (call.compute current) (fun saved w => ∀ state, saved = some state →
      (∀ env, call = .advance env → CountedOrForgotten env current state w) ∧
        (∀ env, call = .cancel env → ToolsCounted current state w)) (fun _ _ => True) {} := by
  unfold WorkflowCall.compute
  split
  · exact fun _ heq => by cases heq
  · cases call with
    | advance env =>
      rw [wp_map]
      refine wp_mono advance_accounted (fun saved _ hsaved => ?_) (fun _ _ h => h)
      rintro _ ⟨⟩
      exact ⟨fun _ heq => by cases heq; exact hsaved, fun _ heq => by cases heq⟩
    | cancel env =>
      rw [wp_map]
      refine wp_mono cancel_counted (fun saved _ hsaved => ?_) (fun _ _ h => h)
      rintro _ ⟨⟩
      exact ⟨fun _ heq => (by cases heq), fun _ _ => hsaved⟩

/-- **A saved call accounts for its tools exactly when it is contained.** -/
theorem step_accounts_iff (h : run.Accounts) : (run.step call).Accounts ↔ Contained run call := by
  have hunsaved : call.saved run.state = none → Contained run call := by
    intro hnone
    cases call with
    | advance env => exact fun hsome => absurd hnone hsome
    | cancel env => trivial
  unfold SavedRun.step
  split
  · rename_i state world hout
    obtain ⟨hadvance, hcancel⟩ := wp_ok compute_accounted hout state rfl
    cases call with
    | cancel env => exact iff_of_true (h.add (hcancel env rfl)) trivial
    | advance env =>
      have hsaved : (WorkflowCall.advance env).saved run.state = some state := by
        unfold WorkflowCall.saved
        rw [hout]
      rcases hadvance env rfl with ⟨hnone, hcounted⟩ | ⟨hforgotten, hcalls, hinvocations⟩
      · exact iff_of_true (h.add hcounted) fun _ => hnone
      · refine iff_of_false (h.not_add hcalls (by rw [hinvocations]; exact hforgotten)) fun hcontained => ?_
        exact hforgotten (hcontained (by rw [hsaved]; exact Option.some_ne_none _))
  · rename_i hout
    refine iff_of_true h (hunsaved ?_)
    unfold WorkflowCall.saved
    split
    · rename_i saved hok
      cases saved with
      | none => rfl
      | some state => exact (hout state _ (Prod.ext hok rfl)).elim
    · rfl

end Runs

/-- **The states of a run account for its tool calls exactly when every call is contained.** -/
theorem accounted_iff (task : InvestigationTask) (budget : InvestigationBudget) (now : ℤ)
    (calls : List WorkflowCall) :
    Machine.Always SavedRun.step SavedRun.Accounts (.init task budget now) calls ↔
      Machine.Meets SavedRun.step Contained (.init task budget now) calls :=
  Machine.always_iff_meets (I := fun _ => True) (fun _ _ _ _ => trivial)
    (fun _ _ _ haccounts => step_accounts_iff haccounts) trivial ⟨rfl, rfl, rfl⟩

/-- A worker whose retrieval raises something other than `InvestigationToolError`. -/
def raisingWorker : Collaborators :=
  { sampleWorker (fun _ => some 0) with retrieve := fun _ _ _ => .error .other }

/-- The run it makes: the plan is saved, then the retrieval is executed. -/
def forgottenRun : SavedRun :=
  Machine.run SavedRun.step (.init sampleTask sampleBudget 0)
    [.advance (sampleWorker fun _ => some 0), .advance raisingWorker]

/-- **The retrieval was invoked, and the failed investigation has counted no call.** -/
theorem raising_tool_forgotten :
    forgottenRun.state.stopReason = some .workflowFailure ∧ forgottenRun.state.toolCalls = 0 ∧
      forgottenRun.saved.flatMap invocations = ["retrieve"] ∧ ¬ forgottenRun.Accounts := by
  have hcounted : forgottenRun.state.stopReason = some .workflowFailure ∧
      forgottenRun.state.toolCalls = 0 ∧ forgottenRun.saved.flatMap invocations = ["retrieve"] ∧
      (forgottenRun.saved.map fun trace => (invocations trace).length).sum = 1 := by
    decide +kernel
  obtain ⟨hreason, hcalls, hinvoked, hsum⟩ := hcounted
  refine ⟨hreason, hcalls, hinvoked, fun haccounts => ?_⟩
  have hequal := haccounts.calls
  rw [hcalls, hsum] at hequal
  cases hequal

end GroundedOps.Investigation
