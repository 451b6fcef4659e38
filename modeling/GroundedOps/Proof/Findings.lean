import GroundedOps.Lib.Machine
import GroundedOps.Proof.Workflow

/-!
# What the recorded actions obtained

A partial report should keep what its recorded tool actions obtained.

* `Findings`: the evidence, incidents and comparisons of a state are what its succeeded
  actions returned, in order.
* `findings_kept`: **a run keeps `Findings` as long as no tool call that returned something
  is followed by a budget check past the deadline** (`InTime`).
* `late_result_lost`: such a check records the action and drops its result.
-/

namespace GroundedOps.Investigation

open Hoare

/-! ## The law -/

/-- The tool that returns such a result. -/
def ToolResult.tool : ToolResult → String
  | .evidence _ => "retrieve"
  | .incidents _ => "search_incidents"
  | .comparison _ => "compare_versions"

def ToolResult.evidenceItems : ToolResult → List Evidence
  | .evidence result => result.evidence
  | _ => []

def ToolResult.incidentRecords : ToolResult → List IncidentRecord
  | .incidents result => result
  | _ => []

def ToolResult.comparisons : ToolResult → List VersionComparison
  | .comparison result => [result]
  | _ => []

/-- The actions of a tool that succeeded. -/
def succeeded (tool : String) (actions : List ToolAction) : List ToolAction :=
  actions.filter fun action => action.tool = tool ∧ action.outcome = .succeeded

/-- What the actions returned, as `items` reads it. -/
def obtainedBy {α : Type} (items : ToolResult → List α) (actions : List ToolAction) : List α :=
  actions.flatMap fun action => (action.obtained.map items).getD []

/-- A succeeded action records what its own tool returned, and how much. -/
def Recorded (action : ToolAction) : Prop :=
  action.outcome = .succeeded → ∃ result, action.obtained = some result ∧
    action.tool = result.tool ∧ action.resultCount = resultCount result

/-- The findings are what the succeeded actions returned, in order. -/
structure Tally (actions : List ToolAction) (evidence : List Evidence)
    (incidents : List IncidentRecord) (comparisons : List VersionComparison) : Prop where
  recorded : ∀ action ∈ actions, Recorded action
  evidence : evidence = obtainedBy ToolResult.evidenceItems (succeeded "retrieve" actions)
  incidents : incidents =
    obtainedBy ToolResult.incidentRecords (succeeded "search_incidents" actions)
  comparisons : comparisons =
    obtainedBy ToolResult.comparisons (succeeded "compare_versions" actions)

def Findings (state : InvestigationState) : Prop :=
  Tally state.toolActions state.evidence state.incidents state.comparisons

/-- **The law of a persisted state**, with what it says of the numbers of results. -/
def InvestigationRun.KeepsFindings (run : InvestigationRun) : Prop :=
  Findings run.state ∧
    run.state.evidence.length =
      ((succeeded "retrieve" run.state.toolActions).map ToolAction.resultCount).sum ∧
    run.state.comparisons.length = (succeeded "compare_versions" run.state.toolActions).length

/-- The list starts with a tool call that returned something, followed by a budget check past
the deadline. -/
def startsLate (budget : InvestigationBudget) (startedAt : Option ℤ) : List WorkflowEvent → Bool
  | .toolReturned result :: .clockRead .toolFinished _ :: .clockRead .budget now :: _ =>
    resultCount result ≠ 0 &&
      startedAt.any fun startedAt => InvestigationWorkflow.timedOut budget startedAt now
  | _ => false

/-- Somewhere in the trace a tool call that returned something is followed by a budget check
past the deadline. -/
def lateResult (budget : InvestigationBudget) (startedAt : Option ℤ)
    (trace : List WorkflowEvent) : Bool :=
  trace.tails.any (startsLate budget startedAt)

/-- What a call adds to the trace. -/
def WorkflowCall.events (call : WorkflowCall) (current : InvestigationState) :
    List WorkflowEvent :=
  (call.outcome current).2.trace

/-- **The condition**: no tool call of this call of the workflow that returned something is
followed by a budget check past the deadline. -/
def InTime (run : InvestigationRun) (call : WorkflowCall) : Prop :=
  lateResult run.state.budget run.state.startedAt (call.events run.state) = false

instance (run : InvestigationRun) (call : WorkflowCall) : Decidable (InTime run call) :=
  inferInstanceAs (Decidable (_ = false))

/-! ## The tally -/

section Tally

variable {actions : List ToolAction} {evidence : List Evidence} {incidents : List IncidentRecord}
  {comparisons : List VersionComparison} {action : ToolAction} {result : ToolResult}

theorem succeeded_concat {tool : String} : succeeded tool (actions ++ [action]) =
    succeeded tool actions ++
      if action.tool = tool ∧ action.outcome = .succeeded then [action] else [] := by
  simp [succeeded, List.filter_cons]

/-- A failed action changes no finding. -/
theorem Tally.failed (h : Tally actions evidence incidents comparisons)
    (hfailed : action.outcome = .failed) :
    Tally (actions ++ [action]) evidence incidents comparisons := by
  have hkeep : ∀ tool, succeeded tool (actions ++ [action]) = succeeded tool actions := by
    intro tool; simp [succeeded_concat, hfailed]
  refine ⟨fun a ha => ?_, ?_, ?_, ?_⟩
  · rcases List.mem_append.1 ha with ha | ha
    · exact h.recorded a ha
    · rw [List.mem_singleton.1 ha, Recorded, hfailed]; simp
  · rw [hkeep]; exact h.evidence
  · rw [hkeep]; exact h.incidents
  · rw [hkeep]; exact h.comparisons

/-- An action that succeeded adds what it returned. -/
theorem Tally.succeeded (h : Tally actions evidence incidents comparisons)
    (hsucceeded : action.outcome = .succeeded) (hobtained : action.obtained = some result)
    (htool : action.tool = result.tool) (hcount : action.resultCount = resultCount result) :
    Tally (actions ++ [action]) (evidence ++ result.evidenceItems)
      (incidents ++ result.incidentRecords) (comparisons ++ result.comparisons) := by
  refine ⟨fun a ha => ?_, ?_, ?_, ?_⟩
  · rcases List.mem_append.1 ha with ha | ha
    · exact h.recorded a ha
    · rw [List.mem_singleton.1 ha]; exact fun _ => ⟨result, hobtained, htool, hcount⟩
  · rw [succeeded_concat, htool, hsucceeded, h.evidence]
    cases result <;> simp [obtainedBy, ToolResult.tool, ToolResult.evidenceItems, hobtained]
  · rw [succeeded_concat, htool, hsucceeded, h.incidents]
    cases result <;> simp [obtainedBy, ToolResult.tool, ToolResult.incidentRecords, hobtained]
  · rw [succeeded_concat, htool, hsucceeded, h.comparisons]
    cases result <;> simp [obtainedBy, ToolResult.tool, ToolResult.comparisons, hobtained]

/-- What the succeeded actions of a tool returned is as long as their result counts say. -/
theorem length_obtainedBy {α : Type} {items : ToolResult → List α} {tool : String}
    (hrecorded : ∀ action ∈ actions, Recorded action)
    (hitems : ∀ result : ToolResult, result.tool = tool → (items result).length = resultCount result) :
    (obtainedBy items (Investigation.succeeded tool actions)).length =
      ((Investigation.succeeded tool actions).map ToolAction.resultCount).sum := by
  unfold obtainedBy
  rw [List.length_flatMap]
  congr 1
  apply List.map_congr_left
  intro action haction
  obtain ⟨hmem, hkind⟩ := List.mem_filter.1 haction
  simp only [decide_eq_true_eq] at hkind
  obtain ⟨result, hobtained, htool, hcount⟩ := hrecorded action hmem hkind.2
  rw [hobtained, hcount]
  exact hitems result (htool.symm.trans hkind.1)

theorem Tally.evidence_length (h : Tally actions evidence incidents comparisons) :
    evidence.length = ((Investigation.succeeded "retrieve" actions).map ToolAction.resultCount).sum := by
  rw [h.evidence]
  refine length_obtainedBy h.recorded fun result hresult => ?_
  cases result <;> simp [ToolResult.tool] at hresult
  rfl

theorem Tally.comparisons_length (h : Tally actions evidence incidents comparisons) :
    comparisons.length = (Investigation.succeeded "compare_versions" actions).length := by
  rw [h.comparisons, length_obtainedBy h.recorded fun result hresult => by
    cases result <;> simp [ToolResult.tool] at hresult; rfl]
  -- each of these actions counts one result
  have hone : ∀ action ∈ Investigation.succeeded "compare_versions" actions,
      action.resultCount = 1 := by
    intro action haction
    obtain ⟨hmem, hkind⟩ := List.mem_filter.1 haction
    simp only [decide_eq_true_eq] at hkind
    obtain ⟨result, -, htool, hcount⟩ := h.recorded action hmem hkind.2
    rw [hkind.1] at htool
    cases result <;> simp [ToolResult.tool] at htool
    exact hcount
  rw [List.map_congr_left hone]
  simp

end Tally

/-! ## Lateness -/

section Late

variable {budget : InvestigationBudget} {startedAt : Option ℤ} {trace more : List WorkflowEvent}

theorem startsLate_append (h : startsLate budget startedAt trace = true) :
    startsLate budget startedAt (trace ++ more) = true := by
  unfold startsLate at h
  split at h
  · exact h
  · cases h

/-- A late result stays in the trace. -/
theorem lateResult_append (h : lateResult budget startedAt trace = true) :
    lateResult budget startedAt (trace ++ more) = true := by
  unfold lateResult at h ⊢
  rw [List.any_eq_true] at h ⊢
  obtain ⟨tail, htail, hlate⟩ := h
  obtain ⟨before, rfl⟩ := (List.mem_tails _ _).1 htail
  refine ⟨tail ++ more, (List.mem_tails _ _).2 ⟨before, ?_⟩, startsLate_append hlate⟩
  rw [List.append_assoc]

theorem lateResult_of_end {before : List WorkflowEvent}
    (h : startsLate budget startedAt trace = true) :
    lateResult budget startedAt (before ++ trace) = true := by
  unfold lateResult
  rw [List.any_eq_true]
  exact ⟨trace, (List.mem_tails _ _).2 (List.suffix_append _ _), h⟩

end Late

/-! ## The tools -/

namespace InvestigationWorkflow

variable {env : Collaborators} {w : WorkflowWorld} {state : InvestigationState}

/-- The law holds of a state that has started. -/
def Kept (state : InvestigationState) : Prop := Findings state ∧ state.status ≠ .queued

/-- The law holds, or a result was late. -/
def KeptOrLate (budget : InvestigationBudget) (startedAt : Option ℤ)
    (state : InvestigationState) (w : WorkflowWorld) : Prop :=
  Kept state ∨ lateResult budget startedAt w.trace = true

theorem stopped_kept {reason : StopReason} {t : ℤ} (h : Findings state) :
    Kept (state.stopped reason t) :=
  ⟨h, by cases reason <;> simp [InvestigationState.stopped, terminalStatus]⟩

theorem KeptOrLate.log {budget : InvestigationBudget} {startedAt : Option ℤ}
    {event : WorkflowEvent} (h : KeptOrLate budget startedAt state w) :
    KeptOrLate budget startedAt state (w.next.log event) :=
  h.imp_right fun hlate => lateResult_append hlate

/-- Adding what a succeeded action returned keeps the law. -/
theorem addResult_findings {action : ToolAction} {result : ToolResult} {retrieval : Bool}
    (h : Findings state) (hsucceeded : action.outcome = .succeeded)
    (hobtained : action.obtained = some result) (htool : action.tool = result.tool)
    (hcount : action.resultCount = resultCount result) :
    Findings ((state.recordAction retrieval action).addResult result) := by
  have htally := Tally.succeeded h hsucceeded hobtained htool hcount
  cases result <;>
    simpa [Findings, InvestigationState.addResult, InvestigationState.recordAction,
      ToolResult.evidenceItems, ToolResult.incidentRecords, ToolResult.comparisons] using htally

/-- A result that holds nothing is kept by not adding it. -/
theorem recordAction_findings {action : ToolAction} {result : ToolResult} {retrieval : Bool}
    (h : Findings state) (hsucceeded : action.outcome = .succeeded)
    (hobtained : action.obtained = some result) (htool : action.tool = result.tool)
    (hcount : action.resultCount = resultCount result) (hempty : resultCount result = 0) :
    Findings (state.recordAction retrieval action) := by
  have htally := Tally.succeeded h hsucceeded hobtained htool hcount
  unfold Findings InvestigationState.recordAction
  cases result with
  | evidence result =>
    have hnil : result.evidence = [] := List.length_eq_zero_iff.1 hempty
    simpa [ToolResult.evidenceItems, ToolResult.incidentRecords, ToolResult.comparisons, hnil] using
      htally
  | incidents result =>
    have hnil : result = [] := List.length_eq_zero_iff.1 hempty
    simpa [ToolResult.evidenceItems, ToolResult.incidentRecords, ToolResult.comparisons, hnil] using
      htally
  | comparison result => cases hempty

/-- What holds before each call of a tool. -/
structure Gathering (budget : InvestigationBudget) (startedAt : Option ℤ)
    (state : InvestigationState) : Prop where
  kept : Kept state
  live : state.terminal = false
  sameBudget : state.budget = budget
  sameStart : state.startedAt = startedAt
  tokens : state.tokensUsed < budget.maxTokens

variable {budget : InvestigationBudget} {startedAt : Option ℤ}

theorem addResult_gathering {action : ToolAction} {result : ToolResult} {retrieval : Bool}
    (h : Gathering budget startedAt state) (hsucceeded : action.outcome = .succeeded)
    (hobtained : action.obtained = some result) (htool : action.tool = result.tool)
    (hcount : action.resultCount = resultCount result) :
    Gathering budget startedAt ((state.recordAction retrieval action).addResult result) := by
  refine ⟨⟨addResult_findings h.kept.1 hsucceeded hobtained htool hcount, ?_⟩, ?_, ?_, ?_, ?_⟩
  · cases result <;> exact h.kept.2
  · cases result <;> exact h.live
  · cases result <;> exact h.sameBudget
  · cases result <;> exact h.sameStart
  · cases result <;> exact h.tokens

/-- **A tool call keeps the law once its result is added**; where the result is not added, it
holds nothing or is late. -/
theorem toolCall_findings {name : String} {retrieval : Bool}
    {operation : ℕ → Except ToolRaise ToolResult}
    (hname : ∀ n result, operation n = .ok result → name = result.tool)
    (h : Gathering budget startedAt state) :
    wp (toolCall env state name retrieval operation)
      (fun out w' => match out.1.terminal, out.2 with
        | false, some result => Gathering budget startedAt (out.1.addResult result)
        | _, _ => KeptOrLate budget startedAt out.1 w')
      (fun _ _ => True) w := by
  unfold toolCall
  split
  · simp only [wp_bind, wp_terminal, wp_pure, stopped_terminal]
    exact ⟨fun t _ => Or.inl (stopped_kept h.kept.1), fun _ => trivial⟩
  · simp only [wp_bind, wp_now, wp_emit, wp_interaction, implies_true, and_true]
    intro started _
    split
    · trivial
    · rename_i code _
      simp only [wp_bind, wp_now, wp_orRaise, wp_pure, implies_true, and_true]
      intro finished _ advanced hmoved
      -- a failed call records an action that holds nothing
      obtain ⟨_, rfl⟩ := moveTo_eq hmoved
      have hkept : Findings (state.recordAction retrieval (failedAction state name
          (durationMs started finished) code)) := Tally.failed h.kept.1 rfl
      split
      · rename_i hnone; cases hnone
      · exact Or.inl ⟨hkept, h.kept.2⟩
    · rename_i result hresult
      have htool := hname _ _ hresult
      simp only [wp_bind, wp_emit, wp_now, implies_true, and_true]
      intro finished _
      set action := succeededAction state name (durationMs started finished) result with haction
      -- what the state is once the result is added, before the budget is checked
      have hadded : Gathering budget startedAt
          ((state.recordAction retrieval action).addResult result) :=
        addResult_gathering h rfl rfl htool rfl
      have hlive : (state.recordAction retrieval action).terminal = false := h.live
      refine wp_budgetReason (fun hsteps => ?_) (fun htokens => ?_) (fun _ _ _ => ?_)
        (fun _ _ startedAt' now hstarted => ?_) trivial
      · cases hsteps
      · exact absurd h.tokens (not_lt.2 (h.sameBudget ▸ htokens))
      · rw [wp_pure, hlive]; exact hadded
      · split
        · rename_i reason hreason
          simp only [wp_bind, wp_terminal, wp_pure, stopped_terminal, implies_true, and_true]
          intro t _
          by_cases hempty : resultCount result = 0
          · have hfound : Findings (state.recordAction retrieval action) :=
              recordAction_findings h.kept.1 rfl rfl htool rfl hempty
            exact Or.inl (stopped_kept hfound)
          · -- the check that stopped the call read the clock past the deadline
            have htimedOut : timedOut budget startedAt' now = true := by
              have hbudget : (state.recordAction retrieval action).budget = budget := h.sameBudget
              rw [hbudget] at hreason
              by_contra hnot
              rw [if_neg hnot] at hreason
              cases hreason
            have hstart : startedAt = some startedAt' := h.sameStart.symm.trans hstarted
            have hlate : startsLate budget startedAt
                [.toolReturned result, .clockRead .toolFinished finished, .clockRead .budget now,
                  .clockRead .finished t] = true := by
              simp [startsLate, hempty, hstart, htimedOut]
            have htrace : lateResult budget startedAt ((w.trace ++ [.clockRead .toolStarted started,
                .invoked (.tool name retrieval) state]) ++ _) = true := lateResult_of_end hlate
            refine Or.inr ?_
            simpa using htrace
        · rw [wp_pure, hlive]; exact hadded

/-- A loop over requests keeps the law, or a result was late. -/
theorem toolLoop_findings {R : Type} {name : String} {retrieval : Bool}
    {operation : R → ℕ → Except ToolRaise ToolResult} {requests : List R}
    (hname : ∀ request n result, operation request n = .ok result → name = result.tool)
    (h : Gathering budget startedAt state) :
    wp (toolLoop env name retrieval operation InvestigationState.addResult requests state)
      (fun out w' => if out.2 then Gathering budget startedAt out.1
        else KeptOrLate budget startedAt out.1 w')
      (fun _ _ => True) w :=
  wp_toolLoop (I := fun state _ => Gathering budget startedAt state)
    (fun request _ _ hgathering => toolCall_findings (hname request) hgathering) h

/-- What a tool's request returns is a result of that tool. -/
theorem map_ok {α : Type} {f : α → ToolResult} {call : Except ToolRaise α} {result : ToolResult}
    (h : f <$> call = .ok result) : ∃ a, f a = result := by
  cases call with
  | error e => cases h
  | ok a => exact ⟨a, Except.ok.inj h⟩

theorem retrieve_findings (h : Gathering budget startedAt state) :
    wp (retrieve env state) (KeptOrLate budget startedAt) (fun _ _ => True) w := by
  have hstep : Gathering budget startedAt state.recordStep :=
    ⟨h.kept, h.live, h.sameBudget, h.sameStart, h.tokens⟩
  unfold retrieve
  split
  · simp only [wp_terminal]
    exact ⟨fun t _ => Or.inl (stopped_kept h.kept.1), fun _ => trivial⟩
  · refine wp_afterLoop (I := fun state _ => Gathering budget startedAt state)
      (toolLoop_findings (fun request n result hresult => ?_) hstep) (fun _ _ h => h) fun advanced w₁ h₁ => ?_
    · obtain ⟨set, rfl⟩ := map_ok hresult
      rfl
    · refine wp_afterLoop (I := fun state _ => Gathering budget startedAt state)
        (toolLoop_findings (fun request n result hresult => ?_) h₁) (fun _ _ h => h) fun searching w₂ h₂ => ?_
      · obtain ⟨records, rfl⟩ := map_ok hresult
        rfl
      · refine wp_orRaise.2 ⟨fun moved hmoved => ?_, fun _ => trivial⟩
        obtain ⟨_, rfl⟩ := moveTo_eq hmoved
        exact Or.inl h₂.kept

theorem compare_findings (h : Gathering budget startedAt state) :
    wp (compare env state) (KeptOrLate budget startedAt) (fun _ _ => True) w := by
  have hstep : Gathering budget startedAt state.recordStep :=
    ⟨h.kept, h.live, h.sameBudget, h.sameStart, h.tokens⟩
  unfold compare
  split
  · simp only [wp_terminal]
    exact ⟨fun t _ => Or.inl (stopped_kept h.kept.1), fun _ => trivial⟩
  · refine wp_afterLoop (I := fun state _ => Gathering budget startedAt state)
      (toolLoop_findings (fun request n result hresult => ?_) hstep) (fun _ _ h => h) fun advanced w₁ h₁ => ?_
    · obtain ⟨comparison, rfl⟩ := map_ok hresult
      rfl
    · refine wp_orRaise.2 ⟨fun moved hmoved => ?_, fun _ => trivial⟩
      obtain ⟨_, rfl⟩ := moveTo_eq hmoved
      exact Or.inl h₁.kept

/-! ## The other nodes call no tool -/

theorem afterNode_kept (h : Kept state) :
    wp (afterNode env state) (fun state' _ => Kept state') (fun _ _ => True) w := by
  have hstop : ∀ {reason : StopReason} {w : WorkflowWorld},
      wp (terminal env state reason) (fun state' _ => Kept state') (fun _ _ => True) w := by
    intro reason w
    rw [wp_terminal]
    exact ⟨fun t _ => stopped_kept h.1, fun _ => trivial⟩
  unfold afterNode
  rw [wp_bind]
  refine wp_budgetReason (fun _ _ => hstop) (fun _ => hstop) (fun _ _ _ => h) (fun _ _ _ _ _ => ?_)
    trivial
  split
  · exact hstop
  · exact h

theorem plan_kept (h : Kept state) :
    wp (plan env state) (fun state' _ => Kept state') (fun _ _ => True) w := by
  unfold plan
  simp only [wp_bind, wp_emit, wp_interaction, wp_orRaise, implies_true, and_true]
  intro result _ advanced hmoved
  obtain ⟨_, rfl⟩ := moveTo_eq hmoved
  exact afterNode_kept h

theorem verify_kept (h : Kept state) :
    wp (verify env state) (fun state' _ => Kept state') (fun _ _ => True) w := by
  unfold verify
  simp only [wp_bind, wp_emit, wp_interaction, wp_orRaise, implies_true, and_true]
  intro result _ advanced hmoved
  obtain ⟨_, rfl⟩ := moveTo_eq hmoved
  exact afterNode_kept h

theorem report_kept (h : Kept state) :
    wp (report env state) (fun state' _ => Kept state') (fun _ _ => True) w := by
  unfold report
  simp only [wp_bind, wp_emit, wp_interaction, wp_orRaise, implies_true, and_true]
  intro result _
  have hstop : ∀ {reason : StopReason} {w : WorkflowWorld},
      wp (terminal env ((state.recordUsage result.tokensUsed result.costMicrousd).withSummary
        result.summary) reason) (fun state' _ => Kept state') (fun _ _ => True) w := by
    intro reason w
    rw [wp_terminal]
    exact ⟨fun t _ => stopped_kept h.1, fun _ => trivial⟩
  exact wp_budgetReason (fun _ _ => hstop) (fun _ => hstop) (fun _ _ _ => hstop)
    (fun _ _ _ _ _ => hstop) trivial

/-! ## Calls -/

/-- A node keeps the law, or a result was late. -/
theorem runNode_kept (hlive : state.terminal = false) (hkept : Kept state)
    (htokens : state.tokensUsed < state.budget.maxTokens) :
    wp (runNode env state) (KeptOrLate state.budget state.startedAt) (fun _ _ => True) w := by
  have hgathering : Gathering state.budget state.startedAt state :=
    ⟨hkept, hlive, rfl, rfl, htokens⟩
  unfold runNode
  split
  · exact wp_mono (plan_kept hkept) (fun _ _ h => Or.inl h) (fun _ _ h => h)
  · exact retrieve_findings hgathering
  · exact compare_findings hgathering
  · exact wp_mono (verify_kept hkept) (fun _ _ h => Or.inl h) (fun _ _ h => h)
  · exact wp_mono (report_kept hkept) (fun _ _ h => Or.inl h) (fun _ _ h => h)
  · trivial

/-- At its first node a queued investigation calls no tool. -/
theorem runNode_plan_kept (hnode : state.node = .plan) (hkept : Kept state) :
    wp (runNode env state) (fun state' _ => Kept state') (fun _ _ => True) w := by
  unfold runNode
  rw [hnode]
  exact plan_kept hkept

/-- The persisted state before a call: a queued investigation is at its first node. -/
structure Persisted (state : InvestigationState) : Prop where
  findings : Findings state
  queued : state.status = .queued → state.node = .plan

theorem Kept.persisted (h : Kept state) : Persisted state := ⟨h.1, fun hq => absurd hq h.2⟩

/-- What `_advance` saves of a state that was computed. -/
theorem persisted_keptOrLate {current : InvestigationState} (h : KeptOrLate budget startedAt state w) :
    wp (persisted env current state) (KeptOrLate budget startedAt) (fun _ _ => True) w := by
  unfold persisted
  simp only [wp_bind, wp_now, wp_pure]
  exact ⟨fun t _ => h.imp_right lateResult_append, fun _ => trivial⟩

/-- `_advance` once the investigation has started. -/
theorem advance_started {current : InvestigationState}
    (hfindings : Findings state)
    (hnode : state.tokensUsed < state.budget.maxTokens → ∀ {w : WorkflowWorld},
      wp (runNode env state) (KeptOrLate budget startedAt) (fun _ _ => True) w) :
    wp (do
      match ← budgetReason env state true with
      | some reason => persisted env current (← terminal env state reason)
      | none =>
        emit (.nodeStarted state)
        let advanced ← tryCatch (runNode env state) fun _ => terminal env state .workflowFailure
        persisted env current advanced)
      (KeptOrLate budget startedAt) (fun _ _ => True) w := by
  have hstop : ∀ {reason : StopReason} {w : WorkflowWorld},
      wp (terminal env state reason) (KeptOrLate budget startedAt) (fun _ _ => True) w := by
    intro reason w
    rw [wp_terminal]
    exact ⟨fun t _ => Or.inl (stopped_kept hfindings), fun _ => trivial⟩
  have hfound : ∀ {reason : StopReason} {w : WorkflowWorld},
      wp (do persisted env current (← terminal env state reason))
        (KeptOrLate budget startedAt) (fun _ _ => True) w := by
    intro reason w
    rw [wp_bind]
    exact wp_mono hstop (fun _ _ h => persisted_keptOrLate h) (fun _ _ h => h)
  have hrun : state.tokensUsed < state.budget.maxTokens → ∀ {w : WorkflowWorld},
      wp (do
        emit (.nodeStarted state)
        let advanced ← tryCatch (runNode env state) fun _ => terminal env state .workflowFailure
        persisted env current advanced) (KeptOrLate budget startedAt) (fun _ _ => True) w := by
    intro htokens w
    simp only [wp_bind, wp_emit, wp_tryCatch]
    refine wp_mono (hnode htokens) (fun _ _ h => persisted_keptOrLate h) (fun _ _ _ => ?_)
    exact wp_mono hstop (fun _ _ h => persisted_keptOrLate h) (fun _ _ h => h)
  rw [wp_bind]
  refine wp_budgetReason (fun _ _ => hfound) (fun _ => hfound) (fun _ htokens _ => hrun htokens)
    (fun _ htokens _ _ _ => ?_) trivial
  split
  · exact hfound
  · exact hrun htokens

/-- **A call of `_advance` keeps the law, or a result was late.** -/
theorem advance_findings (h : Persisted state) (hlive : state.terminal = false) :
    wp (advance env state) (KeptOrLate state.budget state.startedAt) (fun _ _ => True) w := by
  unfold advance begin
  by_cases hqueued : state.status = .queued
  · rw [dif_pos hqueued]
    simp only [wp_bind, wp_now, wp_pure]
    refine ⟨fun t _ => ?_, fun _ => trivial⟩
    have hkept : Kept (state.running hqueued t) := ⟨h.findings, by simp [InvestigationState.running]⟩
    have hnode : (state.running hqueued t).node = .plan := h.queued hqueued
    have hrun : ∀ {w : WorkflowWorld}, wp (runNode env (state.running hqueued t))
        (KeptOrLate state.budget state.startedAt) (fun _ _ => True) w :=
      wp_mono (runNode_plan_kept hnode hkept) (fun _ _ h => Or.inl h) (fun _ _ h => h)
    have hstarted := @advance_started env (w.next.log (.clockRead .started t)) _ _ _ state hkept.1
      fun _ {_} => hrun
    rw [wp_bind] at hstarted
    exact hstarted
  · rw [dif_neg hqueued, wp_bind, wp_pure]
    exact advance_started h.findings fun htokens {_} =>
      runNode_kept hlive ⟨h.findings, hqueued⟩ htokens

theorem cancel_findings (h : Persisted state) :
    wp (cancel env state) (KeptOrLate budget startedAt) (fun _ _ => True) w := by
  unfold cancel
  simp only [wp_bind, wp_terminal]
  exact ⟨fun t _ => persisted_keptOrLate (Or.inl (stopped_kept h.findings)), fun _ => trivial⟩

theorem compute_findings {call : WorkflowCall} (h : Persisted state) :
    wp (call.compute state)
      (fun saved w' => ∀ state', saved = some state' → KeptOrLate state.budget state.startedAt state' w')
      (fun _ _ => True) w := by
  unfold WorkflowCall.compute
  split
  · simp
  · rename_i hlive
    rw [Bool.not_eq_true] at hlive
    cases call with
    | advance env =>
      rw [wp_map]
      exact wp_mono (advance_findings h hlive) (fun _ _ hkept _ heq => Option.some.inj heq ▸ hkept)
        (fun _ _ h => h)
    | cancel env =>
      rw [wp_map]
      exact wp_mono (cancel_findings h) (fun _ _ hkept _ heq => Option.some.inj heq ▸ hkept)
        (fun _ _ h => h)

end InvestigationWorkflow

open InvestigationWorkflow

/-- **One call keeps the law if it is in time.** -/
theorem step_findings {run : InvestigationRun} {call : WorkflowCall} (h : Persisted run.state)
    (hintime : InTime run call) : Persisted (run.step call).state := by
  unfold InTime WorkflowCall.events at hintime
  unfold InvestigationRun.step
  split
  · rename_i state world hout
    have hkept := wp_ok (compute_findings h) hout state rfl
    rw [hout] at hintime
    rcases hkept with hkept | hlate
    · exact hkept.persisted
    · rw [hlate] at hintime; cases hintime
  · exact h

/-- **Partial reports keep what their recorded actions obtained**, in every state of a run in
which no tool call that returned something is followed by a budget check whose reading of the
clock is at or past the deadline. -/
theorem findings_kept (task : InvestigationTask) (budget : InvestigationBudget) (now : ℤ)
    (calls : List WorkflowCall)
    (h : Machine.Meets InvestigationRun.step InTime (.init task budget now) calls) :
    Machine.Always InvestigationRun.step InvestigationRun.KeepsFindings (.init task budget now)
      calls := by
  have hinit : Persisted (InvestigationRun.init task budget now).state :=
    ⟨⟨by simp [InvestigationRun.init, InvestigationState.queued], rfl, rfl, rfl⟩, fun _ => rfl⟩
  have hrun : Machine.Always InvestigationRun.step (fun run => Persisted run.state)
      (.init task budget now) calls :=
    Machine.always_of_meets (I := fun _ => True) (P := fun run => Persisted run.state)
      (fun _ _ _ _ _ => trivial) (fun _ _ _ hp hok => step_findings hp hok) trivial hinit h
  intro pre hpre
  have hfindings := (hrun pre hpre).findings
  exact ⟨hfindings, hfindings.evidence_length, hfindings.comparisons_length⟩

/-! ## A late result -/

/-- The worker's clock stands still until the retrieval has returned, and is then past the
deadline. -/
def lateWorker : Collaborators := sampleWorker fun n => some (if n ≤ 2 then 1000000 else 11000000)

theorem findings_kept_sample :
    Machine.Always InvestigationRun.step InvestigationRun.KeepsFindings (.init sampleTask sampleBudget 0)
      [.advance (sampleWorker fun _ => some 0), .advance (sampleWorker fun _ => some 0)] :=
  findings_kept sampleTask sampleBudget 0 _ ⟨by decide +kernel, by decide +kernel, trivial⟩

/-- A retrieval that returns after the deadline is recorded as succeeded with one result, and
the partial state has no evidence. -/
theorem late_result_lost :
    ¬ Machine.Always InvestigationRun.step InvestigationRun.KeepsFindings (.init sampleTask sampleBudget 0)
      [.advance (sampleWorker fun _ => some 0), .advance lateWorker] := by
  intro h
  exact absurd h.last.2.1 (by decide +kernel)

end GroundedOps.Investigation
