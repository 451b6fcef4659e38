import GroundedOps.Lib.Machine
import GroundedOps.Proof.Findings
import GroundedOps.Proof.Progress

/-!
# A successful investigation

* `Answered`: a succeeded action, for a request, with what the tool returned for it.
* `Phase`: what a persisted state says of the way to its node: which requests of the plan have
  been answered, and what the pending reason stands for.
* `runNode_phase`: every branch of every node keeps that.
* `success_sound`: **a completed investigation has asked everything its plan asks, and its
  verifier was content.**
-/

namespace GroundedOps.Investigation

open Hoare InvestigationWorkflow

/-! ## What a plan asks -/

/-- The tools as the workflow calls them, at an interaction. -/
def retrieval (env : Collaborators) (principal : Principal) (request : RetrieveRequest) (n : ℕ) :
    Except ToolRaise ToolResult :=
  ToolResult.evidence <$> env.retrieve n principal request

def incidentSearch (env : Collaborators) (principal : Principal) (request : IncidentSearchRequest)
    (n : ℕ) : Except ToolRaise ToolResult :=
  ToolResult.incidents <$> env.searchIncidents n principal request

def comparison (env : Collaborators) (principal : Principal) (request : CompareVersionsRequest)
    (n : ℕ) : Except ToolRaise ToolResult :=
  ToolResult.comparison <$> env.compareVersions n principal request

/-- A succeeded action of the tool, which returned something for the request. -/
structure Answered {R : Type} (name : String) (operation : R → ℕ → Except ToolRaise ToolResult)
    (request : R) (action : ToolAction) : Prop where
  tool : action.tool = name
  outcome : action.outcome = .succeeded
  returned : ∃ n result, operation request n = .ok result ∧ action.obtained = some result

/-- One succeeded action for each retrieval and each incident search of the plan, in order, made
in one advance of the calls. -/
def Researched (calls : List WorkflowCall) (principal : Principal) (plan : InvestigationPlan)
    (actions : List ToolAction) : Prop :=
  ∃ env retrieved searched, .advance env ∈ calls ∧ actions = retrieved ++ searched ∧
    List.Forall₂ (Answered "retrieve" (retrieval env principal)) plan.retrievals retrieved ∧
    List.Forall₂ (Answered "search_incidents" (incidentSearch env principal)) plan.incidents searched

/-- Then one for each comparison. -/
def Compared (calls : List WorkflowCall) (principal : Principal) (plan : InvestigationPlan)
    (actions : List ToolAction) : Prop :=
  ∃ env researched compared, .advance env ∈ calls ∧ actions = researched ++ compared ∧
    Researched calls principal plan researched ∧
    List.Forall₂ (Answered "compare_versions" (comparison env principal)) plan.comparisons compared

theorem Answered.succeeded {R : Type} {name : String} {operation : R → ℕ → Except ToolRaise ToolResult}
    {requests : List R} {actions : List ToolAction}
    (h : List.Forall₂ (Answered name operation) requests actions) :
    ∀ action ∈ actions, action.outcome = .succeeded := by
  induction h with
  | nil => exact fun action hmem => absurd hmem List.not_mem_nil
  | cons hanswered _ ih =>
    intro action hmem
    rcases List.mem_cons.1 hmem with rfl | hmem
    · exact hanswered.outcome
    · exact ih action hmem

theorem Compared.succeeded {calls : List WorkflowCall} {principal : Principal}
    {plan : InvestigationPlan} {actions : List ToolAction} (h : Compared calls principal plan actions) :
    ∀ action ∈ actions, action.outcome = .succeeded := by
  obtain ⟨env, researched, compared, -, rfl, ⟨env', retrieved, searched, -, rfl, hretrieved, hsearched⟩,
    hcompared⟩ := h
  intro action hmem
  rcases List.mem_append.1 hmem with hmem | hmem
  · rcases List.mem_append.1 hmem with hmem | hmem
    · exact Answered.succeeded hretrieved action hmem
    · exact Answered.succeeded hsearched action hmem
  · exact Answered.succeeded hcompared action hmem

/-- The findings are what the actions returned, in order. -/
def Collected (state : InvestigationState) : Prop :=
  state.evidence = obtainedBy ToolResult.evidenceItems state.toolActions ∧
    state.incidents = obtainedBy ToolResult.incidentRecords state.toolActions ∧
    state.comparisons = obtainedBy ToolResult.comparisons state.toolActions

/-- The plan has been asked whole. -/
def Finished (calls : List WorkflowCall) (state : InvestigationState) : Prop :=
  Collected state ∧ ∃ plan, state.plan = some plan ∧
    Compared calls state.task.principal plan state.toolActions

/-! ## Phases -/

/-- **What a state says of the way to its node**; `Verified` is what a pending SUCCESS stands
for. -/
def Phase (calls : List WorkflowCall) (Verified : Prop) (state : InvestigationState) : Prop :=
  match state.node with
  | .plan | .retrieve =>
    state.pendingStopReason = none ∧ state.toolActions = [] ∧ Collected state
  | .compare =>
    state.pendingStopReason = none ∧ Collected state ∧ ∃ plan, state.plan = some plan ∧
      Researched calls state.task.principal plan state.toolActions
  | .verify =>
    state.pendingStopReason ≠ some .success ∧
      (state.pendingStopReason = none → Finished calls state)
  | .report =>
    state.pendingStopReason ≠ none ∧
      (state.pendingStopReason = some .success → Verified ∧ Finished calls state)
  | .done =>
    state.status = .completed → state.stopReason = some .success ∧ Verified ∧
      Finished calls state ∧ state.tokensUsed < state.budget.maxTokens

/-- An investigation that runs has been started. -/
def Underway (state : InvestigationState) : Prop :=
  state.terminal = false → state.status ≠ .queued ∧ state.startedAt ≠ none

section Phases

variable {calls : List WorkflowCall} {Verified : Prop} {state : InvestigationState}

/-- A stop for any reason but SUCCESS. -/
theorem stopped_phase {reason : StopReason} (hreason : reason ≠ .success) (t : ℤ) :
    Phase calls Verified (state.stopped reason t) := by
  intro hcompleted
  cases reason with
  | success => exact absurd rfl hreason
  | _ => cases hcompleted

theorem stopped_underway {reason : StopReason} (t : ℤ) : Underway (state.stopped reason t) := by
  intro hlive
  rw [stopped_terminal] at hlive
  cases hlive

/-- Adding what a succeeded action returned keeps the findings. -/
theorem Collected.add (h : Collected state) {retrieval : Bool} {action : ToolAction}
    {result : ToolResult} (hobtained : action.obtained = some result) :
    Collected ((state.recordAction retrieval action).addResult result) := by
  obtain ⟨hevidence, hincidents, hcomparisons⟩ := h
  cases result <;>
    simp [Collected, InvestigationState.addResult, InvestigationState.recordAction, obtainedBy, hobtained,
      hevidence, hincidents, hcomparisons, ToolResult.evidenceItems, ToolResult.incidentRecords,
      ToolResult.comparisons]

end Phases

/-! ## Nodes -/

namespace InvestigationWorkflow

variable {env : Collaborators} {w : WorkflowWorld} {state base : InvestigationState}
  {calls : List WorkflowCall} {Verified : Prop}

/-- What a node ends with. -/
def Sound (calls : List WorkflowCall) (Verified : Prop) (state : InvestigationState)
    (_ : WorkflowWorld) : Prop :=
  Phase calls Verified state ∧ Underway state

/-- What the calls `done` of a node have made of the state it began with. -/
structure Between (base : InvestigationState) (done : List ToolAction) (state : InvestigationState) :
    Prop where
  actions : state.toolActions = base.toolActions ++ done
  collected : Collected state
  pending : state.pendingStopReason = none
  node : state.node = base.node
  live : state.terminal = false
  underway : Underway state
  plan : state.plan = base.plan
  task : state.task = base.task

/-- Between two calls of a loop, with the requests that are left. -/
def Asking {R : Type} (base : InvestigationState) (name : String)
    (operation : R → ℕ → Except ToolRaise ToolResult) (requests rest : List R)
    (state : InvestigationState) (_ : WorkflowWorld) : Prop :=
  ∃ made done, made ++ rest = requests ∧ List.Forall₂ (Answered name operation) made done ∧
    Between base done state

/-- After a loop that ran to its end, with a call for each request. -/
def Called {R : Type} (base : InvestigationState) (name : String)
    (operation : R → ℕ → Except ToolRaise ToolResult) (requests : List R)
    (state : InvestigationState) (_ : WorkflowWorld) : Prop :=
  ∃ done, List.Forall₂ (Answered name operation) requests done ∧ Between base done state

theorem terminal_sound {reason : StopReason} (hreason : reason ≠ .success) :
    wp (terminal env state reason) (Sound calls Verified) (fun _ _ => True) w := by
  rw [wp_terminal]
  exact ⟨fun t _ => ⟨stopped_phase hreason t, stopped_underway t⟩, fun _ => trivial⟩

/-- A budget is never spent successfully. -/
theorem wp_budgetReason_ne {includeSteps : Bool} {N : Option StopReason → WorkflowWorld → Prop}
    (hstop : ∀ reason w, reason ≠ .success → N (some reason) w)
    (hgo : ∀ w, state.tokensUsed < state.budget.maxTokens → N none w) :
    wp (budgetReason env state includeSteps) N (fun _ _ => True) w := by
  refine wp_budgetReason (fun _ _ => hstop _ _ (by decide)) (fun _ => hstop _ _ (by decide))
    (fun _ htokens _ => hgo _ htokens) (fun _ htokens _ _ _ => ?_) trivial
  split
  · exact hstop _ _ (by decide)
  · exact hgo _ htokens

theorem toolBudgetReason_ne {retrieval : Bool} {reason : StopReason}
    (h : toolBudgetReason state retrieval = some reason) : reason ≠ .success := by
  unfold toolBudgetReason at h
  split at h
  · cases h; decide
  · split at h
    · cases h; decide
    · cases h

/-- **A call answers the next request**, or ends the node: with a budget that is spent, or a tool
that failed. -/
theorem toolCall_asking {R : Type} {name : String} {isRetrieval : Bool}
    {operation : R → ℕ → Except ToolRaise ToolResult} {requests rest : List R} {request : R}
    (h : Asking base name operation requests (request :: rest) state w) :
    wp (toolCall env state name isRetrieval (operation request))
      (fun out w' => match out.1.terminal, out.2 with
        | false, some result => Asking base name operation requests rest (out.1.addResult result) w'
        | _, _ => Sound calls Verified out.1 w') (fun _ _ => True) w := by
  obtain ⟨made, done, hmade, hanswered, hbetween⟩ := h
  -- a budget ends the node
  have hstop : ∀ {state : InvestigationState} {reason : StopReason} {result : Option ToolResult}
      {w : WorkflowWorld}, reason ≠ .success →
      wp (do return (← terminal env state reason, result))
        (fun out w' => match out.1.terminal, out.2 with
          | false, some result => Asking base name operation requests rest (out.1.addResult result) w'
          | _, _ => Sound calls Verified out.1 w') (fun _ _ => True) w := by
    intro state reason result w hreason
    simp only [wp_bind, wp_terminal, wp_pure, stopped_terminal, implies_true, and_true]
    exact fun t _ => ⟨stopped_phase hreason t, stopped_underway t⟩
  unfold toolCall
  split
  · rename_i hreason
    exact hstop (toolBudgetReason_ne hreason)
  · simp only [wp_bind, wp_now, wp_emit, wp_interaction, implies_true, and_true]
    intro started _
    split
    · trivial
    · -- the tool failed: the pending reason says so
      simp only [wp_bind, wp_now, wp_orRaise, wp_pure, implies_true, and_true]
      intro finished _ advanced hmoved
      have hsound : Sound calls Verified advanced w := by
        obtain ⟨_, rfl⟩ := moveTo_eq hmoved
        refine ⟨⟨?_, ?_⟩, hbetween.underway⟩
        · exact fun heq => by cases heq
        · exact fun heq => by cases heq
      split
      · rename_i heq; cases heq
      · exact hsound
    · rename_i result hresult
      simp only [wp_bind, wp_emit, wp_now, implies_true, and_true]
      intro finished _
      -- the answer is one more of those that were asked for
      have hgo : ∀ (duration : ℕ) (w' : WorkflowWorld),
          match (state.recordAction isRetrieval (succeededAction state name duration result)).terminal,
            some result with
          | false, some added => Asking base name operation requests rest
              ((state.recordAction isRetrieval (succeededAction state name duration result)).addResult
                added) w'
          | _, _ => Sound calls Verified
              (state.recordAction isRetrieval (succeededAction state name duration result)) w' := by
        intro duration w'
        have hlive : (state.recordAction isRetrieval
            (succeededAction state name duration result)).terminal = false := hbetween.live
        rw [hlive]
        refine ⟨made ++ [request], done ++ [succeededAction state name duration result], ?_, ?_, ?_⟩
        · rw [List.append_assoc, List.singleton_append, hmade]
        · exact List.rel_append hanswered (.cons ⟨rfl, rfl, _, result, hresult, rfl⟩ .nil)
        · have hcollected : Collected ((state.recordAction isRetrieval
              (succeededAction state name duration result)).addResult result) :=
            hbetween.collected.add rfl
          have hactions : (state.recordAction isRetrieval
              (succeededAction state name duration result)).toolActions =
            base.toolActions ++ (done ++ [succeededAction state name duration result]) := by
            rw [← List.append_assoc, ← hbetween.actions]
            rfl
          cases result <;> exact ⟨hactions, hcollected, hbetween.pending, hbetween.node,
            hbetween.live, hbetween.underway, hbetween.plan, hbetween.task⟩
      refine wp_budgetReason_ne (fun reason w hreason => ?_) (fun w _ => ?_)
      · exact hstop hreason
      · exact wp_pure.2 (hgo (durationMs started finished) w)

/-- **A loop that runs to its end has answered every request.** -/
theorem toolLoop_asking {R : Type} {name : String} {isRetrieval : Bool}
    {operation : R → ℕ → Except ToolRaise ToolResult} {requests : List R}
    (h : Between base [] state) :
    wp (toolLoop env name isRetrieval operation InvestigationState.addResult requests state)
      (fun out w' => if out.2 then Called base name operation requests out.1 w'
        else Sound calls Verified out.1 w') (fun _ _ => True) w := by
  refine wp_mono (wp_toolLoop_rest (I := Asking base name operation requests)
    (Q := Sound calls Verified) (fun _ _ _ _ hasking => toolCall_asking hasking)
    ⟨[], [], rfl, .nil, h⟩) (fun out w' hout => ?_) (fun _ _ h => h)
  split
  · rename_i hfinished
    rw [if_pos hfinished] at hout
    obtain ⟨made, done, hmade, hanswered, hbetween⟩ := hout
    rw [List.append_nil] at hmade
    exact ⟨done, hmade ▸ hanswered, hbetween⟩
  · rename_i hfinished
    rwa [if_neg hfinished] at hout

theorem Between.refl (hcollected : Collected state) (hpending : state.pendingStopReason = none)
    (hlive : state.terminal = false) (hunderway : Underway state) : Between state [] state :=
  ⟨(List.append_nil _).symm, hcollected, hpending, rfl, hlive, hunderway, rfl, rfl⟩

/-- The second loop of a node goes on from the first. -/
theorem Between.restart {done : List ToolAction} (h : Between base done state) :
    Between state [] state :=
  .refl h.collected h.pending h.live h.underway

theorem moveTo_sound {moved : InvestigationState} {node : InvestigationNode}
    (hmoved : state.moveTo node = some moved) (hunderway : Underway state)
    (hphase : ∀ valid, Phase calls Verified (state.withNode node valid)) :
    Sound calls Verified moved w := by
  obtain ⟨valid, rfl⟩ := moveTo_eq hmoved
  exact ⟨hphase valid, hunderway⟩

/-- The loops of the three tools. -/
theorem retrieveRequests_asking (calls : List WorkflowCall) (Verified : Prop)
    {principal : Principal} {requests : List RetrieveRequest} (h : Between state [] state) :
    wp (retrieveRequests env principal requests state)
      (fun out w' => if out.2 then Called state "retrieve" (retrieval env principal) requests out.1 w'
        else Sound calls Verified out.1 w') (fun _ _ => True) w :=
  toolLoop_asking h

theorem searchIncidentsRequests_asking (calls : List WorkflowCall) (Verified : Prop)
    {principal : Principal} {requests : List IncidentSearchRequest} (h : Between state [] state) :
    wp (searchIncidentsRequests env principal requests state)
      (fun out w' => if out.2 then Called state "search_incidents" (incidentSearch env principal) requests out.1 w'
        else Sound calls Verified out.1 w') (fun _ _ => True) w :=
  toolLoop_asking h

theorem compareVersionsRequests_asking (calls : List WorkflowCall) (Verified : Prop)
    {principal : Principal} {requests : List CompareVersionsRequest} (h : Between state [] state) :
    wp (compareVersionsRequests env principal requests state)
      (fun out w' => if out.2 then Called state "compare_versions" (comparison env principal) requests out.1 w'
        else Sound calls Verified out.1 w') (fun _ _ => True) w :=
  toolLoop_asking h

/-- A node that calls tools counts its step first. -/
theorem recordStep_between (hcollected : Collected state) (hpending : state.pendingStopReason = none)
    (hlive : state.terminal = false) (hunderway : Underway state) :
    Between state.recordStep [] state.recordStep :=
  .refl hcollected hpending hlive hunderway

theorem retrieve_sound (hnode : state.node = .retrieve) (hphase : Phase calls Verified state)
    (hlive : state.terminal = false) (hunderway : Underway state) (henv : .advance env ∈ calls) :
    wp (retrieve env state) (Sound calls Verified) (fun _ _ => True) w := by
  unfold Phase at hphase
  rw [hnode] at hphase
  obtain ⟨hpending, hactions, hcollected⟩ := hphase
  unfold retrieve
  split
  · exact terminal_sound (by decide)
  · rename_i plan hplan
    have hstart := recordStep_between hcollected hpending hlive hunderway
    refine wp_afterLoop (retrieveRequests_asking calls Verified hstart) (fun _ _ h => h)
      fun advanced w₁ h₁ => ?_
    obtain ⟨retrieved, hretrieved, hbetween⟩ := h₁
    refine wp_afterLoop (searchIncidentsRequests_asking calls Verified hbetween.restart) (fun _ _ h => h)
      fun searching w₂ h₂ => ?_
    obtain ⟨searched, hsearched, hbetween'⟩ := h₂
    refine wp_orRaise.2 ⟨fun moved hmoved => ?_, fun _ => trivial⟩
    refine moveTo_sound hmoved hbetween'.underway fun valid => ⟨hbetween'.pending,
      hbetween'.collected, plan, ?_, env, retrieved, searched, henv, ?_, ?_⟩
    · exact (hbetween'.plan.trans hbetween.plan).trans hplan
    · have hall := hbetween'.actions
      rw [hbetween.actions] at hall
      have hnone : state.recordStep.toolActions = [] := hactions
      rw [hnone, List.nil_append] at hall
      exact hall
    · have htask : searching.task = state.task := hbetween'.task.trans hbetween.task
      show List.Forall₂ (Answered "retrieve" (retrieval env searching.task.principal)) _ _ ∧
        List.Forall₂ (Answered "search_incidents" (incidentSearch env searching.task.principal)) _ _
      rw [htask]
      exact ⟨hretrieved, hsearched⟩

theorem compare_sound (hnode : state.node = .compare) (hphase : Phase calls Verified state)
    (hlive : state.terminal = false) (hunderway : Underway state) (henv : .advance env ∈ calls) :
    wp (compare env state) (Sound calls Verified) (fun _ _ => True) w := by
  unfold Phase at hphase
  rw [hnode] at hphase
  obtain ⟨hpending, hcollected, planned, hplanned, hresearched⟩ := hphase
  unfold compare
  split
  · exact terminal_sound (by decide)
  · rename_i plan hplan
    have hstart := recordStep_between hcollected hpending hlive hunderway
    refine wp_afterLoop (compareVersionsRequests_asking calls Verified hstart) (fun _ _ h => h)
      fun advanced w₁ h₁ => ?_
    obtain ⟨compared, hcompared, hbetween⟩ := h₁
    refine wp_orRaise.2 ⟨fun moved hmoved => ?_, fun _ => trivial⟩
    have hdone : Finished calls advanced := by
      obtain rfl : planned = plan := Option.some.inj (hplanned.symm.trans hplan)
      have htask : advanced.task = state.task := hbetween.task
      refine ⟨hbetween.collected, planned, hbetween.plan.trans hplan, env, state.toolActions,
        compared, henv, hbetween.actions, ?_, ?_⟩
      · rw [htask]; exact hresearched
      · rw [htask]; exact hcompared
    refine moveTo_sound hmoved hbetween.underway fun valid => ⟨?_, fun _ => ?_⟩
    · have hnone : advanced.pendingStopReason = none := hbetween.pending
      exact fun heq => by
        have hsome : advanced.pendingStopReason = some .success := heq
        rw [hnone] at hsome
        cases hsome
    · obtain ⟨hcollected, hplan⟩ := hdone
      exact ⟨hcollected, hplan⟩

theorem afterNode_sound (h : Sound calls Verified state w) :
    wp (afterNode env state) (Sound calls Verified) (fun _ _ => True) w := by
  unfold afterNode
  rw [wp_bind]
  exact wp_budgetReason_ne (fun reason w hreason => terminal_sound hreason) (fun _ _ => h)

theorem plan_sound (hnode : state.node = .plan) (hphase : Phase calls Verified state)
    (hunderway : Underway state) :
    wp (plan env state) (Sound calls Verified) (fun _ _ => True) w := by
  unfold Phase at hphase
  rw [hnode] at hphase
  obtain ⟨hpending, hactions, hcollected⟩ := hphase
  unfold plan
  simp only [wp_bind, wp_emit, wp_interaction, wp_orRaise, implies_true, and_true]
  intro result _ advanced hmoved
  exact afterNode_sound (moveTo_sound hmoved hunderway fun valid => ⟨hpending, hactions,
    hcollected⟩)

/-- The verifier's word is the pending reason, unless a tool has failed. -/
theorem verify_sound (hnode : state.node = .verify) (hphase : Phase calls Verified state)
    (hunderway : Underway state)
    (hverified : ∀ result, env.verify w.interactions state = some result → result.sufficient = true →
      Verified) :
    wp (verify env state) (Sound calls Verified) (fun _ _ => True) w := by
  unfold Phase at hphase
  rw [hnode] at hphase
  obtain ⟨hpending, hfinished⟩ := hphase
  unfold verify
  simp only [wp_bind, wp_emit, wp_interaction, wp_orRaise, implies_true, and_true]
  intro result hresult advanced hmoved
  refine afterNode_sound (moveTo_sound hmoved hunderway fun valid => ⟨Option.some_ne_none _, ?_⟩)
  intro hsuccess
  have hreason : (state.pendingStopReason <|>
      if result.sufficient then none else some StopReason.insufficientEvidence).getD .success = .success :=
    Option.some.inj hsuccess
  cases hheld : state.pendingStopReason with
  | some reason =>
    rw [hheld] at hreason hpending
    exact absurd (congrArg some hreason) hpending
  | none =>
    rw [hheld] at hreason
    have hsufficient : result.sufficient = true := by
      by_contra hinsufficient
      rw [if_neg hinsufficient] at hreason
      cases hreason
    obtain ⟨hcollected, hplan⟩ := hfinished hheld
    exact ⟨hverified result hresult hsufficient,
      hcollected, hplan⟩

/-- A report within its budgets ends with the pending reason. -/
theorem report_sound (hnode : state.node = .report) (hphase : Phase calls Verified state) :
    wp (report env state) (Sound calls Verified) (fun _ _ => True) w := by
  unfold Phase at hphase
  rw [hnode] at hphase
  obtain ⟨hpending, hsuccess⟩ := hphase
  unfold report
  simp only [wp_bind, wp_emit, wp_interaction, wp_orRaise, implies_true, and_true]
  intro result _
  refine wp_budgetReason_ne (fun reason w hreason => terminal_sound hreason) fun w htokens => ?_
  obtain ⟨reason, hheld⟩ := Option.ne_none_iff_exists'.1 hpending
  have hreason : ((none : Option StopReason) <|> ((state.recordUsage result.tokensUsed
      result.costMicrousd).withSummary result.summary).pendingStopReason).getD .success = reason := by
    show (state.pendingStopReason).getD .success = reason
    rw [hheld]
    rfl
  rw [hreason]
  by_cases hne : reason = .success
  · subst hne
    obtain ⟨hverified, hcollected, hplan⟩ := hsuccess hheld
    rw [wp_terminal]
    exact ⟨fun t _ => ⟨fun _ => ⟨rfl, hverified,
      ⟨hcollected, hplan⟩, htokens⟩,
      stopped_underway t⟩, fun _ => trivial⟩
  · exact terminal_sound hne

/-- **Every branch of every node keeps what its state says.** -/
theorem runNode_sound (hphase : Phase calls Verified state) (hlive : state.terminal = false)
    (hunderway : Underway state) (henv : .advance env ∈ calls)
    (hverified : state.node = .verify → ∀ result, env.verify w.interactions state = some result →
      result.sufficient = true → Verified) :
    wp (runNode env state) (Sound calls Verified) (fun _ _ => True) w := by
  unfold runNode
  split
  · rename_i hnode; exact plan_sound hnode hphase hunderway
  · rename_i hnode; exact retrieve_sound hnode hphase hlive hunderway henv
  · rename_i hnode; exact compare_sound hnode hphase hlive hunderway henv
  · rename_i hnode; exact verify_sound hnode hphase hunderway (hverified hnode)
  · rename_i hnode; exact report_sound hnode hphase
  · trivial

/-! ## An advance -/

/-- What holds of a persisted state: it is queued before PLAN, or has been started. -/
def Resting (calls : List WorkflowCall) (Verified : Prop) (state : InvestigationState) : Prop :=
  Phase calls Verified state ∧ (state.status = .queued ∧ state.node = .plan ∨ Underway state)

theorem persisted_resting {current : InvestigationState} (h : Sound calls Verified state w) :
    wp (persisted env current state) (fun saved _ => Resting calls Verified saved)
      (fun _ _ => True) w := by
  unfold persisted
  simp only [wp_bind, wp_now, wp_pure, implies_true, and_true]
  exact fun _ _ => ⟨h.1, .inr h.2⟩

/-- An advance is under way once it has begun; a state that has not, is at PLAN. -/
theorem begin_resting (h : Resting calls Verified state) :
    wp (begin env state) (fun started w' => Phase calls Verified started ∧ Underway started ∧
        started.node = state.node ∧ (state.node ≠ .plan → started = state ∧ w' = w))
      (fun _ _ => True) w := by
  obtain ⟨hphase, hresting⟩ := h
  unfold begin
  split
  · rename_i hqueued
    have hplan : state.node = .plan := by
      rcases hresting with hqueued' | hunderway
      · exact hqueued'.2
      · have hlive : state.terminal = false := by
          unfold InvestigationState.terminal
          rw [hqueued]
          rfl
        exact absurd hqueued (hunderway hlive).1
    simp only [wp_bind, wp_now, wp_pure, implies_true, and_true]
    refine fun t _ => ⟨?_, fun _ => ⟨InvestigationStatus.noConfusion, Option.some_ne_none _⟩, rfl,
      fun hnode => absurd hplan hnode⟩
    have hnode : (state.running hqueued t).node = .plan := hplan
    unfold Phase at hphase ⊢
    rw [hplan] at hphase
    rw [hnode]
    exact hphase
  · rename_i hstatus
    refine ⟨hphase, ?_, rfl, fun _ => ⟨rfl, rfl⟩⟩
    rcases hresting with hqueued | hunderway
    · exact absurd hqueued.1 hstatus
    · exact hunderway

/-- **An advance keeps what its state says**; the verifier is its second interaction, after the
reading of the clock for the budget. -/
theorem advance_sound (h : Resting calls Verified state) (hlive : state.terminal = false)
    (henv : .advance env ∈ calls)
    (hverified : state.node = .verify → ∀ result, env.verify 1 state = some result →
      result.sufficient = true → Verified) :
    wp (advance env state) (fun saved _ => Resting calls Verified saved) (fun _ _ => True) {} := by
  -- a stop for any reason but success keeps the state
  have hstop : ∀ {started : InvestigationState} {reason : StopReason} {w : WorkflowWorld},
      reason ≠ .success → wp (do persisted env state (← terminal env started reason))
        (fun saved _ => Resting calls Verified saved) (fun _ _ => True) w := by
    intro started reason w hreason
    rw [wp_bind]
    exact wp_mono (terminal_sound hreason) (fun _ _ h => persisted_resting h) (fun _ _ h => h)
  unfold advance
  rw [wp_bind]
  refine wp_mono (begin_resting h) (fun started w₁ hstarted => ?_) (fun _ _ h => h)
  obtain ⟨hphase, hunderway, hnode, hsame⟩ := hstarted
  have hrunning : started.terminal = false := by
    have hlater := node_of_live hlive
    rw [← hnode] at hlater
    by_contra hterminal
    rw [(checked_iff started).1.1 (Bool.eq_false_iff.not_left.1 hterminal)] at hlater
    exact absurd hlater (lt_irrefl _)
  have hrun : ∀ {w : WorkflowWorld}, (state.node ≠ .plan → w.interactions = 1) → wp (do
      emit (.nodeStarted started)
      let advanced ← tryCatch (runNode env started) fun _ => terminal env started .workflowFailure
      persisted env state advanced) (fun saved _ => Resting calls Verified saved) (fun _ _ => True) w := by
    intro w hinteractions
    simp only [wp_bind, wp_emit, wp_tryCatch]
    refine wp_mono (runNode_sound hphase hrunning hunderway henv fun hverify result hresult => ?_)
      (fun _ _ h => persisted_resting h) (fun _ _ _ => ?_)
    · have hnode' : state.node = .verify := hnode.symm.trans hverify
      have hne : state.node ≠ .plan := by rw [hnode']; decide
      have hone : (w.log (.nodeStarted started)).interactions = 1 := hinteractions hne
      rw [hone, (hsame hne).1] at hresult
      exact hverified hnode' result hresult
    · -- what the node raised is caught, and fails the investigation
      exact wp_mono (terminal_sound (by decide)) (fun _ _ h => persisted_resting h) (fun _ _ h => h)
  -- the budget has the clock of the start to go by
  have hstart : started.startedAt ≠ none := (hunderway hrunning).2
  rw [wp_bind]
  refine wp_budgetReason (fun _ _ => hstop (by decide)) (fun _ => hstop (by decide))
    (fun _ _ hnone => absurd hnone hstart) (fun _ _ _ _ _ => ?_) trivial
  split
  · rename_i reason heq
    refine hstop fun hsuccess => ?_
    subst hsuccess
    split at heq <;> cases heq
  · refine hrun fun hne => ?_
    rw [(hsame hne).2]
    rfl

theorem cancel_sound (calls : List WorkflowCall) (Verified : Prop) :
    wp (InvestigationWorkflow.cancel env state) (fun saved _ => Resting calls Verified saved)
      (fun _ _ => True) w := by
  unfold InvestigationWorkflow.cancel
  rw [wp_bind]
  exact wp_mono (terminal_sound (by decide)) (fun _ _ h => persisted_resting h) (fun _ _ h => h)

end InvestigationWorkflow

/-! ## Runs -/

section Runs

variable {start : InvestigationRun} {calls : List WorkflowCall} {call : WorkflowCall}

/-- **The verifier's word**: in the run, the advance that took the investigation from VERIFY had
from its verifier a result that was sufficient. The verifier is the second interaction of an
advance at VERIFY, after the reading of the clock for the budget. -/
def VerifierContent (start : InvestigationRun) (calls : List WorkflowCall) : Prop :=
  ∃ before env after result, calls = before ++ .advance env :: after ∧
    (Machine.run InvestigationRun.step start before).state.node = .verify ∧
    (Machine.run InvestigationRun.step start (before ++ [.advance env])).state.node ≠ .verify ∧
    env.verify 1 (Machine.run InvestigationRun.step start before).state = some result ∧
    result.sufficient = true

theorem VerifierContent.concat (h : VerifierContent start calls) :
    VerifierContent start (calls ++ [call]) := by
  obtain ⟨before, env, after, result, rfl, hnode, hmoved, hresult, hsufficient⟩ := h
  exact ⟨before, env, after ++ [call], result, by simp, hnode, hmoved, hresult, hsufficient⟩

theorem Researched.mono {more : List WorkflowCall} (hcalls : calls ⊆ more) {principal : Principal}
    {plan : InvestigationPlan} {actions : List ToolAction}
    (h : Researched calls principal plan actions) : Researched more principal plan actions := by
  obtain ⟨env, retrieved, searched, henv, hrest⟩ := h
  exact ⟨env, retrieved, searched, hcalls henv, hrest⟩

theorem Finished.mono {more : List WorkflowCall} (hcalls : calls ⊆ more) {state : InvestigationState}
    (h : Finished calls state) : Finished more state := by
  obtain ⟨hcollected, plan, hplan, env, researched, compared, henv, hactions, hresearched, hcompared⟩ := h
  exact ⟨hcollected, plan, hplan, env, researched, compared, hcalls henv, hactions,
    hresearched.mono hcalls, hcompared⟩

/-- A longer run says no less of a state. -/
theorem Phase.mono {more : List WorkflowCall} {Verified Verified' : Prop} {state : InvestigationState}
    (h : Phase calls Verified state) (hcalls : calls ⊆ more) (hverified : Verified → Verified') :
    Phase more Verified' state := by
  unfold Phase at h ⊢
  split
  · simpa only [*] using h
  · simpa only [*] using h
  · rename_i hnode
    simp only [hnode] at h
    obtain ⟨hpending, hcollected, plan, hplan, hresearched⟩ := h
    exact ⟨hpending, hcollected, plan, hplan, hresearched.mono hcalls⟩
  · rename_i hnode
    simp only [hnode] at h
    exact ⟨h.1, fun hnone => (h.2 hnone).mono hcalls⟩
  · rename_i hnode
    simp only [hnode] at h
    exact ⟨h.1, fun hsuccess => ⟨hverified (h.2 hsuccess).1, (h.2 hsuccess).2.mono hcalls⟩⟩
  · rename_i hnode
    simp only [hnode] at h
    intro hcompleted
    obtain ⟨hreason, hword, hfinished, htokens⟩ := h hcompleted
    exact ⟨hreason, hverified hword, hfinished.mono hcalls, htokens⟩

theorem resting_mono {more : List WorkflowCall} {Verified Verified' : Prop} {state : InvestigationState}
    (h : Resting calls Verified state) (hcalls : calls ⊆ more) (hverified : Verified → Verified') :
    Resting more Verified' state :=
  ⟨h.1.mono hcalls hverified, h.2⟩

/-- What the state of a run says of the run. -/
def RunSound (start : InvestigationRun) (calls : List WorkflowCall) : Prop :=
  Resting calls (VerifierContent start calls) (Machine.run InvestigationRun.step start calls).state

/-- What a call saves: an advance is of a later node. -/
theorem compute_resting {current : InvestigationState} {Verified : Prop}
    (h : Resting calls Verified current) (hmem : call ∈ calls)
    (hverified : ∀ env, call = .advance env → current.node = .verify →
      ∀ result, env.verify 1 current = some result → result.sufficient = true → Verified) :
    wp (call.compute current) (fun saved _ => ∀ state, saved = some state →
      Resting calls Verified state ∧
        (∀ env, call = .advance env → current.node.rank < state.node.rank)) (fun _ _ => True) {} := by
  unfold WorkflowCall.compute
  split
  · exact fun _ heq => by cases heq
  · rename_i hlive
    have hlive : current.terminal = false := Bool.eq_false_iff.2 hlive
    cases call with
    | advance env =>
      rw [wp_map]
      refine wp_mono (wp_and (advance_sound h hlive hmem (hverified env rfl))
        (advance_later (fun _ _ => trivial) hlive)) (fun saved _ hsaved => ?_) (fun _ _ _ => trivial)
      rintro _ ⟨⟩
      exact ⟨hsaved.1, fun _ _ => hsaved.2.1⟩
    | cancel env =>
      rw [wp_map]
      refine wp_mono (cancel_sound calls Verified) (fun saved _ hsaved => ?_) (fun _ _ _ => trivial)
      rintro _ ⟨⟩
      exact ⟨hsaved, fun _ heq => by cases heq⟩

/-- **One more call keeps what the state says of the run.** -/
theorem RunSound.concat (h : RunSound start calls) (call : WorkflowCall) :
    RunSound start (calls ++ [call]) := by
  have hcalls : calls ⊆ calls ++ [call] := List.subset_append_left _ _
  have hstep : (Machine.run InvestigationRun.step start (calls ++ [call])).state =
      (call.saved (Machine.run InvestigationRun.step start calls).state).getD
        (Machine.run InvestigationRun.step start calls).state := by
    rw [Machine.run_concat, step_state]
  unfold RunSound at h ⊢
  rw [hstep]
  cases hsaved : call.saved (Machine.run InvestigationRun.step start calls).state with
  | none => exact resting_mono h hcalls VerifierContent.concat
  | some state =>
    rw [hsaved] at hstep
    -- the verifier has spoken before, or speaks in this call
    obtain ⟨hresting, hlater⟩ := saved_of_wp (compute_resting
      (resting_mono h hcalls (Or.inl : _ → _ ∨ (Machine.run InvestigationRun.step start calls).state.node =
        .verify ∧ ∃ env result, call = .advance env ∧
          env.verify 1 (Machine.run InvestigationRun.step start calls).state = some result ∧
          result.sufficient = true))
      (List.mem_append_right _ (List.mem_singleton_self _))
      fun env hcall hnode result hresult hsufficient =>
        .inr ⟨hnode, env, result, hcall, hresult, hsufficient⟩) hsaved
    refine resting_mono hresting (List.Subset.refl _) ?_
    rintro (hbefore | ⟨hnode, env, result, rfl, hresult, hsufficient⟩)
    · exact hbefore.concat
    · have hmoved := hlater env rfl
      refine ⟨calls, env, [], result, rfl, hnode, ?_, hresult, hsufficient⟩
      rw [hstep]
      intro hsame
      have hstill : state.node = .verify := hsame
      rw [hnode, hstill] at hmoved
      exact lt_irrefl _ hmoved

theorem runSound (start : InvestigationRun)
    (hstart : start.state.status = .queued ∧ start.state.node = .plan ∧
      start.state.pendingStopReason = none ∧ start.state.toolActions = [] ∧ Collected start.state)
    (calls : List WorkflowCall) : RunSound start calls := by
  induction calls using List.reverseRecOn with
  | nil =>
    obtain ⟨hqueued, hnode, hrest⟩ := hstart
    refine ⟨?_, .inl ⟨hqueued, hnode⟩⟩
    unfold Phase
    rw [Machine.run_nil, hnode]
    exact hrest
  | append_singleton calls call ih => exact ih.concat call

end Runs

/-- **SUCCESS is sound**: in every run of advances and cancellations from `start`, of any
collaborators and clocks, a state that is COMPLETED stopped for SUCCESS, after an advance whose
verifier was content; its actions are one succeeded call of its tool for each retrieval, each
incident search and each comparison of the plan, in that order; its findings are what those calls
returned, in order; and it has tokens left. -/
theorem success_sound (task : InvestigationTask) (budget : InvestigationBudget) (now : ℤ)
    (calls : List WorkflowCall)
    (hcompleted : (Machine.run InvestigationRun.step (.init task budget now) calls).state.status =
      .completed) :
    let state := (Machine.run InvestigationRun.step (.init task budget now) calls).state
    state.stopReason = some .success ∧ VerifierContent (.init task budget now) calls ∧
      (∃ plan, state.plan = some plan ∧
        Compared calls state.task.principal plan state.toolActions) ∧
      (∀ action ∈ state.toolActions, action.outcome = .succeeded) ∧
      state.tokensUsed < state.budget.maxTokens ∧ Collected state := by
  intro state
  have hsound := (runSound (.init task budget now) ⟨rfl, rfl, rfl, rfl, rfl, rfl, rfl⟩ calls).1
  have hterminal : state.terminal = true := by
    show state.status.terminal = true
    rw [show state.status = .completed from hcompleted]
    rfl
  have hnode : state.node = .done := (checked_iff state).1.1 hterminal
  unfold Phase at hsound
  rw [show (Machine.run InvestigationRun.step (.init task budget now) calls).state.node = .done from hnode]
    at hsound
  obtain ⟨hreason, hverified, ⟨hcollected, hplan⟩, htokens⟩ := hsound hcompleted
  refine ⟨hreason, hverified, hplan, ?_, htokens, hcollected⟩
  obtain ⟨plan, -, hcompared⟩ := hplan
  exact hcompared.succeeded

/-- A worker that goes from PLAN to DONE. -/
def sampleAdvances : List WorkflowCall := List.replicate 5 (.advance (sampleWorker fun _ => some 0))

theorem success_sound_sample : VerifierContent (.init sampleTask sampleBudget 0) sampleAdvances :=
  (success_sound sampleTask sampleBudget 0 sampleAdvances (by decide +kernel)).2.1

end GroundedOps.Investigation
