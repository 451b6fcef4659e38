import GroundedOps.Proof.Cancellation
import GroundedOps.Spec.Execution

/-!
# Investigations come to an end

* `InvestigationNode.rank`: the order of the nodes.
* `runNode_later`: whatever branch a node takes, it ends at a later one, or raises.
* `advance_later`: **with a clock that gives times, an advance saves a state of a later node.**
* `investigations_terminate`: through either store, a run of one worker from any state that an
  investigation can be in returns within five advances, with a terminal state.
-/

namespace GroundedOps.Investigation

open Hoare InvestigationWorkflow

/-- PLAN < RETRIEVE < COMPARE < VERIFY < REPORT < DONE -/
def InvestigationNode.rank : InvestigationNode → ℕ
  | .plan => 0
  | .retrieve => 1
  | .compare => 2
  | .verify => 3
  | .report => 4
  | .done => 5

/-- A state that has stopped has the status of its reason. -/
def Settled (state : InvestigationState) : Prop :=
  ∀ reason, state.stopReason = some reason → state.status = terminalStatus reason

/-! ## States -/

section States

variable {state : InvestigationState} {node : InvestigationNode}

/-- What the constructor has checked. -/
theorem checked_iff (state : InvestigationState) :
    (state.terminal = true ↔ state.node = .done) ∧
      (state.terminal = true ↔ state.stopReason.isSome = true) := by
  have hvalid := state.valid
  unfold InvestigationState.check at hvalid
  rw [Bool.and_eq_true, beq_iff_eq, beq_iff_eq] at hvalid
  unfold InvestigationState.terminal
  rw [hvalid.1]
  refine ⟨beq_iff_eq, ?_⟩
  rw [← hvalid.1, hvalid.2]

theorem stopReason_of_live (h : state.terminal = false) : state.stopReason = none := by
  have hchecked := (checked_iff state).2
  rw [h] at hchecked
  exact Option.isNone_iff_eq_none.1 (by
    rw [← Option.not_isSome]
    exact Bool.not_eq_true' _ ▸ Bool.eq_false_iff.2 fun hsome => Bool.false_ne_true (hchecked.2 hsome))

theorem node_of_live (h : state.terminal = false) : state.node.rank < InvestigationNode.rank .done := by
  have hchecked := (checked_iff state).1
  rw [h] at hchecked
  have hnode : state.node ≠ .done := fun hdone => Bool.false_ne_true (hchecked.2 hdone)
  revert hnode
  cases state.node <;> decide

theorem settled_of_live (h : state.terminal = false) : Settled state := by
  intro reason hreason
  rw [stopReason_of_live h] at hreason
  cases hreason

theorem stopped_settled (reason : StopReason) (t : ℤ) : Settled (state.stopped reason t) := by
  intro reason' hreason
  cases hreason
  rfl

end States

/-! ## Nodes -/

namespace InvestigationWorkflow

variable {env : Collaborators} {w : WorkflowWorld} {state : InvestigationState}
  {node : InvestigationNode}

/-- What an advance from the node ends with. -/
def Later (node : InvestigationNode) (state : InvestigationState) (_ : WorkflowWorld) : Prop :=
  node.rank < state.node.rank ∧ Settled state

/-- What holds while a node calls its tools. -/
def At (node : InvestigationNode) (state : InvestigationState) (_ : WorkflowWorld) : Prop :=
  state.node = node ∧ state.terminal = false

theorem terminal_later {reason : StopReason} {E : Unit → WorkflowWorld → Prop}
    (hnode : node.rank < InvestigationNode.rank .done)
    (hraise : env.clock w.interactions = none → E () w.next) :
    wp (terminal env state reason) (Later node) E w := by
  rw [wp_terminal]
  exact ⟨fun t _ => ⟨hnode, stopped_settled reason t⟩, hraise⟩

theorem moveTo_later {moved : InvestigationState} {next : InvestigationNode}
    (hmoved : state.moveTo next = some moved) (hlive : state.terminal = false)
    (hnext : node.rank < next.rank) : Later node moved w := by
  obtain ⟨_, rfl⟩ := moveTo_eq hmoved
  exact ⟨hnext, settled_of_live hlive⟩

/-- A node that moves on, and stops where a budget is spent. -/
theorem afterNode_later (h : Later node state w) (hnode : node.rank < InvestigationNode.rank .done) :
    wp (afterNode env state) (Later node) (fun _ _ => True) w := by
  unfold afterNode
  rw [wp_bind]
  refine wp_budgetReason (fun _ _ => ?_) (fun _ => ?_) (fun _ _ _ => h) (fun _ _ _ _ _ => ?_) trivial
  · exact terminal_later hnode fun _ => trivial
  · exact terminal_later hnode fun _ => trivial
  · split
    · exact terminal_later hnode fun _ => trivial
    · exact h

theorem toolCall_later {name : String} {retrieval : Bool}
    {operation : ℕ → Except ToolRaise ToolResult} (h : At node state w)
    (hnode : node.rank < InvestigationNode.rank .verify) :
    wp (toolCall env state name retrieval operation)
      (fun out w' => match out.1.terminal, out.2 with
        | false, some result => At node (out.1.addResult result) w'
        | _, _ => Later node out.1 w') (fun _ _ => True) w := by
  have hdone : node.rank < InvestigationNode.rank .done := lt_trans hnode (by decide)
  have hstop : ∀ {state : InvestigationState} {reason : StopReason} {result : Option ToolResult}
      {w : WorkflowWorld},
      wp (do return (← terminal env state reason, result))
        (fun out w' => match out.1.terminal, out.2 with
          | false, some result => At node (out.1.addResult result) w'
          | _, _ => Later node out.1 w') (fun _ _ => True) w := by
    intro state reason result w
    simp only [wp_bind, wp_terminal, wp_pure, stopped_terminal, implies_true, and_true]
    exact fun t _ => ⟨hdone, stopped_settled reason t⟩
  unfold toolCall
  split
  · exact hstop
  · simp only [wp_bind, wp_now, wp_emit, wp_interaction, implies_true, and_true]
    intro started _
    split
    · trivial
    · -- the tool failed: the node is left for VERIFY
      simp only [wp_bind, wp_now, wp_orRaise, wp_pure, implies_true, and_true]
      intro finished _ advanced hmoved
      have hlater : Later node advanced w := moveTo_later hmoved h.2 hnode
      split
      · rename_i heq; cases heq
      · exact hlater
    · simp only [wp_bind, wp_emit, wp_now, implies_true, and_true]
      rename_i result hresult
      intro finished _
      -- a recorded action leaves the node where it is
      have hgo : ∀ (action : ToolAction) (w' : WorkflowWorld),
          match (state.recordAction retrieval action).terminal, some result with
          | false, some result => At node ((state.recordAction retrieval action).addResult result) w'
          | _, _ => Later node (state.recordAction retrieval action) w' := by
        intro action w'
        have hlive : (state.recordAction retrieval action).terminal = false := h.2
        rw [hlive]
        cases result <;> exact h
      refine wp_budgetReason (fun _ _ => hstop) (fun _ => hstop) (fun _ _ _ => hgo _ _)
        (fun _ _ _ _ _ => ?_) trivial
      split
      · exact hstop
      · exact hgo _ _

theorem toolLoop_later {R : Type} {name : String} {retrieval : Bool}
    {operation : R → ℕ → Except ToolRaise ToolResult} {requests : List R} (h : At node state w)
    (hnode : node.rank < InvestigationNode.rank .verify) :
    wp (toolLoop env name retrieval operation InvestigationState.addResult requests state)
      (fun out w' => if out.2 then At node out.1 w' else Later node out.1 w') (fun _ _ => True) w :=
  wp_toolLoop (I := At node) (Q := Later node) (fun _ _ _ hat => toolCall_later hat hnode) h

/-- The end of a node that has called all its tools. -/
theorem orRaise_later {next : InvestigationNode} (h : At node state w) (hnext : node.rank < next.rank) :
    wp (orRaise (state.moveTo next)) (Later node) (fun _ _ => True) w := by
  rw [wp_orRaise]
  exact ⟨fun moved hmoved => moveTo_later hmoved h.2 hnext, fun _ => trivial⟩

theorem retrieve_later (h : At .retrieve state w) :
    wp (retrieve env state) (Later .retrieve) (fun _ _ => True) w := by
  unfold retrieve
  split
  · exact terminal_later (by decide) fun _ => trivial
  · refine wp_afterLoop (toolLoop_later h (by decide)) (fun _ _ h => h) fun advanced w₁ h₁ => ?_
    refine wp_afterLoop (toolLoop_later h₁ (by decide)) (fun _ _ h => h) fun searching w₂ h₂ => ?_
    exact orRaise_later h₂ (by decide)

theorem compare_later (h : At .compare state w) :
    wp (compare env state) (Later .compare) (fun _ _ => True) w := by
  unfold compare
  split
  · exact terminal_later (by decide) fun _ => trivial
  · refine wp_afterLoop (toolLoop_later h (by decide)) (fun _ _ h => h) fun advanced w₁ h₁ => ?_
    exact orRaise_later h₁ (by decide)

/-- **A node ends at a later one, or raises.** -/
theorem runNode_later (hlive : state.terminal = false) :
    wp (runNode env state) (Later state.node) (fun _ _ => True) w := by
  unfold runNode
  split
  · rename_i hnode
    rw [hnode]
    unfold plan
    simp only [wp_bind, wp_emit, wp_interaction, wp_orRaise, implies_true, and_true]
    intro result _ advanced hmoved
    exact afterNode_later (moveTo_later hmoved hlive (by decide)) (by decide)
  · rename_i hnode
    rw [hnode]
    exact retrieve_later ⟨hnode, hlive⟩
  · rename_i hnode
    rw [hnode]
    exact compare_later ⟨hnode, hlive⟩
  · rename_i hnode
    rw [hnode]
    unfold verify
    simp only [wp_bind, wp_emit, wp_interaction, wp_orRaise, implies_true, and_true]
    intro result _ advanced hmoved
    exact afterNode_later (moveTo_later hmoved hlive (by decide)) (by decide)
  · rename_i hnode
    rw [hnode]
    unfold report
    simp only [wp_bind, wp_emit, wp_interaction, wp_orRaise, implies_true, and_true]
    intro result _
    have hstop : ∀ {state : InvestigationState} {reason : StopReason} {w : WorkflowWorld},
        wp (terminal env state reason) (Later .report) (fun _ _ => True) w :=
      terminal_later (by decide) fun _ => trivial
    exact wp_budgetReason (fun _ _ => hstop) (fun _ => hstop) (fun _ _ _ => hstop)
      (fun _ _ _ _ _ => hstop) trivial
  · trivial

/-! ## An advance -/

/-- A clock with a timezone, which gives a time whenever it is read. -/
def Aware (env : Collaborators) : Prop := ∀ n, env.clock n ≠ none

variable {P : Prop}

theorem persisted_later {current : InvestigationState} (hclock : ∀ n, env.clock n = none → P)
    (h : Later node state w) : wp (persisted env current state) (Later node) (fun _ _ => P) w := by
  unfold persisted
  simp only [wp_bind, wp_now, wp_pure]
  exact ⟨fun _ _ => h, fun hnone => hclock _ hnone⟩

/-- **An advance ends at a later node, and raises only where the clock does.** -/
theorem advance_later (hclock : ∀ n, env.clock n = none → P) (hlive : state.terminal = false) :
    wp (advance env state) (Later state.node) (fun _ _ => P) w := by
  have hstop : ∀ {started : InvestigationState} {reason : StopReason} {w : WorkflowWorld},
      wp (do persisted env state (← terminal env started reason)) (Later state.node)
        (fun _ _ => P) w := by
    intro started reason w
    rw [wp_bind]
    exact wp_mono (terminal_later (node_of_live hlive) fun hnone => hclock _ hnone)
      (fun _ _ h => persisted_later hclock h) (fun _ _ h => h)
  have hbegin : wp (begin env state)
      (fun started _ => started.node = state.node ∧ started.terminal = false) (fun _ _ => P) w := by
    unfold begin
    split
    · simp only [wp_bind, wp_now, wp_pure]
      exact ⟨fun _ _ => ⟨rfl, rfl⟩, fun hnone => hclock _ hnone⟩
    · exact ⟨rfl, hlive⟩
  unfold advance
  rw [wp_bind]
  refine wp_mono hbegin (fun started w₁ hstarted => ?_) (fun _ _ h => h)
  obtain ⟨hnode, hrunning⟩ := hstarted
  have hrun : ∀ {w : WorkflowWorld}, wp (do
      emit (.nodeStarted started)
      let advanced ← tryCatch (runNode env started) fun _ => terminal env started .workflowFailure
      persisted env state advanced) (Later state.node) (fun _ _ => P) w := by
    intro w
    simp only [wp_bind, wp_emit, wp_tryCatch]
    rw [← hnode]
    refine wp_mono (runNode_later hrunning) (fun _ _ h => persisted_later hclock h) (fun _ _ _ => ?_)
    -- what the node raised is caught, and stops the investigation
    exact wp_mono (terminal_later (node_of_live hrunning) fun hnone => hclock _ hnone)
      (fun _ _ h => persisted_later hclock h) (fun _ _ h => h)
  rw [wp_bind]
  refine wp_budgetReason_clock (fun _ _ => hstop) (fun _ => hstop) (fun _ _ _ => hrun)
    (fun _ _ _ _ _ => ?_) fun hnone => hclock _ hnone
  split
  · exact hstop
  · exact hrun

end InvestigationWorkflow

/-! ## Every state of an investigation -/

/-- Whatever a call saves has the status of its reason. -/
theorem saved_settled {current state : InvestigationState} {call : WorkflowCall}
    (h : call.saved current = some state) : Settled state := by
  refine saved_of_wp ?_ h
  unfold WorkflowCall.compute
  split
  · exact fun _ heq => by cases heq
  · rename_i hlive
    have hsome : ∀ {state : InvestigationState}, Settled state →
        ∀ state', some state = some state' → Settled state' := fun h _ heq => by cases heq; exact h
    cases call with
    | advance env =>
      rw [wp_map]
      exact wp_mono (advance_later (fun _ _ => trivial) (Bool.eq_false_iff.2 hlive))
        (fun _ _ hlater => hsome hlater.2) (fun _ _ h => h)
    | cancel env =>
      simp only [InvestigationWorkflow.cancel, persisted, wp_map, wp_bind, wp_terminal, wp_now,
        wp_pure, implies_true, and_true]
      exact fun t _ _ _ => hsome (@stopped_settled current .cancelled t)

/-- So has every state of the chain. -/
theorem history_settled {St : Type} {store : Revision.Store St String InvestigationState}
    {update : Revision.Update store WorkflowCall} {investigationId : String}
    (hupdate : update.apply = WorkflowCall.saved)
    (sys : Revision.System St InvestigationState ℕ) (event : Revision.Event ℕ WorkflowCall)
    (h : ∀ state ∈ sys.history, Settled state) :
    ∀ state ∈ (Revision.step update investigationId sys event).history, Settled state := by
  cases event with
  | get thread => exact h
  | save thread call =>
    simp only [Revision.step]
    split
    · exact h
    · split
      · exact h
      · rename_i saved happly
        split
        · exact h
        · rw [hupdate] at happly
          intro state hstate
          rcases List.mem_append.1 hstate with hstate | hstate
          · exact h state hstate
          · rw [List.mem_singleton.1 hstate]
            exact saved_settled happly

/-! ## A run of one worker -/

section Stored

variable {St : Type} {store : Revision.Store St String InvestigationState} {investigationId : String}
  {st : St} {current : InvestigationState} {env : Collaborators}

/-- The store holds the investigation, in a state with the status of its reason. -/
structure Stored (store : Revision.Store St String InvestigationState) (investigationId : String)
    (st : St) (current : InvestigationState) : Prop where
  ok : store.Ok st
  get : store.get st investigationId = some current
  id : current.id = investigationId
  settled : Settled current

/-- **With nobody else at work an advance saves a state of a later node.** -/
theorem advanceStored_later (hkey : store.key = InvestigationState.id)
    (hlast : SavesLast store) (haware : Aware env)
    (hstored : Stored store investigationId st current) (hlive : current.terminal = false) :
    ∃ state st', advanceStored store env investigationId st = .ok (state, st') ∧
      current.node.rank < state.node.rank ∧ Stored store investigationId st' state := by
  have hrun : wp (advance env current) _ _ {} :=
    wp_and (advance_later (fun n hnone => haware n hnone) hlive) advance_next
  unfold advanceStored
  rw [hstored.get]
  simp only [hlive, Bool.false_eq_true, if_false]
  cases hout : exec (advance env current) {} with
  | mk result w =>
    cases result with
    | error e => exact absurd (wp_error hrun hout).1 not_false
    | ok state =>
      obtain ⟨⟨hlater, hsettled⟩, htask, hnext⟩ := wp_ok hrun hout
      have hid : state.id = investigationId :=
        (congrArg InvestigationTask.id htask).trans hstored.id
      have hget : store.get st state.id = some current := hid ▸ hstored.get
      obtain ⟨st', hsave⟩ := Option.ne_none_iff_exists'.1
        (hlast st current state hstored.ok hget hnext)
      have hread := store.get_save hstored.ok hsave
      rw [hkey, hid] at hread
      refine ⟨state, st', ?_, hlater, store.save_ok hstored.ok hsave, hread, hid, hsettled⟩
      simp only [hsave]

/-- **The loop ends before the nodes do.** -/
theorem runLoop_returns (hkey : store.key = InvestigationState.id)
    (hlast : SavesLast store) {fuel : ℕ} {envs : ℕ → Collaborators} (haware : ∀ n, Aware (envs n))
    (hstored : Stored store investigationId st current)
    (hfuel : InvestigationNode.rank .done ≤ current.node.rank + fuel) :
    ∃ state st', runLoop store investigationId fuel envs current st = some (.ok (state, st')) ∧
      state.terminal = true ∧ Stored store investigationId st' state := by
  induction fuel generalizing envs st current with
  | zero =>
    have hterminal : current.terminal = true := by
      by_contra hlive
      have := node_of_live (Bool.eq_false_iff.2 hlive)
      omega
    refine ⟨current, st, ?_, hterminal, hstored⟩
    unfold runLoop
    rw [if_pos hterminal]
  | succ fuel ih =>
    by_cases hterminal : current.terminal = true
    · refine ⟨current, st, ?_, hterminal, hstored⟩
      unfold runLoop
      rw [if_pos hterminal]
    · obtain ⟨state, st', hadvance, hlater, hstored'⟩ :=
        advanceStored_later hkey hlast (haware 0) hstored (Bool.eq_false_iff.2 hterminal)
      unfold runLoop
      rw [if_neg hterminal]
      simp only [hadvance]
      exact ih (fun n => haware (n + 1)) hstored' (by omega)

end Stored

/-- **A run of one worker comes to an end**, through the store: from whatever state the
investigation is in after any interleaving of workers and owners. Every advance of a state that
is not terminal saves a state of a later node; and `run` needs fuel for five advances at the
most, and returns a state at DONE, with a reason and the status of that reason. -/
def TerminatesThrough {St : Type} (store : Revision.Store St String InvestigationState)
    (update : Revision.Update store WorkflowCall) : Prop :=
  ∀ (st st' : St) (task : InvestigationTask) (budget : InvestigationBudget) (now : ℤ)
    (events : List (Revision.Event ℕ WorkflowCall)) (envs : ℕ → Collaborators),
    store.Ok st → store.create st (.queued task budget now) = some st' → (∀ n, Aware (envs n)) →
    let sys := Machine.run (Revision.step update task.id)
      (Revision.start st' (.queued task budget now)) events
    (∀ current, store.get sys.store task.id = some current → current.terminal = false →
      ∃ state st'', advanceStored store (envs 0) task.id sys.store = .ok (state, st'') ∧
        store.get st'' task.id = some state ∧ current.node.rank < state.node.rank) ∧
    ∃ state st'' reason, run store 5 envs task.id sys.store = some (.ok (state, st'')) ∧
      store.get st'' task.id = some state ∧ state.node = .done ∧
      state.stopReason = some reason ∧ state.status = terminalStatus reason

theorem terminates_through {St : Type} {store : Revision.Store St String InvestigationState}
    (hkey : store.key = InvestigationState.id)
    (hrevision : store.revision = InvestigationState.revision) (hlast : SavesLast store) :
    TerminatesThrough store (workflowUpdate store hkey hrevision) := by
  intro st st' task budget now events envs hok hcreate haware sys
  have hlinear : Revision.Linear (workflowUpdate store hkey hrevision) task.id sys :=
    Revision.run_linear (started_linear hkey hrevision hok hcreate)
  have hsettled : ∀ state ∈ sys.history, Settled state := by
    refine Machine.run_inv (I := fun sys : Revision.System St InvestigationState ℕ =>
      ∀ state ∈ sys.history, Settled state) (history_settled rfl) fun state hstate => ?_
    rw [List.mem_singleton.1 hstate]
    exact fun _ heq => by cases heq
  have hstored : ∀ current, store.get sys.store task.id = some current →
      Stored store task.id sys.store current := by
    intro current hget
    have hmem := List.mem_of_getLast? (hlinear.last.symm.trans hget)
    have hid := hlinear.keys current hmem
    rw [hkey] at hid
    exact ⟨hlinear.ok, hget, hid, hsettled current hmem⟩
  refine ⟨fun current hget hlive => ?_, ?_⟩
  · obtain ⟨state, st'', hadvance, hlater, hstored'⟩ :=
      advanceStored_later hkey hlast (haware 0) (hstored current hget) hlive
    exact ⟨state, st'', hadvance, hstored'.get, hlater⟩
  · obtain ⟨current, -, hget⟩ :=
      hlinear.exists_last (Revision.mem_history_run (List.mem_singleton_self _))
    obtain ⟨state, st'', hreturns, hterminal, hstored'⟩ := runLoop_returns hkey hlast haware
      (hstored current hget) (Nat.le_add_left _ _ : _ ≤ current.node.rank + 5)
    obtain ⟨reason, hreason⟩ := Option.isSome_iff_exists.1 ((checked_iff state).2.1 hterminal)
    refine ⟨state, st'', reason, ?_, hstored'.get, (checked_iff state).1.1 hterminal, hreason,
      hstored'.settled reason hreason⟩
    unfold InvestigationWorkflow.run
    rw [hget]
    exact hreturns

/-- **Investigations terminate**, through the in-memory store and through the table. -/
theorem investigations_terminate :
    TerminatesThrough inMemoryStore (workflowUpdate inMemoryStore rfl rfl) ∧
      ∀ (Payload : Type) (adapter : StateAdapter Payload),
        TerminatesThrough (postgresStore adapter) (workflowUpdate (postgresStore adapter) rfl rfl) :=
  ⟨terminates_through rfl rfl inMemoryStore_savesLast,
    fun _ adapter => terminates_through rfl rfl (postgresStore_savesLast adapter)⟩

/-- A worker takes over an investigation that another has planned, and runs it to its report. -/
theorem investigations_terminate_planned :
    ∃ state st'' reason, InvestigationWorkflow.run (postgresStore plainAdapter) 5
        (fun _ => sampleWorker fun _ => some 1) sampleTask.id
        (Machine.run (Revision.step (workflowUpdate (postgresStore plainAdapter) rfl rfl) sampleTask.id)
          (Revision.start sampleTable (.queued sampleTask sampleBudget 0) :
            Revision.System _ InvestigationState ℕ)
          [.get 0, .save 0 (.advance (sampleWorker fun _ => some 1))]).store = some (.ok (state, st'')) ∧
      (postgresStore plainAdapter).get st'' sampleTask.id = some state ∧ state.node = .done ∧
      state.stopReason = some reason ∧ state.status = terminalStatus reason := by
  have hempty : (postgresStore plainAdapter).Ok fun _ => none := fun _ _ h => by cases h
  have haware : Aware (sampleWorker fun _ => some 1) := fun _ h => by cases h
  exact (investigations_terminate.2 InvestigationState plainAdapter (fun _ => none) sampleTable
    sampleTask sampleBudget 0 [.get 0, .save 0 (.advance (sampleWorker fun _ => some 1))]
    (fun _ => sampleWorker fun _ => some 1) hempty rfl fun _ => haware).2

end GroundedOps.Investigation
