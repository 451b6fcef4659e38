import GroundedOps.Lib.Revision
import GroundedOps.Proof.Workflow
import GroundedOps.Spec.InvestigationStore

/-!
# Terminal investigations are final

* `inMemoryStore`, `postgresStore`: both stores are revision-guarded stores of snapshots.
* `workflowUpdate`: a call of the workflow computes the next revision of the same
  investigation, and nothing from a terminal state.
* `investigations_final`: **through either store, under any interleaving of workers and
  owners, the states saved form one chain and a terminal state is the last of it.**
-/

namespace GroundedOps.Investigation

open Hoare InvestigationWorkflow

/-! ## The stores -/

/-- The in-memory store is revision guarded. -/
def inMemoryStore :
    Revision.Store InMemoryInvestigationStore.States String InvestigationState where
  key := InvestigationState.id
  revision := InvestigationState.revision
  create := InMemoryInvestigationStore.create
  get := InMemoryInvestigationStore.get
  save := InMemoryInvestigationStore.save
  Ok _ := True
  create_ok _ _ := trivial
  get_create := by
    intro st s st' _ h
    unfold InMemoryInvestigationStore.create at h
    split at h
    · cases h
    · cases h; exact Function.update_self _ _ _
  save_ok _ _ := trivial
  get_save := by
    intro st s e st' _ h
    unfold InMemoryInvestigationStore.save at h
    split at h
    · cases h
    · split at h
      · cases h
      · cases h; exact Function.update_self _ _ _
  expected := by
    intro st s e st' _ h
    unfold InMemoryInvestigationStore.save at h
    split at h
    · cases h
    · rename_i current hcurrent
      split at h
      · cases h
      · rename_i hguard
        simp only [not_or, ne_eq, not_not] at hguard
        exact ⟨current, hcurrent, hguard.1⟩

namespace PostgresInvestigationStore

variable {Payload : Type} {adapter : StateAdapter Payload} {table : Table Payload}
  {state : InvestigationState} {row : Row Payload}

/-- A row holds a state of its own revision. -/
def RowOk (adapter : StateAdapter Payload) (row : Row Payload) : Prop :=
  ∃ state, adapter.validatePython row.statePayload = some state ∧ state.revision = row.revision

def TableOk (adapter : StateAdapter Payload) (table : Table Payload) : Prop :=
  ∀ id row, table id = some row → RowOk adapter row

theorem parameters_ok (createdAt : ℤ) :
    RowOk adapter { parameters adapter state with createdAt := createdAt } :=
  ⟨state, adapter.round_trip state, rfl⟩

theorem TableOk.update (h : TableOk adapter table) (hrow : RowOk adapter row) (id : String) :
    TableOk adapter (Function.update table id (some row)) := by
  intro id' row' hrow'
  by_cases hid : id' = id
  · subst hid
    rw [Function.update_self] at hrow'
    cases hrow'
    exact hrow
  · rw [Function.update_of_ne hid] at hrow'
    exact h id' row' hrow'

theorem get_update (createdAt : ℤ) :
    get adapter (Function.update table state.id
      (some { parameters adapter state with createdAt := createdAt })) state.id = some state := by
  unfold get
  rw [Function.update_self]
  exact adapter.round_trip state

/-- A save that succeeds found the row at the expected revision. -/
theorem save_eq_some {expectedRevision : ℕ} {table' : Table Payload}
    (h : save adapter table state expectedRevision = some table') :
    ∃ row, table state.id = some row ∧ row.revision = expectedRevision ∧
      table' = Function.update table state.id
        (some { parameters adapter state with createdAt := row.createdAt }) := by
  unfold save at h
  split at h
  · cases h
  · rename_i row hrow
    split at h
    · rename_i hrevision
      cases h
      exact ⟨row, hrow, hrevision, rfl⟩
    · cases h

theorem create_eq_some {table' : Table Payload} (h : create adapter table state = some table') :
    table' = Function.update table state.id
      (some { parameters adapter state with createdAt := state.createdAt }) := by
  unfold create at h
  split at h
  · cases h
  · cases h; rfl

end PostgresInvestigationStore

open PostgresInvestigationStore in
/-- The table is revision guarded, as long as its rows hold states of their own revision. -/
def postgresStore {Payload : Type} (adapter : StateAdapter Payload) :
    Revision.Store (Table Payload) String InvestigationState where
  key := InvestigationState.id
  revision := InvestigationState.revision
  create := create adapter
  get := get adapter
  save := save adapter
  Ok := TableOk adapter
  create_ok hok h := by
    rw [create_eq_some h]; exact hok.update (parameters_ok _) _
  get_create _ h := by
    rw [create_eq_some h]; exact get_update _
  save_ok hok h := by
    obtain ⟨row, -, -, rfl⟩ := save_eq_some h
    exact hok.update (parameters_ok _) _
  get_save _ h := by
    obtain ⟨row, -, -, rfl⟩ := save_eq_some h
    exact get_update _
  expected hok h := by
    obtain ⟨row, hrow, hrevision, rfl⟩ := save_eq_some h
    obtain ⟨current, hvalid, hcurrent⟩ := hok _ _ hrow
    refine ⟨current, ?_, hcurrent.trans hrevision⟩
    unfold PostgresInvestigationStore.get
    rw [hrow]
    exact hvalid

theorem postgresStore_key {Payload : Type} (adapter : StateAdapter Payload) :
    (postgresStore adapter).key = InvestigationState.id := rfl

theorem postgresStore_revision {Payload : Type} (adapter : StateAdapter Payload) :
    (postgresStore adapter).revision = InvestigationState.revision := rfl

/-! ## What a call computes -/

namespace InvestigationWorkflow

variable {env : Collaborators} {w : WorkflowWorld} {state : InvestigationState}
  {task : InvestigationTask}

/-- The state is of the task. -/
def OfTask (task : InvestigationTask) (state : InvestigationState) (_ : WorkflowWorld) : Prop :=
  state.task = task

theorem terminal_task {reason : StopReason} (h : state.task = task) :
    wp (terminal env state reason) (OfTask task) (fun _ _ => True) w := by
  rw [wp_terminal]
  exact ⟨fun _ _ => h, fun _ => trivial⟩

theorem toolCall_task {name : String} {retrieval : Bool}
    {operation : ℕ → Except ToolRaise ToolResult} (h : state.task = task) :
    wp (toolCall env state name retrieval operation) (fun out _ => out.1.task = task)
      (fun _ _ => True) w := by
  have hstop : ∀ {state : InvestigationState} {reason : StopReason} {result : Option ToolResult}
      {w : WorkflowWorld}, state.task = task →
      wp (do return (← terminal env state reason, result)) (fun out _ => out.1.task = task)
        (fun _ _ => True) w := by
    intro state reason result w h
    rw [wp_bind]
    exact wp_mono (terminal_task h) (fun _ _ h => h) (fun _ _ h => h)
  unfold toolCall
  split
  · exact hstop h
  · simp only [wp_bind, wp_now, wp_emit, wp_interaction, implies_true, and_true]
    intro started _
    split
    · trivial
    · simp only [wp_bind, wp_now, wp_orRaise, wp_pure, implies_true, and_true]
      intro finished _ advanced hmoved
      obtain ⟨_, rfl⟩ := moveTo_eq hmoved
      exact h
    · simp only [wp_bind, wp_emit, wp_now, implies_true, and_true]
      intro finished _
      refine wp_budgetReason (fun _ _ => hstop h) (fun _ => hstop h) (fun _ _ _ => h)
        (fun _ _ _ _ _ => ?_) trivial
      split
      · exact hstop h
      · exact h

theorem toolLoop_task {R : Type} {name : String} {retrieval : Bool}
    {operation : R → ℕ → Except ToolRaise ToolResult} {requests : List R} (h : state.task = task) :
    wp (toolLoop env name retrieval operation InvestigationState.addResult requests state)
      (fun out w' => if out.2 then OfTask task out.1 w' else OfTask task out.1 w')
      (fun _ _ => True) w := by
  refine wp_toolLoop (I := OfTask task) (Q := OfTask task) (fun _ state w hstate => ?_) h
  refine wp_mono (toolCall_task hstate) (fun out w' hout => ?_) (fun _ _ h => h)
  obtain ⟨advanced, result⟩ := out
  cases hterminal : advanced.terminal with
  | true => exact hout
  | false =>
    cases result with
    | none => exact hout
    | some result => cases result <;> exact hout

theorem afterNode_task (h : state.task = task) :
    wp (afterNode env state) (OfTask task) (fun _ _ => True) w := by
  unfold afterNode
  rw [wp_bind]
  refine wp_budgetReason (fun _ _ => terminal_task h) (fun _ => terminal_task h) (fun _ _ _ => h)
    (fun _ _ _ _ _ => ?_) trivial
  split
  · exact terminal_task h
  · exact h

theorem runNode_task (h : state.task = task) :
    wp (runNode env state) (OfTask task) (fun _ _ => True) w := by
  -- moving to a node keeps the task
  have hmove : ∀ {advanced : InvestigationState} {node : InvestigationNode} {w : WorkflowWorld},
      advanced.task = task → wp (orRaise (advanced.moveTo node)) (OfTask task) (fun _ _ => True) w := by
    intro advanced node w h
    simp only [wp_orRaise, implies_true, and_true]
    intro moved hmoved
    obtain ⟨_, rfl⟩ := moveTo_eq hmoved
    exact h
  unfold runNode
  split
  · unfold plan
    simp only [wp_bind, wp_emit, wp_interaction, wp_orRaise, implies_true, and_true]
    intro result _ advanced hmoved
    obtain ⟨_, rfl⟩ := moveTo_eq hmoved
    exact afterNode_task h
  · unfold retrieve
    split
    · exact terminal_task h
    · refine wp_afterLoop (toolLoop_task h) (fun _ _ h => h) fun advanced w₁ h₁ => ?_
      refine wp_afterLoop (toolLoop_task h₁) (fun _ _ h => h) fun searching w₂ h₂ => ?_
      exact hmove h₂
  · unfold compare
    split
    · exact terminal_task h
    · refine wp_afterLoop (toolLoop_task h) (fun _ _ h => h) fun advanced w₁ h₁ => ?_
      exact hmove h₁
  · unfold verify
    simp only [wp_bind, wp_emit, wp_interaction, wp_orRaise, implies_true, and_true]
    intro result _ advanced hmoved
    obtain ⟨_, rfl⟩ := moveTo_eq hmoved
    exact afterNode_task h
  · unfold report
    simp only [wp_bind, wp_emit, wp_interaction, wp_orRaise, implies_true, and_true]
    intro result _
    exact wp_budgetReason (fun _ _ => terminal_task h) (fun _ => terminal_task h)
      (fun _ _ _ => terminal_task h) (fun _ _ _ _ _ => terminal_task h) trivial
  · trivial

/-- What a call saves: the next revision of the same investigation. -/
def Next (current state : InvestigationState) (_ : WorkflowWorld) : Prop :=
  state.task = current.task ∧ state.revision = current.revision + 1

theorem persisted_next {current : InvestigationState} (h : state.task = current.task) :
    wp (persisted env current state) (Next current) (fun _ _ => True) w := by
  unfold persisted
  simp only [wp_bind, wp_now, wp_pure]
  exact ⟨fun _ _ => ⟨h, rfl⟩, fun _ => trivial⟩

theorem begin_task : wp (begin env state) (OfTask state.task) (fun _ _ => True) w := by
  unfold begin
  split
  · simp only [wp_bind, wp_now, wp_pure]
    exact ⟨fun _ _ => rfl, fun _ => trivial⟩
  · rw [wp_pure]; rfl

theorem advance_next : wp (advance env state) (Next state) (fun _ _ => True) w := by
  have hstop : ∀ {started : InvestigationState} {reason : StopReason} {w : WorkflowWorld},
      started.task = state.task →
      wp (do persisted env state (← terminal env started reason)) (Next state)
        (fun _ _ => True) w := by
    intro started reason w h
    rw [wp_bind]
    exact wp_mono (terminal_task h) (fun _ _ h => persisted_next h) (fun _ _ h => h)
  unfold advance
  rw [wp_bind]
  refine wp_mono begin_task (fun started w₁ hstarted => ?_) (fun _ _ h => h)
  have hrun : ∀ {w : WorkflowWorld}, wp (do
      emit (.nodeStarted started)
      let advanced ← tryCatch (runNode env started) fun _ => terminal env started .workflowFailure
      persisted env state advanced) (Next state) (fun _ _ => True) w := by
    intro w
    simp only [wp_bind, wp_emit, wp_tryCatch]
    refine wp_mono (runNode_task hstarted) (fun _ _ h => persisted_next h) (fun _ _ _ => ?_)
    exact wp_mono (terminal_task hstarted) (fun _ _ h => persisted_next h) (fun _ _ h => h)
  rw [wp_bind]
  refine wp_budgetReason (fun _ _ => hstop hstarted) (fun _ => hstop hstarted) (fun _ _ _ => hrun)
    (fun _ _ _ _ _ => ?_) trivial
  split
  · exact hstop hstarted
  · exact hrun

theorem compute_next {call : WorkflowCall} :
    wp (call.compute state) (fun saved w' => ∀ state', saved = some state' → Next state state' w')
      (fun _ _ => True) w := by
  unfold WorkflowCall.compute
  split
  · simp
  · cases call with
    | advance env =>
      rw [wp_map]
      exact wp_mono advance_next (fun _ _ hnext _ heq => Option.some.inj heq ▸ hnext) (fun _ _ h => h)
    | cancel env =>
      rw [wp_map]
      unfold cancel
      rw [wp_bind]
      refine wp_mono (terminal_task rfl) (fun _ _ htask => ?_) (fun _ _ h => h)
      exact wp_mono (persisted_next htask) (fun _ _ hnext _ heq => Option.some.inj heq ▸ hnext)
        (fun _ _ h => h)

end InvestigationWorkflow

/-- The state a call saves, if it saves one. -/
def WorkflowCall.saved (current : InvestigationState) (call : WorkflowCall) :
    Option InvestigationState :=
  match (call.outcome current).1 with
  | .ok saved => saved
  | .error _ => none

/-- What a triple says of every state that a call computes, it says of the one it saves. -/
theorem saved_of_wp {P : InvestigationState → Prop} {current state : InvestigationState}
    {call : WorkflowCall}
    (hrun : wp (call.compute current) (fun saved _ => ∀ state, saved = some state → P state)
      (fun _ _ => True) {}) (h : call.saved current = some state) : P state := by
  unfold WorkflowCall.saved at h
  split at h
  · rename_i saved hout
    exact wp_ok hrun (Prod.ext hout rfl : call.outcome current = (.ok saved, _)) state h
  · cases h

/-- A call leaves the state that it saves, or the one it read. -/
theorem step_state (run : InvestigationRun) (call : WorkflowCall) :
    (run.step call).state = (call.saved run.state).getD run.state := by
  unfold InvestigationRun.step WorkflowCall.saved
  rcases call.outcome run.state with ⟨_ | _ | _, _⟩ <;> rfl

theorem saved_next {current state : InvestigationState} {call : WorkflowCall}
    (h : call.saved current = some state) :
    state.task = current.task ∧ state.revision = current.revision + 1 := by
  refine @saved_of_wp (fun state => state.task = current.task ∧
    state.revision = current.revision + 1) _ _ _ ?_ h
  exact wp_mono compute_next (fun _ _ hnext state' heq => hnext state' heq) (fun _ _ h => h)

theorem saved_terminal {state : InvestigationState} (h : state.terminal = true)
    (call : WorkflowCall) : call.saved state = none := by
  unfold WorkflowCall.saved WorkflowCall.outcome WorkflowCall.compute
  rw [if_pos h]
  rfl

/-! ## Any number of workers and owners -/

/-- A call of the workflow as an update of snapshots, for a store that keys states by their
id and reads their revision. -/
def workflowUpdate {St : Type} (store : Revision.Store St String InvestigationState)
    (hkey : store.key = InvestigationState.id) (hrevision : store.revision = InvestigationState.revision) :
    Revision.Update store WorkflowCall where
  apply := fun current call => call.saved current
  key_apply h := by
    rw [hkey]; exact congrArg InvestigationTask.id (saved_next h).1
  revision_apply h := by
    rw [hrevision]; exact (saved_next h).2

/-- What `start` creates begins a chain. -/
theorem started_linear {St T : Type} {store : Revision.Store St String InvestigationState}
    (hkey : store.key = InvestigationState.id)
    (hrevision : store.revision = InvestigationState.revision) {st st' : St}
    {task : InvestigationTask} {budget : InvestigationBudget} {now : ℤ} (hok : store.Ok st)
    (hcreate : store.create st (.queued task budget now) = some st') :
    Revision.Linear (workflowUpdate store hkey hrevision) task.id
      (Revision.start st' (.queued task budget now) : Revision.System St InvestigationState T) := by
  have hzero : store.revision (.queued task budget now) = 0 := by rw [hrevision]; rfl
  have hstart : Revision.Linear (workflowUpdate store hkey hrevision)
      (store.key (.queued task budget now))
      (Revision.start st' (.queued task budget now) : Revision.System St InvestigationState T) :=
    Revision.start_linear (store.create_ok hok hcreate) (store.get_create hok hcreate) hzero
  have hid : store.key (.queued task budget now) = task.id := by rw [hkey]; rfl
  rw [hid] at hstart
  exact hstart

/-- **No update is lost and a terminal state is final**, through the store, in every run of
reads and saves of any number of threads on an investigation that `start` has created: the
states saved have the revisions 0, 1, 2, and so on, each is what a call computed from the one
before, a read returns the last; and once a terminal state has been saved, or read, every
later read returns it. -/
def FinalThrough {St : Type} (store : Revision.Store St String InvestigationState)
    (update : Revision.Update store WorkflowCall) : Prop :=
  ∀ (st st' : St) (task : InvestigationTask) (budget : InvestigationBudget) (now : ℤ)
    (events more : List (Revision.Event ℕ WorkflowCall)),
    store.Ok st → store.create st (.queued task budget now) = some st' →
    let run := Machine.run (Revision.step update task.id) (Revision.start st' (.queued task budget now))
    (run events).history.map InvestigationState.revision = List.range (run events).history.length ∧
    (run events).history.IsChain (fun current state => ∃ call, WorkflowCall.saved current call = some state) ∧
    store.get (run events).store task.id = (run events).history.getLast? ∧
    ∀ state, Revision.Obtained (run events) state → state.terminal = true →
      store.get (run (events ++ more)).store task.id = some state

theorem final_through {St : Type} (store : Revision.Store St String InvestigationState)
    (hkey : store.key = InvestigationState.id)
    (hrevision : store.revision = InvestigationState.revision) :
    FinalThrough store (workflowUpdate store hkey hrevision) := by
  intro st st' task budget now events more hok hcreate
  have hstart : Revision.Linear (workflowUpdate store hkey hrevision) task.id
      (Revision.start st' (.queued task budget now) : Revision.System St InvestigationState ℕ) :=
    started_linear hkey hrevision hok hcreate
  have hlinear : Revision.Linear _ _ (Machine.run _ _ events) := Revision.run_linear hstart
  refine ⟨?_, hlinear.computed, hlinear.last, fun state hobtained hterminal => ?_⟩
  · rw [← hrevision]; exact hlinear.revisions
  · exact Revision.run_final hstart hobtained fun call => saved_terminal hterminal call

/-- **Terminal investigations are final and no update is lost**, through the in-memory store
and through the table, whatever adapter that reads back what it dumps makes its payloads. -/
theorem investigations_final :
    FinalThrough inMemoryStore (workflowUpdate inMemoryStore rfl rfl) ∧
      ∀ (Payload : Type) (adapter : StateAdapter Payload),
        FinalThrough (postgresStore adapter) (workflowUpdate (postgresStore adapter) rfl rfl) :=
  ⟨final_through _ rfl rfl, fun _ adapter => final_through (postgresStore adapter) rfl rfl⟩

/-! ## Two workers and an owner on one row -/

/-- An adapter whose payload is the state as it is. -/
def plainAdapter : StateAdapter InvestigationState where
  dumpPython state := state
  validatePython payload := some payload
  round_trip _ := rfl

/-- The row of the small investigation that has just been started. -/
def sampleTable : PostgresInvestigationStore.Table InvestigationState :=
  Function.update (fun _ => none) sampleTask.id
    (some (PostgresInvestigationStore.parameters plainAdapter (.queued sampleTask sampleBudget 0)))

/-- Two workers advance the same revision, of which one conflicts, and the owner cancels. -/
def sampleRivals : List (Revision.Event ℕ WorkflowCall) :=
  [.get 0, .get 1, .save 0 (.advance (sampleWorker fun _ => some 1)),
    .save 1 (.advance (sampleWorker fun _ => some 2)), .get 2,
    .save 2 (.cancel (sampleWorker fun _ => some 3))]

def sampleRivalry (more : List (Revision.Event ℕ WorkflowCall)) :
    Revision.System (PostgresInvestigationStore.Table InvestigationState) InvestigationState ℕ :=
  Machine.run (Revision.step (workflowUpdate (postgresStore plainAdapter) rfl rfl) sampleTask.id)
    (Revision.start sampleTable (.queued sampleTask sampleBudget 0)) (sampleRivals ++ more)

/-- Three revisions are saved, and whatever is tried later the third is read. -/
theorem investigations_final_rivals :
    (sampleRivalry []).history.map InvestigationState.revision = [0, 1, 2] ∧
      ∃ state, state.status = .cancelled ∧ ∀ more,
        (postgresStore plainAdapter).get (sampleRivalry more).store sampleTask.id = some state := by
  have hempty : (postgresStore plainAdapter).Ok fun _ => none := fun _ _ h => by cases h
  have hfinal := fun more => investigations_final.2 InvestigationState plainAdapter (fun _ => none)
    sampleTable sampleTask sampleBudget 0 sampleRivals more hempty rfl
  have hsaved : ∃ state ∈ (sampleRivalry []).history,
      state.status = .cancelled ∧ state.terminal = true := by
    have hany : ((sampleRivalry []).history.any fun state =>
        decide (state.status = .cancelled ∧ state.terminal = true)) = true := by decide +kernel
    simpa using hany
  obtain ⟨state, hmem, hcancelled, hterminal⟩ := hsaved
  refine ⟨by decide +kernel, state, hcancelled, fun more => ?_⟩
  exact (hfinal more).2.2.2 state (Or.inl hmem) hterminal

end GroundedOps.Investigation
