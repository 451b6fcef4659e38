import GroundedOps.Proof.InvestigationStore
import GroundedOps.Spec.Cancellation

/-!
# Cancelling under races

* `Answered`: what the route of `cancel` can answer.
* `Undisturbed`: **when `cancel` comes to save, the investigation is as it read it.**
* `cancel_answered_iff`: a call of `cancel` on an investigation among workers ends with a
  cancelled state or an error of the route exactly when its save is undisturbed.
* `save_between_raises`: one advance between its second read and its save, and it ends with an
  error that no route expects.
-/

namespace GroundedOps.Investigation

open Hoare InvestigationLifecycle

/-! ## The contract -/

/-- The call has not ended, or has ended with a cancelled state, or with an error that the
route answers. -/
def CancelPoint.Answered : CancelPoint → Prop
  | .ended (.ok state) => state.status = .cancelled
  | .ended (.error error) => error.httpStatus ≠ none
  | .owned | .read | .save _ => True

def CancelRace.Answered {St T : Type} (race : CancelRace St T) : Prop := race.point.Answered

/-- **When `cancel` comes to save, the investigation is still as it read it**, and its clock
gives the two times of the save. -/
def Undisturbed {St T : Type} (store : Revision.Store St String InvestigationState)
    (investigationId : String) (race : CancelRace St T) : RaceEvent T → Prop
  | .worker _ => True
  | .cancel env => ∀ current, race.point = .save current →
      store.get race.workers.store investigationId = some current ∧
        env.clock 0 ≠ none ∧ env.clock 1 ≠ none

/-! ## What is saved -/

variable {env : Collaborators} {current state : InvestigationState}

theorem computed_eq : computed env current =
    match env.clock 0, env.clock 1 with
    | some finishedAt, some updatedAt =>
      .ok ((current.stopped .cancelled finishedAt).stamped (current.revision + 1) updatedAt)
    | _, _ => .error () := by
  have hrun : wp (InvestigationWorkflow.cancel env current)
      (fun state _ => ∃ finishedAt updatedAt, env.clock 0 = some finishedAt ∧
        env.clock 1 = some updatedAt ∧
        state = (current.stopped .cancelled finishedAt).stamped (current.revision + 1) updatedAt)
      (fun _ _ => env.clock 0 = none ∨ env.clock 1 = none) {} := by
    unfold InvestigationWorkflow.cancel InvestigationWorkflow.persisted
    simp only [wp_bind, InvestigationWorkflow.wp_terminal, InvestigationWorkflow.wp_now, wp_pure]
    exact ⟨fun finishedAt hfinished => ⟨fun updatedAt hupdated =>
      ⟨finishedAt, updatedAt, hfinished, hupdated, rfl⟩, .inr⟩, .inl⟩
  unfold computed
  cases hout : exec (InvestigationWorkflow.cancel env current) {} with
  | mk result w =>
    cases result with
    | error e =>
      rcases wp_error hrun hout with hnone | hnone
      · rw [hnone]
      · rw [hnone]; split <;> simp_all
    | ok state =>
      obtain ⟨finishedAt, updatedAt, hfinished, hupdated, rfl⟩ := wp_ok hrun hout
      rw [hfinished, hupdated]

theorem computed_ok (h : computed env current = .ok state) :
    env.clock 0 ≠ none ∧ env.clock 1 ≠ none ∧ state.task = current.task ∧
      state.revision = current.revision + 1 ∧ state.status = .cancelled := by
  rw [computed_eq] at h
  split at h
  · rename_i finishedAt updatedAt hfinished hupdated
    cases h
    rw [hfinished, hupdated]
    exact ⟨Option.some_ne_none _, Option.some_ne_none _, rfl, rfl, rfl⟩
  · cases h

theorem computed_error {e : Unit} (h : computed env current = .error e) :
    ¬(env.clock 0 ≠ none ∧ env.clock 1 ≠ none) := by
  rw [computed_eq] at h
  split at h
  · cases h
  · rename_i hnone
    rintro ⟨hfirst, hsecond⟩
    obtain ⟨finishedAt, hfinished⟩ := Option.ne_none_iff_exists'.1 hfirst
    obtain ⟨updatedAt, hupdated⟩ := Option.ne_none_iff_exists'.1 hsecond
    exact hnone _ _ hfinished hupdated

/-- What `cancel` saves is what the workflow's call saves, from a state that is not terminal. -/
theorem saved_cancel (hlive : current.terminal = false) (h : computed env current = .ok state) :
    WorkflowCall.saved current (.cancel env) = some state := by
  unfold WorkflowCall.saved WorkflowCall.outcome WorkflowCall.compute
  rw [hlive, if_neg Bool.false_ne_true]
  unfold computed at h
  simp only [exec_map, h]
  rfl

/-! ## A call among workers -/

/-- A save over the last revision succeeds. -/
def SavesLast {St : Type} (store : Revision.Store St String InvestigationState) : Prop :=
  ∀ st current state, store.Ok st → store.get st state.id = some current →
    state.revision = current.revision + 1 → store.save st state current.revision ≠ none

theorem inMemoryStore_savesLast : SavesLast inMemoryStore := by
  intro st current state _ hget hrevision
  have hcurrent : st state.id = some current := hget
  show InMemoryInvestigationStore.save st state current.revision ≠ none
  unfold InMemoryInvestigationStore.save
  rw [hcurrent]
  simp [hrevision]

theorem postgresStore_savesLast {Payload : Type} (adapter : StateAdapter Payload) :
    SavesLast (postgresStore adapter) := by
  intro table current state hok hget hrevision
  have hrow : PostgresInvestigationStore.get adapter table state.id = some current := hget
  unfold PostgresInvestigationStore.get at hrow
  obtain ⟨row, hstored, hvalid⟩ := Option.bind_eq_some_iff.1 hrow
  obtain ⟨held, hheld, hheldRevision⟩ := hok _ _ hstored
  obtain rfl : held = current := Option.some.inj (hheld.symm.trans hvalid)
  show PostgresInvestigationStore.save adapter table state held.revision ≠ none
  unfold PostgresInvestigationStore.save
  simp [hstored, hheldRevision]

section Race

variable {St T : Type} {store : Revision.Store St String InvestigationState}
  {update : Revision.Update store WorkflowCall} {investigationId : String} {principal : Principal}
  {race : CancelRace St T}

/-- The chain of what is saved, and that `cancel` saves over a state of it which is not
terminal. -/
structure RaceOk (update : Revision.Update store WorkflowCall) (investigationId : String)
    (race : CancelRace St T) : Prop where
  linear : Revision.Linear update investigationId race.workers
  current : ∀ current, race.point = .save current →
    current ∈ race.workers.history ∧ current.terminal = false

/-- A point other than a save. -/
theorem RaceOk.point (h : RaceOk update investigationId race) {point : CancelPoint}
    (hpoint : ∀ current, point ≠ .save current) :
    RaceOk update investigationId { race with point := point } :=
  ⟨h.linear, fun current heq => absurd heq (hpoint current)⟩

theorem afterOwned_ne_save {read : Option InvestigationState} :
    afterOwned principal read ≠ .save current := by
  unfold afterOwned
  split
  · exact CancelPoint.noConfusion
  · split
    · exact CancelPoint.noConfusion
    · split <;> exact CancelPoint.noConfusion

theorem afterRead_save {read : Option InvestigationState} (h : afterRead read = .save current) :
    read = some current ∧ current.terminal = false := by
  unfold afterRead at h
  split at h
  · cases h
  · split at h
    · cases h
    · rename_i hlive
      cases h
      exact ⟨rfl, Bool.eq_false_iff.2 hlive⟩

theorem afterOwned_answered {read : Option InvestigationState} :
    (afterOwned principal read).Answered := by
  unfold afterOwned
  split
  · exact Option.some_ne_none _
  · split
    · exact Option.some_ne_none _
    · split
      · exact Option.some_ne_none _
      · trivial

theorem answer_answered : (CancelPoint.ended (answer state)).Answered := by
  unfold answer
  split
  · exact Option.some_ne_none _
  · rename_i hcancelled
    exact not_ne_iff.1 hcancelled

theorem afterRead_answered {read : Option InvestigationState} : (afterRead read).Answered := by
  unfold afterRead
  split
  · exact Option.some_ne_none _
  · split
    · exact answer_answered
    · trivial

variable [DecidableEq T] {event : RaceEvent T}

/-- **One step keeps the chain.** -/
theorem step_raceOk (hupdate : update.apply = WorkflowCall.saved)
    (hrevision : store.revision = InvestigationState.revision)
    (h : RaceOk update investigationId race) :
    RaceOk update investigationId (race.step update investigationId principal event) := by
  cases event with
  | worker event =>
    refine ⟨Revision.step_linear _ _ h.linear, fun current heq => ?_⟩
    obtain ⟨hmem, hlive⟩ := h.current current heq
    exact ⟨Revision.mem_history_step _ _ hmem, hlive⟩
  | cancel env =>
    unfold CancelRace.step
    simp only
    split
    · exact h.point fun current => afterOwned_ne_save
    · refine ⟨h.linear, fun current heq => ?_⟩
      obtain ⟨hget, hlive⟩ := afterRead_save heq
      exact ⟨List.mem_of_getLast? (h.linear.last.symm.trans hget), hlive⟩
    · rename_i current hpoint
      obtain ⟨hmem, hlive⟩ := h.current current hpoint
      split
      · exact h.point fun _ => CancelPoint.noConfusion
      · rename_i state hcomputed
        unfold CancelRace.save
        split
        · exact h.point fun _ => CancelPoint.noConfusion
        · rename_i st hsave
          have happly : update.apply current (.cancel env) = some state := by
            rw [hupdate]; exact saved_cancel hlive hcomputed
          rw [← hrevision] at hsave
          exact ⟨h.linear.save hmem happly hsave, fun _ heq => CancelPoint.noConfusion heq⟩
    · exact h

/-- **The step that saves answers the call exactly when it is undisturbed**; the other steps
always do. -/
theorem step_answered_iff (hkey : store.key = InvestigationState.id)
    (hrevision : store.revision = InvestigationState.revision) (hlast : SavesLast store)
    (h : RaceOk update investigationId race) (hanswered : race.Answered) :
    (race.step update investigationId principal event).Answered ↔
      Undisturbed store investigationId race event := by
  cases event with
  | worker event => exact iff_of_true hanswered trivial
  | cancel env =>
    unfold CancelRace.step Undisturbed
    simp only
    split
    · rename_i hpoint
      exact iff_of_true afterOwned_answered fun current heq => by rw [hpoint] at heq; cases heq
    · rename_i hpoint
      exact iff_of_true afterRead_answered fun current heq => by rw [hpoint] at heq; cases heq
    · rename_i current hpoint
      obtain ⟨hmem, hlive⟩ := h.current current hpoint
      -- the read state is the one at the point of the race, so the quantifier is about it alone
      have hundisturbed : (∀ current', race.point = .save current' →
          store.get race.workers.store investigationId = some current' ∧
            env.clock 0 ≠ none ∧ env.clock 1 ≠ none) ↔
          store.get race.workers.store investigationId = some current ∧
            env.clock 0 ≠ none ∧ env.clock 1 ≠ none := by
        rw [hpoint]
        exact ⟨fun hall => hall current rfl, fun hone current' heq => by cases heq; exact hone⟩
      rw [hundisturbed]
      split
      · rename_i hcomputed
        exact iff_of_false (fun hno => hno rfl) fun hgood => computed_error hcomputed hgood.2
      · rename_i state hcomputed
        obtain ⟨hfirst, hsecond, htask, hnext, hcancelled⟩ := computed_ok hcomputed
        have hid : state.id = investigationId := by
          have hcurrent := h.linear.keys current hmem
          rw [hkey] at hcurrent
          exact (congrArg InvestigationTask.id htask).trans hcurrent
        unfold CancelRace.save
        split
        · -- the save conflicts: the investigation is no longer what was read
          rename_i hsave
          refine iff_of_false (fun hno => hno rfl) fun hgood => ?_
          rw [← hid] at hgood
          exact hlast _ _ _ h.linear.ok hgood.1 hnext hsave
        · rename_i st hsave
          refine iff_of_true answer_answered ⟨?_, hfirst, hsecond⟩
          rw [← hrevision] at hsave
          exact h.linear.last_of_save hmem (by rw [hkey]; exact hid) hsave
    · rename_i result hpoint
      exact iff_of_true hanswered fun current heq => by rw [hpoint] at heq; cases heq

/-! ## The end of the call -/

/-- The accesses to the store that are left, at most. -/
def CancelPoint.remaining : CancelPoint → ℕ
  | .owned => 3
  | .read => 2
  | .save _ => 1
  | .ended _ => 0

def RaceEvent.isCancel : RaceEvent T → Bool
  | .worker _ => false
  | .cancel _ => true

omit [DecidableEq T] in
theorem save_remaining : (race.save store current state).point.remaining = 0 := by
  unfold CancelRace.save
  split <;> rfl

theorem afterOwned_remaining {read : Option InvestigationState} :
    (afterOwned principal read).remaining ≤ 2 := by
  unfold afterOwned
  split
  · decide
  · split
    · decide
    · split <;> decide

theorem afterRead_remaining {read : Option InvestigationState} :
    (afterRead read).remaining ≤ 1 := by
  unfold afterRead
  split
  · decide
  · split
    · exact Nat.zero_le 1
    · exact Nat.le_refl 1

theorem step_remaining :
    (race.step update investigationId principal event).point.remaining ≤
      race.point.remaining - (if event.isCancel then 1 else 0) := by
  cases event with
  | worker event => exact Nat.le_refl _
  | cancel env =>
    unfold CancelRace.step
    simp only [RaceEvent.isCancel, if_true]
    split
    · rename_i hpoint; rw [hpoint]; exact afterOwned_remaining
    · rename_i hpoint; rw [hpoint]; exact afterRead_remaining
    · split
      · exact Nat.zero_le _
      · rw [save_remaining]; exact Nat.zero_le _
    · rename_i result hpoint; rw [hpoint]; exact Nat.le_refl 0

theorem run_remaining {events : List (RaceEvent T)} {race : CancelRace St T} :
    (Machine.run (CancelRace.step update investigationId principal) race events).point.remaining ≤
      race.point.remaining - events.countP RaceEvent.isCancel := by
  induction events generalizing race with
  | nil => exact Nat.le_refl _
  | cons event events ih =>
    rw [Machine.run_cons, List.countP_cons]
    have hstep : (race.step update investigationId principal event).point.remaining ≤ _ := step_remaining
    refine ih.trans ?_
    generalize (if event.isCancel = true then 1 else 0) = made at hstep ⊢
    omega

/-- A call that has made its three accesses has ended. -/
theorem ended_of_remaining {point : CancelPoint} (h : point.remaining = 0) :
    ∃ result, point = .ended result := by
  cases point with
  | ended result => exact ⟨result, rfl⟩
  | owned => cases h
  | read => cases h
  | save current => cases h

end Race

/-! ## Runs -/

/-- **`cancel` ends with its third access at the latest, and as its route expects exactly when
its save is undisturbed**, through the store: in every run of a call of `cancel`, by any
principal, among any number of workers on an investigation that `start` has created. -/
def CancelsThrough {St : Type} (store : Revision.Store St String InvestigationState)
    (update : Revision.Update store WorkflowCall) : Prop :=
  ∀ (st st' : St) (task : InvestigationTask) (budget : InvestigationBudget) (now : ℤ)
    (principal : Principal) (events : List (RaceEvent ℕ)),
    store.Ok st → store.create st (.queued task budget now) = some st' →
    let race : CancelRace St ℕ := { workers := Revision.start st' (.queued task budget now) }
    (3 ≤ events.countP RaceEvent.isCancel → ∃ result,
      (Machine.run (CancelRace.step update task.id principal) race events).point = .ended result) ∧
    (Machine.Always (CancelRace.step update task.id principal) CancelRace.Answered race events ↔
      Machine.Meets (CancelRace.step update task.id principal) (Undisturbed store task.id) race events)

theorem cancels_through {St : Type} {store : Revision.Store St String InvestigationState}
    (hkey : store.key = InvestigationState.id)
    (hrevision : store.revision = InvestigationState.revision) (hlast : SavesLast store) :
    CancelsThrough store (workflowUpdate store hkey hrevision) := by
  intro st st' task budget now principal events hok hcreate race
  have hrace : RaceOk (workflowUpdate store hkey hrevision) task.id race :=
    ⟨started_linear hkey hrevision hok hcreate, fun _ heq => CancelPoint.noConfusion heq⟩
  refine ⟨fun hthree => ended_of_remaining (Nat.le_zero.1 (run_remaining.trans ?_)), ?_⟩
  · exact Nat.le_of_eq (Nat.sub_eq_zero_of_le hthree)
  exact Machine.always_iff_meets
    (fun _ _ h _ => step_raceOk rfl hrevision h)
    (fun _ _ h hanswered => step_answered_iff hkey hrevision hlast h hanswered) hrace trivial

/-- **The contract of `cancel`**, through the in-memory store and through the table. -/
theorem cancel_answered_iff {Payload : Type} (adapter : StateAdapter Payload) :
    CancelsThrough inMemoryStore (workflowUpdate inMemoryStore rfl rfl) ∧
      CancelsThrough (postgresStore adapter) (workflowUpdate (postgresStore adapter) rfl rfl) :=
  ⟨cancels_through rfl rfl inMemoryStore_savesLast,
    cancels_through rfl rfl (postgresStore_savesLast adapter)⟩

/-- The owner cancels a row that a worker advances before the second read. -/
def undisturbedCancel : List (RaceEvent ℕ) :=
  [.worker (.get 0), .cancel (sampleWorker fun _ => some 1),
    .worker (.save 0 (.advance (sampleWorker fun _ => some 1))),
    .cancel (sampleWorker fun _ => some 2), .cancel (sampleWorker fun _ => some 2)]

/-- The owner's call of `cancel` on the row. -/
def sampleCancel : CancelRace (PostgresInvestigationStore.Table InvestigationState) ℕ → RaceEvent ℕ →
    CancelRace (PostgresInvestigationStore.Table InvestigationState) ℕ :=
  CancelRace.step (workflowUpdate (postgresStore plainAdapter) (postgresStore_key plainAdapter)
    (postgresStore_revision plainAdapter)) sampleTask.id sampleTask.principal

def sampleRace : CancelRace (PostgresInvestigationStore.Table InvestigationState) ℕ :=
  { workers := Revision.start sampleTable (.queued sampleTask sampleBudget 0) }

/-- The call is answered at every point, and ends with a state that it has cancelled. -/
theorem cancel_answered_undisturbed :
    Machine.Always sampleCancel CancelRace.Answered sampleRace undisturbedCancel ∧
      ∃ state, state.status = .cancelled ∧
        (Machine.run sampleCancel sampleRace undisturbedCancel).point = .ended (.ok state) := by
  have hempty : (postgresStore plainAdapter).Ok fun _ => none := fun _ _ h => by cases h
  obtain ⟨hends, hiff⟩ := (cancel_answered_iff plainAdapter).2 (fun _ => none) sampleTable sampleTask
    sampleBudget 0 sampleTask.principal undisturbedCancel hempty rfl
  -- `cancel` comes to its save with what the worker has saved
  have hread : (Machine.run sampleCancel sampleRace (undisturbedCancel.take 4)).point =
      (((postgresStore plainAdapter).get (Machine.run sampleCancel sampleRace
        (undisturbedCancel.take 4)).workers.store sampleTask.id).map CancelPoint.save).getD
          .read := by decide +kernel
  have hmeets : Machine.Meets sampleCancel (Undisturbed (postgresStore plainAdapter) sampleTask.id)
      sampleRace undisturbedCancel := by
    refine ⟨trivial, fun _ h => ?_, trivial, fun _ h => ?_, fun current h => ?_, trivial⟩
    · cases h
    · cases h
    · refine ⟨?_, by decide, by decide⟩
      have hsave := hread.symm.trans h
      cases hget : (postgresStore plainAdapter).get (Machine.run sampleCancel sampleRace
          (undisturbedCancel.take 4)).workers.store sampleTask.id with
      | none =>
        rw [hget] at hsave
        cases hsave
      | some stored =>
        rw [hget] at hsave
        cases hsave
        exact hget
  have halways := hiff.2 hmeets
  refine ⟨halways, ?_⟩
  have hanswered : (Machine.run sampleCancel sampleRace undisturbedCancel).point.Answered :=
    halways.last
  obtain ⟨result, hended⟩ := hends (by decide)
  have hended' : (Machine.run sampleCancel sampleRace undisturbedCancel).point = .ended result := hended
  rw [hended'] at hanswered
  cases result with
  | ok state => exact ⟨state, hanswered, hended'⟩
  | error error =>
    have hnot : ∀ error, (Machine.run sampleCancel sampleRace undisturbedCancel).point ≠
        .ended (.error error) := by
      intro error
      cases error <;> decide +kernel
    exact absurd hended' (hnot error)

/-- The owner cancels; a worker reads and saves between the second read and the save. -/
def disturbedCancel : List (RaceEvent ℕ) :=
  [.cancel (sampleWorker fun _ => some 1), .cancel (sampleWorker fun _ => some 1),
    .worker (.get 0), .worker (.save 0 (.advance (sampleWorker fun _ => some 0))),
    .cancel (sampleWorker fun _ => some 1)]

/-- **A worker's save between `cancel`'s second read and its save** makes `cancel` raise what its
route does not answer. -/
theorem save_between_raises :
    ∃ st, InMemoryInvestigationStore.create (fun _ => none) (.queued sampleTask sampleBudget 0) = some st ∧
      (Machine.run (CancelRace.step (workflowUpdate inMemoryStore rfl rfl) sampleTask.id
        sampleTask.principal) ({ workers := Revision.start st (.queued sampleTask sampleBudget 0) } :
          CancelRace InMemoryInvestigationStore.States ℕ) disturbedCancel).point =
        .ended (.error .concurrentInvestigationUpdate) ∧
      CancelError.httpStatus .concurrentInvestigationUpdate = none := by
  refine ⟨_, rfl, ?_, rfl⟩
  decide +kernel

end GroundedOps.Investigation
