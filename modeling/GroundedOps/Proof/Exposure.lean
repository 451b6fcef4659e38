import GroundedOps.Proof.Backing
import GroundedOps.Proof.InvestigationStore
import GroundedOps.Proof.ReadAudit
import GroundedOps.Proof.Tools
import GroundedOps.Proof.Worker

/-!
# What an investigation holds

The tools of a worker ask the policy store for everything that they return, and the workflow
adds nothing of its own.

* `Clearance`: what may be found; `advance_cleared` keeps it, if the tools return nothing else.
* `tools_cleared`: what `InvestigationTools` return is backed by the policy store.
* `investigations_readable`: **every state of an investigation that is ever stored, by any number
  of workers and owners, holds only what its principal may read in a database that a policy read
  of a tool saw.**
-/

namespace GroundedOps.Investigation

open Hoare
open Ingestion (Database MayRead between runtimeStores mayRead_of_backed)

/-! ## Clearance -/

/-- What may be found. -/
structure Clearance where
  evidence : Evidence → Prop
  incident : IncidentRecord → Prop
  comparison : VersionComparison → Prop

namespace Clearance

variable (c : Clearance)

def Result : ToolResult → Prop
  | .evidence result => ∀ item ∈ result.evidence, c.evidence item
  | .incidents result => ∀ record ∈ result, c.incident record
  | .comparison result => c.comparison result

/-- The findings may be found. -/
structure Found (evidence : List Evidence) (incidents : List IncidentRecord)
    (comparisons : List VersionComparison) : Prop where
  evidence : ∀ item ∈ evidence, c.evidence item
  incidents : ∀ record ∈ incidents, c.incident record
  comparisons : ∀ comparison ∈ comparisons, c.comparison comparison

/-- The state is of the task, with findings that may be found. -/
def State (task : InvestigationTask) (state : InvestigationState) : Prop :=
  state.task = task ∧ c.Found state.evidence state.incidents state.comparisons

/-- The tools return only what may be found for the principal. -/
structure Tools (principal : Principal) (env : Collaborators) : Prop where
  retrieve : ∀ n request result,
    env.retrieve n principal request = .ok result → c.Result (.evidence result)
  searchIncidents : ∀ n request result,
    env.searchIncidents n principal request = .ok result → c.Result (.incidents result)
  compareVersions : ∀ n request result,
    env.compareVersions n principal request = .ok result → c.Result (.comparison result)

end Clearance

namespace InvestigationWorkflow

variable {env : Collaborators} {w : WorkflowWorld} {state : InvestigationState}
  {task : InvestigationTask} {c : Clearance}

theorem map_eq_ok {α β : Type} {f : α → β} {called : Except ToolRaise α} {b : β}
    (h : f <$> called = .ok b) : ∃ a, called = .ok a ∧ f a = b := by
  cases called with
  | error raised => cases h
  | ok a => exact ⟨a, rfl, Except.ok.inj h⟩

theorem addResult_cleared {result : ToolResult} (h : c.State task state) (hresult : c.Result result) :
    c.State task (state.addResult result) := by
  obtain ⟨htask, hevidence, hincidents, hcomparisons⟩ := h
  cases result with
  | evidence result =>
    exact ⟨htask, List.forall_mem_append.2 ⟨hevidence, hresult⟩, hincidents, hcomparisons⟩
  | incidents result =>
    exact ⟨htask, hevidence, List.forall_mem_append.2 ⟨hincidents, hresult⟩, hcomparisons⟩
  | comparison result =>
    refine ⟨htask, hevidence, hincidents, List.forall_mem_append.2 ⟨hcomparisons, ?_⟩⟩
    exact List.forall_mem_singleton.2 hresult

theorem terminal_cleared {reason : StopReason} (h : c.State task state) :
    wp (terminal env state reason) (fun out _ => c.State task out) (fun _ _ => True) w := by
  rw [wp_terminal]
  exact ⟨fun _ _ => h, fun _ => trivial⟩

/-- A tool call returns what its operation returned. -/
theorem toolCall_cleared {name : String} {retrieval : Bool}
    {operation : ℕ → Except ToolRaise ToolResult} (h : c.State task state)
    (hoperation : ∀ n result, operation n = .ok result → c.Result result) :
    wp (toolCall env state name retrieval operation)
      (fun out _ => c.State task out.1 ∧ ∀ result, out.2 = some result → c.Result result)
      (fun _ _ => True) w := by
  have hstop : ∀ {state : InvestigationState} {reason : StopReason} {found : Option ToolResult}
      {w : WorkflowWorld}, c.State task state → (∀ result, found = some result → c.Result result) →
      wp (do return (← terminal env state reason, found))
        (fun out _ => c.State task out.1 ∧ ∀ result, out.2 = some result → c.Result result)
        (fun _ _ => True) w := by
    intro state reason found w h hfound
    rw [wp_bind]
    exact wp_mono (terminal_cleared h) (fun _ _ h => ⟨h, hfound⟩) (fun _ _ h => h)
  have hnone : ∀ result, (none : Option ToolResult) = some result → c.Result result :=
    fun result heq => absurd heq.symm (Option.some_ne_none result)
  unfold toolCall
  split
  · exact hstop h hnone
  · simp only [wp_bind, wp_now, wp_emit, wp_interaction, implies_true, and_true]
    intro started _
    split
    · trivial
    · simp only [wp_bind, wp_now, wp_orRaise, wp_pure, implies_true, and_true]
      intro finished _ advanced hmoved
      obtain ⟨_, rfl⟩ := moveTo_eq hmoved
      exact ⟨h, hnone⟩
    · rename_i found hfound
      have hall : ∀ result, some found = some result → c.Result result := by
        intro result heq
        obtain rfl := Option.some.inj heq
        exact hoperation _ _ hfound
      simp only [wp_bind, wp_emit, wp_now, implies_true, and_true]
      intro finished _
      refine wp_budgetReason (fun _ _ => hstop h hall) (fun _ => hstop h hall)
        (fun _ _ _ => ⟨h, hall⟩) (fun _ _ _ _ _ => ?_) trivial
      split
      · exact hstop h hall
      · exact ⟨h, hall⟩

/-- The loops add only what may be found. -/
theorem toolLoop_cleared {R : Type} {name : String} {retrieval : Bool}
    {operation : R → ℕ → Except ToolRaise ToolResult} {requests : List R} (h : c.State task state)
    (hoperation : ∀ request n result, operation request n = .ok result → c.Result result) :
    wp (toolLoop env name retrieval operation InvestigationState.addResult requests state)
      (fun out _ => if out.2 then c.State task out.1 else c.State task out.1)
      (fun _ _ => True) w := by
  refine wp_toolLoop (I := fun state _ => c.State task state) (Q := fun state _ => c.State task state)
    (fun request state w hstate => ?_) h
  refine wp_mono (toolCall_cleared hstate (hoperation request)) (fun out w' hout => ?_)
    (fun _ _ h => h)
  obtain ⟨advanced, found⟩ := out
  obtain ⟨hadvanced, hfound⟩ := hout
  cases hterminal : advanced.terminal with
  | true => exact hadvanced
  | false =>
    cases found with
    | none => exact hadvanced
    | some result => exact addResult_cleared hadvanced (hfound result rfl)

theorem afterNode_cleared (h : c.State task state) :
    wp (afterNode env state) (fun out _ => c.State task out) (fun _ _ => True) w := by
  unfold afterNode
  rw [wp_bind]
  refine wp_budgetReason (fun _ _ => terminal_cleared h) (fun _ => terminal_cleared h)
    (fun _ _ _ => h) (fun _ _ _ _ _ => ?_) trivial
  split
  · exact terminal_cleared h
  · exact h

/-- Moving to a node keeps the findings. -/
theorem moveTo_cleared {node : InvestigationNode} (h : c.State task state) :
    wp (orRaise (state.moveTo node)) (fun out _ => c.State task out) (fun _ _ => True) w := by
  simp only [wp_orRaise, implies_true, and_true]
  intro moved hmoved
  obtain ⟨_, rfl⟩ := moveTo_eq hmoved
  exact h

/-- **A node adds only what its tools returned.** -/
theorem runNode_cleared (htools : c.Tools task.principal env) (h : c.State task state) :
    wp (runNode env state) (fun out _ => c.State task out) (fun _ _ => True) w := by
  have hretrieve : ∀ request n result,
      ToolResult.evidence <$> env.retrieve n state.task.principal request = .ok result →
        c.Result result := by
    intro request n result hcall
    rw [h.1] at hcall
    obtain ⟨evidence, hreturned, rfl⟩ := map_eq_ok hcall
    exact htools.retrieve n request evidence hreturned
  have hsearch : ∀ request n result,
      ToolResult.incidents <$> env.searchIncidents n state.task.principal request = .ok result →
        c.Result result := by
    intro request n result hcall
    rw [h.1] at hcall
    obtain ⟨incidents, hreturned, rfl⟩ := map_eq_ok hcall
    exact htools.searchIncidents n request incidents hreturned
  have hcompare : ∀ request n result,
      ToolResult.comparison <$> env.compareVersions n state.task.principal request = .ok result →
        c.Result result := by
    intro request n result hcall
    rw [h.1] at hcall
    obtain ⟨comparison, hreturned, rfl⟩ := map_eq_ok hcall
    exact htools.compareVersions n request comparison hreturned
  have hstep : c.State task state.recordStep := h
  let Kept : InvestigationState → WorkflowWorld → Prop := fun state _ => c.State task state
  unfold runNode
  split
  · unfold plan
    simp only [wp_bind, wp_emit, wp_interaction, wp_orRaise, implies_true, and_true]
    intro result _ advanced hmoved
    obtain ⟨_, rfl⟩ := moveTo_eq hmoved
    exact afterNode_cleared h
  · unfold retrieve
    split
    · exact terminal_cleared h
    · refine wp_afterLoop (I := Kept) (Q := Kept) (toolLoop_cleared hstep hretrieve)
        (fun _ _ h => h) fun advanced w₁ h₁ => ?_
      refine wp_afterLoop (I := Kept) (Q := Kept) (toolLoop_cleared h₁ hsearch)
        (fun _ _ h => h) fun searching w₂ h₂ => ?_
      exact moveTo_cleared h₂
  · unfold compare
    split
    · exact terminal_cleared h
    · refine wp_afterLoop (I := Kept) (Q := Kept) (toolLoop_cleared hstep hcompare)
        (fun _ _ h => h) fun advanced w₁ h₁ => ?_
      exact moveTo_cleared h₁
  · unfold verify
    simp only [wp_bind, wp_emit, wp_interaction, wp_orRaise, implies_true, and_true]
    intro result _ advanced hmoved
    obtain ⟨_, rfl⟩ := moveTo_eq hmoved
    exact afterNode_cleared h
  · unfold report
    simp only [wp_bind, wp_emit, wp_interaction, wp_orRaise, implies_true, and_true]
    intro result _
    exact wp_budgetReason (fun _ _ => terminal_cleared h) (fun _ => terminal_cleared h)
      (fun _ _ _ => terminal_cleared h) (fun _ _ _ _ _ => terminal_cleared h) trivial
  · trivial

theorem begin_cleared (h : c.State task state) :
    wp (begin env state) (fun out _ => c.State task out) (fun _ _ => True) w := by
  unfold begin
  split
  · simp only [wp_bind, wp_now, wp_pure]
    exact ⟨fun _ _ => h, fun _ => trivial⟩
  · exact h

theorem persisted_cleared {current : InvestigationState} (h : c.State task state) :
    wp (persisted env current state) (fun out _ => c.State task out) (fun _ _ => True) w := by
  unfold persisted
  simp only [wp_bind, wp_now, wp_pure]
  exact ⟨fun _ _ => h, fun _ => trivial⟩

theorem stop_cleared {current : InvestigationState} {reason : StopReason}
    (h : c.State task state) :
    wp (do persisted env current (← terminal env state reason)) (fun out _ => c.State task out)
      (fun _ _ => True) w := by
  rw [wp_bind]
  exact wp_mono (terminal_cleared h) (fun _ _ h => persisted_cleared h) (fun _ _ h => h)

/-- **An advance adds only what its tools returned.** -/
theorem advance_cleared (htools : c.Tools task.principal env) (h : c.State task state) :
    wp (advance env state) (fun out _ => c.State task out) (fun _ _ => True) w := by
  unfold advance
  rw [wp_bind]
  refine wp_mono (begin_cleared h) (fun started w₁ hstarted => ?_) (fun _ _ h => h)
  have hrun : ∀ {w : WorkflowWorld}, wp (do
      emit (.nodeStarted started)
      let advanced ← tryCatch (runNode env started) fun _ => terminal env started .workflowFailure
      persisted env state advanced) (fun out _ => c.State task out) (fun _ _ => True) w := by
    intro w
    simp only [wp_bind, wp_emit, wp_tryCatch]
    refine wp_mono (runNode_cleared htools hstarted) (fun _ _ h => persisted_cleared h)
      (fun _ _ _ => ?_)
    exact wp_mono (terminal_cleared hstarted) (fun _ _ h => persisted_cleared h) (fun _ _ h => h)
  rw [wp_bind]
  refine wp_budgetReason (fun _ _ => stop_cleared hstarted) (fun _ => stop_cleared hstarted)
    (fun _ _ _ => hrun) (fun _ _ _ _ _ => ?_) trivial
  split
  · exact stop_cleared hstarted
  · exact hrun

end InvestigationWorkflow

/-- The tools of a worker, if the call is one of a worker. -/
def Clearance.Call (c : Clearance) (principal : Principal) : WorkflowCall → Prop
  | .advance env => c.Tools principal env
  | .cancel _ => True

/-- **What a call saves may be found**, if that is so of what it read. -/
theorem saved_cleared {c : Clearance} {task : InvestigationTask} {current state : InvestigationState}
    {call : WorkflowCall} (hcall : c.Call task.principal call) (h : c.State task current)
    (hsaved : call.saved current = some state) : c.State task state := by
  refine saved_of_wp (P := c.State task) ?_ hsaved
  unfold WorkflowCall.compute
  split
  · simp
  · cases call with
    | advance env =>
      rw [wp_map]
      exact wp_mono (InvestigationWorkflow.advance_cleared hcall h)
        (fun _ _ hout _ heq => Option.some.inj heq ▸ hout) (fun _ _ h => h)
    | cancel env =>
      rw [wp_map]
      exact wp_mono (InvestigationWorkflow.stop_cleared h)
        (fun _ _ hout _ heq => Option.some.inj heq ▸ hout) (fun _ _ h => h)

/-! ## The tools -/

/-- What the policy store stands behind, for the principal. -/
def backing (access : PolicyAccess) (principal : Principal) : Clearance where
  evidence := ItemBacked access principal
  incident record := ∃ reference, InvestigationTools.recordReference record = some reference ∧
    Backed access principal reference
  comparison comparison := ∀ versionId ∈ [comparison.leftVersionId, comparison.rightVersionId],
    ∃ reference, DocumentRef.make principal.tenantId comparison.documentId (some versionId) =
      some reference ∧ Backed access principal reference

/-- What `InvestigationTools` is built of at an interaction: a retriever over the policy store,
and a version store and an incident search of any kind. -/
structure Toolbox (access : PolicyAccess) where
  retrieve : QueryContext → Act RetrievalError PolicyLog EvidenceSet
  retriever : Retriever access retrieve
  getVersion : String → String → ToolStep (Option Ingestion.DocumentVersion)
  search : String → String → ℕ → ToolStep (List IncidentRecord)
  correlationId : String
  maxResults : ℕ
  deadline : Deadline
  isoformat : ℤ → String
  log : PolicyLog

def Toolbox.backends {access : PolicyAccess} (box : Toolbox access) : ToolBackends where
  retrieve context := raiseAs (fun _ => .other) (box.retrieve context)
  getVersion := box.getVersion
  search := box.search
  access := access
  correlationId := box.correlationId
  maxResults := box.maxResults
  deadline := box.deadline
  isoformat := box.isoformat

/-- What a tool returns or raises to the workflow. -/
def toolOutcome {α : Type} (tool : ToolStep α) (log : PolicyLog) : Except ToolRaise α :=
  (exec tool log).1.mapError fun raised =>
    match raised with
    | .toolError code => .toolError code
    | _ => .other

/-- A worker whose tools are `InvestigationTools`. -/
def Collaborators.withTools {access : PolicyAccess} (env : Collaborators)
    (box : ℕ → Toolbox access) : Collaborators :=
  { env with
    retrieve := fun n principal request =>
      toolOutcome (InvestigationTools.retrieve (box n).backends principal request) (box n).log
    searchIncidents := fun n principal request =>
      toolOutcome (InvestigationTools.searchIncidents (box n).backends principal request) (box n).log
    compareVersions := fun n principal request =>
      toolOutcome (InvestigationTools.compareVersions (box n).backends principal request)
        (box n).log }

theorem toolOutcome_ok {α : Type} {tool : ToolStep α} {log : PolicyLog} {a : α}
    {N : α → Prop} (h : wp tool (fun a _ => N a) (fun _ _ => True) log)
    (hreturned : toolOutcome tool log = .ok a) : N a := by
  unfold toolOutcome at hreturned
  unfold wp at h
  cases hrun : exec tool log with
  | mk out log' =>
    rw [hrun] at hreturned h
    cases out with
    | error raised => cases hreturned
    | ok result =>
      cases hreturned
      exact h

namespace InvestigationTools

variable {access : PolicyAccess} {backends : ToolBackends} {principal : Principal} {log : PolicyLog}

/-- What the `try` block of a tool returns, its operation did. -/
theorem wp_guarded {α : Type} {operation : ToolStep α} {N : α → PolicyLog → Prop}
    (h : wp operation N (fun _ _ => True) log) :
    wp (guarded backends operation) N (fun _ _ => True) log :=
  wp_mono (guarded_normalized h) (fun _ _ hN => hN) (fun _ _ _ => trivial)

theorem wp_requirePrincipal {N : Unit → PolicyLog → Prop} (h : N () log) :
    wp (requirePrincipal principal) N (fun _ _ => True) log := by
  unfold requirePrincipal
  split
  · trivial
  · exact h

theorem wp_requireLimit {limit : ℕ} {N : Unit → PolicyLog → Prop} (h : N () log) :
    wp (requireLimit backends limit) N (fun _ _ => True) log := by
  unfold requireLimit
  split
  · trivial
  · exact h

theorem wp_orValueError {α : Type} {o : Option α} {N : α → PolicyLog → Prop}
    (h : ∀ a, o = some a → N a log) : wp (orValueError o) N (fun _ _ => True) log := by
  cases o with
  | none => trivial
  | some a => exact h a rfl

/-- What a tool authorizes is backed. -/
theorem authorizeReads_backed {references : List DocumentRef} (haccess : backends.access = access) :
    wp (authorizeReads backends principal references)
      (fun authorized _ => (authorized.map Prod.fst).Nodup ∧
        ∀ reference ∈ authorized.map Prod.fst,
          reference ∈ references ∧ Backed access principal reference)
      (fun _ _ => True) log := by
  subst haccess
  unfold authorizeReads
  rw [wp_raiseAs]
  refine wp_mono (wp_and PolicyEnforcer.authorizeReads_spec
    ((PolicyEnforcer.given_rule backends.access principal backends.correlationId).authorizeReads
      references log)) (fun authorized log' hboth => ?_) (fun _ _ _ => trivial)
  obtain ⟨hdone, hgiven⟩ := hboth
  have hexact := PolicyEnforcer.readsDone_exact hdone
  refine ⟨hexact.distinct, fun reference hreference => ?_⟩
  obtain ⟨entry, hentry, hkey⟩ := List.mem_map.1 hreference
  have hsome : (lookupAuthorized authorized reference).isSome = true :=
    List.lookup_isSome_iff.2 ⟨entry, hentry, beq_iff_eq.2 hkey.symm⟩
  obtain ⟨document, hdocument⟩ := Option.isSome_iff_exists.1 hsome
  exact ⟨((hexact.keys reference).1 hreference).1, backed_of_authorized hdone hgiven hdocument⟩

theorem retrieve_backed {request : RetrieveRequest}
    (hretrieve : ∀ context log, wp (backends.retrieve context)
      (fun result _ => ∀ item ∈ result.evidence, ItemBacked access context.principal item)
      (fun _ _ => True) log) :
    wp (retrieve backends principal request)
      (fun result _ => ∀ item ∈ result.evidence, ItemBacked access principal item)
      (fun _ _ => True) log := by
  unfold retrieve
  rw [wp_bind]
  refine wp_requirePrincipal ?_
  rw [wp_bind]
  refine wp_requireLimit ?_
  rw [wp_bind]
  refine wp_mono (wp_guarded (hretrieve (queryContext principal request) log))
    (fun result _ hresult => ?_) (fun _ _ _ => trivial)
  exact fun item hitem => hresult item (List.mem_of_mem_take hitem)

/-- The versions are read only when both references are backed. -/
theorem requireAuthorized_backed {references : List DocumentRef}
    (haccess : backends.access = access) :
    wp (requireAuthorized backends principal references)
      (fun _ _ => ∀ reference ∈ references, Backed access principal reference)
      (fun _ _ => True) log := by
  unfold requireAuthorized
  rw [wp_bind, wp_tryCatch]
  refine wp_mono (authorizeReads_backed haccess) (fun authorized log' hauthorized => ?_)
    (fun _ _ _ => trivial)
  obtain ⟨hnodup, hbacked⟩ := hauthorized
  split
  · trivial
  · rename_i hlength
    rw [not_not] at hlength
    -- as many distinct ones as were asked for: these are all
    have hsub : (authorized.map Prod.fst).Subperm references :=
      hnodup.subperm fun reference hreference => (hbacked reference hreference).1
    have hperm : (authorized.map Prod.fst).Perm references := by
      refine hsub.perm_of_length_le ?_
      rw [List.length_map, hlength]
    exact fun reference hreference => (hbacked reference (hperm.mem_iff.2 hreference)).2

theorem matchesVersion_eq {version : Option Ingestion.DocumentVersion}
    {request : CompareVersionsRequest} {versionId : String}
    (h : matchesVersion version request versionId = true) :
    ∃ found, version = some found ∧ found.documentId = request.documentId ∧ found.id = versionId := by
  cases version with
  | none => cases h
  | some found =>
    unfold matchesVersion at h
    rw [Option.any_some, Bool.and_eq_true, beq_iff_eq, beq_iff_eq] at h
    exact ⟨found, rfl, h⟩

theorem compareVersions_backed {request : CompareVersionsRequest}
    (haccess : backends.access = access) :
    wp (compareVersions backends principal request)
      (fun result _ => (backing access principal).comparison result) (fun _ _ => True) log := by
  unfold compareVersions
  rw [wp_bind]
  refine wp_requirePrincipal ?_
  rw [wp_bind]
  refine wp_orValueError fun left hleft => ?_
  rw [wp_bind]
  refine wp_orValueError fun right hright => ?_
  rw [wp_bind]
  refine wp_mono (wp_guarded (N := fun _ _ => ∀ reference ∈ [left, right],
    Backed access principal reference) ?_) (fun versions _ hbacked => ?_) (fun _ _ _ => trivial)
  · unfold authorizedVersions
    rw [wp_bind]
    refine wp_mono (requireAuthorized_backed haccess) (fun _ _ hbacked => ?_)
      (fun _ _ _ => trivial)
    rw [wp_bind]
    refine wp_mono wp_any (fun _ _ _ => ?_) (fun _ _ _ => trivial)
    rw [wp_bind]
    exact wp_mono wp_any (fun _ _ _ => hbacked) (fun _ _ _ => trivial)
  · dsimp only
    split
    · trivial
    · rename_i hmatches
      rw [Bool.or_eq_true, Bool.not_eq_true', Bool.not_eq_true', not_or, Bool.not_eq_false,
        Bool.not_eq_false] at hmatches
      obtain ⟨before, hbefore, hdocument, hbeforeId⟩ := matchesVersion_eq hmatches.1
      obtain ⟨after, hafter, -, hafterId⟩ := matchesVersion_eq hmatches.2
      obtain ⟨first, second⟩ := versions
      cases hbefore
      cases hafter
      intro versionId hversion
      unfold compare at hversion ⊢
      dsimp only at hversion ⊢
      rw [hdocument]
      rw [hbeforeId, hafterId] at hversion
      rcases List.mem_pair.1 hversion with rfl | rfl
      · exact ⟨left, hleft, hbacked left List.mem_cons_self⟩
      · exact ⟨right, hright, hbacked right (List.mem_cons_of_mem _ List.mem_cons_self)⟩

/-- The records that are kept have an authorized reference. -/
theorem authorizedRecords_kept {authorized : List (DocumentRef × AuthorizedDocument)} :
    ∀ {records : List IncidentRecord} {log : PolicyLog},
      wp (authorizedRecords authorized records)
        (fun kept _ => ∀ record ∈ kept, ∃ reference, recordReference record = some reference ∧
          reference ∈ authorized.map Prod.fst)
        (fun _ _ => True) log := by
  intro records
  induction records with
  | nil => exact fun _ hrecord => absurd hrecord List.not_mem_nil
  | cons record records ih =>
    intro log
    unfold authorizedRecords
    rw [wp_bind]
    refine wp_orValueError fun reference hreference => ?_
    rw [wp_bind]
    refine wp_mono ih (fun rest _ hrest => ?_) (fun _ _ _ => trivial)
    rw [wp_pure]
    split
    · rename_i hsome
      refine List.forall_mem_cons.2 ⟨⟨reference, hreference, ?_⟩, hrest⟩
      obtain ⟨entry, hentry, hkey⟩ := List.lookup_isSome_iff.1 hsome
      exact List.mem_map.2 ⟨entry, hentry, (beq_iff_eq.1 hkey).symm⟩
    · exact hrest

theorem searchIncidents_backed {request : IncidentSearchRequest}
    (haccess : backends.access = access) :
    wp (searchIncidents backends principal request)
      (fun kept _ => ∀ record ∈ kept, (backing access principal).incident record)
      (fun _ _ => True) log := by
  unfold searchIncidents
  rw [wp_bind]
  refine wp_requirePrincipal ?_
  rw [wp_bind]
  refine wp_requireLimit ?_
  rw [wp_bind]
  refine wp_mono (wp_guarded (N := fun found _ => ∀ reference ∈ found.2.map Prod.fst,
    Backed access principal reference) ?_) (fun found _ hbacked => ?_) (fun _ _ _ => trivial)
  · unfold authorizedIncidents
    rw [wp_bind]
    refine wp_mono wp_any (fun records _ _ => ?_) (fun _ _ _ => trivial)
    dsimp only
    rw [wp_bind]
    refine wp_orValueError fun references _ => ?_
    rw [wp_bind]
    exact wp_mono (authorizeReads_backed haccess)
      (fun _ _ h reference hreference => (h.2 reference hreference).2) (fun _ _ _ => trivial)
  · refine wp_mono authorizedRecords_kept (fun kept _ hkept record hrecord => ?_)
      (fun _ _ _ => trivial)
    obtain ⟨reference, hreference, hmem⟩ := hkept record hrecord
    exact ⟨reference, hreference, hbacked reference hmem⟩

end InvestigationTools

/-- **What the tools return is backed**, whatever the index, the version store and the incident
search return. -/
theorem tools_cleared {access : PolicyAccess} {principal : Principal} {env : Collaborators}
    {box : ℕ → Toolbox access} :
    (backing access principal).Tools principal (env.withTools box) where
  retrieve n request result h := by
    refine toolOutcome_ok (N := fun result => ∀ item ∈ result.evidence, ItemBacked access principal item)
      ?_ h
    exact InvestigationTools.retrieve_backed fun context log =>
      wp_raiseAs.2 ((box n).retriever.backed context log)
  searchIncidents n request result h := by
    refine toolOutcome_ok (N := fun kept => ∀ record ∈ kept,
      (backing access principal).incident record) ?_ h
    exact InvestigationTools.searchIncidents_backed rfl
  compareVersions n request result h := by
    refine toolOutcome_ok (N := (backing access principal).comparison) ?_ h
    exact InvestigationTools.compareVersions_backed rfl

/-! ## Every stored state -/

/-- The tools of the worker, if it is one, are `InvestigationTools` over the policy store. -/
def UsesTools (access : PolicyAccess) : WorkflowCall → Prop
  | .advance env => ∃ (env' : Collaborators) (box : ℕ → Toolbox access), env = env'.withTools box
  | .cancel _ => True

/-- The findings of a state are of versions that the principal may read in a database of `dbs`. -/
structure MayHold (dbs : ℕ → Database) (principal : Principal) (state : InvestigationState) :
    Prop where
  evidence : ∀ item ∈ state.evidence,
    ∃ n, MayRead (dbs n) principal item.tenantId item.documentId item.documentVersionId
  incidents : ∀ record ∈ state.incidents,
    ∃ n, MayRead (dbs n) principal record.tenantId record.documentId record.documentVersionId
  comparisons : ∀ comparison ∈ state.comparisons,
    ∀ versionId ∈ [comparison.leftVersionId, comparison.rightVersionId],
      ∃ n, MayRead (dbs n) principal principal.tenantId comparison.documentId versionId

theorem mayHold_of_found {reads : ℕ → Database × Database}
    {append : ℕ → AuthorizationAudit → Bool} {principal : Principal} {state : InvestigationState}
    (h : (backing (runtimeStores reads append) principal).Found state.evidence state.incidents
      state.comparisons) :
    MayHold (fun n => between (reads n).1 (reads n).2) principal state where
  evidence item hitem := by
    obtain ⟨reference, hmake, hbacked⟩ := h.evidence item hitem
    exact mayRead_of_backed hmake hbacked
  incidents record hrecord := by
    obtain ⟨reference, hmake, hbacked⟩ := h.incidents record hrecord
    exact mayRead_of_backed hmake hbacked
  comparisons comparison hcomparison versionId hversion := by
    obtain ⟨reference, hmake, hbacked⟩ := h.comparisons comparison hcomparison versionId hversion
    exact mayRead_of_backed hmake hbacked

/-- **Investigations never leak.** Let any number of workers and owners read, advance and cancel an
investigation through a revision-guarded store, in any interleaving, where the tools of the workers
are `InvestigationTools` over the policies of the runtime, with a retriever, an index, a version
store and an incident search that return anything. Every state that is ever stored or read is of
the task it was started for, and all its evidence, incidents and comparisons are of versions that
the principal of the task may read, in the rows that a policy read of a tool saw. -/
theorem investigations_readable {St : Type} (store : Revision.Store St String InvestigationState)
    (hkey : store.key = InvestigationState.id)
    (hrevision : store.revision = InvestigationState.revision)
    (reads : ℕ → Database × Database) (append : ℕ → AuthorizationAudit → Bool) (st st' : St)
    (task : InvestigationTask) (budget : InvestigationBudget) (now : ℤ)
    (events : List (Revision.Event ℕ WorkflowCall)) (hok : store.Ok st)
    (hcreate : store.create st (.queued task budget now) = some st')
    (htools : ∀ t call, .save t call ∈ events → UsesTools (runtimeStores reads append) call)
    (state : InvestigationState)
    (hobtained : Revision.Obtained (Machine.run
      (Revision.step (workflowUpdate store hkey hrevision) task.id)
      (Revision.start st' (.queued task budget now)) events) state) :
    state.task = task ∧
      MayHold (fun n => between (reads n).1 (reads n).2) task.principal state := by
  set c := backing (runtimeStores reads append) task.principal
  have hstart : Revision.Linear (workflowUpdate store hkey hrevision) task.id
      (Revision.start st' (.queued task budget now) : Revision.System St InvestigationState ℕ) :=
    started_linear hkey hrevision hok hcreate
  have hcalls : ∀ t call, .save t call ∈ events → c.Call task.principal call := by
    intro t call hcall
    have huses := htools t call hcall
    cases call with
    | advance env =>
      obtain ⟨env', box, rfl⟩ := huses
      exact tools_cleared
    | cancel env => trivial
  have hqueued : c.State task (.queued task budget now) :=
    ⟨rfl, List.forall_mem_nil _, List.forall_mem_nil _, List.forall_mem_nil _⟩
  have hall := Revision.run_history (P := c.State task)
    (fun _ _ _ hstate hcall hsaved => saved_cleared hcall hstate hsaved) hcalls hstart
    (List.forall_mem_singleton.2 hqueued)
  obtain ⟨htask, hfound⟩ := hall state ((Revision.run_linear hstart).mem_of_obtained hobtained)
  exact ⟨htask, mayHold_of_found hfound⟩

/-! ## An investigation that finds something -/

section Sample

open Ingestion (sampleComponents sampleEvent samplePlatform World)

/-- A document has been projected. -/
def projectedWorld : World := Machine.run (World.live sampleComponents) {} [
  .worker { action := .submit (sampleEvent "a" 0) },
  .worker { action := .deliver "tenant" (samplePlatform.uuid4 2) }]

def projectedReads : ℕ → Database × Database :=
  fun _ => (projectedWorld.database, projectedWorld.database)

def projectedTask : InvestigationTask :=
  { sampleTask with principal := { id := "p-1", tenantId := "tenant", roles := [], groups := [] } }

/-- The index has two chunks, of which one is of a document that is not there. -/
def projectedHit (documentId : String) : SearchHit :=
  { chunkId := "c-1", tenantId := "tenant", sourceId := "source", documentId := documentId
    documentVersionId := samplePlatform.uuid4 1, policy := ["public"], ordinal := 0, text := "a"
    start := 0, stop := 1, contentHash := "h", parserVersion := "1", chunkerVersion := "1"
    sourceTimestamp := 0, isCurrent := true, score := 1 }

def projectedBox : Toolbox (runtimeStores projectedReads fun _ _ => true) where
  retrieve := BM25Retriever.retrieve (runtimeStores projectedReads fun _ _ => true) "correlation"
    fun _ => some ⟨[projectedHit "elsewhere", projectedHit (samplePlatform.uuid4 0)], 2, 1⟩
  retriever := .bm25 _ _
  getVersion _ _ := pure none
  search _ _ _ := pure []
  correlationId := "correlation"
  maxResults := 10
  deadline := .met
  isoformat _ := ""
  log := {}

def projectedWorker : Collaborators := (sampleWorker fun _ => some 0).withTools fun _ => projectedBox

/-- One worker plans and retrieves. -/
def projectedEvents : List (Revision.Event ℕ WorkflowCall) := [
  .get 0, .save 0 (.advance projectedWorker), .get 0, .save 0 (.advance projectedWorker)]

def projectedStart : InvestigationState := .queued projectedTask sampleBudget 0

/-- The investigation holds the one chunk of the document that is there. -/
theorem investigations_readable_projected : ∃ st' state,
    inMemoryStore.create (fun _ => none) projectedStart = some st' ∧
    Revision.Obtained (Machine.run
      (Revision.step (workflowUpdate inMemoryStore rfl rfl) projectedTask.id)
      (Revision.start st' projectedStart) projectedEvents) state ∧
    state.evidence.length = 1 ∧ state.task = projectedTask ∧
    MayHold (fun n => between (projectedReads n).1 (projectedReads n).2) projectedTask.principal
      state := by
  have hcreated : (inMemoryStore.create (fun _ => none) projectedStart).isSome = true := rfl
  obtain ⟨st', hcreate⟩ := Option.isSome_iff_exists.1 hcreated
  have hlast : (((inMemoryStore.create (fun _ => none) projectedStart).bind fun st' =>
      (Machine.run (Revision.step (workflowUpdate inMemoryStore rfl rfl) projectedTask.id)
        (Revision.start st' projectedStart) projectedEvents).history.getLast?).any
          fun state => state.evidence.length = 1) = true := by decide +kernel
  rw [hcreate, Option.bind_some, Option.any_eq_true] at hlast
  obtain ⟨state, hstate, hfound⟩ := hlast
  have hobtained : Revision.Obtained (Machine.run
      (Revision.step (workflowUpdate inMemoryStore rfl rfl) projectedTask.id)
      (Revision.start st' projectedStart) projectedEvents) state :=
    .inl (List.mem_of_getLast? hstate)
  refine ⟨st', state, hcreate, hobtained, of_decide_eq_true hfound, ?_⟩
  refine investigations_readable inMemoryStore rfl rfl projectedReads (fun _ _ => true) _ st'
    projectedTask sampleBudget 0 projectedEvents trivial hcreate (fun t call hcall => ?_) state
    hobtained
  have hcalls : call = .advance projectedWorker := by
    unfold projectedEvents at hcall
    simp only [List.mem_cons, reduceCtorEq, Revision.Event.save.injEq, List.not_mem_nil, or_false,
      false_or] at hcall
    rcases hcall with ⟨-, h⟩ | ⟨-, h⟩
    · exact h
    · exact h
  subst hcalls
  exact ⟨_, _, rfl⟩

end Sample

end GroundedOps.Investigation
