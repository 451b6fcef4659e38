import GroundedOps.Proof.Service

/-!
# One investigation for one key

* `submissions_idempotent`: **in every interleaving of calls, workers and owners, all submissions
  under one key of one owner are about one task, which exactly one call has created and accounts
  for; no submission is answered with the investigation of another owner or another question**,
  for any digest.
* `polls_advance`: **what a later call is answered about an investigation is never behind what an
  earlier one was**, and the report of an investigation is one.
-/

namespace GroundedOps.Investigation

open InvestigationLifecycle

namespace Service

/-- The call has ended. -/
def Ended {St T C : Type} (svc : Service St T C) (c : C) (request : LifecycleRequest)
    (reply : LifecycleReply) : Prop :=
  svc.calls c = some ⟨request, .ended reply⟩

/-- The principals are of one tenant and have one id. -/
def SameOwner (p q : Principal) : Prop := p.tenantId = q.tenantId ∧ p.id = q.id

section Runs

variable {St T C : Type} {store : Revision.Store St String InvestigationState}

theorem init_orderly {update : Revision.Update store WorkflowCall} {sha256 : ByteArray → String}
    {st : St} (hok : store.Ok st) (hempty : ∀ k, store.get st k = none) :
    Orderly update sha256 (Service.init st : Service St T C) where
  chains := Revision.chains_empty hok hempty
  sound c call hcall := by cases hcall
  unique c₁ c₂ call₁ call₂ id hcall₁ := by cases hcall₁
  queued id hid := absurd hid List.not_mem_nil
  accounted id hid := by
    obtain ⟨state, hfind, -⟩ := hid
    exact absurd ((hempty id).symm.trans hfind).symm (Option.some_ne_none state)

theorem workflowUpdate_taskKept (hkey : store.key = InvestigationState.id)
    (hrevision : store.revision = InvestigationState.revision) :
    TaskKept (workflowUpdate store hkey hrevision) :=
  fun _ _ _ happly => (saved_next happly).1

variable {svc : Service St T C} {c c' : C} {call : LifecycleCall}

/-! ## What replies show -/

/-- The second state comes after the first, or is the same. -/
structure Later (state₁ state₂ : InvestigationState) : Prop where
  task : state₂.task = state₁.task
  revision : state₁.revision ≤ state₂.revision
  terminal : state₁.terminal = true → state₂ = state₁

theorem final_of_terminal (hkey : store.key = InvestigationState.id)
    (hrevision : store.revision = InvestigationState.revision) {state : InvestigationState}
    (h : state.terminal = true) : Revision.Final (workflowUpdate store hkey hrevision) state :=
  fun call => saved_terminal h call

theorem later_of_reaches (hkey : store.key = InvestigationState.id)
    (hrevision : store.revision = InvestigationState.revision) {state₁ state₂ : InvestigationState}
    (h : Revision.Reaches (workflowUpdate store hkey hrevision) state₁ state₂) :
    Later state₁ state₂ where
  task := reaches_task (workflowUpdate_taskKept hkey hrevision) h
  revision := h.keeps (P := fun s => state₁.revision ≤ s.revision)
    (fun s call s' hs happly => by
      have hnext : s'.revision = s.revision + 1 := (saved_next happly).2
      omega) le_rfl
  terminal hterminal := h.eq_of_final (final_of_terminal hkey hrevision hterminal)

/-- A reply shows the state. -/
def Shows (state : InvestigationState) : LifecycleReply → Prop
  | .submission shown _ => shown = state
  | .status shown => shown = state
  | _ => False

/-- A state that a call was shown is kept. -/
theorem Orderly.shown {update : Revision.Update store WorkflowCall} {sha256 : ByteArray → String}
    (h : Orderly update sha256 svc) {request : LifecycleRequest} {reply : LifecycleReply}
    {state : InvestigationState} (hended : svc.Ended c request reply) (hshows : Shows state reply) :
    Kept update svc state := by
  have hsound := h.sound c _ hended
  unfold Shows at hshows
  split at hshows
  · subst hshows
    cases request with
    | submit questionText idempotencyKey principal =>
      obtain ⟨hasked, -⟩ : _ ∧ _ := hsound
      exact hasked.1.2.2
    | status id principal => exact False.elim hsound
    | report id principal => exact False.elim hsound
  · subst hshows
    cases request with
    | submit questionText idempotencyKey principal => exact False.elim hsound
    | status id principal =>
      obtain ⟨-, -, hkeep⟩ : OwnedUnder update svc id principal _ := hsound
      exact hkeep
    | report id principal => exact False.elim hsound
  · exact hshows.elim

theorem owned_of_owner {principal : Principal} {found : InvestigationState}
    (h : IsOwner principal found.task) : owned principal (some found) = .ok found :=
  if_pos (ownedBy_iff.2 h)

theorem owned_of_other {principal : Principal} {found : InvestigationState}
    (h : ¬ IsOwner principal found.task) :
    owned principal (some found) = .error .investigationNotFound :=
  if_neg fun howner => h (ownedBy_iff.1 howner)

/-- What has been reported is what is stored. -/
theorem report_stored (hkey : store.key = InvestigationState.id)
    (hrevision : store.revision = InvestigationState.revision) {id : String} {principal : Principal}
    {state : InvestigationState} {report : InvestigationReport} (hreport : state.report = some report)
    (h : OwnedUnder (workflowUpdate store hkey hrevision) svc id principal state) :
    svc.find store id = some state := by
  have hterminal : state.terminal = true := by
    unfold InvestigationState.report at hreport
    split at hreport
    · assumption
    · cases hreport
  obtain ⟨rfl, -, stored, hfind, hreaches⟩ := h
  obtain rfl := hreaches.eq_of_final (final_of_terminal hkey hrevision hterminal)
  exact hfind

/-! ## Runs -/

variable [DecidableEq C]

theorem setPoint_other {point : LifecyclePoint} (hne : c ≠ c') :
    (svc.setPoint c' call point).calls c = svc.calls c :=
  Function.update_of_ne hne _ _

theorem setPoint_self {point : LifecyclePoint} {moved : LifecycleCall}
    (h : (svc.setPoint c call point).calls c = some moved) : moved = ⟨call.request, point⟩ :=
  (Option.some.inj ((Function.update_self c _ _).symm.trans h)).symm

variable [DecidableEq T]

theorem run_orderly (hkey : store.key = InvestigationState.id)
    (hrevision : store.revision = InvestigationState.revision) (hseparate : store.Separate)
    {sha256 : ByteArray → String} {budget : InvestigationBudget}
    (h : Orderly (workflowUpdate store hkey hrevision) sha256 svc) (events : List (ServiceEvent T C)) :
    Orderly (workflowUpdate store hkey hrevision) sha256
      (Machine.run (Service.step (workflowUpdate store hkey hrevision) sha256 budget) svc events) :=
  Machine.run_inv (fun _ e h => step_orderly (workflowUpdate_taskKept hkey hrevision) hseparate hkey
    hrevision h e) h

/-- **Submissions are idempotent.** In every run of any number of calls, workers and owners over an
empty store that keeps its keys apart, and for any digest: each submission that has ended is
`Answered`; two that were accepted under one key of one owner are about the same task, and at most
one of them has not been replayed; every investigation has been created by one call, which has
queued it, is about to, or was told that it could not; and only investigations are queued. -/
theorem submissions_idempotent (hkey : store.key = InvestigationState.id)
    (hrevision : store.revision = InvestigationState.revision) (hseparate : store.Separate)
    (sha256 : ByteArray → String) (budget : InvestigationBudget) (st : St) (hok : store.Ok st)
    (hempty : ∀ k, store.get st k = none) (events : List (ServiceEvent T C)) :
    let update := workflowUpdate store hkey hrevision
    let svc := Machine.run (Service.step update sha256 budget) (Service.init st) events
    (∀ c questionText idempotencyKey principal reply,
      svc.Ended c (.submit questionText idempotencyKey principal) reply →
        Answered update sha256 svc questionText idempotencyKey principal reply) ∧
    (∀ c₁ c₂ questionText₁ questionText₂ idempotencyKey principal₁ principal₂ state₁ state₂
        replayed₁ replayed₂, SameOwner principal₁ principal₂ →
      svc.Ended c₁ (.submit questionText₁ idempotencyKey principal₁)
        (.submission state₁ replayed₁) →
      svc.Ended c₂ (.submit questionText₂ idempotencyKey principal₂)
        (.submission state₂ replayed₂) →
      state₁.task = state₂.task ∧ (replayed₁ = false → replayed₂ = false → c₁ = c₂)) ∧
    (∀ id state, svc.find store id = some state →
      ∃ c call, svc.calls c = some call ∧ Accounts sha256 svc id call) ∧
    ∀ id ∈ svc.queue, ∃ state, svc.find store id = some state := by
  intro update svc
  have horderly : Orderly update sha256 svc :=
    run_orderly hkey hrevision hseparate (init_orderly hok hempty) events
  have hkept : TaskKept update := workflowUpdate_taskKept hkey hrevision
  have hanswered : ∀ c questionText idempotencyKey principal reply,
      svc.Ended c (.submit questionText idempotencyKey principal) reply →
        Answered update sha256 svc questionText idempotencyKey principal reply :=
    fun c questionText idempotencyKey principal reply hended => horderly.sound c _ hended
  refine ⟨hanswered, ?_, fun id state hfind => horderly.accounted id ⟨state, hfind, trivial⟩,
    fun id hid => ?_⟩
  · intro c₁ c₂ questionText₁ questionText₂ idempotencyKey principal₁ principal₂ state₁ state₂
      replayed₁ replayed₂ hsame hended₁ hended₂
    obtain ⟨hasked₁, -⟩ : _ ∧ _ := hanswered _ _ _ _ _ hended₁
    obtain ⟨hasked₂, -⟩ : _ ∧ _ := hanswered _ _ _ _ _ hended₂
    have hid : investigationId sha256 principal₁ idempotencyKey =
        investigationId sha256 principal₂ idempotencyKey := by
      unfold investigationId
      rw [hsame.1, hsame.2]
    refine ⟨?_, fun hnew₁ hnew₂ => ?_⟩
    · have hknown₁ := hasked₁.known hkept
      rw [hid] at hknown₁
      obtain ⟨task, ⟨htask₁, -⟩, htask₂, -⟩ := hknown₁.functional (hasked₂.known hkept)
      exact htask₁.symm.trans htask₂
    · subst hnew₁ hnew₂
      have hids : state₁.id = state₂.id := hasked₁.1.1.trans (hid.trans hasked₂.1.1.symm)
      exact horderly.unique c₁ c₂ _ _ state₂.id hended₁ hended₂ (congrArg some hids) rfl
  · obtain ⟨state, hfind, -⟩ := horderly.queued id hid
    exact ⟨state, hfind⟩

/-! ## Polling -/

/-- What a call may have been answered about the investigation since it was `before`. -/
def Advanced (update : Revision.Update store WorkflowCall) (before : InvestigationState)
    (call : LifecycleCall) : Prop :=
  match call.request with
  | .submit _ _ _ => True
  | .status id principal => id = before.id → call.point = .status ∨
      ∃ found, Revision.Reaches update before found ∧
        call.point = .ended (statusReply principal (some found))
  | .report id principal => id = before.id → call.point = .reportOwned ∨
      ∃ found, Revision.Reaches update before found ∧
        (call.point = reportPoint principal (some found) ∨
          IsOwner principal before.task ∧ call.point = .ended (reportReply (some found)))

section Advanced

/-- The store and the queue after a step. -/
theorem step_since {update : Revision.Update store WorkflowCall} {sha256 : ByteArray → String}
    {budget : InvestigationBudget} (hseparate : store.Separate)
    (hchains : Revision.Chains update svc.investigations) (e : ServiceEvent T C) :
    Since update svc (svc.step update sha256 budget e) := by
  cases e with
  | get thread id => exact since_access hseparate hchains (.get thread id) rfl rfl
  | save thread call => exact since_access hseparate hchains (.save thread call) rfl rfl
  | receive c request =>
    unfold Service.step
    dsimp only
    split
    · exact since_setPoint
    · exact .refl
  | proceed c clock enqueued =>
    unfold Service.step
    dsimp only
    split
    · exact .refl
    · unfold Service.proceed
      split
      · unfold Service.start
        cases clock with
        | none => exact since_setPoint
        | some now =>
          dsimp only
          split
          · exact since_setPoint
          · exact since_access hseparate hchains (.create _) rfl rfl
      · exact since_setPoint
      · refine ⟨fun _ state h => ⟨state, h, .refl⟩, fun id hid => ?_⟩
        unfold Service.enqueue Service.setPoint
        dsimp only
        split
        · exact hid
        · exact List.mem_append_left _ hid
      · exact since_setPoint
      · exact since_setPoint
      · exact since_setPoint
      · exact .refl

theorem run_since (hseparate : store.Separate) (hkey : store.key = InvestigationState.id)
    (hrevision : store.revision = InvestigationState.revision) {sha256 : ByteArray → String}
    {budget : InvestigationBudget} {events : List (ServiceEvent T C)}
    (h : Orderly (workflowUpdate store hkey hrevision) sha256 svc) :
    Since (workflowUpdate store hkey hrevision) svc
      (Machine.run (Service.step (workflowUpdate store hkey hrevision) sha256 budget) svc events) := by
  refine (Machine.run_inv (I := fun after : Service St T C =>
    Orderly (workflowUpdate store hkey hrevision) sha256 after ∧
      Since (workflowUpdate store hkey hrevision) svc after)
    (fun after e h => ⟨step_orderly (workflowUpdate_taskKept hkey hrevision) hseparate hkey
      hrevision h.1 e, ?_⟩) ⟨h, .refl⟩).2
  exact h.2.trans (step_since hseparate h.1.chains e)

variable {update : Revision.Update store WorkflowCall} {sha256 : ByteArray → String}
  {budget : InvestigationBudget} {before : InvestigationState}

theorem proceed_other {clock : Option ℤ} {enqueued : Enqueued} (hne : c ≠ c') :
    (svc.proceed update budget c' call clock enqueued).calls c = svc.calls c := by
  unfold Service.proceed
  split
  · unfold Service.start
    cases clock with
    | none => exact setPoint_other hne
    | some now =>
      dsimp only
      split
      · exact setPoint_other hne
      · exact Function.update_of_ne hne _ _
  · exact setPoint_other hne
  · exact Function.update_of_ne hne _ _
  · exact setPoint_other hne
  · exact setPoint_other hne
  · exact setPoint_other hne
  · rfl

/-- A call is about the same to its end. -/
theorem proceed_request {clock : Option ℤ} {enqueued : Enqueued} {moved : LifecycleCall}
    (hcall : svc.calls c = some call)
    (h : (svc.proceed update budget c call clock enqueued).calls c = some moved) :
    moved.request = call.request := by
  have hset : ∀ {svc : Service St T C} {point : LifecyclePoint},
      (svc.setPoint c call point).calls c = some moved → moved.request = call.request := by
    intro svc point hpoint
    rw [setPoint_self hpoint]
  unfold Service.proceed at h
  split at h
  · unfold Service.start at h
    cases clock with
    | none => exact hset h
    | some now =>
      dsimp only at h
      split at h
      · exact hset h
      · exact hset h
  · exact hset h
  · exact hset h
  · exact hset h
  · exact hset h
  · exact hset h
  · rw [Option.some.inj (h.symm.trans hcall)]

/-- Only the owner comes to the report. -/
theorem reportPoint_owner {principal : Principal} {found : InvestigationState}
    (h : reportPoint principal (some found) = .report) : IsOwner principal found.task := by
  unfold reportPoint at h
  split at h
  · cases h
  · rename_i state howned
    obtain ⟨hsame, howner⟩ := owned_ok howned
    obtain rfl := Option.some.inj hsame
    exact howner

/-- **A call keeps to what the store has held since.** -/
theorem step_advanced (hkept : TaskKept update) (hbefore : Kept update svc before)
    (h : ∀ call, svc.calls c = some call → Advanced update before call) (e : ServiceEvent T C) :
    ∀ call, (svc.step update sha256 budget e).calls c = some call → Advanced update before call := by
  obtain ⟨found, hfound, hreaches⟩ := hbefore
  cases e with
  | get thread id => exact h
  | save thread call => exact h
  | receive c' request =>
    intro call hcall
    unfold Service.step at hcall
    dsimp only at hcall
    split at hcall
    · by_cases hc : c = c'
      · subst hc
        have hnew : (⟨request, received sha256 request⟩ : LifecycleCall) = call :=
          Option.some.inj ((Function.update_self c _ _).symm.trans hcall)
        subst hnew
        cases request with
        | submit questionText idempotencyKey principal => trivial
        | status id principal => exact fun _ => .inl rfl
        | report id principal => exact fun _ => .inl rfl
      · rw [setPoint_other hc] at hcall
        exact h call hcall
    · exact h call hcall
  | proceed c' clock enqueued =>
    intro call hcall
    unfold Service.step at hcall
    dsimp only at hcall
    split at hcall
    · exact h call hcall
    · rename_i old hold
      by_cases hc : c = c'
      · subst hc
        have hadvanced := h old hold
        obtain ⟨request, point⟩ := old
        cases request with
        | submit questionText idempotencyKey principal =>
          unfold Advanced
          rw [proceed_request hold hcall]
          trivial
        | status id principal =>
          cases point with
          | status =>
            obtain rfl := setPoint_self hcall
            intro hid
            exact .inr ⟨found, hreaches, by rw [← hfound, ← hid]⟩
          | start task => exact h call hcall
          | replay id => exact h call hcall
          | enqueue id state replayed => exact h call hcall
          | reportOwned => exact h call hcall
          | report => exact h call hcall
          | ended reply => exact h call hcall
        | report id principal =>
          cases point with
          | reportOwned =>
            obtain rfl := setPoint_self hcall
            intro hid
            exact .inr ⟨found, hreaches, .inl (by rw [← hfound, ← hid])⟩
          | report =>
            obtain rfl := setPoint_self hcall
            intro hid
            have howner : IsOwner principal before.task := by
              rcases hadvanced hid with hpoint | ⟨read, hread, hpoint | ⟨howner, -⟩⟩
              · cases hpoint
              · have howner := reportPoint_owner hpoint.symm
                rw [reaches_task hkept hread] at howner
                exact howner
              · exact howner
            exact .inr ⟨found, hreaches, .inr ⟨howner, by rw [← hfound, ← hid]⟩⟩
          | start task => exact h call hcall
          | replay id => exact h call hcall
          | enqueue id state replayed => exact h call hcall
          | status => exact h call hcall
          | ended reply => exact h call hcall
      · rw [proceed_other hc] at hcall
        exact h call hcall

end Advanced

/-- **Polls advance.** In every run of calls, workers and owners: let a call have shown a state of an
investigation before another call about it is received. Then the other is answered with a later state,
or with the report of a later state, if it is of the owner, and otherwise as if the investigation did
not exist; and all reports of one investigation are the same. -/
theorem polls_advance (hkey : store.key = InvestigationState.id)
    (hrevision : store.revision = InvestigationState.revision) (hseparate : store.Separate)
    (sha256 : ByteArray → String) (budget : InvestigationBudget) (st : St) (hok : store.Ok st)
    (hempty : ∀ k, store.get st k = none) (events more : List (ServiceEvent T C)) :
    let update := workflowUpdate store hkey hrevision
    let svc := Machine.run (Service.step update sha256 budget) (Service.init st) events
    let svc' := Machine.run (Service.step update sha256 budget) svc more
    (∀ c c' request reply before, svc.Ended c request reply → Shows before reply →
      svc.calls c' = none → ∀ principal answer,
        (svc'.Ended c' (.status before.id principal) answer →
          (IsOwner principal before.task → ∃ after, answer = .status after ∧ Later before after) ∧
          (¬ IsOwner principal before.task → answer = .raised .investigationNotFound)) ∧
        (svc'.Ended c' (.report before.id principal) answer →
          (IsOwner principal before.task →
            ∃ after, answer = reportReply (some after) ∧ Later before after) ∧
          (¬ IsOwner principal before.task → answer = .raised .investigationNotFound))) ∧
    ∀ c c' id principal principal' report report',
      svc.Ended c (.report id principal) (.report report) →
      svc'.Ended c' (.report id principal') (.report report') → report = report' := by
  intro update svc svc'
  have hkept : TaskKept update := workflowUpdate_taskKept hkey hrevision
  have horderly : Orderly update sha256 svc :=
    run_orderly hkey hrevision hseparate (init_orderly hok hempty) events
  have horderly' : Orderly update sha256 svc' := run_orderly hkey hrevision hseparate horderly more
  refine ⟨fun c c' request reply before hended hshows hnew principal answer => ?_,
    fun c c' id principal principal' report report' hended hended' => ?_⟩
  · -- what the second call may be answered is an invariant of the rest of the run
    have hadvanced : ∀ call, svc'.calls c' = some call → Advanced update before call := by
      refine (Machine.run_inv (I := fun svc : Service St T C => Orderly update sha256 svc ∧
        Kept update svc before ∧ ∀ call, svc.calls c' = some call → Advanced update before call)
        (fun svc e h => ⟨step_orderly hkept hseparate hkey hrevision h.1 e, ?_,
          step_advanced hkept h.2.1 h.2.2 e⟩)
        ⟨horderly, horderly.shown hended hshows, fun call hcall => ?_⟩).2.2
      · exact h.2.1.mono (step_since hseparate h.1.chains e)
      · rw [hnew] at hcall
        cases hcall
    refine ⟨fun hended' => ?_, fun hended' => ?_⟩
    · obtain hpoint | ⟨found, hreaches, hpoint⟩ := hadvanced _ hended' rfl
      · cases hpoint
      · have hlater : Later before found := later_of_reaches hkey hrevision hreaches
        cases hpoint
        rw [← hlater.task]
        refine ⟨fun howner => ⟨found, ?_, hlater⟩, fun hother => ?_⟩
        · unfold statusReply
          rw [owned_of_owner howner]
        · unfold statusReply
          rw [owned_of_other hother]
    · obtain hpoint | ⟨found, hreaches, hpoint⟩ := hadvanced _ hended' rfl
      · cases hpoint
      · have hlater : Later before found := later_of_reaches hkey hrevision hreaches
        rcases hpoint with hpoint | ⟨howner, hpoint⟩
        · have hother : ¬ IsOwner principal found.task := by
            intro howner
            unfold reportPoint at hpoint
            rw [owned_of_owner howner] at hpoint
            cases hpoint
          unfold reportPoint at hpoint
          rw [owned_of_other hother] at hpoint
          cases hpoint
          rw [← hlater.task]
          exact ⟨fun howner => absurd howner hother, fun _ => rfl⟩
        · cases hpoint
          exact ⟨fun _ => ⟨found, rfl, hlater⟩, fun hother => absurd howner hother⟩
  · have hsince : Since update svc svc' := run_since hseparate hkey hrevision horderly
    obtain ⟨first, hfirst, hown⟩ : ∃ state, _ ∧ _ := horderly.sound c _ hended
    obtain ⟨second, hsecond, hown'⟩ : ∃ state, _ ∧ _ := horderly'.sound c' _ hended'
    have hstored : svc'.find store id = some first :=
      report_stored hkey hrevision hfirst (hown.mono hsince)
    have hstored' : svc'.find store id = some second := report_stored hkey hrevision hsecond hown'
    obtain rfl := Option.some.inj (hstored.symm.trans hstored')
    exact Option.some.inj (hfirst.symm.trans hsecond)

end Runs

/-! ## Two submissions at once -/

/-- Every message has one digest. -/
def sampleDigest (_ : ByteArray) : String := "digest"

def samplePrincipal : Principal := { id := "p-1", tenantId := "t-1", roles := [], groups := [] }

def sampleSubmit : LifecycleRequest := .submit "why" "key" samplePrincipal

/-- What the first submission creates. -/
def sampleCreated : InvestigationState :=
  .queued
    { id := "inv-digest"
      question := ⟨"question-inv-digest", "why", by decide +kernel⟩
      principal := samplePrincipal
      valid := by decide +kernel }
    sampleBudget 0

/-- The second of two submissions is queued first; another principal has the same digest. -/
def sampleCalls : List (ServiceEvent ℕ ℕ) := [
  .receive 0 sampleSubmit, .receive 1 sampleSubmit,
  .receive 2 (.submit "why" "key" { samplePrincipal with id := "p-2" }),
  .proceed 0 (some 0) .accepted, .proceed 1 (some 1) .accepted, .proceed 2 (some 2) .accepted,
  .proceed 1 (some 3) .accepted, .proceed 2 (some 4) .accepted, .proceed 1 (some 5) .accepted,
  .proceed 0 (some 6) .accepted]

def sampleStep : Service InMemoryInvestigationStore.States ℕ ℕ → ServiceEvent ℕ ℕ →
    Service InMemoryInvestigationStore.States ℕ ℕ :=
  Service.step (workflowUpdate inMemoryStore rfl rfl) sampleDigest sampleBudget

def sampleService : Service InMemoryInvestigationStore.States ℕ ℕ :=
  Machine.run sampleStep (Service.init fun _ => none) sampleCalls

theorem sampleService_first : sampleService.Ended 0 sampleSubmit (.submission sampleCreated false) := by
  have hcall : sampleService.calls 0 =
      some ⟨sampleSubmit, .ended (.submission sampleCreated false)⟩ := by decide +kernel
  exact hcall

theorem submissions_idempotent_twice :
    sampleService.Ended 1 sampleSubmit (.submission sampleCreated true) ∧
      sampleService.queue = ["inv-digest", "inv-digest"] ∧
      ∀ c state, sampleService.Ended c sampleSubmit (.submission state false) → c = 0 := by
  have hcall : sampleService.calls 1 =
      some ⟨sampleSubmit, .ended (.submission sampleCreated true)⟩ := by decide +kernel
  refine ⟨hcall, by decide +kernel, fun c state hended => ?_⟩
  obtain ⟨-, hunique, -⟩ := submissions_idempotent rfl rfl inMemoryStore_separate sampleDigest
    sampleBudget (fun _ => none) trivial (fun _ => rfl) sampleCalls
  exact (hunique c 0 _ _ _ _ _ _ _ _ _ ⟨rfl, rfl⟩ hended sampleService_first).2 rfl rfl

/-- A worker plans, and then both owners ask. -/
def samplePolls : List (ServiceEvent ℕ ℕ) := [
  .get 0 "inv-digest", .save 0 (.advance (sampleWorker fun _ => some 0)),
  .receive 3 (.status "inv-digest" samplePrincipal), .proceed 3 none .refused,
  .receive 4 (.status "inv-digest" { samplePrincipal with id := "p-2" }), .proceed 4 none .refused]

def samplePolled : Service InMemoryInvestigationStore.States ℕ ℕ :=
  Machine.run sampleStep sampleService samplePolls

theorem polls_advance_planned :
    (∃ after, samplePolled.Ended 3 (.status "inv-digest" samplePrincipal) (.status after) ∧
      (samplePolled.find inMemoryStore "inv-digest").map InvestigationState.revision = some 1 ∧
      Later sampleCreated after) ∧
    samplePolled.Ended 4 (.status "inv-digest" { samplePrincipal with id := "p-2" })
      (.raised .investigationNotFound) := by
  obtain ⟨hpolls, -⟩ := polls_advance rfl rfl inMemoryStore_separate sampleDigest sampleBudget
    (fun _ => none) trivial (fun _ => rfl) sampleCalls samplePolls
  have howner : samplePolled.calls 3 = some ⟨.status "inv-digest" samplePrincipal,
      .ended (statusReply samplePrincipal (samplePolled.find inMemoryStore "inv-digest"))⟩ := by
    decide +kernel
  have hother : samplePolled.calls 4 = some ⟨.status "inv-digest" { samplePrincipal with id := "p-2" },
      .ended (statusReply { samplePrincipal with id := "p-2" }
        (samplePolled.find inMemoryStore "inv-digest"))⟩ := by decide +kernel
  refine ⟨?_, ?_⟩
  · obtain ⟨after, hafter, hlater⟩ := ((hpolls 0 3 _ _ sampleCreated sampleService_first rfl
      (by decide +kernel) samplePrincipal _).1 howner).1 ⟨rfl, rfl⟩
    rw [hafter] at howner
    exact ⟨after, howner, by decide +kernel, hlater⟩
  · have hanswer := ((hpolls 0 4 _ _ sampleCreated sampleService_first rfl (by decide +kernel) _
      _).1 hother).2 fun h => absurd h.2 (by decide)
    rw [hanswer] at hother
    exact hother

end Service

end GroundedOps.Investigation
