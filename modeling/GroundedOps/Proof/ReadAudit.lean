import GroundedOps.Lib.Lists
import GroundedOps.Proof.Policy

/-!
# Every decision is exact and audited

* `ReadsExact`: the references a call of `authorize_reads` returned are the readable ones, and
  the events it recorded are one for each distinct reference.
* `readReason`, `readsDone_audited`: what each event gives as the reason.
* `Balanced`: each call of a store, between two logs, left its record; `Unanswered`: all but
  one did.
* `authorizeReads_exact`: **a call returns only if no store failed, and then it is exact.**
-/

namespace GroundedOps

open Hoare

namespace PolicyEnforcer

/-- The principal may read the reference, by an answer of the policy store between the logs. -/
def Allowed (principal : Principal) (log log' : PolicyLog) (reference : DocumentRef) : Prop :=
  principal.known = true ∧ reference.tenantId = principal.tenantId ∧
    ∃ answer policy, log'.answers = log.answers ++ [answer] ∧
      answer.policies reference = some policy ∧ policy.deleted = false ∧
      policy.tenantId = reference.tenantId ∧ policy.documentId = reference.documentId ∧
      policy.documentVersionId = reference.documentVersionId ∧
      (authorize principal
        ⟨policy.tenantId, policy.documentId, "read", policy.policy⟩).allowed = true

/-- The event is the decision on the reference, which `allowed` lists if it is allowed. -/
structure Audits (principal : Principal) (correlationId : String) (allowed : List DocumentRef)
    (reference : DocumentRef) (event : AuthorizationAudit) : Prop where
  tenantId : event.tenantId = principal.tenantId
  principalId : event.principalId = principal.id
  documentId : event.documentId = reference.documentId
  correlationId : event.correlationId = correlationId
  decision : event.allowed = true ↔ reference ∈ allowed

/-- The reason of the decision on a reference: the authorizer's where the read is allowed. -/
def readReason (principal : Principal) (items : List (DocumentRef × AuthorizedDocument))
    (reference : DocumentRef) : AuthorizationReason :=
  match lookupAuthorized items reference with
  | some document => document.decision.reason
  | none =>
    if principal.known = false then .unknownPrincipal
    else if reference.tenantId ≠ principal.tenantId then .crossTenant
    else .policyDenied

/-- The event is the decision on the reference, with its reason. -/
structure Decides (principal : Principal) (correlationId : String)
    (items : List (DocumentRef × AuthorizedDocument)) (reference : DocumentRef)
    (event : AuthorizationAudit) : Prop extends
    Audits principal correlationId (items.map Prod.fst) reference event where
  reason : event.reason = readReason principal items reference

/-- **The result and the events of a call** about `references`. -/
structure ReadsExact (principal : Principal) (references : List DocumentRef)
    (correlationId : String) (log : PolicyLog) (items : List (DocumentRef × AuthorizedDocument))
    (log' : PolicyLog) : Prop where
  distinct : (items.map Prod.fst).Nodup
  keys : ∀ reference, reference ∈ items.map Prod.fst ↔
    reference ∈ references ∧ Allowed principal log log' reference
  audited : ∃ order events, order.Perm (Dict.firsts id references) ∧
    log'.audit = log.audit ++ events ∧
    List.Forall₂ (Audits principal correlationId (items.map Prod.fst)) order events

/-- Each call between the logs left an answer or an event. -/
def Balanced (log log' : PolicyLog) : Prop :=
  log'.calls + (log.answers.length + log.audit.length) =
    log.calls + (log'.answers.length + log'.audit.length)

/-- One call between the logs left nothing: the store raised. -/
def Unanswered (log log' : PolicyLog) : Prop :=
  log'.calls + (log.answers.length + log.audit.length) =
    log.calls + (log'.answers.length + log'.audit.length) + 1

/-- What a call that raised has met: a store that raised, or an identifier of the principal that
the recorder does not take. -/
def Interrupted (principal : Principal) (log log' : PolicyLog) : Prop :=
  Unanswered log log' ∨ principal.tenantId = "" ∨ principal.id = ""

/-! ## The stores -/

section Stores

variable {access : PolicyAccess} {principal : Principal} {reference : DocumentRef}
  {policies : DocumentRef → Option DocumentPolicy} {correlationId : String}
  {log log₁ log₂ : PolicyLog} {references : List DocumentRef} {allowed : Bool}
  {reason : AuthorizationReason}

theorem Balanced.refl (log : PolicyLog) : Balanced log log := rfl

theorem Balanced.trans (h : Balanced log log₁) (h' : Balanced log₁ log₂) : Balanced log log₂ := by
  unfold Balanced at h h' ⊢
  omega

theorem Balanced.interrupted (h : Balanced log log₁) (h' : Interrupted principal log₁ log₂) :
    Interrupted principal log log₂ := by
  refine h'.imp_left fun hun => ?_
  unfold Balanced at h
  unfold Unanswered at hun ⊢
  omega

theorem recordAuthorization_calls :
    wp (recordAuthorization access principal reference allowed reason correlationId)
      (fun _ log' => Balanced log log') (fun _ log' => Interrupted principal log log') log := by
  unfold recordAuthorization
  by_cases hempty : (principal.tenantId.isEmpty || principal.id.isEmpty) = true
  · simp only [hempty, if_true, wp_bind, wp_throw]
    rw [Bool.or_eq_true, String.isEmpty_iff, String.isEmpty_iff] at hempty
    exact Or.inr hempty
  · simp only [hempty, Bool.false_eq_true, if_false, wp_bind, wp_get]
    split
    · simp only [wp_set, Balanced, List.length_append, List.length_singleton]
      omega
    · simp only [wp_bind, wp_set, wp_throw]
      refine Or.inl ?_
      unfold Unanswered
      dsimp only
      omega

theorem getDocumentPolicies_calls {tenantId : String} :
    wp (getDocumentPolicies access tenantId references)
      (fun _ log' => Balanced log log') (fun _ log' => Interrupted principal log log') log := by
  unfold getDocumentPolicies
  simp only [wp_bind, wp_get]
  split
  · simp only [wp_bind, wp_set, wp_throw]
    refine Or.inl ?_
    unfold Unanswered
    dsimp only
    omega
  · simp only [wp_bind, wp_set, wp_pure, Balanced, List.length_append, List.length_singleton]
    omega

theorem recordRefusals_calls : ∀ {references : List DocumentRef} {log : PolicyLog},
    wp (recordRefusals access principal reason correlationId references)
      (fun _ log' => Balanced log log') (fun _ log' => Interrupted principal log log') log := by
  intro references
  induction references with
  | nil => intro log; exact .refl log
  | cons reference references ih =>
    intro log
    rw [recordRefusals, wp_bind]
    refine wp_mono recordAuthorization_calls (fun _ log₁ h₁ => ?_) (fun _ _ h₁ => h₁)
    exact wp_mono ih (fun _ _ h₂ => h₁.trans h₂) (fun _ _ h₂ => h₁.interrupted h₂)

theorem authorizeReference_calls :
    wp (authorizeReference access principal policies correlationId reference)
      (fun _ log' => Balanced log log') (fun _ log' => Interrupted principal log log') log := by
  unfold authorizeReference
  split
  · simp only [wp_bind, wp_pure]
    exact recordAuthorization_calls
  · simp only [wp_bind, wp_pure]
    exact recordAuthorization_calls

theorem authorizeScoped_calls : ∀ {references : List DocumentRef} {log : PolicyLog},
    wp (authorizeScoped access principal policies correlationId references)
      (fun _ log' => Balanced log log') (fun _ log' => Interrupted principal log log') log := by
  intro references
  induction references with
  | nil => intro log; exact .refl log
  | cons reference references ih =>
    intro log
    rw [authorizeScoped, wp_bind]
    refine wp_mono authorizeReference_calls (fun _ log₁ h₁ => ?_) (fun _ _ h₁ => h₁)
    rw [wp_bind]
    refine wp_mono ih (fun _ _ h₂ => ?_) (fun _ _ h₂ => h₁.interrupted h₂)
    rw [wp_pure]
    exact h₁.trans h₂

/-- **No failure of a store is lost**: a call that met one raises. -/
theorem authorizeReads_calls :
    wp (authorizeReads access principal references correlationId)
      (fun _ log' => Balanced log log') (fun _ log' => Interrupted principal log log') log := by
  unfold authorizeReads
  by_cases hknown : principal.known = true
  · simp only [hknown, Bool.not_true, Bool.false_eq_true, if_false, wp_bind]
    refine wp_mono recordRefusals_calls (fun _ log₁ h₁ => ?_) (fun _ _ h₁ => h₁)
    split
    · exact h₁
    · rw [wp_bind]
      refine wp_mono getDocumentPolicies_calls (fun _ log₂ h₂ => ?_)
        (fun _ _ h₂ => h₁.interrupted h₂)
      exact wp_mono authorizeScoped_calls (fun _ _ h₃ => (h₁.trans h₂).trans h₃)
        (fun _ _ h₃ => (h₁.trans h₂).interrupted h₃)
  · rw [Bool.not_eq_true] at hknown
    simp only [hknown, Bool.not_false, if_true, wp_bind, wp_pure]
    exact recordRefusals_calls

end Stores

/-! ## The decisions -/

section Decisions

variable {access : PolicyAccess} {principal : Principal} {reference : DocumentRef}
  {policies : DocumentRef → Option DocumentPolicy} {correlationId : String}
  {log log' : PolicyLog} {references : List DocumentRef} {answer : PolicyAnswer}
  {items : List (DocumentRef × AuthorizedDocument)}

/-- The event allows what the loop allows. -/
theorem readEvent_allowed : (readEvent principal policies correlationId reference).allowed =
    (decideRead principal policies reference).isSome := by
  unfold readEvent decideRead
  cases (policies reference).filter (matchesReference · reference) with
  | none => rfl
  | some policy =>
    simp only [Option.bind_some]
    cases (authorize principal
      ⟨policy.tenantId, policy.documentId, "read", policy.policy⟩).allowed with
    | false => rfl
    | true => rfl

theorem refusalEvent_audits {reason : AuthorizationReason} {allowed : List DocumentRef}
    (h : reference ∉ allowed) : Audits principal correlationId allowed reference
      (refusalEvent principal reason correlationId reference) :=
  ⟨rfl, rfl, rfl, rfl, iff_of_false Bool.false_ne_true h⟩

theorem readEvent_audits {allowed : List DocumentRef}
    (h : (decideRead principal policies reference).isSome = true ↔ reference ∈ allowed) :
    Audits principal correlationId allowed reference
      (readEvent principal policies correlationId reference) := by
  have hevent : (readEvent principal policies correlationId reference).allowed =
      (decideRead principal policies reference).isSome := readEvent_allowed
  rw [← hevent] at h
  unfold readEvent at h ⊢
  split
  · rename_i hnone
    simp only [hnone] at h
    exact ⟨rfl, rfl, rfl, rfl, h⟩
  · rename_i hsome
    simp only [hsome] at h
    exact ⟨rfl, rfl, rfl, rfl, h⟩

/-- A known principal is denied a read of its tenant by the policy. -/
theorem authorize_denied {resource : ResourceAction} (hknown : principal.known = true)
    (htenant : principal.tenantId = resource.tenantId) (haction : resource.action = "read")
    (h : ¬ (authorize principal resource).allowed = true) :
    (authorize principal resource).reason = .policyDenied := by
  have hgrants : ¬ Grants principal resource.policy := fun hgranted =>
    h (authorize_allowed_iff.2 ⟨hknown, htenant, haction, hgranted⟩)
  simp only [Grants, not_or, not_exists, not_and] at hgrants
  obtain ⟨hpublic, hid, hroles, hgroups⟩ := hgrants
  have hrole : (principal.roles.any fun role => decide ("role:" ++ role ∈ resource.policy)) = false :=
    List.any_eq_false.2 fun role hmem => by simpa using hroles role hmem
  have hgroup : (principal.groups.any fun group =>
      decide ("group:" ++ group ∈ resource.policy)) = false :=
    List.any_eq_false.2 fun group hmem => by simpa using hgroups group hmem
  simp only [authorize, hknown, htenant, haction, hpublic, hid, hrole, hgroup, Bool.not_true,
    Bool.false_eq_true, ne_eq, not_true, if_false]

/-- The reason of the event is that of the decision. -/
theorem readEvent_reason (hknown : principal.known = true)
    (htenant : reference.tenantId = principal.tenantId) :
    (readEvent principal policies correlationId reference).reason =
      ((decideRead principal policies reference).map fun document =>
        document.decision.reason).getD .policyDenied := by
  unfold readEvent decideRead
  cases hpolicy : (policies reference).filter (matchesReference · reference) with
  | none => rfl
  | some policy =>
    obtain ⟨-, hmatches⟩ := Option.filter_eq_some_iff.1 hpolicy
    obtain ⟨-, hsame, -, -⟩ := matchesReference_iff.1 hmatches
    rw [Option.bind_some]
    dsimp only
    split
    · rfl
    · rename_i hdenied
      exact authorize_denied hknown (htenant.symm.trans hsame.symm) rfl hdenied

/-- The answer decides a reference of the principal's tenant. -/
theorem decideRead_iff_allowed (hknown : principal.known = true)
    (hanswers : log'.answers = log.answers ++ [answer])
    (htenant : reference.tenantId = principal.tenantId) :
    (decideRead principal answer.policies reference).isSome = true ↔
      Allowed principal log log' reference := by
  rw [Option.isSome_iff_exists]
  constructor
  · rintro ⟨document, hdocument⟩
    obtain ⟨hstored, hmatches, hdecision, hallowed⟩ := decideRead_eq_some.1 hdocument
    obtain ⟨hdeleted, hten, hdoc, hversion⟩ := matchesReference_iff.1 hmatches
    rw [hdecision] at hallowed
    exact ⟨hknown, htenant, answer, document.policy, hanswers, hstored, hdeleted, hten, hdoc,
      hversion, hallowed⟩
  · rintro ⟨-, -, answer', policy, hanswers', hstored, hdeleted, hten, hdoc, hversion, hallowed⟩
    -- the call has one answer
    have hsame : answer' = answer := by
      have hlists := List.append_cancel_left (hanswers'.symm.trans hanswers)
      exact List.singleton_injective hlists
    subst hsame
    refine ⟨⟨policy, _⟩, decideRead_eq_some.2 ⟨hstored, ?_, rfl, hallowed⟩⟩
    exact matchesReference_iff.2 ⟨hdeleted, hten, hdoc, hversion⟩

/-- The references of the other tenants and those of the principal's are all. -/
theorem foreign_append_scoped : (foreignReferences principal references ++
    scopedReferences principal references).Perm (Dict.firsts id references) := by
  have hsplit := List.filter_append_perm
    (fun reference : DocumentRef => decide (reference.tenantId ≠ principal.tenantId))
    (Dict.firsts id references)
  unfold foreignReferences scopedReferences
  simpa only [decide_not, Bool.not_not] using hsplit

theorem not_mem_foreign (h : reference ∈ foreignReferences principal references) :
    reference.tenantId ≠ principal.tenantId := by
  unfold foreignReferences at h
  simpa using (List.mem_filter.1 h).2

theorem mem_scoped : reference ∈ scopedReferences principal references ↔
    reference ∈ references ∧ reference.tenantId = principal.tenantId := by
  unfold scopedReferences
  rw [List.mem_filter, Dict.mem_firsts_id, decide_eq_true_eq]

/-- **The events of a call that returned** are one for each distinct reference, with its decision. -/
theorem readsDone_audited (h : ReadsDone principal references correlationId log items log') :
    ∃ order events, order.Perm (Dict.firsts id references) ∧ log'.audit = log.audit ++ events ∧
      List.Forall₂ (Decides principal correlationId items) order events := by
  cases h with
  | unknown hknown hanswers haudit =>
    refine ⟨_, _, .refl _, haudit, Lists.forall₂_map fun reference _ => ?_⟩
    exact ⟨refusalEvent_audits List.not_mem_nil, by simp [refusalEvent, readReason, hknown,
      lookupAuthorized]⟩
  | foreign hknown hscoped hanswers haudit =>
    have hall : (foreignReferences principal references ++
        scopedReferences principal references).Perm (Dict.firsts id references) :=
      foreign_append_scoped
    rw [hscoped, List.append_nil] at hall
    refine ⟨foreignReferences principal references, _, hall, haudit,
      Lists.forall₂_map fun reference href => ?_⟩
    exact ⟨refusalEvent_audits List.not_mem_nil, by simp [refusalEvent, readReason, hknown,
      lookupAuthorized, not_mem_foreign href]⟩
  | asked answer hknown hanswers htenant hreferences haudit =>
    rw [hreferences, List.append_assoc] at haudit
    have hlookup : ∀ reference, lookupAuthorized (answer.references.filterMap fun reference =>
        (decideRead principal answer.policies reference).map (reference, ·)) reference =
          if reference ∈ scopedReferences principal references then
            decideRead principal answer.policies reference
          else none := fun reference =>
      hreferences ▸ Lists.lookup_filterMap _ answer.references reference
    refine ⟨foreignReferences principal references ++ scopedReferences principal references, _,
      foreign_append_scoped, haudit, ?_⟩
    have hkeys : ∀ reference, reference ∈ (answer.references.filterMap fun reference =>
        (decideRead principal answer.policies reference).map (reference, ·)).map Prod.fst ↔
          reference ∈ scopedReferences principal references ∧
            (decideRead principal answer.policies reference).isSome = true := fun reference => by
      rw [Lists.map_fst_filterMap, List.mem_filter, hreferences]
    refine List.rel_append (Lists.forall₂_map fun reference href => ?_)
      (Lists.forall₂_map fun reference href => ?_)
    · have hout : reference ∉ scopedReferences principal references := fun hin =>
        not_mem_foreign href (mem_scoped.1 hin).2
      refine ⟨refusalEvent_audits fun hin => hout ((hkeys reference).1 hin).1, ?_⟩
      simp [refusalEvent, readReason, hlookup, hout, hknown, not_mem_foreign href]
    · have hsame : reference.tenantId = principal.tenantId := (mem_scoped.1 href).2
      refine ⟨readEvent_audits ⟨fun hdecided => (hkeys reference).2 ⟨href, hdecided⟩,
        fun hin => ((hkeys reference).1 hin).2⟩, ?_⟩
      rw [readEvent_reason hknown hsame, readReason, hlookup, if_pos href]
      cases decideRead principal answer.policies reference with
      | none => simp [hknown, hsame]
      | some document => rfl

/-- **A call that returned is exact.** -/
theorem readsDone_exact (h : ReadsDone principal references correlationId log items log') :
    ReadsExact principal references correlationId log items log' := by
  obtain ⟨order, events, horder, hgained, hdecides⟩ := readsDone_audited h
  have haudited := hdecides.imp fun _ _ hdecided => hdecided.toAudits
  cases h with
  | unknown hknown hanswers haudit =>
    refine ⟨List.nodup_nil, fun reference => ?_, order, events, horder, hgained, haudited⟩
    refine iff_of_false List.not_mem_nil ?_
    rintro ⟨-, hyes, -⟩
    rw [hknown] at hyes
    cases hyes
  | foreign hknown hscoped hanswers haudit =>
    refine ⟨List.nodup_nil, fun reference => ?_, order, events, horder, hgained, haudited⟩
    refine iff_of_false List.not_mem_nil ?_
    rintro ⟨hmem, -, htenant, -⟩
    have hin := mem_scoped.2 ⟨hmem, htenant⟩
    -- no reference is of the principal's tenant
    rw [hscoped] at hin
    cases hin
  | asked answer hknown hanswers htenant hreferences haudit =>
    -- the references that are returned are the scoped ones with a decision
    have hkeys : (answer.references.filterMap fun reference =>
        (decideRead principal answer.policies reference).map (reference, ·)).map Prod.fst =
          (scopedReferences principal references).filter fun reference =>
            (decideRead principal answer.policies reference).isSome := by
      rw [hreferences]
      exact Lists.map_fst_filterMap
    have hdistinct : (Dict.firsts id references).Nodup := Dict.nodup_firsts_id
    refine ⟨?_, fun reference => ?_, order, events, horder, hgained, haudited⟩
    · rw [hkeys]
      exact (hdistinct.filter _).filter _
    · rw [hkeys, List.mem_filter, mem_scoped]
      constructor
      · rintro ⟨⟨hmem, hsame⟩, hdecided⟩
        exact ⟨hmem, (decideRead_iff_allowed hknown hanswers hsame).1 hdecided⟩
      · rintro ⟨hmem, hallowed⟩
        have hsame := hallowed.2.1
        exact ⟨⟨hmem, hsame⟩, (decideRead_iff_allowed hknown hanswers hsame).2 hallowed⟩

end Decisions

/-- **`authorize_reads` is exact and fully audited.** For every principal, references and
stores: where it returns, each store call it made left its record, the keys of the result are
the references that the principal may read by the one answer of the policy store, and there is
one event for each distinct reference, which allows it if and only if it is a key. Where a
store raises, so does the call. -/
theorem authorizeReads_exact (access : PolicyAccess) (principal : Principal)
    (references : List DocumentRef) (correlationId : String) (log : PolicyLog) :
    wp (authorizeReads access principal references correlationId)
      (fun items log' => Balanced log log' ∧
        ReadsExact principal references correlationId log items log')
      (fun _ log' => Interrupted principal log log') log := by
  refine wp_mono (wp_and authorizeReads_calls authorizeReads_spec) (fun items log' h => ?_)
    (fun _ log' h => h.1)
  obtain ⟨hcalls, hdone⟩ := h
  exact ⟨hcalls, readsDone_exact hdone⟩

end PolicyEnforcer

end GroundedOps
