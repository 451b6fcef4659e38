import GroundedOps.Spec.Policy

/-!
# What the enforcer lets through

* `authorize_allowed_iff`: the authorizer allows exactly the reads of a known principal,
  inside its tenant, that the policy `Grants`.
* `authorizeReads_spec`: a call that returns asked the store once, about the references of
  the principal's tenant, returned those that `decideRead` allows under the answer, and
  recorded one event for each distinct reference.
* `readsDone_readable`: **every reference it returned is `Readable`**, by an answer of the
  store in that call.
-/

namespace GroundedOps

open Hoare

/-- The policy lets the principal in: it is public, or names the principal, a role or a group
of the principal. -/
def Grants (principal : Principal) (policy : List String) : Prop :=
  "public" ∈ policy ∨ "principal:" ++ principal.id ∈ policy ∨
    (∃ role ∈ principal.roles, "role:" ++ role ∈ policy) ∨
    ∃ group ∈ principal.groups, "group:" ++ group ∈ policy

/-- **The authorizer allows a read exactly when the policy grants it**, to a known principal
of the resource's tenant. -/
theorem authorize_allowed_iff {principal : Principal} {resource : ResourceAction} :
    (authorize principal resource).allowed = true ↔
      principal.known = true ∧ principal.tenantId = resource.tenantId ∧
        resource.action = "read" ∧ Grants principal resource.policy := by
  unfold authorize Grants
  by_cases hk : principal.known = true
  · by_cases ht : principal.tenantId = resource.tenantId
    · by_cases ha : resource.action = "read"
      · by_cases hpub : "public" ∈ resource.policy
        · simp [hk, ht, ha, hpub]
        · by_cases hid : "principal:" ++ principal.id ∈ resource.policy
          · simp [hk, ht, ha, hpub, hid]
          · simp only [hk, ht, ha, hpub, hid, if_false, ne_eq, not_true, Bool.not_true,
              Bool.false_eq_true, List.any_eq_true, decide_eq_true_eq, true_and, false_or]
            split
            · rename_i hrole; simp only [hrole, true_or]
            · rename_i hrole
              split
              · rename_i hgroup; simp only [hgroup, or_true]
              · rename_i hgroup; simp only [hrole, hgroup, or_self, Bool.false_eq_true]
      · simp [hk, ht, ha]
    · simp [hk, ht]
  · simp [hk]

/-! ## The decision on one reference -/

namespace PolicyEnforcer

/-- What the loop decides for a reference of the principal's tenant. -/
def decideRead (principal : Principal) (policies : DocumentRef → Option DocumentPolicy)
    (reference : DocumentRef) : Option AuthorizedDocument :=
  ((policies reference).filter (matchesReference · reference)).bind fun policy =>
    let decision := authorize principal ⟨policy.tenantId, policy.documentId, "read", policy.policy⟩
    if decision.allowed then some ⟨policy, decision⟩ else none

/-- The event it records for that reference. -/
def readEvent (principal : Principal) (policies : DocumentRef → Option DocumentPolicy)
    (correlationId : String) (reference : DocumentRef) : AuthorizationAudit :=
  match (policies reference).filter (matchesReference · reference) with
  | none =>
    ⟨principal.tenantId, principal.id, reference.documentId, false, .policyDenied, correlationId⟩
  | some policy =>
    let decision := authorize principal ⟨policy.tenantId, policy.documentId, "read", policy.policy⟩
    ⟨principal.tenantId, principal.id, reference.documentId, decision.allowed, decision.reason,
      correlationId⟩

def refusalEvent (principal : Principal) (reason : AuthorizationReason) (correlationId : String)
    (reference : DocumentRef) : AuthorizationAudit :=
  ⟨principal.tenantId, principal.id, reference.documentId, false, reason, correlationId⟩

/-- The references of the principal's tenant, each once. -/
def scopedReferences (principal : Principal) (references : List DocumentRef) : List DocumentRef :=
  (Dict.firsts id references).filter fun reference => reference.tenantId = principal.tenantId

/-- The references of other tenants, each once. -/
def foreignReferences (principal : Principal) (references : List DocumentRef) : List DocumentRef :=
  (Dict.firsts id references).filter fun reference => reference.tenantId ≠ principal.tenantId

/-- The document was answered for by the store, under a policy that lets the principal in. -/
structure Readable (principal : Principal) (answer : PolicyAnswer) (reference : DocumentRef)
    (policy : DocumentPolicy) : Prop where
  known : principal.known = true
  asked : reference ∈ answer.references
  tenant : answer.tenantId = principal.tenantId
  sameTenant : reference.tenantId = principal.tenantId
  answered : answer.policies reference = some policy
  notDeleted : policy.deleted = false
  policyTenant : policy.tenantId = reference.tenantId
  policyDocument : policy.documentId = reference.documentId
  policyVersion : policy.documentVersionId = reference.documentVersionId
  grants : Grants principal policy.policy

variable {access : PolicyAccess} {principal : Principal} {reference : DocumentRef}
  {policies : DocumentRef → Option DocumentPolicy} {correlationId : String} {log : PolicyLog}
  {document : AuthorizedDocument} {references : List DocumentRef} {allowed : Bool}
  {reason : AuthorizationReason}

theorem matchesReference_iff {policy : DocumentPolicy} : matchesReference policy reference = true ↔
    policy.deleted = false ∧ policy.tenantId = reference.tenantId ∧
      policy.documentId = reference.documentId ∧
      policy.documentVersionId = reference.documentVersionId := by
  simp [matchesReference, and_assoc]

theorem decideRead_eq_some : decideRead principal policies reference = some document ↔
    policies reference = some document.policy ∧
      matchesReference document.policy reference = true ∧
      document.decision = authorize principal
        ⟨document.policy.tenantId, document.policy.documentId, "read", document.policy.policy⟩ ∧
      document.decision.allowed = true := by
  unfold decideRead
  rw [Option.bind_eq_some_iff]
  constructor
  · rintro ⟨policy, hpolicy, hdecision⟩
    obtain ⟨hstored, hmatches⟩ := Option.filter_eq_some_iff.1 hpolicy
    simp only at hdecision
    split at hdecision
    · rename_i hallowed
      cases hdecision
      exact ⟨hstored, hmatches, rfl, hallowed⟩
    · cases hdecision
  · rintro ⟨hstored, hmatches, hdecision, hallowed⟩
    refine ⟨document.policy, Option.filter_eq_some_iff.2 ⟨hstored, hmatches⟩, ?_⟩
    simp only [← hdecision, hallowed, if_true]

/-- A reference that is decided under an answer of the store is readable. -/
theorem decideRead_readable {answer : PolicyAnswer} (htenant : answer.tenantId = principal.tenantId)
    (hasked : reference ∈ answer.references)
    (hdoc : decideRead principal answer.policies reference = some document) :
    Readable principal answer reference document.policy := by
  obtain ⟨hstored, hmatches, hdecision, hallowed⟩ := decideRead_eq_some.1 hdoc
  obtain ⟨hdel, hten, hid, hver⟩ := matchesReference_iff.1 hmatches
  rw [hdecision] at hallowed
  obtain ⟨hknown, hsame, -, hgrants⟩ := authorize_allowed_iff.1 hallowed
  exact ⟨hknown, hasked, htenant, hten.symm.trans hsame.symm, hstored, hdel, hten, hid, hver, hgrants⟩

/-! ## The calls -/

theorem recordAuthorization_spec :
    wp (recordAuthorization access principal reference allowed reason correlationId)
      (fun _ log' => log'.answers = log.answers ∧ log'.audit = log.audit ++
        [⟨principal.tenantId, principal.id, reference.documentId, allowed, reason, correlationId⟩])
      (fun _ log' => log'.answers = log.answers) log := by
  unfold recordAuthorization
  by_cases hempty : (principal.tenantId.isEmpty || principal.id.isEmpty) = true
  · simp [hempty]
  · simp only [hempty, Bool.false_eq_true, if_false, wp_bind, wp_get]
    split <;> simp

theorem recordRefusals_spec : ∀ {references : List DocumentRef} {log : PolicyLog},
    wp (recordRefusals access principal reason correlationId references)
      (fun _ log' => log'.answers = log.answers ∧
        log'.audit = log.audit ++ references.map (refusalEvent principal reason correlationId))
      (fun _ log' => log'.answers = log.answers) log := by
  intro references
  induction references with
  | nil => intro log; simp [recordRefusals]
  | cons reference references ih =>
    intro log
    unfold recordRefusals
    rw [wp_bind]
    refine wp_mono recordAuthorization_spec (fun _ log₁ h₁ => ?_) (fun _ _ h₁ => h₁)
    obtain ⟨hanswers, haudit⟩ := h₁
    refine wp_mono ih (fun _ log₂ h₂ => ?_) (fun _ _ h₂ => h₂.trans hanswers)
    exact ⟨h₂.1.trans hanswers, by rw [h₂.2, haudit]; simp [refusalEvent]⟩

theorem getDocumentPolicies_spec {tenantId : String} :
    wp (getDocumentPolicies access tenantId references)
      (fun policies log' => log'.answers = log.answers ++ [⟨tenantId, references, policies⟩] ∧
        log'.audit = log.audit)
      (fun _ log' => log'.answers = log.answers) log := by
  unfold getDocumentPolicies
  simp only [wp_bind, wp_get]
  split <;> simp

theorem authorizeReference_spec :
    wp (authorizeReference access principal policies correlationId reference)
      (fun document log' => document = decideRead principal policies reference ∧
        log'.answers = log.answers ∧
        log'.audit = log.audit ++ [readEvent principal policies correlationId reference])
      (fun _ log' => log'.answers = log.answers) log := by
  unfold authorizeReference decideRead readEvent
  cases (policies reference).filter (matchesReference · reference) with
  | none =>
    simp only [wp_bind, wp_pure]
    exact wp_mono recordAuthorization_spec (fun _ _ h => ⟨rfl, h⟩) (fun _ _ h => h)
  | some policy =>
    simp only [wp_bind, wp_pure]
    exact wp_mono recordAuthorization_spec (fun _ _ h => ⟨rfl, h⟩) (fun _ _ h => h)

theorem authorizeScoped_spec : ∀ {references : List DocumentRef} {log : PolicyLog},
    wp (authorizeScoped access principal policies correlationId references)
      (fun items log' =>
        items = references.filterMap (fun reference =>
          (decideRead principal policies reference).map (reference, ·)) ∧
        log'.answers = log.answers ∧
        log'.audit = log.audit ++ references.map (readEvent principal policies correlationId))
      (fun _ log' => log'.answers = log.answers) log := by
  intro references
  induction references with
  | nil => intro log; simp [authorizeScoped]
  | cons reference references ih =>
    intro log
    unfold authorizeScoped
    rw [wp_bind]
    refine wp_mono authorizeReference_spec (fun document log₁ h₁ => ?_) (fun _ _ h₁ => h₁)
    obtain ⟨hdocument, hanswers, haudit⟩ := h₁
    rw [wp_bind]
    refine wp_mono ih (fun items log₂ h₂ => ?_) (fun _ _ h₂ => h₂.trans hanswers)
    obtain ⟨hitems, hanswers₂, haudit₂⟩ := h₂
    rw [wp_pure]
    refine ⟨?_, hanswers₂.trans hanswers, by rw [haudit₂, haudit]; simp⟩
    rw [hitems, hdocument, List.filterMap_cons]
    cases decideRead principal policies reference <;> rfl

/-- What a call of `authorize_reads` that returned has done: nothing was asked of the store,
or one question about the references of the principal's tenant. -/
inductive ReadsDone (principal : Principal) (references : List DocumentRef)
    (correlationId : String) (log : PolicyLog) :
    List (DocumentRef × AuthorizedDocument) → PolicyLog → Prop
  | unknown {log' : PolicyLog} (hknown : principal.known = false)
      (hanswers : log'.answers = log.answers)
      (haudit : log'.audit = log.audit ++
        (Dict.firsts id references).map (refusalEvent principal .unknownPrincipal correlationId)) :
      ReadsDone principal references correlationId log [] log'
  | foreign {log' : PolicyLog} (hknown : principal.known = true)
      (hscoped : scopedReferences principal references = [])
      (hanswers : log'.answers = log.answers)
      (haudit : log'.audit = log.audit ++ (foreignReferences principal references).map
        (refusalEvent principal .crossTenant correlationId)) :
      ReadsDone principal references correlationId log [] log'
  | asked {log' : PolicyLog} (answer : PolicyAnswer) (hknown : principal.known = true)
      (hanswers : log'.answers = log.answers ++ [answer])
      (htenant : answer.tenantId = principal.tenantId)
      (hreferences : answer.references = scopedReferences principal references)
      (haudit : log'.audit = log.audit ++ (foreignReferences principal references).map
        (refusalEvent principal .crossTenant correlationId) ++
        answer.references.map (readEvent principal answer.policies correlationId)) :
      ReadsDone principal references correlationId log
        (answer.references.filterMap fun reference =>
          (decideRead principal answer.policies reference).map (reference, ·)) log'

/-- **`authorize_reads` is exact and audited**; one that raises has forgotten no answer. -/
theorem authorizeReads_spec :
    wp (authorizeReads access principal references correlationId)
      (ReadsDone principal references correlationId log)
      (fun _ log' => log.answers <+: log'.answers) log := by
  unfold authorizeReads
  by_cases hknown : principal.known = true
  · simp only [hknown, Bool.not_true, Bool.false_eq_true, if_false, wp_bind]
    refine wp_mono recordRefusals_spec (fun _ log₁ h₁ => ?_) (fun _ _ h₁ => by rw [h₁])
    obtain ⟨hanswers₁, haudit₁⟩ := h₁
    by_cases hscoped : scopedReferences principal references = []
    · have hempty : (List.filter (fun reference => decide (reference.tenantId = principal.tenantId))
          (Dict.firsts id references)).isEmpty = true := by
        rw [List.isEmpty_iff]; exact hscoped
      rw [if_pos hempty, wp_pure]
      exact .foreign hknown hscoped hanswers₁ haudit₁
    · have hne : ¬ (List.filter (fun reference => decide (reference.tenantId = principal.tenantId))
          (Dict.firsts id references)).isEmpty = true := by
        rw [List.isEmpty_iff]; exact hscoped
      rw [if_neg hne]
      simp only [wp_bind]
      refine wp_mono getDocumentPolicies_spec (fun policies log₂ h₂ => ?_)
        (fun _ _ h₂ => by rw [h₂, hanswers₁])
      obtain ⟨hanswers₂, haudit₂⟩ := h₂
      have hkept : log.answers <+: log₂.answers := by
        rw [hanswers₂, hanswers₁]; exact List.prefix_append _ _
      refine wp_mono authorizeScoped_spec (fun items log₃ h₃ => ?_) (fun _ _ h₃ => h₃ ▸ hkept)
      obtain ⟨rfl, hanswers₃, haudit₃⟩ := h₃
      refine .asked ⟨_, _, policies⟩ hknown ?_ rfl rfl ?_
      · rw [hanswers₃, hanswers₂, hanswers₁]
      · rw [haudit₃, haudit₂, haudit₁]; rfl
  · rw [Bool.not_eq_true] at hknown
    simp only [hknown, Bool.not_false, if_true, wp_bind, wp_pure]
    exact wp_mono recordRefusals_spec (fun _ log₁ h₁ => .unknown hknown h₁.1 h₁.2)
      (fun _ _ h₁ => by rw [h₁])

end PolicyEnforcer

open PolicyEnforcer

variable {principal : Principal} {references : List DocumentRef} {correlationId : String}
  {log log' : PolicyLog} {items : List (DocumentRef × AuthorizedDocument)}
  {reference : DocumentRef} {document : AuthorizedDocument}

/-- An item that a lookup finds is one of the items. -/
theorem mem_of_lookupAuthorized (h : lookupAuthorized items reference = some document) :
    (reference, document) ∈ items := by
  unfold lookupAuthorized at h
  induction items with
  | nil => cases h
  | cons item items ih =>
    rw [List.lookup_cons] at h
    split at h
    · rename_i heq
      obtain rfl := eq_of_beq heq
      cases h
      exact List.mem_cons_self
    · exact List.mem_cons_of_mem _ (ih h)

/-- **What `authorize_reads` returns is readable**, by an answer of the store in that call. -/
theorem readsDone_readable (h : ReadsDone principal references correlationId log items log')
    (hfound : lookupAuthorized items reference = some document) :
    ∃ answer, log'.answers = log.answers ++ [answer] ∧
      Readable principal answer reference document.policy := by
  have hmem := mem_of_lookupAuthorized hfound
  cases h with
  | unknown => cases hmem
  | foreign => cases hmem
  | asked _ hknown hanswers htenant =>
    obtain ⟨reference', hasked, hdecided⟩ := List.mem_filterMap.1 hmem
    obtain ⟨document', hdecided', heq⟩ := Option.map_eq_some_iff.1 hdecided
    cases heq
    exact ⟨_, hanswers, decideRead_readable htenant hasked hdecided'⟩

theorem readsDone_prefix (h : ReadsDone principal references correlationId log items log') :
    log.answers <+: log'.answers := by
  cases h with
  | unknown _ hanswers => rw [hanswers]
  | foreign _ _ hanswers => rw [hanswers]
  | asked _ _ hanswers => rw [hanswers]; exact List.prefix_append _ _

theorem readsDone_unknown (h : ReadsDone principal references correlationId log items log')
    (hknown : principal.known = false) : items = [] := by
  cases h with
  | unknown => rfl
  | foreign => rfl
  | asked _ hknown' => rw [hknown] at hknown'; cases hknown'

/-- Stores that take every event and make every document public. -/
def publicStores : PolicyAccess where
  getDocumentPolicies _ _ _ := some fun reference =>
    DocumentPolicy.make reference.tenantId "s-1" reference.documentId reference.documentVersionId
      ["public"] false
  append _ _ := true

end GroundedOps
