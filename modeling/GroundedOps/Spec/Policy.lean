import GroundedOps.Lib.Dict
import GroundedOps.Lib.Hoare
import GroundedOps.Spec.Text

/-!
# Access decisions

`modules/policy/authorizer.py` decides one read; `modules/policy/enforcement.py`
asks the policy store for the metadata of many references at once, decides each,
and records every decision with `modules/audit/recorder.py`.

A reference and a stored policy carry the checks of their constructors, so an
invalid one cannot be built. What the two stores behind an enforcer do is a
`PolicyAccess`: any answer at all, or an exception, at each of their calls; what they
did is in the `PolicyLog`. Audit events keep the plain identifiers that the recorder
fingerprints.
-/

namespace GroundedOps

open Hoare

/-! ## The authorizer -/

structure Principal where
  id : String
  tenantId : String
  roles : List String
  groups : List String
  known : Bool := true
  deriving DecidableEq, Repr

structure ResourceAction where
  tenantId : String
  documentId : String
  action : String
  policy : List String
  deriving DecidableEq, Repr

/-- `AuthorizationReason`; `AuditReason` has the same members. -/
inductive AuthorizationReason
  | «public» | principal | role | group | policyDenied | unknownPrincipal | crossTenant | actionDenied
  deriving DecidableEq, Repr

structure Decision where
  allowed : Bool
  reason : AuthorizationReason
  documentId : String
  deriving DecidableEq, Repr

def authorize (principal : Principal) (resource : ResourceAction) : Decision :=
  if !principal.known then ⟨false, .unknownPrincipal, resource.documentId⟩
  else if principal.tenantId ≠ resource.tenantId then ⟨false, .crossTenant, resource.documentId⟩
  else if resource.action ≠ "read" then ⟨false, .actionDenied, resource.documentId⟩
  else if "public" ∈ resource.policy then ⟨true, .public, resource.documentId⟩
  else if "principal:" ++ principal.id ∈ resource.policy then
    ⟨true, .principal, resource.documentId⟩
  else if principal.roles.any fun role => "role:" ++ role ∈ resource.policy then
    ⟨true, .role, resource.documentId⟩
  else if principal.groups.any fun group => "group:" ++ group ∈ resource.policy then
    ⟨true, .group, resource.documentId⟩
  else ⟨false, .policyDenied, resource.documentId⟩

/-! ## References and stored policies -/

def DocumentRef.check (tenantId documentId : String) (documentVersionId : Option String) : Bool :=
  validIdentifier tenantId && validIdentifier documentId && documentVersionId.all validIdentifier

structure DocumentRef where
  tenantId : String
  documentId : String
  documentVersionId : Option String
  valid : DocumentRef.check tenantId documentId documentVersionId = true
  deriving DecidableEq

/-- The constructor: `none` is its `ValueError`. -/
def DocumentRef.make (tenantId documentId : String) (documentVersionId : Option String) :
    Option DocumentRef :=
  if h : DocumentRef.check tenantId documentId documentVersionId = true then
    some ⟨tenantId, documentId, documentVersionId, h⟩
  else none

def DocumentPolicy.check (tenantId sourceId documentId : String)
    (documentVersionId : Option String) (policy : List String) : Bool :=
  validIdentifier tenantId && validIdentifier sourceId && validIdentifier documentId &&
    documentVersionId.all validIdentifier && !policy.isEmpty && policy.all validIdentifier

structure DocumentPolicy where
  tenantId : String
  sourceId : String
  documentId : String
  documentVersionId : Option String
  policy : List String
  deleted : Bool
  valid : DocumentPolicy.check tenantId sourceId documentId documentVersionId policy = true
  deriving DecidableEq

def DocumentPolicy.make (tenantId sourceId documentId : String) (documentVersionId : Option String)
    (policy : List String) (deleted : Bool) : Option DocumentPolicy :=
  if h : DocumentPolicy.check tenantId sourceId documentId documentVersionId policy = true then
    some ⟨tenantId, sourceId, documentId, documentVersionId, policy, deleted, h⟩
  else none

structure SearchScope where
  tenantId : String
  accessPolicy : List String
  deriving DecidableEq, Repr

structure AuthorizedDocument where
  policy : DocumentPolicy
  decision : Decision
  deriving DecidableEq

/-- What `record_authorization` passes to the audit store. -/
structure AuthorizationAudit where
  tenantId : String
  principalId : String
  documentId : String
  allowed : Bool
  reason : AuthorizationReason
  correlationId : String
  deriving DecidableEq, Repr

/-- What the policy store answered to one `get_document_policies`. -/
structure PolicyAnswer where
  tenantId : String
  references : List DocumentRef
  policies : DocumentRef → Option DocumentPolicy

/-- What has passed between an enforcer and its two stores. -/
structure PolicyLog where
  calls : ℕ := 0
  answers : List PolicyAnswer := []
  audit : List AuthorizationAudit := []

/-- The stores behind an enforcer, at their `n`-th call: they may change, or fail, between
any two calls. -/
structure PolicyAccess where
  /-- `get_document_policies`: a mapping, or an exception. -/
  getDocumentPolicies : ℕ → String → List DocumentRef →
    Option (DocumentRef → Option DocumentPolicy)
  /-- Whether the audit store takes the event. -/
  append : ℕ → AuthorizationAudit → Bool

/-! ## The enforcer -/

namespace PolicyEnforcer

def searchScope (principal : Principal) : Option SearchScope :=
  if !principal.known then none
  else
    some ⟨principal.tenantId,
      "public" :: ("principal:" ++ principal.id) ::
        (principal.roles.map ("role:" ++ ·) ++ principal.groups.map ("group:" ++ ·))⟩

variable (access : PolicyAccess)

/-- `_record_authorization`; the recorder's fingerprint raises on an empty identifier. -/
def recordAuthorization (principal : Principal) (reference : DocumentRef) (allowed : Bool)
    (reason : AuthorizationReason) (correlationId : String) : Act Unit PolicyLog Unit := do
  if principal.tenantId.isEmpty || principal.id.isEmpty then throw ()
  let event : AuthorizationAudit :=
    ⟨principal.tenantId, principal.id, reference.documentId, allowed, reason, correlationId⟩
  let log ← get
  if access.append log.calls event then
    set { log with calls := log.calls + 1, audit := log.audit ++ [event] }
  else
    set { log with calls := log.calls + 1 }
    throw ()

/-- `self._store.get_document_policies` -/
def getDocumentPolicies (tenantId : String) (references : List DocumentRef) :
    Act Unit PolicyLog (DocumentRef → Option DocumentPolicy) := do
  let log ← get
  match access.getDocumentPolicies log.calls tenantId references with
  | none =>
    set { log with calls := log.calls + 1 }
    throw ()
  | some policies =>
    let answer : PolicyAnswer := ⟨tenantId, references, policies⟩
    set { log with calls := log.calls + 1, answers := log.answers ++ [answer] }
    return policies

/-- The tests of a stored policy against the reference it was asked for. -/
def matchesReference (policy : DocumentPolicy) (reference : DocumentRef) : Bool :=
  !policy.deleted && policy.tenantId == reference.tenantId &&
    policy.documentId == reference.documentId &&
    policy.documentVersionId == reference.documentVersionId

/-- One round of the loop over the scoped references. -/
def authorizeReference (principal : Principal) (policies : DocumentRef → Option DocumentPolicy)
    (correlationId : String) (reference : DocumentRef) :
    Act Unit PolicyLog (Option AuthorizedDocument) := do
  match (policies reference).filter (matchesReference · reference) with
  | none =>
    recordAuthorization access principal reference false .policyDenied correlationId
    return none
  | some policy =>
    let decision := authorize principal ⟨policy.tenantId, policy.documentId, "read", policy.policy⟩
    recordAuthorization access principal reference decision.allowed decision.reason correlationId
    return if decision.allowed then some ⟨policy, decision⟩ else none

def authorizeScoped (principal : Principal) (policies : DocumentRef → Option DocumentPolicy)
    (correlationId : String) :
    List DocumentRef → Act Unit PolicyLog (List (DocumentRef × AuthorizedDocument))
  | [] => pure []
  | reference :: references => do
    let document ← authorizeReference access principal policies correlationId reference
    let authorized ← authorizeScoped principal policies correlationId references
    return match document with
      | some document => (reference, document) :: authorized
      | none => authorized

/-- The loops that record one refusal per reference. -/
def recordRefusals (principal : Principal) (reason : AuthorizationReason)
    (correlationId : String) : List DocumentRef → Act Unit PolicyLog Unit
  | [] => pure ()
  | reference :: references => do
    recordAuthorization access principal reference false reason correlationId
    recordRefusals principal reason correlationId references

/-- `authorize_reads`; the result is the dictionary's items. -/
def authorizeReads (principal : Principal) (references : List DocumentRef)
    (correlationId : String) :
    Act Unit PolicyLog (List (DocumentRef × AuthorizedDocument)) := do
  let uniqueReferences := Dict.firsts id references
  if !principal.known then
    recordRefusals access principal .unknownPrincipal correlationId uniqueReferences
    return []
  recordRefusals access principal .crossTenant correlationId
    (uniqueReferences.filter fun reference => reference.tenantId ≠ principal.tenantId)
  let scopedReferences := uniqueReferences.filter fun reference => reference.tenantId = principal.tenantId
  if scopedReferences.isEmpty then return []
  let policies ← getDocumentPolicies access principal.tenantId scopedReferences
  authorizeScoped access principal policies correlationId scopedReferences

end PolicyEnforcer

/-- `authorized.get(reference)` -/
def lookupAuthorized (authorized : List (DocumentRef × AuthorizedDocument))
    (reference : DocumentRef) : Option AuthorizedDocument :=
  authorized.lookup reference

end GroundedOps
