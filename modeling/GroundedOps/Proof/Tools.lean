import GroundedOps.Lib.Lists
import GroundedOps.Proof.Policy
import GroundedOps.Spec.Tools

/-!
# What escapes from a tool

* `Normalized`: a tool returns or raises an `InvestigationToolError`.
* `guarded_normalized`: the `try` block of a tool lets nothing else out.
* `tools_normalized_iff`: **retrieval and incident search are normalized for every principal
  that is authenticated; version comparison is so exactly for those whose tenant is a valid
  identifier**, since it builds its references before its `try` block.
-/

namespace GroundedOps.Investigation

open Hoare

/-- The tool returns, or raises an `InvestigationToolError`. -/
def Normalized {α : Type} (tool : ToolStep α) (log : PolicyLog) : Prop :=
  wp tool (fun _ _ => True) (fun raised _ => ∃ code, raised = .toolError code) log

namespace InvestigationTools

variable {α : Type} {backends : ToolBackends} {principal : Principal} {log : PolicyLog}

/-! ## The try block -/

/-- **The `try` block** of a tool returns what its operation does, or raises a tool error. -/
theorem guarded_normalized {operation : ToolStep α} {N : α → PolicyLog → Prop}
    (h : wp operation N (fun _ _ => True) log) :
    wp (guarded backends operation) N (fun raised _ => ∃ code, raised = .toolError code) log := by
  have hrun : wp (run backends operation) N (fun _ _ => True) log := by
    unfold run
    rw [wp_tryCatch]
    have hthread : wp (runInThread backends operation) N (fun _ _ => True) log := by
      unfold runInThread
      split
      · exact h
      · simp only [wp_bind, wp_set, wp_throw]
      · trivial
    refine wp_mono hthread (fun _ _ hN => hN) (fun raised _ _ => ?_)
    split
    · trivial
    · trivial
  unfold guarded
  rw [wp_tryCatch]
  refine wp_mono hrun (fun _ _ hN => hN) (fun raised _ _ => ?_)
  split
  · exact ⟨_, rfl⟩
  · exact ⟨_, rfl⟩

theorem wp_any {operation : ToolStep α} : wp operation (fun _ _ => True) (fun _ _ => True) log :=
  wp_mono wp_self (fun _ _ _ => trivial) (fun _ _ _ => trivial)

theorem requirePrincipal_normalized {β : Type} {rest : ToolStep β} (h : Normalized rest log) :
    Normalized (requirePrincipal principal >>= fun _ => rest) log := by
  unfold Normalized requirePrincipal
  rw [wp_bind]
  split
  · exact ⟨_, rfl⟩
  · exact h

theorem requireLimit_normalized {β : Type} {rest : ToolStep β} {limit : ℕ}
    (h : Normalized rest log) : Normalized (requireLimit backends limit >>= fun _ => rest) log := by
  unfold Normalized requireLimit
  rw [wp_bind]
  split
  · exact ⟨_, rfl⟩
  · exact h

/-! ## The tools -/

theorem retrieve_normalized (request : RetrieveRequest) :
    Normalized (retrieve backends principal request) log := by
  unfold retrieve
  refine requirePrincipal_normalized (requireLimit_normalized ?_)
  unfold Normalized
  rw [wp_bind]
  exact guarded_normalized wp_any

/-- The references of the records were built once, so they can be built again. -/
theorem authorizedRecords_returns {authorized : List (DocumentRef × AuthorizedDocument)} :
    ∀ {records : List IncidentRecord} {log : PolicyLog},
      (∀ record ∈ records, (recordReference record).isSome) →
        wp (authorizedRecords authorized records) (fun _ _ => True) (fun _ _ => False) log := by
  intro records
  induction records with
  | nil => intro log _; trivial
  | cons record records ih =>
    intro log h
    obtain ⟨reference, href⟩ := Option.isSome_iff_exists.1 (h record List.mem_cons_self)
    rw [authorizedRecords, href, wp_bind]
    show wp (authorizedRecords authorized records >>= _) _ _ log
    rw [wp_bind]
    refine wp_mono (ih fun record hrecord => h record (List.mem_cons_of_mem _ hrecord))
      (fun _ _ _ => trivial) (fun _ _ hfalse => hfalse)

theorem authorizedIncidents_references {request : IncidentSearchRequest} :
    wp (authorizedIncidents backends principal request)
      (fun found _ => ∀ record ∈ found.1, (recordReference record).isSome) (fun _ _ => True) log := by
  unfold authorizedIncidents
  rw [wp_bind]
  refine wp_mono wp_any (fun records log₁ _ => ?_) (fun _ _ _ => trivial)
  dsimp only
  cases hrefs : (records.take request.limit).mapM recordReference with
  | none => trivial
  | some references =>
    have hsome := Lists.isSome_of_mapM hrefs
    show wp (authorizeReads backends principal references >>= _) _ _ log₁
    rw [wp_bind]
    exact wp_mono wp_any (fun _ _ _ => hsome) (fun _ _ _ => trivial)

theorem searchIncidents_normalized (request : IncidentSearchRequest) :
    Normalized (searchIncidents backends principal request) log := by
  unfold searchIncidents
  refine requirePrincipal_normalized (requireLimit_normalized ?_)
  unfold Normalized
  rw [wp_bind]
  refine wp_mono (guarded_normalized authorizedIncidents_references) (fun found log₁ h => ?_)
    (fun _ _ h => h)
  exact wp_mono (authorizedRecords_returns h) (fun _ _ _ => trivial) (fun _ _ hfalse => hfalse.elim)

/-- The versions of a valid request have references in a tenant with a valid identifier. -/
theorem make_of_request {tenantId documentId versionId : String}
    (htenant : validIdentifier tenantId = true) (hdocument : validIdentifier documentId = true)
    (hversion : validIdentifier versionId = true) :
    ∃ reference, DocumentRef.make tenantId documentId (some versionId) = some reference := by
  have hcheck : DocumentRef.check tenantId documentId (some versionId) = true := by
    simp [DocumentRef.check, htenant, hdocument, hversion]
  exact ⟨_, dif_pos hcheck⟩

theorem compareVersions_normalized (request : CompareVersionsRequest)
    (htenant : validIdentifier principal.tenantId = true) :
    Normalized (compareVersions backends principal request) log := by
  have hvalid := request.valid
  unfold CompareVersionsRequest.check at hvalid
  simp only [Bool.and_eq_true] at hvalid
  obtain ⟨⟨⟨hdocument, hleft⟩, hright⟩, -⟩ := hvalid
  obtain ⟨left, hleftRef⟩ := make_of_request htenant hdocument hleft
  obtain ⟨right, hrightRef⟩ := make_of_request htenant hdocument hright
  unfold compareVersions
  refine requirePrincipal_normalized ?_
  rw [hleftRef, hrightRef]
  show Normalized (guarded backends (authorizedVersions backends principal [left, right] request)
    >>= _) log
  unfold Normalized
  rw [wp_bind]
  refine wp_mono (guarded_normalized wp_any) (fun versions log₁ _ => ?_) (fun _ _ h => h)
  dsimp only
  split
  · exact ⟨_, rfl⟩
  · obtain ⟨left, right⟩ := versions
    cases left with
    | none => exact ⟨_, rfl⟩
    | some left =>
      cases right with
      | none => exact ⟨_, rfl⟩
      | some right => trivial

/-- In any other tenant the first reference cannot be built, and no handler is there. -/
theorem compareVersions_raises (request : CompareVersionsRequest)
    (hknown : principal.known = true) (htenant : validIdentifier principal.tenantId = false) :
    wp (compareVersions backends principal request) (fun _ _ => False)
      (fun raised _ => raised = .value) log := by
  have hcheck : ¬ DocumentRef.check principal.tenantId request.documentId
      (some request.leftVersionId) = true := by
    simp [DocumentRef.check, htenant]
  have hnone : DocumentRef.make principal.tenantId request.documentId
      (some request.leftVersionId) = none := dif_neg hcheck
  unfold compareVersions requirePrincipal
  rw [hknown, hnone]
  rfl

end InvestigationTools

open InvestigationTools

/-- An authenticated principal is a known one. -/
theorem authenticate_known {decode : String → Option TokenClaims} {token : String}
    {principal : Principal} (h : JwtAuthenticator.authenticate decode token = some principal) :
    principal.known = true := by
  unfold JwtAuthenticator.authenticate at h
  obtain ⟨claims, -, hclaims⟩ := Option.bind_eq_some_iff.1 h
  unfold JwtAuthenticator.principalFrom at hclaims
  simp only [Option.bind_eq_bind, Option.bind_eq_some_iff] at hclaims
  obtain ⟨_, -, _, -, _, -, _, -, hprincipal⟩ := hclaims
  cases hprincipal
  rfl

/-- A `ValueError` is no tool error. -/
theorem not_normalized {α : Type} {tool : ToolStep α} {log : PolicyLog}
    (h : wp tool (fun _ _ => False) (fun raised _ => raised = .value) log) :
    ¬ Normalized tool log := by
  intro hnormalized
  have hboth := wp_and hnormalized h
  unfold wp at hboth
  split at hboth
  · exact hboth.2
  · obtain ⟨⟨code, hcode⟩, hvalue⟩ := hboth
    rw [hcode] at hvalue
    cases hvalue

/-- **Which tools normalize every failure.** For every principal that the authenticator can
produce, and whatever the backends do: `retrieve` and `search_incidents` return or raise an
`InvestigationToolError`, and `compare_versions` does so if and only if the tenant of the
principal is a valid identifier. -/
theorem tools_normalized_iff (decode : String → Option TokenClaims) (token : String)
    (principal : Principal) (hauth : JwtAuthenticator.authenticate decode token = some principal)
    (backends : ToolBackends) (log : PolicyLog) (retrieveRequest : RetrieveRequest)
    (compareRequest : CompareVersionsRequest) (incidentRequest : IncidentSearchRequest) :
    Normalized (retrieve backends principal retrieveRequest) log ∧
    Normalized (searchIncidents backends principal incidentRequest) log ∧
    (Normalized (compareVersions backends principal compareRequest) log ↔
      validIdentifier principal.tenantId = true) := by
  refine ⟨retrieve_normalized _, searchIncidents_normalized _, ?_, compareVersions_normalized _⟩
  intro hnormalized
  by_contra hinvalid
  rw [Bool.not_eq_true] at hinvalid
  have hknown := authenticate_known hauth
  exact not_normalized (compareVersions_raises compareRequest hknown hinvalid) hnormalized

/-! ## Two principals -/

/-- Backends that hold nothing. -/
def emptyBackends : ToolBackends where
  retrieve _ := throw .other
  getVersion _ _ := pure none
  search _ _ _ := pure []
  access := ⟨fun _ _ _ => some fun _ => none, fun _ _ => true⟩
  correlationId := "correlation"
  maxResults := 10
  deadline := .met
  isoformat _ := ""

/-- A token of a subject in a tenant, without memberships. -/
def tokenOf (tenantId : String) : TokenClaims := fun name =>
  if name = "sub" then some (.text "alice")
  else if name = "tenant_id" then some (.text tenantId)
  else none

def sampleComparison : CompareVersionsRequest := ⟨"document-1", "version-1", "version-2", by decide⟩

def sampleQuestion : RetrieveRequest := { query := "collector", valid := by decide }

def sampleIncident : IncidentSearchRequest := { query := "outage", valid := by decide }

/-- A tenant with a blank in its name passes the authenticator, and no reference. -/
theorem blank_tenant_escapes : ¬ ∀ (decode : String → Option TokenClaims) (token : String)
    (principal : Principal), JwtAuthenticator.authenticate decode token = some principal →
    ∀ (backends : ToolBackends) (log : PolicyLog) (request : CompareVersionsRequest),
      Normalized (compareVersions backends principal request) log := by
  intro h
  have hauth : JwtAuthenticator.authenticate (fun _ => some (tokenOf "acme corp")) "token" =
      some { id := "alice", tenantId := "acme corp", roles := [], groups := [] } := by decide +kernel
  have hnormalized := h _ _ _ hauth emptyBackends {} sampleComparison
  exact not_normalized (compareVersions_raises sampleComparison rfl (by decide)) hnormalized

/-- A tenant with a valid name. -/
theorem tools_normalized_acme :
    Normalized (compareVersions emptyBackends
      { id := "alice", tenantId := "acme", roles := [], groups := [] } sampleComparison) {} :=
  (tools_normalized_iff (fun _ => some (tokenOf "acme")) "token"
    { id := "alice", tenantId := "acme", roles := [], groups := [] } (by decide +kernel)
    emptyBackends {} sampleQuestion sampleComparison sampleIncident).2.2.2 (by decide)

end GroundedOps.Investigation
