import GroundedOps.Lib.Lists
import GroundedOps.Proof.AuditStores
import GroundedOps.Proof.LogRules
import GroundedOps.Proof.ReadAudit

/-!
# What the audit trail says of a request

`authorize_reads` records each decision through the audit recorder. Here the events of a log are
the calls of a recorder, and the trail is asked for those of one request.

* `Traced`: what a call appends to the log, whether it returns or raises, is of its principal and
  of its correlation.
* `reads_audit_trail`: **the trail answers for a request with one event for each distinct reference
  it asked about**, which says what the request got, however many requests came before.
-/

namespace GroundedOps

open Hoare

namespace PolicyEnforcer

/-! ## Events of one call -/

/-- The event is of the principal and the correlation, and has its identifiers. -/
structure TracedEvent (principal : Principal) (correlationId : String)
    (event : AuthorizationAudit) : Prop where
  tenant : event.tenantId = principal.tenantId
  principal : event.principalId = principal.id
  correlation : event.correlationId = correlationId
  tenant_ne : event.tenantId ≠ ""
  principal_ne : event.principalId ≠ ""
  document_ne : event.documentId ≠ ""

/-- What the log has gained is traced to the call. -/
def Traced (principal : Principal) (correlationId : String) (log log' : PolicyLog) : Prop :=
  ∃ events, log'.audit = log.audit ++ events ∧
    ∀ event ∈ events, TracedEvent principal correlationId event

theorem DocumentRef.documentId_ne (reference : DocumentRef) : reference.documentId ≠ "" := by
  intro hempty
  have hvalid := reference.valid
  unfold DocumentRef.check at hvalid
  rw [Bool.and_eq_true, Bool.and_eq_true, hempty] at hvalid
  have hblank : validIdentifier "" = true := hvalid.1.2
  revert hblank
  decide

theorem traced_rule (access : PolicyAccess) (principal : Principal) (correlationId : String) :
    LogRule access principal correlationId (Traced principal correlationId) where
  refl log := ⟨[], (List.append_nil _).symm, fun _ h => absurd h List.not_mem_nil⟩
  trans := by
    rintro log₁ log₂ log₃ ⟨events₁, h₁, hall₁⟩ ⟨events₂, h₂, hall₂⟩
    refine ⟨events₁ ++ events₂, by rw [h₂, h₁, List.append_assoc], fun event hevent => ?_⟩
    rcases List.mem_append.1 hevent with hin | hin
    · exact hall₁ event hin
    · exact hall₂ event hin
  record reference allowed reason log := by
    have hsame : Traced principal correlationId log { log with calls := log.calls + 1 } :=
      ⟨[], (List.append_nil _).symm, fun _ h => absurd h List.not_mem_nil⟩
    unfold recordAuthorization
    by_cases hempty : (principal.tenantId.isEmpty || principal.id.isEmpty) = true
    · simp only [hempty, if_true, wp_bind, wp_throw]
      exact ⟨[], (List.append_nil _).symm, fun _ h => absurd h List.not_mem_nil⟩
    · simp only [hempty, Bool.false_eq_true, if_false, wp_bind, wp_get]
      rw [Bool.or_eq_true, String.isEmpty_iff, String.isEmpty_iff, not_or] at hempty
      split
      · rw [wp_set]
        refine ⟨[_], rfl, fun event hevent => ?_⟩
        obtain rfl := List.mem_singleton.1 hevent
        exact ⟨rfl, rfl, rfl, hempty.1, hempty.2, DocumentRef.documentId_ne reference⟩
      · simp only [wp_bind, wp_set, wp_throw]
        exact hsame
  ask tenantId references log := by
    unfold getDocumentPolicies
    simp only [wp_bind, wp_get]
    split
    · simp only [wp_bind, wp_set, wp_throw]
      exact ⟨[], (List.append_nil _).symm, fun _ h => absurd h List.not_mem_nil⟩
    · simp only [wp_bind, wp_set, wp_pure]
      exact ⟨[], (List.append_nil _).symm, fun _ h => absurd h List.not_mem_nil⟩

end PolicyEnforcer

/-! ## The trail of a log -/

/-- One request: its correlation is settled before its first decision. -/
structure ReadRequest where
  principal : Principal
  references : List DocumentRef
  correlationId : String
  correlated : correlationId ≠ ""

/-- The log after a request, whether it returned or raised. -/
def ReadRequest.step (access : PolicyAccess) (log : PolicyLog) (request : ReadRequest) :
    PolicyLog :=
  (exec (PolicyEnforcer.authorizeReads access request.principal request.references
    request.correlationId) log).2

/-- The call of the recorder that an event of the log stands for. -/
def AuthorizationAudit.call (event : AuthorizationAudit) : AuditCall :=
  .authorization event.tenantId event.principalId event.documentId event.allowed event.reason
    (some event.correlationId) none

/-- The calls of the recorder, the n-th with the n-th draw. -/
def recorderCalls (draws : ℕ → Draw) (events : List AuthorizationAudit) :
    List (Draw × AuditCall) :=
  events.zipIdx.map fun item => (draws item.2, item.1.call)

/-- What an auditor asks for: the reads of a principal in one request. -/
def ReadRequest.query (request : ReadRequest) (limit : ℕ) (hlimit : AuditQuery.check limit = true) :
    AuditQuery where
  tenantId := request.principal.tenantId
  category := some .authorization
  actorId := some request.principal.id
  correlationId := some request.correlationId
  limit := limit
  valid := hlimit

/-- The stored event says whether the reference is among the items that the request got, and why. -/
structure Answers (redaction : Redaction) (principal : Principal)
    (items : List (DocumentRef × AuthorizedDocument)) (reference : DocumentRef)
    (event : AuditEvent) : Prop where
  resource : event.resourceRef = redaction.hexdigest ("resource" ++ "\x00" ++ reference.documentId)
  outcome : event.outcome = if reference ∈ items.map Prod.fst then .allowed else .denied
  reason : event.reason = some (PolicyEnforcer.readReason principal items reference)

section Trail

variable {redaction : Redaction} {access : PolicyAccess} {draws : ℕ → Draw} {draw : Draw}
  {event : AuthorizationAudit} {request : ReadRequest} {log : PolicyLog}

/-- The entry that is recorded for an event of the log. -/
def AuthorizationAudit.entry (event : AuthorizationAudit) (draw : Draw) : AuditEntry where
  eventId := draw.eventId
  occurredAt := draw.now
  tenantId := event.tenantId
  actorId := some event.principalId
  resourceId := event.documentId
  correlation := event.correlationId
  category := .authorization
  action := .readDocument
  outcome := if event.allowed then .allowed else .denied
  reason := some event.reason

/-- The recorder accepts a traced event. -/
theorem accepted_call {principal : Principal} {correlationId : String}
    (h : PolicyEnforcer.TracedEvent principal correlationId event) (hne : correlationId ≠ "") :
    accepted (draw, event.call) = some (event.entry draw) := by
  have hcorrelation : event.correlationId ≠ "" := h.correlation ▸ hne
  have hsettled : AuditRecorder.settleCorrelation (some event.correlationId) draw =
      event.correlationId := by
    have hkept : (!event.correlationId.isEmpty) = true := by simpa using hcorrelation
    unfold AuditRecorder.settleCorrelation
    rw [Option.filter_some, if_pos hkept, Option.getD_some]
  have hentry : AuditRecorder.entryOf draw event.call = .ok (event.entry draw) := by
    unfold AuditRecorder.entryOf AuthorizationAudit.call AuthorizationAudit.entry
    dsimp only
    rw [hsettled]
    rfl
  have hnamed : (event.entry draw).Named := by
    refine ⟨h.tenant_ne, fun actorId hactor => ?_, h.document_ne, hcorrelation⟩
    cases hactor
    exact h.principal_ne
  unfold accepted
  rw [hentry]
  exact if_pos hnamed

/-- Every event of a log that requests have left is traced to one of them. -/
theorem run_traced (access : PolicyAccess) (history : List ReadRequest) :
    ∀ event ∈ (Machine.run (ReadRequest.step access) {} history).audit,
      ∃ request ∈ history,
        PolicyEnforcer.TracedEvent request.principal request.correlationId event := by
  induction history using List.reverseRecOn with
  | nil => exact fun event hevent => absurd hevent List.not_mem_nil
  | append_singleton history request ih =>
    rw [Machine.run_concat]
    obtain ⟨events, haudit, hall⟩ := wp_state
      ((PolicyEnforcer.traced_rule access request.principal
        request.correlationId).authorizeReads request.references
          (Machine.run (ReadRequest.step access) {} history))
    intro event hevent
    have hgained : event ∈ (Machine.run (ReadRequest.step access) {} history).audit ++ events :=
      haudit ▸ hevent
    rcases List.mem_append.1 hgained with hold | hnew
    · obtain ⟨earlier, hearlier, htraced⟩ := ih event hold
      exact ⟨earlier, List.mem_append_left _ hearlier, htraced⟩
    · exact ⟨request, List.mem_append_right _ List.mem_cons_self, hall event hnew⟩

/-- The entries of a log whose events are traced. -/
theorem recorderCalls_accepted {events : List AuthorizationAudit}
    (h : ∀ event ∈ events, ∃ request : ReadRequest,
      PolicyEnforcer.TracedEvent request.principal request.correlationId event) :
    (recorderCalls draws events).filterMap accepted =
      events.zipIdx.map fun item => item.1.entry (draws item.2) := by
  unfold recorderCalls
  rw [List.filterMap_map, ← List.filterMap_eq_map]
  refine List.filterMap_congr fun item hitem => ?_
  obtain ⟨request, htraced⟩ := h item.1 (List.fst_mem_of_mem_zipIdx hitem)
  exact accepted_call htraced request.correlated

theorem forall₂_zipIdx {α β : Type} {R : α → β → Prop} {l : List α} {m : List β}
    (h : List.Forall₂ R l m) (n : ℕ) : List.Forall₂ (fun a item => R a item.1) l (m.zipIdx n) := by
  induction h generalizing n with
  | nil => exact .nil
  | cons hab _ ih =>
    rw [List.zipIdx_cons]
    exact .cons hab (ih (n + 1))

/-- **The trail answers for a request.** After any requests of any principals, whether they
returned or raised, a request under a correlation of its own that returns leaves in the audit trail
exactly one event for each distinct reference it asked about, and a query for the principal and the
correlation finds these: each names its document, says whether the request got the reference, and
gives the reason, which is the authorizer's for a read that is allowed, and for one that is denied
that the principal is not known, that the reference is of another tenant, or else the policy. -/
theorem reads_audit_trail (redaction : Redaction) (access : PolicyAccess) (draws : ℕ → Draw)
    (history : List ReadRequest) (request : ReadRequest) (limit : ℕ)
    (hlimit : AuditQuery.check limit = true)
    (hown : ∀ earlier ∈ history, earlier.correlationId ≠ request.correlationId) :
    wp (PolicyEnforcer.authorizeReads access request.principal request.references
        request.correlationId)
      (fun items log' =>
        redaction.Distinguishes (request.query limit hlimit)
            ((recorderCalls draws log'.audit).filterMap accepted) →
          request.principal.tenantId ≠ "" → request.principal.id ≠ "" →
          (Dict.firsts id request.references).length ≤ limit →
          ∃ order events, order.Perm (Dict.firsts id request.references) ∧
            (exec (AuditRecorder.query redaction InMemoryAuditStore.store
              (request.query limit hlimit))
                (memoryTrail redaction (recorderCalls draws log'.audit)).store).1 = .ok events ∧
            List.Forall₂ (Answers redaction request.principal items) order events)
      (fun _ _ => True) (Machine.run (ReadRequest.step access) {} history) := by
  have hhistory := run_traced access history
  set log := Machine.run (ReadRequest.step access) {} history
  have htrace := (PolicyEnforcer.traced_rule access request.principal
    request.correlationId).authorizeReads request.references log
  refine wp_mono (wp_and PolicyEnforcer.authorizeReads_spec htrace) (fun items log' h => ?_)
    (fun _ _ _ => trivial)
  obtain ⟨hdone, events, haudit, hevents⟩ := h
  intro hdistinct htenant hid hfew
  obtain ⟨order, own, horder, hown', hexact⟩ := PolicyEnforcer.readsDone_audited hdone
  -- what the call has appended is what it decided
  obtain rfl : events = own := List.append_cancel_left (haudit.symm.trans hown')
  have hentries : (recorderCalls draws log'.audit).filterMap accepted =
      log'.audit.zipIdx.map fun item => item.1.entry (draws item.2) := by
    refine recorderCalls_accepted fun event hevent => ?_
    rw [haudit] at hevent
    rcases List.mem_append.1 hevent with hold | hnew
    · obtain ⟨earlier, -, htraced⟩ := hhistory event hold
      exact ⟨earlier, htraced⟩
    · exact ⟨request, hevents event hnew⟩
  set query := request.query limit hlimit
  set entryOf : AuthorizationAudit × ℕ → AuditEntry := fun item => item.1.entry (draws item.2)
  have hfound : (log'.audit.zipIdx.map entryOf).filter query.selects =
      (events.zipIdx (0 + log.audit.length)).map entryOf := by
    rw [haudit, List.zipIdx_append, List.map_append, List.filter_append]
    have hearlier : ((log.audit.zipIdx 0).map entryOf).filter query.selects = [] := by
      rw [List.filter_eq_nil_iff]
      intro entry hentry hselected
      obtain ⟨item, hitem, rfl⟩ := List.mem_map.1 hentry
      obtain ⟨earlier, hmem, htraced⟩ := hhistory item.1 (List.fst_mem_of_mem_zipIdx hitem)
      unfold AuditQuery.selects at hselected
      simp only [Bool.and_eq_true] at hselected
      have hcorrelation : item.1.correlationId = request.correlationId := beq_iff_eq.1 hselected.2
      exact hown earlier hmem (htraced.correlation.symm.trans hcorrelation)
    have hlater : ((events.zipIdx (0 + log.audit.length)).map entryOf).filter query.selects =
        (events.zipIdx (0 + log.audit.length)).map entryOf := by
      rw [List.filter_eq_self]
      intro entry hentry
      obtain ⟨item, hitem, rfl⟩ := List.mem_map.1 hentry
      have htraced := hevents item.1 (List.fst_mem_of_mem_zipIdx hitem)
      unfold AuditQuery.selects
      simp only [Bool.and_eq_true]
      refine ⟨⟨⟨⟨⟨beq_iff_eq.2 htraced.tenant, beq_self_eq_true _⟩, rfl⟩,
        beq_iff_eq.2 (congrArg some htraced.principal)⟩, rfl⟩, beq_iff_eq.2 htraced.correlation⟩
    rw [hearlier, hlater, List.nil_append]
  have hnamed : query.Named := by
    refine ⟨htenant, fun actorId hactor => ?_, fun _ h => absurd h (Option.not_mem_none _),
      fun correlationId hcorrelation => ?_⟩
    · cases hactor
      exact hid
    · cases hcorrelation
      exact request.correlated
  have hshort : ((events.zipIdx (0 + log.audit.length)).map entryOf).length ≤ limit := by
    rw [List.length_map, List.length_zipIdx, ← hexact.length_eq, horder.length_eq]
    exact hfew
  refine ⟨order, ((events.zipIdx (0 + log.audit.length)).map entryOf).map
    (AuditEntry.event redaction), horder, ?_, ?_⟩
  · have hstore : (memoryTrail redaction (recorderCalls draws log'.audit)).store =
        (log'.audit.zipIdx.map entryOf).map (AuditEntry.event redaction) := by
      rw [memoryTrail, memory_holds, hentries]
    have hquery := memory_query (hentries ▸ hdistinct) hnamed
    have hlimited : query.limit = limit := rfl
    rw [hstore, hquery, hfound, hlimited, List.take_of_length_le hshort]
  · rw [List.map_map, List.forall₂_map_right_iff]
    refine (forall₂_zipIdx hexact _).imp fun reference item haudits => ?_
    refine ⟨?_, ?_, congrArg some haudits.reason⟩
    · have hdocument := haudits.documentId
      simp only [Function.comp_apply, AuditEntry.event, entryOf, AuthorizationAudit.entry,
        hdocument]
    · have hdecision := haudits.decision
      simp only [Function.comp_apply, AuditEntry.event, entryOf, AuthorizationAudit.entry,
        hdecision]

end Trail

/-! ## A request for two documents, one of another tenant -/

def sampleRequest : ReadRequest where
  principal := ⟨"reader", "tenant", [], [], true⟩
  references := [⟨"tenant", "doc-1", none, by decide⟩, ⟨"other", "doc-2", none, by decide⟩]
  correlationId := "request-1"
  correlated := by decide

/-- Two events are found: the read that was granted, and the refusal. -/
theorem reads_audit_trail_sample : ∃ (order : List DocumentRef) (events : List AuditEvent),
    order.Perm sampleRequest.references ∧
    (exec (AuditRecorder.query sampleRedaction InMemoryAuditStore.store
      (sampleRequest.query 10 (by decide)))
        (memoryTrail sampleRedaction (recorderCalls (fun n => ⟨"c", toString n, 0⟩)
          (sampleRequest.step publicStores {}).audit)).store).1 = .ok events ∧
    List.Forall₂ (fun reference event =>
      event.outcome = (if reference.tenantId = "tenant" then .allowed else .denied) ∧
        event.reason = some (if reference.tenantId = "tenant" then .public else .crossTenant))
      order events := by
  have htrail := reads_audit_trail sampleRedaction publicStores (fun n => ⟨"c", toString n, 0⟩) []
    sampleRequest 10 (by decide) (fun _ h => absurd h List.not_mem_nil)
  obtain ⟨items, hreturns, hitems⟩ : ∃ items, exec (PolicyEnforcer.authorizeReads publicStores
      sampleRequest.principal sampleRequest.references sampleRequest.correlationId) {} =
        (.ok items, sampleRequest.step publicStores {}) ∧
      ∀ reference ∈ sampleRequest.references,
        (reference ∈ items.map Prod.fst ↔ reference.tenantId = "tenant") ∧
          PolicyEnforcer.readReason sampleRequest.principal items reference =
            if reference.tenantId = "tenant" then .public else .crossTenant :=
    ⟨_, rfl, by decide +kernel⟩
  have hdistinct : sampleRedaction.Distinguishes (sampleRequest.query 10 (by decide))
      ((recorderCalls (fun n => ⟨"c", toString n, 0⟩)
        (sampleRequest.step publicStores {}).audit).filterMap accepted) := by
    unfold Redaction.Distinguishes
    decide +kernel
  obtain ⟨order, events, horder, hquery, hanswers⟩ := wp_ok htrail hreturns hdistinct (by decide)
    (by decide) (by decide)
  have hfirsts : Dict.firsts id sampleRequest.references = sampleRequest.references := by decide
  rw [hfirsts] at horder
  refine ⟨order, events, horder, hquery, ?_⟩
  have hasked : List.Forall₂ (fun reference event => reference ∈ sampleRequest.references ∧
      Answers sampleRedaction sampleRequest.principal items reference event) order events :=
    (List.forall₂_and_left order events).2
      ⟨fun reference hreference => horder.mem_iff.1 hreference, hanswers⟩
  refine hasked.imp fun reference event hboth => ?_
  obtain ⟨hmem, hanswer⟩ := hboth
  obtain ⟨hgranted, hreason⟩ := hitems reference hmem
  rw [hanswer.outcome, hanswer.reason, hreason]
  exact ⟨by simp only [hgranted], rfl⟩

end GroundedOps
