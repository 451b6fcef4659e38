import GroundedOps.Lib.Machine
import GroundedOps.Spec.Audit

/-!
# What the audit recorder stores

The stores hold fingerprints; a query is by the identifiers themselves.

* `AuditEntry.event`: the event of an entry, `AuditQuery.selects`: what a query asks of an entry.
* `matchesQuery_event`: fingerprints are compared as the identifiers are, where none collide.
* `exec_record_accepted`, `exec_record_refused`: what one call does to any store.
* `memory_holds`, `memory_query`: the store in memory, after any calls.
-/

namespace GroundedOps

open Hoare

/-! ## Entries and queries by identifiers -/

def AuditEntry.Named (entry : AuditEntry) : Prop :=
  entry.tenantId ≠ "" ∧ (∀ actorId ∈ entry.actorId, actorId ≠ "") ∧ entry.resourceId ≠ "" ∧
    entry.correlation ≠ ""

/-- Every identifier that the query gives is not empty. -/
def AuditQuery.Named (query : AuditQuery) : Prop :=
  query.tenantId ≠ "" ∧ (∀ actorId ∈ query.actorId, actorId ≠ "") ∧
    (∀ resourceId ∈ query.resourceId, resourceId ≠ "") ∧
    ∀ correlationId ∈ query.correlationId, correlationId ≠ ""

/-- The query asks for this entry, by the identifiers themselves. -/
def AuditQuery.selects (query : AuditQuery) (entry : AuditEntry) : Bool :=
  entry.tenantId == query.tenantId && query.category.all (entry.category == ·) &&
    query.outcome.all (entry.outcome == ·) && query.actorId.all (entry.actorId == some ·) &&
    query.resourceId.all (entry.resourceId == ·) &&
    query.correlationId.all (entry.correlation == ·)

/-- What is fingerprinted of an entry. -/
def AuditEntry.messages (entry : AuditEntry) : List String :=
  ("tenant" ++ "\x00" ++ entry.tenantId) :: ("resource" ++ "\x00" ++ entry.resourceId) ::
    ("correlation" ++ "\x00" ++ entry.correlation) ::
    entry.actorId.toList.map fun actorId => "actor" ++ "\x00" ++ actorId

/-- What is fingerprinted of a query. -/
def AuditQuery.messages (query : AuditQuery) : List String :=
  ("tenant" ++ "\x00" ++ query.tenantId) ::
    (query.resourceId.toList.map (fun resourceId => "resource" ++ "\x00" ++ resourceId) ++
    query.correlationId.toList.map (fun correlationId => "correlation" ++ "\x00" ++ correlationId) ++
    query.actorId.toList.map fun actorId => "actor" ++ "\x00" ++ actorId)

/-- No identifier of the query has the fingerprint of another identifier of the entries. -/
def Redaction.Distinguishes (redaction : Redaction) (query : AuditQuery)
    (entries : List AuditEntry) : Prop :=
  ∀ entry ∈ entries, ∀ own ∈ entry.messages, ∀ asked ∈ query.messages,
    redaction.hexdigest own = redaction.hexdigest asked → own = asked

/-- The event that is stored for an entry. -/
def AuditEntry.event (redaction : Redaction) (entry : AuditEntry) : AuditEvent where
  eventId := entry.eventId
  occurredAt := entry.occurredAt
  category := entry.category
  action := entry.action
  outcome := entry.outcome
  tenantRef := redaction.hexdigest ("tenant" ++ "\x00" ++ entry.tenantId)
  actorRef := entry.actorId.map fun actorId => redaction.hexdigest ("actor" ++ "\x00" ++ actorId)
  resourceRef := redaction.hexdigest ("resource" ++ "\x00" ++ entry.resourceId)
  correlationRef := redaction.hexdigest ("correlation" ++ "\x00" ++ entry.correlation)
  reason := entry.reason

/-- The query that the store is asked. -/
def AuditQuery.redacted (redaction : Redaction) (query : AuditQuery) : StoredAuditQuery where
  tenantRef := redaction.hexdigest ("tenant" ++ "\x00" ++ query.tenantId)
  category := query.category
  outcome := query.outcome
  actorRef := query.actorId.map fun actorId => redaction.hexdigest ("actor" ++ "\x00" ++ actorId)
  resourceRef := query.resourceId.map fun resourceId =>
    redaction.hexdigest ("resource" ++ "\x00" ++ resourceId)
  correlationRef := query.correlationId.map fun correlationId =>
    redaction.hexdigest ("correlation" ++ "\x00" ++ correlationId)
  limit := query.limit

section Fingerprints

variable {redaction : Redaction} {field value value' : String} {entry : AuditEntry}
  {event : AuditEvent} {query : AuditQuery}

theorem fingerprint_cases (redaction : Redaction) (field value : String) :
    value = "" ∧ (∃ message, AuditRecorder.fingerprint redaction field value = .error (.value message)) ∨
      value ≠ "" ∧ AuditRecorder.fingerprint redaction field value =
        .ok (redaction.hexdigest (field ++ "\x00" ++ value)) := by
  by_cases h : value = ""
  · subst h
    exact Or.inl ⟨rfl, _, rfl⟩
  · refine Or.inr ⟨h, ?_⟩
    unfold AuditRecorder.fingerprint
    rw [if_neg]
    simpa using h

theorem fingerprintOption_cases (redaction : Redaction) (field : String) (value : Option String) :
    (¬ ∀ text ∈ value, text ≠ "") ∧
        (∃ message, AuditRecorder.fingerprintOption redaction field value =
          .error (.value message)) ∨
      (∀ text ∈ value, text ≠ "") ∧ AuditRecorder.fingerprintOption redaction field value =
        .ok (value.map fun text => redaction.hexdigest (field ++ "\x00" ++ text)) := by
  cases value with
  | none => exact Or.inr ⟨fun _ h => absurd h (Option.not_mem_none _), rfl⟩
  | some text =>
    simp only [AuditRecorder.fingerprintOption, Option.mem_some_iff, forall_eq', Option.map_some]
    rcases fingerprint_cases redaction field text with ⟨hempty, message, h⟩ | ⟨hne, h⟩
    · exact Or.inl ⟨not_not.2 hempty, message, by rw [h]; rfl⟩
    · exact Or.inr ⟨hne, by rw [h]; rfl⟩

/-- An entry with an empty identifier is refused. -/
theorem redacted_cases (redaction : Redaction) (entry : AuditEntry) :
    ¬ entry.Named ∧ (∃ message, AuditRecorder.redacted redaction entry = .error (.value message)) ∨
      entry.Named ∧ AuditRecorder.redacted redaction entry = .ok (entry.event redaction) := by
  unfold AuditRecorder.redacted
  rcases fingerprint_cases redaction "tenant" entry.tenantId with ⟨hempty, message, h⟩ | ⟨htenant, h⟩
  · exact Or.inl ⟨fun hnamed => hnamed.1 hempty, message, by rw [h]; rfl⟩
  rw [h]
  rcases fingerprintOption_cases redaction "actor" entry.actorId with
    ⟨hempty, message, h⟩ | ⟨hactor, h⟩
  · exact Or.inl ⟨fun hnamed => hempty hnamed.2.1, message, by rw [h]; rfl⟩
  rw [h]
  rcases fingerprint_cases redaction "resource" entry.resourceId with
    ⟨hempty, message, h⟩ | ⟨hresource, h⟩
  · exact Or.inl ⟨fun hnamed => hnamed.2.2.1 hempty, message, by rw [h]; rfl⟩
  rw [h]
  rcases fingerprint_cases redaction "correlation" entry.correlation with
    ⟨hempty, message, h⟩ | ⟨hcorrelation, h⟩
  · exact Or.inl ⟨fun hnamed => hnamed.2.2.2 hempty, message, by rw [h]; rfl⟩
  rw [h]
  exact Or.inr ⟨⟨htenant, hactor, hresource, hcorrelation⟩, rfl⟩

theorem stored_cases (redaction : Redaction) (query : AuditQuery) :
    ¬ query.Named ∧ (∃ message, AuditRecorder.stored redaction query = .error (.value message)) ∨
      query.Named ∧ AuditRecorder.stored redaction query = .ok (query.redacted redaction) := by
  unfold AuditRecorder.stored
  rcases fingerprint_cases redaction "tenant" query.tenantId with ⟨hempty, message, h⟩ | ⟨htenant, h⟩
  · exact Or.inl ⟨fun hnamed => hnamed.1 hempty, message, by rw [h]; rfl⟩
  rw [h]
  rcases fingerprintOption_cases redaction "actor" query.actorId with
    ⟨hempty, message, h⟩ | ⟨hactor, h⟩
  · exact Or.inl ⟨fun hnamed => hempty hnamed.2.1, message, by rw [h]; rfl⟩
  rw [h]
  rcases fingerprintOption_cases redaction "resource" query.resourceId with
    ⟨hempty, message, h⟩ | ⟨hresource, h⟩
  · exact Or.inl ⟨fun hnamed => hempty hnamed.2.2.1, message, by rw [h]; rfl⟩
  rw [h]
  rcases fingerprintOption_cases redaction "correlation" query.correlationId with
    ⟨hempty, message, h⟩ | ⟨hcorrelation, h⟩
  · exact Or.inl ⟨fun hnamed => hempty hnamed.2.2.2, message, by rw [h]; rfl⟩
  rw [h]
  exact Or.inr ⟨⟨htenant, hactor, hresource, hcorrelation⟩, rfl⟩

/-- One comparison of fingerprints. -/
theorem hexdigest_beq (h : redaction.hexdigest (field ++ "\x00" ++ value) =
      redaction.hexdigest (field ++ "\x00" ++ value') →
        field ++ "\x00" ++ value = field ++ "\x00" ++ value') :
    (redaction.hexdigest (field ++ "\x00" ++ value) ==
      redaction.hexdigest (field ++ "\x00" ++ value')) = (value == value') := by
  rw [Bool.eq_iff_iff, beq_iff_eq, beq_iff_eq]
  constructor
  · intro hsame
    have htext := congrArg String.toList (h hsame)
    simp only [String.toList_append, List.append_cancel_left_eq] at htext
    exact String.toList_inj.1 htext
  · rintro rfl
    rfl

/-- **Fingerprints are compared as the identifiers are**, where none collide. -/
theorem matchesQuery_event (h : redaction.Distinguishes query [entry]) :
    InMemoryAuditStore.matchesQuery (query.redacted redaction) (entry.event redaction) =
      query.selects entry := by
  have hdistinct := h entry List.mem_cons_self
  have htenant := hexdigest_beq (hdistinct _ List.mem_cons_self _ List.mem_cons_self)
  have hresource : ∀ resourceId ∈ query.resourceId, (redaction.hexdigest
      ("resource" ++ "\x00" ++ entry.resourceId) ==
        redaction.hexdigest ("resource" ++ "\x00" ++ resourceId)) =
          (entry.resourceId == resourceId) := by
    intro resourceId hasked
    refine hexdigest_beq (hdistinct _ ?_ _ ?_)
    · simp only [AuditEntry.messages, List.mem_cons, true_or, or_true]
    · simp only [AuditQuery.messages, Option.mem_def.1 hasked, Option.toList_some, List.map_cons,
        List.map_nil, List.mem_cons, List.mem_append, true_or, or_true]
  have hcorrelation : ∀ correlationId ∈ query.correlationId, (redaction.hexdigest
      ("correlation" ++ "\x00" ++ entry.correlation) ==
        redaction.hexdigest ("correlation" ++ "\x00" ++ correlationId)) =
          (entry.correlation == correlationId) := by
    intro correlationId hasked
    refine hexdigest_beq (hdistinct _ ?_ _ ?_)
    · simp only [AuditEntry.messages, List.mem_cons, true_or, or_true]
    · simp only [AuditQuery.messages, Option.mem_def.1 hasked, Option.toList_some, List.map_cons,
        List.map_nil, List.mem_cons, List.mem_append, true_or, or_true]
  have hactor : ∀ actorId ∈ query.actorId, (entry.actorId.map (fun actorId =>
      redaction.hexdigest ("actor" ++ "\x00" ++ actorId)) ==
        some (redaction.hexdigest ("actor" ++ "\x00" ++ actorId))) =
          (entry.actorId == some actorId) := by
    intro actorId hasked
    cases hown : entry.actorId with
    | none => rfl
    | some own =>
      refine hexdigest_beq (hdistinct _ ?_ _ ?_)
      · simp only [AuditEntry.messages, hown, Option.toList_some, List.map_cons, List.map_nil,
          List.mem_cons, true_or, or_true]
      · simp only [AuditQuery.messages, Option.mem_def.1 hasked, Option.toList_some, List.map_cons,
          List.map_nil, List.mem_cons, List.mem_append, true_or, or_true]
  have hall : ∀ {value : Option String} {p q : String → Bool}, (∀ text ∈ value, p text = q text) →
      value.all p = value.all q := by
    intro value p q hsame
    cases value with
    | none => rfl
    | some text => exact hsame text rfl
  unfold InMemoryAuditStore.matchesQuery AuditQuery.selects AuditQuery.redacted AuditEntry.event
  simp only [Option.all_map]
  rw [htenant, hall hactor, hall hresource, hall hcorrelation]

theorem filter_event {entries : List AuditEntry} (h : redaction.Distinguishes query entries) :
    (entries.map (AuditEntry.event redaction)).filter
        (InMemoryAuditStore.matchesQuery (query.redacted redaction)) =
      (entries.filter query.selects).map (AuditEntry.event redaction) := by
  rw [List.filter_map]
  congr 1
  refine List.filter_congr fun entry hentry => ?_
  refine matchesQuery_event fun own hown => ?_
  obtain rfl := List.mem_singleton.1 hown
  exact h own hentry

/-- A query of the recorder is one of its store, or is refused. -/
theorem exec_query {σ : Type} (store : AuditStore σ) (s : σ) (hnamed : query.Named) :
    exec (AuditRecorder.query redaction store query) s =
      exec (store.query (query.redacted redaction)) s := by
  rcases stored_cases redaction query with ⟨hempty, -⟩ | ⟨-, hstored⟩
  · exact absurd hnamed hempty
  · unfold AuditRecorder.query
    rw [hstored]

end Fingerprints

/-! ## One call -/

instance (entry : AuditEntry) : Decidable entry.Named := by
  unfold AuditEntry.Named
  infer_instance

/-- The entry of a call that the recorder does not refuse. -/
def accepted (call : Draw × AuditCall) : Option AuditEntry :=
  match AuditRecorder.entryOf call.1 call.2 with
  | .error _ => none
  | .ok entry => if entry.Named then some entry else none

section Calls

variable {σ : Type} {redaction : Redaction} {store : AuditStore σ} {trail : AuditTrail σ}
  {call : Draw × AuditCall} {entry : AuditEntry}

theorem accepted_eq_some (h : accepted call = some entry) :
    AuditRecorder.entryOf call.1 call.2 = .ok entry ∧ entry.Named := by
  unfold accepted at h
  split at h
  · cases h
  · rename_i own hown
    split at h
    · rename_i hnamed
      cases h
      exact ⟨hown, hnamed⟩
    · cases h

theorem exec_record_accepted (h : accepted call = some entry) (s : σ) :
    exec (AuditRecorder.record redaction store call.1 call.2) s =
      exec (do store.append (entry.event redaction); return entry.event redaction) s := by
  obtain ⟨hentry, hnamed⟩ := accepted_eq_some h
  rcases redacted_cases redaction entry with ⟨hempty, -⟩ | ⟨-, hredacted⟩
  · exact absurd hnamed hempty
  · unfold AuditRecorder.record
    rw [hentry]
    simp only [AuditRecorder.record.liftExcept, pure_bind, hredacted]

/-- The text of a refusal does not depend on the store. -/
theorem exec_record_refused (redaction : Redaction) (h : accepted call = none) :
    ∃ message, ∀ {σ : Type} (store : AuditStore σ) (s : σ),
      exec (AuditRecorder.record redaction store call.1 call.2) s =
        (.error (.value message), s) := by
  cases hentry : AuditRecorder.entryOf call.1 call.2 with
  | error error =>
    have hvalue : ∃ message, error = .value message := by
      rcases call with ⟨draw, call⟩
      cases call with
      | authorization => cases hentry
      | ingestion tenantId jobId outcome correlationId occurredAt =>
        simp only [AuditRecorder.entryOf, AuditRecorder.requireOutcome] at hentry
        split at hentry
        · cases hentry
        · cases hentry
          exact ⟨_, rfl⟩
      | indexPromotion => cases hentry
      | investigation tenantId principalId investigationId outcome correlationId occurredAt =>
        simp only [AuditRecorder.entryOf, AuditRecorder.requireOutcome] at hentry
        split at hentry
        · cases hentry
        · cases hentry
          exact ⟨_, rfl⟩
    obtain ⟨message, rfl⟩ := hvalue
    refine ⟨message, fun store s => ?_⟩
    unfold AuditRecorder.record
    rw [hentry]
    rfl
  | ok entry =>
    have hempty : ¬ entry.Named := by
      intro hnamed
      simp only [accepted, hentry, if_pos hnamed] at h
      cases h
    rcases redacted_cases redaction entry with ⟨-, message, hmessage⟩ | ⟨hnamed, -⟩
    · refine ⟨message, fun store s => ?_⟩
      unfold AuditRecorder.record
      rw [hentry]
      simp only [AuditRecorder.record.liftExcept, pure_bind, hmessage]
      rfl
    · exact absurd hnamed hempty

theorem step_refused (h : accepted call = none) : trail.step redaction store call = trail := by
  obtain ⟨message, hrecord⟩ := exec_record_refused redaction h
  unfold AuditTrail.step
  rw [hrecord]

theorem step_appended (h : accepted call = some entry) {after : σ}
    (happend : exec (store.append (entry.event redaction)) trail.store = (.ok (), after)) :
    trail.step redaction store call = ⟨after, trail.entries ++ [entry]⟩ := by
  unfold AuditTrail.step
  rw [exec_record_accepted h, exec_bind, happend, (accepted_eq_some h).1]
  rfl

theorem step_raised (h : accepted call = some entry) {error : AuditError} {after : σ}
    (happend : exec (store.append (entry.event redaction)) trail.store = (.error error, after)) :
    trail.step redaction store call = { trail with store := after } := by
  unfold AuditTrail.step
  rw [exec_record_accepted h, exec_bind, happend]

end Calls

/-! ## The store in memory -/

section Memory

variable {redaction : Redaction} {query : AuditQuery}

/-- **The store holds the events of the accepted calls**, in their order. -/
theorem memory_holds (redaction : Redaction) (calls : List (Draw × AuditCall)) :
    Machine.run (AuditTrail.step redaction InMemoryAuditStore.store) ⟨[], []⟩ calls =
      ⟨(calls.filterMap accepted).map (AuditEntry.event redaction), calls.filterMap accepted⟩ := by
  induction calls using List.reverseRecOn with
  | nil => rfl
  | append_singleton calls call ih =>
    rw [Machine.run_concat, ih, List.filterMap_append]
    cases h : accepted call with
    | none =>
      rw [step_refused h, List.filterMap_cons_none h, List.filterMap_nil, List.append_nil]
    | some entry =>
      have happend : exec (InMemoryAuditStore.store.append (entry.event redaction))
          ((calls.filterMap accepted).map (AuditEntry.event redaction)) =
            (.ok (), (calls.filterMap accepted).map (AuditEntry.event redaction) ++
              [entry.event redaction]) := rfl
      rw [step_appended h happend, List.filterMap_cons_some h, List.filterMap_nil, List.map_append]
      rfl

theorem memory_query {entries : List AuditEntry} (h : redaction.Distinguishes query entries)
    (hnamed : query.Named) :
    exec (AuditRecorder.query redaction InMemoryAuditStore.store query)
        (entries.map (AuditEntry.event redaction)) =
      (.ok (((entries.filter query.selects).take query.limit).map (AuditEntry.event redaction)),
        entries.map (AuditEntry.event redaction)) := by
  have hrun : exec (InMemoryAuditStore.store.query (query.redacted redaction))
      (entries.map (AuditEntry.event redaction)) =
        (.ok (((entries.map (AuditEntry.event redaction)).filter
          (InMemoryAuditStore.matchesQuery (query.redacted redaction))).take query.limit),
            entries.map (AuditEntry.event redaction)) := rfl
  rw [exec_query _ _ hnamed, hrun, filter_event h, List.map_take]

end Memory

end GroundedOps
