import GroundedOps.Lib.Hoare
import GroundedOps.Lib.Table
import GroundedOps.Spec.Policy

/-!
# The audit trail

`AuditRecorder` of `modules/audit/recorder.py` and its two stores: `InMemoryAuditStore` of the
same file and `PostgresAuditStore` of `adapters/postgres/audit_store.py`, whose statements run
in a transaction of their own. What a call draws from `uuid4` and from the clock is a `Draw`.

An `AuditEntry` is what the private `_record` is called with, the correlation chosen: the event
before its identifiers are fingerprinted. A run of calls keeps the entries of those that
returned; no code reads them.
-/

namespace GroundedOps

open Hoare

/-! ## The vocabulary -/

inductive AuditCategory
  | authorization | ingestion | indexPromotion | investigation
  deriving DecidableEq, Repr

inductive AuditAction
  | readDocument | runIngestion | promoteIndexVersion | runInvestigation
  deriving DecidableEq, Repr

inductive AuditOutcome
  | allowed | denied | retrying | completed | failed | deleted | promoted | rejected | started
  | partial_ | cancelled
  deriving DecidableEq, Repr

def AuditCategory.all : List AuditCategory :=
  [.authorization, .ingestion, .indexPromotion, .investigation]

def AuditAction.all : List AuditAction :=
  [.readDocument, .runIngestion, .promoteIndexVersion, .runInvestigation]

def AuditOutcome.all : List AuditOutcome :=
  [.allowed, .denied, .retrying, .completed, .failed, .deleted, .promoted, .rejected, .started,
    .partial_, .cancelled]

/-- The members of `AuditReason`. -/
def AuthorizationReason.all : List AuthorizationReason :=
  [.public, .principal, .role, .group, .policyDenied, .unknownPrincipal, .crossTenant,
    .actionDenied]

def AuditCategory.value : AuditCategory → String
  | .authorization => "authorization"
  | .ingestion => "ingestion"
  | .indexPromotion => "index_promotion"
  | .investigation => "investigation"

def AuditAction.value : AuditAction → String
  | .readDocument => "read_document"
  | .runIngestion => "run_ingestion"
  | .promoteIndexVersion => "promote_index_version"
  | .runInvestigation => "run_investigation"

def AuditOutcome.value : AuditOutcome → String
  | .allowed => "allowed"
  | .denied => "denied"
  | .retrying => "retrying"
  | .completed => "completed"
  | .failed => "failed"
  | .deleted => "deleted"
  | .promoted => "promoted"
  | .rejected => "rejected"
  | .started => "started"
  | .partial_ => "partial"
  | .cancelled => "cancelled"

def AuthorizationReason.value : AuthorizationReason → String
  | .public => "public"
  | .principal => "principal"
  | .role => "role"
  | .group => "group"
  | .policyDenied => "policy_denied"
  | .unknownPrincipal => "unknown_principal"
  | .crossTenant => "cross_tenant"
  | .actionDenied => "action_denied"

/-- `Enum(value)`: the member with the value; `none` is its `ValueError`. -/
def memberOf {α : Type} (members : List α) (valueOf : α → String) (text : String) : Option α :=
  members.find? fun member => valueOf member == text

/-! ## Events and queries -/

structure AuditEvent where
  eventId : String
  occurredAt : ℤ
  category : AuditCategory
  action : AuditAction
  outcome : AuditOutcome
  tenantRef : String
  actorRef : Option String
  resourceRef : String
  correlationRef : String
  reason : Option AuthorizationReason
  deriving DecidableEq, Repr

structure StoredAuditQuery where
  tenantRef : String
  category : Option AuditCategory := none
  outcome : Option AuditOutcome := none
  actorRef : Option String := none
  resourceRef : Option String := none
  correlationRef : Option String := none
  limit : ℕ := 100

def AuditQuery.check (limit : ℕ) : Bool := 1 ≤ limit && limit ≤ 1000

structure AuditQuery where
  tenantId : String
  category : Option AuditCategory := none
  outcome : Option AuditOutcome := none
  actorId : Option String := none
  resourceId : Option String := none
  correlationId : Option String := none
  limit : ℕ := 100
  valid : AuditQuery.check limit = true

inductive AuditError
  /-- `ValueError`, with its text -/
  | value (message : String)
  /-- an error of the database -/
  | database
  deriving DecidableEq, Repr

/-- The protocol `AuditStore`, over what a store holds. -/
structure AuditStore (σ : Type) where
  append : AuditEvent → Act AuditError σ Unit
  query : StoredAuditQuery → Act AuditError σ (List AuditEvent)

/-! ## The store in memory -/

namespace InMemoryAuditStore

/-- The conditions of `query`. -/
def matchesQuery (query : StoredAuditQuery) (event : AuditEvent) : Bool :=
  event.tenantRef == query.tenantRef && query.category.all (event.category == ·) &&
    query.outcome.all (event.outcome == ·) &&
    query.actorRef.all (event.actorRef == some ·) &&
    query.resourceRef.all (event.resourceRef == ·) &&
    query.correlationRef.all (event.correlationRef == ·)

def append (event : AuditEvent) : Act AuditError (List AuditEvent) Unit :=
  modify (· ++ [event])

def query (query : StoredAuditQuery) : Act AuditError (List AuditEvent) (List AuditEvent) := do
  let events ← get
  return (events.filter (matchesQuery query)).take query.limit

def store : AuditStore (List AuditEvent) := ⟨append, query⟩

end InMemoryAuditStore

/-! ## The store in PostgreSQL -/

/-- A row of `audit_events`. -/
structure AuditRow where
  sequenceId : ℕ
  eventId : String
  occurredAt : ℤ
  category : String
  action : String
  outcome : String
  tenantRef : String
  actorRef : Option String
  resourceRef : String
  correlationRef : String
  reason : Option String
  deriving DecidableEq, Repr

/-- The widths of the columns, and the `CHECK` constraints of the migration `0003`. -/
def AuditRow.fits (row : AuditRow) : Bool :=
  row.eventId.length ≤ 32 && row.category.length ≤ 32 && row.action.length ≤ 32 &&
    row.outcome.length ≤ 20 && row.tenantRef.length ≤ 64 && row.actorRef.all (·.length ≤ 64) &&
    row.resourceRef.length ≤ 64 && row.correlationRef.length ≤ 64 &&
    row.reason.all (·.length ≤ 32) &&
    ["authorization", "ingestion", "index_promotion", "investigation"].contains row.category &&
    ["allowed", "denied", "retrying", "completed", "failed", "deleted", "promoted", "rejected",
      "started", "partial", "cancelled"].contains row.outcome

abbrev AuditEvents := Table AuditRow.eventId AuditRow.sequenceId

structure AuditTable where
  rows : AuditEvents := ∅
  /-- the next value of the `bigserial`; an insertion that fails has drawn one too -/
  nextSequenceId : ℕ := 1

namespace PostgresAuditStore

/-- The values that `append` binds. -/
def row (sequenceId : ℕ) (event : AuditEvent) : AuditRow where
  sequenceId := sequenceId
  eventId := event.eventId
  occurredAt := event.occurredAt
  category := event.category.value
  action := event.action.value
  outcome := event.outcome.value
  tenantRef := event.tenantRef
  actorRef := event.actorRef
  resourceRef := event.resourceRef
  correlationRef := event.correlationRef
  reason := event.reason.map AuthorizationReason.value

def append (event : AuditEvent) : Act AuditError AuditTable Unit := do
  let table ← get
  let new := row table.nextSequenceId event
  set { table with nextSequenceId := table.nextSequenceId + 1 }
  -- neither key may be taken: this `INSERT` has no `ON CONFLICT`
  if !new.fits || table.rows.rows.any (fun old => old.eventId == new.eventId ||
      old.sequenceId == new.sequenceId) then
    throw .database
  match table.rows.insertNew new with
  | none => throw .database
  | some rows => set (⟨rows, table.nextSequenceId + 1⟩ : AuditTable)

/-- The `WHERE` of the query: one comparison for each value that is given. -/
def selects (query : StoredAuditQuery) (row : AuditRow) : Bool :=
  row.tenantRef == query.tenantRef &&
    (query.category.map AuditCategory.value).all (row.category == ·) &&
    (query.outcome.map AuditOutcome.value).all (row.outcome == ·) &&
    query.actorRef.all (row.actorRef == some ·) &&
    query.resourceRef.all (row.resourceRef == ·) &&
    query.correlationRef.all (row.correlationRef == ·)

/-- `ORDER BY occurred_at, sequence_id` -/
def orderLe : AuditRow → AuditRow → Bool :=
  Table.orderBy AuditRow.occurredAt (fun a b => a ≤ b) fun a b => a.sequenceId ≤ b.sequenceId

/-- `_event`; an empty text in a column that may be `NULL` is read as `None`. -/
def event (row : AuditRow) : Option AuditEvent := do
  let category ← memberOf AuditCategory.all AuditCategory.value row.category
  let action ← memberOf AuditAction.all AuditAction.value row.action
  let outcome ← memberOf AuditOutcome.all AuditOutcome.value row.outcome
  let reason ← match row.reason.filter (!·.isEmpty) with
    | none => some none
    | some text => (memberOf AuthorizationReason.all AuthorizationReason.value text).map some
  return { eventId := row.eventId
           occurredAt := row.occurredAt
           category := category
           action := action
           outcome := outcome
           tenantRef := row.tenantRef
           actorRef := row.actorRef.filter (!·.isEmpty)
           resourceRef := row.resourceRef
           correlationRef := row.correlationRef
           reason := reason }

def query (query : StoredAuditQuery) : Act AuditError AuditTable (List AuditEvent) := do
  let table ← get
  let rows := ((table.rows.rows.filter (selects query)).mergeSort orderLe).take query.limit
  match rows.mapM event with
  | none => throw (.value "is not a valid member")
  | some events => return events

def store : AuditStore AuditTable := ⟨append, query⟩

end PostgresAuditStore

/-! ## The recorder -/

/-- HMAC-SHA256 under the redaction key, in hexadecimal digits. -/
structure Redaction where
  hexdigest : String → String
  length_hexdigest : ∀ message, (hexdigest message).length = 64

/-- What one call draws: a correlation, used only where it is given none, an event id, and the
time, used only where it is given none. -/
structure Draw where
  correlation : String
  eventId : String
  now : ℤ

/-- The arguments of `_record`, with the correlation and the time it settles on. -/
structure AuditEntry where
  eventId : String
  occurredAt : ℤ
  tenantId : String
  actorId : Option String
  resourceId : String
  correlation : String
  category : AuditCategory
  action : AuditAction
  outcome : AuditOutcome
  reason : Option AuthorizationReason
  deriving DecidableEq, Repr

/-- A call of one of the four recording methods. -/
inductive AuditCall
  | authorization (tenantId principalId documentId : String) (allowed : Bool)
      (reason : AuthorizationReason) (correlationId : Option String) (occurredAt : Option ℤ)
  | ingestion (tenantId jobId : String) (outcome : AuditOutcome) (correlationId : Option String)
      (occurredAt : Option ℤ)
  | indexPromotion (tenantId versionId : String) (promoted : Bool)
      (correlationId : Option String) (occurredAt : Option ℤ)
  | investigation (tenantId principalId investigationId : String) (outcome : AuditOutcome)
      (correlationId : Option String) (occurredAt : Option ℤ)

namespace AuditRecorder

variable {σ : Type} (redaction : Redaction) (store : AuditStore σ)

/-- `_fingerprint` -/
def fingerprint (field value : String) : Except AuditError String :=
  if value.isEmpty then .error (.value ("audit " ++ field ++ " must not be empty"))
  else .ok (redaction.hexdigest (field ++ "\x00" ++ value))

/-- A fingerprint of what may be `None`. -/
def fingerprintOption (field : String) : Option String → Except AuditError (Option String)
  | none => .ok none
  | some value => some <$> fingerprint redaction field value

/-- `_require_outcome` -/
def requireOutcome (outcome : AuditOutcome) (allowed : List AuditOutcome) :
    Except AuditError Unit :=
  if outcome ∈ allowed then .ok () else .error (.value "invalid audit outcome for category")

/-- `correlation_id or uuid4().hex` -/
def settleCorrelation (correlationId : Option String) (draw : Draw) : String :=
  (correlationId.filter (!·.isEmpty)).getD draw.correlation

/-- The event of `_record`. -/
def redacted (entry : AuditEntry) : Except AuditError AuditEvent := do
  let tenantRef ← fingerprint redaction "tenant" entry.tenantId
  let actorRef ← fingerprintOption redaction "actor" entry.actorId
  let resourceRef ← fingerprint redaction "resource" entry.resourceId
  let correlationRef ← fingerprint redaction "correlation" entry.correlation
  return { eventId := entry.eventId
           occurredAt := entry.occurredAt
           category := entry.category
           action := entry.action
           outcome := entry.outcome
           tenantRef := tenantRef
           actorRef := actorRef
           resourceRef := resourceRef
           correlationRef := correlationRef
           reason := entry.reason }

/-- The four recording methods, as far as the arguments of `_record`. -/
def entryOf (draw : Draw) : AuditCall → Except AuditError AuditEntry
  | .authorization tenantId principalId documentId allowed reason correlationId occurredAt =>
    .ok { eventId := draw.eventId
          occurredAt := occurredAt.getD draw.now
          tenantId := tenantId
          actorId := some principalId
          resourceId := documentId
          correlation := settleCorrelation correlationId draw
          category := .authorization
          action := .readDocument
          outcome := if allowed then .allowed else .denied
          reason := some reason }
  | .ingestion tenantId jobId outcome correlationId occurredAt => do
    requireOutcome outcome [.retrying, .completed, .failed, .deleted]
    return { eventId := draw.eventId
             occurredAt := occurredAt.getD draw.now
             tenantId := tenantId
             actorId := none
             resourceId := jobId
             correlation := settleCorrelation correlationId draw
             category := .ingestion
             action := .runIngestion
             outcome := outcome
             reason := none }
  | .indexPromotion tenantId versionId promoted correlationId occurredAt =>
    .ok { eventId := draw.eventId
          occurredAt := occurredAt.getD draw.now
          tenantId := tenantId
          actorId := none
          resourceId := versionId
          correlation := settleCorrelation correlationId draw
          category := .indexPromotion
          action := .promoteIndexVersion
          outcome := if promoted then .promoted else .rejected
          reason := none }
  | .investigation tenantId principalId investigationId outcome correlationId occurredAt => do
    requireOutcome outcome [.started, .completed, .failed, .partial_, .cancelled]
    return { eventId := draw.eventId
             occurredAt := occurredAt.getD draw.now
             tenantId := tenantId
             actorId := some principalId
             resourceId := investigationId
             correlation := settleCorrelation correlationId draw
             category := .investigation
             action := .runInvestigation
             outcome := outcome
             reason := none }

/-- A recording method: the event it has appended, or what it raised. -/
def record (draw : Draw) (call : AuditCall) : Act AuditError σ AuditEvent := do
  let entry ← liftExcept (entryOf draw call)
  let event ← liftExcept (redacted redaction entry)
  store.append event
  return event
where
  liftExcept {α : Type} : Except AuditError α → Act AuditError σ α
    | .ok value => pure value
    | .error error => throw error

/-- The query of the store for a caller's query. -/
def stored (query : AuditQuery) : Except AuditError StoredAuditQuery := do
  let tenantRef ← fingerprint redaction "tenant" query.tenantId
  let actorRef ← fingerprintOption redaction "actor" query.actorId
  let resourceRef ← fingerprintOption redaction "resource" query.resourceId
  let correlationRef ← fingerprintOption redaction "correlation" query.correlationId
  return { tenantRef := tenantRef
           category := query.category
           outcome := query.outcome
           actorRef := actorRef
           resourceRef := resourceRef
           correlationRef := correlationRef
           limit := query.limit }

def query (query : AuditQuery) : Act AuditError σ (List AuditEvent) :=
  match stored redaction query with
  | .ok query => store.query query
  | .error error => throw error

end AuditRecorder

/-! ## Runs of calls -/

/-- A store, and the entries of the calls that have returned. -/
structure AuditTrail (σ : Type) where
  store : σ
  entries : List AuditEntry := []

/-- One call, however it ends. -/
def AuditTrail.step {σ : Type} (redaction : Redaction) (store : AuditStore σ)
    (trail : AuditTrail σ) (call : Draw × AuditCall) : AuditTrail σ :=
  match exec (AuditRecorder.record redaction store call.1 call.2) trail.store,
      AuditRecorder.entryOf call.1 call.2 with
  | (.ok _, after), .ok entry => ⟨after, trail.entries ++ [entry]⟩
  | (_, after), _ => { trail with store := after }

end GroundedOps
