import GroundedOps.Lib.Cells
import GroundedOps.Lib.Machine
import GroundedOps.Spec.Policy

/-!
# Quotas

`modules/policy/quotas.py`: the in-memory backend that reserves fixed-window buckets, and
the enforcer that names the buckets of a principal. A call of the backend runs under its
lock. Instants are in microseconds, the resolution of the clock, and the token of a lease
is an argument, drawn by the caller's `uuid4`.

`BackendHistory` is a backend with the leases it has granted, and `PrincipalHistory` an
enforcer with the leases that each principal has received.
-/

namespace GroundedOps

inductive QuotaOperation
  | search | ingestion | investigation
  deriving DecidableEq, Repr

def QuotaOperation.value : QuotaOperation → String
  | .search => "search"
  | .ingestion => "ingestion"
  | .investigation => "investigation"

inductive QuotaOutcome
  | allowed | rateLimited | concurrentLimited | backendUnavailable
  deriving DecidableEq, Repr

/-- The constructor rejects limits that are not positive. -/
structure QuotaLimits where
  maxRequests : ℕ
  windowSeconds : ℕ
  maxConcurrent : ℕ
  maxRequests_pos : 0 < maxRequests
  windowSeconds_pos : 0 < windowSeconds
  maxConcurrent_pos : 0 < maxConcurrent

structure QuotaLease where
  token : String
  scopes : List String
  windowStarted : ℤ
  deriving DecidableEq, Repr

structure BackendQuotaResult where
  outcome : QuotaOutcome
  lease : Option QuotaLease := none
  retryAfterSeconds : ℤ := 1
  deriving DecidableEq, Repr

structure QuotaDecision where
  outcome : QuotaOutcome
  lease : Option QuotaLease := none
  retryAfterSeconds : ℤ := 1
  deriving DecidableEq, Repr

/-- `_window_start` -/
def windowStart (now : ℤ) (windowSeconds : ℕ) : ℤ := now - now % (windowSeconds * 1000000)

/-- `_retry_after`: the seconds until the window ends, rounded up. -/
def retryAfter (windowStarted : ℤ) (limits : QuotaLimits) (now : ℤ) : ℤ :=
  let windowEnd := windowStarted + limits.windowSeconds * 1000000
  max 1 ((windowEnd - now + 999999) / 1000000)

/-! ## The in-memory backend -/

/-- `_Bucket` -/
structure Bucket where
  windowStarted : ℤ
  requestCount : ℕ := 0
  activeCount : ℕ := 0
  deriving DecidableEq, Repr

abbrev Buckets := String → Option Bucket

namespace InMemoryQuotaBackend

/-- `_current_bucket`, on the bucket of the scope: one of another window is replaced. -/
def currentBucket (windowStarted : ℤ) (bucket : Option Bucket) : Option Bucket :=
  match bucket with
  | none => some { windowStarted }
  | some bucket =>
    if bucket.windowStarted ≠ windowStarted then some { windowStarted } else some bucket

/-- `bucket.request_count += 1` and `bucket.active_count += 1` -/
def count (bucket : Bucket) : Bucket :=
  { bucket with
    requestCount := bucket.requestCount + 1
    activeCount := bucket.activeCount + 1 }

/-- `None` is the error that scopes are required. -/
def reserve (buckets : Buckets) (scopes : List String) (limits : QuotaLimits) (now : ℤ)
    (token : String) : Option BackendQuotaResult × Buckets :=
  if scopes = [] then (none, buckets)
  else
    let windowStarted := windowStart now limits.windowSeconds
    let buckets := Cells.touchAll (currentBucket windowStarted) buckets scopes
    let current := scopes.filterMap buckets
    if current.any fun bucket => limits.maxRequests ≤ bucket.requestCount then
      (some { outcome := .rateLimited
              retryAfterSeconds := retryAfter windowStarted limits now }, buckets)
    else if current.any fun bucket => limits.maxConcurrent ≤ bucket.activeCount then
      (some { outcome := .concurrentLimited }, buckets)
    else
      (some { outcome := .allowed, lease := some ⟨token, scopes, windowStarted⟩ },
        Cells.touchAll (Option.map count) buckets scopes)

/-- What `release` does to the bucket of a scope: nothing, if it is of another window. -/
def uncount (windowStarted : ℤ) (bucket : Bucket) : Bucket :=
  if bucket.windowStarted = windowStarted then
    { bucket with activeCount := bucket.activeCount - 1 }
  else bucket

def release (buckets : Buckets) (lease : QuotaLease) : Buckets :=
  Cells.touchAll (Option.map (uncount lease.windowStarted)) buckets lease.scopes

end InMemoryQuotaBackend

/-! ## Histories of a backend -/

inductive BackendCall
  | reserve (scopes : List String) (now : ℤ) (token : String)
  /-- `release` of the n-th lease that was granted -/
  | release (n : ℕ)

/-- A lease that was granted, and whether it has been released. -/
structure GrantedLease where
  lease : QuotaLease
  released : Bool := false

structure BackendHistory where
  buckets : Buckets := fun _ => none
  leases : List GrantedLease := []
  /-- the latest timestamp so far -/
  latest : Option ℤ := none

def GrantedLease.release (granted : GrantedLease) : GrantedLease := { granted with released := true }

def BackendHistory.step (limits : QuotaLimits) (h : BackendHistory) : BackendCall → BackendHistory
  | .reserve scopes now token =>
    let (result, buckets) := InMemoryQuotaBackend.reserve h.buckets scopes limits now token
    let granted := (result.bind BackendQuotaResult.lease).toList.map fun lease => ⟨lease, false⟩
    { buckets, leases := h.leases ++ granted, latest := some now }
  | .release n =>
    match h.leases[n]? with
    | none => h
    | some granted =>
      { h with
        buckets := InMemoryQuotaBackend.release h.buckets granted.lease
        leases := h.leases.modify n GrantedLease.release }

/-! ## The enforcer -/

/-- The constructor's arguments: the policy, and HMAC-SHA256 under the redaction key. -/
structure QuotaEnforcer where
  policy : QuotaOperation → QuotaLimits
  digest : String → String

namespace QuotaEnforcer

variable (e : QuotaEnforcer)

/-- `_scope` -/
def scope (kind value : String) (operation : QuotaOperation) : String :=
  e.digest (kind ++ "\x00" ++ operation.value ++ "\x00" ++ value)

/-- The scopes that `acquire` reserves. -/
def scopes (principal : Principal) (operation : QuotaOperation) : List String :=
  [e.scope "tenant" principal.tenantId operation, e.scope "principal" principal.id operation]

def acquire (buckets : Buckets) (principal : Principal) (operation : QuotaOperation) (at' : ℤ)
    (token : String) : QuotaDecision × Buckets :=
  let limits := e.policy operation
  match InMemoryQuotaBackend.reserve buckets (e.scopes principal operation) limits at' token with
  | (none, buckets) => ({ outcome := .backendUnavailable, retryAfterSeconds := 1 }, buckets)
  | (some result, buckets) => (⟨result.outcome, result.lease, result.retryAfterSeconds⟩, buckets)

def release (buckets : Buckets) (lease : Option QuotaLease) : Bool × Buckets :=
  match lease with
  | none => (false, buckets)
  | some lease => (true, InMemoryQuotaBackend.release buckets lease)

end QuotaEnforcer

/-! ## Histories of an enforcer -/

inductive PrincipalCall
  | acquire (principal : Principal) (operation : QuotaOperation) (at' : ℤ) (token : String)
  /-- `release` of the lease in the principal's n-th decision -/
  | release (principal : Principal) (n : ℕ)

def PrincipalCall.principal : PrincipalCall → Principal
  | .acquire principal .. => principal
  | .release principal _ => principal

/-- What a call returns. -/
inductive CallResult
  | decision (decision : QuotaDecision)
  | released (released : Bool)
  deriving DecidableEq, Repr

structure PrincipalHistory where
  buckets : Buckets := fun _ => none
  /-- the leases in the decisions that each principal has received, in order -/
  leases : Principal → List (Option QuotaLease) := fun _ => []

def PrincipalHistory.step (e : QuotaEnforcer) (h : PrincipalHistory) :
    PrincipalCall → CallResult × PrincipalHistory
  | .acquire principal operation at' token =>
    let (decision, buckets) := e.acquire h.buckets principal operation at' token
    let leases := Function.update h.leases principal (h.leases principal ++ [decision.lease])
    (.decision decision, { buckets, leases })
  | .release principal n =>
    let lease := (h.leases principal)[n]?.join
    let (released, buckets) := QuotaEnforcer.release h.buckets lease
    (.released released, { h with buckets })

end GroundedOps
