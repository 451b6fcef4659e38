import GroundedOps.Spec.Quotas

/-!
# The two quota backends

`PostgresQuotaBackend` of `adapters/postgres/quota_backend.py`, beside the in-memory backend
of `modules/policy/quotas.py`. A call runs in a transaction of its own, which commits, so its
statements are steps of one function; the database errors that it wraps are not modelled.

`ReservationHistory` is the in-memory backend with the reservations it has allowed, and
`QuotaBackends` the two backends under the same calls. A `release` is of any lease.
-/

namespace GroundedOps

/-! ## The table -/

/-- The rows of `quota_buckets`, under their `scope_key`. -/
abbrev QuotaRows := String → Option Bucket

namespace PostgresQuotaBackend

/-- `INSERT ... ON CONFLICT (scope_key) DO NOTHING` -/
def insert (windowStarted : ℤ) : Option Bucket → Option Bucket
  | none => some { windowStarted }
  | some row => some row

/-- `UPDATE quota_buckets SET window_started=:started, request_count=0, active_count=0` -/
def reset (windowStarted : ℤ) : Option Bucket → Option Bucket :=
  Option.map fun _ => { windowStarted }

/-- The loop over the rows read, each with its `scope_key`: a row of another window is reset,
and the first row at a limit ends the call. -/
def check (limits : QuotaLimits) (now windowStarted : ℤ) :
    List (String × Bucket) → QuotaRows → Option BackendQuotaResult × QuotaRows
  | [], rows => (none, rows)
  | (scope, row) :: rest, rows =>
    let stale := row.windowStarted ≠ windowStarted
    let requestCount := if stale then 0 else row.requestCount
    let activeCount := if stale then 0 else row.activeCount
    let rows := if stale then Cells.touch (reset windowStarted) rows scope else rows
    if limits.maxRequests ≤ requestCount then
      (some { outcome := .rateLimited
              retryAfterSeconds := retryAfter windowStarted limits now }, rows)
    else if limits.maxConcurrent ≤ activeCount then
      (some { outcome := .concurrentLimited }, rows)
    else check limits now windowStarted rest rows

/-- The rows that `SELECT ... FOR UPDATE` returns, one for each scope. -/
def select (rows : QuotaRows) (scopes : List String) : List (String × Bucket) :=
  scopes.filterMap fun scope => (rows scope).map fun row => (scope, row)

def reserve (rows : QuotaRows) (scopes : List String) (limits : QuotaLimits) (now : ℤ) :
    BackendQuotaResult × QuotaRows :=
  let windowStarted := windowStart now limits.windowSeconds
  let rows := Cells.touchAll (insert windowStarted) rows scopes
  match check limits now windowStarted (select rows scopes) rows with
  | (some result, rows) => (result, rows)
  | (none, rows) =>
    ({ outcome := .allowed, lease := some ⟨"postgres", scopes, windowStarted⟩ },
      Cells.touchAll (Option.map InMemoryQuotaBackend.count) rows scopes)

/-- `SET active_count=GREATEST(active_count-1, 0)`, in the rows of the lease's window. -/
def release (rows : QuotaRows) (lease : QuotaLease) : QuotaRows :=
  Cells.touchAll (Option.map (InMemoryQuotaBackend.uncount lease.windowStarted)) rows lease.scopes

end PostgresQuotaBackend

/-! ## Histories of calls -/

inductive QuotaCall
  | reserve (scopes : List String) (now : ℤ) (token : String)
  | release (lease : QuotaLease)

/-- The in-memory backend, with the scopes and the timestamp of each reservation allowed. -/
structure ReservationHistory where
  buckets : Buckets := fun _ => none
  allowed : List (List String × ℤ) := []

namespace ReservationHistory

def step (limits : QuotaLimits) (h : ReservationHistory) : QuotaCall → ReservationHistory
  | .reserve scopes now token =>
    let (result, buckets) := InMemoryQuotaBackend.reserve h.buckets scopes limits now token
    let allowed := if result.map BackendQuotaResult.outcome = some .allowed then [(scopes, now)] else []
    { buckets, allowed := h.allowed ++ allowed }
  | .release lease => { h with buckets := InMemoryQuotaBackend.release h.buckets lease }

/-- The reservations allowed of the scope in the window. -/
def allowedIn (limits : QuotaLimits) (h : ReservationHistory) (scope : String) (window : ℤ) : ℕ :=
  h.allowed.countP fun (scopes, now) =>
    scopes.contains scope && windowStart now limits.windowSeconds == window

end ReservationHistory

/-- The two backends under the same calls. -/
structure QuotaBackends where
  buckets : Buckets := fun _ => none
  rows : QuotaRows := fun _ => none

/-- A call, with the limits it is made with. -/
structure LimitedCall where
  limits : QuotaLimits
  call : QuotaCall

namespace QuotaBackends

/-- What the two backends return: an outcome and a delay each, `none` where one raises and
where the call is a release. -/
def results (backends : QuotaBackends) (limited : LimitedCall) :
    Option (QuotaOutcome × ℤ) × Option (QuotaOutcome × ℤ) :=
  match limited.call with
  | .reserve scopes now token =>
    let memory := (InMemoryQuotaBackend.reserve backends.buckets scopes limited.limits now token).1
    let postgres := (PostgresQuotaBackend.reserve backends.rows scopes limited.limits now).1
    (memory.map fun result => (result.outcome, result.retryAfterSeconds),
      some (postgres.outcome, postgres.retryAfterSeconds))
  | .release _ => (none, none)

def step (backends : QuotaBackends) (limited : LimitedCall) : QuotaBackends :=
  match limited.call with
  | .reserve scopes now token =>
    { buckets := (InMemoryQuotaBackend.reserve backends.buckets scopes limited.limits now token).2
      rows := (PostgresQuotaBackend.reserve backends.rows scopes limited.limits now).2 }
  | .release lease =>
    { buckets := InMemoryQuotaBackend.release backends.buckets lease
      rows := PostgresQuotaBackend.release backends.rows lease }

end QuotaBackends

end GroundedOps
