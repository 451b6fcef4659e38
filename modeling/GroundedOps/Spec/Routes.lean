import GroundedOps.Lib.Machine
import GroundedOps.Spec.Quotas

/-!
# The routes under a quota

`interfaces/http/search.py` and `interfaces/http/ask.py`: what a request does with its lease, from
`_reserve` to `quotas.release`. Any number of requests are under way at one enforcer over the
in-memory backend, and a step is what one of them does up to its next point. The handlers behind
the routes are not modelled: an event says how theirs went.
-/

namespace GroundedOps

inductive Route
  | search | ask
  deriving DecidableEq, Repr

/-- `HTTPException` -/
structure HttpException where
  statusCode : ℕ
  detail : String
  /-- the header `Retry-After` -/
  retryAfter : Option String := none
  deriving DecidableEq, Repr

/-- What becomes of a request. -/
inductive Reply
  | returned
  | refused (error : HttpException)
  /-- any other exception -/
  | raised
  deriving DecidableEq, Repr

/-- Where a request stands. -/
inductive RoutePoint
  /-- in `retriever.retrieve`, inside the `try` of `search` -/
  | retrieving
  /-- in `executor.start`, inside the `try` of `ask` -/
  | starting
  /-- `ask` has returned its response, and nobody has asked `_stream` for a line -/
  | responded
  /-- in the loop of `_stream` -/
  | streaming
  /-- in the `finally` of `_stream`, at `session.cancel()` -/
  | cancelling (reply : Reply)
  /-- at `quotas.release(lease)` -/
  | releasing (reply : Reply)
  | ended (reply : Reply)
  /-- nothing will release the lease -/
  | lost
  deriving DecidableEq, Repr

structure Request where
  principal : Principal
  /-- the variable `lease` -/
  lease : Option QuotaLease := none
  point : RoutePoint
  /-- how often the request has called `quotas.release` -/
  releases : ℕ := 0

/-! ## A request -/

namespace Request

/-- `_reserve`, and the way into the `try`. -/
def reserve (route : Route) (principal : Principal) (decision : QuotaDecision) : Request :=
  if decision.outcome = .backendUnavailable then
    { principal, point := .ended (.refused ⟨503, "quota temporarily unavailable", none⟩) }
  else if decision.outcome ≠ .allowed then
    let retryAfter := toString decision.retryAfterSeconds
    { principal, point := .ended (.refused ⟨429, "quota exceeded", some retryAfter⟩) }
  else
    match route with
    | .search => { principal, lease := decision.lease, point := .retrieving }
    | .ask => { principal, lease := decision.lease, point := .starting }

/-- What happens to a request. -/
inductive Event
  /-- `retrieve` or `start` returns -/
  | returns
  /-- it raises `RetrievalUnavailable` -/
  | retrievalUnavailable
  /-- it raises another exception, which may be no `Exception` -/
  | raises (isException : Bool)
  /-- the server asks `_stream` for its first line -/
  | begins
  /-- the server gives the response up before that -/
  | dropped
  /-- the loop of `_stream` ends, is left or is thrown out of -/
  | leaves (reply : Reply)
  /-- `session.cancel()` returns -/
  | cancelled
  /-- it raises -/
  | cancelRaises
  /-- `quotas.release(lease)` -/
  | releases
  deriving DecidableEq, Repr

/-- The way of a request through its route. An event that cannot happen where the request stands
changes nothing. -/
def pass : RoutePoint → Event → RoutePoint
  | .retrieving, .returns => .releasing .returned
  | .retrieving, .retrievalUnavailable =>
    .releasing (.refused ⟨503, "retrieval temporarily unavailable", none⟩)
  | .retrieving, .raises _ => .releasing .raised
  | .starting, .returns => .responded
  -- `except Exception` in `ask`, where `search` has a `finally`
  | .starting, .retrievalUnavailable => .releasing .raised
  | .starting, .raises isException => if isException then .releasing .raised else .lost
  | .responded, .begins => .streaming
  | .responded, .dropped => .lost
  | .streaming, .leaves reply => .cancelling reply
  | .cancelling reply, .cancelled => .releasing reply
  | .cancelling _, .cancelRaises => .lost
  | .releasing reply, .releases => .ended reply
  | point, _ => point

/-- Whether the event is the request's call of `quotas.release`. -/
def atRelease (request : Request) (event : Event) : Bool :=
  match request.point, event with
  | .releasing _, .releases => true
  | _, _ => false

def proceed (request : Request) (event : Event) : Request :=
  { request with
    point := pass request.point event
    releases := request.releases + if request.atRelease event then 1 else 0 }

end Request

/-! ## All of them -/

structure Gateway where
  buckets : Buckets := fun _ => none
  /-- in the order of their reservations -/
  requests : List Request := []
  /-- the latest timestamp so far -/
  latest : Option ℤ := none

inductive GatewayAction
  /-- `_reserve`, at the time and with the token that it draws -/
  | arrive (route : Route) (principal : Principal) (at' : ℤ) (token : String)
  /-- the n-th request goes on -/
  | proceed (n : ℕ) (event : Request.Event)

def Gateway.step (e : QuotaEnforcer) (g : Gateway) : GatewayAction → Gateway
  | .arrive route principal at' token =>
    let (decision, buckets) := e.acquire g.buckets principal .search at' token
    { buckets
      requests := g.requests ++ [Request.reserve route principal decision]
      latest := some at' }
  | .proceed n event =>
    match g.requests[n]? with
    | none => g
    | some request =>
      { g with
        buckets := if request.atRelease event then (QuotaEnforcer.release g.buckets request.lease).2
          else g.buckets
        requests := g.requests.set n (request.proceed event) }

/-- Timestamps do not decrease. -/
def GatewayAction.timely (g : Gateway) : GatewayAction → Prop
  | .arrive _ _ at' _ => ∀ t, g.latest = some t → t ≤ at'
  | .proceed .. => True

end GroundedOps
