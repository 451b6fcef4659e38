import GroundedOps.Lib.Machine

/-!
# The circuit breaker

`modules/resilience/policies.py`. `CircuitBreaker.attempt` is a context manager
around a dependency call: `acquire` on entry, and on exit `recordFailure` if the
body raised an `Exception`, `recordSuccess` if it returned. A body that is closed
with a `BaseException` (a `GeneratorExit`, as `AskSession.cancel` throws into the
suspended stream) leaves through neither branch.

`CircuitHistory` is the breaker together with the attempts admitted and not yet
ended, and `CircuitHistory.step` one event of a history of attempts, overlapping
or not. Times are readings of the clock: any ordered type with a subtraction.
-/

namespace GroundedOps

inductive CircuitState
  | closed
  | open
  | halfOpen
  deriving DecidableEq, Repr

/-- What `_acquire` raises instead of admitting the attempt. -/
inductive AcquireError
  /-- `CircuitOpenError` -/
  | circuitOpen
  /-- `RuntimeError("open circuit requires timestamp")` -/
  | requiresTimestamp
  deriving DecidableEq, Repr

/-- The constructor's arguments; it rejects a policy that is not positive. -/
structure CircuitPolicy (T : Type*) [Zero T] [LT T] where
  failureThreshold : ℕ
  recoveryTimeoutSeconds : T
  failureThreshold_pos : 0 < failureThreshold
  recoveryTimeoutSeconds_pos : 0 < recoveryTimeoutSeconds

/-- The fields that the lock guards. -/
structure CircuitBreaker (T : Type*) where
  state : CircuitState := .closed
  failures : ℕ := 0
  openedAt : Option T := none
  deriving DecidableEq, Repr

namespace CircuitBreaker

variable {T : Type*}

/-- `_open`: `now` is the reading of the clock. -/
def «open» (b : CircuitBreaker T) (now : T) : CircuitBreaker T :=
  { b with state := .open, openedAt := some now }

def recordSuccess (_ : CircuitBreaker T) : CircuitBreaker T :=
  { state := .closed, failures := 0, openedAt := none }

variable [Zero T] [LinearOrder T] [Sub T] (p : CircuitPolicy T)

def acquire (b : CircuitBreaker T) (now : T) : Except AcquireError (CircuitBreaker T) :=
  match b.state with
  | .closed => .ok b
  | .halfOpen => .error .circuitOpen
  | .open =>
    match b.openedAt with
    | none => .error .requiresTimestamp
    | some openedAt =>
      if now - openedAt < p.recoveryTimeoutSeconds then .error .circuitOpen
      else .ok { b with state := .halfOpen }

def recordFailure (b : CircuitBreaker T) (now : T) : CircuitBreaker T :=
  if b.state = .halfOpen then b.open now
  else
    let b := { b with failures := b.failures + 1 }
    if p.failureThreshold ≤ b.failures then b.open now else b

end CircuitBreaker

/-- How the body of an attempt ends. -/
inductive BodyEnd (T : Type*)
  /-- it returns -/
  | returned
  /-- it raises an `Exception`; the reading is the one `_open` takes, if it runs -/
  | raised (now : T)
  /-- it is closed with a `BaseException` such as `GeneratorExit` -/
  | closed
  deriving DecidableEq, Repr

/-- One event of a history of attempts; attempts are told apart by their number. -/
inductive AttemptEvent (T : Type*)
  | enter (attempt : ℕ) (now : T)
  | exit (attempt : ℕ) (how : BodyEnd T)
  deriving DecidableEq, Repr

/-- A breaker and the attempts it has admitted that have not ended. -/
structure CircuitHistory (T : Type*) where
  breaker : CircuitBreaker T := {}
  inFlight : List ℕ := []
  deriving DecidableEq, Repr

namespace CircuitHistory

variable {T : Type*} [Zero T] [LinearOrder T] [Sub T] (p : CircuitPolicy T)

/-- The end of an attempt, as `attempt` records it. -/
def record (b : CircuitBreaker T) : BodyEnd T → CircuitBreaker T
  | .returned => b.recordSuccess
  | .raised now => b.recordFailure p now
  | .closed => b

/-- An attempt enters if it is not already running and the breaker admits it; only a
running attempt ends. -/
def step (h : CircuitHistory T) : AttemptEvent T → CircuitHistory T
  | .enter i now =>
    if i ∈ h.inFlight then h
    else
      match h.breaker.acquire p now with
      | .ok b => { breaker := b, inFlight := i :: h.inFlight }
      | .error _ => h
  | .exit i how =>
    if i ∈ h.inFlight then
      { breaker := record p h.breaker how, inFlight := h.inFlight.erase i }
    else h

end CircuitHistory

/-! ## Attempts in turn -/

/-- An attempt that no other overlaps, whose body returns or raises an `Exception`. -/
structure SequentialAttempt (T : Type*) where
  /-- the reading of the clock that `_acquire` takes, if it takes one -/
  enteredAt : T
  /-- `none` if the body returns, and else the reading that `_open` takes, if it runs -/
  raisedAt : Option T
  deriving DecidableEq, Repr

namespace CircuitBreaker

variable {T : Type*} [Zero T] [LinearOrder T] [Sub T] (p : CircuitPolicy T)

/-- `attempt`: what `_acquire` raises, if it does, and the breaker afterwards. -/
def attempt (b : CircuitBreaker T) (a : SequentialAttempt T) :
    Except AcquireError Unit × CircuitBreaker T :=
  match b.acquire p a.enteredAt with
  | .error error => (.error error, b)
  | .ok admitted =>
    match a.raisedAt with
    | none => (.ok (), admitted.recordSuccess)
    | some now => (.ok (), admitted.recordFailure p now)

/-- A breaker and the attempts that it has been asked for, with what each came to. -/
structure Asked (T : Type*) where
  breaker : CircuitBreaker T := {}
  history : List (SequentialAttempt T × Except AcquireError Unit) := []

/-- One attempt more. -/
def Asked.ask (s : Asked T) (a : SequentialAttempt T) : Asked T :=
  let (result, breaker) := s.breaker.attempt p a
  { breaker := breaker, history := s.history ++ [(a, result)] }

end CircuitBreaker

/-! ## Attempts as they overlap -/

/-- The atomic steps of an attempt whose body returns or raises. -/
inductive AttemptStep
  | acquire
  | success
  | failure
  deriving DecidableEq, Repr

/-- A step of one attempt, at a reading of the clock. -/
structure TimedStep (T : Type*) where
  now : T
  attempt : ℕ
  step : AttemptStep
  deriving DecidableEq, Repr

variable {T : Type*}

def TimedStep.event (e : TimedStep T) : AttemptEvent T :=
  match e.step with
  | .acquire => .enter e.attempt e.now
  | .success => .exit e.attempt .returned
  | .failure => .exit e.attempt (.raised e.now)

def CircuitHistory.timedStep [Zero T] [LinearOrder T] [Sub T] (p : CircuitPolicy T)
    (h : CircuitHistory T) (e : TimedStep T) : CircuitHistory T :=
  h.step p e.event

end GroundedOps
