import GroundedOps.Proof.Breaker

/-!
# The breaker as a function of its history

Attempts that do not overlap. What a breaker does with one is told by the attempts before it: how
many admitted ones have failed since the last that returned, and when the last of those failed.

* `Remembers`: what the three fields of a breaker say of the failures since the last success.
* `remembers_ask`: every attempt keeps it.
* `rejected_iff`: **an attempt is rejected if and only if as many failures as the threshold have
  been since the last success and the timeout has not elapsed since the last of them.**
-/

namespace GroundedOps

namespace CircuitBreaker

variable {T : Type*}

/-- How the admitted attempts ended, the latest first. -/
def admittedEnds (history : List (SequentialAttempt T × Except AcquireError Unit)) : List (Option T) :=
  (history.filterMap fun item => item.2.toOption.map fun _ => item.1.raisedAt).reverse

/-- The failures before the first success. -/
def leadingFailures : List (Option T) → List T
  | some now :: ends => now :: leadingFailures ends
  | _ => []

/-- When the admitted attempts failed since the last one that returned, the latest first. -/
def failuresSince (history : List (SequentialAttempt T × Except AcquireError Unit)) : List T :=
  leadingFailures (admittedEnds history)

variable {history : List (SequentialAttempt T × Except AcquireError Unit)} {a : SequentialAttempt T}

/-- A rejected attempt is no failure. -/
theorem failuresSince_rejected {error : AcquireError} :
    failuresSince (history ++ [(a, .error error)]) = failuresSince history := by
  simp [failuresSince, admittedEnds, List.filterMap_append, Except.toOption]

theorem failuresSince_returned (h : a.raisedAt = none) :
    failuresSince (history ++ [(a, .ok ())]) = [] := by
  simp [failuresSince, admittedEnds, List.filterMap_append, Except.toOption, h, leadingFailures]

theorem failuresSince_raised {now : T} (h : a.raisedAt = some now) :
    failuresSince (history ++ [(a, .ok ())]) = now :: failuresSince history := by
  simp [failuresSince, admittedEnds, List.filterMap_append, Except.toOption, h, leadingFailures]

variable [Zero T] [LinearOrder T] [Sub T] {p : CircuitPolicy T} {s : Asked T}

/-- **The breaker remembers its failures**: it is closed and counts them, or as many as the
threshold have been and it was opened at the last. -/
inductive Remembers (p : CircuitPolicy T) (failures : List T) (b : CircuitBreaker T) : Prop
  | closed (hstate : b.state = .closed) (hcount : b.failures = failures.length)
      (hfew : failures.length < p.failureThreshold)
  | opened (hstate : b.state = .open) (hmany : p.failureThreshold ≤ failures.length)
      (hlast : b.openedAt = failures.head?)

/-- As many failures as the threshold, the last one less than the timeout ago. -/
def Shut (p : CircuitPolicy T) (failures : List T) (now : T) : Prop :=
  p.failureThreshold ≤ failures.length ∧
    ∃ last, failures.head? = some last ∧ now - last < p.recoveryTimeoutSeconds

variable {failures : List T} {b : CircuitBreaker T}

/-- **What `_acquire` does** is told by the failures. -/
theorem Remembers.acquire (h : Remembers p failures b) (now : T) :
    (Shut p failures now → b.acquire p now = .error .circuitOpen) ∧
      (¬ Shut p failures now → ∃ admitted, b.acquire p now = .ok admitted ∧
        ((admitted.state = .closed ∧ admitted.failures = failures.length ∧
            failures.length < p.failureThreshold) ∨
          admitted.state = .halfOpen ∧ p.failureThreshold ≤ failures.length)) := by
  cases h with
  | closed hstate hcount hfew =>
    have hacquire : b.acquire p now = .ok b := by
      unfold CircuitBreaker.acquire
      rw [hstate]
    constructor
    · intro hshut
      have := hshut.1
      omega
    · intro _
      exact ⟨b, hacquire, Or.inl ⟨hstate, hcount, hfew⟩⟩
  | opened hstate hmany hlast =>
    have hpos := p.failureThreshold_pos
    cases hfailures : failures with
    | nil =>
      rw [hfailures, List.length_nil] at hmany
      omega
    | cons last earlier =>
      rw [hfailures, List.head?_cons] at hlast
      rw [hfailures] at hmany
      have hacquire : b.acquire p now = if now - last < p.recoveryTimeoutSeconds then
          .error .circuitOpen else .ok { b with state := .halfOpen } := by
        unfold CircuitBreaker.acquire
        rw [hstate, hlast]
      constructor
      · rintro ⟨-, last', hlast', hearly⟩
        cases hlast'
        rw [hacquire, if_pos hearly]
      · intro hopen
        have hlate : ¬ now - last < p.recoveryTimeoutSeconds :=
          fun hearly => hopen ⟨hmany, last, rfl, hearly⟩
        exact ⟨{ b with state := .halfOpen }, by rw [hacquire, if_neg hlate], Or.inr ⟨rfl, hmany⟩⟩

/-- **One attempt more** is remembered. -/
theorem remembers_ask (h : Remembers p (failuresSince s.history) s.breaker) (a : SequentialAttempt T) :
    Remembers p (failuresSince (s.ask p a).history) (s.ask p a).breaker := by
  by_cases hshut : Shut p (failuresSince s.history) a.enteredAt
  · -- rejected
    have hrejected := (h.acquire a.enteredAt).1 hshut
    have hask : s.ask p a =
        { breaker := s.breaker, history := s.history ++ [(a, .error .circuitOpen)] } := by
      unfold Asked.ask CircuitBreaker.attempt
      rw [hrejected]
    rw [hask, failuresSince_rejected]
    exact h
  · obtain ⟨admitted, hadmitted, hstate⟩ := (h.acquire a.enteredAt).2 hshut
    cases hend : a.raisedAt with
    | none =>
      have hask : s.ask p a =
          { breaker := admitted.recordSuccess, history := s.history ++ [(a, .ok ())] } := by
        unfold Asked.ask CircuitBreaker.attempt
        rw [hadmitted, hend]
      rw [hask, failuresSince_returned hend]
      exact .closed rfl rfl p.failureThreshold_pos
    | some now =>
      have hask : s.ask p a =
          { breaker := admitted.recordFailure p now, history := s.history ++ [(a, .ok ())] } := by
        unfold Asked.ask CircuitBreaker.attempt
        rw [hadmitted, hend]
      rw [hask, failuresSince_raised hend]
      -- the failure counts itself
      have hlength : (now :: failuresSince s.history).length = (failuresSince s.history).length + 1 := rfl
      rcases CircuitHistory.recordFailure_cases p admitted now with
        ⟨hprobe, hrecord⟩ | ⟨hne, hreached, hrecord⟩ | ⟨hne, hfewer, hrecord⟩
      · -- the probe fails
        rcases hstate with ⟨hclosed, -, -⟩ | ⟨-, hmany⟩
        · rw [hclosed] at hprobe
          cases hprobe
        · rw [hrecord]
          exact .opened rfl (by omega) rfl
      · -- the failure that opens the circuit
        rcases hstate with ⟨-, hcount, -⟩ | ⟨hprobe, -⟩
        · rw [hrecord]
          exact .opened rfl (by omega) rfl
        · exact absurd hprobe hne
      · rcases hstate with ⟨hclosed, hcount, -⟩ | ⟨hprobe, -⟩
        · have hcounted : admitted.failures + 1 = (now :: failuresSince s.history).length := by omega
          rw [hrecord]
          exact .closed hclosed hcounted (by omega)
        · exact absurd hprobe hne

/-- **After any attempts in turn** the breaker remembers its failures. -/
theorem remembers_asked (p : CircuitPolicy T) (past : List (SequentialAttempt T)) :
    Remembers p (failuresSince (past.foldl (Asked.ask p) {}).history)
      (past.foldl (Asked.ask p) {}).breaker := by
  induction past using List.reverseRecOn with
  | nil => exact .closed rfl rfl p.failureThreshold_pos
  | append_singleton past a ih =>
    rw [List.foldl_append]
    exact remembers_ask ih a

/-- **The law of the circuit breaker**: after any attempts in turn, one more is rejected with
`CircuitOpenError` if and only if as many failures as the threshold have been since the last
success and less than the timeout has elapsed since the last of them; what is not rejected is
admitted, and a rejected attempt changes nothing. -/
theorem rejected_iff (p : CircuitPolicy T) (past : List (SequentialAttempt T)) (a : SequentialAttempt T) :
    let asked := past.foldl (Asked.ask p) {}
    ((asked.breaker.attempt p a).1 = .error .circuitOpen ↔
        Shut p (failuresSince asked.history) a.enteredAt) ∧
      ((asked.breaker.attempt p a).1 ≠ .ok () →
        (asked.breaker.attempt p a).1 = .error .circuitOpen ∧
          (asked.breaker.attempt p a).2 = asked.breaker) := by
  intro asked
  have hremembers : Remembers p (failuresSince asked.history) asked.breaker := remembers_asked p past
  by_cases hshut : Shut p (failuresSince asked.history) a.enteredAt
  · have hattempt : asked.breaker.attempt p a = (.error .circuitOpen, asked.breaker) := by
      unfold CircuitBreaker.attempt
      rw [(hremembers.acquire a.enteredAt).1 hshut]
    rw [hattempt]
    exact ⟨⟨fun _ => hshut, fun _ => rfl⟩, fun _ => ⟨rfl, rfl⟩⟩
  · obtain ⟨admitted, hadmitted, -⟩ := (hremembers.acquire a.enteredAt).2 hshut
    have hattempt : (asked.breaker.attempt p a).1 = .ok () := by
      unfold CircuitBreaker.attempt
      rw [hadmitted]
      dsimp only
      split <;> rfl
    rw [hattempt]
    exact ⟨⟨fun heq => (by cases heq), fun h => absurd h hshut⟩, fun hne => absurd rfl hne⟩

end CircuitBreaker

/-! ## As a history of attempts -/

variable {T : Type*}

/-- How the body of an attempt ends. -/
def SequentialAttempt.ending (a : SequentialAttempt T) : BodyEnd T :=
  match a.raisedAt with
  | none => .returned
  | some now => .raised now

/-- An attempt that no other overlaps is its entry and its exit in a history of attempts. -/
theorem CircuitHistory.enter_exit [Zero T] [LinearOrder T] [Sub T] (p : CircuitPolicy T)
    {h : CircuitHistory T} {i : ℕ} (a : SequentialAttempt T) (hi : i ∉ h.inFlight) :
    (h.step p (.enter i a.enteredAt)).step p (.exit i a.ending) =
      { h with breaker := (h.breaker.attempt p a).2 } := by
  cases hacquire : h.breaker.acquire p a.enteredAt with
  | error error =>
    have henter : h.step p (.enter i a.enteredAt) = h := by
      simp only [CircuitHistory.step, if_neg hi, hacquire]
    have hattempt : (h.breaker.attempt p a).2 = h.breaker := by
      unfold CircuitBreaker.attempt
      rw [hacquire]
    rw [henter, hattempt]
    simp only [CircuitHistory.step, if_neg hi]
  | ok admitted =>
    have henter : h.step p (.enter i a.enteredAt) = { breaker := admitted, inFlight := i :: h.inFlight } := by
      simp only [CircuitHistory.step, if_neg hi, hacquire]
    rw [henter]
    simp only [CircuitHistory.step, CircuitBreaker.attempt, SequentialAttempt.ending, hacquire,
      List.mem_cons_self, List.erase_cons_head, if_true]
    cases a.raisedAt <;> rfl

end GroundedOps
