import GroundedOps.Spec.Breaker

/-!
# When the circuit breaker recovers

A breaker with no attempt in flight should not be half open: nothing is left that
could close or reopen it, and `acquire` turns every later attempt away.

* `recovers_iff`: a history keeps the breaker recoverable exactly when it never
  closes, with a `BaseException`, the only attempt in flight of a half-open breaker.
* `wedged_forever`: after such an end no event of any kind changes the breaker again.
-/

namespace GroundedOps

namespace CircuitHistory

variable {T : Type*} [Zero T] [LinearOrder T] [Sub T] {p : CircuitPolicy T}

/-- **The breaker can recover**: with no attempt in flight it is not half open, and an
attempt is admitted once the recovery timeout has passed since the last opening. -/
def Recovers (p : CircuitPolicy T) (h : CircuitHistory T) : Prop :=
  h.inFlight = [] → h.breaker.state ≠ .halfOpen ∧
    ∀ now, (∀ t, h.breaker.openedAt = some t → p.recoveryTimeoutSeconds ≤ now - t) →
      ∃ b, h.breaker.acquire p now = .ok b

/-- The event is not the close, with a `BaseException`, of the only attempt in flight
while the breaker is half open. -/
def ProbeNotClosed (h : CircuitHistory T) (e : AttemptEvent T) : Prop :=
  ∀ i, e = .exit i .closed → h.inFlight = [i] → h.breaker.state ≠ .halfOpen

/-- An open breaker knows when it was opened. -/
def Stamped (h : CircuitHistory T) : Prop := h.breaker.state = .open → h.breaker.openedAt ≠ none

/-! ## What a step does to the breaker -/

theorem acquire_ok {b b' : CircuitBreaker T} {now : T} (h : b.acquire p now = .ok b') :
    b' = b ∧ b.state = .closed ∨ b' = { b with state := .halfOpen } ∧ b.state = .open := by
  unfold CircuitBreaker.acquire at h
  cases hs : b.state with
  | closed => rw [hs] at h; cases h; exact Or.inl ⟨rfl, rfl⟩
  | halfOpen => rw [hs] at h; cases h
  | «open» =>
    rw [hs] at h
    cases ho : b.openedAt with
    | none => rw [ho] at h; cases h
    | some t =>
      rw [ho] at h
      simp only at h
      split at h
      · cases h
      · cases h; exact Or.inr ⟨rfl, rfl⟩

/-- A stamped breaker that does not admit an attempt raises `CircuitOpenError`. -/
theorem acquire_error {b : CircuitBreaker T} {now : T} {error : AcquireError}
    (hst : b.state = .open → b.openedAt ≠ none) (h : b.acquire p now = .error error) :
    error = .circuitOpen := by
  unfold CircuitBreaker.acquire at h
  cases hs : b.state with
  | closed => rw [hs] at h; cases h
  | halfOpen => rw [hs] at h; cases h; rfl
  | «open» =>
    rw [hs] at h
    obtain ⟨t, ht⟩ := Option.ne_none_iff_exists'.1 (hst hs)
    rw [ht] at h
    simp only at h
    split at h
    · cases h; rfl
    · cases h

/-- An open breaker admits an attempt once the recovery timeout has passed. -/
theorem acquire_of_elapsed {b : CircuitBreaker T} {now : T} (hne : b.state ≠ .halfOpen)
    (hst : b.state = .open → b.openedAt ≠ none)
    (hel : ∀ t, b.openedAt = some t → p.recoveryTimeoutSeconds ≤ now - t) :
    ∃ b', b.acquire p now = .ok b' := by
  unfold CircuitBreaker.acquire
  cases hs : b.state with
  | closed => exact ⟨b, rfl⟩
  | halfOpen => exact absurd hs hne
  | «open» =>
    obtain ⟨t, ht⟩ := Option.ne_none_iff_exists'.1 (hst hs)
    have hlt : ¬ now - t < p.recoveryTimeoutSeconds := not_lt.2 (hel t ht)
    exact ⟨{ b with state := .halfOpen }, by simp only [ht, if_neg hlt]⟩

omit [Sub T] in
/-- **What a failure does that is recorded**: the one of a probe opens the circuit, and so does the one
that reaches the threshold; any other is counted. -/
theorem recordFailure_cases (p : CircuitPolicy T) (b : CircuitBreaker T) (now : T) :
    b.state = .halfOpen ∧
        b.recordFailure p now = { b with state := .open, openedAt := some now } ∨
      b.state ≠ .halfOpen ∧ p.failureThreshold ≤ b.failures + 1 ∧
        b.recordFailure p now = ⟨.open, b.failures + 1, some now⟩ ∨
      b.state ≠ .halfOpen ∧ b.failures + 1 < p.failureThreshold ∧
        b.recordFailure p now = { b with failures := b.failures + 1 } := by
  unfold CircuitBreaker.recordFailure
  by_cases hprobe : b.state = .halfOpen
  · rw [if_pos hprobe]
    exact Or.inl ⟨hprobe, rfl⟩
  · rw [if_neg hprobe]
    by_cases hreached : p.failureThreshold ≤ b.failures + 1
    · exact Or.inr (Or.inl ⟨hprobe, hreached, if_pos hreached⟩)
    · exact Or.inr (Or.inr ⟨hprobe, not_le.1 hreached, if_neg hreached⟩)

omit [Sub T] in
/-- A recorded end never leaves the breaker half open. -/
theorem record_ne_halfOpen (b : CircuitBreaker T) {how : BodyEnd T} (h : how ≠ .closed) :
    (record p b how).state ≠ .halfOpen := by
  cases how with
  | returned => simp [record, CircuitBreaker.recordSuccess]
  | closed => exact absurd rfl h
  | raised now =>
    simp only [record]
    rcases recordFailure_cases p b now with ⟨-, heq⟩ | ⟨-, -, heq⟩ | ⟨hne, -, heq⟩
    · rw [heq]
      exact CircuitState.noConfusion
    · rw [heq]
      exact CircuitState.noConfusion
    · rw [heq]
      exact hne

omit [Sub T] in
theorem record_stamped (b : CircuitBreaker T) (how : BodyEnd T)
    (h : b.state = .open → b.openedAt ≠ none) :
    (record p b how).state = .open → (record p b how).openedAt ≠ none := by
  cases how with
  | returned => simp [record, CircuitBreaker.recordSuccess]
  | closed => exact h
  | raised now =>
    simp only [record]
    rcases recordFailure_cases p b now with ⟨-, heq⟩ | ⟨-, -, heq⟩ | ⟨-, -, heq⟩
    · rw [heq]
      exact fun _ => Option.some_ne_none now
    · rw [heq]
      exact fun _ => Option.some_ne_none now
    · rw [heq]
      exact h

theorem step_stamped (h : CircuitHistory T) (e : AttemptEvent T) (hs : Stamped h) :
    Stamped (step p h e) := by
  cases e with
  | enter i now =>
    simp only [step]
    split
    · exact hs
    · split
      · rename_i b hb
        rcases acquire_ok hb with ⟨rfl, -⟩ | ⟨rfl, -⟩
        · exact hs
        · simp [Stamped]
      · exact hs
  | exit i how =>
    simp only [step]
    split
    · exact record_stamped h.breaker how hs
    · exact hs

theorem erase_eq_nil {i : ℕ} {l : List ℕ} (hi : i ∈ l) : l.erase i = [] ↔ l = [i] := by
  constructor
  · intro h
    have hp := List.perm_cons_erase hi
    rw [h] at hp
    exact List.perm_singleton.1 hp
  · rintro rfl; simp

/-- Not being half open is all that recovery asks of a stamped breaker. -/
theorem recovers_iff_ne {h : CircuitHistory T} (hs : Stamped h) :
    Recovers p h ↔ (h.inFlight = [] → h.breaker.state ≠ .halfOpen) :=
  ⟨fun hr h0 => (hr h0).1, fun hr h0 => ⟨hr h0, fun _ => acquire_of_elapsed (hr h0) hs⟩⟩

/-- **One event keeps the breaker recoverable exactly when it is no such close.** -/
theorem step_recovers (h : CircuitHistory T) (e : AttemptEvent T) (hs : Stamped h)
    (hr : Recovers p h) : Recovers p (step p h e) ↔ ProbeNotClosed h e := by
  rw [recovers_iff_ne (step_stamped h e hs)]
  cases e with
  | enter i now =>
    refine iff_of_true ?_ (fun j hj => by cases hj)
    simp only [step]
    split
    · exact fun h0 => (hr h0).1
    · split
      · exact fun h0 => by cases h0
      · exact fun h0 => (hr h0).1
  | exit i how =>
    simp only [step]
    by_cases hi : i ∈ h.inFlight
    · rw [if_pos hi, erase_eq_nil hi]
      by_cases hc : how = .closed
      · subst hc
        constructor
        · rintro hne j ⟨rfl⟩ hj
          exact hne hj
        · exact fun hok h1 => hok i rfl h1
      · refine iff_of_true (fun _ => record_ne_halfOpen h.breaker hc) ?_
        rintro j ⟨⟩; exact absurd rfl hc
    · rw [if_neg hi]
      refine iff_of_true (fun h0 => (hr h0).1) ?_
      rintro j ⟨⟩ hj; rw [hj] at hi; exact absurd List.mem_cons_self hi

/-- **The breaker recovers, exactly when no probe is closed under it.** Along a history
of attempts, overlapping or not and with any clock readings, every state with no attempt
in flight is not half open and admits an attempt after the recovery timeout, if and only
if the history never closes with a `BaseException` the only attempt in flight of a
half-open breaker. -/
theorem recovers_iff (p : CircuitPolicy T) (es : List (AttemptEvent T)) :
    Machine.Always (step p) (Recovers p) {} es ↔ Machine.Meets (step p) ProbeNotClosed {} es := by
  have hI : ∀ h e, Stamped h → Recovers p h → Stamped (step p h e) :=
    fun h e hs _ => step_stamped h e hs
  have h0 : Stamped ({} : CircuitHistory T) := by simp [Stamped]
  exact Machine.always_iff_meets hI step_recovers h0
    ((recovers_iff_ne h0).2 fun _ => by simp)

/-- One failure opens the breaker for 30 s. -/
def oneFailure : CircuitPolicy ℤ := ⟨1, 30, by decide, by decide⟩

/-- A probe that is admitted after the recovery timeout and then closed by the consumer of
its stream leaves the breaker half open with nothing in flight. -/
theorem closed_probe_wedges :
    ¬ Machine.Always (step oneFailure) (Recovers oneFailure) {}
      [.enter 0 0, .exit 0 (.raised 0), .enter 1 30, .exit 1 .closed] := by
  intro h
  exact (h.last (by decide)).1 (by decide)

/-- **A wedged breaker stays wedged**: no event changes it any more, so no attempt is
ever admitted again. -/
theorem wedged_forever {h : CircuitHistory T} (h0 : h.inFlight = [])
    (hs : h.breaker.state = .halfOpen) (es : List (AttemptEvent T)) :
    Machine.run (step p) h es = h := by
  refine Machine.run_inv (I := fun h' => h' = h) ?_ rfl
  rintro _ e rfl
  cases e with
  | enter i now => simp [step, CircuitBreaker.acquire, hs]
  | exit i how => simp [step, h0]

end CircuitHistory

end GroundedOps
