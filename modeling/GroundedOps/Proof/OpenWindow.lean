import GroundedOps.Proof.Breaker

/-!
# The open window of the circuit breaker

Attempts overlap: a call that was admitted while the circuit was closed may end after it opened,
or while a probe is running, and its end is recorded all the same.

* `WindowRespected`: after every opening, no call is admitted and the circuit does not close until
  the recovery timeout has passed, and at most one call admitted since is in flight until it closes.
* `Timely`: **no success is recorded while the circuit is open and its timeout has not passed, and
  no failure but the probe's is recorded while it is half open.**
* `window_respected`: a run all of whose steps are timely respects every window.
* `window_broken`: a late success closes the circuit early, and a late failure reopens it under its
  probe.
-/

namespace GroundedOps

namespace CircuitHistory

variable {T : Type*} [AddCommGroup T] [LinearOrder T] (p : CircuitPolicy T)

/-- The step is a failure that opens the circuit, or opens it again. -/
def Opens (h : CircuitHistory T) (e : TimedStep T) : Prop :=
  e.step = .failure ∧ e.attempt ∈ h.inFlight ∧ (h.timedStep p e).breaker.state = .open ∧
    (h.timedStep p e).breaker.openedAt = some e.now

/-- The step admits its attempt. -/
def Admits (h : CircuitHistory T) (e : TimedStep T) : Prop :=
  e.attempt ∉ h.inFlight ∧ e.attempt ∈ (h.timedStep p e).inFlight

/-- Of the attempts in flight after the step, those in `since` and the one it admits. -/
def stillSince (h : CircuitHistory T) (since : List ℕ) (e : TimedStep T) : List ℕ :=
  (h.timedStep p e).inFlight.filter fun i => i ∈ since ∨ i ∉ h.inFlight

/-- The attempts in flight after the steps, of those in `since` and those the steps admit. -/
def admittedSince : CircuitHistory T → List ℕ → List (TimedStep T) → List ℕ
  | _, since, [] => since
  | h, since, e :: es => admittedSince (h.timedStep p e) (stillSince p h since e) es

/-- **The open window is respected** after every opening of the run. -/
structure WindowRespected (steps : List (TimedStep T)) : Prop where
  shut : ∀ before opening during next, before ++ opening :: during ++ [next] <+: steps →
    Opens p (Machine.run (timedStep p) {} before) opening →
    next.now < opening.now + p.recoveryTimeoutSeconds →
    ¬ Admits p (Machine.run (timedStep p) {} (before ++ opening :: during)) next ∧
      (Machine.run (timedStep p) {} (before ++ opening :: during ++ [next])).breaker.state ≠ .closed
  oneProbe : ∀ before opening during, before ++ opening :: during <+: steps →
    Opens p (Machine.run (timedStep p) {} before) opening →
    Machine.Always (timedStep p) (fun h => h.breaker.state ≠ .closed)
      (Machine.run (timedStep p) {} (before ++ [opening])) during →
    (admittedSince p (Machine.run (timedStep p) {} (before ++ [opening])) [] during).length ≤ 1

/-- **A success is recorded before the circuit opens or after its window, and a failure while it is
half open is the probe's**, the attempt that was admitted last. -/
def Timely (h : CircuitHistory T) (e : TimedStep T) : Prop :=
  e.attempt ∈ h.inFlight →
    (e.step = .success → h.breaker.state = .open →
      ∀ openedAt ∈ h.breaker.openedAt, p.recoveryTimeoutSeconds ≤ e.now - openedAt) ∧
    (e.step = .failure → h.breaker.state = .halfOpen → h.inFlight.head? = some e.attempt)

instance (h : CircuitHistory T) (e : TimedStep T) : Decidable (Opens p h e) :=
  inferInstanceAs (Decidable (_ ∧ _ ∧ _ ∧ _))

instance (h : CircuitHistory T) (e : TimedStep T) : Decidable (Timely p h e) :=
  inferInstanceAs (Decidable (_ → (_ → _ → ∀ openedAt ∈ h.breaker.openedAt, _) ∧ (_ → _ → _)))

/-- The circuit opened at `t` and has not closed since; `since` are the attempts in flight that it
has admitted since, up to `last`. -/
structure OpenedAt (t last : T) (since : List ℕ) (h : CircuitHistory T) : Prop where
  le_last : t ≤ last
  state : (h.breaker.state = .open ∧ since = [] ∧ ∃ s, h.breaker.openedAt = some s ∧ t ≤ s) ∨
    (h.breaker.state = .halfOpen ∧ t + p.recoveryTimeoutSeconds ≤ last ∧
      ∃ probe rest, h.inFlight = probe :: rest ∧ probe ∉ rest ∧ since = [probe])

variable {p} {t last : T} {since : List ℕ} {h : CircuitHistory T} {e : TimedStep T}

/-! ## A step after an opening -/

/-- A step of an open circuit that admits nothing. -/
theorem stillSince_of_open (hopen : since = [])
    (hflight : ∀ i, i ∈ (h.timedStep p e).inFlight → i ∈ h.inFlight) :
    stillSince p h since e = [] := by
  unfold stillSince
  rw [List.filter_eq_nil_iff]
  intro i hi
  have hmem : i ∈ h.inFlight := hflight i hi
  simp [hopen, hmem]

theorem stillSince_of_probe {probe : ℕ} {rest : List ℕ} (hflight : h.inFlight = probe :: rest)
    (hprobe : probe ∉ rest) (hsame : h.timedStep p e = h) :
    stillSince p h [probe] e = [probe] := by
  unfold stillSince
  rw [hsame, hflight, List.filter_cons_of_pos (by simp)]
  have hrest : rest.filter (fun i => i ∈ [probe] ∨ i ∉ probe :: rest) = [] := by
    rw [List.filter_eq_nil_iff]
    intro i hi
    have hne : i ≠ probe := fun heq => hprobe (heq ▸ hi)
    simp [hne, hi]
  rw [hrest]

/-- A step that leaves the history as it is. -/
theorem OpenedAt.of_same (hopened : OpenedAt p t last since h) (hlast : last ≤ e.now)
    (hsame : h.timedStep p e = h) : OpenedAt p t e.now (stillSince p h since e) (h.timedStep p e) := by
  refine ⟨hopened.le_last.trans hlast, ?_⟩
  rcases hopened.state with ⟨hstate, hnone, hstamp⟩ | ⟨hstate, hpast, probe, rest, hflight, hprobe, rfl⟩
  · refine .inl ⟨by rw [hsame]; exact hstate, ?_, by rw [hsame]; exact hstamp⟩
    exact stillSince_of_open hnone fun i hi => by rwa [hsame] at hi
  · refine .inr ⟨by rw [hsame]; exact hstate, hpast.trans hlast, probe, rest, ?_, hprobe, ?_⟩
    · rw [hsame]
      exact hflight
    · exact stillSince_of_probe hflight hprobe hsame

theorem OpenedAt.state_ne_closed (hopened : OpenedAt p t last since h) : h.breaker.state ≠ .closed := by
  rcases hopened.state with ⟨hstate, -⟩ | ⟨hstate, -⟩ <;> rw [hstate] <;> decide

theorem OpenedAt.length_le (hopened : OpenedAt p t last since h) : since.length ≤ 1 := by
  rcases hopened.state with ⟨-, rfl, -⟩ | ⟨-, -, probe, rest, -, -, rfl⟩
  · exact Nat.zero_le 1
  · exact le_refl 1

/-- **What a timely step does to a circuit that has opened and not closed since.** -/
def Stepped (p : CircuitPolicy T) (t : T) (since : List ℕ) (h : CircuitHistory T) (e : TimedStep T) : Prop :=
  (e.now < t + p.recoveryTimeoutSeconds →
    ¬ Admits p h e ∧ (h.timedStep p e).breaker.state ≠ .closed) ∧
  ((h.timedStep p e).breaker.state ≠ .closed →
    OpenedAt p t e.now (stillSince p h since e) (h.timedStep p e))

theorem OpenedAt.stepped_of_same (hopened : OpenedAt p t last since h) (hlast : last ≤ e.now)
    (hsame : h.timedStep p e = h) : Stepped p t since h e := by
  refine ⟨fun _ => ⟨?_, by rw [hsame]; exact hopened.state_ne_closed⟩, fun _ => hopened.of_same hlast hsame⟩
  rintro ⟨hout, hin⟩
  rw [hsame] at hin
  exact hout hin

theorem opened_of_opens (h : CircuitHistory T) (e : TimedStep T) (hopens : Opens p h e) :
    OpenedAt p e.now e.now [] (h.timedStep p e) :=
  ⟨le_refl _, .inl ⟨hopens.2.2.1, rfl, e.now, hopens.2.2.2, le_refl _⟩⟩

variable [IsOrderedAddMonoid T]

theorem past_of_elapsed {s now : T} (hs : t ≤ s) (helapsed : p.recoveryTimeoutSeconds ≤ now - s) :
    t + p.recoveryTimeoutSeconds ≤ now :=
  calc t + p.recoveryTimeoutSeconds ≤ s + (now - s) := add_le_add hs helapsed
    _ = now := add_sub_cancel s now

/-- An attempt that asks to enter is the probe, or is turned away. -/
theorem OpenedAt.acquire (hopened : OpenedAt p t last since h) (hlast : last ≤ e.now)
    (hstep : e.step = .acquire) : Stepped p t since h e := by
  have hrun : h.timedStep p e = h.step p (.enter e.attempt e.now) := by
    simp only [timedStep, TimedStep.event, hstep]
  by_cases hin : e.attempt ∈ h.inFlight
  · exact hopened.stepped_of_same hlast (by rw [hrun]; simp only [step, if_pos hin])
  · rcases hopened.state with ⟨hstate, hnone, s, hstamp, hs⟩ | ⟨hstate, -⟩
    · by_cases helapsed : e.now - s < p.recoveryTimeoutSeconds
      · refine hopened.stepped_of_same hlast ?_
        rw [hrun]
        simp only [step, if_neg hin, CircuitBreaker.acquire, hstate, hstamp, if_pos helapsed]
      · have hpast : t + p.recoveryTimeoutSeconds ≤ e.now := past_of_elapsed hs (not_lt.1 helapsed)
        have hnext : h.timedStep p e =
            ⟨{ h.breaker with state := .halfOpen }, e.attempt :: h.inFlight⟩ := by
          rw [hrun]
          simp only [step, if_neg hin, CircuitBreaker.acquire, hstate, hstamp, if_neg helapsed]
        refine ⟨fun hearly => absurd hpast (not_le.2 hearly), fun _ => ⟨hopened.le_last.trans hlast, .inr ?_⟩⟩
        refine ⟨by rw [hnext], hpast, e.attempt, h.inFlight, by rw [hnext], hin, ?_⟩
        have hold : h.inFlight.filter (fun i => i ∈ since ∨ i ∉ h.inFlight) = [] := by
          rw [List.filter_eq_nil_iff]
          intro i hi
          simp [hnone, hi]
        unfold stillSince
        rw [hnext, List.filter_cons_of_pos (by simp [hin]), hold]
    · -- half open: no attempt enters
      refine hopened.stepped_of_same hlast ?_
      rw [hrun]
      simp only [step, if_neg hin, CircuitBreaker.acquire, hstate]

/-- A success that is recorded closes the circuit, and is not early. -/
theorem OpenedAt.success (hopened : OpenedAt p t last since h) (hlast : last ≤ e.now)
    (htimely : Timely p h e) (hstep : e.step = .success) : Stepped p t since h e := by
  have hrun : h.timedStep p e = h.step p (.exit e.attempt .returned) := by
    simp only [timedStep, TimedStep.event, hstep]
  by_cases hin : e.attempt ∈ h.inFlight
  · have hclosed : (h.timedStep p e).breaker.state = .closed := by
      rw [hrun]
      simp only [step, if_pos hin, record, CircuitBreaker.recordSuccess]
    have hpast : t + p.recoveryTimeoutSeconds ≤ e.now := by
      rcases hopened.state with ⟨hstate, -, s, hstamp, hs⟩ | ⟨-, hpast, -⟩
      · exact past_of_elapsed hs ((htimely hin).1 hstep hstate s hstamp)
      · exact hpast.trans hlast
    exact ⟨fun hearly => absurd hpast (not_le.2 hearly), fun hne => absurd hclosed hne⟩
  · exact hopened.stepped_of_same hlast (by rw [hrun]; simp only [step, if_neg hin])

omit [IsOrderedAddMonoid T] in
/-- A failure that is recorded leaves the circuit open. -/
theorem OpenedAt.failure (hopened : OpenedAt p t last since h) (hlast : last ≤ e.now)
    (htimely : Timely p h e) (hstep : e.step = .failure) : Stepped p t since h e := by
  have hrun : h.timedStep p e = h.step p (.exit e.attempt (.raised e.now)) := by
    simp only [timedStep, TimedStep.event, hstep]
  by_cases hin : e.attempt ∈ h.inFlight
  · have hnext : h.timedStep p e =
        ⟨h.breaker.recordFailure p e.now, h.inFlight.erase e.attempt⟩ := by
      rw [hrun]
      simp only [step, if_pos hin, record]
    have herase : ∀ i, i ∈ (h.timedStep p e).inFlight → i ∈ h.inFlight := by
      intro i hi
      rw [hnext] at hi
      exact List.mem_of_mem_erase hi
    have hle : t ≤ e.now := hopened.le_last.trans hlast
    -- an attempt in flight leaves, and does not enter again
    have hout : ¬ Admits p h e := fun hadmits => hadmits.1 hin
    have hopen : OpenedAt p t e.now (stillSince p h since e) (h.timedStep p e) := by
      refine ⟨hle, .inl ?_⟩
      rcases hopened.state with ⟨hstate, hnone, s, hstamp, hs⟩ | ⟨hstate, -, probe, rest, hflight, hprobe, rfl⟩
      · -- open already: the failure is counted, and opens it again past the threshold
        have hstill := stillSince_of_open hnone herase
        rcases recordFailure_cases p h.breaker e.now with ⟨hprobe, -⟩ | ⟨-, -, heq⟩ | ⟨-, -, heq⟩
        · rw [hstate] at hprobe
          cases hprobe
        · refine ⟨?_, hstill, e.now, ?_, hle⟩
          · rw [hnext, heq]
          · rw [hnext, heq]
        · refine ⟨?_, hstill, s, ?_, hs⟩
          · rw [hnext, heq]
            exact hstate
          · rw [hnext, heq]
            exact hstamp
      · -- half open: the probe fails
        have hhead : h.inFlight.head? = some e.attempt := (htimely hin).2 hstep hstate
        rw [hflight, List.head?_cons, Option.some_inj] at hhead
        subst hhead
        have hrecord : h.breaker.recordFailure p e.now =
            { h.breaker with state := .open, openedAt := some e.now } := by
          rcases recordFailure_cases p h.breaker e.now with ⟨-, heq⟩ | ⟨hne, -⟩ | ⟨hne, -⟩
          · exact heq
          · exact absurd hstate hne
          · exact absurd hstate hne
        rw [hnext, hrecord]
        refine ⟨rfl, ?_, e.now, rfl, hle⟩
        · unfold stillSince
          rw [hnext, hflight, List.erase_cons_head, List.filter_eq_nil_iff]
          intro i hi
          have hne : i ≠ e.attempt := fun heq => hprobe (heq ▸ hi)
          simp [hne, hi]
    exact ⟨fun _ => ⟨hout, hopen.state_ne_closed⟩, fun _ => hopen⟩
  · exact hopened.stepped_of_same hlast (by rw [hrun]; simp only [step, if_neg hin])

theorem OpenedAt.step (hopened : OpenedAt p t last since h) (hlast : last ≤ e.now)
    (htimely : Timely p h e) : Stepped p t since h e := by
  cases hstep : e.step with
  | acquire => exact hopened.acquire hlast hstep
  | success => exact hopened.success hlast htimely hstep
  | failure => exact hopened.failure hlast htimely hstep

/-! ## Runs -/

section Runs

variable {during : List (TimedStep T)} {next : TimedStep T}

theorem OpenedAt.shut (hopened : OpenedAt p t last since h)
    (hlast : ∀ e ∈ during ++ [next], last ≤ e.now)
    (hclock : (during ++ [next]).Pairwise fun e e' => e.now ≤ e'.now)
    (hmeets : Machine.Meets (timedStep p) (Timely p) h (during ++ [next]))
    (hearly : next.now < t + p.recoveryTimeoutSeconds) :
    ¬ Admits p (Machine.run (timedStep p) h during) next ∧
      (Machine.run (timedStep p) h (during ++ [next])).breaker.state ≠ .closed := by
  induction during generalizing h last since with
  | nil =>
    have hstepped : Stepped p t since h next := hopened.step (hlast next List.mem_cons_self) hmeets.1
    exact hstepped.1 hearly
  | cons e es ih =>
    obtain ⟨htimely, hrest⟩ := hmeets
    obtain ⟨hle, hclock⟩ := List.pairwise_cons.1 hclock
    have hnext : e.now ≤ next.now := hle next (by simp)
    have hstepped : Stepped p t since h e := hopened.step (hlast e List.mem_cons_self) htimely
    have hopen := hstepped.2 (hstepped.1 (hnext.trans_lt hearly)).2
    exact ih hopen hle hclock hrest

theorem OpenedAt.oneProbe (hopened : OpenedAt p t last since h)
    (hlast : ∀ e ∈ during, last ≤ e.now)
    (hclock : during.Pairwise fun e e' => e.now ≤ e'.now)
    (hmeets : Machine.Meets (timedStep p) (Timely p) h during)
    (hclosed : Machine.Always (timedStep p) (fun h => h.breaker.state ≠ .closed) h during) :
    (admittedSince p h since during).length ≤ 1 := by
  induction during generalizing h last since with
  | nil => exact hopened.length_le
  | cons e es ih =>
    obtain ⟨htimely, hrest⟩ := hmeets
    obtain ⟨hle, hclock⟩ := List.pairwise_cons.1 hclock
    have hlater := (Machine.always_cons.1 hclosed).2
    have hstepped : Stepped p t since h e := hopened.step (hlast e List.mem_cons_self) htimely
    exact ih (hstepped.2 hlater.first) hle hclock hrest hlater

end Runs

/-- **A run of timely steps respects every open window.** -/
theorem window_respected (p : CircuitPolicy T) (steps : List (TimedStep T))
    (hclock : steps.Pairwise fun e e' => e.now ≤ e'.now)
    (htimely : Machine.Meets (timedStep p) (Timely p) {} steps) : WindowRespected p steps := by
  constructor
  · intro before opening during next hleading hopens hearly
    have hsplit : before ++ opening :: during ++ [next] = before ++ opening :: (during ++ [next]) := by
      simp
    rw [hsplit] at hleading ⊢
    obtain ⟨-, hopening, hmeets⟩ := Machine.meets_append.1 (Machine.meets_of_prefix hleading htimely)
    have hsorted := (List.pairwise_append.1 (hclock.sublist hleading.sublist)).2.1
    obtain ⟨hlast, hsorted⟩ := List.pairwise_cons.1 hsorted
    rw [Machine.run_append, Machine.run_append]
    exact (opened_of_opens _ _ hopens).shut hlast hsorted hmeets hearly
  · intro before opening during hleading hopens hclosed
    obtain ⟨-, hopening, hmeets⟩ := Machine.meets_append.1 (Machine.meets_of_prefix hleading htimely)
    have hsorted := (List.pairwise_append.1 (hclock.sublist hleading.sublist)).2.1
    obtain ⟨hlast, hsorted⟩ := List.pairwise_cons.1 hsorted
    rw [Machine.run_concat] at hclosed ⊢
    exact (opened_of_opens _ _ hopens).oneProbe hlast hsorted hmeets hclosed

/-- Three attempts of one dependency that fails once, in turn with a recovered probe. -/
def probedSteps : List (TimedStep ℤ) :=
  [⟨0, 0, .acquire⟩, ⟨1, 0, .failure⟩, ⟨5, 1, .acquire⟩, ⟨31, 2, .acquire⟩, ⟨32, 2, .success⟩]

theorem window_respected_sample : WindowRespected oneFailure probedSteps :=
  window_respected oneFailure probedSteps (by decide) (by
    refine ⟨?_, ?_, ?_, ?_, ?_, trivial⟩ <;> decide)

/-- Two attempts enter; one fails and opens the circuit, the other returns a second later. -/
def lateSuccess : List (TimedStep ℤ) :=
  [⟨0, 0, .acquire⟩, ⟨0, 1, .acquire⟩, ⟨1, 0, .failure⟩, ⟨2, 1, .success⟩]

/-- The other attempt fails under the probe, and a second probe is admitted. -/
def lateFailure : List (TimedStep ℤ) :=
  [⟨0, 0, .acquire⟩, ⟨0, 1, .acquire⟩, ⟨1, 0, .failure⟩, ⟨31, 2, .acquire⟩, ⟨32, 1, .failure⟩,
    ⟨62, 3, .acquire⟩]

/-- **An attempt that the closed circuit admitted closes it in its window, or doubles its probe.** -/
theorem window_broken :
    ¬ WindowRespected oneFailure lateSuccess ∧ ¬ WindowRespected oneFailure lateFailure := by
  constructor
  · intro h
    have hshut := h.shut [⟨0, 0, .acquire⟩, ⟨0, 1, .acquire⟩] ⟨1, 0, .failure⟩ [] ⟨2, 1, .success⟩
      List.prefix_rfl (by decide) (by decide)
    exact hshut.2 (by decide)
  · intro h
    have hprobes := h.oneProbe [⟨0, 0, .acquire⟩, ⟨0, 1, .acquire⟩] ⟨1, 0, .failure⟩
      [⟨31, 2, .acquire⟩, ⟨32, 1, .failure⟩, ⟨62, 3, .acquire⟩] List.prefix_rfl (by decide)
      (by simp only [Machine.always_cons, Machine.always_nil]; decide)
    exact absurd hprobes (by decide)

end CircuitHistory

end GroundedOps
