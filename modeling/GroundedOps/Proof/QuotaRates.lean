import GroundedOps.Proof.Quotas
import GroundedOps.Spec.QuotaBackends

/-!
# Quotas: the rate of a window

* `Rated`: the request count of a bucket is at least what was allowed in its window, and
  nothing was allowed in a later one.
* `InOrder`: **no reservation reads the bucket of a later window**, which it would replace.
* `rate_bounded`: under it no window has more than `maxRequests` reservations of a scope.
* `replaced_window_exceeded`: three reservations in two neighbouring windows, and one too many
  is allowed.
-/

namespace GroundedOps

open InMemoryQuotaBackend

/-- Every window of every scope is within its limit. -/
def ReservationHistory.WithinRate (limits : QuotaLimits) (h : ReservationHistory) : Prop :=
  ∀ scope window, h.allowedIn limits scope window ≤ limits.maxRequests

/-- **No reservation reads the bucket of a later window.** -/
def QuotaCall.InOrder (limits : QuotaLimits) (h : ReservationHistory) : QuotaCall → Prop
  | .reserve scopes now _ => ∀ scope ∈ scopes, ∀ bucket, h.buckets scope = some bucket →
      bucket.windowStarted ≤ windowStart now limits.windowSeconds
  | .release _ => True

/-- What the buckets know of the reservations allowed. -/
structure Rated (limits : QuotaLimits) (h : ReservationHistory) : Prop where
  within : h.WithinRate limits
  counted : ∀ scope bucket, h.buckets scope = some bucket →
    h.allowedIn limits scope bucket.windowStarted ≤ bucket.requestCount
  later : ∀ scope window, (∀ bucket, h.buckets scope = some bucket → bucket.windowStarted < window) →
    h.allowedIn limits scope window = 0

section Rated

variable {limits : QuotaLimits} {h : ReservationHistory} {scopes : List String} {scope : String}
  {now window : ℤ}

theorem Rated.start (limits : QuotaLimits) : Rated limits {} where
  within _ _ := Nat.zero_le _
  counted _ _ heq := by cases heq
  later _ _ _ := rfl

/-- The bucket that a reservation in order reads has counted what its window allowed. -/
theorem Rated.opened (hr : Rated limits h)
    (horder : ∀ bucket, h.buckets scope = some bucket → bucket.windowStarted ≤ window) :
    h.allowedIn limits scope window ≤ (opened window (h.buckets scope)).requestCount := by
  cases hbucket : h.buckets scope with
  | none =>
    rw [hr.later scope window fun bucket heq => by rw [hbucket] at heq; cases heq]
    exact Nat.zero_le _
  | some bucket =>
    by_cases hwindow : bucket.windowStarted = window
    · rw [opened_of_eq hwindow, ← hwindow]
      exact hr.counted scope bucket hbucket
    · -- an earlier window's bucket: nothing has been allowed in this one
      have hearlier : bucket.windowStarted < window :=
        lt_of_le_of_ne (horder bucket hbucket) hwindow
      rw [hr.later scope window fun bucket' heq => by
        rw [hbucket] at heq; cases heq; exact hearlier]
      exact Nat.zero_le _

/-- Opening the buckets of a reservation in order keeps what they know. -/
theorem Rated.rolled (hr : Rated limits h)
    (horder : ∀ scope ∈ scopes, ∀ bucket, h.buckets scope = some bucket →
      bucket.windowStarted ≤ window) :
    Rated limits { h with buckets := Cells.touchAll (currentBucket window) h.buckets scopes } := by
  refine ⟨hr.within, fun scope bucket heq => ?_, fun scope window' hlater => ?_⟩
  · simp only [current_apply] at heq
    split at heq
    · rename_i hmem
      cases heq
      rw [opened_windowStarted]
      exact hr.opened (horder scope hmem)
    · exact hr.counted scope bucket heq
  · refine hr.later scope window' fun bucket hbucket => ?_
    simp only [current_apply] at hlater
    split at hlater
    · rename_i hmem
      have hopened := hlater _ rfl
      rw [opened_windowStarted] at hopened
      exact lt_of_le_of_lt (horder scope hmem bucket hbucket) hopened
    · exact hlater bucket hbucket

theorem allowedIn_concat : ReservationHistory.allowedIn limits
      { h with allowed := h.allowed ++ [(scopes, now)] } scope window =
    h.allowedIn limits scope window +
      (if scope ∈ scopes ∧ windowStart now limits.windowSeconds = window then 1 else 0) := by
  unfold ReservationHistory.allowedIn
  rw [List.countP_append, List.countP_singleton]
  congr 1
  simp

/-- A reservation that finds room in the buckets of its window. -/
theorem Rated.grant (hr : Rated limits h)
    (hcurrent : ∀ scope ∈ scopes, ∃ bucket, h.buckets scope = some bucket ∧
      bucket.windowStarted = windowStart now limits.windowSeconds ∧
      bucket.requestCount < limits.maxRequests) :
    Rated limits { buckets := Cells.touchAll (Option.map count) h.buckets scopes
                   allowed := h.allowed ++ [(scopes, now)] } := by
  -- the grant counts for its own scopes, in its own window
  have hadded : ∀ scope window, ReservationHistory.allowedIn limits
        { buckets := Cells.touchAll (Option.map count) h.buckets scopes
          allowed := h.allowed ++ [(scopes, now)] } scope window =
      h.allowedIn limits scope window +
        (if scope ∈ scopes ∧ windowStart now limits.windowSeconds = window then 1 else 0) :=
    fun _ _ => allowedIn_concat
  refine ⟨fun scope window => ?_, fun scope bucket heq => ?_, fun scope window hlater => ?_⟩
  · rw [hadded]
    split
    · rename_i hin
      obtain ⟨bucket, hbucket, hwindow, hroom⟩ := hcurrent scope hin.1
      have hcounted := hr.counted scope bucket hbucket
      rw [hwindow, hin.2] at hcounted
      omega
    · exact hr.within scope window
  · simp only [Cells.touchAll_apply, iterate_map_count] at heq
    obtain ⟨before, hbefore, rfl⟩ := Option.map_eq_some_iff.1 heq
    have hcounted := hr.counted scope before hbefore
    rw [hadded]
    dsimp only
    split
    · rename_i hin
      have hpos : 0 < scopes.count scope := List.count_pos_iff.2 hin.1
      omega
    · omega
  · simp only [Cells.touchAll_apply, iterate_map_count] at hlater
    have hbefore : ∀ bucket, h.buckets scope = some bucket → bucket.windowStarted < window := by
      intro bucket hbucket
      rw [hbucket] at hlater
      have hcounted := hlater _ rfl
      exact hcounted
    rw [hadded, hr.later scope window hbefore, if_neg]
    rintro ⟨hmem, hwindow⟩
    obtain ⟨bucket, hbucket, hcurrent, -⟩ := hcurrent scope hmem
    have := hbefore bucket hbucket
    omega

/-- A release leaves the windows and the request counts. -/
theorem Rated.release (hr : Rated limits h) (lease : QuotaLease) :
    Rated limits { h with buckets := InMemoryQuotaBackend.release h.buckets lease } := by
  refine ⟨hr.within, fun scope bucket heq => ?_, fun scope window hlater => ?_⟩
  · simp only [release_apply] at heq
    obtain ⟨before, hbefore, rfl⟩ := Option.map_eq_some_iff.1 heq
    have hcounted := hr.counted scope before hbefore
    split <;> exact hcounted
  · refine hr.later scope window fun bucket hbucket => ?_
    have hreleased := hlater (if bucket.windowStarted = lease.windowStarted then
      { bucket with activeCount := bucket.activeCount - lease.scopes.count scope } else bucket)
      (by simp only [release_apply, hbucket, Option.map_some])
    split at hreleased <;> exact hreleased

/-- **A call in order keeps what the buckets know.** -/
theorem Rated.step (hr : Rated limits h) {call : QuotaCall} (horder : call.InOrder limits h) :
    Rated limits (h.step limits call) := by
  cases call with
  | release lease => exact hr.release lease
  | reserve scopes now token =>
    have hrolled := hr.rolled horder
    have hreserved := reserve_cases h.buckets scopes limits now token
    simp only [ReservationHistory.step]
    generalize InMemoryQuotaBackend.reserve h.buckets scopes limits now token = out at hreserved
    cases hreserved with
    | unscoped _ => simpa using hr
    | denied result hlease houtcome hfull => simpa [houtcome] using hrolled
    | granted hroom =>
      refine hrolled.grant fun scope hmem => ?_
      exact ⟨_, (current_apply _ _ _ _).trans (if_pos hmem), opened_windowStarted _ _,
        (hroom scope hmem).1⟩

end Rated

/-- **No window has more than `maxRequests` allowed reservations of a scope**, in every state of
every run in which no reservation reads the bucket of a later window. -/
theorem rate_bounded (limits : QuotaLimits) (calls : List QuotaCall)
    (horder : Machine.Meets (ReservationHistory.step limits) (fun h call => call.InOrder limits h) {} calls) :
    Machine.Always (ReservationHistory.step limits) (ReservationHistory.WithinRate limits) {} calls :=
  Machine.always_of_meets (fun _ _ hr _ hok => Rated.step hr hok)
    (fun _ _ hr _ hok => (Rated.step hr hok).within) (Rated.start limits) (Rated.start limits).within
    horder

theorem minute_pos : 0 < 60 := Nat.succ_pos 59

/-- One request a minute. -/
def oneAMinute : QuotaLimits := ⟨1, 60, 2, Nat.zero_lt_one, minute_pos, Nat.two_pos⟩

/-- Two requests in their order, each in a minute of its own. -/
theorem rate_bounded_sample :
    Machine.Always (ReservationHistory.step oneAMinute) (ReservationHistory.WithinRate oneAMinute) {}
      [.reserve ["tenant"] 59000000 "a", .reserve ["tenant"] 60000000 "b"] := by
  refine rate_bounded oneAMinute _ ⟨fun _ _ _ heq => (by cases heq), ?_, trivial⟩
  intro scope hmem bucket heq
  have hbucket : (ReservationHistory.step oneAMinute {} (.reserve ["tenant"] 59000000 "a")).buckets
      "tenant" = some ⟨0, 1, 1⟩ := by decide
  rw [List.mem_singleton.1 hmem, hbucket] at heq
  cases heq
  decide

/-- **A later window's bucket is replaced, and the later window starts over**: two requests are
allowed in the second minute, with a late one of the first minute between them. -/
theorem replaced_window_exceeded :
    ¬ (Machine.run (ReservationHistory.step oneAMinute) {}
      [.reserve ["tenant"] 60000000 "a", .reserve ["tenant"] 59000000 "b",
        .reserve ["tenant"] 60000000 "c"]).WithinRate oneAMinute := by
  intro hwithin
  exact absurd (hwithin "tenant" 60000000) (by decide)

end GroundedOps
