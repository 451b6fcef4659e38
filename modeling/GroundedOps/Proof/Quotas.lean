import GroundedOps.Lib.Purge
import GroundedOps.Spec.Quotas

/-!
# Quotas: what is in flight, and who sees whom

* `Counted`: the active count of a bucket is what the unreleased leases of its window hold.
* `Counted.step`: every call keeps that, and the limit of each window.
* `concurrency_bounded`: **no window has more than `maxConcurrent` leases of a scope in
  flight**, if no lease is released twice.
-/

namespace GroundedOps

open InMemoryQuotaBackend

/-! ## Buckets -/

section Buckets

variable {windowStarted : ℤ} {buckets : Buckets} {scopes : List String} {scope : String}
  {bucket : Bucket}

/-- The bucket of a scope that is about to be reserved in a window. -/
def opened (windowStarted : ℤ) (bucket : Option Bucket) : Bucket :=
  match bucket with
  | none => { windowStarted }
  | some bucket => if bucket.windowStarted ≠ windowStarted then { windowStarted } else bucket

theorem currentBucket_eq (windowStarted : ℤ) (bucket : Option Bucket) :
    currentBucket windowStarted bucket = some (opened windowStarted bucket) := by
  unfold currentBucket opened
  cases bucket with
  | none => rfl
  | some bucket =>
    dsimp only
    split
    · rfl
    · rfl

theorem opened_windowStarted (windowStarted : ℤ) (bucket : Option Bucket) :
    (opened windowStarted bucket).windowStarted = windowStarted := by
  unfold opened
  cases bucket with
  | none => rfl
  | some bucket =>
    dsimp only
    split
    · rfl
    · rename_i h
      exact not_not.1 h

theorem opened_of_eq (h : bucket.windowStarted = windowStarted) :
    opened windowStarted (some bucket) = bucket :=
  if_neg (not_not.2 h)

theorem opened_of_ne (h : bucket.windowStarted ≠ windowStarted) :
    opened windowStarted (some bucket) = { windowStarted } :=
  if_pos h

/-- The buckets after `_current_bucket` of each scope. -/
theorem current_apply (windowStarted : ℤ) (buckets : Buckets) (scopes : List String)
    (scope : String) : Cells.touchAll (currentBucket windowStarted) buckets scopes scope =
      if scope ∈ scopes then some (opened windowStarted (buckets scope)) else buckets scope := by
  split
  · rename_i hmem
    have hidem : ∀ a, currentBucket windowStarted (currentBucket windowStarted a) =
        currentBucket windowStarted a := by
      intro a
      rw [currentBucket_eq, currentBucket_eq, opened_of_eq (opened_windowStarted windowStarted a)]
    rw [Cells.touchAll_of_mem hidem hmem, currentBucket_eq]
  · rename_i hmem
    exact Cells.touchAll_of_not_mem hmem

theorem iterate_map_count (n : ℕ) (bucket : Option Bucket) :
    (Option.map count)^[n] bucket = bucket.map fun bucket =>
      { bucket with
        requestCount := bucket.requestCount + n
        activeCount := bucket.activeCount + n } := by
  induction n with
  | zero => cases bucket <;> rfl
  | succ n ih =>
    rw [Function.iterate_succ_apply', ih]
    cases bucket with
    | none => rfl
    | some bucket => simp only [Option.map_some, count, Nat.add_assoc]

theorem iterate_map_uncount (windowStarted : ℤ) (n : ℕ) (bucket : Option Bucket) :
    (Option.map (uncount windowStarted))^[n] bucket = bucket.map fun bucket =>
      if bucket.windowStarted = windowStarted then
        { bucket with activeCount := bucket.activeCount - n }
      else bucket := by
  induction n with
  | zero =>
    cases bucket with
    | none => rfl
    | some bucket => simp
  | succ n ih =>
    rw [Function.iterate_succ_apply', ih]
    cases bucket with
    | none => rfl
    | some bucket =>
      simp only [Option.map_some, uncount, Option.some.injEq]
      by_cases hw : bucket.windowStarted = windowStarted
      · simp only [if_pos hw]
        rw [Nat.sub_sub]
      · simp only [if_neg hw]

/-- A released lease takes off what it holds, in its own window. -/
theorem release_apply (buckets : Buckets) (lease : QuotaLease) (scope : String) :
    release buckets lease scope = (buckets scope).map fun bucket =>
      if bucket.windowStarted = lease.windowStarted then
        { bucket with activeCount := bucket.activeCount - lease.scopes.count scope }
      else bucket := by
  rw [release, Cells.touchAll_apply, iterate_map_uncount]

/-! ## Reservations -/

/-- **What a reservation does.** -/
inductive Reserved (buckets : Buckets) (scopes : List String) (limits : QuotaLimits) (now : ℤ)
    (token : String) : Option BackendQuotaResult × Buckets → Prop
  | unscoped (h : scopes = []) : Reserved buckets scopes limits now token (none, buckets)
  | denied (result : BackendQuotaResult) (hlease : result.lease = none)
      (houtcome : result.outcome ≠ .allowed)
      (hfull : ∃ scope ∈ scopes,
        limits.maxRequests ≤
            (opened (windowStart now limits.windowSeconds) (buckets scope)).requestCount ∨
          limits.maxConcurrent ≤
            (opened (windowStart now limits.windowSeconds) (buckets scope)).activeCount) :
      Reserved buckets scopes limits now token (some result,
        Cells.touchAll (currentBucket (windowStart now limits.windowSeconds)) buckets scopes)
  | granted (hroom : ∀ scope ∈ scopes,
      (opened (windowStart now limits.windowSeconds) (buckets scope)).requestCount <
          limits.maxRequests ∧
        (opened (windowStart now limits.windowSeconds) (buckets scope)).activeCount <
          limits.maxConcurrent) :
      Reserved buckets scopes limits now token (some { outcome := .allowed, lease := some ⟨token, scopes, windowStart now limits.windowSeconds⟩ },
        Cells.touchAll (Option.map count) (Cells.touchAll
          (currentBucket (windowStart now limits.windowSeconds)) buckets scopes) scopes)

/-- The buckets that a reservation reads. -/
theorem current_filterMap (windowStarted : ℤ) (buckets : Buckets) (scopes : List String) :
    scopes.filterMap (Cells.touchAll (currentBucket windowStarted) buckets scopes) =
      scopes.map fun scope => opened windowStarted (buckets scope) := by
  rw [← List.filterMap_eq_map]
  refine List.filterMap_congr fun scope hmem => ?_
  rw [current_apply, if_pos hmem]
  rfl

theorem reserve_cases (buckets : Buckets) (scopes : List String) (limits : QuotaLimits) (now : ℤ)
    (token : String) :
    Reserved buckets scopes limits now token (reserve buckets scopes limits now token) := by
  unfold reserve
  split
  · rename_i h
    exact .unscoped h
  · dsimp only
    rw [current_filterMap]
    split
    · rename_i hrequests
      simp only [List.any_map, List.any_eq_true, Function.comp_apply, decide_eq_true_eq]
        at hrequests
      obtain ⟨scope, hmem, hle⟩ := hrequests
      exact .denied _ rfl (by simp) ⟨scope, hmem, Or.inl hle⟩
    · rename_i hrequests
      split
      · rename_i hactive
        simp only [List.any_map, List.any_eq_true, Function.comp_apply, decide_eq_true_eq]
          at hactive
        obtain ⟨scope, hmem, hle⟩ := hactive
        exact .denied _ rfl (by simp) ⟨scope, hmem, Or.inr hle⟩
      · rename_i hactive
        refine .granted fun scope hmem => ?_
        simp only [List.any_map, List.any_eq_true, Function.comp_apply, decide_eq_true_eq,
          not_exists, not_and, not_le] at hrequests hactive
        exact ⟨hrequests scope hmem, hactive scope hmem⟩

end Buckets

/-! ## Leases -/

/-- How often an unreleased lease holds something. -/
def GrantedLease.held (weight : QuotaLease → ℕ) (granted : GrantedLease) : ℕ :=
  if granted.released then 0 else weight granted.lease

/-- What the unreleased leases hold together. -/
def BackendHistory.held (h : BackendHistory) (weight : QuotaLease → ℕ) : ℕ :=
  (h.leases.map (GrantedLease.held weight)).sum

/-- How often a lease of the window holds the scope. -/
def occupies (scope : String) (window : ℤ) (lease : QuotaLease) : ℕ :=
  if lease.windowStarted = window then lease.scopes.count scope else 0

/-- The unreleased leases of the scope. -/
def BackendHistory.inFlight (h : BackendHistory) (scope : String) : ℕ :=
  h.leases.countP fun granted => !granted.released && granted.lease.scopes.contains scope

/-- Those of them that were granted in the window. -/
def BackendHistory.inFlightOf (h : BackendHistory) (scope : String) (window : ℤ) : ℕ :=
  h.leases.countP fun granted => !granted.released && granted.lease.windowStarted == window &&
    granted.lease.scopes.contains scope

section Leases

variable {α : Type} {f : α → ℕ} {g : α → α} {l : List α} {n : ℕ} {a : α} {h : BackendHistory}
  {weight : QuotaLease → ℕ} {granted : GrantedLease} {scope : String} {window : ℤ}

theorem split_modify (ha : l[n]? = some a) : ∃ before after, l = before ++ a :: after ∧
    l.modify n g = before ++ g a :: after := by
  obtain ⟨hn, hget⟩ := List.getElem?_eq_some_iff.1 ha
  refine ⟨l.take n, l.drop (n + 1), ?_, ?_⟩
  · rw [← hget, List.getElem_cons_drop, List.take_append_drop]
  · rw [List.modify_eq_take_cons_drop hn, hget]

/-- A release takes what the lease held. -/
theorem held_release (ha : h.leases[n]? = some granted) (hopen : granted.released = false) :
    ((h.leases.modify n GrantedLease.release).map (GrantedLease.held weight)).sum +
      weight granted.lease = h.held weight := by
  obtain ⟨before, after, hl, hm⟩ := split_modify (g := GrantedLease.release) ha
  have hzero : GrantedLease.held weight granted.release = 0 := rfl
  have hone : GrantedLease.held weight granted = weight granted.lease := by
    rw [GrantedLease.held, hopen]
    rfl
  rw [BackendHistory.held, hl, ← hl, hm, hl]
  simp only [List.map_append, List.map_cons, List.sum_append, List.sum_cons, hzero, hone]
  omega

theorem held_concat (leases : List GrantedLease) (lease : QuotaLease) :
    ((leases ++ [(⟨lease, false⟩ : GrantedLease)]).map (GrantedLease.held weight)).sum =
      (leases.map (GrantedLease.held weight)).sum + weight lease := by
  rw [List.map_append, List.sum_append]
  rfl

/-- Leases that hold nothing. -/
theorem held_eq_zero (hzero : ∀ granted ∈ h.leases, weight granted.lease = 0) :
    h.held weight = 0 := by
  refine List.sum_eq_zero fun x hx => ?_
  obtain ⟨granted, hmem, rfl⟩ := List.mem_map.1 hx
  unfold GrantedLease.held
  split
  · rfl
  · exact hzero granted hmem

/-- A lease in flight holds its scope at least once. -/
theorem inFlightOf_le_held : h.inFlightOf scope window ≤ h.held (occupies scope window) := by
  unfold BackendHistory.inFlightOf BackendHistory.held
  induction h.leases with
  | nil => exact le_rfl
  | cons granted leases ih =>
    rw [List.countP_cons, List.map_cons, List.sum_cons]
    split
    · rename_i hp
      simp only [Bool.and_eq_true, Bool.not_eq_true', beq_iff_eq, List.contains_iff_mem] at hp
      obtain ⟨⟨hopen, hwindow⟩, hscope⟩ := hp
      have hpos : 0 < granted.lease.scopes.count scope := List.count_pos_iff.2 hscope
      have hheld : GrantedLease.held (occupies scope window) granted =
          granted.lease.scopes.count scope := by
        rw [GrantedLease.held, hopen, occupies, if_pos hwindow]
        rfl
      omega
    · omega

/-- A release puts no lease in flight. -/
theorem countP_release_le {p : GrantedLease → Bool} (hp : ∀ g : GrantedLease, p g.release = false) :
    (h.leases.modify n GrantedLease.release).countP p ≤ h.leases.countP p := by
  cases ha : h.leases[n]? with
  | none =>
    have hlen : h.leases.length ≤ n := List.getElem?_eq_none_iff.1 ha
    rw [List.modify_eq_self hlen]
  | some granted =>
    obtain ⟨before, after, hl, hm⟩ := split_modify (g := GrantedLease.release) ha
    rw [hm, hl]
    rw [List.countP_append, List.countP_append, List.countP_cons, List.countP_cons, hp granted]
    have hnone : (if false = true then 1 else 0) = 0 := rfl
    omega

end Leases

/-! ## The count of a bucket -/

/-- **The active count of a bucket is what the unreleased leases of its window hold.** -/
structure Counted (limits : QuotaLimits) (h : BackendHistory) : Prop where
  bucket : ∀ scope b, h.buckets scope = some b →
    b.activeCount = h.held (occupies scope b.windowStarted)
  lease : ∀ granted ∈ h.leases, ∀ scope ∈ granted.lease.scopes,
    ∃ b, h.buckets scope = some b ∧ granted.lease.windowStarted ≤ b.windowStarted
  latest : ∀ scope b, h.buckets scope = some b →
    ∃ t, h.latest = some t ∧ b.windowStarted ≤ windowStart t limits.windowSeconds
  bounded : ∀ scope window, h.inFlightOf scope window ≤ limits.maxConcurrent

/-- Timestamps do not decrease. -/
def BackendCall.timely (h : BackendHistory) : BackendCall → Prop
  | .reserve _ now _ => ∀ t, h.latest = some t → t ≤ now
  | .release _ => True

/-- No lease is released twice. -/
def BackendCall.single (h : BackendHistory) : BackendCall → Prop
  | .reserve .. => True
  | .release n => ∀ granted, h.leases[n]? = some granted → granted.released = false

section Counted

variable {limits : QuotaLimits} {h : BackendHistory} {scopes : List String} {scope : String}
  {now : ℤ} {token : String} {n : ℕ}

theorem windowStart_mono {now now' : ℤ} {windowSeconds : ℕ} (hpos : 0 < windowSeconds)
    (hle : now ≤ now') : windowStart now windowSeconds ≤ windowStart now' windowSeconds := by
  unfold windowStart
  have hw : (0 : ℤ) < windowSeconds * 1000000 := by positivity
  have hdiv : now / (windowSeconds * 1000000) ≤ now' / (windowSeconds * 1000000) :=
    Int.ediv_le_ediv hw hle
  have hmul := Int.mul_le_mul_of_nonneg_left hdiv hw.le
  have hnow := Int.emod_add_mul_ediv now (windowSeconds * 1000000)
  have hnow' := Int.emod_add_mul_ediv now' (windowSeconds * 1000000)
  omega

/-- No bucket is of a window that is yet to come. -/
theorem Counted.window_le (hc : Counted limits h) (htimely : ∀ t, h.latest = some t → t ≤ now)
    {b : Bucket} (hb : h.buckets scope = some b) :
    b.windowStarted ≤ windowStart now limits.windowSeconds := by
  obtain ⟨t, ht, hle⟩ := hc.latest scope b hb
  exact hle.trans (windowStart_mono limits.windowSeconds_pos (htimely t ht))

/-- **The bucket that a reservation reads** counts the leases of its window. -/
theorem Counted.opened (hc : Counted limits h) (htimely : ∀ t, h.latest = some t → t ≤ now) :
    (opened (windowStart now limits.windowSeconds) (h.buckets scope)).activeCount =
      h.held (occupies scope (windowStart now limits.windowSeconds)) := by
  set window := windowStart now limits.windowSeconds
  -- a lease of this window needs a bucket of this window
  have hzero : (∀ b, h.buckets scope = some b → b.windowStarted ≠ window) →
      h.held (occupies scope window) = 0 := by
    intro hne
    refine held_eq_zero fun granted hmem => ?_
    unfold occupies
    split
    · rename_i hwindow
      refine List.count_eq_zero_of_not_mem fun hscope => ?_
      obtain ⟨b, hb, hle⟩ := hc.lease granted hmem scope hscope
      have hge := hc.window_le htimely hb
      exact hne b hb (by omega)
    · rfl
  cases hb : h.buckets scope with
  | none =>
    rw [hzero fun b h => absurd (hb.symm.trans h).symm (Option.some_ne_none b)]
    rfl
  | some b =>
    by_cases hw : b.windowStarted = window
    · rw [opened_of_eq hw, hc.bucket scope b hb, hw]
    · rw [opened_of_ne hw, hzero]
      intro b' hb'
      obtain rfl := Option.some.inj (hb.symm.trans hb')
      exact hw

theorem Counted.start (limits : QuotaLimits) : Counted limits {} := by
  refine ⟨fun _ b h => absurd h.symm (Option.some_ne_none b), fun _ h => absurd h List.not_mem_nil,
    fun _ b h => absurd h.symm (Option.some_ne_none b), fun _ _ => Nat.zero_le _⟩

/-- A reservation that grants nothing may still replace buckets. -/
theorem Counted.rolled (hc : Counted limits h) (htimely : ∀ t, h.latest = some t → t ≤ now) :
    Counted limits
      { h with
        buckets := Cells.touchAll (currentBucket (windowStart now limits.windowSeconds)) h.buckets
          scopes
        latest := some now } := by
  set window := windowStart now limits.windowSeconds
  refine ⟨fun scope b hb => ?_, fun granted hmem scope hscope => ?_, fun scope b hb => ?_,
    hc.bounded⟩
  · dsimp only at hb
    rw [current_apply] at hb
    split at hb
    · obtain rfl := Option.some.inj hb
      rw [opened_windowStarted]
      exact hc.opened htimely
    · exact hc.bucket scope b hb
  · obtain ⟨b, hb, hle⟩ := hc.lease granted hmem scope hscope
    have hwindow := hc.window_le htimely hb
    by_cases hin : scope ∈ scopes
    · refine ⟨_, (current_apply window h.buckets scopes scope).trans (if_pos hin), ?_⟩
      rw [opened_windowStarted]
      exact hle.trans hwindow
    · exact ⟨b, ((current_apply window h.buckets scopes scope).trans (if_neg hin)).trans hb, hle⟩
  · refine ⟨now, rfl, ?_⟩
    dsimp only at hb
    rw [current_apply] at hb
    split at hb
    · obtain rfl := Option.some.inj hb
      rw [opened_windowStarted]
    · exact hc.window_le htimely hb

/-- **A grant**, from buckets that are all of the window and have room. -/
theorem Counted.grant {window : ℤ} (hc : Counted limits h)
    (hroom : ∀ scope ∈ scopes, ∃ b, h.buckets scope = some b ∧ b.windowStarted = window ∧
      b.activeCount < limits.maxConcurrent) :
    Counted limits
      { h with
        buckets := Cells.touchAll (Option.map count) h.buckets scopes
        leases := h.leases ++ [⟨⟨token, scopes, window⟩, false⟩] } := by
  have hcell : ∀ scope, Cells.touchAll (Option.map count) h.buckets scopes scope =
      (h.buckets scope).map fun bucket =>
        { bucket with
          requestCount := bucket.requestCount + scopes.count scope
          activeCount := bucket.activeCount + scopes.count scope } := by
    intro scope
    rw [Cells.touchAll_apply, iterate_map_count]
  -- a bucket keeps its window
  have hwindow : ∀ scope b, Cells.touchAll (Option.map count) h.buckets scopes scope = some b →
      ∃ b₀, h.buckets scope = some b₀ ∧ b.windowStarted = b₀.windowStarted ∧
        b.activeCount = b₀.activeCount + scopes.count scope := by
    intro scope b hb
    rw [hcell] at hb
    obtain ⟨b₀, hb₀, rfl⟩ := Option.map_eq_some_iff.1 hb
    exact ⟨b₀, hb₀, rfl, rfl⟩
  have hkeep : ∀ scope b₀, h.buckets scope = some b₀ →
      ∃ b, Cells.touchAll (Option.map count) h.buckets scopes scope = some b ∧
        b.windowStarted = b₀.windowStarted := by
    intro scope b₀ hb₀
    rw [hcell, hb₀]
    exact ⟨_, rfl, rfl⟩
  refine ⟨fun scope b hb => ?_, fun granted hmem scope hscope => ?_, fun scope b hb => ?_,
    fun scope window' => ?_⟩
  · obtain ⟨b₀, hb₀, hw, hactive⟩ := hwindow scope b hb
    have hheld : (h.leases.map (GrantedLease.held (occupies scope b.windowStarted))).sum =
        b₀.activeCount := by
      rw [hc.bucket scope b₀ hb₀, hw]
      rfl
    have hnew : occupies scope b.windowStarted ⟨token, scopes, window⟩ = scopes.count scope := by
      unfold occupies
      split
      · rfl
      · rename_i hne
        refine (List.count_eq_zero_of_not_mem fun hscope => hne ?_).symm
        obtain ⟨b₁, hb₁, hb₁w, -⟩ := hroom scope hscope
        obtain rfl := Option.some.inj (hb₀.symm.trans hb₁)
        exact hb₁w.symm.trans hw.symm
    rw [BackendHistory.held, held_concat, hheld, hnew, hactive]
  · rcases List.mem_append.1 hmem with hold | hnew
    · obtain ⟨b₀, hb₀, hle⟩ := hc.lease granted hold scope hscope
      obtain ⟨b, hb, hw⟩ := hkeep scope b₀ hb₀
      exact ⟨b, hb, hle.trans hw.ge⟩
    · rw [List.mem_singleton.1 hnew] at hscope ⊢
      obtain ⟨b₀, hb₀, hw, -⟩ := hroom scope hscope
      obtain ⟨b, hb, hw'⟩ := hkeep scope b₀ hb₀
      exact ⟨b, hb, (hw'.trans hw).ge⟩
  · obtain ⟨b₀, hb₀, hw, -⟩ := hwindow scope b hb
    rw [hw]
    exact hc.latest scope b₀ hb₀
  · have hbefore := hc.bounded scope window'
    unfold BackendHistory.inFlightOf at hbefore ⊢
    rw [List.countP_append, List.countP_singleton]
    split
    · -- the new lease is counted, so its bucket had room
      rename_i hp
      simp only [Bool.and_eq_true, beq_iff_eq, List.contains_iff_mem] at hp
      obtain ⟨⟨-, hw'⟩, hscope⟩ := hp
      obtain ⟨b₀, hb₀, hw, hactive⟩ := hroom scope hscope
      have hcount := hc.bucket scope b₀ hb₀
      have hle : h.inFlightOf scope window' ≤ h.held (occupies scope window') := inFlightOf_le_held
      rw [← hw', ← hw, ← hcount, BackendHistory.inFlightOf] at hle
      rw [← hw', ← hw]
      omega
    · omega

/-- **A release** of a lease that is in flight. -/
theorem Counted.release (hc : Counted limits h) {granted : GrantedLease}
    (ha : h.leases[n]? = some granted) (hopen : granted.released = false) :
    Counted limits
      { h with
        buckets := InMemoryQuotaBackend.release h.buckets granted.lease
        leases := h.leases.modify n GrantedLease.release } := by
  -- a bucket keeps its window, and gives back what the lease takes up in it
  have hwindow : ∀ scope b, InMemoryQuotaBackend.release h.buckets granted.lease scope = some b →
      ∃ b₀, h.buckets scope = some b₀ ∧ b.windowStarted = b₀.windowStarted ∧
        b.activeCount = b₀.activeCount - occupies scope b₀.windowStarted granted.lease := by
    intro scope b hb
    rw [release_apply] at hb
    obtain ⟨b₀, hb₀, rfl⟩ := Option.map_eq_some_iff.1 hb
    refine ⟨b₀, hb₀, ?_, ?_⟩
    · split
      · rfl
      · rfl
    · unfold occupies
      by_cases hw : b₀.windowStarted = granted.lease.windowStarted
      · rw [if_pos hw, if_pos hw.symm]
      · rw [if_neg hw, if_neg (Ne.symm hw), Nat.sub_zero]
  refine ⟨fun scope b hb => ?_, fun g hmem scope hscope => ?_, fun scope b hb => ?_,
    fun scope window => ?_⟩
  · obtain ⟨b₀, hb₀, hw, hactive⟩ := hwindow scope b hb
    -- the lease counted once among those held, so both sides fall by the same amount
    have hheld := @held_release _ h (occupies scope b₀.windowStarted) granted ha hopen
    have hcount := hc.bucket scope b₀ hb₀
    rw [hw, BackendHistory.held]
    dsimp only
    omega
  · -- a release changes no lease but for the flag
    have hlease : ∃ g₀ ∈ h.leases, g₀.lease = g.lease := by
      obtain ⟨before, after, hl, hm⟩ := split_modify (g := GrantedLease.release) ha
      dsimp only at hmem
      rw [hm] at hmem
      rw [hl]
      rcases List.mem_append.1 hmem with h₁ | h₁
      · exact ⟨g, List.mem_append_left _ h₁, rfl⟩
      · rcases List.mem_cons.1 h₁ with rfl | h₁
        · exact ⟨granted, List.mem_append_right _ List.mem_cons_self, rfl⟩
        · exact ⟨g, List.mem_append_right _ (List.mem_cons_of_mem _ h₁), rfl⟩
    obtain ⟨g₀, hg₀, heq⟩ := hlease
    obtain ⟨b₀, hb₀, hle⟩ := hc.lease g₀ hg₀ scope (heq ▸ hscope)
    have hb : ∃ b, InMemoryQuotaBackend.release h.buckets granted.lease scope = some b ∧
        b.windowStarted = b₀.windowStarted := by
      rw [release_apply, hb₀]
      refine ⟨_, rfl, ?_⟩
      dsimp only
      split
      · rfl
      · rfl
    obtain ⟨b, hb, hw⟩ := hb
    exact ⟨b, hb, heq ▸ hle.trans hw.ge⟩
  · obtain ⟨b₀, hb₀, hw, -⟩ := hwindow scope b hb
    rw [hw]
    exact hc.latest scope b₀ hb₀
  · exact (countP_release_le fun g => rfl).trans (hc.bounded scope window)

/-- **One call.** -/
theorem Counted.step (hc : Counted limits h) {call : BackendCall} (htimely : call.timely h)
    (hsingle : call.single h) : Counted limits (h.step limits call) := by
  cases call with
  | reserve scopes now token =>
    have htimes : ∀ t, h.latest = some t → t ≤ now := htimely
    unfold BackendHistory.step
    dsimp only
    have hcases := reserve_cases h.buckets scopes limits now token
    generalize reserve h.buckets scopes limits now token = result at hcases
    cases hcases with
    | unscoped =>
      have hnone : ((none : Option BackendQuotaResult).bind BackendQuotaResult.lease).toList = [] :=
        rfl
      rw [hnone, List.map_nil, List.append_nil]
      exact @Counted.rolled _ _ [] _ hc htimes
    | denied result hlease =>
      have hnone : ((some result).bind BackendQuotaResult.lease).toList = [] := by
        rw [Option.bind_some, hlease]
        rfl
      rw [hnone, List.map_nil, List.append_nil]
      exact hc.rolled htimes
    | granted hroom =>
      have hrolled := @Counted.rolled _ _ scopes _ hc htimes
      refine hrolled.grant fun scope hscope => ?_
      refine ⟨_, (current_apply _ _ _ _).trans (if_pos hscope), opened_windowStarted _ _, ?_⟩
      exact (hroom scope hscope).2
  | release n =>
    unfold BackendHistory.step
    dsimp only
    cases ha : h.leases[n]? with
    | none => exact hc
    | some granted => exact hc.release ha (hsingle granted ha)

end Counted

/-- **No window has more than `maxConcurrent` leases of a scope in flight**, in any history in
which timestamps do not decrease and no lease is released twice. -/
theorem concurrency_bounded (limits : QuotaLimits) (calls : List BackendCall)
    (hcalls : Machine.Meets (BackendHistory.step limits) (fun h call => call.timely h ∧ call.single h)
      {} calls) :
    Machine.Always (BackendHistory.step limits)
      (fun h => ∀ scope window, h.inFlightOf scope window ≤ limits.maxConcurrent) {} calls := by
  refine Machine.always_of_meets (I := Counted limits) (fun h call hc _ hok => ?_)
    (fun h call hc _ hok => ?_) (Counted.start limits) (fun _ _ => Nat.zero_le _) hcalls
  · exact hc.step hok.1 hok.2
  · exact (hc.step hok.1 hok.2).bounded

theorem concurrency_bounded_sample :
    Machine.Always (BackendHistory.step ⟨10, 60, 1, by decide, by decide, by decide⟩)
      (fun h => ∀ scope window, h.inFlightOf scope window ≤ 1) {}
      [.reserve ["tenant", "alice"] 0 "a", .release 0, .reserve ["tenant", "bob"] 1 "b"] := by
  refine concurrency_bounded ⟨10, 60, 1, by decide, by decide, by decide⟩ _ ?_
  refine ⟨⟨fun t ht => (by cases ht), trivial⟩, ⟨trivial, fun granted hg => ?_⟩,
    ⟨fun t ht => ?_, trivial⟩, trivial⟩
  · cases hg
    rfl
  · cases ht
    decide

/-- A lease of an earlier window is not counted; a lease released again uncounts another. -/
theorem lease_outlives_count :
    let limits : QuotaLimits := ⟨10, 60, 1, by decide, by decide, by decide⟩
    let rollover : List BackendCall := [.reserve ["s"] 0 "a", .reserve ["s"] 60000000 "b"]
    let again : List BackendCall := [.reserve ["s"] 0 "a", .release 0, .reserve ["s"] 0 "b",
      .release 0, .reserve ["s"] 0 "c"]
    (Machine.Meets (BackendHistory.step limits) (fun h call => call.timely h) {} rollover ∧
      limits.maxConcurrent <
        (Machine.run (BackendHistory.step limits) {} rollover).inFlight "s") ∧
    (Machine.Meets (BackendHistory.step limits) (fun h call => call.timely h) {} again ∧
      limits.maxConcurrent < (Machine.run (BackendHistory.step limits) {} again).inFlight "s") := by
  refine ⟨⟨⟨fun t ht => (by cases ht), fun t ht => ?_, trivial⟩, by decide +kernel⟩,
    ⟨⟨fun t ht => (by cases ht), trivial, fun t ht => ?_, trivial, fun t ht => ?_, trivial⟩,
      by decide +kernel⟩⟩
  · cases ht
    decide
  · cases ht
    decide
  · cases ht
    decide

end GroundedOps
