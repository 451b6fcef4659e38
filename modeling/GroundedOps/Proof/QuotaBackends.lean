import GroundedOps.Proof.Quotas
import GroundedOps.Spec.QuotaBackends

/-!
# Quotas: one backend for the other

* `Mirrors`: a row is the bucket of its scope, or one of an earlier window where the bucket
  has already been opened and counts nothing.
* `Mirrors.step`: every call in the order of its windows keeps that.
* `RequestsFirst`: **where a scope is at its request limit, the first scope at a limit is at that
  one.**
* `backends_agree_iff`: the two backends return the same from every call exactly when every
  reservation is so.
-/

namespace GroundedOps

open InMemoryQuotaBackend

/-! ## The condition -/

/-- A bucket that a reservation with the limits does not pass. -/
def QuotaLimits.reached (limits : QuotaLimits) (bucket : Bucket) : Bool :=
  limits.maxRequests ≤ bucket.requestCount || limits.maxConcurrent ≤ bucket.activeCount

namespace LimitedCall

/-- A reservation names a scope. -/
def Scoped (limited : LimitedCall) : Prop :=
  ∀ scopes now token, limited.call = .reserve scopes now token → scopes ≠ []

/-- No reservation reads the bucket of a later window. -/
def InOrder (backends : QuotaBackends) (limited : LimitedCall) : Prop :=
  ∀ scopes now token, limited.call = .reserve scopes now token →
    ∀ scope ∈ scopes, ∀ bucket, backends.buckets scope = some bucket →
      bucket.windowStarted ≤ windowStart now limited.limits.windowSeconds

/-- **Where a scope is at its request limit, the first scope at a limit is at its request limit.** -/
def RequestsFirst (backends : QuotaBackends) (limited : LimitedCall) : Prop :=
  ∀ scopes now token, limited.call = .reserve scopes now token →
    let current scope := opened (windowStart now limited.limits.windowSeconds) (backends.buckets scope)
    (∃ scope ∈ scopes, limited.limits.maxRequests ≤ (current scope).requestCount) →
    ∀ first, scopes.find? (fun scope => limited.limits.reached (current scope)) = some first →
      limited.limits.maxRequests ≤ (current first).requestCount

/-- The two backends return the same. -/
def Agrees (backends : QuotaBackends) (limited : LimitedCall) : Prop :=
  (backends.results limited).1 = (backends.results limited).2

end LimitedCall

/-! ## The table -/

section Table

open PostgresQuotaBackend

variable {limits : QuotaLimits} {now window : ℤ} {rows : QuotaRows} {scopes : List String}
  {scope : String} {row : Bucket}

theorem opened_opened : opened window (some (opened window (some row))) = opened window (some row) :=
  opened_of_eq (opened_windowStarted _ _)

/-- The counts that the loop reads are those of the row opened in the window. -/
theorem opened_counts : (opened window (some row)).requestCount =
      (if row.windowStarted ≠ window then 0 else row.requestCount) ∧
    (opened window (some row)).activeCount =
      (if row.windowStarted ≠ window then 0 else row.activeCount) := by
  by_cases hwindow : row.windowStarted = window
  · rw [opened_of_eq hwindow, if_neg (not_not.2 hwindow), if_neg (not_not.2 hwindow)]
    exact ⟨rfl, rfl⟩
  · rw [opened_of_ne hwindow, if_pos hwindow, if_pos hwindow]
    exact ⟨rfl, rfl⟩

/-- A row that ends the loop. -/
def stops (limits : QuotaLimits) (window : ℤ) (p : String × Bucket) : Bool :=
  limits.reached (opened window (some p.2))

/-- What the loop returns for a row at a limit. -/
def verdict (limits : QuotaLimits) (now window : ℤ) (bucket : Bucket) : BackendQuotaResult :=
  if limits.maxRequests ≤ bucket.requestCount then
    { outcome := .rateLimited, retryAfterSeconds := retryAfter window limits now }
  else { outcome := .concurrentLimited }

/-- One row of the loop. -/
theorem check_cons {rest : List (String × Bucket)} :
    check limits now window ((scope, row) :: rest) rows =
      if stops limits window (scope, row) then
        (some (verdict limits now window (opened window (some row))),
          if row.windowStarted ≠ window then Cells.touch (reset window) rows scope else rows)
      else check limits now window rest
        (if row.windowStarted ≠ window then Cells.touch (reset window) rows scope else rows) := by
  rw [check, ← opened_counts.1, ← opened_counts.2]
  unfold stops QuotaLimits.reached verdict
  by_cases hrequests : limits.maxRequests ≤ (opened window (some row)).requestCount
  · simp [hrequests]
  · by_cases hactive : limits.maxConcurrent ≤ (opened window (some row)).activeCount
    · simp [hrequests, hactive]
    · simp [hrequests, hactive]

/-- A reset makes a stale row the row opened in the window, and leaves the others. -/
theorem reset_apply (hrow : rows scope = some row ∨ rows scope = some (opened window (some row)))
    (other : String) :
    (if row.windowStarted ≠ window then Cells.touch (reset window) rows scope else rows) other =
      if other = scope then some (opened window (some row)) else rows other := by
  by_cases hwindow : row.windowStarted = window
  · rw [if_neg (not_not.2 hwindow)]
    rw [opened_of_eq hwindow, or_self] at hrow
    split
    · rename_i hscope
      rw [hscope, opened_of_eq hwindow]
      exact hrow
    · rfl
  · rw [if_pos hwindow, opened_of_ne hwindow]
    unfold Cells.touch
    split
    · rename_i hscope
      subst hscope
      rw [Function.update_self]
      rcases hrow with hrow | hrow
      · rw [hrow]; rfl
      · rw [hrow]; rfl
    · rename_i hscope
      exact Function.update_of_ne hscope _ _

/-- A row as it was read, or opened since. -/
def ReadFrom (window : ℤ) (rows : QuotaRows) (p : String × Bucket) : Prop :=
  rows p.1 = some p.2 ∨ rows p.1 = some (opened window (some p.2))

theorem ReadFrom.opened {p : String × Bucket} (h : ReadFrom window rows p)
    (hrow : rows p.1 = some row) : opened window (some row) = opened window (some p.2) := by
  rcases h with h | h
  · rw [Option.some.inj (hrow.symm.trans h)]
  · rw [Option.some.inj (hrow.symm.trans h), opened_opened]

/-- **What the loop returns and leaves**: the verdict on the first row at a limit; and rows as
they were or opened in the window, all of them opened if no row was at a limit. -/
structure Looped (limits : QuotaLimits) (now window : ℤ) (selected : List (String × Bucket))
    (rows : QuotaRows) (out : Option BackendQuotaResult × QuotaRows) : Prop where
  result : out.1 = (selected.find? (stops limits window)).map
    fun p => verdict limits now window (opened window (some p.2))
  rows : ∀ scope, out.2 scope = rows scope ∨
    ∃ p ∈ selected, p.1 = scope ∧ out.2 scope = some (opened window (some p.2))
  all : out.1 = none → ∀ p ∈ selected, out.2 p.1 = some (opened window (some p.2))

theorem check_looped {selected : List (String × Bucket)}
    (hselected : ∀ p ∈ selected, ReadFrom window rows p) :
    Looped limits now window selected rows (check limits now window selected rows) := by
  induction selected generalizing rows with
  | nil => exact ⟨rfl, fun _ => .inl rfl, fun _ p hp => absurd hp List.not_mem_nil⟩
  | cons head rest ih =>
    obtain ⟨scope, row⟩ := head
    have hrow : ReadFrom window rows (scope, row) := hselected _ List.mem_cons_self
    have hafter := reset_apply hrow
    rw [check_cons]
    generalize (if row.windowStarted ≠ window then Cells.touch (reset window) rows scope else rows) =
      rows' at hafter
    dsimp only at hafter
    -- the loop stops at the first scope that refuses, and the rows behind it are untouched
    by_cases hreached : stops limits window (scope, row) = true
    · rw [if_pos hreached]
      refine ⟨by rw [List.find?_cons_of_pos hreached]; rfl, fun other => ?_, fun hnone => by cases hnone⟩
      dsimp only
      rw [hafter]
      split
      · rename_i hother
        exact .inr ⟨_, List.mem_cons_self, hother.symm, rfl⟩
      · exact .inl rfl
    · rw [if_neg hreached]
      -- the rows were all read before the loop, so the reset of one must leave the others read
      have hrest : ∀ p ∈ rest, ReadFrom window rows' p := by
        intro p hp
        have hread := hselected p (List.mem_cons_of_mem _ hp)
        unfold ReadFrom
        rw [hafter]
        split
        · -- another row of the same scope is the same row
          rename_i hscope
          refine .inr (congrArg some ?_)
          rcases hrow with hrow | hrow
          · exact hread.opened (by rw [hscope]; exact hrow)
          · rw [← opened_opened]
            exact hread.opened (by rw [hscope]; exact hrow)
        · exact hread
      have hlooped := ih hrest
      refine ⟨by rw [List.find?_cons_of_neg hreached]; exact hlooped.result, fun other => ?_, fun hnone p hp => ?_⟩
      · rcases hlooped.rows other with hkept | ⟨p, hp, hother, hopened⟩
        · rw [hkept, hafter]
          split
          · rename_i hother
            exact .inr ⟨_, List.mem_cons_self, hother.symm, rfl⟩
          · exact .inl rfl
        · exact .inr ⟨p, List.mem_cons_of_mem _ hp, hother, hopened⟩
      · rcases List.mem_cons.1 hp with rfl | hp
        · rcases hlooped.rows scope with hkept | ⟨p, hp, hscope, hopened⟩
          · dsimp only
            rw [hkept, hafter, if_pos rfl]
          · dsimp only
            have hsame := (hrest p hp).opened (by rw [hscope, hafter, if_pos rfl])
            rw [hopened, ← hsame, opened_opened]
        · exact hlooped.all hnone p hp

/-- The rows that are there once each scope has one. -/
theorem insert_apply (scope : String) : Cells.touchAll (insert window) rows scopes scope =
    if scope ∈ scopes then insert window (rows scope) else rows scope := by
  split
  · rename_i hmem
    refine Cells.touchAll_of_mem (fun row => ?_) hmem
    cases row <;> rfl
  · rename_i hmem
    exact Cells.touchAll_of_not_mem hmem

/-- The row of a scope of the call, as the call reads it. -/
def inserted (window : ℤ) (row : Option Bucket) : Bucket := row.getD { windowStarted := window }

theorem insert_eq (row : Option Bucket) : insert window row = some (inserted window row) := by
  cases row <;> rfl

theorem opened_inserted (row : Option Bucket) :
    opened window (some (inserted window row)) = opened window row := by
  cases row with
  | none => exact opened_of_eq rfl
  | some row => rfl

/-- The rows that the loop goes over. -/
def read (window : ℤ) (rows : QuotaRows) (scopes : List String) : List (String × Bucket) :=
  scopes.map fun scope => (scope, inserted window (rows scope))

theorem select_insert : select (Cells.touchAll (insert window) rows scopes) scopes =
    read window rows scopes := by
  unfold select read
  rw [← List.filterMap_eq_map]
  refine List.filterMap_congr fun scope hmem => ?_
  rw [insert_apply, if_pos hmem, insert_eq]
  rfl

theorem readFrom_read : ∀ p ∈ read window rows scopes,
    ReadFrom window (Cells.touchAll (insert window) rows scopes) p := by
  intro p hp
  obtain ⟨scope, hmem, rfl⟩ := List.mem_map.1 hp
  exact .inl (by rw [insert_apply, if_pos hmem, insert_eq])

/-- The first scope of the call that is at a limit. -/
def firstReached (limits : QuotaLimits) (current : String → Bucket) (scopes : List String) :
    Option String :=
  scopes.find? fun scope => limits.reached (current scope)

theorem find?_read : (read window rows scopes).find? (stops limits window) =
    (firstReached limits (fun scope => opened window (rows scope)) scopes).map
      fun scope => (scope, inserted window (rows scope)) := by
  unfold read firstReached
  rw [List.find?_map]
  congr 2
  funext scope
  simp only [Function.comp_apply, stops, opened_inserted]

/-- The loop, over the rows of a call. -/
def checked (limits : QuotaLimits) (now : ℤ) (rows : QuotaRows) (scopes : List String) :
    Option BackendQuotaResult × QuotaRows :=
  let window := windowStart now limits.windowSeconds
  check limits now window (read window rows scopes) (Cells.touchAll (insert window) rows scopes)

theorem reserve_eq : PostgresQuotaBackend.reserve rows scopes limits now =
    match checked limits now rows scopes with
    | (some result, rows) => (result, rows)
    | (none, rows) =>
      ({ outcome := .allowed, lease := some ⟨"postgres", scopes, windowStart now limits.windowSeconds⟩ },
        Cells.touchAll (Option.map count) rows scopes) := by
  rcases hchecked : checked limits now rows scopes with ⟨_ | result, rows'⟩
  all_goals
    unfold checked at hchecked
    unfold PostgresQuotaBackend.reserve
    simp only [select_insert, hchecked]

theorem checked_looped (hwindow : windowStart now limits.windowSeconds = window) :
    Looped limits now window (read window rows scopes) (Cells.touchAll (insert window) rows scopes)
      (checked limits now rows scopes) := by
  subst hwindow
  exact check_looped readFrom_read

theorem checked_result (hwindow : windowStart now limits.windowSeconds = window) :
    (checked limits now rows scopes).1 =
      (firstReached limits (fun scope => opened window (rows scope)) scopes).map
        fun scope => verdict limits now window (opened window (rows scope)) := by
  rw [(checked_looped hwindow).result, find?_read, Option.map_map]
  congr 1
  funext scope
  simp only [Function.comp_apply, opened_inserted]

/-- The rows of the call's scopes are left as they were read, or opened. -/
theorem checked_rows (hwindow : windowStart now limits.windowSeconds = window) (hmem : scope ∈ scopes) :
    (checked limits now rows scopes).2 scope = some (inserted window (rows scope)) ∨
      (checked limits now rows scopes).2 scope = some (opened window (rows scope)) := by
  rcases (checked_looped hwindow).rows scope with hkept | ⟨p, hp, hscope, hopened⟩
  · rw [hkept, insert_apply, if_pos hmem, insert_eq]
    exact .inl rfl
  · obtain ⟨other, -, rfl⟩ := List.mem_map.1 hp
    rw [hopened, opened_inserted, ← hscope]
    exact .inr rfl

theorem checked_all (hwindow : windowStart now limits.windowSeconds = window) (hmem : scope ∈ scopes)
    (hnone : (checked limits now rows scopes).1 = none) :
    (checked limits now rows scopes).2 scope = some (opened window (rows scope)) := by
  have hopened := (checked_looped hwindow).all hnone _ (List.mem_map_of_mem hmem)
  rw [opened_inserted] at hopened
  exact hopened

theorem checked_elsewhere (hmem : scope ∉ scopes) :
    (checked limits now rows scopes).2 scope = rows scope := by
  rcases (checked_looped rfl).rows scope with hkept | ⟨p, hp, hscope, -⟩
  · rw [hkept, insert_apply, if_neg hmem]
  · obtain ⟨other, hother, rfl⟩ := List.mem_map.1 hp
    exact absurd (hscope ▸ hother) hmem

end Table

/-! ## One backend for the other -/

section Mirrors

variable {limits : QuotaLimits} {now window : ℤ} {backends : QuotaBackends}
  {buckets : Buckets} {rows : QuotaRows} {scopes : List String} {scope token : String}

/-- What the row of a scope has to do with its bucket: they are the same, or the bucket has been
opened in a later window, and has counted nothing there. -/
def Mirror (bucket row : Option Bucket) : Prop :=
  bucket = row ∨ ∃ stale window, row = some stale ∧ bucket = some { windowStarted := window } ∧
    stale.windowStarted < window

/-- The table mirrors the buckets. -/
def Mirrors (buckets : Buckets) (rows : QuotaRows) : Prop :=
  ∀ scope, Mirror (buckets scope) (rows scope)

/-- A call in order reads the same counts from both. -/
theorem Mirror.opened {bucket row : Option Bucket} (hmirror : Mirror bucket row)
    (horder : ∀ b, bucket = some b → b.windowStarted ≤ window) :
    opened window bucket = opened window row := by
  rcases hmirror with rfl | ⟨stale, later, rfl, rfl, hstale⟩
  · rfl
  · have hlater := horder _ rfl
    have hne : stale.windowStarted ≠ window := fun heq => by dsimp only at hlater; omega
    rw [opened_of_ne hne]
    by_cases hwindow : later = window
    · rw [← hwindow]; exact opened_of_eq rfl
    · exact opened_of_ne hwindow

/-- A row that was only read mirrors the bucket that was opened. -/
theorem Mirror.read {bucket row : Option Bucket} (hmirror : Mirror bucket row)
    (horder : ∀ b, bucket = some b → b.windowStarted ≤ window) :
    Mirror (some (GroundedOps.opened window bucket)) (some (inserted window row)) := by
  rw [hmirror.opened horder, ← opened_inserted]
  by_cases hwindow : (inserted window row).windowStarted = window
  · exact .inl (congrArg some (opened_of_eq hwindow))
  · refine .inr ⟨_, window, rfl, congrArg some (opened_of_ne hwindow), ?_⟩
    have hle : (inserted window row).windowStarted ≤ window := by
      rcases hmirror with rfl | ⟨stale, later, rfl, rfl, hstale⟩
      · cases bucket with
        | none => exact le_refl _
        | some bucket => exact horder bucket rfl
      · exact (le_of_lt hstale).trans (horder _ rfl)
    omega

/-- A release does the same to both. -/
theorem Mirror.release {bucket row : Option Bucket} (hmirror : Mirror bucket row) (count : ℕ) :
    Mirror ((Option.map (uncount window))^[count] bucket) ((Option.map (uncount window))^[count] row) := by
  rcases hmirror with rfl | ⟨stale, later, rfl, rfl, hstale⟩
  · exact .inl rfl
  · rw [iterate_map_uncount, iterate_map_uncount]
    refine .inr ⟨_, later, rfl, ?_, ?_⟩
    · rw [Option.map_some]
      split
      · rw [Nat.zero_sub]
      · rfl
    · dsimp only
      split <;> exact hstale

theorem Mirrors.release (hmirrors : Mirrors buckets rows) (lease : QuotaLease) :
    Mirrors (InMemoryQuotaBackend.release buckets lease) (PostgresQuotaBackend.release rows lease) := by
  intro scope
  unfold InMemoryQuotaBackend.release PostgresQuotaBackend.release
  rw [Cells.touchAll_apply, Cells.touchAll_apply]
  exact (hmirrors scope).release _

/-- The first scope at a limit is the same in both. -/
theorem firstReached_congr {current current' : String → Bucket}
    (hcurrent : ∀ scope ∈ scopes, current scope = current' scope) :
    firstReached limits current scopes = firstReached limits current' scopes := by
  unfold firstReached
  induction scopes with
  | nil => rfl
  | cons scope scopes ih =>
    rw [List.find?_cons, List.find?_cons, hcurrent scope List.mem_cons_self,
      ih fun scope hmem => hcurrent scope (List.mem_cons_of_mem _ hmem)]

theorem firstReached_eq_none {current : String → Bucket} :
    firstReached limits current scopes = none ↔ ∀ scope ∈ scopes,
      (current scope).requestCount < limits.maxRequests ∧
        (current scope).activeCount < limits.maxConcurrent := by
  unfold firstReached QuotaLimits.reached
  simp only [List.find?_eq_none, Bool.or_eq_true, decide_eq_true_eq, not_or, not_le]

/-- A call that finds a scope at a limit. -/
theorem reserve_of_reached {result : BackendQuotaResult}
    (hresult : (checked limits now rows scopes).1 = some result) :
    PostgresQuotaBackend.reserve rows scopes limits now =
      (result, (checked limits now rows scopes).2) := by
  rw [reserve_eq]
  generalize checked limits now rows scopes = out at hresult
  obtain ⟨first, rows'⟩ := out
  cases hresult
  rfl

theorem reserve_of_free (hresult : (checked limits now rows scopes).1 = none) :
    PostgresQuotaBackend.reserve rows scopes limits now =
      ({ outcome := .allowed, lease := some ⟨"postgres", scopes, windowStart now limits.windowSeconds⟩ },
        Cells.touchAll (Option.map count) (checked limits now rows scopes).2 scopes) := by
  rw [reserve_eq]
  generalize checked limits now rows scopes = out at hresult
  obtain ⟨first, rows'⟩ := out
  cases hresult
  rfl

/-- A reservation of the in-memory backend, which checks every request count first. -/
theorem memory_result (hscopes : scopes ≠ []) (hwindow : windowStart now limits.windowSeconds = window) :
    (InMemoryQuotaBackend.reserve buckets scopes limits now token).1 =
      if ∃ scope ∈ scopes, limits.maxRequests ≤ (opened window (buckets scope)).requestCount then
        some { outcome := .rateLimited, retryAfterSeconds := retryAfter window limits now }
      else if ∃ scope ∈ scopes, limits.maxConcurrent ≤ (opened window (buckets scope)).activeCount then
        some { outcome := .concurrentLimited }
      else some { outcome := .allowed, lease := some ⟨token, scopes, window⟩ } := by
  subst hwindow
  unfold InMemoryQuotaBackend.reserve
  rw [if_neg hscopes]
  dsimp only
  rw [current_filterMap]
  simp only [List.any_map, List.any_eq_true, Function.comp_apply, decide_eq_true_eq]
  split
  · rfl
  · split <;> rfl

section Reservation

variable (hmirrors : Mirrors buckets rows)
  (horder : ∀ scope ∈ scopes, ∀ bucket, buckets scope = some bucket →
    bucket.windowStarted ≤ windowStart now limits.windowSeconds)

include hmirrors horder

/-- The loop goes by the buckets of the in-memory backend. -/
theorem Mirrors.checked_result (hwindow : windowStart now limits.windowSeconds = window) :
    (checked limits now rows scopes).1 =
      (firstReached limits (fun scope => opened window (buckets scope)) scopes).map
        fun scope => verdict limits now window (opened window (buckets scope)) := by
  subst hwindow
  have hcurrent : ∀ scope ∈ scopes, opened (windowStart now limits.windowSeconds) (buckets scope) =
      opened (windowStart now limits.windowSeconds) (rows scope) :=
    fun scope hmem => (hmirrors scope).opened (horder scope hmem)
  rw [GroundedOps.checked_result rfl, firstReached_congr hcurrent]
  refine Option.map_congr fun first hfirst => ?_
  rw [hcurrent first (List.mem_of_find?_eq_some hfirst)]

theorem Mirrors.checked :
    Mirrors (Cells.touchAll (currentBucket (windowStart now limits.windowSeconds)) buckets scopes)
      (checked limits now rows scopes).2 := by
  intro scope
  rw [current_apply]
  split
  · rename_i hmem
    have hin := horder scope hmem
    rcases checked_rows rfl hmem with hread | hopened
    · rw [hread]
      exact (hmirrors scope).read hin
    · rw [hopened, (hmirrors scope).opened hin]
      exact .inl rfl
  · rename_i hmem
    rw [checked_elsewhere hmem]
    exact hmirrors scope

/-- **A reservation in order keeps the table a mirror.** -/
theorem Mirrors.reserve :
    Mirrors (InMemoryQuotaBackend.reserve buckets scopes limits now token).2
      (PostgresQuotaBackend.reserve rows scopes limits now).2 := by
  -- the loop of the table and the search of the memory stop at the same scope
  have hresult := hmirrors.checked_result horder rfl
  have hrolled := hmirrors.checked horder
  have hreserved := reserve_cases buckets scopes limits now token
  generalize InMemoryQuotaBackend.reserve buckets scopes limits now token = out at hreserved
  cases hreserved with
  | unscoped hscopes =>
    subst hscopes
    rw [reserve_of_free hresult]
    exact hrolled
  | denied result _ _ hfull =>
    obtain ⟨first, hfirst⟩ : ∃ first, firstReached limits
        (fun scope => opened (windowStart now limits.windowSeconds) (buckets scope)) scopes =
          some first := by
      refine Option.ne_none_iff_exists'.1 fun hnone => ?_
      obtain ⟨scope, hmem, hlimit⟩ := hfull
      have hroom := firstReached_eq_none.1 hnone scope hmem
      omega
    rw [hfirst] at hresult
    rw [reserve_of_reached hresult]
    exact hrolled
  | granted hroom =>
    rw [firstReached_eq_none.2 hroom] at hresult
    rw [reserve_of_free hresult]
    intro scope
    dsimp only
    rw [Cells.touchAll_apply (Option.map count), Cells.touchAll_apply (Option.map count)]
    by_cases hmem : scope ∈ scopes
    · -- the loop has opened every row
      rw [current_apply, if_pos hmem, checked_all rfl hmem hresult,
        (hmirrors scope).opened (horder scope hmem)]
      exact .inl rfl
    · rw [List.count_eq_zero_of_not_mem hmem]
      exact hrolled scope

/-- **The two return the same from a reservation in order exactly when** the first scope at a
limit is at its request limit, where any is. -/
theorem Mirrors.results_iff (hscopes : scopes ≠ [])
    (hwindow : windowStart now limits.windowSeconds = window) :
    (InMemoryQuotaBackend.reserve buckets scopes limits now token).1.map
          (fun result => (result.outcome, result.retryAfterSeconds)) =
        some ((PostgresQuotaBackend.reserve rows scopes limits now).1.outcome,
          (PostgresQuotaBackend.reserve rows scopes limits now).1.retryAfterSeconds) ↔
      ((∃ scope ∈ scopes, limits.maxRequests ≤ (opened window (buckets scope)).requestCount) →
        ∀ first, firstReached limits (fun scope => opened window (buckets scope)) scopes = some first →
          limits.maxRequests ≤ (opened window (buckets first)).requestCount) := by
  have hresult := hmirrors.checked_result horder hwindow
  rw [memory_result hscopes hwindow]
  cases hfirst : firstReached limits (fun scope => opened window (buckets scope)) scopes with
  | none =>
    rw [hfirst] at hresult
    rw [reserve_of_free hresult]
    have hroom := firstReached_eq_none.1 hfirst
    have hrequests : ¬∃ scope ∈ scopes,
        limits.maxRequests ≤ (opened window (buckets scope)).requestCount := by
      rintro ⟨scope, hmem, hfull⟩
      have := (hroom scope hmem).1
      omega
    have hactive : ¬∃ scope ∈ scopes,
        limits.maxConcurrent ≤ (opened window (buckets scope)).activeCount := by
      rintro ⟨scope, hmem, hfull⟩
      have := (hroom scope hmem).2
      omega
    rw [if_neg hrequests, if_neg hactive]
    exact iff_of_true rfl fun _ _ heq => by cases heq
  | some first =>
    rw [hfirst, Option.map_some] at hresult
    rw [reserve_of_reached hresult]
    have hmem : first ∈ scopes := List.mem_of_find?_eq_some hfirst
    have hreached := List.find?_some hfirst
    simp only [QuotaLimits.reached, Bool.or_eq_true, decide_eq_true_eq] at hreached
    unfold verdict
    by_cases hfull : limits.maxRequests ≤ (opened window (buckets first)).requestCount
    · rw [if_pos ⟨first, hmem, hfull⟩, if_pos hfull]
      exact iff_of_true rfl fun _ other heq => by cases heq; exact hfull
    · rw [if_neg hfull]
      by_cases hany : ∃ scope ∈ scopes,
          limits.maxRequests ≤ (opened window (buckets scope)).requestCount
      · -- the in-memory backend looks at every request count first
        rw [if_pos hany]
        exact iff_of_false (fun heq => by cases heq) fun himp => hfull (himp hany first rfl)
      · rw [if_neg hany, if_pos ⟨first, hmem, hreached.resolve_left hfull⟩]
        exact iff_of_true rfl fun hsome => absurd hsome hany

end Reservation

end Mirrors

/-! ## Runs -/

/-- The table mirrors the buckets of the in-memory backend. -/
def QuotaBackends.Mirrored (backends : QuotaBackends) : Prop :=
  Mirrors backends.buckets backends.rows

/-- **Every call in order keeps the table a mirror.** -/
theorem step_mirrored {backends : QuotaBackends} {limited : LimitedCall}
    (hmirrored : backends.Mirrored) (horder : limited.InOrder backends) :
    (backends.step limited).Mirrored := by
  obtain ⟨limits, call⟩ := limited
  cases call with
  | reserve scopes now token => exact hmirrored.reserve (horder scopes now token rfl)
  | release lease => exact hmirrored.release lease

theorem agrees_iff {backends : QuotaBackends} {limited : LimitedCall} (hmirrored : backends.Mirrored)
    (horder : limited.InOrder backends) (hscoped : limited.Scoped) :
    limited.Agrees backends ↔ limited.RequestsFirst backends := by
  obtain ⟨limits, call⟩ := limited
  cases call with
  | reserve scopes now token =>
    refine Iff.trans (hmirrored.results_iff (horder scopes now token rfl)
      (hscoped scopes now token rfl) rfl) ⟨fun h => ?_, fun h => h scopes now token rfl⟩
    rintro _ _ _ heq
    cases heq
    exact h
  | release lease => exact iff_of_true rfl fun _ _ _ heq => by cases heq

/-- **The two backends return the same from every call exactly when every reservation finds its
first scope at a limit at the request limit, where any is**: in every run from empty, of calls
that name a scope, with any limits and in the order of their windows. -/
theorem backends_agree_iff (calls : List LimitedCall) (hscoped : ∀ limited ∈ calls, limited.Scoped)
    (horder : Machine.Meets QuotaBackends.step (fun backends limited => limited.InOrder backends) {} calls) :
    Machine.Meets QuotaBackends.step (fun backends limited => limited.Agrees backends) {} calls ↔
      Machine.Meets QuotaBackends.step (fun backends limited => limited.RequestsFirst backends) {} calls :=
  Machine.meets_iff_meets (fun _ _ hmirrored hok => step_mirrored hmirrored hok.2)
    (fun _ _ hmirrored hok => agrees_iff hmirrored hok.2 hok.1)
    (fun _ => .inl rfl : ({} : QuotaBackends).Mirrored) (horder.and_mem hscoped)

/-- Two requests a minute, one at a time. -/
def twoInTurn : QuotaLimits := ⟨2, 60, 1, Nat.succ_pos _, Nat.succ_pos _, Nat.succ_pos _⟩

/-- A reservation in each of two minutes, on both backends. -/
theorem backends_agree_sample :
    Machine.Meets QuotaBackends.step (fun backends limited => limited.Agrees backends) {}
        [⟨twoInTurn, .reserve ["tenant"] 0 "a"⟩, ⟨twoInTurn, .reserve ["tenant"] 60000000 "b"⟩] ↔
      Machine.Meets QuotaBackends.step (fun backends limited => limited.RequestsFirst backends) {}
        [⟨twoInTurn, .reserve ["tenant"] 0 "a"⟩, ⟨twoInTurn, .reserve ["tenant"] 60000000 "b"⟩] := by
  refine backends_agree_iff _ ?_ ⟨?_, ?_, trivial⟩
  · intro limited hmem scopes now token heq
    simp only [List.mem_cons, List.not_mem_nil, or_false] at hmem
    rcases hmem with rfl | rfl <;> cases heq <;> exact List.cons_ne_nil _ _
  · intro scopes now token _ scope _ bucket hbucket
    cases hbucket
  · intro scopes now token heq scope hmem bucket hbucket
    have hfirst : (QuotaBackends.step {} ⟨twoInTurn, .reserve ["tenant"] 0 "a"⟩).buckets "tenant" =
        some ⟨0, 1, 1⟩ := by decide
    cases heq
    rw [List.mem_singleton.1 hmem, hfirst] at hbucket
    cases hbucket
    decide

/-- A tenant with a request in flight, and a principal that has used its two: the principal's next
call of both scopes. -/
def exhaustedInTurn : List LimitedCall :=
  [⟨twoInTurn, .reserve ["tenant"] 0 "a"⟩, ⟨twoInTurn, .reserve ["principal"] 0 "b"⟩,
    ⟨twoInTurn, .release ⟨"b", ["principal"], 0⟩⟩, ⟨twoInTurn, .reserve ["principal"] 0 "c"⟩]

/-- **The in-memory backend answers with the rate limit, the table with the concurrency limit.** -/
theorem limits_disagree :
    (Machine.run QuotaBackends.step {} exhaustedInTurn).results
        ⟨twoInTurn, .reserve ["tenant", "principal"] 0 "d"⟩ =
      (some (.rateLimited, 60), some (.concurrentLimited, 1)) ∧
    ¬ Machine.Meets QuotaBackends.step (fun backends limited => limited.Agrees backends) {}
      (exhaustedInTurn ++ [⟨twoInTurn, .reserve ["tenant", "principal"] 0 "d"⟩]) := by
  have hresults : (Machine.run QuotaBackends.step {} exhaustedInTurn).results
        ⟨twoInTurn, .reserve ["tenant", "principal"] 0 "d"⟩ =
      (some (.rateLimited, 60), some (.concurrentLimited, 1)) := by decide
  refine ⟨hresults, ?_⟩
  rintro ⟨-, -, -, -, hagrees, -⟩
  have hlast : ((Machine.run QuotaBackends.step {} exhaustedInTurn).results
      ⟨twoInTurn, .reserve ["tenant", "principal"] 0 "d"⟩).1 =
    ((Machine.run QuotaBackends.step {} exhaustedInTurn).results
      ⟨twoInTurn, .reserve ["tenant", "principal"] 0 "d"⟩).2 := hagrees
  rw [hresults] at hlast
  cases hlast

end GroundedOps
