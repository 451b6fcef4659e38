import GroundedOps.Lib.Separator
import GroundedOps.Proof.Quotas

/-!
# Which quotas two tenants share

A principal reserves two buckets for an operation: its tenant's, and one named by its own
identifier alone.

* `scope_inj`: a bucket is named by what it is for.
* `Seen.hidden`, `Seen.kept`: a call moves only what its principal's buckets show.
* `isolated_iff`: **tenants do not see each other's calls exactly when no two of their
  principals share an identifier.**
* `shared_identifier_seen`: what two principals of one identifier see of each other.
-/

namespace GroundedOps

open InMemoryQuotaBackend

/-! ## Names of buckets -/

theorem nul_not_mem_value (operation : QuotaOperation) : '\x00' ∉ operation.value.toList := by
  cases operation <;> decide

section Scopes

variable {e : QuotaEnforcer} {kind kind' value value' scope : String}
  {operation operation' : QuotaOperation} {p q : Principal}

/-- **A bucket is named by the kind and the identifier of its owner.** -/
theorem scope_inj (he : Function.Injective e.digest) (hkind : '\x00' ∉ kind.toList)
    (hkind' : '\x00' ∉ kind'.toList)
    (h : e.scope kind value operation = e.scope kind' value' operation') :
    kind = kind' ∧ value = value' := by
  have htext := he h
  have hassoc : ∀ k o v : String,
      k ++ "\x00" ++ o ++ "\x00" ++ v = k ++ "\x00" ++ (o ++ "\x00" ++ v) := by
    intro k o v
    simp only [String.append_assoc]
  rw [hassoc, hassoc] at htext
  obtain ⟨hk, hrest⟩ := Separator.string_append_inj rfl hkind hkind' htext
  obtain ⟨-, hv⟩ := Separator.string_append_inj rfl (nul_not_mem_value operation)
    (nul_not_mem_value operation') hrest
  exact ⟨hk, hv⟩

/-- Two principals that share a bucket share their tenant or their identifier. -/
theorem scopes_shared (he : Function.Injective e.digest) (hp : scope ∈ e.scopes p operation)
    (hq : scope ∈ e.scopes q operation') : p.tenantId = q.tenantId ∨ p.id = q.id := by
  have htenant : '\x00' ∉ ("tenant" : String).toList := by decide
  have hprincipal : '\x00' ∉ ("principal" : String).toList := by decide
  simp only [QuotaEnforcer.scopes, List.mem_cons, List.not_mem_nil, or_false] at hp hq
  rcases hp with hp | hp
  · rcases hq with hq | hq
    · exact Or.inl (scope_inj he htenant htenant (hp.symm.trans hq)).2
    · have hkind := (scope_inj he htenant hprincipal (hp.symm.trans hq)).1
      exact absurd hkind (by decide)
  · rcases hq with hq | hq
    · have hkind := (scope_inj he hprincipal htenant (hp.symm.trans hq)).1
      exact absurd hkind (by decide)
    · exact Or.inr (scope_inj he hprincipal hprincipal (hp.symm.trans hq)).2

theorem scopes_nodup (he : Function.Injective e.digest) (p : Principal)
    (operation : QuotaOperation) : (e.scopes p operation).Nodup := by
  have hne : e.scope "tenant" p.tenantId operation ≠ e.scope "principal" p.id operation := by
    intro h
    have hkind := (scope_inj he (by decide) (by decide) h).1
    exact absurd hkind (by decide)
  simpa [QuotaEnforcer.scopes] using hne

end Scopes

/-! ## What a call reads and writes -/

section Reserve

variable {buckets buckets' : Buckets} {scopes : List String} {limits : QuotaLimits} {now : ℤ}
  {token scope : String}

/-- A reservation leaves other buckets alone. -/
theorem reserve_of_not_mem (h : scope ∉ scopes) :
    (reserve buckets scopes limits now token).2 scope = buckets scope := by
  have hcases := reserve_cases buckets scopes limits now token
  generalize reserve buckets scopes limits now token = result at hcases
  cases hcases with
  | unscoped => rfl
  | denied => exact Cells.touchAll_of_not_mem h
  | granted => exact (Cells.touchAll_of_not_mem h).trans (Cells.touchAll_of_not_mem h)

/-- **A reservation answers by its own buckets**, and what becomes of a bucket depends on it
and them. -/
theorem reserve_congr (h : ∀ scope ∈ scopes, buckets scope = buckets' scope) :
    (reserve buckets scopes limits now token).1 = (reserve buckets' scopes limits now token).1 ∧
      ∀ scope, buckets scope = buckets' scope →
        (reserve buckets scopes limits now token).2 scope =
          (reserve buckets' scopes limits now token).2 scope := by
  unfold reserve
  split
  · exact ⟨rfl, fun _ h => h⟩
  · dsimp only
    rw [current_filterMap, current_filterMap]
    have hread : (scopes.map fun scope =>
        opened (windowStart now limits.windowSeconds) (buckets scope)) =
        scopes.map fun scope =>
          opened (windowStart now limits.windowSeconds) (buckets' scope) := by
      refine List.map_congr_left fun scope hmem => ?_
      rw [h scope hmem]
    rw [hread]
    split
    · exact ⟨rfl, fun scope hs => Cells.touchAll_congr hs⟩
    · split
      · exact ⟨rfl, fun scope hs => Cells.touchAll_congr hs⟩
      · exact ⟨rfl, fun scope hs => Cells.touchAll_congr (Cells.touchAll_congr hs)⟩

end Reserve

/-! ## Removing a tenant -/

/-- What `principal` is told in a history. -/
def QuotaEnforcer.outcomes (e : QuotaEnforcer) (principal : Principal)
    (calls : List PrincipalCall) : List CallResult :=
  Purge.outputs (PrincipalHistory.step e) (fun call => call.principal = principal) {} calls

/-- Among the principals of the population, what one is told does not depend on the calls of
another tenant. -/
def Isolated (e : QuotaEnforcer) (population : Principal → Prop) : Prop :=
  ∀ calls : List PrincipalCall, (∀ call ∈ calls, population call.principal) →
    ∀ (principal : Principal) (tenantId : String), principal.tenantId ≠ tenantId →
      e.outcomes principal calls =
        e.outcomes principal (calls.filter fun call => call.principal.tenantId ≠ tenantId)

/-- The history `s` shows the principals of other tenants what `t` shows them. -/
structure Seen (e : QuotaEnforcer) (population : Principal → Prop) (tenantId : String)
    (s t : PrincipalHistory) : Prop where
  leases : ∀ q, q.tenantId ≠ tenantId → s.leases q = t.leases q
  buckets : ∀ q operation, population q → q.tenantId ≠ tenantId →
    ∀ scope ∈ e.scopes q operation, s.buckets scope = t.buckets scope
  owned : ∀ q lease, some lease ∈ s.leases q → ∃ operation, lease.scopes = e.scopes q operation

section Seen

variable {e : QuotaEnforcer} {population : Principal → Prop} {tenantId : String}
  {s t : PrincipalHistory} {call : PrincipalCall} {p q : Principal}

/-- The lease of a decision is on the principal's own scopes. -/
theorem acquire_owned {buckets : Buckets} {principal : Principal} {operation : QuotaOperation}
    {now : ℤ} {token : String} {lease : QuotaLease}
    (h : (e.acquire buckets principal operation now token).1.lease = some lease) :
    lease.scopes = e.scopes principal operation := by
  unfold QuotaEnforcer.acquire at h
  dsimp only at h
  have hcases := reserve_cases buckets (e.scopes principal operation) (e.policy operation) now token
  revert h
  generalize reserve buckets (e.scopes principal operation) (e.policy operation) now token = result
    at hcases
  cases hcases with
  | unscoped hnone => exact fun h => absurd h.symm (Option.some_ne_none lease)
  | denied result hlease => exact fun h => absurd (hlease.symm.trans h).symm (Option.some_ne_none lease)
  | granted =>
    intro h
    cases h
    rfl

theorem acquire_buckets {buckets : Buckets} {principal : Principal} {operation : QuotaOperation}
    {now : ℤ} {token : String} : (e.acquire buckets principal operation now token).2 =
      (reserve buckets (e.scopes principal operation) (e.policy operation) now token).2 := by
  unfold QuotaEnforcer.acquire
  dsimp only
  split
  · rename_i heq
    rw [heq]
  · rename_i heq
    rw [heq]

/-- A decision is made by the outcome of the reservation. -/
theorem acquire_decision {buckets buckets' : Buckets} {principal : Principal}
    {operation : QuotaOperation} {now : ℤ} {token : String}
    (h : (reserve buckets (e.scopes principal operation) (e.policy operation) now token).1 =
      (reserve buckets' (e.scopes principal operation) (e.policy operation) now token).1) :
    (e.acquire buckets principal operation now token).1 =
      (e.acquire buckets' principal operation now token).1 := by
  unfold QuotaEnforcer.acquire
  dsimp only
  generalize reserve buckets (e.scopes principal operation) (e.policy operation) now token = r at h
  generalize reserve buckets' (e.scopes principal operation) (e.policy operation) now token = r' at h
  obtain ⟨result, b⟩ := r
  obtain ⟨result', b'⟩ := r'
  cases h
  cases result with
  | none => rfl
  | some => rfl

/-- The leases stay on their principals' own scopes. -/
theorem owned_step (hs : ∀ q lease, some lease ∈ s.leases q →
      ∃ operation, lease.scopes = e.scopes q operation) (call : PrincipalCall) :
    ∀ q lease, some lease ∈ (s.step e call).2.leases q →
      ∃ operation, lease.scopes = e.scopes q operation := by
  cases call with
  | acquire principal operation now token =>
    intro q lease hmem
    simp only [PrincipalHistory.step] at hmem
    by_cases hq : q = principal
    · subst hq
      rw [Function.update_self] at hmem
      rcases List.mem_append.1 hmem with hold | hnew
      · exact hs q lease hold
      · exact ⟨operation, acquire_owned (List.mem_singleton.1 hnew).symm⟩
    · rw [Function.update_of_ne hq] at hmem
      exact hs q lease hmem
  | release principal n =>
    intro q lease hmem
    exact hs q lease hmem

/-- The lease that a principal releases is one of its own. -/
theorem released_owned (hs : ∀ q lease, some lease ∈ s.leases q →
      ∃ operation, lease.scopes = e.scopes q operation) {n : ℕ} {lease : QuotaLease}
    (h : (s.leases p)[n]?.join = some lease) : ∃ operation, lease.scopes = e.scopes p operation := by
  refine hs p lease ?_
  rw [Option.join_eq_some_iff] at h
  exact List.mem_of_getElem? h

/-- **A call of the tenant** moves nothing that others see. -/
theorem Seen.hidden (he : Function.Injective e.digest)
    (hids : ∀ p q, population p → population q → p.id = q.id → p.tenantId = q.tenantId)
    (h : Seen e population tenantId s t) (hcall : population call.principal)
    (htenant : call.principal.tenantId = tenantId) :
    Seen e population tenantId (s.step e call).2 t := by
  -- what the principal reserves is nobody's of another tenant
  have hapart : ∀ q operation operation', population q → q.tenantId ≠ tenantId →
      ∀ scope ∈ e.scopes q operation, scope ∉ e.scopes call.principal operation' := by
    intro q operation operation' hq hqt scope hscope hscope'
    have hsame : q.tenantId = call.principal.tenantId := by
      rcases scopes_shared he hscope hscope' with h | h
      · exact h
      · exact hids q call.principal hq hcall h
    exact hqt (hsame.trans htenant)
  refine ⟨fun q hq => ?_, fun q operation hpop hq scope hscope => ?_, owned_step h.owned call⟩
  · rw [← h.leases q hq]
    cases call with
    | acquire principal operation now token =>
      have hne : q ≠ principal := fun heq => hq (heq ▸ htenant)
      simp only [PrincipalHistory.step]
      exact Function.update_of_ne hne _ _
    | release principal n => rfl
  · rw [← h.buckets q operation hpop hq scope hscope]
    cases call with
    | acquire principal operation' now token =>
      have hout := hapart q operation operation' hpop hq scope hscope
      simp only [PrincipalHistory.step]
      rw [acquire_buckets]
      exact reserve_of_not_mem hout
    | release principal n =>
      simp only [PrincipalHistory.step]
      cases hlease : (s.leases principal)[n]?.join with
      | none => rfl
      | some lease =>
        obtain ⟨operation', hown⟩ := released_owned h.owned hlease
        have hout : scope ∉ lease.scopes :=
          hown ▸ hapart q operation operation' hpop hq scope hscope
        exact Cells.touchAll_of_not_mem hout

/-- **A call of another tenant** is told the same and moves the same. -/
theorem Seen.kept (h : Seen e population tenantId s t) (hcall : population call.principal)
    (htenant : call.principal.tenantId ≠ tenantId) :
    (s.step e call).1 = (t.step e call).1 ∧
      Seen e population tenantId (s.step e call).2 (t.step e call).2 := by
  cases call with
  | acquire principal operation now token =>
    have hread := fun scope hscope => h.buckets principal operation hcall htenant scope hscope
    have hcongr := @reserve_congr s.buckets t.buckets (e.scopes principal operation)
      (e.policy operation) now token hread
    have hdecision : (e.acquire s.buckets principal operation now token).1 =
        (e.acquire t.buckets principal operation now token).1 := acquire_decision hcongr.1
    refine ⟨?_, fun q hq => ?_, fun q operation' hpop hq scope hscope => ?_,
      owned_step h.owned _⟩
    · simp only [PrincipalHistory.step]
      rw [hdecision]
    · simp only [PrincipalHistory.step]
      rw [hdecision]
      by_cases hqp : q = principal
      · subst hqp
        rw [Function.update_self, Function.update_self, h.leases q hq]
      · rw [Function.update_of_ne hqp, Function.update_of_ne hqp, h.leases q hq]
    · simp only [PrincipalHistory.step]
      rw [acquire_buckets, acquire_buckets]
      exact hcongr.2 scope (h.buckets q operation' hpop hq scope hscope)
  | release principal n =>
    have hleases : s.leases principal = t.leases principal := h.leases principal htenant
    simp only [PrincipalHistory.step]
    rw [← hleases]
    cases hlease : (s.leases principal)[n]?.join with
    | none => exact ⟨rfl, h.leases, h.buckets, h.owned⟩
    | some lease =>
      refine ⟨rfl, h.leases, fun q operation hpop hq scope hscope => ?_, h.owned⟩
      exact Cells.touchAll_congr (h.buckets q operation hpop hq scope hscope)

theorem isolated_of_distinct (he : Function.Injective e.digest)
    (hids : ∀ p q, population p → population q → p.id = q.id → p.tenantId = q.tenantId) :
    Isolated e population := by
  intro calls hcalls principal tenantId htenant
  have hstart : Seen e population tenantId {} {} :=
    ⟨fun _ _ => rfl, fun _ _ _ _ _ _ => rfl, fun _ _ h => absurd h List.not_mem_nil⟩
  unfold QuotaEnforcer.outcomes
  have hpurge := @Purge.outputs_purge _ _ _ (PrincipalHistory.step e)
    (fun call => decide (call.principal = principal))
    (fun call => decide (call.principal.tenantId = tenantId))
    (fun call => population call.principal) (Seen e population tenantId)
    (fun s t call hpop hR hh => hR.hidden he hids hpop (of_decide_eq_true hh))
    (fun s t call hpop hR hh => (hR.kept hpop (of_decide_eq_false hh)).2)
    (fun s t call hpop hR ho => by
      have heq : call.principal = principal := of_decide_eq_true ho
      exact (hR.kept hpop (heq ▸ htenant)).1)
    (fun call ho => by
      have heq : call.principal = principal := of_decide_eq_true ho
      exact decide_eq_false (heq ▸ htenant))
    calls {} {} hstart hcalls
  rw [hpurge]
  congr 1
  exact List.filter_congr fun call _ => by simp

/-! ## Two principals of one identifier -/

/-- One principal acquires again and again. -/
def acquisitions (q : Principal) (n : ℕ) : List PrincipalCall :=
  List.replicate n (.acquire q .search 0 "token")

/-- After `n` granted reservations, each of its buckets counts `n`. -/
theorem acquisitions_count (he : Function.Injective e.digest) {n : ℕ}
    (hn : n ≤ min (e.policy .search).maxRequests (e.policy .search).maxConcurrent) :
    ∀ scope ∈ e.scopes q .search,
      opened (windowStart 0 (e.policy .search).windowSeconds)
        ((Purge.after (PrincipalHistory.step e) {} (acquisitions q n)).buckets scope) =
        ⟨windowStart 0 (e.policy .search).windowSeconds, n, n⟩ := by
  induction n with
  | zero => exact fun _ _ => rfl
  | succ n ih =>
    intro scope hscope
    have hbefore := ih (by omega)
    have hsplit : acquisitions q (n + 1) = acquisitions q n ++ [.acquire q .search 0 "token"] :=
      List.replicate_succ'
    have hafter : Purge.after (PrincipalHistory.step e) {} (acquisitions q (n + 1)) =
        ((Purge.after (PrincipalHistory.step e) {} (acquisitions q n)).step e
          (.acquire q .search 0 "token")).2 := by
      rw [hsplit, Purge.after, List.foldl_append]
      rfl
    rw [hafter]
    generalize Purge.after (PrincipalHistory.step e) {} (acquisitions q n) = s at hbefore
    simp only [PrincipalHistory.step]
    rw [acquire_buckets]
    have hcases := reserve_cases s.buckets (e.scopes q .search) (e.policy .search) 0 "token"
    generalize reserve s.buckets (e.scopes q .search) (e.policy .search) 0 "token" = result at hcases
    cases hcases with
    | unscoped hnone => cases hnone
    | denied result _ _ hfull =>
      obtain ⟨scope', hscope', hfull⟩ := hfull
      rw [hbefore scope' hscope'] at hfull
      dsimp only at hfull
      omega
    | granted =>
      have hone : (e.scopes q .search).count scope = 1 :=
        List.count_eq_one_of_mem (scopes_nodup he q .search) hscope
      dsimp only
      rw [Cells.touchAll_apply, hone, current_apply, if_pos hscope, hbefore scope hscope]
      exact opened_of_eq rfl

/-- A decision allows exactly what all its buckets have room for. -/
theorem acquire_allowed_iff {buckets : Buckets} {operation : QuotaOperation} {now : ℤ}
    {token : String} : (e.acquire buckets p operation now token).1.outcome = .allowed ↔
      ∀ scope ∈ e.scopes p operation,
        (opened (windowStart now (e.policy operation).windowSeconds) (buckets scope)).requestCount <
            (e.policy operation).maxRequests ∧
          (opened (windowStart now (e.policy operation).windowSeconds) (buckets scope)).activeCount <
            (e.policy operation).maxConcurrent := by
  unfold QuotaEnforcer.acquire
  dsimp only
  have hcases := reserve_cases buckets (e.scopes p operation) (e.policy operation) now token
  generalize reserve buckets (e.scopes p operation) (e.policy operation) now token = result at hcases
  cases hcases with
  | unscoped hnone => cases hnone
  | denied result hlease houtcome hfull =>
    refine iff_of_false houtcome fun hroom => ?_
    obtain ⟨scope, hscope, hfull⟩ := hfull
    have := hroom scope hscope
    omega
  | granted hroom => exact iff_of_true rfl hroom

/-- **A principal is told of another one with its identifier**, whatever the limits. -/
theorem identifier_shared (he : Function.Injective e.digest) (hid : p.id = q.id)
    (htenant : p.tenantId ≠ q.tenantId) :
    let calls := acquisitions q (min (e.policy .search).maxRequests
      (e.policy .search).maxConcurrent) ++ [.acquire p .search 0 "token"]
    e.outcomes p calls ≠
      e.outcomes p (calls.filter fun call => call.principal.tenantId ≠ q.tenantId) := by
  intro calls
  set n := min (e.policy .search).maxRequests (e.policy .search).maxConcurrent with hn
  have hpq : q ≠ p := fun h => htenant (congrArg Principal.tenantId h.symm)
  have hmem : ∀ call ∈ acquisitions q n, call = .acquire q .search 0 "token" :=
    fun call h => List.eq_of_mem_replicate h
  -- with the other's calls, the bucket of the identifier is full
  have hfull : e.outcomes p calls = [.decision (e.acquire
      (Purge.after (PrincipalHistory.step e) {} (acquisitions q n)).buckets p .search 0
        "token").1] := by
    have hunobserved : ∀ call ∈ acquisitions q n, decide (call.principal = p) = false := by
      intro call h
      rw [hmem call h]
      exact decide_eq_false hpq
    exact (Purge.outputs_append hunobserved).trans (if_pos (decide_eq_true rfl))
  have hdenied : (e.acquire (Purge.after (PrincipalHistory.step e) {} (acquisitions q n)).buckets p
      .search 0 "token").1.outcome ≠ .allowed := by
    intro hallowed
    have hscope : e.scope "principal" p.id .search ∈ e.scopes p .search := by
      simp [QuotaEnforcer.scopes]
    have hscope' : e.scope "principal" p.id .search ∈ e.scopes q .search := by
      rw [hid]
      simp [QuotaEnforcer.scopes]
    have hroom := acquire_allowed_iff.1 hallowed _ hscope
    rw [acquisitions_count he hn.le _ hscope'] at hroom
    dsimp only at hroom
    omega
  -- without them, all its buckets are empty
  have hfilter : calls.filter (fun call => call.principal.tenantId ≠ q.tenantId) =
      [.acquire p .search 0 "token"] := by
    have hnone : (acquisitions q n).filter
        (fun call => decide (call.principal.tenantId ≠ q.tenantId)) = [] := by
      refine List.filter_eq_nil_iff.2 fun call h => ?_
      rw [hmem call h]
      simp [PrincipalCall.principal]
    have hone : [PrincipalCall.acquire p .search 0 "token"].filter
        (fun call => decide (call.principal.tenantId ≠ q.tenantId)) =
        [.acquire p .search 0 "token"] := List.filter_cons_of_pos (decide_eq_true htenant)
    rw [List.filter_append, hnone, hone, List.nil_append]
  have halone : e.outcomes p [.acquire p .search 0 "token"] =
      [.decision (e.acquire (fun _ => none) p .search 0 "token").1] :=
    if_pos (decide_eq_true rfl)
  have hallowed : (e.acquire (fun _ => none) p .search 0 "token").1.outcome = .allowed :=
    acquire_allowed_iff.2 fun scope _ =>
      ⟨(e.policy .search).maxRequests_pos, (e.policy .search).maxConcurrent_pos⟩
  rw [hfilter, halone, hfull]
  intro heq
  injection heq with hdecision
  injection hdecision with hdecision
  exact hdenied (hdecision ▸ hallowed)

/-- **Tenants are isolated exactly when no two of their principals share an identifier.** -/
theorem isolated_iff (e : QuotaEnforcer) (he : Function.Injective e.digest)
    (population : Principal → Prop) : Isolated e population ↔
      ∀ p q, population p → population q → p.id = q.id → p.tenantId = q.tenantId := by
  constructor
  · intro hisolated p q hp hq hid
    by_contra htenant
    refine identifier_shared he hid htenant (hisolated _ (fun call hcall => ?_) p q.tenantId htenant)
    rcases List.mem_append.1 hcall with hcall | hcall
    · rw [List.eq_of_mem_replicate hcall]
      exact hq
    · rw [List.mem_singleton.1 hcall]
      exact hp
  · exact isolated_of_distinct he

end Seen

/-- Two principals of one identifier and two tenants, and a limit of one request. -/
theorem shared_identifier_seen :
    let e : QuotaEnforcer := ⟨fun _ => ⟨1, 60, 8, by decide, by decide, by decide⟩, id⟩
    let alice : Principal := { id := "alice", tenantId := "alpha", roles := [], groups := [] }
    let other : Principal := { id := "alice", tenantId := "beta", roles := [], groups := [] }
    let calls : List PrincipalCall := [.acquire other .search 0 "a", .acquire alice .search 0 "b"]
    e.outcomes alice calls ≠
      e.outcomes alice (calls.filter fun call => call.principal.tenantId ≠ "beta") := by
  decide +kernel

/-- Without shared identifiers, with the digest of the plain name. -/
theorem isolated_sample :
    let e : QuotaEnforcer := ⟨fun _ => ⟨1, 60, 8, by decide, by decide, by decide⟩, id⟩
    Isolated e (fun p => p = ⟨"alice", "alpha", [], [], true⟩ ∨ p = ⟨"bob", "beta", [], [], true⟩) := by
  intro e
  refine (isolated_iff e Function.injective_id _).2 ?_
  rintro p q (rfl | rfl) (rfl | rfl) hid
  · rfl
  · exact absurd hid (by decide)
  · exact absurd hid (by decide)
  · rfl

end GroundedOps
