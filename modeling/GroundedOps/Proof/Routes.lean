import GroundedOps.Proof.Quotas
import GroundedOps.Spec.Routes

/-!
# The routes under a quota: who gets in, and what is given back

`Admission` is what the quota is for. It has no buckets: it decides from the requests themselves,
by what was granted to them in the window and what they still hold.

* `Sound`: the buckets count just that, and a request has released its lease once when it has
  ended, and not before.
* `admission_exact`: **the routes answer every request as `Admission` does**, in any interleaving
  of requests.
* `leases_returned`: **what a bucket counts as active is held by requests under way**, and each
  of them gives it back once; a lease is lost only where the server drops a stream that it never
  began, where closing the session raises, or where `start` raises what is no `Exception`.
-/

namespace GroundedOps

open InMemoryQuotaBackend

/-! ## What a request takes up -/

namespace Request

/-- It has released its lease, or never had one. -/
def settled (request : Request) : Bool :=
  match request.point with
  | .ended _ => true
  | _ => false

/-- What the request was granted of a scope, in a window. -/
def granted (scope : String) (window : ℤ) (request : Request) : ℕ :=
  request.lease.elim 0 (occupies scope window)

/-- What it holds of that. -/
def holding (scope : String) (window : ℤ) (request : Request) : ℕ :=
  if request.settled then 0 else request.granted scope window

end Request

namespace Admission

/-- What the requests were granted of a scope, in a window. -/
def granted (requests : List Request) (scope : String) (window : ℤ) : ℕ :=
  (requests.map (Request.granted scope window)).sum

/-- What they hold of it. -/
def holding (requests : List Request) (scope : String) (window : ℤ) : ℕ :=
  (requests.map (Request.holding scope window)).sum

variable (e : QuotaEnforcer)

/-- What was granted of each scope in the window is limited, and so is what is held of it. -/
def decide (requests : List Request) (principal : Principal) (at' : ℤ) (token : String) :
    QuotaDecision :=
  let limits := e.policy .search
  let window := windowStart at' limits.windowSeconds
  let scopes := e.scopes principal .search
  if ∃ scope ∈ scopes, limits.maxRequests ≤ granted requests scope window then
    { outcome := .rateLimited, retryAfterSeconds := retryAfter window limits at' }
  else if ∃ scope ∈ scopes, limits.maxConcurrent ≤ holding requests scope window then
    { outcome := .concurrentLimited }
  else { outcome := .allowed, lease := some ⟨token, scopes, window⟩ }

/-- The requests alone. -/
def step (requests : List Request) : GatewayAction → List Request
  | .arrive route principal at' token =>
    requests ++ [Request.reserve route principal (decide e requests principal at' token)]
  | .proceed n event => requests.modify n fun request => request.proceed event

end Admission

/-! ## A request -/

namespace Request

/-- A lease is released once, as the request ends. -/
structure Sound (request : Request) : Prop where
  leased : request.settled = false → request.lease.isSome
  released : request.releases = if request.settled ∧ request.lease.isSome then 1 else 0

variable {request : Request} {event : Event} {scope : String} {window : ℤ}

theorem settled_of_atRelease (h : request.atRelease event = true) : request.settled = false := by
  unfold atRelease at h
  unfold settled
  cases hp : request.point with
  | ended reply =>
    rw [hp] at h
    simp at h
  | retrieving => rfl
  | starting => rfl
  | responded => rfl
  | streaming => rfl
  | cancelling reply => rfl
  | releasing reply => rfl
  | lost => rfl

/-- Only the release ends a request. -/
theorem settled_proceed :
    (request.proceed event).settled = (request.settled || request.atRelease event) := by
  obtain ⟨principal, lease, point, releases⟩ := request
  unfold settled proceed atRelease
  dsimp only
  cases point with
  | starting =>
    cases event with
    | raises isException => cases isException <;> rfl
    | _ => rfl
  | _ => cases event <;> rfl

theorem lease_proceed : (request.proceed event).lease = request.lease := rfl

theorem Sound.proceed (h : request.Sound) : (request.proceed event).Sound := by
  have hreleases : (request.proceed event).releases =
      request.releases + if request.atRelease event then 1 else 0 := rfl
  refine ⟨fun hopen => ?_, ?_⟩
  · rw [settled_proceed, Bool.or_eq_false_iff] at hopen
    exact h.leased hopen.1
  · rw [hreleases, h.released, settled_proceed, lease_proceed]
    cases hat : request.atRelease event with
    | false => simp
    | true =>
      have hopen := settled_of_atRelease hat
      have hlease := h.leased hopen
      simp [hopen, hlease]

theorem granted_proceed : (request.proceed event).granted scope window =
    request.granted scope window := rfl

theorem sound_reserve {route : Route} {principal : Principal} {decision : QuotaDecision}
    (h : decision.outcome = .allowed → decision.lease.isSome) :
    (reserve route principal decision).Sound := by
  unfold reserve
  split
  · exact ⟨fun hopen => (nomatch hopen), rfl⟩
  · split
    · exact ⟨fun hopen => (nomatch hopen), rfl⟩
    · rename_i hallowed
      have hlease := h (not_not.1 hallowed)
      cases route with
      | search => exact ⟨fun _ => hlease, rfl⟩
      | ask => exact ⟨fun _ => hlease, rfl⟩

/-- What a request was granted is what its decision says. -/
theorem lease_reserve {route : Route} {principal : Principal} {decision : QuotaDecision}
    (h : decision.outcome ≠ .allowed → decision.lease = none) :
    (reserve route principal decision).lease = decision.lease := by
  unfold reserve
  split
  · rename_i hout
    refine (h ?_).symm
    rw [hout]
    exact fun h => nomatch h
  · split
    · rename_i hout
      exact (h hout).symm
    · cases route with
      | search => rfl
      | ask => rfl

/-- A request is under way when it has a lease, and over when it has none. -/
theorem settled_reserve {route : Route} {principal : Principal} {decision : QuotaDecision} :
    (reserve route principal decision).settled = !decide (decision.outcome = .allowed) := by
  unfold reserve
  split
  · rename_i hout
    rw [hout]
    rfl
  · split
    · rename_i hout
      rw [decide_eq_false hout]
      rfl
    · rename_i hout
      rw [not_not.1 hout]
      cases route with
      | search => rfl
      | ask => rfl

end Request

/-! ## The buckets -/

/-- A request as a lease of the backend's history; one without a lease holds nothing. -/
def Request.entry (request : Request) : GrantedLease :=
  ⟨request.lease.getD ⟨"", [], 0⟩, request.settled⟩

def Gateway.history (g : Gateway) : BackendHistory :=
  { buckets := g.buckets, leases := g.requests.map Request.entry, latest := g.latest }

/-- **The buckets count the requests.** -/
structure Gateway.Sound (limits : QuotaLimits) (g : Gateway) : Prop where
  requests : ∀ request ∈ g.requests, request.Sound
  counted : Counted limits g.history
  rated : ∀ scope b, g.buckets scope = some b →
    b.requestCount = Admission.granted g.requests scope b.windowStarted

section Gateway

variable {limits : QuotaLimits} {g : Gateway} {scope : String} {window : ℤ} {request : Request}
  {scopes : List String} {now : ℤ} {token : String} {n : ℕ} {event : Request.Event}

theorem occupies_entry : occupies scope window request.entry.lease =
    request.granted scope window := by
  unfold Request.entry Request.granted
  cases request.lease with
  | none => unfold occupies; split <;> rfl
  | some lease => rfl

theorem held_entry : request.entry.held (occupies scope window) =
    request.holding scope window := by
  have hreleased : request.entry.released = request.settled := rfl
  rw [GrantedLease.held, Request.holding, hreleased, occupies_entry]

theorem held_history : g.history.held (occupies scope window) = Admission.holding g.requests scope window := by
  rw [BackendHistory.held, Admission.holding, Gateway.history, List.map_map]
  refine congrArg List.sum (List.map_congr_left fun request _ => ?_)
  exact held_entry

/-- Nothing was granted in a window that a scope has no bucket of. -/
theorem Gateway.Sound.fresh (hs : g.Sound limits)
    (htimely : ∀ t, g.latest = some t → t ≤ now)
    (hne : ∀ b, g.buckets scope = some b → b.windowStarted ≠ windowStart now limits.windowSeconds) :
    Admission.granted g.requests scope (windowStart now limits.windowSeconds) = 0 := by
  refine List.sum_eq_zero fun x hx => ?_
  obtain ⟨request, hmem, rfl⟩ := List.mem_map.1 hx
  rw [← occupies_entry]
  unfold occupies
  split
  · rename_i hwindow
    refine List.count_eq_zero_of_not_mem fun hscope => ?_
    obtain ⟨b, hb, hle⟩ := hs.counted.lease request.entry (List.mem_map_of_mem hmem) scope hscope
    have hge := hs.counted.window_le htimely hb
    have hwindows := hne b hb
    omega
  · rfl

/-- **The bucket that a reservation reads** has counted the requests of its window. -/
theorem Gateway.Sound.opened (hs : g.Sound limits)
    (htimely : ∀ t, g.latest = some t → t ≤ now) :
    (opened (windowStart now limits.windowSeconds) (g.buckets scope)).requestCount =
      Admission.granted g.requests scope (windowStart now limits.windowSeconds) := by
  cases hb : g.buckets scope with
  | none =>
    rw [hs.fresh htimely fun b h => absurd (hb.symm.trans h).symm (Option.some_ne_none b)]
    rfl
  | some b =>
    by_cases hw : b.windowStarted = windowStart now limits.windowSeconds
    · rw [opened_of_eq hw, hs.rated scope b hb, hw]
    · rw [opened_of_ne hw, hs.fresh htimely]
      intro b' hb'
      obtain rfl := Option.some.inj (hb.symm.trans hb')
      exact hw

/-- **A reservation decides as `Admission` does.** -/
theorem Gateway.Sound.acquire {e : QuotaEnforcer} (hs : g.Sound (e.policy .search))
    (principal : Principal) (htimely : ∀ t, g.latest = some t → t ≤ now) :
    (e.acquire g.buckets principal .search now token).1 =
      Admission.decide e g.requests principal now token := by
  have hscopes : e.scopes principal .search ≠ [] := List.cons_ne_nil _ _
  have hrequests : ∀ scope, (GroundedOps.opened (windowStart now (e.policy .search).windowSeconds)
      (g.buckets scope)).requestCount = Admission.granted g.requests scope
        (windowStart now (e.policy .search).windowSeconds) := fun scope => hs.opened htimely
  have hactive : ∀ scope, (GroundedOps.opened (windowStart now (e.policy .search).windowSeconds)
      (g.buckets scope)).activeCount = Admission.holding g.requests scope
        (windowStart now (e.policy .search).windowSeconds) :=
    fun scope => (hs.counted.opened htimely).trans held_history
  unfold QuotaEnforcer.acquire InMemoryQuotaBackend.reserve Admission.decide
  dsimp only
  rw [if_neg hscopes, current_filterMap]
  simp only [List.any_map, List.any_eq_true, Function.comp_apply, decide_eq_true_eq, hrequests,
    hactive]
  by_cases hrate : ∃ scope ∈ e.scopes principal .search, (e.policy .search).maxRequests ≤
      Admission.granted g.requests scope (windowStart now (e.policy .search).windowSeconds)
  · simp only [if_pos hrate]
  · by_cases hconcurrent : ∃ scope ∈ e.scopes principal .search,
        (e.policy .search).maxConcurrent ≤
          Admission.holding g.requests scope (windowStart now (e.policy .search).windowSeconds)
    · simp only [if_neg hrate, if_pos hconcurrent]
    · simp only [if_neg hrate, if_neg hconcurrent]

theorem Gateway.Sound.start (limits : QuotaLimits) : ({} : Gateway).Sound limits where
  requests _ h := absurd h List.not_mem_nil
  counted := Counted.start limits
  rated _ b h := absurd h.symm (Option.some_ne_none b)

/-- An entry that holds nothing. -/
theorem Counted.idle {h : BackendHistory} (hc : Counted limits h) :
    Counted limits { h with leases := h.leases ++ [⟨⟨"", [], 0⟩, true⟩] } := by
  have hheld : ∀ scope window, BackendHistory.held { h with
      leases := h.leases ++ [⟨⟨"", [], 0⟩, true⟩] } (occupies scope window) =
        h.held (occupies scope window) := by
    intro scope window
    rw [BackendHistory.held, List.map_append, List.sum_append]
    rfl
  refine ⟨fun scope b hb => ?_, fun granted hmem scope hscope => ?_, hc.latest,
    fun scope window => ?_⟩
  · rw [hheld]
    exact hc.bucket scope b hb
  · rcases List.mem_append.1 hmem with hold | hnew
    · exact hc.lease granted hold scope hscope
    · rw [List.mem_singleton.1 hnew] at hscope
      exact absurd hscope List.not_mem_nil
  · have hbefore := hc.bounded scope window
    unfold BackendHistory.inFlightOf at hbefore ⊢
    rw [List.countP_append]
    exact hbefore

theorem granted_concat (requests : List Request) (request : Request) :
    Admission.granted (requests ++ [request]) scope window =
      Admission.granted requests scope window + request.granted scope window := by
  simp only [Admission.granted, List.map_append, List.map_cons, List.map_nil, List.sum_append,
    List.sum_cons, List.sum_nil, Nat.add_zero]

/-- **A request that arrives.** -/
theorem Gateway.Sound.arrive {e : QuotaEnforcer} (hs : g.Sound (e.policy .search)) (route : Route)
    (principal : Principal) (htimely : ∀ t, g.latest = some t → t ≤ now) :
    (g.step e (.arrive route principal now token)).Sound (e.policy .search) := by
  set limits := e.policy .search
  set window := windowStart now limits.windowSeconds
  set scopes := e.scopes principal .search
  -- the buckets of the reservation, when they are those of the window
  have hrolled : ∀ scope b, Cells.touchAll (currentBucket window) g.buckets scopes scope = some b →
      b.requestCount = Admission.granted g.requests scope b.windowStarted := by
    intro scope b hb
    rw [current_apply] at hb
    split at hb
    · obtain rfl := Option.some.inj hb
      rw [opened_windowStarted]
      exact hs.opened htimely
    · exact hs.rated scope b hb
  have hcounted := @Counted.rolled _ _ scopes _ hs.counted htimely
  unfold Gateway.step QuotaEnforcer.acquire
  dsimp only
  have hcases := reserve_cases g.buckets scopes limits now token
  generalize InMemoryQuotaBackend.reserve g.buckets scopes limits now token = result at hcases
  cases hcases with
  | unscoped hnone => exact absurd hnone (List.cons_ne_nil _ _)
  | denied result hlease houtcome =>
    dsimp only
    set request := Request.reserve route principal
      ⟨result.outcome, result.lease, result.retryAfterSeconds⟩
    have hnone : request.lease = none := (Request.lease_reserve fun _ => hlease).trans hlease
    have hsettled : request.settled = true := by
      rw [Request.settled_reserve, decide_eq_false houtcome]
      rfl
    have hentry : request.entry = ⟨⟨"", [], 0⟩, true⟩ := by
      rw [Request.entry, hnone, hsettled]
      rfl
    refine ⟨fun r hr => ?_, ?_, fun scope b hb => ?_⟩
    · rcases List.mem_append.1 hr with hold | hnew
      · exact hs.requests r hold
      · rw [List.mem_singleton.1 hnew]
        exact Request.sound_reserve fun hallowed => absurd hallowed houtcome
    · have hidle := hcounted.idle
      have heq : (g.requests ++ [request]).map Request.entry =
          g.requests.map Request.entry ++ [⟨⟨"", [], 0⟩, true⟩] := by
        rw [List.map_append, List.map_singleton, hentry]
      unfold Gateway.history
      rw [heq]
      exact hidle
    · have hzero : request.granted scope b.windowStarted = 0 := by
        rw [Request.granted, hnone]
        rfl
      rw [granted_concat, hzero]
      exact hrolled scope b hb
  | granted hroom =>
    dsimp only
    set request := Request.reserve route principal ⟨.allowed, some ⟨token, scopes, window⟩, 1⟩
    have hlease : request.lease = some ⟨token, scopes, window⟩ :=
      Request.lease_reserve fun h => absurd rfl h
    have hsettled : request.settled = false := Request.settled_reserve
    have hentry : request.entry = ⟨⟨token, scopes, window⟩, false⟩ := by
      rw [Request.entry, hlease, hsettled]
      rfl
    refine ⟨fun r hr => ?_, ?_, fun scope b hb => ?_⟩
    · rcases List.mem_append.1 hr with hold | hnew
      · exact hs.requests r hold
      · rw [List.mem_singleton.1 hnew]
        exact Request.sound_reserve fun _ => rfl
    · have heq : (g.requests ++ [request]).map Request.entry =
          g.requests.map Request.entry ++ [⟨⟨token, scopes, window⟩, false⟩] := by
        rw [List.map_append, List.map_singleton, hentry]
      unfold Gateway.history
      rw [heq]
      refine hcounted.grant fun scope hscope => ⟨_, (current_apply _ _ _ _).trans (if_pos hscope),
        opened_windowStarted _ _, (hroom scope hscope).2⟩
    · dsimp only at hb
      rw [Cells.touchAll_apply, iterate_map_count] at hb
      obtain ⟨b₀, hb₀, rfl⟩ := Option.map_eq_some_iff.1 hb
      have hbefore := hrolled scope b₀ hb₀
      have hnew : request.granted scope b₀.windowStarted = scopes.count scope := by
        rw [Request.granted, hlease]
        by_cases hscope : scope ∈ scopes
        · -- a bucket that was reserved is one of the window
          rw [current_apply, if_pos hscope] at hb₀
          have hwindow : b₀.windowStarted = window := by
            rw [← Option.some.inj hb₀, opened_windowStarted]
          exact if_pos hwindow.symm
        · have hzero := List.count_eq_zero_of_not_mem hscope
          rw [hzero]
          refine Nat.eq_zero_of_le_zero ?_
          dsimp only [Option.elim_some, occupies]
          split <;> omega
      dsimp only
      rw [granted_concat, hnew, hbefore]

/-- A request that goes on was granted what it was granted. -/
theorem granted_set (hn : g.requests[n]? = some request) :
    Admission.granted (g.requests.set n (request.proceed event)) scope window =
      Admission.granted g.requests scope window := by
  have hmap : (g.requests.set n (request.proceed event)).map (Request.granted scope window) =
      g.requests.map (Request.granted scope window) := by
    obtain ⟨hlt, hget⟩ := List.getElem?_eq_some_iff.1 hn
    have hlt' : n < (g.requests.map (Request.granted scope window)).length := by
      rwa [List.length_map]
    have hsame : request.granted scope window =
        (g.requests.map (Request.granted scope window))[n] := by
      rw [List.getElem_map, hget]
    rw [List.map_set, Request.granted_proceed, hsame, List.set_getElem_self]
  rw [Admission.granted, hmap, Admission.granted]

/-- **A request that goes on.** -/
theorem Gateway.Sound.proceed {e : QuotaEnforcer} (hs : g.Sound limits) :
    (g.step e (.proceed n event)).Sound limits := by
  unfold Gateway.step
  dsimp only
  cases hn : g.requests[n]? with
  | none => exact hs
  | some request =>
    dsimp only
    have hsound : request.Sound := hs.requests request (List.mem_of_getElem? hn)
    have hentry : (g.requests.map Request.entry)[n]? = some request.entry := by
      rw [List.getElem?_map, hn]
      rfl
    have hmem : ∀ r ∈ g.requests.set n (request.proceed event), r.Sound := by
      intro r hr
      rcases List.mem_or_eq_of_mem_set hr with hold | rfl
      · exact hs.requests r hold
      · exact hsound.proceed
    cases hat : request.atRelease event with
    | false =>
      -- nothing changes but for the point
      have hkeep : (request.proceed event).entry = request.entry := by
        rw [Request.entry, Request.settled_proceed, hat, Bool.or_false]
        rfl
      have hmap : (g.requests.set n (request.proceed event)).map Request.entry =
          g.requests.map Request.entry := by
        obtain ⟨hlt, hget⟩ := List.getElem?_eq_some_iff.1 hentry
        rw [List.map_set, hkeep, ← hget, List.set_getElem_self]
      refine ⟨hmem, ?_, fun scope b hb => ?_⟩
      · have hcounted := hs.counted
        unfold Gateway.history at hcounted ⊢
        dsimp only
        rw [hmap]
        exact hcounted
      · rw [granted_set hn]
        exact hs.rated scope b hb
    | true =>
      have hopen := Request.settled_of_atRelease hat
      obtain ⟨lease, hlease⟩ := Option.isSome_iff_exists.1 (hsound.leased hopen)
      have hreleased : (request.proceed event).entry = request.entry.release := by
        rw [Request.entry, Request.settled_proceed, hat, Bool.or_true]
        rfl
      have hmap : (g.requests.set n (request.proceed event)).map Request.entry =
          (g.requests.map Request.entry).modify n GrantedLease.release := by
        rw [List.map_set, hreleased, List.modify_eq_set_getElem?, hentry]
        rfl
      have hsame : request.entry.lease = lease := by
        rw [Request.entry, hlease]
        rfl
      have hbuckets : (QuotaEnforcer.release g.buckets request.lease).2 =
          InMemoryQuotaBackend.release g.buckets request.entry.lease := by
        rw [hsame, hlease]
        rfl
      refine ⟨hmem, ?_, fun scope b hb => ?_⟩
      · have hrelease := hs.counted.release hentry hopen
        unfold Gateway.history
        dsimp only
        rw [if_pos rfl, hbuckets, hmap]
        exact hrelease
      · rw [granted_set hn]
        dsimp only at hb
        rw [if_pos rfl, hbuckets, release_apply] at hb
        obtain ⟨b₀, hb₀, rfl⟩ := Option.map_eq_some_iff.1 hb
        have hbefore := hs.rated scope b₀ hb₀
        split
        · exact hbefore
        · exact hbefore

/-- **One step.** -/
theorem Gateway.Sound.step {e : QuotaEnforcer} (hs : g.Sound (e.policy .search))
    {action : GatewayAction} (htimely : action.timely g) :
    (g.step e action).Sound (e.policy .search) := by
  cases action with
  | arrive route principal at' token => exact hs.arrive route principal htimely
  | proceed n event => exact hs.proceed

/-- One step, seen from the requests. -/
theorem Gateway.Sound.refines {e : QuotaEnforcer} (hs : g.Sound (e.policy .search))
    {action : GatewayAction} (htimely : action.timely g) :
    (g.step e action).requests = Admission.step e g.requests action := by
  cases action with
  | arrive route principal at' token =>
    have hacquire := @Gateway.Sound.acquire _ _ token e hs principal htimely
    unfold Gateway.step Admission.step
    dsimp only
    rw [hacquire]
  | proceed n event =>
    unfold Gateway.step Admission.step
    dsimp only
    rw [List.modify_eq_set_getElem?]
    cases hn : g.requests[n]? with
    | none => rfl
    | some request => rfl

/-! ## Runs -/

variable (e : QuotaEnforcer) {actions : List GatewayAction}

/-- The buckets count the requests after every run in which timestamps do not decrease. -/
theorem sound_run (htimely : Machine.Meets (Gateway.step e) (fun g action => action.timely g) {}
    actions) : (Machine.run (Gateway.step e) {} actions).Sound (e.policy .search) := by
  refine Machine.Always.last (Machine.always_of_meets (I := Gateway.Sound (e.policy .search))
    (fun g action hs _ hok => hs.step hok) (fun g action hs _ hok => hs.step hok)
    (Gateway.Sound.start _) (Gateway.Sound.start _) htimely)

/-- The events after which nobody releases the lease. -/
def Request.Event.loses : Request.Event → Bool
  | .raises isException => !isException
  | .dropped => true
  | .cancelRaises => true
  | _ => false

theorem pass_lost {point : RoutePoint} (h : Request.pass point event = .lost) :
    point = .lost ∨ event.loses = true := by
  cases point with
  | starting =>
    cases event with
    | raises isException =>
      cases isException with
      | false => exact Or.inr rfl
      | true => cases h
    | _ => cases h
  | lost => exact Or.inl rfl
  | responded => cases event <;> first | exact Or.inr rfl | cases h
  | cancelling reply => cases event <;> first | exact Or.inr rfl | cases h
  | _ => cases event <;> cases h

theorem reserve_not_lost {route : Route} {principal : Principal} {decision : QuotaDecision} :
    (Request.reserve route principal decision).point ≠ .lost := by
  unfold Request.reserve
  split
  · exact fun h => nomatch h
  · split
    · exact fun h => nomatch h
    · cases route with
      | search => exact fun h => nomatch h
      | ask => exact fun h => nomatch h

/-- Without such an event no request is lost. -/
theorem none_lost (hkept : ∀ n event, .proceed n event ∈ actions → event.loses = false) :
    ∀ request ∈ (Machine.run (Gateway.step e) {} actions).requests, request.point ≠ .lost := by
  refine Machine.run_inv_of_mem (I := fun g : Gateway => ∀ request ∈ g.requests,
    request.point ≠ .lost) (fun g action hmem hg => ?_) (fun _ h => absurd h List.not_mem_nil)
  cases action with
  | arrive route principal at' token =>
    intro request hr
    rcases List.mem_append.1 hr with hold | hnew
    · exact hg request hold
    · rw [List.mem_singleton.1 hnew]
      exact reserve_not_lost
  | proceed n event =>
    unfold Gateway.step
    dsimp only
    cases hn : g.requests[n]? with
    | none => exact hg
    | some request =>
      intro r hr
      rcases List.mem_or_eq_of_mem_set hr with hold | rfl
      · exact hg r hold
      · intro hlost
        rcases pass_lost hlost with hpoint | hloses
        · exact hg request (List.mem_of_getElem? hn) hpoint
        · rw [hkept n event hmem] at hloses
          cases hloses

/-- No window has more requests that hold a scope than there may be. -/
theorem Gateway.Sound.holders (hs : g.Sound limits) :
    (g.requests.countP fun request => 0 < request.holding scope window) ≤ limits.maxConcurrent := by
  refine le_trans ?_ (hs.counted.bounded scope window)
  rw [BackendHistory.inFlightOf, Gateway.history, List.countP_map]
  refine List.countP_mono_left fun request _ hpos => ?_
  have hreleased : request.entry.released = request.settled := rfl
  rw [decide_eq_true_eq, Request.holding, ← occupies_entry] at hpos
  rw [Function.comp_apply, hreleased]
  split at hpos
  · exact absurd hpos (Nat.lt_irrefl 0)
  · rename_i hopen
    unfold occupies at hpos
    split at hpos
    · rename_i hwindow
      have hscope : scope ∈ request.entry.lease.scopes := List.count_pos_iff.1 hpos
      simp [hopen, hwindow, hscope]
    · exact absurd hpos (Nat.lt_irrefl 0)

end Gateway

/-! ## A search, and a question that finds the tenant at its limit -/

def sampleGate : QuotaEnforcer := ⟨fun _ => ⟨60, 60, 1, by decide, by decide, Nat.one_pos⟩, id⟩

def sampleVisits : List GatewayAction :=
  [.arrive .search ⟨"alice", "acme", [], [], true⟩ 0 "a",
    .arrive .ask ⟨"bob", "acme", [], [], true⟩ 5 "b", .proceed 0 .returns, .proceed 0 .releases,
    .arrive .ask ⟨"bob", "acme", [], [], true⟩ 7 "c"]

theorem sampleVisits_timely :
    Machine.Meets (Gateway.step sampleGate) (fun g action => action.timely g) {} sampleVisits := by
  refine ⟨fun t ht => (nomatch ht), fun t ht => ?_, trivial, trivial, fun t ht => ?_, trivial⟩
  · obtain rfl : 0 = t := Option.some.inj ht
    decide
  · obtain rfl : 5 = t := Option.some.inj ht
    decide

/-- **The routes answer every request as `Admission` does**: whatever else is under way, a request
is refused exactly when, in the window of its time, its tenant or its principal has been granted
`maxRequests` requests or holds `maxConcurrent`. -/
theorem admission_exact (e : QuotaEnforcer) (actions : List GatewayAction)
    (htimely : Machine.Meets (Gateway.step e) (fun g action => action.timely g) {} actions) :
    (Machine.run (Gateway.step e) {} actions).requests =
      Machine.run (Admission.step e) [] actions := by
  induction actions using List.reverseRecOn with
  | nil => rfl
  | append_singleton actions action ih =>
    rw [Machine.meets_append] at htimely
    obtain ⟨hbefore, haction, -⟩ := htimely
    rw [Machine.run_concat, Machine.run_concat, ← ih hbefore]
    exact (sound_run e hbefore).refines haction

theorem admission_exact_sample :
    (Machine.run (Gateway.step sampleGate) {} sampleVisits).requests =
      Machine.run (Admission.step sampleGate) [] sampleVisits :=
  admission_exact sampleGate sampleVisits sampleVisits_timely

/-- **What a bucket counts as active is held by requests under way**: it is what they hold in its
window, no more than `maxConcurrent` of them hold a scope, and a request has released its lease
exactly once when it has ended. So nothing is held when all have ended; and the only requests that
never end are those that an event of `loses` has lost. -/
theorem leases_returned (e : QuotaEnforcer) (actions : List GatewayAction)
    (htimely : Machine.Meets (Gateway.step e) (fun g action => action.timely g) {} actions) :
    let g := Machine.run (Gateway.step e) {} actions
    (∀ scope b, g.buckets scope = some b →
      b.activeCount = Admission.holding g.requests scope b.windowStarted) ∧
    (∀ scope window, (g.requests.countP fun request => 0 < request.holding scope window) ≤
      (e.policy .search).maxConcurrent) ∧
    (∀ request ∈ g.requests,
      request.releases = if request.settled ∧ request.lease.isSome then 1 else 0) ∧
    ((∀ request ∈ g.requests, request.settled) →
      ∀ scope b, g.buckets scope = some b → b.activeCount = 0) ∧
    ((∀ n event, .proceed n event ∈ actions → event.loses = false) →
      ∀ request ∈ g.requests, request.point ≠ .lost) := by
  have hs := sound_run e htimely
  have hactive : ∀ scope b, (Machine.run (Gateway.step e) {} actions).buckets scope = some b →
      b.activeCount = Admission.holding (Machine.run (Gateway.step e) {} actions).requests scope
        b.windowStarted :=
    fun scope b hb => (hs.counted.bucket scope b hb).trans held_history
  refine ⟨hactive, fun scope window => hs.holders, fun r hr => (hs.requests r hr).released,
    fun hended scope b hb => ?_, none_lost e⟩
  rw [hactive scope b hb]
  refine List.sum_eq_zero fun x hx => ?_
  obtain ⟨request, hmem, rfl⟩ := List.mem_map.1 hx
  rw [Request.holding, if_pos (hended request hmem)]

theorem leases_returned_sample :
    ((Machine.run (Gateway.step sampleGate) {} sampleVisits).requests.countP
        fun request => 0 < request.holding (sampleGate.scope "tenant" "acme" .search) 0) ≤ 1 ∧
      ∀ request ∈ (Machine.run (Gateway.step sampleGate) {} sampleVisits).requests,
        request.releases = if request.settled ∧ request.lease.isSome then 1 else 0 :=
  have h := leases_returned sampleGate sampleVisits sampleVisits_timely
  ⟨h.2.1 _ 0, h.2.2.1⟩

end GroundedOps
