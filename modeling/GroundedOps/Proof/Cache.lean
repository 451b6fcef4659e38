import GroundedOps.Spec.Cache

/-!
# What a cache hit returns

The backend may replay any record that was ever passed to it, in any call.

* `Sourced`: the records passed are those of loads that have returned.
* `SameAccess`, `SameRetrieval`: what two calls share when their keys are the same.
* `Noninterfering`: **a hit was loaded in an earlier call that shares everything its result depends
  on, and is eligible for the present caller**; a backend that always fails changes no result.
* `noninterference`: every sequence of calls is noninterfering, if no two of its payloads have the
  same digest.
-/

namespace GroundedOps

variable {E : Type} {digest : CachePayload → String} {cache : VersionSafeCache} {world : CacheWorld}

/-! ## Keys -/

/-- The access of two callers, up to the order of roles and groups. -/
structure SameAccess (principal principal' : Principal) : Prop where
  tenantId : principal.tenantId = principal'.tenantId
  id : principal.id = principal'.id
  roles : principal.roles.Perm principal'.roles
  groups : principal.groups.Perm principal'.groups
  known : principal.known = principal'.known

/-- The requests of two retrievals, up to the order of the identifiers. -/
structure SameRetrieval (context context' : QueryContext) : Prop where
  query : context.query = context'.query
  limit : context.limit = context'.limit
  offset : context.offset = context'.offset
  sourceIds : context.sourceIds.Perm context'.sourceIds
  documentIds : context.documentIds.Perm context'.documentIds
  includeHistorical : context.includeHistorical = context'.includeHistorical

theorem perm_of_sorted {values values' : List String} (h : sorted values = sorted values') :
    values.Perm values' :=
  calc values.Perm (sorted values) := (List.perm_insertionSort _ values).symm
    _ = sorted values' := h
    List.Perm _ values' := List.perm_insertionSort _ values'

theorem cacheKey_inj {kind : CacheKind} {payload payload' : CachePayload}
    (h : cacheKey digest kind payload = cacheKey digest kind payload') :
    digest payload = digest payload' := by
  unfold cacheKey at h
  exact (String.append_right_inj _).1 h

section Payloads

variable {kind : CacheKind} {principal principal' : Principal} {versions versions' : CacheVersions}
  {request request' : CacheRequest}

theorem payload_inj (h : payload kind principal versions request = payload kind principal' versions' request') :
    SameAccess principal principal' ∧ versions = versions' ∧ request = request' := by
  simp only [payload, CachePayload.mk.injEq, CacheAuthorization.mk.injEq] at h
  obtain ⟨-, -, htenant, ⟨hid, hroles, hgroups, hknown⟩, hversions, hrequest⟩ := h
  exact ⟨⟨htenant, hid, perm_of_sorted hroles, perm_of_sorted hgroups, hknown⟩, hversions, hrequest⟩

theorem retrievalPayload_inj {context context' : QueryContext}
    (h : retrievalPayload context versions = retrievalPayload context' versions') :
    SameAccess context.principal context'.principal ∧ versions = versions' ∧ SameRetrieval context context' := by
  obtain ⟨haccess, hversions, hrequest⟩ := payload_inj h
  simp only [CacheRequest.retrieval.injEq] at hrequest
  obtain ⟨hquery, hlimit, hoffset, hsources, hdocuments, hhistorical⟩ := hrequest
  exact ⟨haccess, hversions,
    ⟨hquery, hlimit, hoffset, perm_of_sorted hsources, perm_of_sorted hdocuments, hhistorical⟩⟩

theorem answerPayload_inj {question question' : Question}
    (h : answerPayload question principal versions = answerPayload question' principal' versions') :
    SameAccess principal principal' ∧ versions = versions' ∧ question.text = question'.text := by
  obtain ⟨haccess, hversions, hrequest⟩ := payload_inj h
  simp only [CacheRequest.answer.injEq] at hrequest
  exact ⟨haccess, hversions, hrequest⟩

end Payloads

/-! ## The records passed to the backend -/

/-- The payload of the call that loaded. -/
def CacheLoad.payload : CacheLoad → CachePayload
  | .retrieval context versions _ => retrievalPayload context versions
  | .answer question principal versions _ => answerPayload question principal versions

/-- The record of what was loaded. -/
def CacheLoad.record (digest : CachePayload → String) : CacheLoad → CacheRecord
  | .retrieval context versions value =>
    ⟨VersionSafeCache.retrievalKey digest context versions, .retrieval, .evidence value⟩
  | .answer question principal versions value =>
    ⟨VersionSafeCache.answerKey digest question principal versions, .answer, .answer value⟩

/-- **Every record passed is that of a load that has returned**, of a call with one of `payloads`. -/
structure Sourced (digest : CachePayload → String) (payloads : Set CachePayload) (world : CacheWorld) : Prop where
  passed : ∀ entry ∈ world.passed, ∃ load ∈ world.loads, entry.1 = load.record digest
  loads : ∀ load ∈ world.loads, load.payload ∈ payloads

variable {payloads : Set CachePayload}

/-- The record and the payload of a kind of call are those of its loads. -/
structure Reuse.Records {α : Type} (reuse : Reuse α) (digest : CachePayload → String)
    (payload : CachePayload) : Prop where
  record : ∀ value, (reuse.load value).record digest = ⟨reuse.key, reuse.kind, reuse.wrap value⟩
  payload : ∀ value, (reuse.load value).payload = payload

section Reuse

variable {α : Type} {reuse : Reuse α} {payload : CachePayload} {fetched : Fetched} {value : α}

theorem read_mem {key : String} {kind : CacheKind} {record : CacheRecord}
    (h : world.read fetched key kind = some record) :
    (∃ ttl, (record, ttl) ∈ world.passed) ∧ record.key = key ∧ record.kind = kind := by
  unfold CacheWorld.read at h
  split at h
  · cases h
  · cases h
  · cases h
  · split at h
    · cases h
    · rename_i passed ttl hget
      split at h
      · cases h
      · rename_i hsame
        cases h
        push Not at hsame
        exact ⟨⟨ttl, List.mem_of_getElem? hget⟩, hsame⟩

/-- **What is reused is eligible, and was loaded under the same key.** -/
theorem hit_sourced (h : Sourced digest payloads world) (hhit : reuse.hit fetched world = some value) :
    reuse.eligible value = true ∧ ∃ load ∈ world.loads, (load.record digest).key = reuse.key ∧
      (load.record digest).kind = reuse.kind ∧ reuse.unwrap (load.record digest).value = some value := by
  unfold Reuse.hit at hhit
  split at hhit
  · cases hhit
  · rename_i record hread
    obtain ⟨⟨ttl, hmem⟩, hkey, hkind⟩ := read_mem hread
    obtain ⟨hunwrap, heligible⟩ := Option.filter_eq_some_iff.1 hhit
    obtain ⟨load, hload, hrecord⟩ := h.passed _ hmem
    dsimp only at hrecord
    rw [hrecord] at hkey hkind hunwrap
    exact ⟨heligible, load, hload, hkey, hkind, hunwrap⟩

theorem run_hit {load : Except E α} {reply : BackendReply}
    (h : (reuse.run load reply world).1 = .ok ⟨value, true⟩) :
    ∃ stored, reuse.hit reply.get world = some stored ∧ value = reuse.reused stored := by
  unfold Reuse.run at h
  split at h
  · rename_i stored hhit
    cases h
    exact ⟨stored, hhit, rfl⟩
  · split at h
    · cases h
    · cases h

theorem run_sourced {load : Except E α} {reply : BackendReply} (h : Sourced digest payloads world)
    (hrecords : reuse.Records digest payload) (hpayload : payload ∈ payloads) :
    Sourced digest payloads (reuse.run load reply world).2 := by
  unfold Reuse.run
  split
  · exact h
  · split
    · exact h
    · rename_i value
      have hloaded : Sourced digest payloads (world.loaded (reuse.load value)) := by
        refine ⟨fun entry hentry => ?_, fun load hload => ?_⟩
        · obtain ⟨load, hload, hrecord⟩ := h.passed entry hentry
          exact ⟨load, List.mem_append_left _ hload, hrecord⟩
        · rcases List.mem_append.1 hload with hold | hnew
          · exact h.loads load hold
          · rw [List.mem_singleton.1 hnew, hrecords.payload]
            exact hpayload
      dsimp only
      split
      · refine ⟨fun entry hentry => ?_, hloaded.loads⟩
        rcases List.mem_append.1 hentry with hold | hnew
        · exact hloaded.passed entry hold
        · refine ⟨reuse.load value, List.mem_append_right _ (List.mem_singleton.2 rfl), ?_⟩
          rw [List.mem_singleton.1 hnew, hrecords.record]
      · exact hloaded

end Reuse

theorem retrieval_records {context : QueryContext} {versions : CacheVersions} :
    (cache.retrievalReuse digest context versions).Records digest (retrievalPayload context versions) :=
  ⟨fun _ => rfl, fun _ => rfl⟩

theorem answer_records {question : Question} {principal : Principal} {versions : CacheVersions} :
    (cache.answerReuse digest question principal versions).Records digest
      (answerPayload question principal versions) :=
  ⟨fun _ => rfl, fun _ => rfl⟩

/-! ## Hits -/

theorem retrieval_hit (h : Sourced digest payloads world) {context : QueryContext}
    {versions : CacheVersions} {load : Except E EvidenceSet} {reply : BackendReply} {value : EvidenceSet}
    (hdigest : payloads.InjOn digest) (hpayload : retrievalPayload context versions ∈ payloads)
    (hhit : (cache.retrieval digest context versions load reply world).1 = .ok ⟨value, true⟩) :
    eligibleRetrieval value context.principal = true ∧
      ∃ context', .retrieval context' versions value ∈ world.loads ∧
        SameAccess context'.principal context.principal ∧ SameRetrieval context' context := by
  obtain ⟨stored, hstored, rfl⟩ := run_hit hhit
  obtain ⟨heligible, load, hload, hkey, hkind, hunwrap⟩ := hit_sourced h hstored
  refine ⟨heligible, ?_⟩
  cases load with
  | answer question principal versions value => cases hkind
  | retrieval context' versions' value =>
    cases hunwrap
    have hpayload' : retrievalPayload context' versions' ∈ payloads := h.loads _ hload
    obtain ⟨haccess, rfl, hrequest⟩ :=
      retrievalPayload_inj (hdigest hpayload' hpayload (cacheKey_inj hkey))
    exact ⟨context', hload, haccess, hrequest⟩

theorem answer_hit (h : Sourced digest payloads world) {question : Question} {principal : Principal}
    {versions : CacheVersions} {load : Except E GroundedAnswer} {reply : BackendReply}
    {value : GroundedAnswer} (hdigest : payloads.InjOn digest)
    (hpayload : answerPayload question principal versions ∈ payloads)
    (hhit : (cache.answer digest question principal versions load reply world).1 = .ok ⟨value, true⟩) :
    eligibleAnswer value question principal = true ∧
      ∃ question' principal' loaded, .answer question' principal' versions loaded ∈ world.loads ∧
        SameAccess principal' principal ∧ question'.text = question.text ∧
        loaded.question.text = question.text ∧ value = { loaded with question := question } := by
  obtain ⟨stored, hstored, rfl⟩ := run_hit hhit
  obtain ⟨heligible, load, hload, hkey, hkind, hunwrap⟩ := hit_sourced h hstored
  have htext : stored.question.text = question.text := by
    have hparts : (principal.known && stored.status = .verified &&
      stored.question.text = question.text) = true := heligible
    simpa using (Bool.and_eq_true_iff.1 hparts).2
  constructor
  · have hparts : eligibleAnswer stored question principal = true := heligible
    unfold eligibleAnswer at hparts ⊢
    rw [htext] at hparts
    exact hparts
  · cases load with
    | retrieval context versions value => cases hkind
    | answer question' principal' versions' loaded =>
      cases hunwrap
      have hpayload' : answerPayload question' principal' versions' ∈ payloads := h.loads _ hload
      obtain ⟨haccess, rfl, hquestion⟩ :=
        answerPayload_inj (hdigest hpayload' hpayload (cacheKey_inj hkey))
      exact ⟨question', principal', stored, hload, haccess, hquestion, htext, rfl⟩

/-! ## A backend that always fails -/

theorem run_failing {α : Type} {reuse : Reuse α} {load : Except E α} {reply : BackendReply}
    (h : reply.Fails) : (reuse.run load reply world).1 = load.map fun value => ⟨value, false⟩ := by
  have hmiss : reuse.hit reply.get world = none := by
    unfold Reuse.hit
    rw [h.1]
    rfl
  unfold Reuse.run
  rw [hmiss]
  cases load <;> rfl

theorem perform_failing {call : CacheCall E} (h : call.reply.Fails) :
    (cache.perform digest world call).1 = call.uncached := by
  cases call with
  | retrieval context versions load reply => exact congrArg CacheResult.retrieval (run_failing h)
  | answer question principal versions load reply => exact congrArg CacheResult.answer (run_failing h)

theorem results_failing {calls : List (CacheCall E)} (h : ∀ call ∈ calls, call.reply.Fails) :
    cache.results digest world calls = calls.map CacheCall.uncached := by
  induction calls generalizing world with
  | nil => rfl
  | cons call calls ih =>
    have hrest : cache.results digest (cache.step digest world call) calls =
        calls.map CacheCall.uncached := ih fun c hc => h c (List.mem_cons_of_mem _ hc)
    rw [VersionSafeCache.results, perform_failing (h call List.mem_cons_self), hrest]
    rfl

/-! ## Runs -/

theorem step_sourced {call : CacheCall E} (h : Sourced digest payloads world)
    (hpayload : call.payload ∈ payloads) : Sourced digest payloads (cache.step digest world call) := by
  cases call with
  | retrieval context versions load reply => exact run_sourced h retrieval_records hpayload
  | answer question principal versions load reply => exact run_sourced h answer_records hpayload

/-- **A hit is what an earlier call of the same kind, access, versions and request has loaded**, and
a backend that fails changes nothing. -/
structure Noninterfering (cache : VersionSafeCache) (digest : CachePayload → String)
    (calls : List (CacheCall E)) : Prop where
  /-- a retrieval that hits -/
  retrieval : ∀ earlier context versions load reply value,
    earlier ++ [.retrieval context versions load reply] <+: calls →
    (cache.retrieval digest context versions load reply
      (Machine.run (cache.step digest) {} earlier)).1 = .ok ⟨value, true⟩ →
    eligibleRetrieval value context.principal = true ∧
      ∃ context', .retrieval context' versions value ∈ (Machine.run (cache.step digest) {} earlier).loads ∧
        SameAccess context'.principal context.principal ∧ SameRetrieval context' context
  /-- an answer that hits: what was loaded, under the caller's own question -/
  answer : ∀ earlier question principal versions load reply value,
    earlier ++ [.answer question principal versions load reply] <+: calls →
    (cache.answer digest question principal versions load reply
      (Machine.run (cache.step digest) {} earlier)).1 = .ok ⟨value, true⟩ →
    eligibleAnswer value question principal = true ∧
      ∃ question' principal' loaded,
        .answer question' principal' versions loaded ∈ (Machine.run (cache.step digest) {} earlier).loads ∧
        SameAccess principal' principal ∧ question'.text = question.text ∧
        loaded.question.text = question.text ∧ value = { loaded with question := question }
  /-- a backend that always fails -/
  failing : (∀ call ∈ calls, call.reply.Fails) →
    cache.results digest {} calls = calls.map CacheCall.uncached

/-- The payloads of the calls. -/
def payloadsOf (calls : List (CacheCall E)) : Set CachePayload := {payload | ∃ call ∈ calls, call.payload = payload}

theorem run_sourced_of_prefix {calls earlier : List (CacheCall E)} {call : CacheCall E}
    (hleading : earlier ++ [call] <+: calls) :
    Sourced digest (payloadsOf calls) (Machine.run (cache.step digest) {} earlier) ∧
      call.payload ∈ payloadsOf calls := by
  have hmem : ∀ c ∈ earlier ++ [call], c.payload ∈ payloadsOf calls :=
    fun c hc => ⟨c, hleading.subset hc, rfl⟩
  refine ⟨Machine.run_inv_of_mem (fun world c hc h => ?_) ?_, hmem call (by simp)⟩
  · exact step_sourced h (hmem c (List.mem_append_left _ hc))
  · exact ⟨fun entry hentry => (by cases hentry), fun load hload => (by cases hload)⟩

/-- **Every sequence of calls is noninterfering**, whatever the backend replays, if the digest tells
the payloads of its calls apart. -/
theorem noninterference (cache : VersionSafeCache) (digest : CachePayload → String)
    (calls : List (CacheCall E)) (hdigest : (payloadsOf calls).InjOn digest) :
    Noninterfering cache digest calls where
  retrieval := by
    intro earlier context versions load reply value hleading hhit
    obtain ⟨hsourced, hpayload⟩ := run_sourced_of_prefix hleading
    exact retrieval_hit hsourced hdigest hpayload hhit
  answer := by
    intro earlier question principal versions load reply value hleading hhit
    obtain ⟨hsourced, hpayload⟩ := run_sourced_of_prefix hleading
    exact answer_hit hsourced hdigest hpayload hhit
  failing := results_failing

/-! ## A run -/

def sampleVersions : CacheVersions := ⟨"policy-v1", "corpus-v1", "model-v1", by decide⟩

/-- Alice retrieves, with her roles in any order. -/
def sampleRetrieval (roles : List String) : QueryContext where
  query := "procedure"
  principal := ⟨"alice", "alpha", roles, ["platform"], true⟩
  valid := by decide

def sampleCached : EvidenceSet := { evidence := [], strategy := "bm25", total := 0, tookMs := 2 }

def sampleAsked : Question := ⟨"question-1", "What is the procedure?", by decide⟩

/-- The digests of the two payloads of the run below. -/
def sampleDigest (payload : CachePayload) : String :=
  match payload.request with
  | .retrieval .. => "68a42dcd358f8953fc8af31a689ef75a356157341412922b34bd66d7d24c1e43"
  | .answer _ => "2e5b38e715c065b48e20117b9348f37833e5da229c0110ce0a32fe1f481979c2"

/-- A retrieval is loaded; an answer is read from its record and raises; the retrieval is repeated. -/
def sampleCalls : List (CacheCall String) :=
  [.retrieval (sampleRetrieval ["operator", "viewer"]) sampleVersions (.ok sampleCached) ⟨.nothing, true⟩,
    .answer sampleAsked (sampleRetrieval ["operator", "viewer"]).principal sampleVersions
      (.error "GenerationProviderError") ⟨.replayed 0, false⟩,
    .retrieval (sampleRetrieval ["viewer", "operator"]) sampleVersions (.error "unavailable")
      ⟨.replayed 0, false⟩]

theorem noninterference_sample :
    (({} : VersionSafeCache).retrieval (E := String) sampleDigest (sampleRetrieval ["viewer", "operator"])
      sampleVersions (.error "unavailable") ⟨.replayed 0, false⟩
      (Machine.run (({} : VersionSafeCache).step sampleDigest) {} (sampleCalls.take 2))).1 =
        .ok ⟨sampleCached, true⟩ ∧
      Noninterfering {} sampleDigest sampleCalls := by
  refine ⟨by rfl, noninterference {} sampleDigest sampleCalls ?_⟩
  rintro payload ⟨call, hcall, rfl⟩ payload' ⟨call', hcall', rfl⟩ hsame
  have hpairs : ∀ c ∈ sampleCalls, ∀ c' ∈ sampleCalls,
      sampleDigest c.payload = sampleDigest c'.payload → c.payload = c'.payload := by decide +kernel
  exact hpairs call hcall call' hcall' hsame

end GroundedOps
