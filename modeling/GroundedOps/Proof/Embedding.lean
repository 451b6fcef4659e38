import GroundedOps.Proof.Breaker
import GroundedOps.Spec.Embedder

/-!
# Batches of embeddings

* `wp_attempt`, `wp_requestFrom`: what an attempt and the attempts of a request come to.
* `Round`: a batch that was answered, after some failures; `Fails`: one that was not.
* `wp_embedBatches`: **the calls of the provider are rounds**, all batches or some and one that fails.
* `embedding_transparent`: the records that are returned do not depend on how the inputs were batched.
-/

namespace GroundedOps

open Hoare

variable {T : Type} [Zero T] [LinearOrder T] [Sub T]

/-! ## The breaker -/

namespace CircuitBreaker

variable {p : CircuitPolicy T} {b b' : CircuitBreaker T} {now : T}

omit [Zero T] [LinearOrder T] [Sub T] in
theorem stamped_new : ({} : CircuitBreaker T).Stamped := by
  intro hopen
  cases hopen

theorem stamped_of_acquire (h : b.Stamped) (ha : b.acquire p now = .ok b') : b'.Stamped := by
  rcases CircuitHistory.acquire_ok ha with ⟨rfl, -⟩ | ⟨rfl, -⟩
  · exact h
  · intro hopen
    cases hopen

omit [Sub T] in
theorem stamped_recordFailure (h : b.Stamped) : (b.recordFailure p now).Stamped :=
  CircuitHistory.record_stamped b (.raised now) h

omit [Zero T] [LinearOrder T] [Sub T] in
theorem stamped_recordSuccess : b.recordSuccess.Stamped := by
  intro hopen
  cases hopen

end CircuitBreaker

namespace Embedder

variable {access : EmbeddingAccess T} {embedder : Embedder} {request : EmbeddingRequest}
  {w w' : EmbeddingWorld T} {calls : List EmbeddingCall} {failures : List EmbeddingProviderError}
  {batch : List String} {response : EmbeddingResponse}

/-- A world whose calls of the provider are `calls`, and whose breaker has its time. -/
structure Stands (calls : List EmbeddingCall) (w : EmbeddingWorld T) : Prop where
  calls : w.calls = calls
  stamped : w.breaker.Stamped

theorem wp_acquire (h : Stands calls w) :
    wp (acquire access) (fun _ w' => Stands calls w')
      (fun error w' => error = .circuit .circuitOpen ∧ Stands calls w') w := by
  have hstamped := access.others_stamped w.operations w.breaker h.stamped
  unfold acquire
  rw [wp_bind, Hoare.wp_get]
  dsimp only
  cases hacquire : (access.others w.operations w.breaker).acquire access.policy
      (access.clock w.operations) with
  | ok b => exact ⟨h.calls, CircuitBreaker.stamped_of_acquire hstamped hacquire⟩
  | error error =>
    obtain rfl := CircuitHistory.acquire_error hstamped hacquire
    exact ⟨rfl, h.calls, hstamped⟩

theorem wp_record {f : CircuitBreaker T → T → CircuitBreaker T}
    (hf : ∀ b now, b.Stamped → (f b now).Stamped) (h : Stands calls w) :
    wp (record access f) (fun _ w' => Stands calls w') (fun _ _ => False) w :=
  ⟨h.calls, hf _ _ (access.others_stamped w.operations w.breaker h.stamped)⟩

/-! ## One attempt -/

/-- The provider gave this answer to the request, after some others. -/
def Given (access : EmbeddingAccess T) (request : EmbeddingRequest) (response : EmbeddingResponse) : Prop :=
  ∃ history, access.provider (history ++ [request]) = .ok response

theorem wp_attempt (h : Stands calls w) :
    wp (attempt access request)
      (fun response w' => Given access request response ∧
        Stands (calls ++ [⟨request, .ok response⟩]) w')
      (fun error w' => error = .circuit .circuitOpen ∧ Stands calls w' ∨
        ∃ failure, error = .provider failure ∧ Stands (calls ++ [⟨request, .error failure⟩]) w') w := by
  unfold attempt
  rw [wp_bind]
  refine wp_mono (wp_acquire h) (fun _ w₁ h₁ => ?_) fun error w₁ h₁ => Or.inl h₁
  rw [wp_bind, Hoare.wp_get, wp_bind, Hoare.wp_set]
  have hcalled : ∀ outcome, Stands (calls ++ [⟨request, outcome⟩])
      { w₁ with calls := w₁.calls ++ [⟨request, outcome⟩] } :=
    fun outcome => ⟨by rw [h₁.calls], h₁.stamped⟩
  cases houtcome : access.provider (w₁.calls.map EmbeddingCall.request ++ [request]) with
  | ok response =>
    dsimp only
    rw [wp_bind]
    refine wp_mono (wp_record ?_ (hcalled (.ok response))) (fun _ w₂ h₂ => ⟨⟨_, houtcome⟩, h₂⟩)
      fun _ _ h => h.elim
    exact fun b now _ => CircuitBreaker.stamped_recordSuccess
  | error failure =>
    dsimp only
    rw [wp_bind]
    refine wp_mono (wp_record ?_ (hcalled (.error failure)))
      (fun _ w₂ h₂ => Or.inr ⟨failure, rfl, h₂⟩) fun _ _ h => h.elim
    exact fun b now => CircuitBreaker.stamped_recordFailure

/-! ## The attempts of a request -/

/-- The calls of attempts that failed. -/
def failedCalls (request : EmbeddingRequest) (failures : List EmbeddingProviderError) :
    List EmbeddingCall :=
  failures.map fun failure => ⟨request, .error failure⟩

/-- The calls of a request that is answered, from attempt `number` on: failures that may be retried,
and the answer. -/
structure Answered (embedder : Embedder) (request : EmbeddingRequest) (number : ℕ)
    (made : List EmbeddingCall) (response : EmbeddingResponse) (failures : List EmbeddingProviderError) :
    Prop where
  made_eq : made = failedCalls request failures ++ [⟨request, .ok response⟩]
  retryable : ∀ failure ∈ failures, failure.retryable = true
  few : number + failures.length < embedder.maxAttempts

/-- The calls of a request that is not answered, and what is raised: the circuit is open before some
attempt, or an attempt fails that is the last or may not be retried. -/
inductive GivesUp (embedder : Embedder) (request : EmbeddingRequest) (number : ℕ) :
    List EmbeddingCall → EmbeddingProviderError → Prop
  | rejected (failures : List EmbeddingProviderError)
      (retryable : ∀ failure ∈ failures, failure.retryable = true)
      (few : number + failures.length < embedder.maxAttempts) :
      GivesUp embedder request number (failedCalls request failures)
        ⟨"embedding provider unavailable", true⟩
  | exhausted (failures : List EmbeddingProviderError) (last : EmbeddingProviderError)
      (retryable : ∀ failure ∈ failures, failure.retryable = true)
      (few : number + failures.length < embedder.maxAttempts)
      (final : last.retryable = false ∨ number + failures.length + 1 = embedder.maxAttempts) :
      GivesUp embedder request number (failedCalls request failures ++ [⟨request, .error last⟩])
        ⟨"embedding provider unavailable", last.retryable⟩

section Attempts

variable {number : ℕ} {made : List EmbeddingCall} {failure error : EmbeddingProviderError}

/-- A failure that is retried comes before what is made of the other attempts. -/
theorem Answered.cons (hretry : failure.retryable = true)
    (h : Answered embedder request (number + 1) made response failures) :
    Answered embedder request number (⟨request, .error failure⟩ :: made) response
      (failure :: failures) := by
  refine ⟨?_, List.forall_mem_cons.2 ⟨hretry, h.retryable⟩, ?_⟩
  · rw [h.made_eq]
    rfl
  · have hfew := h.few
    rw [List.length_cons]
    omega

theorem GivesUp.cons (hretry : failure.retryable = true)
    (h : GivesUp embedder request (number + 1) made error) :
    GivesUp embedder request number (⟨request, .error failure⟩ :: made) error := by
  cases h with
  | rejected failures retryable few =>
    refine GivesUp.rejected (failure :: failures) (List.forall_mem_cons.2 ⟨hretry, retryable⟩) ?_
    rw [List.length_cons]
    omega
  | exhausted failures last retryable few final =>
    refine GivesUp.exhausted (failure :: failures) last (List.forall_mem_cons.2 ⟨hretry, retryable⟩)
      ?_ (final.imp_right fun hlast => ?_)
    · rw [List.length_cons]
      omega
    · rw [List.length_cons]
      omega

/-- **The attempts of a request**: it is answered after failures, or given up. -/
theorem wp_requestFrom : ∀ (remaining number : ℕ) {calls : List EmbeddingCall} {w : EmbeddingWorld T},
    0 < remaining → number + remaining = embedder.maxAttempts → Stands calls w →
    wp (requestFrom access embedder request remaining number)
      (fun response w' => Given access request response ∧
        ∃ made failures, Answered embedder request number made response failures ∧
          Stands (calls ++ made) w')
      (fun error w' => ∃ made failure, error = .provider failure ∧
        GivesUp embedder request number made failure ∧ Stands (calls ++ made) w') w := by
  intro remaining
  induction remaining with
  | zero => exact fun _ _ _ h => absurd h (lt_irrefl 0)
  | succ remaining ih =>
    intro number calls w _ hsum h
    have hdelays : embedder.maxAttempts - 1 ≤ embedder.retryDelays.length := by
      have hvalid := embedder.valid
      simp only [Embedder.check, Bool.and_eq_true, decide_eq_true_eq] at hvalid
      exact hvalid.1.2
    unfold requestFrom
    rw [wp_handle]
    refine wp_mono (wp_attempt h) (fun response w₁ h₁ => ?_) fun error w₁ h₁ => ?_
    · refine ⟨h₁.1, _, [], ⟨rfl, List.forall_mem_nil _, ?_⟩, h₁.2⟩
      rw [List.length_nil]
      omega
    · rcases h₁ with ⟨rfl, h₁⟩ | ⟨failure, rfl, h₁⟩
      · -- the circuit is open
        refine ⟨[], _, rfl, GivesUp.rejected [] (List.forall_mem_nil _) ?_, ?_⟩
        · rw [List.length_nil]
          omega
        · rwa [List.append_nil]
      · dsimp only
        split
        · -- no attempt is left, or this failure is not retried
          rename_i hfinal
          refine ⟨_, _, rfl,
            GivesUp.exhausted [] failure (List.forall_mem_nil _) ?_ ?_, h₁⟩
          · rw [List.length_nil]
            omega
          · simpa using hfinal
        · rename_i hretry
          simp only [Bool.or_eq_true, Bool.not_eq_true', beq_iff_eq, not_or, Bool.not_eq_false] at hretry
          obtain ⟨hretryable, hmore⟩ := hretry
          -- another attempt is left, so the delay table has an entry for this one
          have hdelay : number < embedder.retryDelays.length := by omega
          rw [List.getElem?_eq_getElem hdelay]
          dsimp only
          rw [wp_bind, wp_modify]
          refine wp_mono (ih (number + 1) (by omega) (by omega) ⟨h₁.calls, h₁.stamped⟩)
            (fun response w₂ h₂ => ?_) fun error w₂ h₂ => ?_
          · obtain ⟨hgiven, made, failures, hanswered, hstands⟩ := h₂
            refine ⟨hgiven, _, _, hanswered.cons hretryable, ?_⟩
            rwa [List.append_assoc] at hstands
          · obtain ⟨made, last, rfl, hgives, hstands⟩ := h₂
            refine ⟨_, last, rfl, hgives.cons hretryable, ?_⟩
            rwa [List.append_assoc] at hstands

end Attempts

/-! ## Rounds -/

/-- A batch and the calls that were made for it. -/
structure Round where
  batch : List String
  made : List EmbeddingCall
  failures : List EmbeddingProviderError
  response : EmbeddingResponse

/-- **The batch was answered**, as the provider answers it and with a valid response. -/
structure Round.Complete (access : EmbeddingAccess T) (embedder : Embedder) (r : Round) : Prop where
  answered : Answered embedder (embedder.embeddingRequest r.batch) 0 r.made r.response r.failures
  given : Given access (embedder.embeddingRequest r.batch) r.response
  valid : embedder.validResponse r.batch r.response = true

/-- The batch was given up, or its response was not valid. -/
inductive Fails (embedder : Embedder) (batch : List String) :
    List EmbeddingCall → EmbeddingProviderError → Prop
  | givesUp {made : List EmbeddingCall} {error : EmbeddingProviderError}
      (h : GivesUp embedder (embedder.embeddingRequest batch) 0 made error) :
      Fails embedder batch made error
  | invalid {made : List EmbeddingCall} {response : EmbeddingResponse}
      {failures : List EmbeddingProviderError}
      (h : Answered embedder (embedder.embeddingRequest batch) 0 made response failures)
      (hvalid : embedder.validResponse batch response = false) :
      Fails embedder batch made ⟨"embedding provider returned invalid response", false⟩

/-- The calls of rounds. -/
def roundCalls (rounds : List Round) : List EmbeddingCall := (rounds.map Round.made).flatten

section Batches

variable {kind : String} {records : List EmbeddingRecord}

theorem maxAttempts_pos : 0 < embedder.maxAttempts := by
  have hvalid := embedder.valid
  simp only [Embedder.check, Bool.and_eq_true, decide_eq_true_eq] at hvalid
  omega

theorem batchSize_pos : 0 < embedder.batchSize := by
  have hvalid := embedder.valid
  simp only [Embedder.check, Bool.and_eq_true, decide_eq_true_eq] at hvalid
  omega

/-- **All batches are answered in rounds, or some and then one fails.** -/
theorem wp_embedBatches : ∀ (batches : List (List String)) {calls : List EmbeddingCall}
    {w : EmbeddingWorld T} {records : List EmbeddingRecord}, Stands calls w →
    wp (embedBatches access embedder kind batches records)
      (fun result w' => ∃ rounds : List Round, rounds.map Round.batch = batches ∧
        (∀ r ∈ rounds, r.Complete access embedder) ∧ Stands (calls ++ roundCalls rounds) w' ∧
        result = records ++ rounds.flatMap fun r => batchRecords access embedder kind r.batch r.response)
      (fun error w' => ∃ (rounds : List Round) (batch : List String) (rest : List (List String))
        (made : List EmbeddingCall) (failure : EmbeddingProviderError),
        rounds.map Round.batch ++ batch :: rest = batches ∧
        (∀ r ∈ rounds, r.Complete access embedder) ∧ error = .provider failure ∧
        Fails embedder batch made failure ∧ Stands (calls ++ (roundCalls rounds ++ made)) w') w := by
  intro batches
  -- on the batches: each is a round, or the one that fails
  induction batches with
  | nil =>
    intro calls w records h
    refine ⟨[], rfl, List.forall_mem_nil _, ?_, ?_⟩
    · simpa [roundCalls] using h
    · simp
  | cons batch batches ih =>
    intro calls w records h
    unfold embedBatches
    rw [wp_bind]
    refine wp_mono (wp_requestFrom _ 0 maxAttempts_pos (Nat.zero_add _) h) (fun response w₁ h₁ => ?_)
      fun error w₁ h₁ => ?_
    · obtain ⟨hgiven, made, failures, hanswered, hstands⟩ := h₁
      by_cases hvalid : embedder.validResponse batch response = true
      · rw [if_pos hvalid]
        have hcomplete : (Round.mk batch made failures response).Complete access embedder :=
          ⟨hanswered, hgiven, hvalid⟩
        refine wp_mono (ih hstands) (fun result w₂ h₂ => ?_) fun error w₂ h₂ => ?_
        · obtain ⟨rounds, hbatches, hrounds, hstands', rfl⟩ := h₂
          refine ⟨⟨batch, made, failures, response⟩ :: rounds, ?_,
            List.forall_mem_cons.2 ⟨hcomplete, hrounds⟩, ?_, ?_⟩
          · rw [List.map_cons, hbatches]
          · rwa [List.append_assoc] at hstands'
          · rw [List.flatMap_cons, List.append_assoc]
        · obtain ⟨rounds, failed, rest, made', failure, hbatches, hrounds, herror, hfails, hstands'⟩ := h₂
          refine ⟨⟨batch, made, failures, response⟩ :: rounds, failed, rest, made', failure, ?_,
            List.forall_mem_cons.2 ⟨hcomplete, hrounds⟩, herror, hfails, ?_⟩
          · rw [List.map_cons, List.cons_append, hbatches]
          · rw [List.append_assoc] at hstands'
            rwa [show roundCalls (⟨batch, made, failures, response⟩ :: rounds) =
              made ++ roundCalls rounds from rfl, List.append_assoc]
      · rw [if_neg hvalid]
        refine ⟨[], batch, batches, made, _, rfl, List.forall_mem_nil _, rfl,
          Fails.invalid hanswered (Bool.not_eq_true _ ▸ hvalid), ?_⟩
        exact hstands
    · obtain ⟨made, failure, rfl, hgives, hstands⟩ := h₁
      exact ⟨[], batch, batches, made, failure, rfl, List.forall_mem_nil _, rfl,
        Fails.givesUp hgives, hstands⟩

end Batches

/-! ## The records of a round -/

/-- The vector of an input does not depend on its batch: every response with a vector for each input
has those. -/
def Independent (access : EmbeddingAccess T) (vectorOf : String → List ℚ) : Prop :=
  ∀ request response, Given access request response →
    response.vectors.length = request.inputs.length → response.vectors = request.inputs.map vectorOf

/-- The response of a call that was answered. -/
def answer? (call : EmbeddingCall) : Option EmbeddingResponse := call.outcome.toOption

section Records

variable {kind : String} {vectorOf : String → List ℚ} {r : Round} {rounds : List Round}

theorem vectors_length (h : embedder.validResponse batch response = true) :
    response.vectors.length = batch.length := by
  simp only [validResponse, Bool.and_eq_true, Bool.not_eq_true', Bool.or_eq_false_iff,
    bne_eq_false_iff_eq] at h
  exact h.1.2

/-- What zipping an input with its vector and a share leaves of the input. -/
theorem zip_inputs {shares : List ℤ} (h : shares.length = batch.length) :
    (batch.zip ((batch.map vectorOf).zip shares)).map (fun item => (item.1, item.2.1)) =
      batch.map fun content => (content, vectorOf content) := by
  induction batch generalizing shares with
  | nil => rfl
  | cons content batch ih =>
    cases shares with
    | nil => cases h
    | cons share shares =>
      rw [List.length_cons, List.length_cons, Nat.add_right_cancel_iff] at h
      rw [List.map_cons, List.zip_cons_cons, List.zip_cons_cons, List.map_cons, ih h, List.map_cons]

theorem zip_shares {vectors : List (List ℚ)} {shares : List ℤ} (hvectors : vectors.length = batch.length)
    (hshares : shares.length = batch.length) :
    (batch.zip (vectors.zip shares)).map (fun item => item.2.2) = shares := by
  have hinner : (vectors.zip shares).length = batch.length := by
    rw [List.length_zip, hvectors, hshares, min_self]
  have hsecond : (batch.zip (vectors.zip shares)).map Prod.snd = vectors.zip shares :=
    List.map_snd_zip hinner.le
  calc (batch.zip (vectors.zip shares)).map (fun item => item.2.2)
      = ((batch.zip (vectors.zip shares)).map Prod.snd).map Prod.snd := by rw [List.map_map]; rfl
    _ = (vectors.zip shares).map Prod.snd := by rw [hsecond]
    _ = shares := List.map_snd_zip (by omega)

theorem round_vectors (hind : Independent access vectorOf) (h : r.Complete access embedder) :
    (batchRecords access embedder kind r.batch r.response).map (fun record =>
        (record.vector, record.contentHash)) =
      r.batch.map fun content => (vectorOf content, access.sha256 content.toUTF8) := by
  have hlength := vectors_length h.valid
  have hvectors : r.response.vectors = r.batch.map vectorOf := hind _ _ h.given hlength
  have hshares : (distribute r.response.usageTokens r.batch.length).length = r.batch.length :=
    Batches.length_shares
  unfold batchRecords
  rw [hvectors, List.map_map]
  calc _ = ((r.batch.zip ((r.batch.map vectorOf).zip
          (distribute r.response.usageTokens r.batch.length))).map fun item => (item.1, item.2.1)).map
            fun item => (item.2, access.sha256 item.1.toUTF8) := by rw [List.map_map]; rfl
    _ = r.batch.map fun content => (vectorOf content, access.sha256 content.toUTF8) := by
      rw [zip_inputs hshares, List.map_map]
      rfl

/-- **The usage of a batch is that of its response.** -/
theorem round_usage (h : r.Complete access embedder) (hbatch : 0 < r.batch.length) :
    ((batchRecords access embedder kind r.batch r.response).map EmbeddingRecord.usageTokens).sum =
      r.response.usageTokens := by
  have hshares : (distribute r.response.usageTokens r.batch.length).length = r.batch.length :=
    Batches.length_shares
  have husage : (batchRecords access embedder kind r.batch r.response).map EmbeddingRecord.usageTokens =
      distribute r.response.usageTokens r.batch.length := by
    unfold batchRecords
    rw [List.map_map]
    exact zip_shares (vectors_length h.valid) hshares
  rw [husage]
  exact Batches.sum_shares hbatch

theorem failedCalls_answers : (failedCalls request failures).filterMap answer? = [] := by
  refine List.filterMap_eq_nil_iff.2 fun call hcall => ?_
  obtain ⟨failure, -, rfl⟩ := List.mem_map.1 hcall
  rfl

/-- The one answer among the calls of an answered request is the last. -/
theorem answers_of_answered {number : ℕ} {made : List EmbeddingCall}
    (h : Answered embedder request number made response failures) :
    made.filterMap answer? = [response] := by
  rw [h.made_eq, List.filterMap_append, failedCalls_answers]
  rfl

theorem answers_of_givesUp {number : ℕ} {made : List EmbeddingCall} {error : EmbeddingProviderError}
    (h : GivesUp embedder request number made error) : made.filterMap answer? = [] := by
  cases h with
  | rejected failures _ _ => exact failedCalls_answers
  | exhausted failures last _ _ _ =>
    rw [List.filterMap_append, failedCalls_answers]
    rfl

theorem roundCalls_answers (h : ∀ r ∈ rounds, r.Complete access embedder) :
    (roundCalls rounds).filterMap answer? = rounds.map Round.response := by
  induction rounds with
  | nil => rfl
  | cons r rounds ih =>
    have hr := answers_of_answered (h r List.mem_cons_self).answered
    have hrest := ih fun r' hr' => h r' (List.mem_cons_of_mem _ hr')
    rw [show roundCalls (r :: rounds) = r.made ++ roundCalls rounds from rfl, List.filterMap_append, hr,
      hrest]
    rfl

end Records

/-! ## A call of `embed_passages` -/

/-- The calls are at most as many tries of the request of a batch as may be made. -/
structure Tries (embedder : Embedder) (batch : List String) (group : List EmbeddingCall) : Prop where
  few : group.length ≤ embedder.maxAttempts
  requests : ∀ call ∈ group, call.request = embedder.embeddingRequest batch
  sized : 1 ≤ batch.length ∧ batch.length ≤ embedder.batchSize

/-- The last of the calls for a batch was answered with the model, a vector for each input and the
dimensions that were asked for. -/
def ValidlyAnswered (embedder : Embedder) (batch : List String) (group : List EmbeddingCall) : Prop :=
  ∃ response failures, Answered embedder (embedder.embeddingRequest batch) 0 group response failures ∧
    embedder.validResponse batch response = true

/-- **What a call of `embed_passages` comes to**: the provider was called batch by batch, in `groups`. -/
structure Batched (access : EmbeddingAccess T) (embedder : Embedder) (vectorOf : String → List ℚ)
    (passages : List String) (groups : List (List EmbeddingCall))
    (result : Except EmbeddingError (List EmbeddingRecord)) : Prop where
  within : groups.length ≤ (Batches.batches embedder.batchSize passages).length
  tries : List.Forall₂ (Tries embedder)
    ((Batches.batches embedder.batchSize passages).take groups.length) groups
  returns_iff : (∃ records, result = .ok records) ↔
    List.Forall₂ (ValidlyAnswered embedder) (Batches.batches embedder.batchSize passages) groups
  raises : ∀ error, result = .error error → ∃ failure, error = .provider failure
  vectors : ∀ records, result = .ok records →
    records.map (fun record => (record.vector, record.contentHash)) =
      passages.map fun content => (vectorOf content, access.sha256 content.toUTF8)
  usage : ∀ records, result = .ok records →
    (records.map EmbeddingRecord.usageTokens).sum =
      ((groups.flatten.filterMap answer?).map EmbeddingResponse.usageTokens).sum

section Batched

variable {vectorOf : String → List ℚ} {passages : List String} {r : Round} {rounds : List Round}
  {made group : List EmbeddingCall} {error : EmbeddingProviderError}

theorem failedCalls_requests : ∀ call ∈ failedCalls request failures, call.request = request := by
  intro call hcall
  obtain ⟨failure, -, rfl⟩ := List.mem_map.1 hcall
  rfl

theorem requests_concat {call : EmbeddingCall} (h : call.request = request) :
    ∀ made ∈ failedCalls request failures ++ [call], made.request = request := by
  intro made hmade
  rcases List.mem_append.1 hmade with hmade | hmade
  · exact failedCalls_requests made hmade
  · rw [List.mem_singleton.1 hmade, h]

theorem Answered.tries (h : Answered embedder (embedder.embeddingRequest batch) 0 made response failures)
    (hsized : 1 ≤ batch.length ∧ batch.length ≤ embedder.batchSize) : Tries embedder batch made := by
  have hfew := h.few
  rw [h.made_eq]
  refine ⟨?_, requests_concat rfl, hsized⟩
  rw [List.length_append, failedCalls, List.length_map, List.length_singleton]
  omega

theorem Fails.tries (h : Fails embedder batch made error)
    (hsized : 1 ≤ batch.length ∧ batch.length ≤ embedder.batchSize) : Tries embedder batch made := by
  cases h with
  | givesUp hgives =>
    cases hgives with
    | rejected failures _ few =>
      refine ⟨?_, failedCalls_requests, hsized⟩
      rw [failedCalls, List.length_map]
      omega
    | exhausted failures last _ few _ =>
      refine ⟨?_, requests_concat rfl, hsized⟩
      rw [List.length_append, failedCalls, List.length_map, List.length_singleton]
      omega
  | invalid hanswered _ => exact hanswered.tries hsized

/-- A batch that fails is not validly answered. -/
theorem Fails.not_answered (h : Fails embedder batch made error) : ¬ValidlyAnswered embedder batch made := by
  rintro ⟨response, failures, hanswered, hvalid⟩
  have hone := answers_of_answered hanswered
  cases h with
  | givesUp hgives =>
    rw [answers_of_givesUp hgives] at hone
    cases hone
  | invalid hanswered' hinvalid =>
    rw [answers_of_answered hanswered'] at hone
    cases hone
    rw [hvalid] at hinvalid
    cases hinvalid

theorem rounds_forall₂ {R : List String → List EmbeddingCall → Prop}
    (h : ∀ r ∈ rounds, R r.batch r.made) :
    List.Forall₂ R (rounds.map Round.batch) (rounds.map Round.made) :=
  List.forall₂_map_left_iff.2 (List.forall₂_map_right_iff.2 (List.forall₂_same.2 h))

/-- The usage of the records of rounds is that of their responses. -/
theorem rounds_usage {kind : String} (hrounds : ∀ r ∈ rounds, r.Complete access embedder)
    (hsized : ∀ r ∈ rounds, 1 ≤ r.batch.length) :
    ((rounds.flatMap fun r => batchRecords access embedder kind r.batch r.response).map
        EmbeddingRecord.usageTokens).sum =
      ((rounds.map Round.response).map EmbeddingResponse.usageTokens).sum := by
  induction rounds with
  | nil => rfl
  | cons r rounds ih =>
    have husage : ((batchRecords access embedder kind r.batch r.response).map
        EmbeddingRecord.usageTokens).sum = r.response.usageTokens :=
      round_usage (hrounds r List.mem_cons_self) (hsized r List.mem_cons_self)
    have hrest := ih (fun r' hr' => hrounds r' (List.mem_cons_of_mem _ hr'))
      fun r' hr' => hsized r' (List.mem_cons_of_mem _ hr')
    rw [List.flatMap_cons, List.map_append, List.sum_append, husage, hrest]
    rfl

/-- All batches were answered, and their records returned. -/
theorem batched_ok {kind : String} (hind : Independent access vectorOf)
    (hbatches : rounds.map Round.batch = Batches.batches embedder.batchSize passages)
    (hrounds : ∀ r ∈ rounds, r.Complete access embedder) :
    Batched access embedder vectorOf passages (rounds.map Round.made)
      (.ok (rounds.flatMap fun r => batchRecords access embedder kind r.batch r.response)) := by
  have hsized : ∀ r ∈ rounds, 1 ≤ r.batch.length ∧ r.batch.length ≤ embedder.batchSize := by
    intro r hr
    have hmem : r.batch ∈ Batches.batches embedder.batchSize passages :=
      hbatches ▸ List.mem_map_of_mem hr
    exact Batches.length_of_mem batchSize_pos hmem
  refine ⟨?_, ?_, ?_, (fun error h => nomatch h), fun records h => ?_, fun records h => ?_⟩
  · rw [← hbatches, List.length_map, List.length_map]
  · rw [← hbatches, List.length_map, List.take_of_length_le (List.length_map _).le]
    exact rounds_forall₂ fun r hr => (hrounds r hr).answered.tries (hsized r hr)
  · refine iff_of_true ⟨_, rfl⟩ ?_
    rw [← hbatches]
    exact rounds_forall₂ fun r hr => ⟨_, _, (hrounds r hr).answered, (hrounds r hr).valid⟩
  · cases h
    -- the batches join to the passages, and each round has the vectors of its batch
    have hjoin : passages = rounds.flatMap Round.batch := by
      rw [List.flatMap, hbatches, Batches.flatten_batches batchSize_pos]
    rw [hjoin, List.map_flatMap, List.map_flatMap]
    exact List.flatMap_congr fun r hr => round_vectors hind (hrounds r hr)
  · cases h
    have hanswers : (rounds.map Round.made).flatten.filterMap answer? = rounds.map Round.response :=
      roundCalls_answers hrounds
    rw [hanswers]
    exact rounds_usage hrounds fun r hr => (hsized r hr).1

/-- Some batches were answered, and then one failed. -/
theorem batched_error {rest : List (List String)}
    (hbatches : rounds.map Round.batch ++ batch :: rest = Batches.batches embedder.batchSize passages)
    (hrounds : ∀ r ∈ rounds, r.Complete access embedder) (hfails : Fails embedder batch made error) :
    Batched access embedder vectorOf passages (rounds.map Round.made ++ [made])
      (.error (.provider error)) := by
  have hsized : ∀ batch' ∈ rounds.map Round.batch ++ batch :: rest,
      1 ≤ batch'.length ∧ batch'.length ≤ embedder.batchSize := by
    intro batch' hmem
    rw [hbatches] at hmem
    exact Batches.length_of_mem batchSize_pos hmem
  refine ⟨?_, ?_, ?_, fun _ h => ?_, (fun records h => nomatch h), (fun records h => nomatch h)⟩
  · rw [← hbatches, List.length_append, List.length_append, List.length_map, List.length_map,
      List.length_singleton, List.length_cons]
    omega
  · have htake : (Batches.batches embedder.batchSize passages).take
        (rounds.map Round.made ++ [made]).length = rounds.map Round.batch ++ [batch] := by
      have hlength : (rounds.map Round.made ++ [made]).length =
          (rounds.map Round.batch ++ [batch]).length := by simp
      rw [← hbatches, hlength, List.append_cons _ batch rest, List.take_left]
    rw [htake]
    refine List.rel_append (rounds_forall₂ fun r hr => ?_) (.cons ?_ .nil)
    · exact (hrounds r hr).answered.tries (hsized _ (List.mem_append_left _ (List.mem_map_of_mem hr)))
    · exact hfails.tries (hsized _ (List.mem_append_right _ List.mem_cons_self))
  · refine iff_of_false (fun ⟨records, h⟩ => nomatch h) fun hall => ?_
    rw [← hbatches, List.forall₂_iff_zip] at hall
    refine hfails.not_answered (hall.2 ?_)
    rw [List.zip_append (by rw [List.length_map, List.length_map])]
    exact List.mem_append_right _ List.mem_cons_self
  · cases h
    exact ⟨error, rfl⟩

/-- **Batching is transparent.** For valid passages and a provider that answers each input alike in
every batch, a call that returns has the vector and the digest of each passage in order, whatever the
batches, and all of the usage; it returns exactly if every batch is validly answered, within the
attempts that may be made, and raises an `EmbeddingProviderError` otherwise. -/
theorem embedding_transparent (access : EmbeddingAccess T) (embedder : Embedder)
    (vectorOf : String → List ℚ) (hind : Independent access vectorOf) (passages : List String)
    (hvalid : validateInputs passages = true) (w : EmbeddingWorld T) (hw : w.breaker.Stamped) :
    ∃ groups, (exec (embedPassages access embedder passages) w).2.calls = w.calls ++ groups.flatten ∧
      Batched access embedder vectorOf passages groups
        (exec (embedPassages access embedder passages) w).1 := by
  have hstands : Stands w.calls w := ⟨rfl, hw⟩
  have hbatches := @wp_embedBatches T _ _ _ access embedder "passage"
    (Batches.batches embedder.batchSize passages) w.calls w [] hstands
  have hexec : exec (embedPassages access embedder passages) w =
      exec (embedBatches access embedder "passage" (Batches.batches embedder.batchSize passages) []) w := by
    unfold embedPassages embed
    rw [if_pos hvalid]
  rw [hexec]
  rcases hrun : exec (embedBatches access embedder "passage"
    (Batches.batches embedder.batchSize passages) []) w with ⟨error | records, w'⟩
  · obtain ⟨rounds, batch, rest, made, failure, hsplit, hrounds, rfl, hfails, hcalls, -⟩ :=
      wp_error hbatches hrun
    refine ⟨rounds.map Round.made ++ [made], ?_, batched_error hsplit hrounds hfails⟩
    rw [hcalls, List.flatten_append, List.flatten_singleton]
    rfl
  · obtain ⟨rounds, hsplit, hrounds, ⟨hcalls, -⟩, rfl⟩ := wp_ok hbatches hrun
    exact ⟨rounds.map Round.made, hcalls, batched_ok hind hsplit hrounds⟩

/-! A provider that is unavailable at first, and counts the characters of each input. -/

def sampleEmbedder : Embedder where
  model := "embedding-test"
  modelVersion := "v1"
  dimensions := 1
  batchSize := 2
  valid := by decide +kernel

def characters (text : String) : List ℚ := [text.length]

def sampleAccess : EmbeddingAccess ℕ where
  policy := { failureThreshold := 2, recoveryTimeoutSeconds := 30, failureThreshold_pos := by decide,
              recoveryTimeoutSeconds_pos := by decide }
  provider history :=
    if history.length = 1 then .error ⟨"rate limited", true⟩
    else
      match history.getLast? with
      | some request =>
        .ok ⟨request.inputs.map characters, request.model, request.inputs.length + 1⟩
      | none => .error ⟨"no request", false⟩
  clock n := n
  others _ b := b
  others_stamped _ _ h := h
  sha256 content := toString content.size

theorem characters_independent : Independent sampleAccess characters := by
  rintro request response ⟨history, h⟩ _
  simp only [sampleAccess, List.getLast?_concat] at h
  split at h
  · cases h
  · cases h
    rfl

example : ((exec (embedPassages sampleAccess sampleEmbedder ["a b", "c", "dd"]) {}).1.toOption.map
    fun records => records.map fun record => (record.vector, record.usageTokens)) =
      some [([3], 2), ([1], 1), ([2], 2)] := by
  decide +kernel

theorem embedding_transparent_retried : ∃ groups,
    (exec (embedPassages sampleAccess sampleEmbedder ["a b", "c", "dd"]) {}).2.calls = groups.flatten ∧
      Batched sampleAccess sampleEmbedder characters ["a b", "c", "dd"] groups
        (exec (embedPassages sampleAccess sampleEmbedder ["a b", "c", "dd"]) {}).1 :=
  embedding_transparent sampleAccess sampleEmbedder characters characters_independent
    ["a b", "c", "dd"] (by decide +kernel) {} CircuitBreaker.stamped_new

end Batched

end Embedder

end GroundedOps
