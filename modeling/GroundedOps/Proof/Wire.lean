import GroundedOps.Proof.Session
import GroundedOps.Proof.Stream
import GroundedOps.Spec.Wire

/-!
# The wire format of a session

What a session yields is what the client reads.

* `parseAskLine_line`: the client accepts the line of an event that passes its tests.
* `readAskStream_events`: it reads the lines of a session, however their bytes are divided.
* `events_presentable`: every event of a session passes the tests, whatever the session meets.
* `session_wire`: **server and client agree on the wire format.**
-/

namespace GroundedOps

open Hoare JsonText

variable {ν : Type} {numbers : Numbers ν} {read : JsString → ν}

/-- The event as a client has it. -/
def AskEvent.received (read : JsString → ν) (event : AskEvent) : Json ν := event.payload.value read

/-! ## The members of a payload -/

section Members

variable {payload : FinalPayload} {status : String}

theorem get_type : Json.get (namedValues read payload.members) "type" =
    some (.str (Json.units "final")) := by
  rcases payload with ⟨status, _ | answerId, answer, claims, sources, usage, abstention, _ | error, _⟩ <;> rfl

theorem get_status : Json.get (namedValues read payload.members) "status" =
    some (.str (textUnits payload.status)) := by
  rcases payload with ⟨status, _ | answerId, answer, claims, sources, usage, abstention, _ | error, _⟩ <;> rfl

theorem get_answerId : Json.get (namedValues read payload.members) "answer_id" =
    payload.answerId.map fun answerId => .str (textUnits answerId) := by
  rcases payload with ⟨status, _ | answerId, answer, claims, sources, usage, abstention, _ | error, _⟩ <;> rfl

theorem get_answer : Json.get (namedValues read payload.members) "answer" =
    some ((optionalText payload.answer).value read) := by
  rcases payload with ⟨status, _ | answerId, answer, claims, sources, usage, abstention, _ | error, _⟩ <;> rfl

theorem get_claims : Json.get (namedValues read payload.members) "claims" =
    some (.arr (payload.claims.map fun claim => claim.data.value read)) := by
  have hvalues : (payload.claims.map fun claim => claim.data.value read) =
      values read (payload.claims.map ClaimPayload.data) := by
    rw [values_eq_map, List.map_map]
    rfl
  rw [hvalues]
  rcases payload with ⟨status, _ | answerId, answer, claims, sources, usage, abstention, _ | error, _⟩ <;> rfl

theorem get_sources : Json.get (namedValues read payload.members) "sources" =
    some (.arr (payload.sources.map fun source => source.data.value read)) := by
  have hvalues : (payload.sources.map fun source => source.data.value read) =
      values read (payload.sources.map SourcePayload.data) := by
    rw [values_eq_map, List.map_map]
    rfl
  rw [hvalues]
  rcases payload with ⟨status, _ | answerId, answer, claims, sources, usage, abstention, _ | error, _⟩ <;> rfl

/-! ## What the client accepts -/

/-- The tests of the client for a final event of a session for the question with the id `id`. -/
structure Presentable (id : String) (payload : FinalPayload) : Prop where
  status : payload.status ∈ ["verified", "abstained", "failed", "degraded"]
  answerId : payload.status = "verified" → payload.answerId = some id
  claims : payload.status = "verified" → payload.claims ≠ []
  sources : payload.status = "verified" → payload.sources ≠ []
  resolved : ∀ claim ∈ payload.claims, claim.citations ≠ [] ∧
    ∀ citation ∈ claim.citations, citation.resolved = true

theorem finalStatus_of_mem (h : status ∈ ["verified", "abstained", "failed", "degraded"]) :
    finalStatus (textUnits status) = true := by
  have hall : ∀ status ∈ ["verified", "abstained", "failed", "degraded"],
      finalStatus (textUnits status) = true := by decide
  exact hall status h

/-- `value.status === "verified"` -/
theorem isText_verified (h : status ∈ ["verified", "abstained", "failed", "degraded"]) :
    isText (some (.str (textUnits status) : Json ν)) "verified" = decide (status = "verified") := by
  have hall : ∀ status ∈ ["verified", "abstained", "failed", "degraded"],
      (textUnits status == Json.units "verified") = decide (status = "verified") := by decide
  exact hall status h

theorem uuid_char {id : String} (h : isUuid id = true) {c : Char} (hc : c ∈ id.toList) :
    c = '-' ∨ isLowerHex c = true := by
  unfold isUuid at h
  rw [Bool.and_eq_true, List.all_eq_true] at h
  obtain ⟨i, hi⟩ := List.mem_iff_getElem?.1 hc
  have hplace := h.2 (c, i) (List.mk_mem_zipIdx_iff_getElem?.2 hi)
  dsimp only at hplace
  split at hplace
  · exact Or.inl (of_decide_eq_true hplace)
  · exact Or.inr hplace

/-- A hexadecimal digit in lower case. -/
theorem lowerHex_range {c : Char} (h : isLowerHex c = true) :
    (48 ≤ c.toNat ∧ c.toNat ≤ 57) ∨ (97 ≤ c.toNat ∧ c.toNat ≤ 102) := by
  unfold isLowerHex at h
  rw [Bool.or_eq_true, Bool.and_eq_true, decide_eq_true_eq, decide_eq_true_eq] at h
  rcases h with hdigit | ⟨hlower, hupper⟩
  · exact Or.inl (isDigit_range hdigit)
  · right
    exact ⟨UInt32.le_iff_toNat_le.1 hlower, UInt32.le_iff_toNat_le.1 hupper⟩

/-- The letters of a UUID are allowed in the id of an answer. -/
theorem isAnswerId_of_isUuid {id : String} (h : isUuid id = true) :
    isAnswerId (some (.str (textUnits id) : Json ν)) = true := by
  have hbasic : ∀ c ∈ id.toList, c.toNat < 65536 := by
    intro c hc
    rcases uuid_char h hc with rfl | hhex
    · decide
    · have hrange := lowerHex_range hhex
      omega
  have hunits : textUnits id = id.toList.map Char.toNat := encode_units hbasic
  have hlength : (id.toList.map Char.toNat).length = 36 := by
    unfold isUuid at h
    rw [Bool.and_eq_true, decide_eq_true_eq] at h
    rw [List.length_map, String.length_toList]
    exact h.1
  unfold isAnswerId
  rw [hunits]
  dsimp only
  rw [hlength, Bool.and_eq_true]
  refine ⟨by decide, List.all_eq_true.2 fun u hu => ?_⟩
  obtain ⟨c, hc, rfl⟩ := List.mem_map.1 hu
  have hA : 'A'.toNat = 65 := rfl
  have hZ : 'Z'.toNat = 90 := rfl
  have ha : 'a'.toNat = 97 := rfl
  have hz : 'z'.toNat = 122 := rfl
  have hzero : '0'.toNat = 48 := rfl
  have hnine : '9'.toNat = 57 := rfl
  have hdash : '-'.toNat = 45 := rfl
  simp only [Bool.or_eq_true, Bool.and_eq_true, decide_eq_true_eq, beq_iff_eq]
  rcases uuid_char h hc with rfl | hhex
  · exact Or.inr rfl
  · have hrange := lowerHex_range hhex
    omega

theorem citationAccepted_of_resolved {citation : CitationPayload} (h : citation.resolved = true) :
    citationAccepted (citation.data.value read) = true := by
  obtain ⟨evidenceId, documentVersionId, span, resolved⟩ := citation
  subst h
  rfl

theorem claimAccepted_of_resolved {claim : ClaimPayload} (hcited : claim.citations ≠ [])
    (hresolved : ∀ citation ∈ claim.citations, citation.resolved = true) :
    claimAccepted (claim.data.value read) = true := by
  obtain ⟨text, citations⟩ := claim
  have hvalues : values read (citations.map CitationPayload.data) =
      citations.map fun citation => citation.data.value read := by
    rw [values_eq_map, List.map_map]
    rfl
  have haccepted : claimAccepted ((ClaimPayload.mk text citations).data.value read) =
      (0 < (values read (citations.map CitationPayload.data)).length &&
        (values read (citations.map CitationPayload.data)).all citationAccepted) := rfl
  rw [haccepted, hvalues, List.length_map, List.all_map, Bool.and_eq_true]
  refine ⟨decide_eq_true (List.length_pos_iff.2 hcited), List.all_eq_true.2 fun citation hmem => ?_⟩
  exact citationAccepted_of_resolved (hresolved citation hmem)

/-- A final event that passes the tests is accepted. -/
theorem parseFinal_eq {id : String} (hid : isUuid id = true) (h : Presentable id payload) :
    parseFinal numbers (namedValues read payload.members) =
      .ok (some (.obj (namedValues read payload.members))) := by
  have hverified : (decide (payload.status = "verified") &&
      !verifiedAccepted (namedValues read payload.members)
        (payload.claims.map fun claim => claim.data.value read)
        (payload.sources.map fun source => source.data.value read)) = false := by
    by_cases hstatus : payload.status = "verified"
    · have hclaims : payload.claims.isEmpty = false := by simpa using h.claims hstatus
      have hsources : payload.sources.isEmpty = false := by simpa using h.sources hstatus
      have hall : (payload.claims.all fun claim => claimAccepted (claim.data.value read)) = true := by
        refine List.all_eq_true.2 fun claim hclaim => ?_
        obtain ⟨hcited, hresolved⟩ := h.resolved claim hclaim
        exact claimAccepted_of_resolved hcited hresolved
      have haccepted : verifiedAccepted (namedValues read payload.members)
          (payload.claims.map fun claim => claim.data.value read)
          (payload.sources.map fun source => source.data.value read) = true := by
        unfold verifiedAccepted
        rw [get_answerId, h.answerId hstatus, Option.map_some, isAnswerId_of_isUuid hid,
          List.isEmpty_map, List.isEmpty_map, hclaims, hsources, List.all_map]
        exact hall
      rw [haccepted, Bool.not_true, Bool.and_false]
    · rw [decide_eq_false hstatus, Bool.false_and]
  unfold parseFinal
  rw [get_status, get_answer, get_claims, get_sources]
  simp only [Option.elim_some, jsText, finalStatus_of_mem h.status, if_true,
    isText_verified h.status]
  have hpassed := ne_true_of_eq_false hverified
  cases payload.answer with
  | none => exact if_neg hpassed
  | some answer => exact if_neg hpassed

end Members

/-- The event passes the tests of the client. -/
def AskEvent.Presentable (id : String) : AskEvent → Prop
  | .status stage => stage = "retrieving" ∨ stage = "generating"
  | .delta _ => True
  | .final payload => GroundedOps.Presentable id payload

/-- **The client accepts the line of an event**, and has its payload. -/
theorem parseAskLine_line {id : String} {event : AskEvent} (hid : isUuid id = true)
    (h : event.Presentable id) :
    parseAskLine numbers (units event.line) = .ok (some (event.received numbers.read)) := by
  unfold parseAskLine AskEvent.line AskEvent.received
  rw [parse_dumps]
  cases event with
  | status stage =>
    rcases h with rfl | rfl
    · rfl
    · rfl
  | delta text => rfl
  | final payload =>
    have htype : ∀ text, isText (some (.str (Json.units "final") : Json ν)) text =
        (Json.units "final" == Json.units text) := fun text => rfl
    have hstatus : (Json.units "final" == Json.units "status") = false := by decide
    have hdelta : (Json.units "final" == Json.units "delta") = false := by decide
    simp only [AskEvent.payload, Data.value, get_type, htype, hstatus, hdelta, Bool.false_and,
      Bool.false_eq_true, if_false, beq_self_eq_true, if_true]
    exact parseFinal_eq hid h

/-! ## The bytes of a session -/

section Bytes

variable {event : AskEvent} {events : List AskEvent}

/-- A line is an object on one line. -/
theorem line_eq (event : AskEvent) : ∃ inside, event.line = '{' :: (inside ++ ['}']) := by
  cases event with
  | status stage => exact ⟨_, rfl⟩
  | delta text => exact ⟨_, rfl⟩
  | final payload => exact ⟨_, rfl⟩

theorem newline_not_mem : '\n'.toNat ∉ units event.line := by
  intro hmem
  obtain ⟨c, hc, hnewline⟩ := List.mem_map.1 hmem
  have hprintable := dumps_printable event.payload c hc
  have hten : '\n'.toNat = 10 := rfl
  omega

theorem trim_line : trim (units event.line) = units event.line := by
  obtain ⟨inside, hline⟩ := line_eq event
  have hfront : units event.line = '{'.toNat :: units (inside ++ ['}']) := by
    rw [hline, units_cons]
  have hback : units event.line = units ('{' :: inside) ++ ['}'.toNat] := by
    rw [hline, ← List.cons_append, units_append]
    rfl
  have hkept : (units event.line).dropWhile isJsSpace = units event.line := by
    rw [hfront, List.dropWhile_cons_of_neg (by decide)]
  unfold trim
  rw [hkept, hback, List.rdropWhile_concat_neg _ _ _ (by decide)]

theorem nonBlank_lines : nonBlank (events.map fun event => units event.line) =
    events.map fun event => units event.line := by
  induction events with
  | nil => rfl
  | cons event events ih =>
    obtain ⟨inside, hline⟩ := line_eq event
    have hne : units event.line ≠ [] := by
      rw [hline, units_cons]
      exact List.cons_ne_nil _ _
    rw [List.map_cons, nonBlank_cons, trim_line, if_neg hne, ih]

/-- What the client decodes. -/
def sessionText (events : List AskEvent) : List Char := events.flatMap fun event => event.line ++ ['\n']

theorem flatten_streamChunks : (streamChunks events).flatten = Utf8.encode (sessionText events) := by
  unfold streamChunks sessionText Utf8.encode
  rw [List.flatMap_assoc]
  rfl

theorem textUnits_session : textUnits (String.ofList (sessionText events)) =
    (events.map fun event => units event.line).flatMap fun line => line ++ ['\n'.toNat] := by
  have hbasic : ∀ c ∈ sessionText events, c.toNat < 65536 := by
    intro c hc
    obtain ⟨event, -, hc⟩ := List.mem_flatMap.1 hc
    rcases List.mem_append.1 hc with hc | hc
    · have hprintable := dumps_printable event.payload c hc
      omega
    · rw [List.mem_singleton.1 hc]
      decide
  have hunits : textUnits (String.ofList (sessionText events)) = units (sessionText events) := by
    unfold textUnits
    rw [String.toList_ofList]
    exact encode_units hbasic
  rw [hunits, List.flatMap_map]
  unfold units sessionText
  rw [List.map_flatMap]
  simp only [List.map_append, List.map_singleton]

/-- The text has one line for each event, and nothing behind the last one. -/
theorem split_session : Lines.split '\n'.toNat (textUnits (String.ofList (sessionText events))) =
    (events.map fun event => units event.line, []) := by
  rw [textUnits_session]
  refine Lines.split_lines fun line hline => ?_
  obtain ⟨event, -, rfl⟩ := List.mem_map.1 hline
  exact newline_not_mem

/-- **The client reads the events that were written**, however their bytes are divided: when each is
accepted, and the last one is final and no other. -/
theorem readAskStream_events {chunks : List (List UInt8)} {before : List AskEvent} {last : AskEvent}
    (hbytes : chunks.flatten = (streamChunks (before ++ [last])).flatten)
    (haccepted : ∀ event ∈ before ++ [last],
      parseAskLine numbers (units event.line) = .ok (some (event.received numbers.read)))
    (hlast : isFinal (last.received numbers.read) = true)
    (hopen : ∀ event ∈ before, isFinal (event.received numbers.read) = false)
    (hshort : ∀ event ∈ before ++ [last], event.line.length ≤ lineLimit) :
    readAskStream numbers chunks =
      ((before ++ [last]).map (AskEvent.received numbers.read), .ok ()) := by
  have htext : chunks.flatten =
      Utf8.encode (String.ofList (sessionText (before ++ [last]))).toList := by
    rw [hbytes, flatten_streamChunks, String.toList_ofList]
  have hlines : Lines.Short '\n'.toNat lineLimit
      (textUnits (String.ofList (sessionText (before ++ [last])))) := by
    unfold Lines.Short
    rw [split_session]
    refine ⟨fun line hline => ?_, Nat.zero_le _⟩
    obtain ⟨event, hevent, rfl⟩ := List.mem_map.1 hline
    unfold units
    rw [List.length_map]
    exact hshort event hevent
  rw [readAskStream_eq htext hlines]
  refine readText_complete ?_
  rw [split_session, nonBlank_lines]
  refine ⟨?_, ⟨before.map (AskEvent.received numbers.read), last.received numbers.read, ?_, hlast, ?_⟩, rfl⟩
  · rw [List.forall₂_map_left_iff, List.forall₂_map_right_iff, List.forall₂_same]
    exact haccepted
  · rw [List.map_append, List.map_singleton]
  · intro event hevent
    obtain ⟨sent, hsent, rfl⟩ := List.mem_map.1 hevent
    exact hopen sent hsent

end Bytes

/-! ## The events of a session -/

namespace AskService

section Session

variable {service : AskService} {env : AskEnvironment} {s : AskState} {log : PolicyLog}
  {evidenceSet : EvidenceSet} {question : Question} {principal : Principal} {id : String}

/-- A final event that is no answer. -/
theorem presentable_of_status {payload : FinalPayload}
    (hstatus : payload.status ∈ ["abstained", "failed", "degraded"]) (hclaims : payload.claims = []) :
    Presentable id payload := by
  have hother : payload.status ≠ "verified" := by
    intro heq
    rw [heq] at hstatus
    exact absurd hstatus (by decide)
  refine ⟨List.mem_cons_of_mem _ hstatus, fun h => absurd h hother, fun h => absurd h hother,
    fun h => absurd h hother, ?_⟩
  rw [hclaims]
  exact fun claim hclaim => absurd hclaim List.not_mem_nil

theorem presentable_failure {code message : String} : (failure code message).Presentable id :=
  presentable_of_status (List.mem_cons_of_mem _ List.mem_cons_self) rfl

theorem presentable_generationFallback {error : GenerationProviderError} :
    (generationFallback error evidenceSet).Presentable id :=
  presentable_of_status (List.mem_cons_of_mem _ (List.mem_cons_of_mem _ List.mem_cons_self)) rfl

theorem presentable_finalAbstention {decision : AbstentionReason} {usage : AnswerUsage} :
    (finalAbstention decision question usage evidenceSet).Presentable id :=
  presentable_of_status List.mem_cons_self rfl

/-- The event of a verified answer: what it cites is among the evidence. -/
theorem presentable_finalAnswer {context : PackedContext} {answer : GroundedAnswer} {before after : PolicyLog}
    (hstatus : answer.status = .verified) (hquestion : answer.question.id = id)
    (hpacked : ∀ item ∈ context.evidence, item ∈ evidenceSet.evidence)
    (hsound : ∀ payload, finalAnswer answer evidenceSet = .final payload →
      SoundAnswer service.casefold context evidenceSet principal before after payload) :
    (finalAnswer answer evidenceSet).Presentable id := by
  have hanswer := hsound _ rfl
  refine ⟨?_, fun _ => congrArg some hquestion, fun _ => hanswer.claims_ne, fun _ => ?_, fun claim hclaim => ?_⟩
  · dsimp only
    rw [hstatus]
    decide
  · -- the item of the first citation is a source
    obtain ⟨claim, hclaim⟩ := List.exists_mem_of_ne_nil _ hanswer.claims_ne
    obtain ⟨citation, hcitation⟩ := List.exists_mem_of_ne_nil _ (hanswer.cited claim hclaim)
    obtain ⟨-, item, hitem, hidentity⟩ := hanswer.resolved claim hclaim citation hcitation
    rw [hanswer.sources]
    refine List.ne_nil_of_mem (List.mem_map_of_mem (List.mem_filter.2 ⟨hpacked item hitem, ?_⟩))
    exact List.any_eq_true.2 ⟨claim, hclaim, List.any_eq_true.2
      ⟨citation, hcitation, decide_eq_true hidentity.symm⟩⟩
  · exact ⟨hanswer.cited claim hclaim, fun citation hcitation =>
      (hanswer.resolved claim hclaim citation hcitation).1⟩

/-- An answer that failed verification is abstained from. -/
theorem failures_of_decision {casefold : String → String} {context : PackedContext}
    {verification : VerificationResult}
    (h : AbstentionDecider.decision casefold context (some verification) false = none) :
    verification.failures = [] := by
  unfold AbstentionDecider.decision at h
  rw [if_neg Bool.false_ne_true] at h
  by_contra hfailures
  have hany : ((some verification).any fun result => !result.failures.isEmpty) = true := by
    simpa using hfailures
  rw [if_pos hany] at h
  split at h
  · cases h
  · split at h
    · cases h
    · cases h

/-- Every event so far passes the tests of the client. -/
def SessionPresentable (id : String) (s : AskState) : Prop := ∀ event ∈ s.events, event.Presentable id

theorem emit_presentable {event : AskEvent} (hs : SessionPresentable id s) (hevent : event.Presentable id) :
    wp (emit env event) (fun _ => SessionPresentable id) (fun _ => SessionPresentable id) s := by
  have hemits : Emits (AskEvent.Presentable id) s.log s := ⟨rfl, hs⟩
  exact wp_mono (emit_emits hemits hevent) (fun _ _ h => h.2) (fun _ _ h => h.2)

theorem answerFrom_presentable (hs : SessionPresentable question.id s) :
    wp (answerFrom service env question principal evidenceSet)
      (fun _ => SessionPresentable question.id) (fun _ => SessionPresentable question.id) s := by
  unfold answerFrom
  dsimp only
  split
  · exact emit_presentable hs presentable_finalAbstention
  · rw [wp_bind]
    have hgenerating : (AskEvent.status "generating").Presentable question.id := Or.inr rfl
    refine wp_mono (emit_presentable hs hgenerating) (fun _ s₁ hs₁ => ?_) (fun _ _ h => h)
    rw [wp_bind]
    have hemits : Emits (AskEvent.Presentable question.id) s₁.log s₁ := ⟨rfl, hs₁⟩
    refine wp_mono (generate_emits (fun _ => trivial) (fun _ => presentable_failure)
      (fun _ => presentable_generationFallback) hemits) (fun completed s₂ hs₂ => ?_) (fun _ _ h => h.2)
    cases completed with
    | none => exact hs₂.2
    | some response =>
      rcases buildGroundedDraft_cases question (ContextPacker.pack service.maxTokens evidenceSet)
        response with ⟨error, herror⟩ | ⟨hinvalid, -⟩ | ⟨draft, hdraft, hclaims, hquestion⟩
      · simp only [herror]
        exact emit_presentable hs₂.2 presentable_failure
      · simp only [hinvalid]
        exact hs₂.2
      · simp only [hdraft]
        obtain ⟨hunverified, hcites⟩ := buildGroundedDraft_ok hdraft
        rw [wp_bind]
        refine wp_mono (policyCall_spec (wp_and (CitationVerifier.verify_spec hunverified)
          (CitationVerifier.verify_returns hunverified hclaims))) (fun result s₃ h₃ => ?_)
          (fun _ _ hf => hf.elim)
        obtain ⟨hevents, -, hok, -⟩ := h₃
        have hs₃ : SessionPresentable question.id s₃ := by
          unfold SessionPresentable
          rw [hevents]
          exact hs₂.2
        cases result with
        | error error => exact hs₃
        | ok verification =>
          obtain ⟨hverified, hpassed⟩ := hok verification rfl
          dsimp only
          split
          · exact emit_presentable hs₃ presentable_finalAbstention
          · -- no decision: the verifier has no failures
            rename_i hdecision
            obtain ⟨hstatus, hsame⟩ := hpassed (failures_of_decision hdecision)
            have hid : verification.answer.question.id = question.id := by rw [hsame, hquestion]
            -- the payload is sound at the log the verifier left, which is the log it is sent at
            have hsound : ∀ payload, finalAnswer verification.answer evidenceSet = .final payload →
                SoundAnswer service.casefold (ContextPacker.pack service.maxTokens evidenceSet)
                  evidenceSet principal s₂.log s₃.log payload :=
              fun payload hpayload => finalAnswer_sound (hverified hstatus) hstatus
                (fun item hitem => ContextPacker.mem_pack hitem) hcites hpayload
            exact emit_presentable hs₃ (presentable_finalAnswer hstatus hid
              (fun item hitem => List.mem_of_find?_eq_some (ContextPacker.mem_pack hitem)) hsound)

/-- **Every event of a session passes the tests of the client**, whatever the session meets. -/
theorem events_presentable (service : AskService) (env : AskEnvironment) (question : Question)
    (principal : Principal) (log : PolicyLog) :
    wp (events service env question principal) (fun _ => SessionPresentable question.id)
      (fun _ => SessionPresentable question.id) { log := log } := by
  have hstart : SessionPresentable question.id { log := log } := fun event h => absurd h List.not_mem_nil
  have hretrieving : (AskEvent.status "retrieving").Presentable question.id := Or.inl rfl
  unfold events
  rw [wp_bind]
  refine wp_mono (emit_presentable hstart hretrieving) (fun _ s₁ hs₁ => ?_) (fun _ _ h => h)
  rw [wp_bind]
  have hread : wp (readCancelled env) (fun _ => SessionPresentable question.id)
      (fun _ => SessionPresentable question.id) s₁ := hs₁
  refine wp_mono hread (fun cancelled s₂ hs₂ => ?_) (fun _ _ h => h)
  split
  · exact hs₂
  · rw [wp_bind]
    refine wp_mono (policyCall_spec wp_self) (fun result s₃ h₃ => ?_) (fun _ _ hf => hf.elim)
    have hs₃ : SessionPresentable question.id s₃ := by
      unfold SessionPresentable
      rw [h₃.1]
      exact hs₂
    cases result with
    | error error =>
      cases error with
      | unavailable degradationReason => exact emit_presentable hs₃ presentable_failure
      | other => exact hs₃
    | ok evidenceSet => exact answerFrom_presentable hs₃

theorem isFinal_received {read : JsString → ν} {event : AskEvent} (h : ∀ payload, event ≠ .final payload) :
    isFinal (event.received read) = false := by
  cases event with
  | status stage => rfl
  | delta text => rfl
  | final payload => exact absurd rfl (h payload)

/-- The final event of a session is its last one. -/
theorem SessionEvents.final_last {events : List AskEvent} (h : SessionEvents events) :
    ∃ before payload, events = before ++ [.final payload] ∧
      ∀ event ∈ before, ∀ payload, event ≠ .final payload := by
  cases h with
  | early payload =>
    refine ⟨[.status "retrieving"], payload, rfl, fun event hevent payload => ?_⟩
    rw [List.mem_singleton.1 hevent]
    exact AskEvent.noConfusion
  | generated texts payload =>
    refine ⟨.status "retrieving" :: .status "generating" :: texts.map .delta, payload, rfl, ?_⟩
    intro event hevent payload
    rcases List.mem_cons.1 hevent with rfl | hevent
    · exact AskEvent.noConfusion
    rcases List.mem_cons.1 hevent with rfl | hevent
    · exact AskEvent.noConfusion
    obtain ⟨text, -, rfl⟩ := List.mem_map.1 hevent
    exact AskEvent.noConfusion

/-- The client accepts the line of each event that was yielded. -/
def LinesAccepted (numbers : Numbers ν) (events : List AskEvent) : Prop :=
  ∀ event ∈ events,
    parseAskLine numbers (units event.line) = .ok (some (event.received numbers.read))

/-- However the bytes of the session are divided, the client reads its events and ends without an
error, if no line is too long. -/
def SessionRead (numbers : Numbers ν) (events : List AskEvent) : Prop :=
  ∀ chunks : List (List UInt8), chunks.flatten = (streamChunks events).flatten →
    (∀ event ∈ events, event.line.length ≤ lineLimit) →
    readAskStream numbers chunks = (events.map (AskEvent.received numbers.read), .ok ())

theorem isFinal_final {read : JsString → ν} {payload : FinalPayload} :
    isFinal ((AskEvent.final payload).received read) = true := by
  have htype : isFinal ((AskEvent.final payload).received read) =
      isText (Json.get (namedValues read payload.members) "type") "final" := rfl
  rw [htype, get_type]
  exact beq_self_eq_true (Json.units "final")

/-- **Server and client agree on the wire format.** In every session for a question with a UUID that
is not cancelled, the client accepts the line of every event, whatever the session meets. Where the
session returns, the client reads from its bytes the events in their order and no more, however the
bytes are divided, and ends without an error. It returns when the retriever, the provider and the
breaker do as they should. -/
theorem session_wire {T : Type} [Zero T] [LinearOrder T] [Sub T] (numbers : Numbers ν)
    (service : AskService) (env : AskEnvironment) (question : Question) (principal : Principal)
    (log : PolicyLog) (hid : isUuid question.id = true) (hcancelled : ∀ n, env.cancelled n = false) :
    wp (events service env question principal)
        (fun _ s => LinesAccepted numbers s.events ∧ SessionRead numbers s.events)
        (fun _ s => LinesAccepted numbers s.events) { log := log } ∧
      (Cooperative T env (queryContext question principal) →
        Returns (events service env question principal) { log := log }) := by
  have haccepted : ∀ {s : AskState}, SessionPresentable question.id s → LinesAccepted numbers s.events :=
    fun hs event hevent => parseAskLine_line hid (hs event hevent)
  have hreturns := events_returns (T := T) service env question principal log hcancelled
  refine ⟨?_, fun h => wp_mono hreturns (fun _ _ _ => trivial) fun _ _ hraised => hraised h⟩
  refine wp_mono (wp_and (events_presentable service env question principal log) hreturns)
    (fun _ s hs => ?_) (fun _ s hs => haccepted hs.1)
  obtain ⟨hpresentable, hevents, -⟩ := hs
  obtain ⟨before, payload, hsplit, hopen⟩ := hevents.final_last
  have hlines := haccepted hpresentable
  refine ⟨hlines, fun chunks hbytes hshort => ?_⟩
  rw [hsplit] at hlines hbytes hshort ⊢
  exact readAskStream_events hbytes hlines isFinal_final
    (fun event hevent => isFinal_received (hopen event hevent)) hshort

end Session

/-- A retrieved item, a delta of its text and a response that cites it. -/
theorem session_wire_sample :
    let item : Evidence :=
      { chunkId := "chunk", tenantId := "alpha", sourceId := "source", documentId := "document"
        documentVersionId := "version", ordinal := 0, text := "rotate the key", span := (0, 14)
        contentHash := "", parserVersion := "", chunkerVersion := "", sourceTimestamp := 0
        isCurrent := true, score := 1, authorizationReason := .public }
    let env : AskEnvironment :=
      { retrieve := fun _ => pure { evidence := [item], strategy := "bm25", total := 1, tookMs := 0 }
        access := { getDocumentPolicies := fun _ _ _ => none, append := fun _ _ => true }
        correlationId := "id"
        attempt := fun _ => ⟨none, [.delta "rotate", .completed
          ⟨[⟨"rotate the key", [⟨"chunk", "version", (0, 14)⟩]⟩], "model", 1, 1⟩], .exhausted⟩
        cancelled := fun _ => false
        closed := fun _ => false }
    let question : Question := ⟨"0b8a7d3c-52e4-4f0e-9c1d-6f7a1e2b3c4d", "how?", by decide⟩
    wp (events ⟨100, 2, id, by decide, by decide, by decide⟩ env question ⟨"alice", "alpha", [], [], true⟩)
      (fun _ s => LinesAccepted (⟨id, id⟩ : Numbers JsString) s.events ∧
        SessionRead (⟨id, id⟩ : Numbers JsString) s.events)
      (fun _ s => LinesAccepted (⟨id, id⟩ : Numbers JsString) s.events) { log := {} } := by
  intro item env question
  exact (session_wire (T := ℤ) ⟨id, id⟩ _ env question _ _ (by decide) fun _ => rfl).1

end AskService

end GroundedOps
