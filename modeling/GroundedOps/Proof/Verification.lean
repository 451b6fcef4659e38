import GroundedOps.Proof.Answering
import GroundedOps.Proof.ReadAudit

/-!
# The verdict of the citation verifier

* `Supported`: a claim cites, each citation is of an item of the evidence, the principal is
  let read the items, and they have every token of the claim.
* `Unreferable`: a claim whose citations all resolve, one of them to an item whose identifiers
  are not those of a document.
* `verify_exact`: **a verdict of verified is exactly that every claim is supported**, any other
  is the answer as it was with failures, and only an unreferable claim makes the verifier raise.
-/

namespace GroundedOps

open Hoare PolicyEnforcer

namespace CitationVerifier

/-- The citation is of the item, the first of its identity in the evidence. -/
def Cites (evidence : List Evidence) (citation : Citation) (item : Evidence) : Prop :=
  evidence.find? (fun other => identity other = citation.identity) = some item

/-- What the verifier asks of a claim, with the call of the policy store between the logs. -/
structure Supported (casefold : String → String) (access : PolicyAccess) (correlationId : String)
    (evidence : List Evidence) (principal : Principal) (claim : Claim)
    (log log' : PolicyLog) : Prop where
  cited : claim.citations ≠ []
  verdict : ∃ items references authorized,
    List.Forall₂ (Cites evidence) claim.citations items ∧
    items.mapM evidenceReference = some references ∧
    exec (authorizeReads access principal references correlationId) log = (.ok authorized, log') ∧
    (∀ reference ∈ references, reference ∈ authorized.map Prod.fst) ∧
    ∀ token ∈ tokens casefold claim.text, ∃ item ∈ items, token ∈ tokens casefold item.text

/-- Every claim is supported, each with the calls after those of the claims before it. -/
inductive AllSupported (casefold : String → String) (access : PolicyAccess)
    (correlationId : String) (evidence : List Evidence) (principal : Principal) :
    List Claim → PolicyLog → PolicyLog → Prop
  | nil (log : PolicyLog) :
      AllSupported casefold access correlationId evidence principal [] log log
  | cons {claim : Claim} {claims : List Claim} {log log₁ log' : PolicyLog}
      (head : Supported casefold access correlationId evidence principal claim log log₁)
      (tail : AllSupported casefold access correlationId evidence principal claims log₁ log') :
      AllSupported casefold access correlationId evidence principal (claim :: claims) log log'

/-- Every citation of the claim is of an item, and an item has no valid reference. -/
def Unreferable (evidence : List Evidence) (claim : Claim) : Prop :=
  claim.citations ≠ [] ∧ ∃ items, List.Forall₂ (Cites evidence) claim.citations items ∧
    items.mapM evidenceReference = none

/-- The claim with its citations resolved. -/
def resolvedClaim (claim : Claim) : Claim :=
  { claim with citations := claim.citations.map Citation.resolve }

variable {casefold : String → String} {access : PolicyAccess} {correlationId : String}
  {evidence : List Evidence} {principal : Principal} {claim : Claim} {claims : List Claim}
  {citation : Citation} {item : Evidence} {log log' : PolicyLog}

/-! ## Citations -/

/-- A citation resolves to the item it cites, and to no other. -/
theorem resolve_iff : resolve citation evidence = .ok item ↔ Cites evidence citation item := by
  constructor
  · exact resolve_ok
  · intro h
    have hmem := List.mem_of_find?_eq_some h
    have hid : identity item = citation.identity := by simpa using List.find?_some h
    obtain ⟨hchunk, hrest⟩ := Prod.mk.inj hid
    obtain ⟨hversion, hspan⟩ := Prod.mk.inj hrest
    have hmatching : item ∈ evidence.filter (·.chunkId = citation.evidenceId) :=
      List.mem_filter.2 ⟨hmem, decide_eq_true hchunk⟩
    have hversions : item ∈ (evidence.filter (·.chunkId = citation.evidenceId)).filter
        (·.documentVersionId = citation.documentVersionId) :=
      List.mem_filter.2 ⟨hmatching, decide_eq_true hversion⟩
    have hfound : ((evidence.filter (·.chunkId = citation.evidenceId)).filter
        (·.documentVersionId = citation.documentVersionId)).find? (·.span = citation.span) =
          some item := by
      rw [List.filter_filter, List.find?_filter, ← h]
      congr 1
      funext other
      simp only [identity, Citation.identity, Prod.mk.injEq, Bool.decide_and, Bool.decide_eq_true]
      ac_rfl
    unfold resolve
    simp only
    rw [if_neg (by simpa using List.ne_nil_of_mem hmatching),
      if_neg (by simpa using List.ne_nil_of_mem hversions), hfound]

/-- The items of the citations are resolved in order, or a citation has none and fails. -/
theorem resolveAll_cases (evidence : List Evidence) : ∀ citations : List Citation,
    (∃ items, List.Forall₂ (Cites evidence) citations items ∧
      resolveAll evidence citations = ([], items)) ∨
    (∀ items, ¬ List.Forall₂ (Cites evidence) citations items) ∧
      (resolveAll evidence citations).1 ≠ [] ∧
      (resolveAll evidence citations).2.length < citations.length := by
  intro citations
  induction citations with
  | nil => exact Or.inl ⟨[], .nil, rfl⟩
  | cons citation citations ih =>
    simp only [resolveAll]
    cases hres : resolve citation evidence with
    | error failure =>
      refine Or.inr ⟨fun items hall => ?_, List.cons_ne_nil _ _, ?_⟩
      · cases hall with
        | cons hcites _ =>
          rw [resolve_iff.2 hcites] at hres
          cases hres
      · have hle : (resolveAll evidence citations).2.length ≤ citations.length :=
          resolveAll_forall₂.1
        simp only [List.length_cons]
        omega
    | ok item =>
      have hcites := resolve_iff.1 hres
      rcases ih with ⟨items, hall, heq⟩ | ⟨hnone, hfailed, hlen⟩
      · refine Or.inl ⟨item :: items, .cons hcites hall, ?_⟩
        rw [heq]
      · refine Or.inr ⟨fun items hall => ?_, hfailed, Nat.succ_lt_succ hlen⟩
        cases hall with
        | cons _ htail => exact hnone _ htail

/-- The items that citations cite are determined. -/
theorem cites_unique {citations : List Citation} {items items' : List Evidence}
    (h : List.Forall₂ (Cites evidence) citations items)
    (h' : List.Forall₂ (Cites evidence) citations items') : items' = items := by
  induction h generalizing items' with
  | nil => cases h'; rfl
  | cons hcites _ ih =>
    cases h' with
    | cons hcites' htail =>
      rw [ih htail, Option.some.inj (hcites'.symm.trans hcites)]

/-! ## One claim -/

/-- A reference is looked up exactly if it is a key. -/
theorem lookupAuthorized_isNone {items : List (DocumentRef × AuthorizedDocument)}
    {reference : DocumentRef} : (lookupAuthorized items reference).isNone = true ↔
      reference ∉ items.map Prod.fst := by
  unfold lookupAuthorized
  rw [Option.isNone_iff_eq_none, List.lookup_eq_none_iff, List.mem_map]
  constructor
  · rintro h ⟨item, hitem, rfl⟩
    exact bne_iff_ne.1 (h item hitem) rfl
  · intro h item hitem
    refine bne_iff_ne.2 ?_
    rintro rfl
    exact h ⟨item, hitem, rfl⟩

/-- What is known of a supported claim whose items and their references are known. -/
theorem Supported.known {items : List Evidence} {references : List DocumentRef}
    (h : Supported casefold access correlationId evidence principal claim log log')
    (hitems : List.Forall₂ (Cites evidence) claim.citations items)
    (hreferences : items.mapM evidenceReference = some references) :
    ∃ authorized,
      exec (authorizeReads access principal references correlationId) log = (.ok authorized, log') ∧
      (∀ reference ∈ references, reference ∈ authorized.map Prod.fst) ∧
      ∀ token ∈ tokens casefold claim.text, ∃ item ∈ items, token ∈ tokens casefold item.text := by
  obtain ⟨items', references', authorized, hitems', hreferences', hexec, hall, htokens⟩ := h.verdict
  obtain rfl := cites_unique hitems hitems'
  obtain rfl : references' = references := Option.some.inj (hreferences'.symm.trans hreferences)
  exact ⟨authorized, hexec, hall, htokens⟩

/-- **One round** verifies a supported claim and fails any other. -/
theorem verifyClaim_exact :
    wp (verifyClaim casefold access correlationId evidence principal claim)
      (fun outcome log' =>
        Supported casefold access correlationId evidence principal claim log log' ∧
          outcome = .ok (resolvedClaim claim) ∨
        (∀ log'', ¬ Supported casefold access correlationId evidence principal claim log log'') ∧
          ∃ failures, failures ≠ [] ∧ outcome = .error failures)
      (fun _ _ => Unreferable evidence claim) log := by
  unfold verifyClaim
  by_cases hcited : claim.citations = []
  · simp only [hcited, List.isEmpty_nil, if_true, wp_pure]
    exact Or.inr ⟨fun _ h => h.cited hcited, _, List.cons_ne_nil _ _, rfl⟩
  have hne : claim.citations.isEmpty = false := by simpa using hcited
  simp only [hne, Bool.false_eq_true, if_false]
  -- the checks are taken in their order, and each failure refutes one field of the support
  rcases resolveAll_cases evidence claim.citations with
    ⟨items, hitems, heq⟩ | ⟨hnone, hfailed, hlen⟩
  · simp only [heq, hitems.length_eq, ne_eq, not_true, if_false]
    cases hreferences : items.mapM evidenceReference with
    | none => exact ⟨hcited, items, hitems, hreferences⟩
    | some references =>
      simp only [wp_bind, wp_tryCatch, wp_map, wp_pure]
      refine wp_mono wp_self (fun authorized log₁ hexec => ?_) (fun _ log₁ hexec => ?_)
      · by_cases hall : ∀ reference ∈ references, reference ∈ authorized.map Prod.fst
        · have hany : (references.any fun reference =>
              (lookupAuthorized authorized reference).isNone) = false := by
            refine List.any_eq_false.2 fun reference hmem hnone => ?_
            exact lookupAuthorized_isNone.1 hnone (hall reference hmem)
          simp only [hany, Bool.false_eq_true, if_false]
          split
          · rename_i hsupport
            refine Or.inl ⟨⟨hcited, items, references, authorized, hitems, hreferences, hexec, hall,
              fun token htoken => ?_⟩, rfl⟩
            have hin := List.all_eq_true.1 hsupport token htoken
            rw [decide_eq_true_eq, List.mem_flatMap] at hin
            exact hin
          · rename_i hsupport
            refine Or.inr ⟨fun log'' h => hsupport ?_, _, List.cons_ne_nil _ _, rfl⟩
            obtain ⟨_, -, -, htokens⟩ := h.known hitems hreferences
            refine List.all_eq_true.2 fun token htoken => ?_
            rw [decide_eq_true_eq, List.mem_flatMap]
            exact htokens token htoken
        · have hany : (references.any fun reference =>
              (lookupAuthorized authorized reference).isNone) = true := by
            push Not at hall
            obtain ⟨reference, hmem, hnot⟩ := hall
            exact List.any_eq_true.2 ⟨reference, hmem, lookupAuthorized_isNone.2 hnot⟩
          simp only [hany, if_true, wp_pure]
          refine Or.inr ⟨fun log'' h => hall ?_, _, List.cons_ne_nil _ _, rfl⟩
          -- the call is the same one, so the support cannot name another answer
          obtain ⟨authorized', hexec', hall', -⟩ := h.known hitems hreferences
          have hsame : authorized' = authorized := by
            rw [hexec] at hexec'
            injection hexec' with hok
            injection hok with hitem
            exact hitem.symm
          rwa [hsame] at hall'
      · -- the call raised, and is taken for a refusal
        refine Or.inr ⟨fun log'' h => ?_, _, List.cons_ne_nil _ _, rfl⟩
        obtain ⟨_, hexec', -⟩ := h.known hitems hreferences
        rw [hexec] at hexec'
        cases hexec'
  · have hshort : (resolveAll evidence claim.citations).2.length ≠ claim.citations.length := by omega
    simp only [hshort, ne_eq, not_false_eq_true, if_true, wp_pure]
    refine Or.inr ⟨fun _ h => ?_, _, hfailed, rfl⟩
    obtain ⟨items, _, _, hitems, -⟩ := h.verdict
    exact hnone items hitems

/-! ## The loop -/

/-- **The loop** verifies every claim, or leaves a failure. -/
theorem verifyClaims_exact : ∀ {claims : List Claim} {log : PolicyLog},
    wp (verifyClaims casefold access correlationId evidence principal claims)
      (fun result log' =>
        AllSupported casefold access correlationId evidence principal claims log log' ∧
          result = ([], claims.map resolvedClaim) ∨
        (∀ log'', ¬ AllSupported casefold access correlationId evidence principal claims log log'') ∧
          result.1 ≠ [])
      (fun _ _ => ∃ claim ∈ claims, Unreferable evidence claim) log := by
  intro claims
  induction claims with
  | nil => intro log; exact Or.inl ⟨.nil log, rfl⟩
  | cons claim claims ih =>
    intro log
    rw [verifyClaims, wp_bind]
    refine wp_mono verifyClaim_exact (fun outcome log₁ h₁ => ?_)
      (fun _ _ h => ⟨claim, List.mem_cons_self, h⟩)
    rw [wp_bind]
    have hlater : (∃ c ∈ claims, Unreferable evidence c) →
        ∃ c ∈ claim :: claims, Unreferable evidence c := by
      rintro ⟨c, hc, h⟩
      exact ⟨c, List.mem_cons_of_mem _ hc, h⟩
    refine wp_mono ih (fun result log₂ h₂ => ?_) (fun _ _ h => hlater h)
    rw [wp_pure]
    rcases h₁ with ⟨hhead, rfl⟩ | ⟨hhead, failures, hfailures, rfl⟩
    · rcases h₂ with ⟨htail, rfl⟩ | ⟨htail, hfailed⟩
      · exact Or.inl ⟨.cons hhead htail, rfl⟩
      · refine Or.inr ⟨fun log'' h => ?_, hfailed⟩
        cases h with
        | cons hhead' htail' =>
          -- the claim is supported by one call, so the rest starts from one log
          obtain ⟨items, references, _, hitems, hreferences, hexec, -⟩ := hhead.verdict
          obtain ⟨_, hexec', -⟩ := hhead'.known hitems hreferences
          rw [hexec] at hexec'
          cases hexec'
          exact htail _ htail'
    · refine Or.inr ⟨fun log'' h => ?_, List.append_ne_nil_of_left_ne_nil hfailures _⟩
      cases h with
      | cons hhead' _ => exact hhead _ hhead'

/-! ## The verdict -/

/-- The verdict is verified: the answer is the input's, with every citation resolved. -/
structure VerdictVerified (answer : GroundedAnswer) (result : VerificationResult) : Prop where
  failures : result.failures = []
  status : result.answer.status = .verified
  question : result.answer.question = answer.question
  usage : result.answer.usage = answer.usage
  claims : result.answer.claims = answer.claims.map resolvedClaim

/-- The verdict is the answer as it was, with the failures, each once. -/
structure VerdictFailed (answer : GroundedAnswer) (result : VerificationResult) : Prop where
  answer_eq : result.answer = answer
  failures : result.failures ≠ []
  distinct : result.failures.Nodup

/-- The claims that the loop verified make an answer. -/
theorem check_resolvedClaims {claims : List Claim} (hclaims : claims ≠ [])
    (hcited : ∀ claim ∈ claims, claim.citations ≠ []) :
    GroundedAnswer.check (claims.map resolvedClaim) .verified none = true := by
  have hall : ((claims.map resolvedClaim).all fun claim =>
      !claim.citations.isEmpty && claim.citations.all Citation.resolved) = true := by
    refine List.all_eq_true.2 fun claim hclaim => ?_
    obtain ⟨original, horiginal, rfl⟩ := List.mem_map.1 hclaim
    have hne := hcited original horiginal
    simp only [resolvedClaim, List.isEmpty_map, List.all_map, Bool.and_eq_true,
      Bool.not_eq_true', List.isEmpty_eq_false_iff, List.all_eq_true]
    exact ⟨hne, fun _ _ => rfl⟩
  unfold GroundedAnswer.check
  simp only [ne_eq, not_true, decide_false, Bool.false_or, List.isEmpty_map, reduceCtorEq, if_false,
    Option.isNone_none, Bool.and_true, Bool.and_eq_true, Bool.not_eq_true',
    List.isEmpty_eq_false_iff]
  exact ⟨hclaims, hall⟩

theorem AllSupported.cited (h : AllSupported casefold access correlationId evidence principal
    claims log log') : ∀ claim ∈ claims, claim.citations ≠ [] := by
  induction h with
  | nil => intro _ hmem; cases hmem
  | cons hhead _ ih =>
    intro claim hmem
    rcases List.mem_cons.1 hmem with rfl | hmem
    · exact hhead.cited
    · exact ih claim hmem

/-- The verdict on an answer with claims: every claim is supported, or the answer has failed. -/
theorem verify_cases {answer : GroundedAnswer} {evidenceSet : EvidenceSet}
    (hstatus : answer.status ≠ .abstained) (hclaims : answer.claims ≠ []) :
    wp (verify casefold access correlationId answer evidenceSet principal)
      (fun result log' =>
        AllSupported casefold access correlationId evidenceSet.evidence principal answer.claims
            log log' ∧ VerdictVerified answer result ∨
        (∀ log'', ¬ AllSupported casefold access correlationId evidenceSet.evidence principal
            answer.claims log log'') ∧ VerdictFailed answer result)
      (fun _ _ => ∃ claim ∈ answer.claims, Unreferable evidenceSet.evidence claim) log := by
  unfold verify
  simp only [hstatus, if_false, wp_bind]
  refine wp_mono verifyClaims_exact (fun result log' h => ?_) (fun _ _ h => h)
  rcases h with ⟨hall, rfl⟩ | ⟨hnone, hfailed⟩
  · have hempty : Dict.firsts id ([] : List VerificationFailure) = [] := rfl
    simp only [hempty, List.isEmpty_nil, Bool.not_true, List.length_map, ne_eq, not_true,
      decide_false, Bool.or_self, Bool.false_eq_true, if_false]
    rw [GroundedAnswer.make, dif_pos (check_resolvedClaims hclaims hall.cited), wp_pure]
    exact Or.inl ⟨hall, rfl, rfl, rfl, rfl, rfl⟩
  · have hfirsts := Dict.firsts_id_ne_nil hfailed
    have hdistinct : (Dict.firsts id result.1).Nodup := Dict.nodup_firsts_id
    have hblocked : (!(Dict.firsts id result.1).isEmpty ||
        decide (result.2.length ≠ answer.claims.length)) = true := by
      simp [hfirsts]
    rw [if_pos hblocked, wp_pure]
    exact Or.inr ⟨hnone, rfl, hfirsts, hdistinct⟩

/-- **Citation verification is exact.** The verdict on an answer with claims that is not
abstained is verified if and only if every claim is supported; otherwise it is the answer as it
was, with failures. The verifier raises only where a claim is unreferable. -/
theorem verify_exact (casefold : String → String) (access : PolicyAccess) (correlationId : String)
    (answer : GroundedAnswer) (evidenceSet : EvidenceSet) (principal : Principal) (log : PolicyLog)
    (hstatus : answer.status ≠ .abstained) (hclaims : answer.claims ≠ []) :
    wp (verify casefold access correlationId answer evidenceSet principal)
      (fun result log' =>
        (result.failures = [] ∧ result.answer.status = .verified ↔
          AllSupported casefold access correlationId evidenceSet.evidence principal answer.claims
            log log') ∧
        (AllSupported casefold access correlationId evidenceSet.evidence principal answer.claims
            log log' → VerdictVerified answer result) ∧
        (¬ AllSupported casefold access correlationId evidenceSet.evidence principal answer.claims
            log log' → VerdictFailed answer result))
      (fun _ _ => ∃ claim ∈ answer.claims, Unreferable evidenceSet.evidence claim) log := by
  refine wp_mono (verify_cases hstatus hclaims) (fun result log' h => ?_) (fun _ _ h => h)
  rcases h with ⟨hall, hverified⟩ | ⟨hnone, hfailed⟩
  · exact ⟨iff_of_true ⟨hverified.failures, hverified.status⟩ hall, fun _ => hverified,
      fun hnot => absurd hall hnot⟩
  · exact ⟨iff_of_false (fun h => hfailed.failures h.1) (hnone log'),
      fun hall => absurd hall (hnone log'), fun _ => hfailed⟩

/-! ## Two small answers -/

/-- An item of a version, with a text. -/
def citedItem (documentVersionId text : String) : Evidence :=
  { chunkId := "c-1", tenantId := "t-1", sourceId := "s-1", documentId := "d-1"
    documentVersionId := documentVersionId, ordinal := 0, text := text, span := (0, 7)
    contentHash := "h", parserVersion := "1", chunkerVersion := "1", sourceTimestamp := 0
    isCurrent := true, score := 1, authorizationReason := .public }

def citedSet (items : List Evidence) : EvidenceSet :=
  { evidence := items, strategy := "bm25", total := items.length, tookMs := 1 }

def versionCitation : Citation := ⟨"c-1", "v-1", (0, 7), false, by decide⟩

/-- The version of the citation has a blank in it. -/
def blankCitation : Citation := ⟨"c-1", "v 1", (0, 7), false, by decide⟩

def draftOf (citation : Citation) : GroundedAnswer :=
  { question := ⟨"q-2", "why", by decide⟩
    claims := [⟨"because", [citation], by decide⟩]
    status := .unverified
    usage := ⟨"model", 1, 1, by decide⟩
    valid := rfl }

def someReader : Principal := { id := "p-1", tenantId := "t-1", roles := [], groups := [] }

/-- Stores that take every event and know no document. -/
def emptyStores : PolicyAccess := ⟨fun _ _ _ => some fun _ => none, fun _ _ => true⟩

/-- A citation of an item that no reference names makes the verifier raise. -/
theorem verify_raises : ¬ ∀ (casefold : String → String) (access : PolicyAccess)
    (correlationId : String) (answer : GroundedAnswer) (evidenceSet : EvidenceSet)
    (principal : Principal) (log : PolicyLog),
    answer.status ≠ .abstained → answer.claims ≠ [] →
      wp (verify casefold access correlationId answer evidenceSet principal)
        (fun result _ => VerdictVerified answer result ∨ VerdictFailed answer result)
        (fun _ _ => False) log := by
  intro h
  have hraised : exec (verify id emptyStores "correlation" (draftOf blankCitation)
      (citedSet [citedItem "v 1" "because"]) someReader) {} = (.error (), {}) := by rfl
  exact wp_error (h id emptyStores "correlation" (draftOf blankCitation)
    (citedSet [citedItem "v 1" "because"]) someReader {} (by decide) (by decide)) hraised

/-- A claim of a document that the store does not know is refused. -/
theorem verify_exact_refused : VerdictFailed (draftOf versionCitation)
    ⟨draftOf versionCitation, [.evidenceUnauthorized]⟩ := by
  have hrun : (exec (verify id emptyStores "correlation" (draftOf versionCitation)
      (citedSet [citedItem "v-1" "because"]) someReader) {}).1 =
        .ok ⟨draftOf versionCitation, [.evidenceUnauthorized]⟩ := by rfl
  have hexact := verify_exact id emptyStores "correlation" (draftOf versionCitation)
    (citedSet [citedItem "v-1" "because"]) someReader {} (by decide) (by decide)
  obtain ⟨hiff, -, hfailed⟩ := wp_ok hexact (Prod.ext hrun rfl)
  refine hfailed fun hall => ?_
  have hverdict := (hiff.2 hall).1
  cases hverdict

end CitationVerifier

end GroundedOps
