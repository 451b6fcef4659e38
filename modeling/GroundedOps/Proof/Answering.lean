import GroundedOps.Lib.Lists
import GroundedOps.Proof.Policy
import GroundedOps.Spec.Answering

/-!
# What the stages of an answer guarantee

* `mem_pack`: a packed item is the first of its identity among the retrieved evidence.
* `buildGroundedDraft_ok`: a draft is unverified and cites packed items only.
* `verify_spec`: **an answer that the verifier marks verified is its draft with every
  claim verified** (`ClaimVerified`): each citation resolves, the policy store lets the
  principal read what is cited, and the cited texts have every token of the claim.
-/

namespace GroundedOps

open Hoare PolicyEnforcer

/-! ## The packer -/

namespace ContextPacker

variable {evidence : List Evidence} {item : Evidence} {maxTokens : ℕ}

theorem select_sublist : ∀ {items : List Evidence} {tokenCount : ℕ},
    (select maxTokens tokenCount items).1.Sublist items := by
  intro items
  induction items with
  | nil => intro tokenCount; exact List.Sublist.slnil
  | cons item items ih =>
    intro tokenCount
    simp only [select]
    split
    · exact ih.cons item
    · exact ih.cons_cons item

theorem mem_diverseRounds {groups : List (List Evidence)} {total : ℕ} :
    ∀ {fuel depth : ℕ} {ordered : List Evidence},
      item ∈ diverseRounds groups total fuel depth ordered →
        item ∈ ordered ∨ ∃ items ∈ groups, item ∈ items := by
  intro fuel
  induction fuel with
  | zero => intro depth ordered h; exact Or.inl h
  | succ fuel ih =>
    intro depth ordered h
    rw [diverseRounds] at h
    split at h
    · rcases ih h with hmem | hgroup
      · rcases List.mem_append.1 hmem with hmem | hround
        · exact Or.inl hmem
        · obtain ⟨items, hitems, hget⟩ := List.mem_filterMap.1 hround
          exact Or.inr ⟨items, hitems, List.mem_of_getElem? hget⟩
      · exact Or.inr hgroup
    · exact Or.inl h

theorem mem_of_mem_diverseOrder (h : item ∈ diverseOrder evidence) : item ∈ evidence := by
  rcases mem_diverseRounds h with hnil | ⟨items, hitems, hmem⟩
  · cases hnil
  · obtain ⟨sourceId, -, rfl⟩ := List.mem_map.1 hitems
    exact (List.mem_filter.1 hmem).1

/-- **A packed item is the first of its identity in the evidence set.** -/
theorem mem_pack {evidenceSet : EvidenceSet} (h : item ∈ (pack maxTokens evidenceSet).evidence) :
    evidenceSet.evidence.find? (fun other => identity other = identity item) = some item := by
  have hselected := select_sublist.subset h
  exact Dict.find?_of_mem_firsts (mem_of_mem_diverseOrder hselected)

end ContextPacker

/-! ## The draft -/

/-- **A draft is unverified, and cites items of the context only.** -/
theorem buildGroundedDraft_ok {question : Question} {context : PackedContext}
    {response : GenerationResponse} {draft : GroundedAnswer}
    (h : buildGroundedDraft question context response = .ok draft) :
    draft.status = .unverified ∧ ∀ claim ∈ draft.claims, ∀ citation ∈ claim.citations,
      ∃ item ∈ context.evidence, identity item = citation.identity := by
  unfold buildGroundedDraft at h
  simp only at h
  split at h
  · cases h
  · rename_i claims hclaims
    split at h
    · cases h
    · rename_i hchecked
      simp only [Bool.or_eq_true, List.any_eq_true, not_or, not_exists, not_and,
        decide_eq_true_eq, List.mem_map] at hchecked
      split at h
      · cases h
        refine ⟨rfl, fun claim hclaim citation hcitation => ?_⟩
        have hknown := hchecked.2 claim hclaim citation hcitation
        push Not at hknown
        exact hknown
      · cases h

/-! ## The verifier -/

/-- The answer was given by the policy store between `log` and `log'`. -/
def Answered (log log' : PolicyLog) (answer : PolicyAnswer) : Prop :=
  ∃ new, log'.answers = log.answers ++ new ∧ answer ∈ new

/-- The policy store, between `log` and `log'`, let the principal read the item's version. -/
def Authorized (principal : Principal) (log log' : PolicyLog) (item : Evidence) : Prop :=
  ∃ answer reference policy, Answered log log' answer ∧
    evidenceReference item = some reference ∧ Readable principal answer reference policy

variable {log log₁ log₂ log' : PolicyLog} {principal : Principal} {item : Evidence}

theorem Authorized.widen (h : Authorized principal log₁ log₂ item)
    (hbefore : log.answers <+: log₁.answers) (hafter : log₂.answers <+: log'.answers) :
    Authorized principal log log' item := by
  obtain ⟨answer, reference, policy, ⟨new, hnew, hmem⟩, href, hread⟩ := h
  obtain ⟨older, holder⟩ := hbefore
  obtain ⟨newer, hnewer⟩ := hafter
  refine ⟨answer, reference, policy, ⟨older ++ new ++ newer, ?_, ?_⟩, href, hread⟩
  · rw [← hnewer, hnew, ← holder]; simp only [List.append_assoc]
  · simp [hmem]

namespace CitationVerifier

variable {casefold : String → String} {access : PolicyAccess} {correlationId : String}
  {evidence : List Evidence} {claim verified : Claim} {citation : Citation}

/-- The claim was verified, with calls between `log` and `log'`: its citations are marked
resolved, each is an item of the evidence that the principal was let read, and the items
have every token of its text. -/
structure ClaimVerified (casefold : String → String) (evidence : List Evidence)
    (principal : Principal) (log log' : PolicyLog) (claim verified : Claim) : Prop where
  text : verified.text = claim.text
  citations : verified.citations = claim.citations.map Citation.resolve
  cited : claim.citations ≠ []
  authorized : ∀ citation ∈ claim.citations, ∀ item,
    evidence.find? (fun other => identity other = citation.identity) = some item →
      Authorized principal log log' item
  supported : ∀ token ∈ tokens casefold claim.text, ∃ citation ∈ claim.citations, ∃ item,
    evidence.find? (fun other => identity other = citation.identity) = some item ∧
      token ∈ tokens casefold item.text

theorem ClaimVerified.widen (h : ClaimVerified casefold evidence principal log₁ log₂ claim verified)
    (hbefore : log.answers <+: log₁.answers) (hafter : log₂.answers <+: log'.answers) :
    ClaimVerified casefold evidence principal log log' claim verified :=
  { h with authorized := fun citation hcitation item hitem =>
      (h.authorized citation hcitation item hitem).widen hbefore hafter }

/-- A citation resolves to the first item with its identity. -/
theorem resolve_ok (h : resolve citation evidence = .ok item) :
    evidence.find? (fun other => identity other = citation.identity) = some item := by
  unfold resolve at h
  simp only at h
  split at h
  · cases h
  · split at h
    · cases h
    · split at h
      · rename_i found hfound
        cases h
        rw [List.filter_filter, List.find?_filter] at hfound
        rw [← hfound]
        congr 1
        funext other
        simp only [identity, Citation.identity, Prod.mk.injEq, Bool.decide_and, Bool.decide_eq_true]
        ac_rfl
      · cases h

/-- If no item is missing, each citation was resolved to the item at its place. -/
theorem resolveAll_forall₂ : ∀ {citations : List Citation},
    (resolveAll evidence citations).2.length ≤ citations.length ∧
      ((resolveAll evidence citations).2.length = citations.length →
        List.Forall₂ (fun citation item => resolve citation evidence = .ok item) citations
          (resolveAll evidence citations).2) := by
  intro citations
  induction citations with
  | nil => exact ⟨le_rfl, fun _ => .nil⟩
  | cons citation citations ih =>
    simp only [resolveAll]
    cases hres : resolve citation evidence with
    | error failure =>
      refine ⟨le_trans ih.1 (Nat.le_succ _), fun hlen => ?_⟩
      have hle := ih.1
      simp only [List.length_cons] at hlen
      omega
    | ok item =>
      refine ⟨Nat.succ_le_succ ih.1, fun hlen => ?_⟩
      exact .cons hres (ih.2 (Nat.succ.inj hlen))

/-- The references of a verified claim were authorized, so its items may be read. -/
theorem authorized_of_readsDone {resolved : List Evidence} {references : List DocumentRef}
    {authorized : List (DocumentRef × AuthorizedDocument)}
    (hreferences : resolved.mapM evidenceReference = some references)
    (hdone : ReadsDone principal references correlationId log authorized log')
    (hall : (references.any fun reference => (lookupAuthorized authorized reference).isNone) = false) :
    ∀ item ∈ resolved, Authorized principal log log' item := by
  intro item hitem
  obtain ⟨reference, hmem, href⟩ := (Lists.exists_of_forall₂ (Lists.forall₂_of_mapM hreferences)).1 item hitem
  rw [List.any_eq_false] at hall
  have hsome := hall reference hmem
  rw [Option.isNone_iff_eq_none, ← ne_eq, Option.ne_none_iff_exists'] at hsome
  obtain ⟨document, hfound⟩ := hsome
  obtain ⟨answer, hanswers, hread⟩ := readsDone_readable hdone hfound
  exact ⟨answer, reference, document.policy, ⟨[answer], hanswers, List.mem_singleton_self _⟩, href, hread⟩

/-- What is known of a claim when all its citations resolved, its items may be read and
have its tokens. -/
theorem claimVerified_of_resolved {resolved : List Evidence}
    (hcited : claim.citations ≠ [])
    (hresolved : List.Forall₂ (fun citation item => resolve citation evidence = .ok item)
      claim.citations resolved)
    (hauthorized : ∀ item ∈ resolved, Authorized principal log log' item)
    (hsupport : ((tokens casefold claim.text).all fun token =>
      token ∈ resolved.flatMap fun item => tokens casefold item.text) = true) :
    ClaimVerified casefold evidence principal log log' claim
      { claim with citations := claim.citations.map Citation.resolve } := by
  refine ⟨rfl, rfl, hcited, fun citation hcitation item hitem => ?_, fun token htoken => ?_⟩
  · obtain ⟨item', hmem, hres⟩ := (Lists.exists_of_forall₂ hresolved).1 citation hcitation
    have hfirst := resolve_ok hres
    rw [hitem] at hfirst
    cases hfirst
    exact hauthorized _ hmem
  · rw [List.all_eq_true] at hsupport
    have hin := hsupport token htoken
    rw [decide_eq_true_eq, List.mem_flatMap] at hin
    obtain ⟨item, hmem, htok⟩ := hin
    obtain ⟨citation, hcitation, hres⟩ := (Lists.exists_of_forall₂ hresolved).2 item hmem
    exact ⟨citation, hcitation, item, resolve_ok hres, htok⟩

theorem verifyClaim_spec :
    wp (verifyClaim casefold access correlationId evidence principal claim)
      (fun outcome log' => log.answers <+: log'.answers ∧ ∀ verified, outcome = .ok verified →
        ClaimVerified casefold evidence principal log log' claim verified)
      (fun _ _ => True) log := by
  unfold verifyClaim
  by_cases hcited : claim.citations = []
  · simp [hcited]
  · have hne : claim.citations.isEmpty = false := by simpa using hcited
    simp only [hne, Bool.false_eq_true, if_false]
    by_cases hlen : (resolveAll evidence claim.citations).2.length = claim.citations.length
    · have hresolved := resolveAll_forall₂.2 hlen
      simp only [hlen, ne_eq, not_true, if_false]
      cases href : (resolveAll evidence claim.citations).2.mapM evidenceReference with
      | none => simp
      | some references =>
        simp only [wp_bind, wp_tryCatch, wp_map, wp_pure]
        refine wp_mono authorizeReads_spec (fun authorized log' hdone => ?_)
          (fun _ log' hkept => ⟨hkept, by simp⟩)
        have hkept := readsDone_prefix hdone
        split
        · exact ⟨hkept, by simp⟩
        · rename_i hall
          rw [Bool.not_eq_true] at hall
          split
          · rename_i hsupport
            refine ⟨hkept, fun verified hverified => ?_⟩
            cases hverified
            exact claimVerified_of_resolved hcited hresolved (authorized_of_readsDone href hdone hall)
              hsupport
          · exact ⟨hkept, by simp⟩
    · simp only [hlen, ne_eq, not_false_eq_true, if_true, wp_pure]
      exact ⟨List.prefix_rfl, by simp⟩

/-- The loop verifies at most as many claims as there are, and all of them if it verifies
that many. -/
theorem verifyClaims_spec : ∀ {claims : List Claim} {log : PolicyLog},
    wp (verifyClaims casefold access correlationId evidence principal claims)
      (fun result log' => log.answers <+: log'.answers ∧ result.2.length ≤ claims.length ∧
        (result.2.length = claims.length →
          List.Forall₂ (ClaimVerified casefold evidence principal log log') claims result.2))
      (fun _ _ => True) log := by
  intro claims
  induction claims with
  | nil =>
    intro log
    rw [verifyClaims, wp_pure]
    exact ⟨List.prefix_rfl, le_rfl, fun _ => .nil⟩
  | cons claim claims ih =>
    intro log
    rw [verifyClaims, wp_bind]
    refine wp_mono verifyClaim_spec (fun outcome log₁ h₁ => ?_) (fun _ _ _ => trivial)
    obtain ⟨hkept₁, hverified⟩ := h₁
    rw [wp_bind]
    refine wp_mono ih (fun result log₂ h₂ => ?_) (fun _ _ _ => trivial)
    obtain ⟨hkept₂, hle, hall⟩ := h₂
    simp only [wp_pure]
    refine ⟨hkept₁.trans hkept₂, ?_⟩
    cases outcome with
    | error new =>
      refine ⟨le_trans hle (Nat.le_succ _), fun hlen => ?_⟩
      simp only [List.length_cons] at hlen
      omega
    | ok verifiedClaim =>
      refine ⟨Nat.succ_le_succ hle, fun hlen => ?_⟩
      have hrest := hall (Nat.succ.inj hlen)
      refine .cons ((hverified verifiedClaim rfl).widen List.prefix_rfl hkept₂) ?_
      exact hrest.imp fun _ _ hclaim => hclaim.widen hkept₁ List.prefix_rfl

/-- **A verified answer is its draft, with every claim verified.** -/
theorem verify_spec {answer : GroundedAnswer} {evidenceSet : EvidenceSet}
    (hdraft : answer.status = .unverified) :
    wp (verify casefold access correlationId answer evidenceSet principal)
      (fun result log' => result.answer.status = .verified →
        List.Forall₂ (ClaimVerified casefold evidenceSet.evidence principal log log') answer.claims
          result.answer.claims)
      (fun _ _ => True) log := by
  unfold verify
  rw [hdraft]
  simp only [reduceCtorEq, if_false, wp_bind]
  refine wp_mono verifyClaims_spec (fun result log' h => ?_) (fun _ _ _ => trivial)
  obtain ⟨-, -, hall⟩ := h
  split
  · rw [wp_pure, hdraft]
    rintro ⟨⟩
  · rename_i hpassed
    simp only [Bool.or_eq_true, not_or, decide_eq_true_eq, ne_eq, not_not] at hpassed
    split
    · simp
    · rename_i verified hmake
      rw [wp_pure]
      intro _
      unfold GroundedAnswer.make at hmake
      split at hmake
      · cases hmake
        exact hall hpassed.2
      · cases hmake

end CitationVerifier

end GroundedOps
