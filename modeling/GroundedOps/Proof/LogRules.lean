import GroundedOps.Proof.Answering
import GroundedOps.Proof.Retrieval

/-!
# What happens to the log of the stores

A preorder on logs that each call of the policy store and of the audit store keeps, is kept by
everything that is built from such calls: `authorize_reads`, the retrievers and the verifier.

* `LogRule`: such a preorder, for one principal and one correlation.
* `LogRule.authorizeReads`, `LogRule.bm25`, `LogRule.dense`, `LogRule.fuse`, `LogRule.verify`:
  what each of them does to the log, whether it returns or raises.
* `Given`: the answers that a log gains are those that the policy store gave.
-/

namespace GroundedOps

open Hoare

namespace PolicyEnforcer

variable {access : PolicyAccess} {principal : Principal} {reference : DocumentRef}
  {policies : DocumentRef → Option DocumentPolicy} {correlationId : String}
  {log log' : PolicyLog} {references : List DocumentRef} {reason : AuthorizationReason}

/-! ## Relations between the logs before and after -/

/-- A preorder on logs that the calls of the two stores keep, however they end. -/
structure LogRule (access : PolicyAccess) (principal : Principal) (correlationId : String)
    (R : PolicyLog → PolicyLog → Prop) : Prop where
  refl : ∀ log, R log log
  trans : ∀ {log₁ log₂ log₃}, R log₁ log₂ → R log₂ log₃ → R log₁ log₃
  record : ∀ reference allowed reason log,
    wp (recordAuthorization access principal reference allowed reason correlationId)
      (fun _ => R log) (fun _ => R log) log
  ask : ∀ tenantId references log,
    wp (getDocumentPolicies access tenantId references) (fun _ => R log) (fun _ => R log) log

variable {R : PolicyLog → PolicyLog → Prop}

theorem LogRule.recordRefusals (h : LogRule access principal correlationId R)
    (references : List DocumentRef) (log : PolicyLog) :
    wp (PolicyEnforcer.recordRefusals access principal reason correlationId references)
      (fun _ => R log) (fun _ => R log) log := by
  induction references generalizing log with
  | nil => exact h.refl log
  | cons reference references ih =>
    unfold PolicyEnforcer.recordRefusals
    rw [wp_bind]
    refine wp_mono (h.record reference false reason log) (fun _ log₁ h₁ => ?_) (fun _ _ h₁ => h₁)
    exact wp_mono (ih log₁) (fun _ _ h₂ => h.trans h₁ h₂) (fun _ _ h₂ => h.trans h₁ h₂)

theorem LogRule.authorizeScoped (h : LogRule access principal correlationId R)
    (references : List DocumentRef) (log : PolicyLog) :
    wp (PolicyEnforcer.authorizeScoped access principal policies correlationId references)
      (fun _ => R log) (fun _ => R log) log := by
  have hone : ∀ reference log,
      wp (authorizeReference access principal policies correlationId reference)
        (fun _ => R log) (fun _ => R log) log := by
    intro reference log
    unfold authorizeReference
    split
    · simp only [wp_bind, wp_pure]
      exact h.record _ _ _ log
    · simp only [wp_bind, wp_pure]
      exact h.record _ _ _ log
  induction references generalizing log with
  | nil => exact h.refl log
  | cons reference references ih =>
    unfold PolicyEnforcer.authorizeScoped
    rw [wp_bind]
    refine wp_mono (hone reference log) (fun _ log₁ h₁ => ?_) (fun _ _ h₁ => h₁)
    rw [wp_bind]
    exact wp_mono (ih log₁) (fun _ _ h₂ => h.trans h₁ h₂) (fun _ _ h₂ => h.trans h₁ h₂)

/-- **The calls of the stores are all that a call does to the log.** -/
theorem LogRule.authorizeReads (h : LogRule access principal correlationId R)
    (references : List DocumentRef) (log : PolicyLog) :
    wp (PolicyEnforcer.authorizeReads access principal references correlationId)
      (fun _ => R log) (fun _ => R log) log := by
  unfold PolicyEnforcer.authorizeReads
  dsimp only
  split
  · rw [wp_bind]
    exact wp_mono (h.recordRefusals _ log) (fun _ _ h₁ => h₁) (fun _ _ h₁ => h₁)
  · rw [wp_bind]
    refine wp_mono (h.recordRefusals _ log) (fun _ log₁ h₁ => ?_) (fun _ _ h₁ => h₁)
    split
    · exact h₁
    · rw [wp_bind]
      refine wp_mono (h.ask _ _ log₁) (fun _ log₂ h₂ => ?_) (fun _ _ h₂ => h.trans h₁ h₂)
      have hboth : R log log₂ := h.trans h₁ h₂
      exact wp_mono (h.authorizeScoped _ log₂) (fun _ _ h₃ => h.trans hboth h₃)
        (fun _ _ h₃ => h.trans hboth h₃)

/-! ## The retrievers and the verifier -/

theorem LogRule.searchAuthorized {Q : Type} (h : LogRule access principal correlationId R)
    (search : SearchAccess Q) (request : SearchRequest Q) (log : PolicyLog) :
    wp (GroundedOps.searchAuthorized access correlationId search request principal)
      (fun _ => R log) (fun _ => R log) log := by
  unfold GroundedOps.searchAuthorized
  cases search request with
  | none => exact h.refl log
  | some result =>
    dsimp only
    cases result.hits.mapM hitReference with
    | none => exact h.refl log
    | some references =>
      simp only [wp_bind, wp_pure]
      exact h.authorizeReads references log

theorem LogRule.bm25 {context : QueryContext} (h : LogRule access context.principal correlationId R)
    (search : SearchAccess String) (log : PolicyLog) :
    wp (BM25Retriever.retrieve access correlationId search context)
      (fun _ => R log) (fun _ => R log) log := by
  unfold BM25Retriever.retrieve
  cases PolicyEnforcer.searchScope context.principal with
  | none => exact h.refl log
  | some inScope =>
    simp only [wp_bind, wp_raiseAs, wp_pure]
    exact h.searchAuthorized search _ log

theorem LogRule.dense {context : QueryContext} (h : LogRule access context.principal correlationId R)
    (search : SearchAccess DenseQuery)
    (embedQuery : String → Except EmbeddingFailure (List ℚ)) (corpusVersion : String)
    (log : PolicyLog) :
    wp (DenseRetriever.retrieve access correlationId search embedQuery corpusVersion context)
      (fun _ => R log) (fun _ => R log) log := by
  unfold DenseRetriever.retrieve
  cases PolicyEnforcer.searchScope context.principal with
  | none => exact h.refl log
  | some inScope =>
    cases embedQuery context.query with
    | error failure =>
      cases failure with
      | provider => exact h.refl log
      | other => exact h.refl log
    | ok vector =>
      simp only [wp_bind, wp_raiseAs, wp_pure]
      exact h.searchAuthorized search _ log

theorem LogRule.fuse {context : QueryContext} (h : LogRule access context.principal correlationId R)
    (rrfK : ℕ) (lexical dense : Option EvidenceSet) (denseFailure : Option String)
    (log : PolicyLog) :
    wp (HybridRetriever.fuse access correlationId rrfK lexical dense denseFailure context)
      (fun _ => R log) (fun _ => R log) log := by
  unfold HybridRetriever.fuse
  split
  · exact h.refl log
  · dsimp only
    split
    · exact h.refl log
    · simp only [wp_bind, wp_raiseAs, wp_pure]
      exact h.authorizeReads _ log

theorem LogRule.verify (h : LogRule access principal correlationId R) (casefold : String → String)
    (answer : GroundedAnswer) (evidenceSet : EvidenceSet) (log : PolicyLog) :
    wp (CitationVerifier.verify casefold access correlationId answer evidenceSet principal)
      (fun _ => R log) (fun _ => R log) log := by
  have hclaim : ∀ claim log,
      wp (CitationVerifier.verifyClaim casefold access correlationId evidenceSet.evidence principal
        claim) (fun _ => R log) (fun _ => R log) log := by
    intro claim log
    unfold CitationVerifier.verifyClaim
    split
    · exact h.refl log
    · dsimp only
      split
      · exact h.refl log
      · split
        · exact h.refl log
        · simp only [wp_bind, wp_tryCatch, wp_map, wp_pure]
          refine wp_mono (h.authorizeReads _ log) (fun authorized log₁ h₁ => ?_)
            (fun _ _ h₁ => h₁)
          split
          · exact h₁
          · split
            · exact h₁
            · exact h₁
  have hclaims : ∀ claims log,
      wp (CitationVerifier.verifyClaims casefold access correlationId evidenceSet.evidence principal
        claims) (fun _ => R log) (fun _ => R log) log := by
    intro claims
    induction claims with
    | nil => exact h.refl
    | cons claim claims ih =>
      intro log
      rw [CitationVerifier.verifyClaims, wp_bind]
      refine wp_mono (hclaim claim log) (fun outcome log₁ h₁ => ?_) (fun _ _ h₁ => h₁)
      rw [wp_bind]
      exact wp_mono (ih log₁) (fun _ _ h₂ => h.trans h₁ h₂) (fun _ _ h₂ => h.trans h₁ h₂)
  unfold CitationVerifier.verify
  split
  · exact h.refl log
  · rw [wp_bind]
    refine wp_mono (hclaims answer.claims log) (fun result log₁ h₁ => ?_) (fun _ _ h₁ => h₁)
    dsimp only
    split
    · exact h₁
    · split
      · exact h₁
      · exact h₁

/-! ## Answers that the store gave -/

/-- The answers that the log has gained are those of the policy store. -/
def Given (access : PolicyAccess) (log log' : PolicyLog) : Prop :=
  ∃ new, log'.answers = log.answers ++ new ∧
    ∀ answer ∈ new, ∃ n,
      access.getDocumentPolicies n answer.tenantId answer.references = some answer.policies

theorem Given.of_same (h : log'.answers = log.answers) : Given access log log' :=
  ⟨[], by rw [h, List.append_nil], fun _ hmem => absurd hmem List.not_mem_nil⟩

theorem given_rule (access : PolicyAccess) (principal : Principal) (correlationId : String) :
    LogRule access principal correlationId (Given access) where
  refl _ := .of_same rfl
  trans := by
    rintro log₁ log₂ log₃ ⟨new₁, h₁, hall₁⟩ ⟨new₂, h₂, hall₂⟩
    refine ⟨new₁ ++ new₂, by rw [h₂, h₁, List.append_assoc], fun answer hanswer => ?_⟩
    rcases List.mem_append.1 hanswer with hin | hin
    · exact hall₁ answer hin
    · exact hall₂ answer hin
  record reference allowed reason log :=
    wp_mono recordAuthorization_spec (fun _ _ h => .of_same h.1) (fun _ _ h => .of_same h)
  ask tenantId references log := by
    unfold getDocumentPolicies
    simp only [wp_bind, wp_get]
    split
    · simp only [wp_bind, wp_set, wp_throw]
      exact .of_same rfl
    · rename_i policies hpolicies
      simp only [wp_bind, wp_set, wp_pure]
      refine ⟨[_], rfl, fun answer hanswer => ?_⟩
      obtain rfl := List.mem_singleton.1 hanswer
      exact ⟨_, hpolicies⟩

/-- The one answer that a call has gained, is the store's. -/
theorem Given.last {answer : PolicyAnswer} (h : Given access log log')
    (hanswers : log'.answers = log.answers ++ [answer]) :
    ∃ n, access.getDocumentPolicies n answer.tenantId answer.references = some answer.policies := by
  obtain ⟨new, hnew, hall⟩ := h
  have hsame : new = [answer] := List.append_cancel_left (hnew.symm.trans hanswers)
  exact hall answer (hsame ▸ List.mem_singleton_self _)

end PolicyEnforcer

end GroundedOps
