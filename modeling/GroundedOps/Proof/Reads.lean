import GroundedOps.Lib.Lists
import GroundedOps.Proof.Policy

/-!
# Calls whose stores answer

* `authorizeReads_total`: a call for a principal with identifiers returns when its stores answer.
* `readsDone_decides`: it decides each reference by the answer.
* `authorizeReads_given`: the answer in the log is one that the store gave.
* `authorizeReads_returns`: for references of the principal's tenant, the three together.
-/

namespace GroundedOps

open Hoare PolicyEnforcer

variable {access : PolicyAccess} {principal : Principal} {reference : DocumentRef}
  {policies : DocumentRef → Option DocumentPolicy} {correlationId : String} {log log' : PolicyLog}
  {references : List DocumentRef} {allowed : Bool} {reason : AuthorizationReason}
  {document : AuthorizedDocument} {items : List (DocumentRef × AuthorizedDocument)}

/-! ## The audit store -/

/-- The audit store takes every event. -/
def Recorded (access : PolicyAccess) : Prop := ∀ n event, access.append n event = true

theorem recordAuthorization_returns (haudit : Recorded access) (htenant : principal.tenantId ≠ "")
    (hid : principal.id ≠ "") :
    wp (recordAuthorization access principal reference allowed reason correlationId)
      (fun _ _ => True) (fun _ _ => False) log := by
  have hempty : (principal.tenantId.isEmpty || principal.id.isEmpty) = false := by
    rw [Bool.or_eq_false_iff]
    exact ⟨by simpa using htenant, by simpa using hid⟩
  unfold recordAuthorization
  simp only [hempty, Bool.false_eq_true, if_false, wp_bind, wp_get]
  rw [if_pos (haudit _ _)]
  trivial

theorem authorizeReference_returns (haudit : Recorded access) (htenant : principal.tenantId ≠ "")
    (hid : principal.id ≠ "") :
    wp (authorizeReference access principal policies correlationId reference)
      (fun _ _ => True) (fun _ _ => False) log := by
  unfold authorizeReference
  split
  · simp only [wp_bind, wp_pure]
    exact recordAuthorization_returns haudit htenant hid
  · simp only [wp_bind, wp_pure]
    exact recordAuthorization_returns haudit htenant hid

theorem authorizeScoped_returns (haudit : Recorded access) (htenant : principal.tenantId ≠ "")
    (hid : principal.id ≠ "") : ∀ {references : List DocumentRef} {log : PolicyLog},
    wp (authorizeScoped access principal policies correlationId references)
      (fun _ _ => True) (fun _ _ => False) log := by
  intro references
  induction references with
  | nil => intro log; trivial
  | cons reference references ih =>
    intro log
    rw [authorizeScoped, wp_bind]
    refine wp_mono (authorizeReference_returns haudit htenant hid) (fun _ log₁ _ => ?_)
      (fun _ _ h => h)
    rw [wp_bind]
    exact wp_mono ih (fun _ _ _ => trivial) (fun _ _ h => h)

/-! ## The policy store -/

/-- The policy store answers the principal's reads with some mapping and the audit store takes every
event, for which the principal has the identifiers. -/
structure StoresAnswer (access : PolicyAccess) (principal : Principal) : Prop where
  recorded : Recorded access
  answers : ∀ n references, (access.getDocumentPolicies n principal.tenantId references).isSome = true
  tenantId : principal.tenantId ≠ ""
  id : principal.id ≠ ""

/-- What the policy store answered first between two logs; nothing where it was not asked. -/
def answered (log log' : PolicyLog) : DocumentRef → Option DocumentPolicy :=
  match log'.answers[log.answers.length]? with
  | none => fun _ => none
  | some answer => answer.policies

theorem answered_concat {answer : PolicyAnswer} (h : log'.answers = log.answers ++ [answer]) :
    answered log log' = answer.policies := by
  unfold answered
  rw [h, List.getElem?_concat_length]

theorem recordRefusals_returns (h : StoresAnswer access principal) :
    Returns (recordRefusals access principal reason correlationId references) log := by
  induction references generalizing log with
  | nil => trivial
  | cons reference references ih =>
    rw [recordRefusals]
    refine Returns.bind (recordAuthorization_returns h.recorded h.tenantId h.id) recordAuthorization_spec ?_
    intro _ _ _
    exact ih

theorem getDocumentPolicies_returns (h : StoresAnswer access principal) :
    Returns (PolicyEnforcer.getDocumentPolicies access principal.tenantId references) log := by
  obtain ⟨policies, hpolicies⟩ := Option.isSome_iff_exists.1 (h.answers log.calls references)
  unfold Returns PolicyEnforcer.getDocumentPolicies
  simp only [wp_bind, wp_get, hpolicies, wp_set, wp_pure]

theorem authorizeReads_total (h : StoresAnswer access principal) :
    Returns (authorizeReads access principal references correlationId) log := by
  unfold authorizeReads
  dsimp only
  split
  · refine Returns.bind (recordRefusals_returns h) recordRefusals_spec ?_
    intro _ _ _
    trivial
  · refine Returns.bind (recordRefusals_returns h) recordRefusals_spec ?_
    intro _ log₁ _
    split
    · trivial
    · refine Returns.bind (getDocumentPolicies_returns h) getDocumentPolicies_spec ?_
      intro policies log₂ _
      exact authorizeScoped_returns h.recorded h.tenantId h.id

/-- Only a known principal reads, and only in its tenant. -/
theorem decideRead_scoped (h : decideRead principal policies reference = some document) :
    principal.known = true ∧ reference.tenantId = principal.tenantId := by
  obtain ⟨-, hmatches, hdecision, hallowed⟩ := decideRead_eq_some.1 h
  obtain ⟨-, htenant, -, -⟩ := matchesReference_iff.1 hmatches
  rw [hdecision] at hallowed
  obtain ⟨hknown, hsame, -, -⟩ := authorize_allowed_iff.1 hallowed
  exact ⟨hknown, htenant.symm.trans hsame.symm⟩

/-- What the call returned, reference by reference. -/
theorem readsDone_decides (h : ReadsDone principal references correlationId log items log')
    (hmem : reference ∈ references) :
    lookupAuthorized items reference = decideRead principal (answered log log') reference := by
  cases hdecided : decideRead principal (answered log log') reference with
  | none =>
    cases hfound : lookupAuthorized items reference with
    | none => rfl
    | some document =>
      cases h with
      | unknown => cases hfound
      | foreign => cases hfound
      | asked answer hknown hanswers htenant hreferences haudit =>
        obtain ⟨other, -, hother⟩ := List.mem_filterMap.1 (mem_of_lookupAuthorized hfound)
        obtain ⟨document', hdocument', heq⟩ := Option.map_eq_some_iff.1 hother
        cases heq
        rw [answered_concat hanswers, hdocument'] at hdecided
        cases hdecided
  | some document =>
    obtain ⟨hknown, hsame⟩ := decideRead_scoped hdecided
    have hscoped : reference ∈ scopedReferences principal references :=
      List.mem_filter.2 ⟨Dict.mem_firsts_id.2 hmem, decide_eq_true hsame⟩
    cases h with
    | unknown hknown' => rw [hknown] at hknown'; cases hknown'
    | foreign hknown' hnone => rw [hnone] at hscoped; cases hscoped
    | asked answer hknown' hanswers htenant hreferences haudit =>
      rw [answered_concat hanswers] at hdecided
      rw [← hdecided]
      exact (Lists.lookup_filterMap _ _ _).trans (if_pos (hreferences ▸ hscoped))

/-- **A call whose stores answer** decides each reference by the answer. -/
theorem authorizeReads_decides (h : StoresAnswer access principal) :
    wp (authorizeReads access principal references correlationId)
      (fun items log' => ∀ reference ∈ references,
        lookupAuthorized items reference = decideRead principal (answered log log') reference)
      (fun _ _ => False) log := by
  refine wp_mono ((authorizeReads_total h).total authorizeReads_spec) (fun items log' hdone => ?_)
    (fun _ _ hfalse => hfalse)
  intro reference hmem
  exact readsDone_decides hdone hmem

/-- An answer in the log is one that the store gave. -/
theorem getDocumentPolicies_given {tenantId : String} :
    wp (PolicyEnforcer.getDocumentPolicies access tenantId references)
      (fun policies log' => log'.answers = log.answers ++ [⟨tenantId, references, policies⟩] ∧
        ∃ n, access.getDocumentPolicies n tenantId references = some policies)
      (fun _ _ => True) log := by
  unfold PolicyEnforcer.getDocumentPolicies
  simp only [wp_bind, wp_get]
  split
  · trivial
  · rename_i policies hpolicies
    exact ⟨rfl, _, hpolicies⟩

theorem authorizeReads_given :
    wp (authorizeReads access principal references correlationId)
      (fun _ log' => ∀ answer, log'.answers = log.answers ++ [answer] →
        ∃ n, access.getDocumentPolicies n answer.tenantId answer.references = some answer.policies)
      (fun _ _ => True) log := by
  have hnone : ∀ {log' : PolicyLog} {answer : PolicyAnswer}, log'.answers = log.answers →
      log'.answers ≠ log.answers ++ [answer] := by
    intro log' answer hsame heq
    rw [hsame] at heq
    have hlength := congrArg List.length heq
    rw [List.length_append, List.length_singleton] at hlength
    omega
  unfold authorizeReads
  dsimp only
  split
  · rw [wp_bind]
    refine wp_mono recordRefusals_spec (fun _ log₁ h₁ answer heq => ?_) (fun _ _ _ => trivial)
    exact absurd heq (hnone h₁.1)
  · rw [wp_bind]
    refine wp_mono recordRefusals_spec (fun _ log₁ h₁ => ?_) (fun _ _ _ => trivial)
    split
    · intro answer heq
      exact absurd heq (hnone h₁.1)
    · rw [wp_bind]
      refine wp_mono getDocumentPolicies_given (fun policies log₂ h₂ => ?_) (fun _ _ _ => trivial)
      refine wp_mono authorizeScoped_spec (fun items log₃ h₃ answer heq => ?_) (fun _ _ _ => trivial)
      obtain ⟨hanswers₂, n, hgiven⟩ := h₂
      rw [h₃.2.1, hanswers₂, h₁.1, List.append_cancel_left_eq, List.cons.injEq] at heq
      obtain ⟨rfl, -⟩ := heq
      exact ⟨n, hgiven⟩

/-- **A call about references of the principal's tenant** returns the decision on each, by what
the store answers to it; `Q` is what is known of an answer. -/
theorem authorizeReads_returns (haudit : Recorded access) (hid : principal.id ≠ "")
    (hknown : principal.known = true)
    (hscoped : ∀ reference ∈ references,
      reference.tenantId = principal.tenantId ∧ reference.tenantId ≠ "")
    {Q : List DocumentRef → (DocumentRef → Option DocumentPolicy) → Prop}
    (hstore : ∀ n asked, ∃ policies,
      access.getDocumentPolicies n principal.tenantId asked = some policies ∧ Q asked policies) :
    wp (authorizeReads access principal references correlationId)
      (fun items _ => ∀ reference ∈ references, ∃ asked policies, Q asked policies ∧
        reference ∈ asked ∧
          lookupAuthorized items reference = decideRead principal policies reference)
      (fun _ _ => False) log := by
  by_cases hempty : references = []
  · subst hempty
    unfold authorizeReads
    rw [hknown]
    exact fun reference hmem => absurd hmem List.not_mem_nil
  obtain ⟨first, hfirst⟩ := List.exists_mem_of_ne_nil _ hempty
  have hstores : StoresAnswer access principal := by
    obtain ⟨hsame, hne⟩ := hscoped first hfirst
    refine ⟨haudit, fun n asked => ?_, hsame ▸ hne, hid⟩
    obtain ⟨policies, hanswer, -⟩ := hstore n asked
    rw [hanswer]
    rfl
  refine wp_mono (wp_and ((authorizeReads_total hstores).total authorizeReads_spec)
    authorizeReads_given) (fun items log' h => ?_) (fun _ _ h => h.1)
  obtain ⟨hdone, hgiven⟩ := h
  intro reference hmem
  have hdecides := readsDone_decides hdone hmem
  have hin : reference ∈ scopedReferences principal references :=
    List.mem_filter.2 ⟨Dict.mem_firsts_id.2 hmem, decide_eq_true (hscoped reference hmem).1⟩
  cases hdone with
  | unknown hunknown =>
    rw [hknown] at hunknown
    cases hunknown
  | foreign _ hnone =>
    rw [hnone] at hin
    cases hin
  | asked answer _ hanswers htenant hreferences _ =>
    obtain ⟨n, hgave⟩ := hgiven answer hanswers
    obtain ⟨policies, hanswer, hQ⟩ := hstore n answer.references
    rw [htenant, hanswer, Option.some.injEq] at hgave
    rw [answered_concat hanswers] at hdecides
    exact ⟨answer.references, answer.policies, hgave ▸ hQ, hreferences ▸ hin, hdecides⟩

end GroundedOps
