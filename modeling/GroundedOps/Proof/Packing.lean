import GroundedOps.Lib.RoundRobin
import GroundedOps.Proof.Answering

/-!
# What the context packer packs

* `select_sum`, `select_le`, `select_maximal`: the greedy selection counts what it selects, keeps
  the budget, and leaves out only what does not fit.
* `pack_exact`: **packing takes turns between the sources, packs greedily and reports what it left
  out and where versions differ**, for every evidence set and budget.
* `conflicting_iff`: **the decider abstains for a conflict exactly if two packed items of one
  document have different versions and different texts.**
-/

namespace GroundedOps

namespace ContextPacker

variable {evidence items : List Evidence} {item : Evidence} {maxTokens tokenCount : ℕ}

/-- `len(item.text.split())` -/
def itemTokens (item : Evidence) : ℕ := (splitWords item.text).length

/-! ## The order -/

theorem diverseRounds_eq (groups : List (List Evidence)) (total fuel depth : ℕ) (ordered : List Evidence) :
    diverseRounds groups total fuel depth ordered =
      RoundRobin.takeTurns groups total fuel depth ordered := by
  induction fuel generalizing depth ordered with
  | zero => rfl
  | succ fuel ih =>
    rw [diverseRounds, RoundRobin.takeTurns, ih]
    rfl

/-- **The order takes turns**, and any fuel that suffices gives the same. -/
theorem diverseRounds_exact {fuel : ℕ} (hfuel : evidence.length ≤ fuel) :
    (diverseRounds (sourceGroups evidence) evidence.length fuel 0 []).Perm evidence ∧
      diverseRounds (sourceGroups evidence) evidence.length fuel 0 [] =
        RoundRobin.rounds (RoundRobin.groupsOf Evidence.sourceId evidence) evidence.length := by
  rw [diverseRounds_eq]
  exact RoundRobin.takeTurns_perm hfuel

/-! ## The selection -/

/-- The count is that of the items selected. -/
theorem select_sum (maxTokens tokenCount : ℕ) (items : List Evidence) :
    (select maxTokens tokenCount items).2 =
    tokenCount + ((select maxTokens tokenCount items).1.map itemTokens).sum := by
  induction items generalizing tokenCount with
  | nil => simp [select]
  | cons item items ih =>
    simp only [select]
    split
    · exact ih tokenCount
    · rw [ih, List.map_cons, List.sum_cons, ← Nat.add_assoc]
      rfl

/-- **The budget is kept.** -/
theorem select_le (h : tokenCount ≤ maxTokens) : (select maxTokens tokenCount items).2 ≤ maxTokens := by
  induction items generalizing tokenCount with
  | nil => exact h
  | cons item items ih =>
    simp only [select]
    split
    · exact ih h
    · exact ih (by omega)

/-- **What is left out does not fit** in what remains of the budget. -/
theorem select_maximal (h : item ∈ items) (hout : item ∉ (select maxTokens tokenCount items).1) :
    maxTokens - (select maxTokens tokenCount items).2 < itemTokens item := by
  induction items generalizing tokenCount with
  | nil => cases h
  | cons first items ih =>
    simp only [select] at hout ⊢
    split
    · rename_i hskip
      rw [if_pos hskip] at hout
      rcases List.mem_cons.1 h with rfl | h
      · -- it did not fit then, and the budget has not grown
        have hgrown : tokenCount ≤ (select maxTokens tokenCount items).2 := by
          rw [select_sum]
          exact Nat.le_add_right _ _
        have hskip' : maxTokens - tokenCount < itemTokens item := hskip
        omega
      · exact ih h hout
    · rename_i htake
      rw [if_neg htake] at hout
      rw [List.mem_cons, not_or] at hout
      exact ih ((List.mem_cons.1 h).resolve_left hout.1) hout.2

/-! ## The conflicts -/

theorem sorted_lt_of_nodup {l : List String} (h : l.Nodup) :
    (l.mergeSort (· ≤ ·)).Pairwise (· < ·) := by
  have hsorted : (l.mergeSort (· ≤ ·)).Pairwise fun a b => decide (a ≤ b) = true := by
    refine List.pairwise_mergeSort (fun a b c hab hbc => ?_) (fun a b => ?_) l
    · exact decide_eq_true (String.le_trans (of_decide_eq_true hab) (of_decide_eq_true hbc))
    · simpa using String.le_total a b
  have hnodup : (l.mergeSort (· ≤ ·)).Nodup := (List.mergeSort_perm l _).nodup_iff.2 h
  refine (hsorted.and hnodup).imp fun {a b} hboth => ?_
  by_contra hnot
  have hle : a ≤ b := of_decide_eq_true hboth.1
  exact hboth.2 (String.le_antisymm hle (String.not_lt.1 hnot))

/-- The versions that the conflicts list for a document. -/
theorem mem_conflicts {entry : String × List String} : entry ∈ conflicts evidence ↔
    entry.2 = (Dict.firsts id ((evidence.filter (·.documentId = entry.1)).map
      Evidence.documentVersionId)).mergeSort (· ≤ ·) ∧ 1 < entry.2.length := by
  unfold conflicts
  rw [List.mem_filter, List.mem_map]
  constructor
  · rintro ⟨⟨documentId, -, rfl⟩, hlength⟩
    exact ⟨rfl, of_decide_eq_true hlength⟩
  · rintro ⟨hversions, hlength⟩
    refine ⟨⟨entry.1, ?_, Prod.ext rfl hversions.symm⟩, decide_eq_true hlength⟩
    -- the document of a version that is listed is packed
    rw [hversions, List.length_mergeSort] at hlength
    have hsome := Dict.one_lt_length_firsts_id.1 hlength
    obtain ⟨version, hversion, -⟩ := hsome
    obtain ⟨item, hitem, -⟩ := List.mem_map.1 hversion
    obtain ⟨hpacked, hdocument⟩ := List.mem_filter.1 hitem
    rw [List.mem_mergeSort, Dict.mem_firsts_id]
    exact List.mem_map.2 ⟨item, hpacked, of_decide_eq_true hdocument⟩

theorem conflicts_sorted : ((conflicts evidence).map Prod.fst).Pairwise (· < ·) := by
  have hsub : ((conflicts evidence).map Prod.fst).Sublist
      ((Dict.firsts id (evidence.map Evidence.documentId)).mergeSort (· ≤ ·)) := by
    unfold conflicts
    have hfirst := (List.filter_sublist (p := fun entry : String × List String => decide (1 < entry.2.length))
      (l := ((Dict.firsts id (evidence.map Evidence.documentId)).mergeSort (· ≤ ·)).map fun documentId =>
        (documentId, (Dict.firsts id ((evidence.filter (·.documentId = documentId)).map
          Evidence.documentVersionId)).mergeSort (· ≤ ·)))).map Prod.fst
    rw [List.map_map] at hfirst
    have hid : (Prod.fst ∘ fun documentId => (documentId, (Dict.firsts id ((evidence.filter
        (·.documentId = documentId)).map Evidence.documentVersionId)).mergeSort (· ≤ ·))) = id := rfl
    rw [hid, List.map_id] at hfirst
    exact hfirst
  exact (sorted_lt_of_nodup Dict.nodup_firsts_id).sublist hsub

/-- **The documents of the conflicts** have two packed versions. -/
theorem mem_conflict_documents {documentId : String} :
    documentId ∈ (conflicts evidence).map Prod.fst ↔ ∃ a ∈ evidence, ∃ b ∈ evidence,
      a.documentId = documentId ∧ b.documentId = documentId ∧ a.documentVersionId ≠ b.documentVersionId := by
  have htwo : 1 < ((Dict.firsts id ((evidence.filter (·.documentId = documentId)).map
      Evidence.documentVersionId)).mergeSort (· ≤ ·)).length ↔ ∃ a ∈ evidence, ∃ b ∈ evidence,
      a.documentId = documentId ∧ b.documentId = documentId ∧
        a.documentVersionId ≠ b.documentVersionId := by
    rw [List.length_mergeSort, Dict.one_lt_length_firsts_map]
  rw [← htwo]
  constructor
  · intro h
    obtain ⟨entry, hentry, rfl⟩ := List.mem_map.1 h
    obtain ⟨hversions, hlength⟩ := mem_conflicts.1 hentry
    rwa [hversions] at hlength
  · intro hlength
    exact List.mem_map.2 ⟨(documentId, _), mem_conflicts.2 ⟨rfl, hlength⟩, rfl⟩

variable {entry : String × List String}

/-- **The versions that the conflicts list** are those packed of their document, sorted. -/
theorem conflict_versions (h : entry ∈ conflicts evidence) : entry.2.Pairwise (· < ·) ∧
    ∀ version, version ∈ entry.2 ↔
      ∃ item ∈ evidence, item.documentId = entry.1 ∧ item.documentVersionId = version := by
  obtain ⟨hversions, -⟩ := mem_conflicts.1 h
  rw [hversions]
  refine ⟨sorted_lt_of_nodup Dict.nodup_firsts_id, fun version => ?_⟩
  rw [List.mem_mergeSort, Dict.mem_firsts_id, List.mem_map]
  constructor
  · rintro ⟨item, hitem, rfl⟩
    obtain ⟨hpacked, hdocument⟩ := List.mem_filter.1 hitem
    exact ⟨item, hpacked, of_decide_eq_true hdocument, rfl⟩
  · rintro ⟨item, hpacked, hdocument, rfl⟩
    exact ⟨item, List.mem_filter.2 ⟨hpacked, decide_eq_true hdocument⟩, rfl⟩

/-! ## The packed context -/

/-- **What packing an evidence set within a budget comes to.** `deduplicate` is the input without
later repeats, and `diverseOrder` the order in which it is packed. -/
structure PackedExactly (maxTokens : ℕ) (evidence : List Evidence) (context : PackedContext) : Prop where
  /-- the first item of each identity, in order -/
  unique : (deduplicate evidence).Sublist evidence ∧ ∀ item, item ∈ deduplicate evidence ↔
    evidence.find? (fun other => identity other = identity item) = some item
  distinct : ((deduplicate evidence).map identity).Nodup
  /-- the loop ends: any fuel from the number of items on gives the same -/
  terminates : ∀ fuel, (deduplicate evidence).length ≤ fuel →
    diverseRounds (sourceGroups (deduplicate evidence)) (deduplicate evidence).length fuel 0 [] =
      diverseOrder (deduplicate evidence)
  permutation : (diverseOrder (deduplicate evidence)).Perm (deduplicate evidence)
  /-- the order within each source is kept -/
  sources : ∀ sourceId, (diverseOrder (deduplicate evidence)).filter (·.sourceId = sourceId) =
    (deduplicate evidence).filter (·.sourceId = sourceId)
  /-- item `n` of every source, the sources in order of first appearance, then item `n + 1` -/
  turns : diverseOrder (deduplicate evidence) =
    (List.range (deduplicate evidence).length).flatMap fun n =>
      (Dict.firsts id ((deduplicate evidence).map Evidence.sourceId)).filterMap fun sourceId =>
        ((deduplicate evidence).filter (·.sourceId = sourceId))[n]?
  packed : context.evidence.Sublist (diverseOrder (deduplicate evidence))
  packedOnce : (context.evidence.map identity).Nodup
  tokenCount : context.tokenCount = (context.evidence.map itemTokens).sum
  budget : context.tokenCount ≤ maxTokens ∧ context.maxTokens = maxTokens
  maximal : ∀ item ∈ deduplicate evidence, item ∉ context.evidence →
    maxTokens - context.tokenCount < itemTokens item
  truncated : context.truncated = true ↔ ∃ item ∈ deduplicate evidence, item ∉ context.evidence
  conflictDocuments : (context.conflicts.map Prod.fst).Pairwise (· < ·) ∧
    ∀ documentId, documentId ∈ context.conflicts.map Prod.fst ↔
      ∃ a ∈ context.evidence, ∃ b ∈ context.evidence, a.documentId = documentId ∧
        b.documentId = documentId ∧ a.documentVersionId ≠ b.documentVersionId
  conflictVersions : ∀ entry ∈ context.conflicts, entry.2.Pairwise (· < ·) ∧
    ∀ version, version ∈ entry.2 ↔ ∃ item ∈ context.evidence,
      item.documentId = entry.1 ∧ item.documentVersionId = version

/-- A sublist leaves something out exactly if it is shorter. -/
theorem length_lt_iff_exists {l m : List Evidence} (hsub : l.Sublist m) (hnodup : m.Nodup) :
    l.length < m.length ↔ ∃ item ∈ m, item ∉ l := by
  constructor
  · intro hlt
    by_contra hall
    push Not at hall
    have hle : m.length ≤ l.length := (List.subperm_of_subset hnodup hall).length_le
    omega
  · rintro ⟨item, hitem, hout⟩
    refine lt_of_le_of_ne hsub.length_le fun heq => hout ?_
    rwa [hsub.eq_of_length heq]

/-- **Context packing**, for every evidence set and every budget. -/
theorem pack_exact (maxTokens : ℕ) (evidenceSet : EvidenceSet) :
    PackedExactly maxTokens evidenceSet.evidence (pack maxTokens evidenceSet) := by
  have hdistinct : ((deduplicate evidenceSet.evidence).map identity).Nodup := Dict.nodup_firsts
  have hrounds : diverseOrder (deduplicate evidenceSet.evidence) = RoundRobin.rounds
      (RoundRobin.groupsOf Evidence.sourceId (deduplicate evidenceSet.evidence))
      (deduplicate evidenceSet.evidence).length := (diverseRounds_exact le_rfl).2
  have hperm : (diverseOrder (deduplicate evidenceSet.evidence)).Perm
      (deduplicate evidenceSet.evidence) := (diverseRounds_exact le_rfl).1
  have hsub : (pack maxTokens evidenceSet).evidence.Sublist
      (diverseOrder (deduplicate evidenceSet.evidence)) := select_sublist
  -- the turns only permute the evidence, so what holds of the items survives them
  have hordered : ((diverseOrder (deduplicate evidenceSet.evidence)).map identity).Nodup :=
    (hperm.map identity).nodup_iff.2 hdistinct
  have hmem : ∀ item, item ∈ diverseOrder (deduplicate evidenceSet.evidence) ↔
      item ∈ deduplicate evidenceSet.evidence := fun item => hperm.mem_iff
  constructor
  case unique =>
    refine ⟨Dict.firsts_sublist, fun item => ?_⟩
    exact ⟨fun h => Dict.find?_of_mem_firsts h, fun h => Dict.mem_firsts_of_find? h⟩
  case distinct => exact hdistinct
  case terminates =>
    intro fuel hfuel
    rw [(diverseRounds_exact hfuel).2]
    exact hrounds.symm
  case permutation => exact hperm
  case sources =>
    intro sourceId
    have hkept : (diverseOrder (deduplicate evidenceSet.evidence)).filter (·.sourceId = sourceId) =
        ((deduplicate evidenceSet.evidence).filter (·.sourceId = sourceId)).take
          (deduplicate evidenceSet.evidence).length := by
      rw [hrounds]
      exact RoundRobin.filter_rounds
    rw [hkept, List.take_of_length_le (List.length_filter_le _ _)]
  case turns =>
    rw [hrounds]
    unfold RoundRobin.rounds RoundRobin.round RoundRobin.groupsOf
    simp only [List.filterMap_map]
    rfl
  case packed => exact hsub
  case packedOnce => exact hordered.sublist (hsub.map identity)
  case tokenCount =>
    have hsum := select_sum maxTokens 0 (diverseOrder (deduplicate evidenceSet.evidence))
    rw [Nat.zero_add] at hsum
    exact hsum
  case budget => exact ⟨select_le (Nat.zero_le _), rfl⟩
  case maximal => exact fun item hitem hout => select_maximal ((hmem item).2 hitem) hout
  case truncated =>
    have hnodup : (diverseOrder (deduplicate evidenceSet.evidence)).Nodup := List.Nodup.of_map identity hordered
    -- the code compares two lengths, of a list and of a sublist of it
    have hshort := length_lt_iff_exists hsub hnodup
    simp only [hmem] at hshort
    rw [hperm.length_eq] at hshort
    rw [← hshort]
    exact decide_eq_true_iff
  case conflictDocuments => exact ⟨conflicts_sorted, fun documentId => mem_conflict_documents⟩
  case conflictVersions => exact fun entry hentry => conflict_versions hentry

end ContextPacker

/-! ## Conflicts -/

namespace AbstentionDecider

/-- `" ".join(item.text.casefold().split())` -/
def normalizedText (casefold : String → String) (item : Evidence) : String :=
  " ".intercalate (splitWords (casefold item.text))

/-- Two items of one document, of different versions, say different things. -/
def Disagree (casefold : String → String) (a b : Evidence) : Prop :=
  a.documentId = b.documentId ∧ a.documentVersionId ≠ b.documentVersionId ∧
    normalizedText casefold a ≠ normalizedText casefold b

/-- **Collecting versions and texts apart is comparing pairs.** If a document has two versions and
two texts, then one of its texts differs from a text of another version. -/
theorem hasIrreconcilableConflict_iff (casefold : String → String) {context : PackedContext}
    (hconflicts : context.conflicts = ContextPacker.conflicts context.evidence) :
    hasIrreconcilableConflict casefold context = true ↔
      ∃ a ∈ context.evidence, ∃ b ∈ context.evidence, Disagree casefold a b := by
  -- two texts in the set of a document are two items that differ
  have htexts : ∀ documentId, 1 < (Dict.firsts id ((context.evidence.filter
      (·.documentId = documentId)).map (normalizedText casefold))).length ↔
      ∃ a ∈ context.evidence, ∃ b ∈ context.evidence, a.documentId = documentId ∧
        b.documentId = documentId ∧ normalizedText casefold a ≠ normalizedText casefold b := by
    intro documentId
    exact Dict.one_lt_length_firsts_map
  unfold hasIrreconcilableConflict
  rw [List.any_eq_true, hconflicts]
  constructor
  · rintro ⟨entry, hentry, hdistinct⟩
    obtain ⟨a, ha, b, hb, hda, hdb, hne⟩ := (htexts entry.1).1 (of_decide_eq_true hdistinct)
    have hdocument : entry.1 ∈ (ContextPacker.conflicts context.evidence).map Prod.fst :=
      List.mem_map_of_mem hentry
    obtain ⟨x, hx, y, hy, hdx, hdy, hversions⟩ := ContextPacker.mem_conflict_documents.1 hdocument
    by_cases hsame : a.documentVersionId = b.documentVersionId
    · -- an item of another version differs from one of the two
      obtain ⟨c, hc, hdc, hother⟩ : ∃ c ∈ context.evidence, c.documentId = entry.1 ∧
          c.documentVersionId ≠ a.documentVersionId := by
        by_cases hax : x.documentVersionId = a.documentVersionId
        · exact ⟨y, hy, hdy, fun hay => hversions (hax.trans hay.symm)⟩
        · exact ⟨x, hx, hdx, hax⟩
      by_cases htext : normalizedText casefold c = normalizedText casefold a
      · refine ⟨c, hc, b, hb, hdc.trans hdb.symm, ?_, ?_⟩
        · rw [← hsame]
          exact hother
        · rw [htext]
          exact hne
      · exact ⟨c, hc, a, ha, hdc.trans hda.symm, hother, htext⟩
    · exact ⟨a, ha, b, hb, hda.trans hdb.symm, hsame, hne⟩
  · rintro ⟨a, ha, b, hb, hdocument, hversion, htext⟩
    have hlisted : a.documentId ∈ (ContextPacker.conflicts context.evidence).map Prod.fst :=
      ContextPacker.mem_conflict_documents.2 ⟨a, ha, b, hb, rfl, hdocument.symm, hversion⟩
    obtain ⟨entry, hentry, hentrya⟩ := List.mem_map.1 hlisted
    refine ⟨entry, hentry, decide_eq_true ((htexts entry.1).2 ?_)⟩
    exact ⟨a, ha, b, hb, hentrya.symm, hdocument.symm.trans hentrya.symm, htext⟩

/-- **Conflict abstention is exact**, for every evidence set, budget and verification. -/
theorem conflicting_iff (casefold : String → String) (maxTokens : ℕ) (evidenceSet : EvidenceSet)
    (verification : Option VerificationResult) :
    decision casefold (ContextPacker.pack maxTokens evidenceSet) verification false =
        some .conflictingEvidence ↔
      ∃ a ∈ (ContextPacker.pack maxTokens evidenceSet).evidence,
        ∃ b ∈ (ContextPacker.pack maxTokens evidenceSet).evidence, Disagree casefold a b := by
  have hpacked : (ContextPacker.pack maxTokens evidenceSet).conflicts =
      ContextPacker.conflicts (ContextPacker.pack maxTokens evidenceSet).evidence := rfl
  have hconflict := hasIrreconcilableConflict_iff casefold hpacked
  rw [← hconflict]
  generalize ContextPacker.pack maxTokens evidenceSet = context at hconflict
  unfold decision
  by_cases hempty : context.evidence = []
  · have hnone : hasIrreconcilableConflict casefold context ≠ true := by
      rw [Ne, hconflict, hempty]
      simp
    simp [hempty, hnone]
  · cases hasIrreconcilableConflict casefold context with
    | true => simp [hempty]
    | false =>
      simp only [Bool.false_eq_true, if_false, iff_false, List.isEmpty_iff, hempty]
      split <;> simp

end AbstentionDecider

end GroundedOps
