import GroundedOps.Lib.Lists
import GroundedOps.Proof.Reads
import GroundedOps.Spec.PolicyRead

/-!
# Many policies in two statements

`get_document_policies` collects the rows of all its references at once. Here each of its entries
is what a read of that one reference would have returned.

* `between`: the rows that the two statements of a call see, as one database.
* `getDocumentPolicies_eq`: the batch is the list of the reads one by one, and never raises.
* `snapshot_policies`: the offline store holds the last policy of each reference.
* `policy_reads_exact`: **both answer for exactly the references of the tenant**, and how.
-/

namespace GroundedOps.Ingestion

open Hoare IngestionRepository

/-! ## The rows -/

/-- The documents and sources of the first statement, the versions of the second. -/
def between (first second : Database) : Database :=
  { first with documentVersions := second.documentVersions }

section Rows

variable {first second : Database} {tenantId : String} {documentIds : List String}
  {reference : DocumentRef}

theorem mem_selectDocuments {row : Document × Source} :
    row ∈ selectDocuments first tenantId documentIds ↔
      row.1 ∈ first.documents ∧ row.1.tenantId = tenantId ∧ row.1.id ∈ documentIds ∧
        first.sources.find (row.1.tenantId, row.1.sourceId) = some row.2 := by
  unfold selectDocuments
  rw [List.mem_filterMap]
  constructor
  · rintro ⟨document, hdocument, hrow⟩
    obtain ⟨hmem, hwhere⟩ := List.mem_filter.1 hdocument
    obtain ⟨source, hsource, rfl⟩ := Option.map_eq_some_iff.1 hrow
    rw [Bool.and_eq_true, beq_iff_eq, List.contains_iff_mem] at hwhere
    exact ⟨hmem, hwhere.1, hwhere.2, hsource⟩
  · rintro ⟨hmem, htenant, hid, hsource⟩
    refine ⟨row.1, List.mem_filter.2 ⟨hmem, ?_⟩, ?_⟩
    · rw [Bool.and_eq_true, beq_iff_eq, List.contains_iff_mem]
      exact ⟨htenant, hid⟩
    · rw [hsource]
      rfl

/-- The row of one document, whatever the others are. -/
theorem find_selectDocuments (hid : reference.documentId ∈ documentIds)
    (htenant : reference.tenantId = tenantId) :
    (selectDocuments first tenantId documentIds).reverse.find?
        (fun row => row.1.id == reference.documentId) =
      (first.documents.find (reference.tenantId, reference.documentId)).bind fun document =>
        (first.sources.find (reference.tenantId, document.sourceId)).map (document, ·) := by
  cases hfound : (selectDocuments first tenantId documentIds).reverse.find?
      (fun row => row.1.id == reference.documentId) with
  | some row =>
    have hrow := mem_selectDocuments.1 (List.mem_reverse.1 (List.mem_of_find?_eq_some hfound))
    have hequal := List.find?_some hfound
    have hsame : row.1.id = reference.documentId := beq_iff_eq.1 hequal
    obtain ⟨hmem, hown, -, hsource⟩ := hrow
    have hdocument : first.documents.find (reference.tenantId, reference.documentId) =
        some row.1 := by
      rw [Table.find_eq_some]
      exact ⟨hmem, Prod.ext (hown.trans htenant.symm) hsame⟩
    rw [hown, ← htenant] at hsource
    rw [hdocument, Option.bind_some, hsource]
    rfl
  | none =>
    symm
    rw [Option.eq_none_iff_forall_ne_some]
    intro row hrow
    obtain ⟨document, hdocument, hjoined⟩ := Option.bind_eq_some_iff.1 hrow
    obtain ⟨source, hsource, rfl⟩ := Option.map_eq_some_iff.1 hjoined
    obtain ⟨hmem, hpk⟩ := Table.find_eq_some.1 hdocument
    have hown : document.tenantId = reference.tenantId := congrArg Prod.fst hpk
    have hsame : document.id = reference.documentId := congrArg Prod.snd hpk
    have hin : (document, source) ∈ selectDocuments first tenantId documentIds := by
      refine mem_selectDocuments.2 ⟨hmem, hown.trans htenant, hsame ▸ hid, ?_⟩
      dsimp only
      rw [hown]
      exact hsource
    have hnone := List.find?_eq_none.1 hfound _ (List.mem_reverse.2 hin)
    exact hnone (beq_iff_eq.2 hsame)

theorem contains_selectVersions {versionIds : List String} {versionId : String}
    (hid : versionId ∈ versionIds) (htenant : reference.tenantId = tenantId) :
    (selectVersions second tenantId versionIds).contains (reference.documentId, versionId) =
      second.documentVersions.rows.any fun version =>
        version.pk = (reference.tenantId, versionId) && version.documentId == reference.documentId := by
  rw [Bool.eq_iff_iff, List.contains_iff_mem, List.any_eq_true]
  unfold selectVersions
  rw [List.mem_map]
  constructor
  · rintro ⟨version, hversion, hpair⟩
    obtain ⟨hmem, hwhere⟩ := List.mem_filter.1 hversion
    rw [Bool.and_eq_true, beq_iff_eq, List.contains_iff_mem] at hwhere
    have hdocument : version.documentId = reference.documentId := congrArg Prod.fst hpair
    have hversionId : version.id = versionId := congrArg Prod.snd hpair
    refine ⟨version, hmem, ?_⟩
    rw [Bool.and_eq_true, decide_eq_true_eq, beq_iff_eq]
    exact ⟨Prod.ext (hwhere.1.trans htenant.symm) hversionId, hdocument⟩
  · rintro ⟨version, hmem, hwhere⟩
    rw [Bool.and_eq_true, decide_eq_true_eq, beq_iff_eq] at hwhere
    have hown : version.tenantId = reference.tenantId := congrArg Prod.fst hwhere.1
    have hversionId : version.id = versionId := congrArg Prod.snd hwhere.1
    refine ⟨version, List.mem_filter.2 ⟨hmem, ?_⟩, Prod.ext hwhere.2 hversionId⟩
    rw [Bool.and_eq_true, beq_iff_eq, List.contains_iff_mem]
    exact ⟨hown.trans htenant, hversionId ▸ hid⟩

/-- The constructor takes what the tables hold. -/
theorem make_of_rows {document : Document} {source : Source} {deleted : Bool}
    (hsource : first.sources.find (reference.tenantId, document.sourceId) = some source) :
    ∃ policy, DocumentPolicy.make reference.tenantId document.sourceId reference.documentId
      reference.documentVersionId source.policy deleted = some policy := by
  obtain ⟨-, hpk⟩ := Table.find_eq_some.1 hsource
  have hid : source.id = document.sourceId := congrArg Prod.snd hpk
  have hreference := reference.valid
  have hidentifiers := source.identifiers_valid
  have hpolicy := source.policy_valid
  unfold DocumentRef.check at hreference
  unfold validPolicy at hpolicy
  simp only [Bool.and_eq_true, decide_eq_true_eq] at hreference hidentifiers hpolicy
  have hcheck : DocumentPolicy.check reference.tenantId document.sourceId reference.documentId
      reference.documentVersionId source.policy = true := by
    have hne : source.policy.isEmpty = false := by
      rw [List.isEmpty_eq_false_iff]
      exact hpolicy.1.1
    unfold DocumentPolicy.check
    rw [← hid, hreference.1.1, hreference.1.2, hreference.2, hidentifiers.1.1, hne, hpolicy.2]
    rfl
  unfold DocumentPolicy.make
  rw [dif_pos hcheck]
  exact ⟨_, rfl⟩

end Rows

/-! ## The batch -/

section Batch

variable {first second : Database} {tenantId : String} {references : List DocumentRef}
  {reference : DocumentRef}

/-- The loop, for references whose rows have been collected. -/
theorem resolvePolicies_pointwise {documentIds versionIds : List String}
    (hown : ∀ reference ∈ references, reference.tenantId = tenantId ∧
      reference.documentId ∈ documentIds ∧
        ∀ versionId ∈ reference.documentVersionId, versionId ∈ versionIds) :
    resolvePolicies tenantId (selectDocuments first tenantId documentIds)
        (selectVersions second tenantId versionIds) references =
      some (references.filterMap fun reference =>
        ((between first second).getDocumentPolicy reference).map (reference, ·)) := by
  induction references with
  | nil => rfl
  | cons reference references ih =>
    obtain ⟨htenant, hid, hversionIds⟩ := hown reference List.mem_cons_self
    have ih' := ih fun other hother => hown other (List.mem_cons_of_mem _ hother)
    subst htenant
    have hknown : (reference.documentVersionId.all fun versionId =>
        (selectVersions second reference.tenantId versionIds).contains
          (reference.documentId, versionId)) =
        reference.documentVersionId.all fun versionId =>
          second.documentVersions.rows.any fun version =>
            version.pk = (reference.tenantId, versionId) &&
              version.documentId == reference.documentId := by
      cases hversion : reference.documentVersionId with
      | none => rfl
      | some versionId => exact contains_selectVersions (hversionIds versionId hversion) rfl
    rw [resolvePolicies, find_selectDocuments hid rfl]
    have hread : (between first second).getDocumentPolicy reference =
        (first.documents.find (reference.tenantId, reference.documentId)).bind fun document =>
          (first.sources.find (reference.tenantId, document.sourceId)).bind fun source =>
            if (reference.documentVersionId.all fun versionId =>
                second.documentVersions.rows.any fun version =>
                  version.pk = (reference.tenantId, versionId) &&
                    version.documentId == reference.documentId) = true then
              DocumentPolicy.make reference.tenantId document.sourceId reference.documentId
                reference.documentVersionId source.policy document.deleted
            else none := rfl
    rw [List.filterMap_cons, hread]
    cases hdocument : first.documents.find (reference.tenantId, reference.documentId) with
    | none => exact ih'
    | some document =>
      simp only [Option.bind_some]
      cases hsource : first.sources.find (reference.tenantId, document.sourceId) with
      | none => exact ih'
      | some source =>
        simp only [Option.map_some, Option.bind_some, hknown]
        split
        · obtain ⟨policy, hpolicy⟩ :=
            @make_of_rows _ reference document source document.deleted hsource
          rw [hpolicy, ih']
          rfl
        · exact ih'

/-- **The batch agrees with the reads one by one**, of the rows that its statements see, and
raises for none. -/
theorem getDocumentPolicies_eq (first second : Database) (tenantId : String)
    (references : List DocumentRef) :
    getDocumentPolicies first second tenantId references =
      some ((Dict.firsts id (references.filter fun reference =>
        reference.tenantId == tenantId)).filterMap fun reference =>
          ((between first second).getDocumentPolicy reference).map (reference, ·)) := by
  unfold getDocumentPolicies
  set inScope := Dict.firsts id (references.filter fun reference => reference.tenantId == tenantId)
    with hscope
  dsimp only
  split
  · rename_i hempty
    rw [List.isEmpty_iff.1 hempty]
    rfl
  · have hversions : (if (Dict.firsts id (inScope.filterMap
        DocumentRef.documentVersionId)).isEmpty = true then []
          else selectVersions second tenantId
            (Dict.firsts id (inScope.filterMap DocumentRef.documentVersionId))) =
        selectVersions second tenantId
          (Dict.firsts id (inScope.filterMap DocumentRef.documentVersionId)) := by
      split
      · rename_i hnone
        rw [List.isEmpty_iff.1 hnone]
        unfold selectVersions
        simp
      · rfl
    rw [hversions]
    refine resolvePolicies_pointwise fun reference hreference => ⟨?_, ?_, fun versionId hversion => ?_⟩
    · have hmem := Dict.mem_firsts_id.1 hreference
      exact beq_iff_eq.1 (List.mem_filter.1 hmem).2
    · exact Dict.mem_firsts_id.2 (List.mem_map_of_mem hreference)
    · exact Dict.mem_firsts_id.2 (List.mem_filterMap.2 ⟨reference, hreference, hversion⟩)

end Batch

/-! ## The offline store -/

/-- The reference of a stored policy; its identifiers have been checked. -/
theorem make_of_policy (item : DocumentPolicy) :
    ∃ reference, DocumentRef.make item.tenantId item.documentId item.documentVersionId =
      some reference := by
  have hvalid := item.valid
  unfold DocumentPolicy.check at hvalid
  simp only [Bool.and_eq_true] at hvalid
  have hcheck : DocumentRef.check item.tenantId item.documentId item.documentVersionId = true := by
    unfold DocumentRef.check
    rw [hvalid.1.1.1.1.1, hvalid.1.1.1.2, hvalid.1.1.2]
    rfl
  unfold DocumentRef.make
  rw [dif_pos hcheck]
  exact ⟨_, rfl⟩

/-- The policy is stored under this reference. -/
def StoredUnder (reference : DocumentRef) (item : DocumentPolicy) : Bool :=
  item.tenantId == reference.tenantId && item.documentId == reference.documentId &&
    item.documentVersionId == reference.documentVersionId

theorem storedUnder_iff {reference own : DocumentRef} {item : DocumentPolicy}
    (h : DocumentRef.make item.tenantId item.documentId item.documentVersionId = some own) :
    StoredUnder reference item = true ↔ own = reference := by
  unfold DocumentRef.make at h
  split at h
  · cases h
    unfold StoredUnder
    simp only [Bool.and_eq_true, beq_iff_eq]
    constructor
    · rintro ⟨⟨htenant, hdocument⟩, hversion⟩
      obtain ⟨tenantId, documentId, documentVersionId, hvalid⟩ := reference
      simp only at htenant hdocument hversion
      subst htenant hdocument hversion
      rfl
    · rintro rfl
      exact ⟨⟨rfl, rfl⟩, rfl⟩
  · cases h

/-- The dictionary holds the last policy of each reference. -/
theorem snapshot_policies (items : List DocumentPolicy) :
    ∃ policies, SnapshotPolicyStore.policies items = some policies ∧
      ∀ reference, policies reference = items.reverse.find? (StoredUnder reference) := by
  have hmake : ∀ item : DocumentPolicy, ∃ own : DocumentRef, (DocumentRef.make item.tenantId
      item.documentId item.documentVersionId).map (·, item) = some (own, item) ∧
        ∀ reference, StoredUnder reference item = true ↔ own = reference := by
    intro item
    obtain ⟨own, hown⟩ := make_of_policy item
    exact ⟨own, by rw [hown]; rfl, fun reference => storedUnder_iff hown⟩
  choose ownOf hownOf hstored using hmake
  have hentries : (items.mapM fun item => (DocumentRef.make item.tenantId item.documentId
      item.documentVersionId).map (·, item)) = some (items.map fun item => (ownOf item, item)) := by
    induction items with
    | nil => rfl
    | cons item items ih =>
      rw [List.mapM_cons, hownOf, ih]
      rfl
  unfold SnapshotPolicyStore.policies
  rw [hentries]
  refine ⟨_, rfl, fun reference => ?_⟩
  dsimp only
  rw [← List.map_reverse]
  induction items.reverse with
  | nil => rfl
  | cons item rest ih =>
    rw [List.map_cons, List.lookup_cons, List.find?_cons]
    by_cases hown : ownOf item = reference
    · have hunder := (hstored item reference).2 hown
      rw [hunder, hown, beq_self_eq_true]
    · have hunder : StoredUnder reference item = false := by
        rw [← Bool.not_eq_true, hstored]
        exact hown
      have hne : (reference == ownOf item) = false := beq_false_of_ne (Ne.symm hown)
      rw [hunder, hne]
      exact ih

/-! ## The stores agree -/

/-- **Batched policy reads are exact.** For every tenant and references, and whatever is committed
between its two statements, `get_document_policies` of the repository raises nothing and answers
for exactly the references of the tenant, each once, what a read of that reference alone would
have found in the rows it saw; the offline store answers for them the last policy that it holds
under the reference. -/
theorem policy_reads_exact (first second : Database) (items : List DocumentPolicy)
    (tenantId : String) (references : List DocumentRef) :
    (∃ resolved, getDocumentPolicies first second tenantId references = some resolved ∧
      (resolved.map Prod.fst).Nodup ∧
      ∀ reference, resolved.lookup reference =
        if reference ∈ references ∧ reference.tenantId = tenantId then
          (between first second).getDocumentPolicy reference
        else none) ∧
    ∃ policies, SnapshotPolicyStore.policies items = some policies ∧
      ∀ reference,
        (SnapshotPolicyStore.getDocumentPolicies policies tenantId references).lookup reference =
          if reference ∈ references ∧ reference.tenantId = tenantId then
            items.reverse.find? (StoredUnder reference)
          else none := by
  have hin : ∀ reference, reference ∈ references.filter (fun reference =>
      reference.tenantId == tenantId) ↔ reference ∈ references ∧ reference.tenantId = tenantId := by
    intro reference
    rw [List.mem_filter, beq_iff_eq]
  refine ⟨⟨_, getDocumentPolicies_eq first second tenantId references, ?_, fun reference => ?_⟩, ?_⟩
  · rw [Lists.map_fst_filterMap]
    exact Dict.nodup_firsts_id.filter _
  · rw [Lists.lookup_filterMap]
    simp only [Dict.mem_firsts_id, hin]
  · obtain ⟨policies, hpolicies, hlast⟩ := snapshot_policies items
    refine ⟨policies, hpolicies, fun reference => ?_⟩
    unfold SnapshotPolicyStore.getDocumentPolicies
    rw [Lists.lookup_filterMap]
    simp only [hin, hlast]

end GroundedOps.Ingestion
