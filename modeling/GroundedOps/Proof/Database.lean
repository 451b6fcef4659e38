import GroundedOps.Spec.Database

/-!
# Facts about the ingestion tables

What an update of one job does to a search, and what `update_artifacts` leaves alone: two
tables of versions are the same up to references (`SameVersions`) when their rows agree
in every other column, and `promote` tells no two such tables apart.
-/

namespace GroundedOps.Ingestion

/-! ## Jobs -/

section Jobs

variable {jobs jobs' : IngestionJobs} {row : JobRow} {a b : IngestionJob} {tenantId jobId : String}
  {k : String × String} {f : JobRow → JobRow} {hp : ∀ row, (f row).pk = row.pk}
  {hu : ∀ row, (f row).unique = row.unique}

theorem find_update_self : (jobs.update tenantId jobId f hp hu).find (tenantId, jobId) =
    (jobs.find (tenantId, jobId)).map f := by
  unfold IngestionJobs.update
  rw [Table.find_modify]
  cases h : jobs.find (tenantId, jobId) with
  | none => rfl
  | some row => rw [Option.map_some, if_pos (Table.find_eq_some.1 h).2]; rfl

theorem find_update_of_ne (hk : k ≠ (tenantId, jobId)) :
    (jobs.update tenantId jobId f hp hu).find k = jobs.find k := by
  unfold IngestionJobs.update
  rw [Table.find_modify]
  cases h : jobs.find k with
  | none => rfl
  | some row => rw [Option.map_some, if_neg ((Table.find_eq_some.1 h).2 ▸ hk)]

theorem mem_update_cases {row' : JobRow} (h : row' ∈ jobs.update tenantId jobId f hp hu) :
    row' ∈ jobs ∧ row'.pk ≠ (tenantId, jobId) ∨
      ∃ row ∈ jobs, row.pk = (tenantId, jobId) ∧ row' = f row := by
  obtain ⟨row, hrow, rfl⟩ := Table.mem_modify.1 h
  by_cases hk : row.pk = (tenantId, jobId)
  · rw [if_pos hk]; exact Or.inr ⟨row, hrow, hk, rfl⟩
  · rw [if_neg hk]; exact Or.inl ⟨hrow, hk⟩

theorem mem_update_self (h : row ∈ jobs) (hk : row.pk = (tenantId, jobId)) :
    f row ∈ jobs.update tenantId jobId f hp hu :=
  Table.mem_modify.2 ⟨row, h, if_pos hk⟩

theorem mem_update_of_ne (h : row ∈ jobs) (hk : row.pk ≠ (tenantId, jobId)) :
    row ∈ jobs.update tenantId jobId f hp hu :=
  Table.mem_modify.2 ⟨row, h, if_neg hk⟩

theorem find_setJob_self : (jobs.setJob a).find (a.tenantId, a.id) =
    (jobs.find (a.tenantId, a.id)).map fun row => { row with job := row.job.withColumns a } :=
  find_update_self

theorem setJob_setJob (ht : a.tenantId = b.tenantId) (hi : a.id = b.id) :
    (jobs.setJob a).setJob b = jobs.setJob b := by
  unfold IngestionJobs.setJob IngestionJobs.update
  rw [Table.modify_modify]
  refine Table.ext_rows (List.map_congr_left fun row _ => ?_)
  simp only [Function.comp_apply, ht, hi]
  split
  · rename_i h
    exact if_pos h
  · rfl

theorem setJob_self (h : jobs.find (a.tenantId, a.id) = some row) (hrow : row.job = a) :
    jobs.setJob a = jobs := by
  unfold IngestionJobs.setJob IngestionJobs.update
  rw [Table.modify_eq_self]
  intro row' hrow'
  split
  · rename_i hk
    obtain ⟨hmem, hk'⟩ := Table.find_eq_some.1 h
    obtain rfl : row' = row := Table.eq_of_pk hrow' hmem (hk.trans hk'.symm)
    subst hrow
    rfl
  · rfl

theorem find_setJob_of_ne (hk : k ≠ (a.tenantId, a.id)) : (jobs.setJob a).find k = jobs.find k :=
  find_update_of_ne hk

theorem find_countDelivery_self : (jobs.countDelivery tenantId jobId).find (tenantId, jobId) =
    (jobs.find (tenantId, jobId)).map JobRow.counted :=
  find_update_self

/-- A delivery that is counted is so in the row of its job. -/
theorem find_counted {row : JobRow} (h : jobs.find (tenantId, jobId) = some row) :
    (jobs.countDelivery tenantId jobId).find (tenantId, jobId) = some row.counted := by
  rw [find_countDelivery_self, h]
  rfl

theorem find_countDelivery_of_ne (hk : k ≠ (tenantId, jobId)) :
    (jobs.countDelivery tenantId jobId).find k = jobs.find k :=
  find_update_of_ne hk

theorem find_failLostDelivery_self :
    (jobs.failLostDelivery tenantId jobId).find (tenantId, jobId) =
      (jobs.find (tenantId, jobId)).map JobRow.failLost :=
  find_update_self

theorem find_failLostDelivery_of_ne (hk : k ≠ (tenantId, jobId)) :
    (jobs.failLostDelivery tenantId jobId).find k = jobs.find k :=
  find_update_of_ne hk

theorem find_recordWorkerError_self {maxAttempts : ℕ} :
    (jobs.recordWorkerError tenantId jobId maxAttempts).find (tenantId, jobId) =
      (jobs.find (tenantId, jobId)).map fun row => row.workerError maxAttempts :=
  find_update_self

theorem find_recordWorkerError_of_ne {maxAttempts : ℕ} (hk : k ≠ (tenantId, jobId)) :
    (jobs.recordWorkerError tenantId jobId maxAttempts).find k = jobs.find k :=
  find_update_of_ne hk

/-- A claim finds its job, not terminal, and counts one more delivery. -/
theorem claimDelivery_eq {deliveries : ℕ}
    (h : jobs.claimDelivery tenantId jobId = some (deliveries, jobs')) :
    ∃ row, jobs.find (tenantId, jobId) = some row ∧ row.job.state.terminal = false ∧
      deliveries = row.deliveryAttempts + 1 ∧ jobs' = jobs.countDelivery tenantId jobId := by
  unfold IngestionJobs.claimDelivery at h
  split at h
  · cases h
  · rename_i row hrow
    split at h
    · cases h
    · rename_i hopen
      cases h
      exact ⟨row, hrow, Bool.eq_false_iff.2 hopen, rfl, rfl⟩

theorem saveJob_eq (h : jobs.saveJob a = some jobs') : jobs' = jobs.setJob a := by
  unfold IngestionJobs.saveJob at h
  split at h
  · cases h
  · cases h; rfl

end Jobs

/-! ## Versions up to their references -/

/-- A version without what `update_artifacts` sets. -/
def DocumentVersion.bare (version : DocumentVersion) : DocumentVersion :=
  { version with rawRef := none, normalizedRef := none }

/-- Two tables of versions are the same, up to references. -/
def SameVersions (a b : DocumentVersions) : Prop :=
  b.rows.map DocumentVersion.bare = a.rows.map DocumentVersion.bare

section Versions

variable {a b d : DocumentVersions} {v v' : DocumentVersion} {k : String × String}

theorem bare_eq (h : v.bare = v'.bare) : v.pk = v'.pk ∧ v.unique = v'.unique ∧
    v.contentHash = v'.contentHash ∧ v.revision = v'.revision := by
  unfold DocumentVersion.bare at h
  injection h with hi ht hd hs hc hts hp
  simp only [DocumentVersion.pk, DocumentVersion.unique, DocumentVersion.revision, hi, ht, hd, hs,
    hc, hts, and_self]

/-- What equal versions agree on, up to references. -/
theorem version_of_bare {v v' : DocumentVersion} (h : v'.bare = v.bare) :
    (v'.tenantId, v'.documentId) = (v.tenantId, v.documentId) ∧ v'.id = v.id ∧
      v'.sourceVersion = v.sourceVersion ∧ v'.sourceTimestamp = v.sourceTimestamp ∧
      v'.contentHash = v.contentHash := by
  obtain ⟨hpk, hun, hhash, hrev⟩ := bare_eq h
  have ht : v'.tenantId = v.tenantId := congrArg Prod.fst hpk
  have hd : v'.documentId = v.documentId := congrArg (fun u => u.2.1) hun
  exact ⟨by rw [ht, hd], congrArg Prod.snd hpk, congrArg Prod.snd hrev, congrArg Prod.fst hrev, hhash⟩

theorem SameVersions.refl (a : DocumentVersions) : SameVersions a a := rfl

theorem SameVersions.symm (h : SameVersions a b) : SameVersions b a := Eq.symm h

theorem SameVersions.trans (h : SameVersions a b) (h' : SameVersions b d) : SameVersions a d :=
  Eq.trans h' h

theorem SameVersions.mem (h : SameVersions a b) (hv : v ∈ b) : ∃ v' ∈ a, v'.bare = v.bare := by
  have hmem : v.bare ∈ a.rows.map DocumentVersion.bare := h ▸ List.mem_map_of_mem hv
  obtain ⟨v', hv', heq⟩ := List.mem_map.1 hmem
  exact ⟨v', hv', heq⟩

theorem find_bare (a : DocumentVersions) (k : String × String) :
    (a.rows.map DocumentVersion.bare).find? (fun v => v.pk = k) =
      (a.find k).map DocumentVersion.bare := by
  rw [List.find?_map]; rfl

theorem SameVersions.find (h : SameVersions a b) :
    (b.find k).map DocumentVersion.bare = (a.find k).map DocumentVersion.bare := by
  rw [← find_bare, ← find_bare, h]

theorem updateArtifacts_same {tenantId versionId rawRef normalizedRef : String}
    (h : a.updateArtifacts tenantId versionId rawRef normalizedRef = some b) :
    SameVersions a b := by
  unfold DocumentVersions.updateArtifacts at h
  split at h
  · cases h
  · split at h
    · cases h
      refine (List.map_map ..).trans (List.map_congr_left fun row _ => ?_)
      simp only [Function.comp_apply]
      split <;> rfl
    · cases h

variable {P : Platform} {document : Document} {documents : Documents}

theorem promotable_congr (h : SameVersions a b) (hv : v.bare = v'.bare) :
    document.promotable P a v = document.promotable P b v' := by
  obtain ⟨hpk, -, -, hrev⟩ := bare_eq hv
  have ht : v.tenantId = v'.tenantId := congrArg Prod.fst hpk
  unfold Document.promotable
  rw [← ht, ← hrev]
  cases document.currentVersionId with
  | none => rfl
  | some current =>
    have hfind := h.find (k := (v.tenantId, current))
    dsimp only
    cases ha : a.find (v.tenantId, current) with
    | none =>
      rw [ha, Option.map_none, Option.map_eq_none_iff] at hfind
      rw [hfind]
    | some x =>
      rw [ha, Option.map_some] at hfind
      obtain ⟨y, hy, hyx⟩ := Option.map_eq_some_iff.1 hfind
      rw [hy]
      simp only [(bare_eq hyx).2.2.2]

theorem setCurrent_congr (h : SameVersions a b) (hv : v.bare = v'.bare) :
    documents.setCurrent P a v = documents.setCurrent P b v' := by
  obtain ⟨hpk, hun, -, -⟩ := bare_eq hv
  have ht : v.tenantId = v'.tenantId := congrArg Prod.fst hpk
  have hi : v.id = v'.id := congrArg Prod.snd hpk
  have hd : v.documentId = v'.documentId := congrArg (fun u => u.2.1) hun
  refine Table.ext_rows (List.map_congr_left fun row _ => ?_)
  simp only [ht, hi, hd, promotable_congr h hv]

end Versions

/-! ## Documents -/

/-- The database with the version promoted. -/
def Database.promoted (P : Platform) (db : Database) (version : DocumentVersion) : Database :=
  { db with documents := db.documents.setCurrent P db.documentVersions version }

/-- What `promote` makes of a document. -/
def Document.promotedTo (P : Platform) (versions : DocumentVersions) (version : DocumentVersion)
    (row : Document) : Document :=
  if row.pk = (version.tenantId, version.documentId) ∧ row.promotable P versions version then
    { row with currentVersionId := some version.id }
  else row

/-- What `delete` makes of a document. -/
def Document.deletedBy (tenantId documentId : String) (row : Document) : Document :=
  if row.pk = (tenantId, documentId) then { row with currentVersionId := none, deleted := true }
  else row

section Documents

variable {P : Platform} {db : Database} {version : DocumentVersion} {row row' : Document}
  {tenantId documentId : String}

theorem mem_promoted : row' ∈ (db.promoted P version).documents ↔
    ∃ row ∈ db.documents, row.promotedTo P db.documentVersions version = row' :=
  List.mem_map

theorem mem_deleted : row' ∈ (db.delete tenantId documentId).documents ↔
    ∃ row ∈ db.documents, row.deletedBy tenantId documentId = row' :=
  List.mem_map

theorem promotedTo_of_ne {versions : DocumentVersions}
    (h : row.pk ≠ (version.tenantId, version.documentId)) :
    row.promotedTo P versions version = row := by
  unfold Document.promotedTo
  rw [if_neg fun hand => h hand.1]

theorem deletedBy_of_ne (h : row.pk ≠ (tenantId, documentId)) :
    row.deletedBy tenantId documentId = row := by
  unfold Document.deletedBy
  rw [if_neg h]

end Documents

end GroundedOps.Ingestion
