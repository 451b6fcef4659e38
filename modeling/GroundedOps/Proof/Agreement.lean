import GroundedOps.Proof.Effects
import GroundedOps.Proof.IndexWriter

/-!
# The index agrees with the database

* `Agrees`: the chunks flagged current in the index are those of the current versions.
* `Traced`: every index entry is a chunk of a stored version, and a current version has a
  completed job.
* `InOrder`: the condition on a delivery that reaches its flag updates. Its version gets
  promoted, and nothing fails until it has been.
* `index_agrees`: a run all of whose events are in order keeps the two in agreement.
-/

namespace GroundedOps.Ingestion

/-! ## Chunks of versions -/

/-- The ids of the chunks of a version. -/
def Components.versionIds (c : Components) (version : DocumentVersion) : Set String :=
  {id | ∃ content, c.platform.sha256 content = version.contentHash ∧
    id ∈ c.chunkIds version.id content}

/-- The chunks of a document that the index flags as current. -/
def Index.currentIds (index : Index) (document : Document) : Set String :=
  {id | ∃ entry ∈ index, (entry.tenantId, entry.documentId) = document.pk ∧
    entry.isCurrent = true ∧ entry.chunkId = id}

/-- The version in `documents.current_version_id`. -/
def Database.currentVersion (db : Database) (document : Document) : Option DocumentVersion :=
  document.currentVersionId.bind fun versionId =>
    db.documentVersions.find (document.tenantId, versionId)

/-- The chunks of the current version of a document. -/
def Components.currentIds (c : Components) (db : Database) (document : Document) : Set String :=
  {id | ∃ version, db.currentVersion document = some version ∧ id ∈ c.versionIds version}

/-- The chunks flagged current in the index are those of the current versions. -/
def Agrees (c : Components) (w : World) : Prop :=
  ∀ document ∈ w.database.documents,
    w.index.currentIds document = c.currentIds w.database document

/-- A delivery that gets past its bulk request is of a version that `promote` makes current, and
nothing fails from its first update of the flags on. -/
def InOrder (c : Components) (w : World) (event : WorkerEvent) : Prop :=
  ∀ row version document content,
    Reached c { w with now := event.now } event row version document content →
    Clear event.faults projectOperations →
    document.promotable c.platform w.database.documentVersions version = true ∧
      ¬FlagsFail event.faults

section Chunks

variable {c : Components} {db : Database} {uuids : ℕ} {version version' : DocumentVersion}
  {id : String}

theorem versionIds_congr (h : version.bare = version'.bare) :
    c.versionIds version = c.versionIds version' := by
  obtain ⟨hpk, -, hhash, -⟩ := bare_eq h
  have hid : version.id = version'.id := congrArg Prod.snd hpk
  unfold Components.versionIds
  rw [hid, hhash]

theorem mem_chunkIds {versionId : String} {content : ByteArray}
    (h : id ∈ c.chunkIds versionId content) : ∃ part, id = c.platform.keyOf versionId part := by
  unfold Components.chunkIds at h
  split at h
  · cases h
  · obtain ⟨chunk, -, rfl⟩ := List.mem_map.1 h
    exact ⟨_, rfl⟩

theorem Consistent.versionId_no_colon {P : Platform} (hP : P.CollisionFree)
    (hc : Consistent P db uuids) (hv : version ∈ db.documentVersions) :
    ':' ∉ version.id.toList := by
  obtain ⟨i, -, hid⟩ := hc.version_drawn version hv
  exact hid ▸ hP.uuid4_hex i

/-- **A chunk belongs to one version.** -/
theorem version_of_chunk (hP : c.platform.CollisionFree) (hc : Consistent c.platform db uuids)
    (hv : version ∈ db.documentVersions) (hv' : version' ∈ db.documentVersions)
    (h : id ∈ c.versionIds version) (h' : id ∈ c.versionIds version') : version = version' := by
  obtain ⟨_, -, hmem⟩ := h
  obtain ⟨_, -, hmem'⟩ := h'
  obtain ⟨part, hpart⟩ := mem_chunkIds hmem
  obtain ⟨part', hpart'⟩ := mem_chunkIds hmem'
  have hid := keyOf_inj hP (hc.versionId_no_colon hP hv) (hc.versionId_no_colon hP hv')
    (hpart.symm.trans hpart')
  exact hc.version_inj version hv version' hv' hid.1

/-- The chunks of a version are those of its content. -/
theorem mem_versionIds (hP : c.platform.CollisionFree) {content : ByteArray}
    (hdigest : c.platform.sha256 content = version.contentHash) :
    id ∈ c.versionIds version ↔ id ∈ c.chunkIds version.id content := by
  constructor
  · rintro ⟨content', hdigest', hmem⟩
    rwa [hP.sha256 (hdigest'.trans hdigest.symm)] at hmem
  · exact fun hmem => ⟨content, hdigest, hmem⟩

end Chunks

/-! ## The invariant -/

/-- The entry is a chunk of a stored version. -/
def TracedTo (c : Components) (versions : DocumentVersions) (entry : IndexEntry) : Prop :=
  ∃ version ∈ versions,
    (entry.tenantId, entry.documentId) = (version.tenantId, version.documentId) ∧
      entry.documentVersionId = version.id ∧ entry.chunkId ∈ c.versionIds version

/-- Every entry is a chunk of a stored version, and current versions have completed jobs. -/
structure Traced (c : Components) (w : World) : Prop where
  consistent : Consistent c.platform w.database w.uuids
  entries : ∀ entry ∈ w.index, TracedTo c w.database.documentVersions entry
  current : ∀ document ∈ w.database.documents, ∀ versionId,
    document.currentVersionId = some versionId → ∃ version ∈ w.database.documentVersions,
      version.pk = (document.tenantId, versionId) ∧
        w.database.ingestionJobs.completed version.pk

section Traced

variable {c : Components} {w w' : World} {version : DocumentVersion} {document : Document}
  {id : String}

/-- What `Agrees` says of a document with a current version. -/
theorem Traced.currentVersion (h : Traced c w) (hd : document ∈ w.database.documents)
    (hversion : w.database.currentVersion document = some version) :
    version ∈ w.database.documentVersions ∧ w.database.ingestionJobs.completed version.pk := by
  unfold Database.currentVersion at hversion
  obtain ⟨versionId, hcurrent, hfind⟩ := Option.bind_eq_some_iff.1 hversion
  obtain ⟨hmem, hpk⟩ := Table.find_eq_some.1 hfind
  obtain ⟨v, hv, hvpk, hcompleted⟩ := h.current document hd versionId hcurrent
  obtain rfl : v = version := Table.eq_of_pk hv hmem (hvpk.trans hpk.symm)
  exact ⟨hmem, hcompleted⟩

/-- The version that an entry is a chunk of, if it carries a chunk of `version`. -/
theorem Traced.version_of_entry (hP : c.platform.CollisionFree) (h : Traced c w) {entry : IndexEntry}
    (he : entry ∈ w.index) (hv : version ∈ w.database.documentVersions)
    (hid : entry.chunkId ∈ c.versionIds version) :
    (entry.tenantId, entry.documentId) = (version.tenantId, version.documentId) ∧
      entry.documentVersionId = version.id := by
  obtain ⟨v, hvm, hdoc, hver, hmem⟩ := h.entries entry he
  obtain rfl := version_of_chunk hP h.consistent hvm hv hmem hid
  exact ⟨hdoc, hver⟩

theorem TracedTo.same {versions versions' : DocumentVersions} {entry : IndexEntry}
    (h : TracedTo c versions entry) (hs : SameVersions versions versions') :
    TracedTo c versions' entry := by
  obtain ⟨v, hv, hdoc, hver, hid⟩ := h
  obtain ⟨v', hv', hbare⟩ := hs.symm.mem hv
  obtain ⟨hpk, hun, -, -⟩ := bare_eq hbare
  have ht : v'.tenantId = v.tenantId := congrArg Prod.fst hpk
  have hd : v'.documentId = v.documentId := congrArg (fun u => u.2.1) hun
  have hi : v'.id = v.id := congrArg Prod.snd hpk
  exact ⟨v', hv', by rw [hdoc, ht, hd], hver.trans hi.symm, versionIds_congr hbare ▸ hid⟩

theorem TracedTo.mono {versions versions' : DocumentVersions} {entry : IndexEntry}
    (h : TracedTo c versions entry) (hsub : ∀ v ∈ versions, v ∈ versions') :
    TracedTo c versions' entry := by
  obtain ⟨v, hv, hrest⟩ := h
  exact ⟨v, hsub v hv, hrest⟩

theorem currentIds_congr {db db' : Database}
    (h : SameVersions db.documentVersions db'.documentVersions) :
    c.currentIds db' document = c.currentIds db document := by
  have hmap : (db'.currentVersion document).map DocumentVersion.bare =
      (db.currentVersion document).map DocumentVersion.bare := by
    unfold Database.currentVersion
    cases document.currentVersionId with
    | none => rfl
    | some versionId => exact h.find
  have hone : ∀ {a b : Option DocumentVersion},
      b.map DocumentVersion.bare = a.map DocumentVersion.bare →
      ∀ id, (∃ v, a = some v ∧ id ∈ c.versionIds v) → ∃ v, b = some v ∧ id ∈ c.versionIds v := by
    rintro a b hab id ⟨v, rfl, hid⟩
    obtain ⟨v', rfl, hbare⟩ := Option.map_eq_some_iff.1 (hab.trans rfl)
    exact ⟨v', rfl, versionIds_congr hbare ▸ hid⟩
  exact Set.ext fun id => ⟨hone hmap.symm id, hone hmap id⟩

/-! ## The index requests -/

section Requests

variable {π : VersionProjection} {content : ByteArray} {rejected : String → Bool} {index : Index}
  {entry : IndexEntry}

/-- What a bulk request writes carries the chunks of the version. -/
theorem Projects.traced (hπ : Projects c version content π)
    (hdigest : c.platform.sha256 content = version.contentHash) {chunk : IndexChunk}
    (hchunk : chunk ∈ π.chunks) :
    ((π.entry chunk).tenantId, (π.entry chunk).documentId) = (version.tenantId, version.documentId) ∧
      (π.entry chunk).documentVersionId = version.id ∧
      (π.entry chunk).chunkId ∈ c.versionIds version := by
  refine ⟨Prod.ext hπ.tenantId hπ.documentId, hπ.documentVersionId, content, hdigest, ?_⟩
  rw [← hπ.chunkIds]
  exact List.mem_map_of_mem hchunk

theorem chunkId_of_accepted (hπ : Projects c version content π)
    (hdigest : c.platform.sha256 content = version.contentHash) {id : String}
    (h : id ∈ (Index.accepted π rejected).map IndexEntry.chunkId) : id ∈ c.versionIds version := by
  obtain ⟨new, hnew, rfl⟩ := List.mem_map.1 h
  obtain ⟨chunk, hchunk, rfl⟩ := Index.exists_of_accepted hnew
  exact (hπ.traced hdigest hchunk).2.2

theorem traced_bulk (h : Traced c w) (hv : version ∈ w.database.documentVersions)
    (hπ : Projects c version content π)
    (hdigest : c.platform.sha256 content = version.contentHash)
    (he : entry ∈ w.index.bulk π rejected) : TracedTo c w.database.documentVersions entry := by
  rcases Table.mem_of_mem_foldl_put he with hnew | ⟨hold, -⟩
  · obtain ⟨chunk, hchunk, rfl⟩ := Index.exists_of_accepted hnew
    exact ⟨version, hv, hπ.traced hdigest hchunk⟩
  · exact h.entries entry hold

/-- **A bulk request of a version that is not current moves no flag.** -/
theorem currentIds_bulk (hπ : Projects c version content π)
    (hdigest : c.platform.sha256 content = version.contentHash)
    (hkeep : ∀ entry ∈ w.index, (entry.tenantId, entry.documentId) = document.pk →
      entry.isCurrent = true → entry.chunkId ∉ c.versionIds version) :
    (w.index.bulk π rejected).currentIds document = w.index.currentIds document := by
  ext id
  constructor
  · rintro ⟨e, he, hdoc, hcur, hid⟩
    rcases Table.mem_of_mem_foldl_put he with hnew | ⟨hold, -⟩
    · -- what is written is not current
      obtain ⟨chunk, -, rfl⟩ := Index.exists_of_accepted hnew
      cases hcur
    · exact ⟨e, hold, hdoc, hcur, hid⟩
  · rintro ⟨e, he, hdoc, hcur, hid⟩
    refine ⟨e, Table.mem_foldl_put_of_mem he fun hmem => ?_, hdoc, hcur, hid⟩
    exact hkeep e he hdoc hcur (chunkId_of_accepted hπ hdigest hmem)

/-- An entry after the two updates of `upsert`. -/
def VersionProjection.reflag (π : VersionProjection) (entry : IndexEntry) : IndexEntry :=
  if Index.ofDocument π entry = true then
    { entry with isCurrent := entry.documentVersionId == π.documentVersionId }
  else entry

theorem mem_upserted : entry ∈ index.upserted π rejected ↔
    ∃ old ∈ index.bulk π rejected, π.reflag old = entry := by
  unfold Index.upserted Index.setCurrent Index.clearOthers Index.flag
  rw [Table.modify_modify, Table.mem_modify]
  refine exists_congr fun old => and_congr_right fun _ => ?_
  have hsame : ∀ flag : Bool, Index.ofDocument π { old with isCurrent := flag } =
      Index.ofDocument π old := fun _ => rfl
  unfold VersionProjection.reflag Function.comp
  by_cases hdoc : Index.ofDocument π old = true
  · by_cases hver : old.documentVersionId = π.documentVersionId
    · simp [hdoc, hver]
    · have hbeq : (old.documentVersionId == π.documentVersionId) = false := beq_false_of_ne hver
      simp [hdoc, hver, hsame, hbeq]
  · simp [hdoc]

theorem reflag_same (π : VersionProjection) (entry : IndexEntry) :
    Index.SameEntry entry (π.reflag entry) := by
  unfold VersionProjection.reflag
  split
  · exact ⟨rfl, rfl, rfl, rfl⟩
  · exact ⟨rfl, rfl, rfl, rfl⟩

theorem traced_upserted (h : Traced c w) (hv : version ∈ w.database.documentVersions)
    (hπ : Projects c version content π)
    (hdigest : c.platform.sha256 content = version.contentHash)
    (he : entry ∈ w.index.upserted π rejected) :
    TracedTo c w.database.documentVersions entry := by
  obtain ⟨old, hold, rfl⟩ := mem_upserted.1 he
  obtain ⟨v, hvm, hdoc, hver, hid⟩ := traced_bulk h hv hπ hdigest hold
  have hsame := reflag_same π old
  exact ⟨v, hvm, by rw [hsame.tenantId, hsame.documentId, hdoc], by rw [hsame.documentVersionId, hver],
    hsame.chunkId ▸ hid⟩

/-- The documents of other versions keep their flags. -/
theorem currentIds_upserted_of_ne (hP : c.platform.CollisionFree) (h : Traced c w)
    (hv : version ∈ w.database.documentVersions) (hπ : Projects c version content π)
    (hdigest : c.platform.sha256 content = version.contentHash)
    (hne : document.pk ≠ (version.tenantId, version.documentId)) :
    (w.index.upserted π rejected).currentIds document = w.index.currentIds document := by
  have hbulk : (w.index.bulk π rejected).currentIds document = w.index.currentIds document := by
    refine currentIds_bulk hπ hdigest fun e he hdoc _ hid => hne ?_
    rw [← hdoc]
    exact (h.version_of_entry hP he hv hid).1
  rw [← hbulk]
  have hout : ∀ old : IndexEntry, (old.tenantId, old.documentId) = document.pk →
      π.reflag old = old := by
    intro old hdoc
    refine if_neg fun hof => hne ?_
    rw [Index.ofDocument_iff, hπ.tenantId, hπ.documentId] at hof
    rw [← hdoc, hof.1, hof.2]
  ext id
  constructor
  · rintro ⟨e, he, hdoc, hcur, hid⟩
    obtain ⟨old, hold, rfl⟩ := mem_upserted.1 he
    have hsame := reflag_same π old
    rw [hsame.tenantId, hsame.documentId] at hdoc
    rw [hout old hdoc] at hcur hid
    exact ⟨old, hold, hdoc, hcur, hid⟩
  · rintro ⟨e, he, hdoc, hcur, hid⟩
    exact ⟨e, mem_upserted.2 ⟨e, he, hout e hdoc⟩, hdoc, hcur, hid⟩

/-- **An upsert that rejects nothing makes the chunks of its version the current ones.** -/
theorem currentIds_upserted (hP : c.platform.CollisionFree) (h : Traced c w)
    (hv : version ∈ w.database.documentVersions) (hπ : Projects c version content π)
    (hdigest : c.platform.sha256 content = version.contentHash)
    (hall : ∀ id, rejected id = false)
    (hdoc : document.pk = (version.tenantId, version.documentId)) :
    (w.index.upserted π rejected).currentIds document = c.versionIds version := by
  have hof : ∀ old : IndexEntry, (old.tenantId, old.documentId) = document.pk →
      Index.ofDocument π old = true := by
    intro old hold
    rw [Index.ofDocument_iff, hπ.tenantId, hπ.documentId]
    rw [hdoc] at hold
    exact ⟨congrArg Prod.fst hold, congrArg Prod.snd hold⟩
  ext id
  constructor
  · rintro ⟨e, he, hedoc, hcur, rfl⟩
    obtain ⟨old, hold, rfl⟩ := mem_upserted.1 he
    have hsame := reflag_same π old
    rw [hsame.tenantId, hsame.documentId] at hedoc
    unfold VersionProjection.reflag at hcur
    rw [if_pos (hof old hedoc)] at hcur
    -- a current entry carries the version's id, and the entry of a version is its chunk
    have hver : old.documentVersionId = version.id := by
      rw [← hπ.documentVersionId]
      exact beq_iff_eq.1 hcur
    obtain ⟨v, hvm, -, hv', hid⟩ := traced_bulk h hv hπ hdigest hold
    obtain rfl := h.consistent.version_inj v hvm version hv (hv'.symm.trans hver)
    rw [hsame.chunkId]
    exact hid
  · intro hid
    have hmem : id ∈ (Index.accepted π rejected).map IndexEntry.chunkId := by
      rw [mem_versionIds hP hdigest, ← hπ.chunkIds] at hid
      obtain ⟨chunk, hchunk, rfl⟩ := List.mem_map.1 hid
      refine List.mem_map.2 ⟨π.entry chunk, List.mem_map_of_mem ?_, rfl⟩
      exact List.mem_filter.2 ⟨hchunk, by simp [hall]⟩
    obtain ⟨old, hold, hnew, rfl⟩ := @Table.exists_mem_foldl_put _ _ _ _ w.index _ _ hmem
    obtain ⟨chunk, hchunk, rfl⟩ := Index.exists_of_accepted hnew
    have htrace := hπ.traced hdigest hchunk
    refine ⟨_, mem_upserted.2 ⟨_, hold, rfl⟩, ?_, ?_, (reflag_same _ _).chunkId⟩
    · rw [(reflag_same _ _).tenantId, (reflag_same _ _).documentId, hdoc]
      exact htrace.1
    · unfold VersionProjection.reflag
      rw [if_pos (hof _ (htrace.1.trans hdoc.symm))]
      exact beq_iff_eq.2 rfl

end Requests

end Traced

/-! ## Steps -/

section Steps

variable {c : Components} {event : WorkerEvent} {w w' : World}

theorem Consistent.document_id_drawn {P : Platform} {db : Database} {uuids : ℕ} (hP : P.CollisionFree)
    (hc : Consistent P db uuids) {d : Document} (hd : d ∈ db.documents) : d.id ≠ P.uuid4 uuids := by
  obtain ⟨i, hi, hid⟩ := hc.document_drawn d hd
  intro heq
  have := hP.uuid4 (hid.symm.trans heq)
  omega

/-- A world in which nothing was inserted, promoted or completed. -/
theorem Traced.unfinished (h : Traced c w) (hrows : Unfinished w.database w'.database)
    (hc : Consistent c.platform w'.database w'.uuids)
    (hentries : ∀ e ∈ w'.index, TracedTo c w.database.documentVersions e) : Traced c w' := by
  refine ⟨hc, fun e he => (hentries e he).same hrows.versions, fun d hd versionId hcurrent => ?_⟩
  rw [hrows.documents] at hd
  obtain ⟨v, hv, hpk, hcompleted⟩ := h.current d hd versionId hcurrent
  obtain ⟨v', hv', hbare⟩ := hrows.versions.symm.mem hv
  have hpk' := (bare_eq hbare).1
  exact ⟨v', hv', hpk'.trans hpk, hrows.completed.2 (hpk' ▸ hcompleted)⟩

theorem Agrees.unfinished (h : Agrees c w) (hrows : Unfinished w.database w'.database)
    (hindex : ∀ d ∈ w.database.documents, w'.index.currentIds d = w.index.currentIds d) :
    Agrees c w' := by
  intro d hd
  rw [hrows.documents] at hd
  rw [hindex d hd, h d hd, currentIds_congr hrows.versions]

/-- The version of a pending job is current of no document. -/
theorem Reached.not_current (hP : c.platform.CollisionFree) (h : Traced c w) (ha : Agrees c w)
    {row : JobRow} {version : DocumentVersion} {document : Document} {content : ByteArray}
    (hr : Reached c w event row version document content) {d : Document}
    (hd : d ∈ w.database.documents) {entry : IndexEntry} (he : entry ∈ w.index)
    (hdoc : (entry.tenantId, entry.documentId) = d.pk) (hcur : entry.isCurrent = true) :
    entry.chunkId ∉ c.versionIds version := by
  intro hid
  have hmem : entry.chunkId ∈ w.index.currentIds d := ⟨entry, he, hdoc, hcur, rfl⟩
  rw [ha d hd] at hmem
  obtain ⟨v, hv, hvid⟩ := hmem
  obtain ⟨hvm, r, hrm, hrk, hstate⟩ := h.currentVersion hd hv
  obtain rfl := version_of_chunk hP h.consistent hvm hr.version_mem hvid hid
  have hkey : (r.job.tenantId, r.versionId) = (row.job.tenantId, row.versionId) :=
    hrk.trans hr.version_pk
  obtain rfl := h.consistent.job_unique hrm hr.row_mem (congrArg Prod.fst hkey)
    (congrArg Prod.snd hkey)
  have hopen := hr.pending
  rw [hstate] at hopen
  cases hopen

section Submitted

variable {args : SubmitArgs} {s : Submission}

theorem Submitted.traced (hP : c.platform.CollisionFree) (h : Traced c w)
    (hs : Submitted c.platform args w w' s) (hindex : w'.index = w.index) : Traced c w' := by
  refine ⟨hs.consistent hP h.consistent, fun e he => ?_, fun d hd versionId hcurrent => ?_⟩
  · exact (h.entries e (hindex ▸ he)).mono fun v hv => hs.versions_subset hv
  · rcases hs.mem_documents hd with hold | ⟨-, -, hnone⟩
    · obtain ⟨v, hv, hpk, r, hr, hrk, hstate⟩ := h.current d hold versionId hcurrent
      exact ⟨v, hs.versions_subset hv, hpk, r, Table.insertNew_subset hs.jobs hr, hrk, hstate⟩
    · rw [hnone] at hcurrent
      cases hcurrent

/-- A submission moves no flag and changes no current version. -/
theorem Submitted.agrees (hP : c.platform.CollisionFree) (h : Traced c w) (ha : Agrees c w)
    (hs : Submitted c.platform args w w' s) (hindex : w'.index = w.index) : Agrees c w' := by
  intro d hd
  rw [hindex]
  rcases hs.mem_documents hd with hold | ⟨hnew, -, hnone⟩
  · rw [ha d hold]
    have hsame : w'.database.currentVersion d = w.database.currentVersion d := by
      unfold Database.currentVersion
      cases hcurrent : d.currentVersionId with
      | none => rfl
      | some versionId =>
        obtain ⟨v, hv, hpk, -⟩ := h.current d hold versionId hcurrent
        rw [Option.bind_some, Option.bind_some, ← hpk, Table.find_of_mem hv,
          Table.find_of_mem (hs.versions_subset hv)]
    unfold Components.currentIds
    rw [hsame]
  · -- nothing is indexed for a document that did not exist
    have hempty : c.currentIds w'.database d = ∅ := by
      refine Set.eq_empty_iff_forall_notMem.2 fun id => ?_
      rintro ⟨v, hv, -⟩
      unfold Database.currentVersion at hv
      rw [hnone] at hv
      cases hv
    rw [hempty]
    refine Set.eq_empty_iff_forall_notMem.2 fun id => ?_
    rintro ⟨e, he, hdoc, -, -⟩
    obtain ⟨v, hv, hev, -, -⟩ := h.entries e he
    obtain ⟨d₀, hd₀, hpk⟩ := h.consistent.version_document v hv
    have hid : d₀.id = d.id := congrArg Prod.snd (hpk.trans (hev.symm.trans hdoc))
    exact h.consistent.document_id_drawn hP hd₀ (hid.trans hnew)

end Submitted

/-- A version that is promoted becomes the current one of its document. -/
theorem Finished.agrees (hP : c.platform.CollisionFree) (h : Traced c w) (ha : Agrees c w)
    {row : JobRow} {version : DocumentVersion} {document : Document} {content : ByteArray}
    (hr : Reached c w event row version document content)
    (hf : Finished c.platform version w.database w'.database)
    (hpromotable : document.promotable c.platform w.database.documentVersions version = true)
    {π : VersionProjection} (hπ : Projects c version content π)
    (hall : ∀ id, event.faults.rejected id = false)
    (hindex : w'.index = w.index.upserted π event.faults.rejected) : Agrees c w' := by
  intro d hd
  rw [hindex, currentIds_congr hf.same.versions]
  rw [hf.documents] at hd
  obtain ⟨old, hold, rfl⟩ := mem_promoted.1 hd
  by_cases hdoc : old.pk = (version.tenantId, version.documentId)
  · obtain rfl : old = document := Table.eq_of_pk hold hr.document_mem (hdoc.trans hr.document_pk.symm)
    have hpromoted : old.promotedTo c.platform w.database.documentVersions version =
        { old with currentVersionId := some version.id } := if_pos ⟨hdoc, hpromotable⟩
    rw [hpromoted]
    have hcurrent : c.currentIds w.database { old with currentVersionId := some version.id } =
        c.versionIds version := by
      have ht : old.tenantId = version.tenantId := congrArg Prod.fst hdoc
      have hfind : w.database.currentVersion { old with currentVersionId := some version.id } =
          some version := by
        show w.database.documentVersions.find (old.tenantId, version.id) = some version
        rw [ht]
        exact Table.find_of_mem hr.version_mem
      ext id
      unfold Components.currentIds
      rw [hfind]
      exact ⟨fun ⟨v, hv, hid⟩ => Option.some.inj hv ▸ hid, fun hid => ⟨version, rfl, hid⟩⟩
    rw [hcurrent]
    exact currentIds_upserted hP h hr.version_mem hπ hr.digest hall hdoc
  · rw [promotedTo_of_ne hdoc, currentIds_upserted_of_ne hP h hr.version_mem hπ hr.digest hdoc]
    exact ha old hold

theorem Finished.traced (h : Traced c w) {row : JobRow} {version : DocumentVersion}
    {document : Document} {content : ByteArray}
    (hr : Reached c w event row version document content)
    (hf : Finished c.platform version w.database w'.database)
    (hc : Consistent c.platform w'.database w'.uuids)
    (hentries : ∀ e ∈ w'.index, TracedTo c w.database.documentVersions e) : Traced c w' := by
  have hkept : ∀ v ∈ w.database.documentVersions, w.database.ingestionJobs.completed v.pk ∨ v = version →
      ∃ v' ∈ w'.database.documentVersions, v'.pk = v.pk ∧
        w'.database.ingestionJobs.completed v'.pk := by
    intro v hv hcompleted
    obtain ⟨v', hv', hbare⟩ := hf.same.versions.symm.mem hv
    have hpk := (bare_eq hbare).1
    refine ⟨v', hv', hpk, (hf.completed _).2 ?_⟩
    rw [hpk]
    exact hcompleted.imp id fun he => congrArg DocumentVersion.pk he
  refine ⟨hc, fun e he => (hentries e he).same hf.same.versions, fun d hd versionId hcurrent => ?_⟩
  rw [hf.documents] at hd
  obtain ⟨old, hold, rfl⟩ := mem_promoted.1 hd
  unfold Document.promotedTo at hcurrent ⊢
  split at hcurrent
  · rename_i hcond
    injection hcurrent with hid
    obtain ⟨v', hv', hpk, hcompleted⟩ := hkept version hr.version_mem (.inr rfl)
    rw [if_pos hcond]
    have ht : version.tenantId = old.tenantId := (congrArg Prod.fst hcond.1).symm
    exact ⟨v', hv', by rw [hpk, DocumentVersion.pk, ht, hid], hcompleted⟩
  · rename_i hcond
    rw [if_neg hcond]
    obtain ⟨v, hv, hpk, hcompleted⟩ := h.current old hold versionId hcurrent
    obtain ⟨v', hv', hpk', hcompleted'⟩ := hkept v hv (.inl hcompleted)
    exact ⟨v', hv', hpk'.trans hpk, hcompleted'⟩

/-- Every version yields a chunk. -/
def Components.Yields (c : Components) : Prop :=
  ∀ content parsed, c.parse content = some parsed → c.chunk parsed ≠ []

/-- **An event in order keeps the agreement.** -/
theorem Effect.agrees (hP : c.platform.CollisionFree) (hyield : c.Yields)
    (hall : ∀ id, event.faults.rejected id = false) (h : Traced c w) (ha : Agrees c w)
    (horder : InOrder c w event) (he : Effect c event { w with now := event.now } w') :
    Traced c w' ∧ Agrees c w' := by
  have hn : Traced c { w with now := event.now } := ⟨h.consistent, h.entries, h.current⟩
  have hc := Effect.consistent hP hn.consistent he
  cases he with
  | submitted source _ content _ s w₁ w₂ before uuids submitted after index drawn _ =>
    -- the world after the insertion, with the index as it was
    have h₁ : Traced c { w₁ with index := w.index } :=
      ⟨before ▸ uuids ▸ h.consistent, before ▸ h.entries, before ▸ h.current⟩
    have ha₁ : Agrees c { w₁ with index := w.index } := by
      intro d hd
      dsimp only at hd ⊢
      rw [before] at hd ⊢
      exact ha d hd
    have hs : Submitted c.platform (source.args c.platform content) { w₁ with index := w.index }
        { w₂ with index := w.index } s := { submitted with
      drawn := ⟨rfl, submitted.drawn.log, submitted.drawn.uuids⟩ }
    have h₂ := hs.traced hP h₁ rfl
    have ha₂ := hs.agrees hP h₁ ha₁ rfl
    have hindex : w'.index = w.index := index
    exact ⟨h₂.unfinished after hc fun e he => h₂.entries e (hindex ▸ he),
      ha₂.unfinished after fun d _ => by rw [hindex]⟩
  | unfinished rows index _ _ =>
    cases index with
    | same hsame =>
      exact ⟨hn.unfinished rows hc fun e he => h.entries e (hsame ▸ he),
        Agrees.unfinished (w := { w with now := event.now }) ha rows fun d _ => by rw [hsame]⟩
    | left row version document content reached hleft =>
      cases hleft with
      | same hsame =>
        exact ⟨hn.unfinished rows hc fun e he => h.entries e (hsame ▸ he),
          Agrees.unfinished (w := { w with now := event.now }) ha rows fun d _ => by rw [hsame]⟩
      | projected π hπ hbulk =>
        refine ⟨hn.unfinished rows hc fun e he => ?_,
          Agrees.unfinished (w := { w with now := event.now }) ha rows fun d hd => ?_⟩
        · exact traced_bulk hn reached.version_mem hπ reached.digest (hbulk ▸ he)
        · rw [hbulk]
          exact currentIds_bulk hπ reached.digest fun e he hdoc hcur =>
            reached.not_current hP hn ha hd he hdoc hcur
      | rejected id _ hid =>
        rw [hall id] at hid
        cases hid
      | stopped hclear _ hfail =>
        exact absurd hfail (horder row version document content reached hclear).2
  | finished row version document content reached rows index _ _ =>
    cases index with
    | empty parsed hparse hnil _ => exact absurd hnil (hyield content parsed hparse)
    | upserted π hπ hclear _ hup =>
      have hpromotable := (horder row version document content reached hclear).1
      refine ⟨Finished.traced hn reached rows hc fun e he => ?_,
        Finished.agrees (w := { w with now := event.now }) hP hn ha reached rows hpromotable hπ hall hup⟩
      exact traced_upserted hn reached.version_mem hπ reached.digest (hup ▸ he)

end Steps

/-! ## Runs -/

section Runs

variable {c : Components}

theorem Traced.empty : Traced c {} :=
  ⟨Consistent.empty c.platform 0, fun _ h => absurd h Table.not_mem_empty,
    fun _ h => absurd h Table.not_mem_empty⟩

/-- **The index agrees with the database** after every event of a run whose events are all in
order, where bulk requests reject nothing and every version yields a chunk. -/
theorem index_agrees (hP : c.platform.CollisionFree) (hyield : c.Yields) (es : List WorkerEvent)
    (hall : ∀ event ∈ es, ∀ id, event.faults.rejected id = false)
    (horder : Machine.Meets (World.step c) (InOrder c) {} es) :
    Machine.Always (World.step c) (Agrees c) {} es := by
  have hmeets : Machine.Meets (World.step c)
      (fun w event => (∀ id, event.faults.rejected id = false) ∧ InOrder c w event) {} es :=
    horder.and_mem hall
  have hempty : Agrees c {} := fun _ h => absurd h Table.not_mem_empty
  refine Machine.always_of_meets (I := Traced c) (fun w event h ha hok => ?_)
    (fun w event h ha hok => ?_) Traced.empty hempty hmeets
  · exact (Effect.agrees hP hyield hok.1 h ha hok.2 (step_effect w event h.consistent)).1
  · exact (Effect.agrees hP hyield hok.1 h ha hok.2 (step_effect w event h.consistent)).2

/-- Two versions of a document are delivered the newer one first. -/
def overtaken : List WorkerEvent :=
  [⟨.submit (sampleEvent "a" 1), {}, 0⟩, ⟨.submit (sampleEvent "b" 2), {}, 0⟩,
    ⟨.deliver "tenant" "uuuuuu", {}, 0⟩, ⟨.deliver "tenant" "uuu", {}, 0⟩]

theorem sampleComponents_yields : sampleComponents.Yields := by
  intro content parsed _ hnil
  cases hnil

/-- Delivered last, the older version takes the flags, while the newer one stays current. -/
theorem older_version_flagged : ¬∀ (c : Components) (es : List WorkerEvent),
    c.platform.CollisionFree → c.Yields → (∀ event ∈ es, event.faults = {}) →
    (∀ row ∈ (Machine.run (World.step c) {} es).database.ingestionJobs,
      row.job.state = .completed) →
    Agrees c (Machine.run (World.step c) {} es) := by
  intro h
  have hcompleted : ∀ row ∈ (Machine.run (World.step sampleComponents) {} overtaken
      ).database.ingestionJobs.rows, row.job.state = .completed := by decide +kernel
  have hagrees := h sampleComponents overtaken samplePlatform_collisionFree sampleComponents_yields
    (by simp [overtaken]) hcompleted
  have hdoc : ((Machine.run (World.step sampleComponents) {} overtaken).database.documents.find
      ("tenant", "u")).map Document.currentVersionId = some (some "uuuuu") := by decide +kernel
  have hentry : ∃ e ∈ (Machine.run (World.step sampleComponents) {} overtaken).index.rows,
      (e.tenantId, e.documentId) = ("tenant", "u") ∧ e.isCurrent = true ∧
        e.chunkId = samplePlatform.keyOf "uu" "0" := by decide +kernel
  obtain ⟨d, hfind, hcurrent⟩ := Option.map_eq_some_iff.1 hdoc
  obtain ⟨hd, hpk⟩ := Table.find_eq_some.1 hfind
  obtain ⟨e, he, hedoc, hflag, hid⟩ := hentry
  have hmem : e.chunkId ∈ (Machine.run (World.step sampleComponents) {} overtaken).index.currentIds d :=
    ⟨e, he, hedoc.trans hpk.symm, hflag, rfl⟩
  rw [hagrees d hd] at hmem
  obtain ⟨v, hv, _, -, hchunk⟩ := hmem
  unfold Database.currentVersion at hv
  rw [hcurrent, Option.bind_some] at hv
  have hvid : v.id = "uuuuu" := congrArg Prod.snd (Table.find_eq_some.1 hv).2
  obtain ⟨part, hpart⟩ := mem_chunkIds hchunk
  rw [hid, hvid] at hpart
  have hids := keyOf_inj samplePlatform_collisionFree (by decide) (by decide) hpart
  exact absurd hids.1 (by decide)

/-- Two versions of a document are delivered the older one first. -/
def delivered : List WorkerEvent :=
  [⟨.submit (sampleEvent "a" 1), {}, 0⟩, ⟨.submit (sampleEvent "b" 2), {}, 0⟩,
    ⟨.deliver "tenant" "uuu", {}, 0⟩, ⟨.deliver "tenant" "uuuuuu", {}, 0⟩]

/-- The world in which neither version has been delivered. -/
def bothSubmitted : World := Machine.run (World.step sampleComponents) {} (delivered.take 2)

/-- The world in which the older version has been. -/
def olderDelivered : World := Machine.run (World.step sampleComponents) {} (delivered.take 3)

theorem not_flagsFail_none : ¬FlagsFail {} := by
  rintro (⟨hfault, -⟩ | ⟨operation, -, hfault⟩)
  · exact hfault rfl
  · exact hfault rfl

/-- The newer version replaces the older one, and each is in order. -/
theorem index_agrees_replaced :
    (Machine.run (World.step sampleComponents) {} delivered).database.documents.rows.map
        Document.currentVersionId = [some "uuuuu"] ∧
      Machine.Always (World.step sampleComponents) (Agrees sampleComponents) {} delivered := by
  have hfirst : ∀ d ∈ bothSubmitted.database.documents.rows,
      d.currentVersionId = none ∧ d.deleted = false := by decide +kernel
  -- the job that is left is that of the newer version, which `promote` lets through
  have hleft : ∀ row ∈ olderDelivered.database.ingestionJobs.rows,
      row.job.state.terminal = false → row.versionId = "uuuuu" := by decide +kernel
  have hnewer : ∀ d ∈ olderDelivered.database.documents.rows,
      ∀ v ∈ olderDelivered.database.documentVersions.rows, v.id = "uuuuu" →
        d.promotable samplePlatform olderDelivered.database.documentVersions v = true := by
    decide +kernel
  refine ⟨by decide +kernel, index_agrees samplePlatform_collisionFree sampleComponents_yields _
    (fun event he id => ?_) ⟨fun row version document content hr _ => ?_,
      fun row version document content hr _ => ?_,
      fun row version document content hr _ => ⟨?_, not_flagsFail_none⟩,
      fun row version document content hr _ => ⟨?_, not_flagsFail_none⟩, trivial⟩⟩
  · simp only [delivered, List.mem_cons, List.not_mem_nil, or_false] at he
    rcases he with rfl | rfl | rfl | rfl <;> rfl
  · cases hr.action
  · cases hr.action
  · obtain ⟨hnone, hopen⟩ := hfirst document hr.document_mem
    rw [Document.promotable, hnone, hopen]
    rfl
  · have hid : version.id = row.versionId := congrArg Prod.snd hr.version_pk
    have hversion : version.id = "uuuuu" := hid.trans (hleft row hr.row_mem hr.pending)
    exact hnewer document hr.document_mem version hr.version_mem hversion

end Runs

end GroundedOps.Ingestion
