import GroundedOps.Lib.Lists
import GroundedOps.Lib.Separator
import GroundedOps.Proof.Worker

/-!
# The tables stay consistent

* `Consistent`: every document has a source, every version a document and a job, every job
  is that of its version, and all identifiers are drawn ones.
* `Submitted.consistent`: a submission keeps the tables consistent.
* `Resumed.known`: the submission with which a delivery resumes inserts nothing and
  changes nothing.
-/

namespace GroundedOps.Ingestion

open Hoare

/-! ## Keys -/

/-- **A key names its two parts**, if the first has no colon. -/
theorem keyOf_inj {P : Platform} (hP : P.CollisionFree) {a a' b b' : String}
    (ha : ':' ∉ a.toList) (ha' : ':' ∉ a'.toList) (h : P.keyOf a b = P.keyOf a' b') :
    a = a' ∧ b = b' := by
  have hbytes := hP.sha256 h
  exact Separator.string_append_inj rfl ha ha' (String.toByteArray_inj.1 hbytes)

theorem text_le_total (a b : String) : decide (a ≤ b) = true ∨ decide (b ≤ a) = true :=
  (le_total a b).imp decide_eq_true decide_eq_true

theorem text_le_trans (a b c : String) (hab : decide (a ≤ b) = true) (hbc : decide (b ≤ c) = true) :
    decide (a ≤ c) = true :=
  decide_eq_true (le_trans (of_decide_eq_true hab) (of_decide_eq_true hbc))

theorem text_le_antisymm (a b : String) (hab : decide (a ≤ b) = true)
    (hba : decide (b ≤ a) = true) : a = b :=
  le_antisymm (of_decide_eq_true hab) (of_decide_eq_true hba)

/-- A platform whose digest of a content is the content itself, a character for each byte. -/
def Platform.plain : Platform where
  sha256 content := String.ofList (content.data.toList.map fun byte => Char.ofNat byte.toNat)
  uuid4 n := String.ofList (List.replicate (n + 1) 'a')
  collation a b := decide (a ≤ b)
  collation_total := text_le_total
  collation_trans := text_le_trans
  collation_antisymm := text_le_antisymm

theorem char_ofNat_inj {a b : UInt8} (h : Char.ofNat a.toNat = Char.ofNat b.toNat) : a = b := by
  have hvalid : ∀ x : UInt8, (Char.ofNat x.toNat).toNat = x.toNat := by
    intro x
    have hx : x.toNat < 256 := x.toNat_lt
    rw [Char.ofNat, dif_pos (Or.inl (by omega))]
    rfl
  have hnat := congrArg Char.toNat h
  rw [hvalid, hvalid] at hnat
  exact UInt8.toNat_inj.1 hnat

theorem Platform.plain_collisionFree : Platform.plain.CollisionFree := by
  refine ⟨fun a b h => ?_, fun m n h => ?_, fun n h => ?_⟩
  · have hlists := String.ofList_injective h
    have hbytes : a.data.toList = b.data.toList :=
      List.map_injective_iff.2 (fun x y hxy => char_ofNat_inj hxy) hlists
    exact ByteArray.ext (Array.toList_inj.1 hbytes)
  · have hlists := congrArg List.length (String.ofList_injective h)
    simpa using hlists
  · have hchars : (Platform.plain.uuid4 n).toList = List.replicate (n + 1) 'a' :=
      String.toList_ofList
    rw [hchars] at h
    have ha := List.eq_of_mem_replicate h
    cases ha

/-! ## Consistent tables -/

/-- The columns of a document that never change. -/
def Document.bare (document : Document) : Document :=
  { document with currentVersionId := none, deleted := false }

/-- The columns of a job that never change. -/
def JobRow.bare (row : JobRow) : (String × String) × String × String :=
  (row.pk, row.job.idempotencyKey, row.versionId)

structure Consistent (P : Platform) (db : Database) (uuids : ℕ) : Prop where
  document_drawn : ∀ d ∈ db.documents, ∃ i < uuids, d.id = P.uuid4 i
  version_drawn : ∀ v ∈ db.documentVersions, ∃ i < uuids, v.id = P.uuid4 i
  version_inj : ∀ v ∈ db.documentVersions, ∀ v' ∈ db.documentVersions, v.id = v'.id → v = v'
  document_source : ∀ d ∈ db.documents, ∃ s ∈ db.sources, s.pk = (d.tenantId, d.sourceId)
  version_document : ∀ v ∈ db.documentVersions, ∃ d ∈ db.documents,
    d.pk = (v.tenantId, v.documentId)
  job_version : ∀ r ∈ db.ingestionJobs, ∃ v ∈ db.documentVersions,
    v.pk = (r.job.tenantId, r.versionId) ∧
      r.job.idempotencyKey = P.keyOf v.documentId v.sourceVersion
  version_job : ∀ v ∈ db.documentVersions, ∃ r ∈ db.ingestionJobs,
    (r.job.tenantId, r.versionId) = v.pk

/-- The rows are the same, in the columns that never change. -/
structure SameRows (db db' : Database) : Prop where
  sources : db'.sources = db.sources
  documents : db'.documents.rows.map Document.bare = db.documents.rows.map Document.bare
  versions : SameVersions db.documentVersions db'.documentVersions
  jobs : db'.ingestionJobs.rows.map JobRow.bare = db.ingestionJobs.rows.map JobRow.bare

variable {P : Platform} {db db' : Database} {uuids : ℕ}

theorem SameRows.refl (db : Database) : SameRows db db := ⟨rfl, rfl, .refl _, rfl⟩

theorem SameRows.symm (h : SameRows db db') : SameRows db' db :=
  ⟨h.sources.symm, h.documents.symm, h.versions.symm, h.jobs.symm⟩

theorem SameRows.trans {db'' : Database} (h : SameRows db db') (h' : SameRows db' db'') :
    SameRows db db'' :=
  ⟨h'.sources.trans h.sources, h'.documents.trans h.documents, h.versions.trans h'.versions,
    h'.jobs.trans h.jobs⟩

theorem document_bare_eq {d d' : Document} (h : d.bare = d'.bare) :
    d.pk = d'.pk ∧ d.unique = d'.unique := by
  unfold Document.bare at h
  injection h with hi ht hs hk
  simp only [Document.pk, Document.unique, hi, ht, hs, hk, and_self]

theorem SameRows.document (h : SameRows db db') {d : Document} (hd : d ∈ db'.documents) :
    ∃ d' ∈ db.documents, d'.pk = d.pk ∧ d'.unique = d.unique := by
  obtain ⟨d', hd', heq⟩ := Lists.exists_of_map_eq h.documents hd
  exact ⟨d', hd', document_bare_eq heq⟩

theorem SameRows.version (h : SameRows db db') {v : DocumentVersion}
    (hv : v ∈ db'.documentVersions) : ∃ v' ∈ db.documentVersions, v'.pk = v.pk ∧
      v'.unique = v.unique ∧ v'.contentHash = v.contentHash ∧ v'.revision = v.revision := by
  obtain ⟨v', hv', heq⟩ := h.versions.mem hv
  exact ⟨v', hv', bare_eq heq⟩

theorem SameRows.job (h : SameRows db db') {r : JobRow} (hr : r ∈ db'.ingestionJobs) :
    ∃ r' ∈ db.ingestionJobs, r'.pk = r.pk ∧ r'.job.idempotencyKey = r.job.idempotencyKey ∧
      r'.versionId = r.versionId := by
  obtain ⟨r', hr', heq⟩ := Lists.exists_of_map_eq h.jobs hr
  exact ⟨r', hr', congrArg Prod.fst heq, congrArg (fun u => u.2.1) heq,
    congrArg (fun u => u.2.2) heq⟩

theorem Consistent.of_same (hc : Consistent P db uuids) (h : SameRows db db') :
    Consistent P db' uuids := by
  -- each clause follows a row back to its old one, and what it refers to forth again
  refine ⟨fun d hd => ?_, fun v hv => ?_, fun v hv v' hv' hid => ?_, fun d hd => ?_,
    fun v hv => ?_, fun r hr => ?_, fun v hv => ?_⟩
  · obtain ⟨d', hd', hpk, -⟩ := h.document hd
    obtain ⟨i, hi, hdi⟩ := hc.document_drawn d' hd'
    exact ⟨i, hi, (congrArg Prod.snd hpk).symm.trans hdi⟩
  · obtain ⟨v', hv', hpk, -⟩ := h.version hv
    obtain ⟨i, hi, hvi⟩ := hc.version_drawn v' hv'
    exact ⟨i, hi, (congrArg Prod.snd hpk).symm.trans hvi⟩
  · obtain ⟨u, hu, hpk, -⟩ := h.version hv
    obtain ⟨u', hu', hpk', -⟩ := h.version hv'
    have huid : u.id = u'.id :=
      (congrArg Prod.snd hpk).trans (hid.trans (congrArg Prod.snd hpk').symm)
    obtain rfl := hc.version_inj u hu u' hu' huid
    exact Table.eq_of_pk hv hv' (hpk.symm.trans hpk')
  · obtain ⟨d', hd', hpk, hun⟩ := h.document hd
    obtain ⟨s, hs, hspk⟩ := hc.document_source d' hd'
    have ht : d'.tenantId = d.tenantId := congrArg Prod.fst hpk
    have hsource : d'.sourceId = d.sourceId := congrArg (fun u => u.2.1) hun
    exact ⟨s, h.sources ▸ hs, by rw [hspk, ht, hsource]⟩
  · obtain ⟨v', hv', hpk, hun, -⟩ := h.version hv
    obtain ⟨d, hd, hdpk⟩ := hc.version_document v' hv'
    obtain ⟨d', hd', hpk', -⟩ := h.symm.document hd
    have ht : v'.tenantId = v.tenantId := congrArg Prod.fst hpk
    have hdocument : v'.documentId = v.documentId := congrArg (fun u => u.2.1) hun
    exact ⟨d', hd', by rw [hpk', hdpk, ht, hdocument]⟩
  · obtain ⟨r', hr', hpk, hkey, hvid⟩ := h.job hr
    obtain ⟨v, hv, hvpk, hvkey⟩ := hc.job_version r' hr'
    obtain ⟨v', hv', hpk', hun', -⟩ := h.symm.version hv
    have ht : r'.job.tenantId = r.job.tenantId := congrArg Prod.fst hpk
    have hdocument : v'.documentId = v.documentId := congrArg (fun u => u.2.1) hun'
    have hversion : v'.sourceVersion = v.sourceVersion := congrArg (fun u => u.2.2) hun'
    exact ⟨v', hv', by rw [hpk', hvpk, ht, hvid], by rw [← hkey, hvkey, hdocument, hversion]⟩
  · obtain ⟨v', hv', hpk, -⟩ := h.version hv
    obtain ⟨r, hr, hrv⟩ := hc.version_job v' hv'
    obtain ⟨r', hr', hpk', -, hvid⟩ := h.symm.job hr
    have ht : r'.job.tenantId = r.job.tenantId := congrArg Prod.fst hpk'
    exact ⟨r', hr', by rw [ht, hvid, hrv, hpk]⟩

theorem Consistent.mono {m n : ℕ} (h : Consistent P db m)
    (hmn : m ≤ n) : Consistent P db n := by
  refine { h with document_drawn := fun d hd => ?_, version_drawn := fun v hv => ?_ }
  · obtain ⟨i, hi, hid⟩ := h.document_drawn d hd
    exact ⟨i, by omega, hid⟩
  · obtain ⟨i, hi, hid⟩ := h.version_drawn v hv
    exact ⟨i, by omega, hid⟩

theorem Consistent.empty (P : Platform) (uuids : ℕ) : Consistent P {} uuids := by
  refine ⟨fun d hd => ?_, fun v hv => ?_, fun v hv => ?_, fun d hd => ?_, fun v hv => ?_,
    fun r hr => ?_, fun v hv => ?_⟩
  · exact absurd hd Table.not_mem_empty
  · exact absurd hv Table.not_mem_empty
  · exact absurd hv Table.not_mem_empty
  · exact absurd hd Table.not_mem_empty
  · exact absurd hv Table.not_mem_empty
  · exact absurd hr Table.not_mem_empty
  · exact absurd hv Table.not_mem_empty

/-! ## Jobs and their versions -/

/-- A document's identifier is hexadecimal. -/
theorem Consistent.no_colon (hP : P.CollisionFree) (hc : Consistent P db uuids) {d : Document}
    (hd : d ∈ db.documents) : ':' ∉ d.id.toList := by
  obtain ⟨i, -, hid⟩ := hc.document_drawn d hd
  rw [hid]
  exact hP.uuid4_hex i

/-- The document of a version. -/
theorem Consistent.version_no_colon (hP : P.CollisionFree) (hc : Consistent P db uuids)
    {v : DocumentVersion} (hv : v ∈ db.documentVersions) : ':' ∉ v.documentId.toList := by
  obtain ⟨d, hd, hpk⟩ := hc.version_document v hv
  have hid : d.id = v.documentId := congrArg Prod.snd hpk
  exact hid ▸ hc.no_colon hP hd

/-- A version has one job. -/
theorem Consistent.job_unique (hc : Consistent P db uuids) {r r' : JobRow}
    (hr : r ∈ db.ingestionJobs) (hr' : r' ∈ db.ingestionJobs)
    (ht : r.job.tenantId = r'.job.tenantId) (hv : r.versionId = r'.versionId) : r = r' := by
  obtain ⟨v, hvm, hvpk, hvkey⟩ := hc.job_version r hr
  obtain ⟨v', hvm', hvpk', hvkey'⟩ := hc.job_version r' hr'
  have hsame : v = v' := Table.eq_of_pk hvm hvm' (by rw [hvpk, hvpk', ht, hv])
  subst hsame
  exact Table.eq_of_uk hr hr' (by rw [JobRow.unique, JobRow.unique, ht, hvkey, hvkey'])

/-! ## Sources -/

theorem find_upsert_self {sources : Sources} {s : Source} (h : s ∈ sources) :
    sources.upsert s = sources := by
  unfold Sources.upsert
  rw [Table.find_of_mem h]
  refine Table.modify_eq_self fun row hrow => ?_
  split
  · rename_i hpk
    rw [Table.eq_of_pk hrow h hpk]
    rfl
  · rfl

/-- An upsert keeps the keys and adds its own. -/
theorem exists_upsert {sources : Sources} {s : Source} {k : String × String}
    (h : k = s.pk ∨ ∃ row ∈ sources, row.pk = k) : ∃ row ∈ sources.upsert s, row.pk = k := by
  unfold Sources.upsert
  cases hfind : sources.find s.pk with
  | none =>
    by_cases hk : k = s.pk
    · exact ⟨s, Table.mem_put.2 (Or.inl rfl), hk.symm⟩
    · obtain ⟨row, hrow, hpk⟩ := h.resolve_left hk
      exact ⟨row, Table.mem_put.2 (Or.inr ⟨hrow, hpk ▸ hk⟩), hpk⟩
  | some row₀ =>
    obtain ⟨hmem, hpk₀⟩ := Table.find_eq_some.1 hfind
    have hrow : ∃ row ∈ sources, row.pk = k := by
      rcases h with rfl | hrow
      · exact ⟨row₀, hmem, hpk₀⟩
      · exact hrow
    obtain ⟨row, hrow, hpk⟩ := hrow
    refine ⟨_, Table.mem_modify_of_mem hrow, ?_⟩
    split
    · exact hpk
    · exact hpk

/-! ## Submissions -/

section Submitted

variable {args : SubmitArgs} {w w' : World} {s : Submission}

/-- The job that a submission finds or makes is that of its version. -/
theorem Submitted.exists_job (hP : P.CollisionFree) (h : Submitted P args w w' s)
    (hc : Consistent P w.database w.uuids) (hcolon : ':' ∉ s.document.id.toList)
    (hnew : ∀ v ∈ w.database.documentVersions, v.unique ≠ s.version.unique) :
    ∃ r ∈ w'.database.ingestionJobs, (r.job.tenantId, r.versionId) = s.version.pk := by
  have ht : s.version.tenantId = args.source.tenantId := congrArg Prod.fst h.version_unique
  rcases Table.insertNew_cases h.jobs with ⟨-, r, hr, hun⟩ | ⟨hrows, -, -⟩
  · -- the key of the job is taken, so by injectivity its version is in the tables already
    exfalso
    obtain ⟨v, hv, hvpk, hvkey⟩ := hc.job_version r hr
    have hkey : P.keyOf v.documentId v.sourceVersion = P.keyOf s.document.id args.sourceVersion := by
      rw [← hvkey]
      exact congrArg Prod.snd hun
    obtain ⟨hdocument, hversion⟩ := keyOf_inj hP (hc.version_no_colon hP hv) hcolon hkey
    have htenant : v.tenantId = args.source.tenantId :=
      (congrArg Prod.fst hvpk).trans (congrArg Prod.fst hun)
    refine hnew v hv ?_
    rw [h.version_unique, DocumentVersion.unique, htenant, hdocument, hversion]
  · refine ⟨newJob P args.source.tenantId s.document.id args.sourceVersion s.version.id (w.uuids + 2)
      w.now, ?_, ?_⟩
    · rw [← Table.mem_rows, hrows]
      exact List.mem_append_right _ List.mem_cons_self
    · rw [DocumentVersion.pk, ht]
      rfl

/-- **A submission keeps the tables consistent.** -/
theorem Submitted.consistent (hP : P.CollisionFree) (h : Submitted P args w w' s)
    (hc : Consistent P w.database w.uuids) : Consistent P w'.database w'.uuids := by
  have huuids : w'.uuids = w.uuids + 3 := h.uuids
  have hdrawn : ∀ d ∈ w'.database.documents, ∃ i < w'.uuids, d.id = P.uuid4 i := by
    intro d hd
    rcases h.mem_documents hd with hold | ⟨hid, -⟩
    · obtain ⟨i, hi, hdi⟩ := hc.document_drawn d hold
      exact ⟨i, by omega, hdi⟩
    · exact ⟨w.uuids, by omega, hid⟩
  -- an identifier drawn before is not the one of the new version
  have hfresh : ∀ v ∈ w.database.documentVersions, v.id ≠ P.uuid4 (w.uuids + 1) := by
    intro v hv heq
    obtain ⟨i, hi, hvi⟩ := hc.version_drawn v hv
    have hii : i = w.uuids + 1 := hP.uuid4 (hvi.symm.trans heq)
    omega
  refine ⟨hdrawn, fun v hv => ?_, fun v hv v' hv' hid => ?_, fun d hd => ?_, fun v hv => ?_,
    fun r hr => ?_, fun v hv => ?_⟩
  · rcases h.mem_versions hv with hold | ⟨-, hid, -⟩
    · obtain ⟨i, hi, hvi⟩ := hc.version_drawn v hold
      exact ⟨i, by omega, hvi⟩
    · exact ⟨w.uuids + 1, by omega, hid⟩
  · rcases h.mem_versions hv with hold | ⟨hv, hnew, -⟩
    · rcases h.mem_versions hv' with hold' | ⟨-, hnew', -⟩
      · exact hc.version_inj v hold v' hold' hid
      · exact absurd (hid.trans hnew') (hfresh v hold)
    · rcases h.mem_versions hv' with hold' | ⟨hv', -, -⟩
      · exact absurd (hid.symm.trans hnew) (hfresh v' hold')
      · exact hv.trans hv'.symm
  · rw [h.sources]
    rcases h.mem_documents hd with hold | ⟨-, hun, -⟩
    · exact exists_upsert (Or.inr (hc.document_source d hold))
    · have ht : d.tenantId = args.source.tenantId := congrArg Prod.fst hun
      have hsource : d.sourceId = args.source.id := congrArg (fun u => u.2.1) hun
      exact exists_upsert (Or.inl (by rw [ht, hsource]; rfl))
  · rcases h.mem_versions hv with hold | ⟨hv, -, -⟩
    · obtain ⟨d, hd, hpk⟩ := hc.version_document v hold
      exact ⟨d, h.documents_subset hd, hpk⟩
    · have htv : s.version.tenantId = args.source.tenantId := congrArg Prod.fst h.version_unique
      have htd : s.document.tenantId = args.source.tenantId := congrArg Prod.fst h.document_unique
      exact ⟨s.document, h.document, by rw [hv, Document.pk, htd, htv, h.version_documentId]⟩
  · rcases h.mem_jobs hr with hold | rfl
    · obtain ⟨v, hv, hpk, hkey⟩ := hc.job_version r hold
      exact ⟨v, h.versions_subset hv, hpk, hkey⟩
    · have htv : s.version.tenantId = args.source.tenantId := congrArg Prod.fst h.version_unique
      have hsv : s.version.sourceVersion = args.sourceVersion :=
        congrArg (fun u => u.2.2) h.version_unique
      refine ⟨s.version, h.version, ?_, ?_⟩
      · rw [DocumentVersion.pk, htv]; rfl
      · rw [h.version_documentId, hsv]; rfl
  · rcases h.mem_versions hv with hold | ⟨hv, -, hnew⟩
    · obtain ⟨r, hr, hpk⟩ := hc.version_job v hold
      exact ⟨r, Table.insertNew_subset h.jobs hr, hpk⟩
    · obtain ⟨i, -, hid⟩ := hdrawn s.document h.document
      have hcolon : ':' ∉ s.document.id.toList := hid ▸ hP.uuid4_hex i
      rw [hv] at hnew ⊢
      exact h.exists_job hP hc hcolon hnew

end Submitted

/-! ## Resumed jobs -/

/-- The rows of a job. -/
structure JobRows (db : Database) (row : JobRow) (version : DocumentVersion) (document : Document) :
    Prop where
  row_mem : row ∈ db.ingestionJobs
  version_mem : version ∈ db.documentVersions
  version_pk : version.pk = (row.job.tenantId, row.versionId)
  document_mem : document ∈ db.documents
  document_pk : document.pk = (version.tenantId, version.documentId)

/-- What `get_delivery` has read. -/
theorem getDelivery_eq {tenantId jobId : String} {record : DeliveryRecord}
    (h : db.getDelivery tenantId jobId = some record) :
    ∃ row version document, db.ingestionJobs.find (tenantId, jobId) = some row ∧
      JobRows db row version document ∧ record.source ∈ db.sources ∧
      record.source.pk = (document.tenantId, document.sourceId) ∧
      record.canonicalKey = document.canonicalKey ∧
      record.sourceVersion = version.sourceVersion ∧
      record.sourceTimestamp = version.sourceTimestamp ∧
      record.contentHash = version.contentHash := by
  unfold Database.getDelivery at h
  simp only [Option.bind_eq_bind, Option.bind_eq_some_iff, Option.pure_def, Option.some.injEq] at h
  obtain ⟨row, hrow, version, hversion, document, hdocument, source, hsource, rfl⟩ := h
  obtain ⟨hrmem, hrpk⟩ := Table.find_eq_some.1 hrow
  obtain ⟨hvmem, hvpk⟩ := Table.find_eq_some.1 hversion
  obtain ⟨hdmem, hdpk⟩ := Table.find_eq_some.1 hdocument
  obtain ⟨hsmem, hspk⟩ := Table.find_eq_some.1 hsource
  have htr : row.job.tenantId = tenantId := congrArg Prod.fst hrpk
  have htv : version.tenantId = tenantId := congrArg Prod.fst hvpk
  have htd : document.tenantId = tenantId := congrArg Prod.fst hdpk
  exact ⟨row, version, document, hrow, ⟨hrmem, hvmem, by rw [hvpk, htr], hdmem,
    by rw [hdpk, htv]⟩, hsmem, by rw [hspk, htd], rfl, rfl, rfl, rfl⟩

/-- **A resumed job submits what is stored**: nothing is inserted and nothing changes. -/
theorem Resumed.known {c : Components} {faults : Faults} {tenantId jobId : String} {w w₁ : World}
    {record : DeliveryRecord} {content : ByteArray} {row : JobRow} {s : Submission}
    (hc : Consistent c.platform w.database w.uuids)
    (h : Resumed c faults tenantId jobId w w₁ record content row s) :
    w₁.database = w.database ∧ JobRows w.database row s.version s.document ∧
      c.platform.sha256 content = s.version.contentHash := by
  obtain ⟨row', version, document, hrow, hrows, hsource, hspk, hkey, hsv, hst, hhash⟩ :=
    getDelivery_eq h.delivery
  obtain rfl : row = row' := Option.some.inj (h.row.symm.trans hrow)
  have hsub := h.submitted
  have hts : record.source.tenantId = document.tenantId := congrArg Prod.fst hspk
  have hids : record.source.id = document.sourceId := congrArg Prod.snd hspk
  have htd : document.tenantId = version.tenantId := congrArg Prod.fst hrows.document_pk
  have hdid : document.id = version.documentId := congrArg Prod.snd hrows.document_pk
  -- the document
  obtain ⟨d, hd, hdinsert⟩ := hsub.documents
  have hdocun : document.unique = d.unique := by
    rw [(document_eq hd).2.1, Document.unique, hts, hids, hkey]
  have hdocuments : w₁.database.documents = w.database.documents :=
    Option.some.inj (hdinsert.symm.trans (Table.insertNew_of_mem hrows.document_mem hdocun))
  have hdocument : s.document = document := by
    refine Table.eq_of_uk (hdocuments ▸ hsub.document) hrows.document_mem ?_
    rw [hsub.document_unique, hdocun, (document_eq hd).2.1]
  -- the version
  obtain ⟨v, -, hvun, -, -, hvinsert⟩ := hsub.versions
  have hverun : version.unique = v.unique := by
    rw [hvun, hdocument, hdid, DocumentVersion.unique, hts, htd, hsv]
  have hversions : w₁.database.documentVersions = w.database.documentVersions :=
    Option.some.inj (hvinsert.symm.trans (Table.insertNew_of_mem hrows.version_mem hverun))
  have hversion : s.version = version := by
    refine Table.eq_of_uk (hversions ▸ hsub.version) hrows.version_mem ?_
    rw [hsub.version_unique, hverun, hvun]
  -- the job
  obtain ⟨v', hv', hvpk', hvkey'⟩ := hc.job_version row hrows.row_mem
  obtain rfl : v' = version := Table.eq_of_pk hv' hrows.version_mem (hvpk'.trans hrows.version_pk.symm)
  have htr : row.job.tenantId = v'.tenantId := (congrArg Prod.fst hvpk').symm
  have hjobun : row.unique = (newJob c.platform record.source.tenantId s.document.id
      record.sourceVersion s.version.id (w.uuids + 2) w.now).unique := by
    rw [JobRow.unique, hvkey', htr, hdocument, ← hdid, ← hsv, ← htd, ← hts]
    rfl
  have hjobs : w₁.database.ingestionJobs = w.database.ingestionJobs :=
    Option.some.inj (hsub.jobs.symm.trans (Table.insertNew_of_mem hrows.row_mem hjobun))
  have hsources : w₁.database.sources = w.database.sources := by
    rw [hsub.sources]
    exact find_upsert_self hsource
  refine ⟨?_, ?_, ?_⟩
  · cases hdb : w.database
    cases hdb₁ : w₁.database
    rw [hdb] at hsources hdocuments hversions hjobs
    rw [hdb₁] at hsources hdocuments hversions hjobs
    simp only at hsources hdocuments hversions hjobs
    rw [hsources, hdocuments, hversions, hjobs]
  · rw [hdocument, hversion]
    exact hrows
  · rw [hversion, ← hhash]
    exact h.digest

end GroundedOps.Ingestion
