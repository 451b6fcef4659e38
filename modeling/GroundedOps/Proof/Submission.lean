import GroundedOps.Proof.World
import GroundedOps.Spec.Repository

/-!
# What a submission does

`Submitted` says what `IngestionRepository.submit` has done when it returns: the source is
upserted, and a document, a version and a job are inserted unless the key of each is taken.

* `wp_submit`: a submission does that or raises.
-/

namespace GroundedOps.Ingestion

open Hoare

/-- What moves outside the database when a submission is made. -/
structure Drawn (w w' : World) : Prop where
  index : w'.index = w.index
  log : w'.log = w.log
  uuids : w.uuids ≤ w'.uuids

/-- The row that `submit` inserts for a new job. -/
def newJob (P : Platform) (tenantId documentId sourceVersion versionId : String) (uuid : ℕ)
    (now : ℤ) : JobRow where
  job := { id := P.uuid4 uuid, tenantId, idempotencyKey := P.keyOf documentId sourceVersion }
  versionId := versionId
  createdAt := now

/-- **What a submission has done.** -/
structure Submitted (P : Platform) (args : SubmitArgs) (w w' : World) (s : Submission) : Prop where
  sources : w'.database.sources = w.database.sources.upsert args.source
  documents : ∃ d, args.source.document (P.uuid4 w.uuids) args.canonicalKey = some d ∧
    w.database.documents.insertNew d = some w'.database.documents
  document : s.document ∈ w'.database.documents
  document_unique :
    s.document.unique = (args.source.tenantId, args.source.id, args.canonicalKey)
  versions : ∃ v, v.pk = (args.source.tenantId, P.uuid4 (w.uuids + 1)) ∧
    v.unique = (args.source.tenantId, s.document.id, args.sourceVersion) ∧
    v.contentHash = args.contentHash ∧ v.sourceTimestamp = args.sourceTimestamp ∧
    w.database.documentVersions.insertNew v = some w'.database.documentVersions
  version : s.version ∈ w'.database.documentVersions
  version_unique : s.version.unique = (args.source.tenantId, s.document.id, args.sourceVersion)
  contentHash : s.version.contentHash = args.contentHash
  jobs : w.database.ingestionJobs.insertNew (newJob P args.source.tenantId s.document.id
    args.sourceVersion s.version.id (w.uuids + 2) w.now) = some w'.database.ingestionJobs
  job : ∃ row ∈ w'.database.ingestionJobs, row.job = s.job ∧
    row.unique = (args.source.tenantId, P.keyOf s.document.id args.sourceVersion)
  drawn : Drawn w w'
  uuids : w'.uuids = w.uuids + 3

variable {P : Platform} {faults : Faults} {args : SubmitArgs} {w w' : World} {s : Submission}

theorem document_eq {source : Source} {id canonicalKey : String} {d : Document}
    (h : source.document id canonicalKey = some d) :
    d.pk = (source.tenantId, id) ∧ d.unique = (source.tenantId, source.id, canonicalKey) ∧
      d.currentVersionId = none ∧ d.deleted = false := by
  unfold Source.document at h
  split at h
  · cases h; exact ⟨rfl, rfl, rfl, rfl⟩
  · cases h

theorem version_eq {document : Document} {id sourceVersion contentHash parserVersion : String}
    {stamp : ℤ} {v : DocumentVersion}
    (h : document.version id sourceVersion contentHash stamp parserVersion = some v) :
    v.pk = (document.tenantId, id) ∧ v.sourceVersion = sourceVersion ∧
      v.contentHash = contentHash ∧ v.sourceTimestamp = stamp := by
  unfold Document.version at h
  split at h
  · cases h; exact ⟨rfl, rfl, rfl, rfl⟩
  · cases h

/-- **A submission does what `Submitted` says, or raises.** -/
theorem wp_submit {parserVersion : String} : wp (IngestionRepository.submit P faults args.source
      args.canonicalKey args.sourceVersion args.contentHash args.sourceTimestamp parserVersion)
    (fun s w' => Submitted P args w w' s ∧ faults.fault .submit = none)
    (fun _ w' => Drawn w w') w := by
  -- a transaction that raises has drawn identifiers and nothing else
  have hraise : ∀ k database, Drawn w { w with database, uuids := w.uuids + k } :=
    fun k _ => ⟨rfl, rfl, Nat.le_add_right _ k⟩
  simp only [IngestionRepository.submit, IngestionRepository.insertDocument,
    IngestionRepository.insertVersion, IngestionRepository.insertJob, wp_bind, wp_reach, wp_uuid4,
    wp_orRaise, wp_readDatabase, wp_writeDatabase]
  refine ⟨fun hsubmit => ⟨fun d hd => ⟨fun candidate hcandidate => ?_, fun _ => hraise 2 _⟩,
    fun _ => hraise 1 _⟩, fun _ _ => hraise 0 _⟩
  obtain ⟨hpk, hversion, hhash, hstamp⟩ := version_eq hcandidate
  refine ⟨fun documents hdocuments => ⟨fun document hdocument => ?_, fun _ => hraise 2 _⟩,
    fun _ => hraise 2 _⟩
  obtain ⟨hdmem, hdun⟩ := Table.lookup_eq_some.1 hdocument
  refine ⟨fun versions hversions => ⟨fun version hlookup => ?_, fun _ => hraise 2 _⟩,
    fun _ => hraise 2 _⟩
  obtain ⟨hvmem, hvun⟩ := Table.lookup_eq_some.1 hlookup
  split
  · exact hraise 2 _
  rename_i hsame
  simp only [ne_eq, not_not] at hsame
  simp only [wp_bind, wp_uuid4, Hoare.wp_get, wp_readDatabase, wp_writeDatabase, wp_orRaise,
    wp_pure]
  refine ⟨fun jobs hjobs => ⟨fun row hrow => ?_, fun _ => hraise 3 _⟩, fun _ => hraise 3 _⟩
  obtain ⟨hrmem, hrun⟩ := Table.lookup_eq_some.1 hrow
  have hsource : d.tenantId = args.source.tenantId := congrArg Prod.fst (document_eq hd).1
  refine ⟨{
    sources := rfl
    documents := ⟨d, hd, hdocuments⟩
    document := hdmem
    document_unique := hdun
    versions := ⟨{ candidate with documentId := document.id }, ?_, ?_, hhash, hstamp, hversions⟩
    version := hvmem
    version_unique := hvun
    contentHash := hsame
    jobs := hjobs
    job := ⟨row, hrmem, rfl, hrun⟩
    drawn := hraise 3 _
    uuids := rfl }, hsubmit⟩
  · exact hpk.trans (by rw [hsource])
  · have htenant : candidate.tenantId = args.source.tenantId := (congrArg Prod.fst hpk).trans hsource
    simp only [DocumentVersion.unique, htenant, hversion]

/-- A submission writes no object. -/
theorem wp_submit_objects {P : Platform} {source : Source} {canonicalKey sourceVersion contentHash
      parserVersion : String} {stamp : ℤ} :
    wp (IngestionRepository.submit P faults source canonicalKey sourceVersion contentHash stamp
        parserVersion)
      (fun _ w' => w'.objects = w.objects) (fun _ w' => w'.objects = w.objects) w := by
  simp only [IngestionRepository.submit, IngestionRepository.insertDocument,
    IngestionRepository.insertVersion, IngestionRepository.insertJob, wp_bind, wp_reach, wp_uuid4,
    wp_orRaise, wp_readDatabase, wp_writeDatabase]
  refine ⟨fun _ => ⟨fun _ _ => ⟨fun _ _ => ?_, fun _ => trivial⟩, fun _ => trivial⟩,
    fun _ _ => trivial⟩
  refine ⟨fun _ _ => ⟨fun _ _ => ?_, fun _ => trivial⟩, fun _ => trivial⟩
  refine ⟨fun _ _ => ⟨fun _ _ => ?_, fun _ => trivial⟩, fun _ => trivial⟩
  split
  · exact rfl
  · simp

theorem Drawn.refl (w : World) : Drawn w w := ⟨rfl, rfl, le_rfl⟩

/-- A job that is there stays as it is. -/
theorem Submitted.find_job (h : Submitted P args w w' s) {k : String × String} {row : JobRow}
    (hrow : w.database.ingestionJobs.find k = some row) :
    w'.database.ingestionJobs.find k = some row := by
  obtain ⟨hmem, hk⟩ := Table.find_eq_some.1 hrow
  exact Table.find_eq_some.2 ⟨Table.insertNew_subset h.jobs hmem, hk⟩

/-- A job after a submission is one from before, or a new one. -/
theorem Submitted.mem_jobs (h : Submitted P args w w' s) {row : JobRow}
    (hrow : row ∈ w'.database.ingestionJobs) : row ∈ w.database.ingestionJobs ∨
      row = newJob P args.source.tenantId s.document.id args.sourceVersion s.version.id
        (w.uuids + 2) w.now :=
  Table.mem_insertNew h.jobs hrow

theorem Submitted.mem_documents (h : Submitted P args w w' s) {d : Document}
    (hd : d ∈ w'.database.documents) : d ∈ w.database.documents ∨
      d.id = P.uuid4 w.uuids ∧ d.unique = (args.source.tenantId, args.source.id, args.canonicalKey) ∧
        d.currentVersionId = none := by
  obtain ⟨d₀, hd₀, hinsert⟩ := h.documents
  obtain ⟨hpk, hun, hcurrent, -⟩ := document_eq hd₀
  rcases Table.mem_insertNew hinsert hd with hold | rfl
  · exact Or.inl hold
  · exact Or.inr ⟨congrArg Prod.snd hpk, hun, hcurrent⟩

theorem Submitted.documents_subset (h : Submitted P args w w' s) {d : Document}
    (hd : d ∈ w.database.documents) : d ∈ w'.database.documents := by
  obtain ⟨d₀, -, hinsert⟩ := h.documents
  exact Table.insertNew_subset hinsert hd

/-- A version after a submission is one from before, or the new one of its document. -/
theorem Submitted.mem_versions (h : Submitted P args w w' s) {v : DocumentVersion}
    (hv : v ∈ w'.database.documentVersions) : v ∈ w.database.documentVersions ∨
      v = s.version ∧ v.id = P.uuid4 (w.uuids + 1) ∧
        ∀ v' ∈ w.database.documentVersions, v'.unique ≠ v.unique := by
  obtain ⟨v₀, hpk, hun, -, -, hinsert⟩ := h.versions
  rcases Table.insertNew_cases hinsert with ⟨hsame, -⟩ | ⟨hrows, hnew, -⟩
  · exact Or.inl (hsame ▸ hv)
  · rcases Table.mem_insertNew hinsert hv with hold | rfl
    · exact Or.inl hold
    · have hversion : v = s.version :=
        Table.eq_of_uk hv h.version (hun.trans h.version_unique.symm)
      exact Or.inr ⟨hversion, congrArg Prod.snd hpk, hnew⟩

theorem Submitted.versions_subset (h : Submitted P args w w' s) {v : DocumentVersion}
    (hv : v ∈ w.database.documentVersions) : v ∈ w'.database.documentVersions := by
  obtain ⟨v₀, -, -, -, -, hinsert⟩ := h.versions
  exact Table.insertNew_subset hinsert hv

theorem Submitted.version_documentId (h : Submitted P args w w' s) :
    s.version.documentId = s.document.id :=
  congrArg (fun u => u.2.1) h.version_unique

end GroundedOps.Ingestion
