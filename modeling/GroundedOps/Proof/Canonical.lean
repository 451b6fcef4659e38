import GroundedOps.Lib.Machine
import GroundedOps.Proof.Consistency

/-!
# Submission is canonical

Runs of submissions by any tenants, each in a transaction of its own, from empty tables.

* `SubmissionRun.rows`: one document, one version and one job for each that was submitted.
* `wp_submit_known`: a submission of a stored version finds its document, version and job.
* `submit_conflict`: a submission with other content for a stored version raises.
* `Submitted.elsewhere`: a submission leaves the rows of other tenants alone.
* `submission_canonical`: **all of these, of every run.**
-/

namespace GroundedOps.Ingestion

open Hoare

/-! ## Runs of submissions -/

/-- One call of `submit`, at a time. -/
structure SubmitRequest where
  args : SubmitArgs
  parserVersion : String
  now : ℤ

/-- The world, and the submissions that were successful. -/
structure SubmissionRun where
  world : World := {}
  accepted : List (SubmitArgs × Submission) := []

/-- One call in a transaction: committed when it returns, rolled back when it raises. -/
def SubmissionRun.step (P : Platform) (run : SubmissionRun) (request : SubmitRequest) :
    SubmissionRun :=
  match exec (request.args.transaction P request.parserVersion)
      { run.world with now := request.now } with
  | (.ok submission, world) => ⟨world, run.accepted ++ [(request.args, submission)]⟩
  | (.error _, world) => ⟨world, run.accepted⟩

/-- The document that a submission is about. -/
def SubmitArgs.documentKey (args : SubmitArgs) : String × String × String :=
  (args.source.tenantId, args.source.id, args.canonicalKey)

/-- The version that it is about, of the document that it found. -/
def SubmitArgs.versionKey (args : SubmitArgs) (submission : Submission) :
    String × String × String :=
  (args.source.tenantId, submission.document.id, args.sourceVersion)

/-- The version that a job is of. -/
def JobRow.version (row : JobRow) : String × String := (row.job.tenantId, row.versionId)

variable {P : Platform} {args : SubmitArgs} {parserVersion : String} {w w' : World}
  {s : Submission}

/-- **What `submit` in a transaction does**: `Submitted`, or nothing to the database. -/
theorem wp_submitTransaction : wp (args.transaction P parserVersion)
    (fun s w' => Submitted P args w w' s)
    (fun _ w' => w'.database = w.database ∧ Drawn w w') w := by
  rw [SubmitArgs.transaction, wp_transaction]
  refine wp_mono (@wp_submit P {} args w parserVersion) ?_ ?_
  · rintro s w' ⟨h, -⟩
    exact ⟨fun _ => h, fun _ hf => absurd hf.symm (Option.some_ne_none _)⟩
  · exact fun _ _ h => ⟨rfl, h.index, h.log, h.uuids⟩

/-! ## The rows -/

/-- A submission adds a job exactly when it adds a version. -/
theorem Submitted.jobs_versions (hP : P.CollisionFree) (h : Submitted P args w w' s)
    (hc : Consistent P w.database w.uuids)
    (hrows : w.database.ingestionJobs.rows.map JobRow.version =
      w.database.documentVersions.rows.map DocumentVersion.pk) :
    w'.database.ingestionJobs.rows.map JobRow.version =
      w'.database.documentVersions.rows.map DocumentVersion.pk := by
  have ht : s.version.tenantId = args.source.tenantId := congrArg Prod.fst h.version_unique
  obtain ⟨v, hvpk, hvun, -, -, hvinsert⟩ := h.versions
  have hvs : v.unique = s.version.unique := hvun.trans h.version_unique.symm
  rcases Table.insertNew_cases hvinsert with ⟨hsame, -⟩ | ⟨hmore, hnew, -⟩
  · -- the version is stored, and so is its job
    have hstored : s.version ∈ w.database.documentVersions := hsame ▸ h.version
    obtain ⟨r, hr, hrpk⟩ := hc.version_job s.version hstored
    obtain ⟨v', hv', hvpk', hkey⟩ := hc.job_version r hr
    obtain rfl : v' = s.version := Table.eq_of_pk hv' hstored (hvpk'.trans hrpk)
    have hrt : r.job.tenantId = args.source.tenantId := (congrArg Prod.fst hrpk).trans ht
    have hversion : s.version.sourceVersion = args.sourceVersion :=
      congrArg (fun u => u.2.2) h.version_unique
    have hun : r.unique = (newJob P args.source.tenantId s.document.id args.sourceVersion
        s.version.id (w.uuids + 2) w.now).unique := by
      rw [JobRow.unique, hkey, hrt, h.version_documentId, hversion]
      rfl
    have hjobs : w'.database.ingestionJobs = w.database.ingestionJobs :=
      Option.some.inj (h.jobs.symm.trans (Table.insertNew_of_mem hr hun))
    rw [hjobs, hsame, hrows]
  · -- the version is new, so its key is
    have hfresh : ∀ v' ∈ w.database.documentVersions, v'.unique ≠ s.version.unique :=
      fun v' hv' => hvs ▸ hnew v' hv'
    have hsv : s.version = v := by
      have hmem : v ∈ w'.database.documentVersions := by
        rw [← Table.mem_rows, hmore]
        exact List.mem_append_right _ List.mem_cons_self
      exact Table.eq_of_uk h.version hmem hvs.symm
    have hcolon : ':' ∉ s.document.id.toList := by
      have hc' := h.consistent hP hc
      exact hc'.no_colon hP h.document
    obtain ⟨r, hr, hrpk⟩ := h.exists_job hP hc hcolon hfresh
    rcases Table.insertNew_cases h.jobs with ⟨hjobs, -⟩ | ⟨hjobs, -⟩
    · -- an old job is that of an old version, which this one is not
      obtain ⟨v', hv', hvpk', -⟩ := hc.job_version r (hjobs ▸ hr)
      have hmem' := h.versions_subset hv'
      obtain rfl : v' = s.version := Table.eq_of_pk hmem' h.version (hvpk'.trans hrpk)
      exact absurd rfl (hfresh s.version hv')
    · have hnewpk : (newJob P args.source.tenantId s.document.id args.sourceVersion s.version.id
          (w.uuids + 2) w.now).version = s.version.pk := by
        rw [DocumentVersion.pk, ht]
        rfl
      rw [hjobs, hmore, List.map_append, List.map_append, hrows, List.map_singleton,
        List.map_singleton, hnewpk, hsv]

/-- The tables after a run of submissions: their keys are those submitted, each once and in
the order of first submission, and every version has one job. -/
structure SubmissionRun.Canonical (P : Platform) (run : SubmissionRun) : Prop where
  consistent : Consistent P run.world.database run.world.uuids
  documents : run.world.database.documents.rows.map Document.unique =
    Dict.firsts id (run.accepted.map fun entry => entry.1.documentKey)
  versions : run.world.database.documentVersions.rows.map DocumentVersion.unique =
    Dict.firsts id (run.accepted.map fun entry => entry.1.versionKey entry.2)
  jobs : run.world.database.ingestionJobs.rows.map JobRow.version =
    run.world.database.documentVersions.rows.map DocumentVersion.pk

theorem SubmissionRun.Canonical.step (hP : P.CollisionFree) {run : SubmissionRun}
    (h : run.Canonical P) (request : SubmitRequest) : (run.step P request).Canonical P := by
  have hdo := @wp_submitTransaction P request.args request.parserVersion
    { run.world with now := request.now }
  unfold SubmissionRun.step
  split
  · rename_i s w' hrun
    have hsub := wp_ok hdo hrun
    refine ⟨hsub.consistent hP h.consistent, ?_, ?_, hsub.jobs_versions hP h.consistent h.jobs⟩
    · obtain ⟨d, hd, hinsert⟩ := hsub.documents
      rw [List.map_append, List.map_singleton, SubmitArgs.documentKey, ← (document_eq hd).2.1]
      exact Table.keys_insertNew h.documents hinsert
    · obtain ⟨v, -, hun, -, -, hinsert⟩ := hsub.versions
      rw [List.map_append, List.map_singleton, SubmitArgs.versionKey, ← hun]
      exact Table.keys_insertNew h.versions hinsert
  · rename_i e w' hrun
    obtain ⟨hdb, hdrawn⟩ := wp_error hdo hrun
    have hc : Consistent P w'.database w'.uuids := by
      rw [hdb]
      exact h.consistent.mono hdrawn.uuids
    exact ⟨hc, hdb ▸ h.documents, hdb ▸ h.versions, hdb ▸ h.jobs⟩

theorem SubmissionRun.canonical (hP : P.CollisionFree) (requests : List SubmitRequest) :
    (Machine.run (SubmissionRun.step P) {} requests).Canonical P := by
  refine Machine.run_inv (I := SubmissionRun.Canonical P) (fun run request h => h.step hP request) ?_
  exact ⟨Consistent.empty P 0, rfl, rfl, rfl⟩

/-! ## VersionStored versions -/

/-- The version of the document that the arguments name is stored. -/
structure VersionStored (db : Database) (args : SubmitArgs) (document : Document)
    (version : DocumentVersion) : Prop where
  document_mem : document ∈ db.documents
  document_unique : document.unique = args.documentKey
  version_mem : version ∈ db.documentVersions
  version_unique : version.unique = (args.source.tenantId, document.id, args.sourceVersion)

variable {db : Database} {document : Document} {version : DocumentVersion} {row : JobRow}

/-- The job of a version has the version's key. -/
theorem VersionStored.job_unique (h : VersionStored db args document version) {uuids : ℕ}
    (hc : Consistent P db uuids) (hrow : row ∈ db.ingestionJobs)
    (hversion : row.version = version.pk) :
    row.unique = (args.source.tenantId, P.keyOf document.id args.sourceVersion) := by
  obtain ⟨v, hv, hpk, hkey⟩ := hc.job_version row hrow
  obtain rfl : v = version := Table.eq_of_pk hv h.version_mem (hpk.trans hversion)
  have ht : row.job.tenantId = args.source.tenantId :=
    (congrArg Prod.fst hpk).symm.trans (congrArg Prod.fst h.version_unique)
  have hdocument : v.documentId = document.id := congrArg (fun u => u.2.1) h.version_unique
  have hsource : v.sourceVersion = args.sourceVersion := congrArg (fun u => u.2.2) h.version_unique
  rw [JobRow.unique, hkey, ht, hdocument, hsource]

/-- The candidates of a submission of a stored version pass the constructors' checks. -/
theorem VersionStored.candidates (h : VersionStored db args document version)
    (hparser : validIdentifier parserVersion = true) (id id' : String) :
    ∃ d v, args.source.document id args.canonicalKey = some d ∧
      d.version id' args.sourceVersion args.contentHash args.sourceTimestamp parserVersion =
        some v := by
  have hkey : document.canonicalKey = args.canonicalKey :=
    congrArg (fun u => u.2.2) h.document_unique
  have hsource : version.sourceVersion = args.sourceVersion :=
    congrArg (fun u => u.2.2) h.version_unique
  have htext : validText args.canonicalKey = true := hkey ▸ document.canonicalKey_valid
  have hids : (validIdentifier args.sourceVersion && validIdentifier parserVersion) = true := by
    have hold := version.identifiers_valid
    rw [Bool.and_eq_true] at hold ⊢
    exact ⟨hsource ▸ hold.1, hparser⟩
  refine ⟨_, _, dif_pos htext, dif_pos hids⟩

/-- **A submission of a stored version finds it**, with its document and its job, and inserts
nothing. -/
theorem wp_submit_known (hc : Consistent P w.database w.uuids)
    (h : VersionStored w.database args document version) (hhash : version.contentHash = args.contentHash)
    (hparser : validIdentifier parserVersion = true) (hrow : row ∈ w.database.ingestionJobs)
    (hversion : row.version = version.pk) :
    wp (IngestionRepository.submit P {} args.source args.canonicalKey args.sourceVersion
        args.contentHash args.sourceTimestamp parserVersion)
      (fun s w' => s = ⟨document, version, row.job⟩ ∧
        w'.database = { w.database with sources := w.database.sources.upsert args.source })
      (fun _ _ => False) w := by
  obtain ⟨d, v, hd, hv⟩ := h.candidates hparser (P.uuid4 w.uuids) (P.uuid4 (w.uuids + 1))
  obtain ⟨-, hdun, -, -⟩ := document_eq hd
  obtain ⟨hvpk, hvsource, -, -⟩ := version_eq hv
  have htenant : d.tenantId = args.source.tenantId := congrArg Prod.fst hdun
  -- each insertion finds its key taken
  have hdocuments : w.database.documents.insertNew d = some w.database.documents :=
    Table.insertNew_of_mem h.document_mem (h.document_unique.trans hdun.symm)
  have hlookup : w.database.documents.lookup (args.source.tenantId, args.source.id,
      args.canonicalKey) = some document :=
    Table.lookup_eq_some.2 ⟨h.document_mem, h.document_unique⟩
  have hvun : ({ v with documentId := document.id } : DocumentVersion).unique = version.unique := by
    have hvt : v.tenantId = args.source.tenantId := (congrArg Prod.fst hvpk).trans htenant
    rw [h.version_unique]
    exact Prod.ext hvt (Prod.ext rfl hvsource)
  have hversions : w.database.documentVersions.insertNew { v with documentId := document.id } =
      some w.database.documentVersions :=
    Table.insertNew_of_mem h.version_mem hvun.symm
  have hlookup' : w.database.documentVersions.lookup (args.source.tenantId, document.id,
      args.sourceVersion) = some version :=
    Table.lookup_eq_some.2 ⟨h.version_mem, h.version_unique⟩
  have hun := h.job_unique hc hrow hversion
  have hjobs : w.database.ingestionJobs.insertNew (newJob P args.source.tenantId document.id
      args.sourceVersion version.id (w.uuids + 2) w.now) = some w.database.ingestionJobs :=
    Table.insertNew_of_mem hrow hun
  have hlookup'' : w.database.ingestionJobs.lookup (args.source.tenantId,
      P.keyOf document.id args.sourceVersion) = some row :=
    Table.lookup_eq_some.2 ⟨hrow, hun⟩
  unfold newJob at hjobs
  simp only [IngestionRepository.submit, IngestionRepository.insertDocument,
    IngestionRepository.insertVersion, IngestionRepository.insertJob, wp_bind, wp_reach, wp_uuid4,
    wp_orRaise, wp_readDatabase, wp_writeDatabase, hd, hv, Option.some.injEq, reduceCtorEq,
    forall_eq', false_imp_iff, and_true, hdocuments, hlookup, hversions, hlookup', hhash]
  refine ⟨fun _ => ?_, fun _ => trivial⟩
  rw [if_neg (not_not.2 rfl)]
  simp only [wp_bind, wp_uuid4, Hoare.wp_get, wp_readDatabase, wp_orRaise, wp_writeDatabase,
    wp_pure, hjobs, hlookup'', Option.some.injEq, reduceCtorEq, forall_eq', false_imp_iff,
    and_true]

/-- **A submission with other content for a stored version raises.** -/
theorem submit_conflict (h : VersionStored w.database args document version)
    (hhash : version.contentHash ≠ args.contentHash) :
    wp (args.transaction P parserVersion) (fun _ _ => False)
      (fun _ w' => w'.database = w.database) w := by
  refine wp_mono (wp_submitTransaction (P := P) (w := w)) (fun s w' hs => hhash ?_)
    fun _ _ hraised => hraised.1
  -- what is submitted has the stored version's key, hence is the stored version
  have hdocument : s.document = document :=
    Table.eq_of_uk hs.document (hs.documents_subset h.document_mem)
      (hs.document_unique.trans h.document_unique.symm)
  have hun : s.version.unique = version.unique := by
    rw [hs.version_unique, h.version_unique, hdocument]
  have hversion : s.version = version :=
    Table.eq_of_uk hs.version (hs.versions_subset h.version_mem) hun
  rw [← hversion]
  exact hs.contentHash

/-! ## Other tenants -/

/-- Every row of every other tenant is as it was. -/
structure SameElsewhere (tenantId : String) (db db' : Database) : Prop where
  sources : db'.sources.rows.filter (·.tenantId ≠ tenantId) =
    db.sources.rows.filter (·.tenantId ≠ tenantId)
  documents : db'.documents.rows.filter (·.tenantId ≠ tenantId) =
    db.documents.rows.filter (·.tenantId ≠ tenantId)
  versions : db'.documentVersions.rows.filter (·.tenantId ≠ tenantId) =
    db.documentVersions.rows.filter (·.tenantId ≠ tenantId)
  jobs : db'.ingestionJobs.rows.filter (·.job.tenantId ≠ tenantId) =
    db.ingestionJobs.rows.filter (·.job.tenantId ≠ tenantId)

/-- An inserted row changes no selection that leaves it out. -/
theorem filter_insertNew {ρ κ ν : Type} [DecidableEq κ] [DecidableEq ν] {pk : ρ → κ} {uk : ρ → ν}
    {t t' : Table pk uk} {r : ρ} {p : ρ → Bool} (h : t.insertNew r = some t') (hr : p r = false) :
    t'.rows.filter p = t.rows.filter p := by
  rcases Table.insertNew_cases h with ⟨rfl, -⟩ | ⟨hrows, -⟩
  · rfl
  · have hnone : [r].filter p = [] := List.filter_cons_of_neg (by rw [hr]; exact Bool.false_ne_true)
    rw [hrows, List.filter_append, hnone, List.append_nil]

theorem filter_upsert (sources : Sources) (source : Source) :
    (sources.upsert source).rows.filter (·.tenantId ≠ source.tenantId) =
      sources.rows.filter (·.tenantId ≠ source.tenantId) := by
  unfold Sources.upsert
  split
  · unfold Table.put
    split
    · refine Lists.filter_map_eq (fun row => ?_) fun row hrow => ?_
      · split
        · rename_i hpk
          rw [show row.tenantId = source.tenantId from congrArg Prod.fst hpk]
        · rfl
      · refine if_neg fun hpk => ?_
        exact (of_decide_eq_true hrow) (congrArg Prod.fst hpk)
    · have hnone : [source].filter (fun row => decide (row.tenantId ≠ source.tenantId)) = [] := by
        simp
      rw [List.filter_append, hnone, List.append_nil]
  · refine Lists.filter_map_eq (fun row => ?_) fun row hrow => ?_
    · split
      · rfl
      · rfl
    · refine if_neg fun hpk => ?_
      exact (of_decide_eq_true hrow) (congrArg Prod.fst hpk)

theorem Submitted.elsewhere (h : Submitted P args w w' s) :
    SameElsewhere args.source.tenantId w.database w'.database := by
  obtain ⟨d, hd, hdinsert⟩ := h.documents
  obtain ⟨v, hvpk, -, -, -, hvinsert⟩ := h.versions
  have htd : d.tenantId = args.source.tenantId := congrArg Prod.fst (document_eq hd).1
  have htv : v.tenantId = args.source.tenantId := congrArg Prod.fst hvpk
  refine ⟨?_, filter_insertNew hdinsert ?_, filter_insertNew hvinsert ?_,
    filter_insertNew h.jobs ?_⟩
  · rw [h.sources]
    exact filter_upsert w.database.sources args.source
  · exact decide_eq_false (not_not.2 htd)
  · exact decide_eq_false (not_not.2 htv)
  · exact decide_eq_false (not_not.2 rfl)

/-! ## The result -/

/-- Submission is canonical and idempotent. -/
structure CanonicalSubmissions (P : Platform) : Prop where
  /-- after every run: one document, one version and one job for each submitted -/
  rows : ∀ requests : List SubmitRequest,
    (Machine.run (SubmissionRun.step P) {} requests).Canonical P
  /-- a version submitted again is found, with its document and its job, whatever the job's
  progress -/
  again : ∀ (w : World) (args : SubmitArgs) (parserVersion : String) (document : Document)
    (version : DocumentVersion), Consistent P w.database w.uuids →
    VersionStored w.database args document version → version.contentHash = args.contentHash →
    validIdentifier parserVersion = true →
    ∃ row ∈ w.database.ingestionJobs, row.version = version.pk ∧
      ∃ w', exec (args.transaction P parserVersion) w = (.ok ⟨document, version, row.job⟩, w') ∧
        w'.database = { w.database with sources := w.database.sources.upsert args.source }
  /-- other content for it raises -/
  conflict : ∀ (w : World) (args : SubmitArgs) (parserVersion : String) (document : Document)
    (version : DocumentVersion), VersionStored w.database args document version →
    version.contentHash ≠ args.contentHash →
    ∃ raised w', exec (args.transaction P parserVersion) w = (.error raised, w') ∧
      w'.database = w.database
  elsewhere : ∀ (w : World) (args : SubmitArgs) (parserVersion : String),
    SameElsewhere args.source.tenantId w.database
      (exec (args.transaction P parserVersion) w).2.database

/-- **Submission is canonical and idempotent**, for every run of every number of tenants. -/
theorem submission_canonical (hP : P.CollisionFree) : CanonicalSubmissions P := by
  refine ⟨SubmissionRun.canonical hP, ?_, ?_, ?_⟩
  · intro w args parserVersion document version hc h hhash hparser
    obtain ⟨row, hrow, hversion⟩ := hc.version_job version h.version_mem
    refine ⟨row, hrow, hversion, ?_⟩
    have hdo : wp (args.transaction P parserVersion)
        (fun s w' => s = ⟨document, version, row.job⟩ ∧
          w'.database = { w.database with sources := w.database.sources.upsert args.source })
        (fun _ _ => False) w := by
      rw [SubmitArgs.transaction, wp_transaction]
      refine wp_mono (wp_submit_known hc h hhash hparser hrow hversion) (fun s w' hs => ?_)
        fun _ _ hf => hf
      exact ⟨fun _ => hs, fun _ hf => absurd hf.symm (Option.some_ne_none _)⟩
    cases hrun : exec (args.transaction P parserVersion) w with
    | mk result w' =>
      cases result with
      | ok s =>
        obtain ⟨rfl, hdb⟩ := wp_ok hdo hrun
        exact ⟨w', rfl, hdb⟩
      | error raised => exact absurd (wp_error hdo hrun) id
  · intro w args parserVersion document version h hhash
    have hdo : wp (args.transaction P parserVersion) (fun _ _ => False)
        (fun _ w' => w'.database = w.database) w := submit_conflict h hhash
    cases hrun : exec (args.transaction P parserVersion) w with
    | mk result w' =>
      cases result with
      | ok s => exact absurd (wp_ok hdo hrun) id
      | error raised => exact ⟨raised, w', rfl, wp_error hdo hrun⟩
  · intro w args parserVersion
    refine wp_state (P := fun w' : World =>
      SameElsewhere args.source.tenantId w.database w'.database) ?_
    refine wp_mono (wp_submitTransaction (P := P) (w := w)) (fun s w' h => h.elsewhere) ?_
    rintro raised w' ⟨hdb, -⟩
    rw [hdb]
    exact ⟨rfl, rfl, rfl, rfl⟩

theorem submission_canonical_plain : CanonicalSubmissions .plain :=
  submission_canonical Platform.plain_collisionFree

end GroundedOps.Ingestion
