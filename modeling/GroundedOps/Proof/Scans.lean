import GroundedOps.Proof.Agreement
import GroundedOps.Proof.Promotion
import GroundedOps.Spec.Markdown

/-!
# The current version and the corpus file

* `scan_accepted`: what a scan says of a fixture that it accepts.
* `Recorded`: a version carries the time of the first submission of its content.
* `Promoted`: the current version of a document is the newest that has a completed job.
* `current_follows`: **once all jobs are completed, the current version is that of the content
  scanned last exactly when no other content was first scanned after it.**
-/

namespace GroundedOps.Ingestion

/-! ## Scans -/

namespace MarkdownCorpus

variable {P : Platform} {corpus : MarkdownCorpus} {snapshot : Snapshot} {capturedAt : ℤ}
  {previous : List (String × CorpusEvent)} {events : List CorpusEvent} {e : CorpusEvent}

/-- The kinds that `submit_event` takes. -/
def accepted (kind : SourceEventKind) : Bool := kind ∈ [.new, .changed, .unchanged]

theorem event_accepted {old : Option CorpusEvent} {source : Source} {entry : ManifestEntry}
    (h : accepted (event P snapshot capturedAt old source entry).kind = true) :
    ∃ content, snapshot.fixture entry.fixture = .content content ∧ validContent content = true ∧
      (event P snapshot capturedAt old source entry).toSourceEvent =
        { kind := changeKind old (P.sha256 content), source, canonicalKey := entry.fixture
          sourceVersion := P.sha256 content, sourceTimestamp := capturedAt
          content := some content } := by
  unfold event at h ⊢
  cases hfixture : snapshot.fixture entry.fixture with
  | missing =>
    rw [hfixture] at h
    cases old with
    | none => cases h
    | some old => cases h
  | refused =>
    rw [hfixture] at h
    cases h
  | content content =>
    rw [hfixture] at h
    dsimp only at h ⊢
    by_cases hvalid : validContent content = true
    · rw [if_pos hvalid]
      exact ⟨content, rfl, hvalid, rfl⟩
    · rw [if_neg hvalid] at h
      cases h

/-- **An accepted event carries the content of its fixture**, under the digest of the content
and the time of the scan. -/
theorem scan_accepted (hscan : corpus.scan P snapshot (some capturedAt) previous = some events)
    (he : e ∈ events) (haccepted : accepted e.kind = true) :
    ∃ content, snapshot.fixture e.canonicalKey = .content content ∧ validContent content = true ∧
      e.sourceVersion = P.sha256 content ∧ e.sourceTimestamp = capturedAt ∧
      e.content = some content := by
  unfold scan at hscan
  simp only [Option.bind_eq_bind, Option.bind_some, Option.bind_eq_some_iff, Option.pure_def,
    Option.some.injEq] at hscan
  obtain ⟨-, -, entries, -, rfl⟩ := hscan
  rw [List.mem_mergeSort, List.mem_append] at he
  rcases he with hentry | hgone
  · obtain ⟨⟨source, entry⟩, -, rfl⟩ := List.mem_map.1 hentry
    obtain ⟨content, hfixture, hvalid, heq⟩ := event_accepted haccepted
    dsimp only
    rw [heq]
    exact ⟨content, hfixture, hvalid, rfl, rfl, rfl⟩
  · obtain ⟨item, -, rfl⟩ := List.mem_map.1 hgone
    cases haccepted

end MarkdownCorpus

/-! ## First submissions -/

/-- The document that an event is about, by its unique key. -/
def SourceEvent.file (event : SourceEvent) : String × String × String :=
  (event.source.tenantId, event.source.id, event.canonicalKey)

/-- The submissions of one document. -/
def submissionsOf (submissions : List SourceEvent) (file : String × String × String) :
    List SourceEvent :=
  submissions.filter fun event => event.file = file

/-- The version was made of the event. -/
structure DocumentVersion.MadeOf (P : Platform) (version : DocumentVersion) (event : SourceEvent) :
    Prop where
  sourceVersion : version.sourceVersion = event.sourceVersion
  sourceTimestamp : version.sourceTimestamp = event.sourceTimestamp
  contentHash : ∃ content, event.content = some content ∧ version.contentHash = P.sha256 content

/-- Every version was made of the first submission of its content, and every submission has
its version. -/
structure Recorded (P : Platform) (db : Database) (submissions : List SourceEvent) : Prop where
  first : ∀ d ∈ db.documents, ∀ v ∈ db.documentVersions, (v.tenantId, v.documentId) = d.pk →
    ∃ event, (submissionsOf submissions d.unique).find?
      (fun e => e.sourceVersion = v.sourceVersion) = some event ∧ v.MadeOf P event
  stored : ∀ event ∈ submissions, ∃ d ∈ db.documents, d.unique = event.file ∧
    ∃ v ∈ db.documentVersions, (v.tenantId, v.documentId) = d.pk ∧
      v.sourceVersion = event.sourceVersion

section Recorded

variable {P : Platform} {db db' : Database} {submissions : List SourceEvent}

theorem Recorded.same (h : Recorded P db submissions) (hs : SameRows db db') :
    Recorded P db' submissions := by
  refine ⟨fun d hd v hv hdoc => ?_, fun event hevent => ?_⟩
  · obtain ⟨d₀, hd₀, hpk, hun⟩ := hs.document hd
    obtain ⟨v₀, hv₀, hbare⟩ := hs.versions.mem hv
    obtain ⟨hdoc₀, -, hsv, hst, hhash⟩ := version_of_bare hbare
    obtain ⟨event, hfirst, hmade⟩ := h.first d₀ hd₀ v₀ hv₀ (hdoc₀.trans (hdoc.trans hpk.symm))
    rw [hun, hsv] at hfirst
    refine ⟨event, hfirst, hsv.symm.trans hmade.sourceVersion, hst.symm.trans hmade.sourceTimestamp,
      ?_⟩
    obtain ⟨content, hcontent, hdigest⟩ := hmade.contentHash
    exact ⟨content, hcontent, hhash.symm.trans hdigest⟩
  · obtain ⟨d, hd, hfile, v, hv, hdoc, hsv⟩ := h.stored event hevent
    obtain ⟨d', hd', hpk, hun⟩ := hs.symm.document hd
    obtain ⟨v', hv', hbare⟩ := hs.versions.symm.mem hv
    obtain ⟨hdoc', -, hsv', -, -⟩ := version_of_bare hbare
    exact ⟨d', hd', hun.trans hfile, v', hv', hdoc'.trans (hdoc.trans hpk.symm), hsv'.trans hsv⟩

theorem submissionsOf_append {more : List SourceEvent} {file : String × String × String} :
    submissionsOf (submissions ++ more) file =
      submissionsOf submissions file ++ submissionsOf more file :=
  List.filter_append ..

/-- **A submission that commits is recorded**, as the first of its content if no other was. -/
theorem Submitted.recorded {w w' : World} {s : Submission} {source : SourceEvent}
    {content : ByteArray} (hcontent : source.content = some content)
    (hc : Consistent P w.database w.uuids) (h : Recorded P w.database submissions)
    (hs : Submitted P (source.args P content) w w' s) :
    Recorded P w'.database (submissions ++ [source]) := by
  obtain ⟨v₀, -, hun₀, hhash₀, hstamp₀, hinsert⟩ := hs.versions
  have htd : s.document.tenantId = source.source.tenantId := congrArg Prod.fst hs.document_unique
  have ht₀ : v₀.tenantId = source.source.tenantId := congrArg Prod.fst hun₀
  have hd₀ : v₀.documentId = s.document.id := congrArg (fun u => u.2.1) hun₀
  have hsv₀ : v₀.sourceVersion = source.sourceVersion := congrArg (fun u => u.2.2) hun₀
  have hpk : (v₀.tenantId, v₀.documentId) = s.document.pk := by rw [ht₀, hd₀, ← htd]; rfl
  refine ⟨fun d hd v hv hdoc => ?_, fun event hevent => ?_⟩
  · have hcase : v ∈ w.database.documentVersions ∨ v = v₀ ∧
        ∀ v' ∈ w.database.documentVersions, v'.unique ≠ v₀.unique := by
      rcases Table.insertNew_cases hinsert with ⟨hsame, -⟩ | ⟨-, hnew, -⟩
      · exact Or.inl (hsame ▸ hv)
      · exact (Table.mem_insertNew hinsert hv).imp id fun heq => ⟨heq, hnew⟩
    -- a version is an old one, or the one this submission made
    rcases hcase with hold | ⟨rfl, hnew⟩
    · obtain ⟨d₁, hd₁, hpk₁⟩ := hc.version_document v hold
      obtain rfl : d = d₁ :=
        Table.eq_of_pk hd (hs.documents_subset hd₁) (hdoc.symm.trans hpk₁.symm)
      obtain ⟨event, hfirst, hmade⟩ := h.first d hd₁ v hold hdoc
      refine ⟨event, ?_, hmade⟩
      rw [submissionsOf_append, List.find?_append, hfirst, Option.some_or]
    · -- no earlier submission of the document was of this content
      obtain rfl : d = s.document := Table.eq_of_pk hd hs.document (hdoc.symm.trans hpk)
      have hfile : source.file = s.document.unique := hs.document_unique.symm
      have hnone : (submissionsOf submissions s.document.unique).find?
          (fun e => e.sourceVersion = v.sourceVersion) = none := by
        rw [List.find?_eq_none]
        intro e he hsame
        obtain ⟨hmem, hefile⟩ := List.mem_filter.1 he
        obtain ⟨d₁, hd₁, hfile₁, v₁, hv₁, hdoc₁, hsv₁⟩ := h.stored e hmem
        obtain rfl : d₁ = s.document := Table.eq_of_uk (hs.documents_subset hd₁) hs.document
          (hfile₁.trans (of_decide_eq_true hefile))
        have hkeys := hdoc₁.trans hdoc.symm
        have ht₁ : v₁.tenantId = v.tenantId := congrArg Prod.fst hkeys
        have hdid₁ : v₁.documentId = v.documentId := congrArg Prod.snd hkeys
        refine hnew v₁ hv₁ ?_
        rw [DocumentVersion.unique, DocumentVersion.unique, ht₁, hdid₁, hsv₁,
          of_decide_eq_true hsame]
      refine ⟨source, ?_, hsv₀, hstamp₀, content, hcontent, hhash₀⟩
      have hone : submissionsOf [source] s.document.unique = [source] :=
        List.filter_cons_of_pos (decide_eq_true hfile)
      rw [submissionsOf_append, List.find?_append, hnone, Option.none_or, hone]
      exact List.find?_cons_of_pos (decide_eq_true hsv₀.symm)
  · rcases List.mem_append.1 hevent with hold | hnew
    · obtain ⟨d, hd, hfile, v, hv, hrest⟩ := h.stored event hold
      exact ⟨d, hs.documents_subset hd, hfile, v, hs.versions_subset hv, hrest⟩
    · obtain rfl := List.mem_singleton.1 hnew
      have htv : s.version.tenantId = event.source.tenantId := congrArg Prod.fst hs.version_unique
      refine ⟨s.document, hs.document, hs.document_unique, s.version, hs.version, ?_,
        congrArg (fun u => u.2.2) hs.version_unique⟩
      rw [htv, hs.version_documentId, ← htd]
      rfl

end Recorded

/-! ## The newest completed version -/

/-- No document is deleted, and the current version of each is the newest of its versions that
have a completed job. -/
structure Promoted (P : Platform) (db : Database) : Prop where
  opened : ∀ d ∈ db.documents, d.deleted = false
  known : ∀ d ∈ db.documents, ∀ versionId, d.currentVersionId = some versionId →
    ∃ u ∈ db.documentVersions, u.id = versionId ∧ (u.tenantId, u.documentId) = d.pk
  newest : ∀ d ∈ db.documents, ∀ v ∈ db.documentVersions, (v.tenantId, v.documentId) = d.pk →
    db.ingestionJobs.completed v.pk →
    ∃ u ∈ db.documentVersions, d.currentVersionId = some u.id ∧
      (u.tenantId, u.documentId) = d.pk ∧ P.versionLe v u = true

section Promoted

variable {P : Platform} {db db' : Database}

theorem versionLe_of_bare {u u' v v' : DocumentVersion} (hu : u'.bare = u.bare)
    (hv : v'.bare = v.bare) (h : P.versionLe u v = true) : P.versionLe u' v' = true := by
  unfold Platform.versionLe at h ⊢
  rw [(bare_eq hu).2.2.2, (bare_eq hv).2.2.2]
  exact h

/-- Only the references of versions and what is not completed have changed. -/
theorem Promoted.congr (h : Promoted P db) (hd : db'.documents = db.documents)
    (hv : SameVersions db.documentVersions db'.documentVersions)
    (hj : ∀ k, db'.ingestionJobs.completed k ↔ db.ingestionJobs.completed k) : Promoted P db' := by
  refine ⟨fun d hdm => h.opened d (hd ▸ hdm), fun d hdm versionId hcurrent => ?_,
    fun d hdm v hvm hdoc hcompleted => ?_⟩
  · obtain ⟨u, hu, hid, hdoc⟩ := h.known d (hd ▸ hdm) versionId hcurrent
    obtain ⟨u', hu', hbare⟩ := hv.symm.mem hu
    obtain ⟨hdoc', hid', -⟩ := version_of_bare hbare
    exact ⟨u', hu', hid'.trans hid, hdoc'.trans hdoc⟩
  · obtain ⟨v₀, hv₀, hbare⟩ := hv.mem hvm
    obtain ⟨hdoc₀, -⟩ := version_of_bare hbare
    have hcompleted₀ : db.ingestionJobs.completed v₀.pk := by
      rw [(bare_eq hbare).1, ← hj]
      exact hcompleted
    obtain ⟨u, hu, hcurrent, hdocu, hle⟩ :=
      h.newest d (hd ▸ hdm) v₀ hv₀ (hdoc₀.trans hdoc) hcompleted₀
    obtain ⟨u', hu', hbareu⟩ := hv.symm.mem hu
    obtain ⟨hdocu', hidu', -⟩ := version_of_bare hbareu
    exact ⟨u', hu', by rw [hcurrent, hidu'], hdocu'.trans hdocu,
      versionLe_of_bare hbare.symm hbareu hle⟩

theorem promotedTo_pk {versions : DocumentVersions} {version : DocumentVersion} {d : Document} :
    (d.promotedTo P versions version).pk = d.pk := by
  unfold Document.promotedTo
  split
  · rfl
  · rfl

/-- What is current in the document of a version once it is promoted: a version that is at least as new
as it, and as those that were completed before. -/
theorem Promoted.current (hc : ∀ v ∈ db.documentVersions, ∀ v' ∈ db.documentVersions,
      v.id = v'.id → v = v')
    (h : Promoted P db) {version : DocumentVersion} (hversion : version ∈ db.documentVersions)
    {d : Document} (hd : d ∈ db.documents) (hdoc : d.pk = (version.tenantId, version.documentId)) :
    ∃ u ∈ db.documentVersions,
      (d.promotedTo P db.documentVersions version).currentVersionId = some u.id ∧
        (u.tenantId, u.documentId) = d.pk ∧ P.versionLe version u = true ∧
        ∀ v ∈ db.documentVersions, (v.tenantId, v.documentId) = d.pk →
          db.ingestionJobs.completed v.pk → P.versionLe v u = true := by
  have hself : P.versionLe version version = true := (versionLe_total P version version).elim id id
  by_cases hguard : d.promotable P db.documentVersions version = true
  · refine ⟨version, hversion, ?_, hdoc.symm, hself, fun v hv hdocv hcompleted => ?_⟩
    · rw [Document.promotedTo, if_pos ⟨hdoc, hguard⟩]
    · -- the version that was current is newer than `v`, and older than the promoted one
      obtain ⟨u, hu, hcurrent, hdocu, hle⟩ := h.newest d hd v hv hdocv hcompleted
      have htu : u.tenantId = version.tenantId := congrArg Prod.fst (hdocu.trans hdoc)
      have hfind : db.documentVersions.find (version.tenantId, u.id) = some u :=
        htu ▸ Table.find_of_mem hu
      unfold Document.promotable at hguard
      rw [hcurrent] at hguard
      simp only [hfind, Bool.and_eq_true] at hguard
      exact versionLe_trans P v u version hle hguard.2
  · have hkept : d.promotedTo P db.documentVersions version = d := by
      rw [Document.promotedTo, if_neg fun hand => hguard hand.2]
    rw [hkept]
    cases hcurrent : d.currentVersionId with
    | none =>
      -- an open document without a current version takes any
      refine absurd ?_ hguard
      rw [Document.promotable, hcurrent, h.opened d hd]
      rfl
    | some versionId =>
      obtain ⟨u, hu, rfl, hdocu⟩ := h.known d hd versionId hcurrent
      have htu : u.tenantId = version.tenantId := congrArg Prod.fst (hdocu.trans hdoc)
      have hfind : db.documentVersions.find (version.tenantId, u.id) = some u :=
        htu ▸ Table.find_of_mem hu
      -- the guard has failed, so the current version is at least as new
      have hnewer : P.versionLe version u = true := by
        refine (versionLe_total P version u).resolve_right fun hle => hguard ?_
        rw [Document.promotable, hcurrent, h.opened d hd]
        simp only [hfind]
        exact hle
      refine ⟨u, hu, rfl, hdocu, hnewer, fun v hv hdocv hcompleted => ?_⟩
      obtain ⟨u', hu', hcurrent', -, hle⟩ := h.newest d hd v hv hdocv hcompleted
      rw [hcurrent] at hcurrent'
      obtain rfl := hc u hu u' hu' (Option.some.inj hcurrent')
      exact hle

/-- **A promotion that completes a version** keeps the newest one current. -/
theorem Promoted.promote (hc : ∀ v ∈ db.documentVersions, ∀ v' ∈ db.documentVersions,
      v.id = v'.id → v = v')
    (h : Promoted P db) {version : DocumentVersion} (hversion : version ∈ db.documentVersions)
    {jobs : IngestionJobs}
    (hj : ∀ k, jobs.completed k ↔ db.ingestionJobs.completed k ∨ k = version.pk) :
    Promoted P { db.promoted P version with ingestionJobs := jobs } := by
  refine ⟨fun d hd => ?_, fun d hd versionId hcurrent => ?_, fun d hd v hv hdoc hcompleted => ?_⟩
  · obtain ⟨old, hold, rfl⟩ := mem_promoted.1 hd
    unfold Document.promotedTo
    split
    · exact h.opened old hold
    · exact h.opened old hold
  · obtain ⟨old, hold, rfl⟩ := mem_promoted.1 hd
    rw [promotedTo_pk]
    by_cases hdoc : old.pk = (version.tenantId, version.documentId)
    · obtain ⟨u, hu, hcurrentu, hdocu, -⟩ := h.current hc hversion hold hdoc
      rw [hcurrentu] at hcurrent
      exact ⟨u, hu, Option.some.inj hcurrent, hdocu⟩
    · rw [promotedTo_of_ne hdoc] at hcurrent
      exact h.known old hold versionId hcurrent
  · obtain ⟨old, hold, rfl⟩ := mem_promoted.1 hd
    rw [promotedTo_pk] at hdoc ⊢
    by_cases hdocu : old.pk = (version.tenantId, version.documentId)
    · obtain ⟨u, hu, hcurrentu, hdocu', hle, hall⟩ := h.current hc hversion hold hdocu
      refine ⟨u, hu, hcurrentu, hdocu', ?_⟩
      rcases (hj v.pk).1 hcompleted with hbefore | hnow
      · exact hall v hv hdoc hbefore
      · rwa [Table.eq_of_pk hv hversion hnow]
    · rw [promotedTo_of_ne hdocu]
      have hbefore : db.ingestionJobs.completed v.pk := by
        refine ((hj v.pk).1 hcompleted).resolve_right fun hnow => hdocu ?_
        rw [← hdoc, Table.eq_of_pk hv hversion hnow]
      exact h.newest old hold v hv hdoc hbefore

/-- A submission completes nothing. -/
theorem Submitted.completed {args : SubmitArgs} {w w' : World} {s : Submission}
    (hs : Submitted P args w w' s) {k : String × String}
    (h : w'.database.ingestionJobs.completed k) : w.database.ingestionJobs.completed k := by
  obtain ⟨r, hr, hk, hstate⟩ := h
  rcases hs.mem_jobs hr with hold | rfl
  · exact ⟨r, hold, hk, hstate⟩
  · cases hstate

theorem Submitted.promoted {args : SubmitArgs} {w w' : World} {s : Submission}
    (hc : Consistent P w.database w.uuids) (h : Promoted P w.database)
    (hs : Submitted P args w w' s) : Promoted P w'.database := by
  refine ⟨fun d hd => ?_, fun d hd versionId hcurrent => ?_, fun d hd v hv hdoc hcompleted => ?_⟩
  · obtain ⟨d₀, hd₀, hinsert⟩ := hs.documents
    rcases Table.mem_insertNew hinsert hd with hold | rfl
    · exact h.opened d hold
    · exact (document_eq hd₀).2.2.2
  · rcases hs.mem_documents hd with hold | ⟨-, -, hnone⟩
    · obtain ⟨u, hu, hid, hdoc⟩ := h.known d hold versionId hcurrent
      exact ⟨u, hs.versions_subset hu, hid, hdoc⟩
    · rw [hnone] at hcurrent
      cases hcurrent
  · -- a version with a completed job was there before, and so was its document
    have hbefore := hs.completed hcompleted
    have ⟨r, hr, hk, _⟩ := hbefore
    obtain ⟨v₁, hv₁, hpk₁, -⟩ := hc.job_version r hr
    obtain rfl : v₁ = v := Table.eq_of_pk (hs.versions_subset hv₁) hv (hpk₁.trans hk)
    obtain ⟨d₁, hd₁, hdpk₁⟩ := hc.version_document v₁ hv₁
    obtain rfl : d₁ = d := Table.eq_of_pk (hs.documents_subset hd₁) hd (hdpk₁.trans hdoc)
    obtain ⟨u, hu, hrest⟩ := h.newest d₁ hd₁ v₁ hv₁ hdoc hbefore
    exact ⟨u, hs.versions_subset hu, hrest⟩

end Promoted

/-! ## Runs -/

/-- What the two invariants say of a world. -/
structure Followed (P : Platform) (w : World) : Prop where
  consistent : Consistent P w.database w.uuids
  recorded : Recorded P w.database w.submissions
  promoted : Promoted P w.database

section Runs

variable {c : Components} {w w' : World} {event : WorkerEvent}

/-- An event records the submission that it commits, if any. -/
theorem Effect.recorded (hc : Consistent c.platform w.database w.uuids)
    (h : Recorded c.platform w.database w.submissions) (he : Effect c event w w') :
    Recorded c.platform w'.database w'.submissions := by
  cases he with
  | submitted source _ content hcontent s w₁ w₂ before uuids submitted after _ _ submissions =>
    have hc₁ : Consistent c.platform w₁.database w₁.uuids := by
      rw [before, uuids]
      exact hc
    have hrecorded := submitted.recorded hcontent hc₁ (before ▸ h)
    rw [← submissions] at hrecorded
    exact hrecorded.same after.same
  | unfinished rows _ _ submissions =>
    rw [submissions]
    exact h.same rows.same
  | finished row version document content reached rows _ _ submissions =>
    rw [submissions]
    exact h.same rows.same

theorem Effect.followed (hP : c.platform.CollisionFree) (h : Followed c.platform w)
    (he : Effect c event w w') : Followed c.platform w' := by
  refine ⟨he.consistent hP h.consistent, he.recorded h.consistent h.recorded, ?_⟩
  cases he with
  | submitted source _ content hcontent s w₁ w₂ before uuids submitted after _ _ submissions =>
    have hc₁ : Consistent c.platform w₁.database w₁.uuids := by
      rw [before, uuids]
      exact h.consistent
    have hpromoted := submitted.promoted hc₁ (before ▸ h.promoted)
    exact hpromoted.congr after.documents after.versions fun _ => after.completed
  | unfinished rows _ _ submissions =>
    exact h.promoted.congr rows.documents rows.versions fun _ => rows.completed
  | finished row version document content reached rows _ _ submissions =>
    have hpromoted := h.promoted.promote h.consistent.version_inj reached.version_mem
      rows.completed
    exact hpromoted.congr rows.documents rows.same.versions fun _ => Iff.rfl

/-- **Both invariants hold after every run.** -/
theorem run_followed (hP : c.platform.CollisionFree) (es : List WorkerEvent) :
    Followed c.platform (Machine.run (World.step c) {} es) := by
  refine Machine.run_inv (I := Followed c.platform) (fun w event h => ?_)
    ⟨.empty c.platform 0, ⟨?_, ?_⟩, ⟨?_, ?_, ?_⟩⟩
  · have heffect := step_effect w event h.consistent
    have hn : Followed c.platform { w with now := event.now } :=
      ⟨h.consistent, h.recorded, h.promoted⟩
    exact heffect.followed hP hn
  · exact fun d hd => absurd hd Table.not_mem_empty
  · exact fun e he => absurd he List.not_mem_nil
  · exact fun d hd => absurd hd Table.not_mem_empty
  · exact fun d hd => absurd hd Table.not_mem_empty
  · exact fun d hd => absurd hd Table.not_mem_empty

end Runs

/-! ## One file over successive scans -/

/-- A scan that finds a content in the file of a document, and the event that it makes of it. -/
structure Capture (P : Platform) (corpus : MarkdownCorpus) (file : String × String × String) where
  snapshot : Snapshot
  capturedAt : ℤ
  previous : List (String × CorpusEvent)
  content : ByteArray
  event : CorpusEvent
  found : snapshot.fixture file.2.2 = .content content
  scanned : ∃ events,
    corpus.scan P snapshot (some capturedAt) previous = some events ∧ event ∈ events
  accepted : MarkdownCorpus.accepted event.kind = true
  file_eq : event.file = file

/-- The document has a current version, of this content hash. -/
def Database.HasCurrent (db : Database) (file : String × String × String) (contentHash : String) :
    Prop :=
  ∃ d ∈ db.documents, d.unique = file ∧
    ∃ v, db.currentVersion d = some v ∧ v.contentHash = contentHash

section Captures

variable {c : Components} {P : Platform} {corpus : MarkdownCorpus} {file : String × String × String}

theorem Capture.event_eq (k : Capture P corpus file) :
    k.event.sourceVersion = P.sha256 k.content ∧ k.event.sourceTimestamp = k.capturedAt ∧
      k.event.content = some k.content := by
  obtain ⟨events, hscan, hmem⟩ := k.scanned
  obtain ⟨content, hfixture, -, hsv, hst, hcontent⟩ :=
    MarkdownCorpus.scan_accepted hscan hmem k.accepted
  have hkey : k.event.canonicalKey = file.2.2 := congrArg (fun u => u.2.2) k.file_eq
  rw [hkey, k.found] at hfixture
  injection hfixture with heq
  subst heq
  exact ⟨hsv, hst, hcontent⟩

/-- The first capture of a content, found by the digest that its event carries. -/
theorem find?_capture (hP : P.CollisionFree) {captures : List (Capture P corpus file)}
    {digest : String} {event : SourceEvent}
    (h : (captures.map fun k => k.event.toSourceEvent).find?
      (fun e => e.sourceVersion = digest) = some event) :
    ∃ k ∈ Dict.firsts Capture.content captures, k.event.toSourceEvent = event ∧
      digest = P.sha256 k.content := by
  rw [List.find?_map] at h
  obtain ⟨k, hfind, rfl⟩ := Option.map_eq_some_iff.1 h
  have hdigest := List.find?_some hfind
  simp only [Function.comp_apply, decide_eq_true_eq, k.event_eq.1] at hdigest
  have hsame : ((fun e : SourceEvent => decide (e.sourceVersion = digest)) ∘
      fun k : Capture P corpus file => k.event.toSourceEvent) =
      fun x => decide (x.content = k.content) := by
    funext x
    simp only [Function.comp_apply, x.event_eq.1, ← hdigest, hP.sha256.eq_iff]
  rw [hsame] at hfind
  exact ⟨k, Dict.mem_firsts_of_find? hfind, rfl, hdigest.symm⟩

/-- The last of the first captures is later than the others. -/
theorem capturedAt_last {captures : List (Capture P corpus file)}
    (htimes : (captures.map Capture.capturedAt).Pairwise (· < ·)) {f k : Capture P corpus file}
    (hf : (Dict.firsts Capture.content captures).getLast? = some f)
    (hk : k ∈ Dict.firsts Capture.content captures) : k = f ∨ k.capturedAt < f.capturedAt := by
  have hsorted : (Dict.firsts Capture.content captures).Pairwise
      fun a b => a.capturedAt < b.capturedAt :=
    (List.pairwise_map.1 htimes).sublist Dict.firsts_sublist
  obtain ⟨before, hbefore⟩ := List.getLast?_eq_some_iff.1 hf
  rw [hbefore] at hk hsorted
  rcases List.mem_append.1 hk with hk | hk
  · exact Or.inr ((List.pairwise_append.1 hsorted).2.2 k hk f List.mem_cons_self)
  · exact Or.inl (List.mem_singleton.1 hk)

/-- **The current version is that of the content whose first capture is the latest.** -/
theorem current_of_last {db : Database} {submissions : List SourceEvent} {uuids : ℕ}
    (hP : P.CollisionFree) (hc : Consistent P db uuids) (hr : Recorded P db submissions)
    (hn : Promoted P db) (hcompleted : ∀ row ∈ db.ingestionJobs, row.job.state = .completed)
    {captures : List (Capture P corpus file)}
    (htimes : (captures.map Capture.capturedAt).Pairwise (· < ·))
    (hsubmitted : submissionsOf submissions file = captures.map fun k => k.event.toSourceEvent)
    {f : Capture P corpus file}
    (hf : (Dict.firsts Capture.content captures).getLast? = some f) {digest : String} :
    db.HasCurrent file digest ↔ digest = P.sha256 f.content := by
  have hffirst : f ∈ Dict.firsts Capture.content captures := List.mem_of_getLast? hf
  have hfmem : f.event.toSourceEvent ∈ submissionsOf submissions file := by
    rw [hsubmitted]
    exact List.mem_map_of_mem (Dict.mem_of_mem_firsts hffirst)
  obtain ⟨d, hd, hunique, v, hv, hdoc, hsv⟩ := hr.stored _ (List.mem_filter.1 hfmem).1
  rw [f.file_eq] at hunique
  -- the version of `f` carries the time of `f`
  have hvtime : v.sourceTimestamp = f.capturedAt := by
    obtain ⟨event, hfirst, hmade⟩ := hr.first d hd v hv hdoc
    rw [hunique, hsubmitted] at hfirst
    obtain ⟨k, hk, rfl, hdigest⟩ := find?_capture hP hfirst
    have hcontent : k.content = f.content := by
      refine hP.sha256 ?_
      rw [← hdigest, hsv, f.event_eq.1]
    have hkf : k = f := by
      have hone := Dict.find?_of_mem_firsts hk
      rw [hcontent, Dict.find?_of_mem_firsts hffirst] at hone
      exact (Option.some.inj hone).symm
    rw [hmade.sourceTimestamp, k.event_eq.2.1, hkf]
  have hdone : db.ingestionJobs.completed v.pk := by
    obtain ⟨r, hrm, hkey⟩ := hc.version_job v hv
    exact ⟨r, hrm, hkey, hcompleted r hrm⟩
  obtain ⟨u, hu, hcurrent, hdocu, hle⟩ := hn.newest d hd v hv hdoc hdone
  -- no first capture is later, so the newest version is that of `f`
  have hhash : u.contentHash = P.sha256 f.content := by
    obtain ⟨event, hfirst, hmade⟩ := hr.first d hd u hu hdocu
    rw [hunique, hsubmitted] at hfirst
    obtain ⟨k, hk, rfl, -⟩ := find?_capture hP hfirst
    have htime : f.capturedAt ≤ k.capturedAt := by
      have hrev := revisionLe_iff.1 hle
      simp only [DocumentVersion.revision, hvtime, hmade.sourceTimestamp, k.event_eq.2.1] at hrev
      omega
    obtain rfl : k = f := (capturedAt_last htimes hf hk).resolve_right (by omega)
    obtain ⟨content, hcontent, hdigest⟩ := hmade.contentHash
    rw [k.event_eq.2.2] at hcontent
    rw [hdigest, Option.some.inj hcontent]
  have htu : u.tenantId = d.tenantId := congrArg Prod.fst hdocu
  have hfind : db.currentVersion d = some u := by
    rw [Database.currentVersion, hcurrent]
    exact htu ▸ Table.find_of_mem hu
  constructor
  · rintro ⟨d', hd', hunique', v', hv', rfl⟩
    obtain rfl : d' = d := Table.eq_of_uk hd' hd (hunique'.trans hunique.symm)
    rw [hfind] at hv'
    rw [← Option.some.inj hv', hhash]
  · rintro rfl
    exact ⟨d, hd, hunique, u, hfind, hhash⟩

/-- **The current version follows the file exactly when the content scanned last is also the
last to have appeared.** The submissions of the document are the events of scans of its file,
made at increasing times, and all jobs are completed. -/
theorem current_follows (hP : c.platform.CollisionFree)
    (captures : List (Capture c.platform corpus file))
    (htimes : (captures.map Capture.capturedAt).Pairwise (· < ·)) (es : List WorkerEvent)
    (hsubmitted : submissionsOf (Machine.run (World.step c) {} es).submissions file =
      captures.map fun k => k.event.toSourceEvent)
    (hcompleted : ∀ row ∈ (Machine.run (World.step c) {} es).database.ingestionJobs,
      row.job.state = .completed)
    (content : ByteArray) (hlast : (captures.map Capture.content).getLast? = some content) :
    (Machine.run (World.step c) {} es).database.HasCurrent file (c.platform.sha256 content) ↔
      (Dict.firsts id (captures.map Capture.content)).getLast? = some content := by
  have hfollowed := run_followed (c := c) hP es
  obtain ⟨f, hf⟩ : ∃ f, (Dict.firsts Capture.content captures).getLast? = some f := by
    obtain ⟨k, hk⟩ := Option.map_eq_some_iff.1 (List.getLast?_map ▸ hlast)
    have hfirst : ∃ first ∈ Dict.firsts Capture.content captures, first.content = k.content :=
      Dict.exists_firsts (List.mem_of_getLast? hk.1)
    obtain ⟨first, hmem, -⟩ := hfirst
    exact Option.isSome_iff_exists.1 (List.getLast?_isSome.2 (List.ne_nil_of_mem hmem))
  rw [current_of_last hP hfollowed.consistent hfollowed.recorded hfollowed.promoted hcompleted htimes
    hsubmitted hf, ← Dict.map_firsts, List.getLast?_map, hf, Option.map_some, Option.some.injEq,
    hP.sha256.eq_iff, eq_comm]

end Captures

/-! ## A file that returns to an earlier content -/

deriving instance DecidableEq for SourceEvent

def sampleCorpus : MarkdownCorpus := ⟨"tenant", ["public"]⟩

def sampleEntry : ManifestEntry := ⟨"source", "https://example.org/doc", "CC0-1.0", "doc.md", false⟩

def sampleSnapshot (content : String) : Snapshot where
  manifest := some [sampleEntry]
  fixture path := if path = "doc.md" then .content content.toUTF8 else .missing

def scannedEvent (content : String) (capturedAt : ℤ) : CorpusEvent :=
  { sampleEvent content capturedAt with license := "CC0-1.0" }

theorem sampleCorpus_entries (content : String) :
    sampleCorpus.entries (sampleSnapshot content) = some [(sampleSource, sampleEntry)] := by
  rfl

theorem validContent_toUTF8 {content : String} (hsize : content.toUTF8.size ≤ MarkdownCorpus.maxBytes)
    (hnul : content.toUTF8.data.contains 0 = false) : MarkdownCorpus.validContent content.toUTF8 = true := by
  have hutf8 : content.toUTF8.validateUTF8 = true :=
    ByteArray.validateUTF8_eq_true_iff.2 content.isValidUTF8
  rw [MarkdownCorpus.validContent, hnul, hutf8, decide_eq_true hsize]
  rfl

theorem sampleCorpus_scan {content : String} {capturedAt : ℤ}
    (hvalid : MarkdownCorpus.validContent content.toUTF8 = true) :
    sampleCorpus.scan samplePlatform (sampleSnapshot content) (some capturedAt) [] =
      some [scannedEvent content capturedAt] := by
  unfold MarkdownCorpus.scan
  rw [sampleCorpus_entries]
  have hevent : MarkdownCorpus.event samplePlatform (sampleSnapshot content) capturedAt none
      sampleSource sampleEntry = scannedEvent content capturedAt := by
    unfold MarkdownCorpus.event
    have hfixture : (sampleSnapshot content).fixture sampleEntry.fixture = .content content.toUTF8 := rfl
    rw [hfixture]
    dsimp only
    rw [if_pos hvalid]
    rfl
  simp [hevent]

/-- A scan that finds `content`. -/
def sampleCapture (content : String) (capturedAt : ℤ)
    (hvalid : MarkdownCorpus.validContent content.toUTF8 = true) :
    Capture samplePlatform sampleCorpus ("tenant", "source", "doc.md") where
  snapshot := sampleSnapshot content
  capturedAt := capturedAt
  previous := []
  content := content.toUTF8
  event := scannedEvent content capturedAt
  found := rfl
  scanned := ⟨_, sampleCorpus_scan hvalid, List.mem_cons_self⟩
  accepted := rfl
  file_eq := rfl

theorem validContent_a : MarkdownCorpus.validContent "a".toUTF8 = true :=
  validContent_toUTF8 (by decide) (by decide +kernel)

theorem validContent_b : MarkdownCorpus.validContent "b".toUTF8 = true :=
  validContent_toUTF8 (by decide) (by decide +kernel)

/-- Two contents, and the first one again; each job is run before the next scan. -/
def reverted : List WorkerEvent :=
  [⟨.submit (sampleEvent "a" 1), {}, 0⟩, ⟨.deliver "tenant" "uuu", {}, 0⟩,
    ⟨.submit (sampleEvent "b" 2), {}, 0⟩, ⟨.deliver "tenant" "uuuuuuuuu", {}, 0⟩,
    ⟨.submit (sampleEvent "a" 3), {}, 0⟩]

def revertedCaptures : List (Capture samplePlatform sampleCorpus ("tenant", "source", "doc.md")) :=
  [sampleCapture "a" 1 validContent_a, sampleCapture "b" 2 validContent_b,
    sampleCapture "a" 3 validContent_a]

theorem reverted_submissions :
    submissionsOf (Machine.run (World.step sampleComponents) {} reverted).submissions
      ("tenant", "source", "doc.md") = revertedCaptures.map fun k => k.event.toSourceEvent := by
  decide +kernel

theorem reverted_completed :
    ∀ row ∈ (Machine.run (World.step sampleComponents) {} reverted).database.ingestionJobs.rows,
      row.job.state = .completed := by
  decide +kernel

/-- The current version is still that of the second content. -/
theorem reverted_current :
    ∀ d ∈ (Machine.run (World.step sampleComponents) {} reverted).database.documents.rows,
      ((Machine.run (World.step sampleComponents) {} reverted).database.currentVersion d).map
        DocumentVersion.contentHash = some (samplePlatform.sha256 "b".toUTF8) := by
  decide +kernel

/-- A file that returns to an earlier content is not followed. -/
theorem earlier_content_not_current : ¬∀ (c : Components) (corpus : MarkdownCorpus)
    (file : String × String × String) (captures : List (Capture c.platform corpus file))
    (es : List WorkerEvent), c.platform.CollisionFree →
    (captures.map Capture.capturedAt).Pairwise (· < ·) →
    submissionsOf (Machine.run (World.step c) {} es).submissions file =
      captures.map (fun k => k.event.toSourceEvent) →
    (∀ row ∈ (Machine.run (World.step c) {} es).database.ingestionJobs,
      row.job.state = .completed) →
    ∀ content, (captures.map Capture.content).getLast? = some content →
      (Machine.run (World.step c) {} es).database.HasCurrent file (c.platform.sha256 content) := by
  intro h
  have hcurrent := h sampleComponents sampleCorpus _ revertedCaptures reverted
    samplePlatform_collisionFree (by decide) reverted_submissions reverted_completed "a".toUTF8 rfl
  obtain ⟨d, hd, -, v, hv, hhash⟩ := hcurrent
  have hb := reverted_current d hd
  rw [hv, Option.map_some, hhash] at hb
  exact absurd (Option.some.inj hb) (by decide)

theorem current_follows_reverted :
    (Machine.run (World.step sampleComponents) {} reverted).database.HasCurrent
        ("tenant", "source", "doc.md") (samplePlatform.sha256 "a".toUTF8) ↔
      (Dict.firsts id (revertedCaptures.map Capture.content)).getLast? = some "a".toUTF8 :=
  @current_follows sampleComponents sampleCorpus ("tenant", "source", "doc.md")
    samplePlatform_collisionFree revertedCaptures (by decide) reverted reverted_submissions
    reverted_completed "a".toUTF8 rfl

end GroundedOps.Ingestion
