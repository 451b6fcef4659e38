import GroundedOps.Proof.Lifecycle

/-!
# The audit of the promotions

The pipeline records a promotion after each call of `promote`, whose update is guarded: it passes
over a deleted document and one whose current version is newer.

* `Observation.Finds`: what an observation says of `current_version_id`.
* `wp_index_finds`: the last stage records the promotion over what its update has left.
* `live_promotions`: every event, on consistent tables.
* `promotions_truthful_iff`: **the audit tells the truth in exactly the runs in which every
  version that is recorded as promoted was promotable.**
-/

namespace GroundedOps.Ingestion

open Hoare

/-- `current_version_id` is `current` when the promotion of the version is recorded. -/
def Observation.Finds (p : String → String → Option String → Prop) : Observation → Prop
  | .promoted tenantId versionId current => p tenantId versionId current
  | _ => True

/-- The promotion of the version, and what the update of `promote` leaves in these tables. -/
def PromotedIn (P : Platform) (db : Database) (version : DocumentVersion)
    (tenantId versionId : String) (current : Option String) : Prop :=
  (tenantId, versionId) = version.pk ∧
    current = (db.promoted P version).currentVersionOf tenantId versionId

section Database

variable {P : Platform} {db db' : Database} {version : DocumentVersion}
  {tenantId versionId : String}

theorem currentVersionOf_congr (hdocuments : db'.documents = db.documents)
    (hversions : SameVersions db.documentVersions db'.documentVersions) :
    db'.currentVersionOf tenantId versionId = db.currentVersionOf tenantId versionId := by
  have hfind := hversions.find (k := (tenantId, versionId))
  unfold Database.currentVersionOf
  rw [hdocuments]
  cases hv : db.documentVersions.find (tenantId, versionId) with
  | none =>
    rw [hv, Option.map_none, Option.map_eq_none_iff] at hfind
    rw [hfind]
  | some v =>
    rw [hv, Option.map_some] at hfind
    obtain ⟨v', hv', hbare⟩ := Option.map_eq_some_iff.1 hfind
    have hdoc : v'.documentId = v.documentId := congrArg (fun u => u.2.1) (bare_eq hbare).2.1
    rw [hv']
    show (db.documents.find (tenantId, v'.documentId)).bind _ =
      (db.documents.find (tenantId, v.documentId)).bind _
    rw [hdoc]

/-- The current version of a document after a promotion of one of its versions. -/
theorem currentVersionOf_promoted {document : Document} (hv : version ∈ db.documentVersions)
    (hd : document ∈ db.documents) (hpk : document.pk = (version.tenantId, version.documentId)) :
    (db.promoted P version).currentVersionOf version.tenantId version.id =
      (document.promotedTo P db.documentVersions version).currentVersionId := by
  have hversion : (db.promoted P version).documentVersions.find (version.tenantId, version.id) =
      some version :=
    Table.find_of_mem hv
  have hkept : (document.promotedTo P db.documentVersions version).pk = document.pk := by
    unfold Document.promotedTo
    split
    · rfl
    · rfl
  have hdocument : (db.promoted P version).documents.find (version.tenantId, version.documentId) =
      some (document.promotedTo P db.documentVersions version) := by
    rw [← hpk, ← hkept]
    exact Table.find_of_mem (mem_promoted.2 ⟨document, hd, rfl⟩)
  unfold Database.currentVersionOf
  rw [hversion]
  show ((db.promoted P version).documents.find _).bind _ = _
  rw [hdocument]
  rfl

end Database

/-! ## The pipeline -/

namespace IngestionPipeline

variable {c : Components} {faults : Faults} {event : SourceEvent} {submission : Submission}
  {content : ByteArray} {job : IngestionJob} {db : Database} {w w₁ w' : World} {maxAttempts : ℕ}

/-- What is recorded on the way is the promotion of the submission's version in `db`. -/
abbrev Audited (c : Components) (submission : Submission) (db : Database) : World → World → Prop :=
  Logged (Observation.Finds (PromotedIn c.platform db submission.version))

theorem audited_of_quiet (h : Quiet w w') : Audited c submission db w w' := .of_eq h.log

/-- **`INDEXING`** records the promotion over what the guarded update has left. -/
theorem wp_index_finds (hsub : submission.Of event db) (hs : Saved db w.database job)
    (hst : job.state = .indexing) :
    wp (index c faults event submission content job)
      (fun _ w' => Audited c submission db w w') (fun _ w' => Audited c submission db w w') w := by
  have hsame : Audited c submission db w w := .of_eq rfl
  simp only [index, wp_bind, wp_reach, wp_orRaise, wp_observe, wp_readDatabase, wp_pure]
  refine ⟨fun hchunk => ⟨fun parsed hparse => ?_, fun _ => hsame⟩, fun _ _ => hsame⟩
  have hlog : ∀ index passed, Audited c submission db w
      (({ w with log := w.log ++ [.prepared job.tenantId job.id] } : World).noted index passed) := by
    intro index passed
    refine (Logged.one rfl trivial).trans ⟨passed.map Observation.projected, rfl, fun o ho => ?_⟩
    obtain ⟨π, -, rfl⟩ := List.mem_map.1 ho
    trivial
  refine wp_prepare hsub hparse hchunk (fun idx passed _ => ?_) (fun _ idx passed _ => hlog idx passed)
  refine wp_promote hsub hs (fun _ w₁ _ hlog₁ _ hs₁ => ?_) (fun _ _ => hlog idx passed)
  have hfound : PromotedIn c.platform db submission.version event.source.tenantId
      submission.version.id
      (w₁.database.currentVersionOf event.source.tenantId submission.version.id) := by
    refine ⟨?_, currentVersionOf_congr hs₁.documents hs₁.versions⟩
    rw [← hsub.tenantId]
    rfl
  have hpromoted : Audited c submission db w
      { w₁ with log := w₁.log ++ [.promoted event.source.tenantId submission.version.id
        (w₁.database.currentVersionOf event.source.tenantId submission.version.id)] } :=
    (hlog idx passed).trans ((Logged.of_eq hlog₁).trans (.one rfl hfound))
  refine wp_advance hs₁ (by simp [hst]) (by simp [hst, JobState.permitted]) ?_ ?_
  · exact fun _ w' hq _ => hpromoted.trans (audited_of_quiet hq)
  · exact fun _ _ => hpromoted

theorem wp_laterStages_finds {raw : Option ArtifactRef} (hsub : submission.Of event db)
    (hs : Saved db w.database job) (hst : job.state = .parsing ∨ job.state = .indexing)
    (hraw : raw.isSome → faults.fault .putRaw = none) :
    wp (laterStages c faults event submission content raw job)
      (fun _ w' => Audited c submission db w w') (fun _ w' => Audited c submission db w w') w := by
  unfold laterStages
  rcases hst with hst | hst
  · simp only [hst, if_true, wp_bind, wp_raiseAs]
    refine wp_mono (wp_normalize hs hst hraw) ?_ (fun _ _ h => audited_of_quiet h.2)
    rintro _ w₁ ⟨rfl, hs₁, hq, -⟩
    simp only [IngestionJob.at, if_true, wp_raiseAs]
    exact wp_mono (wp_index_finds hsub hs₁ rfl) (fun _ _ h => (audited_of_quiet hq).trans h)
      (fun _ _ h => (audited_of_quiet hq).trans h)
  · simp only [hst, reduceCtorEq, if_false, if_true, wp_bind, wp_pure, wp_raiseAs]
    exact wp_index_finds hsub hs hst

theorem wp_stages_finds (hsub : submission.Of event db) (hs : Saved db w.database job)
    (hst : job.state.checkpoint ≠ none) :
    wp (stages c faults event submission content job)
      (fun _ w' => Audited c submission db w w') (fun _ w' => Audited c submission db w w') w := by
  unfold stages
  cases hstate : job.state with
  | fetching =>
    simp only [if_true, wp_bind, wp_raiseAs]
    refine wp_mono (wp_fetch hs hstate) ?_ (fun _ _ h => audited_of_quiet h.2)
    rintro ⟨raw, _⟩ w₁ ⟨rfl, hs₁, hq, hclear⟩
    exact wp_mono (wp_laterStages_finds hsub hs₁ (Or.inl rfl) fun _ => hclear .putRaw (by decide))
      (fun _ _ h => (audited_of_quiet hq).trans h) (fun _ _ h => (audited_of_quiet hq).trans h)
  | parsing =>
    simp only [reduceCtorEq, if_false]
    exact wp_laterStages_finds hsub hs (Or.inl hstate) fun h => absurd h Bool.false_ne_true
  | indexing =>
    simp only [reduceCtorEq, if_false]
    exact wp_laterStages_finds hsub hs (Or.inr hstate) fun h => absurd h Bool.false_ne_true
  | queued => exact absurd (by rw [hstate]; rfl) hst
  | retrying => exact absurd (by rw [hstate]; rfl) hst
  | completed => exact absurd (by rw [hstate]; rfl) hst
  | failed => exact absurd (by rw [hstate]; rfl) hst

theorem wp_continueJob_finds (hsub : submission.Of event db) (hs : Saved db w.database job)
    (hcontent : event.content = some content) (hkind : event.kind ≠ .malformed) :
    wp (continueJob c faults maxAttempts event submission job)
      (fun _ w' => Audited c submission db w w') (fun _ w' => Audited c submission db w w') w := by
  refine wp_continueJob_of hcontent hkind (fun _ => .of_eq rfl) fun hopen => ?_
  refine wp_mono (wp_leaveWaiting hs hopen) ?_ (fun _ _ hq => audited_of_quiet hq)
  rintro job₁ w₁ ⟨hsame, -, -, hcheck, hs₁, hq, -⟩
  refine wp_mono (wp_and (wp_stages hsub hs₁ hcheck) (wp_stages_finds hsub hs₁ hcheck)) ?_ ?_
  · rintro _ w₂ ⟨-, hlog⟩
    exact (audited_of_quiet hq).trans hlog
  · rintro ⟨job₂, raised⟩ w₂ ⟨h, hlog⟩
    have hlogged := (audited_of_quiet hq).trans hlog
    obtain ⟨s, hcheck₂, hout⟩ := h.stage
    subst hout
    refine ⟨fun errorClass hclass => ?_, fun _ => hlogged⟩
    · have hs₂ := h.raised.saved (hclass ▸ Option.some_ne_none _)
      refine wp_mono (wp_failedAttempt hs₂ hcheck₂) ?_ ?_
      · rintro _ w₃ ⟨-, -, -, -, hq₃⟩
        exact hlogged.trans (audited_of_quiet hq₃)
      · exact fun _ _ hq₃ => hlogged.trans (audited_of_quiet hq₃)

end IngestionPipeline

/-! ## Events -/

open IngestionPipeline (wp_continueJob_finds)

section Events

variable {c : Components} {faults : Faults} {tenantId jobId : String} {w w' w₁ : World} {db db' : Database}

/-- A version of these tables is promoted in them. -/
def Promotes (P : Platform) (db : Database) (tenantId versionId : String)
    (current : Option String) : Prop :=
  ∃ version ∈ db.documentVersions, PromotedIn P db version tenantId versionId current

/-- What is recorded on the way are promotions in `db`. -/
abbrev AuditedIn (c : Components) (db : Database) : World → World → Prop :=
  Logged (Observation.Finds (Promotes c.platform db))

theorem Observation.Finds.imp {p q : String → String → Option String → Prop} {o : Observation}
    (h : o.Finds p) (hpq : ∀ t v current, p t v current → q t v current) : o.Finds q := by
  cases o with
  | promoted t v current => exact hpq t v current h
  | submitted => trivial
  | claimed => trivial
  | body => trivial
  | prepared => trivial
  | projected => trivial

theorem wp_resume_finds (hc : Consistent c.platform w.database w.uuids) {record : DeliveryRecord}
    {content : ByteArray} (hdelivery : w.database.getDelivery tenantId jobId = some record)
    (hdigest : c.platform.sha256 content = record.contentHash)
    (hclear : Clear faults [.getDelivery, .getArtifact]) :
    wp (IngestionPipeline.resume c faults maxDeliveries tenantId jobId (record.event content))
      (fun _ w' => AuditedIn c w.database w w') (fun _ w' => AuditedIn c w.database w w') w := by
  refine wp_resume_of (fun _ _ hdrawn _ => .of_eq hdrawn.log) ?_
  intro row s w₁ hrow hgetJob hsubmit hsubmitted hid _ hsaved
  have hlog : AuditedIn c w.database w w₁ := .of_eq hsubmitted.drawn.log
  have hresumed : Resumed c faults tenantId jobId w w₁ record content row s :=
    ⟨hdelivery, hdigest, hrow, hsubmitted, hid, hclear.append (.cons hgetJob (.cons hsubmit .nil))⟩
  -- the submission finds everything in the tables, and changes nothing
  obtain ⟨hdb, hrows, -⟩ := hresumed.known hc
  have hpromotes : ∀ {w'}, IngestionPipeline.Audited c s w₁.database w₁ w' →
      AuditedIn c w.database w w' := by
    intro w' h
    refine hlog.trans (h.mono fun o ho => ho.imp fun t v current hin => ?_)
    exact ⟨s.version, hrows.version_mem, hdb ▸ hin⟩
  exact wp_mono (wp_continueJob_finds (hsubmitted.of rfl) hsaved rfl SourceEventKind.noConfusion)
    (fun _ _ h => hpromotes h) (fun _ _ h => hpromotes h)

theorem wp_body_finds (hc : Consistent c.platform w.database w.uuids) :
    wp (body c faults tenantId jobId) (fun _ w' => AuditedIn c w.database w w')
      (fun _ w' => AuditedIn c w.database w w') w := by
  refine wp_body_of (fun _ => .of_eq rfl) fun record content hrecord hcontent hclear => ?_
  exact wp_mono (wp_resume_finds hc hrecord hcontent hclear)
    (fun _ _ h => ⟨fun _ => h, fun _ _ => h⟩) (fun _ _ h => h)

theorem wp_runJob_finds (hc : Consistent c.platform w.database w.uuids) :
    wp (runJob c faults tenantId jobId) (fun _ w' => AuditedIn c w.database w w')
      (fun _ w' => AuditedIn c w.database w w') w := by
  have hsame : AuditedIn c w.database w w := .of_eq rfl
  have hclaimed : AuditedIn c w.database w { w with log := w.log ++ [.claimed tenantId jobId] } :=
    .one rfl trivial
  unfold runJob
  split
  · exact hsame
  rw [wp_bind]
  refine wp_claim (fun _ _ _ => hclaimed) (fun deliveries jobs hclaim _ => hclaimed)
    (fun deliveries jobs hclaim _ _ => ?_) (fun _ => hsame)
  obtain ⟨row, -, -, -, rfl⟩ := claimDelivery_eq hclaim
  have hstart : AuditedIn c w.database w
      (w.claimed tenantId jobId (w.database.ingestionJobs.countDelivery tenantId jobId)) := by
    refine ⟨[.claimed tenantId jobId, .body tenantId jobId], rfl, fun o ho => ?_⟩
    rcases List.mem_pair.1 ho with rfl | rfl
    · trivial
    · trivial
  have hsound : Consistent c.platform (w.claimed tenantId jobId
      (w.database.ingestionJobs.countDelivery tenantId jobId)).database w.uuids :=
    hc.of_same countDelivery_unfinished.same
  -- the claim has touched neither documents nor versions
  have hdone : ∀ {w'}, AuditedIn c (w.claimed tenantId jobId
        (w.database.ingestionJobs.countDelivery tenantId jobId)).database
        (w.claimed tenantId jobId (w.database.ingestionJobs.countDelivery tenantId jobId)) w' →
      AuditedIn c w.database w w' :=
    fun h => hstart.trans h
  simp only [wp_bind, wp_observe, wp_tryCatch, wp_pure]
  rw [claimed_eq]
  refine wp_mono (wp_body_finds hsound) (fun _ _ h => hdone h) (fun raised w₁ h => ?_)
  split
  · exact hdone h
  · exact wp_recordError (fun _ => hdone h) (fun _ => hdone h) (hdone h)

/-- **Every event** records only promotions that its tables explain. -/
theorem live_promotions (hc : Consistent c.platform w.database w.uuids) (event : LifecycleEvent) :
    AuditedIn c w.database w (w.live c event) := by
  cases event with
  | worker event =>
    obtain ⟨action, faults, now⟩ := event
    cases action with
    | submit source =>
      have hevent : SubmissionEvent c source { w with now }
          (w.step c ⟨.submit source, faults, now⟩) := submission_cases
      cases hevent with
      | rejected _ drawn => exact .of_eq drawn.log
      | committed _ _ _ _ _ _ _ _ _ _ _ log => exact .one log trivial
    | deliver tenantId jobId =>
      have hdelivery : AuditedIn c w.database { w with now }
          (w.step c ⟨.deliver tenantId jobId, faults, now⟩) := by
        refine wp_state (P := AuditedIn c w.database { w with now }) ?_
        rw [WorkerEvent.perform, wp_bind]
        exact wp_runJob_finds (w := { w with now }) hc
      exact hdelivery
    | recover limit =>
      have hevent : RecoveryEvent { w with now } (w.step c ⟨.recover limit, faults, now⟩) :=
        recovery_cases
      exact .of_eq hevent.quiet.log
  | promote tenantId versionId => exact .of_eq (promote_documentsOnly w tenantId versionId).quiet.log
  | delete tenantId documentId => exact .of_eq (delete_documentsOnly w tenantId documentId).quiet.log

end Events

/-! ## Runs -/

section Runs

variable {c : Components} {w : World}

/-- The promotions that the audit records: the version, and the `current_version_id` of its
document just after the call of `promote`. -/
def World.promotions (w : World) : List (String × String × Option String) :=
  w.log.filterMap fun observation =>
    match observation with
    | .promoted tenantId versionId current => some (tenantId, versionId, current)
    | _ => none

/-- Every version that is recorded as promoted was current just then. -/
def Truthful (w : World) : Prop :=
  ∀ tenantId versionId current, (tenantId, versionId, current) ∈ w.promotions →
    current = some versionId

/-- The document of the version is not deleted, and has no newer version current. -/
def CanPromote (P : Platform) (db : Database) (tenantId versionId : String) : Prop :=
  ∃ version ∈ db.documentVersions, version.pk = (tenantId, versionId) ∧
    ∃ document ∈ db.documents, document.pk = (tenantId, version.documentId) ∧
      document.promotable P db.documentVersions version = true

/-- What the event records as promoted can be promoted in the tables before it. -/
def PromotesInOrder (c : Components) (w : World) (event : LifecycleEvent) : Prop :=
  ∀ tenantId versionId current,
    (tenantId, versionId, current) ∈ (w.live c event).promotions.drop w.promotions.length →
      CanPromote c.platform w.database tenantId versionId

/-- **A promotion that is explained by the tables is truthful exactly if they let it pass.** -/
theorem promotes_truthful_iff (hc : Consistent c.platform w.database w.uuids)
    (hb : Buried w.database) {tenantId versionId : String} {current : Option String}
    (h : Promotes c.platform w.database tenantId versionId current) :
    current = some versionId ↔ CanPromote c.platform w.database tenantId versionId := by
  obtain ⟨version, hv, hpk, hcurrent⟩ := h
  cases hpk
  obtain ⟨document, hd, hdpk⟩ := hc.version_document version hv
  rw [currentVersionOf_promoted hv hd hdpk] at hcurrent
  constructor
  · intro htrue
    refine ⟨version, hv, rfl, document, hd, hdpk, ?_⟩
    by_contra hguard
    have hkept : document.promotedTo c.platform w.database.documentVersions version = document := by
      unfold Document.promotedTo
      rw [if_neg fun hand => hguard hand.2]
    rw [hkept, htrue] at hcurrent
    -- the version is current already, so the guard lets it pass
    have hopen : document.deleted = false := by
      by_contra hdeleted
      have hnone := hb document hd (by simpa using hdeleted)
      rw [hnone] at hcurrent
      cases hcurrent
    have hfind : w.database.documentVersions.find (version.tenantId, version.id) = some version :=
      Table.find_of_mem hv
    have hle : c.platform.revisionLe version.revision version.revision = true :=
      (revisionLe_total c.platform version.revision version.revision).elim id id
    refine hguard ?_
    unfold Document.promotable
    rw [hopen, ← hcurrent]
    simp only [hfind, hle, Bool.not_false, Bool.and_self]
  · rintro ⟨version', hv', hpk', document', hd', hdpk', hguard⟩
    obtain rfl : version' = version := Table.eq_of_pk hv' hv hpk'
    obtain rfl : document' = document := Table.eq_of_pk hd' hd (hdpk'.trans hdpk.symm)
    rw [hcurrent]
    unfold Document.promotedTo
    rw [if_pos ⟨hdpk, hguard⟩]

theorem step_truthful_iff (hc : Consistent c.platform w.database w.uuids) (hb : Buried w.database)
    (event : LifecycleEvent) (ht : Truthful w) :
    Truthful (w.live c event) ↔ PromotesInOrder c w event := by
  obtain ⟨more, hlog, hmore⟩ := live_promotions hc event
  have hsplit : (w.live c event).promotions = w.promotions ++ World.promotions { w with log := more } := by
    unfold World.promotions
    rw [hlog, List.filterMap_append]
  have hexplained : ∀ t v current, (t, v, current) ∈ World.promotions { w with log := more } →
      Promotes c.platform w.database t v current := by
    intro t v current hmem
    obtain ⟨o, ho, heq⟩ := List.mem_filterMap.1 hmem
    have hfinds := hmore o ho
    cases o with
    | promoted t' v' current' =>
      cases heq
      exact hfinds
    | submitted => cases heq
    | claimed => cases heq
    | body => cases heq
    | prepared => cases heq
    | projected => cases heq
  unfold PromotesInOrder
  rw [hsplit, List.drop_left]
  constructor
  · intro htruth t v current hmem
    refine (promotes_truthful_iff hc hb (hexplained t v current hmem)).1 (htruth t v current ?_)
    rw [hsplit]
    exact List.mem_append_right _ hmem
  · intro horder t v current hmem
    rw [hsplit] at hmem
    rcases List.mem_append.1 hmem with hold | hnew
    · exact ht t v current hold
    · exact (promotes_truthful_iff hc hb (hexplained t v current hnew)).2 (horder t v current hnew)

/-- **The audit of the promotions is truthful after every event of a run exactly when every
version that an event records as promoted could be promoted before it.** -/
theorem promotions_truthful_iff (hP : c.platform.CollisionFree) (es : List LifecycleEvent) :
    Machine.Always (World.live c) Truthful {} es ↔
      Machine.Meets (World.live c) (PromotesInOrder c) {} es := by
  refine Machine.always_iff_meets
    (I := fun w => Consistent c.platform w.database w.uuids ∧ Buried w.database)
    (fun w event hi _ => ⟨live_consistent hP event hi.1, live_buried event hi.1 hi.2⟩)
    (fun w event hi ht => step_truthful_iff hi.1 hi.2 event ht)
    ⟨Consistent.empty c.platform 0, fun d hd => absurd hd Table.not_mem_empty⟩ ?_
  intro _ _ _ hmem
  cases hmem

/-- Two versions of a document are delivered the newer one first. -/
def overtakenLife : List LifecycleEvent := overtaken.map .worker

theorem overtaken_promotions : (Machine.run (World.live sampleComponents) {} overtakenLife).promotions =
    [("tenant", "uuuuu", some "uuuuu"), ("tenant", "uu", some "uuuuu")] := by
  decide +kernel

theorem overtaken_untruthful :
    ¬ Truthful (Machine.run (World.live sampleComponents) {} overtakenLife) := by
  intro h
  have hcurrent := h "tenant" "uu" (some "uuuuu")
    (by rw [overtaken_promotions]; exact List.mem_cons_of_mem _ List.mem_cons_self)
  exact absurd hcurrent (by decide)

/-- The older version cannot be promoted when its delivery records that it is. -/
theorem overtaken_out_of_order : ¬ Machine.Meets (World.live sampleComponents)
    (PromotesInOrder sampleComponents) {} overtakenLife :=
  fun h => overtaken_untruthful ((promotions_truthful_iff samplePlatform_collisionFree _).2 h).last

/-- A version is recorded as promoted while a newer one stays current. -/
theorem promotion_recorded_not_made : ¬ ∀ (c : Components) (es : List LifecycleEvent),
    c.platform.CollisionFree → Machine.Always (World.live c) Truthful {} es :=
  fun h => overtaken_untruthful (h sampleComponents overtakenLife samplePlatform_collisionFree).last

end Runs

end GroundedOps.Ingestion
