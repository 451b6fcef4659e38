import GroundedOps.Lib.Frame
import GroundedOps.Proof.Currency
import GroundedOps.Proof.Parsing

/-!
# Where the entries of the index come from

An entry is made by a delivery, from the chunks of the content that the delivery reads. Bulk
requests may reject some of them, a delivery may fail between two requests or die, a compensation
may fail, and other deliveries move the flags.

* `Gains`: **every entry after is one from before, or new and of a kind**, but for the flag. All
  operations of a delivery keep this relation, however they end.
* `IndexEntry.CutFrom`: the kind that a delivery makes, a chunk of its content.
* `index_sourced`: after every run, each entry is cut from the content that is stored for its
  version.
* `index_quotes`: **the text of an entry is the passage of the stored document at its offsets.**
-/

namespace GroundedOps.Ingestion

open Hoare

/-! ## What an index gains -/

/-- The entry without its flag. -/
def IndexEntry.bare (entry : IndexEntry) : IndexEntry := { entry with isCurrent := false }

/-- Each entry satisfies `p`, or was there before. -/
def Index.Gains (p : IndexEntry → Prop) (index index' : Index) : Prop :=
  ∀ entry ∈ index', p entry.bare ∨ ∃ old ∈ index, old.bare = entry.bare

namespace Index

variable {p q : IndexEntry → Prop} {index index₁ index' : Index} {π : VersionProjection}
  {rejected : String → Bool} {query : IndexEntry → Bool} {isCurrent : Bool}

theorem Gains.refl (index : Index) : index.Gains p index :=
  fun entry h => Or.inr ⟨entry, h, rfl⟩

theorem Gains.trans (h : index.Gains p index₁) (h' : index₁.Gains p index') : index.Gains p index' := by
  intro entry hentry
  rcases h' entry hentry with hnew | ⟨old, hold, hsame⟩
  · exact Or.inl hnew
  · rw [← hsame]
    exact h old hold

theorem Gains.mono (h : index.Gains p index') (hpq : ∀ entry, p entry → q entry) :
    index.Gains q index' :=
  fun entry hentry => (h entry hentry).imp_left (hpq _)

theorem gains_bulk (h : ∀ chunk ∈ π.chunks, p (π.entry chunk)) :
    index.Gains p (index.bulk π rejected) := by
  intro entry hentry
  rcases Table.mem_of_mem_foldl_put hentry with hnew | ⟨hold, -⟩
  · obtain ⟨chunk, hchunk, rfl⟩ := exists_of_accepted hnew
    exact Or.inl (h chunk hchunk)
  · exact Or.inr ⟨entry, hold, rfl⟩

theorem gains_deleteIds {ids : List String} : index.Gains p (index.deleteIds ids) :=
  fun entry hentry => Or.inr ⟨entry, (Table.mem_filter.1 hentry).1, rfl⟩

theorem gains_flag : index.Gains p (index.flag query isCurrent) := by
  intro entry hentry
  obtain ⟨old, hold, rfl⟩ := mem_flag.1 hentry
  refine Or.inr ⟨old, hold, ?_⟩
  split
  · rfl
  · rfl

end Index

/-! ## The operations of a delivery -/

/-- `Index.Gains` on worlds. -/
def World.Gains (p : IndexEntry → Prop) (w w' : World) : Prop := w.index.Gains p w'.index

section Operations

variable {p : IndexEntry → Prop} {w w₁ w' : World} {faults : Faults} {operation : Operation}
  {α β : Type}

theorem World.Gains.refl (w : World) : w.Gains p w := Index.Gains.refl _

theorem World.Gains.trans (h : w.Gains p w₁) (h' : w₁.Gains p w') : w.Gains p w' :=
  Index.Gains.trans h h'

theorem World.Gains.of_index (h : w'.index = w.index) : w.Gains p w' := by
  unfold World.Gains
  rw [h]
  exact Index.Gains.refl _

/-- What is done to the index, if anything. -/
abbrev Gaining (p : IndexEntry → Prop) {ε α : Type} (m : Act ε World α) : Prop :=
  Keeps (World.Gains p) m

theorem Gaining.bind {ε : Type} {m : Act ε World α} {f : α → Act ε World β} (hm : Gaining p m)
    (hf : ∀ a, Gaining p (f a)) : Gaining p (m >>= f) :=
  Keeps.bind World.Gains.trans hm hf

theorem gaining_pure {ε : Type} (a : α) : Gaining p (pure a : Act ε World α) :=
  Keeps.pure World.Gains.refl a

theorem gaining_throw {ε : Type} (e : ε) : Gaining p (throw e : Act ε World α) :=
  Keeps.throw World.Gains.refl e

theorem gaining_reach {failure : Raised} : Gaining p (reach faults operation failure) := by
  intro w
  rw [wp_reach]
  exact ⟨fun _ => .refl w, fun _ _ => .refl w⟩

theorem gaining_request {failure : Raised} {effect : World → World}
    (h : ∀ w, World.Gains p w (effect w)) : Gaining p (request faults operation failure effect) := by
  intro w
  rw [wp_request]
  refine ⟨fun _ => h w, fun _ _ => ?_⟩
  split
  · exact h w
  · exact .refl w

theorem gaining_orRaise {raised : Raised} {o : Option α} : Gaining p (orRaise raised o) := by
  intro w
  rw [wp_orRaise]
  exact ⟨fun _ _ => .refl w, fun _ => .refl w⟩

theorem gaining_observe {observation : Observation} : Gaining p (observe observation) :=
  fun _ => .of_index rfl

theorem gaining_readDatabase : Gaining p readDatabase := World.Gains.refl

theorem gaining_writeDatabase {database : Database} : Gaining p (writeDatabase database) :=
  fun _ => .of_index rfl

theorem gaining_transaction {m : Step α} (h : Gaining p m) :
    Gaining p (transaction faults operation m) := by
  intro w
  rw [wp_transaction]
  exact wp_mono (h w) (fun _ _ hw => ⟨fun _ => hw, fun _ _ => hw⟩) (fun _ _ hw => hw)

/-- The store of artifacts has nothing to do with the index. -/
theorem gaining_put {P : Platform} {tenantId : String} {kind : ArtifactKind} {content : ByteArray} :
    Gaining p (DocumentStore.put P faults operation tenantId kind content) := by
  intro w
  exact DocumentStore.wp_putObject (fun _ w' _ hquiet => .of_index hquiet.index)
    (fun _ w' _ hquiet => .of_index hquiet.index)

/-- **An upsert gains the chunks of its projection at most**, and keeps what others made. -/
theorem gaining_upsert {π : VersionProjection} (h : ∀ chunk ∈ π.chunks, p (π.entry chunk)) :
    Gaining p (upsert faults π) := by
  have hvalidate : Gaining p (validateProjection faults π) := by
    unfold validateProjection
    refine .bind gaining_reach fun _ => .bind gaining_orRaise fun _ => .bind gaining_readDatabase
      fun db => ?_
    split
    · exact gaining_throw _
    · split
      · exact gaining_throw _
      · exact gaining_pure _
  have hflags : Gaining p (do
      request faults .clearOthers .exception (onIndex (·.clearOthers π))
      request faults .setCurrent .exception (onIndex (·.setCurrent π))) :=
    .bind (gaining_request fun _ => Index.gains_flag) fun _ =>
      gaining_request fun _ => Index.gains_flag
  unfold upsert
  refine .bind hvalidate fun _ => .bind (gaining_request fun _ => Index.gains_bulk h) fun _ => ?_
  dsimp only
  split
  · -- some item is in error
    split
    · exact .bind (gaining_request fun _ => Index.gains_deleteIds) fun _ =>
        .bind (gaining_throw _) fun _ => hflags
    · exact .bind (gaining_throw _) fun _ => hflags
  · exact hflags

end Operations

/-! ## Stages -/

/-- The chunks of a content, as they are indexed for a version. -/
def Components.cut (c : Components) (versionId : String) (content : ByteArray) : List IndexChunk :=
  ((c.parse content).elim [] c.chunk).map (c.indexChunk versionId)

/-- The entry is of a chunk of the content, under the ids of the version and of a source. -/
structure IndexEntry.CutFrom (c : Components) (sourceId : String) (version : DocumentVersion)
    (content : ByteArray) (entry : IndexEntry) : Prop where
  tenantId : entry.tenantId = version.tenantId
  sourceId : entry.sourceId = sourceId
  documentId : entry.documentId = version.documentId
  documentVersionId : entry.documentVersionId = version.id
  chunk : entry.chunk ∈ c.cut version.id content

namespace IngestionPipeline

variable {c : Components} {faults : Faults} {event : SourceEvent} {submission : Submission}
  {content : ByteArray} {job : IngestionJob} {db : Database} {p : IndexEntry → Prop}

/-- What the sink passes on is cut from the content. -/
theorem cutFrom_prepared {parsed : ParsedDocument} {source : Source} {version : DocumentVersion}
    {first : PreparedChunk} {rest : List PreparedChunk} (hsub : submission.Of event db)
    (hparse : c.parse content = some parsed)
    (hprepared : prepare c event submission (c.chunk parsed) = first :: rest) :
    ∀ chunk ∈ (OpenSearchPreparationSink.projection source version first (first :: rest)).chunks,
      ((OpenSearchPreparationSink.projection source version first (first :: rest)).entry
        chunk).CutFrom c event.source.id submission.version content := by
  intro chunk hchunk
  have hfirst : first ∈ prepare c event submission (c.chunk parsed) := by
    rw [hprepared]
    exact List.mem_cons_self
  obtain ⟨origin, -, rfl⟩ := List.mem_map.1 hfirst
  have hmem : chunk ∈ (prepare c event submission (c.chunk parsed)).map PreparedChunk.indexChunk := by
    rw [hprepared]
    exact hchunk
  refine ⟨hsub.tenantId.symm, rfl, hsub.documentId.symm, rfl, ?_⟩
  unfold Components.cut
  rw [hparse, Option.elim_some]
  rw [prepare, List.map_map] at hmem
  exact hmem

theorem gaining_saveJob {operation : Operation} :
    Gaining p (IngestionRepository.saveJob faults operation job) :=
  .bind gaining_reach fun _ => .bind gaining_readDatabase fun _ => .bind gaining_orRaise fun _ =>
    .bind gaining_writeDatabase fun _ => gaining_pure _

theorem gaining_advance {operation : Operation} {target : JobState} :
    Gaining p (advance faults operation job target) :=
  .bind gaining_orRaise fun _ => gaining_saveJob

theorem gaining_leaveWaiting : Gaining p (leaveWaiting faults job) := by
  unfold leaveWaiting
  split
  · exact gaining_advance
  · exact .bind gaining_orRaise fun _ => .bind gaining_orRaise fun _ => gaining_saveJob
  · exact gaining_pure _

theorem gaining_fetch : Gaining p (fetch c faults event content job) :=
  .bind gaining_put fun _ => .bind gaining_advance fun _ => gaining_pure _

theorem gaining_normalize {raw : Option ArtifactRef} :
    Gaining p (normalize c faults event submission content raw job) := by
  have hupdate : ∀ {rawRef normalizedRef : String}, Gaining p (IngestionRepository.updateArtifacts
      faults event.source.tenantId submission.version.id rawRef normalizedRef) :=
    .bind gaining_reach fun _ => .bind gaining_readDatabase fun _ => .bind gaining_orRaise fun _ =>
      gaining_writeDatabase
  unfold normalize
  refine .bind gaining_reach fun _ => .bind gaining_orRaise fun parsed => ?_
  dsimp only
  split
  · exact .bind (gaining_pure _) fun _ => .bind gaining_put fun _ => .bind hupdate fun _ =>
      gaining_advance
  · exact .bind gaining_put fun _ => .bind gaining_put fun _ => .bind hupdate fun _ =>
      gaining_advance

theorem gaining_prepare {parsed : ParsedDocument} (hsub : submission.Of event db)
    (hparse : c.parse content = some parsed) :
    Gaining (IndexEntry.CutFrom c event.source.id submission.version content)
      (OpenSearchPreparationSink.prepare faults (prepare c event submission (c.chunk parsed))) := by
  cases hprepared : prepare c event submission (c.chunk parsed) with
  | nil => exact gaining_pure _
  | cons first rest =>
    refine .bind gaining_reach fun _ => .bind gaining_readDatabase fun _ => ?_
    split
    · refine Keeps.raiseAs (Gaining.bind gaining_reach fun _ => .bind gaining_observe fun _ => ?_)
      exact gaining_upsert (cutFrom_prepared hsub hparse hprepared)
    · exact gaining_throw _

/-- **`INDEXING`** indexes chunks of its content. -/
theorem gaining_index (hsub : submission.Of event db) :
    Gaining (IndexEntry.CutFrom c event.source.id submission.version content)
      (index c faults event submission content job) := by
  have hpromote : ∀ {tenantId versionId : String},
      Gaining (IndexEntry.CutFrom c event.source.id submission.version content)
        (IngestionRepository.promote c.platform faults tenantId versionId) :=
    .bind gaining_reach fun _ => .bind gaining_readDatabase fun _ => .bind gaining_orRaise fun _ =>
      gaining_writeDatabase
  intro w
  unfold index
  simp only [wp_bind, wp_reach, wp_orRaise]
  refine ⟨fun _ => ⟨fun parsed hparse => ?_, fun _ => .refl w⟩, fun _ _ => .refl w⟩
  have hrest : Gaining (IndexEntry.CutFrom c event.source.id submission.version content) (do
      observe (.prepared job.tenantId job.id)
      OpenSearchPreparationSink.prepare faults (prepare c event submission (c.chunk parsed))
      IngestionRepository.promote c.platform faults event.source.tenantId submission.version.id
      let promoted ← readDatabase
      observe (.promoted event.source.tenantId submission.version.id
        (promoted.currentVersionOf event.source.tenantId submission.version.id))
      let job ← advance faults .saveCompleted job .completed
      return (job, prepare c event submission (c.chunk parsed))) :=
    .bind gaining_observe fun _ => .bind (gaining_prepare hsub hparse) fun _ =>
      .bind hpromote fun _ => .bind gaining_readDatabase fun _ => .bind gaining_observe fun _ =>
        .bind gaining_advance fun _ => gaining_pure _
  have hw := hrest w
  simp only [wp_bind] at hw
  exact hw

theorem gaining_laterStages {raw : Option ArtifactRef} (hsub : submission.Of event db) :
    Gaining (IndexEntry.CutFrom c event.source.id submission.version content)
      (laterStages c faults event submission content raw job) := by
  have hindex : ∀ job : IngestionJob,
      Gaining (IndexEntry.CutFrom c event.source.id submission.version content)
        (if job.state = .indexing then
          raiseAs (Prod.mk job) (index c faults event submission content job)
        else return (job, [])) := by
    intro job
    split
    · exact (gaining_index hsub).raiseAs
    · exact gaining_pure _
  unfold laterStages
  dsimp only
  split
  · exact .bind gaining_normalize.raiseAs hindex
  · exact .bind (gaining_pure _) hindex

theorem gaining_stages (hsub : submission.Of event db) :
    Gaining (IndexEntry.CutFrom c event.source.id submission.version content)
      (stages c faults event submission content job) := by
  unfold stages
  split
  · exact .bind gaining_fetch.raiseAs fun _ => gaining_laterStages hsub
  · exact gaining_laterStages hsub

theorem gaining_failedAttempt {maxAttempts : ℕ} {errorClass : ErrorClass} :
    Gaining p (failedAttempt faults maxAttempts submission job errorClass) := by
  unfold failedAttempt
  refine .bind gaining_orRaise fun _ => .bind gaining_orRaise fun _ => ?_
  dsimp only
  split
  · exact .bind gaining_orRaise fun _ => .bind gaining_saveJob fun _ => gaining_pure _
  · exact .bind (gaining_pure _) fun _ => .bind gaining_saveJob fun _ => gaining_pure _

/-- **`_continue`** indexes chunks of the content that it is given. -/
theorem gaining_continueJob {maxAttempts : ℕ} (hsub : submission.Of event db)
    (hcontent : event.content = some content) (hkind : event.kind ≠ .malformed) :
    Gaining (IndexEntry.CutFrom c event.source.id submission.version content)
      (continueJob c faults maxAttempts event submission job) := by
  intro w
  refine wp_continueJob_of hcontent hkind (fun _ => .refl w) fun _ => ?_
  refine wp_mono (gaining_leaveWaiting w) (fun job₁ w₁ h₁ => ?_) (fun _ _ h₁ => h₁)
  refine wp_mono (gaining_stages hsub w₁) (fun _ _ h₂ => h₁.trans h₂) (fun left w₂ h₂ => ?_)
  refine ⟨fun _ _ => ?_, fun _ => h₁.trans h₂⟩
  have h₁₂ := h₁.trans h₂
  exact wp_mono (gaining_failedAttempt w₂) (fun _ _ h₃ => h₁₂.trans h₃) (fun _ _ h₃ => h₁₂.trans h₃)

end IngestionPipeline

/-! ## Deliveries -/

/-- The entry is cut from the content of a stored version, under the source of its document. -/
def IndexEntry.Sourced (c : Components) (db : Database) (entry : IndexEntry) : Prop :=
  ∃ version ∈ db.documentVersions, ∃ document ∈ db.documents,
    document.pk = (version.tenantId, version.documentId) ∧
      ∃ content, c.platform.sha256 content = version.contentHash ∧
        entry.CutFrom c document.sourceId version content

section Deliveries

variable {c : Components} {faults : Faults} {tenantId jobId : String} {w w' : World}
  {entry : IndexEntry}

/-- A resumed job indexes chunks of what it has read, which is what its version names. -/
theorem wp_resume_gains (hc : Consistent c.platform w.database w.uuids) {record : DeliveryRecord}
    {content : ByteArray} (hdelivery : w.database.getDelivery tenantId jobId = some record)
    (hdigest : c.platform.sha256 content = record.contentHash)
    (hclear : Clear faults [.getDelivery, .getArtifact]) :
    wp (IngestionPipeline.resume c faults maxDeliveries tenantId jobId (record.event content))
      (fun _ => w.Gains (IndexEntry.Sourced c w.database))
      (fun _ => w.Gains (IndexEntry.Sourced c w.database)) w := by
  refine wp_resume_of (fun _ w' hdrawn _ => .of_index hdrawn.index) ?_
  intro row s w₁ hrow hgetJob hsubmit hsubmitted hid _ _
  have hresumed : Resumed c faults tenantId jobId w w₁ record content row s :=
    ⟨hdelivery, hdigest, hrow, hsubmitted, hid, hclear.append (.cons hgetJob (.cons hsubmit .nil))⟩
  obtain ⟨-, hrows, hhash⟩ := hresumed.known hc
  obtain ⟨version, document, hjob⟩ := jobContent_of_delivery hrow hdelivery hdigest
  -- the submission has the version and the document of the job
  have hversion : version = s.version :=
    Table.eq_of_pk hjob.version_mem hrows.version_mem (hjob.version_pk.trans hrows.version_pk.symm)
  subst hversion
  have hdocument : document = s.document :=
    Table.eq_of_pk hjob.document_mem hrows.document_mem
      (hjob.document_pk.trans hrows.document_pk.symm)
  subst hdocument
  have hsource : record.source.id = s.document.sourceId := congrArg Prod.snd hjob.source_pk
  have hbefore : w.Gains (IndexEntry.Sourced c w.database) w₁ := .of_index hsubmitted.drawn.index
  have hcut : ∀ entry, IndexEntry.CutFrom c record.source.id s.version content entry →
      entry.Sourced c w.database := by
    intro entry h
    rw [hsource] at h
    exact ⟨s.version, hrows.version_mem, s.document, hrows.document_mem, hrows.document_pk, content,
      hhash, h⟩
  refine wp_mono (IngestionPipeline.gaining_continueJob (hsubmitted.of rfl) rfl
    SourceEventKind.noConfusion w₁) (fun _ w' h => ?_) (fun _ w' h => ?_)
  · exact hbefore.trans (Index.Gains.mono h hcut)
  · exact hbefore.trans (Index.Gains.mono h hcut)

theorem wp_body_gains (hc : Consistent c.platform w.database w.uuids) :
    wp (body c faults tenantId jobId)
      (fun _ => w.Gains (IndexEntry.Sourced c w.database))
      (fun _ => w.Gains (IndexEntry.Sourced c w.database)) w := by
  refine wp_body_of (fun _ => .refl w) fun record content hrecord hcontent hclear => ?_
  exact wp_mono (wp_resume_gains hc hrecord hcontent hclear)
    (fun _ _ h => ⟨fun _ => h, fun _ _ => h⟩) (fun _ _ h => h)

/-- **A delivery** indexes chunks of the content that is named by the version of its job. -/
theorem wp_runJob_gains (hc : Consistent c.platform w.database w.uuids) :
    wp (runJob c faults tenantId jobId)
      (fun _ => w.Gains (IndexEntry.Sourced c w.database))
      (fun _ => w.Gains (IndexEntry.Sourced c w.database)) w := by
  have hrecord : Gaining (IndexEntry.Sourced c w.database) (recordError faults tenantId jobId) :=
    .bind (gaining_transaction (.bind gaining_reach fun _ => .bind gaining_readDatabase fun _ =>
      .bind gaining_writeDatabase fun _ => gaining_pure _)) fun _ =>
      .bind gaining_orRaise fun _ => gaining_pure _
  unfold runJob
  split
  · exact .refl w
  rw [wp_bind]
  refine wp_claim (fun _ _ _ => .of_index rfl) (fun deliveries jobs _ _ => .of_index rfl)
    (fun deliveries jobs hclaim _ _ => ?_) (fun _ => .refl w)
  obtain ⟨row, -, -, -, rfl⟩ := claimDelivery_eq hclaim
  have hsame : Unfinished w.database { w.database with
      ingestionJobs := w.database.ingestionJobs.countDelivery tenantId jobId } :=
    countDelivery_unfinished
  have hclaimed := hc.of_same hsame.same
  simp only [wp_bind, wp_observe, wp_tryCatch, wp_pure]
  refine wp_mono (wp_body_gains hclaimed) (fun _ _ h => h) (fun raised w₁ h₁ => ?_)
  split
  · exact h₁
  · exact wp_mono (hrecord w₁) (fun _ _ h₂ => World.Gains.trans h₁ h₂)
      (fun _ _ h₂ => World.Gains.trans h₁ h₂)

/-! ## Events -/

/-- **What any event adds to the index**, however it ends. -/
theorem live_gains (hc : Consistent c.platform w.database w.uuids) (event : LifecycleEvent) :
    w.Gains (IndexEntry.Sourced c w.database) (w.live c event) := by
  cases event with
  | worker event =>
    obtain ⟨action, faults, now⟩ := event
    cases action with
    | submit source =>
      have hevent : SubmissionEvent c source { w with now }
          (w.step c ⟨.submit source, faults, now⟩) := submission_cases
      cases hevent with
      | rejected _ drawn => exact .of_index drawn.index
      | committed _ _ _ _ _ _ _ _ _ index => exact .of_index index
    | deliver tenantId jobId =>
      refine wp_state (P := w.Gains (IndexEntry.Sourced c w.database)) ?_
      rw [WorkerEvent.perform, wp_bind]
      have hn : Consistent c.platform ({ w with now } : World).database w.uuids := hc
      exact wp_mono (wp_runJob_gains hn) (fun _ _ h => h) (fun _ _ h => h)
    | recover limit =>
      have hevent : RecoveryEvent { w with now } (w.step c ⟨.recover limit, faults, now⟩) :=
        recovery_cases
      exact .of_index hevent.quiet.index
  | promote tenantId versionId =>
    exact .of_index (promote_documentsOnly w tenantId versionId).quiet.index
  | delete tenantId documentId =>
    exact .of_index (delete_documentsOnly w tenantId documentId).quiet.index

/-! ## Runs -/

/-- Where an entry comes from does not depend on its flag. -/
theorem IndexEntry.Sourced.congr {db : Database} {old : IndexEntry} (h : old.Sourced c db)
    (hsame : old.bare = entry.bare) : entry.Sourced c db := by
  obtain ⟨version, hversion, document, hdocument, hpk, content, hdigest, hcut⟩ := h
  have hbare : old.bare.CutFrom c document.sourceId version content :=
    ⟨hcut.tenantId, hcut.sourceId, hcut.documentId, hcut.documentVersionId, hcut.chunk⟩
  rw [hsame] at hbare
  exact ⟨version, hversion, document, hdocument, hpk, content, hdigest, hbare.tenantId,
    hbare.sourceId, hbare.documentId, hbare.documentVersionId, hbare.chunk⟩

/-- Versions and documents stay, with what an entry shows of them. -/
theorem IndexEntry.Sourced.live (hP : c.platform.CollisionFree) (hkept : Kept c w)
    (event : LifecycleEvent) (h : entry.Sourced c w.database) :
    entry.Sourced c (w.live c event).database := by
  obtain ⟨version, hversion, document, hdocument, hpk, content, hdigest, hcut⟩ := h
  obtain ⟨version', hversion', hbare, -⟩ := (live_kept hP hkept event).2.refs version hversion
  obtain ⟨document', hdocument', hdbare⟩ := live_documents hkept.consistent event hdocument
  obtain ⟨hids, hid, -, -, hhash⟩ := version_of_bare hbare
  have ht : version'.tenantId = version.tenantId := congrArg Prod.fst hids
  have hd : version'.documentId = version.documentId := congrArg Prod.snd hids
  have hpk' : document'.pk = document.pk := by
    unfold Document.bare at hdbare
    injection hdbare with hi htenant
    exact Prod.ext htenant hi
  have hsource : document'.sourceId = document.sourceId := by
    unfold Document.bare at hdbare
    injection hdbare
  refine ⟨version', hversion', document', hdocument', ?_, content, hdigest.trans hhash.symm, ?_⟩
  · rw [hpk', ht, hd]
    exact hpk
  · refine ⟨hcut.tenantId.trans ht.symm, hcut.sourceId.trans hsource.symm,
      hcut.documentId.trans hd.symm, hcut.documentVersionId.trans hid.symm, ?_⟩
    rw [hid]
    exact hcut.chunk

/-- **After every run, each entry is cut from the content that its version names.** -/
theorem index_sourced (hP : c.platform.CollisionFree) (es : List LifecycleEvent) :
    ∀ entry ∈ (Machine.run (World.live c) {} es).index,
      entry.Sourced c (Machine.run (World.live c) {} es).database := by
  have hrun : Kept c (Machine.run (World.live c) {} es) ∧
      ∀ entry ∈ (Machine.run (World.live c) {} es).index,
        entry.Sourced c (Machine.run (World.live c) {} es).database := by
    refine Machine.run_inv
      (I := fun w => Kept c w ∧ ∀ entry ∈ w.index, entry.Sourced c w.database)
      (fun w event h => ?_) ⟨Kept.empty, fun _ h => absurd h Table.not_mem_empty⟩
    obtain ⟨hkept, hall⟩ := h
    refine ⟨(live_kept hP hkept event).1, fun entry hentry => ?_⟩
    rcases live_gains hkept.consistent event entry hentry with hnew | ⟨old, hold, hsame⟩
    · have hsourced : entry.Sourced c w.database := hnew.congr rfl
      exact hsourced.live hP hkept event
    · exact ((hall old hold).congr hsame).live hP hkept event
  exact hrun.2

end Deliveries

/-! ## Passages -/

/-- The entry is a passage of the document: its text is what the stored content has between the
offsets of the entry, once it is normalized. -/
structure IndexEntry.Quotes (P : Platform) (w : World) (version : DocumentVersion)
    (document : Document) (content : ByteArray) (parsed : ParsedDocument) (entry : IndexEntry) :
    Prop where
  version_mem : version ∈ w.database.documentVersions
  version_pk : version.pk = (entry.tenantId, entry.documentVersionId)
  version_document : version.documentId = entry.documentId
  document_mem : document ∈ w.database.documents
  document_pk : document.pk = (entry.tenantId, entry.documentId)
  sourceId : document.sourceId = entry.sourceId
  stored : w.objects version.rawArtifact = some content
  digest : P.sha256 content = version.contentHash
  parse : MarkdownParser.parse content = some parsed
  start_lt : entry.chunk.start < entry.chunk.end
  end_le : entry.chunk.end ≤ parsed.normalizedText.length
  text : entry.chunk.text = sliceText parsed.normalizedText entry.chunk.start entry.chunk.end
  contentHash : entry.chunk.contentHash = P.sha256 entry.chunk.text.toUTF8
  chunkId : entry.chunkId = P.keyOf version.id (toString entry.chunk.ordinal)

section Passages

variable {P : Platform} {chunker : StructuralChunker} {content : ByteArray} {versionId : String}
  {chunk : IndexChunk}

/-- What is cut from a Markdown content is a passage of its normalized text. -/
theorem passage_of_cut (h : chunk ∈ (markdownComponents P chunker).cut versionId content) :
    ∃ parsed, MarkdownParser.parse content = some parsed ∧ chunk.start < chunk.end ∧
      chunk.end ≤ parsed.normalizedText.length ∧
      chunk.text = sliceText parsed.normalizedText chunk.start chunk.end ∧
      chunk.contentHash = P.sha256 chunk.text.toUTF8 ∧
      chunk.chunkId = P.keyOf versionId (toString chunk.ordinal) := by
  obtain ⟨origin, horigin, rfl⟩ := List.mem_map.1 h
  have hparse : ∃ parsed, MarkdownParser.parse content = some parsed ∧
      origin ∈ (chunker.chunk parsed).map CountedChunk.toChunk := by
    cases hcontent : MarkdownParser.parse content with
    | none =>
      have hnone : (markdownComponents P chunker).parse content = none := hcontent
      rw [hnone] at horigin
      cases horigin
    | some parsed =>
      have hsome : (markdownComponents P chunker).parse content = some parsed := hcontent
      rw [hsome] at horigin
      exact ⟨parsed, rfl, horigin⟩
  obtain ⟨parsed, hparsed, hmem⟩ := hparse
  obtain ⟨counted, hcounted, rfl⟩ := List.mem_map.1 hmem
  have hlossless : Lossless parsed (chunker.chunk parsed) := by
    obtain ⟨text, rfl⟩ := parseText_of_parse hparsed
    exact StructuralChunker.chunk_lossless (MarkdownParser.parseText_tiled text)
  -- the chunks tile the text, so that none is empty or reaches past its end
  have hrange : counted.range ∈ (chunker.chunk parsed).map fun chunk => chunk.range :=
    List.mem_map_of_mem hcounted
  obtain ⟨-, hlt, hle⟩ := hlossless.ranges.nonempty_of_mem hrange
  exact ⟨parsed, hparsed, hlt, hle, hlossless.chunkTexts counted hcounted, rfl, rfl⟩

/-- What is cut from the content of a stored version is a passage of it, for the content is still in
the store. -/
theorem quotes_of_sourced (hP : P.CollisionFree) {w : World} {entry : IndexEntry}
    (hkept : Kept (markdownComponents P chunker) w)
    (h : entry.Sourced (markdownComponents P chunker) w.database) :
    ∃ version document content parsed, entry.Quotes P w version document content parsed := by
  obtain ⟨version, hversion, document, hdocument, hpk, content, hdigest, hcut⟩ := h
  obtain ⟨stored, hstored⟩ := hkept.shelved.content version hversion
  have hsame : stored = content :=
    hP.sha256 ((hkept.shelved.intact _ _ hstored).1.trans hdigest.symm)
  rw [hsame] at hstored
  obtain ⟨parsed, hparse, hlt, hle, htext, hhash, hid⟩ := passage_of_cut hcut.chunk
  refine ⟨version, document, content, parsed, {
    version_mem := hversion
    version_pk := ?_
    version_document := hcut.documentId.symm
    document_mem := hdocument
    document_pk := ?_
    sourceId := hcut.sourceId.symm
    stored := hstored
    digest := hdigest
    parse := hparse
    start_lt := hlt
    end_le := hle
    text := htext
    contentHash := hhash
    chunkId := hid }⟩
  · rw [hcut.tenantId, hcut.documentVersionId]
    rfl
  · rw [hcut.tenantId, hcut.documentId]
    exact hpk

/-- **Whatever the index holds is a passage of a stored document**, under the ids of its version,
document and source: after every run of submissions, deliveries, recoveries, promotions and
deletions, whatever fails in them and wherever a worker dies. -/
theorem index_quotes (hP : P.CollisionFree) (chunker : StructuralChunker)
    (es : List LifecycleEvent) :
    ∀ entry ∈ (Machine.run (World.live (markdownComponents P chunker)) {} es).index,
      ∃ version document content parsed,
        entry.Quotes P (Machine.run (World.live (markdownComponents P chunker)) {} es) version
          document content parsed := by
  intro entry hentry
  have hsourced := index_sourced (c := markdownComponents P chunker) hP es entry hentry
  exact quotes_of_sourced hP (life_kept hP es) hsourced

/-- A document is submitted and delivered; the process dies before its flags are set. -/
def sampleLife : List LifecycleEvent :=
  [.worker ⟨.submit { sampleEvent "# A b" 1 with sourceVersion := "one" }, {}, 0⟩,
    .worker ⟨.deliver "tenant" "uuu", { fault := fun operation =>
      if operation = .clearOthers then some .crash else none }, 0⟩]

theorem index_quotes_sample :
    (Machine.run (World.live (markdownComponents samplePlatform pairChunker)) {}
        sampleLife).index.rows.map (fun entry => entry.chunk.text) = ["# A ", "b"] ∧
      ∀ entry ∈ (Machine.run (World.live (markdownComponents samplePlatform pairChunker)) {}
          sampleLife).index,
        ∃ version document content parsed,
          entry.Quotes samplePlatform
            (Machine.run (World.live (markdownComponents samplePlatform pairChunker)) {} sampleLife)
            version document content parsed :=
  ⟨by decide +kernel, index_quotes samplePlatform_collisionFree pairChunker sampleLife⟩

end Passages

end GroundedOps.Ingestion
