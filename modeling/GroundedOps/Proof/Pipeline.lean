import GroundedOps.Proof.World
import GroundedOps.Spec.Pipeline

/-!
# What one pipeline body does

One lemma for each stage of `_continue`, and from them:

* `wp_continueJob`: a body that returns leaves the job as it was if it is terminal, and
  else completes it and promotes its version, or counts one more attempt.
* a body that does not complete its job leaves the index as it was, or with the chunks of
  its version projected and not flagged, unless it is stopped between the first update of
  the flags and the end (`IndexLeft`).
-/

namespace GroundedOps.Ingestion

open Hoare

def IngestionJob.at (job : IngestionJob) (state : JobState) : IngestionJob := { job with state }

/-- The job when it is taken up again from a checkpoint. -/
def IngestionJob.resumedAt (job : IngestionJob) (checkpoint : Checkpoint) : IngestionJob :=
  { job with state := checkpoint.state, resumeFrom := none, errorClass := none }

/-- The job after an attempt that failed in the stage of a checkpoint. -/
def IngestionJob.afterFailure (job : IngestionJob) (maxAttempts : ℕ) (errorClass : ErrorClass)
    (checkpoint : Checkpoint) : IngestionJob :=
  let waiting : IngestionJob :=
    { job with
      state := .retrying
      attempts := job.attempts + 1
      errorClass := some errorClass
      resumeFrom := some checkpoint }
  if maxAttempts ≤ job.attempts + 1 then { waiting with state := .failed, resumeFrom := none }
  else waiting

/-- The state in which `_continue` enters its stages. -/
def IngestionJob.start (job : IngestionJob) : JobState :=
  match job.state with
  | .queued => .fetching
  | .retrying => (job.resumeFrom.map Checkpoint.state).getD .retrying
  | state => state

theorem transition_running {job : IngestionJob} {target : JobState} (h : job.state ≠ .retrying)
    (ht : target ∈ job.state.permitted) : job.transition target = some (job.at target) := by
  unfold IngestionJob.transition
  rw [if_pos ht, if_neg h]
  rfl

theorem transition_failed {job : IngestionJob} (h : job.state = .retrying) :
    job.transition .failed = some { job with state := .failed, resumeFrom := none } := by
  unfold IngestionJob.transition
  rw [if_pos (by simp [h, JobState.permitted]), if_pos h]

theorem checkpoint_state (checkpoint : Checkpoint) :
    checkpoint.state.checkpoint = some checkpoint := by
  cases checkpoint <;> rfl

/-- `db'` is `db` with the job saved as `job`, and perhaps new references of versions. -/
structure Saved (db db' : Database) (job : IngestionJob) : Prop where
  known : ∃ row, db.ingestionJobs.find (job.tenantId, job.id) = some row
  sources : db'.sources = db.sources
  documents : db'.documents = db.documents
  versions : SameVersions db.documentVersions db'.documentVersions
  jobs : db'.ingestionJobs = db.ingestionJobs.setJob job

section Saved

variable {db db' : Database} {job job' : IngestionJob}

theorem Saved.refl (h : db.getJob job.tenantId job.id = some job) : Saved db db job := by
  obtain ⟨row, hrow, hjob⟩ := Option.map_eq_some_iff.1 h
  exact ⟨⟨row, hrow⟩, rfl, rfl, SameVersions.refl _, (setJob_self hrow hjob).symm⟩

theorem Saved.found (h : Saved db db' job) :
    ∃ row, db'.ingestionJobs.find (job.tenantId, job.id) = some row := by
  obtain ⟨row, hrow⟩ := h.known
  rw [h.jobs, find_setJob_self, hrow]
  exact ⟨_, rfl⟩

theorem Saved.save (h : Saved db db' job) (ht : job'.tenantId = job.tenantId)
    (hi : job'.id = job.id) :
    Saved db { db' with ingestionJobs := db'.ingestionJobs.setJob job' } job' := by
  refine ⟨by rw [ht, hi]; exact h.known, h.sources, h.documents, h.versions, ?_⟩
  show db'.ingestionJobs.setJob job' = _
  rw [h.jobs, setJob_setJob ht.symm hi.symm]

theorem Saved.updateArtifacts (h : Saved db db' job) {documentVersions : DocumentVersions}
    (hv : SameVersions db'.documentVersions documentVersions) :
    Saved db { db' with documentVersions } job :=
  { h with versions := h.versions.trans hv }

end Saved

/-! ## The index after a body -/

/-- `π` is a projection of all chunks of the version. -/
structure Projects (c : Components) (version : DocumentVersion) (content : ByteArray)
    (π : VersionProjection) : Prop where
  tenantId : π.tenantId = version.tenantId
  documentId : π.documentId = version.documentId
  documentVersionId : π.documentVersionId = version.id
  chunkIds : π.chunks.map IndexChunk.chunkId = c.chunkIds version.id content

/-- What `INDEXING` has to pass before it touches the flags. -/
def projectOperations : List Operation :=
  [.chunk, .getProjection, .ensureSchema, .validateProjection, .bulk]

/-- What it still has to pass once a flag has moved. -/
def flagOperations : List Operation := [.setCurrent, .promote, .saveCompleted, .commit]

/-- The delivery fails between its first update of the flags and its end. -/
def FlagsFail (faults : Faults) : Prop :=
  (faults.fault .clearOthers ≠ none ∧ faults.applied .clearOthers = true) ∨
    ∃ operation ∈ flagOperations, faults.fault operation ≠ none

/-- What a body that does not complete leaves of the index: no flag has moved, if the bulk
request rejects nothing and nothing fails between the first update of the flags and the end. -/
inductive IndexLeft (c : Components) (faults : Faults) (version : DocumentVersion)
    (content : ByteArray) (index index' : Index) : Prop
  | same (h : index' = index)
  | projected (π : VersionProjection) (hπ : Projects c version content π)
      (h : index' = index.bulk π faults.rejected)
  | rejected (id : String) (hmem : id ∈ c.chunkIds version.id content)
      (h : faults.rejected id = true)
  | stopped (hclear : Clear faults projectOperations) (hne : c.chunkIds version.id content ≠ [])
      (hfail : FlagsFail faults)

/-- The whole of `upsert` on the index. -/
def Index.upserted (index : Index) (π : VersionProjection) (rejected : String → Bool) : Index :=
  ((index.bulk π rejected).clearOthers π).setCurrent π

/-- What a body that completes leaves of the index. -/
inductive IndexDone (c : Components) (faults : Faults) (version : DocumentVersion)
    (content : ByteArray) (index index' : Index) : Prop
  | empty (parsed : ParsedDocument) (hparse : c.parse content = some parsed)
      (hnil : c.chunk parsed = []) (h : index' = index)
  | upserted (π : VersionProjection) (hπ : Projects c version content π)
      (hclear : Clear faults projectOperations) (hne : c.chunkIds version.id content ≠ [])
      (h : index' = index.upserted π faults.rejected)

theorem IndexDone.left {c : Components} {faults : Faults} {version : DocumentVersion}
    {content : ByteArray} {index index' : Index}
    (h : IndexDone c faults version content index index') (operation : Operation)
    (ho : operation ∈ flagOperations) (hf : faults.fault operation ≠ none) :
    IndexLeft c faults version content index index' := by
  cases h with
  | empty _ _ _ h => exact .same h
  | upserted _ _ hclear hne _ => exact .stopped hclear hne (Or.inr ⟨operation, ho, hf⟩)

/-- What a submission has to do with the event it is made from. -/
structure Submission.Of (submission : Submission) (event : SourceEvent) (db : Database) : Prop where
  version : submission.version ∈ db.documentVersions
  tenantId : submission.version.tenantId = event.source.tenantId
  documentId : submission.version.documentId = submission.document.id

/-- What a body of the job adds to the log. -/
inductive Observation.OfBody (tenantId jobId : String) : Observation → Prop
  | prepared : OfBody tenantId jobId (.prepared tenantId jobId)
  | projected (π : VersionProjection) : OfBody tenantId jobId (.projected π)
  | promoted (versionTenantId versionId : String) (currentVersionId : Option String) :
      OfBody tenantId jobId (.promoted versionTenantId versionId currentVersionId)

/-- The world after the sink, which has passed these projections to the index writer. -/
def World.noted (w : World) (index : Index) (passed : List VersionProjection) : World :=
  { w with
    index
    log := w.log ++ passed.map Observation.projected }

theorem World.noted_nil (w : World) : w.noted w.index [] = w := by
  unfold World.noted
  rw [List.map_nil, List.append_nil]

theorem logged_noted {tenantId jobId : String} (w : World) (index : Index)
    (passed : List VersionProjection) :
    Logged (Observation.OfBody tenantId jobId) w (w.noted index passed) := by
  refine ⟨passed.map Observation.projected, rfl, fun o ho => ?_⟩
  obtain ⟨π, -, rfl⟩ := List.mem_map.1 ho
  exact .projected π

/-! ## Saving -/

namespace IngestionPipeline

variable {c : Components} {faults : Faults} {operation : Operation} {event : SourceEvent}
  {submission : Submission} {content : ByteArray} {job : IngestionJob} {db : Database}
  {w : World} {maxAttempts : ℕ} {E : Raised → World → Prop}

/-- `save_job` saves, or the statement fails. -/
theorem wp_saveJob {job' : IngestionJob} {N : IngestionJob → World → Prop}
    (hs : Saved db w.database job) (ht : job'.tenantId = job.tenantId) (hi : job'.id = job.id)
    (hN : faults.fault operation = none → ∀ w', Quiet w w' → Saved db w'.database job' → N job' w')
    (hE : ∀ fault, faults.fault operation = some fault → E (fault.raised .exception) w) :
    wp (IngestionRepository.saveJob faults operation job') N E w := by
  simp only [IngestionRepository.saveJob, wp_bind, wp_reach, wp_readDatabase, wp_orRaise,
    wp_writeDatabase, wp_pure]
  refine ⟨fun hf => ⟨fun jobs hjobs => ?_, fun hnone => ?_⟩, hE⟩
  · rw [saveJob_eq hjobs]
    exact hN hf _ ⟨rfl, rfl, rfl⟩ (hs.save ht hi)
  · obtain ⟨row, hrow⟩ := hs.found
    unfold IngestionJobs.saveJob at hnone
    rw [ht, hi, hrow] at hnone
    cases hnone

theorem wp_advance {target : JobState} {N : IngestionJob → World → Prop}
    (hs : Saved db w.database job) (hr : job.state ≠ .retrying)
    (ht : target ∈ job.state.permitted)
    (hN : faults.fault operation = none → ∀ w', Quiet w w' →
      Saved db w'.database (job.at target) → N (job.at target) w')
    (hE : ∀ fault, faults.fault operation = some fault → E (fault.raised .exception) w) :
    wp (advance faults operation job target) N E w := by
  simp only [advance, wp_bind, wp_orRaise, transition_running hr ht]
  refine ⟨?_, fun h => absurd h (Option.some_ne_none _)⟩
  rintro _ ⟨⟩
  exact wp_saveJob hs rfl rfl hN hE

/-! ## The stages -/

theorem wp_fetch (hs : Saved db w.database job) (hst : job.state = .fetching) :
    wp (fetch c faults event content job)
      (fun out w' => out.2 = job.at .parsing ∧ Saved db w'.database (job.at .parsing) ∧
        Quiet w w' ∧ Clear faults [.putRaw, .saveParsing])
      (fun _ w' => Saved db w'.database job ∧ Quiet w w') w := by
  unfold fetch
  rw [wp_bind]
  refine DocumentStore.wp_putObject (fun hput w₁ hdb hq₁ => ?_)
    (fun _ w₁ hdb hq => ⟨hdb ▸ hs, hq⟩)
  have hs₁ : Saved db w₁.database job := hdb ▸ hs
  rw [wp_bind]
  refine wp_advance hs₁ (by simp [hst]) (by simp [hst, JobState.permitted]) ?_ ?_
  · intro hsave w' hq hs'
    exact ⟨rfl, hs', hq₁.trans hq, .cons hput (.cons hsave .nil)⟩
  · exact fun _ _ => ⟨hs₁, hq₁⟩

theorem wp_updateArtifacts {tenantId versionId rawRef normalizedRef : String}
    {N : Unit → World → Prop} (hs : Saved db w.database job)
    (hN : faults.fault .updateArtifacts = none → ∀ w', Quiet w w' → Saved db w'.database job →
      N ⟨⟩ w')
    (hE : ∀ raised, E raised w) :
    wp (IngestionRepository.updateArtifacts faults tenantId versionId rawRef normalizedRef) N E
      w := by
  simp only [IngestionRepository.updateArtifacts, wp_bind, wp_reach, wp_readDatabase, wp_orRaise,
    wp_writeDatabase]
  refine ⟨fun hf => ⟨fun versions hv => ?_, fun _ => hE _⟩, fun _ _ => hE _⟩
  exact hN hf _ ⟨rfl, rfl, rfl⟩ (hs.updateArtifacts (updateArtifacts_same hv))

/-- What `PARSING` has to pass. -/
def normalizeOperations : List Operation :=
  [.parse, .putRaw, .putNormalized, .updateArtifacts, .saveIndexing]

/-- What `PARSING` does once the raw artifact is there. -/
theorem wp_normalize_rest {parsed : ParsedDocument} {raw : ArtifactRef} {w₀ : World}
    (hs : Saved db w.database job) (hq₀ : Quiet w₀ w) (hst : job.state = .parsing)
    (hparse : faults.fault .parse = none) (hraw : faults.fault .putRaw = none) :
    wp (do
        let normalized ← DocumentStore.put c.platform faults .putNormalized event.source.tenantId
          .normalized parsed.normalizedText.toUTF8
        IngestionRepository.updateArtifacts faults event.source.tenantId submission.version.id
          raw.key normalized.key
        advance faults .saveIndexing job .indexing)
      (fun job' w' => job' = job.at .indexing ∧ Saved db w'.database (job.at .indexing) ∧
        Quiet w₀ w' ∧ Clear faults normalizeOperations)
      (fun _ w' => Saved db w'.database job ∧ Quiet w₀ w') w := by
  rw [wp_bind]
  refine DocumentStore.wp_putObject (fun hnorm w₁ hdb hq₁ => ?_)
    (fun _ w₁ hdb hq₁ => ⟨hdb ▸ hs, hq₀.trans hq₁⟩)
  have hs₁ : Saved db w₁.database job := hdb ▸ hs
  rw [wp_bind]
  refine wp_updateArtifacts hs₁ (fun hupdate w₂ hq₂ hs₂ => ?_) (fun _ => ⟨hs₁, hq₀.trans hq₁⟩)
  have hq : Quiet w₀ w₂ := (hq₀.trans hq₁).trans hq₂
  refine wp_advance hs₂ (by simp [hst]) (by simp [hst, JobState.permitted]) ?_ ?_
  · intro hsave w' hq' hs'
    exact ⟨rfl, hs', hq.trans hq',
      .cons hparse (.cons hraw (.cons hnorm (.cons hupdate (.cons hsave .nil))))⟩
  · exact fun _ _ => ⟨hs₂, hq⟩

theorem wp_normalize {raw : Option ArtifactRef} (hs : Saved db w.database job)
    (hst : job.state = .parsing) (hraw : raw.isSome → faults.fault .putRaw = none) :
    wp (normalize c faults event submission content raw job)
      (fun job' w' => job' = job.at .indexing ∧ Saved db w'.database (job.at .indexing) ∧
        Quiet w w' ∧ Clear faults normalizeOperations)
      (fun _ w' => Saved db w'.database job ∧ Quiet w w') w := by
  simp only [normalize, wp_bind, wp_reach, wp_orRaise]
  refine ⟨fun hparse => ⟨fun parsed _ => ?_, fun _ => ⟨hs, .refl w⟩⟩, fun _ _ => ⟨hs, .refl w⟩⟩
  cases raw with
  | some raw => exact wp_normalize_rest hs (.refl w) hst hparse (hraw rfl)
  | none =>
    dsimp only
    rw [wp_bind]
    refine DocumentStore.wp_putObject (fun hput w₁ hdb hq => ?_) (fun _ w₁ hdb hq => ⟨hdb ▸ hs, hq⟩)
    exact wp_normalize_rest (hdb ▸ hs) hq hst hparse hput

/-! ## The index writer -/

theorem wp_validateProjection {π : VersionProjection} {N : Unit → World → Prop}
    (hN : faults.fault .validateProjection = none → N ⟨⟩ w) (hE : ∀ raised, E raised w) :
    wp (validateProjection faults π) N E w := by
  simp only [validateProjection, wp_bind, wp_reach, wp_orRaise, wp_readDatabase]
  refine ⟨fun hf => ⟨fun reference _ => ?_, fun _ => hE _⟩, fun _ _ => hE _⟩
  split
  · simpa using hE _
  · split
    · simpa using hE _
    · simpa using hN hf

theorem wp_upsert {π : VersionProjection} {version : DocumentVersion}
    {N : Unit → World → Prop} (hπ : Projects c version content π) (hne : π.chunks ≠ [])
    (hclear : Clear faults [.chunk, .getProjection, .ensureSchema])
    (hN : Clear faults projectOperations →
      N ⟨⟩ { w with index := w.index.upserted π faults.rejected })
    (hE : ∀ raised index, IndexLeft c faults version content w.index index →
      E raised { w with index }) :
    wp (upsert faults π) N E w := by
  have hsame : ∀ raised, E raised w := fun raised => hE raised w.index (.same rfl)
  simp only [upsert, wp_bind]
  refine wp_validateProjection (fun hvalid => ?_) hsame
  simp only [wp_request]
  refine ⟨fun hbulk => ?_, fun fault _ => ?_⟩
  · -- the chunks are in the index now; what is left are the two flags
    have hproject : Clear faults projectOperations :=
      hclear.append (.cons hvalid (.cons hbulk .nil))
    have hstopped : ∀ {index}, FlagsFail faults →
        IndexLeft c faults version content w.index index := by
      intro index hfail
      refine .stopped hproject (fun hnil => hne ?_) hfail
      rw [← hπ.chunkIds] at hnil
      exact List.map_eq_nil_iff.1 hnil
    split
    · -- some item is in error: the accepted ones are deleted again
      rename_i hfailed
      obtain ⟨id, hid⟩ := List.exists_mem_of_ne_nil _ hfailed
      have hmem : id ∈ c.chunkIds version.id content :=
        hπ.chunkIds ▸ (List.mem_filter.1 hid).1
      have hleft : ∀ index, IndexLeft c faults version content w.index index :=
        fun _ => .rejected id hmem (List.mem_filter.1 hid).2
      split
      · simp only [wp_bind, wp_request, wp_throw]
        refine ⟨fun _ => hE _ _ (hleft _), fun _ _ => ?_⟩
        split <;> exact hE _ _ (hleft _)
      · simp only [wp_bind, wp_throw]
        exact hE _ _ (hleft _)
    · simp only [wp_bind, wp_request]
      refine ⟨fun hothers => ⟨fun _ => hN hproject, fun fault hf => ?_⟩, fun fault hf => ?_⟩
      · have hfail : FlagsFail faults := Or.inr ⟨.setCurrent, by decide, by simp [hf]⟩
        split <;> exact hE _ _ (hstopped hfail)
      · split
        · rename_i happlied
          exact hE _ _ (hstopped (Or.inl ⟨by simp [hf], happlied⟩))
        · exact hE _ _ (.projected π hπ rfl)
  · split
    · exact hE _ _ (.projected π hπ rfl)
    · exact hsame _

theorem prepare_chunkIds {parsed : ParsedDocument} (hparse : c.parse content = some parsed)
    (event : SourceEvent) (submission : Submission) :
    (prepare c event submission (c.chunk parsed)).map PreparedChunk.id =
      c.chunkIds submission.version.id content := by
  simp only [prepare, Components.chunkIds, hparse, List.map_map]
  rfl

theorem wp_prepare {parsed : ParsedDocument} {N : Unit → World → Prop}
    (hsub : submission.Of event db) (hparse : c.parse content = some parsed)
    (hchunk : faults.fault .chunk = none)
    (hN : ∀ index passed, IndexDone c faults submission.version content w.index index →
      N ⟨⟩ (w.noted index passed))
    (hE : ∀ raised index passed, IndexLeft c faults submission.version content w.index index →
      E raised (w.noted index passed)) :
    wp (OpenSearchPreparationSink.prepare faults (prepare c event submission (c.chunk parsed)))
      N E w := by
  have hids := prepare_chunkIds hparse event submission
  have hsame : ∀ raised, E raised w :=
    fun raised => w.noted_nil ▸ hE raised w.index [] (.same rfl)
  have hmem : ∀ x ∈ prepare c event submission (c.chunk parsed),
      ∃ chunk, x = preparedChunk c event submission chunk := by
    intro x hx
    obtain ⟨chunk, -, rfl⟩ := List.mem_map.1 hx
    exact ⟨chunk, rfl⟩
  -- from here on only these two facts of the prepared chunks are used
  revert hids hmem
  generalize prepare c event submission (c.chunk parsed) = prepared
  intro hids hmem
  unfold OpenSearchPreparationSink.prepare
  split
  · rw [List.map_nil, Components.chunkIds, hparse] at hids
    exact w.noted_nil ▸ hN w.index [] (.empty parsed hparse (List.map_eq_nil_iff.1 hids.symm) rfl)
  · rename_i first rest
    simp only [wp_bind, wp_reach, wp_readDatabase]
    refine ⟨fun hget => ?_, fun _ _ => hsame _⟩
    split
    · rename_i source version _ _
      simp only [wp_raiseAs, wp_bind, wp_reach, wp_observe]
      refine ⟨fun hschema => ?_, fun _ _ => hsame _⟩
      have hne : c.chunkIds submission.version.id content ≠ [] := by rw [← hids]; simp
      have hπ : Projects c submission.version content
          (OpenSearchPreparationSink.projection source version first (first :: rest)) := by
        obtain ⟨chunk, rfl⟩ := hmem first List.mem_cons_self
        refine ⟨hsub.tenantId.symm, hsub.documentId.symm, rfl, ?_⟩
        rw [← hids]
        simp only [OpenSearchPreparationSink.projection, List.map_map]
        rfl
      refine wp_upsert hπ (by simp [OpenSearchPreparationSink.projection])
        (.cons hchunk (.cons hget (.cons hschema .nil))) (fun hclear => ?_)
        (fun raised index => hE (OpenSearchPreparationSink.unavailable raised) index [_])
      exact hN _ [_] (.upserted _ hπ hclear hne rfl)
    · exact hsame _

/-! ## Promotion -/

theorem find_version {v : DocumentVersion} {versions : DocumentVersions}
    (hv : v ∈ db.documentVersions) (hsame : SameVersions db.documentVersions versions) :
    ∃ v', versions.find (v.tenantId, v.id) = some v' ∧ v'.bare = v.bare := by
  have hfind := hsame.find (k := v.pk)
  rw [Table.find_of_mem hv, Option.map_some] at hfind
  exact Option.map_eq_some_iff.1 hfind

theorem wp_promote {P : Platform} {N : Unit → World → Prop} (hsub : submission.Of event db)
    (hs : Saved db w.database job)
    (hN : faults.fault .promote = none → ∀ w', w'.index = w.index → w'.log = w.log →
      w'.uuids = w.uuids → Saved (db.promoted P submission.version) w'.database job → N ⟨⟩ w')
    (hE : ∀ fault, faults.fault .promote = some fault → E (fault.raised .exception) w) :
    wp (IngestionRepository.promote P faults event.source.tenantId submission.version.id) N E
      w := by
  simp only [IngestionRepository.promote, wp_bind, wp_reach, wp_readDatabase, wp_orRaise,
    wp_writeDatabase]
  obtain ⟨v, hv, hbare⟩ := find_version hsub.version hs.versions
  rw [hsub.tenantId] at hv
  unfold Database.promote
  rw [hv]
  refine ⟨fun hf => ⟨?_, fun h => absurd h (Option.some_ne_none _)⟩, hE⟩
  rintro _ ⟨⟩
  refine hN hf _ rfl rfl rfl ⟨hs.known, hs.sources, ?_, hs.versions, hs.jobs⟩
  show w.database.documents.setCurrent P w.database.documentVersions v = _
  rw [hs.documents, setCurrent_congr hs.versions.symm hbare]
  rfl

/-! ## The last stage -/

theorem classified_raised (fault : Fault) : (fault.raised .exception).classified = none := by
  cases fault <;> rfl

/-- How a stage may end by raising: what is caught leaves the job saved as it was. -/
structure StageRaised (c : Components) (faults : Faults) (submission : Submission)
    (content : ByteArray) (db : Database) (w : World) (job : IngestionJob) (raised : Raised)
    (w' : World) : Prop where
  saved : raised.classified ≠ none → Saved db w'.database job
  index : IndexLeft c faults submission.version content w.index w'.index
  log : Logged (Observation.OfBody job.tenantId job.id) w w'
  uuids : w'.uuids = w.uuids

/-- How the last stage ends: the job is completed and its version promoted. -/
structure StageDone (c : Components) (faults : Faults) (submission : Submission)
    (content : ByteArray) (db : Database) (w : World) (job : IngestionJob) (w' : World) : Prop where
  saved : Saved (db.promoted c.platform submission.version) w'.database (job.at .completed)
  index : IndexDone c faults submission.version content w.index w'.index
  log : Logged (Observation.OfBody job.tenantId job.id) w w'
  uuids : w'.uuids = w.uuids

theorem wp_index (hsub : submission.Of event db) (hs : Saved db w.database job)
    (hst : job.state = .indexing) :
    wp (index c faults event submission content job)
      (fun out w' => out.1 = job.at .completed ∧ StageDone c faults submission content db w job w')
      (StageRaised c faults submission content db w job) w := by
  have hquiet : ∀ raised, StageRaised c faults submission content db w job raised w :=
    fun _ => ⟨fun _ => hs, .same rfl, .of_eq rfl, rfl⟩
  simp only [index, wp_bind, wp_reach, wp_orRaise, wp_observe, wp_readDatabase]
  refine ⟨fun hchunk => ⟨fun parsed hparse => ?_, fun _ => hquiet _⟩, fun _ _ => hquiet _⟩
  have hlog : ∀ index passed, Logged (Observation.OfBody job.tenantId job.id) w
      (({ w with log := w.log ++ [.prepared job.tenantId job.id] } : World).noted index passed) :=
    fun index passed => (Logged.one rfl .prepared).trans (logged_noted _ index passed)
  refine wp_prepare hsub hparse hchunk (fun idx passed hdone => ?_)
    (fun raised idx passed hleft => ?_)
  · refine wp_promote hsub hs (fun hpromote w₁ hidx hlog₁ huuids hs₁ => ?_) (fun fault hf => ?_)
    · have hlog₂ : Logged (Observation.OfBody job.tenantId job.id) w
          { w₁ with log := w₁.log ++ [.promoted event.source.tenantId submission.version.id
            (w₁.database.currentVersionOf event.source.tenantId submission.version.id)] } :=
        (hlog idx passed).trans ((Logged.of_eq hlog₁).trans (.one rfl (.promoted _ _ _)))
      refine wp_advance hs₁ (by simp [hst]) (by simp [hst, JobState.permitted]) ?_ ?_
      · intro _ w' hq hs'
        refine ⟨rfl, hs', ?_, hlog₂.trans (.of_eq hq.log), hq.uuids.trans huuids⟩
        rw [hq.index, hidx]; exact hdone
      · intro fault hf
        refine ⟨fun h => absurd (classified_raised fault) h, ?_, hlog₂, huuids⟩
        show IndexLeft _ _ _ _ _ w₁.index
        rw [hidx]; exact hdone.left .saveCompleted (by decide) (by simp [hf])
    · exact ⟨fun h => absurd (classified_raised fault) h,
        hdone.left .promote (by decide) (by simp [hf]), hlog idx passed, rfl⟩
  · exact ⟨fun _ => hs, hleft, hlog idx passed, rfl⟩

/-! ## All stages -/

/-- What the stages before `INDEXING` have to pass. -/
def stageOperations : JobState → List Operation
  | .fetching => [.putRaw, .saveParsing] ++ normalizeOperations
  | .parsing => normalizeOperations
  | _ => []

theorem StageRaised.of_quiet {w₁ w' : World} {raised : Raised} (hq : Quiet w w₁)
    (h : StageRaised c faults submission content db w₁ job raised w') :
    StageRaised c faults submission content db w job raised w' :=
  ⟨h.saved, hq.index ▸ h.index, (Logged.of_eq hq.log).trans h.log, h.uuids.trans hq.uuids⟩

theorem StageDone.of_quiet {w₁ w' : World} {state : JobState} (hq : Quiet w w₁)
    (h : StageDone c faults submission content db w₁ (job.at state) w') :
    StageDone c faults submission content db w job w' :=
  ⟨h.saved, hq.index ▸ h.index, (Logged.of_eq hq.log).trans h.log, h.uuids.trans hq.uuids⟩

theorem StageRaised.quiet {w' : World} {raised : Raised} (hs : Saved db w'.database job)
    (hq : Quiet w w') : StageRaised c faults submission content db w job raised w' :=
  ⟨fun _ => hs, .same hq.index, .of_eq hq.log, hq.uuids⟩

/-- How the stages end by raising: with the job in the stage that raised, and the index as it
was unless the operations before `INDEXING` have been passed. -/
structure StagesRaised (c : Components) (faults : Faults) (submission : Submission)
    (content : ByteArray) (db : Database) (w : World) (job : IngestionJob)
    (operations : List Operation) (out : IngestionJob × Raised) (w' : World) : Prop where
  stage : ∃ state, state.checkpoint ≠ none ∧ out.1 = job.at state
  raised : StageRaised c faults submission content db w out.1 out.2 w'
  passed : w'.index = w.index ∨ Clear faults operations

theorem StagesRaised.of_quiet {w₁ w' : World} {state : JobState} {out : IngestionJob × Raised}
    {before operations : List Operation} (hq : Quiet w w₁) (hclear : Clear faults before)
    (h : StagesRaised c faults submission content db w₁ (job.at state) operations out w') :
    StagesRaised c faults submission content db w job (before ++ operations) out w' := by
  refine ⟨?_, h.raised.of_quiet hq, ?_⟩
  · obtain ⟨s, hs, hout⟩ := h.stage
    exact ⟨s, hs, hout⟩
  · exact h.passed.imp (·.trans hq.index) hclear.append

theorem wp_laterStages_indexing {raw : Option ArtifactRef} (hsub : submission.Of event db)
    (hs : Saved db w.database job) (hst : job.state = .indexing) :
    wp (laterStages c faults event submission content raw job)
      (fun out w' => out.1 = job.at .completed ∧ StageDone c faults submission content db w job w')
      (StagesRaised c faults submission content db w job []) w := by
  have hat : job = job.at .indexing := by rw [← hst]; rfl
  unfold laterStages
  simp only [hst, reduceCtorEq, if_false, if_true, wp_bind, wp_pure, wp_raiseAs]
  refine wp_mono (wp_index hsub hs hst) (fun _ _ h => h) (fun raised w' h => ?_)
  exact ⟨⟨.indexing, by decide, hat⟩, h, Or.inr .nil⟩

theorem wp_laterStages_parsing {raw : Option ArtifactRef} (hsub : submission.Of event db)
    (hs : Saved db w.database job) (hst : job.state = .parsing)
    (hraw : raw.isSome → faults.fault .putRaw = none) :
    wp (laterStages c faults event submission content raw job)
      (fun out w' => out.1 = job.at .completed ∧
        StageDone c faults submission content db w job w' ∧ Clear faults normalizeOperations)
      (StagesRaised c faults submission content db w job normalizeOperations) w := by
  have hat : job = job.at .parsing := by rw [← hst]; rfl
  unfold laterStages
  simp only [hst, if_true, wp_bind, wp_raiseAs]
  refine wp_mono (wp_normalize hs hst hraw) ?_ ?_
  · rintro _ w₁ ⟨rfl, hs₁, hq, hclear⟩
    have hlater := @wp_laterStages_indexing c faults _ _ content _ _ _ none hsub hs₁ rfl
    unfold laterStages at hlater
    simp only [IngestionJob.at, reduceCtorEq, if_false, wp_bind, wp_pure] at hlater
    refine wp_mono hlater (fun out w' h => ⟨h.1, h.2.of_quiet hq, hclear⟩) (fun out w' h => ?_)
    exact (List.append_nil normalizeOperations) ▸ StagesRaised.of_quiet hq hclear h
  · rintro raised w' ⟨hs', hq⟩
    exact ⟨⟨.parsing, by decide, hat⟩, .quiet hs' hq, Or.inl hq.index⟩

/-- **The stages**: they complete the job and promote its version, or raise. -/
theorem wp_stages (hsub : submission.Of event db) (hs : Saved db w.database job)
    (hst : job.state.checkpoint ≠ none) :
    wp (stages c faults event submission content job)
      (fun out w' => out.1 = job.at .completed ∧
        StageDone c faults submission content db w job w' ∧
        Clear faults (stageOperations job.state))
      (StagesRaised c faults submission content db w job (stageOperations job.state)) w := by
  have hat : job = job.at job.state := rfl
  unfold stages
  cases hstate : job.state with
  | fetching =>
    simp only [if_true, wp_bind, wp_raiseAs]
    refine wp_mono (wp_fetch hs hstate) ?_ ?_
    · rintro ⟨raw, _⟩ w₁ ⟨rfl, hs₁, hq, hclear⟩
      refine wp_mono (wp_laterStages_parsing hsub hs₁ rfl fun _ => hclear .putRaw (by decide))
        (fun out w' h => ⟨h.1, h.2.1.of_quiet hq, hclear.append h.2.2⟩) (fun out w' h => ?_)
      exact StagesRaised.of_quiet hq hclear h
    · rintro raised w' ⟨hs', hq⟩
      exact ⟨⟨.fetching, by decide, hstate ▸ hat⟩, .quiet hs' hq, Or.inl hq.index⟩
  | parsing =>
    simp only [reduceCtorEq, if_false]
    exact wp_laterStages_parsing hsub hs hstate (fun h => absurd h Bool.false_ne_true)
  | indexing =>
    simp only [reduceCtorEq, if_false]
    exact wp_mono (wp_laterStages_indexing hsub hs hstate) (fun _ _ h => ⟨h.1, h.2, .nil⟩)
      (fun _ _ h => h)
  | queued => exact absurd (by rw [hstate]; rfl) hst
  | retrying => exact absurd (by rw [hstate]; rfl) hst
  | completed => exact absurd (by rw [hstate]; rfl) hst
  | failed => exact absurd (by rw [hstate]; rfl) hst

/-! ## The body -/

theorem content_eq (hcontent : event.content = some content) (hkind : event.kind ≠ .malformed) :
    IngestionPipeline.content event = pure content := by
  unfold IngestionPipeline.content
  rw [hcontent]
  cases hk : event.kind <;> simp_all

/-- **The rule for a body**: a terminal job is reported, and the stages of another are run when it has
left its waiting state; a raise that has a class is a failed attempt. -/
theorem wp_continueJob_of {N : PipelineOutcome → World → Prop} {E : Raised → World → Prop}
    (hcontent : event.content = some content) (hkind : event.kind ≠ .malformed)
    (hterminal : job.state.terminal = true → N (outcome submission job []) w)
    (hopen : job.state.terminal = false →
      wp (leaveWaiting faults job) (fun job₁ w₁ =>
        wp (stages c faults event submission content job₁)
          (fun done w₂ => N (outcome submission done.1 done.2) w₂)
          (fun left w₂ =>
            (∀ errorClass, left.2.classified = some errorClass →
              wp (failedAttempt faults maxAttempts submission left.1 errorClass) N E w₂) ∧
            (left.2.classified = none → E left.2 w₂)) w₁) E w) :
    wp (continueJob c faults maxAttempts event submission job) N E w := by
  unfold continueJob
  split
  · rename_i hterm
    exact hterminal hterm
  rename_i hterm
  rw [wp_bind, content_eq hcontent hkind]
  refine wp_mono (hopen (Bool.not_eq_true _ ▸ hterm)) (fun job₁ w₁ hstages => ?_) fun _ _ h => h
  simp only [wp_bind, wp_pure, wp_handle]
  refine wp_mono hstages (fun _ _ h => h) fun left w₂ h => ?_
  cases hclass : left.2.classified with
  | none => exact h.2 hclass
  | some errorClass => exact h.1 errorClass hclass

/-- The same row of `ingestion_jobs`. -/
def SameJob (job job' : IngestionJob) : Prop := job'.tenantId = job.tenantId ∧ job'.id = job.id

/-- What `_continue` has to pass before its stages. -/
def waitingOperations : JobState → List Operation
  | .queued => [.saveResumed]
  | .retrying => [.saveResumed]
  | _ => []

/-- What a body of the job has to pass before `INDEXING`. -/
def bodyOperations (job : IngestionJob) : List Operation :=
  waitingOperations job.state ++ stageOperations job.start

/-- **How a job leaves its waiting state**: it is saved where its stages start, or has no checkpoint to
retry from, or is in a stage already. -/
inductive LeavesWaiting (faults : Faults) (job : IngestionJob) (step : Step IngestionJob) : Prop
  | queued (state : job.state = .queued)
      (step_eq : step = IngestionRepository.saveJob faults .saveResumed (job.at .fetching))
  | resumed (checkpoint : Checkpoint) (state : job.state = .retrying)
      (resumeFrom : job.resumeFrom = some checkpoint)
      (step_eq : step = IngestionRepository.saveJob faults .saveResumed (job.resumedAt checkpoint))
  | stuck (state : job.state = .retrying) (resumeFrom : job.resumeFrom = none)
      (step_eq : step = throw .pipelineInput)
  | staying (checkpoint : job.state.checkpoint ≠ none) (step_eq : step = pure job)

theorem leavesWaiting (faults : Faults) (hopen : job.state.terminal = false) :
    LeavesWaiting faults job (leaveWaiting faults job) := by
  have hstay : ∀ {state : JobState}, job.state = state → state.checkpoint ≠ none →
      LeavesWaiting faults job (pure job) := fun hstate hcheck => .staying (hstate ▸ hcheck) rfl
  unfold leaveWaiting
  cases hstate : job.state with
  | queued =>
    refine .queued hstate ?_
    unfold advance
    rw [transition_running (by simp [hstate]) (by simp [hstate, JobState.permitted])]
    rfl
  | retrying =>
    cases hresume : job.resumeFrom with
    | none => exact .stuck hstate hresume rfl
    | some checkpoint =>
      have htransition : job.transition checkpoint.state =
          some { job with state := checkpoint.state, resumeFrom := none } := by
        unfold IngestionJob.transition
        rw [if_pos (by cases checkpoint <;> simp [hstate, JobState.permitted, Checkpoint.state]),
          if_pos hstate]
      refine .resumed checkpoint hstate hresume ?_
      simp only [orRaise, pure_bind, htransition]
      rfl
  | fetching => exact hstay hstate (Option.some_ne_none _)
  | parsing => exact hstay hstate (Option.some_ne_none _)
  | indexing => exact hstay hstate (Option.some_ne_none _)
  | completed => rw [hstate] at hopen; cases hopen
  | failed => rw [hstate] at hopen; cases hopen

/-- A job that is in a stage starts there. -/
theorem start_of_checkpoint (h : job.state.checkpoint ≠ none) :
    job.state = job.start ∧ waitingOperations job.state = [] := by
  unfold IngestionJob.start
  cases hstate : job.state with
  | queued => exact absurd (by rw [hstate]; rfl) h
  | retrying => exact absurd (by rw [hstate]; rfl) h
  | fetching => exact ⟨rfl, rfl⟩
  | parsing => exact ⟨rfl, rfl⟩
  | indexing => exact ⟨rfl, rfl⟩
  | completed => exact ⟨rfl, rfl⟩
  | failed => exact ⟨rfl, rfl⟩

theorem wp_leaveWaiting (hs : Saved db w.database job) (hst : job.state.terminal = false) :
    wp (leaveWaiting faults job)
      (fun job' w' => SameJob job job' ∧ job'.attempts = job.attempts ∧ job'.state = job.start ∧
        job'.state.checkpoint ≠ none ∧ Saved db w'.database job' ∧ Quiet w w' ∧
        Clear faults (waitingOperations job.state))
      (fun _ w' => Quiet w w') w := by
  cases leavesWaiting faults hst with
  | queued hstate hstep =>
    have hstart : job.start = .fetching := by
      unfold IngestionJob.start
      rw [hstate]
    rw [hstep, hstart, hstate]
    refine wp_saveJob hs rfl rfl (fun hf w' hq hs' => ?_) fun _ _ => .refl w
    exact ⟨⟨rfl, rfl⟩, rfl, rfl, Option.some_ne_none _, hs', hq, .cons hf .nil⟩
  | resumed checkpoint hstate hresume hstep =>
    have hstart : job.start = checkpoint.state := by
      unfold IngestionJob.start
      rw [hstate, hresume]
      rfl
    have hcheck : checkpoint.state.checkpoint ≠ none :=
      checkpoint_state checkpoint ▸ Option.some_ne_none _
    rw [hstep, hstart, hstate]
    refine wp_saveJob hs rfl rfl (fun hf w' hq hs' => ?_) fun _ _ => .refl w
    exact ⟨⟨rfl, rfl⟩, rfl, rfl, hcheck, hs', hq, .cons hf .nil⟩
  | stuck _ _ hstep =>
    rw [hstep]
    exact .refl w
  | staying hcheck hstep =>
    obtain ⟨hstart, hnone⟩ := start_of_checkpoint hcheck
    rw [hstep, hnone]
    exact ⟨⟨rfl, rfl⟩, rfl, hstart, hcheck, hs, .refl w, .nil⟩

/-- One more attempt is counted, and it was the last one if there have been enough. -/
structure Attempted (maxAttempts : ℕ) (job job' : IngestionJob) : Prop where
  same : SameJob job job'
  attempts : job'.attempts = job.attempts + 1
  state : job'.state = .retrying ∧ job'.attempts < maxAttempts ∨ job'.state = .failed

section Failure

variable {errorClass : ErrorClass} {checkpoint : Checkpoint}

theorem sameJob_afterFailure : SameJob job (job.afterFailure maxAttempts errorClass checkpoint) := by
  unfold IngestionJob.afterFailure
  dsimp only
  split
  · exact ⟨rfl, rfl⟩
  · exact ⟨rfl, rfl⟩

theorem attempted_afterFailure :
    Attempted maxAttempts job (job.afterFailure maxAttempts errorClass checkpoint) := by
  refine ⟨sameJob_afterFailure, ?_, ?_⟩
  · unfold IngestionJob.afterFailure
    dsimp only
    split
    · rfl
    · rfl
  · unfold IngestionJob.afterFailure
    dsimp only
    split
    · exact Or.inr rfl
    · rename_i hfew
      exact Or.inl ⟨rfl, not_le.1 hfew⟩

/-- **A failed attempt saves the job after its failure.** -/
theorem failedAttempt_eq (h : job.state.checkpoint = some checkpoint) :
    failedAttempt faults maxAttempts submission job errorClass = do
      let job ← IngestionRepository.saveJob faults .saveFailed
        (job.afterFailure maxAttempts errorClass checkpoint)
      return outcome submission job [] := by
  have hne : job.state ≠ .retrying := by
    intro hstate
    rw [hstate] at h
    cases h
  have hretry : .retrying ∈ job.state.permitted := by
    cases hstate : job.state <;> simp [hstate, JobState.checkpoint, JobState.permitted] at h ⊢
  unfold failedAttempt IngestionJob.afterFailure
  rw [transition_running hne hretry, h]
  simp only [orRaise, pure_bind]
  split
  · rw [transition_failed rfl]
    rfl
  · rfl

theorem wp_failedAttempt (hs : Saved db w.database job) (hst : job.state.checkpoint ≠ none) :
    wp (failedAttempt faults maxAttempts submission job errorClass)
      (fun outcome w' => ∃ job', Attempted maxAttempts job job' ∧ outcome.kind = job'.state ∧
        Saved db w'.database job' ∧ Quiet w w')
      (fun _ w' => Quiet w w') w := by
  obtain ⟨checkpoint, hcheckpoint⟩ := Option.ne_none_iff_exists'.1 hst
  rw [failedAttempt_eq hcheckpoint, wp_bind]
  refine wp_saveJob hs sameJob_afterFailure.1 sameJob_afterFailure.2 (fun _ w' hq hs' => ?_)
    fun _ _ => .refl w
  exact ⟨_, attempted_afterFailure, rfl, hs', hq⟩

end Failure

/-- What a body that does not complete its job leaves outside the database. -/
structure BodyLeft (c : Components) (faults : Faults) (version : DocumentVersion)
    (content : ByteArray) (job : IngestionJob) (w w' : World) : Prop where
  index : IndexLeft c faults version content w.index w'.index
  passed : w'.index = w.index ∨ Clear faults (bodyOperations job)
  log : Logged (Observation.OfBody job.tenantId job.id) w w'
  uuids : w'.uuids = w.uuids

/-- **How a body ends by returning.** -/
inductive BodyReturned (c : Components) (faults : Faults) (maxAttempts : ℕ) (version : DocumentVersion)
    (content : ByteArray) (db : Database) (job : IngestionJob) (w w' : World) : Prop
  | terminal (h : job.state.terminal = true) (hw : w' = w)
  | completed (job' : IngestionJob) (same : SameJob job job') (state : job'.state = .completed)
      (attempts : job'.attempts = job.attempts) (pending : job.state.terminal = false)
      (saved : Saved (db.promoted c.platform version) w'.database job')
      (index : IndexDone c faults version content w.index w'.index)
      (passed : Clear faults (bodyOperations job))
      (log : Logged (Observation.OfBody job.tenantId job.id) w w') (uuids : w'.uuids = w.uuids)
  | attempted (job' : IngestionJob) (attempted : Attempted maxAttempts job job')
      (pending : job.state.terminal = false) (saved : Saved db w'.database job')
      (left : BodyLeft c faults version content job w w')

theorem BodyLeft.quiet {version : DocumentVersion} {w' : World} (h : Quiet w w') :
    BodyLeft c faults version content job w w' :=
  ⟨.same h.index, Or.inl h.index, .of_eq h.log, h.uuids⟩

/-- The index and the log after the stages have raised, seen from the start of the body. -/
theorem StagesRaised.left {job₁ : IngestionJob} {w₁ w' : World} {out : IngestionJob × Raised}
    (hsame : SameJob job job₁) (hstart : job₁.state = job.start) (hq : Quiet w w₁)
    (hclear : Clear faults (waitingOperations job.state))
    (h : StagesRaised c faults submission content db w₁ job₁ (stageOperations job₁.state) out w') :
    BodyLeft c faults submission.version content job w w' := by
  obtain ⟨s, -, hout⟩ := h.stage
  refine ⟨hq.index ▸ h.raised.index, ?_, ?_, h.raised.uuids.trans hq.uuids⟩
  · exact h.passed.imp (·.trans hq.index) fun hpassed => hclear.append (hstart ▸ hpassed)
  · have hlog := (Logged.of_eq hq.log).trans h.raised.log
    rw [hout] at hlog
    exact hsame.1 ▸ hsame.2 ▸ hlog

/-- **`_continue`** leaves a terminal job alone; else it completes it, or counts an attempt, or
raises. -/
theorem wp_continueJob (hsub : submission.Of event db) (hs : Saved db w.database job)
    (hcontent : event.content = some content) (hkind : event.kind ≠ .malformed) :
    wp (continueJob c faults maxAttempts event submission job)
      (fun _ w' => BodyReturned c faults maxAttempts submission.version content db job w w')
      (fun _ w' => BodyLeft c faults submission.version content job w w') w := by
  refine wp_continueJob_of hcontent hkind (fun hterm => .terminal hterm rfl) fun hopen => ?_
  refine wp_mono (wp_leaveWaiting hs hopen) ?_ (fun _ w' hq => .quiet hq)
  rintro job₁ w₁ ⟨hsame, hattempts, hstart, hcheck, hs₁, hq, hclear⟩
  refine wp_mono (wp_stages hsub hs₁ hcheck) ?_ ?_
  · rintro ⟨_, prepared⟩ w₂ ⟨rfl, hdone, hclear'⟩
    refine .completed (job₁.at .completed) hsame rfl hattempts hopen hdone.saved (hq.index ▸ hdone.index)
      (hclear.append (hstart ▸ hclear')) ?_ (hdone.uuids.trans hq.uuids)
    exact hsame.1 ▸ hsame.2 ▸ (Logged.of_eq hq.log).trans hdone.log
  · rintro ⟨job₂, raised⟩ w₂ h
    have hleft := StagesRaised.left hsame hstart hq hclear h
    obtain ⟨s, hcheck₂, hout⟩ := h.stage
    subst hout
    refine ⟨fun errorClass hclass => ?_, fun _ => hleft⟩
    · have hs₂ := h.raised.saved (hclass ▸ Option.some_ne_none _)
      refine wp_mono (wp_failedAttempt hs₂ hcheck₂) ?_ ?_
      · rintro outcome w₃ ⟨job', hattempted, -, hs₃, hq₃⟩
        refine .attempted job' ⟨?_, ?_, hattempted.state⟩ hopen hs₃ ?_
        · exact ⟨hattempted.same.1.trans hsame.1, hattempted.same.2.trans hsame.2⟩
        · exact hattempted.attempts.trans (congrArg (· + 1) hattempts)
        · exact ⟨hq₃.index ▸ hleft.index, hleft.passed.imp hq₃.index.trans id,
            hleft.log.trans (.of_eq hq₃.log), hq₃.uuids.trans hleft.uuids⟩
      · intro _ w₃ hq₃
        exact ⟨hq₃.index ▸ hleft.index, hleft.passed.imp hq₃.index.trans id,
          hleft.log.trans (.of_eq hq₃.log), hq₃.uuids.trans hleft.uuids⟩

end IngestionPipeline

end GroundedOps.Ingestion
