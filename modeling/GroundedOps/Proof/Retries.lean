import GroundedOps.Proof.FailureFree

/-!
# Retries are transparent

The deliveries of one job, with anything that goes wrong in them, from any reachable world.

* `Stalled`: what deliveries leave that do not complete the job.
* `Finishes`: what is left once one of them has.
* `deliveries_progress`: after any deliveries of a pending job it is one of these.
* `retries_transparent`: **a job that ends completed leaves what one delivery without failures
  would have left.**
-/

namespace GroundedOps.Ingestion

open Hoare

/-! ## What deliveries leave -/

/-- What deliveries leave that do not complete the job: the tables, but for references and the
columns of jobs, and the index beside the projection. -/
structure Stalled (π : VersionProjection) (w w' : World) : Prop where
  rows : Unfinished w.database w'.database
  deliveries : ∀ row ∈ w.database.ingestionJobs, ∃ row' ∈ w'.database.ingestionJobs,
    row'.pk = row.pk ∧ row.deliveryAttempts ≤ row'.deliveryAttempts
  beside : π.SameBeside w.index w'.index
  unchanged : π.chunks = [] → w'.index = w.index

/-- What is left once the job with key `k` has been completed. -/
structure Finishes (P : Platform) (k : String × String) (version : DocumentVersion)
    (π : VersionProjection) (w w' : World) : Prop where
  rows : Finished P version w.database w'.database
  deliveries : ∀ row, w.database.ingestionJobs.find k = some row →
    row.deliveryAttempts < maxDeliveries
  completed : ∃ row', w'.database.ingestionJobs.find k = some row' ∧ row'.job.state = .completed
  index : π.chunks = [] ∧ w'.index = w.index ∨ π.chunks ≠ [] ∧ w.database.Admits π ∧
    ∀ entry, entry ∈ w'.index ↔ entry ∈ w.index.upserted π fun _ => false

section Progress

variable {c : Components} {P : Platform} {π : VersionProjection} {k : String × String}
  {version version' : DocumentVersion} {w w₁ w' : World} {row row' : JobRow}

theorem Stalled.refl (π : VersionProjection) (w : World) : Stalled π w w :=
  ⟨.refl _, fun row hrow => ⟨row, hrow, rfl, le_rfl⟩, .refl _ _, fun _ => rfl⟩

theorem Stalled.same (hdb : w'.database = w.database) (hindex : w'.index = w.index) :
    Stalled π w w' := by
  refine ⟨hdb.symm ▸ .refl _, fun row hrow => ⟨row, ?_, rfl, le_rfl⟩, hindex.symm ▸ .refl _ _,
    fun _ => hindex⟩
  rw [hdb]
  exact hrow

theorem Stalled.trans (h : Stalled π w w₁) (h' : Stalled π w₁ w') : Stalled π w w' := by
  refine ⟨h.rows.trans h'.rows, fun row hrow => ?_, h.beside.trans h'.beside, fun hnil =>
    (h'.unchanged hnil).trans (h.unchanged hnil)⟩
  obtain ⟨row₁, hrow₁, hpk₁, hle₁⟩ := h.deliveries row hrow
  obtain ⟨row₂, hrow₂, hpk₂, hle₂⟩ := h'.deliveries row₁ hrow₁
  exact ⟨row₂, hrow₂, hpk₂.trans hpk₁, hle₁.trans hle₂⟩

theorem finished_congr {db db' : Database} (h : Finished P version' db db')
    (hbare : version'.bare = version.bare) : Finished P version db db' := by
  refine ⟨h.same, ?_, fun key => ?_⟩
  · rw [h.documents]
    exact setCurrent_congr (.refl _) hbare
  · rw [h.completed, (bare_eq hbare).1]

theorem Finishes.same (h : Finishes P k version π w w₁) (hdb : w'.database = w₁.database)
    (hindex : w'.index = w₁.index) : Finishes P k version π w w' := by
  refine ⟨?_, h.deliveries, ?_, ?_⟩
  · rw [hdb]
    exact h.rows
  · rw [hdb]
    exact h.completed
  · rw [hindex]
    exact h.index

/-- A stalled job may be completed later. -/
theorem Stalled.finishes (h : Stalled π w w₁) (hbare : version'.bare = version.bare)
    (h' : Finishes P k version' π w₁ w') : Finishes P k version π w w' := by
  refine ⟨h.rows.finished (finished_congr h'.rows hbare), fun row hrow => ?_, h'.completed, ?_⟩
  · obtain ⟨hmem, rfl⟩ := Table.find_eq_some.1 hrow
    obtain ⟨row₁, hrow₁, hpk, hle⟩ := h.deliveries row hmem
    have hlt := h'.deliveries row₁ (Table.find_eq_some.2 ⟨hrow₁, hpk⟩)
    omega
  · rcases h'.index with ⟨hnil, hindex⟩ | ⟨hne, hadmits, hentries⟩
    · exact Or.inl ⟨hnil, hindex.trans (h.unchanged hnil)⟩
    · refine Or.inr ⟨hne, hadmits.congr h.rows.sources.symm h.rows.documents.symm h.rows.versions.symm,
        fun entry => (hentries entry).trans ?_⟩
      exact VersionProjection.mem_upserted_congr h.beside (fun _ _ => rfl) fun _ _ => rfl

end Progress

/-! ## One delivery -/

/-- A delivery of the job, with what goes wrong in it, and its time. -/
def delivery (tenantId jobId : String) (attempt : Faults × ℤ) : WorkerEvent :=
  ⟨.deliver tenantId jobId, attempt.1, attempt.2⟩

section Delivery

variable {c : Components} {faults : Faults} {tenantId jobId : String} {w : World}
  {attempt : Faults × ℤ} {row row' : JobRow} {source : Source} {version : DocumentVersion} {document : Document}
  {content : ByteArray} {db db' : Database} {index index' : Index}

theorem RowStep.deliveries_le {w w' : World} {k : String × String} (h : RowStep w w' k row row') :
    row.deliveryAttempts ≤ row'.deliveryAttempts := by
  cases h with
  | aside _ deliveries _ => omega
  | terminal _ _ deliveries _ _ => omega
  | lost _ _ deliveries _ _ => omega
  | ran _ deliveries _ _ _ _ => omega

/-- A job has its content, whatever becomes of its columns. -/
theorem JobContent.later (h : JobContent c db row source version document content)
    (hrows : Unfinished db db') (hrow' : row' ∈ db'.ingestionJobs) (hpk : row'.pk = row.pk) :
    ∃ version', version'.bare = version.bare ∧
      JobContent c db' row' source version' document content := by
  obtain ⟨old, hold, holdpk, -, hversion⟩ := hrows.same.job hrow'
  obtain rfl : old = row := Table.eq_of_pk hold h.row_mem (holdpk.trans hpk)
  obtain ⟨version', hmem, hbare⟩ := hrows.versions.symm.mem h.version_mem
  obtain ⟨hkeys, hid, -, -, hhash⟩ := version_of_bare hbare
  have ht : row'.job.tenantId = old.job.tenantId := congrArg Prod.fst hpk
  have hvpk : version'.pk = version.pk := (bare_eq hbare).1
  refine ⟨version', hbare, ⟨hrow', hmem, ?_, hrows.documents ▸ h.document_mem, ?_⟩,
    hrows.sources ▸ h.source_mem, h.source_pk, h.digest.trans hhash.symm⟩
  · rw [hvpk, h.version_pk, ht, hversion]
  · rw [h.document_pk, hkeys]

theorem chunkIds_projection :
    (c.projection source version content).chunkIds = c.chunkIds version.id content := by
  unfold VersionProjection.chunkIds Components.projection Components.chunkIds
  cases c.parse content with
  | none => rfl
  | some parsed =>
    rw [Option.elim_some, List.map_map]
    rfl

/-- Without chunks no delivery touches the index. -/
theorem IndexLeft.unchanged (h : IndexLeft c faults version content index index')
    (hnil : c.chunkIds version.id content = []) : index' = index := by
  cases h with
  | same h => exact h
  | projected π hπ h =>
    have hchunks : π.chunks = [] := List.map_eq_nil_iff.1 (hπ.chunkIds.trans hnil)
    rw [h, Index.bulk, Index.accepted, hchunks]
    rfl
  | rejected id hmem _ => exact absurd hmem (by rw [hnil]; exact List.not_mem_nil)
  | stopped _ hne _ => exact absurd hnil hne

/-- What a delivery has reached are the rows of its job. -/
theorem Reached.eq_content (hP : c.platform.CollisionFree) {version' : DocumentVersion}
    {document' : Document} {content' : ByteArray}
    (h : Reached c w (delivery tenantId jobId attempt) row' version' document' content')
    (hpk : row.pk = (tenantId, jobId))
    (hjob : JobContent c w.database row source version document content) :
    row' = row ∧ version' = version ∧ content' = content := by
  have haction : (tenantId, jobId) = row'.pk := by
    obtain ⟨rfl, rfl⟩ := WorkerAction.deliver.inj h.action
    rfl
  obtain rfl : row' = row := Table.eq_of_pk h.row_mem hjob.row_mem (haction.symm.trans hpk.symm)
  obtain rfl : version' = version :=
    Table.eq_of_pk h.version_mem hjob.version_mem (h.version_pk.trans hjob.version_pk.symm)
  exact ⟨rfl, rfl, hP.sha256 (h.digest.trans hjob.digest.symm)⟩

/-- **One delivery of a pending job** stalls it or completes it. -/
theorem delivery_progress (hP : c.platform.CollisionFree) (h : Kept c w)
    (hrow : w.database.ingestionJobs.find (tenantId, jobId) = some row)
    (hopen : row.job.state.terminal = false)
    (hjob : JobContent c w.database row source version document content) :
    Stalled (c.projection source version content) w
        (w.step c (delivery tenantId jobId attempt)) ∨
      Finishes c.platform (tenantId, jobId) version (c.projection source version content) w
        (w.step c (delivery tenantId jobId attempt)) := by
  obtain ⟨hmem, hpk⟩ := Table.find_eq_some.1 hrow
  have hkeeps : DeliveryKeeps c attempt.1 (c.projection source version content) row
      { w with now := attempt.2 } (w.step c (delivery tenantId jobId attempt)) := step_delivery_keeps hP h hrow hjob
  cases step_effect w (delivery tenantId jobId attempt) h.consistent with
  | submitted _ action => cases action
  | unfinished rows index _ _ =>
    refine Or.inl ⟨rows, fun old hold => ?_, hkeeps.beside, fun hnil => ?_⟩
    · obtain ⟨new, hnew, hstep⟩ := (row_step w (delivery tenantId jobId attempt)).step old.pk
        old (Table.find_of_mem hold)
      obtain ⟨hnewmem, hnewpk⟩ := Table.find_eq_some.1 hnew
      exact ⟨new, hnewmem, hnewpk, hstep.deliveries_le⟩
    · cases index with
      | same h => exact h
      | left row' version' document' content' reached hleft =>
        obtain ⟨-, rfl, rfl⟩ := reached.eq_content hP hpk hjob
        refine hleft.unchanged ?_
        rw [← chunkIds_projection]
        exact List.map_eq_nil_iff.2 hnil
  | finished row' version' document' content' reached rows _ _ _ =>
    obtain ⟨rfl, rfl, rfl⟩ := reached.eq_content hP hpk hjob
    obtain ⟨done, hdone, hkey, hstate⟩ := (rows.completed version'.pk).2 (Or.inr rfl)
    -- the completed row is that of the job
    have hdonepk : done.pk = row'.pk := by
      rcases hkeeps.rows done hdone with ⟨hold, hne⟩ | ⟨hbare, -⟩
      · have hsame := hkey.trans hjob.version_pk
        have heq : done = row' := h.consistent.job_unique hold hmem
          (congrArg Prod.fst hsame) (congrArg Prod.snd hsame)
        exact absurd (congrArg JobRow.pk heq) hne
      · exact congrArg Prod.fst hbare
    obtain ⟨hprojected, -⟩ := hkeeps.projected hopen done hdone hdonepk hstate
    refine Or.inr ⟨rows, fun row₀ hrow₀ => ?_, ⟨done, ?_, hstate⟩, ?_⟩
    · obtain rfl : row' = row₀ := Option.some.inj (hrow.symm.trans hrow₀)
      exact reached.deliveries
    · exact Table.find_eq_some.2 ⟨hdone, hdonepk.trans hpk⟩
    · cases hprojected with
      | empty hnil hindex => exact Or.inl ⟨hnil, hindex⟩
      | upserted hne admits accepted hindex =>
        refine Or.inr ⟨hne, admits, fun entry => ?_⟩
        rw [hindex]
        exact VersionProjection.mem_upserted_congr (.refl _ _) (fun _ _ => rfl) accepted

/-- A delivery of a terminal job leaves the database and the index alone. -/
theorem delivery_terminal (hrow : w.database.ingestionJobs.find (tenantId, jobId) = some row)
    (hterm : row.job.state.terminal = true) :
    (w.step c (delivery tenantId jobId attempt)).database = w.database ∧
      (w.step c (delivery tenantId jobId attempt)).index = w.index := by
  have hclaimed : ∀ {deliveries jobs}, w.database.ingestionJobs.claimDelivery tenantId jobId ≠
      some (deliveries, jobs) := by
    intro deliveries jobs hclaim
    obtain ⟨found, hfound, hopen, -, -⟩ := claimDelivery_eq hclaim
    obtain rfl : row = found := Option.some.inj (hrow.symm.trans hfound)
    rw [hterm] at hopen
    cases hopen
  have hdelivery : Delivery c attempt.1 tenantId jobId { w with now := attempt.2 }
      (w.step c (delivery tenantId jobId attempt)) := delivery_cases
  cases hdelivery with
  | idle database quiet => exact ⟨database, quiet.index⟩
  | terminal _ _ _ database index _ _ => exact ⟨database, index⟩
  | lost _ _ claim _ _ _ _ _ => exact absurd claim hclaimed
  | committed _ _ claim _ _ _ _ => exact absurd claim hclaimed
  | aborted _ _ claim _ _ _ _ _ => exact absurd claim hclaimed

end Delivery

/-! ## All deliveries -/

section Deliveries

variable {c : Components} {tenantId jobId : String} {w w' : World} {row : JobRow}
  {source : Source} {version : DocumentVersion} {document : Document} {content : ByteArray}

/-- **After any deliveries** of a pending job it has stalled, or one of them has completed it. -/
theorem deliveries_progress (hP : c.platform.CollisionFree) (h : Kept c w)
    (hrow : w.database.ingestionJobs.find (tenantId, jobId) = some row)
    (hjob : JobContent c w.database row source version document content)
    (attempts : List (Faults × ℤ)) :
    let w' := Machine.run (World.step c) w (attempts.map (delivery tenantId jobId))
    Kept c w' ∧ (Stalled (c.projection source version content) w w' ∨
      Finishes c.platform (tenantId, jobId) version (c.projection source version content) w w') := by
  obtain ⟨hmem, hpk⟩ := Table.find_eq_some.1 hrow
  refine Machine.run_inv_of_mem (I := fun w' => Kept c w' ∧
    (Stalled (c.projection source version content) w w' ∨
      Finishes c.platform (tenantId, jobId) version (c.projection source version content) w w'))
    (fun w₁ event hevent hkept => ?_) ⟨h, Or.inl (.refl _ w)⟩
  obtain ⟨attempt, -, rfl⟩ := List.mem_map.1 hevent
  obtain ⟨hkept, hprogress⟩ := hkept
  refine ⟨(live_kept hP hkept (.worker (delivery tenantId jobId attempt))).1, ?_⟩
  rcases hprogress with hstalled | hfinishes
  · obtain ⟨row₁, hrow₁, hpk₁, -⟩ := hstalled.deliveries row hmem
    have hfind₁ : w₁.database.ingestionJobs.find (tenantId, jobId) = some row₁ :=
      Table.find_eq_some.2 ⟨hrow₁, hpk₁.trans hpk⟩
    cases hterm : row₁.job.state.terminal with
    | true =>
      obtain ⟨hdb, hindex⟩ := delivery_terminal hfind₁ hterm
      exact Or.inl (hstalled.trans (.same hdb hindex))
    | false =>
      obtain ⟨version₁, hbare, hjob₁⟩ := hjob.later hstalled.rows hrow₁ hpk₁
      have hstep : Stalled (c.projection source version₁ content) w₁
            (w₁.step c (delivery tenantId jobId attempt)) ∨
          Finishes c.platform (tenantId, jobId) version₁ (c.projection source version₁ content) w₁
            (w₁.step c (delivery tenantId jobId attempt)) :=
        delivery_progress hP hkept hfind₁ hterm hjob₁
      rw [projection_congr hbare] at hstep
      exact hstep.imp hstalled.trans (hstalled.finishes hbare)
  · obtain ⟨row₁, hfind₁, hstate₁⟩ := hfinishes.completed
    obtain ⟨hdb, hindex⟩ := delivery_terminal hfind₁ (by rw [hstate₁]; rfl)
    exact Or.inr (hfinishes.same hdb hindex)

/-- A stalled job is not completed. -/
theorem Stalled.not_completed {π : VersionProjection} {row' : JobRow} (h : Stalled π w w')
    (hrow : row ∈ w.database.ingestionJobs) (hopen : row.job.state.terminal = false)
    (hrow' : row' ∈ w'.database.ingestionJobs) (hpk : row'.pk = row.pk) :
    row'.job.state ≠ .completed := by
  obtain ⟨old, hold, hfate⟩ := Lists.exists_of_map_eq h.rows.jobs hrow'
  have hbare : old.bare = row'.bare := congrArg Prod.fst hfate
  have holdpk : old.pk = row'.pk := congrArg Prod.fst hbare
  obtain rfl : old = row := Table.eq_of_pk hold hrow (holdpk.trans hpk)
  have hsame : decide (old.job.state = .completed) = decide (row'.job.state = .completed) :=
    congrArg Prod.snd hfate
  intro hcompleted
  exact not_completed_of_open hopen ((decide_eq_decide.1 hsame).2 hcompleted)

/-- A delivery of a job that is not there leaves the database alone. -/
theorem delivery_unknown {attempt : Faults × ℤ}
    (hnone : w.database.ingestionJobs.find (tenantId, jobId) = none) :
    (w.step c (delivery tenantId jobId attempt)).database = w.database := by
  refine wp_state (P := fun w' : World => w'.database = w.database) ?_
  rw [delivery, WorkerEvent.perform, wp_bind]
  have hnothing : wp (runJob c attempt.1 tenantId jobId) _ _ { w with now := attempt.2 } :=
    wp_runJob_unknown hnone
  refine wp_mono hnothing (fun _ w' hw' => ?_) fun _ w' hw' => ?_
  · subst hw'
    exact rfl
  · subst hw'
    exact rfl

end Deliveries

/-! ## The result -/

/-- The outcomes of the job with key `k` in two worlds: it is completed in both, its columns differ
in its attempts only, its version is the same row, no document differs, and no entry of the
index. -/
structure SameOutcome (k : String × String) (w w' : World) : Prop where
  job : ∃ row row', w.database.ingestionJobs.find k = some row ∧
    w'.database.ingestionJobs.find k = some row' ∧ row.job.state = .completed ∧
    row.job.errorClass = none ∧ row.job.resumeFrom = none ∧
    row'.job = { row.job with attempts := row'.job.attempts } ∧ row'.versionId = row.versionId ∧
    ∃ version, w.database.documentVersions.find (k.1, row.versionId) = some version ∧
      w'.database.documentVersions.find (k.1, row.versionId) = some version
  documents : w'.database.documents = w.database.documents
  index : ∀ entry, entry ∈ w'.index ↔ entry ∈ w.index

section Outcome

variable {c : Components} {w w' : World} {k : String × String} {row : JobRow}
  {version version' : DocumentVersion}

theorem version_eq_of_bare (hbare : version'.bare = version.bare)
    (hraw : version'.rawRef = version.rawRef)
    (hnormalized : version'.normalizedRef = version.normalizedRef) : version' = version := by
  cases version
  cases version'
  simp only [DocumentVersion.bare, DocumentVersion.mk.injEq] at hbare hraw hnormalized ⊢
  exact ⟨hbare.1, hbare.2.1, hbare.2.2.1, hbare.2.2.2.1, hbare.2.2.2.2.1, hbare.2.2.2.2.2.1,
    hbare.2.2.2.2.2.2.1, hraw, hnormalized⟩

theorem job_eq_of_columns {job job' : IngestionJob} (hid : job'.id = job.id)
    (ht : job'.tenantId = job.tenantId) (hkey : job'.idempotencyKey = job.idempotencyKey)
    (hstate : job'.state = job.state) (herror : job'.errorClass = job.errorClass)
    (hresume : job'.resumeFrom = job.resumeFrom) :
    job' = { job with attempts := job'.attempts } := by
  cases job
  cases job'
  simp only at hid ht hkey hstate herror hresume
  rw [hid, ht, hkey, hstate, herror, hresume]

/-- What a completed job looks like. -/
theorem Kept.completed (h : Kept c w) (hrow : row ∈ w.database.ingestionJobs)
    (hstate : row.job.state = .completed) : row.job.errorClass = none ∧
      row.job.resumeFrom = none ∧ FiledIn c w (row.job.tenantId, row.versionId) := by
  have hparked := h.parked row hrow
  unfold IngestionJob.Parked at hparked
  rw [hstate] at hparked
  exact hparked

/-- A filed version is determined by its other columns. -/
theorem DocumentVersion.Filed.eq (hP : c.platform.CollisionFree)
    (hintact : Intact c.platform w.objects) (hintact' : Intact c.platform w'.objects)
    (h : version.Filed c w.objects) (h' : version'.Filed c w'.objects)
    (hbare : version'.bare = version.bare) : version' = version := by
  obtain ⟨content, parsed, hfiled⟩ := h
  obtain ⟨content', parsed', hfiled'⟩ := h'
  obtain ⟨hkeys, -, -, -, hhash⟩ := version_of_bare hbare
  have ht : version'.tenantId = version.tenantId := congrArg Prod.fst hkeys
  have hartifact : version'.rawArtifact = version.rawArtifact := by
    unfold DocumentVersion.rawArtifact
    rw [ht, hhash]
  have hdigest := (hintact _ _ hfiled.raw).1
  have hdigest' := (hintact' _ _ hfiled'.raw).1
  rw [hartifact] at hdigest'
  obtain rfl : content' = content := hP.sha256 (hdigest'.trans hdigest.symm)
  obtain rfl : parsed' = parsed := Option.some.inj (hfiled'.parse.symm.trans hfiled.parse)
  refine version_eq_of_bare hbare ?_ ?_
  · rw [hfiled.rawRef, hfiled'.rawRef, hartifact]
  · rw [hfiled.normalizedRef, hfiled'.normalizedRef, ht]

/-- **Worlds with the same rows** in which the job is completed agree on its outcome. -/
theorem SameOutcome.of_rows (hP : c.platform.CollisionFree) (h : Kept c w) (h' : Kept c w')
    (hsame : SameRows w.database w'.database)
    (hdone : ∃ row, w.database.ingestionJobs.find k = some row ∧ row.job.state = .completed)
    (hdone' : ∃ row, w'.database.ingestionJobs.find k = some row ∧ row.job.state = .completed)
    (hdocuments : w'.database.documents = w.database.documents)
    (hindex : ∀ entry, entry ∈ w'.index ↔ entry ∈ w.index) : SameOutcome k w w' := by
  obtain ⟨row, hrow, hstate⟩ := hdone
  obtain ⟨row', hrow', hstate'⟩ := hdone'
  obtain ⟨hmem, hpk⟩ := Table.find_eq_some.1 hrow
  obtain ⟨hmem', hpk'⟩ := Table.find_eq_some.1 hrow'
  obtain ⟨herror, hresume, version, hversion, hvpk, hfiled⟩ := h.completed hmem hstate
  obtain ⟨herror', hresume', version', hversion', hvpk', hfiled'⟩ := h'.completed hmem' hstate'
  -- the two rows of the job
  obtain ⟨old, hold, holdpk, hkey, hvid⟩ := hsame.job hmem'
  obtain rfl : old = row := Table.eq_of_pk hold hmem (holdpk.trans (hpk'.trans hpk.symm))
  have ht : old.job.tenantId = row'.job.tenantId := congrArg Prod.fst holdpk
  have hid : old.job.id = row'.job.id := congrArg Prod.snd holdpk
  -- the two rows of its version
  obtain ⟨found, hfound, hbare⟩ := hsame.versions.mem hversion'
  have hfoundpk : found.pk = version.pk := by
    rw [(bare_eq hbare).1, hvpk', hvpk, ht, hvid]
  obtain rfl : found = version := Table.eq_of_pk hfound hversion hfoundpk
  obtain rfl : version' = found :=
    hfiled.eq hP h.shelved.intact h'.shelved.intact hfiled' hbare.symm
  have hkversion : version'.pk = (k.1, old.versionId) := by
    rw [hvpk, ← hpk]
    rfl
  refine ⟨⟨old, row', hrow, hrow', hstate, herror, hresume, ?_, hvid.symm, version',
    Table.find_eq_some.2 ⟨hversion, hkversion⟩, Table.find_eq_some.2 ⟨hversion', hkversion⟩⟩,
    hdocuments, hindex⟩
  exact job_eq_of_columns hid.symm ht.symm hkey.symm (hstate'.trans hstate.symm)
    (herror'.trans herror.symm) (hresume'.trans hresume.symm)

end Outcome

section Result

variable {c : Components} {tenantId jobId : String} {w w' : World} {row : JobRow}
  {source : Source} {version : DocumentVersion} {document : Document} {content : ByteArray}

/-- What deliveries have completed can be completed. -/
theorem Finishes.completable (hP : c.platform.CollisionFree) (h : Kept c w')
    (hjob : JobContent c w.database row source version document content)
    (hfinishes : Finishes c.platform (tenantId, jobId) version
      (c.projection source version content) w w') :
    ∃ parsed, Completable c w.database source version content parsed := by
  obtain ⟨v, hv, hbare⟩ := hfinishes.rows.same.versions.symm.mem hjob.version_mem
  obtain ⟨-, -, -, -, hhash⟩ := version_of_bare hbare
  have hcompleted : w'.database.ingestionJobs.completed v.pk :=
    (hfinishes.rows.completed v.pk).2 (Or.inr (bare_eq hbare).1)
  obtain ⟨done, hdone, hkey, hstate⟩ := hcompleted
  obtain ⟨-, -, found, hfound, hpk, hfiled⟩ := h.completed hdone hstate
  obtain rfl : found = v := Table.eq_of_pk hfound hv (hpk.trans hkey)
  obtain ⟨content', parsed, hfiled⟩ := hfiled
  have hdigest := (h.shelved.intact _ _ hfiled.raw).1
  obtain rfl : content' = content :=
    hP.sha256 (hdigest.trans (hhash.trans hjob.digest.symm))
  refine ⟨parsed, hfiled.parse, (h.shelved.intact _ _ hfiled.normalized).2, ?_⟩
  exact hfinishes.index.imp And.left fun hindex => hindex.2.1

/-- **Two worlds in which deliveries have completed the job** agree on its outcome. -/
theorem Finishes.sameOutcome {π : VersionProjection} {k : String × String} {w₁ w₂ : World}
    (hP : c.platform.CollisionFree) (h₁ : Kept c w₁) (h₂ : Kept c w₂)
    (hfinishes₁ : Finishes c.platform k version π w w₁)
    (hfinishes₂ : Finishes c.platform k version π w w₂) : SameOutcome k w₁ w₂ := by
  refine .of_rows hP h₁ h₂ (hfinishes₁.rows.same.symm.trans hfinishes₂.rows.same)
    hfinishes₁.completed hfinishes₂.completed
    (hfinishes₂.rows.documents.trans hfinishes₁.rows.documents.symm) fun entry => ?_
  rcases hfinishes₁.index with ⟨hnil, hindex₁⟩ | ⟨hne, -, hentries₁⟩
  · rcases hfinishes₂.index with ⟨-, hindex₂⟩ | ⟨hne, -, -⟩
    · rw [hindex₁, hindex₂]
    · exact absurd hnil hne
  · rcases hfinishes₂.index with ⟨hnil, -⟩ | ⟨-, -, hentries₂⟩
    · exact absurd hnil hne
    · rw [hentries₁ entry, hentries₂ entry]

/-- Deliveries of a terminal job leave the database and the index alone. -/
theorem deliveries_terminal (hrow : w.database.ingestionJobs.find (tenantId, jobId) = some row)
    (hterm : row.job.state.terminal = true) (attempts : List (Faults × ℤ)) :
    let w' := Machine.run (World.step c) w (attempts.map (delivery tenantId jobId))
    w'.database = w.database ∧ w'.index = w.index := by
  refine Machine.run_inv_of_mem (I := fun w' : World => w'.database = w.database ∧
    w'.index = w.index) (fun w₁ event hevent hsame => ?_) ⟨rfl, rfl⟩
  obtain ⟨attempt, -, rfl⟩ := List.mem_map.1 hevent
  obtain ⟨hdb₁, hindex₁⟩ := hsame
  have hrow₁ : w₁.database.ingestionJobs.find (tenantId, jobId) = some row := hdb₁ ▸ hrow
  obtain ⟨hdb, hindex⟩ := delivery_terminal hrow₁ hterm
  exact ⟨hdb.trans hdb₁, hindex.trans hindex₁⟩

theorem deliveries_unknown (hnone : w.database.ingestionJobs.find (tenantId, jobId) = none)
    (attempts : List (Faults × ℤ)) :
    (Machine.run (World.step c) w (attempts.map (delivery tenantId jobId))).database.ingestionJobs.find
      (tenantId, jobId) = none := by
  refine Machine.run_inv_of_mem (I := fun w' : World =>
    w'.database.ingestionJobs.find (tenantId, jobId) = none) (fun w₁ event hevent hnone₁ => ?_) hnone
  obtain ⟨attempt, -, rfl⟩ := List.mem_map.1 hevent
  rw [delivery_unknown hnone₁]
  exact hnone₁

theorem deliveries_kept (hP : c.platform.CollisionFree) (h : Kept c w)
    (attempts : List (Faults × ℤ)) :
    Kept c (Machine.run (World.step c) w (attempts.map (delivery tenantId jobId))) :=
  Machine.run_inv (fun _ event hkept => (live_kept hP hkept (.worker event)).1) h

/-- **Retries are transparent.** Whatever goes wrong in the deliveries of a job, from any reachable
world: if the job ends completed, its outcome is that of one delivery without failures. -/
theorem retries_transparent (c : Components) (hP : c.platform.CollisionFree)
    (es : List LifecycleEvent) (tenantId jobId : String) (attempts : List (Faults × ℤ)) (now : ℤ) :
    let w := Machine.run (World.live c) {} es
    let retried := Machine.run (World.step c) w (attempts.map (delivery tenantId jobId))
    (∃ row, retried.database.ingestionJobs.find (tenantId, jobId) = some row ∧
      row.job.state = .completed) →
    SameOutcome (tenantId, jobId) retried (w.step c (delivery tenantId jobId ({}, now))) := by
  intro w retried hdone
  have hkept : Kept c w := life_kept hP es
  have hretried : Kept c retried := deliveries_kept hP hkept attempts
  have honce : Kept c (w.step c (delivery tenantId jobId ({}, now))) :=
    (live_kept hP hkept (.worker (delivery tenantId jobId ({}, now)))).1
  obtain ⟨done, hfound, hstate⟩ := hdone
  cases hrow : w.database.ingestionJobs.find (tenantId, jobId) with
  | none =>
    have hnone : retried.database.ingestionJobs.find (tenantId, jobId) = none :=
      deliveries_unknown hrow attempts
    rw [hnone] at hfound
    cases hfound
  | some row =>
    obtain ⟨hmem, hpk⟩ := Table.find_eq_some.1 hrow
    cases hterm : row.job.state.terminal with
    | true =>
      -- the job was completed before
      obtain ⟨hdb, hindex⟩ := deliveries_terminal (c := c) hrow hterm attempts
      obtain ⟨hdb', hindex'⟩ : (w.step c (delivery tenantId jobId ({}, now))).database = w.database ∧
          (w.step c (delivery tenantId jobId ({}, now))).index = w.index :=
        delivery_terminal hrow hterm
      have hsame : (w.step c (delivery tenantId jobId ({}, now))).database = retried.database :=
        hdb'.trans hdb.symm
      refine .of_rows hP hretried honce (hsame ▸ .refl _) ⟨done, hfound, hstate⟩
        ⟨done, hsame ▸ hfound, hstate⟩ (congrArg Database.documents hsame) fun entry => ?_
      rw [hindex', show retried.index = w.index from hindex]
    | false =>
      obtain ⟨source, version, document, content, hjob⟩ := hkept.content hmem
      obtain ⟨-, hprogress⟩ := deliveries_progress hP hkept hrow hjob attempts
      rcases hprogress with hstalled | hfinishes
      · obtain ⟨hdone, hdonepk⟩ := Table.find_eq_some.1 hfound
        exact absurd hstate (hstalled.not_completed hmem hterm hdone (hdonepk.trans hpk.symm))
      · -- so the delivery without failures completes it as well
        obtain ⟨parsed, hready⟩ := hfinishes.completable hP hretried hjob
        obtain ⟨row', hfound', hstate'⟩ := step_completes (c := c) hP hkept hrow hjob hterm
          (hfinishes.deliveries row hrow) hready
        have hprogress' : Stalled (c.projection source version content) w
              (w.step c (delivery tenantId jobId ({}, now))) ∨
            Finishes c.platform (tenantId, jobId) version (c.projection source version content) w
              (w.step c (delivery tenantId jobId ({}, now))) :=
          delivery_progress hP hkept hrow hterm hjob
        rcases hprogress' with hstalled | hfinishes'
        · obtain ⟨hdone', hdonepk'⟩ := Table.find_eq_some.1 hfound'
          exact absurd hstate' (hstalled.not_completed hmem hterm hdone' (hdonepk'.trans hpk.symm))
        · exact hfinishes.sameOutcome hP hretried honce hfinishes'

/-- An upsert that stops between its two updates, a worker that dies before it commits, and a
delivery without failures. -/
def troubledAttempts : List (Faults × ℤ) := [
  ({ fault := fun operation => if operation = .setCurrent then some .failure else none }, 1),
  ({ fault := fun operation => if operation = .commit then some .crash else none }, 2),
  ({}, 3)]

def troubledStart : List LifecycleEvent := [.worker { action := .submit (sampleEvent "a" 1) }]

theorem retries_transparent_troubled :
    SameOutcome ("tenant", "uuu")
      (Machine.run (World.step sampleComponents)
        (Machine.run (World.live sampleComponents) {} troubledStart)
        (troubledAttempts.map (delivery "tenant" "uuu")))
      ((Machine.run (World.live sampleComponents) {} troubledStart).step sampleComponents
        (delivery "tenant" "uuu" ({}, 0))) := by
  have hstate : ((Machine.run (World.step sampleComponents)
        (Machine.run (World.live sampleComponents) {} troubledStart)
        (troubledAttempts.map (delivery "tenant" "uuu"))).database.ingestionJobs.find
      ("tenant", "uuu")).map (fun row => row.job.state) = some .completed := by
    decide +kernel
  exact retries_transparent sampleComponents samplePlatform_collisionFree troubledStart "tenant"
    "uuu" troubledAttempts 0 (Option.map_eq_some_iff.1 hstate)

end Result

end GroundedOps.Ingestion
