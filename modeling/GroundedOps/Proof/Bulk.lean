import GroundedOps.Lib.Machine
import GroundedOps.Proof.IndexCalls

/-!
# A projection that fails in part

`upsert` writes its chunks over what the index holds under their ids, not current, and learns
only then which items were in error. It compensates by deleting the items that were not.

* `rejecting`: a cluster that does what it is asked, but for the items of the bulk request.
* `upsert_failed`: **a failed upsert removes the chunks under the ids that were accepted**, those
  that the index held before included, and nothing else.
* `upsert_failed_unseen_iff`: searchers see what they saw before exactly if no such chunk was
  current, or another document's.
-/

namespace GroundedOps.Ingestion

open Process OpenSearchIndexWriter

/-! ## The cluster -/

/-- The items of a bulk request, by their position. -/
def bulkItems (entries : List IndexEntry) (rejected : ℕ → Bool) : List (IndexEntry × Bool) :=
  entries.zipIdx.map fun item => (item.1, rejected item.2)

/-- The entries that a bulk request indexes. -/
def bulkAccepted (entries : List IndexEntry) (rejected : ℕ → Bool) : List IndexEntry :=
  ((bulkItems entries rejected).filter fun item => !item.2).map Prod.fst

/-- A cluster that does what it is asked, but for the rejected items of a bulk request. -/
def rejecting (rejected : ℕ → Bool) :
    (request : IndexRequest) → Index → IndexAnswered request × Index
  | .validateProjections _, s => (.ok (), s)
  | .validateRemoval _ _, s => (.ok (), s)
  | .bulk entries, s =>
    (.ok ((bulkItems entries rejected).map fun item => (item.1.chunkId, item.2)),
      (bulkAccepted entries rejected).foldl Table.put s)
  | .deleteByQuery query, s => (.ok (), s.filter fun entry => !query entry)
  | .updateByQuery query isCurrent, s => (.ok (), s.flag query isCurrent)

/-- A call, and the items of its bulk request that fail. -/
structure IndexWrite where
  call : IndexCall
  rejected : ℕ → Bool := fun _ => false

/-- The index after a call that runs alone, whether or not it raised. -/
def Index.after (index : Index) (write : IndexWrite) : Index :=
  (write.call.body.run.solve (rejecting write.rejected) index).2

section Failure

variable {index index' : Index} {projection : VersionProjection} {rejected : ℕ → Bool}
  {entry : IndexEntry} {failed : List String}

theorem map_fst_bulkItems {entries : List IndexEntry} :
    (bulkItems entries rejected).map Prod.fst = entries := by
  unfold bulkItems
  rw [List.map_map]
  exact List.zipIdx_map_fst 0 entries

theorem serves_rejecting (request : IndexRequest) (s : Index) :
    request.Serves s (rejecting rejected request s).1 (rejecting rejected request s).2 := by
  cases request with
  | validateProjections projection => rfl
  | validateRemoval tenantId documentId => rfl
  | bulk entries => exact ⟨bulkItems entries rejected, map_fst_bulkItems, rfl, .inl rfl⟩
  | deleteByQuery query => exact ⟨fun _ => true, by simp [rejecting], .inl rfl⟩
  | updateByQuery query isCurrent => exact ⟨fun _ => true, by simp [rejecting], .inl rfl⟩

/-- The answer to the bulk request of an upsert. -/
def bulkAnswer (projection : VersionProjection) (rejected : ℕ → Bool) : List (String × Bool) :=
  (bulkItems (projection.chunks.map projection.entry) rejected).map fun item =>
    (item.1.chunkId, item.2)

/-- The ids of the chunks that are in error. -/
def failedIds (projection : VersionProjection) (rejected : ℕ → Bool) : List String :=
  ((bulkAnswer projection rejected).filter fun item => item.2).map Prod.fst

/-- The ids of the chunks that are not. -/
def acceptedIds (projection : VersionProjection) (rejected : ℕ → Bool) : List String :=
  ((bulkAnswer projection rejected).filter fun item => !item.2).map Prod.fst

theorem acceptedIds_eq : acceptedIds projection rejected =
    (bulkAccepted (projection.chunks.map projection.entry) rejected).map IndexEntry.chunkId := by
  unfold acceptedIds bulkAnswer bulkAccepted
  rw [List.filter_map, List.map_map, List.map_map]
  rfl

/-- What the cluster holds after the bulk request, less what it accepted, is what it held before
under other ids. -/
theorem mem_accepted_deleted : entry ∈ ((bulkAccepted (projection.chunks.map projection.entry)
      rejected).foldl Table.put index).filter (fun entry =>
        !decide (entry.chunkId ∈ acceptedIds projection rejected)) ↔
    entry ∈ index ∧ entry.chunkId ∉ acceptedIds projection rejected := by
  rw [Table.mem_filter, acceptedIds_eq]
  simp only [Bool.not_eq_true', decide_eq_false_iff_not]
  constructor
  · rintro ⟨hmem, hid⟩
    rcases Table.mem_of_mem_foldl_put hmem with hnew | ⟨hold, -⟩
    · exact absurd (List.mem_map_of_mem hnew) hid
    · exact ⟨hold, hid⟩
  · rintro ⟨hmem, hid⟩
    exact ⟨Table.mem_foldl_put_of_mem hmem hid, hid⟩

/-- **A failed upsert** removes the chunks under the ids that were accepted. -/
theorem upsert_failed (h : failedIds projection rejected ≠ []) :
    ∃ index', (upsert projection).run.solve (rejecting rejected) index =
        (.error (.bulkProjection (failedIds projection rejected)), index') ∧
      ∀ entry, entry ∈ index' ↔
        entry ∈ index ∧ entry.chunkId ∉ acceptedIds projection rejected := by
  by_cases haccepted : acceptedIds projection rejected = []
  · refine ⟨(bulkAccepted (projection.chunks.map projection.entry) rejected).foldl Table.put index,
      ?_, fun entry => ?_⟩
    · change Process.solve (rejecting rejected)
        (ExceptT.run (if failedIds projection rejected ≠ [] then _ else _)) _ = _
      rw [if_pos h]
      change Process.solve (rejecting rejected) (ExceptT.run (do
        if acceptedIds projection rejected ≠ [] then _
        throw _)) _ = _
      rw [if_neg (not_not.2 haccepted)]
      rfl
    · rw [haccepted]
      have hnone : bulkAccepted (projection.chunks.map projection.entry) rejected = [] := by
        rw [acceptedIds_eq] at haccepted
        exact List.map_eq_nil_iff.1 haccepted
      rw [hnone]
      simp
  · refine ⟨_, ?_, fun entry => mem_accepted_deleted⟩
    change Process.solve (rejecting rejected)
      (ExceptT.run (if failedIds projection rejected ≠ [] then _ else _)) _ = _
    rw [if_pos h]
    change Process.solve (rejecting rejected) (ExceptT.run (do
      if acceptedIds projection rejected ≠ [] then _
      throw _)) _ = _
    rw [if_pos haccepted]
    rfl

/-- An upsert that raises so has failed items. -/
theorem failedIds_ne_nil (h : ((upsert projection).run.solve (rejecting rejected) index).1 =
    .error (.bulkProjection failed)) : failedIds projection rejected ≠ [] := by
  intro hnil
  change (Process.solve (rejecting rejected)
    (ExceptT.run (if failedIds projection rejected ≠ [] then _ else _)) _).1 = _ at h
  rw [if_neg (not_not.2 hnil)] at h
  cases h

/-- Searchers see the same of the document, and of every other document nothing has changed. -/
structure Unseen (projection : VersionProjection) (index index' : Index) : Prop where
  current : ∀ entry : IndexEntry, Index.ofDocument projection entry = true →
    entry.isCurrent = true → (entry ∈ index' ↔ entry ∈ index)
  others : ∀ entry : IndexEntry, Index.ofDocument projection entry = false →
    (entry ∈ index' ↔ entry ∈ index)

/-- Whatever the index holds under an accepted id is a chunk of the document that is not
current. -/
def Spares (projection : VersionProjection) (rejected : ℕ → Bool) (index : Index) : Prop :=
  ∀ entry ∈ index, entry.chunkId ∈ acceptedIds projection rejected →
    Index.ofDocument projection entry = true ∧ entry.isCurrent = false

/-- **A failed upsert leaves what searchers see unchanged** exactly if no accepted item has the
id of a current chunk, or of a chunk of another document. -/
theorem upsert_failed_unseen_iff (index : Index) (projection : VersionProjection)
    (rejected : ℕ → Bool) (failed : List String)
    (h : ((upsert projection).run.solve (rejecting rejected) index).1 =
      .error (.bulkProjection failed)) :
    Unseen projection index ((upsert projection).run.solve (rejecting rejected) index).2 ↔
      Spares projection rejected index := by
  obtain ⟨index', heq, hmem⟩ := @upsert_failed index projection rejected (failedIds_ne_nil h)
  rw [heq]
  constructor
  · intro hsame entry hentry hid
    have hgone : entry ∉ index' := fun hin => ((hmem entry).1 hin).2 hid
    have hdoc : Index.ofDocument projection entry = true := by
      by_contra hother
      exact hgone ((hsame.others entry (by simpa using hother)).2 hentry)
    refine ⟨hdoc, ?_⟩
    by_contra hcurrent
    exact hgone ((hsame.current entry hdoc (by simpa using hcurrent)).2 hentry)
  · intro hspares
    refine ⟨fun entry _ hcurrent => ?_, fun entry hother => ?_⟩
    · rw [hmem]
      refine and_iff_left_of_imp fun hentry hid => ?_
      have hflag := (hspares entry hentry hid).2
      rw [hcurrent] at hflag
      cases hflag
    · rw [hmem]
      refine and_iff_left_of_imp fun hentry hid => ?_
      have hdoc := (hspares entry hentry hid).1
      rw [hother] at hdoc
      cases hdoc

/-- The runbook with one more chunk. -/
def longerRunbook : VersionProjection :=
  { runbook with chunks := runbook.chunks ++
      [⟨"version-1-1", 1, "steps", 8, 13, "hash-1", "markdown-v1", "structural-v1"⟩] }

/-- The chunk of the runbook once it is current. -/
def runbookEntry : IndexEntry where
  tenantId := "alpha"
  sourceId := "source-1"
  documentId := "document-1"
  documentVersionId := "version-1"
  policy := ["role:engineer"]
  chunk := ⟨"version-1-0", 0, "evidence", 0, 8, "hash-0", "markdown-v1", "structural-v1"⟩
  sourceTimestamp := 0
  isCurrent := true

/-- The last item of two is in error. -/
def lastRejected (i : ℕ) : Bool := i == 1

/-- The next version of the runbook, in two chunks. -/
def nextRunbook : VersionProjection :=
  { runbook with
    documentVersionId := "version-2"
    chunks := [⟨"version-2-0", 0, "evidence", 0, 8, "hash-2", "markdown-v1", "structural-v1"⟩,
      ⟨"version-2-1", 1, "steps", 8, 13, "hash-3", "markdown-v1", "structural-v1"⟩] }

/-- The index in which the runbook is current. -/
def runbookIndex : Index := Machine.run Index.after ∅ [{ call := .upsert runbook }]

/-- A version that was not indexed before fails to replace the current one: nothing is lost. -/
theorem upsert_failed_unseen_new : runbookEntry ∈ runbookIndex.rows ∧
    Unseen nextRunbook runbookIndex
      ((upsert nextRunbook).run.solve (rejecting lastRejected) runbookIndex).2 := by
  have hother : ∀ entry ∈ runbookIndex.rows,
      entry.chunkId ∉ acceptedIds nextRunbook lastRejected := by decide +kernel
  refine ⟨by decide +kernel, ?_⟩
  exact (upsert_failed_unseen_iff runbookIndex nextRunbook lastRejected ["version-2-1"]
    (by decide +kernel)).2 fun entry hentry hid => absurd hid (hother entry hentry)

/-- A version that is projected again loses its current chunk when another item fails. -/
theorem upsert_failed_seen : ¬ ∀ (writes : List IndexWrite) (projection : VersionProjection)
    (rejected : ℕ → Bool) (failed : List String),
    let index := Machine.run Index.after ∅ writes
    ((upsert projection).run.solve (rejecting rejected) index).1 = .error (.bulkProjection failed) →
    Unseen projection index ((upsert projection).run.solve (rejecting rejected) index).2 := by
  intro h
  have hsame := h [{ call := .upsert runbook }] longerRunbook lastRejected ["version-1-1"]
    (by decide +kernel)
  have hbefore : runbookEntry ∈ runbookIndex.rows := by decide +kernel
  have hafter : ((upsert longerRunbook).run.solve (rejecting lastRejected)
      (Machine.run Index.after ∅ [{ call := .upsert runbook }])).2.rows = [] := by decide +kernel
  have hmem := (hsame.current _ (by decide +kernel) rfl).2 hbefore
  rw [← Table.mem_rows, hafter] at hmem
  cases hmem

end Failure

end GroundedOps.Ingestion
