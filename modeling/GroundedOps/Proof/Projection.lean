import GroundedOps.Proof.Agreement

/-!
# What an upsert leaves of the index

* `Components.projection`: what `INDEXING` projects of a version and its content.
* `VersionProjection.SameBeside`: two indexes agree, but for the entries that an upsert of the
  projection writes and the flags that it sets. A failed upsert leaves such an index
  (`wp_upsert_beside`), and an upsert that succeeds ends the same on both
  (`mem_upserted_congr`).
-/

namespace GroundedOps.Ingestion

open Hoare

/-! ## The projection of a version -/

def Components.indexChunk (c : Components) (versionId : String) (chunk : Chunk) : IndexChunk where
  chunkId := c.platform.keyOf versionId (toString chunk.ordinal)
  ordinal := chunk.ordinal
  text := chunk.text
  start := chunk.start
  «end» := chunk.end
  contentHash := c.platform.sha256 chunk.text.toUTF8
  parserVersion := chunk.parserVersion
  chunkerVersion := chunk.chunkerVersion

/-- What `INDEXING` upserts, if there are chunks. -/
def Components.projection (c : Components) (source : Source) (version : DocumentVersion)
    (content : ByteArray) : VersionProjection where
  tenantId := source.tenantId
  sourceId := source.id
  documentId := version.documentId
  documentVersionId := version.id
  policy := source.policy
  sourceTimestamp := version.sourceTimestamp
  chunks := ((c.parse content).elim [] c.chunk).map (c.indexChunk version.id)

def VersionProjection.chunkIds (π : VersionProjection) : List String :=
  π.chunks.map IndexChunk.chunkId

theorem projection_congr {c : Components} {source : Source} {version version' : DocumentVersion}
    {content : ByteArray} (h : version'.bare = version.bare) :
    c.projection source version' content = c.projection source version content := by
  obtain ⟨hdoc, hid, -, hstamp, -⟩ := version_of_bare h
  have hdocument : version'.documentId = version.documentId := congrArg Prod.snd hdoc
  unfold Components.projection
  rw [hdocument, hid, hstamp]

/-- The calls of the index writer so far. -/
def World.projections (w : World) : List VersionProjection :=
  w.log.filterMap fun observation =>
    match observation with
    | .projected projection => some projection
    | _ => none

/-- The calls that the projection is passed in: one, or none if there are no chunks. -/
def VersionProjection.calls (π : VersionProjection) : List VersionProjection :=
  if π.chunks = [] then [] else [π]

/-- The index writer has been called with the projection, once, if there are chunks. -/
def VersionProjection.Passed (π : VersionProjection) (w w' : World) : Prop :=
  w'.projections = w.projections ++ π.calls

section Calls

variable {π : VersionProjection} {w w₁ w' : World}

theorem projections_of_log (h : w'.log = w.log) : w'.projections = w.projections := by
  unfold World.projections
  rw [h]

theorem projections_noted {index : Index} {passed : List VersionProjection} :
    (w.noted index passed).projections = w.projections ++ passed := by
  show List.filterMap _ (w.log ++ passed.map Observation.projected) = _
  rw [List.filterMap_append, List.filterMap_map]
  congr 1
  exact List.filterMap_some

theorem VersionProjection.Passed.of_log (h : π.Passed w w₁) (hlog : w'.log = w₁.log) :
    π.Passed w w' :=
  (projections_of_log hlog).trans h

theorem VersionProjection.Passed.after (hlog : w₁.log = w.log) (h : π.Passed w₁ w') :
    π.Passed w w' := by
  unfold VersionProjection.Passed
  rw [← projections_of_log hlog]
  exact h

end Calls

/-! ## Indexes that an upsert makes the same -/

namespace VersionProjection

variable {π : VersionProjection} {index index' index'' : Index} {rejected : String → Bool}
  {entry : IndexEntry}

/-- The entry is in the index after the updates of the flags, and not one that the bulk request
writes. -/
def Beside (π : VersionProjection) (index : Index) (entry : IndexEntry) : Prop :=
  ∃ old ∈ index, old.chunkId ∉ π.chunkIds ∧ π.reflag old = entry

def SameBeside (π : VersionProjection) (index index' : Index) : Prop :=
  ∀ entry, π.Beside index' entry ↔ π.Beside index entry

theorem SameBeside.refl (π : VersionProjection) (index : Index) : π.SameBeside index index :=
  fun _ => Iff.rfl

theorem SameBeside.trans (h : π.SameBeside index index') (h' : π.SameBeside index' index'') :
    π.SameBeside index index'' :=
  fun entry => (h' entry).trans (h entry)

theorem chunkId_of_accepted_mem {id : String}
    (h : id ∈ (Index.accepted π rejected).map IndexEntry.chunkId) : id ∈ π.chunkIds := by
  obtain ⟨new, hnew, rfl⟩ := List.mem_map.1 h
  obtain ⟨chunk, hchunk, rfl⟩ := Index.exists_of_accepted hnew
  exact List.mem_map_of_mem hchunk

theorem sameBeside_bulk : π.SameBeside index (index.bulk π rejected) := by
  intro entry
  constructor
  · rintro ⟨old, hold, hid, rfl⟩
    rcases Table.mem_of_mem_foldl_put hold with hnew | ⟨hmem, -⟩
    · exact absurd (chunkId_of_accepted_mem (List.mem_map_of_mem hnew)) hid
    · exact ⟨old, hmem, hid, rfl⟩
  · rintro ⟨old, hold, hid, rfl⟩
    exact ⟨old, Table.mem_foldl_put_of_mem hold fun h => hid (chunkId_of_accepted_mem h), hid, rfl⟩

theorem sameBeside_deleteIds {ids : List String} (h : ∀ id ∈ ids, id ∈ π.chunkIds) :
    π.SameBeside index (index.deleteIds ids) := by
  intro entry
  constructor
  · rintro ⟨old, hold, hid, rfl⟩
    exact ⟨old, (Table.mem_filter.1 hold).1, hid, rfl⟩
  · rintro ⟨old, hold, hid, rfl⟩
    exact ⟨old, Table.mem_filter.2 ⟨hold, decide_eq_true fun hmem => hid (h _ hmem)⟩, hid, rfl⟩

/-- An update of flags that the two updates of `upsert` undo. -/
theorem sameBeside_flag {query : IndexEntry → Bool} {isCurrent : Bool}
    (h : ∀ old, query old = true → π.reflag { old with isCurrent } = π.reflag old) :
    π.SameBeside index (index.flag query isCurrent) := by
  have hreflag : ∀ old : IndexEntry,
      π.reflag (if query old then { old with isCurrent } else old) = π.reflag old := by
    intro old
    by_cases hq : query old = true
    · rw [if_pos hq]
      exact h old hq
    · rw [if_neg hq]
  have hid : ∀ old : IndexEntry,
      (if query old then { old with isCurrent } else old).chunkId = old.chunkId := by
    intro old
    split
    · rfl
    · rfl
  intro entry
  constructor
  · rintro ⟨new, hnew, hout, rfl⟩
    obtain ⟨old, hold, rfl⟩ := Index.mem_flag.1 hnew
    exact ⟨old, hold, hid old ▸ hout, (hreflag old).symm⟩
  · rintro ⟨old, hold, hout, rfl⟩
    exact ⟨_, Index.mem_flag.2 ⟨old, hold, rfl⟩, (hid old).symm ▸ hout, hreflag old⟩

theorem reflag_flag (old : IndexEntry) (isCurrent : Bool)
    (h : Index.ofDocument π old = true) : π.reflag { old with isCurrent } = π.reflag old := by
  have h' : Index.ofDocument π { old with isCurrent } = true := h
  unfold reflag
  rw [if_pos h, if_pos h']

theorem sameBeside_clearOthers : π.SameBeside index (index.clearOthers π) :=
  sameBeside_flag fun old hq => reflag_flag old false (Bool.and_eq_true_iff.1 hq).1

theorem sameBeside_setCurrent : π.SameBeside index (index.setCurrent π) :=
  sameBeside_flag fun old hq => reflag_flag old true (Bool.and_eq_true_iff.1 hq).1

theorem accepted_congr {rejected' : String → Bool} (h : ∀ id ∈ π.chunkIds, rejected id = false)
    (h' : ∀ id ∈ π.chunkIds, rejected' id = false) :
    Index.accepted π rejected = Index.accepted π rejected' := by
  unfold Index.accepted
  congr 1
  apply List.filter_congr
  intro chunk hchunk
  have hid : chunk.chunkId ∈ π.chunkIds := List.mem_map_of_mem hchunk
  rw [h _ hid, h' _ hid]

theorem accepted_chunkIds (h : ∀ id ∈ π.chunkIds, rejected id = false) :
    (Index.accepted π rejected).map IndexEntry.chunkId = π.chunkIds := by
  unfold Index.accepted
  rw [List.filter_eq_self.2, List.map_map]
  · rfl
  · intro chunk hchunk
    have hid : chunk.chunkId ∈ π.chunkIds := List.mem_map_of_mem hchunk
    rw [h _ hid]
    rfl

/-- What an upsert leaves that rejects nothing. -/
theorem mem_upserted_iff (h : ∀ id ∈ π.chunkIds, rejected id = false) :
    entry ∈ index.upserted π rejected ↔
      entry ∈ (∅ : Index).upserted π rejected ∨ π.Beside index entry := by
  rw [mem_upserted, mem_upserted]
  have hbulk : ∀ old, old ∈ index.bulk π rejected ↔
      old ∈ (∅ : Index).bulk π rejected ∨ old ∈ index ∧ old.chunkId ∉ π.chunkIds := by
    intro old
    unfold Index.bulk
    rw [Table.mem_foldl_put_iff, accepted_chunkIds h]
  constructor
  · rintro ⟨old, hold, hflag⟩
    rcases (hbulk old).1 hold with hnew | ⟨hmem, hid⟩
    · exact Or.inl ⟨old, hnew, hflag⟩
    · exact Or.inr ⟨old, hmem, hid, hflag⟩
  · rintro (⟨old, hnew, hflag⟩ | ⟨old, hmem, hid, hflag⟩)
    · exact ⟨old, (hbulk old).2 (Or.inl hnew), hflag⟩
    · exact ⟨old, (hbulk old).2 (Or.inr ⟨hmem, hid⟩), hflag⟩

/-- **Upserts that reject nothing end the same** on indexes that are the same beside them. -/
theorem mem_upserted_congr {rejected' : String → Bool} (hsame : π.SameBeside index index')
    (h : ∀ id ∈ π.chunkIds, rejected id = false)
    (h' : ∀ id ∈ π.chunkIds, rejected' id = false) :
    entry ∈ index'.upserted π rejected' ↔ entry ∈ index.upserted π rejected := by
  have hempty : (∅ : Index).upserted π rejected' = (∅ : Index).upserted π rejected := by
    unfold Index.upserted Index.bulk
    rw [accepted_congr h' h]
  rw [mem_upserted_iff h', mem_upserted_iff h, hempty, hsame entry]

end VersionProjection

/-! ## The index writer -/

section Writer

variable {faults : Faults} {π : VersionProjection} {w : World}

/-- `validate_projections` lets the projection pass. -/
def Database.Admits (db : Database) (π : VersionProjection) : Prop :=
  ∃ reference policy, DocumentRef.make π.tenantId π.documentId π.documentVersionId = some reference ∧
    db.getDocumentPolicy reference = some policy ∧
    ¬(policy.deleted ∨ policy.sourceId ≠ π.sourceId ∨
      ¬(policy.policy ⊆ π.policy ∧ π.policy ⊆ policy.policy))

theorem wp_validateProjection_admits :
    wp (validateProjection faults π) (fun _ w' => w' = w ∧ w.database.Admits π)
      (fun _ w' => w' = w) w := by
  simp only [validateProjection, wp_bind, wp_reach, wp_orRaise, wp_readDatabase]
  refine ⟨fun _ => ⟨fun reference hreference => ?_, fun _ => trivial⟩, fun _ _ => trivial⟩
  split
  · exact rfl
  · rename_i policy hpolicy
    split
    · exact rfl
    · rename_i hfits
      exact ⟨rfl, reference, policy, hreference, hpolicy, hfits⟩

/-- **An upsert** that returns has been admitted and has rejected nothing; one that raises leaves
the index the same beside the projection. -/
theorem wp_upsert_beside : wp (upsert faults π)
    (fun _ w' => w.database.Admits π ∧ (∀ id ∈ π.chunkIds, faults.rejected id = false) ∧
      w' = { w with index := w.index.upserted π faults.rejected })
    (fun _ w' => ∃ index, π.SameBeside w.index index ∧ w' = { w with index }) w := by
  have hbulk : π.SameBeside w.index (w.index.bulk π faults.rejected) :=
    VersionProjection.sameBeside_bulk
  have hraise : ∀ index, π.SameBeside w.index index →
      ∃ index', π.SameBeside w.index index' ∧ ({ w with index } : World) = { w with index := index' } :=
    fun index h => ⟨index, h, rfl⟩
  have hsame := hraise w.index (.refl π w.index)
  simp only [upsert, wp_bind]
  refine wp_mono wp_validateProjection_admits ?_ ?_
  · rintro _ _ ⟨rfl, hadmits⟩
    simp only [wp_request]
    refine ⟨fun _ => ?_, fun _ _ => ?_⟩
    · split
      · -- some item is in error: the accepted ones are deleted again
        split
        · simp only [wp_bind, wp_request, wp_throw]
          have haccepted : ∀ id ∈ (π.chunks.map IndexChunk.chunkId).filter (!faults.rejected ·),
              id ∈ π.chunkIds := fun id hid => (List.mem_filter.1 hid).1
          have hdeleted := hraise _ (hbulk.trans (VersionProjection.sameBeside_deleteIds haccepted))
          refine ⟨fun _ => hdeleted, fun _ _ => ?_⟩
          split
          · exact hdeleted
          · exact hraise _ hbulk
        · simp only [wp_bind, wp_throw]
          exact hraise _ hbulk
      · rename_i hnone
        rw [ne_eq, not_not, List.filter_eq_nil_iff] at hnone
        have haccepted : ∀ id ∈ π.chunkIds, faults.rejected id = false :=
          fun id hid => Bool.eq_false_iff.2 (hnone id hid)
        simp only [wp_bind, wp_request]
        have hcleared := hbulk.trans VersionProjection.sameBeside_clearOthers
        refine ⟨fun _ => ⟨fun _ => ⟨hadmits, haccepted, rfl⟩, fun _ _ => ?_⟩, fun _ _ => ?_⟩
        · split
          · exact hraise _ (hcleared.trans VersionProjection.sameBeside_setCurrent)
          · exact hraise _ hcleared
        · split
          · exact hraise _ hcleared
          · exact hraise _ hbulk
    · split
      · exact hraise _ hbulk
      · exact hsame
  · rintro _ _ rfl
    exact hsame

end Writer

end GroundedOps.Ingestion
