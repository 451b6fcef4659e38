import GroundedOps.Spec.IndexWriter

/-!
# What a request leaves of the index

* `exists_of_mem_flag`: an entry after a flag request is one from before, its flag moved or not.
* `exists_of_accepted`: what a bulk request writes.
-/

namespace GroundedOps.Ingestion

namespace Index

variable {index : Index} {projection : VersionProjection} {query : IndexEntry → Bool}
  {isCurrent : Bool} {entry : IndexEntry}

theorem ofDocument_iff : ofDocument projection entry = true ↔
    entry.tenantId = projection.tenantId ∧ entry.documentId = projection.documentId := by
  simp [ofDocument]

theorem mem_flag : entry ∈ index.flag query isCurrent ↔
    ∃ old ∈ index, (if query old then { old with isCurrent } else old) = entry :=
  Table.mem_modify

/-- An entry with a flag that may have moved. -/
structure SameEntry (old entry : IndexEntry) : Prop where
  tenantId : entry.tenantId = old.tenantId
  documentId : entry.documentId = old.documentId
  documentVersionId : entry.documentVersionId = old.documentVersionId
  chunkId : entry.chunkId = old.chunkId

/-- **Where an entry comes from** after a flag request. -/
theorem exists_of_mem_flag (h : entry ∈ index.flag query isCurrent) :
    ∃ old ∈ index, SameEntry old entry ∧
      (query old = true ∧ entry.isCurrent = isCurrent ∨ query old = false ∧ entry = old) := by
  obtain ⟨old, hold, rfl⟩ := mem_flag.1 h
  by_cases hq : query old = true
  · rw [if_pos hq]
    exact ⟨old, hold, ⟨rfl, rfl, rfl, rfl⟩, .inl ⟨hq, rfl⟩⟩
  · rw [if_neg hq]
    exact ⟨old, hold, ⟨rfl, rfl, rfl, rfl⟩, .inr ⟨by simpa using hq, rfl⟩⟩

theorem exists_of_accepted {rejected : String → Bool} (h : entry ∈ accepted projection rejected) :
    ∃ chunk ∈ projection.chunks, entry = projection.entry chunk := by
  obtain ⟨chunk, hchunk, rfl⟩ := List.mem_map.1 h
  exact ⟨chunk, (List.mem_filter.1 hchunk).1, rfl⟩

end Index

end GroundedOps.Ingestion
