import GroundedOps.Proof.Replay

/-!
# What replay makes current

Replay flags the chunks of a version as it upserts them and unflags those of the version of the
document before. The query puts the current version of a document last, but a version without
chunks is passed over.

* `replayRows_sorted`, `exists_current_row`: the rows of the query.
* `Indexed`: what the index holds after some rows. The flag of a document is at the last of its
  versions that had chunks.
* `wp_replay_indexed`: so it is after the whole replay.
* `replay_currency_iff`: **replay reproduces currency exactly when no document has a current
  version without chunks beside another completed version with some.**
-/

namespace GroundedOps.Ingestion

open Hoare

/-! ## The last element with a property -/

section Last

variable {α : Type} {p : α → Bool} {l : List α} {a b : α}

/-- The last element of the list that satisfies `p`. -/
def lastOf (p : α → Bool) (l : List α) : Option α := (l.filter p).getLast?

theorem lastOf_concat : lastOf p (l ++ [a]) = if p a then some a else lastOf p l := by
  unfold lastOf
  rw [List.filter_append]
  by_cases h : p a = true
  · rw [if_pos h, List.filter_cons_of_pos h, List.filter_nil, List.getLast?_concat]
  · rw [if_neg h, List.filter_cons_of_neg h, List.filter_nil, List.append_nil]

theorem mem_of_lastOf (h : lastOf p l = some a) : a ∈ l ∧ p a = true :=
  List.mem_filter.1 (List.mem_of_getLast? h)

theorem exists_lastOf (h : a ∈ l) (hp : p a = true) : ∃ b, lastOf p l = some b := by
  have hmem : a ∈ l.filter p := List.mem_filter.2 ⟨h, hp⟩
  exact ⟨_, List.getLast?_eq_getLast_of_ne_nil (List.ne_nil_of_mem hmem)⟩

/-- In a sorted list, every element with the property stands before the last one. -/
theorem lastOf_sorted {R : α → α → Prop} (hl : l.Pairwise R) (h : lastOf p l = some b) (ha : a ∈ l)
    (hp : p a = true) : a = b ∨ R a b := by
  obtain ⟨before, hfilter⟩ := List.getLast?_eq_some_iff.1 h
  have hsorted : (before ++ [b]).Pairwise R := hfilter ▸ hl.sublist List.filter_sublist
  have hmem : a ∈ before ++ [b] := hfilter ▸ List.mem_filter.2 ⟨ha, hp⟩
  rcases List.mem_append.1 hmem with hbefore | hlast
  · exact Or.inr ((List.pairwise_append.1 hsorted).2.2 a hbefore b List.mem_cons_self)
  · exact Or.inl (List.mem_singleton.1 hlast)

end Last

/-! ## The order of the query -/

section Order

variable {P : Platform} {db : Database} {a b : ReplayRow}

/-- The document of the row. -/
def ReplayRow.key (row : ReplayRow) : String × String :=
  (row.version.tenantId, row.version.documentId)

theorem ReplayRow.le_eq : ReplayRow.le P =
    Table.orderBy (fun row => row.version.tenantId) P.collation
      (Table.orderBy (fun row => row.version.documentId) P.collation
        (Table.orderBy ReplayRow.isCurrent (fun _ later => later)
          fun a b => P.revisionLe a.version.revision b.version.revision)) := rfl

theorem replayRows_sorted : (db.replayRows P).Pairwise fun a b => ReplayRow.le P a b = true := by
  have htext : ∀ x y : String, x ≠ y → P.collation x y = true ∨ P.collation y x = true :=
    fun x y _ => P.collation_total x y
  have hflag : ∀ x y : Bool, x ≠ y → y = true ∨ x = true := by decide
  have hflagTrans : ∀ x y z : Bool, y = true → z = true → z = true := by decide
  have hflagAnti : ∀ x y : Bool, y = true → x = true → x = y := by decide
  refine List.pairwise_mergeSort (fun a b c => ?_) (fun a b => ?_) _
  · rw [ReplayRow.le_eq]
    refine Table.orderBy_trans P.collation_trans P.collation_antisymm fun a b c => ?_
    refine Table.orderBy_trans P.collation_trans P.collation_antisymm fun a b c => ?_
    refine Table.orderBy_trans hflagTrans hflagAnti fun a b c hab hbc => ?_
    exact revisionLe_trans hab hbc
  · rw [Bool.or_eq_true, ReplayRow.le_eq]
    refine Table.orderBy_total htext (fun a b => ?_) a b
    refine Table.orderBy_total htext (fun a b => ?_) a b
    exact Table.orderBy_total hflag (fun a b => revisionLe_total P _ _) a b

/-- The current version of a document comes last. -/
theorem current_of_le (h : ReplayRow.le P a b = true) (hkey : a.key = b.key)
    (hcur : a.isCurrent = true) : b.isCurrent = true := by
  have ht : a.version.tenantId = b.version.tenantId := congrArg Prod.fst hkey
  have hd : a.version.documentId = b.version.documentId := congrArg Prod.snd hkey
  unfold ReplayRow.le at h
  rw [if_neg (not_not.2 ht), if_neg (not_not.2 hd)] at h
  by_cases hflag : a.isCurrent = b.isCurrent
  · exact hflag ▸ hcur
  · rw [if_pos hflag] at h
    exact h

end Order

/-! ## The rows of the query, counted -/

section Count

variable {P : Platform} {db : Database} {uuids : ℕ} {d : Document}

/-- What a row joins is found from the job. -/
theorem replayRow_eq {job : JobRow} {row : ReplayRow} (h : db.replayRow job = some row) :
    row.version.pk = (job.job.tenantId, job.versionId) := by
  unfold Database.replayRow at h
  simp only [guard, Option.bind_eq_bind, Option.bind_eq_some_iff, Option.pure_def] at h
  obtain ⟨_, -, version, hversion, document, -, _, -, source, -, heq⟩ := h
  cases heq
  exact (Table.find_eq_some.1 hversion).2

theorem replayRows_nodup (hc : Consistent P db uuids) : (db.replayRows P).Nodup := by
  have hjobs : db.ingestionJobs.rows.Nodup := db.ingestionJobs.pk_nodup.of_map
  have hrows : (db.ingestionJobs.rows.filterMap db.replayRow).Nodup := by
    refine List.Pairwise.filterMap _ ?_ (List.Pairwise.and_mem.1 hjobs)
    rintro job job' ⟨hjob, hjob', hne⟩ row hrow row' hrow' rfl
    have hkey := (replayRow_eq hrow).symm.trans (replayRow_eq hrow')
    exact hne (hc.job_unique hjob hjob' (congrArg Prod.fst hkey) (congrArg Prod.snd hkey))
  exact (List.mergeSort_perm _ _).nodup_iff.2 hrows

theorem ReplayRow.current_eq {row : ReplayRow} (h : row.isCurrent = true) :
    row.document.currentVersionId = some row.version.id := beq_iff_eq.1 h

/-- Rows of current versions have different documents. -/
theorem eq_of_current {a b : ReplayRow} (ha : a.Joins db) (hb : b.Joins db)
    (hacur : a.isCurrent = true) (hbcur : b.isCurrent = true) (h : a.document = b.document) :
    a = b := by
  have hid : a.version.id = b.version.id := by
    have hsome := (ReplayRow.current_eq hacur).symm.trans ((congrArg _ h).trans (ReplayRow.current_eq hbcur))
    exact Option.some.inj hsome
  have hkeys : (a.version.tenantId, a.version.documentId) = (b.version.tenantId, b.version.documentId) := by
    rw [← ha.document_pk, ← hb.document_pk, h]
  have ht : a.version.tenantId = b.version.tenantId := congrArg Prod.fst hkeys
  have hversion : a.version = b.version :=
    Table.eq_of_pk ha.version hb.version (Prod.ext ht hid)
  have hsource : a.source = b.source :=
    Table.eq_of_pk ha.source hb.source (by rw [ha.source_pk, hb.source_pk, h])
  obtain ⟨v, d, s⟩ := a
  obtain ⟨v', d', s'⟩ := b
  dsimp only at h hversion hsource
  rw [h, hversion, hsource]

/-- The documents of the rows of current versions. -/
def Database.currentDocuments (P : Platform) (db : Database) : List Document :=
  ((db.replayRows P).filter ReplayRow.isCurrent).map ReplayRow.document

theorem mem_currentDocuments : d ∈ db.currentDocuments P ↔
    ∃ row ∈ db.replayRows P, row.isCurrent = true ∧ row.document = d := by
  unfold Database.currentDocuments
  simp only [List.mem_map, List.mem_filter, and_assoc]

theorem length_currentDocuments :
    (db.currentDocuments P).length = (db.replayRows P).countP ReplayRow.isCurrent := by
  unfold Database.currentDocuments
  rw [List.length_map, ← List.countP_eq_length_filter]

/-- They are different, and active. -/
theorem currentDocuments_subperm (hc : Consistent P db uuids) :
    (db.currentDocuments P).Subperm (db.documents.rows.filter Document.active) := by
  refine List.subperm_of_subset ?_ fun document hdocument => ?_
  · refine List.Nodup.map_on (fun a ha b hb heq => ?_) ((replayRows_nodup hc).filter _)
    obtain ⟨ha, hacur⟩ := List.mem_filter.1 ha
    obtain ⟨hb, hbcur⟩ := List.mem_filter.1 hb
    exact eq_of_current (joins_of_mem ha) (joins_of_mem hb) hacur hbcur heq
  · obtain ⟨row, hrow, -, rfl⟩ := mem_currentDocuments.1 hdocument
    have hjoins : row.Joins db := joins_of_mem hrow
    exact List.mem_filter.2 ⟨hjoins.document, hjoins.active⟩

/-- **If the counts agree, every active document has its current version among the rows.** -/
theorem exists_current_row (hc : Consistent P db uuids)
    (hcount : (db.replayRows P).countP ReplayRow.isCurrent =
      db.documents.rows.countP Document.active)
    (hd : d ∈ db.documents) (hactive : d.active = true) :
    ∃ row ∈ db.replayRows P, row.isCurrent = true ∧ row.document = d := by
  have hlength : (db.documents.rows.filter Document.active).length ≤
      (db.currentDocuments P).length := by
    rw [length_currentDocuments, hcount, List.countP_eq_length_filter]
  have hperm := (currentDocuments_subperm hc).perm_of_length_le hlength
  exact mem_currentDocuments.1 (hperm.mem_iff.2 (List.mem_filter.2 ⟨hd, hactive⟩))

/-- **If every active document has its current version among the rows, the counts agree.** -/
theorem count_current (hc : Consistent P db uuids)
    (h : ∀ d ∈ db.documents, d.active = true →
      ∃ row ∈ db.replayRows P, row.isCurrent = true ∧ row.document = d) :
    (db.replayRows P).countP ReplayRow.isCurrent = db.documents.rows.countP Document.active := by
  have hnodup : (db.documents.rows.filter Document.active).Nodup :=
    db.documents.pk_nodup.of_map.filter _
  have hsubset : db.documents.rows.filter Document.active ⊆ db.currentDocuments P := by
    intro d hd
    obtain ⟨hd, hactive⟩ := List.mem_filter.1 hd
    exact mem_currentDocuments.2 (h d hd hactive)
  have hperm := (currentDocuments_subperm hc).antisymm (List.subperm_of_subset hnodup hsubset)
  rw [← length_currentDocuments, hperm.length_eq, List.countP_eq_length_filter]

end Count

/-! ## The chunks of a version -/

/-- The chunks of the content that is stored for the version. -/
def World.chunksOf (c : Components) (w : World) (version : DocumentVersion) : List IndexChunk :=
  match w.objects version.rawArtifact with
  | none => []
  | some content => ((c.parse content).elim [] c.chunk).map (c.indexChunk version.id)

/-- The entry of the index for a chunk of the version. -/
structure IndexEntry.IsOf (entry : IndexEntry) (version : DocumentVersion) (chunk : IndexChunk) :
    Prop where
  tenantId : entry.tenantId = version.tenantId
  documentId : entry.documentId = version.documentId
  documentVersionId : entry.documentVersionId = version.id
  chunk : entry.chunk = chunk

theorem toString_nat_inj {m n : ℕ} (h : toString m = toString n) : m = n := by
  have hdigits : Nat.toDigits 10 m = Nat.toDigits 10 n := String.ofList_injective h
  rw [← Nat.ofDigitChars_ten_toDigits (n := m), hdigits, Nat.ofDigitChars_ten_toDigits]

section Chunks

variable {c : Components} {w : World} {version version' : DocumentVersion} {row : ReplayRow}
  {chunk chunk' : IndexChunk} {raw : ByteArray} {entry entry' : IndexEntry} {index : Index}

theorem mem_chunksOf (h : chunk ∈ w.chunksOf c version) :
    ∃ part, chunk.chunkId = c.platform.keyOf version.id part := by
  unfold World.chunksOf at h
  split at h
  · cases h
  · obtain ⟨source, -, rfl⟩ := List.mem_map.1 h
    exact ⟨_, rfl⟩

/-- No two chunks of a version have one id. -/
theorem chunksOf_nodup (hP : c.platform.CollisionFree) (hn : c.Numbered)
    (hc : Consistent c.platform w.database w.uuids) (hv : version ∈ w.database.documentVersions) :
    ((w.chunksOf c version).map IndexChunk.chunkId).Nodup := by
  unfold World.chunksOf
  split
  · exact List.nodup_nil
  · rename_i content _
    cases hparse : c.parse content with
    | none => exact List.nodup_nil
    | some parsed =>
      rw [Option.elim_some, List.map_map]
      have hordinals : ((c.chunk parsed).map Chunk.ordinal).Nodup := by
        rw [hn parsed]
        exact List.nodup_range
      have hids : ((c.chunk parsed).map Chunk.ordinal).map
          (fun ordinal => c.platform.keyOf version.id (toString ordinal)) =
          (c.chunk parsed).map (IndexChunk.chunkId ∘ c.indexChunk version.id) := by
        rw [List.map_map]
        rfl
      rw [← hids]
      refine hordinals.map fun m n h => ?_
      have hcolon := hc.versionId_no_colon hP hv
      exact toString_nat_inj (keyOf_inj hP hcolon hcolon h).2

/-- A chunk id belongs to one version. -/
theorem version_of_chunkId (hP : c.platform.CollisionFree)
    (hc : Consistent c.platform w.database w.uuids) (hv : version ∈ w.database.documentVersions)
    (hv' : version' ∈ w.database.documentVersions) (h : chunk ∈ w.chunksOf c version)
    (h' : chunk' ∈ w.chunksOf c version') (hid : chunk.chunkId = chunk'.chunkId) :
    version = version' := by
  obtain ⟨part, hpart⟩ := mem_chunksOf h
  obtain ⟨part', hpart'⟩ := mem_chunksOf h'
  rw [hpart, hpart'] at hid
  have hsame := keyOf_inj hP (hc.versionId_no_colon hP hv) (hc.versionId_no_colon hP hv') hid
  exact hc.version_inj version hv version' hv' hsame.1

theorem IndexEntry.IsOf.unique (h : entry.IsOf version chunk) (h' : entry'.IsOf version chunk)
    (hentry : entry ∈ index) (hentry' : entry' ∈ index) : entry = entry' := by
  refine Table.eq_of_pk hentry hentry' ?_
  rw [IndexEntry.chunkId, IndexEntry.chunkId, h.chunk, h'.chunk]

/-- Replay projects the chunks of the version. -/
theorem projects_chunks (hP : c.platform.CollisionFree) (h : Kept c w)
    (hv : row.version ∈ w.database.documentVersions)
    (hraw : c.platform.sha256 raw = row.version.contentHash) :
    (row.projects c raw).chunks = w.chunksOf c row.version := by
  obtain ⟨content, hcontent⟩ := h.shelved.content row.version hv
  have hdigest : c.platform.sha256 content = row.version.contentHash :=
    (h.shelved.intact _ _ hcontent).1
  obtain rfl : raw = content := hP.sha256 (hraw.trans hdigest.symm)
  unfold World.chunksOf
  rw [hcontent]
  rfl

end Chunks

/-! ## The index after some rows -/

/-- The row is of the document and has chunks. -/
def showsIn (c : Components) (w : World) (key : String × String) (row : ReplayRow) : Bool :=
  decide (row.key = key) && !(w.chunksOf c row.version).isEmpty

/-- What the index holds after the rows `done`: the flag of a document is at its last version that
had chunks. -/
structure Indexed (c : Components) (w : World) (done : List ReplayRow) (index : Index) : Prop where
  entries : ∀ entry ∈ index, ∃ row ∈ done, ∃ chunk ∈ w.chunksOf c row.version,
    entry.IsOf row.version chunk
  chunks : ∀ row ∈ done, ∀ chunk ∈ w.chunksOf c row.version, ∃ entry ∈ index,
    entry.IsOf row.version chunk ∧ (entry.isCurrent = true ↔
      ∃ last, lastOf (showsIn c w row.key) done = some last ∧ last.version.id = row.version.id)

section Upsert

variable {c : Components} {w : World} {done : List ReplayRow} {row : ReplayRow} {index : Index}
  {π : VersionProjection} {rejected : String → Bool} {entry : IndexEntry}

/-- An upsert that rejects nothing, of an empty index. -/
theorem mem_empty_upserted (hnodup : π.chunkIds.Nodup)
    (h : ∀ id ∈ π.chunkIds, rejected id = false) :
    entry ∈ (∅ : Index).upserted π rejected ↔
      ∃ chunk ∈ π.chunks, entry = { π.entry chunk with isCurrent := true } := by
  have haccepted : Index.accepted π rejected = π.chunks.map π.entry := by
    unfold Index.accepted
    rw [List.filter_eq_self.2]
    intro chunk hchunk
    have hid : chunk.chunkId ∈ π.chunkIds := List.mem_map_of_mem hchunk
    rw [h _ hid]
    rfl
  have hkeys : ((π.chunks.map π.entry).map IndexEntry.chunkId).Nodup := by
    rw [List.map_map]
    exact hnodup
  have hreflag : ∀ chunk, π.reflag (π.entry chunk) = { π.entry chunk with isCurrent := true } := by
    intro chunk
    have hof : Index.ofDocument π (π.entry chunk) = true :=
      Bool.and_eq_true_iff.2 ⟨beq_self_eq_true _, beq_self_eq_true _⟩
    unfold VersionProjection.reflag
    rw [if_pos hof]
    have hself : ((π.entry chunk).documentVersionId == π.documentVersionId) = true :=
      beq_self_eq_true _
    rw [hself]
  rw [mem_upserted]
  unfold Index.bulk
  rw [haccepted]
  constructor
  · rintro ⟨old, hold, rfl⟩
    rcases Table.mem_of_mem_foldl_put hold with hnew | ⟨hnone, -⟩
    · obtain ⟨chunk, hchunk, rfl⟩ := List.mem_map.1 hnew
      exact ⟨chunk, hchunk, hreflag chunk⟩
    · exact absurd hnone Table.not_mem_empty
  · rintro ⟨chunk, hchunk, rfl⟩
    refine ⟨π.entry chunk, ?_, hreflag chunk⟩
    exact (Table.mem_foldl_put hkeys).2 (Or.inl (List.mem_map_of_mem hchunk))

theorem showsIn_iff {key : String × String} :
    showsIn c w key row = true ↔ row.key = key ∧ w.chunksOf c row.version ≠ [] := by
  unfold showsIn
  rw [Bool.and_eq_true, decide_eq_true_eq, Bool.not_eq_true', List.isEmpty_eq_false_iff]

/-- A version without chunks is passed over. -/
theorem Indexed.skip (h : Indexed c w done index) (hnil : w.chunksOf c row.version = []) :
    Indexed c w (done ++ [row]) index := by
  have hnot : ∀ key, ¬ showsIn c w key row = true := fun key hshows => (showsIn_iff.1 hshows).2 hnil
  refine ⟨fun entry hentry => ?_, fun r hr chunk hchunk => ?_⟩
  · obtain ⟨r, hr, hchunk⟩ := h.entries entry hentry
    exact ⟨r, List.mem_append_left _ hr, hchunk⟩
  · rw [lastOf_concat, if_neg (hnot r.key)]
    rcases List.mem_append.1 hr with hdone | hrow
    · exact h.chunks r hdone chunk hchunk
    · rw [List.mem_singleton.1 hrow, hnil] at hchunk
      cases hchunk

/-- **A version with chunks** takes the flag of its document. -/
theorem Indexed.upserted (hP : c.platform.CollisionFree)
    (hc : Consistent c.platform w.database w.uuids) (hn : c.Numbered)
    (hjoins : ∀ r ∈ done ++ [row], r.Joins w.database) (h : Indexed c w done index)
    {raw : ByteArray} (hchunks : (row.projects c raw).chunks = w.chunksOf c row.version)
    (hne : w.chunksOf c row.version ≠ [])
    (haccepted : ∀ id ∈ (row.projects c raw).chunkIds, rejected id = false) :
    Indexed c w (done ++ [row]) (index.upserted (row.projects c raw) rejected) := by
  have hrow : row ∈ done ++ [row] := List.mem_append_right _ List.mem_cons_self
  have hversion := (hjoins row hrow).version
  have hnodup : (row.projects c raw).chunkIds.Nodup := by
    unfold VersionProjection.chunkIds
    rw [hchunks]
    exact chunksOf_nodup hP hn hc hversion
  -- an entry is one of the chunks, now flagged, or an old one that is none of them
  have hmem : ∀ {entry}, entry ∈ index.upserted (row.projects c raw) rejected ↔
      (∃ chunk ∈ w.chunksOf c row.version,
        entry = { (row.projects c raw).entry chunk with isCurrent := true }) ∨
      (row.projects c raw).Beside index entry := by
    intro entry
    rw [VersionProjection.mem_upserted_iff haccepted, mem_empty_upserted hnodup haccepted, hchunks]
  have hnew : ∀ chunk, ({ (row.projects c raw).entry chunk with isCurrent := true } :
      IndexEntry).IsOf row.version chunk := fun _ => ⟨rfl, rfl, rfl, rfl⟩
  have hkept : ∀ {old : IndexEntry} {v : DocumentVersion} {chunk : IndexChunk}, old.IsOf v chunk →
      ((row.projects c raw).reflag old).IsOf v chunk := by
    intro old v chunk hold
    unfold VersionProjection.reflag
    split
    · exact ⟨hold.tenantId, hold.documentId, hold.documentVersionId, hold.chunk⟩
    · exact hold
  refine ⟨fun entry hentry => ?_, fun r hr chunk hchunk => ?_⟩
  · rcases hmem.1 hentry with ⟨chunk, hchunk, rfl⟩ | ⟨old, hold, -, rfl⟩
    · exact ⟨row, hrow, chunk, hchunk, hnew chunk⟩
    · obtain ⟨r, hr, chunk, hchunk, hof⟩ := h.entries old hold
      exact ⟨r, List.mem_append_left _ hr, chunk, hchunk, hkept hof⟩
  · rw [lastOf_concat]
    by_cases hsame : r.version = row.version
    · have hkey : row.key = r.key := by rw [ReplayRow.key, ReplayRow.key, hsame]
      rw [if_pos (showsIn_iff.2 ⟨hkey, hne⟩)]
      rw [hsame] at hchunk ⊢
      refine ⟨_, hmem.2 (Or.inl ⟨chunk, hchunk, rfl⟩), hnew chunk, fun _ => ⟨row, rfl, rfl⟩,
        fun _ => rfl⟩
    · have hdone : r ∈ done := by
        rcases List.mem_append.1 hr with hdone | hlast
        · exact hdone
        · exact absurd (congrArg ReplayRow.version (List.mem_singleton.1 hlast)) hsame
      obtain ⟨old, hold, hof, hflag⟩ := h.chunks r hdone chunk hchunk
      have hout : old.chunkId ∉ (row.projects c raw).chunkIds := by
        intro hid
        unfold VersionProjection.chunkIds at hid
        rw [hchunks] at hid
        obtain ⟨chunk', hchunk', heq⟩ := List.mem_map.1 hid
        have hids : chunk.chunkId = chunk'.chunkId := by
          rw [heq, IndexEntry.chunkId, hof.chunk]
        exact hsame (version_of_chunkId hP hc (hjoins r hr).version hversion hchunk hchunk' hids)
      have hid : r.version.id ≠ row.version.id :=
        fun heq => hsame (hc.version_inj _ (hjoins r hr).version _ hversion heq)
      refine ⟨_, hmem.2 (Or.inr ⟨old, hold, hout, rfl⟩), hkept hof, ?_⟩
      unfold VersionProjection.reflag
      by_cases hkey : row.key = r.key
      · -- the same document: its flag moves to the row
        have hdocument : Index.ofDocument (row.projects c raw) old = true := by
          refine Bool.and_eq_true_iff.2 ⟨beq_iff_eq.2 ?_, beq_iff_eq.2 ?_⟩
          · exact hof.tenantId.trans (congrArg Prod.fst hkey).symm
          · exact hof.documentId.trans (congrArg Prod.snd hkey).symm
        rw [if_pos hdocument, if_pos (showsIn_iff.2 ⟨hkey, hne⟩)]
        refine iff_of_false ?_ ?_
        · intro hflagged
          exact hid (hof.documentVersionId.symm.trans (beq_iff_eq.1 hflagged))
        · rintro ⟨last, hlast, heq⟩
          cases hlast
          exact hid heq.symm
      · have hdocument : ¬ Index.ofDocument (row.projects c raw) old = true := by
          intro hdocument
          obtain ⟨ht, hd⟩ := Bool.and_eq_true_iff.1 hdocument
          refine hkey (Prod.ext ?_ ?_)
          · exact (beq_iff_eq.1 ht).symm.trans hof.tenantId
          · exact (beq_iff_eq.1 hd).symm.trans hof.documentId
        rw [if_neg hdocument, if_neg fun hshows => hkey (showsIn_iff.1 hshows).1]
        exact hflag

end Upsert

/-- **After a replay that returns**, the index holds what all rows have left, and the rows of
current versions have been counted. -/
theorem wp_replay_indexed {c : Components} {w : World} {validDigest : String → Bool}
    {faults : ReplayRow → Faults} (hP : c.platform.CollisionFree) (hn : c.Numbered) (h : Kept c w) :
    wp (replayAuthoritative c validDigest faults)
      (fun _ w' => Indexed c w (w.database.replayRows c.platform) w'.index ∧
        (w.database.replayRows c.platform).countP ReplayRow.isCurrent =
          w.database.documents.rows.countP Document.active)
      (fun _ _ => True) { w with index := ∅ } := by
  unfold replayAuthoritative
  simp only [wp_bind, Hoare.wp_get]
  split
  · trivial
  rename_i hcount
  rw [ne_eq, not_not] at hcount
  simp only [wp_bind, wp_pure]
  have hempty : Indexed c w [] ∅ := by
    refine ⟨fun entry hentry => absurd hentry Table.not_mem_empty, fun row hrow => ?_⟩
    cases hrow
  have hloop : wp ((w.database.replayRows c.platform).mapM fun row =>
        replayVersion c validDigest (faults row) row)
      (fun _ w' => Indexed c w (w.database.replayRows c.platform) w'.index) (fun _ _ => True)
      { w with index := ∅ } := by
    refine wp_mapM (I := fun done (w' : World) => Indexed c w done w'.index) ?_ hempty
    intro done row rest hrows w₁ hdone
    have hjoins : ∀ r ∈ done ++ [row], r.Joins w.database := by
      intro r hr
      have hall : w.database.replayRows c.platform = done ++ row :: rest := hrows
      refine joins_of_mem (P := c.platform) ?_
      rw [hall, List.append_cons]
      exact List.mem_append_left _ hr
    have hversion := (hjoins row (List.mem_append_right _ List.mem_cons_self)).version
    refine wp_mono (wp_replayVersion hn) ?_ (fun _ _ _ => trivial)
    rintro _ w₂ ⟨raw, hraw, hprojected, -⟩
    have hchunks := projects_chunks hP h hversion hraw
    cases hprojected with
    | empty hnil hindex =>
      rw [hindex]
      exact hdone.skip (hchunks.symm.trans hnil)
    | upserted hne _ haccepted hindex =>
      rw [hindex]
      exact hdone.upserted hP h.consistent hn hjoins hchunks (hchunks ▸ hne) haccepted
  exact wp_mono hloop (fun _ _ hindexed => ⟨hindexed, hcount⟩) (fun _ _ _ => trivial)

/-! ## Currency -/

/-- The version is the current one of a document that is not deleted. -/
structure CurrentVersion (db : Database) (d : Document) (v : DocumentVersion) : Prop where
  document : d ∈ db.documents
  active : d.active = true
  version : v ∈ db.documentVersions
  document_pk : d.pk = (v.tenantId, v.documentId)
  current : d.currentVersionId = some v.id

/-- The version is another completed one of a document that is not deleted and has a current
version. -/
structure OtherVersion (db : Database) (d : Document) (v : DocumentVersion) : Prop where
  document : d ∈ db.documents
  active : d.active = true
  version : v ∈ db.documentVersions
  document_pk : d.pk = (v.tenantId, v.documentId)
  completed : db.ingestionJobs.completed v.pk
  other : d.currentVersionId ≠ some v.id

/-- The flagged chunks of the index are those of the current versions, and the chunks of the other
completed versions of their documents are there without the flag. -/
structure ReproducesCurrency (c : Components) (w : World) (index : Index) : Prop where
  flagged : ∀ entry ∈ index, entry.isCurrent = true →
    ∃ d v chunk, CurrentVersion w.database d v ∧ chunk ∈ w.chunksOf c v ∧ entry.IsOf v chunk
  current : ∀ d v, CurrentVersion w.database d v → ∀ chunk ∈ w.chunksOf c v,
    ∃ entry ∈ index, entry.IsOf v chunk ∧ entry.isCurrent = true
  others : ∀ d v, OtherVersion w.database d v → ∀ chunk ∈ w.chunksOf c v,
    ∃ entry ∈ index, entry.IsOf v chunk ∧ entry.isCurrent = false

/-- No document has a current version without chunks beside another completed version with
some. -/
def ShowsCurrent (c : Components) (w : World) : Prop :=
  ∀ d v, CurrentVersion w.database d v →
    w.chunksOf c v ≠ [] ∨ ∀ v', OtherVersion w.database d v' → w.chunksOf c v' = []

section Currency

variable {c : Components} {w : World} {db : Database} {uuids : ℕ} {P : Platform} {d : Document}
  {v : DocumentVersion} {row last : ReplayRow} {index : Index}

/-- A completed version of an active document has a row. -/
theorem exists_row (hc : Consistent P db uuids) (hd : d ∈ db.documents) (hactive : d.active = true)
    (hv : v ∈ db.documentVersions) (hpk : d.pk = (v.tenantId, v.documentId))
    (hcompleted : db.ingestionJobs.completed v.pk) :
    ∃ row ∈ db.replayRows P, row.version = v ∧ row.document = d := by
  obtain ⟨job, hjob, hkey, hstate⟩ := hcompleted
  obtain ⟨source, hsource, hspk⟩ := hc.document_source d hd
  have hversion : db.documentVersions.find (job.job.tenantId, job.versionId) = some v :=
    hkey ▸ Table.find_of_mem hv
  have hdocument : db.documents.find (v.tenantId, v.documentId) = some d :=
    hpk ▸ Table.find_of_mem hd
  have hfound : db.sources.find (d.tenantId, d.sourceId) = some source :=
    hspk ▸ Table.find_of_mem hsource
  refine ⟨⟨v, d, source⟩, List.mem_mergeSort.2 (List.mem_filterMap.2 ⟨job, hjob, ?_⟩), rfl, rfl⟩
  unfold Database.replayRow
  simp [guard, hstate, hversion, hdocument, hactive, hfound]

theorem CurrentVersion.unique {v' : DocumentVersion} (h : CurrentVersion db d v)
    (h' : CurrentVersion db d v') : v = v' := by
  have hid : v.id = v'.id := Option.some.inj (h.current.symm.trans h'.current)
  have ht : v.tenantId = v'.tenantId := congrArg Prod.fst (h.document_pk.symm.trans h'.document_pk)
  exact Table.eq_of_pk h.version h'.version (Prod.ext ht hid)

/-- A row is of the current version of its document, or of another one. -/
theorem ReplayRow.Joins.current (h : row.Joins db) (hcur : row.isCurrent = true) :
    CurrentVersion db row.document row.version :=
  ⟨h.document, h.active, h.version, h.document_pk, ReplayRow.current_eq hcur⟩

theorem ReplayRow.Joins.other (h : row.Joins db) (hcur : row.isCurrent = false) :
    OtherVersion db row.document row.version :=
  ⟨h.document, h.active, h.version, h.document_pk, h.completed, by
    intro heq
    unfold ReplayRow.isCurrent at hcur
    rw [heq, beq_self_eq_true] at hcur
    cases hcur⟩

/-- Rows of one key have one document. -/
theorem document_of_key {a b : ReplayRow} (ha : a.Joins db) (hb : b.Joins db) (h : a.key = b.key) :
    a.document = b.document :=
  Table.eq_of_pk ha.document hb.document (by rw [ha.document_pk, hb.document_pk]; exact h)

/-- The current version of a document, if it has chunks, is the last of its versions to be shown. -/
theorem last_of_current (hrow : row ∈ w.database.replayRows P) (hcur : row.isCurrent = true)
    (hchunks : w.chunksOf c row.version ≠ []) :
    ∃ last, lastOf (showsIn c w row.key) (w.database.replayRows P) = some last ∧
      last.version = row.version := by
  have hshows : showsIn c w row.key row = true := showsIn_iff.2 ⟨rfl, hchunks⟩
  obtain ⟨last, hlast⟩ := exists_lastOf hrow hshows
  obtain ⟨hmem, hshown⟩ := mem_of_lastOf hlast
  have hkey : last.key = row.key := (showsIn_iff.1 hshown).1
  refine ⟨last, hlast, ?_⟩
  rcases lastOf_sorted replayRows_sorted hlast hrow hshows with rfl | hle
  · rfl
  · have hlastCur : last.isCurrent = true := current_of_le hle hkey.symm hcur
    have hjoins : row.Joins w.database := joins_of_mem hrow
    have hjoinsLast : last.Joins w.database := joins_of_mem hmem
    have hdocument : last.document = row.document := document_of_key hjoinsLast hjoins hkey
    have hcurrent := hjoinsLast.current hlastCur
    rw [hdocument] at hcurrent
    exact hcurrent.unique (hjoins.current hcur)

/-- **Currency is reproduced exactly when every current version that has others beside it is
shown.** -/
theorem Indexed.currency_iff (hc : Consistent P w.database w.uuids)
    (hcount : (w.database.replayRows P).countP ReplayRow.isCurrent =
      w.database.documents.rows.countP Document.active)
    (h : Indexed c w (w.database.replayRows P) index) :
    ReproducesCurrency c w index ↔ ShowsCurrent c w := by
  -- the row of the current version of an active document
  have hcurrentRow : ∀ {d v}, CurrentVersion w.database d v → ∃ row ∈ w.database.replayRows P,
      row.isCurrent = true ∧ row.version = v ∧ row.document = d := by
    intro d v hv
    obtain ⟨row, hrow, hcur, hdocument⟩ := exists_current_row hc hcount hv.document hv.active
    have hrowCurrent := (joins_of_mem hrow).current hcur
    rw [hdocument] at hrowCurrent
    exact ⟨row, hrow, hcur, hrowCurrent.unique hv, hdocument⟩
  constructor
  · -- an older version that is shown last keeps the flag
    intro hreproduces d v hv
    by_contra hnot
    rw [not_or, not_not, not_forall] at hnot
    obtain ⟨hnil, v', hv'⟩ := hnot
    rw [Classical.not_imp] at hv'
    obtain ⟨hother, hchunks⟩ := hv'
    obtain ⟨row, hrow, hversion, hdocument⟩ := exists_row (P := P) hc hother.document hother.active
      hother.version hother.document_pk hother.completed
    have hshows : showsIn c w row.key row = true := showsIn_iff.2 ⟨rfl, hversion ▸ hchunks⟩
    obtain ⟨last, hlast⟩ := exists_lastOf hrow hshows
    obtain ⟨hmem, hshown⟩ := mem_of_lastOf hlast
    obtain ⟨hkey, hlastChunks⟩ := showsIn_iff.1 hshown
    have hjoins : last.Joins w.database := joins_of_mem hmem
    have hlastDocument : last.document = d :=
      (document_of_key hjoins (joins_of_mem hrow) hkey).trans hdocument
    have hlastOther : last.isCurrent = false := by
      by_contra hcur
      have hcurrent := hjoins.current (Bool.not_eq_false _ ▸ hcur)
      rw [hlastDocument] at hcurrent
      rw [hcurrent.unique hv] at hlastChunks
      exact hlastChunks hnil
    obtain ⟨chunk, hchunk⟩ := List.exists_mem_of_ne_nil _ hlastChunks
    obtain ⟨entry, hentry, hof, hflag⟩ := h.chunks last hmem chunk hchunk
    obtain ⟨entry', hentry', hof', hunflagged⟩ :=
      hreproduces.others _ _ (hjoins.other hlastOther) chunk hchunk
    obtain rfl := hof.unique hof' hentry hentry'
    have hflagged : entry.isCurrent = true := hflag.2 ⟨last, hkey ▸ hlast, rfl⟩
    rw [hunflagged] at hflagged
    cases hflagged
  · intro hshows
    -- where an older version has chunks, so has the current one, and it comes last
    have hcurrentChunks : ∀ {row}, row ∈ w.database.replayRows P → w.chunksOf c row.version ≠ [] →
        ∃ current ∈ w.database.replayRows P, current.isCurrent = true ∧
          current.document = row.document ∧
          ∃ last, lastOf (showsIn c w row.key) (w.database.replayRows P) = some last ∧
            last.version = current.version := by
      intro row hrow hchunks
      have hjoins : row.Joins w.database := joins_of_mem hrow
      obtain ⟨current, hcurrent, hcur, hdocument⟩ :=
        exists_current_row hc hcount hjoins.document hjoins.active
      have hcurrentJoins : current.Joins w.database := joins_of_mem hcurrent
      have hkey : current.key = row.key := by
        have hpk := hcurrentJoins.document_pk
        rw [hdocument, hjoins.document_pk] at hpk
        exact hpk.symm
      have hsome : w.chunksOf c current.version ≠ [] := by
        rcases hshows _ _ (hcurrentJoins.current hcur) with hsome | hothers
        · exact hsome
        · cases hrowCur : row.isCurrent with
          | true =>
            have hsame := (hdocument ▸ hjoins.current hrowCur).unique (hcurrentJoins.current hcur)
            exact hsame ▸ hchunks
          | false =>
            exact absurd (hothers _ (hdocument ▸ hjoins.other hrowCur)) hchunks
      obtain ⟨last, hlast, hversion⟩ := last_of_current hcurrent hcur hsome
      exact ⟨current, hcurrent, hcur, hdocument, last, hkey ▸ hlast, hversion⟩
    refine ⟨fun entry hentry hflagged => ?_, fun d v hv chunk hchunk => ?_,
      fun d v hv chunk hchunk => ?_⟩
    · obtain ⟨row, hrow, chunk, hchunk, hof⟩ := h.entries entry hentry
      obtain ⟨entry', hentry', hof', hflag⟩ := h.chunks row hrow chunk hchunk
      obtain rfl := hof.unique hof' hentry hentry'
      obtain ⟨last, hlast, hid⟩ := hflag.1 hflagged
      obtain ⟨current, hcurrent, hcur, hdocument, last', hlast', hversion⟩ :=
        hcurrentChunks hrow (List.ne_nil_of_mem hchunk)
      obtain rfl : last = last' := Option.some.inj (hlast.symm.trans hlast')
      have hjoins : row.Joins w.database := joins_of_mem hrow
      have hcurrentJoins : current.Joins w.database := joins_of_mem hcurrent
      have hsame : row.version = current.version := by
        refine hc.version_inj _ hjoins.version _ hcurrentJoins.version ?_
        rw [← hid, hversion]
      exact ⟨row.document, row.version, chunk,
        hdocument ▸ hsame ▸ hcurrentJoins.current hcur, hchunk, hof⟩
    · obtain ⟨row, hrow, hcur, rfl, -⟩ := hcurrentRow hv
      obtain ⟨entry, hentry, hof, hflag⟩ := h.chunks row hrow chunk hchunk
      obtain ⟨last, hlast, hversion⟩ := last_of_current hrow hcur (List.ne_nil_of_mem hchunk)
      exact ⟨entry, hentry, hof, hflag.2 ⟨last, hlast, by rw [hversion]⟩⟩
    · obtain ⟨row, hrow, rfl, rfl⟩ := exists_row (P := P) hc hv.document hv.active hv.version
        hv.document_pk hv.completed
      obtain ⟨entry, hentry, hof, hflag⟩ := h.chunks row hrow chunk hchunk
      refine ⟨entry, hentry, hof, ?_⟩
      by_contra hflagged
      obtain ⟨last, hlast, hid⟩ := hflag.1 (Bool.not_eq_false _ ▸ hflagged)
      obtain ⟨current, hcurrent, hcur, hdocument, last', hlast', hversion⟩ :=
        hcurrentChunks hrow (List.ne_nil_of_mem hchunk)
      obtain rfl : last = last' := Option.some.inj (hlast.symm.trans hlast')
      refine hv.other ?_
      rw [← hid, hversion, ← hdocument]
      exact ReplayRow.current_eq hcur

end Currency

/-- **Replay reproduces currency exactly when** no document has a current version without chunks
beside another completed version with some: of the state after every run, and of every replay
into an empty index that returns. -/
theorem replay_currency_iff {platform : Platform} (hP : platform.CollisionFree)
    (chunker : StructuralChunker) (es : List LifecycleEvent) (validDigest : String → Bool)
    (faults : ReplayRow → Faults) :
    let c := markdownComponents platform chunker
    let w := Machine.run (World.live c) {} es
    wp (replayAuthoritative c validDigest faults)
      (fun _ w' => ReproducesCurrency c w w'.index ↔ ShowsCurrent c w) (fun _ _ => True)
      { w with index := ∅ } := by
  intro c w
  have hkept : Kept c w := life_kept hP es
  refine wp_mono (wp_replay_indexed hP (markdown_numbered platform chunker) hkept) ?_
    (fun _ _ _ => trivial)
  rintro _ w' ⟨hindexed, hcount⟩
  exact hindexed.currency_iff hkept.consistent hcount

/-! ## A document whose file is emptied -/

def emptiedRun : List LifecycleEvent := [
  .worker { action := .submit { sampleEvent "a" 0 with sourceVersion := "1" } },
  .worker { action := .deliver "tenant" (samplePlatform.uuid4 2) },
  .worker { action := .submit { sampleEvent "" 1 with sourceVersion := "2" } },
  .worker { action := .deliver "tenant" (samplePlatform.uuid4 8) }]

def emptiedComponents : Components := markdownComponents samplePlatform ⟨2, Nat.two_pos⟩

def emptiedWorld : World := Machine.run (World.live emptiedComponents) {} emptiedRun

theorem replay_currency_emptied : wp (replayAuthoritative emptiedComponents (fun _ => true) fun _ => {})
    (fun _ w' => ReproducesCurrency emptiedComponents emptiedWorld w'.index ↔
      ShowsCurrent emptiedComponents emptiedWorld) (fun _ _ => True)
    { emptiedWorld with index := ∅ } :=
  replay_currency_iff samplePlatform_collisionFree _ _ _ _

/-- What replay does with the rows of its query. -/
def replayOf (c : Components) (db : Database) (rows : List ReplayRow) : ReplayStep ReplaySummary := do
  let activeDocuments := db.documents.rows.countP Document.active
  if rows.countP ReplayRow.isCurrent ≠ activeDocuments then
    throw (.integrity "current version is not restorable")
  let chunkIds ← rows.mapM fun row => replayVersion c (fun _ => true) {} row
  return ⟨activeDocuments, rows.length, chunkIds.flatten.length, chunkIds.flatten⟩

theorem exec_replayAuthoritative {c : Components} {w : World} {rows : List ReplayRow}
    (h : w.database.replayRows c.platform = rows) :
    exec (replayAuthoritative c (fun _ => true) fun _ => {}) { w with index := ∅ } =
      exec (replayOf c w.database rows) { w with index := ∅ } := by
  subst h
  rfl

def emptiedReplay : Except ReplayError ReplaySummary × World :=
  exec (replayOf emptiedComponents emptiedWorld.database
    (emptiedWorld.database.ingestionJobs.rows.filterMap emptiedWorld.database.replayRow))
    { emptiedWorld with index := ∅ }

/-- The rows are found in order. -/
theorem emptiedReplay_eq : exec (replayAuthoritative emptiedComponents (fun _ => true) fun _ => {})
    { emptiedWorld with index := ∅ } = emptiedReplay := by
  have hsorted : (emptiedWorld.database.ingestionJobs.rows.filterMap
      emptiedWorld.database.replayRow).Pairwise
        (fun a b => ReplayRow.le emptiedComponents.platform a b = true) := by decide +kernel
  exact exec_replayAuthoritative (List.mergeSort_of_pairwise hsorted)

/-- **The chunks of the version before keep the flag** when the current one has none. -/
theorem emptied_not_reproduced : ¬ ∀ (platform : Platform) (chunker : StructuralChunker)
    (es : List LifecycleEvent) (validDigest : String → Bool) (faults : ReplayRow → Faults),
    platform.CollisionFree →
      let c := markdownComponents platform chunker
      let w := Machine.run (World.live c) {} es
      wp (replayAuthoritative c validDigest faults)
        (fun _ w' => ReproducesCurrency c w w'.index) (fun _ _ => True) { w with index := ∅ } := by
  intro h
  have hwp := h samplePlatform ⟨2, Nat.two_pos⟩ emptiedRun (fun _ => true) (fun _ => {})
    samplePlatform_collisionFree
  have hok : emptiedReplay.1.isOk = true := by decide +kernel
  have hflagged : emptiedReplay.2.index.rows.any
      (fun e => e.isCurrent && e.documentVersionId == samplePlatform.uuid4 1) = true := by
    decide +kernel
  have hcurrent : emptiedWorld.database.documents.rows.all
      (fun d => d.currentVersionId == some (samplePlatform.uuid4 7)) = true := by decide +kernel
  have hreproduces : ReproducesCurrency emptiedComponents emptiedWorld emptiedReplay.2.index := by
    rcases hrun : emptiedReplay with ⟨_ | summary, w'⟩
    · rw [hrun] at hok
      cases hok
    · exact wp_ok hwp (emptiedReplay_eq.trans hrun)
  obtain ⟨entry, hentry, hboth⟩ := List.any_eq_true.1 hflagged
  obtain ⟨hflag, hversion⟩ := Bool.and_eq_true_iff.1 hboth
  obtain ⟨d, v, chunk, hv, -, hof⟩ := hreproduces.flagged entry hentry hflag
  have hid : d.currentVersionId = some (samplePlatform.uuid4 7) :=
    beq_iff_eq.1 (List.all_eq_true.1 hcurrent d hv.document)
  have hsame : samplePlatform.uuid4 7 = samplePlatform.uuid4 1 := by
    rw [← beq_iff_eq.1 hversion, hof.documentVersionId]
    exact Option.some.inj (hid.symm.trans hv.current)
  have hdistinct := samplePlatform_collisionFree.uuid4 hsame
  omega

end GroundedOps.Ingestion
