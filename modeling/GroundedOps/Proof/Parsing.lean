import GroundedOps.Spec.Parsing
import Mathlib.Data.List.GetD

/-!
# Parsing and chunking lose nothing

* `Lossless`: **the sections tile the normalized text, so do the chunks and so do their spans**,
  and each of them holds its slice.
* `parseText_tiled`: the loop over the lines keeps a tiling of what it has read, up to the
  section it is in.
* `chunkRanges_tiles`: the loop over the sections keeps a tiling of what it has read, up to the
  pending range.
* `chunk_lossless`: every document that is parsed is chunked without a loss.
-/

namespace GroundedOps.Ingestion

open Tiling

def ParsedSection.range (parsed : ParsedSection) : ℕ × ℕ := (parsed.start, parsed.end)

def ProvenanceSpan.range (span : ProvenanceSpan) : ℕ × ℕ := (span.start, span.end)

def Chunk.range (chunk : Chunk) : ℕ × ℕ := (chunk.start, chunk.end)

/-- The span lies in the section, and says of it what it says of itself. -/
structure ProvenanceSpan.Within (span : ProvenanceSpan) (parsed : ParsedSection) : Prop where
  start_le : parsed.start ≤ span.start
  end_le : span.end ≤ parsed.end
  title : span.title = parsed.title
  level : span.level = parsed.level

/-- The sections tile the normalized text, and hold their slices. -/
structure ParsedDocument.Tiled (document : ParsedDocument) : Prop where
  sections : Tiles 0 document.normalizedText.length (document.sections.map ParsedSection.range)
  sectionTexts : ∀ parsed ∈ document.sections,
    parsed.text = sliceText document.normalizedText parsed.start parsed.end

/-- **Nothing of the normalized text is lost or moved.** -/
structure Lossless (document : ParsedDocument) (chunks : List CountedChunk) : Prop extends
    document.Tiled where
  ordinals : chunks.map (fun chunk => chunk.ordinal) = List.range chunks.length
  ranges : Tiles 0 document.normalizedText.length (chunks.map fun chunk => chunk.range)
  chunkTexts : ∀ chunk ∈ chunks,
    chunk.text = sliceText document.normalizedText chunk.start chunk.end
  texts : String.join (chunks.map fun chunk => chunk.text) = document.normalizedText
  spans : Tiles 0 document.normalizedText.length
    ((chunks.flatMap fun chunk => chunk.spans).map ProvenanceSpan.range)
  provenance : ∀ chunk ∈ chunks, ∀ span ∈ chunk.spans, ∃ parsed ∈ document.sections, span.Within parsed

/-! ## Lines -/

theorem splitLinesFrom_flatten {line text : List Char} :
    (splitLinesFrom line text).flatten = line.reverse ++ text := by
  fun_induction splitLinesFrom line text with
  | case1 => rfl
  | case2 line hline => simp
  | case3 line rest ih => simp [ih]
  | case4 line c rest _ hbreak ih => simp [ih]
  | case5 line c rest _ hbreak ih => simp [ih]

theorem splitLines_flatten {text : List Char} : (splitLines text).flatten = text :=
  splitLinesFrom_flatten

/-! ## Sections -/

namespace MarkdownParser

/-- **The sections tile the text up to the section that is being read**, and hold their slices. -/
structure ParseState.Tiled (normalized : String) (state : ParseState) : Prop where
  sections : Tiles 0 state.sectionStart (state.sections.map ParsedSection.range)
  start_le : state.sectionStart ≤ state.cursor
  texts : ∀ parsed ∈ state.sections, parsed.text = sliceText normalized parsed.start parsed.end

variable {normalized : String} {state : ParseState}

theorem ParseState.Tiled.flush (h : state.Tiled normalized) :
    Tiles 0 state.cursor ((state.flush normalized).map ParsedSection.range) ∧
      ∀ parsed ∈ state.flush normalized, parsed.text = sliceText normalized parsed.start parsed.end := by
  unfold ParseState.flush
  split
  · rename_i hlt
    constructor
    · rw [List.map_append]
      exact h.sections.concat hlt
    · intro parsed hparsed
      rcases List.mem_append.1 hparsed with hold | hnew
      · exact h.texts parsed hold
      · rw [List.mem_singleton.1 hnew]
        rfl
  · rename_i hge
    have hstart : state.sectionStart = state.cursor := le_antisymm h.start_le (not_lt.1 hge)
    rw [← hstart]
    exact ⟨h.sections, h.texts⟩

theorem ParseState.Tiled.readLine (h : state.Tiled normalized) (line : List Char) :
    (readLine normalized state line).Tiled normalized ∧
      (MarkdownParser.readLine normalized state line).cursor = state.cursor + line.length := by
  have hmove : ∀ state' : ParseState, state'.Tiled normalized →
      { state' with cursor := state'.cursor + line.length : ParseState }.Tiled normalized :=
    fun state' h' => ⟨h'.sections, h'.start_le.trans (Nat.le_add_right _ _), h'.texts⟩
  unfold MarkdownParser.readLine
  dsimp only
  split
  · split
    · exact ⟨hmove _ ⟨h.sections, h.start_le, h.texts⟩, rfl⟩
    · split
      · exact ⟨hmove _ ⟨h.sections, h.start_le, h.texts⟩, rfl⟩
      · exact ⟨hmove _ h, rfl⟩
  · split
    · split
      · -- a heading starts a section
        exact ⟨hmove _ ⟨h.flush.1, le_refl _, h.flush.2⟩, rfl⟩
      · exact ⟨hmove _ h, rfl⟩
    · exact ⟨hmove _ h, rfl⟩

theorem ParseState.Tiled.readLines (h : state.Tiled normalized) (lines : List (List Char)) :
    (lines.foldl (MarkdownParser.readLine normalized) state).Tiled normalized ∧
      (lines.foldl (MarkdownParser.readLine normalized) state).cursor =
        state.cursor + lines.flatten.length := by
  induction lines generalizing state with
  | nil => exact ⟨h, rfl⟩
  | cons line lines ih =>
    obtain ⟨hread, hcursor⟩ := h.readLine line
    obtain ⟨htiled, hend⟩ := ih hread
    refine ⟨htiled, ?_⟩
    rw [List.foldl_cons, hend, hcursor, List.flatten_cons, List.length_append]
    omega

/-- **The sections of what is parsed tile its text.** -/
theorem parseText_tiled (text : String) : (parseText text).Tiled := by
  unfold parseText
  dsimp only
  generalize String.ofList (normalizeNewlines text.toList) = normalized
  have hinit : ({} : ParseState).Tiled normalized := ⟨rfl, le_refl _, fun _ h => by cases h⟩
  obtain ⟨htiled, hcursor⟩ := hinit.readLines (splitLines normalized.toList)
  rw [splitLines_flatten, String.length_toList] at hcursor
  have hflush := htiled.flush
  rw [hcursor, Nat.zero_add] at hflush
  exact ⟨hflush.1, hflush.2⟩

end MarkdownParser

/-! ## Chunks -/

namespace StructuralChunker

variable {text : String} {start stop : ℕ} {chunker : StructuralChunker}

theorem tokenStarts_sorted (inToken : Bool) (position : ℕ) (rest : List Char) :
    (tokenStarts inToken position rest).Pairwise (· < ·) ∧
      ∀ t ∈ tokenStarts inToken position rest, position ≤ t ∧ t < position + rest.length := by
  fun_induction tokenStarts inToken position rest with
  | case1 => exact ⟨List.Pairwise.nil, fun _ h => by cases h⟩
  | case2 inToken position c rest hspace ih =>
    refine ⟨ih.1, fun t ht => ?_⟩
    obtain ⟨hge, hlt⟩ := ih.2 t ht
    rw [List.length_cons]
    omega
  | case3 position c rest hspace ih =>
    refine ⟨ih.1, fun t ht => ?_⟩
    obtain ⟨hge, hlt⟩ := ih.2 t ht
    rw [List.length_cons]
    omega
  | case4 inToken position c rest hspace hout ih =>
    constructor
    · exact List.pairwise_cons.2 ⟨fun t ht => (ih.2 t ht).1, ih.1⟩
    · intro t ht
      rw [List.length_cons]
      rcases List.mem_cons.1 ht with rfl | ht
      · omega
      · obtain ⟨hge, hlt⟩ := ih.2 t ht
        omega

/-- The tokens of a range start in it, one after the other. -/
theorem tokens_sorted (text : String) (hle : start ≤ stop) :
    (tokens text start stop).Pairwise (· < ·) ∧ ∀ t ∈ tokens text start stop, start ≤ t ∧ t < stop := by
  obtain ⟨hsorted, hin⟩ := tokenStarts_sorted false start (slice text.toList start stop)
  refine ⟨hsorted, fun t ht => ?_⟩
  obtain ⟨hge, hlt⟩ := hin t ht
  have hlength : (slice text.toList start stop).length ≤ stop - start := List.length_take_le _ _
  omega

/-- The steps from a positive one are increasing and before the end. -/
theorem steps_sorted {step : ℕ} (n : ℕ) (hstep : 0 < step) :
    (steps step n step).Pairwise (· < ·) ∧ ∀ offset ∈ steps step n step, 0 < offset ∧ offset < n := by
  unfold steps
  refine ⟨List.pairwise_lt_range' step hstep, fun offset hoffset => ?_⟩
  obtain ⟨i, hi, rfl⟩ := List.mem_range'.1 hoffset
  have hmul : (i + 1) * step ≤ n - step + step - 1 := (Nat.le_div_iff_mul_le hstep).1 hi
  rw [Nat.add_mul, Nat.one_mul, Nat.mul_comm] at hmul
  omega

/-- Cutting a range at increasing boundaries in it. -/
theorem cut_tiles (boundary : ℕ → ℕ) {offsets : List ℕ} {ranges : List (ℕ × ℕ)} {cursor : ℕ}
    (h : Tiles start cursor ranges) (hcursor : cursor < stop)
    (hsorted : (offsets.map boundary).Pairwise (· < ·))
    (hin : ∀ offset ∈ offsets, cursor < boundary offset ∧ boundary offset < stop) :
    let cut := offsets.foldl (fun (ranges, cursor) offset =>
      (ranges ++ [(cursor, boundary offset)], boundary offset)) (ranges, cursor)
    Tiles start stop (cut.1 ++ [(cut.2, stop)]) := by
  induction offsets generalizing ranges cursor with
  | nil => exact h.concat hcursor
  | cons offset offsets ih =>
    obtain ⟨hfirst, hlast⟩ := hin offset List.mem_cons_self
    obtain ⟨hnext, hrest⟩ := List.pairwise_cons.1 hsorted
    refine ih (h.concat hfirst) hlast hrest fun later hlater => ?_
    exact ⟨hnext _ (List.mem_map_of_mem hlater), (hin later (List.mem_cons_of_mem _ hlater)).2⟩

/-- **The split ranges tile the range.** -/
theorem splitRange_tiles (h : start < stop) : Tiles start stop (chunker.splitRange text start stop) := by
  unfold splitRange
  dsimp only
  split
  · exact tiles_singleton h
  · obtain ⟨hsorted, hin⟩ := tokens_sorted text h.le
    generalize tokens text start stop = tokens at hsorted hin
    obtain ⟨hsteps, hoffsets⟩ := steps_sorted tokens.length chunker.maxTokens_pos
    have hlt : ∀ i j, i < j → j < tokens.length → tokens.getD i stop < tokens.getD j stop := by
      intro i j hij hj
      rw [List.getD_eq_getElem _ _ (hij.trans hj), List.getD_eq_getElem _ _ hj]
      exact List.pairwise_iff_getElem.1 hsorted i j (hij.trans hj) hj hij
    refine cut_tiles (fun offset => tokens.getD offset stop) rfl h ?_ ?_
    · rw [List.pairwise_map]
      exact hsteps.imp_of_mem fun hi hj hij => hlt _ _ hij (hoffsets _ hj).2
    · intro offset hoffset
      obtain ⟨hpos, hbound⟩ := hoffsets offset hoffset
      have hzero : 0 < tokens.length := hpos.trans hbound
      have hfirst : start ≤ tokens.getD 0 stop := by
        rw [List.getD_eq_getElem _ _ hzero]
        exact (hin _ (List.getElem_mem hzero)).1
      refine ⟨hfirst.trans_lt (hlt 0 offset hpos hbound), ?_⟩
      rw [List.getD_eq_getElem _ _ hbound]
      exact (hin _ (List.getElem_mem hbound)).2

/-- **The ranges, with the pending one, tile the text up to `stop`.** -/
def ChunkState.Tiled (stop : ℕ) (state : ChunkState) : Prop :=
  match state.pendingStart with
  | none => Tiles 0 stop state.ranges
  | some pendingStart =>
    Tiles 0 pendingStart state.ranges ∧ pendingStart < stop ∧ state.pendingEnd = stop

variable {state : ChunkState}

theorem ChunkState.Tiled.flush (h : state.Tiled stop) : Tiles 0 stop state.flush := by
  unfold ChunkState.Tiled at h
  unfold ChunkState.flush
  split
  · rename_i hnone
    simpa only [hnone] using h
  · rename_i pendingStart hsome
    simp only [hsome] at h
    rw [h.2.2]
    exact h.1.concat h.2.1

theorem ChunkState.Tiled.readSection {parsed : ParsedSection} (h : state.Tiled parsed.start)
    (hlt : parsed.start < parsed.end) : (chunker.readSection text state parsed).Tiled parsed.end := by
  unfold StructuralChunker.readSection
  split
  · exact h.flush.append (splitRange_tiles hlt)
  · unfold ChunkState.Tiled at h
    split
    · rename_i hnone
      simp only [hnone] at h
      exact ⟨h, hlt, rfl⟩
    · rename_i pendingStart hsome
      simp only [hsome] at h
      obtain ⟨hranges, hpending, hend⟩ := h
      split
      · rw [hend]
        exact ⟨hranges.concat hpending, hlt, rfl⟩
      · unfold ChunkState.Tiled
        simp only [hsome]
        exact ⟨hranges, hpending.trans hlt, trivial⟩

theorem ChunkState.Tiled.readSections {sections : List ParsedSection} (h : state.Tiled start)
    (hsections : Tiles start stop (sections.map ParsedSection.range)) :
    (sections.foldl (chunker.readSection text) state).Tiled stop := by
  induction sections generalizing state start with
  | nil =>
    cases hsections
    exact h
  | cons parsed sections ih =>
    obtain ⟨rfl, hlt, hrest⟩ := hsections
    exact ih (h.readSection hlt) hrest

variable {document : ParsedDocument}

/-- **The ranges of the chunks tile what the sections tile.** -/
theorem chunkRanges_tiles (h : Tiles 0 stop (document.sections.map ParsedSection.range)) :
    Tiles 0 stop (chunker.chunkRanges document) := by
  have hinit : ({} : ChunkState).Tiled 0 := rfl
  exact (hinit.readSections h).flush

/-- The spans of a range are the parts of the sections that lie in it. -/
theorem spans_range : (spans document start stop).map ProvenanceSpan.range =
    clip start stop (document.sections.map ParsedSection.range) := by
  unfold spans clip
  rw [List.map_map, List.filter_map, List.map_map]
  rfl

/-- What does not depend on the ordinal of a chunk. -/
theorem chunk_map {β : Type} {f : CountedChunk → β} {g : ℕ × ℕ → β}
    (hfg : ∀ ordinal range, f (buildChunk document ordinal range.1 range.2) = g range) :
    (chunker.chunk document).map f = (chunker.chunkRanges document).map g := by
  unfold chunk
  refine List.ext_getElem (by simp) fun i _ _ => ?_
  simp only [List.getElem_map, List.getElem_mapIdx]
  exact hfg i _

/-- A span of a chunk lies in the section that it is made of. -/
theorem mem_spans {span : ProvenanceSpan} (h : span ∈ spans document start stop) :
    ∃ parsed ∈ document.sections, span.Within parsed := by
  obtain ⟨parsed, hparsed, rfl⟩ := List.mem_map.1 h
  exact ⟨parsed, (List.mem_filter.1 hparsed).1,
    ⟨le_max_right _ _, min_le_right _ _, rfl, rfl⟩⟩

/-- **A document whose sections tile its text is chunked without a loss.** -/
theorem chunk_lossless (h : document.Tiled) : Lossless document (chunker.chunk document) := by
  have hranges : Tiles 0 document.normalizedText.length (chunker.chunkRanges document) :=
    chunkRanges_tiles h.sections
  have hmem : ∀ chunk ∈ chunker.chunk document, ∃ ordinal start stop,
      chunk = buildChunk document ordinal start stop := by
    intro chunk hchunk
    obtain ⟨ordinal, _, rfl⟩ := List.mem_mapIdx.1 hchunk
    exact ⟨ordinal, _, _, rfl⟩
  constructor
  case toTiled => exact h
  case ordinals =>
    refine List.ext_getElem (by simp) fun i hi hi' => ?_
    simp only [List.getElem_map, List.getElem_range]
    unfold chunk
    rw [List.getElem_mapIdx]
    rfl
  case ranges =>
    rw [chunk_map (g := id) fun _ _ => rfl, List.map_id]
    exact hranges
  case chunkTexts =>
    intro chunk hchunk
    obtain ⟨ordinal, start, stop, rfl⟩ := hmem chunk hchunk
    rfl
  case texts =>
    rw [chunk_map (f := fun chunk => chunk.text)
      (g := fun range => sliceText document.normalizedText range.1 range.2) fun _ _ => rfl]
    apply String.toList_injective
    rw [String.toList_join, List.flatMap_map]
    -- the slices of ranges that tile the text are the text
    have hslices := hranges.flatten document.normalizedText.toList
    rw [← String.length_toList, slice_length] at hslices
    simpa only [sliceText, String.toList_ofList] using hslices
  case spans =>
    have hspans : (chunker.chunk document).flatMap (fun chunk => chunk.spans) =
        (chunker.chunkRanges document).flatMap fun range => spans document range.1 range.2 := by
      rw [List.flatMap_def, List.flatMap_def,
        chunk_map (f := fun chunk => chunk.spans)
          (g := fun range => spans document range.1 range.2) fun _ _ => rfl]
    rw [hspans, List.map_flatMap]
    refine hranges.flatMap fun range hrange => ?_
    obtain ⟨hstart, hlt, hend⟩ := hranges.nonempty_of_mem hrange
    rw [spans_range]
    exact h.sections.clip hstart hlt hend
  case provenance =>
    intro chunk hchunk span hspan
    obtain ⟨ordinal, start, stop, rfl⟩ := hmem chunk hchunk
    exact mem_spans hspan

end StructuralChunker

/-- What is parsed is some text. -/
theorem parseText_of_parse {content : ByteArray} {document : ParsedDocument}
    (h : MarkdownParser.parse content = some document) :
    ∃ text, MarkdownParser.parseText text = document := by
  unfold MarkdownParser.parse at h
  rw [Option.ite_none_left_eq_some, Option.map_eq_some_iff] at h
  obtain ⟨-, text, -, hparsed⟩ := h
  exact ⟨text, hparsed⟩

/-- **Parsing and chunking lose nothing**, for every content that is parsed and every bound on the
tokens of a chunk. -/
theorem parse_chunk_lossless (chunker : StructuralChunker) (content : ByteArray)
    (document : ParsedDocument) (h : MarkdownParser.parse content = some document) :
    Lossless document (chunker.chunk document) := by
  obtain ⟨text, rfl⟩ := parseText_of_parse h
  exact StructuralChunker.chunk_lossless (MarkdownParser.parseText_tiled text)

/-- `# A\r\nx\n## B\n`, a heading after a line of text. -/
def sampleMarkdown : ByteArray := ⟨#[35, 32, 65, 13, 10, 120, 10, 35, 35, 32, 66, 10]⟩

def sampleParsed : ParsedDocument where
  parserVersion := "markdown-1"
  normalizedText := "# A\nx\n## B\n"
  sections := [⟨some "A", 1, "# A\nx\n", 0, 6⟩, ⟨some "B", 2, "## B\n", 6, 11⟩]

/-- At most two tokens in a chunk. -/
def pairChunker : StructuralChunker := ⟨2, Nat.two_pos⟩

theorem parse_chunk_lossless_sample :
    (pairChunker.chunk sampleParsed).map (fun chunk => chunk.text) = ["# A\n", "x\n", "## B\n"] ∧
      Lossless sampleParsed (pairChunker.chunk sampleParsed) :=
  ⟨by decide +kernel, parse_chunk_lossless pairChunker sampleMarkdown sampleParsed (by decide +kernel)⟩

end GroundedOps.Ingestion
