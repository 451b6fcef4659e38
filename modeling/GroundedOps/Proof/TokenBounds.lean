import GroundedOps.Lib.Machine
import GroundedOps.Proof.Sections
import GroundedOps.Spec.Embedder

/-!
# Chunks hold whole tokens, and not too many

* `tokens_split`: the tokens of two neighbouring ranges are those of both, if no token goes on
  across the place between them.
* `splitRange_filled`: the parts of an oversized section have at least one token and at most as
  many as a chunk may have.
* `chunk_bounded`: **every chunk respects the bound, no boundary cuts a token, and the counts sum
  to the tokens of the text.**
* `chunks_filled_iff`: **a chunk is blank exactly if the document opens with a blank section and the
  next one is oversized.**
-/

namespace GroundedOps.Ingestion

open Tiling Blocks

/-- A token goes on across the place: the characters before and after it belong to one. -/
def CutsToken (text : List Char) (place : ℕ) : Prop :=
  0 < place ∧ ∃ c d, text[place - 1]? = some c ∧ text[place]? = some d ∧
    isSpace c = false ∧ isSpace d = false

/-- **Chunks of whole tokens, at most `maxTokens` of them in each.** -/
structure Bounded (maxTokens : ℕ) (document : ParsedDocument) (chunks : List CountedChunk) : Prop where
  bounded : ∀ chunk ∈ chunks, chunk.tokenCount ≤ maxTokens
  whole : ∀ chunk ∈ chunks, ¬ CutsToken document.normalizedText.toList chunk.start ∧
    ¬ CutsToken document.normalizedText.toList chunk.end
  total : (chunks.map fun chunk => chunk.tokenCount).sum =
    StructuralChunker.count document.normalizedText 0 document.normalizedText.length

/-- **Every chunk has a token**, so the embedder takes none of them for blank. -/
structure ChunksFilled (chunks : List CountedChunk) : Prop where
  counted : ∀ chunk ∈ chunks, 0 < chunk.tokenCount
  embeddable : Embedder.hasBlank (chunks.map fun chunk => chunk.text) = false

/-- The document opens with a section of white space, and the next section has more tokens than a
chunk may have. -/
def BlankOpening (chunker : StructuralChunker) (document : ParsedDocument) : Prop :=
  ∃ first second rest, document.sections = first :: second :: rest ∧ isBlank first.text = true ∧
    chunker.maxTokens < StructuralChunker.count document.normalizedText second.start second.end

/-! ## Tokens of neighbouring ranges -/

namespace StructuralChunker

/-- The last character read belongs to a token. -/
def endsInToken (inToken : Bool) (read : List Char) : Bool :=
  match read.getLast? with
  | none => inToken
  | some c => !isSpace c

theorem endsInToken_cons {inToken : Bool} {c : Char} {rest : List Char} :
    endsInToken inToken (c :: rest) = endsInToken (!isSpace c) rest := by
  unfold endsInToken
  rw [List.getLast?_cons]
  cases rest.getLast? <;> rfl

theorem tokenStarts_append (inToken : Bool) (position : ℕ) (read rest : List Char) :
    tokenStarts inToken position (read ++ rest) = tokenStarts inToken position read ++
      tokenStarts (endsInToken inToken read) (position + read.length) rest := by
  fun_induction tokenStarts inToken position read with
  | case1 => simp [endsInToken]
  | case2 inToken position c read hspace ih =>
    rw [List.cons_append, tokenStarts, if_pos hspace, ih, endsInToken_cons, hspace, List.length_cons]
    congr 2
    omega
  | case3 position c read hspace ih =>
    rw [Bool.not_eq_true] at hspace
    rw [List.cons_append, tokenStarts, hspace, endsInToken_cons, hspace, List.length_cons]
    simp only [Bool.false_eq_true, if_false, if_true, ih, Bool.not_false]
    congr 2
    omega
  | case4 inToken position c read hspace hout ih =>
    rw [Bool.not_eq_true] at hspace hout
    rw [List.cons_append, tokenStarts, hspace, endsInToken_cons, hspace, hout, List.length_cons]
    simp only [Bool.false_eq_true, if_false, ih, Bool.not_false, List.cons_append]
    congr 3
    omega

/-- A token that has begun matters only if the next character goes on with it. -/
theorem tokenStarts_of_space {inToken : Bool} {position : ℕ} {rest : List Char}
    (h : inToken = true → ∀ c, rest.head? = some c → isSpace c = true) :
    tokenStarts inToken position rest = tokenStarts false position rest := by
  cases inToken with
  | false => rfl
  | true =>
    cases rest with
    | nil => rfl
    | cons c rest =>
      have hspace : isSpace c = true := h rfl c rfl
      simp [tokenStarts, hspace]

/-- A token that has begun does not begin again. -/
theorem lt_of_mem_tokenStarts_true {position t : ℕ} {rest : List Char}
    (h : t ∈ tokenStarts true position rest) : position < t := by
  cases rest with
  | nil => cases h
  | cons c rest =>
    rw [tokenStarts] at h
    split at h
    · exact ((tokenStarts_sorted false (position + 1) rest).2 t h).1
    · exact ((tokenStarts_sorted true (position + 1) rest).2 t h).1

/-- What stands before a later position stands one place further in the longer text. -/
theorem getElem?_before {position t : ℕ} {c : Char} {rest : List Char} (h : position + 1 < t) :
    (c :: rest)[t - position - 1]? = rest[t - (position + 1) - 1]? := by
  have hindex : t - position - 1 = (t - (position + 1) - 1) + 1 := by omega
  rw [hindex, List.getElem?_cons_succ]

/-- Before a token that is not the first character there is white space. -/
theorem exists_space_of_mem_tokenStarts {inToken : Bool} {position t : ℕ} {rest : List Char}
    (h : t ∈ tokenStarts inToken position rest) (hlt : position < t) :
    ∃ c, rest[t - position - 1]? = some c ∧ isSpace c = true := by
  fun_induction tokenStarts inToken position rest with
  | case1 => cases h
  | case2 inToken position c rest hspace ih =>
    rcases Nat.lt_or_ge (position + 1) t with hnext | hfirst
    · obtain ⟨d, hd, hdspace⟩ := ih h hnext
      exact ⟨d, (getElem?_before hnext).trans hd, hdspace⟩
    · have hindex : t - position - 1 = 0 := by omega
      exact ⟨c, by rw [hindex]; rfl, hspace⟩
  | case3 position c rest hspace ih =>
    have hnext : position + 1 < t := lt_of_mem_tokenStarts_true h
    obtain ⟨d, hd, hdspace⟩ := ih h hnext
    exact ⟨d, (getElem?_before hnext).trans hd, hdspace⟩
  | case4 inToken position c rest hspace hout ih =>
    rcases List.mem_cons.1 h with rfl | h
    · omega
    · have hnext : position + 1 < t := lt_of_mem_tokenStarts_true h
      obtain ⟨d, hd, hdspace⟩ := ih h hnext
      exact ⟨d, (getElem?_before hnext).trans hd, hdspace⟩

theorem tokenStarts_eq_nil {position : ℕ} {rest : List Char} :
    tokenStarts false position rest = [] ↔ rest.all isSpace = true := by
  induction rest generalizing position with
  | nil => simp [tokenStarts]
  | cons c rest ih =>
    rw [tokenStarts, List.all_cons]
    cases hspace : isSpace c with
    | false => simp
    | true => simpa using ih

/-! ## Slices -/

theorem getElem?_slice {l : List Char} {a b i : ℕ} (h : a + i < b) : (slice l a b)[i]? = l[a + i]? := by
  unfold slice
  rw [List.getElem?_take_of_lt (by omega), List.getElem?_drop]

theorem length_slice {l : List Char} {a b : ℕ} (h : b ≤ l.length) : (slice l a b).length = b - a := by
  unfold slice
  rw [List.length_take, List.length_drop]
  omega

variable {text : String} {a b c : ℕ}

theorem tokens_split (hab : a ≤ b) (hbc : b ≤ c) (hc : c ≤ text.length)
    (hwhole : ¬ CutsToken text.toList b) : tokens text a c = tokens text a b ++ tokens text b c := by
  have hlength : text.toList.length = text.length := String.length_toList
  unfold tokens
  rw [← slice_append hab hbc, tokenStarts_append, length_slice (by omega), Nat.add_sub_cancel' hab]
  congr 1
  apply tokenStarts_of_space
  intro hends d hhead
  by_contra hspace
  apply hwhole
  -- the first slice ends in a character of the same token
  have hlt : a < b := by
    rcases Nat.lt_or_ge a b with hlt | hge
    · exact hlt
    · have hempty : slice text.toList a b = [] := by
        apply List.eq_nil_of_length_eq_zero
        rw [length_slice (by omega)]
        omega
      rw [hempty] at hends
      cases hends
  have hbc' : b < c := by
    rcases Nat.lt_or_ge b c with hlt | hge
    · exact hlt
    · have hempty : slice text.toList b c = [] := by
        apply List.eq_nil_of_length_eq_zero
        rw [length_slice (by omega)]
        omega
      rw [hempty] at hhead
      cases hhead
  have hafter : text.toList[b]? = some d := by
    rw [List.head?_eq_getElem?, getElem?_slice (by omega)] at hhead
    exact hhead
  have hlast : (slice text.toList a b).getLast? = text.toList[b - 1]? := by
    rw [List.getLast?_eq_getElem?, length_slice (by omega), getElem?_slice (by omega)]
    congr 1
    omega
  unfold endsInToken at hends
  rw [hlast] at hends
  cases hbefore : text.toList[b - 1]? with
  | none =>
    rw [hbefore] at hends
    cases hends
  | some e =>
    rw [hbefore] at hends
    exact ⟨by omega, e, d, hbefore, hafter, by simpa using hends, by simpa using hspace⟩

theorem count_append (hab : a ≤ b) (hbc : b ≤ c) (hc : c ≤ text.length)
    (hwhole : ¬ CutsToken text.toList b) : count text a c = count text a b + count text b c := by
  unfold count
  rw [tokens_split hab hbc hc hwhole, List.length_append]

theorem count_eq_zero : count text a b = 0 ↔ isBlank (sliceText text a b) = true := by
  unfold count tokens isBlank sliceText
  rw [List.length_eq_zero_iff, tokenStarts_eq_nil, String.toList_ofList]

/-- **Cutting at a token that is not the first.** -/
theorem tokens_at {i : ℕ} (hac : a ≤ c) (hc : c ≤ text.length) (hi : 0 < i)
    (hb : (tokens text a c)[i]? = some b) :
    a < b ∧ b < c ∧ ¬ CutsToken text.toList b ∧ tokens text a b = (tokens text a c).take i ∧
      tokens text b c = (tokens text a c).drop i := by
  obtain ⟨hsorted, hin⟩ := tokens_sorted text hac
  obtain ⟨hlt, hget⟩ := List.getElem?_eq_some_iff.1 hb
  have hmem : b ∈ tokens text a c := List.mem_of_getElem? hb
  have hzero : 0 < (tokens text a c).length := by omega
  have hfirst : a ≤ (tokens text a c)[0] := (hin _ (List.getElem_mem hzero)).1
  have hless : (tokens text a c)[0] < (tokens text a c)[i] :=
    List.pairwise_iff_getElem.1 hsorted 0 i hzero hlt hi
  have hab : a < b := by omega
  have hbc : b < c := (hin b hmem).2
  have hwhole : ¬ CutsToken text.toList b := by
    obtain ⟨d, hd, hspace⟩ := exists_space_of_mem_tokenStarts hmem hab
    rw [getElem?_slice (by omega)] at hd
    have hindex : a + (b - a - 1) = b - 1 := by omega
    rw [hindex] at hd
    rintro ⟨-, e, -, he, -, hout, -⟩
    rw [hd] at he
    cases he
    rw [hspace] at hout
    cases hout
  -- the cut is at a token, so the tokens of the two parts are those of the whole
  have hsplit := tokens_split hab.le hbc.le hc hwhole
  have hleft := (tokens_sorted text hab.le).2
  have hright := (tokens_sorted text hbc.le).2
  have hlength : (tokens text a b).length = i := by
    rcases Nat.lt_trichotomy (tokens text a b).length i with hshort | heq | hlong
    · -- the first token of the second part would be before its start
      have hj : (tokens text a b).length < (tokens text a c).length := by omega
      have hearlier : (tokens text a c)[(tokens text a b).length] < (tokens text a c)[i] :=
        List.pairwise_iff_getElem.1 hsorted _ i hj hlt hshort
      have hthere : (tokens text a c)[(tokens text a b).length] ∈ tokens text b c := by
        have hget' : (tokens text a c)[(tokens text a b).length]? = (tokens text b c)[0]? := by
          rw [hsplit, List.getElem?_append_right le_rfl, Nat.sub_self]
        rw [List.getElem?_eq_getElem hj] at hget'
        exact List.mem_of_getElem? hget'.symm
      have hge := (hright _ hthere).1
      omega
    · exact heq
    · have hthere : b ∈ tokens text a b := by
        rw [hsplit, List.getElem?_append_left hlong] at hb
        exact List.mem_of_getElem? hb
      have := (hleft b hthere).2
      omega
  refine ⟨hab, hbc, hwhole, ?_, ?_⟩
  · rw [hsplit, List.take_left' hlength]
  · rw [hsplit, List.drop_left' hlength]

/-! ## Ranges -/

variable {chunker : StructuralChunker} {start stop : ℕ} {range : ℕ × ℕ}

/-- A range of whole tokens, at most `maxTokens` of them. -/
structure Fits (maxTokens : ℕ) (text : String) (range : ℕ × ℕ) : Prop where
  bounded : count text range.1 range.2 ≤ maxTokens
  start : ¬ CutsToken text.toList range.1
  stop : ¬ CutsToken text.toList range.2

/-- The parts of an oversized range, from the cut at token `s - maxTokens` on. -/
theorem cut_filled (chunker : StructuralChunker) (hstop : stop ≤ text.length)
    (hend : ¬ CutsToken text.toList stop) (k s : ℕ) (ranges : List (ℕ × ℕ)) (cursor : ℕ)
    (hcursor : start ≤ cursor ∧ cursor ≤ stop) (hwhole : ¬ CutsToken text.toList cursor)
    (htokens : tokens text cursor stop = (tokens text start stop).drop (s - chunker.maxTokens))
    (hs : chunker.maxTokens ≤ s) (hbefore : s - chunker.maxTokens < (tokens text start stop).length)
    (hcover : (tokens text start stop).length ≤ s + k * chunker.maxTokens)
    (hin : ∀ offset ∈ List.range' s k chunker.maxTokens, offset < (tokens text start stop).length) :
    let cut := (List.range' s k chunker.maxTokens).foldl (fun (ranges, cursor) offset =>
      let boundary := (tokens text start stop).getD offset stop
      (ranges ++ [(cursor, boundary)], boundary)) (ranges, cursor)
    ∀ range ∈ cut.1 ++ [(cut.2, stop)],
      range ∈ ranges ∨ Fits chunker.maxTokens text range ∧ 0 < count text range.1 range.2 := by
  have hpos := chunker.maxTokens_pos
  -- on the offsets that are left; the part from the cursor on holds the tokens past the last cut
  induction k generalizing s ranges cursor with
  | zero =>
    intro cut range hrange
    rcases List.mem_append.1 hrange with hold | hlast
    · exact Or.inl hold
    · rw [List.mem_singleton.1 hlast]
      -- the last part takes what is left, which the cover bounds
      have hcount : count text cursor stop = (tokens text start stop).length - (s - chunker.maxTokens) := by
        unfold count
        rw [htokens, List.length_drop]
      refine Or.inr ⟨⟨?_, hwhole, hend⟩, ?_⟩
      · show count text cursor stop ≤ chunker.maxTokens
        omega
      · show 0 < count text cursor stop
        omega
  | succ k ih =>
    rw [List.range'_succ, List.foldl_cons]
    have hlt : s < (tokens text start stop).length := by
      apply hin s
      rw [List.range'_succ]
      exact List.mem_cons_self
    have hat : (tokens text cursor stop)[chunker.maxTokens]? = some ((tokens text start stop).getD s stop) := by
      rw [htokens, List.getElem?_drop, Nat.sub_add_cancel hs, List.getD_eq_getElem?_getD,
        List.getElem?_eq_getElem hlt]
      rfl
    obtain ⟨hcut, hcutstop, hwhole', htake, hdrop⟩ := tokens_at hcursor.2 hstop hpos hat
    have hrest : tokens text ((tokens text start stop).getD s stop) stop =
        (tokens text start stop).drop (s + chunker.maxTokens - chunker.maxTokens) := by
      rw [hdrop, htokens, List.drop_drop]
      congr 1
      omega
    have hcount : count text cursor ((tokens text start stop).getD s stop) = chunker.maxTokens := by
      unfold count
      rw [htake, htokens, List.length_take, List.length_drop]
      omega
    intro cut range hrange
    have htail := ih (s + chunker.maxTokens)
      (ranges ++ [(cursor, (tokens text start stop).getD s stop)]) _ ⟨by omega, hcutstop.le⟩ hwhole' hrest (by omega) (by omega)
      (by rw [Nat.add_mul, Nat.one_mul] at hcover; omega)
      (fun offset hoffset => hin offset (by rw [List.range'_succ]; exact List.mem_cons_of_mem _ hoffset))
      range hrange
    rcases htail with hold | hnew
    · rcases List.mem_append.1 hold with hold | hfirst
      · exact Or.inl hold
      · rw [List.mem_singleton.1 hfirst]
        exact Or.inr ⟨⟨hcount.le, hwhole, hwhole'⟩, by rw [hcount]; exact hpos⟩
    · exact Or.inr hnew

/-- **The parts of an oversized range** have at least one token each, and not too many. -/
theorem splitRange_filled (hle : start ≤ stop) (hstop : stop ≤ text.length)
    (hbegin : ¬ CutsToken text.toList start) (hend : ¬ CutsToken text.toList stop)
    (hover : chunker.maxTokens < count text start stop)
    (hrange : range ∈ chunker.splitRange text start stop) :
    Fits chunker.maxTokens text range ∧ 0 < count text range.1 range.2 := by
  have hpos := chunker.maxTokens_pos
  unfold count at hover
  unfold splitRange at hrange
  dsimp only at hrange
  have hne : tokens text start stop ≠ [] := by
    intro hnil
    rw [hnil] at hover
    simp at hover
  rw [if_neg hne] at hrange
  obtain ⟨-, hoffsets⟩ := steps_sorted (tokens text start stop).length hpos
  unfold steps at hrange hoffsets
  have hcover : (tokens text start stop).length ≤ chunker.maxTokens +
      ((tokens text start stop).length - chunker.maxTokens + chunker.maxTokens - 1) /
        chunker.maxTokens * chunker.maxTokens := by
    have hmod := Nat.div_add_mod
      ((tokens text start stop).length - chunker.maxTokens + chunker.maxTokens - 1) chunker.maxTokens
    have hlt := Nat.mod_lt
      ((tokens text start stop).length - chunker.maxTokens + chunker.maxTokens - 1) hpos
    rw [Nat.mul_comm] at hmod
    omega
  have hfilled := cut_filled chunker hstop hend _ chunker.maxTokens [] start ⟨le_rfl, hle⟩
    hbegin (by simp) le_rfl (by omega) hcover (fun offset hoffset => (hoffsets offset hoffset).2)
    range hrange
  rcases hfilled with hnil | hnew
  · exact absurd hnil List.not_mem_nil
  · exact hnew

/-! ## The loop over the sections -/

variable {state : ChunkState} {parsed : ParsedSection} {sections : List ParsedSection}

/-- The place of a section, and what the loop needs of it. -/
structure Placed (text : String) (parsed : ParsedSection) : Prop where
  lt : parsed.start < parsed.end
  le : parsed.end ≤ text.length
  start : ¬ CutsToken text.toList parsed.start
  stop : ¬ CutsToken text.toList parsed.end

/-- **Every range so far fits**, the pending one too. -/
structure ChunkState.Fitting (maxTokens : ℕ) (text : String) (state : ChunkState) : Prop where
  ranges : ∀ range ∈ state.ranges, Fits maxTokens text range
  pending : ∀ pendingStart, state.pendingStart = some pendingStart →
    Fits maxTokens text (pendingStart, state.pendingEnd)

/-- All ranges so far have a property, and the pending one. -/
structure ChunkState.Each (P : ℕ × ℕ → Prop) (state : ChunkState) : Prop where
  ranges : ∀ range ∈ state.ranges, P range
  pending : ∀ pendingStart, state.pendingStart = some pendingStart → P (pendingStart, state.pendingEnd)

section Each

variable {P : ℕ × ℕ → Prop}

theorem ChunkState.Each.flush (h : state.Each P) : ∀ range ∈ state.flush, P range := by
  intro range hrange
  unfold ChunkState.flush at hrange
  split at hrange
  · exact h.ranges range hrange
  · rename_i pendingStart hsome
    rcases List.mem_append.1 hrange with hold | hlast
    · exact h.ranges range hold
    · rw [List.mem_singleton.1 hlast]
      exact h.pending pendingStart hsome

/-- **A section** is split, begins a pending range or is joined to it. -/
theorem ChunkState.Each.readSection (h : state.Each P)
    (hsplit : chunker.maxTokens < count text parsed.start parsed.end →
      ∀ range ∈ chunker.splitRange text parsed.start parsed.end, P range)
    (halone : count text parsed.start parsed.end ≤ chunker.maxTokens → P (parsed.start, parsed.end))
    (hjoined : ∀ pendingStart, state.pendingStart = some pendingStart →
      count text pendingStart parsed.end ≤ chunker.maxTokens → P (pendingStart, parsed.end)) :
    (chunker.readSection text state parsed).Each P := by
  unfold StructuralChunker.readSection
  -- a section over the limit is split, and flushes the pending range before it
  by_cases hover : chunker.maxTokens < count text parsed.start parsed.end
  · rw [if_pos hover]
    constructor
    · intro range hrange
      rcases List.mem_append.1 hrange with hold | hpart
      · exact h.flush range hold
      · exact hsplit hover range hpart
    · intro pendingStart hsome
      cases hsome
  · rw [if_neg hover]
    split
    · refine ⟨h.ranges, fun pendingStart hsome => ?_⟩
      cases hsome
      exact halone (not_lt.1 hover)
    · rename_i pendingStart hpending
      split
      · constructor
        · intro range hrange
          rcases List.mem_append.1 hrange with hold | hlast
          · exact h.ranges range hold
          · rw [List.mem_singleton.1 hlast]
            exact h.pending pendingStart hpending
        · intro other hsome
          cases hsome
          exact halone (not_lt.1 hover)
      · rename_i hfits
        refine ⟨h.ranges, fun other hsome => ?_⟩
        have hsame : other = pendingStart := by
          have hsome' : state.pendingStart = some other := hsome
          rw [hpending] at hsome'
          cases hsome'
          rfl
        rw [hsame]
        exact hjoined pendingStart hpending (not_lt.1 hfits)

end Each

theorem ChunkState.Fitting.each (h : state.Fitting chunker.maxTokens text) :
    state.Each (Fits chunker.maxTokens text) := ⟨h.ranges, h.pending⟩

theorem ChunkState.Fitting.flush (h : state.Fitting chunker.maxTokens text) :
    ∀ range ∈ state.flush, Fits chunker.maxTokens text range := h.each.flush

theorem ChunkState.Fitting.readSection (h : state.Fitting chunker.maxTokens text)
    (hplaced : Placed text parsed) :
    (chunker.readSection text state parsed).Fitting chunker.maxTokens text := by
  have hread : (chunker.readSection text state parsed).Each (Fits chunker.maxTokens text) := by
    refine h.each.readSection (fun hover range hpart => ?_) (fun hfits => ?_)
      fun pendingStart hpending hfits => ?_
    · exact (splitRange_filled hplaced.lt.le hplaced.le hplaced.start hplaced.stop hover hpart).1
    · exact ⟨hfits, hplaced.start, hplaced.stop⟩
    · exact ⟨hfits, (h.pending pendingStart hpending).start, hplaced.stop⟩
  exact ⟨hread.ranges, hread.pending⟩

/-- **Every range fits.** -/
theorem chunkRanges_fit {document : ParsedDocument}
    (h : ∀ parsed ∈ document.sections, Placed document.normalizedText parsed) :
    ∀ range ∈ chunker.chunkRanges document, Fits chunker.maxTokens document.normalizedText range := by
  have hinit : ({} : ChunkState).Fitting chunker.maxTokens document.normalizedText := by
    constructor
    · intro range hrange
      cases hrange
    · intro pendingStart hsome
      cases hsome
  refine ChunkState.Fitting.flush (Machine.run_inv_of_mem (fun state parsed hparsed hfits => ?_) hinit)
  exact hfits.readSection (h parsed hparsed)

/-- The counts of ranges that tile a text sum to its count. -/
theorem sum_count {ranges : List (ℕ × ℕ)} (h : Tiles a b ranges) (hb : b ≤ text.length)
    (hwhole : ∀ range ∈ ranges, ¬ CutsToken text.toList range.2) :
    (ranges.map fun range => count text range.1 range.2).sum = count text a b := by
  induction ranges generalizing a with
  | nil =>
    have hab : a = b := h
    have hempty : slice text.toList a b = [] := by
      unfold slice
      rw [hab, Nat.sub_self, List.take_zero]
    simp [count, tokens, hempty, tokenStarts]
  | cons range ranges ih =>
    obtain ⟨rfl, hlt, hrest⟩ := h
    have htail := ih hrest fun other hother => hwhole other (List.mem_cons_of_mem _ hother)
    rw [List.map_cons, List.sum_cons, htail]
    exact (count_append hlt.le hrest.le hb (hwhole range List.mem_cons_self)).symm

/-- A chunk is built of one of the ranges. -/
theorem exists_range_of_mem_chunk {document : ParsedDocument} {chunk : CountedChunk}
    (h : chunk ∈ chunker.chunk document) : ∃ ordinal, ∃ range ∈ chunker.chunkRanges document,
      chunk = buildChunk document ordinal range.1 range.2 := by
  obtain ⟨ordinal, hlt, rfl⟩ := List.mem_mapIdx.1 h
  exact ⟨ordinal, _, List.getElem_mem hlt, rfl⟩

/-- **A document whose sections tile its text, and cut no token, is chunked within bounds.** -/
theorem chunk_bounded {document : ParsedDocument} (htiled : document.Tiled)
    (h : ∀ parsed ∈ document.sections, Placed document.normalizedText parsed) :
    Bounded chunker.maxTokens document (chunker.chunk document) := by
  have hfits : ∀ range ∈ chunker.chunkRanges document,
      Fits chunker.maxTokens document.normalizedText range := chunkRanges_fit h
  constructor
  · intro chunk hchunk
    obtain ⟨ordinal, range, hrange, rfl⟩ := exists_range_of_mem_chunk hchunk
    exact (hfits range hrange).bounded
  · intro chunk hchunk
    obtain ⟨ordinal, range, hrange, rfl⟩ := exists_range_of_mem_chunk hchunk
    exact ⟨(hfits range hrange).start, (hfits range hrange).stop⟩
  · rw [chunk_map (f := fun chunk => chunk.tokenCount)
      (g := fun range => count document.normalizedText range.1 range.2) fun _ _ => rfl]
    exact sum_count (chunkRanges_tiles htiled.sections) le_rfl fun range hrange => (hfits range hrange).stop

end StructuralChunker

/-! ## The sections of a parsed document -/

theorem isSpace_of_isLineBreak {c : Char} (h : isLineBreak c = true) : isSpace c = true := by
  simp only [isLineBreak, Bool.or_eq_true, Bool.and_eq_true, decide_eq_true_eq, beq_iff_eq] at h
  simp only [isSpace, Bool.or_eq_true, Bool.and_eq_true, decide_eq_true_eq, beq_iff_eq]
  omega

/-- A line that another follows ends in a line break. -/
theorem exists_break_of_before {line text : List Char} {before after : List (List Char)}
    (h : splitLinesFrom line text = before ++ after) (hafter : after ≠ []) :
    ∀ l ∈ before, ∃ c, l.getLast? = some c ∧ isLineBreak c = true := by
  -- on the split: every case that ends a line ends it at a break
  induction line, text using splitLinesFrom.induct generalizing before with
  | case1 =>
    have hnil := List.append_eq_nil_iff.1 h.symm
    exact absurd hnil.2 hafter
  | case2 line hline =>
    rw [splitLinesFrom, if_neg hline] at h
    cases before with
    | nil => simp
    | cons first before =>
      have hrest := (List.cons.inj h).2
      exact absurd (List.append_eq_nil_iff.1 hrest.symm).2 hafter
  | case3 line rest ih =>
    rw [splitLinesFrom] at h
    cases before with
    | nil => simp
    | cons first before =>
      obtain ⟨hfirst, hrest⟩ := List.cons.inj h
      refine List.forall_mem_cons.2 ⟨⟨'\n', ?_, by decide⟩, ih hrest⟩
      rw [← hfirst]
      simp
  | case4 line c rest hnot hbreak ih =>
    rw [splitLinesFrom.eq_3 _ _ _ hnot, if_pos hbreak] at h
    cases before with
    | nil => simp
    | cons first before =>
      obtain ⟨hfirst, hrest⟩ := List.cons.inj h
      refine List.forall_mem_cons.2 ⟨⟨c, ?_, hbreak⟩, ih hrest⟩
      rw [← hfirst]
      simp
  | case5 line c rest hnot hbreak ih =>
    rw [splitLinesFrom.eq_3 _ _ _ hnot, if_neg hbreak] at h
    exact ih h

/-- No token goes on from the line before. -/
theorem not_cutsToken_line {text : List Char} {before after : List (List Char)}
    (h : splitLines text = before ++ after) (hafter : after ≠ []) :
    ¬ CutsToken text before.flatten.length := by
  rintro ⟨hpos, c, -, hc, -, hout, -⟩
  have htext : before.flatten ++ after.flatten = text := by
    rw [← List.flatten_append, ← h, splitLines_flatten]
  have hlast : before.flatten.getLast? = some c := by
    rw [List.getLast?_eq_getElem?, ← hc, ← htext, List.getElem?_append_left (by omega)]
  rcases List.eq_nil_or_concat before with rfl | ⟨lines, line, rfl⟩
  · simp at hpos
  · obtain ⟨d, hd, hbreak⟩ := exists_break_of_before h hafter line (by simp)
    rw [List.concat_eq_append, List.flatten_append, List.flatten_singleton, List.getLast?_append,
      hd] at hlast
    cases hlast
    rw [isSpace_of_isLineBreak hbreak] at hout
    cases hout

/-- Every section after the first starts with a heading, after a line. -/
def ParsedDocument.Headed (document : ParsedDocument) : Prop :=
  ∀ parsed ∈ document.sections.tail, ∃ before line after,
    splitLines document.normalizedText.toList = before ++ line :: after ∧
      before.flatten.length = parsed.start ∧ (matchHeading line).isSome

theorem parseText_headed (text : String) : (MarkdownParser.parseText text).Headed := by
  intro parsed hparsed
  have hstart := (sections_starts text parsed.start).1 (List.mem_map_of_mem hparsed)
  obtain ⟨before, line, after, hlines, hlength, -, hheading, -⟩ := hstart
  exact ⟨before, line, after, hlines, hlength, hheading⟩

namespace StructuralChunker

variable {document : ParsedDocument} {parsed : ParsedSection}

theorem start_whole (htiled : document.Tiled) (hheaded : document.Headed)
    (h : parsed ∈ document.sections) : ¬ CutsToken document.normalizedText.toList parsed.start := by
  have htiles := htiled.sections
  cases hsections : document.sections with
  | nil =>
    rw [hsections] at h
    cases h
  | cons first rest =>
    rw [hsections] at h htiles
    rcases List.mem_cons.1 h with rfl | htail
    · have hzero : parsed.start = 0 := htiles.1
      rw [hzero]
      exact fun hcut => Nat.lt_irrefl 0 hcut.1
    · have hin : parsed ∈ document.sections.tail := by
        rw [hsections]
        exact htail
      obtain ⟨before, line, after, hlines, hlength, -⟩ := hheaded parsed hin
      rw [← hlength]
      exact not_cutsToken_line hlines (by simp)

/-- **The sections of a parsed document cut no token.** -/
theorem section_placed (htiled : document.Tiled) (hheaded : document.Headed)
    (h : parsed ∈ document.sections) : Placed document.normalizedText parsed := by
  have htiles := htiled.sections
  have hrange : parsed.range ∈ document.sections.map ParsedSection.range := List.mem_map_of_mem h
  obtain ⟨-, hlt, hle⟩ := htiles.nonempty_of_mem hrange
  refine ⟨hlt, hle, start_whole htiled hheaded h, ?_⟩
  rcases htiles.end_eq hrange with hend | ⟨range, hnext, hstart⟩
  · -- the last section ends with the text
    have hend' : parsed.end = document.normalizedText.length := hend
    rintro ⟨-, c, d, -, hd, -⟩
    rw [hend', ← String.length_toList, List.getElem?_eq_none le_rfl] at hd
    cases hd
  · obtain ⟨next, hmem, rfl⟩ := List.mem_map.1 hnext
    have hstart' : next.start = parsed.end := hstart
    rw [← hstart']
    exact start_whole htiled hheaded hmem

/-- A section after the first has a token: the hashes of its heading. -/
theorem count_pos_of_mem_tail (htiled : document.Tiled) (hheaded : document.Headed)
    (h : parsed ∈ document.sections.tail) :
    0 < count document.normalizedText parsed.start parsed.end := by
  have hlt := (section_placed htiled hheaded (List.mem_of_mem_tail h)).lt
  obtain ⟨before, line, after, hlines, hlength, hheading⟩ := hheaded parsed h
  obtain ⟨rest, rfl⟩ := exists_of_matchHeading hheading
  have htext : before.flatten ++ ('#' :: rest ++ after.flatten) = document.normalizedText.toList := by
    have hflatten : (splitLines document.normalizedText.toList).flatten = _ := splitLines_flatten
    rw [← hflatten, hlines]
    simp
  have hhash : document.normalizedText.toList[parsed.start]? = some '#' := by
    rw [← htext, ← hlength, List.getElem?_append_right le_rfl, Nat.sub_self]
    rfl
  rw [Nat.pos_iff_ne_zero]
  intro hzero
  rw [count_eq_zero, isBlank, sliceText, String.toList_ofList, List.all_eq_true] at hzero
  have hfirst : (slice document.normalizedText.toList parsed.start parsed.end)[0]? = some '#' := by
    rw [getElem?_slice (by omega), Nat.add_zero]
    exact hhash
  exact absurd (hzero '#' (List.mem_of_getElem? hfirst)) (by decide)

end StructuralChunker

/-- **Chunks respect the token bound and never cut a token**, for every document that is parsed and
every bound. -/
theorem parse_chunk_bounded (chunker : StructuralChunker) (content : ByteArray)
    (document : ParsedDocument) (h : MarkdownParser.parse content = some document) :
    Bounded chunker.maxTokens document (chunker.chunk document) := by
  obtain ⟨text, rfl⟩ := parseText_of_parse h
  have htiled := MarkdownParser.parseText_tiled text
  exact StructuralChunker.chunk_bounded htiled fun parsed hparsed =>
    StructuralChunker.section_placed htiled (parseText_headed text) hparsed

theorem parse_chunk_bounded_sample : Bounded 2 sampleParsed (pairChunker.chunk sampleParsed) :=
  parse_chunk_bounded pairChunker sampleMarkdown sampleParsed (by decide +kernel)

/-! ## Blank chunks -/

namespace StructuralChunker

variable {text : String} {chunker : StructuralChunker} {state : ChunkState} {parsed : ParsedSection}
  {sections : List ParsedSection} {document : ParsedDocument} {range : ℕ × ℕ} {stop : ℕ}

/-- **Every range so far has a token**, the pending one too. -/
structure ChunkState.Filled (text : String) (state : ChunkState) : Prop where
  ranges : ∀ range ∈ state.ranges, 0 < count text range.1 range.2
  pending : ∀ pendingStart, state.pendingStart = some pendingStart →
    0 < count text pendingStart state.pendingEnd

theorem ChunkState.Filled.each (h : state.Filled text) :
    state.Each fun range => 0 < count text range.1 range.2 := ⟨h.ranges, h.pending⟩

theorem ChunkState.Filled.flush (h : state.Filled text) :
    ∀ range ∈ state.flush, 0 < count text range.1 range.2 := h.each.flush

/-- A section that has a token fills what it is read into. -/
theorem ChunkState.Filled.readSection (h : state.Filled text) (htiled : state.Tiled parsed.start)
    (hplaced : Placed text parsed) (hpos : 0 < count text parsed.start parsed.end) :
    (chunker.readSection text state parsed).Filled text := by
  have hread : (chunker.readSection text state parsed).Each
      fun range => 0 < count text range.1 range.2 := by
    refine h.each.readSection (fun hover range hpart => ?_) (fun _ => hpos)
      fun pendingStart hpending _ => ?_
    · exact (splitRange_filled hplaced.lt.le hplaced.le hplaced.start hplaced.stop hover hpart).2
    · have hstart : pendingStart < parsed.start := by
        unfold ChunkState.Tiled at htiled
        simp only [hpending] at htiled
        exact htiled.2.1
      have hboth := count_append hstart.le hplaced.lt.le hplaced.le hplaced.start
      show 0 < count text pendingStart parsed.end
      omega
  exact ⟨hread.ranges, hread.pending⟩

theorem ChunkState.Filled.readSections {start : ℕ} (h : state.Filled text) (htiled : state.Tiled start)
    (htiles : Tiles start stop (sections.map ParsedSection.range))
    (hplaced : ∀ parsed ∈ sections, Placed text parsed)
    (hpos : ∀ parsed ∈ sections, 0 < count text parsed.start parsed.end) :
    (sections.foldl (chunker.readSection text) state).Filled text := by
  induction sections generalizing state start with
  | nil => exact h
  | cons parsed sections ih =>
    obtain ⟨rfl, hlt, hrest⟩ := htiles
    have hread : (chunker.readSection text state parsed).Filled text :=
      h.readSection htiled (hplaced parsed List.mem_cons_self) (hpos parsed List.mem_cons_self)
    exact ih hread (htiled.readSection hlt) hrest
      (fun other hother => hplaced other (List.mem_cons_of_mem _ hother))
      fun other hother => hpos other (List.mem_cons_of_mem _ hother)

/-- A range that has been added stays. -/
theorem mem_ranges_readSections (h : range ∈ state.ranges) :
    range ∈ (sections.foldl (chunker.readSection text) state).flush := by
  have hkept : range ∈ (sections.foldl (chunker.readSection text) state).ranges := by
    refine Machine.run_inv (I := fun state : ChunkState => range ∈ state.ranges) ?_ h
    intro state parsed hrange
    unfold StructuralChunker.readSection
    split
    · refine List.mem_append_left _ ?_
      unfold ChunkState.flush
      split
      · exact hrange
      · exact List.mem_append_left _ hrange
    · split
      · exact hrange
      · split
        · exact List.mem_append_left _ hrange
        · exact hrange
  unfold ChunkState.flush
  split
  · exact hkept
  · exact List.mem_append_left _ hkept

/-- A blank section is read first. -/
theorem readSection_blank (hcount : count text parsed.start parsed.end = 0) :
    chunker.readSection text {} parsed =
      { ranges := [], pendingStart := some parsed.start, pendingEnd := parsed.end } := by
  unfold StructuralChunker.readSection
  rw [if_neg (by omega)]

variable {first second : ParsedSection} {rest : List ParsedSection}

/-- The blank section is added alone, because the next one is oversized. -/
theorem blank_added (hcount : count text first.start first.end = 0)
    (hover : chunker.maxTokens < count text second.start second.end) :
    (first.start, first.end) ∈
      ((first :: second :: rest).foldl (chunker.readSection text) {}).flush := by
  rw [List.foldl_cons, List.foldl_cons, readSection_blank hcount]
  apply mem_ranges_readSections
  unfold StructuralChunker.readSection
  rw [if_pos hover]
  simp [ChunkState.flush]

/-- The first section has a token. -/
theorem filled_of_first (htiles : Tiles 0 stop ((first :: rest).map ParsedSection.range))
    (hplaced : ∀ parsed ∈ first :: rest, Placed text parsed)
    (hpos : ∀ parsed ∈ rest, 0 < count text parsed.start parsed.end)
    (hcount : 0 < count text first.start first.end) :
    ∀ range ∈ ((first :: rest).foldl (chunker.readSection text) {}).flush,
      0 < count text range.1 range.2 := by
  have hinit : ({} : ChunkState).Tiled 0 := rfl
  have hfilled : ({} : ChunkState).Filled text :=
    ⟨fun _ h => absurd h List.not_mem_nil, fun _ h => by cases h⟩
  exact (hfilled.readSections hinit htiles hplaced (List.forall_mem_cons.2 ⟨hcount, hpos⟩)).flush

/-- The first section is blank, and the second is added to it. -/
theorem filled_of_second (htiles : Tiles 0 stop ((first :: second :: rest).map ParsedSection.range))
    (hplaced : ∀ parsed ∈ second :: rest, Placed text parsed)
    (hpos : ∀ parsed ∈ second :: rest, 0 < count text parsed.start parsed.end)
    (hcount : count text first.start first.end = 0)
    (hfits : ¬ chunker.maxTokens < count text second.start second.end) :
    ∀ range ∈ ((first :: second :: rest).foldl (chunker.readSection text) {}).flush,
      0 < count text range.1 range.2 := by
  obtain ⟨hzero, hlt, hnext, hlt', hrest⟩ := htiles
  have hzero' : first.start = 0 := hzero
  have hnext' : second.start = first.end := hnext
  have hsecond : Placed text second := hplaced second List.mem_cons_self
  have hsecondpos := hpos second List.mem_cons_self
  have hstart : first.start ≤ second.start := by omega
  have hboth := count_append hstart hsecond.lt.le hsecond.le hsecond.start
  rw [hnext', hcount, Nat.zero_add, ← hnext'] at hboth
  have hread : chunker.readSection text
      { ranges := [], pendingStart := some first.start, pendingEnd := first.end } second =
      { ranges := [], pendingStart := some first.start, pendingEnd := second.end } := by
    unfold StructuralChunker.readSection
    rw [if_neg hfits]
    dsimp only
    rw [hboth, if_neg hfits]
  rw [List.foldl_cons, List.foldl_cons, readSection_blank hcount, hread]
  have hfilled : ({ ranges := [], pendingStart := some first.start, pendingEnd := second.end } :
      ChunkState).Filled text := by
    refine ⟨fun _ h => absurd h List.not_mem_nil, fun pendingStart hsome => ?_⟩
    cases hsome
    show 0 < count text first.start second.end
    omega
  have hlast : first.start < second.end := hstart.trans_lt hsecond.lt
  have htiled : ({ ranges := [], pendingStart := some first.start, pendingEnd := second.end } :
      ChunkState).Tiled second.end := ⟨hzero'.symm, hlast, rfl⟩
  exact (hfilled.readSections htiled hrest
    (fun parsed hparsed => hplaced parsed (List.mem_cons_of_mem _ hparsed))
    fun parsed hparsed => hpos parsed (List.mem_cons_of_mem _ hparsed)).flush

/-- **Every range has a token** unless the first section is blank and the second oversized. -/
theorem chunkRanges_filled_iff (htiled : document.Tiled) (hheaded : document.Headed)
    (hblank : isBlank document.normalizedText = false) :
    (∀ range ∈ chunker.chunkRanges document, 0 < count document.normalizedText range.1 range.2) ↔
      ¬ BlankOpening chunker document := by
  have hplaced : ∀ parsed ∈ document.sections, Placed document.normalizedText parsed :=
    fun parsed hparsed => section_placed htiled hheaded hparsed
  have hpos : ∀ parsed ∈ document.sections.tail,
      0 < count document.normalizedText parsed.start parsed.end :=
    fun parsed hparsed => count_pos_of_mem_tail htiled hheaded hparsed
  have htexts : ∀ parsed ∈ document.sections, isBlank parsed.text = true ↔
      count document.normalizedText parsed.start parsed.end = 0 := by
    intro parsed hparsed
    rw [count_eq_zero, htiled.sectionTexts parsed hparsed]
  have htiles := htiled.sections
  have hwhole : count document.normalizedText 0 document.normalizedText.length ≠ 0 := by
    rw [Ne, count_eq_zero, sliceText, ← String.length_toList, slice_length, String.ofList_toList, hblank]
    exact Bool.false_ne_true
  unfold chunkRanges BlankOpening
  generalize document.sections = sections at hplaced hpos htexts htiles
  cases sections with
  | nil =>
    -- no section, no text
    have hempty : 0 = document.normalizedText.length := htiles
    rw [← hempty] at hwhole
    exact absurd (by simp [count, tokens, slice, tokenStarts]) hwhole
  | cons first rest =>
    have hfirst := htexts first List.mem_cons_self
    by_cases hcount : count document.normalizedText first.start first.end = 0
    · cases rest with
      | nil =>
        -- the text is the blank section
        obtain ⟨hzero, hlt, hend⟩ := htiles
        have hzero' : first.start = 0 := hzero
        have hend' : first.end = document.normalizedText.length := hend
        rw [hend', hzero'] at hcount
        exact absurd hcount hwhole
      | cons second rest =>
        by_cases hover : chunker.maxTokens < count document.normalizedText second.start second.end
        · have hopening : ∃ first' second' rest', first :: second :: rest = first' :: second' :: rest' ∧
              isBlank first'.text = true ∧
                chunker.maxTokens < count document.normalizedText second'.start second'.end :=
            ⟨first, second, rest, rfl, hfirst.2 hcount, hover⟩
          constructor
          · intro hall
            have hbad := hall _ (blank_added hcount hover)
            exact absurd hcount (Nat.pos_iff_ne_zero.1 hbad)
          · exact fun hnot => absurd hopening hnot
        · constructor
          · rintro - ⟨first', second', rest', heq, -, hover'⟩
            cases heq
            exact hover hover'
          · intro _
            exact filled_of_second htiles
              (fun parsed hparsed => hplaced parsed (List.mem_cons_of_mem _ hparsed)) hpos hcount hover
    · constructor
      · rintro - ⟨first', second', rest', heq, hblankfirst, -⟩
        cases heq
        exact hcount (hfirst.1 hblankfirst)
      · intro _
        exact filled_of_first htiles hplaced hpos (Nat.pos_iff_ne_zero.2 hcount)

/-- The chunks have tokens if the ranges do. -/
theorem chunksFilled_iff : ChunksFilled (chunker.chunk document) ↔
    ∀ range ∈ chunker.chunkRanges document, 0 < count document.normalizedText range.1 range.2 := by
  have hcounts : (chunker.chunk document).map (fun chunk => chunk.tokenCount) =
      (chunker.chunkRanges document).map fun range => count document.normalizedText range.1 range.2 :=
    chunk_map fun _ _ => rfl
  have htexts : (chunker.chunk document).map (fun chunk => chunk.text) =
      (chunker.chunkRanges document).map fun range => sliceText document.normalizedText range.1 range.2 :=
    chunk_map fun _ _ => rfl
  have hcounted : (∀ chunk ∈ chunker.chunk document, 0 < chunk.tokenCount) ↔
      ∀ range ∈ chunker.chunkRanges document, 0 < count document.normalizedText range.1 range.2 := by
    rw [← List.forall_mem_map (P := fun n => 0 < n), hcounts, List.forall_mem_map]
  constructor
  · exact fun h => hcounted.1 h.counted
  · intro h
    refine ⟨hcounted.2 h, ?_⟩
    rw [Embedder.hasBlank, htexts, List.any_eq_false]
    intro passage hpassage
    obtain ⟨range, hrange, rfl⟩ := List.mem_map.1 hpassage
    rw [← count_eq_zero]
    exact Nat.pos_iff_ne_zero.1 (h range hrange)

end StructuralChunker

/-- **A chunk is blank** if and only if the document opens with a blank section and the next one is
oversized, for every document with some text and every bound. -/
theorem chunks_filled_iff (chunker : StructuralChunker) (content : ByteArray)
    (document : ParsedDocument) (h : MarkdownParser.parse content = some document)
    (hblank : isBlank document.normalizedText = false) :
    ChunksFilled (chunker.chunk document) ↔ ¬ BlankOpening chunker document := by
  obtain ⟨text, rfl⟩ := parseText_of_parse h
  rw [StructuralChunker.chunksFilled_iff]
  exact StructuralChunker.chunkRanges_filled_iff (MarkdownParser.parseText_tiled text)
    (parseText_headed text) hblank

theorem chunks_filled_sample :
    ChunksFilled (pairChunker.chunk sampleParsed) ↔ ¬ BlankOpening pairChunker sampleParsed :=
  chunks_filled_iff pairChunker sampleMarkdown sampleParsed (by decide +kernel) (by decide +kernel)

/-- `\n# A b\n`, a heading of three tokens after an empty line. -/
def openedMarkdown : ByteArray := ⟨#[10, 35, 32, 65, 32, 98, 10]⟩

def openedParsed : ParsedDocument where
  parserVersion := "markdown-1"
  normalizedText := "\n# A b\n"
  sections := [⟨none, 0, "\n", 0, 1⟩, ⟨some "A b", 1, "# A b\n", 1, 7⟩]

/-- **An empty line before an oversized section is a chunk of its own.** -/
theorem blank_chunk : ¬ ∀ (chunker : StructuralChunker) content document,
    MarkdownParser.parse content = some document → isBlank document.normalizedText = false →
      ChunksFilled (chunker.chunk document) := by
  intro h
  have hfilled := h pairChunker openedMarkdown openedParsed (by decide +kernel) (by decide +kernel)
  have hcounts : (pairChunker.chunk openedParsed).map (fun chunk => chunk.tokenCount) = [0, 2, 1] := by
    decide +kernel
  have hmem : 0 ∈ (pairChunker.chunk openedParsed).map fun chunk => chunk.tokenCount := by
    rw [hcounts]
    exact List.mem_cons_self
  obtain ⟨chunk, hchunk, hzero⟩ := List.mem_map.1 hmem
  exact absurd hzero (Nat.pos_iff_ne_zero.1 (hfilled.counted chunk hchunk))

end GroundedOps.Ingestion
