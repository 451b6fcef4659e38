import GroundedOps.Lib.Blocks
import GroundedOps.Proof.Parsing

/-!
# Sections start at headings

The parser starts a section at each heading that it does not take for code. Its fences are
`markerFences`: three backticks or tildes after any white space open a block, and the same three
close it.

* `sections_starts`: **the sections after the first start exactly at the headings outside of the
  blocks of `markerFences`.**
* `splitsAtHeadings_iff_agree`: they start exactly at the headings outside of the fenced code blocks
  of CommonMark if and only if the two kinds of fences agree at every heading past the first line.
-/

namespace GroundedOps.Ingestion

open Tiling Blocks

/-! ## Fences -/

/-- `line.lstrip()[:3]` -/
def lineMarker (line : List Char) : List Char := (line.dropWhile isSpace).take 3

/-- The line begins with a marker. -/
def Marked (line : List Char) : Prop := lineMarker line = "```".toList ∨ lineMarker line = "~~~".toList

instance (line : List Char) : Decidable (Marked line) := inferInstanceAs (Decidable (_ ∨ _))

/-- The fences as the parser reads them. -/
def markerFences : Delimiters (List Char) (List Char) where
  opens line := if Marked line then some (lineMarker line) else none
  closes fence line := Marked line ∧ fence = lineMarker line

/-- What an opening fence says of its block. -/
structure Fence where
  char : Char
  length : ℕ

/-- What follows an indentation of at most three spaces. -/
def unindented (line : List Char) : Option (List Char) :=
  if (line.takeWhile (· = ' ')).length ≤ 3 then some (line.dropWhile (· = ' ')) else none

/-- How many characters `c` the text begins with. -/
def leading (c : Char) (text : List Char) : ℕ := (text.takeWhile (· = c)).length

def afterLeading (c : Char) (text : List Char) : List Char := text.dropWhile (· = c)

/-- The fenced code blocks of CommonMark: at least three backticks, with no backtick in the rest of
the line, or at least three tildes open one; as many or more of them and nothing but white space
close it. -/
def commonMarkFences : Delimiters (List Char) Fence where
  opens line := (unindented line).bind fun text =>
    if 3 ≤ leading '`' text ∧ '`' ∉ afterLeading '`' text then some ⟨'`', leading '`' text⟩
    else if 3 ≤ leading '~' text then some ⟨'~', leading '~' text⟩
    else none
  closes fence line := (unindented line).any fun text =>
    fence.length ≤ leading fence.char text && (afterLeading fence.char text).all isSpace

/-- A heading starts at this place of the text, past its beginning and outside of every block. -/
def HeadingStart {σ : Type} (fences : Delimiters (List Char) σ) (text : List Char) (start : ℕ) : Prop :=
  ∃ before line after, splitLines text = before ++ line :: after ∧ before.flatten.length = start ∧
    start ≠ 0 ∧ (matchHeading line).isSome ∧ ¬ ∃ block, fences.Inside before block

/-- **The sections after the first start exactly at the headings outside of fenced code.** -/
def ParsedDocument.SplitsAtHeadings (document : ParsedDocument) : Prop :=
  ∀ start, start ∈ document.sections.tail.map (fun parsed => parsed.start) ↔
    HeadingStart commonMarkFences document.normalizedText.toList start

/-- No heading past the first line is code for one kind of fences and not for the other. -/
def FencesAgree (text : List Char) : Prop :=
  ∀ before line after, splitLines text = before ++ line :: after → before ≠ [] →
    (matchHeading line).isSome →
      ((∃ block, markerFences.Inside before block) ↔ ∃ block, commonMarkFences.Inside before block)

/-! ## Lines -/

/-- A heading begins with a hash. -/
theorem exists_of_matchHeading {line : List Char} (h : (matchHeading line).isSome) :
    ∃ rest, line = '#' :: rest := by
  cases line with
  | nil => simp [matchHeading] at h
  | cons c rest =>
    by_cases hc : c = '#'
    · exact ⟨rest, by rw [hc]⟩
    · simp [matchHeading, hc] at h

/-- A heading is no fence. -/
theorem not_marked_of_matchHeading {line : List Char} (h : (matchHeading line).isSome) :
    ¬ Marked line := by
  obtain ⟨rest, rfl⟩ := exists_of_matchHeading h
  have hspace : isSpace '#' = false := by decide
  unfold Marked lineMarker
  rw [List.dropWhile_cons_of_neg (by simp [hspace])]
  rintro (heq | heq)
  · exact absurd (List.cons.inj heq).1 (by decide)
  · exact absurd (List.cons.inj heq).1 (by decide)

theorem ne_nil_of_mem_splitLinesFrom {line text : List Char} :
    ∀ l ∈ splitLinesFrom line text, l ≠ [] := by
  fun_induction splitLinesFrom line text with
  | case1 => simp
  | case2 line hline => simpa using hline
  | case3 line rest ih => simpa using ih
  | case4 line c rest _ hbreak ih => simpa using ih
  | case5 line c rest _ hbreak ih => exact ih

theorem ne_nil_of_mem_splitLines {line text : List Char} (h : line ∈ splitLines text) : line ≠ [] :=
  ne_nil_of_mem_splitLinesFrom line h

/-- Lines that are not empty are told by their lengths how many they are. -/
theorem before_inj {lines before before' after after' : List (List Char)}
    (hne : ∀ line ∈ lines, line ≠ []) (h : lines = before ++ after) (h' : lines = before' ++ after')
    (hlength : before.flatten.length = before'.flatten.length) : before = before' := by
  induction before generalizing lines before' with
  | nil =>
    cases before' with
    | nil => rfl
    | cons line before' =>
      have hline : line ≠ [] := hne line (by rw [h']; simp)
      have hpos : 0 < line.length := List.length_pos_iff.2 hline
      simp only [List.flatten_nil, List.length_nil, List.flatten_cons, List.length_append] at hlength
      omega
  | cons line before ih =>
    have hline : line ≠ [] := hne line (by rw [h]; simp)
    have hpos : 0 < line.length := List.length_pos_iff.2 hline
    cases before' with
    | nil =>
      simp only [List.flatten_nil, List.length_nil, List.flatten_cons, List.length_append] at hlength
      omega
    | cons line' before' =>
      rw [h, List.cons_append, List.cons_append] at h'
      obtain ⟨rfl, hrest⟩ := List.cons.inj h'
      simp only [List.flatten_cons, List.length_append, Nat.add_left_cancel_iff] at hlength
      rw [ih (fun l hl => hne l (by rw [h]; exact List.mem_cons_of_mem _ hl)) rfl hrest hlength]

/-! ## The loop over the lines -/

namespace MarkdownParser

variable {normalized : String} {state : ParseState} {line : List Char} {lines : List (List Char)}

/-- The places where the headings outside of the blocks start, from a place and a fence on. -/
def headingStarts (offset : ℕ) (fence : Option (List Char)) : List (List Char) → List ℕ
  | [] => []
  | line :: lines =>
    (if offset ≠ 0 ∧ fence = none ∧ (matchHeading line).isSome then [offset] else []) ++
      headingStarts (offset + line.length) (markerFences.next fence line) lines

theorem mem_headingStarts {offset start : ℕ} {fence : Option (List Char)} :
    start ∈ headingStarts offset fence lines ↔ ∃ before line after, lines = before ++ line :: after ∧
      offset + before.flatten.length = start ∧ start ≠ 0 ∧ (matchHeading line).isSome ∧
        before.foldl markerFences.next fence = none := by
  induction lines generalizing offset fence with
  | nil => simp [headingStarts]
  | cons first lines ih =>
    rw [headingStarts, List.mem_append, ih]
    constructor
    · rintro (hfirst | ⟨before, line, after, rfl, hstart, hne, hheading, hout⟩)
      · split at hfirst
        · rename_i hhere
          obtain ⟨hne, hout, hheading⟩ := hhere
          rw [List.mem_singleton.1 hfirst]
          exact ⟨[], first, lines, rfl, rfl, hne, hheading, hout⟩
        · exact absurd hfirst List.not_mem_nil
      · refine ⟨first :: before, line, after, rfl, ?_, hne, hheading, hout⟩
        rw [← hstart, List.flatten_cons, List.length_append]
        omega
    · rintro ⟨before, line, after, hlines, hstart, hne, hheading, hout⟩
      cases before with
      | nil =>
        obtain ⟨rfl, rfl⟩ := List.cons.inj hlines
        simp only [List.flatten_nil, List.length_nil, Nat.add_zero] at hstart
        have hhere : offset ≠ 0 ∧ fence = none ∧ (matchHeading first).isSome :=
          ⟨by rw [hstart]; exact hne, hout, hheading⟩
        rw [if_pos hhere]
        exact Or.inl (by simp [hstart])
      | cons first' before =>
        obtain ⟨rfl, rfl⟩ := List.cons.inj hlines
        refine Or.inr ⟨before, line, after, rfl, ?_, hne, hheading, hout⟩
        rw [← hstart, List.flatten_cons, List.length_append]
        omega

/-- The starts of the sections, with the one that is being read. -/
def ParseState.starts (state : ParseState) : List ℕ :=
  state.sections.map (fun parsed => parsed.start) ++ [state.sectionStart]

/-- **Nothing is read, or the section that is being read is not empty.** -/
def ParseState.Begun (state : ParseState) : Prop :=
  (state.cursor = 0 ∧ state.sections = [] ∧ state.sectionStart = 0) ∨
    state.sectionStart < state.cursor

theorem ParseState.flush_starts (h : state.sectionStart < state.cursor) :
    (state.flush normalized).map (fun parsed => parsed.start) = state.starts := by
  unfold ParseState.flush ParseState.starts
  rw [if_pos h, List.map_append]
  rfl

/-- The body of the loop, by what the line is. -/
theorem readLine_eq : readLine normalized state line =
    if Marked line then
      { state with fence := markerFences.next state.fence line, cursor := state.cursor + line.length }
    else if state.fence = none then
      match matchHeading line with
      | some (level, title) =>
        { sections := state.flush normalized, sectionStart := state.cursor, sectionLevel := level
          sectionTitle := some title, cursor := state.cursor + line.length, fence := none }
      | none => { state with cursor := state.cursor + line.length }
    else { state with cursor := state.cursor + line.length } := by
  unfold readLine
  dsimp only
  by_cases hmarked : Marked line
  · rw [if_pos (show (line.dropWhile isSpace).take 3 = "```".toList ∨
      (line.dropWhile isSpace).take 3 = "~~~".toList from hmarked), if_pos hmarked]
    cases hfence : state.fence with
    | none => simp [Delimiters.next, markerFences, hmarked, lineMarker]
    | some fence =>
      by_cases hsame : fence = lineMarker line
      · simp [Delimiters.next, markerFences, hmarked, hsame, lineMarker]
      · have hother : ¬ fence = (line.dropWhile isSpace).take 3 := hsame
        simp [Delimiters.next, markerFences, hsame, hother, hfence]
  · rw [if_neg (show ¬ ((line.dropWhile isSpace).take 3 = "```".toList ∨
      (line.dropWhile isSpace).take 3 = "~~~".toList) from hmarked), if_neg hmarked]
    cases hfence : state.fence with
    | none => cases matchHeading line <;> simp [hfence]
    | some fence => simp [hfence]

theorem readLine_fence : (readLine normalized state line).fence = markerFences.next state.fence line := by
  rw [readLine_eq]
  by_cases hmarked : Marked line
  · rw [if_pos hmarked]
  · rw [if_neg hmarked]
    cases hfence : state.fence with
    | none => cases matchHeading line <;> simp [Delimiters.next, markerFences, hmarked]
    | some fence => simp [Delimiters.next, markerFences, hmarked]

/-- **What one line does to the starts of the sections.** -/
theorem readLine_starts (h : state.Begun) : (readLine normalized state line).starts =
    state.starts ++ if state.cursor ≠ 0 ∧ state.fence = none ∧ (matchHeading line).isSome then
      [state.cursor] else [] := by
  rw [readLine_eq]
  by_cases hheading : state.fence = none ∧ (matchHeading line).isSome
  · obtain ⟨hfence, hsome⟩ := hheading
    obtain ⟨⟨level, title⟩, hmatch⟩ := Option.isSome_iff_exists.1 hsome
    rw [if_neg (not_marked_of_matchHeading hsome), if_pos hfence, hmatch]
    rcases h with ⟨hcursor, hsections, hstart⟩ | hlt
    · -- a heading in the first line starts no section
      rw [if_neg fun hhere => hhere.1 hcursor]
      simp [ParseState.starts, ParseState.flush, hcursor, hsections, hstart]
    · have hpos : state.cursor ≠ 0 := by omega
      rw [if_pos ⟨hpos, hfence, by simp⟩]
      have hflush : (state.flush normalized).map (fun parsed => parsed.start) = state.starts :=
        ParseState.flush_starts hlt
      rw [ParseState.starts, hflush]
  · have hnowhere : ¬ (state.cursor ≠ 0 ∧ state.fence = none ∧ (matchHeading line).isSome) :=
      fun hhere => hheading hhere.2
    rw [if_neg hnowhere, List.append_nil]
    by_cases hmarked : Marked line
    · rw [if_pos hmarked]
      rfl
    · rw [if_neg hmarked]
      split
      · rename_i hfence
        have hnone : matchHeading line = none := by
          simpa [hfence] using hheading
        rw [hnone]
        rfl
      · rfl

theorem readLine_begun (h : state.Begun) (hne : line ≠ []) : (readLine normalized state line).Begun := by
  have hpos : 0 < line.length := List.length_pos_iff.2 hne
  right
  have hle : state.sectionStart ≤ state.cursor := by
    rcases h with ⟨hcursor, -, hstart⟩ | hlt <;> omega
  rw [readLine_eq]
  by_cases hmarked : Marked line
  · rw [if_pos hmarked]
    show state.sectionStart < state.cursor + line.length
    omega
  · rw [if_neg hmarked]
    split
    · split
      · show state.cursor < state.cursor + line.length
        omega
      · show state.sectionStart < state.cursor + line.length
        omega
    · show state.sectionStart < state.cursor + line.length
      omega

theorem readLine_cursor : (readLine normalized state line).cursor = state.cursor + line.length := by
  rw [readLine_eq]
  split
  · rfl
  · split
    · split <;> rfl
    · rfl

/-- **What the lines do to the starts of the sections.** -/
theorem readLines_starts (normalized : String) (lines : List (List Char)) (h : state.Begun)
    (hne : ∀ line ∈ lines, line ≠ []) :
    (lines.foldl (readLine normalized) state).starts =
        state.starts ++ headingStarts state.cursor state.fence lines ∧
      (lines.foldl (readLine normalized) state).Begun := by
  induction lines generalizing state with
  | nil => exact ⟨by simp [headingStarts], h⟩
  | cons line lines ih =>
    have hbegun : (readLine normalized state line).Begun := readLine_begun h (hne line List.mem_cons_self)
    obtain ⟨hstarts, hend⟩ := ih hbegun fun l hl => hne l (List.mem_cons_of_mem _ hl)
    rw [List.foldl_cons]
    refine ⟨?_, hend⟩
    rw [hstarts, readLine_starts h, readLine_fence, readLine_cursor, headingStarts, List.append_assoc]

/-- The sections after the first start at the headings that the loop finds. -/
theorem parseText_starts (text : String) :
    (parseText text).sections.tail.map (fun parsed => parsed.start) =
      headingStarts 0 none (splitLines (parseText text).normalizedText.toList) := by
  unfold parseText
  dsimp only
  generalize String.ofList (normalizeNewlines text.toList) = normalized
  have hinit : ({} : ParseState).Begun := Or.inl ⟨rfl, rfl, rfl⟩
  obtain ⟨hstarts, hbegun⟩ := readLines_starts normalized (splitLines normalized.toList) hinit
    fun line hline => ne_nil_of_mem_splitLines hline
  have hzero : ({} : ParseState).starts = [0] := rfl
  rw [hzero] at hstarts
  rcases hbegun with ⟨hcursor, hsections, hstart⟩ | hlt
  · -- nothing has been read
    have hnil : headingStarts 0 none (splitLines normalized.toList) = [] := by
      simp only [ParseState.starts, hsections, hstart] at hstarts
      exact (List.append_cancel_left (hstarts.symm : [0] ++ _ = [0] ++ []))
    simp [ParseState.flush, hcursor, hsections, hnil]
  · rw [List.map_tail, ParseState.flush_starts hlt, hstarts]
    rfl

end MarkdownParser

/-- **The sections after the first start exactly at the headings outside of the parser's blocks.** -/
theorem sections_starts (text : String) (start : ℕ) :
    start ∈ (MarkdownParser.parseText text).sections.tail.map (fun parsed => parsed.start) ↔
      HeadingStart markerFences (MarkdownParser.parseText text).normalizedText.toList start := by
  rw [MarkdownParser.parseText_starts, MarkdownParser.mem_headingStarts]
  unfold HeadingStart
  simp only [Delimiters.inside_iff, Option.not_isSome_iff_eq_none, Nat.zero_add]
  rfl

theorem headingStart_iff {σ : Type} {fences : Delimiters (List Char) σ} {text : List Char}
    {before after : List (List Char)} {line : List Char}
    (hlines : splitLines text = before ++ line :: after) (hne : before ≠ [])
    (hheading : (matchHeading line).isSome) :
    HeadingStart fences text before.flatten.length ↔ ¬ ∃ block, fences.Inside before block := by
  have hlinesne : ∀ l ∈ splitLines text, l ≠ [] := fun l hl => ne_nil_of_mem_splitLines hl
  constructor
  · rintro ⟨before', line', after', hlines', hlength, -, -, hout⟩
    rwa [before_inj hlinesne hlines' hlines hlength] at hout
  · intro hout
    refine ⟨before, line, after, hlines, rfl, ?_, hheading, hout⟩
    obtain ⟨first, rest, rfl⟩ := List.exists_cons_of_ne_nil hne
    have hfirst : first ≠ [] := hlinesne first (by rw [hlines]; simp)
    have hpos : 0 < first.length := List.length_pos_iff.2 hfirst
    rw [List.flatten_cons, List.length_append]
    omega

/-- Sections start exactly at the headings outside of fenced code if and only if the parser's
fences and those of CommonMark agree at every heading past the first line. -/
theorem splitsAtHeadings_iff_agree (content : ByteArray) (document : ParsedDocument)
    (h : MarkdownParser.parse content = some document) :
    document.SplitsAtHeadings ↔ FencesAgree document.normalizedText.toList := by
  obtain ⟨text, rfl⟩ := parseText_of_parse h
  unfold ParsedDocument.SplitsAtHeadings
  simp only [sections_starts]
  generalize (MarkdownParser.parseText text).normalizedText.toList = normalized
  constructor
  · intro hsplits before line after hlines hne hheading
    have hboth := hsplits before.flatten.length
    rw [headingStart_iff hlines hne hheading, headingStart_iff hlines hne hheading] at hboth
    exact not_iff_not.1 hboth
  · intro hagree start
    have hsame : ∀ before line after, splitLines normalized = before ++ line :: after →
        before.flatten.length = start → start ≠ 0 → (matchHeading line).isSome →
          ((∃ block, markerFences.Inside before block) ↔
            ∃ block, commonMarkFences.Inside before block) := by
      intro before line after hlines hlength hstart hheading
      refine hagree before line after hlines ?_ hheading
      rintro rfl
      exact hstart hlength.symm
    constructor
    · rintro ⟨before, line, after, hlines, hlength, hstart, hheading, hout⟩
      exact ⟨before, line, after, hlines, hlength, hstart, hheading,
        fun hin => hout ((hsame before line after hlines hlength hstart hheading).2 hin)⟩
    · rintro ⟨before, line, after, hlines, hlength, hstart, hheading, hout⟩
      exact ⟨before, line, after, hlines, hlength, hstart, hheading,
        fun hin => hout ((hsame before line after hlines hlength hstart hheading).1 hin)⟩

end GroundedOps.Ingestion
