import GroundedOps.Proof.Sections
import Mathlib.Data.List.TakeWhile

/-!
# Fence lines that the parser misreads

The parser knows a fence by its first three characters, so that it takes for one what CommonMark
does not: a line in the wrong place, too short, too far to the right or with more on it. Outside of
a block it should open one, inside of a block it should close it.

* `misreads`: the line begins like a fence, and is none.
* `agree_next`: a line that is not misread leaves the two readers in agreement.
* `opposed_next`: while the lines have one kind of marker, each misread line turns agreement into
  disagreement, and back.
* `splitsAtHeadings_parity`: **sections start at the headings outside of fenced code if an even number
  of lines is misread before each heading**, and only if, as long as the parser meets one kind of
  marker from the first of these lines on.
* `fence_cut_short`: a block of four backticks is closed by a line of three, and a heading in it
  starts a section.
-/

namespace GroundedOps.Ingestion

open Blocks

/-! ## Lines that CommonMark reads as no fence -/

/-- The marker of the lines of a block. -/
def fenceMarker (fence : Fence) : List Char := List.replicate 3 fence.char

/-- Outside of every block of CommonMark, the line has a marker and opens none; inside of one, it has
the marker of the block and does not close it. -/
def misreads : Option Fence → List Char → Bool
  | none, line => decide (Marked line) && (commonMarkFences.opens line).isNone
  | some fence, line =>
    decide (lineMarker line = fenceMarker fence) && !commonMarkFences.closes fence line

/-- How many of the lines are misread, from a block of CommonMark on. -/
def misreadCount : Option Fence → List (List Char) → ℕ
  | _, [] => 0
  | block, line :: lines =>
    (if misreads block line then 1 else 0) + misreadCount (commonMarkFences.next block line) lines

/-- All lines with a marker have this one. -/
def OneMarker (marker : List Char) (lines : List (List Char)) : Prop :=
  ∀ line ∈ lines, Marked line → lineMarker line = marker

/-- From the first misread line on, if there is one, all markers are the same. -/
def Steady (lines : List (List Char)) : Prop :=
  ∃ before after marker, lines = before ++ after ∧ misreadCount none before = 0 ∧
    OneMarker marker after

/-- The lines before a heading past the first line. -/
def BeforeHeading (text : List Char) (before : List (List Char)) : Prop :=
  before ≠ [] ∧ ∃ line after, splitLines text = before ++ line :: after ∧ (matchHeading line).isSome

/-! ## Markers of fences -/

section Markers

variable {line text : List Char} {fence : Fence} {c : Char}

/-- Only spaces stand before what follows them. -/
theorem dropWhile_isSpace {rest : List Char} (h : line.dropWhile (· = ' ') = c :: rest)
    (hc : isSpace c = false) : line.dropWhile isSpace = c :: rest := by
  induction line with
  | nil => cases h
  | cons first line ih =>
    by_cases hfirst : first = ' '
    · have hspace : isSpace first = true := by
        rw [hfirst]
        decide
      rw [List.dropWhile_cons_of_pos (by simpa using hfirst)] at h
      rw [List.dropWhile_cons_of_pos hspace]
      exact ih h
    · rw [List.dropWhile_cons_of_neg (by simpa using hfirst)] at h
      obtain ⟨rfl, rfl⟩ := List.cons.inj h
      exact List.dropWhile_cons_of_neg (by simp [hc])

/-- Three characters at the beginning are the marker. -/
theorem lineMarker_of_leading (htext : unindented line = some text) (hlead : 3 ≤ leading c text)
    (hc : isSpace c = false) : lineMarker line = List.replicate 3 c := by
  unfold unindented at htext
  split at htext
  · cases htext
    set text := line.dropWhile (· = ' ')
    have hall : text.takeWhile (· = c) = List.replicate (leading c text) c := by
      refine List.eq_replicate_iff.2 ⟨rfl, fun d hd => ?_⟩
      simpa using List.mem_takeWhile_imp hd
    have htake : text.take 3 = List.replicate 3 c := by
      have hsplit : text = List.replicate (leading c text) c ++ text.dropWhile (· = c) := by
        rw [← hall]
        exact (List.takeWhile_append_dropWhile).symm
      rw [hsplit, List.take_append_of_le_length (by simpa using hlead), List.take_replicate,
        Nat.min_eq_left hlead]
    obtain ⟨rest, hrest⟩ : ∃ rest, text = c :: rest := by
      cases hcases : text with
      | nil =>
        rw [hcases] at htake
        cases htake
      | cons d rest =>
        rw [hcases] at htake
        exact ⟨rest, by rw [(List.cons.inj htake).1]⟩
    unfold lineMarker
    rw [dropWhile_isSpace hrest hc, ← hrest]
    exact htake
  · cases htext

/-- A fence that a line can open. -/
structure Fence.Proper (fence : Fence) : Prop where
  char : fence.char = '`' ∨ fence.char = '~'
  length : 3 ≤ fence.length

theorem Fence.Proper.not_space (h : fence.Proper) : isSpace fence.char = false := by
  rcases h.char with hchar | hchar
  · rw [hchar]
    decide
  · rw [hchar]
    decide

theorem Fence.Proper.marked (h : fence.Proper) (hline : lineMarker line = fenceMarker fence) :
    Marked line := by
  unfold Marked
  rw [hline, fenceMarker]
  rcases h.char with hchar | hchar
  · rw [hchar]
    exact Or.inl rfl
  · rw [hchar]
    exact Or.inr rfl

/-- An opening line of CommonMark has the marker of its block. -/
theorem opens_spec (h : commonMarkFences.opens line = some fence) :
    fence.Proper ∧ lineMarker line = fenceMarker fence := by
  obtain ⟨text, htext, hopens⟩ := Option.bind_eq_some_iff.1 h
  split at hopens
  · rename_i hticks
    cases hopens
    have hspace : isSpace '`' = false := by decide
    exact ⟨⟨Or.inl rfl, hticks.1⟩, lineMarker_of_leading htext hticks.1 hspace⟩
  · split at hopens
    · rename_i htildes
      cases hopens
      have hspace : isSpace '~' = false := by decide
      exact ⟨⟨Or.inr rfl, htildes⟩, lineMarker_of_leading htext htildes hspace⟩
    · cases hopens

/-- So has a closing line. -/
theorem closes_marker (hproper : fence.Proper) (h : commonMarkFences.closes fence line = true) :
    lineMarker line = fenceMarker fence := by
  obtain ⟨text, htext, hcloses⟩ := (Option.any_eq_true _ _).1 h
  rw [Bool.and_eq_true, decide_eq_true_eq] at hcloses
  exact lineMarker_of_leading htext (hproper.length.trans hcloses.1) hproper.not_space

end Markers

/-! ## Lines in step -/

section Step

variable {line marker : List Char} {opened : Option (List Char)} {block : Option Fence}
  {before lines : List (List Char)}

/-- The parser is in the block of CommonMark, or both are in none. -/
def Agree (opened : Option (List Char)) (block : Option Fence) : Prop :=
  opened = block.map fenceMarker ∧ ∀ fence ∈ block, fence.Proper

theorem opens_of_not_marked (h : ¬ Marked line) : commonMarkFences.opens line = none := by
  cases hopens : commonMarkFences.opens line with
  | none => rfl
  | some fence =>
    obtain ⟨hproper, hmarker⟩ := opens_spec hopens
    exact absurd (hproper.marked hmarker) h

/-- **A line that is not misread keeps the readers in agreement.** -/
theorem agree_next (h : Agree opened block) (hread : misreads block line = false) :
    Agree (markerFences.next opened line) (commonMarkFences.next block line) := by
  obtain ⟨rfl, hproper⟩ := h
  cases block with
  | none =>
    by_cases hmarked : Marked line
    · -- a marked line opens a block for both
      simp only [misreads, hmarked, decide_true, Bool.true_and] at hread
      obtain ⟨fence, hopens⟩ := Option.isSome_iff_exists.1 (Option.isNone_eq_false_iff.1 hread)
      obtain ⟨hfence, hmarker⟩ := opens_spec hopens
      refine ⟨?_, fun other hother => ?_⟩
      · simp [Delimiters.next, markerFences, hmarked, hopens, hmarker]
      · rw [Delimiters.next, hopens] at hother
        cases hother
        exact hfence
    · simp [Agree, Delimiters.next, markerFences, hmarked, opens_of_not_marked hmarked]
  | some fence =>
    have hfence : fence.Proper := hproper fence rfl
    by_cases hcloses : commonMarkFences.closes fence line = true
    · have hmarker : lineMarker line = fenceMarker fence := closes_marker hfence hcloses
      simp [Agree, Delimiters.next, markerFences, hcloses, hmarker, hfence.marked hmarker]
    · have hmarker : ¬ fenceMarker fence = lineMarker line := by
        simp only [misreads, hcloses, Bool.not_false, Bool.and_true, decide_eq_false_iff_not]
          at hread
        exact fun heq => hread heq.symm
      refine ⟨?_, ?_⟩
      · simp [Delimiters.next, markerFences, hcloses, hmarker]
      · simpa [Delimiters.next, hcloses] using hproper

theorem agree_lines (h : Agree opened block) (hread : misreadCount block lines = 0) :
    Agree (lines.foldl markerFences.next opened) (lines.foldl commonMarkFences.next block) := by
  induction lines generalizing opened block with
  | nil => exact h
  | cons line lines ih =>
    rw [misreadCount, Nat.add_eq_zero_iff] at hread
    have hline : misreads block line = false := by
      by_contra hmisread
      rw [Bool.not_eq_false] at hmisread
      rw [hmisread] at hread
      exact absurd hread.1 (by decide)
    exact ih (agree_next h hline) hread.2

/-! ## Lines of one marker -/

/-- Each reader is in no block, or in one with this marker. -/
def Within (marker : List Char) (opened : Option (List Char)) (block : Option Fence) : Prop :=
  (∀ fence ∈ opened, fence = marker) ∧ ∀ fence ∈ block, fence.Proper ∧ fenceMarker fence = marker

/-- One reader is in a block, and the other is not. -/
def Opposed (opened : Option (List Char)) (block : Option Fence) : Prop :=
  opened.isSome ≠ block.isSome

/-- **A misread line turns agreement into disagreement and back**, and no other line does. -/
theorem opposed_next (h : Within marker opened block) (hline : Marked line → lineMarker line = marker) :
    Within marker (markerFences.next opened line) (commonMarkFences.next block line) ∧
      (Opposed (markerFences.next opened line) (commonMarkFences.next block line) ↔
        (Opposed opened block ↔ misreads block line = false)) := by
  obtain ⟨hopened, hblock⟩ := h
  by_cases hmarked : Marked line
  · have hmarker := hline hmarked
    -- the parser's block opens or closes
    have hnext : markerFences.next opened line = if opened.isSome then none else some marker := by
      cases opened with
      | none => simp [Delimiters.next, markerFences, hmarked, hmarker]
      | some fence =>
        simp [Delimiters.next, markerFences, hmarked, hmarker, hopened fence rfl]
    rw [hnext]
    cases block with
    | none =>
      cases hopens : commonMarkFences.opens line with
      | none =>
        cases opened <;> simp [Within, Opposed, Delimiters.next, misreads, hopens, hmarked]
      | some fence =>
        obtain ⟨hproper, hfence⟩ := opens_spec hopens
        have hsame : fenceMarker fence = marker := hfence.symm.trans hmarker
        cases opened <;>
          simp [Within, Opposed, Delimiters.next, misreads, hopens, hproper, hsame]
    | some fence =>
      obtain ⟨hproper, hsame⟩ := hblock fence rfl
      cases hcloses : commonMarkFences.closes fence line with
      | false =>
        cases opened <;>
          simp [Within, Opposed, Delimiters.next, misreads, hcloses, hproper, hsame, hmarker]
      | true => cases opened <;> simp [Within, Opposed, Delimiters.next, misreads, hcloses]
  · -- the line is nothing to either reader
    have hparser : markerFences.next opened line = opened := by
      cases opened with
      | none => simp [Delimiters.next, markerFences, hmarked]
      | some fence => simp [Delimiters.next, markerFences, hmarked]
    have hnone : ∀ fence ∈ block, lineMarker line ≠ fenceMarker fence := fun fence hfence heq =>
      hmarked ((hblock fence hfence).1.marked heq)
    have hcommon : commonMarkFences.next block line = block := by
      cases block with
      | none => exact opens_of_not_marked hmarked
      | some fence =>
        have hkept : commonMarkFences.closes fence line = false := by
          by_contra hcloses
          rw [Bool.not_eq_false] at hcloses
          exact hnone fence rfl (closes_marker (hblock fence rfl).1 hcloses)
        simp [Delimiters.next, hkept]
    have hread : misreads block line = false := by
      cases block with
      | none => simp [misreads, hmarked]
      | some fence => simp [misreads, hnone fence rfl]
    rw [hparser, hcommon, hread]
    exact ⟨⟨hopened, hblock⟩, by simp⟩

theorem opposed_lines (h : Within marker opened block) (hlines : OneMarker marker lines) :
    Opposed (lines.foldl markerFences.next opened) (lines.foldl commonMarkFences.next block) ↔
      (Opposed opened block ↔ Even (misreadCount block lines)) := by
  induction lines generalizing opened block with
  | nil => simp [misreadCount]
  | cons line lines ih =>
    obtain ⟨hwithin, hopposed⟩ := opposed_next h (hlines line List.mem_cons_self)
    rw [List.foldl_cons, List.foldl_cons,
      ih hwithin fun other hother => hlines other (List.mem_cons_of_mem _ hother), hopposed,
      misreadCount]
    cases misreads block line with
    | false => simp
    | true =>
      rw [if_pos rfl, Nat.even_add]
      simp only [Nat.not_even_one, false_iff, Bool.true_eq_false, iff_false]
      tauto

/-- In a block of the other marker both readers stay, and nothing is misread. -/
theorem stuck_lines {fence : Fence} (hproper : fence.Proper) (hother : fenceMarker fence ≠ marker)
    (hlines : OneMarker marker lines) :
    lines.foldl markerFences.next (some (fenceMarker fence)) = some (fenceMarker fence) ∧
      lines.foldl commonMarkFences.next (some fence) = some fence ∧
        misreadCount (some fence) lines = 0 := by
  induction lines with
  | nil => exact ⟨rfl, rfl, rfl⟩
  | cons line lines ih =>
    have hmarker : lineMarker line ≠ fenceMarker fence := fun heq =>
      hother (heq.symm.trans (hlines line List.mem_cons_self (hproper.marked heq)))
    have hkept : commonMarkFences.closes fence line = false := by
      by_contra hcloses
      rw [Bool.not_eq_false] at hcloses
      exact hmarker (closes_marker hproper hcloses)
    have hparser : markerFences.next (some (fenceMarker fence)) line = some (fenceMarker fence) := by
      simp [Delimiters.next, markerFences, Ne.symm hmarker]
    have hcommon : commonMarkFences.next (some fence) line = some fence := by
      simp [Delimiters.next, hkept]
    have hread : misreads (some fence) line = false := by simp [misreads, hmarker]
    rw [List.foldl_cons, List.foldl_cons, hparser, hcommon, misreadCount, hread, hcommon]
    simpa using ih fun other hin => hlines other (List.mem_cons_of_mem _ hin)

theorem misreadCount_append :
    misreadCount block (before ++ lines) =
      misreadCount block before + misreadCount (before.foldl commonMarkFences.next block) lines := by
  induction before generalizing block with
  | nil => simp [misreadCount]
  | cons line before ih =>
    rw [List.cons_append, misreadCount, misreadCount, ih, List.foldl_cons, Nat.add_assoc]

/-- **Agreement is even.** After steady lines the readers are both in a block or both in none exactly
if an even number of the lines is misread. -/
theorem steady_scan (h : Steady before) :
    ((markerFences.scan before).isSome = (commonMarkFences.scan before).isSome ↔
      Even (misreadCount none before)) := by
  obtain ⟨first, rest, marker, rfl, hfirst, hrest⟩ := h
  have hstart : Agree none none := ⟨rfl, fun _ h => absurd h (Option.not_mem_none _)⟩
  obtain ⟨hsame, hproper⟩ := agree_lines hstart hfirst
  unfold Delimiters.scan
  rw [misreadCount_append, hfirst, Nat.zero_add, List.foldl_append, List.foldl_append, hsame]
  generalize first.foldl commonMarkFences.next none = block at hproper
  by_cases hother : ∃ fence ∈ block, fenceMarker fence ≠ marker
  · obtain ⟨fence, hfence, hmarker⟩ := hother
    cases hfence
    obtain ⟨hparser, hcommon, hzero⟩ := stuck_lines (hproper fence rfl) hmarker hrest
    rw [Option.map_some, hparser, hcommon, hzero]
    simp
  · have hwithin : Within marker (block.map fenceMarker) block := by
      have hmarker : ∀ fence ∈ block, fenceMarker fence = marker := fun fence hfence => by
        by_contra hne
        exact hother ⟨fence, hfence, hne⟩
      refine ⟨fun fence hfence => ?_, fun fence hfence => ⟨hproper fence hfence, hmarker fence hfence⟩⟩
      obtain ⟨origin, horigin, rfl⟩ := Option.mem_map.1 hfence
      exact hmarker origin horigin
    have hopposed := opposed_lines hwithin hrest
    have hagree : ¬ Opposed (block.map fenceMarker) block := by simp [Opposed]
    simp only [hagree, false_iff] at hopposed
    unfold Opposed at hopposed
    rw [← not_iff_not, ← hopposed]

end Step

/-! ## Sections -/

/-- **When sections start exactly at the headings outside of fenced code**: if before each heading
past the first line an even number of lines is misread, and the markers are the same from the first
of them on; and only if their number is even, before each heading where the markers are the same. -/
theorem splitsAtHeadings_parity (content : ByteArray) (document : ParsedDocument)
    (h : MarkdownParser.parse content = some document) :
    ((∀ before, BeforeHeading document.normalizedText.toList before →
        Steady before ∧ Even (misreadCount none before)) → document.SplitsAtHeadings) ∧
      (document.SplitsAtHeadings → ∀ before,
        BeforeHeading document.normalizedText.toList before → Steady before →
          Even (misreadCount none before)) := by
  rw [splitsAtHeadings_iff_agree content document h]
  constructor
  · intro heven before line after hlines hne hheading
    obtain ⟨hsteady, hcount⟩ := heven before ⟨hne, line, after, hlines, hheading⟩
    rw [Delimiters.inside_iff, Delimiters.inside_iff, (steady_scan hsteady).2 hcount]
  · rintro hagree before ⟨hne, line, after, hlines, hheading⟩ hsteady
    have hsame := hagree before line after hlines hne hheading
    rw [Delimiters.inside_iff, Delimiters.inside_iff] at hsame
    exact (steady_scan hsteady).1 (Bool.eq_iff_iff.2 hsame)

/-- A block of four backticks that shows a block of three and a comment, and a heading after it. -/
def quotedMarkdown : ByteArray :=
  ⟨#[96, 96, 96, 96, 10, 96, 96, 96, 10, 96, 96, 96, 10, 35, 32, 120, 10, 96, 96, 96, 96, 10, 35, 32,
    121, 10]⟩

def quotedParsed : ParsedDocument where
  parserVersion := "markdown-1"
  normalizedText := "````\n```\n```\n# x\n````\n# y\n"
  sections := [⟨none, 0, "````\n```\n```\n# x\n````\n", 0, 22⟩, ⟨some "y", 1, "# y\n", 22, 26⟩]

/-- Two lines are misread before each of its headings. -/
theorem splitsAtHeadings_quoted : quotedParsed.SplitsAtHeadings := by
  refine (splitsAtHeadings_parity quotedMarkdown quotedParsed (by decide +kernel)).1
    fun before hbefore => ?_
  obtain ⟨-, line, after, hlines, hheading⟩ := hbefore
  have hmarkers : ∀ line ∈ splitLines quotedParsed.normalizedText.toList, Marked line →
      lineMarker line = "```".toList := by decide +kernel
  have hcounts : ∀ n ≤ 6, ((splitLines quotedParsed.normalizedText.toList)[n]?.any
      fun line => (matchHeading line).isSome) = true →
        Even (misreadCount none ((splitLines quotedParsed.normalizedText.toList).take n)) := by
    decide +kernel
  have hlength : (splitLines quotedParsed.normalizedText.toList).length = 6 := by decide +kernel
  have hle : before.length ≤ 6 := by
    rw [← hlength, hlines, List.length_append]
    exact Nat.le_add_right _ _
  have hcount := hcounts before.length hle
  rw [hlines, List.take_left, List.getElem?_append_right (le_refl _), Nat.sub_self] at hcount
  refine ⟨⟨[], before, "```".toList, rfl, rfl, fun other hother => ?_⟩, hcount hheading⟩
  exact hmarkers other (by rw [hlines]; exact List.mem_append_left _ hother)

/-- A block of four backticks, with a line of three and a comment in it. -/
def nestedMarkdown : ByteArray :=
  ⟨#[96, 96, 96, 96, 10, 96, 96, 96, 10, 35, 32, 120, 10, 96, 96, 96, 96, 10]⟩

def nestedParsed : ParsedDocument where
  parserVersion := "markdown-1"
  normalizedText := "````\n```\n# x\n````\n"
  sections := [⟨none, 0, "````\n```\n", 0, 9⟩, ⟨some "x", 1, "# x\n````\n", 9, 18⟩]

/-- **A shorter fence cuts a block short**, and the comment after it starts a section. -/
theorem fence_cut_short : ¬ ∀ content document,
    MarkdownParser.parse content = some document → document.SplitsAtHeadings := by
  intro h
  have hsplits := h nestedMarkdown nestedParsed (by decide +kernel)
  obtain ⟨before, line, after, hlines, hlength, -, -, hout⟩ := (hsplits 9).1 (by decide)
  have hread : splitLines nestedParsed.normalizedText.toList =
      ["````\n".toList, "```\n".toList] ++ ["# x\n".toList, "````\n".toList] := by decide +kernel
  have hbefore : before = ["````\n".toList, "```\n".toList] := by
    refine before_inj (fun l hl => ne_nil_of_mem_splitLines hl) hlines hread ?_
    rw [hlength]
    decide
  apply hout
  rw [hbefore, Delimiters.inside_iff]
  decide

end GroundedOps.Ingestion
