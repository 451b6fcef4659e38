import GroundedOps.Lib.Tiling
import GroundedOps.Spec.Pipeline
import GroundedOps.Spec.Text

/-!
# The parser and the chunker

`modules/parsing/parser.py` and `modules/chunking/structural.py`. Offsets count the characters of
the normalized text.

The heading expression is matched as its backtracking does: the blanks after the hashes give way
from the right, and for each of them the title grows from one character until the rest of the
line closes it.
-/

namespace GroundedOps.Ingestion

open Tiling

/-! ## Lines -/

/-- `text.replace("\r\n", "\n")` -/
def replaceCrLf : List Char → List Char
  | '\r' :: '\n' :: rest => '\n' :: replaceCrLf rest
  | c :: rest => c :: replaceCrLf rest
  | [] => []

/-- `text.replace("\r\n", "\n").replace("\r", "\n")` -/
def normalizeNewlines (text : List Char) : List Char :=
  (replaceCrLf text).map fun c => if c = '\r' then '\n' else c

/-- The characters that end a line for `str.splitlines`. -/
def isLineBreak (c : Char) : Bool :=
  let n := c.toNat
  (10 ≤ n && n ≤ 13) || (28 ≤ n && n ≤ 30) || n == 0x85 || n == 0x2028 || n == 0x2029

/-- `splitlines(keepends=True)`; `line` is the line that is being read, in reverse. -/
def splitLinesFrom (line : List Char) : List Char → List (List Char)
  | [] => if line = [] then [] else [line.reverse]
  | '\r' :: '\n' :: rest => ('\n' :: '\r' :: line).reverse :: splitLinesFrom [] rest
  | c :: rest =>
    if isLineBreak c then (c :: line).reverse :: splitLinesFrom [] rest
    else splitLinesFrom (c :: line) rest

def splitLines (text : List Char) : List (List Char) := splitLinesFrom [] text

/-! ## Headings -/

/-- `[ \t]` -/
def isBlankChar (c : Char) : Bool := c = ' ' || c = '\t'

/-- A match of `[ \t]*#*[ \t]*(?:\n)?$`. -/
def closesHeading (rest : List Char) : Bool :=
  let rest := ((rest.dropWhile isBlankChar).dropWhile (· = '#')).dropWhile isBlankChar
  rest = [] || rest = ['\n']

/-- `(.+?)` and what closes it, after the characters `title`. -/
def lazyTitle (title : List Char) : List Char → Option (List Char)
  | [] => none
  | c :: rest =>
    if c = '\n' then none
    else if closesHeading rest then some (title ++ [c])
    else lazyTitle (title ++ [c]) rest

/-- `_HEADING.match`: the level and the title. -/
def matchHeading (line : List Char) : Option (ℕ × String) :=
  let hashes := line.takeWhile (· = '#')
  let rest := line.dropWhile (· = '#')
  let blanks := rest.takeWhile isBlankChar
  if 1 ≤ hashes.length ∧ hashes.length ≤ 6 then
    -- `[ \t]+` keeps one blank at least
    ((List.range blanks.length).findSome? fun back =>
      lazyTitle [] (rest.drop (blanks.length - back))).map fun title =>
        (hashes.length, String.ofList title)
  else none

/-! ## `MarkdownParser` -/

/-- `text[start:end]` -/
def sliceText (text : String) (start stop : ℕ) : String := String.ofList (slice text.toList start stop)

namespace MarkdownParser

def maxBytes : ℕ := 10 * 1024 * 1024

/-- The variables of the loop over the lines. -/
structure ParseState where
  sections : List ParsedSection := []
  sectionStart : ℕ := 0
  sectionTitle : Option String := none
  sectionLevel : ℕ := 0
  cursor : ℕ := 0
  fence : Option (List Char) := none

/-- `_section` -/
def makeSection (text : String) (start stop : ℕ) (title : Option String) (level : ℕ) : ParsedSection :=
  { title := title, level := level, text := sliceText text start stop, start := start, «end» := stop }

/-- The section that is being read is added, unless it is empty. -/
def ParseState.flush (normalized : String) (state : ParseState) : List ParsedSection :=
  if state.sectionStart < state.cursor then
    state.sections ++ [makeSection normalized state.sectionStart state.cursor state.sectionTitle
      state.sectionLevel]
  else state.sections

/-- The body of the loop. -/
def readLine (normalized : String) (state : ParseState) (line : List Char) : ParseState :=
  let marker := (line.dropWhile isSpace).take 3
  let state :=
    if marker = "```".toList ∨ marker = "~~~".toList then
      match state.fence with
      | none => { state with fence := some marker }
      | some fence => if fence = marker then { state with fence := none } else state
    else if state.fence = none then
      match matchHeading line with
      | some (level, title) =>
        { state with
          sections := state.flush normalized
          sectionStart := state.cursor
          sectionLevel := level
          sectionTitle := some title }
      | none => state
    else state
  { state with cursor := state.cursor + line.length }

def parseText (text : String) : ParsedDocument :=
  let normalized := String.ofList (normalizeNewlines text.toList)
  let state := (splitLines normalized.toList).foldl (readLine normalized) {}
  { parserVersion := parserVersion
    normalizedText := normalized
    sections := state.flush normalized }

/-- `parse`; `none` is `ParserInputError`. -/
def parse (content : ByteArray) : Option ParsedDocument :=
  if maxBytes < content.size ∨ content.data.contains 0 then none
  else (String.fromUTF8? content).map parseText

end MarkdownParser

/-! ## `StructuralChunker` -/

/-- A chunk, with the field that ingestion does not read. -/
structure CountedChunk extends Chunk where
  tokenCount : ℕ
  deriving DecidableEq, Repr

/-- `StructuralChunker.VERSION` -/
def chunkerVersion : String := "structural-1"

structure StructuralChunker where
  maxTokens : ℕ
  maxTokens_pos : 0 < maxTokens

namespace StructuralChunker

/-- The starts of the matches of `\S+`; `inToken` when the character before belongs to one. -/
def tokenStarts (inToken : Bool) (position : ℕ) : List Char → List ℕ
  | [] => []
  | c :: rest =>
    if isSpace c then tokenStarts false (position + 1) rest
    else if inToken then tokenStarts true (position + 1) rest
    else position :: tokenStarts true (position + 1) rest

/-- The starts of `_TOKEN.finditer(text, start, end)`. -/
def tokens (text : String) (start stop : ℕ) : List ℕ :=
  tokenStarts false start (slice text.toList start stop)

/-- `_count` -/
def count (text : String) (start stop : ℕ) : ℕ := (tokens text start stop).length

/-- `range(start, stop, step)` -/
def steps (start stop step : ℕ) : List ℕ := List.range' start ((stop - start + step - 1) / step) step

variable (chunker : StructuralChunker)

/-- `_split_range` -/
def splitRange (text : String) (start stop : ℕ) : List (ℕ × ℕ) :=
  let tokens := tokens text start stop
  if tokens = [] then [(start, stop)]
  else
    let (ranges, cursor) := (steps chunker.maxTokens tokens.length chunker.maxTokens).foldl
      (fun (ranges, cursor) offset =>
        let boundary := tokens.getD offset stop
        (ranges ++ [(cursor, boundary)], boundary)) ([], start)
    ranges ++ [(cursor, stop)]

/-- The variables of the loop over the sections. -/
structure ChunkState where
  ranges : List (ℕ × ℕ) := []
  pendingStart : Option ℕ := none
  pendingEnd : ℕ := 0

/-- The pending range is added, if there is one. -/
def ChunkState.flush (state : ChunkState) : List (ℕ × ℕ) :=
  match state.pendingStart with
  | none => state.ranges
  | some pendingStart => state.ranges ++ [(pendingStart, state.pendingEnd)]

/-- The body of the loop. -/
def readSection (text : String) (state : ChunkState) (parsed : ParsedSection) : ChunkState :=
  if chunker.maxTokens < count text parsed.start parsed.end then
    { state with
      ranges := state.flush ++ chunker.splitRange text parsed.start parsed.end
      pendingStart := none }
  else
    match state.pendingStart with
    | none => { state with pendingStart := some parsed.start, pendingEnd := parsed.end }
    | some pendingStart =>
      if chunker.maxTokens < count text pendingStart parsed.end then
        { state with
          ranges := state.ranges ++ [(pendingStart, state.pendingEnd)]
          pendingStart := some parsed.start
          pendingEnd := parsed.end }
      else { state with pendingEnd := parsed.end }

/-- The spans of `_build_chunk`. -/
def spans (document : ParsedDocument) (start stop : ℕ) : List ProvenanceSpan :=
  (document.sections.filter fun parsed => parsed.start < stop ∧ start < parsed.end).map fun parsed =>
    { start := max start parsed.start, «end» := min stop parsed.end
      title := parsed.title, level := parsed.level }

/-- `_build_chunk` -/
def buildChunk (document : ParsedDocument) (ordinal start stop : ℕ) : CountedChunk where
  ordinal := ordinal
  text := sliceText document.normalizedText start stop
  start := start
  «end» := stop
  tokenCount := count document.normalizedText start stop
  spans := spans document start stop
  parserVersion := document.parserVersion
  chunkerVersion := chunkerVersion

/-- The ranges of the chunks. -/
def chunkRanges (document : ParsedDocument) : List (ℕ × ℕ) :=
  (document.sections.foldl (chunker.readSection document.normalizedText) {}).flush

/-- `chunk` -/
def chunk (document : ParsedDocument) : List CountedChunk :=
  (chunker.chunkRanges document).mapIdx fun ordinal range =>
    buildChunk document ordinal range.1 range.2

end StructuralChunker

/-- The components of a worker that splits Markdown. -/
def markdownComponents (platform : Platform) (chunker : StructuralChunker) : Components where
  platform := platform
  parse := MarkdownParser.parse
  chunk := fun document => (chunker.chunk document).map CountedChunk.toChunk

end GroundedOps.Ingestion
