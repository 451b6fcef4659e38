import GroundedOps.Spec.Ingestion

/-!
# The Markdown corpus

`adapters/sources/markdown.py`: a scan finds the manifest and the fixtures as they are, and
compares each source with the event that an earlier scan made of it. `none` is
`SourceInputError`.
-/

namespace GroundedOps.Ingestion

/-- `SourceEvent`, with the fields that ingestion does not read. -/
structure CorpusEvent extends SourceEvent where
  license : String
  synthetic : Bool := false
  errorClass : Option String := none

/-- An entry of the manifest. -/
structure ManifestEntry where
  id : String
  url : String
  license : String
  fixture : String
  synthetic : Bool := false

/-- What opening a fixture comes to. -/
inductive Fixture
  /-- `FileNotFoundError` -/
  | missing
  /-- outside the root, not Markdown, or any other `OSError` -/
  | refused
  | content (bytes : ByteArray)

/-- What a scan finds. -/
structure Snapshot where
  /-- `none` if `manifest.yaml` cannot be read, is over 1 MiB, or is not a mapping with a list
  of entries of these fields under `sources` -/
  manifest : Option (List ManifestEntry)
  fixture : String → Fixture

structure MarkdownCorpus where
  tenantId : String
  policy : List String

namespace MarkdownCorpus

/-- `MAX_BYTES` -/
def maxBytes : ℕ := 10 * 1024 * 1024

/-- The constructor of the source of an entry; `none` is its `ValueError`. -/
def source (corpus : MarkdownCorpus) (entry : ManifestEntry) : Option Source :=
  if h : (validIdentifier entry.id && validIdentifier corpus.tenantId &&
      validIdentifier "markdown") = true ∧
      validPolicy corpus.policy = true ∧ validText entry.url = true then
    some { id := entry.id, tenantId := corpus.tenantId, type := "markdown"
           externalRef := entry.url, policy := corpus.policy
           identifiers_valid := h.1, policy_valid := h.2.1, externalRef_valid := h.2.2 }
  else none

def validEntry (entry : ManifestEntry) : Bool :=
  [entry.id, entry.url, entry.license, entry.fixture].all validText

/-- `_entries` -/
def entries (corpus : MarkdownCorpus) (snapshot : Snapshot) :
    Option (List (Source × ManifestEntry)) := do
  let manifest ← snapshot.manifest
  guard (manifest ≠ [] ∧ manifest.length ≤ 10000)
  guard (manifest.all validEntry ∧ (manifest.map ManifestEntry.id).Nodup)
  manifest.mapM fun entry => return (← corpus.source entry, entry)

/-- What a document has to satisfy to be more than a malformed one. -/
def validContent (content : ByteArray) : Bool :=
  content.size ≤ maxBytes && !content.data.contains 0 && content.validateUTF8

def changeKind (old : Option CorpusEvent) (digest : String) : SourceEventKind :=
  match old with
  | none => .new
  | some old => if old.sourceVersion = digest then .unchanged else .changed

/-- `replace(old, kind="deleted", content=None)` -/
def deletion (old : CorpusEvent) : CorpusEvent := { old with kind := .deleted, content := none }

/-- The event of one entry. -/
def event (P : Platform) (snapshot : Snapshot) (capturedAt : ℤ) (old : Option CorpusEvent)
    (source : Source) (entry : ManifestEntry) : CorpusEvent :=
  let base : CorpusEvent :=
    { kind := .malformed, source, canonicalKey := entry.fixture
      sourceVersion := String.ofList (List.replicate 64 '0'), sourceTimestamp := capturedAt
      content := none, license := entry.license, synthetic := entry.synthetic
      errorClass := some "invalid_source" }
  match snapshot.fixture entry.fixture with
  | .missing => (old.map deletion).getD base
  | .refused => base
  | .content content =>
    if validContent content then
      { kind := changeKind old (P.sha256 content), source, canonicalKey := entry.fixture
        sourceVersion := P.sha256 content, sourceTimestamp := capturedAt, content := some content
        license := entry.license, synthetic := entry.synthetic }
    else base

/-- `scan`; a time without a zone is `none`. -/
def scan (P : Platform) (corpus : MarkdownCorpus) (snapshot : Snapshot) (capturedAt : Option ℤ)
    (previous : List (String × CorpusEvent)) : Option (List CorpusEvent) := do
  let capturedAt ← capturedAt
  guard (previous.all fun item => item.2.source.tenantId == corpus.tenantId)
  let events := (← corpus.entries snapshot).map fun (source, entry) =>
    event P snapshot capturedAt (previous.lookup source.id) source entry
  let seen := events.map fun event => event.source.id
  let gone := (previous.filter fun item => item.1 ∉ seen).map fun item => deletion item.2
  return (events ++ gone).mergeSort fun a b => a.source.id ≤ b.source.id

end MarkdownCorpus

end GroundedOps.Ingestion
