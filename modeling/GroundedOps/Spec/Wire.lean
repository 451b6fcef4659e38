import GroundedOps.Lib.JsonText
import GroundedOps.Spec.Ask

/-!
# The Ask wire format

`interfaces/http/ask.py`: the payload dictionaries of the events, with their keys in the source's
order, and the bytes of `_stream` for a client that stays connected.
-/

namespace GroundedOps

open JsonText

/-- A text or `None`. -/
def optionalText : Option String → Data
  | none => .null
  | some text => .str text

/-- `list(span)` -/
def spanData (span : ℤ × ℤ) : Data := .arr [.int span.1, .int span.2]

def CitationPayload.data (citation : CitationPayload) : Data :=
  .obj
    [("evidence_id", .str citation.evidenceId),
     ("document_version_id", .str citation.documentVersionId),
     ("span", spanData citation.span),
     ("resolved", .bool citation.resolved)]

def ClaimPayload.data (claim : ClaimPayload) : Data :=
  .obj
    [("text", .str claim.text),
     ("citations", .arr (claim.citations.map CitationPayload.data))]

def SourcePayload.data (source : SourcePayload) : Data :=
  .obj
    [("evidence_id", .str source.evidenceId),
     ("source_id", .str source.sourceId),
     ("document_id", .str source.documentId),
     ("document_version_id", .str source.documentVersionId),
     ("span", spanData source.span)]

/-- `_usage` -/
def usageData (usage : AnswerUsage) : Data :=
  .obj
    [("model", .str usage.model),
     ("input_tokens", .int usage.inputTokens),
     ("output_tokens", .int usage.outputTokens)]

def ErrorPayload.data (error : ErrorPayload) : Data :=
  .obj [("code", .str error.code), ("message", .str error.message)]

def DegradedPayload.data (degraded : DegradedPayload) : Data :=
  .obj
    [("active", .bool degraded.active),
     ("mode", optionalText degraded.mode),
     ("reason", optionalText degraded.reason)]

def FinalPayload.members (payload : FinalPayload) : List (String × Data) :=
  [("type", .str "final"), ("status", .str payload.status)] ++
    (payload.answerId.toList.map fun answerId => ("answer_id", .str answerId)) ++
    [("answer", optionalText payload.answer),
     ("claims", .arr (payload.claims.map ClaimPayload.data)),
     ("sources", .arr (payload.sources.map SourcePayload.data)),
     ("usage", payload.usage.elim .null usageData),
     ("abstention", optionalText payload.abstention)] ++
    (payload.error.toList.map fun error => ("error", error.data)) ++
    [("degraded", payload.degraded.data)]

/-- `event.payload` -/
def AskEvent.payload : AskEvent → Data
  | .status stage => .obj [("type", .str "status"), ("status", .str stage)]
  | .delta text => .obj [("type", .str "delta"), ("status", .str "unverified"), ("text", .str text)]
  | .final payload => .obj payload.members

/-- `json.dumps(event.payload, separators=(",", ":"))` -/
def AskEvent.line (event : AskEvent) : List Char := dumps event.payload

/-- `_stream`: the chunks that it yields for the events of a session. -/
def streamChunks (events : List AskEvent) : List (List UInt8) :=
  events.map fun event => Utf8.encode (event.line ++ ['\n'])

/-! ## The route -/

def isLowerHex (c : Char) : Bool := c.isDigit || ('a' ≤ c && c ≤ 'f')

/-- A text that `str(uuid4())` can be: groups of 8, 4, 4, 4 and 12 hexadecimal digits. -/
def isUuid (text : String) : Bool :=
  text.length = 36 && text.toList.zipIdx.all fun (c, i) =>
    if i = 8 ∨ i = 13 ∨ i = 18 ∨ i = 23 then c = '-' else isLowerHex c

end GroundedOps
