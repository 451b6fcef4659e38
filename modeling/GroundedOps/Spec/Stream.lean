import GroundedOps.Lib.Json
import GroundedOps.Lib.Lines
import GroundedOps.Lib.Utf
import Mathlib.Data.List.DropRight

/-!
# The reader of the Ask stream

`web/lib/ask.ts`. A JavaScript string is its code units, and what the runtime's numbers are is a
parameter: `read` for the literals of `JSON.parse`, `text` for `String(value)`.

A reading is run to its end: the chunks are what `reader.read()` gives before `done`, and the result
is the events it yields and how it ends.
-/

namespace GroundedOps

abbrev JsString := List ℕ

/-- The numbers of the JavaScript runtime. -/
structure Numbers (ν : Type) where
  read : JsString → ν
  text : ν → JsString

/-- What `readAskStream` throws. -/
inductive ReadError
  /-- a `TypeError`: the status is an object with a `toString` of its own -/
  | noPrimitive
  /-- Invalid Ask event -/
  | invalid
  /-- Event after terminal Ask event -/
  | afterTerminal
  /-- Ask event exceeds size limit -/
  | sizeLimit
  /-- Incomplete Ask event -/
  | incomplete
  /-- Missing terminal Ask event -/
  | missingTerminal
  deriving DecidableEq, Repr

variable {ν : Type} (numbers : Numbers ν)

/-! ## `parseAskLine` -/

def isNull : Json ν → Bool
  | .null => true
  | _ => false

mutual

/-- `String(value)`; `none` is its `TypeError`. -/
def jsText : Json ν → Option JsString
  | .null => some (Json.units "null")
  | .bool b => some (Json.units (if b then "true" else "false"))
  | .num n => some (numbers.text n)
  | .str s => some s
  | .arr items => jsJoin items
  | .obj members =>
    if (Json.get members "toString").isSome then none else some (Json.units "[object Object]")

/-- `items.join()`, in which `null` is nothing. -/
def jsJoin : List (Json ν) → Option JsString
  | [] => some []
  | [item] => if isNull item then some [] else jsText item
  | item :: items => do
    let first ← if isNull item then some [] else jsText item
    let rest ← jsJoin items
    return first ++ Json.units "," ++ rest

end

/-- `value === text` -/
def isText (value : Option (Json ν)) (text : String) : Bool :=
  match value with
  | some (.str s) => s == Json.units text
  | _ => false

/-- `typeof value === "string"` -/
def isString : Option (Json ν) → Bool
  | some (.str _) => true
  | _ => false

/-- `/^[A-Za-z0-9_-]{1,128}$/` -/
def isAnswerId : Option (Json ν) → Bool
  | some (.str s) => 1 ≤ s.length && s.length ≤ 128 && s.all fun u =>
      ('A'.toNat ≤ u && u ≤ 'Z'.toNat) || ('a'.toNat ≤ u && u ≤ 'z'.toNat) ||
        ('0'.toNat ≤ u && u ≤ '9'.toNat) || u == '_'.toNat || u == '-'.toNat
  | _ => false

/-- The test of a citation of a verified claim. -/
def citationAccepted : Json ν → Bool
  | .obj members =>
    (match Json.get members "resolved" with | some (.bool b) => b | _ => false) &&
      isString (Json.get members "evidence_id") && isString (Json.get members "document_version_id") &&
      (match Json.get members "span" with | some (.arr span) => span.length == 2 | _ => false)
  | _ => false

/-- The test of a verified claim. -/
def claimAccepted : Json ν → Bool
  | .obj members =>
    isString (Json.get members "text") &&
      match Json.get members "citations" with
      | some (.arr citations) => 0 < citations.length && citations.all citationAccepted
      | _ => false
  | _ => false

/-- `["verified", "abstained", "failed", "degraded"].includes(status)` -/
def finalStatus (status : JsString) : Bool :=
  (["verified", "abstained", "failed", "degraded"].map Json.units).contains status

/-- The three tests that a `final` event with the status `"verified"` has to pass. -/
def verifiedAccepted (members : List (JsString × Json ν)) (claims sources : List (Json ν)) : Bool :=
  isAnswerId (Json.get members "answer_id") && !claims.isEmpty && !sources.isEmpty &&
    claims.all claimAccepted

/-- The branch of `parseAskLine` for a `final` event. -/
def parseFinal (members : List (JsString × Json ν)) : Except ReadError (Option (Json ν)) :=
  let status := Json.get members "status"
  match status.elim (some (Json.units "undefined")) (jsText numbers) with
  | none => .error .noPrimitive
  | some text =>
    if finalStatus text then
      match Json.get members "answer", Json.get members "claims", Json.get members "sources" with
      | some (.str _), some (.arr claims), some (.arr sources)
      | some .null, some (.arr claims), some (.arr sources) =>
        if isText status "verified" && !verifiedAccepted members claims sources then .ok none
        else .ok (some (.obj members))
      | _, _, _ => .ok none
    else .ok none

def parseAskLine (line : JsString) : Except ReadError (Option (Json ν)) :=
  match Json.parse numbers.read line with
  | some (.obj members) =>
    let type := Json.get members "type"
    let status := Json.get members "status"
    if isText type "status" && (isText status "retrieving" || isText status "generating") then
      .ok (some (.obj members))
    else if isText type "delta" && isText status "unverified" && isString (Json.get members "text") then
      .ok (some (.obj members))
    else if isText type "final" then parseFinal numbers members
    else .ok none
  | _ => .ok none

/-- `event.type === "final"` -/
def isFinal : Json ν → Bool
  | .obj members => isText (Json.get members "type") "final"
  | _ => false

/-! ## `TextDecoder` -/

/-- A decoder of UTF-8 that replaces errors and drops a byte order mark at the start. -/
structure TextDecoder where
  state : Utf8.State := {}
  bomSeen : Bool := false
  deriving DecidableEq, Repr

/-- The code points that are serialized: all but a byte order mark that comes first. -/
def dropBom (bomSeen : Bool) : List ℕ → Bool × List ℕ
  | [] => (bomSeen, [])
  | point :: points => (true, if !bomSeen && point = 0xfeff then points else point :: points)

/-- `decoder.decode(value, { stream })` -/
def TextDecoder.decode (decoder : TextDecoder) (value : List UInt8) (stream : Bool) :
    TextDecoder × JsString :=
  let (state, points) := Utf8.decode decoder.state value
  let points := if stream then points else points ++ Utf8.flush state
  let (bomSeen, points) := dropBom decoder.bomSeen points
  (⟨if stream then state else {}, bomSeen⟩, Utf16.encode points)

/-! ## `readAskStream` -/

/-- The white space and the line terminators of `trim`. -/
def isJsSpace (u : ℕ) : Bool :=
  (9 ≤ u && u ≤ 13) || u == 32 || u == 0xa0 || u == 0x1680 || (0x2000 ≤ u && u ≤ 0x200a) ||
    u == 0x2028 || u == 0x2029 || u == 0x202f || u == 0x205f || u == 0x3000 || u == 0xfeff

def trim (s : JsString) : JsString := (s.dropWhile isJsSpace).rdropWhile isJsSpace

/-- The loop over the lines of the buffer: the events it yields, and what is left of the buffer with
the flag `terminal`, or what it throws. -/
def readLines (buffer : JsString) (terminal : Bool) :
    List (Json ν) × Except ReadError (JsString × Bool) :=
  match h : Lines.cut '\n'.toNat buffer with
  | none => ([], .ok (buffer, terminal))
  | some (line, rest) =>
    have : rest.length < buffer.length := Lines.cut_length h
    if trim line = [] then readLines rest terminal
    else
      match parseAskLine numbers (trim line) with
      | .error error => ([], .error error)
      | .ok none => ([], .error .invalid)
      | .ok (some event) =>
        if terminal then ([], .error .afterTerminal)
        else
          let (events, result) := readLines rest (isFinal event)
          (event :: events, result)
termination_by buffer.length

/-- The variables of `readAskStream`. -/
structure StreamReader where
  decoder : TextDecoder := {}
  buffer : JsString := []
  terminal : Bool := false

/-- What follows the loop over the chunks. -/
def finishStream (buffer : JsString) (terminal : Bool) : Except ReadError Unit :=
  if trim buffer ≠ [] then .error .incomplete
  else if !terminal then .error .missingTerminal
  else .ok ()

/-- The loop over the chunks; the last round has no value. -/
def readChunks (reader : StreamReader) : List (List UInt8) → List (Json ν) × Except ReadError Unit
  | [] =>
    let (_, text) := reader.decoder.decode [] false
    match readLines numbers (reader.buffer ++ text) reader.terminal with
    | (events, .error error) => (events, .error error)
    | (events, .ok (buffer, terminal)) => (events, finishStream buffer terminal)
  | value :: chunks =>
    let (decoder, text) := reader.decoder.decode value true
    match readLines numbers (reader.buffer ++ text) reader.terminal with
    | (events, .error error) => (events, .error error)
    | (events, .ok (buffer, terminal)) =>
      if 1000000 < buffer.length then (events, .error .sizeLimit)
      else
        let (more, outcome) := readChunks ⟨decoder, buffer, terminal⟩ chunks
        (events ++ more, outcome)

/-- `readAskStream`, over a stream of these chunks. -/
def readAskStream (chunks : List (List UInt8)) : List (Json ν) × Except ReadError Unit :=
  readChunks numbers {} chunks

end GroundedOps
