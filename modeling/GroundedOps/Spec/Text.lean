import GroundedOps.Lib.Runs

/-!
# Text, as the program's string methods see it

`str.isspace`, `str.strip`, `str.split` and the character classes of the regular
expressions, over Unicode code points. `str.casefold` is a table of the Unicode
database and stays a parameter of whatever uses it: any function where nothing depends
on what it maps a text to, and else a `Unicode`.
-/

namespace GroundedOps

/-- `str.isspace` of one character: what `str.strip` removes and `str.split` splits on. -/
def isSpace (c : Char) : Bool :=
  let n := c.toNat
  (9 ≤ n && n ≤ 13) || (28 ≤ n && n ≤ 32) || n == 0x85 || n == 0xa0 || n == 0x1680 ||
    (0x2000 ≤ n && n ≤ 0x200a) || n == 0x2028 || n == 0x2029 || n == 0x202f || n == 0x205f ||
    n == 0x3000

/-- `not text.strip()` -/
def isBlank (text : String) : Bool := text.toList.all isSpace

/-- `text.split()`: the maximal runs of characters that are not white space. -/
def splitWords (text : String) : List String :=
  ((text.toList.splitOnP isSpace).filter (· ≠ [])).map String.ofList

/-- `re.findall(r"[a-z0-9]+", text)`: the maximal runs of lower-case ASCII letters and digits. -/
def asciiWords (text : String) : List String :=
  ((text.toList.splitOnP fun c => !(c.isLower || c.isDigit)).filter (· ≠ [])).map String.ofList

def isIdentifierChar (c : Char) : Bool :=
  c.isAlphanum || c == '_' || c == '.' || c == ':' || c == '-'

/-- `validate_identifier`: a full match of `[A-Za-z0-9][A-Za-z0-9_.:-]{0,127}`. -/
def validIdentifier (value : String) : Bool :=
  match value.toList with
  | [] => false
  | c :: cs => c.isAlphanum && cs.length ≤ 127 && cs.all isIdentifierChar

/-! ## The Unicode database -/

/-- A lower-case ASCII letter or a digit: what `[a-z0-9]` matches. -/
def isTokenChar (c : Char) : Bool := c.isLower || c.isDigit

/-- What the Unicode database says of a character. -/
structure Unicode where
  /-- it is a letter or a digit -/
  isAlnum : Char → Bool
  /-- its full case folding -/
  fold : Char → List Char
  fold_ne_nil : ∀ c, fold c ≠ []
  /-- only letters and digits fold to ASCII letters and digits -/
  fold_separator : ∀ c, isAlnum c = false → ∀ d ∈ fold c, isTokenChar d = false

/-- `text.casefold()` -/
def Unicode.casefold (u : Unicode) (text : String) : String :=
  String.ofList (text.toList.flatMap u.fold)

/-- The maximal runs of letters and digits, each case folded. -/
def Unicode.words (u : Unicode) (text : String) : List String :=
  (Runs.runs u.isAlnum text.toList).map fun run => String.ofList (run.flatMap u.fold)

end GroundedOps
