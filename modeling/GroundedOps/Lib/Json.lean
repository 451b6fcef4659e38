import Mathlib.Tactic

/-!
# JSON texts

The grammar of ECMA-404 over code units, as `JSON.parse` reads it: a value with white space around
it and nothing else. What a number literal stands for is left to a function `read`, and the members
of an object are kept in the order of the text; the last one of a name counts (`get`).

The parser is given fuel: of every two calls, one has read a code unit.
-/

/-- A JSON value: strings are code units, numbers are of any type. -/
inductive Json (ν : Type)
  | null
  | bool (b : Bool)
  | num (n : ν)
  | str (s : List ℕ)
  | arr (items : List (Json ν))
  | obj (members : List (List ℕ × Json ν))

namespace Json

variable {ν : Type}

/-- The code units of an ASCII text. -/
def units (text : String) : List ℕ := text.toList.map Char.toNat

/-- The member of a name, if the object has one. -/
def get (members : List (List ℕ × Json ν)) (name : String) : Option (Json ν) :=
  (members.reverse.find? fun member => member.1 = units name).map Prod.snd

/-! ## Tokens -/

def isSpace (u : ℕ) : Bool := u = 9 || u = 10 || u = 13 || u = 32

def isDigit (u : ℕ) : Bool := '0'.toNat ≤ u && u ≤ '9'.toNat

def skip (input : List ℕ) : List ℕ := input.dropWhile isSpace

def hexDigit (u : ℕ) : Option ℕ :=
  if '0'.toNat ≤ u ∧ u ≤ '9'.toNat then some (u - '0'.toNat)
  else if 'a'.toNat ≤ u ∧ u ≤ 'f'.toNat then some (u - 'a'.toNat + 10)
  else if 'A'.toNat ≤ u ∧ u ≤ 'F'.toNat then some (u - 'A'.toNat + 10)
  else none

def hex4 (a b c d : ℕ) : Option ℕ := do
  let a ← hexDigit a
  let b ← hexDigit b
  let c ← hexDigit c
  let d ← hexDigit d
  return ((a * 16 + b) * 16 + c) * 16 + d

/-- What a letter behind a backslash stands for. -/
def escape (u : ℕ) : Option ℕ :=
  if u = '"'.toNat ∨ u = '\\'.toNat ∨ u = '/'.toNat then some u
  else if u = 'b'.toNat then some 8
  else if u = 'f'.toNat then some 12
  else if u = 'n'.toNat then some 10
  else if u = 'r'.toNat then some 13
  else if u = 't'.toNat then some 9
  else none

/-- A string, behind its opening quote. -/
def string : List ℕ → Option (List ℕ × List ℕ)
  | [] => none
  | u :: rest =>
    if u = '"'.toNat then some ([], rest)
    else if u = '\\'.toNat then
      match rest with
      | [] => none
      | v :: rest =>
        if v = 'u'.toNat then
          match rest with
          | a :: b :: c :: d :: rest =>
            (hex4 a b c d).bind fun x => (string rest).map fun (s, rest) => (x :: s, rest)
          | _ => none
        else (escape v).bind fun x => (string rest).map fun (s, rest) => (x :: s, rest)
    else if u < 32 then none
    else (string rest).map fun (s, rest) => (u :: s, rest)

/-! ## Numbers -/

/-- At least one digit. -/
def digits (input : List ℕ) : Option (List ℕ × List ℕ) :=
  if input.takeWhile isDigit = [] then none
  else some (input.takeWhile isDigit, input.dropWhile isDigit)

def integer : List ℕ → Option (List ℕ × List ℕ)
  | [] => none
  | u :: rest => if u = '0'.toNat then some ([u], rest) else digits (u :: rest)

def fraction : List ℕ → Option (List ℕ × List ℕ)
  | [] => some ([], [])
  | u :: rest =>
    if u = '.'.toNat then (digits rest).map fun (ds, rest) => (u :: ds, rest)
    else some ([], u :: rest)

def exponent : List ℕ → Option (List ℕ × List ℕ)
  | [] => some ([], [])
  | u :: rest =>
    if u = 'e'.toNat ∨ u = 'E'.toNat then
      match rest with
      | [] => none
      | v :: rest =>
        if v = '+'.toNat ∨ v = '-'.toNat then (digits rest).map fun (ds, rest) => (u :: v :: ds, rest)
        else (digits (v :: rest)).map fun (ds, rest) => (u :: ds, rest)
    else some ([], u :: rest)

def unsigned (input : List ℕ) : Option (List ℕ × List ℕ) := do
  let (whole, rest) ← integer input
  let (decimals, rest) ← fraction rest
  let (power, rest) ← exponent rest
  return (whole ++ decimals ++ power, rest)

/-- The literal of a number. -/
def number : List ℕ → Option (List ℕ × List ℕ)
  | [] => none
  | u :: rest =>
    if u = '-'.toNat then (unsigned rest).map fun (literal, rest) => (u :: literal, rest)
    else unsigned (u :: rest)

/-! ## Values -/

variable (read : List ℕ → ν)

/-- A value that is no string, array or object. -/
def literal (input : List ℕ) : Option (Json ν × List ℕ) :=
  if (units "null").isPrefixOf input then some (.null, input.drop 4)
  else if (units "true").isPrefixOf input then some (.bool true, input.drop 4)
  else if (units "false").isPrefixOf input then some (.bool false, input.drop 5)
  else (number input).map fun (literal, rest) => (.num (read literal), rest)

mutual

def value : ℕ → List ℕ → Option (Json ν × List ℕ)
  | 0, _ => none
  | fuel + 1, input =>
    match skip input with
    | [] => none
    | u :: rest =>
      if u = '{'.toNat then
        match skip rest with
        | [] => none
        | v :: rest =>
          if v = '}'.toNat then some (.obj [], rest)
          else (members fuel (v :: rest)).map fun (items, rest) => (.obj items, rest)
      else if u = '['.toNat then
        match skip rest with
        | [] => none
        | v :: rest =>
          if v = ']'.toNat then some (.arr [], rest)
          else (elements fuel (v :: rest)).map fun (items, rest) => (.arr items, rest)
      else if u = '"'.toNat then (string rest).map fun (s, rest) => (.str s, rest)
      else literal read (u :: rest)

/-- The elements of an array, up to its closing bracket. -/
def elements : ℕ → List ℕ → Option (List (Json ν) × List ℕ)
  | 0, _ => none
  | fuel + 1, input =>
    (value fuel input).bind fun (item, rest) =>
      match skip rest with
      | [] => none
      | u :: rest =>
        if u = ','.toNat then (elements fuel rest).map fun (items, rest) => (item :: items, rest)
        else if u = ']'.toNat then some ([item], rest)
        else none

/-- The members of an object, up to its closing brace. -/
def members : ℕ → List ℕ → Option (List (List ℕ × Json ν) × List ℕ)
  | 0, _ => none
  | fuel + 1, input =>
    match skip input with
    | [] => none
    | u :: rest =>
      if u = '"'.toNat then
        (string rest).bind fun (name, rest) =>
          match skip rest with
          | [] => none
          | v :: rest =>
            if v = ':'.toNat then
              (value fuel rest).bind fun (item, rest) =>
                match skip rest with
                | [] => none
                | w :: rest =>
                  if w = ','.toNat then
                    (members fuel rest).map fun (items, rest) => ((name, item) :: items, rest)
                  else if w = '}'.toNat then some ([(name, item)], rest)
                  else none
            else none
      else none

end

/-- `JSON.parse(text)`; `none` is its `SyntaxError`. -/
def parse (text : List ℕ) : Option (Json ν) :=
  (value read (2 * text.length + 2) text).bind fun (item, rest) =>
    if skip rest = [] then some item else none

end Json
