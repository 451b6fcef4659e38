import GroundedOps.Lib.Json
import GroundedOps.Lib.Utf

/-!
# Written JSON

The text that `json.dumps` writes with the separators `","` and `":"`, in ASCII: what is not
printable ASCII is escaped by its UTF-16 code units.

* `value_dumps`: **a parser reads back what was written**, whatever follows.
* `parse_dumps`: the text is one value, and nothing else.
* `dumps_printable`: **the text has no control character**, so it is one line.
* `dumps_inj`: **the text determines what was written**.
-/

namespace JsonText

/-- What can be written. -/
inductive Data
  | null
  | bool (b : Bool)
  | int (n : ℤ)
  | str (s : String)
  | arr (items : List Data)
  | obj (members : List (String × Data))

/-! ## The text -/

/-- `\uXXXX` -/
def escapeUnit (u : ℕ) : List Char :=
  ['\\', 'u', Nat.digitChar (u / 4096), Nat.digitChar (u / 256 % 16), Nat.digitChar (u / 16 % 16),
    Nat.digitChar (u % 16)]

def escapeChar (c : Char) : List Char :=
  if c = '"' then ['\\', '"']
  else if c = '\\' then ['\\', '\\']
  else if c = '\n' then ['\\', 'n']
  else if c = '\r' then ['\\', 'r']
  else if c = '\t' then ['\\', 't']
  else if c = Char.ofNat 8 then ['\\', 'b']
  else if c = Char.ofNat 12 then ['\\', 'f']
  else if ' '.toNat ≤ c.toNat ∧ c.toNat ≤ '~'.toNat then [c]
  else (Utf16.units c.toNat).flatMap escapeUnit

def quote (s : String) : List Char := '"' :: (s.toList.flatMap escapeChar ++ ['"'])

def decimal (n : ℤ) : List Char :=
  if n < 0 then '-' :: Nat.toDigits 10 n.natAbs else Nat.toDigits 10 n.natAbs

mutual

def dumps : Data → List Char
  | .null => "null".toList
  | .bool b => if b then "true".toList else "false".toList
  | .int n => decimal n
  | .str s => quote s
  | .arr items => '[' :: (dumpsItems items ++ [']'])
  | .obj members => '{' :: (dumpsMembers members ++ ['}'])

def dumpsItems : List Data → List Char
  | [] => []
  | [item] => dumps item
  | item :: items => dumps item ++ ',' :: dumpsItems items

def dumpsMembers : List (String × Data) → List Char
  | [] => []
  | [(name, item)] => quote name ++ ':' :: dumps item
  | (name, item) :: members => quote name ++ ':' :: (dumps item ++ ',' :: dumpsMembers members)

end

/-! ## What the text stands for -/

/-- The code units of a text. -/
def units (text : List Char) : List ℕ := text.map Char.toNat

section Value

variable {ν : Type} (read : List ℕ → ν)

mutual

/-- The value, for a reader with numbers of its own. -/
def Data.value : Data → Json ν
  | .null => .null
  | .bool b => .bool b
  | .int n => .num (read (units (decimal n)))
  | .str s => .str (Utf16.encode (units s.toList))
  | .arr items => .arr (values items)
  | .obj members => .obj (namedValues members)

def values : List Data → List (Json ν)
  | [] => []
  | item :: items => item.value :: values items

def namedValues : List (String × Data) → List (List ℕ × Json ν)
  | [] => []
  | (name, item) :: members =>
    (Utf16.encode (units name.toList), item.value) :: namedValues members

end

end Value

/-! ## Strings -/

variable {rest input : List ℕ} {c : Char}

theorem hexDigit_digitChar : ∀ d < 16, Json.hexDigit (Nat.digitChar d).toNat = some d := by
  decide

theorem string_escapeUnit {u : ℕ} (h : u < 65536) : Json.string (units (escapeUnit u) ++ rest) =
    (Json.string rest).map fun (s, rest) => (u :: s, rest) := by
  have hvalue : ((u / 4096 * 16 + u / 256 % 16) * 16 + u / 16 % 16) * 16 + u % 16 = u := by omega
  have hread : Json.hex4 (Nat.digitChar (u / 4096)).toNat (Nat.digitChar (u / 256 % 16)).toNat
      (Nat.digitChar (u / 16 % 16)).toNat (Nat.digitChar (u % 16)).toNat = some u := by
    unfold Json.hex4
    rw [hexDigit_digitChar _ (by omega), hexDigit_digitChar _ (by omega),
      hexDigit_digitChar _ (by omega), hexDigit_digitChar _ (by omega)]
    exact congrArg some hvalue
  unfold units escapeUnit
  simp only [List.map_cons, List.map_nil, List.cons_append, List.nil_append]
  rw [Json.string.eq_def]
  simp only [show '\\'.toNat ≠ '"'.toNat by decide, if_false, if_true, hread, Option.bind_some]

theorem string_escapeUnits {us : List ℕ} (h : ∀ u ∈ us, u < 65536) :
    Json.string (units (us.flatMap escapeUnit) ++ rest) =
      (Json.string rest).map fun (s, rest) => (us ++ s, rest) := by
  induction us with
  | nil => exact Option.map_id'.symm
  | cons u us ih =>
    have htail := ih fun other hmem => h other (List.mem_cons_of_mem _ hmem)
    have hsplit : units ((u :: us).flatMap escapeUnit) =
        units (escapeUnit u) ++ units (us.flatMap escapeUnit) := List.map_append
    rw [hsplit, List.append_assoc, string_escapeUnit (h u List.mem_cons_self), htail, Option.map_map]
    rfl

theorem units_lt (c : Char) : ∀ u ∈ Utf16.units c.toNat, u < 65536 := by
  have hvalid : c.toNat < 0xd800 ∨ 0xdfff < c.toNat ∧ c.toNat < 0x110000 := c.valid
  intro u hu
  unfold Utf16.units at hu
  split at hu
  · rw [List.mem_singleton] at hu
    omega
  · rw [List.mem_cons, List.mem_singleton] at hu
    omega

/-- A letter behind a backslash. -/
theorem string_escape {letter u : ℕ} (hletter : letter ≠ 'u'.toNat)
    (hescape : Json.escape letter = some u) : Json.string ('\\'.toNat :: letter :: rest) =
      (Json.string rest).map fun (s, rest) => (u :: s, rest) := by
  rw [Json.string.eq_def]
  simp only [show '\\'.toNat ≠ '"'.toNat by decide, hletter, if_false, if_true, hescape,
    Option.bind_some]

/-- **One character**: it is read back as its code units. -/
theorem string_escapeChar (c : Char) : Json.string (units (escapeChar c) ++ rest) =
    (Json.string rest).map fun (s, rest) => (Utf16.units c.toNat ++ s, rest) := by
  unfold escapeChar
  by_cases hquote : c = '"'
  · subst hquote
    exact string_escape (by decide) rfl
  rw [if_neg hquote]
  by_cases hbackslash : c = '\\'
  · subst hbackslash
    exact string_escape (by decide) rfl
  rw [if_neg hbackslash]
  by_cases hnewline : c = '\n'
  · subst hnewline
    exact string_escape (by decide) rfl
  rw [if_neg hnewline]
  by_cases hreturn : c = '\r'
  · subst hreturn
    exact string_escape (by decide) rfl
  rw [if_neg hreturn]
  by_cases htab : c = '\t'
  · subst htab
    exact string_escape (by decide) rfl
  rw [if_neg htab]
  by_cases hbackspace : c = Char.ofNat 8
  · subst hbackspace
    exact string_escape (by decide) rfl
  rw [if_neg hbackspace]
  by_cases hfeed : c = Char.ofNat 12
  · subst hfeed
    exact string_escape (by decide) rfl
  rw [if_neg hfeed]
  split
  · -- a printable character stands for itself
    rename_i hprintable
    have hspace : ' '.toNat = 32 := rfl
    have htilde : '~'.toNat = 126 := rfl
    have hunits : Utf16.units c.toNat = [c.toNat] := if_pos (by omega)
    have hne : ∀ {d : Char}, c ≠ d → c.toNat ≠ d.toNat := fun hcd heq => hcd (Char.toNat_inj.1 heq)
    have hcontrol : ¬ c.toNat < 32 := by omega
    rw [hunits]
    unfold units
    rw [List.map_singleton, List.singleton_append, Json.string.eq_def]
    simp only [hne hquote, hne hbackslash, hcontrol, if_false]
    rfl
  · exact string_escapeUnits (units_lt c)

theorem string_escaped (text : List Char) :
    Json.string (units (text.flatMap escapeChar) ++ '"'.toNat :: rest) =
      some (Utf16.encode (units text), rest) := by
  induction text with
  | nil =>
    rw [List.flatMap_nil]
    unfold units
    rw [List.map_nil, List.nil_append, Json.string.eq_def]
    rfl
  | cons c text ih =>
    have hsplit : units ((c :: text).flatMap escapeChar) =
        units (escapeChar c) ++ units (text.flatMap escapeChar) := List.map_append
    rw [hsplit, List.append_assoc, string_escapeChar, ih]
    rfl

/-! ## Numbers -/

/-- What follows a value: nothing, or one of the units behind a value. -/
def Ends (rest : List ℕ) : Prop :=
  ∀ u ∈ rest.head?, u = ','.toNat ∨ u = ']'.toNat ∨ u = '}'.toNat

theorem isDigit_iff {u : ℕ} : Json.isDigit u = true ↔ 48 ≤ u ∧ u ≤ 57 := by
  unfold Json.isDigit
  rw [Bool.and_eq_true, decide_eq_true_eq, decide_eq_true_eq]
  exact Iff.rfl

theorem isDigit_range (h : c.isDigit = true) : 48 ≤ c.toNat ∧ c.toNat ≤ 57 := by
  have hbounds : 48 ≤ c.val ∧ c.val ≤ 57 := by simpa [Char.isDigit] using h
  exact ⟨UInt32.le_iff_toNat_le.1 hbounds.1, UInt32.le_iff_toNat_le.1 hbounds.2⟩

theorem isDigit_of_mem {n : ℕ} (h : c ∈ Nat.toDigits 10 n) : Json.isDigit c.toNat = true := by
  have hdigit : c.isDigit = true := Nat.isDigit_of_mem_toDigits (by decide) (by decide) h
  exact isDigit_iff.2 (isDigit_range hdigit)

/-- No number but zero begins with a zero. -/
theorem toDigits_head {n : ℕ} (h : 0 < n) : ∃ c cs, Nat.toDigits 10 n = c :: cs ∧ c ≠ '0' := by
  induction n using Nat.strong_induction_on with
  | _ n ih =>
    by_cases hsmall : n < 10
    · have hchar : ∀ d < 10, 0 < d → Nat.digitChar d ≠ '0' := by decide
      exact ⟨_, [], Nat.toDigits_of_lt_base hsmall, hchar n hsmall h⟩
    · obtain ⟨c, cs, hdigits, hc⟩ := ih (n / 10) (by omega) (by omega)
      rw [Nat.toDigits_of_base_le (by decide) (by omega), hdigits]
      exact ⟨c, _, List.cons_append, hc⟩

theorem digits_toDigits {n : ℕ} (h : Ends rest) :
    Json.digits (units (Nat.toDigits 10 n) ++ rest) = some (units (Nat.toDigits 10 n), rest) := by
  have hall : ∀ u ∈ units (Nat.toDigits 10 n), Json.isDigit u = true := by
    intro u hu
    obtain ⟨c, hc, rfl⟩ := List.mem_map.1 hu
    exact isDigit_of_mem hc
  have hne : units (Nat.toDigits 10 n) ≠ [] := by
    intro hnil
    exact Nat.toDigits_ne_nil (List.map_eq_nil_iff.1 hnil)
  have hstop : rest.takeWhile Json.isDigit = [] ∧ rest.dropWhile Json.isDigit = rest := by
    cases rest with
    | nil => exact ⟨rfl, rfl⟩
    | cons u rest =>
      have hu : ¬ Json.isDigit u = true := by
        rcases h u rfl with rfl | rfl | rfl <;> decide
      exact ⟨List.takeWhile_cons_of_neg hu, List.dropWhile_cons_of_neg hu⟩
  unfold Json.digits
  rw [List.takeWhile_append_of_pos hall, List.dropWhile_append_of_pos hall, hstop.1, hstop.2,
    List.append_nil, if_neg hne]

theorem integer_toDigits {n : ℕ} (h : Ends rest) :
    Json.integer (units (Nat.toDigits 10 n) ++ rest) = some (units (Nat.toDigits 10 n), rest) := by
  by_cases hzero : n = 0
  · subst hzero
    rfl
  · obtain ⟨c, cs, hdigits, hc⟩ := toDigits_head (Nat.pos_of_ne_zero hzero)
    have hunits : units (Nat.toDigits 10 n) ++ rest = c.toNat :: (units cs ++ rest) := by
      rw [hdigits]
      rfl
    have hread := digits_toDigits (n := n) h
    rw [hunits] at hread ⊢
    rw [Json.integer, if_neg fun heq => hc (Char.toNat_inj.1 heq)]
    exact hread

theorem unsigned_toDigits {n : ℕ} (h : Ends rest) :
    Json.unsigned (units (Nat.toDigits 10 n) ++ rest) = some (units (Nat.toDigits 10 n), rest) := by
  have hfraction : Json.fraction rest = some ([], rest) := by
    cases rest with
    | nil => rfl
    | cons u rest => exact if_neg (by rcases h u rfl with rfl | rfl | rfl <;> decide)
  have hexponent : Json.exponent rest = some ([], rest) := by
    cases rest with
    | nil => rfl
    | cons u rest => exact if_neg (by rcases h u rfl with rfl | rfl | rfl <;> decide)
  unfold Json.unsigned
  simp only [integer_toDigits h, hfraction, hexponent, Option.bind_eq_bind, Option.bind_some,
    List.append_nil]
  rfl

/-- How a number begins: with a minus sign or a digit. -/
theorem decimal_head (n : ℤ) :
    ∃ c cs, decimal n = c :: cs ∧ (c.toNat = 45 ∨ 48 ≤ c.toNat ∧ c.toNat ≤ 57) := by
  unfold decimal
  split
  · exact ⟨'-', _, rfl, Or.inl rfl⟩
  · cases hdigits : Nat.toDigits 10 n.natAbs with
    | nil => exact absurd hdigits Nat.toDigits_ne_nil
    | cons c cs =>
      have hdigit : Json.isDigit c.toNat = true := isDigit_of_mem (hdigits ▸ List.mem_cons_self)
      exact ⟨c, cs, rfl, Or.inr (isDigit_iff.1 hdigit)⟩

theorem number_decimal (n : ℤ) (h : Ends rest) :
    Json.number (units (decimal n) ++ rest) = some (units (decimal n), rest) := by
  unfold decimal
  split
  · have hunits : units ('-' :: Nat.toDigits 10 n.natAbs) ++ rest =
        '-'.toNat :: (units (Nat.toDigits 10 n.natAbs) ++ rest) := rfl
    rw [hunits, Json.number, if_pos rfl, unsigned_toDigits h]
    rfl
  · have hread := unsigned_toDigits (n := n.natAbs) h
    cases hdigits : Nat.toDigits 10 n.natAbs with
    | nil => exact absurd hdigits Nat.toDigits_ne_nil
    | cons c cs =>
      have hdigit : Json.isDigit c.toNat = true := isDigit_of_mem (hdigits ▸ List.mem_cons_self)
      have hminus : ¬ c.toNat = '-'.toNat := by
        intro heq
        rw [heq] at hdigit
        exact absurd hdigit (by decide)
      have hunits : units (c :: cs) ++ rest = c.toNat :: (units cs ++ rest) := rfl
      rw [hdigits, hunits] at hread
      rw [hunits, Json.number, if_neg hminus]
      exact hread

/-! ## Values -/

variable {ν : Type} {read : List ℕ → ν}

theorem skip_cons {u : ℕ} (h : Json.isSpace u = false) : Json.skip (u :: rest) = u :: rest :=
  List.dropWhile_cons_of_neg (by rw [h]; exact Bool.false_ne_true)

/-- How a value begins: not with white space, and not with a closing bracket. -/
theorem dumps_head (d : Data) : ∃ c cs, dumps d = c :: cs ∧ Json.isSpace c.toNat = false ∧
    c.toNat ≠ ']'.toNat ∧ c.toNat ≠ '}'.toNat := by
  cases d with
  | null => exact ⟨'n', _, rfl, by decide, by decide, by decide⟩
  | bool b =>
    cases b with
    | false => exact ⟨'f', _, rfl, by decide, by decide, by decide⟩
    | true => exact ⟨'t', _, rfl, by decide, by decide, by decide⟩
  | int n =>
    obtain ⟨c, cs, hdecimal, hc⟩ := decimal_head n
    have hbracket : ']'.toNat = 93 := rfl
    have hbrace : '}'.toNat = 125 := rfl
    refine ⟨c, cs, hdecimal, ?_, by omega, by omega⟩
    unfold Json.isSpace
    simp only [Bool.or_eq_false_iff, decide_eq_false_iff_not]
    omega
  | str s => exact ⟨'"', _, rfl, by decide, by decide, by decide⟩
  | arr items => exact ⟨'[', _, rfl, by decide, by decide, by decide⟩
  | obj members => exact ⟨'{', _, rfl, by decide, by decide, by decide⟩

theorem ends_cons {u : ℕ} (h : u = ','.toNat ∨ u = ']'.toNat ∨ u = '}'.toNat) : Ends (u :: rest) := by
  intro v hv
  cases hv
  exact h

/-- A number is no word. -/
theorem literal_decimal {n : ℤ} (h : Ends rest) :
    Json.literal read (units (decimal n) ++ rest) = some (.num (read (units (decimal n))), rest) := by
  obtain ⟨c, cs, hdecimal, hc⟩ := decimal_head n
  have hword : ∀ {u : ℕ} {us : List ℕ}, 57 < u →
      (u :: us).isPrefixOf (units (decimal n) ++ rest) = false := by
    intro u us hu
    have hne : (u == c.toNat) = false := beq_eq_false_iff_ne.2 (by omega)
    rw [hdecimal]
    unfold units
    rw [List.map_cons, List.cons_append, List.isPrefixOf, hne, Bool.false_and]
  have hnull : (Json.units "null").isPrefixOf (units (decimal n) ++ rest) = false := hword (by decide)
  have htrue : (Json.units "true").isPrefixOf (units (decimal n) ++ rest) = false := hword (by decide)
  have hfalse : (Json.units "false").isPrefixOf (units (decimal n) ++ rest) = false := hword (by decide)
  unfold Json.literal
  rw [hnull, htrue, hfalse, number_decimal n h]
  rfl

/-- A value that is none of a string, an array and an object. -/
theorem value_literal {u fuel : ℕ} (hspace : Json.isSpace u = false) (hbrace : u ≠ '{'.toNat)
    (hbracket : u ≠ '['.toNat) (hquote : u ≠ '"'.toNat) :
    Json.value read (fuel + 1) (u :: rest) = Json.literal read (u :: rest) := by
  rw [Json.value, skip_cons hspace]
  dsimp only
  rw [if_neg hbrace, if_neg hbracket, if_neg hquote]

theorem value_decimal {n : ℤ} {fuel : ℕ} (h : Ends rest) :
    Json.value read (fuel + 1) (units (decimal n) ++ rest) =
      some (.num (read (units (decimal n))), rest) := by
  obtain ⟨c, cs, hdecimal, hspace, -, -⟩ := dumps_head (.int n)
  obtain ⟨c', cs', hdecimal', hc⟩ := decimal_head n
  rw [dumps] at hdecimal
  rw [hdecimal] at hdecimal'
  cases hdecimal'
  have hunits : units (decimal n) ++ rest = c.toNat :: (units cs ++ rest) := by
    rw [hdecimal]
    rfl
  have hbrace : '{'.toNat = 123 := rfl
  have hbracket : '['.toNat = 91 := rfl
  have hquote : '"'.toNat = 34 := rfl
  rw [hunits, value_literal hspace (by omega) (by omega) (by omega), ← hunits, literal_decimal h]

theorem value_quote {s : String} {fuel : ℕ} :
    Json.value read (fuel + 1) (units (quote s) ++ rest) =
      some (.str (Utf16.encode (units s.toList)), rest) := by
  have hunits : units (quote s) ++ rest =
      '"'.toNat :: (units (s.toList.flatMap escapeChar) ++ '"'.toNat :: rest) := by
    unfold quote units
    rw [List.map_cons, List.map_append, List.cons_append, List.append_assoc]
    rfl
  rw [hunits, Json.value, skip_cons (by decide)]
  dsimp only
  rw [if_neg (by decide), if_neg (by decide), if_pos rfl, string_escaped]
  rfl

theorem units_append {text more : List Char} : units (text ++ more) = units text ++ units more :=
  List.map_append

theorem units_cons {text : List Char} : units (c :: text) = c.toNat :: units text := rfl

/-- What is in front of a value is not skipped, and no closing bracket. -/
theorem dumps_start (d : Data) (rest : List ℕ) : ∃ u us, units (dumps d) ++ rest = u :: us ∧
    Json.isSpace u = false ∧ u ≠ ']'.toNat ∧ u ≠ '}'.toNat := by
  obtain ⟨c, cs, hdumps, hspace, hbracket, hbrace⟩ := dumps_head d
  exact ⟨c.toNat, units cs ++ rest, by rw [hdumps]; rfl, hspace, hbracket, hbrace⟩

theorem dumps_pos (d : Data) : 0 < (dumps d).length := by
  obtain ⟨c, cs, hdumps, -⟩ := dumps_head d
  rw [hdumps]
  exact Nat.succ_pos _

theorem items_start (item : Data) (items : List Data) (rest : List ℕ) :
    ∃ u us, units (dumpsItems (item :: items)) ++ rest = u :: us ∧
      Json.isSpace u = false ∧ u ≠ ']'.toNat := by
  cases items with
  | nil =>
    obtain ⟨u, us, hunits, hspace, hbracket, -⟩ := dumps_start item rest
    exact ⟨u, us, hunits, hspace, hbracket⟩
  | cons next items =>
    obtain ⟨u, us, hunits, hspace, hbracket, -⟩ :=
      dumps_start item (units (',' :: dumpsItems (next :: items)) ++ rest)
    refine ⟨u, us, ?_, hspace, hbracket⟩
    rw [dumpsItems, units_append, List.append_assoc]
    · exact hunits
    · exact List.cons_ne_nil _ _

theorem members_start (name : String) (item : Data) (members : List (String × Data))
    (rest : List ℕ) :
    ∃ us, units (dumpsMembers ((name, item) :: members)) ++ rest = '"'.toNat :: us := by
  cases members with
  | nil => exact ⟨_, rfl⟩
  | cons next members => exact ⟨_, rfl⟩

/-- The name of a member and its colon. -/
theorem members_name {name : String} {text : List Char} {fuel : ℕ} :
    Json.members read (fuel + 1) (units (quote name ++ ':' :: text) ++ rest) =
      (Json.value read fuel (units text ++ rest)).bind fun (item, rest) =>
        match Json.skip rest with
        | [] => none
        | w :: rest =>
          if w = ','.toNat then
            (Json.members read fuel rest).map fun (items, rest) =>
              ((Utf16.encode (units name.toList), item) :: items, rest)
          else if w = '}'.toNat then some ([(Utf16.encode (units name.toList), item)], rest)
          else none := by
  have hunits : units (quote name ++ ':' :: text) ++ rest =
      '"'.toNat :: (units (name.toList.flatMap escapeChar) ++
        '"'.toNat :: ':'.toNat :: (units text ++ rest)) := by
    unfold quote
    rw [units_append, units_cons, units_append]
    simp only [List.cons_append, List.append_assoc]
    rfl
  rw [hunits, Json.members, skip_cons (by decide)]
  dsimp only
  rw [if_pos rfl, string_escaped, Option.bind_some]
  dsimp only
  rw [skip_cons (by decide)]
  exact if_pos rfl

mutual

/-- **A value is read back**, whatever follows. -/
theorem value_dumps : ∀ (d : Data) {fuel : ℕ} {rest : List ℕ}, (dumps d).length ≤ fuel → Ends rest →
    Json.value read fuel (units (dumps d) ++ rest) = some (d.value read, rest)
  | d, 0, rest, hfuel, _ => absurd hfuel (Nat.not_le_of_lt (dumps_pos d))
  | .null, fuel + 1, rest, _, _ => value_literal (by decide) (by decide) (by decide) (by decide)
  | .bool true, fuel + 1, rest, _, _ => value_literal (by decide) (by decide) (by decide) (by decide)
  | .bool false, fuel + 1, rest, _, _ => value_literal (by decide) (by decide) (by decide) (by decide)
  | .int n, fuel + 1, rest, _, hends => value_decimal hends
  | .str s, fuel + 1, rest, _, _ => value_quote
  -- a bracket costs one step, which leaves enough for what is inside
  | .arr items, fuel + 1, rest, hfuel, hends => by
    have hunits : units (dumps (.arr items)) ++ rest =
        '['.toNat :: (units (dumpsItems items) ++ ']'.toNat :: rest) := by
      rw [dumps, units_cons, units_append, List.cons_append, List.append_assoc]
      rfl
    rw [hunits, Json.value, skip_cons (by decide)]
    dsimp only
    rw [if_neg (by decide), if_pos rfl]
    cases items with
    | nil => rfl
    | cons item items =>
      have hinside : (dumpsItems (item :: items)).length < fuel := by
        rw [dumps, List.length_cons, List.length_append, List.length_singleton] at hfuel
        omega
      have hread : Json.elements read fuel (units (dumpsItems (item :: items)) ++ ']'.toNat :: rest) =
          some (values read (item :: items), rest) := elements_dumps item items hinside
      obtain ⟨u, us, hstart, hspace, hbracket⟩ := items_start item items (']'.toNat :: rest)
      rw [hstart] at hread ⊢
      rw [skip_cons hspace]
      dsimp only
      rw [if_neg hbracket, hread]
      rfl
  | .obj members, fuel + 1, rest, hfuel, hends => by
    have hunits : units (dumps (.obj members)) ++ rest =
        '{'.toNat :: (units (dumpsMembers members) ++ '}'.toNat :: rest) := by
      rw [dumps, units_cons, units_append, List.cons_append, List.append_assoc]
      rfl
    rw [hunits, Json.value, skip_cons (by decide)]
    dsimp only
    rw [if_pos rfl]
    cases members with
    | nil => rfl
    | cons member members =>
      obtain ⟨name, item⟩ := member
      have hinside : (dumpsMembers ((name, item) :: members)).length < fuel := by
        rw [dumps, List.length_cons, List.length_append, List.length_singleton] at hfuel
        omega
      have hread : Json.members read fuel
          (units (dumpsMembers ((name, item) :: members)) ++ '}'.toNat :: rest) =
            some (namedValues read ((name, item) :: members), rest) :=
        members_dumps name item members hinside
      obtain ⟨us, hstart⟩ := members_start name item members ('}'.toNat :: rest)
      rw [hstart] at hread ⊢
      rw [skip_cons (by decide)]
      dsimp only
      rw [if_neg (by decide), hread]
      rfl

theorem elements_dumps : ∀ (item : Data) (items : List Data) {fuel : ℕ} {rest : List ℕ},
    (dumpsItems (item :: items)).length < fuel →
    Json.elements read fuel (units (dumpsItems (item :: items)) ++ ']'.toNat :: rest) =
      some (values read (item :: items), rest)
  | item, items, 0, rest, hfuel => absurd hfuel (Nat.not_lt_zero _)
  | item, [], fuel + 1, rest, hfuel => by
    rw [dumpsItems] at hfuel ⊢
    rw [Json.elements, value_dumps item (by omega) (ends_cons (Or.inr (Or.inl rfl))), Option.bind_some]
    rfl
  | item, next :: items, fuel + 1, rest, hfuel => by
    have hdumps : dumpsItems (item :: next :: items) = dumps item ++ ',' :: dumpsItems (next :: items) :=
      dumpsItems.eq_3 item (next :: items) (List.cons_ne_nil _ _)
    rw [hdumps, List.length_append, List.length_cons] at hfuel
    have hunits : units (dumpsItems (item :: next :: items)) ++ ']'.toNat :: rest =
        units (dumps item) ++ ','.toNat :: (units (dumpsItems (next :: items)) ++ ']'.toNat :: rest) := by
      rw [hdumps, units_append, List.append_assoc]
      rfl
    have htail : Json.elements read fuel (units (dumpsItems (next :: items)) ++ ']'.toNat :: rest) =
        some (values read (next :: items), rest) := elements_dumps next items (by omega)
    rw [hunits, Json.elements, value_dumps item (by omega) (ends_cons (Or.inl rfl)), Option.bind_some]
    dsimp only
    rw [skip_cons (by decide)]
    dsimp only
    rw [if_pos rfl, htail]
    rfl

theorem members_dumps : ∀ (name : String) (item : Data) (members : List (String × Data)) {fuel : ℕ}
    {rest : List ℕ}, (dumpsMembers ((name, item) :: members)).length < fuel →
    Json.members read fuel (units (dumpsMembers ((name, item) :: members)) ++ '}'.toNat :: rest) =
      some (namedValues read ((name, item) :: members), rest)
  | name, item, members, 0, rest, hfuel => absurd hfuel (Nat.not_lt_zero _)
  | name, item, [], fuel + 1, rest, hfuel => by
    have hdumps : dumpsMembers [(name, item)] = quote name ++ ':' :: dumps item := rfl
    rw [hdumps, List.length_append, List.length_cons] at hfuel
    rw [hdumps, members_name, value_dumps item (by omega) (ends_cons (Or.inr (Or.inr rfl))),
      Option.bind_some]
    rfl
  | name, item, next :: members, fuel + 1, rest, hfuel => by
    obtain ⟨nextName, nextItem⟩ := next
    have hdumps : dumpsMembers ((name, item) :: (nextName, nextItem) :: members) =
        quote name ++ ':' :: (dumps item ++ ',' :: dumpsMembers ((nextName, nextItem) :: members)) :=
      dumpsMembers.eq_3 name item _ (List.cons_ne_nil _ _)
    rw [hdumps, List.length_append, List.length_cons, List.length_append, List.length_cons] at hfuel
    have hunits : units (dumps item ++ ',' :: dumpsMembers ((nextName, nextItem) :: members)) ++
        '}'.toNat :: rest = units (dumps item) ++ ','.toNat ::
          (units (dumpsMembers ((nextName, nextItem) :: members)) ++ '}'.toNat :: rest) := by
      rw [units_append, List.append_assoc]
      rfl
    have htail : Json.members read fuel
        (units (dumpsMembers ((nextName, nextItem) :: members)) ++ '}'.toNat :: rest) =
          some (namedValues read ((nextName, nextItem) :: members), rest) :=
      members_dumps nextName nextItem members (by omega)
    rw [hdumps, members_name, hunits, value_dumps item (by omega) (ends_cons (Or.inl rfl)),
      Option.bind_some]
    dsimp only
    rw [skip_cons (by decide)]
    dsimp only
    rw [if_pos rfl, htail]
    rfl

end

/-- **The text is one value**, and nothing else. -/
theorem parse_dumps (d : Data) : Json.parse read (units (dumps d)) = some (d.value read) := by
  have hfuel : (dumps d).length ≤ 2 * (units (dumps d)).length + 2 := by
    unfold units
    rw [List.length_map]
    omega
  have hends : Ends [] := fun u hu => by cases hu
  have hvalue : Json.value read (2 * (units (dumps d)).length + 2) (units (dumps d) ++ []) =
      some (d.value read, []) := value_dumps d hfuel hends
  rw [List.append_nil] at hvalue
  unfold Json.parse
  rw [hvalue, Option.bind_some]
  rfl

/-! ## The characters of the text -/

/-- Printable ASCII. -/
def Printable (text : List Char) : Prop := ∀ c ∈ text, 32 ≤ c.toNat ∧ c.toNat ≤ 126

theorem Printable.append {text more : List Char} (h : Printable text) (h' : Printable more) :
    Printable (text ++ more) := by
  intro c hc
  rcases List.mem_append.1 hc with hc | hc
  · exact h c hc
  · exact h' c hc

theorem Printable.cons {text : List Char} (hc : 32 ≤ c.toNat ∧ c.toNat ≤ 126) (h : Printable text) :
    Printable (c :: text) := by
  intro d hd
  rcases List.mem_cons.1 hd with rfl | hd
  · exact hc
  · exact h d hd

theorem printable_nil : Printable [] := fun _ hc => absurd hc List.not_mem_nil

theorem printable_words :
    Printable "null".toList ∧ Printable "true".toList ∧ Printable "false".toList := by
  have hword : ∀ text : List Char, (text.all fun c => 32 ≤ c.toNat && c.toNat ≤ 126) = true →
      Printable text := by
    intro text hall c hc
    simpa only [Bool.and_eq_true, decide_eq_true_eq] using List.all_eq_true.1 hall c hc
  exact ⟨hword _ (by decide), hword _ (by decide), hword _ (by decide)⟩

theorem printable_escapeUnit {u : ℕ} (h : u < 65536) : Printable (escapeUnit u) := by
  have hdigit : ∀ d < 16, 32 ≤ (Nat.digitChar d).toNat ∧ (Nat.digitChar d).toNat ≤ 126 := by decide
  exact .cons (by decide) (.cons (by decide) (.cons (hdigit _ (by omega)) (.cons (hdigit _ (by omega))
    (.cons (hdigit _ (by omega)) (.cons (hdigit _ (by omega)) printable_nil)))))

theorem printable_escapeChar (c : Char) : Printable (escapeChar c) := by
  have hescape : ∀ {d : Char}, 32 ≤ d.toNat ∧ d.toNat ≤ 126 → Printable ['\\', d] :=
    fun hd => .cons (by decide) (.cons hd printable_nil)
  unfold escapeChar
  split
  · exact hescape (by decide)
  split
  · exact hescape (by decide)
  split
  · exact hescape (by decide)
  split
  · exact hescape (by decide)
  split
  · exact hescape (by decide)
  split
  · exact hescape (by decide)
  split
  · exact hescape (by decide)
  split
  · rename_i hprintable
    exact .cons hprintable printable_nil
  · intro d hd
    obtain ⟨u, hu, hd⟩ := List.mem_flatMap.1 hd
    exact printable_escapeUnit (units_lt c u hu) d hd

theorem printable_quote (s : String) : Printable (quote s) := by
  refine .cons (by decide) (.append ?_ (.cons (by decide) printable_nil))
  intro c hc
  obtain ⟨d, -, hc⟩ := List.mem_flatMap.1 hc
  exact printable_escapeChar d c hc

theorem printable_decimal (n : ℤ) : Printable (decimal n) := by
  have hdigits : Printable (Nat.toDigits 10 n.natAbs) := by
    intro c hc
    have hc := isDigit_iff.1 (isDigit_of_mem hc)
    omega
  unfold decimal
  split
  · exact .cons (by decide) hdigits
  · exact hdigits

mutual

/-- **The text has no control character.** -/
theorem dumps_printable : ∀ d : Data, Printable (dumps d)
  | .null => printable_words.1
  | .bool true => printable_words.2.1
  | .bool false => printable_words.2.2
  | .int n => printable_decimal n
  | .str s => printable_quote s
  | .arr items => .cons (by decide) (.append (dumpsItems_printable items)
      (.cons (by decide) printable_nil))
  | .obj members => .cons (by decide) (.append (dumpsMembers_printable members)
      (.cons (by decide) printable_nil))

theorem dumpsItems_printable : ∀ items : List Data, Printable (dumpsItems items)
  | [] => printable_nil
  | [item] => dumps_printable item
  | item :: next :: items =>
    .append (dumps_printable item) (.cons (by decide) (dumpsItems_printable (next :: items)))

theorem dumpsMembers_printable : ∀ members : List (String × Data), Printable (dumpsMembers members)
  | [] => printable_nil
  | [(name, item)] => .append (printable_quote name) (.cons (by decide) (dumps_printable item))
  | (name, item) :: next :: members =>
    .append (printable_quote name) (.cons (by decide) (.append (dumps_printable item)
      (.cons (by decide) (dumpsMembers_printable (next :: members)))))

end

/-- The code units of a text in the basic plane are its characters. -/
theorem encode_units {text : List Char} (h : ∀ c ∈ text, c.toNat < 65536) :
    Utf16.encode (units text) = units text := by
  unfold Utf16.encode
  induction text with
  | nil => rfl
  | cons c text ih =>
    have hunits : Utf16.units c.toNat = [c.toNat] := if_pos (h c List.mem_cons_self)
    rw [units_cons, List.flatMap_cons, hunits, ih fun d hd => h d (List.mem_cons_of_mem _ hd)]
    rfl

theorem values_eq_map {items : List Data} : values read items = items.map fun item => item.value read := by
  induction items with
  | nil => rfl
  | cons item items ih => rw [values, ih, List.map_cons]

/-! ## The text determines what was written -/

theorem units_inj {text more : List Char} (h : units text = units more) : text = more :=
  List.map_injective_iff.2 (fun _ _ h => Char.ext (UInt32.toNat_inj.1 h)) h

theorem str_inj {s t : String}
    (h : Utf16.encode (units s.toList) = Utf16.encode (units t.toList)) : s = t :=
  String.toList_inj.1 (Utf16.encode_inj h)

theorem decimal_inj {n m : ℤ} (h : decimal n = decimal m) : n = m := by
  have hdigits : ∀ {k l : ℕ}, Nat.toDigits 10 k = Nat.toDigits 10 l → k = l := by
    intro k l h
    have hk := Nat.ofDigitChars_toDigits (b := 10) (n := k) (by decide) (by decide)
    have hl := Nat.ofDigitChars_toDigits (b := 10) (n := l) (by decide) (by decide)
    rw [← hk, ← hl, h]
  -- no digit is a sign
  have hsign : ∀ {k : ℕ} {text : List Char}, Nat.toDigits 10 k ≠ '-' :: text := by
    intro k text h
    have hdigit := Nat.isDigit_of_mem_toDigits (b := 10) (n := k) (c := '-') (by decide) (by decide)
      (h ▸ List.mem_cons_self)
    exact absurd hdigit (by decide)
  unfold decimal at h
  split at h
  · split at h
    · have habs := hdigits (List.cons.inj h).2
      omega
    · exact absurd h.symm hsign
  · split at h
    · exact absurd h hsign
    · have habs := hdigits h
      omega

section Injective

variable {ν : Type} {read : List ℕ → ν}

mutual

/-- A value comes from one data, when its reader tells numbers apart. -/
theorem value_inj (hread : Function.Injective read) :
    ∀ {d d' : Data}, d.value read = d'.value read → d = d'
  | .null, d', h => by cases d' <;> first | rfl | cases h
  | .bool b, d', h => by
    cases d' with
    | bool b' => rw [Json.bool.inj h]
    | _ => cases h
  | .int n, d', h => by
    cases d' with
    | int m => rw [decimal_inj (units_inj (hread (Json.num.inj h)))]
    | _ => cases h
  | .str s, d', h => by
    cases d' with
    | str t => rw [str_inj (Json.str.inj h)]
    | _ => cases h
  | .arr items, d', h => by
    cases d' with
    | arr more => rw [values_inj hread (Json.arr.inj h)]
    | _ => cases h
  | .obj members, d', h => by
    cases d' with
    | obj more => rw [namedValues_inj hread (Json.obj.inj h)]
    | _ => cases h

theorem values_inj (hread : Function.Injective read) :
    ∀ {items more : List Data}, values read items = values read more → items = more
  | [], [], _ => rfl
  | [], _ :: _, h => by cases h
  | _ :: _, [], h => by cases h
  | item :: items, item' :: more, h => by
    obtain ⟨hitem, hitems⟩ := List.cons.inj h
    rw [value_inj hread hitem, values_inj hread hitems]

theorem namedValues_inj (hread : Function.Injective read) : ∀ {members more : List (String × Data)},
    namedValues read members = namedValues read more → members = more
  | [], [], _ => rfl
  | [], _ :: _, h => by cases h
  | _ :: _, [], h => by cases h
  | (name, item) :: members, (name', item') :: more, h => by
    obtain ⟨hmember, hmembers⟩ := List.cons.inj h
    obtain ⟨hname, hitem⟩ := Prod.ext_iff.1 hmember
    rw [str_inj hname, value_inj hread hitem, namedValues_inj hread hmembers]

end

end Injective

/-- **What was written is determined by its text.** -/
theorem dumps_inj {d d' : Data} (h : dumps d = dumps d') : d = d' := by
  have hvalue : some (d.value id) = some (d'.value id) := by
    rw [← @parse_dumps _ id d, ← @parse_dumps _ id d', h]
  exact value_inj Function.injective_id (Option.some.inj hvalue)

end JsonText
