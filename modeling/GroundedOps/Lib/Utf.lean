import Mathlib.Tactic

/-!
# UTF-8, byte by byte, and UTF-16

The decoder of the Encoding Standard: it holds the character that has begun, how many of its bytes
are left and the bounds of the next one, and replaces what is malformed by U+FFFD. Code points and
code units are natural numbers.

* `decode_append`: **the bytes may come in parts**, the state carries a character over.
* `decode_encode`: **the bytes of a text are its characters** and leave nothing over.
-/

namespace Utf8

/-- What the decoder holds between two bytes. -/
structure State where
  codePoint : ℕ := 0
  left : ℕ := 0
  lower : ℕ := 0x80
  upper : ℕ := 0xbf
  deriving DecidableEq, Repr

/-- A byte where a character begins. -/
def first (byte : ℕ) : State × List ℕ :=
  if byte ≤ 0x7f then ({}, [byte])
  else if byte < 0xc2 then ({}, [0xfffd])
  else if byte ≤ 0xdf then ({ codePoint := byte % 32, left := 1 }, [])
  else if byte ≤ 0xef then
    ({ codePoint := byte % 16, left := 2
       lower := if byte = 0xe0 then 0xa0 else 0x80, upper := if byte = 0xed then 0x9f else 0xbf }, [])
  else if byte ≤ 0xf4 then
    ({ codePoint := byte % 8, left := 3
       lower := if byte = 0xf0 then 0x90 else 0x80, upper := if byte = 0xf4 then 0x8f else 0xbf }, [])
  else ({}, [0xfffd])

/-- One byte: the state after it and the code points it completes. -/
def step (s : State) (byte : ℕ) : State × List ℕ :=
  match s.left with
  | 0 => first byte
  | left + 1 =>
    if s.lower ≤ byte ∧ byte ≤ s.upper then
      if left = 0 then ({}, [s.codePoint * 64 + byte % 64])
      else ({ codePoint := s.codePoint * 64 + byte % 64, left := left }, [])
    else ((first byte).1, 0xfffd :: (first byte).2)

def decode (s : State) : List UInt8 → State × List ℕ
  | [] => (s, [])
  | byte :: bytes =>
    let (s₁, points) := step s byte.toNat
    let (s₂, rest) := decode s₁ bytes
    (s₂, points ++ rest)

/-- At the end, a character that has begun is replaced. -/
def flush (s : State) : List ℕ := if s.left = 0 then [] else [0xfffd]

/-- The bytes of a text. -/
def encode (text : List Char) : List UInt8 := text.flatMap String.utf8EncodeChar

variable {s : State} {bytes more : List UInt8} {byte : UInt8} {c : Char}

theorem decode_cons : decode s (byte :: bytes) =
    ((decode (step s byte.toNat).1 bytes).1,
      (step s byte.toNat).2 ++ (decode (step s byte.toNat).1 bytes).2) := rfl

/-- **The bytes may come in parts.** -/
theorem decode_append : decode s (bytes ++ more) =
    ((decode (decode s bytes).1 more).1, (decode s bytes).2 ++ (decode (decode s bytes).1 more).2) := by
  induction bytes generalizing s with
  | nil => rfl
  | cons byte bytes ih => rw [List.cons_append, decode_cons, ih, decode_cons, List.append_assoc]

/-! ## The bytes of a text -/

theorem toNat_ofNat_of_lt {n : ℕ} (h : n < 256) : (UInt8.ofNat n).toNat = n := by
  rw [UInt8.toNat_ofNat']
  exact Nat.mod_eq_of_lt h

theorem first_of_two : ∀ a < 32, 2 ≤ a → first (a + 0xc0) = ({ codePoint := a, left := 1 }, []) := by
  decide

theorem first_of_three : ∀ a < 16, first (a + 0xe0) =
    ({ codePoint := a, left := 2
       lower := if a = 0 then 0xa0 else 0x80, upper := if a = 13 then 0x9f else 0xbf }, []) := by
  decide

theorem first_of_four : ∀ a < 5, first (a + 0xf0) =
    ({ codePoint := a, left := 3
       lower := if a = 0 then 0x90 else 0x80, upper := if a = 4 then 0x8f else 0xbf }, []) := by
  decide

theorem step_first {n : ℕ} (h : s.left = 0) : step s n = first n := by
  unfold step
  rw [h]

/-- A continuation byte with more to come. -/
theorem step_next {codePoint left lower upper n : ℕ} (hlower : lower ≤ n) (hupper : n ≤ upper) :
    step ⟨codePoint, left + 2, lower, upper⟩ n =
      ({ codePoint := codePoint * 64 + n % 64, left := left + 1 }, []) :=
  (if_pos ⟨hlower, hupper⟩).trans (if_neg (Nat.succ_ne_zero left))

/-- The last continuation byte. -/
theorem step_last {codePoint lower upper n : ℕ} (hlower : lower ≤ n) (hupper : n ≤ upper) :
    step ⟨codePoint, 1, lower, upper⟩ n = ({}, [codePoint * 64 + n % 64]) :=
  (if_pos ⟨hlower, hupper⟩).trans (if_pos rfl)

theorem decode_byte {n : ℕ} (h : n < 256) : decode s (UInt8.ofNat n :: bytes) =
    ((decode (step s n).1 bytes).1, (step s n).2 ++ (decode (step s n).1 bytes).2) := by
  rw [decode_cons, toNat_ofNat_of_lt h]

/-- **The bytes of a character** are the character. -/
theorem decode_encodeChar (c : Char) : decode {} (String.utf8EncodeChar c) = ({}, [c.toNat]) := by
  have hvalid : c.toNat < 0xd800 ∨ 0xdfff < c.toNat ∧ c.toNat < 0x110000 := c.valid
  unfold String.utf8EncodeChar
  have hval : c.val.toNat = c.toNat := rfl
  rw [hval]
  generalize c.toNat = v at hvalid ⊢
  dsimp only
  by_cases hone : v ≤ 0x7f
  · rw [if_pos hone, decode_byte (by omega), step_first rfl]
    unfold first
    rw [if_pos hone]
    rfl
  rw [if_neg hone]
  by_cases htwo : v ≤ 0x7ff
  · have hlead : v / 64 % 0x20 = v / 64 := by omega
    have hsum : v / 64 * 64 + (v % 64 + 0x80) % 64 = v := by omega
    rw [if_pos htwo, hlead, decode_byte (by omega), step_first rfl,
      first_of_two _ (by omega) (by omega), decode_byte (by omega), step_last (by omega) (by omega), hsum]
    rfl
  rw [if_neg htwo]
  by_cases hthree : v ≤ 0xffff
  · have hlead : v / 4096 % 0x10 = v / 4096 := by omega
    have hsum : (v / 4096 * 64 + (v / 64 % 64 + 0x80) % 64) * 64 + (v % 64 + 0x80) % 64 = v := by omega
    -- the bounds of the second byte exclude overlong sequences and surrogates
    have hlower : (if v / 4096 = 0 then 0xa0 else 0x80) ≤ v / 64 % 64 + 0x80 := by split <;> omega
    have hupper : v / 64 % 64 + 0x80 ≤ if v / 4096 = 13 then 0x9f else 0xbf := by split <;> omega
    rw [if_pos hthree, hlead, decode_byte (by omega), step_first rfl, first_of_three _ (by omega),
      decode_byte (by omega), step_next hlower hupper, decode_byte (by omega),
      step_last (by omega) (by omega), hsum]
    rfl
  · have hlead : v / 262144 % 0x08 = v / 262144 := by omega
    have hsum : ((v / 262144 * 64 + (v / 4096 % 64 + 0x80) % 64) * 64 + (v / 64 % 64 + 0x80) % 64) * 64 +
        (v % 64 + 0x80) % 64 = v := by omega
    have hlower : (if v / 262144 = 0 then 0x90 else 0x80) ≤ v / 4096 % 64 + 0x80 := by split <;> omega
    have hupper : v / 4096 % 64 + 0x80 ≤ if v / 262144 = 4 then 0x8f else 0xbf := by split <;> omega
    rw [if_neg hthree, hlead, decode_byte (by omega), step_first rfl, first_of_four _ (by omega),
      decode_byte (by omega), step_next hlower hupper, decode_byte (by omega),
      step_next (by omega) (by omega), decode_byte (by omega), step_last (by omega) (by omega), hsum]
    rfl

/-- **The bytes of a text are its characters**, and nothing is left. -/
theorem decode_encode (text : List Char) : decode {} (encode text) = ({}, text.map Char.toNat) := by
  induction text with
  | nil => rfl
  | cons c text ih =>
    have hbytes : encode (c :: text) = String.utf8EncodeChar c ++ encode text := rfl
    rw [hbytes, decode_append, decode_encodeChar, ih, List.map_cons, List.singleton_append]

end Utf8

namespace Utf16

/-- The code units of a code point: a surrogate pair outside of the basic plane. -/
def units (point : ℕ) : List ℕ :=
  if point < 0x10000 then [point]
  else [0xd800 + (point - 0x10000) / 0x400, 0xdc00 + (point - 0x10000) % 0x400]

/-- The code units of a text of code points. -/
def encode (points : List ℕ) : List ℕ := points.flatMap units

theorem encode_append (points more : List ℕ) : encode (points ++ more) = encode points ++ encode more :=
  List.flatMap_append

theorem char_range (c : Char) : c.toNat < 0xd800 ∨ 0xdfff < c.toNat ∧ c.toNat < 0x110000 := c.valid

/-- The first code point of a text is read off its code units, and so is the rest. -/
theorem units_append_inj {c d : Char} {us vs : List ℕ}
    (h : units c.toNat ++ us = units d.toNat ++ vs) : c = d ∧ us = vs := by
  have hc := char_range c
  have hd := char_range d
  have hinj : c.toNat = d.toNat → c = d := fun h => Char.ext (UInt32.toNat_inj.1 h)
  unfold units at h
  split at h
  · split at h
    · simp only [List.singleton_append, List.cons.injEq] at h
      exact ⟨hinj h.1, h.2⟩
    · -- a character of the basic plane is no surrogate
      simp only [List.cons_append, List.nil_append, List.cons.injEq] at h
      omega
  · split at h
    · simp only [List.cons_append, List.nil_append, List.cons.injEq] at h
      omega
    · simp only [List.cons_append, List.nil_append, List.cons.injEq] at h
      obtain ⟨hhigh, hlow, hrest⟩ := h
      exact ⟨hinj (by omega), hrest⟩

/-- **The code units of a text determine it.** -/
theorem encode_inj {text more : List Char}
    (h : encode (text.map Char.toNat) = encode (more.map Char.toNat)) : text = more := by
  have hnonempty : ∀ (c : Char) (us : List ℕ), units c.toNat ++ us ≠ [] := by
    intro c us
    unfold units
    split
    · exact List.cons_ne_nil _ _
    · exact List.cons_ne_nil _ _
  induction text generalizing more with
  | nil =>
    cases more with
    | nil => rfl
    | cons d more => exact absurd h.symm (hnonempty d _)
  | cons c text ih =>
    cases more with
    | nil => exact absurd h (hnonempty c _)
    | cons d more =>
      obtain ⟨rfl, hrest⟩ := units_append_inj (show units c.toNat ++ encode (text.map Char.toNat) =
        units d.toNat ++ encode (more.map Char.toNat) from h)
      rw [ih hrest]

end Utf16
