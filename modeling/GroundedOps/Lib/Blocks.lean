import Mathlib.Tactic

/-!
# Blocks between delimiter lines

A reader of lines is outside of every block or in one. `Delimiters` says which lines open a
block, with what the opening says of the block, and which lines close it; a block that nothing
closes runs to the end.

* `scan`: the block that is open after some lines.
* `Inside`: the lines after an opening line that nothing has closed.
* `inside_iff`: **a block is open after the lines exactly if they end inside of one.**
-/

namespace Blocks

variable {Line σ : Type*}

structure Delimiters (Line σ : Type*) where
  opens : Line → Option σ
  closes : σ → Line → Bool

namespace Delimiters

/-- One line more. -/
def next (d : Delimiters Line σ) : Option σ → Line → Option σ
  | none, line => d.opens line
  | some block, line => if d.closes block line then none else some block

/-- The block that is open after the lines. -/
def scan (d : Delimiters Line σ) (lines : List Line) : Option σ := lines.foldl d.next none

/-- The lines end in a block: an opening line that is outside of every block has not been closed
since. -/
def Inside (d : Delimiters Line σ) (lines : List Line) (block : σ) : Prop :=
  ∃ before opening inside, lines = before ++ opening :: inside ∧ d.scan before = none ∧
    d.opens opening = some block ∧ ∀ line ∈ inside, d.closes block line = false

variable {d : Delimiters Line σ} {lines : List Line} {line : Line} {block : σ}

@[simp] theorem scan_nil : d.scan [] = none := rfl

theorem scan_concat : d.scan (lines ++ [line]) = d.next (d.scan lines) line := by
  simp [scan]

/-- **A block is open after the lines exactly if they end inside of it.** -/
theorem scan_eq_some : d.scan lines = some block ↔ d.Inside lines block := by
  unfold Inside
  induction lines using List.reverseRecOn with
  | nil => simp
  | append_singleton lines line ih =>
    rw [scan_concat]
    constructor
    · intro hopen
      cases hscan : d.scan lines with
      | none =>
        -- the last line opens the block
        rw [hscan] at hopen
        exact ⟨lines, line, [], rfl, hscan, hopen, fun _ h => absurd h List.not_mem_nil⟩
      | some old =>
        rw [hscan] at hopen
        simp only [next] at hopen
        split at hopen
        · cases hopen
        · rename_i hkept
          cases hopen
          obtain ⟨before, opening, inside, rfl, hout, hop, hin⟩ := ih.1 hscan
          refine ⟨before, opening, inside ++ [line], by simp, hout, hop, fun other hother => ?_⟩
          rcases List.mem_append.1 hother with hother | hother
          · exact hin other hother
          · rw [List.mem_singleton.1 hother]
            simpa using hkept
    · rintro ⟨before, opening, inside, hlines, hout, hop, hin⟩
      rcases List.eq_nil_or_concat inside with rfl | ⟨inside', last, rfl⟩
      · obtain ⟨rfl, hline⟩ := List.append_inj' hlines rfl
        rw [hout, (List.cons.inj hline).1]
        exact hop
      · have hsplit : lines ++ [line] = (before ++ opening :: inside') ++ [last] := by
          rw [hlines]
          simp
        obtain ⟨rfl, hline⟩ := List.append_inj' hsplit rfl
        have hscan : d.scan (before ++ opening :: inside') = some block :=
          ih.2 ⟨before, opening, inside', rfl, hout, hop, fun other hother => hin other (by simp [hother])⟩
        rw [hscan, (List.cons.inj hline).1]
        have hkept := hin last (by simp)
        simp [next, hkept]

theorem inside_iff : (∃ block, d.Inside lines block) ↔ (d.scan lines).isSome := by
  simp only [← scan_eq_some, Option.isSome_iff_exists]

end Delimiters

end Blocks
