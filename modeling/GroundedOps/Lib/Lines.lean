import Mathlib.Tactic

/-!
# Lines of a stream

A text that grows is cut at each separator: the lines that are complete, and the rest.

* `split_append`: **what comes later** only completes the rest.
* `split_of_cut`: a loop that cuts one line after the other finds them all.
* `short_append`: what a part leaves over is no longer than the longest line of the whole.
* `split_lines`: **lines that are written one behind the other** are found again.
-/

namespace Lines

variable {α : Type*} [DecidableEq α]

/-- The first line and what is behind its separator. -/
def cut (sep : α) : List α → Option (List α × List α)
  | [] => none
  | a :: l => if a = sep then some ([], l) else (cut sep l).map fun (line, rest) => (a :: line, rest)

/-- One more element in front of the first line. -/
def push (a : α) : List (List α) × List α → List (List α) × List α
  | ([], rest) => ([], a :: rest)
  | (line :: lines, rest) => ((a :: line) :: lines, rest)

/-- The complete lines and the rest. -/
def split (sep : α) : List α → List (List α) × List α
  | [] => ([], [])
  | a :: l => if a = sep then ([] :: (split sep l).1, (split sep l).2) else push a (split sep l)

/-- No line is longer than `n`. -/
def Short (sep : α) (n : ℕ) (l : List α) : Prop :=
  (∀ line ∈ (split sep l).1, line.length ≤ n) ∧ (split sep l).2.length ≤ n

variable {sep : α} {l m line rest : List α} {n : ℕ}

theorem cut_length (h : cut sep l = some (line, rest)) : rest.length < l.length := by
  induction l generalizing line with
  | nil => cases h
  | cons a l ih =>
    rw [cut] at h
    split at h
    · cases h
      exact Nat.lt_succ_self _
    · obtain ⟨⟨line', rest'⟩, hcut, heq⟩ := Option.map_eq_some_iff.1 h
      cases heq
      exact (ih hcut).trans (Nat.lt_succ_self _)

/-- **The loop cuts one line after the other.** -/
theorem split_of_cut (h : cut sep l = some (line, rest)) :
    split sep l = (line :: (split sep rest).1, (split sep rest).2) := by
  induction l generalizing line with
  | nil => cases h
  | cons a l ih =>
    rw [cut] at h
    rw [split]
    split at h
    · rename_i ha
      cases h
      rw [if_pos ha]
    · rename_i ha
      obtain ⟨⟨line', rest'⟩, hcut, heq⟩ := Option.map_eq_some_iff.1 h
      cases heq
      rw [if_neg ha, ih hcut]
      rfl

theorem split_of_cut_none (h : cut sep l = none) : split sep l = ([], l) := by
  induction l with
  | nil => rfl
  | cons a l ih =>
    rw [cut] at h
    rw [split]
    split at h
    · cases h
    · rename_i ha
      rw [if_neg ha, ih (Option.map_eq_none_iff.1 h)]
      rfl

/-- **What comes later** completes the rest of what was there. -/
theorem split_append : split sep (l ++ m) =
    ((split sep l).1 ++ (split sep ((split sep l).2 ++ m)).1, (split sep ((split sep l).2 ++ m)).2) := by
  induction l with
  | nil => rfl
  | cons a l ih =>
    rw [List.cons_append, split, split]
    by_cases ha : a = sep
    · rw [if_pos ha, if_pos ha, ih]
      rfl
    · rw [if_neg ha, if_neg ha, ih]
      cases hlines : (split sep l).1 with
      | nil =>
        have hpush : push a (split sep l) = ([], a :: (split sep l).2) := by
          rw [← Prod.mk.eta (p := split sep l), hlines]
          rfl
        rw [hpush, List.nil_append, List.nil_append, List.cons_append, split, if_neg ha]
      | cons line lines =>
        have hpush : push a (split sep l) = ((a :: line) :: lines, (split sep l).2) := by
          rw [← Prod.mk.eta (p := split sep l), hlines]
          rfl
        rw [hpush]
        rfl

theorem not_mem_rest : sep ∉ (split sep l).2 := by
  induction l with
  | nil => exact List.not_mem_nil
  | cons a l ih =>
    rw [split]
    by_cases ha : a = sep
    · rw [if_pos ha]
      exact ih
    · rw [if_neg ha]
      rcases hsplit : split sep l with ⟨_ | ⟨line, lines⟩, rest⟩
      · rw [hsplit] at ih
        exact fun hmem => (List.mem_cons.1 hmem).elim (fun heq => ha heq.symm) ih
      · rw [hsplit] at ih
        exact ih

/-- What has no separator begins the first line, or is all of the rest. -/
theorem split_append_of_not_mem (h : sep ∉ l) :
    (∃ rest, split sep (l ++ m) = ([], l ++ rest)) ∨
      ∃ line lines rest, split sep (l ++ m) = ((l ++ line) :: lines, rest) := by
  induction l with
  | nil =>
    rcases hsplit : split sep m with ⟨_ | ⟨line, lines⟩, rest⟩
    · exact Or.inl ⟨rest, hsplit⟩
    · exact Or.inr ⟨line, lines, rest, hsplit⟩
  | cons a l ih =>
    rw [List.mem_cons, not_or] at h
    rw [List.cons_append, split, if_neg (Ne.symm h.1)]
    rcases ih h.2 with ⟨rest, hsplit⟩ | ⟨line, lines, rest, hsplit⟩
    · exact Or.inl ⟨rest, by rw [hsplit]; rfl⟩
    · exact Or.inr ⟨line, lines, rest, by rw [hsplit]; rfl⟩

/-- **A part of a text with short lines** leaves a short rest, and so does what comes behind it. -/
theorem short_append (h : Short sep n (l ++ m)) :
    (split sep l).2.length ≤ n ∧ Short sep n ((split sep l).2 ++ m) := by
  have hsplit : split sep (l ++ m) = ((split sep l).1 ++ (split sep ((split sep l).2 ++ m)).1,
      (split sep ((split sep l).2 ++ m)).2) := split_append
  have hrest : Short sep n ((split sep l).2 ++ m) := by
    unfold Short at h
    rw [hsplit] at h
    exact ⟨fun line hline => h.1 line (List.mem_append_right _ hline), h.2⟩
  refine ⟨?_, hrest⟩
  obtain ⟨hlines, hlast⟩ := hrest
  have hfree : sep ∉ (split sep l).2 := not_mem_rest
  rcases split_append_of_not_mem (m := m) hfree with ⟨rest, heq⟩ | ⟨line, lines, rest, heq⟩
  · rw [heq, List.length_append] at hlast
    omega
  · rw [heq] at hlines
    have hline := hlines _ List.mem_cons_self
    rw [List.length_append] at hline
    omega

theorem split_line (h : sep ∉ line) : split sep (line ++ [sep]) = ([line], []) := by
  induction line with
  | nil => exact if_pos rfl
  | cons a line ih =>
    rw [List.mem_cons, not_or] at h
    rw [List.cons_append, split, if_neg (Ne.symm h.1), ih h.2]
    rfl

/-- **Lines that are written one behind the other** are found again, and nothing is left. -/
theorem split_lines {lines : List (List α)} (h : ∀ line ∈ lines, sep ∉ line) :
    split sep (lines.flatMap fun line => line ++ [sep]) = (lines, []) := by
  induction lines with
  | nil => rfl
  | cons line lines ih =>
    have htail := ih fun other hmem => h other (List.mem_cons_of_mem _ hmem)
    rw [List.flatMap_cons, split_append, split_line (h line List.mem_cons_self), List.nil_append, htail]
    rfl

end Lines
