import Mathlib.Tactic

/-!
# Texts joined by a separator

A text that is two texts joined by a character that the first does not contain has been
joined in one way only.
-/

namespace Separator

variable {α : Type*} {c : α}

/-- **One way to split at the first separator.** -/
theorem append_inj {a a' b b' : List α} (ha : c ∉ a) (ha' : c ∉ a')
    (h : a ++ c :: b = a' ++ c :: b') : a = a' ∧ b = b' := by
  induction a generalizing a' with
  | nil =>
    cases a' with
    | nil => exact ⟨rfl, (List.cons.inj h).2⟩
    | cons x a' => exact absurd ((List.cons.inj h).1 ▸ List.mem_cons_self) ha'
  | cons x a ih =>
    cases a' with
    | nil => exact absurd ((List.cons.inj h).1 ▸ List.mem_cons_self) ha
    | cons x' a' =>
      obtain ⟨rfl, hrest⟩ := List.cons.inj h
      rw [List.mem_cons, not_or] at ha ha'
      obtain ⟨rfl, rfl⟩ := ih ha.2 ha'.2 hrest
      exact ⟨rfl, rfl⟩

/-- The same for strings, with a separator of one character. -/
theorem string_append_inj {c : Char} {sep a a' b b' : String} (hsep : sep.toList = [c])
    (ha : c ∉ a.toList) (ha' : c ∉ a'.toList) (h : a ++ sep ++ b = a' ++ sep ++ b') :
    a = a' ∧ b = b' := by
  have htext := congrArg String.toList h
  simp only [String.toList_append, hsep, List.append_assoc, List.cons_append,
    List.nil_append] at htext
  obtain ⟨h1, h2⟩ := append_inj ha ha' htext
  exact ⟨String.toList_inj.1 h1, String.toList_inj.1 h2⟩

end Separator
