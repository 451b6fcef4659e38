import Mathlib.Tactic

/-!
# Updating the cells of a store

A store is a function from keys. `touchAll g f keys` applies `g` to the cell of each key of
the list in turn, once for each time the key occurs in it.

* `touchAll_apply`: what becomes of a cell depends on that cell and on nothing else.
-/

namespace Cells

variable {κ α : Type*} [DecidableEq κ]

def touch (g : α → α) (f : κ → α) (k : κ) : κ → α := Function.update f k (g (f k))

def touchAll (g : α → α) (f : κ → α) (keys : List κ) : κ → α := keys.foldl (touch g) f

variable {g : α → α} {f f' : κ → α} {keys : List κ} {k : κ}

/-- **A cell after the updates.** -/
theorem touchAll_apply (g : α → α) (f : κ → α) (keys : List κ) (k : κ) :
    touchAll g f keys k = g^[keys.count k] (f k) := by
  induction keys generalizing f with
  | nil => rfl
  | cons j keys ih =>
    have hstep : touchAll g f (j :: keys) k = touchAll g (touch g f j) keys k := rfl
    rw [hstep, ih]
    by_cases hjk : j = k
    · subst hjk
      rw [List.count_cons_self, Function.iterate_succ_apply, touch, Function.update_self]
    · rw [List.count_cons_of_ne hjk, touch, Function.update_of_ne (Ne.symm hjk)]

theorem touchAll_of_not_mem (hk : k ∉ keys) : touchAll g f keys k = f k := by
  rw [touchAll_apply, List.count_eq_zero_of_not_mem hk]
  rfl

/-- Stores that agree on a cell agree on it after the same updates. -/
theorem touchAll_congr (h : f k = f' k) : touchAll g f keys k = touchAll g f' keys k := by
  rw [touchAll_apply, touchAll_apply, h]

/-- An update that need not be repeated. -/
theorem touchAll_of_mem (hidem : ∀ a, g (g a) = g a) (hk : k ∈ keys) :
    touchAll g f keys k = g (f k) := by
  have hiter : ∀ n, g^[n + 1] (f k) = g (f k) := by
    intro n
    induction n with
    | zero => rfl
    | succ n ih => rw [Function.iterate_succ_apply', ih, hidem]
  have hpos : 0 < keys.count k := List.count_pos_iff.2 hk
  obtain ⟨n, hn⟩ : ∃ n, keys.count k = n + 1 := ⟨keys.count k - 1, by omega⟩
  rw [touchAll_apply, hn]
  exact hiter n

end Cells
