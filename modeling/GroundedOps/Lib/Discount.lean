import Mathlib.Tactic

/-!
# Discounted gains

A ranking is the list of its hits and misses. A hit gains the discount of its rank, and discounts
are positive and fall with the rank.

* `gain_le_best`: **a ranking with at most `n` hits gains at most what `n` hits in front gain.**
* `gain_eq_best_iff`: it gains as much exactly if its first `n` ranks are hits.
* `count_nsmul_le_gain`, `best_le_nsmul`: bounds by a number that bounds the discounts.
-/

namespace Discount

variable {M : Type*} [AddCommGroup M] [LinearOrder M] [IsOrderedAddMonoid M]

/-- What a ranking gains, from rank `rank` on. -/
def gain (discount : ℕ → M) : ℕ → List Bool → M
  | _, [] => 0
  | rank, hit :: hits => (if hit then discount rank else 0) + gain discount (rank + 1) hits

/-- What `n` hits in front gain, from rank `rank` on. -/
def best (discount : ℕ → M) : ℕ → ℕ → M
  | _, 0 => 0
  | rank, n + 1 => discount rank + best discount (rank + 1) n

variable {discount : ℕ → M} {rank n : ℕ} {hits : List Bool} {c : M}

section Positive

variable (hpos : ∀ rank, 0 < discount rank)
include hpos

theorem gain_nonneg : 0 ≤ gain discount rank hits := by
  induction hits generalizing rank with
  | nil => exact le_rfl
  | cons hit hits ih =>
    refine add_nonneg ?_ ih
    split
    · exact (hpos rank).le
    · exact le_rfl

theorem best_nonneg : 0 ≤ best discount rank n := by
  induction n generalizing rank with
  | zero => exact le_rfl
  | succ n ih => exact add_nonneg (hpos rank).le ih

theorem best_pos (hn : 0 < n) : 0 < best discount rank n := by
  obtain ⟨n, rfl⟩ : ∃ n', n = n' + 1 := ⟨n - 1, by omega⟩
  exact add_pos_of_pos_of_nonneg (hpos rank) (best_nonneg hpos)

end Positive

section Decreasing

variable (hanti : StrictAnti discount)
include hanti

/-- Hits one rank later gain no more, and less if there are any. -/
theorem best_succ_le : best discount (rank + 1) n ≤ best discount rank n := by
  induction n generalizing rank with
  | zero => exact le_rfl
  | succ n ih => exact add_le_add (hanti (Nat.lt_succ_self rank)).le ih

theorem best_succ_lt (hn : 0 < n) : best discount (rank + 1) n < best discount rank n := by
  obtain ⟨n, rfl⟩ : ∃ n', n = n' + 1 := ⟨n - 1, by omega⟩
  exact add_lt_add_of_lt_of_le (hanti (Nat.lt_succ_self rank)) (best_succ_le hanti)

variable (hpos : ∀ rank, 0 < discount rank)
include hpos

/-- The bound, and when it is reached, by induction on the ranking. -/
theorem gain_best (h : hits.count true ≤ n) :
    gain discount rank hits ≤ best discount rank n ∧
      (gain discount rank hits = best discount rank n ↔ hits.take n = List.replicate n true) := by
  induction hits generalizing rank n with
  | nil =>
    refine ⟨best_nonneg hpos, ?_⟩
    cases n with
    | zero => simp [gain, best]
    | succ n =>
      have hlt : (0 : M) < best discount rank (n + 1) := best_pos hpos (Nat.succ_pos n)
      simp only [gain, List.take_nil, List.replicate_succ, reduceCtorEq, iff_false]
      exact hlt.ne
  | cons hit hits ih =>
    cases hit with
    | true =>
      rw [List.count_cons_self] at h
      obtain ⟨n, rfl⟩ : ∃ n', n = n' + 1 := ⟨n - 1, by omega⟩
      have hcount : hits.count true ≤ n := by omega
      obtain ⟨hle, heq⟩ := @ih (rank + 1) n hcount
      have hgain : gain discount rank (true :: hits) = discount rank + gain discount (rank + 1) hits := rfl
      have hbest : best discount rank (n + 1) = discount rank + best discount (rank + 1) n := rfl
      rw [hgain, hbest]
      refine ⟨add_le_add_right hle _, ?_⟩
      rw [add_right_inj, heq, List.take_succ_cons, List.replicate_succ, List.cons.injEq]
      exact (and_iff_right rfl).symm
    | false =>
      rw [List.count_cons_of_ne (by decide)] at h
      have hgain : gain discount rank (false :: hits) = gain discount (rank + 1) hits := zero_add _
      obtain ⟨hle, heq⟩ := @ih (rank + 1) n h
      rw [hgain]
      cases n with
      | zero => exact ⟨hle, heq⟩
      | succ n =>
        -- a miss in front costs a rank of every hit
        have hlt : gain discount (rank + 1) hits < best discount rank (n + 1) :=
          lt_of_le_of_lt hle (best_succ_lt hanti (Nat.succ_pos n))
        refine ⟨hlt.le, ?_⟩
        simp only [List.take_succ_cons, List.replicate_succ, List.cons.injEq, Bool.false_eq_true,
          false_and, iff_false]
        exact hlt.ne

/-- **A ranking with at most `n` hits gains at most what `n` hits in front gain.** -/
theorem gain_le_best (h : hits.count true ≤ n) : gain discount rank hits ≤ best discount rank n :=
  (gain_best hanti hpos h).1

theorem gain_eq_best_iff (h : hits.count true ≤ n) :
    gain discount rank hits = best discount rank n ↔ hits.take n = List.replicate n true :=
  (gain_best hanti hpos h).2

end Decreasing

/-! ## Discounts between bounds -/

theorem count_nsmul_le_gain (h : ∀ rank, c ≤ discount rank) :
    hits.count true • c ≤ gain discount rank hits := by
  induction hits generalizing rank with
  | nil => simp [gain]
  | cons hit hits ih =>
    cases hit with
    | true =>
      rw [List.count_cons_self, succ_nsmul']
      exact add_le_add (h rank) ih
    | false =>
      rw [List.count_cons_of_ne (by decide)]
      exact ih.trans_eq (zero_add _).symm

theorem best_le_nsmul (h : ∀ rank, discount rank ≤ c) : best discount rank n ≤ n • c := by
  induction n generalizing rank with
  | zero => simp [best]
  | succ n ih =>
    rw [succ_nsmul']
    exact add_le_add (h rank) ih

end Discount
