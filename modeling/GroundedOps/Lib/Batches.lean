import Mathlib.Tactic

/-!
# Batches and shares

* `batches size l`: the slices of `l` at every `size`-th position.
* `flatten_batches`, `length_of_mem`: **the batches join to the list**, and each has between 1 and
  `size` members.
* `shares total n`: a total in `n` parts that differ by at most one.
* `sum_shares`: **nothing is lost in the parts.**
-/

namespace Batches

variable {α : Type*} {size : ℕ} {l batch : List α}

/-- `l[start : start + size] for start in range(0, len(l), size)` -/
def batches (size : ℕ) (l : List α) : List (List α) :=
  (List.range' 0 ((l.length + size - 1) / size) size).map fun start => (l.drop start).take size

/-- The slices from a position on. -/
theorem flatten_slices {n start : ℕ} (h : l.length ≤ start + n * size) :
    ((List.range' start n size).map fun start => (l.drop start).take size).flatten = l.drop start := by
  induction n generalizing start with
  | zero =>
    rw [Nat.zero_mul, Nat.add_zero] at h
    rw [List.drop_eq_nil_of_le h]
    rfl
  | succ n ih =>
    have hnext : l.length ≤ start + size + n * size := by
      rw [Nat.succ_mul] at h
      omega
    rw [List.range'_succ, List.map_cons, List.flatten_cons, ih hnext, ← List.drop_drop,
      List.take_append_drop]

/-- **The batches join to the list.** -/
theorem flatten_batches (hsize : 0 < size) : (batches size l).flatten = l := by
  refine flatten_slices (Nat.le_of_lt_succ ?_)
  have hlt := Nat.lt_mul_div_succ (l.length + size - 1) hsize
  rw [Nat.mul_succ] at hlt
  rw [Nat.mul_comm] at hlt
  omega

/-- **A batch has between 1 and `size` members.** -/
theorem length_of_mem (hsize : 0 < size) (h : batch ∈ batches size l) :
    0 < batch.length ∧ batch.length ≤ size := by
  obtain ⟨start, hstart, rfl⟩ := List.mem_map.1 h
  obtain ⟨i, hi, rfl⟩ := List.mem_range'.1 hstart
  -- the number of batches is rounded up, so each starts inside of the list
  have hle : (i + 1) * size ≤ l.length + size - 1 :=
    (Nat.mul_le_mul_right size hi).trans (Nat.div_mul_le_self _ _)
  have hinside : 0 + size * i < l.length := by
    rw [Nat.succ_mul, Nat.mul_comm i size] at hle
    omega
  rw [List.length_take, List.length_drop]
  omega

/-! ## Shares -/

/-- A quotient for each, and one more for as many as the remainder says. -/
def shares (total : ℤ) (n : ℕ) : List ℤ :=
  (List.range n).map fun index : ℕ => total / n + if (index : ℤ) < total % n then 1 else 0

@[simp] theorem length_shares {total : ℤ} {n : ℕ} : (shares total n).length = n := by
  simp [shares]

/-- The first `r` of `n` indices get one. -/
theorem sum_ones {n r : ℕ} (h : r ≤ n) :
    ((List.range n).map fun index => if index < r then (1 : ℤ) else 0).sum = r := by
  induction n generalizing r with
  | zero =>
    obtain rfl : r = 0 := by omega
    rfl
  | succ n ih =>
    rw [List.range_succ, List.map_append, List.sum_append]
    by_cases hr : r ≤ n
    · rw [ih hr]
      simp [hr]
    · obtain rfl : r = n + 1 := by omega
      have hall : ((List.range n).map fun index => if index < n + 1 then (1 : ℤ) else 0) =
          (List.range n).map fun index => if index < n then (1 : ℤ) else 0 := by
        refine List.map_congr_left fun index hindex => ?_
        have hlt := List.mem_range.1 hindex
        rw [if_pos (by omega), if_pos hlt]
      rw [hall, ih le_rfl]
      simp

/-- **Nothing is lost in the parts.** -/
theorem sum_shares {total : ℤ} {n : ℕ} (hn : 0 < n) : (shares total n).sum = total := by
  have hn' : (0 : ℤ) < n := by exact_mod_cast hn
  obtain ⟨r, hr⟩ : ∃ r : ℕ, total % n = r := ⟨(total % n).toNat, by
    rw [Int.toNat_of_nonneg (Int.emod_nonneg _ hn'.ne')]⟩
  have hlt : r ≤ n := by
    have hmod := Int.emod_lt_of_pos total hn'
    omega
  have hones : ((List.range n).map fun index : ℕ => if (index : ℤ) < total % n then (1 : ℤ) else 0).sum =
      r := by
    rw [hr]
    simp only [Nat.cast_lt]
    exact sum_ones hlt
  unfold shares
  rw [List.sum_map_add, hones, List.map_const', List.sum_replicate, List.length_range, nsmul_eq_mul,
    ← hr]
  exact Int.mul_ediv_add_emod total n

end Batches
