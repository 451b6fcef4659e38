import GroundedOps.Lib.Dict

/-!
# Rank fusion

Items have a key. Every item of a ranking earns its key a share that depends on its rank, and a
table keeps the first item of each key with what the key has earned so far.

* `credits_table`: **the table after a ranking** has the items of the ranking behind those it had,
  and what they earned.
* `earned_eq`: a key that a ranking has once earns the share of its rank (`shareOf`).
* `mem_take_iff`: **the best `n` of a sorted list** are the items that fewer than `n` precede.
-/

namespace Fusion

variable {α κ R : Type*}

section Table

variable [DecidableEq κ] [AddCommMonoid R] (key : α → κ) (share : ℕ → R)

/-- Add `r` to what the key of `a` has earned. -/
def credit (r : R) (a : α) : List (R × α) → List (R × α)
  | [] => [(r, a)]
  | (s, b) :: entries => if key b = key a then (s + r, b) :: entries else (s, b) :: credit r a entries

/-- Every item of a ranking earns its share, from rank `rank` on. -/
def credits : ℕ → List α → List (R × α) → List (R × α)
  | _, [], entries => entries
  | rank, a :: l, entries => credits (rank + 1) l (credit key (share rank) a entries)

/-- What a key earns in a ranking, from rank `rank` on. -/
def earned (k : κ) : ℕ → List α → R
  | _, [] => 0
  | rank, a :: l => (if key a = k then share rank else 0) + earned k (rank + 1) l

/-- The share of the rank that a key has in a ranking, if it has one. -/
def shareOf (k : κ) (rank : ℕ) (l : List α) : R :=
  if k ∈ l.map key then share (rank + (l.map key).idxOf k) else 0

/-- The first item of each key, with a score of the key. -/
def table (items : List α) (score : κ → R) : List (R × α) :=
  (Dict.firsts key items).map fun a => (score (key a), a)

variable {key share} {k : κ} {a : α} {l : List α} {rank : ℕ} {score : κ → R}

theorem shareOf_cons_self : shareOf key share (key a) rank (a :: l) = share rank := by
  unfold shareOf
  rw [List.map_cons, if_pos List.mem_cons_self, List.idxOf_cons_self, add_zero]

theorem shareOf_cons_of_ne (h : key a ≠ k) :
    shareOf key share k rank (a :: l) = shareOf key share k (rank + 1) l := by
  have hmem : k ∈ key a :: l.map key ↔ k ∈ l.map key := by
    rw [List.mem_cons]
    exact or_iff_right (Ne.symm h)
  have hrank : rank + 1 + (l.map key).idxOf k = rank + ((l.map key).idxOf k).succ := by omega
  unfold shareOf
  rw [List.map_cons, if_congr hmem rfl rfl, List.idxOf_cons_ne _ h, hrank]

theorem earned_of_not_mem (h : k ∉ l.map key) : earned key share k rank l = 0 := by
  induction l generalizing rank with
  | nil => rfl
  | cons a l ih =>
    rw [List.map_cons, List.mem_cons, not_or] at h
    rw [earned, if_neg (Ne.symm h.1), zero_add]
    exact ih h.2

/-- **A key that a ranking has once** earns the share of its rank. -/
theorem earned_eq (hdistinct : (l.map key).Nodup) : earned key share k rank l = shareOf key share k rank l := by
  induction l generalizing rank with
  | nil => rfl
  | cons a l ih =>
    obtain ⟨ha, hdistinct⟩ := List.nodup_cons.1 hdistinct
    rw [earned]
    by_cases hk : key a = k
    · subst hk
      rw [if_pos rfl, earned_of_not_mem ha, add_zero, shareOf_cons_self]
    · rw [if_neg hk, zero_add, ih hdistinct, shareOf_cons_of_ne hk]

/-- The share of an item whose key is its own. -/
theorem shareOf_ranked (hdistinct : (l.map key).Nodup) {ranked : α × ℕ} (h : ranked ∈ l.zipIdx rank) :
    shareOf key share (key ranked.1) rank l = share ranked.2 := by
  obtain ⟨hrank, hget⟩ := List.mem_zipIdx_iff_le_and_getElem?_sub.1 h
  obtain ⟨hlt, hget⟩ := List.getElem?_eq_some_iff.1 hget
  have hidx : (l.map key).idxOf (key ranked.1) = ranked.2 - rank := by
    have hplace : (l.map key)[ranked.2 - rank]? = some (key ranked.1) := by
      rw [List.getElem?_map, List.getElem?_eq_getElem hlt, hget, Option.map_some]
    obtain ⟨hlt', hplace⟩ := List.getElem?_eq_some_iff.1 hplace
    rw [← hplace]
    exact hdistinct.idxOf_getElem _ _
  have hmem : key ranked.1 ∈ l.map key := List.mem_map_of_mem (hget ▸ List.getElem_mem hlt)
  have hsum : rank + (ranked.2 - rank) = ranked.2 := by omega
  unfold shareOf
  rw [if_pos hmem, hidx, hsum]

/-- The entries of other keys stay. -/
theorem credit_map {r : R} {items : List α} (hdistinct : (items.map key).Nodup) :
    credit key r a (items.map fun b => (score (key b), b)) =
      if key a ∈ items.map key then
        items.map fun b => (score (key b) + if key a = key b then r else 0, b)
      else (items.map fun b => (score (key b), b)) ++ [(r, a)] := by
  induction items with
  | nil => rfl
  | cons b items ih =>
    obtain ⟨hb, hdistinct⟩ := List.nodup_cons.1 hdistinct
    simp only [List.map_cons, credit, List.mem_cons]
    by_cases hkey : key b = key a
    · have hrest : items.map (fun c => (score (key c), c)) =
          items.map fun c => (score (key c) + if key a = key c then r else 0, c) := by
        apply List.map_congr_left
        intro c hc
        have hne : key a ≠ key c := by
          intro heq
          rw [hkey, heq] at hb
          exact hb (List.mem_map_of_mem hc)
        rw [if_neg hne, add_zero]
      rw [if_pos hkey, if_pos (Or.inl hkey.symm), if_pos hkey.symm, hrest]
    · have hmem : key a = key b ∨ key a ∈ items.map key ↔ key a ∈ items.map key :=
        or_iff_right (Ne.symm hkey)
      rw [if_neg hkey, ih hdistinct, if_congr hmem rfl rfl, if_neg (Ne.symm hkey), add_zero]
      split
      · rfl
      · rfl

/-- One more item, to a table whose scores are zero on new keys. -/
theorem credit_table {items : List α} {r : R} (hzero : ∀ k, k ∉ items.map key → score k = 0) :
    credit key r a (table key items score) =
      table key (items ++ [a]) fun k => score k + if key a = k then r else 0 := by
  have hkeys : key a ∈ (Dict.firsts key items).map key ↔ key a ∈ items.map key := by
    rw [Dict.map_firsts, Dict.mem_firsts_id]
  unfold table
  rw [credit_map Dict.nodup_firsts, Dict.firsts_concat, if_congr hkeys rfl rfl]
  split
  · rfl
  · rename_i hnew
    rw [List.map_append]
    congr 1
    · apply List.map_congr_left
      intro b hb
      have hne : key a ≠ key b := by
        intro heq
        exact hnew (heq ▸ List.mem_map_of_mem (Dict.mem_of_mem_firsts hb))
      simp only [if_neg hne, add_zero]
    · simp only [List.map_singleton, if_true, hzero _ hnew, zero_add]

/-- **The table after a ranking.** -/
theorem credits_table {items : List α} (hzero : ∀ k, k ∉ items.map key → score k = 0) :
    credits key share rank l (table key items score) =
      table key (items ++ l) fun k => score k + earned key share k rank l := by
  induction l generalizing rank items score with
  | nil =>
    unfold credits
    simp only [earned, List.append_nil, add_zero]
  | cons a l ih =>
    have hstep : ∀ k, k ∉ (items ++ [a]).map key →
        score k + (if key a = k then share rank else 0) = 0 := by
      intro k hk
      rw [List.map_append, List.mem_append, not_or] at hk
      have hne : key a ≠ k := by
        rintro rfl
        exact hk.2 List.mem_cons_self
      rw [hzero k hk.1, if_neg hne, add_zero]
    rw [credits, credit_table hzero, ih hstep, List.append_assoc]
    simp only [earned, add_assoc, List.singleton_append]

/-- From an empty table, one ranking after another. -/
theorem credits_credits {first second : List α} :
    credits key share rank second (credits key share rank first []) =
      table key (first ++ second) fun k => earned key share k rank first + earned key share k rank second := by
  have hempty : ([] : List (R × α)) = table key [] fun _ => 0 := rfl
  rw [hempty, credits_table fun _ _ => rfl, List.nil_append, credits_table]
  · simp only [zero_add]
  · intro k hk
    rw [earned_of_not_mem hk, add_zero]

end Table

/-! ## The best of a sorted list -/

variable {r : α → α → Prop} [DecidableRel r] {l : List α} {a : α}

/-- **The best `n` of a sorted list** are the items that fewer than `n` precede. -/
theorem mem_take_iff (hasymm : ∀ a b, r a b → ¬ r b a) (hsorted : l.Pairwise r) (ha : a ∈ l) (n : ℕ) :
    a ∈ l.take n ↔ l.countP (fun b => r b a) < n := by
  induction l generalizing n with
  | nil => cases ha
  | cons b l ih =>
    obtain ⟨hb, hsorted⟩ := List.pairwise_cons.1 hsorted
    have hirrefl : ∀ c, ¬ r c c := fun c hc => hasymm c c hc hc
    cases n with
    | zero => simp
    | succ n =>
      rw [List.take_succ_cons]
      rcases List.mem_cons.1 ha with rfl | ha
      · -- nothing precedes the first item
        have hnone : l.countP (fun c => decide (r c a)) = 0 := by
          rw [List.countP_eq_zero]
          intro c hc hca
          exact hasymm _ _ (hb c hc) (of_decide_eq_true hca)
        rw [List.countP_cons_of_neg (by simpa using hirrefl a), hnone]
        simp
      · have hne : a ≠ b := fun heq => hirrefl a (heq ▸ hb a ha)
        rw [List.countP_cons_of_pos (by simpa using hb a ha), List.mem_cons, or_iff_right hne,
          ih hsorted ha n]
        omega

end Fusion
