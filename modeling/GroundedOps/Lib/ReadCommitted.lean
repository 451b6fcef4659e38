import Mathlib.Tactic

/-!
# Rows under READ COMMITTED

Each row has a committed value, and at most one more that a transaction has written and not
committed: that transaction has the row locked until it ends. A statement sees what is
committed and what its own transaction has written.

* `update`: one statement; `none` while another transaction has the row locked.
* `commit`, `rollback`: end a transaction and release its rows.
-/

namespace ReadCommitted

structure Rows (κ ρ τ : Type*) where
  committed : κ → Option ρ
  /-- who has the row locked, and what they have written -/
  pending : κ → Option (τ × ρ)

namespace Rows

variable {κ ρ τ : Type*} [DecidableEq τ]

/-- What a statement of the transaction sees. -/
def visible (rows : Rows κ ρ τ) (tx : τ) (k : κ) : Option ρ :=
  match rows.pending k with
  | none => rows.committed k
  | some (owner, r) => if owner = tx then some r else rows.committed k

def lockedFor (rows : Rows κ ρ τ) (tx : τ) (k : κ) : Bool :=
  (rows.pending k).any fun p => p.1 ≠ tx

/-- The locks of the other transactions. -/
def released (rows : Rows κ ρ τ) (tx : τ) (k : κ) : Option (τ × ρ) :=
  (rows.pending k).filter fun p => p.1 ≠ tx

def commit (rows : Rows κ ρ τ) (tx : τ) : Rows κ ρ τ where
  committed := rows.visible tx
  pending := rows.released tx

def rollback (rows : Rows κ ρ τ) (tx : τ) : Rows κ ρ τ where
  committed := rows.committed
  pending := rows.released tx

variable {rows rows' : Rows κ ρ τ} {tx tx' : τ} {k : κ} {r : ρ} {f : Option ρ → ρ}

theorem visible_of_pending (h : rows.pending k = some (tx, r)) : rows.visible tx k = some r := by
  unfold visible
  rw [h]
  exact if_pos rfl

theorem visible_of_not_pending (h : ∀ r, rows.pending k ≠ some (tx, r)) :
    rows.visible tx k = rows.committed k := by
  unfold visible
  split
  · rfl
  · rename_i owner r hp
    exact if_neg fun (howner : owner = tx) => h r (howner ▸ hp)

theorem released_eq_some : rows.released tx k = some (tx', r) ↔
    rows.pending k = some (tx', r) ∧ tx' ≠ tx := by
  unfold released
  rw [Option.filter_eq_some_iff]
  simp

variable [DecidableEq κ]

def write (rows : Rows κ ρ τ) (tx : τ) (k : κ) (r : ρ) : Rows κ ρ τ :=
  { rows with pending := Function.update rows.pending k (some (tx, r)) }

/-- Write the row as a function of what is there; `none` while it is locked. -/
def update (rows : Rows κ ρ τ) (tx : τ) (k : κ) (f : Option ρ → ρ) : Option (Rows κ ρ τ) :=
  if rows.lockedFor tx k then none else some (rows.write tx k (f (rows.visible tx k)))

/-- **What an update has done**: it found the row free or its own, and has it locked. -/
theorem update_eq_some (h : rows.update tx k f = some rows') :
    rows' = rows.write tx k (f (rows.visible tx k)) ∧
      ∀ tx' r, rows.pending k = some (tx', r) → tx' = tx := by
  unfold update at h
  split at h
  · cases h
  · rename_i hfree
    cases h
    refine ⟨rfl, fun tx' r hp => ?_⟩
    unfold lockedFor at hfree
    rw [hp] at hfree
    simpa using hfree

theorem update_of_free (h : rows.pending k = none) :
    rows.update tx k f = some (rows.write tx k (f (rows.committed k))) := by
  have hvisible : rows.visible tx k = rows.committed k :=
    visible_of_not_pending fun r hp => by rw [h] at hp; cases hp
  unfold update lockedFor
  rw [h, hvisible]
  rfl

/-- A transaction that writes one row and commits. -/
theorem commit_write (h : ∀ k r, rows.pending k ≠ some (tx, r)) {k' : κ} :
    ((rows.write tx k r).commit tx).committed k' = if k' = k then some r else rows.committed k' := by
  show (rows.write tx k r).visible tx k' = _
  by_cases hk : k' = k
  · subst hk
    rw [if_pos rfl]
    exact visible_of_pending (Function.update_self ..)
  · rw [if_neg hk]
    refine visible_of_not_pending fun r' hp => h k' r' ?_
    have hsame : (rows.write tx k r).pending k' = rows.pending k' := Function.update_of_ne hk ..
    exact hsame ▸ hp

end Rows

end ReadCommitted
