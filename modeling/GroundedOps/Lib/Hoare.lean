import Mathlib.Tactic

/-!
# Computations with state and exceptions

`Act ε σ α` reads and writes a state `σ` and either returns an `α` or raises an
`ε`. What it did to the state before raising stays done, as in the languages this
is meant for: a handler sees the state at the point of the exception.

`wp m N E s` says that from `s` the computation `m` either returns a value and a
state that satisfy `N`, or raises an exception in a state that satisfies `E`. The
rules below take a computation apart in program order; `wp_mono` lets the specification
of a function stand for the function. `Returns m s` says that `m` raises nothing from `s`.
-/

namespace Hoare

abbrev Act (ε σ α : Type) := ExceptT ε (StateM σ) α

variable {ε σ α β : Type}

/-- Run a computation from `s`. -/
def exec (m : Act ε σ α) (s : σ) : Except ε α × σ := m.run.run s

/-- The weakest precondition: `N` after a return, `E` after an exception. -/
def wp (m : Act ε σ α) (N : α → σ → Prop) (E : ε → σ → Prop) (s : σ) : Prop :=
  match exec m s with
  | (.ok a, s') => N a s'
  | (.error e, s') => E e s'

/-- Run `m`; where it raises `e`, run `h e`, which may raise something else. -/
def handle {ε' : Type} (m : Act ε σ α) (h : ε → Act ε' σ α) : Act ε' σ α :=
  ExceptT.mk do
    match ← m.run with
    | .ok a => return .ok a
    | .error e => (h e).run

variable {m : Act ε σ α} {f : α → Act ε σ β} {N N' : α → σ → Prop} {M : β → σ → Prop}
  {E E' : ε → σ → Prop} {s : σ}

/-- Run `m`, raising `g e` where it raises `e`. -/
def raiseAs {ε' : Type} (g : ε → ε') (m : Act ε σ α) : Act ε' σ α :=
  ExceptT.mk (Except.mapError g <$> m.run)

/-! ## Running -/

theorem exec_bind : exec (m >>= f) s =
    match exec m s with
    | (.ok a, s') => exec (f a) s'
    | (.error e, s') => (.error e, s') := by
  unfold exec
  rw [ExceptT.run_bind, StateT.run_bind]
  rcases m.run.run s with ⟨_ | _, s'⟩ <;> rfl

theorem exec_map {g : α → β} : exec (g <$> m) s = ((exec m s).1.map g, (exec m s).2) := by
  rw [map_eq_pure_bind, exec_bind]
  rcases exec m s with ⟨_ | _, s'⟩ <;> rfl

theorem exec_tryCatch {h : ε → Act ε σ α} : exec (tryCatch m h) s =
    match exec m s with
    | (.ok a, s') => (.ok a, s')
    | (.error e, s') => exec (h e) s' := by
  unfold exec
  rw [ExceptT.run_tryCatch, StateT.run_bind]
  rcases m.run.run s with ⟨_ | _, s'⟩ <;> rfl

theorem exec_handle {ε' : Type} {h : ε → Act ε' σ α} : exec (handle m h) s =
    match exec m s with
    | (.ok a, s') => (.ok a, s')
    | (.error e, s') => exec (h e) s' := by
  unfold exec handle
  rw [ExceptT.run_mk, StateT.run_bind]
  rcases m.run.run s with ⟨_ | _, s'⟩ <;> rfl

/-! ## Rules -/

@[simp] theorem wp_pure {a : α} : wp (pure a : Act ε σ α) N E s ↔ N a s := Iff.rfl

@[simp] theorem wp_throw {e : ε} : wp (throw e : Act ε σ α) N E s ↔ E e s := Iff.rfl

@[simp] theorem wp_get {N : σ → σ → Prop} : wp (get : Act ε σ σ) N E s ↔ N s s := Iff.rfl

@[simp] theorem wp_set {N : PUnit → σ → Prop} {s' : σ} :
    wp (set s' : Act ε σ PUnit) N E s ↔ N ⟨⟩ s' := Iff.rfl

@[simp] theorem wp_modify {N : PUnit → σ → Prop} {g : σ → σ} :
    wp (modify g : Act ε σ PUnit) N E s ↔ N ⟨⟩ (g s) := Iff.rfl

@[simp] theorem wp_bind : wp (m >>= f) M E s ↔ wp m (fun a s' => wp (f a) M E s') E s := by
  unfold wp
  rw [exec_bind]
  rcases exec m s with ⟨_ | _, s'⟩ <;> rfl

@[simp] theorem wp_map {g : α → β} : wp (g <$> m) M E s ↔ wp m (fun a s' => M (g a) s') E s := by
  rw [map_eq_pure_bind, wp_bind]; rfl

@[simp] theorem wp_tryCatch {h : ε → Act ε σ α} :
    wp (tryCatch m h) N E s ↔ wp m N (fun e s' => wp (h e) N E s') s := by
  unfold wp
  rw [exec_tryCatch]
  rcases exec m s with ⟨_ | _, s'⟩ <;> rfl

@[simp] theorem wp_raiseAs {ε' : Type} {g : ε → ε'} {E : ε' → σ → Prop} :
    wp (raiseAs g m) N E s ↔ wp m N (fun e s' => E (g e) s') s := by
  have hrun : exec (raiseAs g m) s = ((exec m s).1.mapError g, (exec m s).2) := rfl
  unfold wp
  rw [hrun]
  rcases exec m s with ⟨_ | _, s'⟩ <;> rfl

@[simp] theorem wp_handle {ε' : Type} {h : ε → Act ε' σ α} {E : ε' → σ → Prop} :
    wp (handle m h) N E s ↔ wp m N (fun e s' => wp (h e) N E s') s := by
  unfold wp
  rw [exec_handle]
  rcases exec m s with ⟨_ | _, s'⟩ <;> rfl

/-- **Consequence.** -/
theorem wp_mono (h : wp m N E s) (hN : ∀ a s', N a s' → N' a s')
    (hE : ∀ e s', E e s' → E' e s') : wp m N' E' s := by
  unfold wp at h ⊢
  split
  · rename_i a s' hr
    rw [hr] at h; exact hN a s' h
  · rename_i e s' hr
    rw [hr] at h; exact hE e s' h

/-- What a computation does is what its run shows. -/
theorem wp_self : wp m (fun a s' => exec m s = (.ok a, s')) (fun e s' => exec m s = (.error e, s')) s := by
  unfold wp
  split
  · assumption
  · assumption

theorem wp_and (h : wp m N E s) (h' : wp m N' E' s) :
    wp m (fun a s' => N a s' ∧ N' a s') (fun e s' => E e s' ∧ E' e s') s := by
  unfold wp at h h' ⊢
  split
  · rename_i a s' hr
    rw [hr] at h h'; exact ⟨h, h'⟩
  · rename_i e s' hr
    rw [hr] at h h'; exact ⟨h, h'⟩

/-- What holds of the state however the computation ends. -/
theorem wp_state {P : σ → Prop} (h : wp m (fun _ => P) (fun _ => P) s) : P (exec m s).2 := by
  unfold wp at h
  split at h
  · rename_i hr; rw [hr]; exact h
  · rename_i hr; rw [hr]; exact h

/-- What a triple says about a run that returned. -/
theorem wp_ok (h : wp m N E s) {a : α} {s' : σ} (hr : exec m s = (.ok a, s')) : N a s' := by
  unfold wp at h; rw [hr] at h; exact h

/-- A computation that can only return `a` in `s'` does. -/
theorem exec_of_wp {a : α} {s' : σ} (h : wp m (fun b s'' => b = a ∧ s'' = s') (fun _ _ => False) s) :
    exec m s = (.ok a, s') := by
  unfold wp at h
  split at h
  · rename_i hr
    rw [hr, h.1, h.2]
  · exact h.elim

/-- What a triple says about a run that raised. -/
theorem wp_error (h : wp m N E s) {e : ε} {s' : σ} (hr : exec m s = (.error e, s')) : E e s' := by
  unfold wp at h; rw [hr] at h; exact h

/-! ## Total correctness -/

/-- From `s`, the computation returns. -/
def Returns (m : Act ε σ α) (s : σ) : Prop := wp m (fun _ _ => True) (fun _ _ => False) s

/-- What a computation does that returns. -/
theorem Returns.total (h : Returns m s) (hm : wp m N E s) : wp m N (fun _ _ => False) s :=
  wp_mono (wp_and h hm) (fun _ _ h => h.2) fun _ _ h => h.1

/-- **The rule of sequence**: what is known of the first computation when it returns is what the
second may rely on. -/
theorem Returns.bind (h : Returns m s) (hm : wp m N E s)
    (hf : ∀ a s', N a s' → Returns (f a) s') : Returns (m >>= f) s := by
  unfold Returns
  rw [wp_bind]
  exact wp_mono (h.total hm) hf fun _ _ h => h

/-! ## Loops -/

/-- **The loop rule**: `I done` holds when the elements `done` have been gone through. -/
theorem wp_mapM {l : List α} {f : α → Act ε σ β} {I : List α → σ → Prop}
    (hstep : ∀ done a rest, l = done ++ a :: rest → ∀ s, I done s →
      wp (f a) (fun _ s' => I (done ++ [a]) s') E s)
    (h : I [] s) : wp (l.mapM f) (fun _ s' => I l s') E s := by
  have hfrom : ∀ rest done s, l = done ++ rest → I done s →
      wp (rest.mapM f) (fun _ s' => I l s') E s := by
    intro rest
    induction rest with
    | nil =>
      intro done s hl hdone
      rw [List.append_nil] at hl
      exact hl ▸ hdone
    | cons a rest ih =>
      intro done s hl hdone
      rw [List.mapM_cons, wp_bind]
      refine wp_mono (hstep done a rest hl s hdone) (fun _ s' hs' => ?_) (fun _ _ he => he)
      rw [wp_bind]
      refine wp_mono (ih (done ++ [a]) s' ?_ hs') (fun _ _ hI => hI) (fun _ _ he => he)
      rw [hl, List.append_assoc, List.singleton_append]
  exact hfrom l [] s rfl h

/-- A loop whose body only computes. -/
theorem mapM_eq_pure {l : List α} {f : α → Act ε σ β} {g : α → β}
    (h : ∀ a ∈ l, f a = pure (g a)) : l.mapM f = pure (l.map g) := by
  induction l with
  | nil => rfl
  | cons a l ih =>
    have ih' := ih fun b hb => h b (List.mem_cons_of_mem a hb)
    rw [List.mapM_cons, h a List.mem_cons_self, ih', pure_bind, pure_bind, List.map_cons]

end Hoare
