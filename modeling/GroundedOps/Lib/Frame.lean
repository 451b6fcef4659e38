import GroundedOps.Lib.Hoare

/-!
# What a computation may do to the state

A relation on states that every operation keeps, however it ends, is kept by what is built from
the operations. The relation has to be transitive; for a computation that does nothing, reflexive.

* `Keeps`: the states before and after are related.
* `Keeps.bind`, `Keeps.raiseAs`: **the rules of composition**.
-/

namespace Hoare

variable {ε ε' σ α β : Type} {R : σ → σ → Prop} {m : Act ε σ α} {f : α → Act ε σ β}

/-- Whether it returns or raises, the computation leaves a state related to the one before. -/
def Keeps (R : σ → σ → Prop) (m : Act ε σ α) : Prop :=
  ∀ s, wp m (fun _ => R s) (fun _ => R s) s

theorem Keeps.pure (hR : ∀ s, R s s) (a : α) : Keeps R (pure a : Act ε σ α) := hR

theorem Keeps.throw (hR : ∀ s, R s s) (e : ε) : Keeps R (throw e : Act ε σ α) := hR

theorem Keeps.raiseAs {g : ε → ε'} (h : Keeps R m) : Keeps R (raiseAs g m) := by
  intro s
  rw [wp_raiseAs]
  exact h s

theorem Keeps.bind (htrans : ∀ {s₁ s₂ s₃}, R s₁ s₂ → R s₂ s₃ → R s₁ s₃) (hm : Keeps R m)
    (hf : ∀ a, Keeps R (f a)) : Keeps R (m >>= f) := by
  intro s
  rw [wp_bind]
  refine wp_mono (hm s) (fun a s₁ h₁ => ?_) (fun _ _ h₁ => h₁)
  exact wp_mono (hf a s₁) (fun _ _ h₂ => htrans h₁ h₂) (fun _ _ h₂ => htrans h₁ h₂)

end Hoare
