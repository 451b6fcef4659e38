import Mathlib.Tactic

/-!
# Removing actions from a run

Some actions of a run are hidden, and what the others return is observed. If hidden actions
keep a relation between the run and the run without them, and the others keep it and return
the same under it, then removing the hidden actions changes nothing that is observed.

* `outputs`: what the observed actions of a run return, in order.
* `outputs_append`: actions that are not observed only move the state.
* `outputs_purge`: the outputs of a run are those of the run without its hidden actions.
-/

namespace Purge

variable {S A O : Type*}

/-- What the actions of the run that are observed return, in order. -/
def outputs (step : S → A → O × S) (observed : A → Bool) : S → List A → List O
  | _, [] => []
  | s, a :: as =>
    let (o, s') := step s a
    if observed a then o :: outputs step observed s' as else outputs step observed s' as

/-- The state after a run. -/
def after (step : S → A → O × S) (s : S) (as : List A) : S := as.foldl (fun s a => (step s a).2) s

variable {step : S → A → O × S} {observed hidden : A → Bool} {ok : A → Prop} {R : S → S → Prop}
  {s : S} {as bs : List A}

/-- Actions that are not observed only move the state. -/
theorem outputs_append (h : ∀ a ∈ as, observed a = false) : outputs step observed s (as ++ bs) =
    outputs step observed (after step s as) bs := by
  induction as generalizing s with
  | nil => rfl
  | cons a as ih =>
    have hfirst : ¬ observed a = true := by
      rw [h a List.mem_cons_self]
      exact Bool.false_ne_true
    rw [List.cons_append, outputs]
    exact (if_neg hfirst).trans (ih fun b hb => h b (List.mem_cons_of_mem _ hb))

/-- **Hidden actions leave no trace in the outputs.** -/
theorem outputs_purge (hhidden : ∀ s t a, ok a → R s t → hidden a → R (step s a).2 t)
    (hkept : ∀ s t a, ok a → R s t → hidden a = false → R (step s a).2 (step t a).2)
    (hsame : ∀ s t a, ok a → R s t → observed a → (step s a).1 = (step t a).1)
    (hdisjoint : ∀ a, observed a → hidden a = false) :
    ∀ {as : List A} {s t : S}, R s t → (∀ a ∈ as, ok a) →
      outputs step observed s as = outputs step observed t (as.filter fun a => !hidden a) := by
  intro as
  induction as with
  | nil => exact fun _ _ => rfl
  | cons a as ih =>
    intro s t hR hok
    have ha : ok a := hok a List.mem_cons_self
    have hrest : ∀ a ∈ as, ok a := fun b hb => hok b (List.mem_cons_of_mem _ hb)
    cases hh : hidden a with
    | true =>
      have hunobserved : ¬ observed a = true := by
        intro ho
        rw [hdisjoint a ho] at hh
        cases hh
      have hfilter : (a :: as).filter (fun a => !hidden a) = as.filter fun a => !hidden a :=
        List.filter_cons_of_neg (by simp [hh])
      rw [hfilter, ← ih (hhidden s t a ha hR hh) hrest, outputs]
      exact if_neg hunobserved
    | false =>
      have hfilter : (a :: as).filter (fun a => !hidden a) = a :: as.filter fun a => !hidden a :=
        List.filter_cons_of_pos (by simp [hh])
      have htail := ih (hkept s t a ha hR hh) hrest
      rw [hfilter, outputs, outputs]
      by_cases ho : observed a = true
      · simp only [if_pos ho]
        rw [hsame s t a ha hR ho, htail]
      · simp only [if_neg ho]
        exact htail

end Purge
