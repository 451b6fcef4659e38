import Mathlib.Data.List.Infix
import Mathlib.Tactic

/-!
# Runs of a step function

A system is a function `step`: the state before an action, the action, the state
after it. An action that is not enabled leaves the state as it is, so a list of
actions is an interleaving of everything that happens.

* `run`: the state after a list of actions.
* `Always P`: `P` holds of every state the run goes through.
* `Meets ok`: every step of the run meets `ok`, a condition on the state before
  the step and the action.
* `run_inv`: an invariant of the steps is one of the runs.
* `always_iff_meets`: if, under an invariant, a step keeps `P` exactly when it
  meets `ok`, a run keeps `P` exactly when all its steps meet `ok`.
-/

namespace Machine

variable {S A : Type*} (step : S → A → S)

/-- The state after the actions `as`, from `s`. -/
def run (s : S) (as : List A) : S := as.foldl step s

/-- `P` holds of every state the run goes through, the first one included. -/
def Always (P : S → Prop) (s : S) (as : List A) : Prop :=
  ∀ pre, pre <+: as → P (run step s pre)

/-- Every step of the run meets `ok`. -/
def Meets (ok : S → A → Prop) : S → List A → Prop
  | _, [] => True
  | s, a :: as => ok s a ∧ Meets ok (step s a) as

variable {step} {s : S} {a : A} {as : List A}

@[simp] theorem run_nil : run step s [] = s := rfl

@[simp] theorem run_cons : run step s (a :: as) = run step (step s a) as := rfl

theorem run_append {bs : List A} : run step s (as ++ bs) = run step (run step s as) bs := by
  simp [run]

@[simp] theorem run_concat : run step s (as ++ [a]) = step (run step s as) a := by
  simp [run]

/-- **An invariant of the steps holds after every run.** -/
theorem run_inv {I : S → Prop} (hstep : ∀ s a, I s → I (step s a)) (h0 : I s) :
    I (run step s as) := by
  induction as generalizing s with
  | nil => exact h0
  | cons a as ih => exact ih (hstep s a h0)

/-- An invariant of the steps that the run takes. -/
theorem run_inv_of_mem {I : S → Prop} (hstep : ∀ s, ∀ a ∈ as, I s → I (step s a)) (h0 : I s) :
    I (run step s as) := by
  induction as generalizing s with
  | nil => exact h0
  | cons a as ih =>
    exact ih (fun s b hb => hstep s b (List.mem_cons_of_mem _ hb)) (hstep s a List.mem_cons_self h0)

/-! ## Properties of every state of a run -/

section Always

variable {P : S → Prop}

theorem always_nil : Always step P s [] ↔ P s := by
  simp [Always]

theorem always_cons : Always step P s (a :: as) ↔ P s ∧ Always step P (step s a) as := by
  constructor
  · intro h
    refine ⟨h [] (List.nil_prefix), fun pre hpre => ?_⟩
    exact h (a :: pre) (List.cons_prefix_cons.2 ⟨rfl, hpre⟩)
  · rintro ⟨h0, h⟩ pre hpre
    cases pre with
    | nil => exact h0
    | cons b pre =>
      obtain ⟨rfl, hrest⟩ := List.cons_prefix_cons.1 hpre
      exact h pre hrest

theorem Always.first (h : Always step P s as) : P s := h [] List.nil_prefix

theorem Always.last (h : Always step P s as) : P (run step s as) := h as List.prefix_rfl

variable {I : S → Prop} {ok : S → A → Prop}

theorem meets_append {bs : List A} :
    Meets step ok s (as ++ bs) ↔ Meets step ok s as ∧ Meets step ok (run step s as) bs := by
  induction as generalizing s with
  | nil => simp [Meets]
  | cons a as ih => simp only [List.cons_append, Meets, run_cons, ih, and_assoc]

theorem meets_of_prefix {bs : List A} (hleading : bs <+: as) (h : Meets step ok s as) :
    Meets step ok s bs := by
  obtain ⟨cs, rfl⟩ := hleading
  exact (meets_append.1 h).1

/-- A condition on the actions alone joins one on the steps. -/
theorem Meets.and_mem {ok' : A → Prop} (h : Meets step ok s as) (hall : ∀ a ∈ as, ok' a) :
    Meets step (fun s a => ok' a ∧ ok s a) s as := by
  induction as generalizing s with
  | nil => trivial
  | cons a as ih =>
    exact ⟨⟨hall a List.mem_cons_self, h.1⟩, ih h.2 fun b hb => hall b (List.mem_cons_of_mem _ hb)⟩

/-- Two conditions that agree on every step under an invariant are met by the same runs. -/
theorem meets_iff_meets {ok' ok'' : S → A → Prop} (hI : ∀ s a, I s → ok s a → I (step s a))
    (hiff : ∀ s a, I s → ok s a → (ok' s a ↔ ok'' s a)) :
    ∀ {as : List A} {s : S}, I s → Meets step ok s as →
      (Meets step ok' s as ↔ Meets step ok'' s as) := by
  intro as
  induction as with
  | nil => intro s _ _; exact Iff.rfl
  | cons a as ih =>
    rintro s hi ⟨hok, hrest⟩
    exact and_congr (hiff s a hi hok) (ih (hI s a hi hok) hrest)

/-- **A run keeps `P` if its steps meet `ok`**, when a step that meets `ok` does. -/
theorem always_of_meets (hI : ∀ s a, I s → P s → ok s a → I (step s a))
    (hP : ∀ s a, I s → P s → ok s a → P (step s a)) :
    ∀ {as : List A} {s : S}, I s → P s → Meets step ok s as → Always step P s as := by
  intro as
  induction as with
  | nil => intro s _ h0 _; exact always_nil.2 h0
  | cons a as ih =>
    rintro s hi h0 ⟨hok, hrest⟩
    exact always_cons.2 ⟨h0, ih (hI s a hi h0 hok) (hP s a hi h0 hok) hrest⟩

/-- **A run keeps `P` exactly when its steps meet `ok`**, when that is so of each step. -/
theorem always_iff_meets (hI : ∀ s a, I s → P s → I (step s a))
    (hP : ∀ s a, I s → P s → (P (step s a) ↔ ok s a)) :
    ∀ {as : List A} {s : S}, I s → P s → (Always step P s as ↔ Meets step ok s as) := by
  intro as
  induction as with
  | nil => intro s _ h0; exact iff_of_true (always_nil.2 h0) trivial
  | cons a as ih =>
    intro s hi h0
    rw [always_cons, Meets]
    constructor
    · rintro ⟨-, h⟩
      have hs : P (step s a) := h.first
      exact ⟨(hP s a hi h0).1 hs, (ih (hI s a hi h0) hs).1 h⟩
    · rintro ⟨hok, h⟩
      have hs : P (step s a) := (hP s a hi h0).2 hok
      exact ⟨h0, (ih (hI s a hi h0) hs).2 h⟩

end Always

end Machine
