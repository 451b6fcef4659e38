import Mathlib.Tactic

/-!
# A register that keeps the newest value

Values are offered to the register one after another, and a value replaces the stored one
unless it is older, by a relation `le` on values.

* `Newest`: the register holds the newest of the values offered so far.
* `Newest.offer`: one more offer keeps that.
* `Newest.unique`: what the register holds does not depend on the order of the offers.
-/

namespace Register

variable {α : Type*} (le : α → α → Bool)

/-- Replace the stored value, unless `a` is older. -/
def offer (current : Option α) (a : α) : Option α :=
  match current with
  | none => some a
  | some b => if le b a then some a else some b

/-- The register holds the newest of the values offered. -/
structure Newest (offered : List α) (current : Option α) : Prop where
  empty : current = none → offered = []
  mem : ∀ a, current = some a → a ∈ offered
  newest : ∀ a, current = some a → ∀ b ∈ offered, le b a

variable {le} {offered offered' : List α} {current current' : Option α} {a : α}

theorem Newest.nil : Newest le [] none :=
  ⟨fun _ => rfl, fun _ h => absurd h.symm (Option.some_ne_none _),
    fun _ h => absurd h.symm (Option.some_ne_none _)⟩

theorem Newest.some_of_mem (h : Newest le offered current) (ha : a ∈ offered) :
    ∃ b, current = some b ∧ le a b := by
  cases hc : current with
  | none =>
    rw [h.empty hc] at ha
    exact absurd ha List.not_mem_nil
  | some b => exact ⟨b, rfl, h.newest b hc a ha⟩

/-- **One more offer.** -/
theorem Newest.offer (htotal : ∀ a b, le a b ∨ le b a) (htrans : ∀ a b c, le a b → le b c → le a c)
    (h : Newest le offered current) (a : α) :
    Newest le (offered ++ [a]) (offer le current a) := by
  have hrefl : le a a := (htotal a a).elim id id
  cases current with
  | none =>
    have hnil : offered = [] := h.empty rfl
    subst hnil
    refine ⟨fun hc => absurd hc (Option.some_ne_none _), ?_, ?_⟩
    · intro b hb
      cases hb
      exact List.mem_cons_self
    · intro b hb x hx
      cases hb
      rw [List.nil_append, List.mem_singleton] at hx
      exact hx ▸ hrefl
  | some b =>
    by_cases hba : le b a = true
    · -- the stored value is not newer than the offered one
      have hoffer : Register.offer le (some b) a = some a := if_pos hba
      rw [hoffer]
      refine ⟨fun hc => absurd hc (Option.some_ne_none _), ?_, ?_⟩
      · intro x hx
        cases hx
        exact List.mem_append_right _ List.mem_cons_self
      · intro x hx y hy
        cases hx
        rcases List.mem_append.1 hy with hy | hy
        · exact htrans y b a (h.newest b rfl y hy) hba
        · exact List.mem_singleton.1 hy ▸ hrefl
    · have hoffer : Register.offer le (some b) a = some b := if_neg hba
      -- the stored value stays, and the order is total, so it is not older
      have hab : le a b := (htotal a b).resolve_right hba
      rw [hoffer]
      refine ⟨fun hc => absurd hc (Option.some_ne_none _), ?_, ?_⟩
      · intro x hx
        cases hx
        exact List.mem_append_left _ (h.mem b rfl)
      · intro x hx y hy
        cases hx
        rcases List.mem_append.1 hy with hy | hy
        · exact h.newest b rfl y hy
        · exact List.mem_singleton.1 hy ▸ hab

/-- **The order of the offers does not matter**, if no two of them are equally new. -/
theorem Newest.unique (hantisymm : ∀ a ∈ offered, ∀ b ∈ offered, le a b → le b a → a = b)
    (h : Newest le offered current) (h' : Newest le offered' current')
    (hsame : ∀ a, a ∈ offered ↔ a ∈ offered') : current = current' := by
  cases hc : current with
  | none =>
    have hnil : offered = [] := h.empty hc
    cases hc' : current' with
    | none => rfl
    | some b =>
      have hb : b ∈ offered := (hsame b).2 (h'.mem b hc')
      rw [hnil] at hb
      exact absurd hb List.not_mem_nil
  | some a =>
    have ha : a ∈ offered := h.mem a hc
    obtain ⟨b, hb, hab⟩ := h'.some_of_mem ((hsame a).1 ha)
    have hbmem : b ∈ offered := (hsame b).2 (h'.mem b hb)
    have hba : le b a := h.newest a hc b hbmem
    rw [hb, hantisymm a ha b hbmem hab hba]

end Register
