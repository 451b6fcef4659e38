import Mathlib.Tactic

/-!
# Lists that are made from lists

What a list has of the one it was made from: by a function that may fail (`mapM` in `Option`), by a
map, or element by element (`List.Forall₂`).
-/

namespace Lists

variable {α β : Type*} {l l' : List α} {m : List β} {a : α}

/-! ## Element by element -/

theorem exists_of_forall₂ {R : α → β → Prop} (h : List.Forall₂ R l m) :
    (∀ a ∈ l, ∃ b ∈ m, R a b) ∧ ∀ b ∈ m, ∃ a ∈ l, R a b := by
  induction h with
  | nil => simp
  | cons hab _ ih =>
    refine ⟨fun x hx => ?_, fun y hy => ?_⟩
    · rcases List.mem_cons.1 hx with rfl | hx
      · exact ⟨_, List.mem_cons_self, hab⟩
      · obtain ⟨b, hb, hR⟩ := ih.1 x hx
        exact ⟨b, List.mem_cons_of_mem _ hb, hR⟩
    · rcases List.mem_cons.1 hy with rfl | hy
      · exact ⟨_, List.mem_cons_self, hab⟩
      · obtain ⟨a, ha, hR⟩ := ih.2 y hy
        exact ⟨a, List.mem_cons_of_mem _ ha, hR⟩

theorem forall₂_map {R : α → β → Prop} {f : α → β} (h : ∀ a ∈ l, R a (f a)) :
    List.Forall₂ R l (l.map f) :=
  List.forall₂_map_right_iff.2 (List.forall₂_same.2 h)

/-! ## A function that may fail -/

theorem forall₂_of_mapM {f : α → Option β} (h : l.mapM f = some m) :
    List.Forall₂ (fun a b => f a = some b) l m := by
  induction l generalizing m with
  | nil =>
    cases h
    exact .nil
  | cons a l ih =>
    simp only [List.mapM_cons, Option.bind_eq_bind, Option.bind_eq_some_iff] at h
    obtain ⟨b, hb, m', hm', heq⟩ := h
    cases heq
    exact .cons hb (ih hm')

theorem isSome_of_mapM {f : α → Option β} (h : l.mapM f = some m) : ∀ a ∈ l, (f a).isSome = true := by
  intro a ha
  obtain ⟨b, -, hb⟩ := (exists_of_forall₂ (forall₂_of_mapM h)).1 a ha
  rw [hb]
  rfl

theorem exists_mapM {f : α → Option β} (h : ∀ a ∈ l, (f a).isSome = true) : ∃ m, l.mapM f = some m := by
  induction l with
  | nil => exact ⟨[], rfl⟩
  | cons a l ih =>
    obtain ⟨b, hb⟩ := Option.isSome_iff_exists.1 (h a List.mem_cons_self)
    obtain ⟨m, hm⟩ := ih fun x hx => h x (List.mem_cons_of_mem _ hx)
    exact ⟨b :: m, by rw [List.mapM_cons, hb, hm]; rfl⟩

/-- The keys of the entries that a partial function makes. -/
theorem map_fst_filterMap {f : α → Option β} :
    (l.filterMap fun a => (f a).map (a, ·)).map Prod.fst = l.filter fun a => (f a).isSome := by
  induction l with
  | nil => rfl
  | cons a l ih =>
    rw [List.filterMap_cons, List.filter_cons]
    cases hf : f a with
    | none => simp only [Option.map_none, Option.isSome_none, Bool.false_eq_true, if_false, ih]
    | some b => simp only [Option.map_some, Option.isSome_some, if_true, List.map_cons, ih]

/-- **Looking up what a partial function has made**: what it makes of the key, if the list has it. -/
theorem lookup_filterMap [DecidableEq α] (f : α → Option β) (l : List α) (a : α) :
    (l.filterMap fun x => (f x).map (x, ·)).lookup a = if a ∈ l then f a else none := by
  induction l with
  | nil => rfl
  | cons b l ih =>
    rw [List.filterMap_cons]
    by_cases hab : a = b
    · subst hab
      rw [if_pos List.mem_cons_self]
      cases hf : f a with
      | none =>
        rw [Option.map_none, ih, hf]
        split
        · rfl
        · rfl
      | some c => rw [Option.map_some, List.lookup_cons_self]
    · have hmem : a ∈ b :: l ↔ a ∈ l := by
        rw [List.mem_cons, or_iff_right hab]
      cases f b with
      | none => simp only [Option.map_none, ih, hmem]
      | some c =>
        have hne : (a == b) = false := beq_false_of_ne hab
        simp only [Option.map_some, List.lookup_cons, hne, ih, hmem]

/-! ## A map -/

/-- An element of a list has its like in any list with the same image. -/
theorem exists_of_map_eq {f : α → β} (h : l'.map f = l.map f) (ha : a ∈ l') : ∃ b ∈ l, f b = f a := by
  have hmem : f a ∈ l.map f := h ▸ List.mem_map_of_mem ha
  obtain ⟨b, hb, heq⟩ := List.mem_map.1 hmem
  exact ⟨b, hb, heq⟩

/-- A map that leaves alone what is kept. -/
theorem filter_map_eq {f : α → α} {p : α → Bool} (hkeep : ∀ a, p (f a) = p a)
    (hsame : ∀ a, p a = true → f a = a) : (l.map f).filter p = l.filter p := by
  induction l with
  | nil => rfl
  | cons a l ih =>
    rw [List.map_cons]
    by_cases ha : p a = true
    · rw [List.filter_cons_of_pos ((hkeep a).trans ha), List.filter_cons_of_pos ha, ih, hsame a ha]
    · rw [List.filter_cons_of_neg (fun h => ha ((hkeep a).symm.trans h)),
        List.filter_cons_of_neg ha, ih]

end Lists
