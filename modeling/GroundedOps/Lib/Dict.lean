import Mathlib.Tactic

/-!
# First occurrences and insertion-ordered dictionaries

A dictionary that iterates in insertion order is a list of entries with distinct
keys. `firsts key l` keeps the first item of `l` for each key, in order: the keys of
a dictionary filled from `l` without overwriting, or a list de-duplicated with a set
of the keys seen so far.
-/

namespace Dict

variable {α κ : Type*} [DecidableEq κ] (key : α → κ)

/-- The first item of each key that is not in `seen`. -/
def firstsFrom (seen : List κ) : List α → List α
  | [] => []
  | a :: l => if key a ∈ seen then firstsFrom seen l else a :: firstsFrom (key a :: seen) l

/-- The first item of each key. -/
def firsts (l : List α) : List α := firstsFrom key [] l

variable {key} {l : List α} {seen : List κ} {a : α} {k : κ}

theorem firstsFrom_sublist : ∀ {l : List α} {seen : List κ}, (firstsFrom key seen l).Sublist l := by
  intro l
  induction l with
  | nil => intro seen; exact List.Sublist.slnil
  | cons a l ih =>
    intro seen
    unfold firstsFrom
    split
    · exact ih.cons a
    · exact ih.cons_cons a

theorem firsts_sublist : (firsts key l).Sublist l := firstsFrom_sublist

theorem mem_of_mem_firsts (h : a ∈ firsts key l) : a ∈ l := firsts_sublist.subset h

/-- A key that has not been seen is looked up as in the whole list. -/
theorem find?_firstsFrom : ∀ {l : List α} {seen : List κ}, k ∉ seen →
    (firstsFrom key seen l).find? (fun x => key x = k) = l.find? (fun x => key x = k) := by
  intro l
  induction l with
  | nil => intro seen _; rfl
  | cons a l ih =>
    intro seen hk
    unfold firstsFrom
    by_cases ha : key a = k
    · rw [if_neg (by rw [ha]; exact hk)]
      simp [ha]
    · split
      · rw [ih hk]; simp [ha]
      · rw [List.find?_cons_of_neg (by simpa using ha), List.find?_cons_of_neg (by simpa using ha)]
        exact ih (by simp [hk, Ne.symm ha])

/-- **The first item of a key is the one a search finds.** -/
theorem find?_firsts : (firsts key l).find? (fun x => key x = k) = l.find? (fun x => key x = k) :=
  find?_firstsFrom List.not_mem_nil

theorem firstsFrom_keys : ∀ {l : List α} {seen : List κ},
    ((firstsFrom key seen l).map key).Nodup ∧ ∀ x ∈ firstsFrom key seen l, key x ∉ seen := by
  intro l
  induction l with
  | nil => intro seen; simp [firstsFrom]
  | cons a l ih =>
    intro seen
    unfold firstsFrom
    split
    · exact ih
    · rename_i ha
      obtain ⟨hn, hs⟩ := @ih (key a :: seen)
      refine ⟨?_, ?_⟩
      · simp only [List.map_cons, List.nodup_cons, List.mem_map, not_exists, not_and]
        exact ⟨fun x hx hxa => hs x hx (by rw [hxa]; exact List.mem_cons_self), hn⟩
      · intro x hx
        rcases List.mem_cons.1 hx with rfl | hx
        · exact ha
        · exact fun h => hs x hx (List.mem_cons_of_mem _ h)

/-- The keys of the first items are distinct. -/
theorem nodup_firsts : ((firsts key l).map key).Nodup := firstsFrom_keys.1

theorem exists_firsts (ha : a ∈ l) : ∃ b ∈ firsts key l, key b = key a := by
  have h : (l.find? (fun x => key x = key a)).isSome := by
    rw [List.find?_isSome]; exact ⟨a, ha, by simp⟩
  rw [← find?_firsts] at h
  obtain ⟨b, hb⟩ := Option.isSome_iff_exists.1 h
  exact ⟨b, List.mem_of_find?_eq_some hb, by simpa using List.find?_some hb⟩

/-- An item of the result is the first of its key in the whole list. -/
theorem find?_of_mem_firsts (ha : a ∈ firsts key l) :
    l.find? (fun x => key x = key a) = some a := by
  rw [← find?_firsts]
  have hn : ((firsts key l).map key).Nodup := nodup_firsts
  revert ha hn
  generalize firsts key l = m
  induction m with
  | nil => intro ha; cases ha
  | cons b m ih =>
    intro ha hn
    obtain ⟨hb, hm⟩ := List.nodup_cons.1 (by simpa using hn : (key b :: m.map key).Nodup)
    rcases List.mem_cons.1 ha with rfl | ha
    · simp
    · have hne : key b ≠ key a := fun h => hb (h ▸ List.mem_map_of_mem ha)
      rw [List.find?_cons_of_neg (by simpa using hne)]
      exact ih ha hm

theorem mem_firsts_of_find? (h : l.find? (fun x => key x = k) = some a) : a ∈ firsts key l := by
  rw [← find?_firsts] at h
  exact List.mem_of_find?_eq_some h

/-- The keys of the first items are the first of the keys. -/
theorem map_firstsFrom : ∀ {l : List α} {seen : List κ},
    (firstsFrom key seen l).map key = firstsFrom id seen (l.map key) := by
  intro l
  induction l with
  | nil => intro seen; rfl
  | cons a l ih =>
    intro seen
    simp only [firstsFrom, List.map_cons, id_eq]
    split
    · exact ih
    · rw [List.map_cons, ih]

theorem map_firsts : (firsts key l).map key = firsts id (l.map key) := map_firstsFrom

/-- One more item counts if its key is new. -/
theorem firstsFrom_concat : ∀ {l : List α} {seen : List κ}, firstsFrom key seen (l ++ [a]) =
    if key a ∈ seen ∨ key a ∈ l.map key then firstsFrom key seen l
    else firstsFrom key seen l ++ [a] := by
  intro l
  induction l with
  | nil => intro seen; simp [firstsFrom]
  | cons b l ih =>
    intro seen
    simp only [List.cons_append, firstsFrom, List.map_cons, List.mem_cons]
    by_cases hb : key b ∈ seen
    · -- `b` is dropped, and its key is one that has been seen
      have hsame : key a ∈ seen ∨ key a = key b ∨ key a ∈ l.map key ↔
          key a ∈ seen ∨ key a ∈ l.map key := by
        constructor
        · rintro (h | h | h)
          · exact Or.inl h
          · exact Or.inl (h ▸ hb)
          · exact Or.inr h
        · exact fun h => h.imp_right Or.inr
      rw [if_pos hb, if_pos hb, ih, if_congr hsame rfl rfl]
    · have hsame : key a ∈ key b :: seen ∨ key a ∈ l.map key ↔
          key a ∈ seen ∨ key a = key b ∨ key a ∈ l.map key := by
        rw [List.mem_cons]
        tauto
      rw [if_neg hb, if_neg hb, ih, if_congr hsame rfl rfl]
      split
      · rfl
      · rfl

theorem firsts_concat : firsts key (l ++ [a]) =
    if key a ∈ l.map key then firsts key l else firsts key l ++ [a] := by
  unfold firsts
  rw [firstsFrom_concat]
  simp only [List.not_mem_nil, false_or]

/-- Of items with distinct keys, those come on top whose key is new. -/
theorem firsts_append {m : List α} (hm : (m.map key).Nodup) :
    firsts key (l ++ m) = firsts key l ++ m.filter fun a => key a ∉ l.map key := by
  induction m using List.reverseRecOn with
  | nil => simp
  | append_singleton m a ih =>
    rw [List.map_append, List.nodup_append] at hm
    obtain ⟨hdistinct, -, hapart⟩ := hm
    have hnew : key a ∉ m.map key := by
      intro hmem
      exact hapart _ hmem _ List.mem_cons_self rfl
    have hseen : key a ∈ (l ++ m).map key ↔ key a ∈ l.map key := by
      rw [List.map_append, List.mem_append]
      exact or_iff_left hnew
    rw [← List.append_assoc, firsts_concat, if_congr hseen rfl rfl, ih hdistinct, List.filter_append]
    by_cases hold : key a ∈ l.map key
    · rw [if_pos hold, List.filter_cons_of_neg (by simpa using hold), List.filter_nil, List.append_nil]
    · rw [if_neg hold, List.filter_cons_of_pos (by simpa using hold), List.filter_nil,
        List.append_assoc]

/-- Items with distinct keys are all first. -/
theorem firsts_of_nodup (h : (l.map key).Nodup) : firsts key l = l := by
  have happend := firsts_append (l := []) h
  rw [List.nil_append] at happend
  rw [happend]
  simp [firsts, firstsFrom]

theorem mem_firsts_append {m : List α} (hl : (l.map key).Nodup) (hm : (m.map key).Nodup) :
    a ∈ firsts key (l ++ m) ↔ a ∈ l ∨ a ∈ m ∧ key a ∉ l.map key := by
  rw [firsts_append hm, firsts_of_nodup hl, List.mem_append, List.mem_filter, decide_eq_true_eq]

/-- The keys themselves, in order of first appearance. -/
theorem mem_firsts_id {κ : Type*} [DecidableEq κ] {l : List κ} {k : κ} :
    k ∈ firsts id l ↔ k ∈ l := by
  constructor
  · exact mem_of_mem_firsts
  · intro h
    have hfirst : ∃ b ∈ firsts id l, id b = id k := exists_firsts h
    obtain ⟨b, hb, rfl⟩ := hfirst
    exact hb

theorem firsts_id_ne_nil {κ : Type*} [DecidableEq κ] {l : List κ} (h : l ≠ []) : firsts id l ≠ [] := by
  obtain ⟨a, ha⟩ := List.exists_mem_of_ne_nil l h
  exact List.ne_nil_of_mem (mem_firsts_id.2 ha)

theorem nodup_firsts_id {κ : Type*} [DecidableEq κ] {l : List κ} : (firsts id l).Nodup := by
  have hids : ((firsts id l).map id).Nodup := nodup_firsts
  rwa [List.map_id] at hids

/-- There are two keys if two items have different ones. -/
theorem one_lt_length_firsts_id {κ : Type*} [DecidableEq κ] {l : List κ} :
    1 < (firsts id l).length ↔ ∃ a ∈ l, ∃ b ∈ l, a ≠ b := by
  have hnodup : (firsts id l).Nodup := nodup_firsts_id
  constructor
  · intro hlength
    have hne : (firsts id l)[0] ≠ (firsts id l)[1] := by
      intro heq
      have hindex := (hnodup.getElem_inj_iff).1 heq
      omega
    exact ⟨_, mem_firsts_id.1 (List.getElem_mem (by omega)), _,
      mem_firsts_id.1 (List.getElem_mem hlength), hne⟩
  · rintro ⟨a, ha, b, hb, hne⟩
    by_contra hshort
    have ha' : a ∈ firsts id l := mem_firsts_id.2 ha
    have hb' : b ∈ firsts id l := mem_firsts_id.2 hb
    obtain ⟨i, hi, rfl⟩ := List.getElem_of_mem ha'
    obtain ⟨j, hj, rfl⟩ := List.getElem_of_mem hb'
    have hij : i = j := by omega
    subst hij
    exact hne rfl

/-- Two of the elements that are kept have different images. -/
theorem one_lt_length_firsts_map {α κ : Type*} [DecidableEq κ] {p : α → Prop} [DecidablePred p]
    {f : α → κ} {l : List α} : 1 < (firsts id ((l.filter fun a => p a).map f)).length ↔
      ∃ a ∈ l, ∃ b ∈ l, p a ∧ p b ∧ f a ≠ f b := by
  rw [one_lt_length_firsts_id]
  constructor
  · rintro ⟨_, hmapa, _, hmapb, hne⟩
    obtain ⟨a, hina, rfl⟩ := List.mem_map.1 hmapa
    obtain ⟨b, hinb, rfl⟩ := List.mem_map.1 hmapb
    obtain ⟨ha, hpa⟩ := List.mem_filter.1 hina
    obtain ⟨hb, hpb⟩ := List.mem_filter.1 hinb
    exact ⟨a, ha, b, hb, of_decide_eq_true hpa, of_decide_eq_true hpb, hne⟩
  · rintro ⟨a, ha, b, hb, hpa, hpb, hne⟩
    exact ⟨_, List.mem_map_of_mem (List.mem_filter.2 ⟨ha, decide_eq_true hpa⟩), _,
      List.mem_map_of_mem (List.mem_filter.2 ⟨hb, decide_eq_true hpb⟩), hne⟩

end Dict
