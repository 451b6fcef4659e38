import Mathlib.Tactic

/-!
# Maximal runs

`runs p l` are the maximal runs of `l` whose members all satisfy `p`: what a search for
`[p]+` finds, from left to right.

* `mem_run`, `exists_run`: a run is made of members that satisfy `p`, and each is in a run.
* `runs_flatMap`: **a replacement that keeps apart what `p` keeps apart keeps the runs.**
-/

namespace Runs

variable {α β : Type*} {p : α → Bool} {q : β → Bool} {f : α → List β} {l : List α} {a : α}

/-- The maximal runs of members that satisfy `p`. -/
def runs (p : α → Bool) (l : List α) : List (List α) :=
  (l.splitOnP fun a => !p a).filter (· ≠ [])

theorem splitOnP_eq_cons (p : α → Bool) (l : List α) : ∃ h t, l.splitOnP p = h :: t :=
  List.exists_cons_of_ne_nil (List.splitOnP_ne_nil p l)

theorem splitOnP_of_pos (h : p a = true) :
    (a :: l).splitOnP (fun a => !p a) = (l.splitOnP fun a => !p a).modifyHead (List.cons a) := by
  rw [List.splitOnP_cons_eq_if_modifyHead]
  simp [h]

theorem splitOnP_of_neg (h : p a = false) :
    (a :: l).splitOnP (fun a => !p a) = [] :: l.splitOnP fun a => !p a := by
  rw [List.splitOnP_cons_eq_if_modifyHead]
  simp [h]

/-! ## Members -/

/-- The parts of a split hold the members that satisfy `p`, and no others. -/
theorem mem_splitOnP : (∃ part ∈ l.splitOnP (fun a => !p a), a ∈ part) ↔ a ∈ l ∧ p a = true := by
  -- on the list: a separator begins a new part, any other member joins the first
  induction l with
  | nil => simp
  | cons b l ih =>
    cases hb : p b with
    | false =>
      rw [splitOnP_of_neg hb, List.mem_cons]
      constructor
      · rintro ⟨part, hpart, ha⟩
        rcases List.mem_cons.1 hpart with rfl | hpart
        · cases ha
        · exact (ih.1 ⟨part, hpart, ha⟩).imp_left Or.inr
      · rintro ⟨rfl | hmem, ha⟩
        · rw [hb] at ha
          cases ha
        · obtain ⟨part, hpart, hin⟩ := ih.2 ⟨hmem, ha⟩
          exact ⟨part, List.mem_cons_of_mem _ hpart, hin⟩
    | true =>
      obtain ⟨h, t, heq⟩ := splitOnP_eq_cons (fun a => !p a) l
      rw [splitOnP_of_pos hb, heq, List.modifyHead_cons, List.mem_cons]
      rw [heq] at ih
      constructor
      · rintro ⟨part, hpart, ha⟩
        rcases List.mem_cons.1 hpart with rfl | hpart
        · rcases List.mem_cons.1 ha with rfl | ha
          · exact ⟨Or.inl rfl, hb⟩
          · exact (ih.1 ⟨h, List.mem_cons_self, ha⟩).imp_left Or.inr
        · exact (ih.1 ⟨part, List.mem_cons_of_mem _ hpart, ha⟩).imp_left Or.inr
      · rintro ⟨rfl | hmem, ha⟩
        · exact ⟨a :: h, List.mem_cons_self, List.mem_cons_self⟩
        · obtain ⟨part, hpart, hin⟩ := ih.2 ⟨hmem, ha⟩
          rcases List.mem_cons.1 hpart with rfl | hpart
          · exact ⟨b :: part, List.mem_cons_self, List.mem_cons_of_mem _ hin⟩
          · exact ⟨part, List.mem_cons_of_mem _ hpart, hin⟩

theorem mem_run {run : List α} (h : run ∈ runs p l) (ha : a ∈ run) : a ∈ l ∧ p a = true :=
  mem_splitOnP.1 ⟨run, List.mem_of_mem_filter h, ha⟩

theorem exists_run (ha : a ∈ l) (hp : p a = true) : ∃ run ∈ runs p l, a ∈ run := by
  obtain ⟨run, hrun, hin⟩ := mem_splitOnP.2 ⟨ha, hp⟩
  exact ⟨run, List.mem_filter.2 ⟨hrun, decide_eq_true (List.ne_nil_of_mem hin)⟩, hin⟩

/-! ## Replacements -/

theorem splitOnP_append_of_pos {m : List α} (h : ∀ a ∈ m, p a = true) :
    (m ++ l).splitOnP (fun a => !p a) = (l.splitOnP fun a => !p a).modifyHead (m ++ ·) := by
  obtain ⟨first, rest, heq⟩ := splitOnP_eq_cons (fun a => !p a) l
  induction m with
  | nil => rw [List.nil_append, heq]; rfl
  | cons b m ih =>
    rw [List.cons_append, splitOnP_of_pos (h b List.mem_cons_self),
      ih fun a ha => h a (List.mem_cons_of_mem _ ha), heq]
    rfl

theorem splitOnP_append_of_neg {m : List α} (h : ∀ a ∈ m, p a = false) :
    (m ++ l).splitOnP (fun a => !p a) =
      List.replicate m.length [] ++ l.splitOnP fun a => !p a := by
  induction m with
  | nil => rfl
  | cons b m ih =>
    rw [List.cons_append, splitOnP_of_neg (h b List.mem_cons_self),
      ih fun a ha => h a (List.mem_cons_of_mem _ ha)]
    rfl

theorem filter_replicate_nil (n : ℕ) : (List.replicate n ([] : List α)).filter (· ≠ []) = [] := by
  rw [List.filter_eq_nil_iff]
  intro part hpart
  simp [List.eq_of_mem_replicate hpart]

theorem flatMap_eq_nil {m : List α} (h : ∀ a ∈ m, f a ≠ []) : m.flatMap f = [] ↔ m = [] := by
  rw [List.flatMap_eq_nil_iff]
  constructor
  · intro hall
    refine List.eq_nil_iff_forall_not_mem.2 fun a ha => h a ha (hall a ha)
  · rintro rfl a ha
    cases ha

/-- The split after a replacement, part by part. -/
theorem splitOnP_flatMap (hpos : ∀ a ∈ l, p a = true → f a ≠ [] ∧ ∀ b ∈ f a, q b = true)
    (hneg : ∀ a ∈ l, p a = false → f a ≠ [] ∧ ∀ b ∈ f a, q b = false) :
    ∃ h t t', l.splitOnP (fun a => !p a) = h :: t ∧ (∀ a ∈ h, f a ≠ []) ∧
      (l.flatMap f).splitOnP (fun b => !q b) = h.flatMap f :: t' ∧
      t'.filter (· ≠ []) = (t.filter (· ≠ [])).map (List.flatMap f) := by
  induction l with
  | nil => exact ⟨[], [], [], rfl, fun _ h => absurd h List.not_mem_nil, rfl, rfl⟩
  | cons a l ih =>
    obtain ⟨h, t, t', heq, hne, heq', ht⟩ := ih
      (fun b hb => hpos b (List.mem_cons_of_mem _ hb))
      (fun b hb => hneg b (List.mem_cons_of_mem _ hb))
    rw [List.flatMap_cons]
    cases ha : p a with
    | true =>
      obtain ⟨hfa, hq⟩ := hpos a List.mem_cons_self ha
      refine ⟨a :: h, t, t', ?_, ?_, ?_, ht⟩
      · rw [splitOnP_of_pos ha, heq, List.modifyHead_cons]
      · exact List.forall_mem_cons.2 ⟨hfa, hne⟩
      · rw [splitOnP_append_of_pos hq, heq', List.modifyHead_cons, List.flatMap_cons]
    | false =>
      obtain ⟨hfa, hq⟩ := hneg a List.mem_cons_self ha
      obtain ⟨b, m, hm⟩ := List.exists_cons_of_ne_nil hfa
      refine ⟨[], h :: t, List.replicate m.length [] ++ h.flatMap f :: t', ?_, ?_, ?_, ?_⟩
      · rw [splitOnP_of_neg ha, heq]
      · exact fun _ hmem => absurd hmem List.not_mem_nil
      · rw [splitOnP_append_of_neg hq, heq', hm]
        rfl
      · rw [List.filter_append, filter_replicate_nil, List.nil_append, List.filter_cons,
          List.filter_cons, ht]
        -- the replacement of a part is empty only if the part is
        by_cases hempty : h = []
        · simp [hempty]
        · have hrest : h.flatMap f ≠ [] := fun hnil => hempty ((flatMap_eq_nil hne).1 hnil)
          simp [hempty, hrest]

/-- **The runs after a replacement** of each member by members of the same kind. -/
theorem runs_flatMap (hpos : ∀ a ∈ l, p a = true → f a ≠ [] ∧ ∀ b ∈ f a, q b = true)
    (hneg : ∀ a ∈ l, p a = false → f a ≠ [] ∧ ∀ b ∈ f a, q b = false) :
    runs q (l.flatMap f) = (runs p l).map (List.flatMap f) := by
  obtain ⟨h, t, t', heq, hne, heq', ht⟩ := splitOnP_flatMap hpos hneg
  unfold runs
  rw [heq, heq', List.filter_cons, List.filter_cons, ht]
  by_cases hempty : h = []
  · simp [hempty]
  · have hrest : h.flatMap f ≠ [] := fun hnil => hempty ((flatMap_eq_nil hne).1 hnil)
    simp [hempty, hrest]

end Runs
