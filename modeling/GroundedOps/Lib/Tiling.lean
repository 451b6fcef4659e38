import Mathlib.Order.Lattice
import Mathlib.Tactic

/-!
# Contiguous ranges

* `Tiles a b rs`: the ranges `rs` are not empty, and follow each other from `a` to `b`.
* `Tiles.append`, `Tiles.flatMap`: tilings compose.
* `clip a b rs`: the parts of the ranges that lie between `a` and `b`.
* `Tiles.clip`: the parts of a tiling that lie in a range tile it.
* `Tiles.flatten`: the slices of a list at the ranges of a tiling join to the slice it tiles.
-/

namespace Tiling

variable {α : Type*}

/-- The ranges are not empty and follow each other from `a` to `b`. -/
def Tiles [LT α] (a b : α) : List (α × α) → Prop
  | [] => a = b
  | r :: rs => r.1 = a ∧ a < r.2 ∧ Tiles r.2 b rs

section Order

variable [LinearOrder α] {a b c : α} {r : α × α} {rs ss : List (α × α)}

theorem Tiles.le (h : Tiles a b rs) : a ≤ b := by
  induction rs generalizing a with
  | nil => exact le_of_eq h
  | cons r rs ih => exact h.2.1.le.trans (ih h.2.2)

theorem Tiles.append (h : Tiles a b rs) (h' : Tiles b c ss) : Tiles a c (rs ++ ss) := by
  induction rs generalizing a with
  | nil =>
    cases h
    exact h'
  | cons r rs ih => exact ⟨h.1, h.2.1, ih h.2.2⟩

theorem tiles_singleton (h : a < b) : Tiles a b [(a, b)] := ⟨rfl, h, rfl⟩

theorem Tiles.concat (h : Tiles a b rs) (hlt : b < c) : Tiles a c (rs ++ [(b, c)]) :=
  h.append (tiles_singleton hlt)

theorem Tiles.nonempty_of_mem (h : Tiles a b rs) (hr : r ∈ rs) : a ≤ r.1 ∧ r.1 < r.2 ∧ r.2 ≤ b := by
  induction rs generalizing a with
  | nil => cases hr
  | cons s rs ih =>
    obtain ⟨hstart, hlt, hrest⟩ := h
    rcases List.mem_cons.1 hr with rfl | hr
    · exact ⟨hstart.ge, by rw [hstart]; exact hlt, hrest.le⟩
    · obtain ⟨hle, hne, hend⟩ := ih hrest hr
      exact ⟨hlt.le.trans hle, hne, hend⟩

/-- A range of a tiling ends where the tiling does or where another begins. -/
theorem Tiles.end_eq (h : Tiles a b rs) (hr : r ∈ rs) : r.2 = b ∨ ∃ s ∈ rs, s.1 = r.2 := by
  induction rs generalizing a with
  | nil => cases hr
  | cons s rs ih =>
    obtain ⟨rfl, hlt, hrest⟩ := h
    rcases List.mem_cons.1 hr with rfl | hr
    · cases rs with
      | nil => exact Or.inl hrest
      | cons next rs => exact Or.inr ⟨next, by simp, hrest.1⟩
    · rcases ih hrest hr with hend | ⟨next, hnext, hstart⟩
      · exact Or.inl hend
      · exact Or.inr ⟨next, List.mem_cons_of_mem _ hnext, hstart⟩

/-- A tiling of each range of a tiling. -/
theorem Tiles.flatMap {f : α × α → List (α × α)} (h : Tiles a b rs)
    (hf : ∀ r ∈ rs, Tiles r.1 r.2 (f r)) : Tiles a b (rs.flatMap f) := by
  induction rs generalizing a with
  | nil => exact h
  | cons r rs ih =>
    obtain ⟨rfl, hlt, hrest⟩ := h
    have hfirst : Tiles r.1 r.2 (f r) := hf r List.mem_cons_self
    exact hfirst.append (ih hrest fun s hs => hf s (List.mem_cons_of_mem _ hs))

/-! ## The part of a tiling in a range -/

/-- The parts of the ranges between `a` and `b`. -/
def clip (a b : α) (rs : List (α × α)) : List (α × α) :=
  (rs.filter fun r => r.1 < b ∧ a < r.2).map fun r => (max a r.1, min b r.2)

theorem clip_cons_of_pos (h : r.1 < b ∧ a < r.2) :
    clip a b (r :: rs) = (max a r.1, min b r.2) :: clip a b rs := by
  unfold clip
  rw [List.filter_cons_of_pos (by simpa using h), List.map_cons]

theorem clip_cons_of_neg (h : ¬ (r.1 < b ∧ a < r.2)) : clip a b (r :: rs) = clip a b rs := by
  unfold clip
  rw [List.filter_cons_of_neg (by simpa using h)]

/-- Nothing of a tiling lies before it. -/
theorem Tiles.clip_eq_nil {s e : α} (h : Tiles a b rs) (he : e ≤ a) : clip s e rs = [] := by
  induction rs generalizing a with
  | nil => rfl
  | cons r rs ih =>
    obtain ⟨rfl, hlt, hrest⟩ := h
    rw [clip_cons_of_neg fun hin => absurd hin.1 (not_lt.2 he)]
    exact ih hrest (he.trans hlt.le)

/-- **The parts of a tiling that lie in a range tile the range**, as far as the tiling starts in it. -/
theorem Tiles.clip_from {s e : α} (h : Tiles a b rs) (hse : s < e) (ha : a < e) (hb : e ≤ b) :
    Tiles (max s a) e (clip s e rs) := by
  induction rs generalizing a with
  | nil =>
    cases h
    exact absurd ha (not_lt.2 hb)
  | cons r rs ih =>
    obtain ⟨rfl, hlt, hrest⟩ := h
    rcases lt_or_ge s r.2 with hs | hs
    · rw [clip_cons_of_pos ⟨ha, hs⟩]
      refine ⟨rfl, max_lt (lt_min hse hs) (lt_min ha hlt), ?_⟩
      rcases lt_or_ge r.2 e with he | he
      · have htail := ih hrest he
        rw [max_eq_right hs.le] at htail
        rw [min_eq_right he.le]
        exact htail
      · -- the range ends in this one
        rw [min_eq_left he, hrest.clip_eq_nil he]
        rfl
    · -- the range starts after this one
      rw [clip_cons_of_neg fun hin => absurd hin.2 (not_lt.2 hs), max_eq_left (hlt.le.trans hs)]
      have htail := ih hrest (hs.trans_lt hse)
      rwa [max_eq_left hs] at htail

theorem Tiles.clip {s e : α} (h : Tiles a b rs) (ha : a ≤ s) (hse : s < e) (hb : e ≤ b) :
    Tiles s e (clip s e rs) := by
  have hclip := h.clip_from hse (ha.trans_lt hse) hb
  rwa [max_eq_left ha] at hclip

end Order

/-! ## Slices -/

section Slices

variable {text : List α} {a b : ℕ} {rs : List (ℕ × ℕ)}

/-- `text[a:b]` -/
def slice (text : List α) (a b : ℕ) : List α := (text.drop a).take (b - a)

theorem slice_append {c : ℕ} (hab : a ≤ b) (hbc : b ≤ c) :
    slice text a b ++ slice text b c = slice text a c := by
  have hsplit : c - a = (b - a) + (c - b) := by omega
  have hdrop : text.drop b = (text.drop a).drop (b - a) := by
    rw [List.drop_drop]
    congr 1
    omega
  unfold slice
  rw [hsplit, List.take_add, hdrop]

theorem Tiles.flatten (h : Tiles a b rs) (text : List α) :
    rs.flatMap (fun r => slice text r.1 r.2) = slice text a b := by
  induction rs generalizing a with
  | nil =>
    cases h
    simp [slice]
  | cons r rs ih =>
    obtain ⟨rfl, hlt, hrest⟩ := h
    rw [List.flatMap_cons, ih hrest]
    exact slice_append hlt.le hrest.le

theorem slice_length : slice text 0 text.length = text := by
  simp [slice]

end Slices

end Tiling
