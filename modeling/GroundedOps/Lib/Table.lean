import GroundedOps.Lib.Dict
import Mathlib.Data.List.Nodup

/-!
# Tables with a primary key and a unique key

A table is a list of rows, oldest first, with no two rows of the same primary key `pk`
and no two of the same unique key `uk`; an operation that would break a key does not
build a table.

* `insertNew`: `INSERT ... ON CONFLICT (uk) DO NOTHING`; `none` is a primary key violation.
* `modify`: `UPDATE ... SET`, of columns outside both keys.
* `put`: replace the row of the same primary key, or append.
* `find_eq_some`, `lookup_eq_some`: a search finds the one row with the key.
* `mem_insertNew`, `mem_modify`, `mem_put`: what the rows of the result are.
* `mergeSort_sequence`: ordering by a column and then by a sequence number is a stable sort.
-/

structure Table {ρ κ ν : Type*} (pk : ρ → κ) (uk : ρ → ν) where
  rows : List ρ
  pk_nodup : (rows.map pk).Nodup
  uk_nodup : (rows.map uk).Nodup

namespace Table

variable {ρ κ ν : Type*} {pk : ρ → κ} {uk : ρ → ν}

instance : Membership ρ (Table pk uk) := ⟨fun t r => r ∈ t.rows⟩

instance : EmptyCollection (Table pk uk) := ⟨⟨[], List.nodup_nil, List.nodup_nil⟩⟩

variable {t t' : Table pk uk} {r r' : ρ} {k : κ} {n : ν}

theorem mem_rows : r ∈ t.rows ↔ r ∈ t := Iff.rfl

@[simp] theorem not_mem_empty : r ∉ (∅ : Table pk uk) := List.not_mem_nil

@[ext] theorem ext_rows (h : t.rows = t'.rows) : t = t' := by
  cases t; cases t'; cases h; rfl

theorem eq_of_pk (h : r ∈ t) (h' : r' ∈ t) (hk : pk r = pk r') : r = r' :=
  List.inj_on_of_nodup_map t.pk_nodup h h' hk

theorem eq_of_uk (h : r ∈ t) (h' : r' ∈ t) (hn : uk r = uk r') : r = r' :=
  List.inj_on_of_nodup_map t.uk_nodup h h' hn

/-! ## Searches -/

/-- The row with primary key `k`. -/
def find [DecidableEq κ] (t : Table pk uk) (k : κ) : Option ρ := t.rows.find? fun r => pk r = k

/-- The row with unique key `n`. -/
def lookup [DecidableEq ν] (t : Table pk uk) (n : ν) : Option ρ := t.rows.find? fun r => uk r = n

theorem find_eq_some [DecidableEq κ] : t.find k = some r ↔ r ∈ t ∧ pk r = k := by
  constructor
  · intro h
    exact ⟨List.mem_of_find?_eq_some h, by simpa using List.find?_some h⟩
  · rintro ⟨hr, rfl⟩
    cases hf : t.find (pk r) with
    | none => exact absurd (List.find?_eq_none.1 hf r hr) (by simp)
    | some r' =>
      have hr' : pk r' = pk r := by simpa using List.find?_some hf
      rw [eq_of_pk (List.mem_of_find?_eq_some hf) hr hr']

theorem find_of_mem [DecidableEq κ] (h : r ∈ t) : t.find (pk r) = some r := find_eq_some.2 ⟨h, rfl⟩

theorem lookup_eq_some [DecidableEq ν] : t.lookup n = some r ↔ r ∈ t ∧ uk r = n := by
  constructor
  · intro h
    exact ⟨List.mem_of_find?_eq_some h, by simpa using List.find?_some h⟩
  · rintro ⟨hr, rfl⟩
    cases hf : t.lookup (uk r) with
    | none => exact absurd (List.find?_eq_none.1 hf r hr) (by simp)
    | some r' =>
      have hr' : uk r' = uk r := by simpa using List.find?_some hf
      rw [eq_of_uk (List.mem_of_find?_eq_some hf) hr hr']

/-! ## Insertion -/

theorem nodup_map_concat {κ : Type*} {key : ρ → κ} {l : List ρ} (h : (l.map key).Nodup)
    (hr : key r ∉ l.map key) : ((l ++ [r]).map key).Nodup := by
  rw [List.map_append, List.map_singleton, ← List.concat_eq_append]
  exact h.concat hr

section Insertion

variable [DecidableEq κ] [DecidableEq ν]

/-- Append a row, unless its unique key is taken; `none` if only its primary key is. -/
def insertNew (t : Table pk uk) (r : ρ) : Option (Table pk uk) :=
  if hu : uk r ∈ t.rows.map uk then some t
  else if hp : pk r ∈ t.rows.map pk then none
  else some {
    rows := t.rows ++ [r]
    pk_nodup := nodup_map_concat t.pk_nodup hp
    uk_nodup := nodup_map_concat t.uk_nodup hu }

/-- **What an insertion does**: nothing if the unique key is taken, else one more row. -/
theorem insertNew_cases (h : t.insertNew r = some t') :
    t' = t ∧ (∃ r' ∈ t, uk r' = uk r) ∨
      t'.rows = t.rows ++ [r] ∧ (∀ r' ∈ t, uk r' ≠ uk r) ∧ ∀ r' ∈ t, pk r' ≠ pk r := by
  unfold insertNew at h
  split at h
  · rename_i hu
    cases h
    exact Or.inl ⟨rfl, by simpa [mem_rows] using hu⟩
  · rename_i hu
    split at h
    · cases h
    · rename_i hp
      cases h
      exact Or.inr ⟨rfl, by simpa [mem_rows] using hu, by simpa [mem_rows] using hp⟩

theorem insertNew_of_mem (h : r' ∈ t) (hn : uk r' = uk r) : t.insertNew r = some t := by
  unfold insertNew
  rw [dif_pos (hn ▸ List.mem_map_of_mem h)]

theorem mem_insertNew (h : t.insertNew r = some t') (hr' : r' ∈ t') : r' ∈ t ∨ r' = r := by
  rcases insertNew_cases h with ⟨rfl, -⟩ | ⟨hrows, -⟩
  · exact Or.inl hr'
  · rw [← mem_rows, hrows] at hr'
    simpa [mem_rows] using hr'

theorem insertNew_subset (h : t.insertNew r = some t') (hr' : r' ∈ t) : r' ∈ t' := by
  rcases insertNew_cases h with ⟨rfl, -⟩ | ⟨hrows, -⟩
  · exact hr'
  · rw [← mem_rows, hrows]
    exact List.mem_append_left _ hr'

/-- **The unique keys of a table are those inserted, each once**, in the order of their first
insertions. -/
theorem keys_insertNew {keys : List ν} (hkeys : t.rows.map uk = Dict.firsts id keys)
    (h : t.insertNew r = some t') : t'.rows.map uk = Dict.firsts id (keys ++ [uk r]) := by
  have hmem : ∀ n, n ∈ t.rows.map uk ↔ n ∈ keys := by
    intro n
    rw [hkeys]
    exact Dict.mem_firsts_id
  rw [Dict.firsts_concat, List.map_id, id_eq, ← hkeys]
  rcases insertNew_cases h with ⟨rfl, r', hr', hun⟩ | ⟨hrows, hnew, -⟩
  · have htaken : uk r ∈ keys := (hmem (uk r)).1 (hun ▸ List.mem_map_of_mem hr')
    rw [if_pos htaken]
  · have hfree : uk r ∉ keys := by
      intro hk
      obtain ⟨r', hr', hun⟩ := List.mem_map.1 ((hmem (uk r)).2 hk)
      exact hnew r' hr' hun
    rw [if_neg hfree, hrows, List.map_append, List.map_singleton]

end Insertion

/-! ## Replacement, in a table whose two keys are one -/

section Replacement

variable [DecidableEq κ]

theorem map_replace (l : List ρ) (r : ρ) :
    (l.map fun r' => if pk r' = pk r then r else r').map pk = l.map pk := by
  rw [List.map_map]
  refine List.map_congr_left fun r' _ => ?_
  simp only [Function.comp_apply]
  split
  · rename_i h; exact h.symm
  · rfl

/-- Replace the row of the same key, or append. -/
def put (t : Table pk pk) (r : ρ) : Table pk pk :=
  if h : pk r ∈ t.rows.map pk then
    ⟨t.rows.map fun r' => if pk r' = pk r then r else r', by rw [map_replace]; exact t.pk_nodup,
      by rw [map_replace]; exact t.pk_nodup⟩
  else ⟨t.rows ++ [r], nodup_map_concat t.pk_nodup h, nodup_map_concat t.pk_nodup h⟩

theorem mem_put {t : Table pk pk} {r r' : ρ} :
    r' ∈ t.put r ↔ r' = r ∨ r' ∈ t ∧ pk r' ≠ pk r := by
  unfold put
  split
  · rename_i h
    obtain ⟨r₀, hr₀, hk₀⟩ := List.mem_map.1 h
    simp only [← mem_rows, List.mem_map]
    constructor
    · rintro ⟨x, hx, rfl⟩
      by_cases hk : pk x = pk r
      · exact Or.inl (if_pos hk)
      · rw [if_neg hk]; exact Or.inr ⟨hx, hk⟩
    · rintro (rfl | ⟨hr', hk⟩)
      · exact ⟨r₀, hr₀, if_pos hk₀⟩
      · exact ⟨r', hr', if_neg hk⟩
  · rename_i h
    simp only [← mem_rows, List.mem_append, List.mem_singleton]
    constructor
    · rintro (hr' | rfl)
      · exact Or.inr ⟨hr', fun hk => h (hk ▸ List.mem_map_of_mem hr')⟩
      · exact Or.inl rfl
    · rintro (rfl | ⟨hr', -⟩)
      · exact Or.inr rfl
      · exact Or.inl hr'

variable {t : Table pk pk} {rs : List ρ} {r' : ρ}

/-- A row after a run of replacements is one of them, or one that none of them replaced. -/
theorem mem_of_mem_foldl_put (h : r' ∈ rs.foldl put t) : r' ∈ rs ∨ r' ∈ t ∧ pk r' ∉ rs.map pk := by
  induction rs generalizing t with
  | nil => exact Or.inr ⟨h, List.not_mem_nil⟩
  | cons r rs ih =>
    rcases ih h with hr | ⟨hr, hk⟩
    · exact Or.inl (List.mem_cons_of_mem _ hr)
    · rcases mem_put.1 hr with rfl | ⟨hr, hne⟩
      · exact Or.inl List.mem_cons_self
      · refine Or.inr ⟨hr, fun hm => ?_⟩
        rcases List.mem_cons.1 hm with he | hm
        · exact hne he
        · exact hk hm

theorem mem_foldl_put_of_mem (h : r' ∈ t) (hk : pk r' ∉ rs.map pk) : r' ∈ rs.foldl put t := by
  induction rs generalizing t with
  | nil => exact h
  | cons r rs ih =>
    rw [List.map_cons, List.mem_cons, not_or] at hk
    exact ih (mem_put.2 (Or.inr ⟨h, hk.1⟩)) hk.2

/-- Each key of a run of replacements has a row that is one of them. -/
theorem exists_mem_foldl_put {k : κ} (h : k ∈ rs.map pk) :
    ∃ r ∈ rs.foldl put t, r ∈ rs ∧ pk r = k := by
  induction rs generalizing t with
  | nil => cases h
  | cons r rs ih =>
    by_cases hk : k ∈ rs.map pk
    · obtain ⟨r₀, hr₀, hmem, hpk⟩ := @ih (t.put r) hk
      exact ⟨r₀, hr₀, List.mem_cons_of_mem _ hmem, hpk⟩
    · obtain rfl : k = pk r := (List.mem_cons.1 h).resolve_right hk
      have hput : r ∈ t.put r := mem_put.2 (Or.inl rfl)
      have hfold : r ∈ rs.foldl put (t.put r) := mem_foldl_put_of_mem hput hk
      exact ⟨r, hfold, List.mem_cons_self, rfl⟩

/-- **What a run of replacements leaves**, when no two are of one key. -/
theorem mem_foldl_put (h : (rs.map pk).Nodup) :
    r' ∈ rs.foldl put t ↔ r' ∈ rs ∨ r' ∈ t ∧ pk r' ∉ rs.map pk := by
  constructor
  · exact mem_of_mem_foldl_put
  · rintro (hr | ⟨hr, hk⟩)
    · obtain ⟨r₀, hr₀, hmem, hpk⟩ := @exists_mem_foldl_put _ _ _ _ t _ _ (List.mem_map_of_mem hr)
      rwa [← List.inj_on_of_nodup_map h hmem hr hpk]
    · exact mem_foldl_put_of_mem hr hk

/-- What a run of replacements leaves is what it makes of an empty table, and the rows of other
keys. -/
theorem mem_foldl_put_iff : r' ∈ rs.foldl put t ↔
    r' ∈ rs.foldl put (∅ : Table pk pk) ∨ r' ∈ t ∧ pk r' ∉ rs.map pk := by
  induction rs using List.reverseRecOn with
  | nil => simp
  | append_singleton rs r ih =>
    simp only [List.foldl_append, List.foldl_cons, List.foldl_nil, mem_put, ih, List.map_append,
      List.map_cons, List.map_nil, List.mem_append, List.mem_singleton, not_or]
    tauto

end Replacement

/-! ## Updates -/

theorem map_map_key {κ : Type*} {key : ρ → κ} {f : ρ → ρ} (h : ∀ r, key (f r) = key r)
    (l : List ρ) : (l.map f).map key = l.map key := by
  rw [List.map_map]
  exact List.map_congr_left fun r _ => h r

/-- Update every row by a function that keeps both keys. -/
def modify (t : Table pk uk) (f : ρ → ρ) (hp : ∀ r, pk (f r) = pk r) (hu : ∀ r, uk (f r) = uk r) :
    Table pk uk where
  rows := t.rows.map f
  pk_nodup := by rw [map_map_key hp]; exact t.pk_nodup
  uk_nodup := by rw [map_map_key hu]; exact t.uk_nodup

variable {f g : ρ → ρ} {hp : ∀ r, pk (f r) = pk r} {hu : ∀ r, uk (f r) = uk r}
  {hp' : ∀ r, pk (g r) = pk r} {hu' : ∀ r, uk (g r) = uk r}

theorem mem_modify : r' ∈ t.modify f hp hu ↔ ∃ r ∈ t, f r = r' := List.mem_map

theorem mem_modify_of_mem (h : r ∈ t) : f r ∈ t.modify f hp hu := mem_modify.2 ⟨r, h, rfl⟩

theorem modify_modify : (t.modify f hp hu).modify g hp' hu' =
    t.modify (g ∘ f) (fun r => (hp' (f r)).trans (hp r)) (fun r => (hu' (f r)).trans (hu r)) :=
  ext_rows (List.map_map ..)

/-- An update that changes no row of the table. -/
theorem modify_eq_self (h : ∀ r ∈ t, f r = r) : t.modify f hp hu = t :=
  ext_rows ((List.map_congr_left h).trans (List.map_id _))

theorem find_modify [DecidableEq κ] : (t.modify f hp hu).find k = (t.find k).map f := by
  cases h : t.find k with
  | some r =>
    obtain ⟨hr, rfl⟩ := find_eq_some.1 h
    exact find_eq_some.2 ⟨mem_modify_of_mem hr, hp r⟩
  | none =>
    rw [Option.map_none]
    refine List.find?_eq_none.2 fun r' hr' => ?_
    obtain ⟨r, hr, rfl⟩ := mem_modify.1 hr'
    rw [hp r]
    exact List.find?_eq_none.1 h r hr

/-! ## Deletion -/

/-- Keep the rows that satisfy `p`. -/
def filter (t : Table pk uk) (p : ρ → Bool) : Table pk uk where
  rows := t.rows.filter p
  pk_nodup := t.pk_nodup.sublist (List.filter_sublist.map pk)
  uk_nodup := t.uk_nodup.sublist (List.filter_sublist.map uk)

theorem mem_filter {p : ρ → Bool} : r ∈ t.filter p ↔ r ∈ t ∧ p r = true := List.mem_filter

/-! ## Orders -/

section Orders

variable {α β : Type*} [DecidableEq β] {f : α → β} {le : β → β → Bool} {next : α → α → Bool}

/-- `ORDER BY f, ...`: by `le` on the values of `f`, and by `next` where these are equal. -/
def orderBy (f : α → β) (le : β → β → Bool) (next : α → α → Bool) (a b : α) : Bool :=
  if f a ≠ f b then le (f a) (f b) else next a b

theorem orderBy_total (hle : ∀ x y, x ≠ y → le x y = true ∨ le y x = true)
    (hnext : ∀ a b, next a b = true ∨ next b a = true) (a b : α) :
    orderBy f le next a b = true ∨ orderBy f le next b a = true := by
  unfold orderBy
  by_cases h : f a = f b
  · rw [if_neg (not_not.2 h), if_neg (not_not.2 h.symm)]
    exact hnext a b
  · rw [if_pos h, if_pos (Ne.symm h)]
    exact hle _ _ h

theorem orderBy_trans (htrans : ∀ x y z, le x y = true → le y z = true → le x z = true)
    (hanti : ∀ x y, le x y = true → le y x = true → x = y)
    (hnext : ∀ a b c, next a b = true → next b c = true → next a c = true) {a b c : α}
    (hab : orderBy f le next a b = true) (hbc : orderBy f le next b c = true) :
    orderBy f le next a c = true := by
  unfold orderBy at hab hbc ⊢
  by_cases h : f a = f b
  · rw [if_neg (not_not.2 h)] at hab
    rw [h]
    by_cases h' : f b = f c
    · rw [if_neg (not_not.2 h')] at hbc ⊢
      exact hnext a b c hab hbc
    · rw [if_pos h'] at hbc ⊢
      exact hbc
  · rw [if_pos h] at hab
    by_cases h' : f b = f c
    · rw [← h', if_pos h]
      exact hab
    · rw [if_pos h'] at hbc
      have hne : f a ≠ f c := by
        intro hac
        rw [← hac] at hbc
        exact h (hanti _ _ hab hbc)
      rw [if_pos hne]
      exact htrans _ _ _ hab hbc

/-- **`ORDER BY f, sequence`**, of rows in the order of their sequence numbers, is the stable sort
by `f`. -/
theorem mergeSort_sequence {seq : α → ℕ} {l : List α} (hseq : l.Pairwise fun a b => seq a < seq b)
    (hrefl : ∀ x, le x x = true) (hanti : ∀ x y, le x y = true → le y x = true → x = y) :
    l.mergeSort (orderBy f le fun a b => seq a ≤ seq b) = l.mergeSort fun a b => le (f a) (f b) := by
  have hzip : ((l.zipIdx).mergeSort (List.zipIdxLE fun a b => le (f a) (f b))).map (·.1) =
      l.mergeSort fun a b => le (f a) (f b) := List.mergeSort_zipIdx
  rw [← hzip]
  have hnumbered : ∀ a ∈ l.zipIdx, ∀ b ∈ l.zipIdx,
      List.zipIdxLE (fun a b => le (f a) (f b)) a b =
        orderBy f le (fun a b => seq a ≤ seq b) a.1 b.1 := by
    rintro ⟨a, i⟩ ha ⟨b, j⟩ hb
    obtain ⟨hi, rfl⟩ := List.mk_mem_zipIdx_iff_getElem?.1 ha |> List.getElem?_eq_some_iff.1
    obtain ⟨hj, rfl⟩ := List.mk_mem_zipIdx_iff_getElem?.1 hb |> List.getElem?_eq_some_iff.1
    -- the positions are ordered as the sequence numbers are
    have hpositions : i ≤ j ↔ seq l[i] ≤ seq l[j] := by
      have hlt := List.pairwise_iff_getElem.1 hseq
      rcases Nat.lt_trichotomy i j with h | rfl | h
      · have := hlt i j hi hj h
        omega
      · exact iff_of_true le_rfl le_rfl
      · have := hlt j i hj hi h
        omega
    unfold List.zipIdxLE orderBy
    by_cases h : f l[i] = f l[j]
    · simp only [h, hrefl, if_true, ne_eq, not_true, if_false, hpositions]
    · rw [if_pos h]
      by_cases hle : le (f l[i]) (f l[j]) = true
      · have hback : ¬ le (f l[j]) (f l[i]) = true := fun hback => h (hanti _ _ hle hback)
        rw [if_pos hle, if_neg hback, hle]
      · rw [if_neg hle]
        exact (Bool.not_eq_true _ ▸ hle).symm
  rw [List.map_mergeSort hnumbered]
  have hfirst : l.zipIdx.map Prod.fst = l := List.zipIdx_map_fst 0 l
  rw [hfirst]

end Orders

end Table
