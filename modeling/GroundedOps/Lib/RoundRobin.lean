import GroundedOps.Lib.Dict

/-!
# Taking turns

Items are grouped by a key, the groups in the order in which their keys first appear. Round `n`
takes item `n` of each group that has one.

* `rounds_perm`: after `n` rounds, the first `n` items of each group have been taken.
* `filter_rounds`: **the items of one key are taken in their order.**
* `round_ne_nil`: a round takes something as long as something is left.
* `takeTurns_eq`: **a loop that runs rounds until it has as many items as there are runs enough of
  them**, and has every item once (`takeTurns_perm`).
-/

namespace RoundRobin

variable {α κ : Type*} [DecidableEq κ] {key : α → κ} {l : List α} {groups : List (List α)} {k : κ} {n : ℕ}

/-- The items of each key, the keys in order of their first appearance. -/
def groupsOf (key : α → κ) (l : List α) : List (List α) :=
  (Dict.firsts id (l.map key)).map fun k => l.filter fun a => key a = k

/-- Item `n` of each group that has one. -/
def round (groups : List (List α)) (n : ℕ) : List α := groups.filterMap fun items => items[n]?

/-- The first `n` rounds. -/
def rounds (groups : List (List α)) (n : ℕ) : List α := (List.range n).flatMap (round groups)

@[simp] theorem rounds_zero : rounds groups 0 = [] := rfl

theorem rounds_succ : rounds groups (n + 1) = rounds groups n ++ round groups n := by
  simp [rounds, List.range_succ]

theorem rounds_add (groups : List (List α)) (n m : ℕ) : ∃ more, rounds groups (n + m) = rounds groups n ++ more := by
  induction m with
  | zero => exact ⟨[], by simp⟩
  | succ m ih =>
    obtain ⟨more, hmore⟩ := ih
    exact ⟨more ++ round groups (n + m), by rw [← Nat.add_assoc, rounds_succ, hmore, List.append_assoc]⟩

theorem round_eq_flatMap : round groups n = groups.flatMap fun items => items[n]?.toList := by
  induction groups with
  | nil => rfl
  | cons items groups ih =>
    rw [List.flatMap_cons, ← ih]
    unfold round
    rw [List.filterMap_cons]
    cases items[n]? <;> rfl

/-- **After `n` rounds** the first `n` items of each group have been taken. -/
theorem rounds_perm : (rounds groups n).Perm (groups.flatMap fun items => items.take n) := by
  induction n with
  | zero => simp
  | succ n ih =>
    have htake : (fun items : List α => items.take (n + 1)) =
        fun items => items.take n ++ items[n]?.toList := by
      funext items
      exact List.take_add_one
    rw [rounds_succ, round_eq_flatMap, htake]
    exact (ih.append_right _).trans (List.flatMap_append_perm groups _ _)

theorem length_rounds_le : (rounds groups n).length ≤ groups.flatten.length := by
  rw [rounds_perm.length_eq, List.length_flatMap, List.length_flatten]
  apply List.sum_le_sum
  intro items _
  exact List.length_take_le' _ _

/-- **A round takes something** as long as something is left. -/
theorem round_ne_nil (h : (rounds groups n).length < groups.flatten.length) : round groups n ≠ [] := by
  intro hnil
  have hshort : ∀ items ∈ groups, items.take n = items := by
    intro items hitems
    apply List.take_of_length_le
    by_contra hlong
    rw [not_le] at hlong
    have hmem : items[n] ∈ round groups n := by
      refine List.mem_filterMap.2 ⟨items, hitems, ?_⟩
      exact List.getElem?_eq_getElem hlong
    rw [hnil] at hmem
    cases hmem
  have hall : groups.flatMap (fun items => items.take n) = groups.flatten := by
    rw [List.flatMap_def, List.map_congr_left hshort, List.map_id']
  rw [rounds_perm.length_eq, hall] at h
  omega

/-- Rounds that have taken everything are all the rounds. -/
theorem rounds_eq_of_le {m : ℕ} (hnm : n ≤ m) (h : groups.flatten.length ≤ (rounds groups n).length) :
    rounds groups m = rounds groups n := by
  obtain ⟨d, rfl⟩ := Nat.exists_eq_add_of_le hnm
  obtain ⟨more, hmore⟩ := rounds_add groups n d
  have hle : (rounds groups (n + d)).length ≤ groups.flatten.length := length_rounds_le
  rw [hmore, List.length_append] at hle
  have hnil : more = [] := List.eq_nil_of_length_eq_zero (by omega)
  rw [hmore, hnil, List.append_nil]

/-! ## The loop -/

/-- Rounds from depth `depth` on, until `total` items have been taken; `fuel` bounds them. -/
def takeTurns (groups : List (List α)) (total : ℕ) : ℕ → ℕ → List α → List α
  | 0, _, ordered => ordered
  | fuel + 1, depth, ordered =>
    if ordered.length < total then
      takeTurns groups total fuel (depth + 1) (ordered ++ round groups depth)
    else ordered

/-- **The loop runs enough rounds**, with as much fuel as there are items left. -/
theorem takeTurns_eq {fuel : ℕ} (hfuel : groups.flatten.length ≤ (rounds groups n).length + fuel) :
    ∃ m, n ≤ m ∧ m ≤ n + fuel ∧
      takeTurns groups groups.flatten.length fuel n (rounds groups n) = rounds groups m ∧
      groups.flatten.length ≤ (rounds groups m).length := by
  induction fuel generalizing n with
  | zero => exact ⟨n, le_rfl, le_rfl, rfl, hfuel⟩
  | succ fuel ih =>
    rw [takeTurns]
    by_cases hleft : (rounds groups n).length < groups.flatten.length
    · -- the round is not empty
      have hpos : 0 < (round groups n).length := List.length_pos_iff.2 (round_ne_nil hleft)
      have hnext : (rounds groups (n + 1)).length = (rounds groups n).length + (round groups n).length := by
        rw [rounds_succ, List.length_append]
      obtain ⟨m, hle, hbound, heq, hdone⟩ := ih (n := n + 1) (by omega)
      rw [if_pos hleft, ← rounds_succ]
      exact ⟨m, by omega, by omega, heq, hdone⟩
    · rw [if_neg hleft]
      exact ⟨n, le_rfl, by omega, rfl, by omega⟩

/-- The loop with any fuel that suffices is all the rounds. -/
theorem takeTurns_eq_rounds {groups : List (List α)} {fuel : ℕ} (hfuel : groups.flatten.length ≤ fuel) :
    takeTurns groups groups.flatten.length fuel 0 [] = rounds groups groups.flatten.length ∧
      (rounds groups groups.flatten.length).length = groups.flatten.length := by
  have henough : ∀ fuel, groups.flatten.length ≤ fuel → ∃ m, m ≤ fuel ∧
      takeTurns groups groups.flatten.length fuel 0 [] = rounds groups m ∧
      groups.flatten.length ≤ (rounds groups m).length := by
    intro fuel hfuel
    have hzero : groups.flatten.length ≤ (rounds groups 0).length + fuel := by
      rw [rounds_zero, List.length_nil]
      omega
    obtain ⟨m, -, hbound, heq, hdone⟩ := takeTurns_eq hzero
    exact ⟨m, by omega, heq, hdone⟩
  obtain ⟨m₀, hm₀, -, hdone₀⟩ := henough _ le_rfl
  have hall : rounds groups groups.flatten.length = rounds groups m₀ := rounds_eq_of_le hm₀ hdone₀
  obtain ⟨m, -, heq, hdone⟩ := henough fuel hfuel
  have hsame : rounds groups m = rounds groups m₀ := by
    rcases le_total m m₀ with hle | hle
    · exact (rounds_eq_of_le hle hdone).symm
    · exact rounds_eq_of_le hle hdone₀
  refine ⟨by rw [heq, hsame, hall], ?_⟩
  rw [hall]
  exact le_antisymm length_rounds_le hdone₀

/-! ## Every item once, in order -/

theorem flatten_filter_perm (key : α → κ) (l : List α) {keys : List κ} (hkeys : keys.Nodup) :
    ((keys.map fun k => l.filter fun a => key a = k).flatten).Perm (l.filter fun a => key a ∈ keys) := by
  induction keys with
  | nil => simp
  | cons k keys ih =>
    obtain ⟨hk, hkeys⟩ := List.nodup_cons.1 hkeys
    rw [List.map_cons, List.flatten_cons]
    have hsplit := List.filter_append_perm (fun a => decide (key a = k))
      (l.filter fun a => key a ∈ k :: keys)
    have hfirst : (l.filter fun a => key a ∈ k :: keys).filter (fun a => decide (key a = k)) =
        l.filter fun a => key a = k := by
      rw [List.filter_filter]
      apply List.filter_congr
      intro a _
      by_cases ha : key a = k
      · simp [ha]
      · simp [ha]
    have hrest : (l.filter fun a => key a ∈ k :: keys).filter (fun a => !decide (key a = k)) =
        l.filter fun a => key a ∈ keys := by
      rw [List.filter_filter]
      apply List.filter_congr
      intro a _
      by_cases ha : key a = k
      · simp [ha, hk]
      · simp [ha]
    rw [hfirst, hrest] at hsplit
    exact ((ih hkeys).append_left _).trans hsplit

/-- The groups hold every item once. -/
theorem groupsOf_perm : (groupsOf key l).flatten.Perm l := by
  have hkeys : (Dict.firsts id (l.map key)).Nodup := Dict.nodup_firsts_id
  have hperm := flatten_filter_perm key l hkeys
  have hall : (l.filter fun a => key a ∈ Dict.firsts id (l.map key)) = l := by
    rw [List.filter_eq_self]
    intro a ha
    exact decide_eq_true (Dict.mem_firsts_id.2 (List.mem_map_of_mem ha))
  rw [hall] at hperm
  exact hperm

/-- **Taking turns takes every item once.** -/
theorem takeTurns_perm {fuel : ℕ} (hfuel : l.length ≤ fuel) :
    (takeTurns (groupsOf key l) l.length fuel 0 []).Perm l ∧
      takeTurns (groupsOf key l) l.length fuel 0 [] = rounds (groupsOf key l) l.length := by
  have hlength : (groupsOf key l).flatten.length = l.length := groupsOf_perm.length_eq
  have henough : (groupsOf key l).flatten.length ≤ fuel := by omega
  obtain ⟨heq, hdone⟩ := takeTurns_eq_rounds henough
  rw [hlength] at heq hdone
  refine ⟨?_, heq⟩
  rw [heq]
  have hsub : (rounds (groupsOf key l) l.length).Subperm (groupsOf key l).flatten := by
    rw [List.flatten_eq_flatMap]
    refine rounds_perm.subperm.trans (List.Sublist.subperm ?_)
    generalize groupsOf key l = groups
    induction groups with
    | nil => exact List.Sublist.slnil
    | cons items groups ih =>
      rw [List.flatMap_cons, List.flatMap_cons]
      exact (List.take_sublist _ _).append ih
  exact (hsub.perm_of_length_le (by omega)).trans groupsOf_perm

theorem flatMap_getElem? (l : List α) (n : ℕ) :
    (List.range n).flatMap (fun i => l[i]?.toList) = l.take n := by
  induction n with
  | zero => simp
  | succ n ih => rw [List.range_succ, List.flatMap_append, ih, List.flatMap_singleton, List.take_add_one]

theorem flatMap_single {keys : List κ} (hkeys : keys.Nodup) (k : κ) (items : List α) :
    keys.flatMap (fun j => if j = k then items else []) = if k ∈ keys then items else [] := by
  induction keys with
  | nil => simp
  | cons j keys ih =>
    obtain ⟨hj, hkeys⟩ := List.nodup_cons.1 hkeys
    rw [List.flatMap_cons, ih hkeys]
    by_cases hjk : j = k
    · rw [if_pos hjk, if_neg (by rw [← hjk]; exact hj), if_pos (by simp [hjk]), List.append_nil]
    · have hmem : k ∈ j :: keys ↔ k ∈ keys := by simp [Ne.symm hjk]
      rw [if_neg hjk, List.nil_append, if_congr hmem rfl rfl]

/-- Of the items of one key, round `i` takes item `i`. -/
theorem filter_round (key : α → κ) (l : List α) (k : κ) (i : ℕ) :
    (round (groupsOf key l) i).filter (fun a => key a = k) =
      (l.filter fun a => key a = k)[i]?.toList := by
  have hgroup : ∀ j, ((l.filter fun a => key a = j)[i]?.toList).filter (fun a => key a = k) =
      if j = k then (l.filter fun a => key a = k)[i]?.toList else [] := by
    intro j
    cases hget : (l.filter fun a => key a = j)[i]? with
    | none =>
      split
      · rename_i hjk
        rw [← hjk, hget]
        rfl
      · rfl
    | some a =>
      have ha : key a = j := of_decide_eq_true (List.mem_filter.1 (List.mem_of_getElem? hget)).2
      split
      · rename_i hjk
        rw [← hjk, hget, Option.toList_some, List.filter_cons_of_pos (by simp [ha])]
        rfl
      · rename_i hjk
        rw [Option.toList_some, List.filter_cons_of_neg (by simpa [ha] using hjk)]
        rfl
  have hkeys : (Dict.firsts id (l.map key)).Nodup := Dict.nodup_firsts_id
  rw [round_eq_flatMap, List.filter_flatMap, groupsOf, List.flatMap_map,
    List.flatMap_congr fun j _ => hgroup j, flatMap_single hkeys]
  by_cases hk : k ∈ l.map key
  · rw [if_pos (Dict.mem_firsts_id.2 hk)]
  · -- there are no items of this key
    have hempty : l.filter (fun a => key a = k) = [] := by
      rw [List.filter_eq_nil_iff]
      intro a ha heq
      exact hk (List.mem_map.2 ⟨a, ha, of_decide_eq_true heq⟩)
    rw [if_neg fun hin => hk (Dict.mem_firsts_id.1 hin), hempty]
    rfl

/-- **The items of one key are taken in their order.** -/
theorem filter_rounds : (rounds (groupsOf key l) n).filter (fun a => key a = k) =
    (l.filter fun a => key a = k).take n := by
  unfold rounds
  rw [List.filter_flatMap, List.flatMap_congr fun i _ => filter_round key l k i, flatMap_getElem?]

end RoundRobin
