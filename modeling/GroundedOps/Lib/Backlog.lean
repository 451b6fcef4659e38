import GroundedOps.Lib.Machine
import Mathlib.Data.List.Sort

/-!
# Serving a backlog in order

Requests wait to be served; each round serves the first few of them in some total preorder.

* `served n l`: the first `n` of `l`.
* `le_of_not_mem_served`, `length_served_of_not_mem`: **who is not served is behind a full round.**
* `reached_of_potential`: **what is served outweighs what stands ahead**, so a request is reached.
* `hits_spaced`: **what happens no sooner than `gap` after it was last marked** happens so often at
  most in a stretch of time.
-/

namespace Backlog

variable {α : Type*} {le : α → α → Bool} {n : ℕ} {l : List α} {x y : α}

/-- The first `n` of `l`. -/
def served (le : α → α → Bool) (n : ℕ) (l : List α) : List α := (l.mergeSort le).take n

theorem mem_of_mem_served (h : x ∈ served le n l) : x ∈ l :=
  List.mem_mergeSort.1 (List.mem_of_mem_take h)

theorem nodup_map_served {β : Type*} {f : α → β} (h : (l.map f).Nodup) :
    ((served le n l).map f).Nodup := by
  have hperm : ((l.mergeSort le).map f).Perm (l.map f) := (List.mergeSort_perm l le).map f
  have hsorted : ((l.mergeSort le).map f).Nodup := hperm.nodup_iff.2 h
  exact hsorted.sublist ((List.take_sublist n _).map f)

theorem mem_drop_of_not_mem_served (hx : x ∈ l) (h : x ∉ served le n l) :
    x ∈ (l.mergeSort le).drop n := by
  have hmem : x ∈ (l.mergeSort le).take n ++ (l.mergeSort le).drop n := by
    rw [List.take_append_drop]
    exact List.mem_mergeSort.2 hx
  exact (List.mem_append.1 hmem).resolve_left h

/-- **Who is served comes before who is not.** -/
theorem le_of_not_mem_served (htrans : ∀ a b c, le a b = true → le b c = true → le a c = true)
    (htotal : ∀ a b, (le a b || le b a) = true) (hx : x ∈ l) (h : x ∉ served le n l)
    (hy : y ∈ served le n l) : le y x = true := by
  have hsorted : (l.mergeSort le).Pairwise fun a b => le a b = true :=
    List.pairwise_mergeSort htrans htotal l
  rw [← List.take_append_drop n (l.mergeSort le)] at hsorted
  exact (List.pairwise_append.1 hsorted).2.2 y hy x (mem_drop_of_not_mem_served hx h)

/-- **Where one is not served, the round is full.** -/
theorem length_served_of_not_mem (hx : x ∈ l) (h : x ∉ served le n l) :
    (served le n l).length = n := by
  have hrest : 0 < ((l.mergeSort le).drop n).length :=
    List.length_pos_of_mem (mem_drop_of_not_mem_served hx h)
  rw [List.length_drop] at hrest
  have hmin : (served le n l).length = min n (l.mergeSort le).length := List.length_take
  omega

end Backlog

namespace Machine

variable {S A : Type*} {step : S → A → S} {s : S} {as : List A}

/-- **The potential argument**: while a request waits, an action lowers its potential by what it
serves and raises it by what it adds; so the request is reached once more has been served than
there was and was added. -/
theorem reached_of_potential (waiting : S → Prop) (reached : S → A → Prop) (potential : S → ℕ)
    (serves adds : A → ℕ)
    (hstep : ∀ s, ∀ a ∈ as, waiting s → reached s a ∨
      waiting (step s a) ∧ potential (step s a) + serves a ≤ potential s + adds a)
    (h0 : waiting s)
    (hserved : potential s + (as.map adds).sum < (as.map serves).sum) :
    ∃ pre a, pre ++ [a] <+: as ∧ reached (run step s pre) a := by
  induction as generalizing s with
  | nil => simp at hserved
  | cons a as ih =>
    rcases hstep s a List.mem_cons_self h0 with hreached | ⟨hwaiting, hless⟩
    · exact ⟨[], a, List.cons_prefix_cons.2 ⟨rfl, List.nil_prefix⟩, hreached⟩
    · simp only [List.map_cons, List.sum_cons] at hserved
      have hrest : ∀ s, ∀ b ∈ as, waiting s → reached s b ∨
          waiting (step s b) ∧ potential (step s b) + serves b ≤ potential s + adds b :=
        fun s b hb => hstep s b (List.mem_cons_of_mem _ hb)
      obtain ⟨pre, b, hpre, hreached⟩ := ih hrest hwaiting (by omega)
      exact ⟨a :: pre, b, List.cons_prefix_cons.2 ⟨rfl, hpre⟩, hreached⟩

/-! ## What happens in a stretch of time -/

/-- How often the actions of a run hit. -/
def hits (step : S → A → S) (hit : S → A → Bool) : S → List A → ℕ
  | _, [] => 0
  | s, a :: as => (if hit s a then 1 else 0) + hits step hit (step s a) as

section Spaced

variable {hit : S → A → Bool} (time : A → ℤ) (mark : S → Option ℤ) {gap : ℕ} {start finish t : ℤ}

/-- From a mark on, each hit takes a gap of the time that is left. -/
theorem hits_of_mark
    (hlate : ∀ s a, hit s a = true → ∀ t, mark s = some t → t + gap ≤ time a)
    (hmarks : ∀ s a, hit s a = true → mark (step s a) = some (time a))
    (hkeeps : ∀ s a, mark (step s a) = mark s ∨ mark (step s a) = some (time a))
    (hsorted : as.Pairwise fun a b => time a ≤ time b) (hfinish : ∀ a ∈ as, time a ≤ finish)
    (hmark : mark s = some t) (hafter : ∀ a ∈ as, t ≤ time a) (ht : t ≤ finish) :
    (hits step hit s as : ℤ) * gap ≤ finish - t := by
  induction as generalizing s t with
  | nil =>
    simp only [hits, Nat.cast_zero, zero_mul]
    omega
  | cons a as ih =>
    obtain ⟨hfirst, hrest⟩ := List.pairwise_cons.1 hsorted
    have hend : ∀ b ∈ as, time b ≤ finish := fun b hb => hfinish b (List.mem_cons_of_mem a hb)
    have hnow : time a ≤ finish := hfinish a List.mem_cons_self
    have hsince : t ≤ time a := hafter a List.mem_cons_self
    by_cases h : hit s a = true
    · have hnext := ih hrest hend (hmarks s a h) hfirst hnow
      have hgap := hlate s a h t hmark
      rw [hits, if_pos h, Nat.cast_add, Nat.cast_one, add_mul, one_mul]
      omega
    · rw [hits, if_neg h, Nat.zero_add]
      rcases hkeeps s a with hsame | hjust
      · exact ih hrest hend (hsame.trans hmark)
          (fun b hb => hafter b (List.mem_cons_of_mem a hb)) ht
      · have hnext := ih hrest hend hjust hfirst hnow
        omega

/-- **Hits are spaced**: a stretch of time has at most one for each gap in it, and one more. -/
theorem hits_spaced
    (hlate : ∀ s a, hit s a = true → ∀ t, mark s = some t → t + gap ≤ time a)
    (hmarks : ∀ s a, hit s a = true → mark (step s a) = some (time a))
    (hkeeps : ∀ s a, mark (step s a) = mark s ∨ mark (step s a) = some (time a))
    (hsorted : as.Pairwise fun a b => time a ≤ time b) (hstart : ∀ a ∈ as, start ≤ time a)
    (hfinish : ∀ a ∈ as, time a ≤ finish) (hle : start ≤ finish) :
    (hits step hit s as : ℤ) * gap ≤ finish - start + gap := by
  induction as generalizing s with
  | nil =>
    simp only [hits, Nat.cast_zero, zero_mul]
    omega
  | cons a as ih =>
    obtain ⟨hfirst, hrest⟩ := List.pairwise_cons.1 hsorted
    have hend : ∀ b ∈ as, time b ≤ finish := fun b hb => hfinish b (List.mem_cons_of_mem a hb)
    have hbegin : start ≤ time a := hstart a List.mem_cons_self
    by_cases h : hit s a = true
    · -- after the first hit there is a mark
      have hnext := hits_of_mark time mark hlate hmarks hkeeps hrest hend (hmarks s a h) hfirst
        (hfinish a List.mem_cons_self)
      rw [hits, if_pos h, Nat.cast_add, Nat.cast_one, add_mul, one_mul]
      omega
    · rw [hits, if_neg h, Nat.zero_add]
      exact ih hrest (fun b hb => hstart b (List.mem_cons_of_mem a hb)) hend

end Spaced

end Machine
