import Mathlib.Logic.Relation
import Mathlib.Tactic

/-!
# Processes that share a server

A process asks a server one request after the other and goes on with each answer. The
server is a relation, `serve r s a t`: in the state `s` the request `r` may be answered
by `a` and leave the state `t`. A request is atomic; between two requests of a process the
other processes move.

* `Routine`: processes that may raise, with requests that may be answered by an exception.
* `wp I C serve Q`: the rely-guarantee precondition. While the others keep the invariant
  `I` and move by `C.rely`, every request of the process keeps `I` and is a `C.guar` move,
  and its result satisfies `Q`.
* `Pool`: threads that start, are served in any order and stop anywhere.
* `Safe.reaches`: where the guarantees of the threads are within the relies of the others,
  each thread keeps its precondition in every pool that is reached.
* `Meanwhile`: a stretch of a run seen from one thread, with what the server answered it.
-/

/-- `done a` has finished with `a`; `call r k` asks `r` and goes on with the answer. -/
inductive Process (R : Type) (A : R → Type) (α : Type)
  | done (a : α)
  | call (r : R) (k : A r → Process R A α)

namespace Process

variable {R : Type} {A : R → Type} {α β σ : Type}

protected def bind : Process R A α → (α → Process R A β) → Process R A β
  | done a, f => f a
  | call r k, f => call r fun a => (k a).bind f

instance : Monad (Process R A) where
  pure := done
  bind := Process.bind

theorem bind_done (p : Process R A α) : p.bind done = p := by
  induction p with
  | done a => rfl
  | call r k ih => simp only [Process.bind, ih]

theorem bind_assoc {γ : Type} (p : Process R A α) (f : α → Process R A β) (g : β → Process R A γ) :
    (p.bind f).bind g = p.bind fun x => (f x).bind g := by
  induction p with
  | done a => rfl
  | call r k ih => simp only [Process.bind, ih]

instance : LawfulMonad (Process R A) :=
  LawfulMonad.mk' (Process R A) bind_done (fun _ _ => rfl) bind_assoc

/-- What a thread assumes of the others' moves and what its own moves keep to. -/
structure Contract (σ : Type) where
  rely : σ → σ → Prop
  guar : σ → σ → Prop
  rely_refl : ∀ s, rely s s
  rely_trans : ∀ {s t u}, rely s t → rely t u → rely s u

/-- The rely-guarantee precondition of a process. -/
def wp (I : σ → Prop) (C : Contract σ) (serve : (r : R) → σ → A r → σ → Prop)
    (Q : α → σ → Prop) : Process R A α → σ → Prop
  | done a, s => ∀ s', C.rely s s' → I s' → Q a s'
  | call r k, s => ∀ s', C.rely s s' → I s' → ∀ a t, serve r s' a t →
      I t ∧ C.guar s' t ∧ wp I C serve Q (k a) t

variable {I : σ → Prop} {C : Contract σ} {serve : (r : R) → σ → A r → σ → Prop}
  {Q Q' : α → σ → Prop} {p : Process R A α} {s s' : σ}

/-- The others' moves keep the precondition. -/
theorem wp_rely (h : wp I C serve Q p s) (hs : C.rely s s') : wp I C serve Q p s' := by
  cases p with
  | done a =>
    intro t ht hI
    exact h t (C.rely_trans hs ht) hI
  | call r k =>
    intro t ht hI
    exact h t (C.rely_trans hs ht) hI

/-- **Consequence**, where the others have moved on after the result. -/
theorem wp_mono' (h : wp I C serve Q p s)
    (hQ : ∀ a s, (∀ s', C.rely s s' → I s' → Q a s') → ∀ s', C.rely s s' → I s' → Q' a s') :
    wp I C serve Q' p s := by
  induction p generalizing s with
  | done a => exact hQ a s h
  | call r k ih =>
    intro s' hs hI a t ht
    obtain ⟨hIt, hg, hk⟩ := h s' hs hI a t ht
    exact ⟨hIt, hg, ih a hk⟩

theorem wp_mono (h : wp I C serve Q p s) (hQ : ∀ a s, Q a s → Q' a s) :
    wp I C serve Q' p s :=
  wp_mono' h fun a _ hq s' hs hI => hQ a s' (hq s' hs hI)

/-- **Frame**: what no move touches still holds at the end. -/
theorem wp_frame {F : σ → Prop} (h : wp I C serve Q p s) (hF : F s)
    (hrely : ∀ s t, C.rely s t → F s → F t) (hguar : ∀ s t, C.guar s t → F s → F t) :
    wp I C serve (fun a s => Q a s ∧ F s) p s := by
  induction p generalizing s with
  | done a =>
    intro s' hs hI
    exact ⟨h s' hs hI, hrely s s' hs hF⟩
  | call r k ih =>
    intro s' hs hI a t ht
    obtain ⟨hIt, hg, hk⟩ := h s' hs hI a t ht
    exact ⟨hIt, hg, ih a hk (hguar s' t hg (hrely s s' hs hF))⟩

theorem wp_bind {f : α → Process R A β} {M : β → σ → Prop} :
    wp I C serve M (p >>= f) s ↔ wp I C serve (fun a => wp I C serve M (f a)) p s := by
  change wp I C serve M (p.bind f) s ↔ _
  induction p generalizing s with
  | done a =>
    constructor
    · intro h s' hs _
      exact wp_rely h hs
    · intro h
      -- the others need not move before `f a` starts, but its first request needs `I`
      have hstart : ∀ s', C.rely s s' → I s' → wp I C serve M (f a) s' := h
      change wp I C serve M (f a) s
      cases hf : f a with
      | done b =>
        intro s' hs hI
        have := hstart s' hs hI
        rw [hf] at this
        exact this s' (C.rely_refl s') hI
      | call r k =>
        intro s' hs hI
        have := hstart s' hs hI
        rw [hf] at this
        exact this s' (C.rely_refl s') hI
  | call r k ih =>
    simp only [Process.bind, wp]
    refine forall_congr' fun s' => forall_congr' fun _ => forall_congr' fun _ =>
      forall_congr' fun a => forall_congr' fun t => forall_congr' fun _ => ?_
    rw [ih a]

/-! ## Routines: processes that may raise -/

/-- A process whose requests are answered by a result or by an exception. -/
abbrev Routine (ε R : Type) (Res : R → Type) (α : Type) :=
  ExceptT ε (Process R fun r => Except ε (Res r)) α

namespace Routine

variable {ε : Type} {Res : R → Type}

/-- Ask `r`, raising the exception it is answered by. -/
def request (r : R) : Routine ε R Res (Res r) := ExceptT.mk (.call r .done)

/-- Raise or return. -/
def ofExcept (x : Except ε α) : Routine ε R Res α := ExceptT.mk (.done x)

/-- `N` of a result and `E` of an exception. -/
def outcome (N : α → σ → Prop) (E : ε → σ → Prop) : Except ε α → σ → Prop
  | .ok a => N a
  | .error e => E e

/-- The precondition of a routine: it returns by `N` or raises by `E`. -/
def wp (I : σ → Prop) (C : Contract σ) (serve : (r : R) → σ → Except ε (Res r) → σ → Prop)
    (N : α → σ → Prop) (E : ε → σ → Prop) (m : Routine ε R Res α) (s : σ) : Prop :=
  Process.wp I C serve (outcome N E) m.run s

variable {serve : (r : R) → σ → Except ε (Res r) → σ → Prop} {N N' : α → σ → Prop} {M : β → σ → Prop} {E E' : ε → σ → Prop} {m : Routine ε R Res α}
  {f : α → Routine ε R Res β}

@[simp] theorem wp_pure {a : α} :
    wp I C serve N E (pure a : Routine ε R Res α) s ↔ ∀ s', C.rely s s' → I s' → N a s' := Iff.rfl

@[simp] theorem wp_throw {e : ε} :
    wp I C serve N E (throw e : Routine ε R Res α) s ↔ ∀ s', C.rely s s' → I s' → E e s' := Iff.rfl

@[simp] theorem wp_ofExcept_ok {a : α} :
    wp I C serve N E (ofExcept (.ok a) : Routine ε R Res α) s ↔ ∀ s', C.rely s s' → I s' → N a s' :=
  Iff.rfl

@[simp] theorem wp_ofExcept_error {e : ε} :
    wp I C serve N E (ofExcept (.error e) : Routine ε R Res α) s ↔
      ∀ s', C.rely s s' → I s' → E e s' := Iff.rfl

theorem wp_request {r : R} {N : Res r → σ → Prop} :
    wp I C serve N E (request r : Routine ε R Res (Res r)) s ↔
      ∀ s', C.rely s s' → I s' → ∀ a t, serve r s' a t →
        I t ∧ C.guar s' t ∧ ∀ t', C.rely t t' → I t' → outcome N E a t' := Iff.rfl

/-- **Consequence.** -/
theorem wp_mono (h : wp I C serve N E m s) (hN : ∀ a s, N a s → N' a s)
    (hE : ∀ e s, E e s → E' e s) : wp I C serve N' E' m s :=
  Process.wp_mono h fun x s hx => by
    cases x with
    | ok a => exact hN a s hx
    | error e => exact hE e s hx

@[simp] theorem wp_bind :
    wp I C serve M E (m >>= f) s ↔ wp I C serve (fun a => wp I C serve M E (f a)) E m s := by
  unfold wp
  rw [ExceptT.run_bind, Process.wp_bind]
  constructor
  · intro h
    refine wp_mono' h fun x s hx s' hs hI => ?_
    cases x with
    | ok a => exact hx s' hs hI
    | error e => exact hx s' hs hI s' (C.rely_refl s') hI
  · intro h
    refine wp_mono' h fun x s hx s' hs hI => ?_
    cases x with
    | ok a => exact hx s' hs hI
    | error e => exact fun t ht hIt => hx t (C.rely_trans hs ht) hIt

theorem wp_frame {F : σ → Prop} (h : wp I C serve N E m s) (hF : F s)
    (hrely : ∀ s t, C.rely s t → F s → F t) (hguar : ∀ s t, C.guar s t → F s → F t) :
    wp I C serve (fun a s => N a s ∧ F s) (fun e s => E e s ∧ F s) m s := by
  refine Process.wp_mono (Process.wp_frame h hF hrely hguar) fun x s hx => ?_
  cases x with
  | ok a => exact hx
  | error e => exact hx

/-- **Call**: run `m` by its own precondition, carrying a fact that no move touches. -/
theorem wp_call {F : σ → Prop} (h : wp I C serve N E m s) (hF : F s)
    (hrely : ∀ s t, C.rely s t → F s → F t) (hguar : ∀ s t, C.guar s t → F s → F t)
    (hN : ∀ a s, N a s → F s → wp I C serve M E' (f a) s)
    (hE : ∀ e s, E e s → F s → E' e s) : wp I C serve M E' (m >>= f) s := by
  rw [wp_bind]
  exact wp_mono (wp_frame h hF hrely hguar) (fun a s hx => hN a s hx.1 hx.2)
    fun e s hx => hE e s hx.1 hx.2

/-- Ask, then go on with the result. -/
theorem wp_request_bind {r : R} {f : Res r → Routine ε R Res β}
    (hE : ∀ e s s', C.rely s s' → E e s → E e s')
    (h : ∀ s', C.rely s s' → I s' → ∀ a t, serve r s' a t →
      I t ∧ C.guar s' t ∧ outcome (fun v => wp I C serve M E (f v)) E a t) :
    wp I C serve M E (request r >>= f) s := by
  rw [wp_bind, wp_request]
  intro s' hs hI a t ht
  obtain ⟨hIt, hg, ha⟩ := h s' hs hI a t ht
  refine ⟨hIt, hg, fun t' ht' _ => ?_⟩
  cases a with
  | ok v => exact Process.wp_rely ha ht'
  | error e => exact hE e t t' ht' ha

@[simp] theorem wp_tryCatch {h : ε → Routine ε R Res α} :
    wp I C serve N E (tryCatch m h) s ↔ wp I C serve N (fun e => wp I C serve N E (h e)) m s := by
  unfold wp
  rw [ExceptT.run_tryCatch, Process.wp_bind]
  constructor
  · intro h
    refine wp_mono' h fun x s hx s' hs hI => ?_
    cases x with
    | ok a => exact hx s' hs hI s' (C.rely_refl s') hI
    | error e => exact hx s' hs hI
  · intro h
    refine wp_mono' h fun x s hx s' hs hI => ?_
    cases x with
    | ok a => exact fun t ht hIt => hx t (C.rely_trans hs ht) hIt
    | error e => exact hx s' hs hI

end Routine

/-! ## Pools of threads -/

/-- A thread: what it was started as and what is left of it, nothing once it has stopped. -/
structure Thread (L R : Type) (A : R → Type) (α : Type) where
  label : L
  rest : Option (Process R A α)

structure Pool (σ L R : Type) (A : R → Type) (α : Type) where
  server : σ
  threads : List (Thread L R A α)

/-- What happens in a pool. -/
inductive Move (L R : Type) (A : R → Type)
  | serve (i : ℕ) (r : R) (a : A r)
  | start (l : L)
  | stop (i : ℕ)

/-- The thread that moves. -/
def Move.thread {L : Type} : Move L R A → Option ℕ
  | .serve i _ _ => some i
  | .start _ => none
  | .stop i => some i

/-- What the threads run, what serves them and which may start. -/
structure System (σ L R : Type) (A : R → Type) (α : Type) where
  body : L → Process R A α
  serve : (r : R) → σ → A r → σ → Prop
  may : Pool σ L R A α → L → Prop

namespace System

variable {L : Type} (sys : System σ L R A α)

inductive Step : Pool σ L R A α → Move L R A → Pool σ L R A α → Prop
  | serve {pool : Pool σ L R A α} {i : ℕ} {l : L} {r : R} {k : A r → Process R A α} {a : A r}
      {t : σ} : pool.threads[i]? = some ⟨l, some (.call r k)⟩ → sys.serve r pool.server a t →
      Step pool (.serve i r a) ⟨t, pool.threads.set i ⟨l, some (k a)⟩⟩
  | start {pool : Pool σ L R A α} {l : L} : sys.may pool l →
      Step pool (.start l) ⟨pool.server, pool.threads ++ [⟨l, some (sys.body l)⟩]⟩
  | stop {pool : Pool σ L R A α} {i : ℕ} {l : L} {p : Process R A α} :
      pool.threads[i]? = some ⟨l, some p⟩ →
      Step pool (.stop i) ⟨pool.server, pool.threads.set i ⟨l, none⟩⟩

/-- The pools that runs from a pool reach. -/
def Reaches : Pool σ L R A α → Pool σ L R A α → Prop :=
  Relation.ReflTransGen fun pool pool' => ∃ move, sys.Step pool move pool'

/-- The thread `i` runs, as `l`, and `p` is left of it. -/
def Runs (pool : Pool σ L R A α) (i : ℕ) (l : L) (p : Process R A α) : Prop :=
  pool.threads[i]? = some ⟨l, some p⟩

section Safe

variable (I : σ → Prop) (C : L → Contract σ) (Q : L → α → σ → Prop)

/-- The threads that run meet their preconditions and do not disturb each other. -/
structure Safe (pool : Pool σ L R A α) : Prop where
  inv : I pool.server
  wp : ∀ i l p, Runs pool i l p → Process.wp I (C l) sys.serve (Q l) p pool.server
  apart : ∀ i j l l' p p', i ≠ j → Runs pool i l p → Runs pool j l' p' →
    ∀ s t, (C l).guar s t → (C l').rely s t

variable {sys I C Q} {pool pool' : Pool σ L R A α} {move : Move L R A}

/-- What a thread must bring to start. -/
def Admits (sys : System σ L R A α) (I : σ → Prop) (C : L → Contract σ) (Q : L → α → σ → Prop) :
    Prop :=
  ∀ pool l, sys.may pool l → Safe sys I C Q pool →
    Process.wp I (C l) sys.serve (Q l) (sys.body l) pool.server ∧
    ∀ j l' p', Runs pool j l' p' →
      (∀ s t, (C l).guar s t → (C l').rely s t) ∧ ∀ s t, (C l').guar s t → (C l).rely s t

theorem runs_set_self {i : ℕ} {l l' : L} {p p' : Process R A α} {th : List (Thread L R A α)} {t : σ}
    (h : Runs ⟨t, th.set i ⟨l, some p⟩⟩ i l' p') : l' = l ∧ p' = p := by
  have hi : i < th.length := by
    have := (List.getElem?_eq_some_iff.1 h).1
    rwa [List.length_set] at this
  unfold Runs at h
  dsimp only at h
  rw [List.getElem?_set_self hi] at h
  injection h with h
  injection h with h1 h2
  injection h2 with h2
  exact ⟨h1.symm, h2.symm⟩

theorem runs_set_ne {i j : ℕ} {l : L} {p : Process R A α} {x : Thread L R A α}
    {th : List (Thread L R A α)} {t : σ} (hij : j ≠ i) :
    Runs ⟨t, th.set i x⟩ j l p ↔ th[j]? = some ⟨l, some p⟩ := by
  unfold Runs
  dsimp only
  rw [List.getElem?_set_ne (Ne.symm hij)]

theorem runs_concat {j : ℕ} {l l' : L} {p p' : Process R A α} {th : List (Thread L R A α)} {t : σ}
    (h : Runs ⟨t, th ++ [⟨l, some p⟩]⟩ j l' p') :
    th[j]? = some ⟨l', some p'⟩ ∨ j = th.length ∧ l' = l ∧ p' = p := by
  unfold Runs at h
  dsimp only at h
  rcases Nat.lt_trichotomy j th.length with hj | hj | hj
  · rw [List.getElem?_append_left hj] at h
    exact .inl h
  · subst hj
    rw [List.getElem?_append_right (le_refl _), Nat.sub_self] at h
    injection h with h
    injection h with h1 h2
    injection h2 with h2
    exact .inr ⟨rfl, h1.symm, h2.symm⟩
  · rw [List.getElem?_eq_none (by simp; omega)] at h
    cases h

/-- A thread that is served keeps its precondition and the others keep theirs. -/
theorem Safe.served (h : Safe sys I C Q pool) {i : ℕ} {l : L} {r : R} {k : A r → Process R A α}
    {a : A r} {t : σ} (hi : Runs pool i l (.call r k)) (ht : sys.serve r pool.server a t) :
    Safe sys I C Q ⟨t, pool.threads.set i ⟨l, some (k a)⟩⟩ := by
  obtain ⟨hIt, hg, hk⟩ := h.wp i l _ hi pool.server ((C l).rely_refl _) h.inv a t ht
  refine ⟨hIt, fun j l' p' hj => ?_, fun j j' l' l'' p' p'' hne hj hj' => ?_⟩
  · by_cases hji : j = i
    · subst hji
      obtain ⟨rfl, rfl⟩ := runs_set_self hj
      exact hk
    · have hj' := (runs_set_ne hji).1 hj
      exact wp_rely (h.wp j l' p' hj') (h.apart i j l l' _ _ (Ne.symm hji) hi hj' _ _ hg)
  · -- what runs as `l` did so before, whatever is left of it
    have hbefore : ∀ j l' p', Runs ⟨t, pool.threads.set i ⟨l, some (k a)⟩⟩ j l' p' →
        ∃ p, Runs pool j l' p := by
      intro j l' p' hj
      by_cases hji : j = i
      · subst hji
        obtain ⟨rfl, -⟩ := runs_set_self hj
        exact ⟨_, hi⟩
      · exact ⟨_, (runs_set_ne hji).1 hj⟩
    obtain ⟨q, hq⟩ := hbefore j l' p' hj
    obtain ⟨q', hq'⟩ := hbefore j' l'' p'' hj'
    exact h.apart j j' l' l'' q q' hne hq hq'

/-- What a thread is served is within its guarantee. -/
theorem Safe.guar (h : Safe sys I C Q pool) {i : ℕ} {l : L} {r : R} {k : A r → Process R A α}
    {a : A r} {t : σ} (hi : Runs pool i l (.call r k)) (ht : sys.serve r pool.server a t) :
    (C l).guar pool.server t :=
  (h.wp i l _ hi pool.server ((C l).rely_refl _) h.inv a t ht).2.1

theorem Safe.start (h : Safe sys I C Q pool) (hadm : Admits sys I C Q) {l : L}
    (hl : sys.may pool l) :
    Safe sys I C Q ⟨pool.server, pool.threads ++ [⟨l, some (sys.body l)⟩]⟩ := by
  obtain ⟨hwp, hcompat⟩ := hadm pool l hl h
  refine ⟨h.inv, fun j l' p' hj => ?_, fun j j' l' l'' p' p'' hne hj hj' => ?_⟩
  · rcases runs_concat hj with hold | ⟨-, rfl, rfl⟩
    · exact h.wp j l' p' hold
    · exact hwp
  · rcases runs_concat hj with hold | ⟨hjl, rfl, -⟩
    · rcases runs_concat hj' with hold' | ⟨-, rfl, -⟩
      · exact h.apart j j' l' l'' p' p'' hne hold hold'
      · exact (hcompat j l' p' hold).2
    · rcases runs_concat hj' with hold' | ⟨hjl', -, -⟩
      · exact (hcompat j' l'' p'' hold').1
      · exact absurd (hjl.trans hjl'.symm) hne

theorem Safe.stop (h : Safe sys I C Q pool) {i : ℕ} {l : L} :
    Safe sys I C Q ⟨pool.server, pool.threads.set i ⟨l, none⟩⟩ := by
  have hbefore : ∀ j l' p', Runs ⟨pool.server, pool.threads.set i ⟨l, none⟩⟩ j l' p' →
      Runs pool j l' p' := by
    intro j l' p' hj
    by_cases hji : j = i
    · subst hji
      exfalso
      have hlt := (List.getElem?_eq_some_iff.1 hj).1
      unfold Runs at hj
      dsimp only at hj hlt
      rw [List.length_set] at hlt
      rw [List.getElem?_set_self hlt] at hj
      injection hj with hj
      injection hj with _ hj
      cases hj
    · exact (runs_set_ne hji).1 hj
  exact ⟨h.inv, fun j l' p' hj => h.wp j l' p' (hbefore j l' p' hj),
    fun j j' l' l'' p' p'' hne hj hj' =>
      h.apart j j' l' l'' p' p'' hne (hbefore j l' p' hj) (hbefore j' l'' p'' hj')⟩

theorem Safe.step (h : Safe sys I C Q pool) (hadm : Admits sys I C Q)
    (hstep : sys.Step pool move pool') : Safe sys I C Q pool' := by
  cases hstep with
  | serve hi ht => exact h.served hi ht
  | start hl => exact h.start hadm hl
  | stop _ => exact h.stop

/-- **Every pool that a run reaches is safe.** -/
theorem Safe.reaches (h : Safe sys I C Q pool) (hadm : Admits sys I C Q)
    (hr : sys.Reaches pool pool') : Safe sys I C Q pool' := by
  induction hr with
  | refl => exact h
  | tail _ hstep ih =>
    obtain ⟨move, hstep⟩ := hstep
    exact ih.step hadm hstep

/-- What every start requires of a label holds of the labels of all threads. -/
theorem labels_of_reaches {P : L → Prop} (hmay : ∀ pool l, sys.may pool l → P l)
    (h : ∀ thread ∈ pool.threads, P thread.label) (hr : sys.Reaches pool pool') :
    ∀ thread ∈ pool'.threads, P thread.label := by
  have hset : ∀ (threads : List (Thread L R A α)) (i : ℕ) (x y : Thread L R A α),
      threads[i]? = some y → x.label = y.label → (∀ thread ∈ threads, P thread.label) →
      ∀ thread ∈ threads.set i x, P thread.label := by
    intro threads i x y hy hlabel hall thread hthread
    rcases List.mem_or_eq_of_mem_set hthread with hold | rfl
    · exact hall thread hold
    · rw [hlabel]
      exact hall y (List.mem_of_getElem? hy)
  induction hr with
  | refl => exact h
  | tail _ hstep ih =>
    obtain ⟨move, hstep⟩ := hstep
    cases hstep with
    | serve hi _ => exact hset _ _ _ _ hi rfl ih
    | start hl =>
      intro thread hthread
      rcases List.mem_append.1 hthread with hold | hnew
      · exact ih thread hold
      · rw [List.mem_singleton.1 hnew]
        exact hmay _ _ hl
    | stop hi => exact hset _ _ _ _ hi rfl ih

/-- A pool without threads is safe. -/
theorem safe_nil {s : σ} (hI : I s) : Safe sys I C Q ⟨s, []⟩ := by
  refine ⟨hI, fun i l p h => ?_, fun i j l l' p p' _ h => ?_⟩
  · cases h
  · cases h

end Safe

/-! ## A stretch of a run, seen from one thread -/

/-- From `pool` on, the server answered the requests of the thread `i` by `log`, and the other
threads moved the server only by `env`. -/
inductive Meanwhile (i : ℕ) (env : σ → σ → Prop) (pool : Pool σ L R A α) :
    List ((r : R) × A r) → Pool σ L R A α → Prop
  | start : Meanwhile i env pool [] pool
  | own {log : List ((r : R) × A r)} {q q' : Pool σ L R A α} {r : R} {a : A r} :
      Meanwhile i env pool log q → sys.Step q (.serve i r a) q' →
      Meanwhile i env pool (log ++ [⟨r, a⟩]) q'
  | other {log : List ((r : R) × A r)} {q q' : Pool σ L R A α} {move : Move L R A} :
      Meanwhile i env pool log q → sys.Step q move q' → move.thread ≠ some i →
      env q.server q'.server → Meanwhile i env pool log q'

/-- The server with a budget, which its answers use up. -/
def budgeted (serve : (r : R) → σ → A r → σ → Prop) (cost : (r : R) → A r → ℕ) (r : R)
    (s : σ × ℕ) (a : A r) (t : σ × ℕ) : Prop :=
  serve r s.1 a t.1 ∧ s.2 = t.2 + cost r a

/-- What a log costs. -/
def total (cost : (r : R) → A r → ℕ) (log : List ((r : R) × A r)) : ℕ :=
  (log.map fun x => cost x.1 x.2).sum

variable {sys} {env : σ → σ → Prop} {cost : (r : R) → A r → ℕ} {pool pool' : Pool σ L R A α}
  {i : ℕ} {l : L} {log : List ((r : R) × A r)}

theorem total_concat {r : R} {a : A r} :
    total cost (log ++ [⟨r, a⟩]) = total cost log + cost r a := by
  simp [total]

theorem Meanwhile.reaches (h : Meanwhile sys i env pool log pool') : sys.Reaches pool pool' := by
  induction h with
  | start => exact .refl
  | own _ hstep ih => exact ih.tail ⟨_, hstep⟩
  | other _ hstep _ _ ih => exact ih.tail ⟨_, hstep⟩

theorem Meanwhile.mono {env' : σ → σ → Prop} (h : Meanwhile sys i env pool log pool')
    (henv : ∀ q q' move, sys.Step q move q' → env q.server q'.server → env' q.server q'.server) :
    Meanwhile sys i env' pool log pool' := by
  induction h with
  | start => exact .start
  | own _ hstep ih => exact ih.own hstep
  | other _ hstep hm he ih => exact ih.other hstep hm (henv _ _ _ hstep he)

/-- A move of another thread leaves the thread as it is. -/
theorem Step.frame {move : Move L R A} (h : sys.Step pool move pool') (hm : move.thread ≠ some i)
    {p : Process R A α} (hi : Runs pool i l p) : Runs pool' i l p := by
  have hlt : i < pool.threads.length := (List.getElem?_eq_some_iff.1 hi).1
  cases h with
  | @serve j =>
    have hji : j ≠ i := fun he => hm (congrArg some he)
    exact (runs_set_ne (Ne.symm hji)).2 hi
  | start =>
    unfold Runs
    dsimp only
    rw [List.getElem?_append_left hlt]
    exact hi
  | @stop j =>
    have hji : j ≠ i := fun he => hm (congrArg some he)
    exact (runs_set_ne (Ne.symm hji)).2 hi

/-- **A thread whose requests cost no more than the budget keeps the precondition it has against
a server with that budget.** -/
theorem Meanwhile.wp_budgeted {I : σ × ℕ → Prop} {C : Contract (σ × ℕ)} {Q : α → σ × ℕ → Prop}
    {p : Process R A α} {n : ℕ} (h : Meanwhile sys i env pool log pool')
    (henv : ∀ s t m, env s t → C.rely (s, m) (t, m) ∧ (I (s, m) → I (t, m)))
    (hi : Runs pool i l p) (hI : I (pool.server, n))
    (hwp : Process.wp I C (budgeted sys.serve cost) Q p (pool.server, n)) :
    total cost log ≤ n → ∃ q, Runs pool' i l q ∧ I (pool'.server, n - total cost log) ∧
      Process.wp I C (budgeted sys.serve cost) Q q (pool'.server, n - total cost log) := by
  induction h with
  | start => exact fun _ => ⟨p, hi, by simpa [total] using hI, by simpa [total] using hwp⟩
  | @own log q q' r a _ hstep ih =>
    intro hn
    rw [total_concat] at hn ⊢
    obtain ⟨x, hx, hIx, hwpx⟩ := ih (by omega)
    cases hstep with
    | @serve _ l' _ k _ t hq ht =>
      have heq := hx.symm.trans hq
      injection heq with heq
      injection heq with hl hk
      injection hk with hk
      subst hl hk
      have hserved : budgeted sys.serve cost r (q.server, n - total cost log) a
          (t, n - (total cost log + cost r a)) := ⟨ht, by dsimp only; omega⟩
      obtain ⟨hIt, -, hk⟩ := hwpx _ (C.rely_refl _) hIx a _ hserved
      have hlt : i < q.threads.length := (List.getElem?_eq_some_iff.1 hq).1
      refine ⟨k a, ?_, hIt, hk⟩
      unfold Runs
      exact List.getElem?_set_self hlt
  | other _ hstep hm he ih =>
    intro hn
    obtain ⟨x, hx, hIx, hwpx⟩ := ih hn
    obtain ⟨hrely, hkeep⟩ := henv _ _ _ he
    exact ⟨x, hstep.frame hm hx, hkeep hIx, wp_rely hwpx hrely⟩

/-- The same against the server itself. -/
def Contract.free (C : Contract σ) : Contract (σ × ℕ) where
  rely s t := C.rely s.1 t.1
  guar s t := C.guar s.1 t.1
  rely_refl _ := C.rely_refl _
  rely_trans := C.rely_trans

theorem wp_free {I : σ → Prop} {C : Contract σ} {serve : (r : R) → σ → A r → σ → Prop}
    {Q : α → σ → Prop} {p : Process R A α} {s : σ × ℕ} (h : Process.wp I C serve Q p s.1) :
    Process.wp (fun s => I s.1) (Contract.free C) (budgeted serve fun _ _ => 0)
      (fun a s => Q a s.1) p s := by
  induction p generalizing s with
  | done a => exact fun s' hs hI => h s'.1 hs hI
  | call r k ih =>
    intro s' hs hI a t ht
    obtain ⟨hIt, hg, hk⟩ := h s'.1 hs hI a t.1 ht.1
    exact ⟨hIt, hg, ih a hk⟩

/-- **A thread that meets its precondition returns by it**, where the others move by `env`. -/
theorem Meanwhile.result {I : σ → Prop} {C : Contract σ} {Q : α → σ → Prop} {p : Process R A α}
    {a : α} (h : Meanwhile sys i env pool log pool')
    (henv : ∀ s t, env s t → C.rely s t ∧ (I s → I t)) (hi : Runs pool i l p) (hI : I pool.server)
    (hwp : Process.wp I C sys.serve Q p pool.server) (hend : Runs pool' i l (.done a)) :
    Q a pool'.server := by
  have hzero : total (fun _ _ => 0) log ≤ 0 := by simp [total]
  obtain ⟨q, hq, hIq, hwpq⟩ := h.wp_budgeted (fun s t _ he => henv s t he) hi hI
    (wp_free (s := (pool.server, 0)) hwp) hzero
  have heq := hq.symm.trans hend
  injection heq with heq
  injection heq with _ heq
  injection heq with heq
  subst heq
  exact hwpq _ (C.rely_refl _) hIq

end System

/-! ## A process alone -/

/-- What a process returns where `handler` answers its requests, and the state it leaves. -/
def solve (handler : (r : R) → σ → A r × σ) : Process R A α → σ → α × σ
  | done a, s => (a, s)
  | call r k, s => (k (handler r s).1).solve handler (handler r s).2

/-- The answers it got. -/
def answers (handler : (r : R) → σ → A r × σ) : Process R A α → σ → List ((r : R) × A r)
  | done _, _ => []
  | call r k, s => ⟨r, (handler r s).1⟩ :: (k (handler r s).1).answers handler (handler r s).2

/-- **A handler that answers as the server may gives a run of the pool.** -/
theorem System.meanwhile_solve {L : Type} {sys : System σ L R A α} {env : σ → σ → Prop}
    {handler : (r : R) → σ → A r × σ} (hh : ∀ r s, sys.serve r s (handler r s).1 (handler r s).2)
    {start pool : Pool σ L R A α} {i : ℕ} {l : L} {log : List ((r : R) × A r)} {p : Process R A α}
    (h : Meanwhile sys i env start log pool) (hi : Runs pool i l p) :
    Meanwhile sys i env start (log ++ p.answers handler pool.server)
      ⟨(p.solve handler pool.server).2,
        pool.threads.set i ⟨l, some (done (p.solve handler pool.server).1)⟩⟩ := by
  induction p generalizing pool log with
  | done a =>
    have hset : pool.threads.set i ⟨l, some (done a)⟩ = pool.threads :=
      List.ext_getElem? fun j => by
        by_cases hj : i = j
        · subst hj
          have hlt : i < pool.threads.length := (List.getElem?_eq_some_iff.1 hi).1
          rw [List.getElem?_set_self hlt]
          exact hi.symm
        · rw [List.getElem?_set_ne hj]
    simp only [answers, solve, List.append_nil]
    rw [hset]
    exact h
  | call r k ih =>
    have hlt : i < pool.threads.length := (List.getElem?_eq_some_iff.1 hi).1
    have hstep := Meanwhile.own h (Step.serve hi (hh r pool.server))
    have hk := ih (handler r pool.server).1 hstep (List.getElem?_set_self hlt)
    simp only [answers, solve]
    rw [List.append_assoc] at hk
    rw [List.set_set] at hk
    exact hk

end Process
