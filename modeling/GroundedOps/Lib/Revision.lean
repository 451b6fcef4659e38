import GroundedOps.Lib.Machine

/-!
# Snapshots guarded by a revision

A store keeps one snapshot for each key and saves a new one only over the revision its
writer expected. Threads read a snapshot, compute from it for as long as they like, and
try to save what they computed; reads and saves are atomic and interleave in any way.

* `Store`: the operations, with the laws such a store keeps under its own invariant `Ok`.
* `step`: one read or save of one thread, on one key.
* `run_linear`: **the snapshots saved form one chain**, with revisions 0, 1, 2, and so on,
  each computed from the one before, and a read returns the last.
* `run_history`: what the updates keep, every snapshot of the chain keeps.
* `run_final`: a snapshot from which nothing can be computed is read for ever.
-/

namespace Revision

/-- A store of snapshots `S` under keys `K`, represented by `St`; `none` is a conflict. -/
structure Store (St K S : Type*) where
  key : S → K
  revision : S → ℕ
  create : St → S → Option St
  get : St → K → Option S
  save : St → S → ℕ → Option St
  Ok : St → Prop
  create_ok : ∀ {st s st'}, Ok st → create st s = some st' → Ok st'
  get_create : ∀ {st s st'}, Ok st → create st s = some st' → get st' (key s) = some s
  save_ok : ∀ {st s e st'}, Ok st → save st s e = some st' → Ok st'
  get_save : ∀ {st s e st'}, Ok st → save st s e = some st' → get st' (key s) = some s
  expected : ∀ {st s e st'}, Ok st → save st s e = some st' →
    ∃ current, get st (key s) = some current ∧ revision current = e

/-- What can be computed from a snapshot: a new one, of the same key and the next revision. -/
structure Update {St K S : Type*} (store : Store St K S) (A : Type*) where
  apply : S → A → Option S
  key_apply : ∀ {s a s'}, apply s a = some s' → store.key s' = store.key s
  revision_apply : ∀ {s a s'}, apply s a = some s' → store.revision s' = store.revision s + 1

/-- The store, what each thread has read and not yet used, and the snapshots saved. -/
structure System (St S T : Type*) where
  store : St
  reads : T → Option S
  history : List S

/-- One atomic action of a thread. -/
inductive Event (T A : Type*)
  | get (thread : T)
  | save (thread : T) (a : A)

variable {St K S T A : Type*} {store : Store St K S}

/-- A new snapshot and no reads. -/
def start (st : St) (s : S) : System St S T := ⟨st, fun _ => none, [s]⟩

/-- Nothing can be computed from the snapshot. -/
def Final (update : Update store A) (s : S) : Prop := ∀ a, update.apply s a = none

/-- What has been saved, or read by a thread. -/
def Obtained (sys : System St S T) (s : S) : Prop :=
  s ∈ sys.history ∨ ∃ t, sys.reads t = some s

/-! ## The chain -/

/-- **The snapshots saved form one chain**, and a read returns the last of them. -/
structure Linear (update : Update store A) (k : K) (sys : System St S T) : Prop where
  ok : store.Ok sys.store
  last : store.get sys.store k = sys.history.getLast?
  keys : ∀ s ∈ sys.history, store.key s = k
  revisions : sys.history.map store.revision = List.range sys.history.length
  computed : sys.history.IsChain fun s s' => ∃ a, update.apply s a = some s'
  reads : ∀ t s, sys.reads t = some s → s ∈ sys.history

variable {update : Update store A} {k : K} {sys : System St S T} {s s' : S}

theorem start_linear {st : St} (hok : store.Ok st) (hget : store.get st (store.key s) = some s)
    (hrev : store.revision s = 0) :
    Linear update (store.key s) (start st s : System St S T) where
  ok := hok
  last := hget
  keys _ h := by rw [List.mem_singleton.1 h]
  revisions := by simp [start, hrev]
  computed := .singleton _
  reads _ _ h := by cases h

/-- The revision tells the snapshots of a chain apart. -/
theorem Linear.eq_of_revision (h : Linear update k sys) (hs : s ∈ sys.history)
    (hs' : s' ∈ sys.history) (hrev : store.revision s = store.revision s') : s = s' := by
  have hnodup : (sys.history.map store.revision).Nodup := by
    rw [h.revisions]; exact List.nodup_range
  exact List.inj_on_of_nodup_map hnodup hs hs' hrev

theorem Linear.revision_last (h : Linear update k sys) (hs : sys.history.getLast? = some s) :
    store.revision s + 1 = sys.history.length := by
  have hlast : (sys.history.map store.revision).getLast? = some (store.revision s) := by
    rw [List.getLast?_map, hs]; rfl
  have hpos : 0 < sys.history.length := List.length_pos_of_mem (List.mem_of_getLast? hs)
  rw [h.revisions, List.getLast?_range, if_neg (by omega)] at hlast
  have := Option.some.inj hlast
  omega

/-- What has been obtained is in the chain. -/
theorem Linear.mem_of_obtained (h : Linear update k sys) (hs : Obtained sys s) :
    s ∈ sys.history := by
  rcases hs with hs | ⟨t, hread⟩
  · exact hs
  · exact h.reads t s hread

/-- A chain with a snapshot has a last one, which reads return. -/
theorem Linear.exists_last (h : Linear update k sys) (hs : s ∈ sys.history) :
    ∃ current ∈ sys.history, store.get sys.store k = some current := by
  have hne : sys.history ≠ [] := List.ne_nil_of_mem hs
  refine ⟨sys.history.getLast hne, List.getLast_mem hne, ?_⟩
  rw [h.last, List.getLast?_eq_some_getLast hne]

/-- A final snapshot of the chain is its last. -/
theorem Linear.final_last (h : Linear update k sys) (hs : s ∈ sys.history)
    (hfinal : Final update s) : store.get sys.store k = some s := by
  obtain ⟨before, after, hsplit⟩ := List.append_of_mem hs
  rw [h.last, hsplit]
  cases after with
  | nil => exact List.getLast?_concat
  | cons next after =>
    obtain ⟨a, happly⟩ := List.isChain_iff_forall_rel_of_append_cons_cons.1 h.computed hsplit
    rw [hfinal a] at happly
    cases happly

/-- A save over a snapshot of the chain that succeeds was over the last of them. -/
theorem Linear.last_of_save {current : S} {st : St} (h : Linear update k sys)
    (hmem : current ∈ sys.history) (hkey : store.key s = k)
    (hsave : store.save sys.store s (store.revision current) = some st) :
    store.get sys.store k = some current := by
  obtain ⟨c, hget, hrev⟩ := store.expected h.ok hsave
  rw [hkey] at hget
  have hlast := h.last.symm.trans hget
  obtain rfl : c = current := h.eq_of_revision (List.mem_of_getLast? hlast) hmem hrev
  exact hget

/-- A save over the last snapshot prolongs the chain. -/
theorem Linear.save {a : A} {current : S} {st : St} (h : Linear update k sys)
    (hmem : current ∈ sys.history) (happly : update.apply current a = some s)
    (hsave : store.save sys.store s (store.revision current) = some st) :
    Linear update k { sys with store := st, history := sys.history ++ [s] } := by
  have hkey : store.key s = k := (update.key_apply happly).trans (h.keys current hmem)
  have hget : sys.history.getLast? = some current :=
    h.last.symm.trans (h.last_of_save hmem hkey hsave)
  have hnew : store.revision s = sys.history.length := by
    rw [update.revision_apply happly, h.revision_last hget]
  refine ⟨store.save_ok h.ok hsave, ?_, ?_, ?_, ?_, ?_⟩
  · rw [List.getLast?_concat, ← hkey]; exact store.get_save h.ok hsave
  · intro s' hs'
    rcases List.mem_append.1 hs' with hs' | hs'
    · exact h.keys s' hs'
    · rw [List.mem_singleton.1 hs']; exact hkey
  · simp only [List.map_append, List.map_cons, List.map_nil, List.length_append,
      List.length_singleton, List.range_succ, h.revisions, hnew]
  · refine h.computed.append (.singleton _) ?_
    rw [hget]
    rintro x ⟨⟩ y ⟨⟩
    exact ⟨a, happly⟩
  · exact fun t' s' hread' => List.mem_append_left _ (h.reads t' s' hread')

/-! ## Runs -/

section Runs

variable [DecidableEq T]

def System.setRead (sys : System St S T) (t : T) (read : Option S) : System St S T :=
  { sys with reads := Function.update sys.reads t read }

/-- A thread reads the snapshot of `k`, or saves what it computes from the one it read. -/
def step (update : Update store A) (k : K) (sys : System St S T) : Event T A → System St S T
  | .get t => sys.setRead t (store.get sys.store k)
  | .save t a =>
    match sys.reads t with
    | none => sys
    | some current =>
      match update.apply current a with
      | none => sys.setRead t none
      | some s =>
        match store.save sys.store s (store.revision current) with
        | none => sys.setRead t none
        | some st => System.setRead { sys with store := st, history := sys.history ++ [s] } t none

theorem Linear.setRead {t : T} {read : Option S} (h : Linear update k sys)
    (hread : ∀ s, read = some s → s ∈ sys.history) : Linear update k (sys.setRead t read) := by
  refine { h with reads := fun t' s hs => ?_ }
  by_cases ht : t' = t
  · subst ht
    exact hread s (by simpa [System.setRead] using hs)
  · exact h.reads t' s (by simpa [System.setRead, ht] using hs)

/-- **One read or save keeps the chain.** -/
theorem step_linear (sys : System St S T) (e : Event T A) (h : Linear update k sys) :
    Linear update k (step update k sys e) := by
  have hnone : ∀ {history : List S} s, (none : Option S) = some s → s ∈ history :=
    fun _ heq => absurd heq.symm (Option.some_ne_none _)
  cases e with
  | get t => exact h.setRead fun s hs => List.mem_of_getLast? (h.last.symm.trans hs)
  | save t a =>
    simp only [step]
    split
    · exact h
    · rename_i current hread
      split
      · exact h.setRead hnone
      · rename_i s happly
        split
        · exact h.setRead hnone
        · rename_i st hsave
          exact (h.save (h.reads t current hread) happly hsave).setRead hnone

theorem run_linear {es : List (Event T A)} (h : Linear update k sys) :
    Linear update k (Machine.run (step update k) sys es) :=
  Machine.run_inv step_linear h

/-- **What the updates keep, every snapshot of the chain keeps**, for the actions that are taken. -/
theorem run_history {P : S → Prop} {ok : A → Prop}
    (hupdate : ∀ s a s', P s → ok a → update.apply s a = some s' → P s')
    {es : List (Event T A)} (hok : ∀ t a, .save t a ∈ es → ok a) (h : Linear update k sys)
    (hall : ∀ s ∈ sys.history, P s) :
    ∀ s ∈ (Machine.run (step update k) sys es).history, P s := by
  refine (Machine.run_inv_of_mem
    (I := fun sys : System St S T => Linear update k sys ∧ ∀ s ∈ sys.history, P s)
    (fun sys e he hboth => ⟨step_linear sys e hboth.1, ?_⟩) ⟨h, hall⟩).2
  obtain ⟨hlinear, hkept⟩ := hboth
  cases e with
  | get t => exact hkept
  | save t a =>
    simp only [step]
    split
    · exact hkept
    · rename_i current hread
      split
      · exact hkept
      · rename_i s happly
        split
        · exact hkept
        · intro s' hs'
          rcases List.mem_append.1 hs' with hs' | hs'
          · exact hkept s' hs'
          · rw [List.mem_singleton.1 hs']
            have hcurrent : P current := hkept current (hlinear.reads t current hread)
            exact hupdate current a s hcurrent (hok t a he) happly

/-- What has been saved stays in the history. -/
theorem mem_history_step (sys : System St S T) (e : Event T A) (hs : s ∈ sys.history) :
    s ∈ (step update k sys e).history := by
  cases e with
  | get t => exact hs
  | save t a =>
    simp only [step]
    split
    · exact hs
    · split
      · exact hs
      · split
        · exact hs
        · exact List.mem_append_left _ hs

theorem mem_history_run {es : List (Event T A)} (hs : s ∈ sys.history) :
    s ∈ (Machine.run (step update k) sys es).history :=
  Machine.run_inv (I := fun sys : System St S T => s ∈ sys.history) mem_history_step hs

/-- **A final snapshot is final**: once it has been saved, or read, every later read returns
it. -/
theorem run_final {es more : List (Event T A)} (h : Linear update k sys)
    (hs : Obtained (Machine.run (step update k) sys es) s) (hfinal : Final update s) :
    store.get (Machine.run (step update k) sys (es ++ more)).store k = some s := by
  have hmem : s ∈ (Machine.run (step update k) sys es).history := by
    rcases hs with hs | ⟨t, hread⟩
    · exact hs
    · exact (run_linear h).reads t s hread
  have hkept : s ∈ (Machine.run (step update k) sys (es ++ more)).history := by
    rw [Machine.run_append]
    exact mem_history_run hmem
  exact (run_linear h).final_last hkept hfinal

end Runs

end Revision
