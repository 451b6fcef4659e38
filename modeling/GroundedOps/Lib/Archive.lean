import GroundedOps.Lib.Revision

/-!
# Snapshots of many keys

A store guarded by revisions, as it is used for all of its keys at once: any thread creates a first
snapshot, reads a key, or saves what it computed from its last read.

* `Store.Separate`: an operation on one key leaves the others, and only an absent one is created.
* `access_chains`: **the snapshots of each key form a chain of their own.**
* `access_none`: an access fills no key but the one it creates.
* `access_get`: **what a key holds, it holds after an access, or what an update made of it.**
-/

namespace Revision

variable {St K S T A : Type*} {store : Store St K S}

/-- An operation on one key leaves the others, and a snapshot is created exactly where there is
none. -/
structure Store.Separate (store : Store St K S) : Prop where
  create_other : ∀ {st s st' k}, store.create st s = some st' → k ≠ store.key s →
    store.get st' k = store.get st k
  save_other : ∀ {st s e st' k}, store.save st s e = some st' → k ≠ store.key s →
    store.get st' k = store.get st k
  create_fresh : ∀ {st s st'}, store.Ok st → store.create st s = some st' →
    store.get st (store.key s) = none
  create_taken : ∀ {st s}, store.Ok st → store.create st s = none →
    ∃ current, store.get st (store.key s) = some current

/-- One atomic access to the store. -/
inductive Access (T A K S : Type*)
  | create (s : S)
  | get (thread : T) (k : K)
  | save (thread : T) (a : A)

/-- `s'` is `s`, or what updates made of it. -/
def Reaches (update : Update store A) : S → S → Prop :=
  Relation.ReflTransGen fun s s' => ∃ a, update.apply s a = some s'

/-- What concerns one key. -/
def System.on [DecidableEq K] (store : Store St K S) (k : K) (sys : System St S T) :
    System St S T :=
  { store := sys.store
    reads := fun t => (sys.reads t).filter fun s => store.key s = k
    history := sys.history.filter fun s => store.key s = k }

/-- The snapshots of each key form a chain. -/
def Chains [DecidableEq K] (update : Update store A) (sys : System St S T) : Prop :=
  ∀ k, Linear update k (sys.on store k)

def access [DecidableEq T] (update : Update store A) (sys : System St S T) :
    Access T A K S → System St S T
  | .create s =>
    match store.create sys.store s with
    | none => sys
    | some st => { sys with store := st, history := sys.history ++ [s] }
  | .get t k => step update k sys (.get t)
  | .save t a =>
    match sys.reads t with
    | none => sys
    | some current => step update (store.key current) sys (.save t a)

variable {update : Update store A} {k : K} {sys : System St S T} {s : S} {st : St} {t : T}

theorem Linear.frame (h : Linear update k sys) (hok : store.Ok st)
    (hget : store.get st k = store.get sys.store k) : Linear update k { sys with store := st } :=
  { h with ok := hok, last := hget.trans h.last }

/-! ## What is reached -/

/-- What the updates keep, everything that is reached keeps. -/
theorem Reaches.keeps {P : S → Prop} (hupdate : ∀ s a s', P s → update.apply s a = some s' → P s')
    {s' : S} (h : Reaches update s s') (hs : P s) : P s' := by
  induction h with
  | refl => exact hs
  | tail _ hlast ih =>
    obtain ⟨a, happly⟩ := hlast
    exact hupdate _ a _ ih happly

/-- From a final snapshot nothing else is reached. -/
theorem Reaches.eq_of_final {s' : S} (h : Reaches update s s') (hfinal : Final update s) :
    s' = s := by
  induction h with
  | refl => rfl
  | tail _ hlast ih =>
    obtain ⟨a, happly⟩ := hlast
    rw [ih, hfinal a] at happly
    cases happly

/-! ## One key among many -/

section Keys

variable [DecidableEq K]

theorem on_grown_same (hkey : store.key s = k) :
    ({ sys with store := st, history := sys.history ++ [s] } : System St S T).on store k =
      { sys.on store k with store := st, history := (sys.on store k).history ++ [s] } := by
  unfold System.on
  simp only [List.filter_append, List.filter_cons, hkey, decide_true, if_true, List.filter_nil]

theorem on_grown_other (hkey : store.key s ≠ k) :
    ({ sys with store := st, history := sys.history ++ [s] } : System St S T).on store k =
      { sys.on store k with store := st } := by
  unfold System.on
  simp only [List.filter_append, List.filter_cons, hkey, decide_false, Bool.false_eq_true, if_false,
    List.filter_nil, List.append_nil]

/-- What a key holds has been saved under it. -/
theorem Chains.mem_of_get (h : Chains update sys) (hs : store.get sys.store k = some s) :
    s ∈ sys.history ∧ store.key s = k := by
  have hlast : (sys.history.filter fun s => store.key s = k).getLast? = some s :=
    (h k).last.symm.trans hs
  obtain ⟨hmem, hkey⟩ := List.mem_filter.1 (List.mem_of_getLast? hlast)
  exact ⟨hmem, of_decide_eq_true hkey⟩

/-- What a thread has read has been saved under its key. -/
theorem Chains.mem_of_read (h : Chains update sys) (hread : sys.reads t = some s) :
    s ∈ (sys.on store (store.key s)).history := by
  refine (h (store.key s)).reads t s ?_
  unfold System.on
  simp only [hread, Option.filter_some, decide_true, if_true]

/-- What was created stands alone under its key. -/
theorem Chains.created (hseparate : store.Separate) (h : Chains update sys)
    (hcreate : store.create sys.store s = some st) (hrevision : store.revision s = 0) :
    Chains update { sys with store := st, history := sys.history ++ [s] } := by
  intro k
  have hok : store.Ok st := store.create_ok (h k).ok hcreate
  by_cases hkey : store.key s = k
  · rw [on_grown_same hkey]
    subst hkey
    have hnone : (sys.on store (store.key s)).history = [] := by
      have hlast := (h (store.key s)).last
      have hfresh : store.get (sys.on store (store.key s)).store (store.key s) = none :=
        hseparate.create_fresh (h (store.key s)).ok hcreate
      rw [hfresh] at hlast
      exact List.getLast?_eq_none_iff.1 hlast.symm
    refine { ok := hok, last := ?_, keys := ?_, revisions := ?_, computed := ?_, reads := ?_ }
    · exact (store.get_create (h (store.key s)).ok hcreate).trans List.getLast?_concat.symm
    · rw [hnone]
      exact fun s' hs' => by rw [List.mem_singleton.1 hs']
    · rw [hnone]
      simp [hrevision]
    · rw [hnone]
      exact .singleton s
    · intro t s' hread
      have hmem := (h (store.key s)).reads t s' hread
      rw [hnone] at hmem
      cases hmem
  · rw [on_grown_other hkey]
    exact (h k).frame hok (hseparate.create_other hcreate (Ne.symm hkey))

/-- What was saved prolongs the chain of its key. -/
theorem Chains.saved {a : A} {current : S} (hseparate : store.Separate) (h : Chains update sys)
    (hread : sys.reads t = some current) (happly : update.apply current a = some s)
    (hsave : store.save sys.store s (store.revision current) = some st) :
    Chains update { sys with store := st, history := sys.history ++ [s] } := by
  intro k
  have hmem := h.mem_of_read hread
  have hsame : store.key s = store.key current := update.key_apply happly
  by_cases hkey : store.key s = k
  · rw [on_grown_same hkey]
    have hcurrent : store.key current = k := hsame.symm.trans hkey
    rw [hcurrent] at hmem
    exact (h k).save hmem happly hsave
  · rw [on_grown_other hkey]
    have hok : store.Ok st := store.save_ok (h k).ok hsave
    exact (h k).frame hok (hseparate.save_other hsave (Ne.symm hkey))

/-- Nothing has been saved. -/
theorem chains_empty (hok : store.Ok st) (hempty : ∀ k, store.get st k = none) :
    Chains update (⟨st, fun _ => none, []⟩ : System St S T) := fun k =>
  { ok := hok
    last := hempty k
    keys := fun _ hs => absurd hs List.not_mem_nil
    revisions := rfl
    computed := .nil
    reads := fun _ _ hread => by cases hread }

/-! ## One access -/

variable [DecidableEq T]

theorem on_setRead {read : Option S} : (sys.setRead t read).on store k =
    (sys.on store k).setRead t (read.filter fun s => store.key s = k) := by
  unfold System.on System.setRead
  congr 1
  funext t'
  by_cases ht : t' = t
  · subst ht
    simp only [Function.update_self]
  · simp only [Function.update_of_ne ht]

/-- A thread forgets what it has read. -/
theorem Chains.forget (h : Chains update sys) : Chains update (sys.setRead t none) := by
  intro k
  rw [on_setRead]
  exact (h k).setRead fun s hs => by cases hs

/-- **One access keeps the chains.** -/
theorem access_chains (hseparate : store.Separate) (e : Access T A K S)
    (hfresh : ∀ s, e = .create s → store.revision s = 0) (h : Chains update sys) :
    Chains update (access update sys e) := by
  cases e with
  | create s =>
    simp only [access]
    split
    · exact h
    · rename_i st hcreate
      exact h.created hseparate hcreate (hfresh s rfl)
  | get t k' =>
    intro k
    simp only [access, step]
    rw [on_setRead]
    refine (h k).setRead fun s hs => ?_
    obtain ⟨hget, hkey⟩ := Option.filter_eq_some_iff.1 hs
    obtain ⟨hmem, -⟩ := h.mem_of_get hget
    exact List.mem_filter.2 ⟨hmem, hkey⟩
  | save t a =>
    simp only [access]
    split
    · exact h
    · rename_i current hread
      simp only [step, hread]
      split
      · exact h.forget
      · rename_i s happly
        split
        · exact h.forget
        · rename_i st hsave
          exact (h.saved hseparate hread happly hsave).forget

/-- **One access leaves what a key holds, or an update of it.** -/
theorem access_get (hseparate : store.Separate) (e : Access T A K S) (h : Chains update sys)
    (hs : store.get sys.store k = some s) :
    ∃ s', store.get (access update sys e).store k = some s' ∧ Reaches update s s' := by
  cases e with
  | create s₀ =>
    simp only [access]
    split
    · exact ⟨s, hs, .refl⟩
    · rename_i st hcreate
      have hother : k ≠ store.key s₀ := by
        intro heq
        have hnone := hseparate.create_fresh (h k).ok hcreate
        rw [← heq, show (sys.on store k).store = sys.store from rfl, hs] at hnone
        cases hnone
      exact ⟨s, (hseparate.create_other hcreate hother).trans hs, .refl⟩
  | get t k' => exact ⟨s, hs, .refl⟩
  | save t a =>
    simp only [access]
    split
    · exact ⟨s, hs, .refl⟩
    · rename_i current hread
      simp only [step, hread]
      split
      · exact ⟨s, hs, .refl⟩
      · rename_i s₁ happly
        split
        · exact ⟨s, hs, .refl⟩
        · rename_i st hsave
          have hsame : store.key s₁ = store.key current := update.key_apply happly
          by_cases hkey : store.key current = k
          · subst hkey
            have hlast := (h (store.key current)).last_of_save (h.mem_of_read hread) hsame hsave
            obtain rfl : s = current := Option.some.inj (hs.symm.trans hlast)
            refine ⟨s₁, ?_, .single ⟨a, happly⟩⟩
            rw [← hsame]
            exact store.get_save (h (store.key s)).ok hsave
          · have hother : k ≠ store.key s₁ := fun heq => hkey (hsame.symm.trans heq.symm)
            exact ⟨s, (hseparate.save_other hsave hother).trans hs, .refl⟩

/-- **An access fills no key but the one it creates.** -/
theorem access_none (hseparate : store.Separate) (e : Access T A K S) (h : Chains update sys)
    (hother : ∀ s, e = .create s → store.key s ≠ k) (hnone : store.get sys.store k = none) :
    store.get (access update sys e).store k = none := by
  cases e with
  | create s =>
    simp only [access]
    split
    · exact hnone
    · rename_i st hcreate
      exact (hseparate.create_other hcreate (Ne.symm (hother s rfl))).trans hnone
  | get t k' => exact hnone
  | save t a =>
    simp only [access]
    split
    · exact hnone
    · rename_i current hread
      simp only [step, hread]
      split
      · exact hnone
      · rename_i s happly
        split
        · exact hnone
        · rename_i st hsave
          refine (hseparate.save_other hsave ?_).trans hnone
          rintro rfl
          have hsame : store.key s = store.key current := update.key_apply happly
          have hlast := (h (store.key current)).last_of_save (h.mem_of_read hread) hsame hsave
          rw [hsame] at hnone
          exact absurd (hnone.symm.trans hlast) (Option.some_ne_none current).symm

end Keys

end Revision
