import GroundedOps.Spec.Rebuild

/-!
# Rebuilds never expose an index that was not validated

* `update_pointing`: from aliases on one index, a switch moves both or fails.
* `steady`: what every call keeps, whatever the others do.
* `At`: what a call knows of the catalog while no one else moves the aliases, with the
  number of failures it may still meet.
-/

namespace GroundedOps.Indexing

open Process Catalog LexicalIndexSchema IndexRebuilder

/-! ## The cluster -/

namespace Catalog

variable {catalog catalog' : Catalog} {first index expected target : String}

/-- **From aliases on one index, a switch moves both to the target or fails.** -/
theorem update_pointing (h : catalog.aliases = pointing index)
    (hu : catalog.update (switchActions expected target) = some catalog') :
    index = expected ∧ target ∈ catalog.indices ∧
      catalog' = { catalog with aliases := pointing target } := by
  by_cases he : expected = index
  · subst he
    by_cases ht : target ∈ catalog.indices
    · refine ⟨rfl, ht, ?_⟩
      simp [update, switchActions, apply, setAlias, h, pointing, ht] at hu
      rw [← hu]
      congr 1
      funext name
      cases name <;> simp [pointing]
    · simp [update, switchActions, apply, setAlias, h, pointing, ht] at hu
  · -- the removal of the read alias must exist
    simp [update, switchActions, apply, h, pointing, he] at hu

theorem apply_same {action : AliasAction} (h : catalog.apply action = some catalog') :
    catalog'.indices = catalog.indices ∧ catalog'.validated = catalog.validated := by
  cases action with
  | remove index name mustExist =>
    simp only [apply] at h
    split at h
    · injection h with h; subst h; exact ⟨rfl, rfl⟩
    · split at h
      · cases h
      · injection h with h; subst h; exact ⟨rfl, rfl⟩
  | add index name isWriteIndex =>
    simp only [apply] at h
    split at h
    · injection h with h; subst h; exact ⟨rfl, rfl⟩
    · cases h

/-- An update moves aliases and nothing else. -/
theorem update_same {actions : List AliasAction} (h : catalog.update actions = some catalog') :
    catalog'.indices = catalog.indices ∧ catalog'.validated = catalog.validated := by
  induction actions generalizing catalog with
  | nil =>
    cases h
    exact ⟨rfl, rfl⟩
  | cons action actions ih =>
    rw [update, List.foldlM_cons, Option.bind_eq_bind, Option.bind_eq_some_iff] at h
    obtain ⟨next, hnext, hrest⟩ := h
    have hone := apply_same hnext
    have hmany := ih hrest
    exact ⟨hmany.1.trans hone.1, hmany.2.trans hone.2⟩

/-- Indices and validations are never withdrawn. -/
theorem serves_grow {request : Request} {answer : Answered request}
    (h : Serves request catalog answer catalog') :
    catalog.indices ⊆ catalog'.indices ∧ catalog.validated ⊆ catalog'.validated := by
  have hsame : catalog' = catalog → catalog.indices ⊆ catalog'.indices ∧
      catalog.validated ⊆ catalog'.validated := by
    rintro rfl
    exact ⟨List.Subset.refl _, List.Subset.refl _⟩
  cases request with
  | getAlias name => exact hsame h.1
  | existsIndex index => exact hsame h.1
  | create index =>
    rcases h with ⟨h, -⟩ | ⟨-, rfl⟩
    · exact hsame h
    · exact ⟨List.subset_append_left _ _, List.Subset.refl _⟩
  | updateAliases actions =>
    rcases h with ⟨h, -⟩ | h
    · exact hsame h
    · obtain ⟨hi, hv⟩ := update_same h
      exact ⟨hi ▸ List.Subset.refl _, hv ▸ List.Subset.refl _⟩
  | build candidate => exact hsame h
  | validate candidate =>
    simp only [Serves] at h
    split at h
    · subst h; exact ⟨List.Subset.refl _, List.subset_append_left _ _⟩
    · exact hsame h

/-- Only an update moves the aliases. -/
theorem serves_aliases {request : Request} {answer : Answered request}
    (h : Serves request catalog answer catalog') (hne : ∀ actions, request ≠ .updateAliases actions) :
    catalog'.aliases = catalog.aliases := by
  cases request with
  | getAlias name => exact congrArg Catalog.aliases h.1
  | existsIndex index => exact congrArg Catalog.aliases h.1
  | create index => rcases h with ⟨rfl, -⟩ | ⟨-, rfl⟩ <;> rfl
  | updateAliases actions => exact absurd rfl (hne actions)
  | build candidate => exact congrArg Catalog.aliases h
  | validate candidate =>
    simp only [Serves] at h
    rw [h, apply_ite Catalog.aliases, ite_self]

theorem Justified.mono (h : Justified first catalog index)
    (hv : catalog.validated ⊆ catalog'.validated) : Justified first catalog' index :=
  h.imp_right fun hm => hv hm

theorem Exposes.serves {request : Request} {answer : Answered request}
    (h : Exposes first catalog) (hs : Serves request catalog answer catalog')
    (hswitch : ∀ actions, request = .updateAliases actions →
      ∃ expected target, actions = switchActions expected target ∧ Justified first catalog target) :
    Exposes first catalog' := by
  obtain ⟨index, ⟨hmem, hpoint⟩, hjust⟩ := h
  obtain ⟨hi, hv⟩ := serves_grow hs
  have hkeep : catalog'.aliases = catalog.aliases → Exposes first catalog' := fun ha =>
    ⟨index, ⟨hi hmem, ha.trans hpoint⟩, hjust.mono hv⟩
  by_cases hupdate : ∃ actions, request = .updateAliases actions
  · obtain ⟨actions, rfl⟩ := hupdate
    rcases hs with ⟨rfl, -⟩ | hu
    · exact hkeep rfl
    · obtain ⟨expected, target, rfl, ht⟩ := hswitch actions rfl
      obtain ⟨-, hin, rfl⟩ := update_pointing hpoint hu
      exact ⟨target, ⟨hin, rfl⟩, ht.mono hv⟩
  · exact hkeep (serves_aliases hs fun actions he => hupdate ⟨actions, he⟩)

end Catalog

/-! ## Calls among others -/

section Among

variable {first : String} {s : Catalog}

/-- The others, and the call itself, withdraw no validation. -/
def steady : Contract Catalog where
  rely s t := s.validated ⊆ t.validated
  guar s t := s.validated ⊆ t.validated
  rely_refl _ := List.Subset.refl _
  rely_trans := List.Subset.trans

/-- Every call keeps the aliases on an index that was validated. -/
abbrev Keeps {α : Type} (first : String) (N : α → Catalog → Prop) : Rebuilding α → Catalog → Prop :=
  Routine.wp (Exposes first) steady Serves N fun _ _ => True

theorem keeps_ask {α : Type} {request : Request} {f : request.Answer → Rebuilding α}
    {N : α → Catalog → Prop}
    (hswitch : ∀ actions, request = .updateAliases actions → ∃ expected target,
      actions = switchActions expected target ∧ Justified first s target)
    (hk : ∀ s' a t, s.validated ⊆ s'.validated → Exposes first s' →
      Serves request s' (.ok a) t → Keeps first N (f a) t) :
    Keeps first N (ask request >>= f) s := by
  refine Routine.wp_request_bind (fun _ _ _ _ _ => trivial) fun s' hs hI a t ht => ?_
  have hexp : Exposes first t := hI.serves ht fun actions he => by
    obtain ⟨expected, target, ha, hj⟩ := hswitch actions he
    exact ⟨expected, target, ha, hj.mono hs⟩
  refine ⟨hexp, (serves_grow ht).2, ?_⟩
  cases a with
  | ok v => exact hk s' v t hs hI ht
  | error e => trivial

theorem keeps_throw {α β : Type} {N : β → Catalog → Prop} {error : RebuildError}
    {f : α → Rebuilding β} : Keeps first N (throw error >>= f) s := by
  simp [Keeps]

theorem keeps_pure {α : Type} {N : α → Catalog → Prop} {a : α}
    (h : ∀ t, s.validated ⊆ t.validated → N a t) : Keeps first N (pure a) s :=
  fun t ht _ => h t ht

theorem activeIndex_keeps :
    Keeps first (fun index t => Justified first t index) activeIndex s := by
  refine keeps_ask (fun _ h => by cases h) fun s₁ read t₁ _ hI₁ h₁ => ?_
  refine keeps_ask (fun _ h => by cases h) fun s₂ write t₂ h₁₂ _ h₂ => ?_
  -- what the read alias showed is justified, whatever the write alias shows later
  obtain ⟨index, ⟨-, hpoint⟩, hj⟩ := hI₁
  obtain ⟨rfl, hread⟩ := h₁
  have hr : read = [(index, none)] := by
    rcases hread with hread | ⟨_, hread⟩
    · injection hread with hread; rw [hread, hpoint]; rfl
    · cases hread
  obtain ⟨rfl, -⟩ := h₂
  subst hr
  dsimp only
  split
  · exact keeps_throw
  split
  · exact keeps_throw
  exact keeps_pure fun t ht => hj.mono (List.Subset.trans h₁₂ ht)

/-- A callee that keeps the aliases may raise; after it `index` is still justified. -/
theorem keeps_call {α β : Type} {m : Rebuilding α} {f : α → Rebuilding β}
    {N : α → Catalog → Prop} {M : β → Catalog → Prop} {index : String} (hm : Keeps first N m s)
    (hj : Justified first s index)
    (hf : ∀ a t, N a t → Justified first t index → Keeps first M (f a) t) :
    Keeps first M (m >>= f) s :=
  Routine.wp_call hm hj (fun _ _ hv h => h.mono hv) (fun _ _ hv h => h.mono hv) hf
    fun _ _ _ _ => trivial

theorem switchAliases_keeps {expected target : String} (h : Justified first s target) :
    Keeps first (fun _ _ => True) (switchAliases expected target) s := by
  unfold switchAliases
  refine keeps_call activeIndex_keeps h fun active t _ h => ?_
  split
  · exact keeps_throw
  refine keeps_ask (fun _ h => by cases h) fun t₁ present t₂ ht₁ _ h₂ => ?_
  have hj₁ := h.mono ht₁
  have hj₂ := hj₁.mono (serves_grow h₂).2
  split
  · exact keeps_throw
  refine keeps_ask (fun actions ha => ?_) fun t₃ acknowledged t₄ _ _ _ => ?_
  · injection ha with ha
    exact ⟨expected, target, ha.symm, hj₂⟩
  split
  · exact keeps_throw
  refine Routine.wp_bind.2 (Routine.wp_mono activeIndex_keeps (fun active t _ => ?_) fun _ _ _ => trivial)
  split
  · exact fun _ _ _ => trivial
  · exact fun _ _ _ => trivial

theorem createCandidate_keeps {schema : LexicalIndexSchema} {schemaVersion : String} :
    Keeps first (fun _ _ => True) (schema.createCandidate schemaVersion) s := by
  unfold createCandidate
  cases schema.indexName schemaVersion with
  | error e => exact keeps_throw
  | ok index =>
    refine keeps_ask (fun _ h => by cases h) fun _ present _ _ _ _ => ?_
    split
    · exact keeps_throw
    · exact keeps_ask (fun _ h => by cases h) fun _ _ _ _ _ _ _ _ _ => trivial

theorem compensate_keeps {previous candidate : String} {error : RebuildError}
    (h : Justified first s previous) :
    Keeps first (fun _ _ => True) (compensate previous candidate error) s := by
  unfold compensate
  refine keeps_call activeIndex_keeps h fun active t _ h => ?_
  split
  · refine Routine.wp_bind.2 (Routine.wp_mono (switchAliases_keeps h) (fun _ _ _ => ?_)
      fun _ _ _ => trivial)
    exact fun _ _ _ => trivial
  · exact fun _ _ _ => trivial

/-- A rebuild hands out a switch whose indices were validated. -/
theorem rebuild_keeps {schema : LexicalIndexSchema} {schemaVersion : String} :
    Keeps first (fun switch t => Justified first t switch.previousIndex ∧
      Justified first t switch.currentIndex) (rebuild schema schemaVersion) s := by
  unfold rebuild
  refine Routine.wp_bind.2 (Routine.wp_mono activeIndex_keeps (fun previous t₀ h₀ => ?_)
    fun _ _ _ => trivial)
  refine keeps_call createCandidate_keeps h₀ fun candidate t₁ _ h₁ => ?_
  refine keeps_ask (fun _ h => by cases h) fun t₂ _ t₃ ht₂ _ h₃ => ?_
  refine keeps_ask (fun _ h => by cases h) fun t₄ valid t₅ ht₄ _ h₅ => ?_
  have hprevious : Justified first t₅ previous :=
    (((h₁.mono ht₂).mono (serves_grow h₃).2).mono ht₄).mono (serves_grow h₅).2
  cases valid with
  | false => exact keeps_throw
  | true =>
    have hcandidate : Justified first t₅ candidate := by
      simp only [Serves] at h₅
      subst h₅
      exact .inr (List.mem_append_right _ (List.mem_singleton_self _))
    have hswitch : Keeps first (fun _ t => Justified first t candidate)
        (tryCatch (switchAliases previous candidate) (compensate previous candidate)) t₅ := by
      have hframe := Routine.wp_frame (F := fun t => Justified first t previous ∧
        Justified first t candidate) (@switchAliases_keeps _ _ previous _ hcandidate)
        ⟨hprevious, hcandidate⟩ (fun _ _ hv h => ⟨h.1.mono hv, h.2.mono hv⟩)
        fun _ _ hv h => ⟨h.1.mono hv, h.2.mono hv⟩
      refine Routine.wp_tryCatch.2 (Routine.wp_mono hframe (fun _ _ h => h.2.2) fun error t h => ?_)
      exact Routine.wp_mono (Routine.wp_frame (compensate_keeps h.2.1) h.2.2
        (fun _ _ hv h => h.mono hv) fun _ _ hv h => h.mono hv) (fun _ _ h => h.2)
        fun _ _ _ => trivial
    refine keeps_call hswitch hprevious fun _ t hc hp => ?_
    exact keeps_pure fun t' ht => ⟨hp.mono ht, hc.mono ht⟩

end Among

/-! ## A call while no one else moves the aliases -/

section Alone

/-- The others leave the aliases and withdraw no index; the budget is the call's own. -/
def alone : Contract (Catalog × ℕ) where
  rely s t := t.1.aliases = s.1.aliases ∧ s.1.indices ⊆ t.1.indices ∧ t.2 = s.2
  guar _ _ := True
  rely_refl _ := ⟨rfl, List.Subset.refl _, rfl⟩
  rely_trans h h' := ⟨h'.1.trans h.1, List.Subset.trans h.2.1 h'.2.1, h'.2.2.trans h.2.2⟩

/-- The aliases are on `index`, the indices of `known` exist, and `n` calls may still fail. -/
structure At (known : List String) (index : String) (n : ℕ) (s : Catalog × ℕ) : Prop where
  aliases : s.1.aliases = pointing index
  known : known ⊆ s.1.indices
  left : s.2 = n

/-- One of the `n` failures was met and left the aliases on `index`. -/
def Spent (known : List String) (index : String) (n : ℕ) (s : Catalog × ℕ) : Prop :=
  ∃ m, n = m + 1 ∧ At known index m s

/-- The precondition of a call on its own. -/
abbrev Solo {α : Type} (N : α → Catalog × ℕ → Prop) (E : RebuildError → Catalog × ℕ → Prop) :
    Rebuilding α → Catalog × ℕ → Prop :=
  Routine.wp (fun _ => True) alone (System.budgeted Serves failures) N E

variable {α : Type} {known : List String} {index : String} {n : ℕ} {s t : Catalog × ℕ}
  {N : α → Catalog × ℕ → Prop} {E : RebuildError → Catalog × ℕ → Prop}

theorem At.rely (h : At known index n s) (ht : alone.rely s t) : At known index n t :=
  ⟨ht.1.trans h.aliases, List.Subset.trans h.known ht.2.1, ht.2.2.trans h.left⟩

theorem Spent.rely (h : Spent known index n s) (ht : alone.rely s t) : Spent known index n t := by
  obtain ⟨m, hm, hat⟩ := h
  exact ⟨m, hm, hat.rely ht⟩

/-- A request that leaves the catalog as it is: it answers, or it spends a failure. -/
theorem solo_ask {request : Request} {f : request.Answer → Rebuilding α}
    (hquiet : ∀ s a t, Serves request s a t → t = s)
    (hok : ∀ a, failures request (.ok a) = 0) (hfail : ∀ e, failures request (.error e) = 1)
    (hE : ∀ e s t, alone.rely s t → E e s → E e t) (h : At known index n s)
    (hN : ∀ a t, At known index n t → Serves request t.1 (.ok a) t.1 → Solo N E (f a) t)
    (hspent : ∀ e t, Spent known index n t → E e t) : Solo N E (ask request >>= f) s := by
  refine Routine.wp_request_bind hE fun s' hs _ a t ht => ⟨trivial, trivial, ?_⟩
  have hat := h.rely hs
  obtain ⟨hserve, hcost⟩ := ht
  have hsame := hquiet _ _ _ hserve
  cases a with
  | ok a =>
    rw [hok] at hcost
    have ht : At known index n t := ⟨hsame ▸ hat.aliases, hsame ▸ hat.known, by
      have := hat.left; omega⟩
    exact hN a t ht (hsame ▸ hserve)
  | error e =>
    rw [hfail] at hcost
    exact hspent e t ⟨t.2, by have := hat.left; omega, hsame ▸ hat.aliases, hsame ▸ hat.known, rfl⟩

theorem activeIndex_solo (h : At known index n s) :
    Solo (fun active t => active = index ∧ At known index n t) (fun _ t => Spent known index n t)
      activeIndex s := by
  have hE : ∀ (_ : RebuildError) (s t : Catalog × ℕ), alone.rely s t → Spent known index n s →
      Spent known index n t := fun _ _ _ hr hs => hs.rely hr
  refine solo_ask (fun _ _ _ hs => hs.1) (fun _ => rfl) (fun _ => rfl) hE h
    (fun read t₁ h₁ hread => ?_) fun _ _ hs => hs
  refine solo_ask (fun _ _ _ hs => hs.1) (fun _ => rfl) (fun _ => rfl) hE h₁
    (fun write t₂ h₂ hwrite => ?_) fun _ _ hs => hs
  have hr : read = [(index, none)] := by
    rcases hread.2 with heq | ⟨_, heq⟩
    · injection heq with heq; rw [heq, h₁.aliases]; rfl
    · cases heq
  have hw : write = [(index, some true)] := by
    rcases hwrite.2 with heq | ⟨_, heq⟩
    · injection heq with heq; rw [heq, h₂.aliases]; rfl
    · cases heq
  subst hr hw
  have hdone : Solo (fun active t => active = index ∧ At known index n t)
      (fun _ t => Spent known index n t) (pure index) t₂ := fun t ht _ => ⟨rfl, h₂.rely ht⟩
  simpa using hdone

theorem solo_pure {a : α} (hN : ∀ t, alone.rely s t → N a t) : Solo N E (pure a) s :=
  fun t ht _ => hN t ht

theorem solo_throw {β : Type} {f : β → Rebuilding α} {error : RebuildError}
    (hE : ∀ t, alone.rely s t → E error t) : Solo N E (throw error >>= f) s :=
  Routine.wp_bind.2 fun t ht _ => hE t ht

/-- Where a switch that fails may leave the aliases. -/
def Undecided (known : List String) (expected target : String) (n : ℕ) (s : Catalog × ℕ) : Prop :=
  Spent known expected n s ∨ Spent known target n s

theorem Undecided.rely {expected target : String} (h : Undecided known expected target n s)
    (ht : alone.rely s t) : Undecided known expected target n t :=
  h.imp (fun h => h.rely ht) fun h => h.rely ht

theorem failures_update {actions : List AliasAction} {answer : Answered (.updateAliases actions)}
    (h : answer ≠ .ok true) : failures (.updateAliases actions) answer = 1 := by
  cases answer with
  | error e => rfl
  | ok acknowledged =>
    cases acknowledged with
    | false => rfl
    | true => exact absurd rfl h

/-- **A switch moves the aliases, or it spends a failure.** -/
theorem switchAliases_solo {expected target : String} (h : At known expected n s)
    (htarget : target ∈ known) :
    Solo (fun _ t => At known target n t) (fun _ t => Undecided known expected target n t)
      (switchAliases expected target) s := by
  have hE : ∀ (_ : RebuildError) (s t : Catalog × ℕ), alone.rely s t →
      Undecided known expected target n s → Undecided known expected target n t :=
    fun _ _ _ hr hs => hs.rely hr
  unfold switchAliases
  refine Routine.wp_bind.2 (Routine.wp_mono (activeIndex_solo h) ?_ fun _ _ hs => .inl hs)
  rintro active t₁ ⟨rfl, h₁⟩
  rw [if_neg (not_not.2 rfl)]
  refine solo_ask (fun _ _ _ hs => hs.1) (fun _ => rfl) (fun _ => rfl) hE h₁
    (fun present t₂ h₂ hpresent => ?_) fun _ _ hs => .inl hs
  have hin : target ∈ t₂.1.indices := h₂.known htarget
  have hp : present = true := by
    rcases hpresent.2 with heq | ⟨_, heq⟩
    · injection heq with heq; simpa [hin] using heq
    · cases heq
  subst hp
  rw [if_neg (by decide)]
  refine Routine.wp_request_bind hE fun s₃ hs₃ _ a t₃ ht₃ => ⟨trivial, trivial, ?_⟩
  have h₃ := h₂.rely hs₃
  obtain ⟨hserve, hcost⟩ := ht₃
  have hleft := h₃.left
  -- the update took effect or it did not; the answer says so only where it is `true`
  have hmoved : t₃.1 = s₃.1 ∧ a ≠ .ok true ∨ t₃.1.aliases = pointing target ∧
      known ⊆ t₃.1.indices := by
    rcases hserve with hsame | hu
    · exact .inl hsame
    · obtain ⟨-, -, heq⟩ := update_pointing h₃.aliases hu
      rw [heq]
      exact .inr ⟨rfl, h₃.known⟩
  have hundecided : a ≠ .ok true → Undecided known active target n t₃ := by
    intro ha
    have hone := failures_update ha
    have hn : n = t₃.2 + 1 := by omega
    rcases hmoved with ⟨hsame, -⟩ | ⟨ha, hk⟩
    · exact .inl ⟨t₃.2, hn, hsame ▸ h₃.aliases, hsame ▸ h₃.known, rfl⟩
    · exact .inr ⟨t₃.2, hn, ha, hk, rfl⟩
  cases a with
  | error e => exact hundecided (by simp)
  | ok acknowledged =>
    cases acknowledged with
    | false => exact solo_throw fun t ht => (hundecided (by simp)).rely ht
    | true =>
      rcases hmoved with ⟨-, hne⟩ | ⟨ha, hk⟩
      · exact absurd rfl hne
      have h₄ : At known target n t₃ := ⟨ha, hk, by
        have : failures (.updateAliases (switchActions active target)) (.ok true) = 0 := rfl
        omega⟩
      refine Routine.wp_bind.2 (Routine.wp_mono (activeIndex_solo h₄) ?_ fun _ _ hs => .inr hs)
      rintro final t₅ ⟨rfl, h₅⟩
      rw [if_neg (not_not.2 rfl)]
      exact solo_pure fun t ht => h₅.rely ht

/-- With no failure left, a switch that failed is undone where it took effect. -/
theorem compensate_solo {previous candidate active : String} {error : RebuildError}
    (h : At known active 0 s) (hactive : active = previous ∨ active = candidate)
    (hne : previous ≠ candidate) (hprevious : previous ∈ known) :
    Solo (fun _ _ => False) (fun _ t => At known previous 0 t) (compensate previous candidate error)
      s := by
  have hspent : ∀ index t, ¬Spent known index 0 t := by
    rintro index t ⟨m, hm, -⟩
    omega
  unfold compensate
  refine Routine.wp_bind.2 (Routine.wp_mono (activeIndex_solo h) ?_
    fun _ t hs => absurd hs (hspent _ t))
  rintro active' t₁ ⟨rfl, h₁⟩
  rcases hactive with rfl | rfl
  · rw [if_neg hne]
    exact fun t ht _ => h₁.rely ht
  · rw [if_pos rfl]
    refine Routine.wp_bind.2 (Routine.wp_mono (switchAliases_solo h₁ hprevious) (fun _ t₂ h₂ => ?_)
      fun _ t hs => hs.elim (fun h => absurd h (hspent _ t)) fun h => absurd h (hspent _ t))
    exact fun t ht _ => h₂.rely ht

theorem createCandidate_solo {schema : LexicalIndexSchema} {schemaVersion : String}
    (h : At known index n s) :
    Solo (fun candidate t => candidate ∉ known ∧ At (candidate :: known) index n t)
      (fun _ t => ∃ m, At known index m t) (schema.createCandidate schemaVersion) s := by
  have hE : ∀ (_ : RebuildError) (s t : Catalog × ℕ), alone.rely s t →
      (∃ m, At known index m s) → ∃ m, At known index m t :=
    fun _ _ _ hr ⟨m, hs⟩ => ⟨m, hs.rely hr⟩
  unfold createCandidate
  cases schema.indexName schemaVersion with
  | error e => exact fun t ht _ => ⟨n, h.rely ht⟩
  | ok candidate =>
    refine solo_ask (fun _ _ _ hs => hs.1) (fun _ => rfl) (fun _ => rfl) hE h
      (fun present t₁ h₁ hpresent => ?_) fun _ _ ⟨m, _, hs⟩ => ⟨m, hs⟩
    cases present with
    | true => exact solo_throw fun t ht => ⟨n, h₁.rely ht⟩
    | false =>
      have hfresh : candidate ∉ known := by
        intro hmem
        have hin := h₁.known hmem
        rcases hpresent.2 with heq | ⟨_, heq⟩
        · injection heq with heq; simp [hin] at heq
        · cases heq
      refine Routine.wp_request_bind hE fun s₂ hs₂ _ a t₂ ht₂ => ⟨trivial, trivial, ?_⟩
      have h₂ := h₁.rely hs₂
      obtain ⟨hserve, hcost⟩ := ht₂
      have haliases : t₂.1.aliases = pointing index :=
        (serves_aliases hserve fun _ h => by cases h).trans h₂.aliases
      have hindices := List.Subset.trans h₂.known (serves_grow hserve).1
      cases a with
      | error e => exact ⟨t₂.2, haliases, hindices, rfl⟩
      | ok _ =>
        rcases hserve with ⟨-, _, heq⟩ | ⟨-, heq⟩
        · cases heq
        · have hmem : candidate ∈ t₂.1.indices := by rw [heq]; simp
          have hleft : t₂.2 = n := by
            have := h₂.left
            change s₂.2 = t₂.2 + 0 at hcost
            omega
          have h₃ : At (candidate :: known) index n t₂ :=
            ⟨haliases, List.cons_subset.2 ⟨hmem, hindices⟩, hleft⟩
          exact solo_pure fun t ht => ⟨hfresh, h₃.rely ht⟩

/-- What the caller's own functions do is not a catalog call. -/
theorem solo_caller {request : Request} {f : request.Answer → Rebuilding α}
    (hfree : ∀ a, failures request a = 0)
    (hne : ∀ actions, request ≠ .updateAliases actions)
    (hE : ∀ e s t, alone.rely s t → E e s → E e t) (h : At known index n s)
    (hN : ∀ a t, At known index n t → Solo N E (f a) t)
    (hraise : ∀ e t, At known index n t → E e t) : Solo N E (ask request >>= f) s := by
  refine Routine.wp_request_bind hE fun s' hs _ a t ht => ⟨trivial, trivial, ?_⟩
  have hat := h.rely hs
  obtain ⟨hserve, hcost⟩ := ht
  rw [hfree] at hcost
  have ht : At known index n t :=
    ⟨(serves_aliases hserve hne).trans hat.aliases, List.Subset.trans hat.known (serves_grow hserve).1, by
      have := hat.left; omega⟩
  cases a with
  | ok a => exact hN a t ht
  | error e => exact hraise e t ht

/-- **A rebuild that raises after at most one failure leaves the aliases where they were.** -/
theorem rebuild_solo {schema : LexicalIndexSchema} {schemaVersion : String}
    (h : At [index] index 1 s) :
    Solo (fun _ _ => True) (fun _ t => t.1.aliases = pointing index)
      (rebuild schema schemaVersion) s := by
  have hE : ∀ (_ : RebuildError) (s t : Catalog × ℕ), alone.rely s t →
      s.1.aliases = pointing index → t.1.aliases = pointing index :=
    fun _ _ _ hr hs => hr.1.trans hs
  unfold rebuild
  refine Routine.wp_bind.2 (Routine.wp_mono (activeIndex_solo h) ?_
    fun _ _ ⟨_, _, hs⟩ => hs.aliases)
  rintro previous t₁ ⟨rfl, h₁⟩
  refine Routine.wp_bind.2 (Routine.wp_mono (createCandidate_solo h₁) ?_
    fun _ _ ⟨_, hs⟩ => hs.aliases)
  rintro candidate t₂ ⟨hfresh, h₂⟩
  have hne : previous ≠ candidate := fun he => hfresh (he ▸ List.mem_singleton_self _)
  refine solo_caller (fun _ => rfl) (fun _ h => by cases h) hE h₂
    (fun _ t₃ h₃ => ?_) fun _ _ hs => hs.aliases
  refine solo_caller (fun _ => rfl) (fun _ h => by cases h) hE h₃
    (fun valid t₄ h₄ => ?_) fun _ _ hs => hs.aliases
  cases valid with
  | false => exact solo_throw fun t ht => ht.1.trans h₄.aliases
  | true =>
    refine Routine.wp_bind.2 (Routine.wp_tryCatch.2 (Routine.wp_mono
      (switchAliases_solo h₄ List.mem_cons_self) (fun _ t₅ _ => ?_) fun error t₅ h₅ => ?_))
    · exact fun _ _ _ => trivial
    · -- the one failure is spent: the handler meets none
      have hspent : ∃ active, (active = previous ∨ active = candidate) ∧
          At [candidate, previous] active 0 t₅ := by
        rcases h₅ with ⟨m, hm, hs⟩ | ⟨m, hm, hs⟩
        · exact ⟨previous, .inl rfl, (by omega : m = 0) ▸ hs⟩
        · exact ⟨candidate, .inr rfl, (by omega : m = 0) ▸ hs⟩
      obtain ⟨active, hactive, hs⟩ := hspent
      exact Routine.wp_mono (compensate_solo hs hactive hne (by simp)) (fun _ _ hf => hf.elim)
        fun _ _ hs => hs.aliases

end Alone

/-! ## Any number of calls -/

section Calls

variable {catalog : LexicalIndexSchema} {first : String} {others : List String} {calls calls' : Calls}

/-- What a call hands out: a switch between justified indices. -/
def Handed (first : String) (_ : Call) : Outcome → Catalog → Prop :=
  Routine.outcome (fun switch? t => ∀ switch, switch? = some switch →
    t.Justified first switch.previousIndex ∧ t.Justified first switch.currentIndex) fun _ _ => True

theorem body_keeps {call : Call} {s : Catalog}
    (h : ∀ switch, call = .rollback switch → s.Justified first switch.previousIndex) :
    Process.wp (Exposes first) steady Serves (Handed first call) (call.body catalog).run s := by
  cases call with
  | rebuild schemaVersion =>
    have hmap : Call.body catalog (.rebuild schemaVersion) =
        rebuild catalog schemaVersion >>= fun switch => pure (some switch) :=
      map_eq_pure_bind _ _
    rw [hmap]
    refine Routine.wp_bind.2 (Routine.wp_mono rebuild_keeps (fun switch t ht => ?_)
      fun _ _ _ => trivial)
    intro t' hv _ switch' heq
    cases heq
    exact ⟨ht.1.mono hv, ht.2.mono hv⟩
  | rollback switch =>
    refine Routine.wp_bind.2 (Routine.wp_mono (switchAliases_keeps (h switch rfl))
      (fun _ t _ => ?_) fun _ _ _ => trivial)
    intro t' _ _ switch' heq
    cases heq

/-- In every pool that is reached, each call keeps what it must. -/
theorem calls_safe (hr : (rebuilds catalog (Restores first)).Reaches
    ⟨Catalog.initial first others, []⟩ calls) :
    System.Safe (rebuilds catalog (Restores first)) (Exposes first) (fun _ => steady) (Handed first)
      calls := by
  have h0 : Exposes first (Catalog.initial first others) :=
    ⟨first, ⟨List.mem_cons_self, rfl⟩, .inl rfl⟩
  refine (System.safe_nil h0).reaches (fun pool call hmay hsafe => ⟨?_, ?_⟩) hr
  · refine body_keeps fun switch he => ?_
    subst he
    exact hmay
  · exact fun _ _ _ _ => ⟨fun _ _ h => h, fun _ _ h => h⟩

/-- The other threads withdraw no index. -/
theorem step_indices {move : Move Call Request Answered} {may : Calls → Call → Prop}
    (h : (rebuilds catalog may).Step calls move calls') :
    calls.server.indices ⊆ calls'.server.indices := by
  cases h with
  | serve _ hs => exact (serves_grow hs).1
  | start _ => exact List.Subset.refl _
  | stop _ => exact List.Subset.refl _

theorem reaches_indices {may : Calls → Call → Prop} (h : (rebuilds catalog may).Reaches calls calls') :
    calls.server.indices ⊆ calls'.server.indices := by
  induction h with
  | refl => exact List.Subset.refl _
  | tail _ hstep ih =>
    obtain ⟨move, hstep⟩ := hstep
    exact List.Subset.trans ih (step_indices hstep)

/-- **Blue-green rebuilds are safe.** Whatever rebuilds and rollbacks to a justified index run side
by side, the aliases are on one index, which is justified; a rebuild hands out switches that may
be rolled back; and a rebuild that raises after at most one failed catalog call, while no one else
switched the aliases, leaves them where they were when it started. -/
theorem rebuilds_safe (hr : (rebuilds catalog (Restores first)).Reaches
    ⟨Catalog.initial first others, []⟩ calls) :
    Exposes first calls.server ∧
    (∀ i version switch, System.Runs calls i (.rebuild version) (.done (.ok (some switch))) →
      Restores first calls (.rollback switch)) ∧
    ∀ i version log calls' error,
      System.Runs calls i (.rebuild version)
        ((rebuilds catalog (Restores first)).body (.rebuild version)) →
      System.Meanwhile (rebuilds catalog (Restores first)) i SameAliases calls log calls' →
      System.Runs calls' i (.rebuild version) (.done (.error error)) →
      System.total failures log ≤ 1 →
      ∃ index, calls.server.Points index ∧ calls'.server.Points index := by
  have hsafe := calls_safe hr
  refine ⟨hsafe.inv, fun i version switch hi => ?_, fun i version log calls' error hi hmean hend
    hcost => ?_⟩
  · exact (hsafe.wp i _ _ hi _ (List.Subset.refl _) hsafe.inv switch rfl).1
  · obtain ⟨index, ⟨hmem, hpoint⟩, -⟩ := hsafe.inv
    have hbody : Process.wp (fun _ => True) alone (System.budgeted Serves failures)
        (Routine.outcome (fun _ _ => True) fun _ t => t.1.aliases = pointing index)
        ((rebuilds catalog (Restores first)).body (.rebuild version)) (calls.server, 1) := by
      have hmap : Call.body catalog (.rebuild version) =
          rebuild catalog version >>= fun switch => pure (some switch) := map_eq_pure_bind _ _
      have hat : At [index] index 1 (calls.server, 1) :=
        ⟨hpoint, List.cons_subset.2 ⟨hmem, List.nil_subset _⟩, rfl⟩
      change Routine.wp _ _ _ _ _ (Call.body catalog (.rebuild version)) _
      rw [hmap]
      exact Routine.wp_bind.2 (Routine.wp_mono (rebuild_solo hat)
        (fun _ _ _ _ _ _ => trivial) fun _ _ h => h)
    have hgrow : System.Meanwhile (rebuilds catalog (Restores first)) i
        (fun s t => SameAliases s t ∧ s.indices ⊆ t.indices) calls log calls' :=
      hmean.mono fun _ _ _ hstep he => ⟨he, step_indices hstep⟩
    obtain ⟨rest, hrest, -, hwp⟩ := hgrow.wp_budgeted (C := alone)
      (fun _ _ _ he => ⟨⟨he.1, he.2, rfl⟩, id⟩) hi trivial hbody hcost
    have heq := hrest.symm.trans hend
    injection heq with heq
    injection heq with _ heq
    injection heq with heq
    subst heq
    exact ⟨index, ⟨hmem, hpoint⟩, reaches_indices hmean.reaches hmem,
      hwp _ (alone.rely_refl _) trivial⟩

/-! ## Runs -/

/-- A cluster that does what it is asked, except that the acknowledgement of an update whose
result `lost` is true of gets lost. -/
def answering (lost : Catalog → Bool) : (request : Request) → Catalog → Answered request × Catalog
  | .getAlias name, s => (.ok (s.aliases name), s)
  | .existsIndex index, s => (.ok (decide (index ∈ s.indices)), s)
  | .create index, s =>
    if index ∈ s.indices then (.error (.raised "resource_already_exists_exception"), s)
    else (.ok (), { s with indices := s.indices ++ [index] })
  | .updateAliases actions, s =>
    match s.update actions with
    | none => (.error (.raised "aliases_not_found_exception"), s)
    | some t => (if lost t then .error (.raised "acknowledgment lost after alias switch") else .ok true, t)
  | .build _, s => (.ok (), s)
  | .validate candidate, s => (.ok true, { s with validated := s.validated ++ [candidate] })

theorem serves_answering {lost : Catalog → Bool} (request : Request) (s : Catalog) :
    Serves request s (answering lost request s).1 (answering lost request s).2 := by
  cases request with
  | getAlias name => exact ⟨rfl, .inl rfl⟩
  | existsIndex index => exact ⟨rfl, .inl rfl⟩
  | create index =>
    simp only [answering]
    split
    · exact .inl ⟨rfl, _, rfl⟩
    · exact .inr ⟨by assumption, rfl⟩
  | updateAliases actions =>
    simp only [answering]
    split
    · exact .inl ⟨rfl, by simp⟩
    · exact .inr (by assumption)
  | build candidate => exact rfl
  | validate candidate => rfl

/-- A pool with one call that has just started. -/
def single (catalog : LexicalIndexSchema) (call : Call) (s : Catalog) : Calls :=
  ⟨s, [⟨call, some (call.body catalog).run⟩]⟩

/-- What a call that runs alone returns and leaves. -/
def afterAlone (catalog : LexicalIndexSchema) (lost : Catalog → Bool) (call : Call) (s : Catalog) :
    Outcome × Catalog :=
  (call.body catalog).run.solve (answering lost) s

theorem reaches_single {may : Calls → Call → Prop} {s : Catalog} {call : Call}
    (hmay : may ⟨s, []⟩ call) : (rebuilds catalog may).Reaches ⟨s, []⟩ (single catalog call s) :=
  .single ⟨_, .start hmay⟩

theorem meanwhile_single {may : Calls → Call → Prop} {s : Catalog} {call : Call}
    (lost : Catalog → Bool) :
    (rebuilds catalog may).Meanwhile 0 SameAliases (single catalog call s)
      ((call.body catalog).run.answers (answering lost) s)
      ⟨(afterAlone catalog lost call s).2,
        [⟨call, some (.done (afterAlone catalog lost call s).1)⟩]⟩ :=
  System.meanwhile_solve (fun request s => @serves_answering lost request s) .start
    (rfl : System.Runs (single catalog call s) 0 call _)

/-- A rollback that a caller made up exposes an index that never passed validation. -/
theorem rollback_unvalidated : ¬∀ (catalog : LexicalIndexSchema) (first : String)
    (others : List String) (calls : Calls),
    (rebuilds catalog fun _ _ => True).Reaches ⟨Catalog.initial first others, []⟩ calls →
      Exposes first calls.server := by
  intro h
  have hr := (@reaches_single ⟨"lexical", Char.isDigit⟩ (fun _ _ => True)
    (Catalog.initial "lexical-v1" ["lexical-v2"]) (.rollback ⟨"lexical-v2", "lexical-v1"⟩)
    trivial).trans (meanwhile_single fun _ => false).reaches
  obtain ⟨index, ⟨-, hpoint⟩, hjust⟩ := h _ _ _ _ hr
  have hread : (afterAlone ⟨"lexical", Char.isDigit⟩ (fun _ => false)
      (.rollback ⟨"lexical-v2", "lexical-v1"⟩)
      (Catalog.initial "lexical-v1" ["lexical-v2"])).2.aliases .read = [("lexical-v2", none)] := by
    decide +kernel
  have hvalidated : (afterAlone ⟨"lexical", Char.isDigit⟩ (fun _ => false)
      (.rollback ⟨"lexical-v2", "lexical-v1"⟩)
      (Catalog.initial "lexical-v1" ["lexical-v2"])).2.validated = [] := by decide +kernel
  have hindex : index = "lexical-v2" := by
    have hboth := hread.symm.trans (congrFun hpoint .read)
    simp only [pointing, List.cons.injEq, Prod.mk.injEq] at hboth
    exact hboth.1.1.symm
  rcases hjust with he | hm
  · rw [hindex] at he
    exact absurd he (by decide)
  · exact absurd (hvalidated ▸ hm : index ∈ []) List.not_mem_nil

/-- Where the acknowledgement of its switch gets lost, a rebuild goes back to the index it found. -/
theorem rebuilds_safe_lost_acknowledgement :
    ∃ index, (Catalog.initial "lexical-v1" []).Points index ∧
      (afterAlone ⟨"lexical", Char.isDigit⟩
        (fun t => t.aliases .read = [("lexical-v2", none)]) (.rebuild "2")
        (Catalog.initial "lexical-v1" [])).2.Points index := by
  have hend : (afterAlone ⟨"lexical", Char.isDigit⟩
      (fun t => t.aliases .read = [("lexical-v2", none)]) (.rebuild "2")
      (Catalog.initial "lexical-v1" [])).1 =
        .error (.raised "acknowledgment lost after alias switch") := by decide +kernel
  have hreaches : (rebuilds ⟨"lexical", Char.isDigit⟩ (Restores "lexical-v1")).Reaches
      ⟨Catalog.initial "lexical-v1" [], []⟩ (single ⟨"lexical", Char.isDigit⟩ (.rebuild "2")
        (Catalog.initial "lexical-v1" [])) := reaches_single trivial
  refine (rebuilds_safe hreaches).2.2 0 "2" _ _ (.raised "acknowledgment lost after alias switch")
    rfl (meanwhile_single fun t => t.aliases .read = [("lexical-v2", none)]) ?_ ?_
  · exact congrArg (fun x => some (⟨Call.rebuild "2", some (Process.done x)⟩ :
      Thread Call Request Answered Outcome)) hend
  · decide +kernel

end Calls

end GroundedOps.Indexing
