import GroundedOps.Spec.IndexCalls
import GroundedOps.Proof.IndexWriter

/-!
# At most one current version of a document

* `IndexOk`: no two current versions, and every entry under an id of its version. Each request
  of a call keeps it, whatever part of the request is done.
* `IndexCall.contract`: an upsert touches its own document only, and needs that the others add
  nothing to it. A removal only removes.
* `upsert_keeps`, `upsert_exact`: an upsert among others, and what it leaves when it returns.
-/

namespace GroundedOps.Ingestion

open Process OpenSearchIndexWriter

/-! ## The requests on the index -/

namespace Index

variable {index : Index} {projection : VersionProjection} {query : IndexEntry → Bool}
  {isCurrent : Bool} {tenantId documentId : String}

/-- A flag request leaves the documents that its query does not match. -/
theorem sameDocument_flag (hq : ∀ entry, query entry = true → ofDocument projection entry = true)
    (hne : ¬(tenantId = projection.tenantId ∧ documentId = projection.documentId)) :
    SameDocument tenantId documentId index (index.flag query isCurrent) := by
  intro entry ht hd
  have hout : ∀ old : IndexEntry, old.tenantId = tenantId → old.documentId = documentId →
      query old = false := by
    intro old ht hd
    by_contra hcon
    have hdoc := ofDocument_iff.1 (hq old (by simpa using hcon))
    exact hne ⟨ht ▸ hdoc.1, hd ▸ hdoc.2⟩
  constructor
  · intro he
    obtain ⟨old, hold, hsame, hcase⟩ := exists_of_mem_flag he
    have hold' := hout old (hsame.tenantId ▸ ht) (hsame.documentId ▸ hd)
    rcases hcase with ⟨hm, -⟩ | ⟨-, rfl⟩
    · rw [hold'] at hm; cases hm
    · exact hold
  · intro he
    exact mem_flag.2 ⟨entry, he, if_neg (by simp [hout entry ht hd])⟩

end Index

/-! ## The invariant -/

/-- At most one current version, and every entry under an id of its version. -/
structure IndexOk (corpus : Corpus) (index : Index) : Prop where
  current : AtMostOneCurrent index
  owned : ∀ entry ∈ index,
    entry.chunkId ∈ corpus.chunkIds entry.tenantId entry.documentId entry.documentVersionId

section Requests

variable {corpus : Corpus} {s t : Index} {projection : VersionProjection}
  {tenantId documentId : String}

theorem IndexOk.empty : IndexOk corpus ∅ :=
  ⟨fun _ h => absurd h Table.not_mem_empty, fun _ h => absurd h Table.not_mem_empty⟩

/-- Removing entries keeps it. -/
theorem IndexOk.subset (h : IndexOk corpus s) (hsub : ∀ entry ∈ t, entry ∈ s) : IndexOk corpus t :=
  ⟨fun e he e' he' => h.current e (hsub e he) e' (hsub e' he'), fun e he => h.owned e (hsub e he)⟩

/-- What carries the projection's ids belongs to its version. -/
theorem IndexOk.version (h : IndexOk corpus s) (hc : corpus.Carries projection) {entry : IndexEntry}
    (he : entry ∈ s) (hid : entry.chunkId ∈ projection.chunks.map IndexChunk.chunkId) :
    entry.tenantId = projection.tenantId ∧ entry.documentId = projection.documentId ∧
      entry.documentVersionId = projection.documentVersionId :=
  corpus.unique (h.owned entry he) ((hc.chunkIds _).1 hid)

theorem IndexOk.flag_false (h : IndexOk corpus s) {query : IndexEntry → Bool} :
    IndexOk corpus (s.flag query false) := by
  have hfrom : ∀ e ∈ s.flag query false, e.isCurrent = true → e ∈ s := by
    intro e he hcur
    obtain ⟨old, hold, -, ⟨-, hfalse⟩ | ⟨-, rfl⟩⟩ := Index.exists_of_mem_flag he
    · rw [hfalse] at hcur; cases hcur
    · exact hold
  refine ⟨fun e he e' he' hc hc' => ?_, fun e he => ?_⟩
  · exact h.current e (hfrom e he hc) e' (hfrom e' he' hc') hc hc'
  · obtain ⟨old, hold, hsame, -⟩ := Index.exists_of_mem_flag he
    rw [hsame.chunkId, hsame.tenantId, hsame.documentId, hsame.documentVersionId]
    exact h.owned old hold

/-- No other version of the document is current. -/
def Cleared (projection : VersionProjection) (index : Index) : Prop :=
  ∀ entry ∈ index, Index.ofDocument projection entry = true → entry.isCurrent = true →
    entry.documentVersionId = projection.documentVersionId

/-- Entries of the version may be made current once no other version is. -/
theorem IndexOk.flag_true (h : IndexOk corpus s) (hclear : Cleared projection s)
    {query : IndexEntry → Bool} (hq : ∀ e, query e = true → isOwn projection e = true) :
    IndexOk corpus (s.flag query true) := by
  have hown : ∀ e, query e = true → e.tenantId = projection.tenantId ∧
      e.documentId = projection.documentId ∧ e.documentVersionId = projection.documentVersionId := by
    intro e he
    have := hq e he
    rw [isOwn, Bool.and_eq_true, Index.ofDocument_iff, beq_iff_eq] at this
    exact ⟨this.1.1, this.1.2, this.2⟩
  -- a current entry is one of the projection's version or an old one outside its document
  have hcur : ∀ e ∈ s.flag query true, e.isCurrent = true →
      (e.tenantId = projection.tenantId ∧ e.documentId = projection.documentId ∧
        e.documentVersionId = projection.documentVersionId) ∨
      (e ∈ s ∧ ¬(e.tenantId = projection.tenantId ∧ e.documentId = projection.documentId)) := by
    intro e he hc
    obtain ⟨old, hold, hsame, ⟨hm, -⟩ | ⟨-, rfl⟩⟩ := Index.exists_of_mem_flag he
    · rw [hsame.tenantId, hsame.documentId, hsame.documentVersionId]
      exact .inl (hown old hm)
    · by_cases hdoc : e.tenantId = projection.tenantId ∧ e.documentId = projection.documentId
      · exact .inl ⟨hdoc.1, hdoc.2, hclear e hold (Index.ofDocument_iff.2 hdoc) hc⟩
      · exact .inr ⟨hold, hdoc⟩
  refine ⟨fun e he e' he' hc hc' ht hd => ?_, fun e he => ?_⟩
  · rcases hcur e he hc with h₁ | ⟨h₁, hn₁⟩
    · rcases hcur e' he' hc' with h₂ | ⟨-, hn₂⟩
      · exact h₁.2.2.trans h₂.2.2.symm
      · exact absurd ⟨ht ▸ h₁.1, hd ▸ h₁.2.1⟩ hn₂
    · rcases hcur e' he' hc' with h₂ | ⟨h₂, -⟩
      · exact absurd ⟨ht.trans h₂.1, hd.trans h₂.2.1⟩ hn₁
      · exact h.current e h₁ e' h₂ hc hc' ht hd
  · obtain ⟨old, hold, hsame, -⟩ := Index.exists_of_mem_flag he
    rw [hsame.chunkId, hsame.tenantId, hsame.documentId, hsame.documentVersionId]
    exact h.owned old hold

/-- The entries that a bulk request accepted, of those it was sent. -/
theorem mem_accepted {items : List (IndexEntry × Bool)} {entries : List IndexEntry}
    (h : items.map Prod.fst = entries) {entry : IndexEntry}
    (he : entry ∈ (items.filter fun item => !item.2).map Prod.fst) : entry ∈ entries := by
  obtain ⟨item, hitem, rfl⟩ := List.mem_map.1 he
  rw [← h]
  exact List.mem_map_of_mem (List.mem_filter.1 hitem).1

theorem nodup_accepted {items : List (IndexEntry × Bool)} (hc : corpus.Carries projection)
    (h : items.map Prod.fst = projection.chunks.map projection.entry) :
    (((items.filter fun item => !item.2).map Prod.fst).map IndexEntry.chunkId).Nodup := by
  have hall : (items.map Prod.fst).map IndexEntry.chunkId =
      projection.chunks.map IndexChunk.chunkId := by
    rw [h, List.map_map]; rfl
  have hsub : (((items.filter fun item => !item.2).map Prod.fst).map IndexEntry.chunkId).Sublist
      ((items.map Prod.fst).map IndexEntry.chunkId) :=
    (List.filter_sublist.map Prod.fst).map IndexEntry.chunkId
  exact (hall ▸ hc.nodup : ((items.map Prod.fst).map IndexEntry.chunkId).Nodup).sublist hsub

/-- **A bulk request**, whatever it rejects, keeps the invariant and the other documents. -/
theorem IndexOk.bulk (h : IndexOk corpus s) (hc : corpus.Carries projection)
    {items : List (IndexEntry × Bool)}
    (hitems : items.map Prod.fst = projection.chunks.map projection.entry)
    (ht : t = ((items.filter fun item => !item.2).map Prod.fst).foldl Table.put s) :
    IndexOk corpus t ∧ ∀ tenantId documentId,
      ¬(tenantId = projection.tenantId ∧ documentId = projection.documentId) →
      SameDocument tenantId documentId s t := by
  subst ht
  -- what was accepted are entries of the projection, which carry its document
  have hnew : ∀ e ∈ (items.filter fun item => !item.2).map Prod.fst,
      ∃ chunk ∈ projection.chunks, e = projection.entry chunk := by
    intro e he
    obtain ⟨chunk, hchunk, heq⟩ := List.mem_map.1 (mem_accepted hitems he)
    exact ⟨chunk, hchunk, heq.symm⟩
  have hmem : ∀ e, e ∈ ((items.filter fun item => !item.2).map Prod.fst).foldl Table.put s ↔ _ :=
    fun e => Table.mem_foldl_put (nodup_accepted hc hitems)
  refine ⟨⟨fun e he e' he' hcur hcur' => ?_, fun e he => ?_⟩, fun tenantId documentId hne => ?_⟩
  · -- what is written is not current
    have hold : ∀ e, e ∈ ((items.filter fun item => !item.2).map Prod.fst).foldl Table.put s →
        e.isCurrent = true → e ∈ s := by
      intro e he hcur
      rcases (hmem e).1 he with he | he
      · obtain ⟨chunk, -, rfl⟩ := hnew e he
        cases hcur
      · exact he.1
    exact h.current e (hold e he hcur) e' (hold e' he' hcur') hcur hcur'
  · rcases (hmem e).1 he with he | he
    · obtain ⟨chunk, hchunk, rfl⟩ := hnew e he
      exact (hc.chunkIds _).1 (List.mem_map_of_mem hchunk)
    · exact h.owned e he.1
  · intro e htenant hdoc
    rw [hmem]
    constructor
    · rintro (he | he)
      · obtain ⟨chunk, -, rfl⟩ := hnew e he
        exact absurd ⟨htenant.symm, hdoc.symm⟩ hne
      · exact he.1
    · intro he
      refine .inr ⟨he, fun hid => ?_⟩
      obtain ⟨new, hnew', hid'⟩ := List.mem_map.1 hid
      obtain ⟨chunk, hchunk, rfl⟩ := hnew new hnew'
      have hown := h.version hc he (hid' ▸ List.mem_map_of_mem hchunk)
      exact hne ⟨htenant ▸ hown.1, hdoc ▸ hown.2.1⟩

end Requests

/-! ## A call among others -/

section Among

variable {corpus : Corpus} {s t : Index} {projection : VersionProjection}

/-- What a call assumes and keeps to: an upsert needs that the others add nothing to its document,
and leaves the other documents alone; a removal only removes. -/
def IndexCall.contract : IndexCall → Contract Index
  | .upsert projection =>
    { rely := fun s t => ∀ entry ∈ t, Index.ofDocument projection entry = true → entry ∈ s
      guar := fun s t => ∀ tenantId documentId,
        ¬(tenantId = projection.tenantId ∧ documentId = projection.documentId) →
        SameDocument tenantId documentId s t
      rely_refl := fun _ _ h _ => h
      rely_trans := fun h h' e he hd => h e (h' e he hd) hd }
  | .removeDocument _ _ =>
    { rely := fun _ _ => True
      guar := fun s t => ∀ entry ∈ t, entry ∈ s
      rely_refl := fun _ => trivial
      rely_trans := fun _ _ => trivial }

theorem sameDocument_refl {tenantId documentId : String} : SameDocument tenantId documentId s s :=
  fun _ _ _ => Iff.rfl

theorem sameDocument_filter {tenantId documentId : String} {p : IndexEntry → Bool}
    (h : ∀ e ∈ s, e.tenantId = tenantId → e.documentId = documentId → p e = true) :
    SameDocument tenantId documentId s (s.filter p) := fun e ht hd =>
  ⟨fun he => (Table.mem_filter.1 he).1, fun he => Table.mem_filter.2 ⟨he, h e he ht hd⟩⟩

theorem Cleared.rely (h : Cleared projection s)
    (ht : (IndexCall.upsert projection).contract.rely s t) : Cleared projection t :=
  fun e he hd hc => h e (ht e he hd) hd hc

/-- What is left current of the document after the first update. -/
theorem cleared_flag {reached : IndexEntry → Bool} (hall : reached = fun _ => true) :
    Cleared projection (s.flag (fun e => isOther projection e && reached e) false) := by
  subst hall
  intro e he hd hc
  by_contra hne
  obtain ⟨old, hold, hsame, ⟨-, hfalse⟩ | ⟨hout, rfl⟩⟩ := Index.exists_of_mem_flag he
  · rw [hfalse] at hc; cases hc
  · simp [isOther, hd, hne] at hout

abbrev UpsertKeeps (corpus : Corpus) (projection : VersionProjection) {α : Type}
    (N : α → Index → Prop) : Writing α → Index → Prop :=
  Routine.wp (IndexOk corpus) (IndexCall.upsert projection).contract IndexRequest.Serves N
    fun _ _ => True

theorem upsertKeeps_send {α : Type} {request : IndexRequest} {f : request.Answer → Writing α}
    {N : α → Index → Prop}
    (h : ∀ s' a t, (IndexCall.upsert projection).contract.rely s s' → IndexOk corpus s' →
      request.Serves s' a t →
      IndexOk corpus t ∧ (IndexCall.upsert projection).contract.guar s' t ∧
        ∀ v, a = .ok v → UpsertKeeps corpus projection N (f v) t) :
    UpsertKeeps corpus projection N (send request >>= f) s := by
  refine Routine.wp_request_bind (fun _ _ _ _ _ => trivial) fun s' hs hI a t ht => ?_
  obtain ⟨hok, hg, hf⟩ := h s' a t hs hI ht
  refine ⟨hok, hg, ?_⟩
  cases a with
  | ok v => exact hf v rfl
  | error e => trivial

/-- The request that takes back the accepted chunks. -/
theorem delete_keeps (hc : corpus.Carries projection) {ids : List String}
    (hids : ∀ id ∈ ids, id ∈ projection.chunks.map IndexChunk.chunkId) {reached : IndexEntry → Bool}
    (h : IndexOk corpus s)
    (ht : t = s.filter fun e => !(decide (e.chunkId ∈ ids) && reached e)) :
    IndexOk corpus t ∧ (IndexCall.upsert projection).contract.guar s t := by
  subst ht
  refine ⟨h.subset fun e he => (Table.mem_filter.1 he).1, fun tenantId documentId hne => ?_⟩
  refine sameDocument_filter fun e he ht hd => ?_
  have hout : e.chunkId ∉ ids := by
    intro hid
    have hown := h.version hc he (hids _ hid)
    exact hne ⟨ht ▸ hown.1, hd ▸ hown.2.1⟩
  simp [hout]

/-- A request that returned was done in full. -/
theorem reached_all {α : Type} {reached : IndexEntry → Bool} {answer : Except WriterError α} {a : α}
    (h : (reached = fun _ => true) ∨ ∃ error, answer = .error error) (ha : answer = .ok a) :
    reached = fun _ => true := by
  rcases h with hall | ⟨_, he⟩
  · exact hall
  · rw [he] at ha; cases ha

/-- The two updates of the flags. -/
theorem flags_keep : UpsertKeeps corpus projection (fun _ _ => True) (do
    let () ← send (.updateByQuery (isOther projection) false)
    let () ← send (.updateByQuery (isOwn projection) true)) s := by
  refine upsertKeeps_send fun s₁ a t₁ _ hI₁ h₁ => ?_
  obtain ⟨reached, rfl, hreached⟩ := h₁
  refine ⟨hI₁.flag_false, fun _ _ hne => Index.sameDocument_flag (fun e he => ?_) hne,
    fun v ha => ?_⟩
  · simp only [isOther, Bool.and_eq_true] at he
    exact he.1.1
  have hall := reached_all hreached ha
  have hcleared : Cleared projection (s₁.flag (fun e => isOther projection e && reached e) false) :=
    cleared_flag hall
  refine upsertKeeps_send fun s₂ b t₂ hs₂ hI₂ h₂ => ?_
  obtain ⟨reached', rfl, -⟩ := h₂
  refine ⟨hI₂.flag_true (hcleared.rely hs₂) fun e he => (Bool.and_eq_true _ _ ▸ he).1, fun _ _ hne =>
    Index.sameDocument_flag (fun e he => ?_) hne, fun _ _ _ _ _ => trivial⟩
  simp only [isOwn, Bool.and_eq_true] at he
  exact he.1.1

/-- **An upsert among other calls** keeps the invariant, request by request. -/
theorem upsert_keeps (hc : corpus.Carries projection) :
    UpsertKeeps corpus projection (fun _ _ => True) (upsert projection) s := by
  unfold upsert
  refine upsertKeeps_send fun s₁ _ t₁ _ hI₁ h₁ => ?_
  obtain rfl : t₁ = s₁ := h₁
  refine ⟨hI₁, fun _ _ _ => sameDocument_refl, fun _ _ => ?_⟩
  refine upsertKeeps_send fun s₂ a t₂ _ hI₂ h₂ => ?_
  obtain ⟨items, hitems, ht₂, hanswer⟩ := h₂
  obtain ⟨hok₂, hsame₂⟩ := hI₂.bulk hc hitems ht₂
  refine ⟨hok₂, hsame₂, fun answer ha => ?_⟩
  dsimp only
  split
  · split
    · -- some chunks were accepted: they are taken back
      refine upsertKeeps_send fun s₃ _ t₃ _ hI₃ h₃ => ?_
      obtain ⟨reached, ht₃, -⟩ := h₃
      -- the answer names chunks of this projection, so no others are deleted
      have hids : ∀ id ∈ (answer.filter fun item => !item.2).map Prod.fst,
          id ∈ projection.chunks.map IndexChunk.chunkId := by
        intro id hid
        rcases hanswer with heq | ⟨_, heq⟩
        · rw [ha] at heq
          injection heq with heq
          obtain ⟨item, hitem, rfl⟩ := List.mem_map.1 hid
          rw [heq] at hitem
          obtain ⟨source, hsource, rfl⟩ := List.mem_map.1 (List.mem_filter.1 hitem).1
          have hentry : source.1 ∈ projection.chunks.map projection.entry :=
            hitems ▸ List.mem_map_of_mem hsource
          obtain ⟨chunk, hchunk, hce⟩ := List.mem_map.1 hentry
          rw [← hce]
          exact List.mem_map_of_mem hchunk
        · rw [ha] at heq; cases heq
      obtain ⟨hok₃, hg₃⟩ := delete_keeps hc hids hI₃ ht₃
      exact ⟨hok₃, hg₃, fun _ _ => Routine.wp_bind.2 fun _ _ _ => trivial⟩
    · exact Routine.wp_bind.2 fun _ _ _ => trivial
  · exact flags_keep

theorem removeDocument_keeps {tenantId documentId : String} :
    Routine.wp (IndexOk corpus) (IndexCall.removeDocument tenantId documentId).contract
      IndexRequest.Serves (fun _ _ => True) (fun _ _ => True) (removeDocument tenantId documentId) s := by
  unfold removeDocument
  refine Routine.wp_request_bind (fun _ _ _ _ _ => trivial) fun s₁ _ hI₁ a t₁ h₁ => ?_
  obtain rfl : t₁ = s₁ := h₁
  refine ⟨hI₁, fun _ he => he, ?_⟩
  cases a with
  | error e => trivial
  | ok _ =>
    refine Routine.wp_request_bind (fun _ _ _ _ _ => trivial) fun s₂ _ hI₂ b t₂ h₂ => ?_
    obtain ⟨reached, rfl, -⟩ := h₂
    have hsub : ∀ e ∈ s₂.filter (fun e => !((e.tenantId == tenantId && e.documentId == documentId) &&
        reached e)), e ∈ s₂ := fun e he => (Table.mem_filter.1 he).1
    refine ⟨hI₂.subset hsub, hsub, ?_⟩
    cases b with
    | error e => trivial
    | ok _ => exact fun _ _ _ => trivial

theorem body_safe {call : IndexCall} (h : ∀ projection, call = .upsert projection →
    corpus.Carries projection) :
    Process.wp (IndexOk corpus) call.contract IndexRequest.Serves (fun _ _ => True)
      call.body.run s := by
  cases call with
  | upsert projection =>
    refine Process.wp_mono (upsert_keeps (h projection rfl)) fun _ _ _ => trivial
  | removeDocument tenantId documentId =>
    exact Process.wp_mono removeDocument_keeps fun _ _ _ => trivial

end Among

/-! ## What an upsert leaves -/

section Exact

variable {s t : Index} {projection : VersionProjection}

/-- The others leave the document as it is. -/
def undisturbed (projection : VersionProjection) : Contract Index where
  rely s t := SameDocument projection.tenantId projection.documentId s t
  guar _ _ := True
  rely_refl _ := sameDocument_refl
  rely_trans h h' := fun e ht hd => (h' e ht hd).trans (h e ht hd)

/-- The entries of the version are under the projection's ids. -/
def Owned (projection : VersionProjection) (index : Index) : Prop :=
  ∀ entry ∈ index, isOwn projection entry = true →
    entry.chunkId ∈ projection.chunks.map IndexChunk.chunkId

/-- The entries of the version are those of the projection. -/
def Projected (projection : VersionProjection) (index : Index) : Prop :=
  ∀ entry, isOwn projection entry = true →
    (entry ∈ index ↔ ∃ chunk ∈ projection.chunks, entry = projection.entry chunk)

theorem isOwn_iff {entry : IndexEntry} : isOwn projection entry = true ↔
    entry.tenantId = projection.tenantId ∧ entry.documentId = projection.documentId ∧
      entry.documentVersionId = projection.documentVersionId := by
  rw [isOwn, Bool.and_eq_true, Index.ofDocument_iff, beq_iff_eq, and_assoc]

theorem Owned.rely (h : Owned projection s) (ht : (undisturbed projection).rely s t) :
    Owned projection t := fun e he ho =>
  h e ((ht e (isOwn_iff.1 ho).1 (isOwn_iff.1 ho).2.1).1 he) ho

theorem Owned.flag (h : Owned projection s) {query : IndexEntry → Bool} {isCurrent : Bool} :
    Owned projection (s.flag query isCurrent) := by
  intro e he ho
  obtain ⟨old, hold, hsame, -⟩ := Index.exists_of_mem_flag he
  rw [hsame.chunkId]
  refine h old hold ?_
  rw [isOwn_iff] at ho ⊢
  rwa [hsame.tenantId, hsame.documentId, hsame.documentVersionId] at ho

theorem Projected.rely (h : Projected projection s) (ht : (undisturbed projection).rely s t) :
    Projected projection t := fun e ho =>
  (ht e (isOwn_iff.1 ho).1 (isOwn_iff.1 ho).2.1).trans (h e ho)

theorem CurrentIs.rely (h : CurrentIs projection s) (ht : (undisturbed projection).rely s t) :
    CurrentIs projection t := by
  intro e
  rw [← h e]
  constructor
  · rintro ⟨he, hd, hc⟩
    have hdoc := Index.ofDocument_iff.1 hd
    exact ⟨(ht e hdoc.1 hdoc.2).1 he, hd, hc⟩
  · rintro ⟨he, hd, hc⟩
    have hdoc := Index.ofDocument_iff.1 hd
    exact ⟨(ht e hdoc.1 hdoc.2).2 he, hd, hc⟩

theorem isOwn_entry {chunk : IndexChunk} : isOwn projection (projection.entry chunk) = true :=
  isOwn_iff.2 ⟨rfl, rfl, rfl⟩

/-- The first update leaves the version's entries as they are. -/
theorem Projected.clearOthers (h : Projected projection s) :
    Projected projection (s.flag (isOther projection) false) := by
  intro e ho
  rw [← h e ho]
  have hnot : ∀ old : IndexEntry, isOwn projection old = true → isOther projection old = false := by
    intro old hown
    simp [isOther, (isOwn_iff.1 hown).2.2]
  constructor
  · intro he
    obtain ⟨old, hold, hsame, ⟨hm, -⟩ | ⟨-, rfl⟩⟩ := Index.exists_of_mem_flag he
    · have hown : isOwn projection old = true := by
        rw [isOwn_iff] at ho ⊢
        rwa [hsame.tenantId, hsame.documentId, hsame.documentVersionId] at ho
      rw [hnot old hown] at hm
      cases hm
    · exact hold
  · exact fun he => Index.mem_flag.2 ⟨e, he, if_neg (by simp [hnot e ho])⟩

/-- **After the second update** the current entries are those of the projection. -/
theorem currentIs_flag (h : Projected projection s) (hclear : Cleared projection s) :
    CurrentIs projection (s.flag (isOwn projection) true) := by
  intro e
  constructor
  · rintro ⟨he, hd, hc⟩
    obtain ⟨old, hold, rfl⟩ := Index.mem_flag.1 he
    by_cases hown : isOwn projection old = true
    · rw [if_pos hown] at hd hc ⊢
      obtain ⟨chunk, hchunk, rfl⟩ := (h old hown).1 hold
      exact ⟨chunk, hchunk, rfl⟩
    · -- what was current already is of the version
      rw [if_neg hown] at hd hc
      have hdoc := Index.ofDocument_iff.1 hd
      exact absurd (isOwn_iff.2 ⟨hdoc.1, hdoc.2, hclear old hold hd hc⟩) hown
  · rintro ⟨chunk, hchunk, rfl⟩
    have hold := (h (projection.entry chunk) isOwn_entry).2 ⟨chunk, hchunk, rfl⟩
    refine ⟨Index.mem_flag.2 ⟨_, hold, if_pos isOwn_entry⟩, ?_, rfl⟩
    exact Index.ofDocument_iff.2 ⟨rfl, rfl⟩

variable {corpus : Corpus} {items : List (IndexEntry × Bool)}

theorem owned_bulk (h : Owned projection s) (hc : corpus.Carries projection)
    (hitems : items.map Prod.fst = projection.chunks.map projection.entry) :
    Owned projection (((items.filter fun item => !item.2).map Prod.fst).foldl Table.put s) := by
  intro e he ho
  rcases (Table.mem_foldl_put (nodup_accepted hc hitems)).1 he with he | he
  · obtain ⟨chunk, hchunk, rfl⟩ := List.mem_map.1 (mem_accepted hitems he)
    exact List.mem_map_of_mem hchunk
  · exact h e he.1 ho

/-- A bulk request that rejects nothing replaces the version's entries. -/
theorem projected_bulk (h : Owned projection s) (hc : corpus.Carries projection)
    (hitems : items.map Prod.fst = projection.chunks.map projection.entry)
    (hall : ∀ item ∈ items, item.2 = false) :
    Projected projection (((items.filter fun item => !item.2).map Prod.fst).foldl Table.put s) := by
  have haccepted : (items.filter fun item => !item.2).map Prod.fst =
      projection.chunks.map projection.entry := by
    rw [List.filter_eq_self.2 fun item hitem => by simp [hall item hitem], hitems]
  have hnodup := nodup_accepted hc hitems
  rw [haccepted] at hnodup ⊢
  intro e ho
  rw [Table.mem_foldl_put hnodup, List.mem_map]
  constructor
  · rintro (⟨chunk, hchunk, rfl⟩ | ⟨he, hid⟩)
    · exact ⟨chunk, hchunk, rfl⟩
    · refine absurd (h e he ho) ?_
      rwa [List.map_map] at hid
  · rintro ⟨chunk, hchunk, rfl⟩
    exact .inl ⟨chunk, hchunk, rfl⟩

abbrev UpsertExact (projection : VersionProjection) {α : Type} (N : α → Index → Prop) :
    Writing α → Index → Prop :=
  Routine.wp (Owned projection) (undisturbed projection) IndexRequest.Serves N fun _ _ => True

theorem upsertExact_send {α : Type} {request : IndexRequest} {f : request.Answer → Writing α}
    {N : α → Index → Prop}
    (h : ∀ s' a t, (undisturbed projection).rely s s' → Owned projection s' →
      request.Serves s' a t →
      Owned projection t ∧ ∀ v, a = .ok v → UpsertExact projection N (f v) t) :
    UpsertExact projection N (send request >>= f) s := by
  refine Routine.wp_request_bind (fun _ _ _ _ _ => trivial) fun s' hs hI a t ht => ?_
  obtain ⟨hok, hf⟩ := h s' a t hs hI ht
  refine ⟨hok, trivial, ?_⟩
  cases a with
  | ok v => exact hf v rfl
  | error e => trivial

/-- **An upsert that returns** has made the projection's chunks the current ones. -/
theorem upsert_exact (hc : corpus.Carries projection) :
    UpsertExact projection (fun _ t => CurrentIs projection t) (upsert projection) s := by
  unfold upsert
  refine upsertExact_send fun s₁ _ t₁ _ hI₁ h₁ => ?_
  obtain rfl : t₁ = s₁ := h₁
  refine ⟨hI₁, fun _ _ => ?_⟩
  refine upsertExact_send fun s₂ a t₂ _ hI₂ h₂ => ?_
  obtain ⟨items, hitems, rfl, hanswer⟩ := h₂
  refine ⟨owned_bulk hI₂ hc hitems, fun answer ha => ?_⟩
  dsimp only
  split
  · split
    · refine upsertExact_send fun s₃ _ t₃ _ hI₃ h₃ => ?_
      obtain ⟨reached, rfl, -⟩ := h₃
      exact ⟨fun e he ho => hI₃ e (Table.mem_filter.1 he).1 ho,
        fun _ _ => Routine.wp_bind.2 fun _ _ _ => trivial⟩
    · exact Routine.wp_bind.2 fun _ _ _ => trivial
  · rename_i hnone
    have hall : ∀ item ∈ items, item.2 = false := by
      intro item hitem
      by_contra hcon
      rcases hanswer with heq | ⟨_, heq⟩
      · rw [ha] at heq
        injection heq with heq
        refine hnone fun hnil => ?_
        rw [List.map_eq_nil_iff, List.filter_eq_nil_iff] at hnil
        refine hnil (item.1.chunkId, item.2) ?_ (by simpa using hcon)
        rw [heq]
        exact List.mem_map_of_mem hitem
      · rw [ha] at heq; cases heq
    -- no item failed, so every chunk of the projection is in the index
    have hprojected := projected_bulk hI₂ hc hitems hall
    refine upsertExact_send fun s₄ b t₄ hs₄ hI₄ h₄ => ?_
    obtain ⟨reached, rfl, hreached⟩ := h₄
    refine ⟨hI₄.flag, fun v hb => ?_⟩
    have hcomplete := reached_all hreached hb
    have hclear : Cleared projection (s₄.flag (fun e => isOther projection e && reached e) false) :=
      cleared_flag hcomplete
    subst hcomplete
    simp only [Bool.and_true] at hclear ⊢
    -- other projections may have moved between two calls; the rely says what they leave
    have hproj₄ := (hprojected.rely hs₄).clearOthers
    refine upsertExact_send fun s₅ d t₅ hs₅ hI₅ h₅ => ?_
    obtain ⟨reached, rfl, hreached⟩ := h₅
    refine ⟨hI₅.flag, fun v hd => ?_⟩
    have hcomplete := reached_all hreached hd
    subst hcomplete
    simp only [Bool.and_true]
    have hclear₅ : Cleared projection s₅ := fun e he hdoc hcur =>
      hclear e ((hs₅ e (Index.ofDocument_iff.1 hdoc).1 (Index.ofDocument_iff.1 hdoc).2).1 he) hdoc hcur
    exact fun t ht _ => (currentIs_flag (hproj₄.rely hs₅) hclear₅).rely ht

end Exact

/-! ## Any number of calls -/

section Calls

variable {corpus : Corpus} {calls calls' : IndexCalls} {projection : VersionProjection}

/-- Calls that are not two upserts of one document do not disturb each other. -/
theorem contract_apart {call call' : IndexCall} (h : ∀ p p', call = .upsert p →
    call' = .upsert p' → ¬(p'.tenantId = p.tenantId ∧ p'.documentId = p.documentId)) :
    ∀ s t, call.contract.guar s t → call'.contract.rely s t := by
  intro s t hg
  cases call' with
  | removeDocument _ _ => trivial
  | upsert p' =>
    intro e he hd
    cases call with
    | removeDocument _ _ => exact hg e he
    | upsert p =>
      have hdoc := Index.ofDocument_iff.1 hd
      exact (hg _ _ (h p p' rfl rfl) e hdoc.1 hdoc.2).1 he

/-- In every pool that is reached, each call keeps what it must. -/
theorem calls_safe (hr : (indexCalls corpus).Reaches ⟨∅, []⟩ calls) :
    System.Safe (indexCalls corpus) (IndexOk corpus) IndexCall.contract (fun _ _ _ => True) calls := by
  refine (System.safe_nil IndexOk.empty).reaches (fun pool call hmay _ => ⟨?_, ?_⟩) hr
  · refine body_safe fun p hp => ?_
    subst hp
    exact hmay.1
  · intro i call' rest hi
    refine ⟨contract_apart fun p p' hp hp' hsame => ?_, contract_apart fun p p' hp hp' hsame => ?_⟩
    · subst hp hp'
      exact hmay.2 i p' rest hi hsame
    · subst hp hp'
      exact hmay.2 i p rest hi ⟨hsame.1.symm, hsame.2.symm⟩

theorem carries_of_runs (hr : (indexCalls corpus).Reaches ⟨∅, []⟩ calls) {i : ℕ}
    {rest : Process IndexRequest IndexAnswered (Except WriterError Unit)}
    (hi : System.Runs calls i (.upsert projection) rest) : corpus.Carries projection := by
  have hlabels := System.labels_of_reaches
    (P := fun call => ∀ p, call = .upsert p → corpus.Carries p) (fun pool call hmay p hp => by
      subst hp
      exact hmay.1) (fun _ h => absurd h List.not_mem_nil) hr
  exact hlabels _ (List.mem_of_getElem? hi) projection rfl

/-- While the others leave a document alone, so do the requests of an upsert of another one. -/
theorem sameDocument_meanwhile (hr : (indexCalls corpus).Reaches ⟨∅, []⟩ calls) {i : ℕ}
    {log : List ((request : IndexRequest) × IndexAnswered request)} {tenantId documentId : String}
    {rest : Process IndexRequest IndexAnswered (Except WriterError Unit)}
    (hi : System.Runs calls i (.upsert projection) rest)
    (hne : ¬(tenantId = projection.tenantId ∧ documentId = projection.documentId))
    (h : (indexCalls corpus).Meanwhile i (SameDocument tenantId documentId) calls log calls') :
    SameDocument tenantId documentId calls.server calls'.server ∧
      ∃ rest, System.Runs calls' i (.upsert projection) rest := by
  induction h with
  | start => exact ⟨sameDocument_refl, rest, hi⟩
  | own hbefore hstep ih =>
    obtain ⟨hsame, rest', hi'⟩ := ih
    have hsafe := calls_safe (hr.trans hbefore.reaches)
    cases hstep with
    | serve hcall hserve =>
      have heq := hi'.symm.trans hcall
      injection heq with heq
      injection heq with hl hrest
      subst hl
      have hg := hsafe.guar hcall hserve
      have hlt := (List.getElem?_eq_some_iff.1 hcall).1
      exact ⟨fun e ht hd => (hg _ _ hne e ht hd).trans (hsame e ht hd), _,
        List.getElem?_set_self hlt⟩
  | other _ hstep hm he ih =>
    obtain ⟨hsame, rest', hi'⟩ := ih
    exact ⟨fun e ht hd => (he e ht hd).trans (hsame e ht hd), rest', hstep.frame hm hi'⟩

/-- **At most one current version, at any instant.** Whatever upserts and removals run side by
side, no two upserts of a document at once: no document has current chunks of two versions; an
upsert that returns, while no other call touched its document, has made the projection's chunks
the current ones; and an upsert changes no other document. -/
theorem current_unique (hr : (indexCalls corpus).Reaches ⟨∅, []⟩ calls) :
    AtMostOneCurrent calls.server ∧
    ∀ i projection log calls',
      System.Runs calls i (.upsert projection) ((indexCalls corpus).body (.upsert projection)) →
      ((indexCalls corpus).Meanwhile i
          (SameDocument projection.tenantId projection.documentId) calls log calls' →
        System.Runs calls' i (.upsert projection) (.done (.ok ())) →
        CurrentIs projection calls'.server) ∧
      ∀ tenantId documentId,
        ¬(tenantId = projection.tenantId ∧ documentId = projection.documentId) →
        (indexCalls corpus).Meanwhile i (SameDocument tenantId documentId) calls log calls' →
        SameDocument tenantId documentId calls.server calls'.server := by
  have hsafe := calls_safe hr
  refine ⟨hsafe.inv.current, fun i projection log calls' hi => ⟨fun hmean hend => ?_,
    fun tenantId documentId hne hmean => (sameDocument_meanwhile hr hi hne hmean).1⟩⟩
  have hc := carries_of_runs hr hi
  have howned : Owned projection calls.server := by
    intro e he ho
    obtain ⟨ht, hd, hv⟩ := isOwn_iff.1 ho
    have hown := hsafe.inv.owned e he
    rw [ht, hd, hv] at hown
    exact (hc.chunkIds _).2 hown
  exact hmean.result (C := undisturbed projection) (fun s t he => ⟨he, fun h => h.rely he⟩) hi howned
    (upsert_exact hc) hend

/-! ## Runs -/

/-- A cluster that does what it is asked. -/
def obliging : (request : IndexRequest) → Index → IndexAnswered request × Index
  | .validateProjections _, s => (.ok (), s)
  | .validateRemoval _ _, s => (.ok (), s)
  | .bulk entries, s => (.ok (entries.map fun entry => (entry.chunkId, false)), entries.foldl Table.put s)
  | .deleteByQuery query, s => (.ok (), s.filter fun entry => !query entry)
  | .updateByQuery query isCurrent, s => (.ok (), s.flag query isCurrent)

theorem serves_obliging (request : IndexRequest) (s : Index) :
    request.Serves s (obliging request s).1 (obliging request s).2 := by
  cases request with
  | validateProjections projection => rfl
  | validateRemoval tenantId documentId => rfl
  | bulk entries =>
    refine ⟨entries.map fun entry => (entry, false), ?_, ?_, .inl ?_⟩
    · simp [Function.comp_def]
    · have hall : ((entries.map fun entry => (entry, false)).filter fun item => !item.2).map Prod.fst =
          entries := by
        rw [List.filter_eq_self.2 (by simp), List.map_map]
        exact List.map_id _
      rw [hall]
      rfl
    · simp [obliging, Function.comp_def]
  | deleteByQuery query => exact ⟨fun _ => true, by simp [obliging], .inl rfl⟩
  | updateByQuery query isCurrent => exact ⟨fun _ => true, by simp [obliging], .inl rfl⟩

/-- **An upsert that nothing disturbs** is the writer's requests in order, as the ingestion
pipeline sends them. -/
theorem upsert_solve {index : Index} : (upsert projection).run.solve obliging index =
    (.ok (), ((index.bulk projection fun _ => false).clearOthers projection).setCurrent projection) := by
  have hfailed : ((projection.chunks.map projection.entry).map fun entry =>
      (entry.chunkId, false)).filter (fun item => item.2) = [] := by
    simp [Function.comp_def]
  have haccepted : Index.accepted projection (fun _ => false) =
      projection.chunks.map projection.entry := by
    simp [Index.accepted]
  rw [Index.bulk, haccepted]
  change (Process.solve obliging (ExceptT.run (if List.map Prod.fst (List.filter (fun item => item.2)
    ((projection.chunks.map projection.entry).map fun entry => (entry.chunkId, false))) ≠ [] then _
      else _)) _) = _
  rw [hfailed, List.map_nil, if_neg (not_not.2 rfl)]
  rfl

theorem step_obliging {i : ℕ} {call : IndexCall} {request : IndexRequest}
    {k : IndexAnswered request → Process IndexRequest IndexAnswered (Except WriterError Unit)}
    (hi : System.Runs calls i call (.call request k)) : (indexCalls corpus).Step calls
      (.serve i request (obliging request calls.server).1)
      ⟨(obliging request calls.server).2,
        calls.threads.set i ⟨call, some (k (obliging request calls.server).1)⟩⟩ :=
  .serve hi (serves_obliging request calls.server)

theorem step_removal {tenantId documentId : String} : (indexCalls corpus).Step calls
    (.start (.removeDocument tenantId documentId))
    ⟨calls.server, calls.threads ++ [⟨.removeDocument tenantId documentId,
      some (IndexCall.body (.removeDocument tenantId documentId)).run⟩]⟩ :=
  .start (by trivial)

/-- The requests of an upsert, as seen from a call that another document is about. -/
theorem meanwhile_upsert {start : IndexCalls} {i j : ℕ} {tenantId documentId : String}
    {log : List ((request : IndexRequest) × IndexAnswered request)} {request : IndexRequest}
    {k : IndexAnswered request → Process IndexRequest IndexAnswered (Except WriterError Unit)}
    (hr : (indexCalls corpus).Reaches ⟨∅, []⟩ start)
    (h : (indexCalls corpus).Meanwhile i (SameDocument tenantId documentId) start log calls)
    (hj : System.Runs calls j (.upsert projection) (.call request k)) (hji : j ≠ i)
    (hne : ¬(tenantId = projection.tenantId ∧ documentId = projection.documentId)) :
    (indexCalls corpus).Meanwhile i (SameDocument tenantId documentId) start log
      ⟨(obliging request calls.server).2, calls.threads.set j
        ⟨.upsert projection, some (k (obliging request calls.server).1)⟩⟩ := by
  have hsafe := calls_safe (hr.trans h.reaches)
  refine h.other (step_obliging hj) (fun heq => hji (Option.some.inj heq)) ?_
  exact hsafe.guar hj (serves_obliging request calls.server) _ _ hne

/-- One document with one version of one chunk. -/
def runbook : VersionProjection where
  tenantId := "alpha"
  sourceId := "source-1"
  documentId := "document-1"
  documentVersionId := "version-1"
  policy := ["role:engineer"]
  sourceTimestamp := 0
  chunks := [⟨"version-1-0", 0, "evidence", 0, 8, "hash-0", "markdown-v1", "structural-v1"⟩]

/-- Another document of the same source. -/
def checklist : VersionProjection :=
  { runbook with
    documentId := "document-2"
    documentVersionId := "version-2"
    chunks := [⟨"version-2-0", 0, "steps", 0, 5, "hash-1", "markdown-v1", "structural-v1"⟩] }

def runbookIds (tenantId documentId versionId : String) : List String :=
  if tenantId = "alpha" ∧ documentId = "document-1" ∧ versionId = "version-1" then ["version-1-0"]
  else if tenantId = "alpha" ∧ documentId = "document-2" ∧ versionId = "version-2" then
    ["version-2-0"]
  else []

theorem runbookIds_unique {t d v t' d' v' id : String} (h : id ∈ runbookIds t d v)
    (h' : id ∈ runbookIds t' d' v') : t = t' ∧ d = d' ∧ v = v' := by
  unfold runbookIds at h h'
  split_ifs at h h'
  all_goals simp_all

def runbooks : Corpus := ⟨runbookIds, runbookIds_unique⟩

theorem runbooks_carries : runbooks.Carries runbook :=
  ⟨by decide, fun id => by simp [runbooks, runbookIds, runbook]⟩

theorem checklist_carries : runbooks.Carries checklist :=
  ⟨by decide, fun id => by simp [runbooks, runbookIds, checklist, runbook]⟩

/-- The upsert of `runbook` has just started. -/
def runbookStart : IndexCalls := ⟨∅, [⟨.upsert runbook, some (IndexCall.body (.upsert runbook)).run⟩]⟩

theorem reaches_runbookStart : (indexCalls runbooks).Reaches ⟨∅, []⟩ runbookStart :=
  .single ⟨_, .start ⟨runbooks_carries, fun _ _ _ h => by cases h⟩⟩

theorem step_checklist : (indexCalls runbooks).Step runbookStart (.start (.upsert checklist))
    ⟨∅, runbookStart.threads ++ [⟨.upsert checklist,
      some (IndexCall.body (.upsert checklist)).run⟩]⟩ := by
  refine .start ⟨checklist_carries, fun i other rest hi hsame => ?_⟩
  have hlt : i < 1 := (List.getElem?_eq_some_iff.1 hi).1
  obtain rfl : i = 0 := by omega
  cases hi
  exact absurd hsame.2 (by decide)

/-- Two upserts send their requests in turns. -/
theorem current_unique_turns : ∃ calls : IndexCalls,
    System.Runs calls 0 (.upsert runbook) (.done (.ok ())) ∧
      System.Runs calls 1 (.upsert checklist) (.done (.ok ())) ∧
      AtMostOneCurrent calls.server ∧ CurrentIs runbook calls.server := by
  have hne : ¬("alpha" = checklist.tenantId ∧ "document-1" = checklist.documentId) := by decide
  have h₀ : (indexCalls runbooks).Meanwhile 0 (SameDocument "alpha" "document-1") runbookStart _ _ :=
    .other .start step_checklist (by simp [Move.thread]) sameDocument_refl
  -- the requests alternate, but the second upsert is the first to end
  have h₁ := h₀.own (step_obliging rfl)
  have h₂ := meanwhile_upsert (j := 1) reaches_runbookStart h₁ rfl one_ne_zero hne
  have h₃ := h₂.own (step_obliging rfl)
  have h₄ := meanwhile_upsert (j := 1) reaches_runbookStart h₃ rfl one_ne_zero hne
  have h₅ := h₄.own (step_obliging rfl)
  have h₆ := meanwhile_upsert (j := 1) reaches_runbookStart h₅ rfl one_ne_zero hne
  have h₇ := meanwhile_upsert (j := 1) reaches_runbookStart h₆ rfl one_ne_zero hne
  have h₈ := h₇.own (step_obliging rfl)
  have hboth := (current_unique (reaches_runbookStart.trans h₈.reaches)).1
  have hrunbook := ((current_unique reaches_runbookStart).2 0 runbook _ _ rfl).1 h₈ rfl
  refine ⟨_, ?_, ?_, hboth, hrunbook⟩
  · rfl
  · rfl

theorem not_currentIs_nil {index : Index} (h : index.rows = []) : ¬CurrentIs runbook index := by
  intro hcurrent
  obtain ⟨hmem, -, -⟩ := (hcurrent _).2 ⟨_, List.mem_cons_self, rfl⟩
  rw [← Table.mem_rows, h] at hmem
  exact absurd hmem List.not_mem_nil

/-- A removal that overtakes an upsert of its document leaves no current chunk when it returns. -/
theorem removal_overtakes : ¬∀ (corpus : Corpus) (calls calls' : IndexCalls) (i : ℕ)
    (projection : VersionProjection) (log : List ((request : IndexRequest) × IndexAnswered request)),
    (indexCalls corpus).Reaches ⟨∅, []⟩ calls →
    System.Runs calls i (.upsert projection) ((indexCalls corpus).body (.upsert projection)) →
    (indexCalls corpus).Meanwhile i (fun _ _ => True) calls log calls' →
    System.Runs calls' i (.upsert projection) (.done (.ok ())) →
    CurrentIs projection calls'.server := by
  intro h
  have h₁ : (indexCalls runbooks).Meanwhile 0 (fun _ _ => True) runbookStart _ _ :=
    .own .start (step_obliging rfl)
  have h₂ := h₁.own (step_obliging rfl)
  have h₃ := h₂.other (@step_removal _ _ "alpha" "document-1") (by simp [Move.thread]) trivial
  have h₄ := h₃.other (@step_obliging _ _ 1 _ _ _ rfl) (by simp [Move.thread]) trivial
  have h₅ := h₄.other (@step_obliging _ _ 1 _ _ _ rfl) (by simp [Move.thread]) trivial
  have h₆ := h₅.own (step_obliging rfl)
  have h₇ := h₆.own (step_obliging rfl)
  have hcurrent := h runbooks runbookStart _ 0 runbook _ reaches_runbookStart rfl h₇ rfl
  exact absurd hcurrent (not_currentIs_nil (by decide +kernel))

end Calls

end GroundedOps.Ingestion
