import GroundedOps.Proof.Scans

/-!
# A mirror of the corpus

A mirror keeps the version and the content of each source, and follows the events of the scans of
one corpus, each made against the events of the one before.

* `scan_events`: the events of a scan, source by source.
* `Scanned.Ok`: what holds of the events and the mirror after any scans.
* `Restorable`: no source comes back just as it was deleted.
* `mirrored_iff`: **the mirror is right after every scan exactly when every scan is restorable.**
-/

namespace GroundedOps.Ingestion

/-! ## The mirror -/

/-- The version and the content of each source. -/
abbrev Mirror := String → Option (String × Option ByteArray)

/-- New and changed sources are stored, deleted ones removed. -/
def Mirror.apply (mirror : Mirror) (event : CorpusEvent) : Mirror :=
  match event.kind with
  | .new | .changed =>
    Function.update mirror event.source.id (some (event.sourceVersion, event.content))
  | .deleted => Function.update mirror event.source.id none
  | .unchanged | .malformed => mirror

/-- The corpus as a scan finds it: its manifest is valid. -/
structure CorpusState (corpus : MarkdownCorpus) where
  snapshot : Snapshot
  capturedAt : ℤ
  entries : List (Source × ManifestEntry)
  entries_eq : corpus.entries snapshot = some entries

/-- The corpus scanned last, the events of its scan by source, and the mirror. -/
structure Scanned (corpus : MarkdownCorpus) where
  previous : List (String × CorpusEvent) := []
  mirror : Mirror := fun _ => none
  last : Option (CorpusState corpus) := none

variable {P : Platform} {corpus : MarkdownCorpus} {s : Scanned corpus} {state : CorpusState corpus}
  {events : List CorpusEvent} {mirror : Mirror} {id : String}

/-- A scan against the events of the last one, and the mirror after its events. -/
def Scanned.scan (P : Platform) (s : Scanned corpus) (state : CorpusState corpus) : Scanned corpus :=
  match corpus.scan P state.snapshot (some state.capturedAt) s.previous with
  | none => { s with last := some state }
  | some events =>
    { previous := events.map fun event => (event.source.id, event)
      mirror := events.foldl Mirror.apply s.mirror
      last := some state }

/-- **The mirror is right**: it has the content of every well-formed source of the last scan, and no
source whose entry or file is missing. -/
structure Scanned.Mirrored (P : Platform) (s : Scanned corpus) : Prop where
  current : ∀ state, s.last = some state → ∀ item ∈ state.entries, ∀ content,
    state.snapshot.fixture item.2.fixture = .content content →
      MarkdownCorpus.validContent content = true →
        s.mirror item.1.id = some (P.sha256 content, some content)
  present : ∀ state, s.last = some state → ∀ id, s.mirror id ≠ none →
    ∃ item ∈ state.entries, item.1.id = id ∧ state.snapshot.fixture item.2.fixture ≠ .missing

/-- **No source comes back just as it was deleted**: the digest of a well-formed source is not the
version of its last event if that was a deletion, nor if it was malformed, unless the mirror has the
content. -/
def Restorable (P : Platform) (s : Scanned corpus) (state : CorpusState corpus) : Prop :=
  ∀ item ∈ state.entries, ∀ content,
    state.snapshot.fixture item.2.fixture = .content content →
      MarkdownCorpus.validContent content = true →
        ∀ old, (item.1.id, old) ∈ s.previous → MarkdownCorpus.accepted old.kind = false →
          old.sourceVersion = P.sha256 content →
            s.mirror item.1.id = some (P.sha256 content, some content)

/-! ## Events applied in turn -/

section Apply

variable {event : CorpusEvent}

theorem Mirror.apply_stored (h : event.kind = .new ∨ event.kind = .changed) :
    mirror.apply event =
      Function.update mirror event.source.id (some (event.sourceVersion, event.content)) := by
  unfold Mirror.apply
  rcases h with h | h
  · rw [h]
  · rw [h]

theorem Mirror.apply_deleted (h : event.kind = .deleted) :
    mirror.apply event = Function.update mirror event.source.id none := by
  unfold Mirror.apply
  rw [h]

theorem Mirror.apply_kept (h : event.kind = .unchanged ∨ event.kind = .malformed) :
    mirror.apply event = mirror := by
  unfold Mirror.apply
  rcases h with h | h
  · rw [h]
  · rw [h]

/-- An event stores its source, removes it, or leaves the mirror alone. -/
theorem kind_cases (kind : SourceEventKind) : (kind = .new ∨ kind = .changed) ∨ kind = .deleted ∨
    (kind = .unchanged ∨ kind = .malformed) := by
  cases kind <;> decide

theorem Mirror.apply_of_ne (h : id ≠ event.source.id) : mirror.apply event id = mirror id := by
  rcases kind_cases event.kind with hkind | hkind | hkind
  · rw [Mirror.apply_stored hkind, Function.update_of_ne h]
  · rw [Mirror.apply_deleted hkind, Function.update_of_ne h]
  · rw [Mirror.apply_kept hkind]

/-- What an event does to its source depends on what the mirror has of that. -/
theorem Mirror.apply_congr {mirror' : Mirror}
    (h : mirror' event.source.id = mirror event.source.id) :
    mirror'.apply event event.source.id = mirror.apply event event.source.id := by
  rcases kind_cases event.kind with hkind | hkind | hkind
  · rw [Mirror.apply_stored hkind, Mirror.apply_stored hkind, Function.update_self, Function.update_self]
  · rw [Mirror.apply_deleted hkind, Mirror.apply_deleted hkind, Function.update_self, Function.update_self]
  · rw [Mirror.apply_kept hkind, Mirror.apply_kept hkind, h]

theorem applied_of_not_mem (h : id ∉ events.map fun event => event.source.id) :
    events.foldl Mirror.apply mirror id = mirror id := by
  induction events generalizing mirror with
  | nil => rfl
  | cons event events ih =>
    rw [List.map_cons, List.mem_cons, not_or] at h
    rw [List.foldl_cons, ih h.2, Mirror.apply_of_ne h.1]

/-- Of events of different sources each does what it would do alone. -/
theorem applied_of_mem (hnodup : (events.map fun event => event.source.id).Nodup)
    (h : event ∈ events) :
    events.foldl Mirror.apply mirror event.source.id = mirror.apply event event.source.id := by
  induction events generalizing mirror with
  | nil => cases h
  | cons first events ih =>
    rw [List.map_cons, List.nodup_cons] at hnodup
    rw [List.foldl_cons]
    rcases List.mem_cons.1 h with rfl | hrest
    · rw [applied_of_not_mem hnodup.1]
    · have hne : event.source.id ≠ first.source.id := by
        intro heq
        exact hnodup.1 (heq ▸ List.mem_map_of_mem hrest)
      rw [ih hnodup.2 hrest, Mirror.apply_congr (Mirror.apply_of_ne hne)]

end Apply

/-! ## The events of a scan -/

namespace MarkdownCorpus

variable {snapshot : Snapshot} {capturedAt : ℤ} {previous : List (String × CorpusEvent)}
  {entries : List (Source × ManifestEntry)} {source : Source} {entry : ManifestEntry}
  {old : Option CorpusEvent} {content : ByteArray}

theorem source_eq (h : corpus.source entry = some source) :
    source.id = entry.id ∧ source.tenantId = corpus.tenantId := by
  unfold MarkdownCorpus.source at h
  split at h
  · cases h
    exact ⟨rfl, rfl⟩
  · cases h

/-- The sources of the entries are those of the tenant, and distinct. -/
theorem entries_sources (h : corpus.entries snapshot = some entries) :
    (entries.map fun item => item.1.id).Nodup ∧ ∀ item ∈ entries, item.1.tenantId = corpus.tenantId := by
  unfold MarkdownCorpus.entries at h
  simp only [Option.bind_eq_bind, Option.bind_eq_some_iff, Option.guard_eq_some'] at h
  obtain ⟨manifest, -, -, -, -, ⟨-, hnodup⟩, hmap⟩ := h
  have hsources : List.Forall₂ (fun (entry : ManifestEntry) (item : Source × ManifestEntry) =>
      entry.id = item.1.id ∧ item.1.tenantId = corpus.tenantId) manifest entries := by
    refine (Lists.forall₂_of_mapM hmap).imp fun entry item hitem => ?_
    obtain ⟨source, hsource, heq⟩ := Option.bind_eq_some_iff.1 hitem
    cases heq
    exact ⟨(source_eq hsource).1.symm, (source_eq hsource).2⟩
  constructor
  · have hids : manifest.map ManifestEntry.id = entries.map fun item => item.1.id := by
      rw [← List.forall₂_eq_eq_eq, List.forall₂_map_left_iff, List.forall₂_map_right_iff]
      exact hsources.imp fun _ _ h => h.1
    rw [← hids]
    exact hnodup
  · intro item hitem
    obtain ⟨entry, -, hentry⟩ := (Lists.exists_of_forall₂ hsources).2 item hitem
    exact hentry.2

/-! One entry -/

theorem event_content (hfixture : snapshot.fixture entry.fixture = .content content)
    (hvalid : validContent content = true) :
    (event P snapshot capturedAt old source entry).toSourceEvent =
      { kind := changeKind old (P.sha256 content), source, canonicalKey := entry.fixture
        sourceVersion := P.sha256 content, sourceTimestamp := capturedAt
        content := some content } := by
  unfold event
  rw [hfixture]
  dsimp only
  rw [if_pos hvalid]

theorem event_missing {earlier : CorpusEvent} (hfixture : snapshot.fixture entry.fixture = .missing) :
    event P snapshot capturedAt (some earlier) source entry = deletion earlier := by
  unfold event
  rw [hfixture]
  rfl

/-- An event is about the source of its entry, or the event before it. -/
theorem event_source : (event P snapshot capturedAt old source entry).source = source ∨
    ∃ earlier, old = some earlier ∧
      (event P snapshot capturedAt old source entry).source = earlier.source := by
  cases hfixture : snapshot.fixture entry.fixture with
  | missing =>
    cases old with
    | none =>
      refine Or.inl ?_
      unfold event
      rw [hfixture]
      rfl
    | some earlier =>
      refine Or.inr ⟨earlier, rfl, ?_⟩
      rw [event_missing hfixture]
      rfl
  | refused =>
    refine Or.inl ?_
    unfold event
    rw [hfixture]
  | content content =>
    refine Or.inl ?_
    unfold event
    rw [hfixture]
    dsimp only
    split
    · rfl
    · rfl

/-! All entries -/

/-- The events of a scan are filed under their sources, which are those of the tenant. -/
structure Filed (corpus : MarkdownCorpus) (previous : List (String × CorpusEvent)) : Prop where
  keyed : ∀ item ∈ previous, item.1 = item.2.source.id
  distinct : (previous.map Prod.fst).Nodup
  tenant : ∀ item ∈ previous, item.2.source.tenantId = corpus.tenantId

theorem mem_of_lookup {earlier : CorpusEvent} (h : previous.lookup id = some earlier) :
    (id, earlier) ∈ previous := by
  obtain ⟨before, after, rfl, -⟩ := List.lookup_eq_some_iff.1 h
  exact List.mem_append_right _ List.mem_cons_self

theorem Filed.lookup (h : Filed corpus previous) {earlier : CorpusEvent} (hmem : (id, earlier) ∈ previous) :
    previous.lookup id = some earlier := by
  obtain ⟨before, after, rfl⟩ := List.append_of_mem hmem
  refine List.lookup_eq_some_iff.2 ⟨before, after, rfl, fun item hitem => ?_⟩
  have hdistinct := h.distinct
  rw [List.map_append, List.nodup_append] at hdistinct
  have hne := hdistinct.2.2 item.1 (List.mem_map_of_mem hitem) id (List.mem_map_of_mem List.mem_cons_self)
  exact bne_iff_ne.2 hne.symm

/-- An entry's event is filed under the source of the entry. -/
theorem Filed.event_id (h : Filed corpus previous) :
    (event P snapshot capturedAt (previous.lookup source.id) source entry).source.id = source.id := by
  have hsource := @event_source P snapshot capturedAt source entry (previous.lookup source.id)
  rcases hsource with heq | ⟨earlier, hold, heq⟩
  · rw [heq]
  · rw [heq]
    exact (h.keyed _ (mem_of_lookup hold)).symm

/-- **The events of a scan, source by source**: one for each entry, and a deletion for each source
that had an event and has no entry any more. -/
theorem scan_events (hentries : corpus.entries snapshot = some entries) (h : Filed corpus previous) :
    ∃ events, corpus.scan P snapshot (some capturedAt) previous = some events ∧
      (events.map fun event => event.source.id).Nodup ∧
      ∀ e, e ∈ events ↔
        (∃ item ∈ entries, e = event P snapshot capturedAt (previous.lookup item.1.id) item.1 item.2) ∨
          ∃ item ∈ previous, item.1 ∉ entries.map (fun item => item.1.id) ∧ e = deletion item.2 := by
  have hguard : previous.all (fun item => item.2.source.tenantId == corpus.tenantId) = true :=
    List.all_eq_true.2 fun item hitem => beq_iff_eq.2 (h.tenant item hitem)
  -- an event keeps the id of its entry, so the ids of the events are those of the manifest
  have hids : (entries.map fun item =>
      event P snapshot capturedAt (previous.lookup item.1.id) item.1 item.2).map
        (fun event => event.source.id) = entries.map fun item => item.1.id := by
    rw [List.map_map]
    exact List.map_congr_left fun item _ => h.event_id
  have hscan : corpus.scan P snapshot (some capturedAt) previous =
      some ((entries.map (fun item =>
          event P snapshot capturedAt (previous.lookup item.1.id) item.1 item.2) ++
        (previous.filter fun item => item.1 ∉ entries.map fun item => item.1.id).map
          fun item => deletion item.2).mergeSort fun a b => a.source.id ≤ b.source.id) := by
    unfold scan
    rw [hentries, hguard]
    simp only [Option.bind_eq_bind, Option.bind_some, guard, if_true, Option.pure_def, hids]
  refine ⟨_, hscan, ?_, fun e => ?_⟩
  · have hgone : ((previous.filter fun item => item.1 ∉ entries.map fun item => item.1.id).map
        fun item => deletion item.2).map (fun event => event.source.id) =
          (previous.filter fun item => item.1 ∉ entries.map fun item => item.1.id).map Prod.fst := by
      rw [List.map_map]
      refine List.map_congr_left fun item hitem => ?_
      exact (h.keyed item (List.mem_filter.1 hitem).1).symm
    rw [((List.mergeSort_perm _ _).map _).nodup_iff, List.map_append, hids, hgone]
    refine List.nodup_append.2 ⟨(entries_sources hentries).1,
      h.distinct.sublist (List.filter_sublist.map _), fun id hid id' hid' => ?_⟩
    obtain ⟨item, hitem, rfl⟩ := List.mem_map.1 hid'
    have hnot := of_decide_eq_true (List.mem_filter.1 hitem).2
    exact fun heq => hnot (heq ▸ hid)
  · rw [List.mem_mergeSort, List.mem_append, List.mem_map, List.mem_map]
    constructor
    · rintro (⟨item, hitem, rfl⟩ | ⟨item, hitem, rfl⟩)
      · exact Or.inl ⟨item, hitem, rfl⟩
      · obtain ⟨hmem, hnot⟩ := List.mem_filter.1 hitem
        exact Or.inr ⟨item, hmem, of_decide_eq_true hnot, rfl⟩
    · rintro (⟨item, hitem, rfl⟩ | ⟨item, hitem, hnot, rfl⟩)
      · exact Or.inl ⟨item, hitem, rfl⟩
      · exact Or.inr ⟨item, List.mem_filter.2 ⟨hitem, decide_eq_true hnot⟩, rfl⟩

end MarkdownCorpus

open MarkdownCorpus

/-! ## One scan -/

/-- The event of an entry, against the events of the scan before. -/
def Scanned.event (P : Platform) (s : Scanned corpus) (state : CorpusState corpus)
    (item : Source × ManifestEntry) : CorpusEvent :=
  MarkdownCorpus.event P state.snapshot state.capturedAt (s.previous.lookup item.1.id) item.1 item.2

/-- What a scan leaves. -/
structure Scanned.Step (P : Platform) (s : Scanned corpus) (state : CorpusState corpus)
    (s' : Scanned corpus) : Prop where
  last : s'.last = some state
  filed : Filed corpus s'.previous
  entry : ∀ item ∈ state.entries, (item.1.id, s.event P state item) ∈ s'.previous ∧
    s'.mirror item.1.id = s.mirror.apply (s.event P state item) item.1.id
  gone : ∀ item ∈ s.previous, item.1 ∉ state.entries.map (fun item => item.1.id) → s'.mirror item.1 = none
  others : ∀ id, id ∉ state.entries.map (fun item => item.1.id) → id ∉ s.previous.map Prod.fst →
    s'.mirror id = s.mirror id
  previous : ∀ item ∈ s'.previous,
    (∃ entry ∈ state.entries, item = (entry.1.id, s.event P state entry)) ∨
      ∃ old ∈ s.previous, item = (old.1, deletion old.2)

theorem scan_step (h : Filed corpus s.previous) : s.Step P state (s.scan P state) := by
  obtain ⟨events, hscan, hnodup, hmem⟩ : ∃ events,
      corpus.scan P state.snapshot (some state.capturedAt) s.previous = some events ∧ _ ∧ _ :=
    scan_events state.entries_eq h
  have hstep : s.scan P state =
      { previous := events.map fun event => (event.source.id, event)
        mirror := events.foldl Mirror.apply s.mirror
        last := some state } := by
    unfold Scanned.scan
    rw [hscan]
  -- every entry of the state is answered by one event, under the entry's own id
  have hentry : ∀ item ∈ state.entries, s.event P state item ∈ events ∧
      (s.event P state item).source.id = item.1.id :=
    fun item hitem => ⟨(hmem _).2 (Or.inl ⟨item, hitem, rfl⟩), h.event_id⟩
  rw [hstep]
  refine ⟨rfl, ⟨?_, ?_, ?_⟩, ?_, ?_, ?_, ?_⟩
  · intro item hitem
    obtain ⟨e, -, rfl⟩ := List.mem_map.1 hitem
    rfl
  · rw [List.map_map]
    exact hnodup
  · intro item hitem
    obtain ⟨e, he, rfl⟩ := List.mem_map.1 hitem
    rcases (hmem e).1 he with ⟨entry, hin, rfl⟩ | ⟨old, hold, -, rfl⟩
    · rcases (event_source : (s.event P state entry).source = entry.1 ∨ _) with heq | ⟨earlier, hold, heq⟩
      · exact (congrArg Source.tenantId heq).trans ((entries_sources state.entries_eq).2 entry hin)
      · exact (congrArg Source.tenantId heq).trans (h.tenant _ (mem_of_lookup hold))
    · exact h.tenant old hold
  · intro item hitem
    obtain ⟨he, hid⟩ := hentry item hitem
    refine ⟨List.mem_map.2 ⟨_, he, by rw [hid]⟩, ?_⟩
    have happlied : events.foldl Mirror.apply s.mirror (s.event P state item).source.id = _ :=
      applied_of_mem hnodup he
    rwa [hid] at happlied
  · intro item hitem hnot
    have he : deletion item.2 ∈ events := (hmem _).2 (Or.inr ⟨item, hitem, hnot, rfl⟩)
    have hid : (deletion item.2).source.id = item.1 := (h.keyed item hitem).symm
    have happlied : events.foldl Mirror.apply s.mirror (deletion item.2).source.id = _ :=
      applied_of_mem hnodup he
    rwa [hid, Mirror.apply_deleted rfl, hid, Function.update_self] at happlied
  · intro id hnot hnew
    refine applied_of_not_mem fun hid => ?_
    obtain ⟨e, he, rfl⟩ := List.mem_map.1 hid
    rcases (hmem e).1 he with ⟨entry, hin, rfl⟩ | ⟨old, hold, -, rfl⟩
    · refine hnot (List.mem_map.2 ⟨entry, hin, ?_⟩)
      exact (hentry entry hin).2.symm
    · refine hnew (List.mem_map.2 ⟨old, hold, ?_⟩)
      exact h.keyed old hold
  · intro item hitem
    obtain ⟨e, he, rfl⟩ := List.mem_map.1 hitem
    rcases (hmem e).1 he with ⟨entry, hin, rfl⟩ | ⟨old, hold, -, rfl⟩
    · exact Or.inl ⟨entry, hin, Prod.ext (hentry entry hin).2 rfl⟩
    · exact Or.inr ⟨old, hold, Prod.ext (h.keyed old hold).symm rfl⟩

/-! ## Scans in turn -/

/-- What the events and the mirror have in common after any scans: the mirror has no source without
an event or with a deletion, and accepted events are those of well-formed sources of the last scan. -/
structure Scanned.Ok (P : Platform) (s : Scanned corpus) : Prop where
  filed : Filed corpus s.previous
  known : ∀ id, s.mirror id ≠ none → ∃ event, (id, event) ∈ s.previous ∧ event.kind ≠ .deleted
  accepted : ∀ item ∈ s.previous, MarkdownCorpus.accepted item.2.kind = true →
    ∃ state, s.last = some state ∧ ∃ entry ∈ state.entries, entry.1.id = item.1 ∧
      ∃ content, state.snapshot.fixture entry.2.fixture = .content content ∧
        validContent content = true ∧ item.2.sourceVersion = P.sha256 content

theorem scan_ok (h : s.Ok P) : (s.scan P state).Ok P := by
  have hstep : s.Step P state (s.scan P state) := scan_step h.filed
  refine ⟨hstep.filed, fun id hid => ?_, fun item hitem haccepted => ?_⟩
  · by_cases hentry : id ∈ state.entries.map fun item => item.1.id
    · obtain ⟨item, hin, rfl⟩ := List.mem_map.1 hentry
      obtain ⟨hprevious, hmirror⟩ := hstep.entry item hin
      refine ⟨_, hprevious, fun hdeleted => hid ?_⟩
      have hsource : (s.event P state item).source.id = item.1.id := h.filed.event_id
      rw [hmirror, Mirror.apply_deleted hdeleted, hsource, Function.update_self]
    · exfalso
      by_cases hprevious : id ∈ s.previous.map Prod.fst
      · obtain ⟨item, hin, rfl⟩ := List.mem_map.1 hprevious
        exact hid (hstep.gone item hin hentry)
      · rw [hstep.others id hentry hprevious] at hid
        obtain ⟨event, hmem, -⟩ := h.known id hid
        exact hprevious (List.mem_map_of_mem hmem)
  · rcases hstep.previous item hitem with ⟨entry, hin, rfl⟩ | ⟨old, -, rfl⟩
    · obtain ⟨content, hfixture, hvalid, heq⟩ := event_accepted haccepted
      refine ⟨state, hstep.last, entry, hin, rfl, content, hfixture, hvalid, ?_⟩
      exact congrArg SourceEvent.sourceVersion heq
    · cases haccepted

/-- **A scan leaves the mirror right exactly when it is restorable**, if the mirror was right. -/
theorem scan_mirrored_iff (hP : Function.Injective P.sha256) (h : s.Ok P) (hmirrored : s.Mirrored P) :
    (s.scan P state).Mirrored P ↔ Restorable P s state := by
  have hstep : s.Step P state (s.scan P state) := scan_step h.filed
  constructor
  · intro hafter item hitem content hfixture hvalid old hold haccepted hversion
    have hcurrent := hafter.current state hstep.last item hitem content hfixture hvalid
    -- the event before has the digest as its version, so nothing is stored
    have hkind : (s.event P state item).kind = .unchanged := by
      have heq : (s.event P state item).toSourceEvent = _ := event_content hfixture hvalid
      rw [h.filed.lookup hold] at heq
      rw [congrArg SourceEvent.kind heq]
      exact if_pos hversion
    rw [(hstep.entry item hitem).2, Mirror.apply_kept (Or.inl hkind)] at hcurrent
    exact hcurrent
  · intro hrestorable
    constructor
    · intro state' hlast item hitem content hfixture hvalid
      rw [hstep.last] at hlast
      cases hlast
      have hmirror := (hstep.entry item hitem).2
      have heq : (s.event P state item).toSourceEvent = _ := event_content hfixture hvalid
      have hsource : (s.event P state item).source.id = item.1.id := h.filed.event_id
      have hstored : (s.event P state item).kind = .new ∨ (s.event P state item).kind = .changed →
          (s.scan P state).mirror item.1.id = some (P.sha256 content, some content) := by
        intro hkind
        rw [hmirror, Mirror.apply_stored hkind, hsource, Function.update_self,
          congrArg SourceEvent.sourceVersion heq, congrArg SourceEvent.content heq]
      have hkind : (s.event P state item).kind = changeKind (s.previous.lookup item.1.id) (P.sha256 content) :=
        congrArg SourceEvent.kind heq
      cases hold : s.previous.lookup item.1.id with
      | none =>
        rw [hold] at hkind
        exact hstored (Or.inl hkind)
      | some old =>
        rw [hold] at hkind
        by_cases hversion : old.sourceVersion = P.sha256 content
        · have hunchanged : (s.event P state item).kind = .unchanged := hkind.trans (if_pos hversion)
          rw [hmirror, Mirror.apply_kept (Or.inl hunchanged)]
          have hmem := mem_of_lookup hold
          cases haccepted : MarkdownCorpus.accepted old.kind with
          | false => exact hrestorable item hitem content hfixture hvalid old hmem haccepted hversion
          | true =>
            -- the last scan found a content of the same digest, which is this one
            obtain ⟨before, hbefore, entry, hentry, hid, content', hfixture', hvalid', hversion'⟩ :=
              h.accepted _ hmem haccepted
            obtain rfl : content' = content := hP (hversion'.symm.trans hversion)
            have hcurrent := hmirrored.current before hbefore entry hentry content' hfixture' hvalid'
            rwa [hid] at hcurrent
        · exact hstored (Or.inr (hkind.trans (if_neg hversion)))
    · intro state' hlast id hid
      rw [hstep.last] at hlast
      cases hlast
      obtain ⟨event, hmem, hkind⟩ := (scan_ok h).known id hid
      rcases hstep.previous _ hmem with ⟨entry, hentry, heq⟩ | ⟨old, -, heq⟩
      · cases heq
        refine ⟨entry, hentry, rfl, fun hmissing => ?_⟩
        -- without a file there was no event before, so the mirror has nothing either
        cases hold : s.previous.lookup entry.1.id with
        | none =>
          have hmalformed : (s.event P state entry).kind = .malformed := by
            unfold Scanned.event MarkdownCorpus.event
            rw [hold, hmissing]
            rfl
          rw [(hstep.entry entry hentry).2, Mirror.apply_kept (Or.inr hmalformed)] at hid
          obtain ⟨event, hmem, -⟩ := h.known _ hid
          rw [h.filed.lookup hmem] at hold
          cases hold
        | some old =>
          refine hkind ?_
          unfold Scanned.event
          rw [hold, event_missing hmissing]
          rfl
      · cases heq
        exact absurd rfl hkind

/-- **A source that comes back just as it was deleted is not mirrored.** -/
theorem not_mirrored_of_returned (h : s.Ok P) {item : Source × ManifestEntry} {content : ByteArray}
    {old : CorpusEvent} (hitem : item ∈ state.entries)
    (hfixture : state.snapshot.fixture item.2.fixture = .content content)
    (hvalid : validContent content = true) (hold : (item.1.id, old) ∈ s.previous)
    (hdeleted : old.kind = .deleted) (hversion : old.sourceVersion = P.sha256 content) :
    ¬(s.scan P state).Mirrored P := by
  intro hmirrored
  have hstep : s.Step P state (s.scan P state) := scan_step h.filed
  have hcurrent := hmirrored.current state hstep.last item hitem content hfixture hvalid
  have heq : (s.event P state item).toSourceEvent = _ := event_content hfixture hvalid
  rw [h.filed.lookup hold] at heq
  have hunchanged : (s.event P state item).kind = .unchanged :=
    (congrArg SourceEvent.kind heq).trans (if_pos hversion)
  rw [(hstep.entry item hitem).2, Mirror.apply_kept (Or.inl hunchanged)] at hcurrent
  obtain ⟨event, hmem, hkind⟩ := h.known item.1.id (by rw [hcurrent]; exact Option.some_ne_none _)
  have hsame := h.filed.lookup hmem
  rw [h.filed.lookup hold] at hsame
  cases hsame
  exact hkind hdeleted

theorem scanned_ok (P : Platform) : ({} : Scanned corpus).Ok P := by
  refine ⟨⟨?_, List.nodup_nil, ?_⟩, ?_, ?_⟩
  · exact fun item hitem => absurd hitem List.not_mem_nil
  · exact fun item hitem => absurd hitem List.not_mem_nil
  · exact fun id hid => absurd rfl hid
  · exact fun item hitem => absurd hitem List.not_mem_nil

/-- **The mirror is right after every scan exactly when every scan is restorable.** -/
theorem mirrored_iff (P : Platform) (corpus : MarkdownCorpus) (hP : Function.Injective P.sha256)
    (states : List (CorpusState corpus)) :
    Machine.Always (Scanned.scan P) (Scanned.Mirrored P) {} states ↔
      Machine.Meets (Scanned.scan P) (Restorable P) {} states := by
  have hfirst : ({} : Scanned corpus).Mirrored P := by
    constructor
    · intro state hlast
      cases hlast
    · intro state hlast
      cases hlast
  exact Machine.always_iff_meets (fun _ _ hok _ => scan_ok hok)
    (fun _ _ hok hmirrored => scan_mirrored_iff hP hok hmirrored) (scanned_ok P) hfirst

/-! ## A file that comes back -/

def samplePresent : CorpusState sampleCorpus where
  snapshot := sampleSnapshot "a"
  capturedAt := 1
  entries := [(sampleSource, sampleEntry)]
  entries_eq := sampleCorpus_entries "a"

def sampleMissing : CorpusState sampleCorpus where
  snapshot := { manifest := some [sampleEntry], fixture := fun _ => .missing }
  capturedAt := 2
  entries := [(sampleSource, sampleEntry)]
  entries_eq := sampleCorpus_entries "a"

theorem mirrored_iff_sample :
    Machine.Always (Scanned.scan samplePlatform) (Scanned.Mirrored samplePlatform) {}
        [samplePresent, sampleMissing] ↔
      Machine.Meets (Scanned.scan samplePlatform) (Restorable samplePlatform) {}
        [samplePresent, sampleMissing] :=
  mirrored_iff samplePlatform sampleCorpus samplePlatform_collisionFree.sha256
    [samplePresent, sampleMissing]

/-- A file is deleted and comes back as it was: the mirror does not get it again. -/
theorem returned_not_mirrored : ¬∀ (P : Platform) (corpus : MarkdownCorpus)
    (states : List (CorpusState corpus)), Function.Injective P.sha256 →
    Machine.Always (Scanned.scan P) (Scanned.Mirrored P) {} states := by
  intro h
  have hmirrored := (h samplePlatform sampleCorpus [samplePresent, sampleMissing, samplePresent]
    samplePlatform_collisionFree.sha256).last
  have hitem : (sampleSource, sampleEntry) ∈ samplePresent.entries := List.mem_cons_self
  have hfixture : samplePresent.snapshot.fixture sampleEntry.fixture = .content "a".toUTF8 := rfl
  let s₁ := ({} : Scanned sampleCorpus).scan samplePlatform samplePresent
  let s₂ := s₁.scan samplePlatform sampleMissing
  have hok : s₂.Ok samplePlatform := scan_ok (scan_ok (scanned_ok samplePlatform))
  have step₁ : Scanned.Step samplePlatform {} samplePresent s₁ := scan_step (scanned_ok samplePlatform).filed
  have step₂ : s₁.Step samplePlatform sampleMissing s₂ := scan_step step₁.filed
  -- the deletion keeps the version of the event before it
  have hdeleted : s₁.event samplePlatform sampleMissing (sampleSource, sampleEntry) =
      deletion (Scanned.event samplePlatform {} samplePresent (sampleSource, sampleEntry)) := by
    have hlookup := step₁.filed.lookup (step₁.entry _ hitem).1
    unfold Scanned.event at hlookup ⊢
    rw [hlookup]
    exact event_missing rfl
  have hold := (step₂.entry _ hitem).1
  rw [hdeleted] at hold
  have hnew : (Scanned.event samplePlatform {} samplePresent
      (sampleSource, sampleEntry)).toSourceEvent = _ := event_content hfixture validContent_a
  exact not_mirrored_of_returned hok hitem hfixture validContent_a hold rfl
    (congrArg SourceEvent.sourceVersion hnew) hmirrored

end GroundedOps.Ingestion
