import GroundedOps.Proof.Currency

/-!
# Reachable states are restorable

Replay refuses a state whose artifacts are not those of its versions, or in which an active
document has a current version without a completed job. The pipeline promotes a version and
completes its job in one transaction; a promotion outside of it may come before the completion.

* `reference_key`: the key of an artifact reads back as the artifact.
* `Served`: every current version is one of its document, and completed.
* `live_served`: every event keeps it, but for the promotion of a version that is not completed.
* `count_served`: then the counts of replay agree.
* `restorable`: **a completed version is filed, its references stay, and replay raises no
  integrity error after a run without such promotions.**
-/

namespace GroundedOps.Ingestion

open Hoare

/-! ## Keys -/

/-- The pattern of digests takes what `sha256` writes, and nothing with a separator. -/
structure DigestPattern (P : Platform) (validDigest : String → Bool) : Prop where
  digest : ∀ content, validDigest (P.sha256 content) = true
  separator : ∀ value, validDigest value = true → '/' ∉ value.toList

theorem validIdentifier_separator {value : String} (h : validIdentifier value = true) :
    '/' ∉ value.toList := by
  unfold validIdentifier at h
  split at h
  · cases h
  · rename_i ch chs hvalue
    rw [Bool.and_eq_true, Bool.and_eq_true, List.all_eq_true] at h
    rw [hvalue, List.mem_cons]
    rintro (rfl | hmem)
    · exact absurd h.1.1 (by decide)
    · exact absurd (h.2 _ hmem) (by decide)

section Keys

variable {P : Platform} {validDigest : String → Bool} {tenant : String} {kind : ArtifactKind}

theorem splitOn_key {digest : String} (ht : '/' ∉ tenant.toList) (hd : '/' ∉ digest.toList) :
    (ArtifactRef.key ⟨tenant, kind, digest⟩).toList.splitOn '/' =
      [tenant.toList, kind.value.toList, digest.toList] := by
  have hk : '/' ∉ kind.value.toList := by
    cases kind with
    | raw => decide
    | normalized => decide
  have hkey : (ArtifactRef.key ⟨tenant, kind, digest⟩).toList =
      tenant.toList ++ '/' :: (kind.value.toList ++ '/' :: digest.toList) := by
    unfold ArtifactRef.key
    simp [String.toList_append]
  rw [hkey, List.splitOn_append_cons_self_of_not_mem ht,
    List.splitOn_append_cons_self_of_not_mem hk, List.splitOn_eq_singleton hd]

/-- **The key of an artifact** reads back as the artifact. -/
theorem reference_key (hpattern : DigestPattern P validDigest) (ht : validIdentifier tenant = true)
    (content : ByteArray) :
    reference validDigest tenant kind (some (ArtifactRef.key ⟨tenant, kind, P.sha256 content⟩)) =
      pure ⟨tenant, kind, P.sha256 content⟩ := by
  have hdigest := hpattern.digest content
  unfold reference
  dsimp only
  rw [splitOn_key (validIdentifier_separator ht) (hpattern.separator _ hdigest)]
  dsimp only
  rw [if_neg (by simp), String.ofList_toList, ht, hdigest]
  rfl

end Keys

/-! ## One version -/

/-- Nothing but what the store, the parser or the index writer raises. -/
def OnlyRaised (error : ReplayError) : Prop := ∃ raised, error = .raised raised

section Version

variable {c : Components} {validDigest : String → Bool} {faults : Faults} {row : ReplayRow}
  {db : Database} {objects : ArtifactRef → Option ByteArray} {w : World}

/-- **The body of the loop** finds nothing wrong with a version that is filed. -/
theorem wp_replayVersion_filed (hP : c.platform.CollisionFree)
    (hpattern : DigestPattern c.platform validDigest) (hrow : row.Joins db)
    (hintact : Intact c.platform objects) (hfiled : row.version.Filed c objects) :
    wp (replayVersion c validDigest faults row) (fun _ _ => True) (fun error _ => OnlyRaised error)
      w := by
  obtain ⟨content, parsed, hfiled⟩ := hfiled
  have hdigest : c.platform.sha256 content = row.version.contentHash :=
    (hintact _ _ hfiled.raw).1
  have htenant : validIdentifier row.version.tenantId = true := by
    have hsource : row.source.tenantId = row.document.tenantId := congrArg Prod.fst hrow.source_pk
    have hdocument : row.document.tenantId = row.version.tenantId :=
      congrArg Prod.fst hrow.document_pk
    have hvalid := row.source.identifiers_valid
    rw [Bool.and_eq_true, Bool.and_eq_true] at hvalid
    rw [← hdocument, ← hsource]
    exact hvalid.1.2
  have hraised : ∀ {raised : Raised}, OnlyRaised (.raised raised) := ⟨_, rfl⟩
  have hraw : row.version.rawRef =
      some (ArtifactRef.key ⟨row.version.tenantId, .raw, c.platform.sha256 content⟩) := by
    rw [hfiled.rawRef, DocumentVersion.rawArtifact, hdigest]
  have hnormalized : row.version.normalizedRef = some (ArtifactRef.key
      ⟨row.version.tenantId, .normalized, c.platform.sha256 parsed.normalizedText.toUTF8⟩) :=
    hfiled.normalizedRef
  unfold replayVersion
  simp only [hraw, hnormalized, reference_key hpattern htenant, wp_bind, wp_pure, wp_raiseAs,
    wp_reach]
  refine ⟨fun _ => ?_, fun _ _ => hraised⟩
  refine DocumentStore.wp_getObject (fun raw hread => ?_) hraised
  refine DocumentStore.wp_getObject (fun normalized hreadNormalized => ?_) hraised
  -- what is read is what the version was filed with
  obtain rfl : raw = content := hP.sha256 hread
  obtain rfl : normalized = parsed.normalizedText.toUTF8 := hP.sha256 hreadNormalized
  rw [if_neg (not_not.2 hdigest)]
  simp only [wp_bind, wp_raiseAs, wp_orRaise, hfiled.parse]
  refine ⟨fun found hfound => ?_, fun _ => hraised⟩
  obtain rfl := Option.some.inj hfound
  rw [if_neg (not_not.2 rfl)]
  split
  · trivial
  · simp only [wp_bind, wp_pure, wp_raiseAs, wp_observe]
    have hchunks : wp ((c.chunk parsed).mapM (replayChunk c
        (chunkIdsOf c row.version.id (c.chunk parsed)))) (fun _ _ => True)
        (fun error _ => OnlyRaised error) w := by
      refine wp_mapM (I := fun _ _ => True) (fun _ chunk _ _ _ _ => ?_) trivial
      unfold replayChunk
      split
      · exact hraised
      · trivial
    refine wp_mono hchunks (fun chunks w' _ => ?_) fun _ _ h => h
    refine wp_mono wp_self ?_ ?_
    · exact fun _ _ _ => trivial
    · exact fun _ _ _ => hraised

end Version

/-! ## Current versions -/

/-- The version is one of the document with key `k`, and completed. -/
def Serves (db : Database) (k : String × String) (versionId : String) : Prop :=
  ∃ v ∈ db.documentVersions, v.id = versionId ∧ k = (v.tenantId, v.documentId) ∧
    db.ingestionJobs.completed v.pk

/-- Every current version is one of its document, and completed. -/
def Served (db : Database) : Prop :=
  ∀ d ∈ db.documents, ∀ versionId, d.currentVersionId = some versionId →
    Serves db d.pk versionId

/-- Outside of deliveries, only completed versions are promoted. -/
def PromotesCompleted (w : World) : LifecycleEvent → Prop
  | .promote tenantId versionId => w.database.ingestionJobs.completed (tenantId, versionId)
  | _ => True

section Served

variable {P : Platform} {c : Components} {w : World} {db : Database} {uuids : ℕ} {d : Document}
  {version : DocumentVersion} {k : String × String} {versionId : String}

/-- Versions stay, and so do completed jobs. -/
theorem Serves.live (hP : c.platform.CollisionFree) (h : Kept c w) (event : LifecycleEvent)
    (hs : Serves w.database k versionId) : Serves (w.live c event).database k versionId := by
  obtain ⟨v, hv, hid, hk, hdone⟩ := hs
  obtain ⟨v', hv', hbare, -⟩ := (live_kept hP h event).2.refs v hv
  obtain ⟨hkeys, hids, -⟩ := version_of_bare hbare
  have hpk : v'.pk = v.pk := (bare_eq hbare).1
  exact ⟨v', hv', hids.trans hid, hk.trans hkeys.symm, hpk ▸ live_completed h event hdone⟩

/-- Where a document has its current version from, after a promotion. -/
theorem served_of_promoted (hpromoted : Serves db (version.tenantId, version.documentId) version.id)
    (h : Served db) (hd : d ∈ (db.promoted P version).documents)
    (hcurrent : d.currentVersionId = some versionId) : Serves db d.pk versionId := by
  obtain ⟨old, hold, rfl⟩ := mem_promoted.1 hd
  rw [promotedTo_pk]
  unfold Document.promotedTo at hcurrent
  split at hcurrent
  · rename_i hguard
    obtain rfl := Option.some.inj hcurrent
    rw [hguard.1]
    exact hpromoted
  · exact h old hold versionId hcurrent

/-- **Every event keeps the current versions completed**, but for the promotion of one that is not. -/
theorem live_served (hP : c.platform.CollisionFree) (h : Kept c w) (event : LifecycleEvent)
    (hok : PromotesCompleted w event) (hs : Served w.database) :
    Served (w.live c event).database := by
  intro d hd versionId hcurrent
  -- a version that served its document before the event still does after it
  have hold : ∀ {d₀}, d₀ ∈ w.database.documents → d₀.pk = d.pk →
      d₀.currentVersionId = some versionId → Serves (w.live c event).database d.pk versionId :=
    fun hd₀ hpk hcurrent₀ => hpk ▸ (hs _ hd₀ _ hcurrent₀).live hP h event
  cases event with
  | worker event =>
    cases step_effect w event h.consistent with
    | submitted _ _ _ _ s w₁ w₂ before _ submitted after _ _ _ =>
      have hd₂ : d ∈ w₂.database.documents := after.documents ▸ hd
      rcases submitted.mem_documents hd₂ with hmem | ⟨-, -, hnone⟩
      · rw [before] at hmem
        exact hold hmem rfl hcurrent
      · rw [hnone] at hcurrent
        cases hcurrent
    | unfinished rows _ _ _ =>
      have hmem : d ∈ w.database.documents := rows.documents ▸ hd
      exact hold hmem rfl hcurrent
    | finished row version document _ reached rows _ _ _ =>
      have hpromoted : d ∈ (w.database.promoted c.platform version).documents := by
        have hnew : d ∈ (w.step c event).database.documents := hd
        rw [rows.documents] at hnew
        exact hnew
      obtain ⟨old, hmem, rfl⟩ := mem_promoted.1 hpromoted
      unfold Document.promotedTo at hcurrent
      split at hcurrent
      · -- the job of the promoted version has been completed in the same transaction
        rename_i hguard
        obtain rfl := Option.some.inj hcurrent
        obtain ⟨v', hv', hbare⟩ := rows.same.versions.symm.mem reached.version_mem
        obtain ⟨hkeys, hids, -⟩ := version_of_bare hbare
        have hdone := (rows.completed v'.pk).2 (Or.inr (bare_eq hbare).1)
        rw [promotedTo_pk, hguard.1]
        exact ⟨v', hv', hids, hkeys.symm, hdone⟩
      · exact hold hmem promotedTo_pk.symm hcurrent
  | promote tenantId versionId' =>
    rcases call_promote c.platform w tenantId versionId' with hdb | ⟨version, hfind, hdb⟩
    · have hmem : d ∈ w.database.documents := hdb ▸ hd
      exact hold hmem rfl hcurrent
    · have hpromoted : Serves w.database (version.tenantId, version.documentId) version.id := by
        obtain ⟨hv, hpk⟩ := Table.find_eq_some.1 hfind
        exact ⟨version, hv, rfl, rfl, hpk ▸ hok⟩
      have hmem : d ∈ (w.database.promoted c.platform version).documents := hdb ▸ hd
      exact (served_of_promoted hpromoted hs hmem hcurrent).live hP h _
  | delete tenantId documentId =>
    have hdeleted : d ∈ (w.database.delete tenantId documentId).documents :=
      call_delete c.platform w tenantId documentId ▸ hd
    obtain ⟨old, hmem, rfl⟩ := mem_deleted.1 hdeleted
    unfold Document.deletedBy at hcurrent hold
    split at hcurrent
    · cases hcurrent
    · rename_i hk
      rw [if_neg hk] at hold
      unfold Document.deletedBy
      rw [if_neg hk]
      exact hold hmem rfl hcurrent

theorem life_served (hP : c.platform.CollisionFree) {es : List LifecycleEvent} (h : Kept c w)
    (hs : Served w.database) (hmeets : Machine.Meets (World.live c) PromotesCompleted w es) :
    Served (Machine.run (World.live c) w es).database := by
  induction es generalizing w with
  | nil => exact hs
  | cons event events ih =>
    obtain ⟨hok, hrest⟩ := hmeets
    exact ih (live_kept hP h event).1 (live_served hP h event hok hs) hrest

/-- **The counts of replay agree** when every current version is completed. -/
theorem count_served (hc : Consistent P db uuids) (hs : Served db) :
    (db.replayRows P).countP ReplayRow.isCurrent = db.documents.rows.countP Document.active := by
  refine count_current hc fun d hd hactive => ?_
  have hcurrent : d.currentVersionId.isSome = true := (Bool.and_eq_true_iff.1 hactive).2
  obtain ⟨versionId, hcurrent⟩ := Option.isSome_iff_exists.1 hcurrent
  obtain ⟨v, hv, rfl, hpk, hdone⟩ := hs d hd versionId hcurrent
  obtain ⟨row, hrow, rfl, rfl⟩ := exists_row (P := P) hc hd hactive hv hpk hdone
  exact ⟨row, hrow, beq_iff_eq.2 hcurrent, rfl⟩

end Served

/-! ## Runs -/

section Runs

variable {c : Components} {w : World} {version : DocumentVersion} {validDigest : String → Bool}

/-- Every version is made of a submission. -/
theorem life_recorded (hP : c.platform.CollisionFree) (es : List LifecycleEvent) :
    let w := Machine.run (World.live c) {} es
    Recorded c.platform w.database w.submissions := by
  have hrun : Consistent c.platform (Machine.run (World.live c) {} es).database
      (Machine.run (World.live c) {} es).uuids ∧ Recorded c.platform
        (Machine.run (World.live c) {} es).database
        (Machine.run (World.live c) {} es).submissions := by
    refine Machine.run_inv (I := fun w : World => Consistent c.platform w.database w.uuids ∧
      Recorded c.platform w.database w.submissions) (fun w event h => ?_)
      ⟨.empty c.platform 0, fun d hd => ?_, fun e he => ?_⟩
    · refine ⟨live_consistent hP event h.1, ?_⟩
      have hcalled : ∀ {w'}, DocumentsOnly w w' → Recorded c.platform w'.database w'.submissions := by
        intro w' hcall
        rw [submissions_of_log hcall.quiet.log]
        exact h.2.same hcall.same
      cases event with
      | worker event =>
        exact Effect.recorded (w := { w with now := event.now }) h.1 h.2 (step_effect w event h.1)
      | promote tenantId versionId => exact hcalled (promote_documentsOnly w tenantId versionId)
      | delete tenantId documentId => exact hcalled (delete_documentsOnly w tenantId documentId)
    · exact absurd hd Table.not_mem_empty
    · exact absurd he List.not_mem_nil
  exact hrun.2

/-- A completed version is filed. -/
theorem Kept.filed (h : Kept c w) (hv : version ∈ w.database.documentVersions)
    (hdone : w.database.ingestionJobs.completed version.pk) : version.Filed c w.objects := by
  obtain ⟨row, hrow, hkey, hstate⟩ := hdone
  have hparked := h.parked row hrow
  unfold IngestionJob.Parked at hparked
  rw [hstate] at hparked
  obtain ⟨v, hvmem, hpk, hfiled⟩ := hparked.2.2
  obtain rfl : v = version := Table.eq_of_pk hvmem hv (hpk.trans hkey)
  exact hfiled

/-- **Replay finds nothing wrong** where the current versions are completed. -/
theorem wp_replayAuthoritative_served (hP : c.platform.CollisionFree)
    (hpattern : DigestPattern c.platform validDigest) (h : Kept c w) (hs : Served w.database)
    (candidate : Index) (faults : ReplayRow → Faults) :
    wp (replayAuthoritative c validDigest faults) (fun _ _ => True)
      (fun error _ => OnlyRaised error) { w with index := candidate } := by
  unfold replayAuthoritative
  simp only [wp_bind, Hoare.wp_get]
  rw [if_neg (not_not.2 (count_served h.consistent hs))]
  simp only [wp_bind, wp_pure]
  refine wp_mapM (I := fun _ _ => True) (fun done row rest hrows w' _ => ?_) trivial
  have hrow : row ∈ w.database.replayRows c.platform := by
    rw [hrows]
    exact List.mem_append_right _ List.mem_cons_self
  have hjoins : row.Joins w.database := joins_of_mem hrow
  exact wp_replayVersion_filed hP hpattern hjoins h.shelved.intact
    (h.filed hjoins.version hjoins.completed)

end Runs

/-- **Every reachable state is restorable**: a completed version is filed under the keys of the
content that was submitted and of its normalized text, the references never change, and replay
raises no integrity error, if only completed versions have been promoted outside of deliveries. -/
theorem restorable {c : Components} (hP : c.platform.CollisionFree) {validDigest : String → Bool}
    (hpattern : DigestPattern c.platform validDigest) (es more : List LifecycleEvent)
    (candidate : Index) (faults : ReplayRow → Faults) :
    let w := Machine.run (World.live c) {} es
    (∀ v ∈ w.database.documentVersions, w.database.ingestionJobs.completed v.pk →
      ∃ event ∈ w.submissions, ∃ content parsed, v.MadeOf c.platform event ∧
        event.content = some content ∧ v.FiledAs c w.objects content parsed) ∧
    RefsKept w.database.documentVersions
      (Machine.run (World.live c) w more).database.documentVersions ∧
    (Machine.Meets (World.live c) PromotesCompleted {} es →
      wp (replayAuthoritative c validDigest faults) (fun _ _ => True)
        (fun error _ => OnlyRaised error) { w with index := candidate }) := by
  intro w
  have hkept : Kept c w := life_kept hP es
  refine ⟨fun v hv hdone => ?_, (life_shelves hP hkept more).refs, fun hmeets => ?_⟩
  · obtain ⟨content, parsed, hfiled⟩ := hkept.filed hv hdone
    obtain ⟨d, hd, hpk⟩ := hkept.consistent.version_document v hv
    obtain ⟨event, hfirst, hmade⟩ := (life_recorded hP es).first d hd v hv hpk.symm
    have hevent : event ∈ w.submissions := (List.mem_filter.1 (List.mem_of_find?_eq_some hfirst)).1
    obtain ⟨submitted, hsubmitted, hhash⟩ := hmade.contentHash
    have hdigest : c.platform.sha256 content = v.contentHash :=
      (hkept.shelved.intact _ _ hfiled.raw).1
    obtain rfl : submitted = content := hP.sha256 (hhash.symm.trans hdigest.symm)
    exact ⟨event, hevent, submitted, parsed, hmade, hsubmitted, hfiled⟩
  · have hnone : Served ({} : World).database := fun d hd => absurd hd Table.not_mem_empty
    exact wp_replayAuthoritative_served hP hpattern hkept (life_served hP Kept.empty hnone hmeets)
      candidate faults

/-! ## A promotion before the completion -/

/-- A character for each byte, none of them a separator. -/
def wideChar (b : UInt8) : Char :=
  ⟨b.toUInt32 + 256, Or.inl (by
    have := b.toNat_lt
    simp only [UInt32.toNat_add, UInt8.toNat_toUInt32, UInt32.toNat_ofNat]
    omega)⟩

def widePlatform : Platform :=
  { samplePlatform with sha256 := fun content => String.ofList (content.data.toList.map wideChar) }

def isWide (value : String) : Bool := value.toList.all fun ch => 256 ≤ ch.toNat

theorem wideChar_toNat (b : UInt8) : (wideChar b).toNat = b.toNat + 256 := by
  have hlt := b.toNat_lt
  show (b.toUInt32 + 256).toNat = _
  simp only [UInt32.toNat_add, UInt8.toNat_toUInt32, UInt32.toNat_ofNat]
  omega

theorem wideChar_injective : Function.Injective wideChar := by
  intro a b h
  have hnat := congrArg Char.toNat h
  rw [wideChar_toNat, wideChar_toNat] at hnat
  exact UInt8.toNat_inj.1 (Nat.add_right_cancel hnat)

theorem widePlatform_collisionFree : widePlatform.CollisionFree where
  sha256 a b h := by
    have hlist := List.map_injective_iff.2 wideChar_injective (String.ofList_injective h)
    exact ByteArray.ext (Array.toList_inj.1 hlist)
  uuid4 := samplePlatform_collisionFree.uuid4
  uuid4_hex := samplePlatform_collisionFree.uuid4_hex

theorem widePlatform_pattern : DigestPattern widePlatform isWide where
  digest content := by
    have hlist : (widePlatform.sha256 content).toList = content.data.toList.map wideChar :=
      String.toList_ofList
    unfold isWide
    rw [hlist, List.all_map, List.all_eq_true]
    intro b _
    have hnat := wideChar_toNat b
    simp only [Function.comp_apply, decide_eq_true_eq]
    omega
  separator value h hmem := by
    have hwide := List.all_eq_true.1 h '/' hmem
    exact absurd hwide (by decide)

def wideComponents : Components := markdownComponents widePlatform ⟨2, Nat.two_pos⟩

def wideSubmission : LifecycleEvent :=
  .worker { action := .submit { sampleEvent "a" 0 with sourceVersion := "1" } }

/-- A version whose job is delivered before it is promoted again. -/
theorem restorable_delivered :
    let es : List LifecycleEvent := [wideSubmission,
      .worker { action := .deliver "tenant" (widePlatform.uuid4 2) },
      .promote "tenant" (widePlatform.uuid4 1)]
    let w := Machine.run (World.live wideComponents) {} es
    wp (replayAuthoritative wideComponents isWide fun _ => {}) (fun _ _ => True)
      (fun error _ => OnlyRaised error) { w with index := ∅ } := by
  intro es w
  have hmeets : Machine.Meets (World.live wideComponents) PromotesCompleted {} es := by
    refine ⟨trivial, trivial, ?_, trivial⟩
    show IngestionJobs.completed _ _
    decide +kernel
  exact (restorable widePlatform_collisionFree widePlatform_pattern es [] ∅ fun _ => {}).2.2 hmeets

/-- Replay refuses a state in which the counts differ. -/
theorem wp_replay_refuses {c : Components} {validDigest : String → Bool}
    {faults : ReplayRow → Faults} {w : World} {N : ReplaySummary → World → Prop}
    {E : ReplayError → World → Prop}
    (h : (w.database.replayRows c.platform).countP ReplayRow.isCurrent ≠
      w.database.documents.rows.countP Document.active)
    (hwp : wp (replayAuthoritative c validDigest faults) N E w) :
    E (.integrity "current version is not restorable") w := by
  unfold replayAuthoritative at hwp
  simp only [wp_bind, Hoare.wp_get] at hwp
  rw [if_pos h] at hwp
  exact hwp

/-- The version of the submission is promoted, and its job never delivered. -/
def promotedRun : List LifecycleEvent := [wideSubmission, .promote "tenant" (widePlatform.uuid4 1)]

def promotedWorld : World := Machine.run (World.live wideComponents) {} promotedRun

/-- **A promoted version without a completed job is not restorable.** -/
theorem promoted_not_restorable : ¬ ∀ (c : Components) (validDigest : String → Bool)
    (es : List LifecycleEvent) (candidate : Index) (faults : ReplayRow → Faults),
    c.platform.CollisionFree → DigestPattern c.platform validDigest →
      let w := Machine.run (World.live c) {} es
      wp (replayAuthoritative c validDigest faults) (fun _ _ => True)
        (fun error _ => OnlyRaised error) { w with index := candidate } := by
  intro h
  have hwp := h wideComponents isWide promotedRun ∅ (fun _ => {}) widePlatform_collisionFree
    widePlatform_pattern
  have hrows : promotedWorld.database.ingestionJobs.rows.filterMap
      promotedWorld.database.replayRow = [] := by decide +kernel
  have hactive : promotedWorld.database.documents.rows.countP Document.active = 1 := by
    decide +kernel
  have hcount : (promotedWorld.database.replayRows wideComponents.platform).countP
      ReplayRow.isCurrent ≠ promotedWorld.database.documents.rows.countP Document.active := by
    unfold Database.replayRows
    rw [hrows, hactive, List.mergeSort_nil]
    decide
  obtain ⟨raised, hraised⟩ := wp_replay_refuses hcount hwp
  cases hraised

end GroundedOps.Ingestion
