import GroundedOps.Proof.Projection

/-!
# Artifacts and the references to them

What a delivery does to the object store and to the references of its version, stage by stage.

* `DocumentVersion.Filed`: both references of the version are the keys of stored artifacts, of
  its content and of the normalized text of that content.
* `Shelved`: the objects are intact, every version has its content, and its references are both
  unset, or the version is filed.
* `IngestionJob.Parked`: what a job looks like between two events. One that is completed, or
  that resumes at the indexing checkpoint, has a filed version.
-/

namespace GroundedOps.Ingestion

open Hoare

/-! ## The object store -/

/-- Every object has the digest it is stored under, and is small enough to be read. -/
def Intact (P : Platform) (objects : ArtifactRef → Option ByteArray) : Prop :=
  ∀ reference content, objects reference = some content →
    P.sha256 content = reference.digest ∧ content.size ≤ DocumentStore.maxBytes

/-- No object is lost or spoilt. -/
structure Grown (P : Platform) (w w' : World) : Prop where
  kept : ∀ reference content, w.objects reference = some content →
    w'.objects reference = some content
  intact : Intact P w.objects → Intact P w'.objects

section Objects

variable {P : Platform} {faults : Faults} {operation : Operation} {w w₁ w₂ w₃ : World}
  {reference : ArtifactRef} {content : ByteArray}

theorem Grown.of_eq (h : w₂.objects = w₁.objects) : Grown P w₁ w₂ :=
  ⟨fun _ _ hobject => by rw [h]; exact hobject, fun hintact => by rw [h]; exact hintact⟩

theorem Grown.refl (w : World) : Grown P w w := .of_eq rfl

theorem Grown.trans (h : Grown P w₁ w₂) (h' : Grown P w₂ w₃) : Grown P w₁ w₃ :=
  ⟨fun r x hx => h'.kept r x (h.kept r x hx), fun hintact => h'.intact (h.intact hintact)⟩

/-- What is stored under the digest of a content is the content. -/
theorem Intact.eq (hP : P.CollisionFree) (h : Intact P w.objects) {other : ByteArray}
    (hobject : w.objects reference = some other) (hdigest : reference.digest = P.sha256 content) :
    other = content :=
  hP.sha256 ((h reference other hobject).1.trans hdigest)

theorem putObject_grown (hdigest : P.sha256 content = reference.digest)
    (hsize : content.size ≤ DocumentStore.maxBytes) :
    Grown P w (DocumentStore.putObject reference content w) := by
  unfold DocumentStore.putObject
  split
  · exact .refl w
  · rename_i hnone
    have hother : ∀ r x, Function.update w.objects reference (some content) r = some x →
        r = reference ∧ x = content ∨ r ≠ reference ∧ w.objects r = some x := by
      intro r x hx
      by_cases hr : r = reference
      · subst hr
        rw [Function.update_self] at hx
        exact Or.inl ⟨rfl, (Option.some.inj hx).symm⟩
      · rw [Function.update_of_ne hr] at hx
        exact Or.inr ⟨hr, hx⟩
    refine ⟨fun r x hx => ?_, fun hintact r x hx => ?_⟩
    · have hr : r ≠ reference := by
        rintro rfl
        rw [hx] at hnone
        exact hnone rfl
      show Function.update w.objects reference (some content) r = some x
      rw [Function.update_of_ne hr]
      exact hx
    · rcases hother r x hx with ⟨rfl, rfl⟩ | ⟨-, hold⟩
      · exact ⟨hdigest, hsize⟩
      · exact hintact r x hold

theorem putObject_self (hP : P.CollisionFree) (hintact : Intact P w.objects)
    (hdigest : reference.digest = P.sha256 content) :
    (DocumentStore.putObject reference content w).objects reference = some content := by
  unfold DocumentStore.putObject
  split
  · rename_i hsome
    obtain ⟨x, hx⟩ := Option.isSome_iff_exists.1 hsome
    rw [hx, hintact.eq hP hx hdigest]
  · exact Function.update_self ..

/-- What a put changes. -/
structure Stocked (P : Platform) (w w' : World) : Prop where
  grown : Grown P w w'
  database : w'.database = w.database
  index : w'.index = w.index
  log : w'.log = w.log

/-- **A put** that returns has stored its content. -/
theorem wp_put_stocks (hP : P.CollisionFree) (hintact : Intact P w.objects) {tenantId : String}
    {kind : ArtifactKind} :
    wp (DocumentStore.put P faults operation tenantId kind content)
      (fun out w' => out = ⟨tenantId, kind, P.sha256 content⟩ ∧ Stocked P w w' ∧
        w'.objects ⟨tenantId, kind, P.sha256 content⟩ = some content)
      (fun _ w' => Stocked P w w') w := by
  have hsame : Stocked P w w := ⟨.refl w, rfl, rfl, rfl⟩
  simp only [DocumentStore.put]
  split
  · simpa using hsame
  rename_i hsize
  obtain ⟨hdb, hq⟩ := DocumentStore.putObject_quiet ⟨tenantId, kind, P.sha256 content⟩ content w
  have hput : Stocked P w (DocumentStore.putObject ⟨tenantId, kind, P.sha256 content⟩ content w) :=
    ⟨putObject_grown rfl (not_lt.1 hsize), hdb, hq.index, hq.log⟩
  simp only [wp_bind, wp_request, wp_pure]
  refine ⟨fun _ => DocumentStore.wp_getObject (fun _ _ => ?_) hput, fun _ _ => ?_⟩
  · exact ⟨trivial, hput, putObject_self hP hintact rfl⟩
  · split
    · exact hput
    · exact hsame

end Objects

/-! ## Filed versions -/

def DocumentVersion.rawArtifact (version : DocumentVersion) : ArtifactRef :=
  ⟨version.tenantId, .raw, version.contentHash⟩

def ParsedDocument.artifact (parsed : ParsedDocument) (P : Platform) (tenantId : String) :
    ArtifactRef :=
  ⟨tenantId, .normalized, P.sha256 parsed.normalizedText.toUTF8⟩

/-- The references of the version are those of `content` and of its normalized text, and both
artifacts are stored. -/
structure DocumentVersion.FiledAs (c : Components) (objects : ArtifactRef → Option ByteArray)
    (version : DocumentVersion) (content : ByteArray) (parsed : ParsedDocument) : Prop where
  parse : c.parse content = some parsed
  raw : objects version.rawArtifact = some content
  normalized : objects (parsed.artifact c.platform version.tenantId) =
    some parsed.normalizedText.toUTF8
  rawRef : version.rawRef = some version.rawArtifact.key
  normalizedRef : version.normalizedRef = some (parsed.artifact c.platform version.tenantId).key

def DocumentVersion.Filed (c : Components) (objects : ArtifactRef → Option ByteArray)
    (version : DocumentVersion) : Prop :=
  ∃ content parsed, version.FiledAs c objects content parsed

def DocumentVersion.Blank (version : DocumentVersion) : Prop :=
  version.rawRef = none ∧ version.normalizedRef = none

/-- Every version has its content stored, and is filed if it has references. -/
structure Shelved (c : Components) (w : World) : Prop where
  intact : Intact c.platform w.objects
  content : ∀ v ∈ w.database.documentVersions, ∃ content, w.objects v.rawArtifact = some content
  refs : ∀ v ∈ w.database.documentVersions, v.Blank ∨ v.Filed c w.objects

/-- The version with key `k` is filed. -/
def FiledIn (c : Components) (w : World) (k : String × String) : Prop :=
  ∃ v ∈ w.database.documentVersions, v.pk = k ∧ v.Filed c w.objects

/-- Versions stay, and so do the references that they have. -/
def RefsKept (versions versions' : DocumentVersions) : Prop :=
  ∀ v ∈ versions, ∃ v' ∈ versions', v'.bare = v.bare ∧
    (∀ r, v.rawRef = some r → v'.rawRef = some r) ∧
      ∀ r, v.normalizedRef = some r → v'.normalizedRef = some r

section Filed

variable {c : Components} {w w' : World} {versions versions' versions'' : DocumentVersions}
  {version version' : DocumentVersion} {content : ByteArray} {parsed : ParsedDocument}
  {k : String × String}

theorem RefsKept.refl (versions : DocumentVersions) : RefsKept versions versions :=
  fun v hv => ⟨v, hv, rfl, fun _ h => h, fun _ h => h⟩

theorem RefsKept.of_subset (h : ∀ v ∈ versions, v ∈ versions') : RefsKept versions versions' :=
  fun v hv => ⟨v, h v hv, rfl, fun _ h => h, fun _ h => h⟩

theorem RefsKept.trans (h : RefsKept versions versions') (h' : RefsKept versions' versions'') :
    RefsKept versions versions'' := by
  intro v hv
  obtain ⟨v', hv', hbare, hraw, hnormalized⟩ := h v hv
  obtain ⟨v'', hv'', hbare', hraw', hnormalized'⟩ := h' v' hv'
  exact ⟨v'', hv'', hbare'.trans hbare, fun r hr => hraw' r (hraw r hr),
    fun r hr => hnormalized' r (hnormalized r hr)⟩

theorem DocumentVersion.FiledAs.grown (h : version.FiledAs c w.objects content parsed)
    (hg : Grown c.platform w w') : version.FiledAs c w'.objects content parsed :=
  { h with raw := hg.kept _ _ h.raw, normalized := hg.kept _ _ h.normalized }

theorem DocumentVersion.Filed.grown (h : version.Filed c w.objects) (hg : Grown c.platform w w') :
    version.Filed c w'.objects := by
  obtain ⟨content, parsed, hfiled⟩ := h
  exact ⟨content, parsed, hfiled.grown hg⟩

/-- A filed version stays filed where its references are kept. -/
theorem DocumentVersion.FiledAs.kept (h : version.FiledAs c w.objects content parsed)
    (hg : Grown c.platform w w') (hbare : version'.bare = version.bare)
    (hraw : ∀ r, version.rawRef = some r → version'.rawRef = some r)
    (hnormalized : ∀ r, version.normalizedRef = some r → version'.normalizedRef = some r) :
    version'.FiledAs c w'.objects content parsed := by
  obtain ⟨hdoc, -, -, -, hhash⟩ := version_of_bare hbare
  have ht : version'.tenantId = version.tenantId := congrArg Prod.fst hdoc
  have hartifact : version'.rawArtifact = version.rawArtifact := by
    unfold DocumentVersion.rawArtifact
    rw [ht, hhash]
  refine ⟨h.parse, ?_, ?_, ?_, ?_⟩
  · rw [hartifact]
    exact hg.kept _ _ h.raw
  · rw [ht]
    exact hg.kept _ _ h.normalized
  · rw [hartifact]
    exact hraw _ h.rawRef
  · rw [ht]
    exact hnormalized _ h.normalizedRef

theorem FiledIn.kept (h : FiledIn c w k) (hg : Grown c.platform w w')
    (hrefs : RefsKept w.database.documentVersions w'.database.documentVersions) :
    FiledIn c w' k := by
  obtain ⟨v, hv, hpk, content, parsed, hfiled⟩ := h
  obtain ⟨v', hv', hbare, hraw, hnormalized⟩ := hrefs v hv
  exact ⟨v', hv', (bare_eq hbare).1.trans hpk, content, parsed,
    hfiled.kept hg hbare hraw hnormalized⟩

theorem Shelved.of_same (h : Shelved c w) (hg : Grown c.platform w w')
    (hversions : w'.database.documentVersions = w.database.documentVersions) : Shelved c w' := by
  refine ⟨hg.intact h.intact, fun v hv => ?_, fun v hv => ?_⟩
  · rw [hversions] at hv
    obtain ⟨content, hcontent⟩ := h.content v hv
    exact ⟨content, hg.kept _ _ hcontent⟩
  · rw [hversions] at hv
    exact (h.refs v hv).imp id fun hfiled => hfiled.grown hg

theorem coalesceRef_of_agrees {old : Option String} {new : String} (h : refAgrees old new = true) :
    coalesceRef old new = some new ∧ ∀ r, old = some r → some new = some r := by
  cases old with
  | none => exact ⟨rfl, fun r hr => by cases hr⟩
  | some r =>
    have hr : r = new := by simpa [refAgrees] using h
    subst hr
    exact ⟨rfl, fun r hr => hr⟩

end Filed

/-! ## Recording the artifacts -/

/-- What `PARSING` leaves: both artifacts are stored, and `update_artifacts` has been done. -/
structure Archived (c : Components) (tenantId versionId : String) (content : ByteArray)
    (w w' : World) : Prop where
  grown : Grown c.platform w w'
  recorded : ∃ parsed, c.parse content = some parsed ∧
    w'.objects ⟨tenantId, .raw, c.platform.sha256 content⟩ = some content ∧
    w'.objects (parsed.artifact c.platform tenantId) = some parsed.normalizedText.toUTF8 ∧
    w.database.documentVersions.updateArtifacts tenantId versionId
      (ArtifactRef.key ⟨tenantId, .raw, c.platform.sha256 content⟩)
      (parsed.artifact c.platform tenantId).key = some w'.database.documentVersions

/-- What keeps the artifacts in order. -/
structure Shelves (c : Components) (w w' : World) : Prop where
  grown : Grown c.platform w w'
  refs : RefsKept w.database.documentVersions w'.database.documentVersions
  shelved : Shelved c w'

section Shelves

variable {c : Components} {w w₁ w' : World} {version : DocumentVersion} {content : ByteArray}
  {tenantId versionId : String}

theorem Archived.of_same (h : Archived c tenantId versionId content w w₁)
    (hobjects : w'.objects = w₁.objects)
    (hversions : w'.database.documentVersions = w₁.database.documentVersions) :
    Archived c tenantId versionId content w w' := by
  obtain ⟨parsed, hparse, hraw, hnormalized, hupdate⟩ := h.recorded
  refine ⟨h.grown.trans (.of_eq hobjects), parsed, hparse, ?_, ?_, ?_⟩
  · rw [hobjects]
    exact hraw
  · rw [hobjects]
    exact hnormalized
  · rw [hversions]
    exact hupdate

theorem Archived.after (hg : Grown c.platform w w₁)
    (hversions : w₁.database.documentVersions = w.database.documentVersions)
    (h : Archived c tenantId versionId content w₁ w') :
    Archived c tenantId versionId content w w' := by
  obtain ⟨parsed, hparse, hraw, hnormalized, hupdate⟩ := h.recorded
  exact ⟨hg.trans h.grown, parsed, hparse, hraw, hnormalized, hversions ▸ hupdate⟩

theorem Shelves.trans (h : Shelves c w w₁) (h' : Shelves c w₁ w') : Shelves c w w' :=
  ⟨h.grown.trans h'.grown, h.refs.trans h'.refs, h'.shelved⟩

theorem Shelved.shelves (hs : Shelved c w) (hg : Grown c.platform w w')
    (hversions : w'.database.documentVersions = w.database.documentVersions) : Shelves c w w' :=
  ⟨hg, hversions ▸ .refl _, hs.of_same hg hversions⟩

/-- **What `update_artifacts` does**: the references agree with those of the version, which is replaced
and no other. -/
theorem updateArtifacts_eq {versions versions' : DocumentVersions} {rawRef normalizedRef : String}
    (hv : version ∈ versions) (hpk : version.pk = (tenantId, versionId))
    (h : versions.updateArtifacts tenantId versionId rawRef normalizedRef = some versions') :
    refAgrees version.rawRef rawRef = true ∧ refAgrees version.normalizedRef normalizedRef = true ∧
      ∀ u, u ∈ versions' ↔ u = version.withArtifacts rawRef normalizedRef ∨
        u ∈ versions ∧ u.pk ≠ (tenantId, versionId) := by
  unfold DocumentVersions.updateArtifacts at h
  rw [Table.find_eq_some.2 ⟨hv, hpk⟩] at h
  dsimp only at h
  split at h
  swap
  · cases h
  rename_i hagrees
  obtain ⟨hraw, hnormalized⟩ := Bool.and_eq_true_iff.1 hagrees
  refine ⟨hraw, hnormalized, fun u => ?_⟩
  rw [← Option.some.inj h, Table.mem_modify]
  constructor
  · rintro ⟨row, hrow, rfl⟩
    by_cases hk : row.pk = (tenantId, versionId)
    · obtain rfl : row = version := Table.eq_of_pk hrow hv (hk.trans hpk.symm)
      exact Or.inl (if_pos hk)
    · rw [if_neg hk]
      exact Or.inr ⟨hrow, hk⟩
  · rintro (rfl | ⟨hu, hk⟩)
    · exact ⟨version, hv, if_pos hpk⟩
    · exact ⟨u, hu, if_neg hk⟩

/-- **A version whose artifacts are recorded is filed**, and no other reference has moved. -/
theorem Archived.shelves (hs : Shelved c w) (hv : version ∈ w.database.documentVersions)
    (hpk : version.pk = (tenantId, versionId))
    (hhash : version.contentHash = c.platform.sha256 content)
    (h : Archived c tenantId versionId content w w') :
    Shelves c w w' ∧ FiledIn c w' (tenantId, versionId) := by
  obtain ⟨parsed, hparse, hraw, hnormalized, hupdate⟩ := h.recorded
  have ht : version.tenantId = tenantId := congrArg Prod.fst hpk
  have hartifact : version.rawArtifact = ⟨tenantId, .raw, c.platform.sha256 content⟩ := by
    unfold DocumentVersion.rawArtifact
    rw [ht, hhash]
  rw [← hartifact] at hraw hupdate
  rw [← ht] at hnormalized
  obtain ⟨hagreesRaw, hagreesNormalized, hmem⟩ := updateArtifacts_eq hv hpk hupdate
  obtain ⟨hcoalesceRaw, hkeepRaw⟩ := coalesceRef_of_agrees hagreesRaw
  obtain ⟨hcoalesceNormalized, hkeepNormalized⟩ := coalesceRef_of_agrees hagreesNormalized
  set recorded := version.withArtifacts version.rawArtifact.key
    (parsed.artifact c.platform tenantId).key
  have hfiled : recorded.FiledAs c w'.objects content parsed := by
    refine ⟨hparse, hraw, hnormalized, hcoalesceRaw, ?_⟩
    show recorded.normalizedRef = some (parsed.artifact c.platform version.tenantId).key
    rw [ht]
    exact hcoalesceNormalized
  refine ⟨⟨h.grown, fun v hvm => ?_, h.grown.intact hs.intact, fun u hu => ?_, fun u hu => ?_⟩,
    recorded, (hmem recorded).2 (Or.inl rfl), hpk, content, parsed, hfiled⟩
  · by_cases hk : v.pk = (tenantId, versionId)
    · obtain rfl : v = version := Table.eq_of_pk hvm hv (hk.trans hpk.symm)
      refine ⟨recorded, (hmem recorded).2 (Or.inl rfl), rfl, fun r hr => ?_, fun r hr => ?_⟩
      · exact hcoalesceRaw.trans (hkeepRaw r hr)
      · exact hcoalesceNormalized.trans (hkeepNormalized r hr)
    · exact ⟨v, (hmem v).2 (Or.inr ⟨hvm, hk⟩), rfl, fun _ hr => hr, fun _ hr => hr⟩
  · rcases (hmem u).1 hu with rfl | ⟨hold, -⟩
    · exact ⟨content, hfiled.raw⟩
    · obtain ⟨x, hx⟩ := hs.content u hold
      exact ⟨x, h.grown.kept _ _ hx⟩
  · rcases (hmem u).1 hu with rfl | ⟨hold, -⟩
    · exact Or.inr ⟨content, parsed, hfiled⟩
    · exact (hs.refs u hold).imp id fun hfiled => hfiled.grown h.grown

end Shelves

end GroundedOps.Ingestion
