import GroundedOps.Lib.Machine
import GroundedOps.Lib.Register
import GroundedOps.Proof.Submission

/-!
# Promotion and deletion of a document

`promote` offers a version to its document as to a register that keeps the newest; `delete`
closes the document for good.

* `call_cases`: what one call of the repository does to the database.
* `promote_offers`: a promotion of a version is an offer to its document.
* `promotions_confluent`: **the current version is the newest of the promoted ones, whatever
  the order of the promotions, and a deleted document stays deleted.**
-/

namespace GroundedOps.Ingestion

open Hoare

/-! ## The order of versions -/

section Order

variable {P : Platform} {a b c : ℤ × String}

theorem revisionLe_iff : P.revisionLe a b ↔ a.1 < b.1 ∨ a.1 = b.1 ∧ P.collation a.2 b.2 := by
  simp [Platform.revisionLe]

theorem revisionLe_total (P : Platform) (a b : ℤ × String) :
    P.revisionLe a b ∨ P.revisionLe b a := by
  rw [revisionLe_iff, revisionLe_iff]
  have htext := P.collation_total a.2 b.2
  rcases lt_trichotomy a.1 b.1 with h | h | h
  · exact Or.inl (Or.inl h)
  · exact htext.imp (fun ht => Or.inr ⟨h, ht⟩) (fun ht => Or.inr ⟨h.symm, ht⟩)
  · exact Or.inr (Or.inl h)

theorem revisionLe_trans (hab : P.revisionLe a b) (hbc : P.revisionLe b c) :
    P.revisionLe a c := by
  rw [revisionLe_iff] at hab hbc ⊢
  rcases hab with hab | ⟨hab, htab⟩
  · rcases hbc with hbc | ⟨hbc, -⟩
    · exact Or.inl (by omega)
    · exact Or.inl (by omega)
  · rcases hbc with hbc | ⟨hbc, htbc⟩
    · exact Or.inl (by omega)
    · exact Or.inr ⟨by omega, P.collation_trans _ _ _ htab htbc⟩

theorem revisionLe_antisymm (hab : P.revisionLe a b) (hba : P.revisionLe b a) : a = b := by
  rw [revisionLe_iff] at hab hba
  rcases hab with hab | ⟨hab, htab⟩
  · rcases hba with hba | ⟨hba, -⟩
    · omega
    · omega
  · rcases hba with hba | ⟨-, htba⟩
    · omega
    · exact Prod.ext hab (P.collation_antisymm _ _ htab htba)

/-- What the guard of `promote` compares: `v` is not newer than `v'`. -/
def Platform.versionLe (P : Platform) (v v' : DocumentVersion) : Bool :=
  P.revisionLe v.revision v'.revision

theorem versionLe_total (P : Platform) (v v' : DocumentVersion) :
    P.versionLe v v' ∨ P.versionLe v' v :=
  revisionLe_total P v.revision v'.revision

theorem versionLe_trans (P : Platform) (u v v' : DocumentVersion) :
    P.versionLe u v → P.versionLe v v' → P.versionLe u v' :=
  revisionLe_trans

/-- No two versions of a document are equally new. -/
theorem versionLe_antisymm {versions : DocumentVersions} {v v' : DocumentVersion}
    (hv : v ∈ versions) (hv' : v' ∈ versions)
    (hdoc : (v.tenantId, v.documentId) = (v'.tenantId, v'.documentId))
    (h : P.versionLe v v') (h' : P.versionLe v' v) : v = v' := by
  have hrev : v.revision = v'.revision := revisionLe_antisymm h h'
  have hsource : v.sourceVersion = v'.sourceVersion := congrArg Prod.snd hrev
  have ht : v.tenantId = v'.tenantId := congrArg Prod.fst hdoc
  have hd : v.documentId = v'.documentId := congrArg Prod.snd hdoc
  refine Table.eq_of_uk hv hv' ?_
  rw [DocumentVersion.unique, DocumentVersion.unique, ht, hd, hsource]

end Order

/-! ## Calls -/

/-- **What one call does to the database.** -/
inductive CallEffect (P : Platform) (call : RepositoryCall) (w w' : World) : Prop
  /-- the call raised -/
  | same (hunknown : ∀ tenantId versionId, call = .promote tenantId versionId →
      w.database.documentVersions.find (tenantId, versionId) = none)
      (hdelete : ∀ tenantId documentId, call ≠ .delete tenantId documentId)
      (h : w'.database = w.database)
  | submitted (args : SubmitArgs) (parserVersion : String) (hcall : call = .submit args parserVersion)
      (s : Submission) (h : Submitted P args w w' s)
  | promoted (tenantId versionId : String) (hcall : call = .promote tenantId versionId)
      (version : DocumentVersion)
      (hfind : w.database.documentVersions.find (tenantId, versionId) = some version)
      (h : w'.database = w.database.promoted P version)
  | deleted (tenantId documentId : String) (hcall : call = .delete tenantId documentId)
      (h : w'.database = w.database.delete tenantId documentId)

variable {P : Platform} {w w' : World} {call : RepositoryCall}

theorem call_cases (P : Platform) (w : World) (call : RepositoryCall) :
    CallEffect P call w (w.call P call) := by
  refine wp_state (P := CallEffect P call w) ?_
  cases call with
  | submit args parserVersion =>
    rw [RepositoryCall.perform, wp_bind, SubmitArgs.transaction, wp_transaction]
    refine wp_mono (@wp_submit P {} args w parserVersion) ?_ ?_
    · rintro s w' ⟨h, -⟩
      exact ⟨fun _ => .submitted args parserVersion rfl s h,
        fun _ hf => absurd hf.symm (Option.some_ne_none _)⟩
    · exact fun _ _ _ => .same (fun _ _ h => by cases h) (fun _ _ h => by cases h) rfl
  | promote tenantId versionId =>
    rw [RepositoryCall.perform, wp_transaction]
    simp only [IngestionRepository.promote, wp_bind, wp_reach, wp_readDatabase, wp_orRaise,
      wp_writeDatabase]
    -- a call of the repository by itself meets no fault, so its transaction commits
    have hnofault : ∀ operation fault, ({} : Faults).fault operation ≠ some fault :=
      fun _ _ hf => Option.some_ne_none _ hf.symm
    cases hfind : w.database.documentVersions.find (tenantId, versionId) with
    | none =>
      have hnone : w.database.promote P tenantId versionId = none := by
        unfold Database.promote
        rw [hfind]
      rw [hnone]
      refine ⟨fun _ => ⟨fun _ h => absurd h.symm (Option.some_ne_none _), fun _ => ?_⟩,
        fun fault hf => absurd hf (hnofault .promote fault)⟩
      refine .same (fun t v hcall => ?_) (fun _ _ h => by cases h) rfl
      cases hcall
      exact hfind
    | some version =>
      have hsome : w.database.promote P tenantId versionId =
          some (w.database.promoted P version) := by
        unfold Database.promote
        rw [hfind]
        rfl
      rw [hsome]
      refine ⟨fun _ => ⟨?_, fun h => absurd h (Option.some_ne_none _)⟩,
        fun fault hf => absurd hf (hnofault .promote fault)⟩
      rintro _ ⟨⟩
      exact ⟨fun _ => .promoted tenantId versionId rfl version hfind rfl,
        fun fault hf => absurd hf.symm (Option.some_ne_none _)⟩
  | delete tenantId documentId =>
    rw [RepositoryCall.perform, wp_transaction]
    simp only [IngestionRepository.delete, wp_bind, wp_readDatabase, wp_writeDatabase]
    exact ⟨fun _ => .deleted tenantId documentId rfl rfl,
      fun _ hf => absurd hf.symm (Option.some_ne_none _)⟩

theorem call_delete (P : Platform) (w : World) (tenantId documentId : String) :
    (w.call P (.delete tenantId documentId)).database = w.database.delete tenantId documentId := by
  cases call_cases P w (.delete tenantId documentId) with
  | same _ hdelete _ => exact absurd rfl (hdelete _ _)
  | submitted _ _ hcall => cases hcall
  | promoted _ _ hcall => cases hcall
  | deleted _ _ hcall hdb =>
    cases hcall
    exact hdb

/-- A promotion changes nothing, or promotes the version that is stored under its id. -/
theorem call_promote (P : Platform) (w : World) (tenantId versionId : String) :
    (w.call P (.promote tenantId versionId)).database = w.database ∨
      ∃ version, w.database.documentVersions.find (tenantId, versionId) = some version ∧
        (w.call P (.promote tenantId versionId)).database = w.database.promoted P version := by
  cases call_cases P w (.promote tenantId versionId) with
  | same _ _ hdb => exact Or.inl hdb
  | submitted _ _ hcall => cases hcall
  | promoted _ _ hcall version hfind hdb =>
    cases hcall
    exact Or.inr ⟨version, hfind, hdb⟩
  | deleted _ _ hcall => cases hcall

/-! ## A document as a register -/

/-- The table holds the document `d`, with this current version. -/
structure Holds (db : Database) (d : Document) (current : Option DocumentVersion) : Prop where
  document : { d with currentVersionId := current.map DocumentVersion.id } ∈ db.documents
  version : ∀ v, current = some v → v ∈ db.documentVersions ∧ v.tenantId = d.tenantId

variable {db db' : Database} {d : Document} {current : Option DocumentVersion}
  {v : DocumentVersion}

/-- The guard of `promote` is that of the register. -/
theorem promotable_iff (h : Holds db d current) (hopen : d.deleted = false)
    (ht : v.tenantId = d.tenantId) :
    ({ d with currentVersionId := current.map DocumentVersion.id } : Document).promotable P
      db.documentVersions v = current.all fun u => P.versionLe u v := by
  unfold Document.promotable
  simp only [hopen, Bool.not_false, Bool.true_and]
  cases current with
  | none => rfl
  | some u =>
    obtain ⟨hu, htu⟩ := h.version u rfl
    have hpk : u.pk = (v.tenantId, u.id) := by rw [DocumentVersion.pk, htu, ht]
    have hfind : db.documentVersions.find (v.tenantId, u.id) = some u :=
      hpk ▸ Table.find_of_mem hu
    simp only [Option.map_some, hfind, Option.all_some]
    rfl

/-- **A promotion of a version is an offer to its document.** -/
theorem promote_offers (h : Holds db d current) (hopen : d.deleted = false)
    (hv : v ∈ db.documentVersions) (hdoc : (v.tenantId, v.documentId) = d.pk) :
    Holds (db.promoted P v) d (Register.offer P.versionLe current v) := by
  have ht : v.tenantId = d.tenantId := congrArg Prod.fst hdoc
  have hguard := promotable_iff (P := P) h hopen ht
  refine ⟨mem_promoted.2 ⟨_, h.document, ?_⟩, ?_⟩
  · unfold Document.promotedTo
    by_cases hnew : current.all (fun u => P.versionLe u v) = true
    · rw [if_pos ⟨hdoc.symm, hguard.trans hnew⟩]
      cases current with
      | none => rfl
      | some u =>
        have hle : P.versionLe u v = true := hnew
        simp only [Register.offer, if_pos hle, Option.map_some]
    · rw [if_neg fun hand => hnew (hguard.symm.trans hand.2)]
      cases current with
      | none => exact absurd rfl hnew
      | some u =>
        have hle : ¬ P.versionLe u v = true := hnew
        simp only [Register.offer, if_neg hle]
  · intro u hu
    cases current with
    | none =>
      cases hu
      exact ⟨hv, ht⟩
    | some b =>
      by_cases hnew : P.versionLe b v = true
      · rw [Register.offer, if_pos hnew] at hu
        cases hu
        exact ⟨hv, ht⟩
      · rw [Register.offer, if_neg hnew] at hu
        cases hu
        exact h.version _ rfl

/-- A promotion of a version of another document leaves the document alone. -/
theorem promote_aside (h : Holds db d current) (hdoc : (v.tenantId, v.documentId) ≠ d.pk) :
    Holds (db.promoted P v) d current := by
  exact ⟨mem_promoted.2 ⟨_, h.document, promotedTo_of_ne hdoc.symm⟩, h.version⟩

theorem delete_aside {tenantId documentId : String} (h : Holds db d current)
    (hdoc : (tenantId, documentId) ≠ d.pk) : Holds (db.delete tenantId documentId) d current :=
  ⟨mem_deleted.2 ⟨_, h.document, deletedBy_of_ne hdoc.symm⟩, h.version⟩

/-! ## Runs of calls -/

/-- The call deletes the document. -/
def RepositoryCall.deletes (k : String × String) : RepositoryCall → Bool
  | .delete tenantId documentId => (tenantId, documentId) = k
  | _ => false

/-- The version of the document that the call promotes. -/
def RepositoryCall.offered (w : World) (k : String × String) :
    RepositoryCall → List DocumentVersion
  | .promote tenantId versionId =>
    (w.database.documentVersions.find (tenantId, versionId)).toList.filter fun version =>
      (version.tenantId, version.documentId) = k
  | _ => []

/-- The versions of the document that a run of calls promotes, in order. -/
def promotedAlong (P : Platform) (k : String × String) :
    World → List RepositoryCall → List DocumentVersion
  | _, [] => []
  | w, call :: calls => call.offered w k ++ promotedAlong P k (w.call P call) calls

/-- The document is a register to which `offered` has been offered. -/
structure Registered (P : Platform) (w : World) (d : Document) (offered : List DocumentVersion)
    (current : Option DocumentVersion) : Prop where
  holds : Holds w.database d current
  newest : Register.Newest P.versionLe offered current
  known : ∀ v ∈ offered, v ∈ w.database.documentVersions ∧ (v.tenantId, v.documentId) = d.pk

variable {offered : List DocumentVersion}

/-- **One call** on a document that is not deleted. -/
theorem Registered.step (hopen : d.deleted = false) (h : Registered P w d offered current)
    (hcall : call.deletes d.pk = false) :
    ∃ current', Registered P (w.call P call) d (offered ++ call.offered w d.pk) current' := by
  cases call_cases P w call with
  | same hunknown _ hdb =>
    have hnone : call.offered w d.pk = [] := by
      cases call with
      | promote tenantId versionId =>
        rw [RepositoryCall.offered, hunknown tenantId versionId rfl]
        rfl
      | submit => rfl
      | delete => rfl
    rw [hnone, List.append_nil]
    exact ⟨current, hdb ▸ h.holds, h.newest, hdb ▸ h.known⟩
  | submitted args parserVersion heq s hsub =>
    subst heq
    have hnone : (RepositoryCall.submit args parserVersion).offered w d.pk = [] := rfl
    rw [hnone, List.append_nil]
    refine ⟨current, ⟨hsub.documents_subset h.holds.document, fun v hv => ?_⟩, h.newest,
      fun v hv => ?_⟩
    · obtain ⟨hmem, ht⟩ := h.holds.version v hv
      exact ⟨hsub.versions_subset hmem, ht⟩
    · obtain ⟨hmem, hdoc⟩ := h.known v hv
      exact ⟨hsub.versions_subset hmem, hdoc⟩
  | promoted tenantId versionId heq version hfind hdb =>
    subst heq
    have hoffered : (RepositoryCall.promote tenantId versionId).offered w d.pk =
        [version].filter fun version => (version.tenantId, version.documentId) = d.pk := by
      rw [RepositoryCall.offered, hfind]
      rfl
    obtain ⟨hmem, -⟩ := Table.find_eq_some.1 hfind
    -- the promoted version is offered to its own document only
    have hversions : (w.call P (.promote tenantId versionId)).database.documentVersions =
        w.database.documentVersions := by rw [hdb]; rfl
    by_cases hdoc : (version.tenantId, version.documentId) = d.pk
    · have hone : (RepositoryCall.promote tenantId versionId).offered w d.pk = [version] := by
        rw [hoffered]
        exact List.filter_cons_of_pos (by simpa using hdoc)
      rw [hone]
      have hnewest : Register.Newest P.versionLe (offered ++ [version])
          (Register.offer P.versionLe current version) :=
        h.newest.offer (versionLe_total P) (versionLe_trans P) version
      refine ⟨_, hdb ▸ promote_offers h.holds hopen hmem hdoc, hnewest, fun v hv => ?_⟩
      rw [hversions]
      rcases List.mem_append.1 hv with hv | hv
      · exact h.known v hv
      · rw [List.mem_singleton.1 hv]
        exact ⟨hmem, hdoc⟩
    · have hnone : (RepositoryCall.promote tenantId versionId).offered w d.pk = [] := by
        rw [hoffered]
        exact List.filter_cons_of_neg (by simpa using hdoc)
      rw [hnone, List.append_nil]
      exact ⟨current, hdb ▸ promote_aside h.holds hdoc, h.newest, by rw [hversions]; exact h.known⟩
  | deleted tenantId documentId heq hdb =>
    subst heq
    have hnone : (RepositoryCall.delete tenantId documentId).offered w d.pk = [] := rfl
    rw [hnone, List.append_nil]
    have hdoc : (tenantId, documentId) ≠ d.pk := by
      simpa [RepositoryCall.deletes] using hcall
    refine ⟨current, hdb ▸ delete_aside h.holds hdoc, h.newest, ?_⟩
    rw [hdb]
    exact h.known

/-- **A run of calls** that does not delete the document. -/
theorem Registered.run (hopen : d.deleted = false) {calls : List RepositoryCall} :
    ∀ {w : World} {offered : List DocumentVersion} {current : Option DocumentVersion},
      Registered P w d offered current → (∀ call ∈ calls, call.deletes d.pk = false) →
      ∃ current', Registered P (Machine.run (World.call P) w calls) d
        (offered ++ promotedAlong P d.pk w calls) current' := by
  induction calls with
  | nil =>
    intro w offered current h _
    rw [promotedAlong, List.append_nil]
    exact ⟨current, h⟩
  | cons call calls ih =>
    intro w offered current h hcalls
    obtain ⟨current', hstep⟩ := h.step hopen (hcalls call List.mem_cons_self)
    have hrest : ∀ call ∈ calls, call.deletes d.pk = false :=
      fun c hc => hcalls c (List.mem_cons_of_mem _ hc)
    obtain ⟨current'', hrun⟩ := ih hstep hrest
    rw [List.append_assoc] at hrun
    exact ⟨current'', hrun⟩

/-- A document with no current version has been offered nothing. -/
theorem Registered.start (hd : d ∈ w.database.documents) (hnone : d.currentVersionId = none) :
    Registered P w d [] none := by
  have hsame : { d with currentVersionId := none } = d := by rw [← hnone]
  refine ⟨⟨hsame.symm ▸ hd, fun v h => absurd h.symm (Option.some_ne_none v)⟩,
    Register.Newest.nil, fun v h => absurd h List.not_mem_nil⟩

/-- `currentVersionId` of the document is the id of the newest version promoted to it. -/
def PromotesNewest (P : Platform) : Prop :=
  ∀ (w : World) (d : Document) (calls : List RepositoryCall),
    d ∈ w.database.documents → d.currentVersionId = none → d.deleted = false →
    (∀ call ∈ calls, call.deletes d.pk = false) →
    ∃ current, Register.Newest P.versionLe (promotedAlong P d.pk w calls) current ∧
      (Machine.run (World.call P) w calls).database.documents.find d.pk =
        some { d with currentVersionId := current.map DocumentVersion.id }

theorem promotes_newest (P : Platform) : PromotesNewest P := by
  intro w d calls hd hnone hopen hcalls
  obtain ⟨current, hrun⟩ := (Registered.start (P := P) hd hnone).run hopen hcalls
  have hmem := hrun.holds.document
  exact ⟨current, hrun.newest, Table.find_of_mem hmem⟩

/-! ## The order of promotions -/

/-- Two runs that promote the same versions of a document leave it with the same current
version; so do two orders of the same promotions. -/
structure PromotionsCommute (P : Platform) : Prop where
  runs : ∀ (w : World) (d : Document) (calls calls' : List RepositoryCall),
    d ∈ w.database.documents → d.currentVersionId = none → d.deleted = false →
    (∀ call ∈ calls ++ calls', call.deletes d.pk = false) →
    (∀ v, v ∈ promotedAlong P d.pk w calls ↔ v ∈ promotedAlong P d.pk w calls') →
    (Machine.run (World.call P) w calls).database.documents.find d.pk =
      (Machine.run (World.call P) w calls').database.documents.find d.pk
  orders : ∀ (w : World) (d : Document) (promotions promotions' : List (String × String)),
    d ∈ w.database.documents → d.currentVersionId = none → d.deleted = false →
    promotions.Perm promotions' →
    (Machine.run (World.call P) w
        (promotions.map fun version => .promote version.1 version.2)).database.documents.find d.pk =
      (Machine.run (World.call P) w
        (promotions'.map fun version => .promote version.1 version.2)).database.documents.find d.pk

/-- A promotion leaves the versions alone. -/
theorem promote_documentVersions (P : Platform) (w : World) (tenantId versionId : String) :
    (w.call P (.promote tenantId versionId)).database.documentVersions =
      w.database.documentVersions := by
  rcases call_promote P w tenantId versionId with hdb | ⟨version, -, hdb⟩
  · rw [hdb]
  · rw [hdb]
    rfl

/-- What a run of promotions offers is what each offers at the start. -/
theorem promotedAlong_promotions {k : String × String} {promotions : List (String × String)} :
    ∀ {w w₀ : World}, w.database.documentVersions = w₀.database.documentVersions →
      promotedAlong P k w (promotions.map fun version => .promote version.1 version.2) =
        promotions.flatMap fun version =>
          (RepositoryCall.promote version.1 version.2).offered w₀ k := by
  induction promotions with
  | nil => exact fun _ => rfl
  | cons version promotions ih =>
    intro w w₀ hsame
    have hfirst : (RepositoryCall.promote version.1 version.2).offered w k =
        (RepositoryCall.promote version.1 version.2).offered w₀ k := by
      rw [RepositoryCall.offered, hsame]
      rfl
    have hstep := promote_documentVersions P w version.1 version.2
    rw [List.map_cons, promotedAlong, hfirst, ih (hstep.trans hsame), List.flatMap_cons]

theorem promotions_commute (P : Platform) : PromotionsCommute P := by
  have hruns : ∀ (w : World) (d : Document) (calls calls' : List RepositoryCall),
      d ∈ w.database.documents → d.currentVersionId = none → d.deleted = false →
      (∀ call ∈ calls ++ calls', call.deletes d.pk = false) →
      (∀ v, v ∈ promotedAlong P d.pk w calls ↔ v ∈ promotedAlong P d.pk w calls') →
      (Machine.run (World.call P) w calls).database.documents.find d.pk =
        (Machine.run (World.call P) w calls').database.documents.find d.pk := by
    intro w d calls calls' hd hnone hopen hcalls hsame
    have hstart := Registered.start (P := P) hd hnone
    obtain ⟨current, hrun⟩ :=
      hstart.run hopen fun call h => hcalls call (List.mem_append_left _ h)
    obtain ⟨current', hrun'⟩ :=
      hstart.run hopen fun call h => hcalls call (List.mem_append_right _ h)
    -- two promoted versions that are equally new are one version
    have hone : ∀ a ∈ promotedAlong P d.pk w calls, ∀ b ∈ promotedAlong P d.pk w calls,
        P.versionLe a b → P.versionLe b a → a = b := by
      intro a ha b hb hab hba
      obtain ⟨hamem, hadoc⟩ := hrun.known a ha
      obtain ⟨hbmem, hbdoc⟩ := hrun.known b hb
      exact versionLe_antisymm hamem hbmem (hadoc.trans hbdoc.symm) hab hba
    have hcurrent : current = current' := Register.Newest.unique hone hrun.newest hrun'.newest hsame
    have hfind := Table.find_of_mem hrun.holds.document
    have hfind' := Table.find_of_mem hrun'.holds.document
    rw [← hcurrent] at hfind'
    exact hfind.trans hfind'.symm
  refine ⟨hruns, fun w d promotions promotions' hd hnone hopen hperm => ?_⟩
  refine hruns w d _ _ hd hnone hopen (fun call hcall => ?_) fun v => ?_
  · rw [← List.map_append] at hcall
    obtain ⟨version, -, rfl⟩ := List.mem_map.1 hcall
    rfl
  · rw [promotedAlong_promotions rfl, promotedAlong_promotions rfl]
    exact (hperm.flatMap_right _).mem_iff

/-! ## Deleted documents -/

/-- A deleted document keeps its row: no current version, for good. -/
def TombstonesPermanent (P : Platform) : Prop :=
  ∀ (w : World) (d : Document) (calls : List RepositoryCall), d ∈ w.database.documents →
    (Machine.run (World.call P) (w.call P (.delete d.tenantId d.id)) calls).database.documents.find
      d.pk = some { d with currentVersionId := none, deleted := true }

/-- **One call** on a deleted document. -/
theorem tombstone_step (hd : d ∈ w.database.documents) (hdeleted : d.deleted = true)
    (hnone : d.currentVersionId = none) (call : RepositoryCall) :
    d ∈ (w.call P call).database.documents := by
  cases call_cases P w call with
  | same _ _ hdb => exact hdb ▸ hd
  | submitted args parserVersion heq s hsub => exact hsub.documents_subset hd
  | promoted tenantId versionId heq version hfind hdb =>
    rw [hdb]
    refine mem_promoted.2 ⟨d, hd, ?_⟩
    -- the guard refuses a deleted document
    have hguard : d.promotable P w.database.documentVersions version = false := by
      simp only [Document.promotable, hdeleted, Bool.not_true, Bool.false_and]
    unfold Document.promotedTo
    rw [if_neg fun hand => Bool.false_ne_true (hguard.symm.trans hand.2)]
  | deleted tenantId documentId heq hdb =>
    rw [hdb]
    refine mem_deleted.2 ⟨d, hd, ?_⟩
    unfold Document.deletedBy
    split
    · rw [← hnone, ← hdeleted]
    · rfl

theorem tombstones_permanent (P : Platform) : TombstonesPermanent P := by
  intro w d calls hd
  let tombstone : Document := { d with currentVersionId := none, deleted := true }
  have hdeleted : tombstone ∈ (w.call P (.delete d.tenantId d.id)).database.documents := by
    rw [call_delete]
    exact mem_deleted.2 ⟨d, hd, if_pos rfl⟩
  have hrun : tombstone ∈ (Machine.run (World.call P)
      (w.call P (.delete d.tenantId d.id)) calls).database.documents :=
    Machine.run_inv (I := fun w : World => tombstone ∈ w.database.documents)
      (fun w call h => tombstone_step h rfl rfl call) hdeleted
  exact Table.find_of_mem hrun

/-- **Promotion is order independent and tombstones are permanent.** -/
theorem promotions_confluent (P : Platform) :
    PromotesNewest P ∧ PromotionsCommute P ∧ TombstonesPermanent P :=
  ⟨promotes_newest P, promotions_commute P, tombstones_permanent P⟩

end GroundedOps.Ingestion
