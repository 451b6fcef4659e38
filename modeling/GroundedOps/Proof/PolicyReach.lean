import GroundedOps.Proof.Currency
import GroundedOps.Proof.Ranking

/-!
# Which policy reaches search

The policy of a source is stored by every submission. The index has a copy of it in every chunk,
written when a version is projected and not again.

* `VersionProjection.Shown`: every chunk of the projection is in the index, with its policy.
* `live_shown`: no event takes it away, once the version is completed.
* `policyAtCompletion`: the policy that was stored when a version was completed.
* `completion_policy_reaches`: **whom that policy lets read a document, passes the filter of the
  index on every chunk of its current version.**
-/

namespace GroundedOps.Ingestion

open Hoare

/-! ## Projections in the index -/

section Shown

variable {π π' : VersionProjection} {index index' : Index} {entry : IndexEntry}

/-- Every chunk of the projection is in the index, with any flag. -/
def VersionProjection.Shown (π : VersionProjection) (index : Index) : Prop :=
  ∀ chunk ∈ π.chunks, ∃ isCurrent, { π.entry chunk with isCurrent } ∈ index

/-- The two updates of an upsert change no more than the flag. -/
theorem reflag_eq (π : VersionProjection) (entry : IndexEntry) :
    ∃ isCurrent, π.reflag entry = { entry with isCurrent } := by
  unfold VersionProjection.reflag
  split
  · exact ⟨_, rfl⟩
  · exact ⟨entry.isCurrent, rfl⟩

theorem shown_of_projected {faults : Faults} {db : Database} (hnodup : π.chunkIds.Nodup)
    (h : IndexProjected faults db π index index') : π.Shown index' := by
  cases h with
  | empty hnil _ =>
    intro chunk hchunk
    rw [hnil] at hchunk
    cases hchunk
  | upserted _ _ haccepted h =>
    intro chunk hchunk
    have hnew : { π.entry chunk with isCurrent := true } ∈
        (∅ : Index).upserted π faults.rejected :=
      (mem_empty_upserted hnodup haccepted).2 ⟨chunk, hchunk, rfl⟩
    rw [h]
    exact ⟨true, (VersionProjection.mem_upserted_iff haccepted).2 (Or.inl hnew)⟩

/-- An upsert of other chunks moves no more than the flags. -/
theorem VersionProjection.Shown.beside (h : π.Shown index) (hsame : π'.SameBeside index index')
    (hout : ∀ id ∈ π.chunkIds, id ∉ π'.chunkIds) : π.Shown index' := by
  intro chunk hchunk
  obtain ⟨isCurrent, hold⟩ := h chunk hchunk
  have hid : chunk.chunkId ∈ π.chunkIds := List.mem_map_of_mem hchunk
  have hbeside : π'.Beside index (π'.reflag { π.entry chunk with isCurrent }) :=
    ⟨_, hold, hout _ hid, rfl⟩
  obtain ⟨new, hnew, -, hreflag⟩ := (hsame _).2 hbeside
  obtain ⟨flag, hflag⟩ := reflag_eq π' new
  obtain ⟨flag', hflag'⟩ := reflag_eq π' { π.entry chunk with isCurrent }
  have hchanged : { new with isCurrent := flag } = { π.entry chunk with isCurrent := flag' } :=
    hflag.symm.trans (hreflag.trans hflag')
  have hentry : new = { π.entry chunk with isCurrent := new.isCurrent } := by
    have hback := congrArg (fun e : IndexEntry => { e with isCurrent := new.isCurrent }) hchanged
    exact hback
  exact ⟨new.isCurrent, hentry ▸ hnew⟩

end Shown

/-! ## What an event does to the index -/

section Live

variable {c : Components} {w : World} {k : String × String} {source : Source}
  {version : DocumentVersion} {document : Document} {content : ByteArray}

/-- Only the delivery of a pending job writes to the index, and only what its version projects. -/
theorem live_beside (hP : c.platform.CollisionFree) (h : Kept c w) (event : LifecycleEvent) :
    (w.live c event).index = w.index ∨
      ∃ row source version document content, row.job.state.terminal = false ∧
        JobContent c w.database row source version document content ∧
        (c.projection source version content).SameBeside w.index (w.live c event).index := by
  have hdelivered : ∀ {event : WorkerEvent} {row version document content},
      Reached c { w with now := event.now } event row version document content →
        ∃ row source version document content, row.job.state.terminal = false ∧
          JobContent c w.database row source version document content ∧
          (c.projection source version content).SameBeside w.index (w.step c event).index := by
    intro event row version document content reached
    obtain ⟨source, version', document', content', hjob⟩ := h.content reached.row_mem
    have haction := reached.action
    obtain ⟨action, faults, now⟩ := event
    dsimp only at haction
    subst haction
    have hkeeps : DeliveryKeeps c faults (c.projection source version' content') row
        { w with now } (w.step c ⟨.deliver row.job.tenantId row.job.id, faults, now⟩) :=
      step_delivery_keeps hP h (Table.find_of_mem reached.row_mem) hjob
    exact ⟨row, source, version', document', content', reached.pending, hjob, hkeeps.beside⟩
  cases event with
  | worker event =>
    cases step_effect w event h.consistent with
    | submitted _ _ _ _ _ _ _ _ _ _ _ hindex _ _ => exact Or.inl hindex
    | unfinished _ hkept _ _ =>
      cases hkept with
      | same hindex => exact Or.inl hindex
      | left row version document content reached _ => exact Or.inr (hdelivered reached)
    | finished row version document content reached _ _ _ _ => exact Or.inr (hdelivered reached)
  | promote tenantId versionId => exact Or.inl (promote_documentsOnly w tenantId versionId).quiet.index
  | delete tenantId documentId => exact Or.inl (delete_documentsOnly w tenantId documentId).quiet.index

theorem mem_projection_chunkIds {id : String}
    (h : id ∈ (c.projection source version content).chunkIds) :
    ∃ part, id = c.platform.keyOf version.id part := by
  obtain ⟨chunk, hchunk, rfl⟩ := List.mem_map.1 h
  obtain ⟨part, -, rfl⟩ := List.mem_map.1 hchunk
  exact ⟨_, rfl⟩

/-- **Nothing takes a projection of a completed version out of the index.** -/
theorem live_shown (hP : c.platform.CollisionFree) (h : Kept c w)
    (hv : VersionContent c w.database k source version document content)
    (hdone : w.database.ingestionJobs.completed k) (event : LifecycleEvent)
    (hshown : (c.projection source version content).Shown w.index) :
    (c.projection source version content).Shown (w.live c event).index := by
  rcases live_beside hP h event with hsame | ⟨row, source', version', document', content', hopen, hjob, hbeside⟩
  · rw [hsame]
    exact hshown
  · refine hshown.beside hbeside fun id hid hid' => ?_
    obtain ⟨part, rfl⟩ := mem_projection_chunkIds hid
    obtain ⟨part', hpart⟩ := mem_projection_chunkIds hid'
    -- a chunk of both would make the pending job the completed one
    have hc := h.consistent
    have hids := keyOf_inj hP (hc.versionId_no_colon hP hv.version_mem)
      (hc.versionId_no_colon hP hjob.version_mem) hpart
    obtain rfl : version = version' :=
      hc.version_inj version hv.version_mem version' hjob.version_mem hids.1
    obtain ⟨done, hmem, hkey, hstate⟩ := hdone
    have hsamePk : (done.job.tenantId, done.versionId) = (row.job.tenantId, row.versionId) := by
      rw [hkey, ← hv.version_pk, hjob.version_pk]
    obtain rfl : done = row :=
      hc.job_unique hmem hjob.row_mem (congrArg Prod.fst hsamePk) (congrArg Prod.snd hsamePk)
    rw [hstate] at hopen
    cases hopen

end Live

/-! ## The run that completes a version -/

/-- The policy that the source had stored when the version was completed. -/
def policyAtCompletion (c : Components) (k source : String × String) :
    World → List LifecycleEvent → Option (List String)
  | _, [] => none
  | w, event :: events =>
    if ¬ w.database.ingestionJobs.completed k ∧
        (w.live c event).database.ingestionJobs.completed k then
      (w.database.sources.find source).map Source.policy
    else policyAtCompletion c k source (w.live c event) events

section Runs

variable {c : Components} {w : World} {k : String × String} {source : Source}
  {version : DocumentVersion} {document : Document} {content : ByteArray}

/-- The stored chunks of a version are those of its projection. -/
theorem VersionContent.chunks (hP : c.platform.CollisionFree) (h : Kept c w)
    (hv : VersionContent c w.database k source version document content) :
    w.chunksOf c version = (c.projection source version content).chunks := by
  obtain ⟨stored, hstored⟩ := h.shelved.content version hv.version_mem
  have hdigest : c.platform.sha256 stored = version.contentHash :=
    (h.shelved.intact _ _ hstored).1
  obtain rfl : stored = content := hP.sha256 (hdigest.trans hv.digest.symm)
  unfold World.chunksOf
  rw [hstored]
  rfl

theorem life_shown (hP : c.platform.CollisionFree) (h : Kept c w)
    (hv : VersionContent c w.database k source version document content)
    (hdone : w.database.ingestionJobs.completed k)
    (hshown : (c.projection source version content).Shown w.index) (es : List LifecycleEvent) :
    (c.projection source version content).Shown (Machine.run (World.live c) w es).index := by
  induction es generalizing w version document with
  | nil => exact hshown
  | cons event events ih =>
    have hnext := (live_kept hP h event).1
    have hkept := live_shown hP h hv hdone event hshown
    obtain ⟨version', document', hv', hsame⟩ := hv.run hP h [event]
    rw [← hsame] at hkept ⊢
    exact ih hnext hv' (live_completed h event hdone) hkept

/-- **A completed version has been projected under the policy of that time**, and still is. -/
theorem completion_shown (hP : c.platform.CollisionFree) (hn : c.Numbered) (h : Kept c w)
    (es : List LifecycleEvent) (hopen : ¬ w.database.ingestionJobs.completed k)
    (hdone : (Machine.run (World.live c) w es).database.ingestionJobs.completed k) :
    ∃ source version document content,
      VersionContent c (Machine.run (World.live c) w es).database k source version document content ∧
        policyAtCompletion c k source.pk w es = some source.policy ∧
        (c.projection source version content).Shown (Machine.run (World.live c) w es).index := by
  induction es generalizing w with
  | nil => exact absurd hdone hopen
  | cons event events ih =>
    have hnext := (live_kept hP h event).1
    by_cases hnow : (w.live c event).database.ingestionJobs.completed k
    · obtain ⟨source, version, document, content, hv, hsource, -, faults, hprojected⟩ :=
        live_completes hP h hopen hnow
      have hnodup : (c.projection source version content).chunkIds.Nodup := by
        have hids := chunksOf_nodup hP hn h.consistent hv.version_mem
        rw [hv.chunks hP h] at hids
        exact hids
      have hshown := shown_of_projected hnodup hprojected
      -- the rows as the event leaves them, then as the rest of the run does
      obtain ⟨version₁, document₁, hv₁, hsame₁⟩ := hv.run hP h [event]
      obtain ⟨version', document', hv', hsame'⟩ := hv₁.run hP hnext events
      refine ⟨source, version', document', content, hv', ?_, ?_⟩
      · rw [policyAtCompletion, if_pos ⟨hopen, hnow⟩, Table.find_of_mem hsource, Option.map_some]
      · rw [hsame']
        exact life_shown hP hnext hv₁ hnow (hsame₁ ▸ hshown) events
    · obtain ⟨source, version, document, content, hv, hpolicy, hshown⟩ := ih hnext hnow hdone
      refine ⟨source, version, document, content, hv, ?_, hshown⟩
      rw [policyAtCompletion, if_neg fun hboth => hnow hboth.2]
      exact hpolicy

end Runs

/-! ## Search -/

/-- The filter on the field `policy`, in the scope of the principal. -/
def policyFilter (principal : Principal) (entry : IndexEntry) : Bool :=
  (PolicyEnforcer.searchScope principal).any fun scope =>
    entry.policy.any fun value => value ∈ scope.accessPolicy

/-- The principal passes the filter on every chunk of the version. -/
def Reaches (c : Components) (w : World) (version : DocumentVersion) (principal : Principal) :
    Prop :=
  ∀ chunk ∈ w.chunksOf c version, ∃ entry ∈ w.index, entry.IsOf version chunk ∧
    policyFilter principal entry = true

/-- Whom the policy of an entry lets read, passes the filter. -/
theorem policyFilter_of_allowed {principal : Principal} {resource : ResourceAction}
    {entry : IndexEntry} (h : (authorize principal resource).allowed = true)
    (hpolicy : entry.policy = resource.policy) : policyFilter principal entry = true := by
  obtain ⟨hknown, -, -, hgrants⟩ := authorize_allowed_iff.1 h
  cases hscope : PolicyEnforcer.searchScope principal with
  | none =>
    unfold PolicyEnforcer.searchScope at hscope
    rw [hknown] at hscope
    cases hscope
  | some scope =>
    unfold policyFilter
    rw [hscope, Option.any_some, hpolicy]
    exact (scope_iff_grants hscope).2 hgrants

section Reach

variable {c : Components} {w : World} {k : String × String} {source : Source}
  {version : DocumentVersion} {document : Document} {content : ByteArray}

theorem VersionContent.reaches (hP : c.platform.CollisionFree) (h : Kept c w)
    (hv : VersionContent c w.database k source version document content)
    (hshown : (c.projection source version content).Shown w.index) {principal : Principal}
    {resource : ResourceAction} (hpolicy : source.policy = resource.policy)
    (hallowed : (authorize principal resource).allowed = true) :
    Reaches c w version principal := by
  intro chunk hchunk
  rw [hv.chunks hP h] at hchunk
  obtain ⟨isCurrent, hentry⟩ := hshown chunk hchunk
  have ht : source.tenantId = version.tenantId := by
    have hsource : source.tenantId = document.tenantId := congrArg Prod.fst hv.source_pk
    exact hsource.trans (congrArg Prod.fst hv.document_pk)
  exact ⟨_, hentry, ⟨ht, rfl, rfl, rfl⟩, policyFilter_of_allowed hallowed hpolicy⟩

end Reach

/-- **The policy of the completion reaches search**: after every run in which all jobs have
completed, whoever the policy lets read a document that its source had stored when the current
version was completed, passes the filter of the index on every chunk of that version. -/
theorem completion_policy_reaches {platform : Platform} (hP : platform.CollisionFree)
    (chunker : StructuralChunker) (es : List LifecycleEvent) :
    let c := markdownComponents platform chunker
    let w := Machine.run (World.live c) {} es
    (∀ row ∈ w.database.ingestionJobs, row.job.state = .completed) →
      ∀ d v, CurrentVersion w.database d v →
        ∃ policy, policyAtCompletion c v.pk (d.tenantId, d.sourceId) {} es = some policy ∧
          ∀ principal, (authorize principal ⟨d.tenantId, d.id, "read", policy⟩).allowed = true →
            Reaches c w v principal := by
  intro c w hall d v hcurrent
  have hkept : Kept c w := life_kept hP es
  have hfresh : ¬ ({} : World).database.ingestionJobs.completed v.pk := by
    rintro ⟨job, hjob, -⟩
    exact Table.not_mem_empty hjob
  obtain ⟨row, hrow, hkey⟩ := hkept.consistent.version_job v hcurrent.version
  have hdone : w.database.ingestionJobs.completed v.pk := ⟨row, hrow, hkey, hall row hrow⟩
  obtain ⟨source, version, document, content, hv, hpolicy, hshown⟩ :=
    completion_shown hP (markdown_numbered platform chunker) Kept.empty es hfresh hdone
  obtain rfl : version = v := Table.eq_of_pk hv.version_mem hcurrent.version hv.version_pk
  obtain rfl : document = d := Table.eq_of_pk hv.document_mem hcurrent.document
    (hv.document_pk.trans hcurrent.document_pk.symm)
  refine ⟨source.policy, hv.source_pk ▸ hpolicy, fun principal hallowed => ?_⟩
  exact hv.reaches hP hkept hshown rfl hallowed

/-! ## A policy that is stored again -/

def financeSource : Source where
  id := "source"
  tenantId := "tenant"
  type := "markdown"
  externalRef := "https://example.org/doc"
  policy := ["role:finance"]
  identifiers_valid := sampleSource.identifiers_valid
  policy_valid := by decide
  externalRef_valid := sampleSource.externalRef_valid

/-- A file for the role `finance` is made public, with the same content. -/
def regrantedRun : List LifecycleEvent := [
  .worker { action := .submit { sampleEvent "a" 0 with source := financeSource } },
  .worker { action := .deliver "tenant" (samplePlatform.uuid4 2) },
  .worker { action := .submit (sampleEvent "a" 0) }]

def regrantedWorld : World := Machine.run (World.live emptiedComponents) {} regrantedRun

theorem regranted_completed :
    ∀ row ∈ regrantedWorld.database.ingestionJobs, row.job.state = .completed := by
  have hall : regrantedWorld.database.ingestionJobs.rows.all
      (fun row => row.job.state == .completed) = true := by decide +kernel
  intro row hrow
  exact beq_iff_eq.1 (List.all_eq_true.1 hall row hrow)

/-- What is stored at the end: the current version, with chunks, and the public source. -/
theorem regranted_current : ∃ d v source, CurrentVersion regrantedWorld.database d v ∧
    v.pk = ("tenant", samplePlatform.uuid4 1) ∧ (d.tenantId, d.sourceId) = ("tenant", "source") ∧
    regrantedWorld.chunksOf emptiedComponents v ≠ [] ∧
    source ∈ regrantedWorld.database.sources ∧ source.pk = ("tenant", "source") ∧
    source.policy = ["public"] := by
  have hrows : (regrantedWorld.database.documents.rows.any fun d =>
      regrantedWorld.database.documentVersions.rows.any fun v =>
        decide (d.active = true ∧ d.pk = (v.tenantId, v.documentId) ∧
          d.currentVersionId = some v.id ∧ v.pk = ("tenant", samplePlatform.uuid4 1) ∧
          (d.tenantId, d.sourceId) = ("tenant", "source")) &&
        !(regrantedWorld.chunksOf emptiedComponents v).isEmpty) = true := by decide +kernel
  have hsources : (regrantedWorld.database.sources.rows.any fun source =>
      decide (source.pk = ("tenant", "source") ∧ source.policy = ["public"])) = true := by
    decide +kernel
  obtain ⟨d, hd, hversions⟩ := List.any_eq_true.1 hrows
  obtain ⟨v, hv, hboth⟩ := List.any_eq_true.1 hversions
  obtain ⟨hkeys, hchunks⟩ := Bool.and_eq_true_iff.1 hboth
  obtain ⟨hactive, hpk, hcurrent, hvpk, hsource⟩ := of_decide_eq_true hkeys
  obtain ⟨source, hmem, hstored⟩ := List.any_eq_true.1 hsources
  obtain ⟨hspk, hpolicy⟩ := of_decide_eq_true hstored
  refine ⟨d, v, source, ⟨hd, hactive, hv, hpk, hcurrent⟩, hvpk, hsource, ?_, hmem, hspk, hpolicy⟩
  intro hnil
  rw [hnil] at hchunks
  cases hchunks

/-- The role `finance` still finds it. -/
theorem completion_policy_reaches_finance :
    ∃ d v policy, CurrentVersion regrantedWorld.database d v ∧
      policyAtCompletion emptiedComponents v.pk (d.tenantId, d.sourceId) {} regrantedRun =
        some policy ∧
      Reaches emptiedComponents regrantedWorld v ⟨"clerk", "tenant", ["finance"], [], true⟩ := by
  obtain ⟨d, v, -, hcurrent, hvpk, hsource, -⟩ := regranted_current
  obtain ⟨policy, hpolicy, hreaches⟩ := completion_policy_reaches samplePlatform_collisionFree _
    regrantedRun regranted_completed d v hcurrent
  refine ⟨d, v, policy, hcurrent, hpolicy, hreaches _ ?_⟩
  have hstored : policyAtCompletion emptiedComponents ("tenant", samplePlatform.uuid4 1)
      ("tenant", "source") {} regrantedRun = some ["role:finance"] := by decide +kernel
  have hfinance : policyAtCompletion emptiedComponents v.pk (d.tenantId, d.sourceId) {}
      regrantedRun = some policy := hpolicy
  rw [hvpk, hsource, hstored] at hfinance
  obtain rfl := Option.some.inj hfinance
  have ht : d.tenantId = "tenant" := congrArg Prod.fst hsource
  rw [ht]
  rfl

/-- **The public does not find what has been made public** without a new projection. -/
theorem stored_policy_unreached : ¬ ∀ (platform : Platform) (chunker : StructuralChunker)
    (es : List LifecycleEvent), platform.CollisionFree →
      let c := markdownComponents platform chunker
      let w := Machine.run (World.live c) {} es
      (∀ row ∈ w.database.ingestionJobs, row.job.state = .completed) →
        ∀ d v source, CurrentVersion w.database d v → source ∈ w.database.sources →
          source.pk = (d.tenantId, d.sourceId) →
            ∀ principal,
              (authorize principal ⟨d.tenantId, d.id, "read", source.policy⟩).allowed = true →
                Reaches c w v principal := by
  intro h
  obtain ⟨d, v, source, hcurrent, -, hsource, hchunks, hmem, hspk, hpolicy⟩ := regranted_current
  have hallowed : (authorize ⟨"reader", "tenant", [], [], true⟩
      ⟨d.tenantId, d.id, "read", source.policy⟩).allowed = true := by
    have ht : d.tenantId = "tenant" := congrArg Prod.fst hsource
    rw [ht, hpolicy]
    rfl
  have hreaches := h samplePlatform ⟨2, Nat.two_pos⟩ regrantedRun samplePlatform_collisionFree
    regranted_completed d v source hcurrent hmem (hspk.trans hsource.symm) _ hallowed
  have hindex : regrantedWorld.index.rows.all (fun entry =>
      !policyFilter ⟨"reader", "tenant", [], [], true⟩ entry) = true := by decide +kernel
  obtain ⟨chunk, hchunk⟩ := List.exists_mem_of_ne_nil _ hchunks
  obtain ⟨entry, hentry, -, hpasses⟩ := hreaches chunk hchunk
  have hexcluded := List.all_eq_true.1 hindex entry hentry
  rw [hpasses] at hexcluded
  cases hexcluded

end GroundedOps.Ingestion
