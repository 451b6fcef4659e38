import GroundedOps.Proof.Backing
import GroundedOps.Proof.Lifecycle
import GroundedOps.Proof.Promotion

/-!
# What a deletion takes away

The pipeline deletes a document by its canonical key. The index is not told; what keeps the
document's chunks from readers is the policy that every read asks for.

* `Tombstone`: the document is deleted and has no current version.
* `live_tombstone`: no event brings it back, a new submission of its key included.
* `neverShown_of_gone`: what a store answers as deleted, no retriever returns and no verified
  answer cites.
* `deletion_effective`: **from the commit of a deletion on, nobody is shown the document**, by
  whatever the index still holds.
-/

namespace GroundedOps

open Hoare PolicyEnforcer

/-! ## A store that answers for a document as deleted -/

/-- Whatever the store answers about the document, it is deleted. -/
def Gone (access : PolicyAccess) (k : String × String) : Prop :=
  ∀ n tenantId references policies,
    access.getDocumentPolicies n tenantId references = some policies →
      ∀ reference policy, (reference.tenantId, reference.documentId) = k →
        policies reference = some policy → policy.deleted = true

/-- No retriever returns evidence of the document, and no verified answer cites any. -/
structure NeverShown (access : PolicyAccess) (k : String × String) : Prop where
  retrieved : ∀ retrieve, Retriever access retrieve → ∀ context log,
    wp (retrieve context)
      (fun result _ => ∀ item ∈ result.evidence, (item.tenantId, item.documentId) ≠ k)
      (fun _ _ => True) log
  verified : ∀ casefold correlationId (answer : GroundedAnswer) (evidenceSet : EvidenceSet)
      principal log, answer.status = .unverified →
    wp (CitationVerifier.verify casefold access correlationId answer evidenceSet principal)
      (fun result _ => result.answer.status = .verified →
        ∀ claim ∈ answer.claims, ∀ citation ∈ claim.citations, ∀ item,
          evidenceSet.evidence.find? (fun other =>
            identity other = citation.identity) = some item →
              (item.tenantId, item.documentId) ≠ k)
      (fun _ _ => True) log

section Gone

variable {access : PolicyAccess} {principal : Principal} {k : String × String} {item : Evidence}

/-- Nothing of the document is backed. -/
theorem Gone.not_backed {reference : DocumentRef} (h : Gone access k)
    (hbacked : Backed access principal reference) :
    (reference.tenantId, reference.documentId) ≠ k := by
  obtain ⟨answer, policy, n, hgiven, hread⟩ := hbacked
  intro hk
  have hdeleted := h n _ _ _ hgiven reference policy hk hread.answered
  rw [hread.notDeleted] at hdeleted
  cases hdeleted

theorem Gone.not_item (h : Gone access k) (hbacked : ItemBacked access principal item) :
    (item.tenantId, item.documentId) ≠ k := by
  obtain ⟨reference, href, hread⟩ := hbacked
  obtain ⟨htenant, hdocument, -⟩ := make_fields href
  rw [← htenant, ← hdocument]
  exact h.not_backed hread

/-- **What is answered as deleted is never shown.** -/
theorem neverShown_of_gone (h : Gone access k) : NeverShown access k where
  retrieved retrieve hretriever context log :=
    wp_mono (hretriever.backed context log)
      (fun _ _ hbacked item hitem => h.not_item (hbacked item hitem)) (fun _ _ _ => trivial)
  verified casefold correlationId answer evidenceSet principal log hdraft := by
    refine wp_mono (wp_and (CitationVerifier.verify_spec hdraft)
      ((given_rule access principal correlationId).verify casefold answer evidenceSet log))
      (fun result log' hboth => ?_) (fun _ _ _ => trivial)
    obtain ⟨hverify, new, hnew, hgiven⟩ := hboth
    intro hverified claim hclaim citation hcitation item hitem
    obtain ⟨verified, -, hclaimVerified⟩ :=
      (Lists.exists_of_forall₂ (hverify hverified)).1 claim hclaim
    obtain ⟨answer, reference, policy, ⟨new', hnew', hanswer⟩, href, hread⟩ :=
      hclaimVerified.authorized citation hcitation item hitem
    have hsame : new' = new := List.append_cancel_left (hnew'.symm.trans hnew)
    obtain ⟨n, hn⟩ := hgiven answer (hsame ▸ hanswer)
    exact h.not_item ⟨reference, href, answer, policy, n, hn, hread⟩

end Gone

namespace Ingestion

/-! ## A document that is deleted in the database -/

/-- The row of a deleted document. -/
def Tombstone (k : String × String) (db : Database) : Prop :=
  ∃ d ∈ db.documents, d.pk = k ∧ d.deleted = true ∧ d.currentVersionId = none

section Tombstones

variable {c : Components} {P : Platform} {w : World} {db : Database} {k : String × String}
  {d : Document}

/-- A promotion is refused by a deleted document. -/
theorem tombstone_promoted {version : DocumentVersion} (hd : d ∈ db.documents)
    (hdeleted : d.deleted = true) : d ∈ (db.promoted P version).documents := by
  refine mem_promoted.2 ⟨d, hd, ?_⟩
  have hguard : d.promotable P db.documentVersions version = false := by
    simp only [Document.promotable, hdeleted, Bool.not_true, Bool.false_and]
  unfold Document.promotedTo
  rw [if_neg fun hand => Bool.false_ne_true (hguard.symm.trans hand.2)]

/-- **No event brings a deleted document back.** -/
theorem live_tombstone (hc : Consistent c.platform w.database w.uuids) (event : LifecycleEvent)
    (h : Tombstone k w.database) : Tombstone k (w.live c event).database := by
  obtain ⟨d, hd, hk, hdeleted, hnone⟩ := h
  suffices hkept : d ∈ (w.live c event).database.documents from ⟨d, hkept, hk, hdeleted, hnone⟩
  cases event with
  | worker event =>
    cases step_effect w event hc with
    | submitted source _ content _ s w₁ w₂ before _ submitted after _ _ _ =>
      have hdocuments : (w.live c (.worker event)).database.documents = w₂.database.documents :=
        after.documents
      rw [hdocuments]
      exact submitted.documents_subset (before ▸ hd)
    | unfinished rows _ _ _ =>
      have hdocuments : (w.live c (.worker event)).database.documents = w.database.documents :=
        rows.documents
      exact hdocuments ▸ hd
    | finished row version document content _ rows _ _ _ =>
      have hdocuments : (w.live c (.worker event)).database.documents =
          (w.database.promoted c.platform version).documents := rows.documents
      rw [hdocuments]
      exact tombstone_promoted hd hdeleted
  | promote tenantId versionId =>
    rcases call_promote c.platform w tenantId versionId with hdb | ⟨version, -, hdb⟩
    · have hsame : (w.live c (.promote tenantId versionId)).database = w.database := hdb
      exact hsame ▸ hd
    · have hpromoted : (w.live c (.promote tenantId versionId)).database =
          w.database.promoted c.platform version := hdb
      rw [hpromoted]
      exact tombstone_promoted hd hdeleted
  | delete tenantId documentId =>
    have hdb : (w.live c (.delete tenantId documentId)).database =
        w.database.delete tenantId documentId := call_delete c.platform w tenantId documentId
    rw [hdb]
    refine mem_deleted.2 ⟨d, hd, ?_⟩
    unfold Document.deletedBy
    split
    · rw [← hnone, ← hdeleted]
    · rfl

theorem life_tombstone (hP : c.platform.CollisionFree)
    (hc : Consistent c.platform w.database w.uuids) (h : Tombstone k w.database)
    (es : List LifecycleEvent) :
    Tombstone k (Machine.run (World.live c) w es).database :=
  (Machine.run_inv
    (I := fun w : World => Consistent c.platform w.database w.uuids ∧ Tombstone k w.database)
    (fun _ event hboth => ⟨live_consistent hP event hboth.1, live_tombstone hboth.1 event hboth.2⟩)
    ⟨hc, h⟩).2

/-- A policy that is read where the document is deleted, is deleted. -/
theorem deleted_of_tombstone {first second : Database} (h : Tombstone k first)
    {reference : DocumentRef} {policy : DocumentPolicy}
    (hk : (reference.tenantId, reference.documentId) = k)
    (hpolicy : (between first second).getDocumentPolicy reference = some policy) :
    policy.deleted = true := by
  obtain ⟨d, hd, hpk, hdeleted, -⟩ := h
  have hfind : first.documents.find (reference.tenantId, reference.documentId) = some d := by
    rw [Table.find_eq_some]
    exact ⟨hd, hpk.trans hk.symm⟩
  unfold Database.getDocumentPolicy at hpolicy
  obtain ⟨document, hdocument, hrest⟩ := Option.bind_eq_some_iff.1 hpolicy
  obtain ⟨source, -, hmade⟩ := Option.bind_eq_some_iff.1 hrest
  obtain rfl : document = d := Option.some.inj (hdocument.symm.trans hfind)
  dsimp only at hmade
  split at hmade
  · unfold DocumentPolicy.make at hmade
    split at hmade
    · cases hmade
      exact hdeleted
    · cases hmade
  · cases hmade

/-- The stores of the runtime, over databases with the tombstone. -/
theorem gone_runtimeStores {reads : ℕ → Database × Database}
    {append : ℕ → AuthorizationAudit → Bool} (h : ∀ n, Tombstone k (reads n).1) :
    Gone (runtimeStores reads append) k := by
  intro n tenantId references policies hanswer reference policy hk hpolicy
  unfold runtimeStores at hanswer
  dsimp only at hanswer
  rw [getDocumentPolicies_eq, Option.map_some, Option.some.injEq] at hanswer
  subst hanswer
  dsimp only at hpolicy
  rw [Lists.lookup_filterMap] at hpolicy
  split at hpolicy
  · exact deleted_of_tombstone (h n) hk hpolicy
  · cases hpolicy

end Tombstones

/-! ## The deletion -/

/-- A database that may be committed at some time from `w` on. -/
def Later (c : Components) (w : World) (db : Database) : Prop :=
  ∃ es, db = (Machine.run (World.live c) w es).database

/-- The transaction in which the pipeline runs an event. -/
def pipelineTransaction (c : Components) (maxAttempts : ℕ) (event : SourceEvent) :
    Step RunOutcome :=
  transaction {} .commit (IngestionPipeline.run c {} maxAttempts event)

theorem live_delete {c : Components} {w : World} {tenantId documentId : String} :
    w.live c (.delete tenantId documentId) =
      { w with database := w.database.delete tenantId documentId } := rfl

/-- The deleted row. -/
theorem tombstone_delete {c : Components} {w : World} {d : Document} (hd : d ∈ w.database.documents) :
    Tombstone d.pk (w.live c (.delete d.tenantId d.id)).database :=
  ⟨{ d with currentVersionId := none, deleted := true }, mem_deleted.2 ⟨d, hd, if_pos rfl⟩, rfl, rfl,
    rfl⟩

/-- Running a deletion is deleting the document of the key. -/
theorem wp_deletion {c : Components} {maxAttempts : ℕ} {event : SourceEvent} {w : World}
    {d : Document} (hkind : event.kind = .deleted) (hd : d ∈ w.database.documents)
    (hkey : d.unique = (event.source.tenantId, event.source.id, event.canonicalKey)) :
    wp (pipelineTransaction c maxAttempts event)
      (fun outcome w' => outcome = .deleted (some d.id) ∧
        w' = w.live c (.delete d.tenantId d.id)) (fun _ _ => False) w := by
  have hfound : w.database.documents.lookup
      (event.source.tenantId, event.source.id, event.canonicalKey) = some d :=
    Table.lookup_eq_some.2 ⟨hd, hkey⟩
  have htenant : event.source.tenantId = d.tenantId := (congrArg Prod.fst hkey).symm
  unfold pipelineTransaction
  rw [wp_transaction]
  unfold IngestionPipeline.run
  rw [if_pos hkind]
  simp only [wp_bind, wp_readDatabase, hfound, IngestionRepository.delete, wp_writeDatabase,
    wp_pure]
  rw [htenant, live_delete]
  refine ⟨fun _ => ⟨trivial, rfl⟩, fun fault hfault => ?_⟩
  cases hfault

/-- **A deletion takes effect at once and for good.** After any run, let the pipeline commit an
event of kind `deleted` for the key of a document. Then for every read of policies whose two
statements see databases committed at any later times, through submissions of the same key,
deliveries with any failures, recoveries and promotions: no retriever returns evidence of the
document, whatever the index and the legs answer, and no verified answer cites any, also of evidence
that was retrieved before. -/
theorem deletion_effective {c : Components} (hP : c.platform.CollisionFree)
    (es : List LifecycleEvent) (maxAttempts : ℕ) (event : SourceEvent)
    (hkind : event.kind = .deleted) (d : Document)
    (hd : d ∈ (Machine.run (World.live c) {} es).database.documents)
    (hkey : d.unique = (event.source.tenantId, event.source.id, event.canonicalKey)) :
    wp (pipelineTransaction c maxAttempts event)
      (fun outcome w' => outcome = .deleted (some d.id) ∧
        ∀ reads append, (∀ n, Later c w' (reads n).1 ∧ Later c w' (reads n).2) →
          NeverShown (runtimeStores reads append) (d.tenantId, d.id))
      (fun _ _ => False) (Machine.run (World.live c) {} es) := by
  set w := Machine.run (World.live c) {} es
  have hconsistent : Consistent c.platform w.database w.uuids := (life_kept hP es).consistent
  refine wp_mono (wp_deletion hkind hd hkey) (fun outcome w' h => ?_) (fun _ _ h => h)
  obtain ⟨houtcome, rfl⟩ := h
  refine ⟨houtcome, fun reads append hlater => ?_⟩
  have hdead : Tombstone (d.tenantId, d.id) (w.live c (.delete d.tenantId d.id)).database :=
    tombstone_delete hd
  have hconsistent' := live_consistent hP (.delete d.tenantId d.id) hconsistent
  refine neverShown_of_gone (gone_runtimeStores fun n => ?_)
  obtain ⟨es', hfirst⟩ := (hlater n).1
  rw [hfirst]
  exact life_tombstone hP hconsistent' hdead es'

/-- A document is submitted and projected before its deletion. -/
def deletedRun : List LifecycleEvent := [
  .worker { action := .submit (sampleEvent "a" 0) },
  .worker { action := .deliver "tenant" (samplePlatform.uuid4 2) }]

def deletionEvent : SourceEvent := { sampleEvent "a" 1 with kind := .deleted }

def deletedWorld : World := Machine.run (World.live sampleComponents) {} deletedRun

/-- The document that is deleted has been projected. -/
theorem deletedWorld_document : ∃ d ∈ deletedWorld.database.documents,
    d.currentVersionId ≠ none ∧ d.unique = (deletionEvent.source.tenantId,
      deletionEvent.source.id, deletionEvent.canonicalKey) := by
  have hrows : (deletedWorld.database.documents.rows.any fun d =>
      decide (d.currentVersionId ≠ none ∧ d.unique = (deletionEvent.source.tenantId,
        deletionEvent.source.id, deletionEvent.canonicalKey))) = true := by decide +kernel
  obtain ⟨d, hd, hboth⟩ := List.any_eq_true.1 hrows
  exact ⟨d, hd, of_decide_eq_true hboth⟩

theorem deletion_effective_projected : ∃ d ∈ deletedWorld.database.documents,
    d.currentVersionId ≠ none ∧
      wp (pipelineTransaction sampleComponents 3 deletionEvent)
        (fun outcome w' => outcome = .deleted (some d.id) ∧
          ∀ reads append, (∀ n, Later sampleComponents w' (reads n).1 ∧
            Later sampleComponents w' (reads n).2) →
              NeverShown (runtimeStores reads append) (d.tenantId, d.id))
        (fun _ _ => False) deletedWorld := by
  obtain ⟨d, hd, hcurrent, hkey⟩ := deletedWorld_document
  have hplatform : sampleComponents.platform.CollisionFree := samplePlatform_collisionFree
  exact ⟨d, hd, hcurrent, deletion_effective hplatform deletedRun 3 deletionEvent rfl d hd hkey⟩

end Ingestion

end GroundedOps
