import GroundedOps.Proof.Deletion
import GroundedOps.Proof.Generation

/-!
# Who may read what an answer shows

The verifier asks the policy store again, after the model has answered, so that what an answer shows
does not depend on the retriever or on the model.

* `answerFrom_given`: the answers that the log of a session gains are those of the store.
* `ShowsReadable`: the claims and the sources of a verified event are of versions that the principal
  may read.
* `answers_readable`: **over the stores of the runtime, every session shows such versions only.**
* `answers_forget`: **from the commit of a deletion on, no session cites what it deleted.**
-/

namespace GroundedOps

open Hoare CitationVerifier PolicyEnforcer
open Ingestion (Platform Components World Database Document DocumentVersion SourceEvent
  LifecycleEvent MayRead Later Tombstone Kept between runtimeStores mayRead_of_backed
  pipelineTransaction)

/-! ## The log of a session -/

namespace AskService

variable {service : AskService} {env : AskEnvironment} {question : Question}
  {principal : Principal} {evidenceSet : EvidenceSet} {log : PolicyLog} {s : AskState}

/-- Only the verifier asks the policy store. -/
theorem answerFrom_given (hs : Quiet log s) :
    wp (answerFrom service env question principal evidenceSet)
      (fun _ s' => Given env.access log s'.log) (fun _ s' => Given env.access log s'.log) s := by
  have hquiet : ∀ {s : AskState}, Quiet log s → Given env.access log s.log := fun h =>
    Given.of_same (congrArg PolicyLog.answers h.1)
  have hemit : ∀ {s : AskState} {event : AskEvent}, Given env.access log s.log →
      wp (emit env event) (fun _ s' => Given env.access log s'.log)
        (fun _ s' => Given env.access log s'.log) s := by
    intro s event hgiven
    refine wp_mono emit_spec (fun _ _ h => ?_) (fun _ _ h => ?_)
    · rw [h]
      exact hgiven
    · rw [h]
      exact hgiven
  unfold answerFrom
  simp only
  split
  · exact hemit (hquiet hs)
  · rw [wp_bind]
    refine wp_mono (emit_quiet hs unverified_status) (fun _ s₁ hs₁ => ?_) (fun _ _ h => hquiet h)
    rw [wp_bind]
    refine wp_mono (generate_quiet hs₁) (fun completed s₂ hs₂ => ?_) (fun _ _ h => hquiet h)
    cases completed with
    | none => exact hquiet hs₂
    | some response =>
      simp only
      split
      · exact hemit (hquiet hs₂)
      · exact hquiet hs₂
      · rename_i draft hdraft
        rw [wp_bind]
        have hverify := (given_rule env.access principal env.correlationId).verify service.casefold
          draft evidenceSet s₂.log
        refine wp_mono (policyCall_spec hverify) (fun result s₃ h₃ => ?_) (fun _ _ h => h.elim)
        obtain ⟨-, -, hok, herror⟩ := h₃
        rw [hs₂.1] at hok herror
        cases result with
        | error e => exact herror e rfl
        | ok verification =>
          have hgiven := hok verification rfl
          simp only
          split
          · exact hemit hgiven
          · exact hemit hgiven

end AskService

/-! ## What is shown -/

/-- The principal may read the version, as a version of some document. -/
def VersionReadable (dbs : ℕ → Database) (principal : Principal) (versionId : String) : Prop :=
  ∃ n documentId, MayRead (dbs n) principal principal.tenantId documentId versionId

/-- The claims and the sources of every verified final event are of versions that the principal may
read. -/
def ShowsReadable (dbs : ℕ → Database) (principal : Principal) (s : AskState) : Prop :=
  ∀ payload, .final payload ∈ s.events → payload.status = "verified" →
    (∀ claim ∈ payload.claims, claim.citations ≠ [] ∧ ∀ citation ∈ claim.citations,
      VersionReadable dbs principal citation.documentVersionId) ∧
    ∀ source ∈ payload.sources, VersionReadable dbs principal source.documentVersionId

section Shown

variable {service : AskService} {reads : ℕ → Database × Database}
  {append : ℕ → AuthorizationAudit → Bool} {evidenceSet : EvidenceSet} {principal : Principal}
  {log log' : PolicyLog} {item : Evidence} {s : AskState}

/-- What was authorized, the rows of a read allow. -/
theorem versionReadable_of_authorized (h : Authorized principal log log' item)
    (hgiven : Given (runtimeStores reads append) log log') :
    VersionReadable (fun n => between (reads n).1 (reads n).2) principal item.documentVersionId := by
  obtain ⟨answer, reference, policy, ⟨new, hnew, hanswer⟩, href, hread⟩ := h
  obtain ⟨gained, hgained, hall⟩ := hgiven
  have hsame : new = gained := List.append_cancel_left (hnew.symm.trans hgained)
  obtain ⟨n, hn⟩ := hall answer (hsame ▸ hanswer)
  obtain ⟨m, hmay⟩ := mayRead_of_backed href ⟨answer, policy, n, hn, hread⟩
  have htenant : item.tenantId = principal.tenantId := hmay.tenant
  exact ⟨m, item.documentId, htenant ▸ hmay⟩

theorem showsReadable_of_sound (hsound : service.Sound evidenceSet principal log s)
    (hgiven : Given (runtimeStores reads append) log s.log) :
    ShowsReadable (fun n => between (reads n).1 (reads n).2) principal s := by
  intro payload hmem hstatus
  have hanswer := hsound payload hmem hstatus
  have hcited : ∀ claim ∈ payload.claims, ∀ citation ∈ claim.citations,
      VersionReadable (fun n => between (reads n).1 (reads n).2) principal
        citation.documentVersionId := by
    intro claim hclaim citation hcitation
    obtain ⟨-, item, hitem, hid⟩ := hanswer.resolved claim hclaim citation hcitation
    have hreadable := versionReadable_of_authorized
      (hanswer.authorized claim hclaim citation hcitation item hitem hid) hgiven
    have hversion : item.documentVersionId = citation.documentVersionId :=
      congrArg (fun identity => identity.2.1) hid
    exact hversion ▸ hreadable
  refine ⟨fun claim hclaim => ⟨hanswer.cited claim hclaim, hcited claim hclaim⟩, ?_⟩
  -- a source has the identity of a citation, and so its version
  intro source hsource
  rw [hanswer.sources] at hsource
  obtain ⟨item, hitem, rfl⟩ := List.mem_map.1 hsource
  obtain ⟨claim, hclaim, hany⟩ := List.any_eq_true.1 (List.mem_filter.1 hitem).2
  obtain ⟨citation, hcitation, hid⟩ := List.any_eq_true.1 hany
  have hversion : citation.documentVersionId = item.documentVersionId :=
    congrArg (fun identity => identity.2.1) (of_decide_eq_true hid)
  have hreadable := hcited claim hclaim citation hcitation
  rw [hversion] at hreadable
  exact hreadable

end Shown

/-! ## After a deletion -/

/-- No claim and no source of a verified final event is of a version of the document. -/
def Forgets (w : World) (d : Document) (principal : Principal) (s : AskState) : Prop :=
  ∀ version ∈ w.database.documentVersions, (version.tenantId, version.documentId) = d.pk →
    version.tenantId = principal.tenantId →
      ∀ payload, .final payload ∈ s.events → payload.status = "verified" →
        (∀ claim ∈ payload.claims, ∀ citation ∈ claim.citations,
          citation.documentVersionId ≠ version.id) ∧
        ∀ source ∈ payload.sources, source.documentVersionId ≠ version.id

section Forgotten

variable {c : Components} {w : World} {d : Document} {principal : Principal}
  {reads : ℕ → Database × Database} {version : DocumentVersion}

/-- A version of a deleted document stays one, so that no read lets anybody read it. -/
theorem not_versionReadable (hP : c.platform.CollisionFree) (hkept : Kept c w)
    (hdead : Tombstone d.pk w.database) (hversion : version ∈ w.database.documentVersions)
    (hof : (version.tenantId, version.documentId) = d.pk)
    (htenant : version.tenantId = principal.tenantId)
    (hlater : ∀ n, Later c w (reads n).1 ∧ Later c w (reads n).2) :
    ¬ VersionReadable (fun n => between (reads n).1 (reads n).2) principal version.id := by
  rintro ⟨n, documentId, hmay⟩
  obtain ⟨⟨es₁, hfirst⟩, ⟨es₂, hsecond⟩⟩ := hlater n
  -- the version that was read is the one of before
  obtain ⟨read, hread, hreadpk, hreaddoc⟩ := hmay.version
  obtain ⟨kept, hmem, hbare, -⟩ := (Ingestion.life_shelves hP hkept es₂).refs version hversion
  obtain ⟨hids, hid, -⟩ := Ingestion.version_of_bare hbare
  have hreadmem : read ∈ (Machine.run (World.live c) w es₂).database.documentVersions :=
    hsecond ▸ hread
  have hkeptpk : kept.pk = (principal.tenantId, version.id) :=
    Prod.ext ((congrArg Prod.fst hids).trans htenant) hid
  have hsame : read = kept := Table.eq_of_pk hreadmem hmem (hreadpk.trans hkeptpk.symm)
  have hdocumentId : documentId = version.documentId := by
    rw [← hreaddoc, hsame]
    exact congrArg Prod.snd hids
  -- so its document is the deleted one
  obtain ⟨document, hdocument, hpk, halive, -⟩ := hmay.granted
  obtain ⟨grave, hgrave, hgravepk, hdeleted, -⟩ :=
    Ingestion.life_tombstone hP hkept.consistent hdead es₁
  have hdocumentmem : document ∈ (Machine.run (World.live c) w es₁).database.documents :=
    hfirst ▸ hdocument
  have hgone : document.pk = grave.pk := by
    rw [hpk, hdocumentId, ← htenant, hof, hgravepk]
  rw [Table.eq_of_pk hdocumentmem hgrave hgone, hdeleted] at halive
  cases halive

theorem forgets_of_shown {s : AskState} (hP : c.platform.CollisionFree) (hkept : Kept c w)
    (hdead : Tombstone d.pk w.database)
    (hlater : ∀ n, Later c w (reads n).1 ∧ Later c w (reads n).2)
    (h : ShowsReadable (fun n => between (reads n).1 (reads n).2) principal s) :
    Forgets w d principal s := by
  intro version hversion hof htenant payload hmem hstatus
  have hnot := not_versionReadable hP hkept hdead hversion hof htenant hlater
  obtain ⟨hclaims, hsources⟩ := h payload hmem hstatus
  refine ⟨fun claim hclaim citation hcitation heq => ?_, fun source hsource heq => ?_⟩
  · exact hnot (heq ▸ (hclaims claim hclaim).2 citation hcitation)
  · exact hnot (heq ▸ hsources source hsource)

end Forgotten

/-! ## Sessions -/

namespace AskService

/-- **The rule for a session over the stores of the runtime**: what follows from what it may show. -/
theorem wp_events_shows {service : AskService} {env : AskEnvironment}
    {reads : ℕ → Database × Database} {append : ℕ → AuthorizationAudit → Bool}
    {question : Question} {principal : Principal} {log : PolicyLog} {Q : AskState → Prop}
    (h : ∀ s, ShowsReadable (fun n => between (reads n).1 (reads n).2) principal s → Q s) :
    wp (events service { env with access := runtimeStores reads append } question principal)
      (fun _ => Q) (fun _ => Q) { log := log } := by
  refine wp_events_of (fun hold => ?_) fun _ hquiet => ?_
  · exact h _ fun payload hmem hstatus => absurd hstatus (hold _ hmem payload rfl)
  · exact wp_mono (wp_and (answerFrom_sound hquiet) (answerFrom_given hquiet))
      (fun _ s hboth => h s (showsReadable_of_sound hboth.1 hboth.2))
      (fun _ s hboth => h s (showsReadable_of_sound hboth.1 hboth.2))

/-- **An answer shows what its principal may read.** Over the stores of the runtime, whose reads may
see any databases, and for any retriever, model, cancellation and consumer: a verified final event
cites, for each of its claims, versions that the principal may read in the rows that one read of
policies saw (of the principal's tenant, of a document that is not deleted, and granted by its
source), and lists sources of such versions only. -/
theorem answers_readable (service : AskService) (env : AskEnvironment)
    (reads : ℕ → Database × Database) (append : ℕ → AuthorizationAudit → Bool)
    (question : Question) (principal : Principal) (log : PolicyLog) :
    wp (events service { env with access := runtimeStores reads append } question principal)
      (fun _ => ShowsReadable (fun n => between (reads n).1 (reads n).2) principal)
      (fun _ => ShowsReadable (fun n => between (reads n).1 (reads n).2) principal)
      { log := log } :=
  wp_events_shows fun _ h => h

/-- **A deleted document is not cited.** After any run, let the pipeline commit an event of kind
`deleted` for the key of a document. Then in every session whose reads of policies see databases
committed at any later times, whatever is submitted, delivered, recovered or promoted in between,
and for any retriever and model, also over evidence from before: no verified final event cites a
version that the document had, or lists a source of one. -/
theorem answers_forget {c : Components} (hP : c.platform.CollisionFree) (es : List LifecycleEvent)
    (maxAttempts : ℕ) (event : SourceEvent) (hkind : event.kind = .deleted) (d : Document)
    (hd : d ∈ (Machine.run (World.live c) {} es).database.documents)
    (hkey : d.unique = (event.source.tenantId, event.source.id, event.canonicalKey)) :
    wp (pipelineTransaction c maxAttempts event)
      (fun outcome w' => outcome = .deleted (some d.id) ∧
        ∀ reads append, (∀ n, Later c w' (reads n).1 ∧ Later c w' (reads n).2) →
          ∀ (service : AskService) (env : AskEnvironment) (question : Question)
            (principal : Principal) (log : PolicyLog),
            wp (events service { env with access := runtimeStores reads append } question principal)
              (fun _ => Forgets w' d principal) (fun _ => Forgets w' d principal) { log := log })
      (fun _ _ => False) (Machine.run (World.live c) {} es) := by
  set w := Machine.run (World.live c) {} es
  refine wp_mono (Ingestion.wp_deletion hkind hd hkey) (fun outcome w' h => ?_) (fun _ _ h => h)
  obtain ⟨houtcome, rfl⟩ := h
  have hkept : Kept c (w.live c (.delete d.tenantId d.id)) :=
    (Ingestion.live_kept hP (Ingestion.life_kept hP es) _).1
  have hdead : Tombstone d.pk (w.live c (.delete d.tenantId d.id)).database :=
    Ingestion.tombstone_delete hd
  refine ⟨houtcome, fun reads append hlater service env question principal log => ?_⟩
  exact wp_events_shows fun _ h => forgets_of_shown hP hkept hdead hlater h

theorem answers_forget_projected : ∃ d ∈ Ingestion.deletedWorld.database.documents,
    d.currentVersionId ≠ none ∧
      wp (pipelineTransaction Ingestion.sampleComponents 3 Ingestion.deletionEvent)
        (fun outcome w' => outcome = .deleted (some d.id) ∧
          ∀ reads append, (∀ n, Later Ingestion.sampleComponents w' (reads n).1 ∧
            Later Ingestion.sampleComponents w' (reads n).2) →
              ∀ (service : AskService) (env : AskEnvironment) (question : Question)
                (principal : Principal) (log : PolicyLog),
                wp (events service { env with access := runtimeStores reads append } question
                    principal)
                  (fun _ => Forgets w' d principal) (fun _ => Forgets w' d principal)
                  { log := log })
        (fun _ _ => False) Ingestion.deletedWorld := by
  obtain ⟨d, hd, hcurrent, hkey⟩ := Ingestion.deletedWorld_document
  have hplatform : Ingestion.sampleComponents.platform.CollisionFree :=
    Ingestion.samplePlatform_collisionFree
  exact ⟨d, hd, hcurrent, answers_forget hplatform Ingestion.deletedRun 3 Ingestion.deletionEvent rfl
    d hd hkey⟩

end AskService

end GroundedOps
