import GroundedOps.Lib.Fusion
import GroundedOps.Proof.Ranking
import GroundedOps.Proof.Retrieval

/-!
# Fusion of two legs

* `entries_eq`: the two dictionaries have one entry for each identity that a leg returned.
* `fusedRanking_of_entries`: sorted, the authorized entries are the `FusedRanking` of the legs.
* `retrieve_fused`: **hybrid retrieval returns the first items of the reciprocal-rank fusion** of
  what the legs returned and the principal may read.
-/

namespace GroundedOps

open Hoare PolicyEnforcer

namespace HybridRetriever

/-! ## The order of the fused ranking -/

/-- The ids decide between items of the same score. -/
def idsLt (a b : Evidence) : Prop :=
  a.chunkId < b.chunkId ∨ a.chunkId = b.chunkId ∧ a.documentVersionId < b.documentVersionId

/-- Higher scores first, then by the ids. -/
def Precedes (a b : Evidence) : Prop := b.score < a.score ∨ a.score = b.score ∧ idsLt a b

section Order

variable {a b c : Evidence}

instance : DecidableRel Precedes := fun a b => by unfold Precedes idsLt; infer_instance

theorem idsLt_asymm (h : idsLt a b) : ¬ idsLt b a := by
  rintro (hlt' | ⟨heq', hlt'⟩)
  · rcases h with hlt | ⟨heq, -⟩
    · exact String.lt_asymm hlt hlt'
    · exact String.lt_irrefl _ (heq ▸ hlt')
  · rcases h with hlt | ⟨-, hlt⟩
    · exact String.lt_irrefl _ (heq' ▸ hlt)
    · exact String.lt_asymm hlt hlt'

theorem precedes_asymm (a b : Evidence) (h : Precedes a b) : ¬ Precedes b a := by
  rintro (hlt' | ⟨heq', hids'⟩)
  · rcases h with hlt | ⟨heq, -⟩
    · exact lt_asymm hlt hlt'
    · exact hlt'.ne heq
  · rcases h with hlt | ⟨-, hids⟩
    · exact hlt.ne heq'
    · exact idsLt_asymm hids hids'

theorem string_le_iff {s t : String} : s ≤ t ↔ s < t ∨ s = t := by
  constructor
  · intro hle
    by_cases hge : t ≤ s
    · exact Or.inr (String.le_antisymm hle hge)
    · exact Or.inl (Decidable.not_not.1 fun hnot => hge (String.not_lt.1 hnot))
  · rintro (hlt | rfl)
    · exact String.not_lt.1 (String.lt_asymm hlt)
    · exact String.not_lt.1 (String.lt_irrefl s)

/-- The sort key compares by `Precedes`, and is the same for copies of one item. -/
theorem sortLe_iff : sortLe a b = true ↔ Precedes a b ∨ a.score = b.score ∧ identity a = identity b := by
  unfold sortLe Precedes idsLt identity
  rw [Prod.mk.injEq]
  by_cases hscore : a.score = b.score
  · by_cases hchunk : a.chunkId = b.chunkId
    · have hless : ¬b.score < b.score := lt_irrefl b.score
      have hbefore : ¬b.chunkId < b.chunkId := String.lt_irrefl b.chunkId
      simp only [hscore, hchunk, if_true, decide_eq_true_eq, hless, hbefore, true_and, false_or,
        string_le_iff]
    · simp only [hscore, hchunk, if_true, if_false, decide_eq_true_eq, lt_irrefl, true_and, false_and,
        false_or, or_false, string_le_iff]
  · simp only [hscore, if_false, decide_eq_true_eq, false_and, or_false]

theorem precedes_trans (hab : Precedes a b) (hbc : Precedes b c) : Precedes a c := by
  rcases hab with hab | ⟨hab, hidsab⟩
  · rcases hbc with hbc | ⟨hbc, -⟩
    · exact Or.inl (hbc.trans hab)
    · exact Or.inl (hbc ▸ hab)
  · rcases hbc with hbc | ⟨hbc, hidsbc⟩
    · exact Or.inl (hab ▸ hbc)
    · refine Or.inr ⟨hab.trans hbc, ?_⟩
      rcases hidsab with hchunk | ⟨hchunk, hversion⟩
      · rcases hidsbc with hchunk' | ⟨hchunk', -⟩
        · exact Or.inl (String.lt_trans hchunk hchunk')
        · exact Or.inl (hchunk' ▸ hchunk)
      · rcases hidsbc with hchunk' | ⟨hchunk', hversion'⟩
        · exact Or.inl (hchunk ▸ hchunk')
        · exact Or.inr ⟨hchunk.trans hchunk', String.lt_trans hversion hversion'⟩

theorem string_trichotomy (s t : String) : s < t ∨ s = t ∨ t < s := by
  rcases String.le_total s t with hle | hle
  · exact (string_le_iff.1 hle).imp_right Or.inl
  · rcases string_le_iff.1 hle with hlt | heq
    · exact Or.inr (Or.inr hlt)
    · exact Or.inr (Or.inl heq.symm)

theorem idsLt_trichotomy (a b : Evidence) : idsLt a b ∨ identity a = identity b ∨ idsLt b a := by
  unfold idsLt identity
  rw [Prod.mk.injEq]
  rcases string_trichotomy a.chunkId b.chunkId with hlt | heq | hgt
  · exact Or.inl (Or.inl hlt)
  · rcases string_trichotomy a.documentVersionId b.documentVersionId with hlt | hsame | hgt
    · exact Or.inl (Or.inr ⟨heq, hlt⟩)
    · exact Or.inr (Or.inl ⟨heq, hsame⟩)
    · exact Or.inr (Or.inr (Or.inr ⟨heq.symm, hgt⟩))
  · exact Or.inr (Or.inr (Or.inl hgt))

/-- Two items are ordered one way or the other, unless they are copies of one. -/
theorem precedes_trichotomy (a b : Evidence) :
    Precedes a b ∨ a.score = b.score ∧ identity a = identity b ∨ Precedes b a := by
  unfold Precedes
  rcases lt_trichotomy a.score b.score with hlt | heq | hgt
  · exact Or.inr (Or.inr (Or.inl hlt))
  · rcases idsLt_trichotomy a b with hids | hsame | hids
    · exact Or.inl (Or.inr ⟨heq, hids⟩)
    · exact Or.inr (Or.inl ⟨heq, hsame⟩)
    · exact Or.inr (Or.inr (Or.inr ⟨heq.symm, hids⟩))
  · exact Or.inl (Or.inl hgt)

theorem precedes_congr {a' b' : Evidence} (ha : a.score = a'.score) (ha' : identity a = identity a')
    (hb : b.score = b'.score) (hb' : identity b = identity b') : Precedes a b ↔ Precedes a' b' := by
  unfold identity at ha' hb'
  rw [Prod.mk.injEq] at ha' hb'
  unfold Precedes idsLt
  rw [ha, hb, ha'.1, ha'.2, hb'.1, hb'.2]

theorem sortLe_trans (hab : sortLe a b = true) (hbc : sortLe b c = true) : sortLe a c = true := by
  rw [sortLe_iff] at hab hbc ⊢
  rcases hab with hab | ⟨hscore, hid⟩
  · rcases hbc with hbc | ⟨hscore', hid'⟩
    · exact Or.inl (precedes_trans hab hbc)
    · exact Or.inl ((precedes_congr rfl rfl hscore' hid').1 hab)
  · rcases hbc with hbc | ⟨hscore', hid'⟩
    · exact Or.inl ((precedes_congr hscore hid rfl rfl).2 hbc)
    · exact Or.inr ⟨hscore.trans hscore', hid.trans hid'⟩

theorem sortLe_total (a b : Evidence) : (sortLe a b || sortLe b a) = true := by
  rw [Bool.or_eq_true, sortLe_iff, sortLe_iff]
  rcases precedes_trichotomy a b with hab | ⟨hscore, hid⟩ | hba
  · exact Or.inl (Or.inl hab)
  · exact Or.inl (Or.inr ⟨hscore, hid⟩)
  · exact Or.inr (Or.inl hba)

/-- **Sorting items with distinct identities** orders them strictly. -/
theorem sorted_of_distinct {items : List Evidence} (h : (items.map identity).Nodup) :
    (items.mergeSort sortLe).Pairwise Precedes := by
  have hsorted : (items.mergeSort sortLe).Pairwise fun a b => sortLe a b = true := by
    apply List.pairwise_mergeSort
    · exact fun _ _ _ => sortLe_trans
    · exact sortLe_total
  have hdistinct : (items.mergeSort sortLe).Pairwise fun a b => identity a ≠ identity b := by
    have hnodup : ((items.mergeSort sortLe).map identity).Nodup :=
      ((List.mergeSort_perm items sortLe).map identity).nodup_iff.2 h
    exact List.pairwise_map.1 hnodup
  refine (hsorted.and hdistinct).imp fun {a b} hboth => ?_
  rcases sortLe_iff.1 hboth.1 with hprecedes | ⟨-, hsame⟩
  · exact hprecedes
  · exact absurd hsame hboth.2

end Order

/-! ## The fused ranking -/

/-- What a leg adds to the score of an identity: `1 / (rrf_k + rank)` if it has it. -/
def legShare (rrfK : ℕ) (leg : List Evidence) (id : String × String) : ℚ :=
  Fusion.shareOf identity (fun rank => 1 / ((rrfK + rank : ℕ) : ℚ)) id 1 leg

/-- **The reciprocal-rank score** of an identity. -/
def rrfScore (rrfK : ℕ) (lexical dense : List Evidence) (id : String × String) : ℚ :=
  legShare rrfK lexical id + legShare rrfK dense id

/-- The item as the result has it, if its reference is authorized. -/
def authorizedAs (decide : DocumentRef → Option AuthorizedDocument) (score : ℚ) (item : Evidence) :
    Option Evidence :=
  (evidenceReference item).bind fun reference => (decide reference).map fun document =>
    { item with score := score, authorizationReason := document.decision.reason }

/-- The copy of its identity that stands: the lexical one, where both legs return it. -/
def Stands (lexical dense : List Evidence) (item : Evidence) : Prop :=
  item ∈ lexical ∨ item ∈ dense ∧ identity item ∉ lexical.map identity

/-- **Reciprocal-rank fusion of the authorized union** of two legs. -/
structure FusedRanking (rrfK : ℕ) (decide : DocumentRef → Option AuthorizedDocument)
    (lexical dense ranking : List Evidence) : Prop where
  distinct : (ranking.map identity).Nodup
  exact : ∀ item, item ∈ ranking ↔ ∃ copy, Stands lexical dense copy ∧
    authorizedAs decide (rrfScore rrfK lexical dense (identity copy)) copy = some item
  sorted : ranking.Pairwise Precedes

/-- The authorized items of one leg, in its order, with the score of their rank. -/
def authorizedLeg (rrfK : ℕ) (decide : DocumentRef → Option AuthorizedDocument)
    (leg : List Evidence) : List Evidence :=
  (leg.zipIdx 1).filterMap fun ranked => authorizedAs decide (1 / ((rrfK + ranked.2 : ℕ) : ℚ)) ranked.1

/-- The authorized items of both legs, as the dictionaries have them. -/
def fusedItems (rrfK : ℕ) (decide : DocumentRef → Option AuthorizedDocument)
    (lexical dense : List Evidence) : List Evidence :=
  (Dict.firsts identity (lexical ++ dense)).filterMap fun item =>
    authorizedAs decide (rrfScore rrfK lexical dense (identity item)) item

section Table

variable {rrfK rank : ℕ} {decide : DocumentRef → Option AuthorizedDocument} {score : ℚ}
  {lexical dense leg items : List Evidence} {item other : Evidence} {entries : List Entry}
  {decisions : List (DocumentRef × AuthorizedDocument)}

theorem authorizedAs_eq_some (h : authorizedAs decide score item = some other) :
    identity other = identity item ∧ other.score = score := by
  obtain ⟨reference, -, hother⟩ := Option.bind_eq_some_iff.1 h
  obtain ⟨document, -, rfl⟩ := Option.map_eq_some_iff.1 hother
  exact ⟨rfl, rfl⟩

def Entry.pair (entry : Entry) : ℚ × Evidence := (entry.score, entry.evidence)

theorem addShare_pairs :
    (addShare score item entries).map Entry.pair = Fusion.credit identity score item (entries.map Entry.pair) := by
  induction entries with
  | nil => rfl
  | cons entry entries ih =>
    rw [addShare, List.map_cons, Entry.pair, Fusion.credit]
    split
    · rfl
    · rw [List.map_cons, ih]
      rfl

theorem addLeg_pairs : (addLeg rrfK rank items entries).map Entry.pair =
    Fusion.credits identity (fun rank => 1 / ((rrfK + rank : ℕ) : ℚ)) rank items (entries.map Entry.pair) := by
  induction items generalizing rank entries with
  | nil => rfl
  | cons item items ih => rw [addLeg, ih, addShare_pairs, Fusion.credits]

/-- **The two dictionaries** have one entry for each identity that a leg returned: the copy that
stands, with its score. -/
theorem entries_eq (rrfK : ℕ) (hlexical : (lexical.map identity).Nodup) (hdense : (dense.map identity).Nodup) :
    (addLeg rrfK 1 dense (addLeg rrfK 1 lexical [])).map Entry.pair =
      (Dict.firsts identity (lexical ++ dense)).map fun item =>
        (rrfScore rrfK lexical dense (identity item), item) := by
  rw [addLeg_pairs, addLeg_pairs, List.map_nil, Fusion.credits_credits]
  unfold Fusion.table
  simp only [Fusion.earned_eq hlexical, Fusion.earned_eq hdense]
  rfl

theorem mem_firsts_iff (hlexical : (lexical.map identity).Nodup) (hdense : (dense.map identity).Nodup) :
    item ∈ Dict.firsts identity (lexical ++ dense) ↔ Stands lexical dense item := by
  exact Dict.mem_firsts_append hlexical hdense

/-- What the loop over the entries keeps. -/
theorem authorizedEntries_eq (decide : DocumentRef → Option AuthorizedDocument) (hdecides : ∀ item ∈ entries.map Entry.evidence, ∀ reference,
      evidenceReference item = some reference →
        lookupAuthorized decisions reference = decide reference) :
    authorizedEntries entries decisions =
      (entries.map Entry.pair).filterMap fun pair => authorizedAs decide pair.1 pair.2 := by
  unfold authorizedEntries
  rw [List.filterMap_map]
  apply List.filterMap_congr
  intro entry hentry
  simp only [authorizedAs, Function.comp, Entry.pair]
  cases href : evidenceReference entry.evidence with
  | none => rfl
  | some reference =>
    simp only [Option.bind_some, hdecides entry.evidence (List.mem_map_of_mem hentry) reference href]

/-- **Sorted, the authorized items are the fused ranking.** -/
theorem fusedRanking_sorted (hlexical : (lexical.map identity).Nodup)
    (hdense : (dense.map identity).Nodup) :
    FusedRanking rrfK decide lexical dense ((fusedItems rrfK decide lexical dense).mergeSort sortLe) := by
  have hdistinct : ((fusedItems rrfK decide lexical dense).map identity).Nodup := by
    have hfirsts : (Dict.firsts identity (lexical ++ dense)).Pairwise fun a b => identity a ≠ identity b :=
      List.pairwise_map.1 Dict.nodup_firsts
    refine List.pairwise_map.2 (hfirsts.filterMap _ fun a b hne a' ha' b' hb' => ?_)
    rw [(authorizedAs_eq_some ha').1, (authorizedAs_eq_some hb').1]
    exact hne
  refine ⟨?_, fun item => ?_, sorted_of_distinct hdistinct⟩
  · exact ((List.mergeSort_perm _ sortLe).map identity).nodup_iff.2 hdistinct
  · rw [List.mem_mergeSort]
    unfold fusedItems
    rw [List.mem_filterMap]
    simp only [mem_firsts_iff hlexical hdense]

theorem share_lt {i j : ℕ} (hi : 0 < i) (hij : i < j) :
    1 / ((rrfK + j : ℕ) : ℚ) < 1 / ((rrfK + i : ℕ) : ℚ) := by
  apply one_div_lt_one_div_of_lt
  · exact_mod_cast (by omega : 0 < rrfK + i)
  · exact_mod_cast (by omega : rrfK + i < rrfK + j)

/-- The items of one leg are in order already. -/
theorem authorizedLeg_sorted : (authorizedLeg rrfK decide leg).Pairwise Precedes := by
  have hranks : ((leg.zipIdx 1).map Prod.snd).Pairwise (· < ·) := by
    rw [List.zipIdx_map_snd]
    exact List.pairwise_lt_range'
  have hordered : (leg.zipIdx 1).Pairwise fun a b => 0 < a.2 ∧ a.2 < b.2 := by
    refine (List.pairwise_map.1 hranks).imp_of_mem fun {a b} ha _ hlt => ⟨?_, hlt⟩
    exact (List.mem_zipIdx_iff_le_and_getElem?_sub.1 ha).1
  refine hordered.filterMap _ fun a b hab a' ha' b' hb' => Or.inl ?_
  rw [(authorizedAs_eq_some ha').2, (authorizedAs_eq_some hb').2]
  exact share_lt hab.1 hab.2

/-- One leg's items, where the other leg has none. -/
theorem fusedItems_eq_leg (hleg : (leg.map identity).Nodup)
    (hfirsts : Dict.firsts identity (lexical ++ dense) = leg)
    (hscore : ∀ id, rrfScore rrfK lexical dense id = legShare rrfK leg id) :
    fusedItems rrfK decide lexical dense = authorizedLeg rrfK decide leg := by
  have hitems : leg = (leg.zipIdx 1).map Prod.fst := (List.zipIdx_map_fst 1 leg).symm
  unfold fusedItems authorizedLeg
  rw [hfirsts]
  conv_lhs => rw [hitems]
  rw [List.filterMap_map]
  apply List.filterMap_congr
  intro ranked hranked
  simp only [Function.comp]
  rw [hscore, legShare, Fusion.shareOf_ranked hleg hranked]

theorem fusedItems_sorted_left (hleg : (leg.map identity).Nodup) :
    (fusedItems rrfK decide leg []).mergeSort sortLe = authorizedLeg rrfK decide leg := by
  have hfirsts : Dict.firsts identity (leg ++ []) = leg := by
    rw [List.append_nil, Dict.firsts_of_nodup hleg]
  rw [fusedItems_eq_leg hleg hfirsts fun id => add_zero _]
  exact List.mergeSort_of_pairwise (authorizedLeg_sorted.imp fun h => sortLe_iff.2 (Or.inl h))

theorem fusedItems_sorted_right (hleg : (leg.map identity).Nodup) :
    (fusedItems rrfK decide [] leg).mergeSort sortLe = authorizedLeg rrfK decide leg := by
  have hfirsts : Dict.firsts identity ([] ++ leg) = leg := Dict.firsts_of_nodup hleg
  rw [fusedItems_eq_leg hleg hfirsts fun id => zero_add _]
  exact List.mergeSort_of_pairwise (authorizedLeg_sorted.imp fun h => sortLe_iff.2 (Or.inl h))

end Table

/-! ## The retriever -/

/-- A leg's evidence has valid identifiers and distinct identities. -/
structure ProperEvidence (evidence : List Evidence) : Prop where
  distinct : (evidence.map identity).Nodup
  valid : ∀ item ∈ evidence, (evidenceReference item).isSome = true

/-- The leg returns such evidence, or raises `RetrievalUnavailable`. -/
def ProperLeg (leg : Leg) (context : QueryContext) : Prop :=
  ∀ log, wp (leg context) (fun result _ => ProperEvidence result.evidence)
    (fun error _ => ∃ reason, error = .unavailable reason) log

/-- What a leg answers, nothing where it raises, and the log then. -/
def legAnswer (leg : Leg) (context : QueryContext) (log : PolicyLog) :
    Option (List Evidence) × PolicyLog :=
  match exec (leg context) log with
  | (.ok result, log') => (some result.evidence, log')
  | (.error _, log') => (none, log')

/-- The result is the first `limit` items of the fusion of the legs' answers, by `decide`; of one leg
alone, the first of its authorized items. -/
def FusedResult (rrfK limit : ℕ) (decide : DocumentRef → Option AuthorizedDocument)
    (lexical dense : Option (List Evidence)) (result : EvidenceSet) : Prop :=
  ∃ ranking, FusedRanking rrfK decide (lexical.getD []) (dense.getD []) ranking ∧
    result.evidence = ranking.take limit ∧
    (lexical = none → ranking = authorizedLeg rrfK decide (dense.getD [])) ∧
    (dense = none → ranking = authorizedLeg rrfK decide (lexical.getD []))

section Retrieve

variable {access : PolicyAccess} {correlationId : String} {rrfK : ℕ} {context : QueryContext}
  {log : PolicyLog}

theorem legEvidence_eq (found : Option EvidenceSet) :
    legEvidence found = (found.map EvidenceSet.evidence).getD [] := by
  cases found <;> rfl

theorem retrieveLeg_spec {leg : Leg} (hleg : ProperLeg leg context) :
    wp (retrieveLeg leg context)
      (fun found log' => legAnswer leg context log = (found.1.map EvidenceSet.evidence, log') ∧
        ProperEvidence (legEvidence found.1))
      (fun _ _ => False) log := by
  unfold retrieveLeg
  rw [wp_tryCatch, wp_map]
  refine wp_mono (wp_and wp_self (hleg log)) (fun result log' h => ?_) (fun error log' h => ?_)
  · unfold legAnswer
    rw [h.1]
    exact ⟨rfl, h.2⟩
  · obtain ⟨hexec, reason, rfl⟩ := h
    unfold legAnswer
    rw [hexec]
    exact ⟨rfl, ⟨List.nodup_nil, fun item hitem => absurd hitem List.not_mem_nil⟩⟩

/-- The entries of two legs' answers have valid references. -/
theorem references_of_proper {lexical dense : List Evidence} (hlexical : ProperEvidence lexical)
    (hdense : ProperEvidence dense) {entries : List Entry}
    (hentries : entries.map Entry.pair = (Dict.firsts identity (lexical ++ dense)).map fun item =>
      (rrfScore rrfK lexical dense (identity item), item)) :
    ∃ references, (entries.map Entry.evidence).mapM evidenceReference = some references := by
  have hitems : entries.map Entry.evidence = Dict.firsts identity (lexical ++ dense) := by
    have hsnd := congrArg (List.map Prod.snd) hentries
    rw [List.map_map, List.map_map] at hsnd
    exact hsnd.trans (List.map_id _)
  apply Lists.exists_mapM
  intro item hitem
  rw [hitems, mem_firsts_iff hlexical.distinct hdense.distinct] at hitem
  rcases hitem with hmem | ⟨hmem, -⟩
  · exact hlexical.valid item hmem
  · exact hdense.valid item hmem

/-- **What the retriever makes of the legs' answers**, where the enforcer decides by `decide`. -/
theorem fuse_fused {decide : PolicyLog → DocumentRef → Option AuthorizedDocument}
    (hreads : ∀ references, wp (authorizeReads access context.principal references correlationId)
      (fun items log' => ∀ reference ∈ references, lookupAuthorized items reference = decide log' reference)
      (fun _ _ => False) log)
    {lexical dense : Option EvidenceSet} {denseFailure : Option String}
    (hlexical : ProperEvidence (legEvidence lexical)) (hdense : ProperEvidence (legEvidence dense))
    (hany : lexical.isSome ∨ dense.isSome) :
    wp (fuse access correlationId rrfK lexical dense denseFailure context)
      (fun result log' => FusedResult rrfK context.limit (decide log')
        (lexical.map EvidenceSet.evidence) (dense.map EvidenceSet.evidence) result)
      (fun _ _ => False) log := by
  have hentries := entries_eq rrfK hlexical.distinct hdense.distinct
  obtain ⟨references, hreferences⟩ := references_of_proper hlexical hdense hentries
  have hsome : ¬ (lexical.isNone && dense.isNone) = true := by
    rw [Bool.and_eq_true, Option.isNone_iff_eq_none, Option.isNone_iff_eq_none]
    rintro ⟨rfl, rfl⟩
    rcases hany with h | h <;> cases h
  unfold fuse
  rw [if_neg hsome]
  simp only [hreferences, wp_bind, wp_raiseAs, wp_pure]
  refine wp_mono (hreads references) (fun decisions log' hdecides => ?_) (fun _ _ hfalse => hfalse)
  -- what the loop keeps is the fused items, and the rest is in `FusedRanking`
  have hpairs := Lists.exists_of_forall₂ (Lists.forall₂_of_mapM hreferences)
  have hkept : authorizedEntries (addLeg rrfK 1 (legEvidence dense)
      (addLeg rrfK 1 (legEvidence lexical) [])) decisions =
        fusedItems rrfK (decide log') (legEvidence lexical) (legEvidence dense) := by
    rw [authorizedEntries_eq (decide log'), hentries, List.filterMap_map]
    · rfl
    · intro item hitem reference href
      obtain ⟨reference', hmem, href'⟩ := hpairs.1 item hitem
      rw [href] at href'
      cases href'
      exact hdecides reference hmem
  rw [hkept]
  refine ⟨_, ?_, rfl, ?_, ?_⟩
  · rw [← legEvidence_eq, ← legEvidence_eq]
    exact fusedRanking_sorted hlexical.distinct hdense.distinct
  · intro hnone
    rw [Option.map_eq_none_iff] at hnone
    subst hnone
    rw [← legEvidence_eq]
    exact fusedItems_sorted_right hdense.distinct
  · intro hnone
    rw [Option.map_eq_none_iff] at hnone
    subst hnone
    rw [← legEvidence_eq]
    exact fusedItems_sorted_left hlexical.distinct

end Retrieve

/-- **Hybrid fusion is reciprocal-rank fusion of the authorized union.** For legs that each return
evidence with valid identifiers and distinct identities or raise `RetrievalUnavailable`, and stores
that answer, the result is the first `limit` items of the `FusedRanking` of what the legs returned,
decided by what the policy store answered after them; where one leg failed, the first authorized
items of the other in its order; and the call raises `RetrievalUnavailable` exactly where both did. -/
theorem retrieve_fused (access : PolicyAccess) (correlationId : String) (rrfK : ℕ) (lexical dense : Leg)
    (context : QueryContext) (log : PolicyLog) (hstores : StoresAnswer access context.principal)
    (hlexical : ProperLeg lexical context) (hdense : ProperLeg dense context) :
    let first := legAnswer lexical context log
    let second := legAnswer dense context first.2
    wp (retrieve access correlationId rrfK lexical dense context)
      (fun result log' => (first.1.isSome ∨ second.1.isSome) ∧
        FusedResult rrfK context.limit (decideRead context.principal (answered second.2 log'))
          first.1 second.1 result)
      (fun error log' => first.1 = none ∧ second.1 = none ∧ error = .unavailable none ∧ log' = second.2)
      log := by
  intro first second
  unfold retrieve
  rw [wp_bind]
  refine wp_mono (retrieveLeg_spec hlexical) (fun found log₁ h₁ => ?_) (fun _ _ hfalse => hfalse.elim)
  obtain ⟨hfirst, hproper₁⟩ := h₁
  rw [wp_bind]
  refine wp_mono (retrieveLeg_spec hdense) (fun found' log₂ h₂ => ?_) (fun _ _ hfalse => hfalse.elim)
  obtain ⟨hsecond, hproper₂⟩ := h₂
  have hfirst' : first = (found.1.map EvidenceSet.evidence, log₁) := hfirst
  have hsecond' : second = (found'.1.map EvidenceSet.evidence, log₂) := by
    show legAnswer dense context first.2 = _
    rw [hfirst']
    exact hsecond
  rw [hfirst', hsecond']
  dsimp only
  by_cases hany : found.1.isSome ∨ found'.1.isSome
  · refine wp_mono (fuse_fused (fun references => authorizeReads_decides hstores) hproper₁ hproper₂ hany)
      (fun result log' hfused => ?_) (fun _ _ hfalse => hfalse.elim)
    rw [Option.isSome_map, Option.isSome_map]
    exact ⟨hany, hfused⟩
  · have hnone : found.1 = none ∧ found'.1 = none := by
      rw [not_or, Bool.not_eq_true, Bool.not_eq_true, Option.isSome_eq_false_iff,
        Option.isSome_eq_false_iff, Option.isNone_iff_eq_none, Option.isNone_iff_eq_none] at hany
      exact hany
    rw [hnone.1, hnone.2]
    exact ⟨rfl, rfl, rfl, rfl⟩

/-! ## Two legs of a reader -/

/-- A chunk of the public document, as a leg returns it. -/
def chunkEvidence (chunkId : String) : Evidence :=
  { hitEvidence (OpenSearchBM25Adapter.hit publicChunk 1) .public with chunkId := chunkId }

/-- A leg that returns the chunks. -/
def chunkLeg (chunkIds : List String) : Leg := fun _ =>
  pure { evidence := chunkIds.map chunkEvidence, strategy := "bm25", total := chunkIds.length, tookMs := 0 }

theorem publicStores_answer {principal : Principal} (htenant : principal.tenantId ≠ "")
    (hid : principal.id ≠ "") : StoresAnswer publicStores principal :=
  ⟨fun _ _ => rfl, fun _ _ => rfl, htenant, hid⟩

theorem chunkLeg_proper {chunkIds : List String} (h : chunkIds.Nodup) (context : QueryContext) :
    ProperLeg (chunkLeg chunkIds) context := by
  intro log
  refine ⟨?_, fun item hitem => ?_⟩
  · have hids : (chunkIds.map chunkEvidence).map identity = chunkIds.map fun chunkId => (chunkId, "v-1") := by
      rw [List.map_map]
      rfl
    rw [hids]
    exact h.map fun a b heq => congrArg Prod.fst heq
  · obtain ⟨chunkId, -, rfl⟩ := List.mem_map.1 hitem
    have hvalid : (DocumentRef.make "t-1" "d-1" (some "v-1")).isSome = true := by decide
    exact hvalid

/-- The recorder refuses a principal without an identifier, and the retriever with it. -/
theorem retrieve_fused_unidentified : ¬ ∀ (access : PolicyAccess) (correlationId : String) (rrfK : ℕ)
    (lexical dense : Leg) (context : QueryContext) (log : PolicyLog), 0 < rrfK → Recorded access →
    (∀ n references, (access.getDocumentPolicies n context.principal.tenantId references).isSome) →
    ProperLeg lexical context → ProperLeg dense context →
      let first := legAnswer lexical context log
      let second := legAnswer dense context first.2
      wp (retrieve access correlationId rrfK lexical dense context)
        (fun result log' => (first.1.isSome ∨ second.1.isSome) ∧
          FusedResult rrfK context.limit (decideRead context.principal (answered second.2 log'))
            first.1 second.1 result)
        (fun error log' => first.1 = none ∧ second.1 = none ∧ error = .unavailable none ∧ log' = second.2)
        log := by
  intro h
  have hreturns := h publicStores "correlation" 60 (chunkLeg ["c-1"]) (chunkLeg []) (askedBy "") {}
    (by decide) (fun _ _ => rfl) (fun _ _ => rfl) (chunkLeg_proper (by decide) _)
    (chunkLeg_proper (by decide) _)
  have hraised : (exec (retrieve publicStores "correlation" 60 (chunkLeg ["c-1"]) (chunkLeg [])
      (askedBy "")) {}).1 = .error (.unavailable none) := by
    decide +kernel
  rcases hexec : exec (retrieve publicStores "correlation" 60 (chunkLeg ["c-1"]) (chunkLeg [])
    (askedBy "")) {} with ⟨error | result, log'⟩
  · exact absurd (wp_error hreturns hexec).1 (Option.some_ne_none _)
  · rw [hexec] at hraised
    cases hraised

/-- Legs that share a chunk. -/
theorem retrieve_fused_sample :
    wp (retrieve publicStores "correlation" 60 (chunkLeg ["c-1", "c-2"]) (chunkLeg ["c-2", "c-3"])
        (askedBy "p-1"))
      (fun result log' => FusedResult 60 10 (decideRead (askedBy "p-1").principal (answered {} log'))
        (some (["c-1", "c-2"].map chunkEvidence)) (some (["c-2", "c-3"].map chunkEvidence)) result)
      (fun _ _ => False) {} := by
  have hfused := retrieve_fused publicStores "correlation" 60 (chunkLeg ["c-1", "c-2"])
    (chunkLeg ["c-2", "c-3"]) (askedBy "p-1") {} (publicStores_answer (by decide) (by decide))
    (chunkLeg_proper (by decide) _) (chunkLeg_proper (by decide) _)
  exact wp_mono hfused (fun result log' h => h.2) (fun _ _ h => absurd h.1 (Option.some_ne_none _))

end HybridRetriever

end GroundedOps
