import GroundedOps.Proof.Effects
import GroundedOps.Spec.Transactions

/-!
# Who writes the policy of a source

* `step_alone`: with nothing beside it, a transaction does to the sources what a whole event
  of the worker does.
* `Locked`: a transaction that has run its statement of `submit` has the row locked, with
  the policy it submitted.
* `policy_follows`: **the stored policy is that of the last submission exactly when every
  delivery that commits has read the policy that is stored.**
-/

namespace GroundedOps.Ingestion

open ReadCommitted

/-! ## One transaction alone -/

/-- The sources of a database on which no transaction runs. -/
def Transactions.quiet (sources : Sources) : Transactions where
  rows := ⟨sources.find, fun _ => none⟩

def submissionAlone (source : Source) : List TransactionStep :=
  [.submitEvent 0 source, .submit 0, .commit 0]

def deliveryAlone (pk : String × String) : List TransactionStep :=
  [.runJob 0 pk, .getDelivery 0, .submit 0, .commit 0]

section Alone

variable {sources : Sources} {source : Source} {k : String × String}

/-- What an upsert makes of each row. -/
theorem find_upsert : (sources.upsert source).find k =
    if k = source.pk then some (source.onto (sources.find source.pk)) else sources.find k := by
  unfold Sources.upsert
  cases hfind : sources.find source.pk with
  | none =>
    by_cases hk : k = source.pk
    · rw [if_pos hk, hk]
      exact Table.find_eq_some.2 ⟨Table.mem_put.2 (Or.inl rfl), rfl⟩
    · rw [if_neg hk]
      cases hrow : sources.find k with
      | some row =>
        obtain ⟨hmem, hpk⟩ := Table.find_eq_some.1 hrow
        exact Table.find_eq_some.2 ⟨Table.mem_put.2 (Or.inr ⟨hmem, hpk ▸ hk⟩), hpk⟩
      | none =>
        refine List.find?_eq_none.2 fun row hrow' => ?_
        rcases Table.mem_put.1 hrow' with rfl | ⟨hmem, -⟩
        · exact fun h => hk (of_decide_eq_true h).symm
        · exact List.find?_eq_none.1 hrow row hmem
  | some row₀ =>
    obtain ⟨hmem₀, hpk₀⟩ := Table.find_eq_some.1 hfind
    dsimp only
    rw [Table.find_modify]
    by_cases hk : k = source.pk
    · rw [if_pos hk, hk, hfind, Option.map_some, if_pos hpk₀]
      rfl
    · rw [if_neg hk]
      cases hrow : sources.find k with
      | none => rfl
      | some row =>
        have hne : row.pk ≠ source.pk := (Table.find_eq_some.1 hrow).2 ▸ hk
        rw [Option.map_some, if_neg hne]

/-- **A submission alone upserts its source.** -/
theorem submissionAlone_sources :
    (Machine.run Transactions.step (.quiet sources) (submissionAlone source)).rows.committed =
      (sources.upsert source).find := by
  have hupdate : (Transactions.quiet sources).rows.update 0 source.pk source.onto =
      some ((Transactions.quiet sources).rows.write 0 source.pk
        (source.onto (sources.find source.pk))) := Rows.update_of_free rfl
  funext k
  rw [find_upsert]
  simp only [submissionAlone, Machine.run_cons, Machine.run_nil, Transactions.step,
    Transactions.set, Transactions.quiet, Function.update_self] at hupdate ⊢
  simp only [hupdate, Function.update_self]
  exact Rows.commit_write fun _ _ => Option.some_ne_none _ ∘ Eq.symm

/-- **A delivery alone writes back what it has read.** -/
theorem deliveryAlone_sources (h : sources.find source.pk = some source) :
    (Machine.run Transactions.step (.quiet sources) (deliveryAlone source.pk)).rows.committed =
      sources.find := by
  have hupdate : (Transactions.quiet sources).rows.update 0 source.pk source.onto =
      some ((Transactions.quiet sources).rows.write 0 source.pk
        (source.onto (sources.find source.pk))) := Rows.update_of_free rfl
  have hvisible : (Transactions.quiet sources).rows.visible 0 source.pk = some source := h
  have hsame : source.onto (sources.find source.pk) = source := by rw [h]; rfl
  funext k
  simp only [deliveryAlone, Machine.run_cons, Machine.run_nil, Transactions.step,
    Transactions.set, Transactions.quiet, Function.update_self] at hupdate hvisible ⊢
  simp only [hvisible, hupdate, Function.update_self, hsame]
  refine (Rows.commit_write fun _ _ => Option.some_ne_none _ ∘ Eq.symm).trans ?_
  by_cases hk : k = source.pk
  · rw [if_pos hk, hk, h]
  · rw [if_neg hk]

variable {c : Components} {w w' : World} {event : WorkerEvent}

theorem Effect.upserts (h : Effect c event w w') :
    w'.database.sources = w.database.sources ∨ ∃ source, event.action = .submit source ∧
      w'.database.sources = w.database.sources.upsert source.source := by
  cases h with
  | submitted source action _ _ _ _ _ before _ submitted after _ _ _ =>
    refine Or.inr ⟨source, action, ?_⟩
    rw [after.sources, submitted.sources, before]
    rfl
  | unfinished rows _ _ _ => exact Or.inl rows.sources
  | finished _ _ _ _ _ rows _ _ _ => exact Or.inl rows.same.sources

/-- **A submission of the worker** does to the sources what its transaction does alone, if it
does anything. -/
theorem step_submission_alone (hc : Consistent c.platform w.database w.uuids) {event : SourceEvent}
    {faults : Faults} {now : ℤ} :
    (w.step c ⟨.submit event, faults, now⟩).database.sources = w.database.sources ∨
      (w.step c ⟨.submit event, faults, now⟩).database.sources.find =
        (Machine.run Transactions.step (.quiet w.database.sources)
          (submissionAlone event.source)).rows.committed := by
  rcases (step_effect w ⟨.submit event, faults, now⟩ hc).upserts with hsame | ⟨source, haction, hup⟩
  · exact Or.inl hsame
  · cases haction
    right
    rw [hup, submissionAlone_sources]

/-- **A delivery of the worker** does to the sources what its transaction does alone. -/
theorem step_delivery_alone (hc : Consistent c.platform w.database w.uuids) {tenantId jobId : String}
    {faults : Faults} {now : ℤ} {record : DeliveryRecord}
    (h : w.database.getDelivery tenantId jobId = some record) :
    (w.step c ⟨.deliver tenantId jobId, faults, now⟩).database.sources.find =
      (Machine.run Transactions.step (.quiet w.database.sources)
        (deliveryAlone record.source.pk)).rows.committed := by
  obtain ⟨_, _, _, _, _, hsource, _⟩ := getDelivery_eq h
  rw [deliveryAlone_sources (Table.find_of_mem hsource)]
  rcases (step_effect w ⟨.deliver tenantId jobId, faults, now⟩ hc).upserts with hsame | ⟨_, haction, _⟩
  · rw [hsame]
  · cases haction

end Alone

/-! ## Locks -/

/-- The rows that are locked are those of the transactions past their statement of `submit`,
with the policy that they submitted. -/
structure Locked (s : Transactions) : Prop where
  pending : ∀ k tx r, s.rows.pending k = some (tx, r) → ∃ kind source,
    s.running tx = some ⟨kind, .submitted source⟩ ∧ source.pk = k ∧ r.policy = source.policy
  submitted : ∀ tx kind source, s.running tx = some ⟨kind, .submitted source⟩ →
    ∃ r, s.rows.pending source.pk = some (tx, r)

/-- The stored policy of every source is that of the last submission of it that committed. -/
def FollowsSubmissions (s : Transactions) : Prop :=
  ∀ k, (s.rows.committed k).map Source.policy =
    ((s.submissions.filter fun source => source.pk = k).getLast?).map Source.policy

/-- A delivery that commits has submitted the policy that is stored: nobody has committed
another one since it was read. -/
def ReadsCurrent (s : Transactions) (step : TransactionStep) : Prop :=
  ∀ tx source, step = .commit tx → s.running tx = some ⟨.delivery, .submitted source⟩ →
    (s.rows.committed source.pk).map Source.policy = some source.policy

section Steps

variable {s : Transactions} {tx tx' : ℕ} {source : Source} {kind : TransactionKind}
  {k : String × String}

theorem onto_policy (row : Option Source) : (source.onto row).policy = source.policy := by
  cases row with
  | none => rfl
  | some row => rfl

/-- A transaction that has not run its statement of `submit` may move up to it. -/
theorem Locked.set (h : Locked s) {progress : Progress}
    (hold : ∀ kind source, s.running tx ≠ some ⟨kind, .submitted source⟩)
    (hnew : ∀ source, progress ≠ .submitted source) : Locked (s.set tx (some ⟨kind, progress⟩)) := by
  refine ⟨fun k tx' r hp => ?_, fun tx' kind' source hrunning => ?_⟩
  · obtain ⟨kind', source, hrunning, hrest⟩ := h.pending k tx' r hp
    have hne : tx' ≠ tx := fun he => hold kind' source (he ▸ hrunning)
    exact ⟨kind', source, (Function.update_of_ne hne ..).trans hrunning, hrest⟩
  · by_cases htx : tx' = tx
    · subst htx
      have hself : (s.set tx' (some ⟨kind, progress⟩)).running tx' = some ⟨kind, progress⟩ :=
        Function.update_self ..
      rw [hself] at hrunning
      injection hrunning with heq
      injection heq with _ hprogress
      exact absurd hprogress (hnew source)
    · exact h.submitted tx' kind' source ((Function.update_of_ne htx ..).symm.trans hrunning)

/-- The statement of `submit` locks its row. -/
theorem Locked.submit {s' : Transactions} (h : Locked s)
    (hbefore : s.running tx = some ⟨kind, .submitting source⟩)
    (hfree : ∀ tx' r, s.rows.pending source.pk = some (tx', r) → tx' = tx) {r : Source}
    (hr : r.policy = source.policy)
    (hrows : s'.rows.pending = Function.update s.rows.pending source.pk (some (tx, r)))
    (hrunning : s'.running = Function.update s.running tx (some ⟨kind, .submitted source⟩)) :
    Locked s' := by
  have hone : ∀ k r, s.rows.pending k ≠ some (tx, r) := by
    intro k r hp
    obtain ⟨_, _, hsubmitted, -, -⟩ := h.pending k tx r hp
    rw [hbefore] at hsubmitted
    cases hsubmitted
  refine ⟨fun k tx' r' hp => ?_, fun tx' kind' source' hsubmitted => ?_⟩
  · rw [hrows] at hp
    by_cases hk : k = source.pk
    · rw [hk, Function.update_self] at hp
      cases hp
      exact ⟨kind, source, by rw [hrunning, Function.update_self], hk.symm, hr⟩
    · rw [Function.update_of_ne hk] at hp
      obtain ⟨kind', source', hsubmitted, hrest⟩ := h.pending k tx' r' hp
      have hne : tx' ≠ tx := fun he => hone k r' (he ▸ hp)
      exact ⟨kind', source', by rw [hrunning, Function.update_of_ne hne, hsubmitted], hrest⟩
  · rw [hrunning] at hsubmitted
    rw [hrows]
    by_cases htx : tx' = tx
    · rw [htx, Function.update_self] at hsubmitted
      cases hsubmitted
      exact ⟨r, by rw [Function.update_self, htx]⟩
    · rw [Function.update_of_ne htx] at hsubmitted
      obtain ⟨r', hp⟩ := h.submitted tx' kind' source' hsubmitted
      have hk : source'.pk ≠ source.pk := fun he => htx (hfree tx' r' (he ▸ hp))
      exact ⟨r', by rw [Function.update_of_ne hk, hp]⟩

/-- The end of a transaction releases its row. -/
theorem Locked.end {s' : Transactions} (h : Locked s) (hrows : s'.rows.pending = s.rows.released tx)
    (hrunning : s'.running = Function.update s.running tx none) : Locked s' := by
  refine ⟨fun k tx' r hp => ?_, fun tx' kind source hsubmitted => ?_⟩
  · rw [hrows] at hp
    obtain ⟨hp', hne⟩ := Rows.released_eq_some.1 hp
    obtain ⟨kind, source, hsubmitted, hrest⟩ := h.pending k tx' r hp'
    exact ⟨kind, source, by rw [hrunning, Function.update_of_ne hne, hsubmitted], hrest⟩
  · rw [hrunning] at hsubmitted
    by_cases htx : tx' = tx
    · rw [htx, Function.update_self] at hsubmitted
      cases hsubmitted
    · rw [Function.update_of_ne htx] at hsubmitted
      obtain ⟨r, hp⟩ := h.submitted tx' kind source hsubmitted
      exact ⟨r, by rw [hrows]; exact Rows.released_eq_some.2 ⟨hp, htx⟩⟩

/-- **What one statement does.** -/
inductive StatementEffect (s : Transactions) (statement : TransactionStep) (s' : Transactions) : Prop
  /-- it was not its turn, or it waits -/
  | same (h : s' = s) (hcommit : ∀ tx kind source, statement = .commit tx →
      s.running tx ≠ some ⟨kind, .submitted source⟩)
  | moved (tx : ℕ) (kind : TransactionKind) (progress : Progress)
      (hstatement : ∀ tx, statement ≠ .commit tx)
      (hold : ∀ kind source, s.running tx ≠ some ⟨kind, .submitted source⟩)
      (hnew : ∀ source, progress ≠ .submitted source)
      (h : s' = s.set tx (some ⟨kind, progress⟩))
  | submitted (tx : ℕ) (kind : TransactionKind) (source : Source) (r : Source)
      (hstatement : ∀ tx, statement ≠ .commit tx)
      (hbefore : s.running tx = some ⟨kind, .submitting source⟩)
      (hfree : ∀ tx' r, s.rows.pending source.pk = some (tx', r) → tx' = tx)
      (hr : r.policy = source.policy)
      (h : s' = { s with rows := s.rows.write tx source.pk r }.set tx
        (some ⟨kind, .submitted source⟩))
  | committed (tx : ℕ) (kind : TransactionKind) (source : Source)
      (hstatement : statement = .commit tx)
      (hbefore : s.running tx = some ⟨kind, .submitted source⟩)
      (h : s' = { s with
        rows := s.rows.commit tx
        submissions := if kind = TransactionKind.submission then s.submissions ++ [source]
          else s.submissions }.set tx none)
  | rolledBack (tx : ℕ) (hstatement : statement = .rollback tx)
      (h : s' = { s with rows := s.rows.rollback tx }.set tx none)

theorem statement_cases (s : Transactions) (statement : TransactionStep) :
    StatementEffect s statement (s.step statement) := by
  cases statement with
  | submitEvent tx source =>
    simp only [Transactions.step]
    split
    · rename_i hnone
      refine .moved tx .submission (.submitting source) (fun _ => TransactionStep.noConfusion)
        (fun _ _ hsome => ?_) (fun _ => Progress.noConfusion) rfl
      rw [hnone] at hsome
      cases hsome
    · exact .same rfl fun _ _ _ => TransactionStep.noConfusion
  | runJob tx pk =>
    simp only [Transactions.step]
    split
    · rename_i hnone
      refine .moved tx .delivery (.begun pk) (fun _ => TransactionStep.noConfusion)
        (fun _ _ hsome => ?_) (fun _ => Progress.noConfusion) rfl
      rw [hnone] at hsome
      cases hsome
    · exact .same rfl fun _ _ _ => TransactionStep.noConfusion
  | getDelivery tx =>
    simp only [Transactions.step]
    split
    · rename_i kind pk hbegun
      split
      · rename_i source _
        refine .moved tx kind (.submitting source) (fun _ => TransactionStep.noConfusion)
          (fun _ _ hsome => ?_) (fun _ => Progress.noConfusion) rfl
        rw [hbegun] at hsome
        cases hsome
      · exact .same rfl fun _ _ _ => TransactionStep.noConfusion
    · exact .same rfl fun _ _ _ => TransactionStep.noConfusion
  | submit tx =>
    simp only [Transactions.step]
    split
    · rename_i kind source hsubmitting
      split
      · rename_i rows hupdate
        obtain ⟨rfl, hfree⟩ := Rows.update_eq_some hupdate
        exact .submitted tx kind source _ (fun _ => TransactionStep.noConfusion) hsubmitting hfree
          (onto_policy _) rfl
      · exact .same rfl fun _ _ _ => TransactionStep.noConfusion
    · exact .same rfl fun _ _ _ => TransactionStep.noConfusion
  | commit tx =>
    simp only [Transactions.step]
    split
    · rename_i kind source hsubmitted
      exact .committed tx kind source rfl hsubmitted rfl
    · rename_i hne
      refine .same rfl fun tx' kind source heq hsome => ?_
      cases heq
      exact hne kind source hsome
  | rollback tx => exact .rolledBack tx rfl rfl

/-- What a commit leaves in the rows. -/
theorem Locked.committed (h : Locked s) (hbefore : s.running tx = some ⟨kind, .submitted source⟩) :
    ((s.rows.commit tx).committed k).map Source.policy =
      if k = source.pk then some source.policy else (s.rows.committed k).map Source.policy := by
  obtain ⟨r, hp⟩ := h.submitted tx kind source hbefore
  have hown : ∀ k r, s.rows.pending k = some (tx, r) → k = source.pk ∧ r.policy = source.policy := by
    intro k r hp
    obtain ⟨_, source', hsubmitted, hk, hr⟩ := h.pending k tx r hp
    rw [hbefore] at hsubmitted
    cases hsubmitted
    exact ⟨hk.symm, hr⟩
  show ((s.rows.visible tx k).map Source.policy) = _
  by_cases hk : k = source.pk
  · rw [if_pos hk, hk, Rows.visible_of_pending hp, Option.map_some, (hown _ r hp).2]
  · rw [if_neg hk, Rows.visible_of_not_pending fun r hp => hk (hown k r hp).1]

/-- **One statement keeps the locks.** -/
theorem StatementEffect.locked {s' : Transactions} {statement : TransactionStep} (h : Locked s)
    (he : StatementEffect s statement s') : Locked s' := by
  cases he with
  | same heq _ => exact heq ▸ h
  | moved tx kind progress _ hold hnew heq => exact heq ▸ h.set hold hnew
  | submitted tx kind source r _ hbefore hfree hr heq =>
    subst heq
    exact h.submit hbefore hfree hr rfl rfl
  | committed tx kind source _ _ heq =>
    subst heq
    exact h.end rfl rfl
  | rolledBack tx _ heq =>
    subst heq
    exact h.end rfl rfl

/-- **One statement keeps the stored policies** exactly when it is not the commit of a delivery
that has read another policy. -/
theorem StatementEffect.follows {s' : Transactions} {statement : TransactionStep} (h : Locked s)
    (hs : FollowsSubmissions s) (he : StatementEffect s statement s') :
    FollowsSubmissions s' ↔ ReadsCurrent s statement := by
  -- a statement that commits no delivery and leaves rows and submissions alone
  have hkept : (∀ tx source, statement = .commit tx →
        s.running tx ≠ some ⟨.delivery, .submitted source⟩) →
      s'.rows.committed = s.rows.committed → s'.submissions = s.submissions →
      (FollowsSubmissions s' ↔ ReadsCurrent s statement) := by
    intro hstatement hrows hsubmissions
    refine iff_of_true (fun k => ?_) fun tx source heq hsome => absurd hsome (hstatement tx source heq)
    rw [hrows, hsubmissions]
    exact hs k
  cases he with
  | same heq hcommit =>
    subst heq
    exact hkept (fun tx source => hcommit tx .delivery source) rfl rfl
  | moved tx kind progress hstatement _ _ heq =>
    subst heq
    exact hkept (fun tx _ heq => absurd heq (hstatement tx)) rfl rfl
  | submitted tx kind source r hstatement _ _ _ heq =>
    subst heq
    exact hkept (fun tx _ heq => absurd heq (hstatement tx)) rfl rfl
  | rolledBack tx hstatement heq =>
    subst heq
    exact hkept (fun tx _ heq => absurd (hstatement ▸ heq) TransactionStep.noConfusion) rfl rfl
  | committed tx kind source hstatement hbefore heq =>
    subst heq
    cases kind with
    | submission =>
      -- the submission is the last one of its source from now on
      refine iff_of_true (fun k => ?_) fun tx' source' heq hsome => ?_
      · refine (h.committed hbefore).trans ?_
        show _ = Option.map Source.policy
          (List.getLast? (List.filter _ (s.submissions ++ [source])))
        rw [List.filter_append]
        by_cases hk : k = source.pk
        · rw [if_pos hk, List.filter_cons_of_pos (by simpa using hk.symm), List.filter_nil,
            List.getLast?_concat]
          rfl
        · rw [if_neg hk, List.filter_cons_of_neg (by simpa using Ne.symm hk), List.filter_nil,
            List.append_nil]
          exact hs k
      · cases hstatement.symm.trans heq
        rw [hbefore] at hsome
        cases hsome
    | delivery =>
      -- a delivery writes back the policy that it read
      have hafter : FollowsSubmissions ({ s with rows := s.rows.commit tx }.set tx none) ↔
          (s.rows.committed source.pk).map Source.policy = some source.policy := by
        constructor
        · intro hf
          have hself := (h.committed hbefore).symm.trans (hf source.pk)
          rw [if_pos rfl] at hself
          exact (hs source.pk).trans hself.symm
        · intro hsame k
          refine (h.committed hbefore).trans ?_
          by_cases hk : k = source.pk
          · rw [if_pos hk, ← hsame, hk]
            exact hs source.pk
          · rw [if_neg hk]
            exact hs k
      refine hafter.trans ⟨fun hsame tx' source' heq hsome => ?_, fun hread => hread tx source hstatement hbefore⟩
      cases hstatement.symm.trans heq
      rw [hbefore] at hsome
      cases hsome
      exact hsame

end Steps

/-! ## Runs -/

/-- **Every state that a run goes through follows the submissions exactly when every delivery
that commits has read the policy that is stored.** -/
theorem policy_follows (statements : List TransactionStep) :
    Machine.Always Transactions.step FollowsSubmissions {} statements ↔
      Machine.Meets Transactions.step ReadsCurrent {} statements := by
  have hempty : Locked {} := by
    refine ⟨fun k tx r hp => ?_, fun tx kind source hrunning => ?_⟩
    · cases hp
    · cases hrunning
  refine Machine.always_iff_meets (I := Locked) (fun s statement h _ => ?_)
    (fun s statement h hs => ?_) hempty fun _ => rfl
  · exact (statement_cases s statement).locked h
  · exact (statement_cases s statement).follows h hs

/-- `sampleSource`, restricted. -/
def restrictedSource : Source :=
  { sampleSource with policy := ["restricted"], policy_valid := by decide }

/-- A delivery reads the policy, a submission restricts it and commits, and the delivery writes
the old one back. -/
def overwritten : List TransactionStep :=
  [.submitEvent 0 sampleSource, .submit 0, .commit 0, .runJob 1 sampleSource.pk, .getDelivery 1,
    .submitEvent 2 restrictedSource, .submit 2, .commit 2, .submit 1, .commit 1]

/-- A restriction that is submitted while a job of the source runs is lost. -/
theorem restriction_overwritten : ¬∀ statements : List TransactionStep,
    (∀ tx, (Machine.run Transactions.step {} statements).running tx = none) →
    FollowsSubmissions (Machine.run Transactions.step {} statements) := by
  intro h
  have hended : ∀ tx, (Machine.run Transactions.step {} overwritten).running tx = none := by
    rintro (_ | _ | _ | tx)
    · rfl
    · rfl
    · rfl
    · rfl
  have hfollows := h overwritten hended sampleSource.pk
  exact absurd hfollows (by decide +kernel)

end GroundedOps.Ingestion
