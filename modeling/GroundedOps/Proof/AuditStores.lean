import GroundedOps.Proof.Audit

/-!
# What an audit query finds

* `event_row`: a stored event is read back as it was.
* `append_cases`, `postgres_holds`: the table holds the events of the calls that returned.
* `audit_query_exact`: **a query finds the first of the entries that it selects**, in the order of
  the calls, or of their times with the order of the calls inside.
* `audit_stores_agree`: **with calls in the order of time, the two stores answer alike.**
-/

namespace GroundedOps

open Hoare

/-! ## The store in PostgreSQL -/

section Members

variable {α : Type} {members : List α} {valueOf : α → String} {member : α}

/-- A member is found again by its value. -/
theorem memberOf_value (hnodup : (members.map valueOf).Nodup) (h : member ∈ members) :
    memberOf members valueOf (valueOf member) = some member := by
  cases hfound : memberOf members valueOf (valueOf member) with
  | none =>
    have hnone := List.find?_eq_none.1 hfound member h
    exact absurd (beq_self_eq_true _) hnone
  | some other =>
    have hmem : other ∈ members := List.mem_of_find?_eq_some hfound
    unfold memberOf at hfound
    have hvalue := List.find?_some hfound
    rw [List.inj_on_of_nodup_map hnodup hmem h (beq_iff_eq.1 hvalue)]

theorem value_beq [DecidableEq α] (hfound : ∀ member, memberOf members valueOf (valueOf member) = some member)
    (a b : α) : (valueOf a == valueOf b) = (a == b) := by
  rw [Bool.eq_iff_iff, beq_iff_eq, beq_iff_eq]
  constructor
  · intro h
    have hsame := hfound a
    rw [h, hfound b] at hsame
    exact (Option.some.inj hsame).symm
  · rintro rfl
    rfl

end Members

@[simp] theorem memberOf_category (category : AuditCategory) :
    memberOf AuditCategory.all AuditCategory.value category.value = some category :=
  memberOf_value (by decide) (by cases category <;> decide)

@[simp] theorem memberOf_action (action : AuditAction) :
    memberOf AuditAction.all AuditAction.value action.value = some action :=
  memberOf_value (by decide) (by cases action <;> decide)

@[simp] theorem memberOf_outcome (outcome : AuditOutcome) :
    memberOf AuditOutcome.all AuditOutcome.value outcome.value = some outcome :=
  memberOf_value (by decide) (by cases outcome <;> decide)

@[simp] theorem memberOf_reason (reason : AuthorizationReason) :
    memberOf AuthorizationReason.all AuthorizationReason.value reason.value = some reason :=
  memberOf_value (by decide) (by cases reason <;> decide)

theorem AuthorizationReason.value_ne (reason : AuthorizationReason) :
    (!reason.value.isEmpty) = true := by
  cases reason <;> rfl

section Postgres

variable {redaction : Redaction} {query : AuditQuery} {table : AuditTable} {entry : AuditEntry}
  {entries : List AuditEntry}

theorem hexdigest_ne (redaction : Redaction) (message : String) :
    (!(redaction.hexdigest message).isEmpty) = true := by
  have hlength := redaction.length_hexdigest message
  cases hempty : (redaction.hexdigest message).isEmpty with
  | false => rfl
  | true =>
    rw [String.isEmpty_iff] at hempty
    rw [hempty] at hlength
    cases hlength

/-- **A stored event is read back as it was**, if its actor is not an empty text. -/
theorem event_row (sequenceId : ℕ) {event : AuditEvent}
    (hactor : event.actorRef.filter (!·.isEmpty) = event.actorRef) :
    PostgresAuditStore.event (PostgresAuditStore.row sequenceId event) = some event := by
  obtain ⟨eventId, occurredAt, category, action, outcome, tenantRef, actorRef, resourceRef,
    correlationRef, reason⟩ := event
  unfold PostgresAuditStore.event PostgresAuditStore.row
  dsimp only at hactor ⊢
  cases reason with
  | none => simp [hactor]
  | some reason =>
    have hreason : (some reason.value).filter (!·.isEmpty) = some reason.value := by
      simp only [Option.filter, reason.value_ne, if_true]
    simp only [Option.map_some, hreason, hactor, memberOf_category, memberOf_action,
      memberOf_outcome, memberOf_reason]
    rfl

theorem event_actorRef (redaction : Redaction) (entry : AuditEntry) :
    (entry.event redaction).actorRef.filter (!·.isEmpty) = (entry.event redaction).actorRef := by
  unfold AuditEntry.event
  cases entry.actorId with
  | none => rfl
  | some actorId => simp only [Option.map_some, Option.filter, hexdigest_ne, if_true]

theorem selects_row (sequenceId : ℕ) (query : StoredAuditQuery) (event : AuditEvent) :
    PostgresAuditStore.selects query (PostgresAuditStore.row sequenceId event) =
      InMemoryAuditStore.matchesQuery query event := by
  unfold PostgresAuditStore.selects InMemoryAuditStore.matchesQuery PostgresAuditStore.row
  simp only [Option.all_map, value_beq memberOf_category, value_beq memberOf_outcome]

/-- The table holds the events of the entries, in the order of their sequence numbers. -/
def AuditTable.Holds (redaction : Redaction) (table : AuditTable) (entries : List AuditEntry) :
    Prop :=
  ∃ numbered : List (ℕ × AuditEntry),
    table.rows.rows = numbered.map (fun item =>
      PostgresAuditStore.row item.1 (item.2.event redaction)) ∧
    entries = numbered.map Prod.snd ∧ (numbered.Pairwise fun a b => a.1 < b.1) ∧
    ∀ item ∈ numbered, item.1 < table.nextSequenceId

theorem holds_empty (redaction : Redaction) : AuditTable.Holds redaction {} [] :=
  ⟨[], rfl, rfl, .nil, fun _ h => absurd h List.not_mem_nil⟩

/-- The columns take the event, and its id is not taken. -/
def AuditTable.Takes (redaction : Redaction) (table : AuditTable) (entries : List AuditEntry)
    (entry : AuditEntry) : Prop :=
  (PostgresAuditStore.row table.nextSequenceId (entry.event redaction)).fits = true ∧
    ∀ old ∈ entries, old.eventId ≠ entry.eventId

theorem exec_append_refused {event : AuditEvent}
    (h : (!(PostgresAuditStore.row table.nextSequenceId event).fits ||
      table.rows.rows.any (fun old => old.eventId == event.eventId ||
        old.sequenceId == table.nextSequenceId)) = true) :
    exec (PostgresAuditStore.append event) table =
      (.error .database, { table with nextSequenceId := table.nextSequenceId + 1 }) := by
  have hnew : (!(PostgresAuditStore.row table.nextSequenceId event).fits ||
      table.rows.rows.any (fun old =>
        old.eventId == (PostgresAuditStore.row table.nextSequenceId event).eventId ||
          old.sequenceId == (PostgresAuditStore.row table.nextSequenceId event).sequenceId)) =
            true := h
  unfold PostgresAuditStore.append
  rw [exec_bind]
  have hget : exec (get : Act AuditError AuditTable AuditTable) table = (.ok table, table) := rfl
  rw [hget]
  simp only [hnew, if_true]
  rfl

theorem exec_append_taken {event : AuditEvent} {rows : AuditEvents}
    (h : (!(PostgresAuditStore.row table.nextSequenceId event).fits ||
      table.rows.rows.any (fun old => old.eventId == event.eventId ||
        old.sequenceId == table.nextSequenceId)) = false)
    (hinsert : table.rows.insertNew (PostgresAuditStore.row table.nextSequenceId event) =
      some rows) :
    exec (PostgresAuditStore.append event) table =
      (.ok (), ⟨rows, table.nextSequenceId + 1⟩) := by
  have hnew : (!(PostgresAuditStore.row table.nextSequenceId event).fits ||
      table.rows.rows.any (fun old =>
        old.eventId == (PostgresAuditStore.row table.nextSequenceId event).eventId ||
          old.sequenceId == (PostgresAuditStore.row table.nextSequenceId event).sequenceId)) =
            false := h
  unfold PostgresAuditStore.append
  rw [exec_bind]
  have hget : exec (get : Act AuditError AuditTable AuditTable) table = (.ok table, table) := rfl
  rw [hget]
  simp only [hnew, hinsert]
  rfl

/-- The ids of a table that holds the entries: the next sequence number is free. -/
theorem AuditTable.Holds.taken_iff (h : table.Holds redaction entries) :
    table.rows.rows.any (fun old => old.eventId == (entry.event redaction).eventId ||
      old.sequenceId == table.nextSequenceId) = true ↔
        ¬ ∀ old ∈ entries, old.eventId ≠ entry.eventId := by
  obtain ⟨numbered, hrows, rfl, -, hnext⟩ := h
  rw [hrows, List.any_map, List.any_eq_true]
  constructor
  · rintro ⟨item, hitem, htaken⟩ hnew
    simp only [Function.comp_apply, Bool.or_eq_true, beq_iff_eq] at htaken
    rcases htaken with hid | hsequence
    · exact hnew item.2 (List.mem_map_of_mem hitem) hid
    · exact (hnext item hitem).ne hsequence
  · intro htaken
    simp only [not_forall, not_not] at htaken
    obtain ⟨old, hold, hid⟩ := htaken
    obtain ⟨item, hitem, rfl⟩ := List.mem_map.1 hold
    refine ⟨item, hitem, ?_⟩
    simp only [Function.comp_apply, Bool.or_eq_true, beq_iff_eq]
    exact Or.inl hid

/-- **What an insertion does**: the event is appended, or nothing but a sequence number is used. -/
theorem append_cases (h : table.Holds redaction entries) (entry : AuditEntry) :
    (table.Takes redaction entries entry ∧ ∃ after,
        exec (PostgresAuditStore.append (entry.event redaction)) table = (.ok (), after) ∧
          after.Holds redaction (entries ++ [entry])) ∨
      ¬ table.Takes redaction entries entry ∧ ∃ after,
        exec (PostgresAuditStore.append (entry.event redaction)) table =
          (.error .database, after) ∧ after.Holds redaction entries := by
  have htaken := @AuditTable.Holds.taken_iff _ _ entry _ h
  obtain ⟨numbered, hrows, rfl, hsorted, hnext⟩ := h
  have hgrown : ∀ item ∈ numbered, item.1 < table.nextSequenceId + 1 := fun item hitem =>
    Nat.lt_succ_of_lt (hnext item hitem)
  by_cases htakes : table.Takes redaction (numbered.map Prod.snd) entry
  · obtain ⟨hfits, hnew⟩ := htakes
    have hfree : table.rows.rows.any (fun old => old.eventId == (entry.event redaction).eventId ||
        old.sequenceId == table.nextSequenceId) = false := by
      rw [← Bool.not_eq_true, htaken, not_not]
      exact hnew
    have hkeys := List.any_eq_false.1 hfree
    simp only [Bool.or_eq_true, beq_iff_eq, not_or] at hkeys
    set new := PostgresAuditStore.row table.nextSequenceId (entry.event redaction)
    have hpk : new.eventId ∉ table.rows.rows.map AuditRow.eventId := by
      intro hmem
      obtain ⟨old, hold, hsame⟩ := List.mem_map.1 hmem
      exact (hkeys old hold).1 hsame
    have huk : new.sequenceId ∉ table.rows.rows.map AuditRow.sequenceId := by
      intro hmem
      obtain ⟨old, hold, hsame⟩ := List.mem_map.1 hmem
      exact (hkeys old hold).2 hsame
    obtain ⟨rows, hinsert, hconcat⟩ : ∃ rows, table.rows.insertNew new = some rows ∧
        rows.rows = table.rows.rows ++ [new] := by
      unfold Table.insertNew
      rw [dif_neg huk, dif_neg hpk]
      exact ⟨_, rfl, rfl⟩
    have happend := exec_append_taken (by rw [hfits, hfree]; rfl) hinsert
    refine Or.inl ⟨⟨hfits, hnew⟩, ⟨rows, table.nextSequenceId + 1⟩, happend,
      numbered ++ [(table.nextSequenceId, entry)], ?_, ?_, ?_, ?_⟩
    · rw [hconcat, hrows, List.map_append]
      rfl
    · rw [List.map_append]
      rfl
    · rw [List.pairwise_append]
      refine ⟨hsorted, List.pairwise_singleton _ _, fun a ha b hb => ?_⟩
      rw [List.mem_singleton] at hb
      subst hb
      exact hnext a ha
    · intro item hitem
      rcases List.mem_append.1 hitem with hold | hlast
      · exact hgrown item hold
      · rw [List.mem_singleton] at hlast
        subst hlast
        exact Nat.lt_succ_self _
  · have hrefused : (!(PostgresAuditStore.row table.nextSequenceId (entry.event redaction)).fits ||
        table.rows.rows.any (fun old => old.eventId == (entry.event redaction).eventId ||
          old.sequenceId == table.nextSequenceId)) = true := by
      rw [Bool.or_eq_true, htaken, Bool.not_eq_true']
      by_contra hboth
      rw [not_or, Bool.not_eq_false, not_not] at hboth
      exact htakes hboth
    exact Or.inr ⟨htakes, _, exec_append_refused hrefused, numbered, hrows, rfl, hsorted, hgrown⟩

theorem postgres_step (h : table.Holds redaction entries) (call : Draw × AuditCall) :
    AuditTable.Holds redaction
      (AuditTrail.step redaction PostgresAuditStore.store ⟨table, entries⟩ call).store
      (AuditTrail.step redaction PostgresAuditStore.store ⟨table, entries⟩ call).entries := by
  cases hcall : accepted call with
  | none =>
    rw [step_refused hcall]
    exact h
  | some entry =>
    rcases append_cases h entry with ⟨-, after, happend, hafter⟩ | ⟨-, after, happend, hafter⟩
    · rw [step_appended hcall happend]
      exact hafter
    · rw [step_raised hcall happend]
      exact hafter

/-- **The table holds the events of the calls that returned.** -/
theorem postgres_holds (redaction : Redaction) (calls : List (Draw × AuditCall)) :
    let trail := Machine.run (AuditTrail.step redaction PostgresAuditStore.store) ⟨{}, []⟩ calls
    trail.store.Holds redaction trail.entries :=
  Machine.run_inv (I := fun trail : AuditTrail AuditTable => trail.store.Holds redaction trail.entries)
    (fun _ call h => postgres_step h call) (holds_empty redaction)

/-- Only calls that are accepted return. -/
theorem postgres_entries (redaction : Redaction) (calls : List (Draw × AuditCall)) :
    (Machine.run (AuditTrail.step redaction PostgresAuditStore.store) ⟨{}, []⟩ calls).entries.Sublist
      (calls.filterMap accepted) := by
  induction calls using List.reverseRecOn with
  | nil => exact List.Sublist.refl _
  | append_singleton calls call ih =>
    have hholds := postgres_holds redaction calls
    rw [Machine.run_concat, List.filterMap_append]
    cases hcall : accepted call with
    | none =>
      rw [step_refused hcall]
      exact ih.trans (List.sublist_append_left _ _)
    | some entry =>
      rw [List.filterMap_cons_some hcall, List.filterMap_nil]
      rcases append_cases hholds entry with ⟨-, after, happend, -⟩ | ⟨-, after, happend, -⟩
      · rw [step_appended hcall happend]
        exact ih.append (List.Sublist.refl _)
      · rw [step_raised hcall happend]
        exact ih.trans (List.sublist_append_left _ _)

def AuditEvent.byTime (a b : AuditEvent) : Bool := a.occurredAt ≤ b.occurredAt

def AuditEntry.byTime (a b : AuditEntry) : Bool := a.occurredAt ≤ b.occurredAt

theorem postgres_find (h : table.Holds redaction entries) (query : StoredAuditQuery) :
    exec (PostgresAuditStore.store.query query) table =
      (.ok ((((entries.map (AuditEntry.event redaction)).filter
        (InMemoryAuditStore.matchesQuery query)).mergeSort AuditEvent.byTime).take query.limit),
          table) := by
  obtain ⟨numbered, hrows, rfl, hsorted, -⟩ := h
  set rowOf : ℕ × AuditEntry → AuditRow := fun item =>
    PostgresAuditStore.row item.1 (item.2.event redaction)
  set eventOf : ℕ × AuditEntry → AuditEvent := fun item => item.2.event redaction
  set found := numbered.filter fun item =>
    InMemoryAuditStore.matchesQuery query (eventOf item)
  have hselected : table.rows.rows.filter (PostgresAuditStore.selects query) = found.map rowOf := by
    rw [hrows, List.filter_map]
    congr 1
    refine List.filter_congr fun item _ => ?_
    exact selects_row item.1 query (eventOf item)
  have hevents : ((numbered.map Prod.snd).map (AuditEntry.event redaction)).filter
      (InMemoryAuditStore.matchesQuery query) = found.map eventOf := by
    rw [List.map_map, List.filter_map]
    rfl
  -- the sequence numbers only keep the order in which the rows were inserted
  have hordered : (found.map rowOf).mergeSort PostgresAuditStore.orderLe =
      (found.mergeSort fun a b => (eventOf a).byTime (eventOf b)).map rowOf := by
    have hsequence : (found.map rowOf).Pairwise fun a b => a.sequenceId < b.sequenceId :=
      List.pairwise_map.2 (hsorted.filter _)
    have hrefl : ∀ x : ℤ, decide (x ≤ x) = true := fun x => decide_eq_true (le_refl x)
    have hanti : ∀ x y : ℤ, decide (x ≤ y) = true → decide (y ≤ x) = true → x = y :=
      fun x y hxy hyx => le_antisymm (of_decide_eq_true hxy) (of_decide_eq_true hyx)
    unfold PostgresAuditStore.orderLe
    rw [Table.mergeSort_sequence hsequence hrefl hanti]
    exact (List.map_mergeSort (s := fun a b : AuditRow => decide (a.occurredAt ≤ b.occurredAt))
      (f := rowOf) (r := fun a b => (eventOf a).byTime (eventOf b)) (l := found)
      fun _ _ _ _ => rfl).symm
  have hsort : (found.map eventOf).mergeSort AuditEvent.byTime =
      (found.mergeSort fun a b => (eventOf a).byTime (eventOf b)).map eventOf :=
    (List.map_mergeSort (f := eventOf) (s := AuditEvent.byTime) (l := found)
      fun _ _ _ _ => rfl).symm
  have hdecoded : ∀ items : List (ℕ × AuditEntry), (items.map rowOf).mapM PostgresAuditStore.event =
      some (items.map eventOf) := by
    intro items
    induction items with
    | nil => rfl
    | cons item items ih =>
      have hitem := event_row item.1 (event_actorRef redaction item.2)
      rw [List.map_cons, List.mapM_cons, ih, hitem]
      rfl
  have hread : (((table.rows.rows.filter (PostgresAuditStore.selects query)).mergeSort
      PostgresAuditStore.orderLe).take query.limit).mapM PostgresAuditStore.event =
        some (((found.map eventOf).mergeSort AuditEvent.byTime).take query.limit) := by
    rw [hselected, hordered, hsort, ← List.map_take, hdecoded, ← List.map_take]
  have hget : exec (get : Act AuditError AuditTable AuditTable) table = (.ok table, table) := rfl
  simp only [PostgresAuditStore.store, PostgresAuditStore.query]
  rw [exec_bind, hget]
  simp only [hread, hevents]
  rfl

theorem postgres_query (hdistinct : redaction.Distinguishes query entries) (hnamed : query.Named)
    (h : table.Holds redaction entries) :
    exec (AuditRecorder.query redaction PostgresAuditStore.store query) table =
      (.ok ((((entries.filter query.selects).mergeSort AuditEntry.byTime).take query.limit).map
        (AuditEntry.event redaction)), table) := by
  have hsort : ((entries.filter query.selects).map (AuditEntry.event redaction)).mergeSort
      AuditEvent.byTime = ((entries.filter query.selects).mergeSort AuditEntry.byTime).map
        (AuditEntry.event redaction) :=
    (List.map_mergeSort (f := AuditEntry.event redaction) (r := AuditEntry.byTime)
      fun _ _ _ _ => rfl).symm
  have hlimit : (query.redacted redaction).limit = query.limit := rfl
  rw [exec_query _ _ hnamed, postgres_find h, filter_event hdistinct, hsort, hlimit, List.map_take]

end Postgres

/-! ## Both stores -/

section Stores

variable {σ : Type} {redaction : Redaction} {query : AuditQuery} {calls : List (Draw × AuditCall)}

abbrev memoryTrail (redaction : Redaction) (calls : List (Draw × AuditCall)) :
    AuditTrail (List AuditEvent) :=
  Machine.run (AuditTrail.step redaction InMemoryAuditStore.store) ⟨[], []⟩ calls

abbrev postgresTrail (redaction : Redaction) (calls : List (Draw × AuditCall)) :
    AuditTrail AuditTable :=
  Machine.run (AuditTrail.step redaction PostgresAuditStore.store) ⟨{}, []⟩ calls

/-- A query with an empty identifier is refused. -/
theorem query_refused (store : AuditStore σ) (s : σ) (h : ¬ query.Named) :
    ∃ message, exec (AuditRecorder.query redaction store query) s =
      (.error (.value message), s) := by
  rcases stored_cases redaction query with ⟨-, message, hmessage⟩ | ⟨hnamed, -⟩
  · refine ⟨message, ?_⟩
    unfold AuditRecorder.query
    rw [hmessage]
    rfl
  · exact absurd hnamed h

/-- **Audit queries are exact.** After any recording calls of any tenants, a query whose identifiers
collide with none that were recorded finds the events of exactly those entries, among the calls
that returned, that it selects by the plain identifiers: as many as its limit, in memory in the
order of the calls, in PostgreSQL in the order of their times and of the calls inside one time. A
query is refused if it gives an empty identifier, and reading changes nothing. -/
theorem audit_query_exact {redaction : Redaction} (calls : List (Draw × AuditCall))
    (query : AuditQuery) (hdistinct : redaction.Distinguishes query (calls.filterMap accepted)) :
    (let trail := memoryTrail redaction calls
     trail.entries = calls.filterMap accepted ∧
     (query.Named → exec (AuditRecorder.query redaction InMemoryAuditStore.store query) trail.store =
       (.ok (((trail.entries.filter query.selects).take query.limit).map
         (AuditEntry.event redaction)), trail.store)) ∧
     (¬ query.Named → ∃ message,
       exec (AuditRecorder.query redaction InMemoryAuditStore.store query) trail.store =
         (.error (.value message), trail.store))) ∧
    let trail := postgresTrail redaction calls
    trail.entries.Sublist (calls.filterMap accepted) ∧
    (query.Named → exec (AuditRecorder.query redaction PostgresAuditStore.store query) trail.store =
      (.ok ((((trail.entries.filter query.selects).mergeSort AuditEntry.byTime).take
        query.limit).map (AuditEntry.event redaction)), trail.store)) ∧
    (¬ query.Named → ∃ message,
      exec (AuditRecorder.query redaction PostgresAuditStore.store query) trail.store =
        (.error (.value message), trail.store)) := by
  have hsublist := postgres_entries redaction calls
  refine ⟨⟨?_, fun hnamed => ?_, fun hempty => query_refused _ _ hempty⟩, hsublist,
    fun hnamed => ?_, fun hempty => query_refused _ _ hempty⟩
  · rw [memoryTrail, memory_holds]
  · rw [memoryTrail, memory_holds]
    exact memory_query hdistinct hnamed
  · exact postgres_query (fun entry hentry => hdistinct entry (hsublist.subset hentry)) hnamed
      (postgres_holds redaction calls)

/-! ## The two stores under the same calls -/

theorem accepted_draw {call : Draw × AuditCall} {entry : AuditEntry} (h : accepted call = some entry) :
    entry.eventId = call.1.eventId := by
  obtain ⟨draw, call⟩ := call
  have hentry := (accepted_eq_some h).1
  cases call with
  | authorization =>
    cases hentry
    rfl
  | ingestion tenantId jobId outcome correlationId occurredAt =>
    simp only [AuditRecorder.entryOf, AuditRecorder.requireOutcome] at hentry
    split at hentry
    · cases hentry
      rfl
    · cases hentry
  | indexPromotion =>
    cases hentry
    rfl
  | investigation tenantId principalId investigationId outcome correlationId occurredAt =>
    simp only [AuditRecorder.entryOf, AuditRecorder.requireOutcome] at hentry
    split at hentry
    · cases hentry
      rfl
    · cases hentry

theorem fits_row {entry : AuditEntry} (sequenceId : ℕ) (h : entry.eventId.length ≤ 32) :
    (PostgresAuditStore.row sequenceId (entry.event redaction)).fits = true := by
  have hcategory : ∀ category : AuditCategory, (decide (category.value.length ≤ 32) &&
      ["authorization", "ingestion", "index_promotion", "investigation"].contains
        category.value) = true := by
    intro category
    cases category <;> decide
  have haction : ∀ action : AuditAction, action.value.length ≤ 32 := by
    intro action
    cases action <;> decide
  have houtcome : ∀ outcome : AuditOutcome, (decide (outcome.value.length ≤ 20) &&
      ["allowed", "denied", "retrying", "completed", "failed", "deleted", "promoted", "rejected",
        "started", "partial", "cancelled"].contains outcome.value) = true := by
    intro outcome
    cases outcome <;> decide
  have hreason : ∀ reason : AuthorizationReason, reason.value.length ≤ 32 := by
    intro reason
    cases reason <;> decide
  have hc := hcategory entry.category
  have ho := houtcome entry.outcome
  rw [Bool.and_eq_true, decide_eq_true_eq] at hc ho
  unfold AuditRow.fits PostgresAuditStore.row AuditEntry.event
  cases entry.actorId <;> cases entry.reason <;>
    simp only [hc, ho, haction, hreason, h, redaction.length_hexdigest, Option.map_some,
      Option.map_none, Option.all_some, Option.all_none, le_refl, decide_true, Bool.and_self]

/-- What the two stores are after the same calls, when no event id is drawn twice. -/
theorem postgres_accepts (hids : (calls.map fun call => call.1.eventId).Nodup)
    (hwidth : ∀ call ∈ calls, call.1.eventId.length ≤ 32) :
    (postgresTrail redaction calls).entries = calls.filterMap accepted := by
  induction calls using List.reverseRecOn with
  | nil => rfl
  | append_singleton calls call ih =>
    rw [List.map_append, List.nodup_append] at hids
    obtain ⟨hnodup, -, hnew⟩ := hids
    have ih' := ih hnodup fun call hcall => hwidth call (List.mem_append_left _ hcall)
    have hholds := postgres_holds redaction calls
    rw [postgresTrail, Machine.run_concat, List.filterMap_append]
    cases hcall : accepted call with
    | none =>
      rw [step_refused hcall, List.filterMap_cons_none hcall, List.filterMap_nil, List.append_nil]
      exact ih'
    | some entry =>
      rw [List.filterMap_cons_some hcall, List.filterMap_nil, ← ih']
      have hown : entry.eventId = call.1.eventId := accepted_draw hcall
      have htakes : (postgresTrail redaction calls).store.Takes redaction
          (postgresTrail redaction calls).entries entry := by
        refine ⟨fits_row _ ?_, fun old hold => ?_⟩
        · rw [hown]
          exact hwidth call (List.mem_append_right _ List.mem_cons_self)
        · rw [ih'] at hold
          obtain ⟨earlier, hearlier, haccepted⟩ := List.mem_filterMap.1 hold
          rw [accepted_draw haccepted, hown]
          exact hnew _ (List.mem_map_of_mem hearlier) _ (List.mem_map_of_mem List.mem_cons_self)
      rcases append_cases hholds entry with ⟨-, after, happend, -⟩ | ⟨hnot, -⟩
      · rw [step_appended hcall happend]
      · exact absurd htakes hnot

/-- A call does the same to both stores, if the table takes its event. -/
theorem record_agrees {events : List AuditEvent} {table : AuditTable} {entries : List AuditEntry}
    (h : table.Holds redaction entries) {call : Draw × AuditCall}
    (htakes : ∀ entry, accepted call = some entry → table.Takes redaction entries entry) :
    (exec (AuditRecorder.record redaction InMemoryAuditStore.store call.1 call.2) events).1 =
      (exec (AuditRecorder.record redaction PostgresAuditStore.store call.1 call.2) table).1 := by
  cases hcall : accepted call with
  | none =>
    obtain ⟨message, hmessage⟩ := exec_record_refused redaction hcall
    rw [hmessage, hmessage]
  | some entry =>
    rw [exec_record_accepted hcall, exec_record_accepted hcall]
    rcases append_cases h entry with ⟨-, after, happend, -⟩ | ⟨hnot, -⟩
    · have hpostgres : exec (PostgresAuditStore.store.append (entry.event redaction)) table =
          (.ok (), after) := happend
      rw [exec_bind, exec_bind, hpostgres]
      rfl
    · exact absurd (htakes entry hcall) hnot

/-- **The two audit stores are interchangeable**: under the same calls, whose event ids are
distinct and no wider than the column, each call returns or raises alike, and as long as the
accepted calls come in the order of their times, each query does too. -/
theorem audit_stores_agree (redaction : Redaction) (calls : List (Draw × AuditCall))
    (hids : (calls.map fun call => call.1.eventId).Nodup)
    (hwidth : ∀ call ∈ calls, call.1.eventId.length ≤ 32) :
    (∀ done call rest, calls = done ++ call :: rest →
      (exec (AuditRecorder.record redaction InMemoryAuditStore.store call.1 call.2)
        (memoryTrail redaction done).store).1 =
      (exec (AuditRecorder.record redaction PostgresAuditStore.store call.1 call.2)
        (postgresTrail redaction done).store).1) ∧
    (((calls.filterMap accepted).Pairwise fun a b => a.occurredAt ≤ b.occurredAt) →
      ∀ query : AuditQuery,
        (exec (AuditRecorder.query redaction InMemoryAuditStore.store query)
          (memoryTrail redaction calls).store).1 =
        (exec (AuditRecorder.query redaction PostgresAuditStore.store query)
          (postgresTrail redaction calls).store).1) := by
  refine ⟨fun done call rest hsplit => ?_, fun htimes query => ?_⟩
  · subst hsplit
    rw [List.map_append, List.map_cons, List.nodup_append] at hids
    obtain ⟨hdone, -, hnew⟩ := hids
    have hentries := @postgres_accepts redaction done hdone fun call hcall =>
      hwidth call (List.mem_append_left _ hcall)
    refine record_agrees (postgres_holds redaction done) fun entry hcall => ⟨fits_row _ ?_, ?_⟩
    · rw [accepted_draw hcall]
      exact hwidth call (List.mem_append_right _ List.mem_cons_self)
    · intro old hold
      have hold' : old ∈ done.filterMap accepted := hentries ▸ hold
      obtain ⟨earlier, hearlier, haccepted⟩ := List.mem_filterMap.1 hold'
      rw [accepted_draw haccepted, accepted_draw hcall]
      exact hnew _ (List.mem_map_of_mem hearlier) _ List.mem_cons_self
  · have hentries := @postgres_accepts redaction calls hids hwidth
    have hholds := postgres_holds redaction calls
    by_cases hnamed : query.Named
    · have hmemory : (memoryTrail redaction calls).store =
          (calls.filterMap accepted).map (AuditEntry.event redaction) := by
        rw [memoryTrail, memory_holds]
      have hfound : exec (InMemoryAuditStore.store.query (query.redacted redaction))
          (memoryTrail redaction calls).store =
            (.ok (((memoryTrail redaction calls).store.filter
              (InMemoryAuditStore.matchesQuery (query.redacted redaction))).take
                (query.redacted redaction).limit), (memoryTrail redaction calls).store) := rfl
      have hsorted : ((memoryTrail redaction calls).store.filter
          (InMemoryAuditStore.matchesQuery (query.redacted redaction))).Pairwise
            fun a b => a.byTime b = true := by
        rw [hmemory]
        refine List.Pairwise.filter _ (List.pairwise_map.2 (htimes.imp fun hle => ?_))
        exact decide_eq_true hle
      rw [exec_query _ _ hnamed, exec_query _ _ hnamed, postgres_find hholds, hfound]
      have hsame : (postgresTrail redaction calls).entries.map (AuditEntry.event redaction) =
          (memoryTrail redaction calls).store := by
        rw [hmemory, ← hentries]
      have hentries' : (Machine.run (AuditTrail.step redaction PostgresAuditStore.store) ⟨{}, []⟩
          calls).entries.map (AuditEntry.event redaction) = (memoryTrail redaction calls).store := hsame
      rw [hentries', List.mergeSort_of_pairwise hsorted]
    · rcases stored_cases redaction query with ⟨-, message, hmessage⟩ | ⟨hyes, -⟩
      · unfold AuditRecorder.query
        rw [hmessage]
        rfl
      · exact absurd hyes hnamed

end Stores

/-! ## Two calls -/

/-- Digits that begin with the message. -/
def sampleRedaction : Redaction where
  hexdigest message := String.ofList ((message.toList ++ List.replicate 64 '0').take 64)
  length_hexdigest message := by
    rw [String.length_ofList, List.length_take, List.length_append, List.length_replicate]
    omega

def sampleAuditCalls : List (Draw × AuditCall) := [
  (⟨"request-1", "event-1", 1⟩, .ingestion "tenant" "job" .completed none none),
  (⟨"request-2", "event-2", 2⟩, .indexPromotion "tenant" "version" true none none)]

def sampleAuditQuery : AuditQuery where
  tenantId := "tenant"
  resourceId := some "version"
  valid := by decide

/-- The query for a version finds its promotion, in either store. -/
theorem audit_query_exact_promotion : ∃ event, event.category = .indexPromotion ∧
    (exec (AuditRecorder.query sampleRedaction InMemoryAuditStore.store sampleAuditQuery)
      (memoryTrail sampleRedaction sampleAuditCalls).store).1 = .ok [event] := by
  have hdistinct : sampleRedaction.Distinguishes sampleAuditQuery
      (sampleAuditCalls.filterMap accepted) := by
    unfold Redaction.Distinguishes
    decide +kernel
  obtain ⟨⟨hentries, hquery, -⟩, -⟩ :=
    audit_query_exact sampleAuditCalls sampleAuditQuery hdistinct
  have hnamed : sampleAuditQuery.Named := by
    refine ⟨by decide, ?_, ?_, ?_⟩ <;> simp [sampleAuditQuery]
  have hfound : (sampleAuditCalls.filterMap accepted).filter sampleAuditQuery.selects =
      [⟨"event-2", 2, "tenant", none, "version", "request-2", .indexPromotion,
        .promoteIndexVersion, .promoted, none⟩] := by decide +kernel
  rw [hquery hnamed, hentries, hfound]
  exact ⟨_, rfl, rfl⟩

/-- Both stores answer it alike. -/
theorem audit_stores_agree_promotion :
    (exec (AuditRecorder.query sampleRedaction InMemoryAuditStore.store sampleAuditQuery)
      (memoryTrail sampleRedaction sampleAuditCalls).store).1 =
    (exec (AuditRecorder.query sampleRedaction PostgresAuditStore.store sampleAuditQuery)
      (postgresTrail sampleRedaction sampleAuditCalls).store).1 := by
  have hwidth : ∀ call ∈ sampleAuditCalls, call.1.eventId.length ≤ 32 := by decide +kernel
  have htimes : (sampleAuditCalls.filterMap accepted).Pairwise
      fun a b => a.occurredAt ≤ b.occurredAt := by decide +kernel
  exact (audit_stores_agree sampleRedaction sampleAuditCalls (by decide +kernel) hwidth).2 htimes
    sampleAuditQuery

end GroundedOps
