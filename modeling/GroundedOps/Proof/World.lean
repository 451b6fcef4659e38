import GroundedOps.Proof.Database
import GroundedOps.Spec.World

/-!
# Rules for the operations of a worker

How each primitive operation acts on the world, as weakest preconditions. A named
operation that fails raises; one that is passed tells that the faults spare it, and
`Clear` collects these facts.
-/

namespace GroundedOps.Ingestion

open Hoare

/-- None of the operations fails. -/
def Clear (faults : Faults) (operations : List Operation) : Prop :=
  ∀ operation ∈ operations, faults.fault operation = none

/-- Neither the index nor the log nor the identifiers have moved. -/
structure Quiet (w w' : World) : Prop where
  index : w'.index = w.index
  log : w'.log = w.log
  uuids : w'.uuids = w.uuids

/-- The log has only grown, by observations that satisfy `p`. -/
def Logged (p : Observation → Prop) (w w' : World) : Prop :=
  ∃ more, w'.log = w.log ++ more ∧ ∀ observation ∈ more, p observation

variable {faults : Faults} {operation : Operation} {operations : List Operation} {w : World}
  {failure : Raised} {α : Type} {E : Raised → World → Prop}

theorem Clear.cons (h : faults.fault operation = none) (hs : Clear faults operations) :
    Clear faults (operation :: operations) := by
  intro o ho
  rcases List.mem_cons.1 ho with rfl | ho
  · exact h
  · exact hs o ho

theorem Clear.nil : Clear faults [] := fun _ h => absurd h List.not_mem_nil

theorem Clear.append {more : List Operation} (h : Clear faults operations)
    (h' : Clear faults more) : Clear faults (operations ++ more) := by
  intro o ho
  rcases List.mem_append.1 ho with ho | ho
  · exact h o ho
  · exact h' o ho

theorem Quiet.refl (w : World) : Quiet w w := ⟨rfl, rfl, rfl⟩

theorem Quiet.trans {w₁ w₂ w₃ : World} (h : Quiet w₁ w₂) (h' : Quiet w₂ w₃) : Quiet w₁ w₃ :=
  ⟨h'.index.trans h.index, h'.log.trans h.log, h'.uuids.trans h.uuids⟩

section Logged

variable {p q : Observation → Prop} {w₁ w₂ w₃ : World}

theorem Logged.of_eq (h : w₂.log = w₁.log) : Logged p w₁ w₂ :=
  ⟨[], by rw [h, List.append_nil], fun _ h => absurd h List.not_mem_nil⟩

theorem Logged.trans (h : Logged p w₁ w₂) (h' : Logged p w₂ w₃) : Logged p w₁ w₃ := by
  obtain ⟨l, hl, hp⟩ := h
  obtain ⟨l', hl', hp'⟩ := h'
  refine ⟨l ++ l', by rw [hl', hl, List.append_assoc], fun o ho => ?_⟩
  rcases List.mem_append.1 ho with ho | ho
  · exact hp o ho
  · exact hp' o ho

theorem Logged.one {observation : Observation} (h : w₂.log = w₁.log ++ [observation])
    (hp : p observation) : Logged p w₁ w₂ :=
  ⟨[observation], h, fun o ho => by rw [List.mem_singleton.1 ho]; exact hp⟩

theorem Logged.mono (h : Logged p w₁ w₂) (hpq : ∀ o, p o → q o) : Logged q w₁ w₂ := by
  obtain ⟨l, hl, hp⟩ := h
  exact ⟨l, hl, fun o ho => hpq o (hp o ho)⟩

end Logged

/-! ## Primitives -/

@[simp] theorem wp_reach {N : Unit → World → Prop} : wp (reach faults operation failure) N E w ↔
    (faults.fault operation = none → N ⟨⟩ w) ∧
      ∀ fault, faults.fault operation = some fault → E (fault.raised failure) w := by
  unfold reach
  cases faults.fault operation <;> simp

@[simp] theorem wp_request {effect : World → World} {N : Unit → World → Prop} :
    wp (request faults operation failure effect) N E w ↔
      (faults.fault operation = none → N ⟨⟩ (effect w)) ∧
        ∀ fault, faults.fault operation = some fault →
          E (fault.raised failure) (if faults.applied operation then effect w else w) := by
  unfold request
  cases faults.fault operation with
  | none => simp
  | some fault => cases faults.applied operation <;> simp

@[simp] theorem wp_orRaise {o : Option α} {raised : Raised} {N : α → World → Prop} :
    wp (orRaise raised o) N E w ↔ (∀ a, o = some a → N a w) ∧ (o = none → E raised w) := by
  cases o <;> simp [orRaise]

@[simp] theorem wp_observe {observation : Observation} {N : Unit → World → Prop} :
    wp (observe observation) N E w ↔ N ⟨⟩ { w with log := w.log ++ [observation] } := Iff.rfl

@[simp] theorem wp_readDatabase {N : Database → World → Prop} :
    wp readDatabase N E w ↔ N w.database w := Iff.rfl

@[simp] theorem wp_writeDatabase {database : Database} {N : Unit → World → Prop} :
    wp (writeDatabase database) N E w ↔ N ⟨⟩ { w with database } := Iff.rfl

@[simp] theorem wp_uuid4 {P : Platform} {N : String → World → Prop} :
    wp (uuid4 P) N E w ↔ N (P.uuid4 w.uuids) { w with uuids := w.uuids + 1 } := Iff.rfl

/-- **A transaction keeps the database unless it commits.** -/
theorem wp_transaction {m : Step α} {N : α → World → Prop} :
    wp (transaction faults operation m) N E w ↔
      wp m
        (fun a w' => (faults.fault operation = none → N a w') ∧
          ∀ fault, faults.fault operation = some fault →
            E (fault.raised .exception) { w' with database := w.database })
        (fun raised w' => E raised { w' with database := w.database }) w := by
  simp [transaction]

/-! ## The object store -/

namespace DocumentStore

variable {P : Platform}

/-- What is read has the digest it is named by. -/
theorem wp_getObject {reference : ArtifactRef} {N : ByteArray → World → Prop}
    (hN : ∀ content, P.sha256 content = reference.digest → N content w)
    (hE : E .artifactFailure w) : wp (get P reference) N E w := by
  simp only [get, wp_bind, wp_orRaise]
  refine ⟨fun content _ => ?_, fun _ => hE⟩
  split
  · simpa using hE
  · rename_i h
    simp only [not_or, ne_eq, not_not] at h
    exact hN content h.2

theorem putObject_quiet (reference : ArtifactRef) (content : ByteArray) (w : World) :
    (putObject reference content w).database = w.database ∧ Quiet w (putObject reference content w) := by
  unfold putObject
  split
  · exact ⟨rfl, .refl w⟩
  · exact ⟨rfl, rfl, rfl, rfl⟩

/-- A put changes nothing but the object store. -/
theorem wp_putObject {tenantId : String} {kind : ArtifactKind} {content : ByteArray}
    {N : ArtifactRef → World → Prop}
    (hN : faults.fault operation = none → ∀ w', w'.database = w.database → Quiet w w' →
      N ⟨tenantId, kind, P.sha256 content⟩ w')
    (hE : ∀ raised w', w'.database = w.database → Quiet w w' → E raised w') :
    wp (put P faults operation tenantId kind content) N E w := by
  obtain ⟨hdb, hq⟩ := putObject_quiet ⟨tenantId, kind, P.sha256 content⟩ content w
  simp only [put]
  split
  · simpa using hE _ w rfl (.refl w)
  · simp only [wp_bind, wp_request, wp_pure]
    refine ⟨fun hf => wp_getObject (fun _ _ => hN hf _ hdb hq) (hE _ _ hdb hq), fun fault _ => ?_⟩
    split
    · exact hE _ _ hdb hq
    · exact hE _ w rfl (.refl w)

end DocumentStore

end GroundedOps.Ingestion
