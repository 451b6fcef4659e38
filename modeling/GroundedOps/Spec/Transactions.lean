import GroundedOps.Lib.Machine
import GroundedOps.Lib.ReadCommitted
import GroundedOps.Spec.Database

/-!
# Transactions on the sources, a statement at a time

The transaction of `submit_event` and the second one of `run_job`, of
`grounded_ops/worker.py`, as far as they read or write `sources`: `get_delivery` reads the
row, and the first statement of `submit` writes it. Any number of them run at once, READ
COMMITTED. What fails in a transaction rolls it back, and so does the loss of its worker.
-/

namespace GroundedOps.Ingestion

open ReadCommitted

/-- `INSERT INTO sources ... ON CONFLICT (tenant_id,id) DO UPDATE`, of the row that is there. -/
def Source.onto (source : Source) : Option Source → Source
  | none => source
  | some row => row.withPolicy source

inductive TransactionKind
  /-- of `submit_event` -/
  | submission
  /-- of `run_job` -/
  | delivery
  deriving DecidableEq, Repr

inductive Progress
  /-- before `get_delivery`, for a job of this source -/
  | begun (pk : String × String)
  /-- before the statement of `submit` on `sources` -/
  | submitting (source : Source)
  /-- after it -/
  | submitted (source : Source)
  deriving DecidableEq

structure Transaction where
  kind : TransactionKind
  progress : Progress
  deriving DecidableEq

structure Transactions where
  rows : Rows (String × String) Source ℕ := ⟨fun _ => none, fun _ => none⟩
  running : ℕ → Option Transaction := fun _ => none
  /-- The sources with which transactions of `submit_event` have committed, in order; the
  program does not keep them. -/
  submissions : List Source := []

inductive TransactionStep
  | submitEvent (tx : ℕ) (source : Source)
  | runJob (tx : ℕ) (pk : String × String)
  | getDelivery (tx : ℕ)
  | submit (tx : ℕ)
  | commit (tx : ℕ)
  | rollback (tx : ℕ)

namespace Transactions

def set (s : Transactions) (tx : ℕ) (transaction : Option Transaction) : Transactions :=
  { s with running := Function.update s.running tx transaction }

/-- One statement of one transaction; one that is not its turn, or has to wait, does nothing. -/
def step (s : Transactions) : TransactionStep → Transactions
  | .submitEvent tx source =>
    match s.running tx with
    | none => s.set tx (some ⟨.submission, .submitting source⟩)
    | some _ => s
  | .runJob tx pk =>
    match s.running tx with
    | none => s.set tx (some ⟨.delivery, .begun pk⟩)
    | some _ => s
  | .getDelivery tx =>
    match s.running tx with
    | some ⟨kind, .begun pk⟩ =>
      match s.rows.visible tx pk with
      | some source => s.set tx (some ⟨kind, .submitting source⟩)
      | none => s
    | _ => s
  | .submit tx =>
    match s.running tx with
    | some ⟨kind, .submitting source⟩ =>
      match s.rows.update tx source.pk source.onto with
      | some rows => { s with rows }.set tx (some ⟨kind, .submitted source⟩)
      | none => s
    | _ => s
  | .commit tx =>
    match s.running tx with
    | some ⟨kind, .submitted source⟩ =>
      { s with
        rows := s.rows.commit tx
        submissions := if kind = TransactionKind.submission then s.submissions ++ [source]
          else s.submissions }.set
          tx none
    | _ => s
  | .rollback tx => { s with rows := s.rows.rollback tx }.set tx none

end Transactions

end GroundedOps.Ingestion
