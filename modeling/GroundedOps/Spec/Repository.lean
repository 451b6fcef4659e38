import GroundedOps.Spec.Pipeline

/-!
# Calls of the ingestion repository

`submit`, `promote` and `delete` of `IngestionRepository`, each in a transaction of its own
as its callers run it: committed when the call returns, rolled back when it raises.
-/

namespace GroundedOps.Ingestion

open Hoare

/-- The arguments of `submit`. -/
structure SubmitArgs where
  source : Source
  canonicalKey : String
  sourceVersion : String
  contentHash : String
  sourceTimestamp : ℤ

def IngestionRepository.delete (tenantId documentId : String) : Step Unit := do
  writeDatabase ((← readDatabase).delete tenantId documentId)

inductive RepositoryCall
  | submit (args : SubmitArgs) (parserVersion : String)
  | promote (tenantId versionId : String)
  | delete (tenantId documentId : String)

/-- `submit` in a transaction. -/
def SubmitArgs.transaction (P : Platform) (args : SubmitArgs) (parserVersion : String) :
    Step Submission :=
  Ingestion.transaction {} .commit <|
    IngestionRepository.submit P {} args.source args.canonicalKey args.sourceVersion
      args.contentHash args.sourceTimestamp parserVersion

def RepositoryCall.perform (P : Platform) : RepositoryCall → Step Unit
  | .submit args parserVersion => do let _ ← args.transaction P parserVersion
  | .promote tenantId versionId =>
    transaction {} .commit (IngestionRepository.promote P {} tenantId versionId)
  | .delete tenantId documentId =>
    transaction {} .commit (IngestionRepository.delete tenantId documentId)

/-- The world after a call, whether or not it raised. -/
def World.call (P : Platform) (w : World) (call : RepositoryCall) : World :=
  (exec (call.perform P) w).2

end GroundedOps.Ingestion
