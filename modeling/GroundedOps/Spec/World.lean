import GroundedOps.Lib.Hoare
import GroundedOps.Spec.Database
import GroundedOps.Spec.IndexWriter

/-!
# What a worker acts on

The database, the object store of `adapters/object_store/document_store.py`, the index and
the queue, in one `World`. Every operation that can fail is named, and the `Faults` of a
delivery say which fail. A transaction that raises leaves the database as it found it;
nothing else is undone.

The log is not the program's: it records, for the statements about runs, which submissions
and claims committed, which pipeline bodies ran, and what was passed to the index writer.
-/

namespace GroundedOps.Ingestion

open Hoare

inductive ArtifactKind
  | raw | normalized
  deriving DecidableEq, Repr

structure ArtifactRef where
  tenantId : String
  kind : ArtifactKind
  digest : String
  deriving DecidableEq, Repr

def ArtifactKind.value : ArtifactKind → String
  | .raw => "raw"
  | .normalized => "normalized"

def ArtifactRef.key (reference : ArtifactRef) : String :=
  reference.tenantId ++ "/" ++ reference.kind.value ++ "/" ++ reference.digest

inductive Observation
  /-- a submission committed -/
  | submitted (event : SourceEvent)
  /-- the claim transaction of a delivery committed -/
  | claimed (tenantId jobId : String)
  /-- the pipeline transaction of a delivery began -/
  | body (tenantId jobId : String)
  /-- `index_sink.prepare` was called -/
  | prepared (tenantId jobId : String)
  /-- the index writer was called -/
  | projected (projection : VersionProjection)
  /-- `audit.record_index_promotion`, and the `current_version_id` of the document just then -/
  | promoted (tenantId versionId : String) (currentVersionId : Option String)

structure World where
  database : Database := {}
  objects : ArtifactRef → Option ByteArray := fun _ => none
  index : Index := ∅
  queue : List (String × String) := []
  /-- how many identifiers `uuid4` has drawn -/
  uuids : ℕ := 0
  /-- `now()`, in microseconds -/
  now : ℤ := 0
  log : List Observation := []

abbrev Step := Act Raised World

/-! ## Operations that can fail -/

/-- Fail here if the faults say so; `failure` is the operation's own error. -/
def reach (faults : Faults) (operation : Operation) (failure : Raised := .exception) : Step Unit :=
  match faults.fault operation with
  | none => pure ()
  | some fault => throw (fault.raised failure)

/-- A request to a store outside the transaction: when it fails, it may have taken effect. -/
def request (faults : Faults) (operation : Operation) (failure : Raised) (effect : World → World) :
    Step Unit :=
  match faults.fault operation with
  | none => modify effect
  | some fault => do
    if faults.applied operation then modify effect
    throw (fault.raised failure)

def orRaise {α : Type} (raised : Raised) : Option α → Step α
  | some a => pure a
  | none => throw raised

def observe (observation : Observation) : Step Unit :=
  modify fun w => { w with log := w.log ++ [observation] }

def readDatabase : Step Database := do return (← get).database

def writeDatabase (database : Database) : Step Unit := modify fun w => { w with database }

def uuid4 (P : Platform) : Step String := do
  let w ← get
  set { w with uuids := w.uuids + 1 }
  return P.uuid4 w.uuids

/-- `with connection.begin()`; the operation is its commit. -/
def transaction {α : Type} (faults : Faults) (operation : Operation) (m : Step α) : Step α := do
  let before ← readDatabase
  tryCatch
    (do let a ← m
        reach faults operation
        return a)
    fun raised => do
      writeDatabase before
      throw raised

/-! ## The object store -/

namespace DocumentStore

def maxBytes : ℕ := 10 * 1024 * 1024

/-- `get`; what `fault` says of the operation is the failure of the request. -/
def get (P : Platform) (reference : ArtifactRef) : Step ByteArray := do
  let content ← orRaise .artifactFailure ((← MonadState.get).objects reference)
  if maxBytes < content.size ∨ P.sha256 content ≠ reference.digest then throw .artifactFailure
  return content

/-- `put_object` with `IfNoneMatch="*"` -/
def putObject (reference : ArtifactRef) (content : ByteArray) (w : World) : World :=
  if (w.objects reference).isSome then w
  else { w with objects := Function.update w.objects reference (some content) }

/-- `put`: the put and the read that checks it are one operation. -/
def put (P : Platform) (faults : Faults) (operation : Operation) (tenantId : String)
    (kind : ArtifactKind) (content : ByteArray) : Step ArtifactRef := do
  if maxBytes < content.size then throw .artifactFailure
  let reference : ArtifactRef := ⟨tenantId, kind, P.sha256 content⟩
  request faults operation .artifactFailure (putObject reference content)
  let _ ← get P reference
  return reference

end DocumentStore

end GroundedOps.Ingestion
