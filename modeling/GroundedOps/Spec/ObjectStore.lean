import GroundedOps.Spec.Breaker
import GroundedOps.Spec.World

/-!
# The document store

`DocumentStore.put` and `get` of `adapters/object_store/document_store.py`, as the requests that they
send to the bucket, for any number of calls at once of any number of stores. Each store has a circuit
breaker of its own; entering an attempt, a request, and recording what became of it are each atomic,
and the steps of other calls happen between them.

`log` is not the program's: it has the puts that were sent and reached the bucket, in order.
-/

namespace GroundedOps.Ingestion

/-- `re.fullmatch("[a-f0-9]{64}", digest)` -/
def isArtifactDigest (digest : String) : Bool :=
  digest.length = 64 && digest.toList.all fun c => c.isDigit || ('a' ≤ c && c ≤ 'f')

/-- The check of `ArtifactRef`, of what is not checked by the type. -/
def ArtifactRef.check (reference : ArtifactRef) : Bool :=
  validIdentifier reference.tenantId && isArtifactDigest reference.digest

inductive StoreError
  | exceedsSizeLimit | artifactUnavailable | integrityFailed
  /-- of the constructor of a reference -/
  | valueError
  /-- of the breaker, that an open circuit has no timestamp -/
  | runtimeError
  deriving DecidableEq, Repr

inductive StoreRequest
  | put (tenantId : String) (kind : ArtifactKind) (content : ByteArray)
  | get (tenantId : String) (reference : ArtifactRef) (valid : reference.check = true)

inductive StoreReply
  | reference (reference : ArtifactRef)
  | content (content : ByteArray)
  | raised (error : StoreError)

/-- What a request to the bucket comes to: it is served, or fails, with or without its effect. -/
inductive Transport
  | served
  | failed (applied : Bool)
  deriving DecidableEq, Repr

/-- What a call does next; a `get` may be the one that ends a `put`. -/
inductive StorePoint
  | enterPut (reference : ArtifactRef) (content : ByteArray)
  | putObject (reference : ArtifactRef) (content : ByteArray)
  | recordPut (reference : ArtifactRef) (failed : Bool)
  | enterGet (reference : ArtifactRef) (putting : Bool)
  | getObject (reference : ArtifactRef) (putting : Bool)
  | recordGet (reference : ArtifactRef) (putting : Bool) (read : Option ByteArray)
  | ended (reply : StoreReply)

structure StoreCall where
  request : StoreRequest
  point : StorePoint
  /-- how many puts had reached the bucket when the call was received -/
  received : ℕ

/-- The bucket, the breakers of the stores, the calls, and the puts that reached the bucket. -/
structure ObjectStore (I C T : Type) where
  bucket : String → Option ByteArray
  breakers : I → CircuitBreaker T := fun _ => {}
  calls : C → Option StoreCall := fun _ => none
  log : List (ArtifactRef × ByteArray) := []

inductive StoreEvent (C T : Type)
  | receive (c : C) (request : StoreRequest)
  /-- the next step of a call, the time that it reads, and what its request comes to -/
  | proceed (c : C) (now : T) (transport : Transport)

namespace ObjectStore

variable {I C T : Type}

/-- Where a call starts. -/
def received (P : Platform) : StoreRequest → StorePoint
  | .put tenantId kind content =>
    if DocumentStore.maxBytes < content.size then .ended (.raised .exceedsSizeLimit)
    else
      let reference : ArtifactRef := ⟨tenantId, kind, P.sha256 content⟩
      if reference.check then .enterPut reference content else .ended (.raised .valueError)
  | .get tenantId reference _ =>
    if tenantId ≠ reference.tenantId then .ended (.raised .artifactUnavailable)
    else .enterGet reference false

/-- The conditional put: an object that is there is not replaced. -/
def writeOnce (bucket : String → Option ByteArray) (key : String) (content : ByteArray) :
    String → Option ByteArray :=
  if (bucket key).isSome then bucket else Function.update bucket key (some content)

/-- `stream.read(MAX_BYTES + 1)` -/
def read (content : ByteArray) : ByteArray := content.extract 0 (DocumentStore.maxBytes + 1)

/-- The checks of `get` on what it has read, and what the call returns. -/
def checked (P : Platform) (reference : ArtifactRef) (putting : Bool) (content : ByteArray) :
    StoreReply :=
  if DocumentStore.maxBytes < content.size ∨ P.sha256 content ≠ reference.digest then
    .raised .integrityFailed
  else if putting then .reference reference
  else .content content

variable [DecidableEq I] [DecidableEq C]

def setPoint (s : ObjectStore I C T) (c : C) (call : StoreCall) (point : StorePoint) :
    ObjectStore I C T :=
  { s with calls := Function.update s.calls c (some { call with point }) }

def setBreaker (s : ObjectStore I C T) (i : I) (breaker : CircuitBreaker T) : ObjectStore I C T :=
  { s with breakers := Function.update s.breakers i breaker }

variable [Zero T] [LinearOrder T] [Sub T] (p : CircuitPolicy T)

/-- To enter an attempt; a `CircuitOpenError` is an artifact that is unavailable. -/
def enter (s : ObjectStore I C T) (i : I) (c : C) (call : StoreCall) (now : T) (next : StorePoint) :
    ObjectStore I C T :=
  match (s.breakers i).acquire p now with
  | .ok breaker => (s.setBreaker i breaker).setPoint c call next
  | .error .circuitOpen => s.setPoint c call (.ended (.raised .artifactUnavailable))
  | .error .requiresTimestamp => s.setPoint c call (.ended (.raised .runtimeError))

def proceed (P : Platform) (s : ObjectStore I C T) (i : I) (c : C) (call : StoreCall) (now : T)
    (transport : Transport) : ObjectStore I C T :=
  match call.point with
  | .enterPut reference content => s.enter p i c call now (.putObject reference content)
  | .putObject reference content =>
    let sent : ObjectStore I C T :=
      { s with
        bucket := writeOnce s.bucket reference.key content
        log := s.log ++ [(reference, content)] }
    match transport with
    | .served => sent.setPoint c call (.recordPut reference false)
    | .failed applied => (if applied then sent else s).setPoint c call (.recordPut reference true)
  | .recordPut reference failed =>
    if failed then
      (s.setBreaker i ((s.breakers i).recordFailure p now)).setPoint c call
        (.ended (.raised .artifactUnavailable))
    else (s.setBreaker i (s.breakers i).recordSuccess).setPoint c call (.enterGet reference true)
  | .enterGet reference putting => s.enter p i c call now (.getObject reference putting)
  | .getObject reference putting =>
    match transport with
    | .served => s.setPoint c call (.recordGet reference putting ((s.bucket reference.key).map read))
    | .failed _ => s.setPoint c call (.recordGet reference putting none)
  | .recordGet _ _ none =>
    (s.setBreaker i ((s.breakers i).recordFailure p now)).setPoint c call
      (.ended (.raised .artifactUnavailable))
  | .recordGet reference putting (some content) =>
    (s.setBreaker i (s.breakers i).recordSuccess).setPoint c call
      (.ended (checked P reference putting content))
  | .ended _ => s

/-- One step; `storeOf` is the store that a call is made of. -/
def step (P : Platform) (storeOf : C → I) (s : ObjectStore I C T) :
    StoreEvent C T → ObjectStore I C T
  | .receive c request =>
    match s.calls c with
    | none =>
      { s with calls :=
          Function.update s.calls c (some ⟨request, received P request, s.log.length⟩) }
    | some _ => s
  | .proceed c now transport =>
    match s.calls c with
    | none => s
    | some call => s.proceed p P (storeOf c) c call now transport

end ObjectStore

end GroundedOps.Ingestion
