import Mathlib.Data.Finset.Dedup
import GroundedOps.Lib.Process

/-!
# Blue-green rebuilds of the lexical index

`modules/indexing/rebuild.py` over the catalog of `adapters/opensearch/index_schema.py`.

* `Catalog`: the indices and aliases of the cluster. `Catalog.Serves` says how it may answer
  a request: any request may raise, before or after it took effect, and an alias update may
  go unacknowledged.
* `IndexRebuilder.rebuild`, `IndexRebuilder.rollback`: the routines, a request at a time. What
  `build` and `validate` do is up to their caller, so they are requests as well.
* `rebuilds`: any number of calls side by side.
-/

namespace GroundedOps.Indexing

open Process

/-- The two aliases of a prefix. -/
inductive Alias
  | read
  | write
  deriving DecidableEq, Repr

inductive AliasAction
  | remove (index : String) (name : Alias) (mustExist : Bool)
  | add (index : String) (name : Alias) (isWriteIndex : Option Bool)
  deriving DecidableEq, Repr

inductive RebuildError
  | valueError (message : String)
  | incompatibleIndex (message : String)
  | indexAlias (message : String)
  | indexValidation (message : String)
  /-- An exception of the client, of `build` or of `validate`. -/
  | raised (message : String)
  deriving DecidableEq, Repr

/-- What a call asks of the cluster and of its caller. -/
inductive Request
  | getAlias (name : Alias)
  | existsIndex (index : String)
  | create (index : String)
  | updateAliases (actions : List AliasAction)
  | build (candidate : String)
  | validate (candidate : String)

/-- What a request returns: `get_alias` the indices behind the alias with their `is_write_index`,
`update_aliases` whether it was acknowledged. -/
abbrev Request.Answer : Request → Type
  | getAlias _ => List (String × Option Bool)
  | existsIndex _ => Bool
  | create _ => Unit
  | updateAliases _ => Bool
  | build _ => Unit
  | validate _ => Bool

abbrev Rebuilding := Routine RebuildError Request Request.Answer

def ask (request : Request) : Rebuilding request.Answer := Routine.request request

/-! ## The cluster -/

structure Catalog where
  indices : List String
  aliases : Alias → List (String × Option Bool)
  /-- The candidates for which `validate` returned true. -/
  validated : List String

namespace Catalog

def setAlias (catalog : Catalog) (name : Alias) (entries : List (String × Option Bool)) : Catalog :=
  { catalog with aliases := Function.update catalog.aliases name entries }

/-- One action of `update_aliases`; `none` where it fails. -/
def apply (catalog : Catalog) : AliasAction → Option Catalog
  | .remove index name mustExist =>
    if index ∈ (catalog.aliases name).map Prod.fst then
      some (catalog.setAlias name ((catalog.aliases name).filter fun entry => entry.1 ≠ index))
    else if mustExist then none
    else some catalog
  | .add index name isWriteIndex =>
    if index ∈ catalog.indices then
      some (catalog.setAlias name
        ((catalog.aliases name).filter (fun entry => entry.1 ≠ index) ++ [(index, isWriteIndex)]))
    else none

/-- All the actions of `update_aliases`, or none of them. -/
def update (catalog : Catalog) (actions : List AliasAction) : Option Catalog :=
  actions.foldlM apply catalog

/-- How the cluster and the caller may answer. -/
def Serves : (request : Request) → Catalog → Except RebuildError request.Answer → Catalog → Prop
  | .getAlias name, s, answer, t =>
    t = s ∧ (answer = .ok (s.aliases name) ∨ ∃ error, answer = .error error)
  | .existsIndex index, s, answer, t =>
    t = s ∧ (answer = .ok (decide (index ∈ s.indices)) ∨ ∃ error, answer = .error error)
  | .create index, s, answer, t =>
    (t = s ∧ ∃ error, answer = .error error) ∨
      (index ∉ s.indices ∧ t = { s with indices := s.indices ++ [index] })
  | .updateAliases actions, s, answer, t =>
    (t = s ∧ answer ≠ .ok true) ∨ s.update actions = some t
  | .build _, s, _, t => t = s
  | .validate candidate, s, answer, t =>
    t = if answer matches .ok true then { s with validated := s.validated ++ [candidate] } else s

/-- Both aliases on `index`, which takes the writes. -/
def pointing (index : String) : Alias → List (String × Option Bool)
  | .read => [(index, none)]
  | .write => [(index, some true)]

/-- The aliases point to one index, and it exists. -/
def Points (catalog : Catalog) (index : String) : Prop :=
  index ∈ catalog.indices ∧ catalog.aliases = pointing index

/-- What `ensure` leaves of a first index, beside other indices. -/
def initial (index : String) (others : List String) : Catalog where
  indices := index :: others
  aliases := pointing index
  validated := []

/-- The first index or a candidate that passed validation. -/
def Justified (first : String) (catalog : Catalog) (index : String) : Prop :=
  index = first ∨ index ∈ catalog.validated

/-- The aliases are on one index, the first one or a validated one. -/
def Exposes (first : String) (catalog : Catalog) : Prop :=
  ∃ index, catalog.Points index ∧ catalog.Justified first index

end Catalog

/-- A failed catalog call: it raised, or the update was not acknowledged. -/
def failures : (request : Request) → Except RebuildError request.Answer → ℕ
  | .build _, _ => 0
  | .validate _, _ => 0
  | .updateAliases _, answer => if answer matches .ok true then 0 else 1
  | _, .ok _ => 0
  | _, .error _ => 1

/-! ## `LexicalIndexSchema` -/

structure LexicalIndexSchema where
  /-- `prefix` -/
  base : String
  /-- What `str.isdigit` takes for a digit. -/
  isDigit : Char → Bool

namespace LexicalIndexSchema

def indexName (schema : LexicalIndexSchema) (schemaVersion : String) : Except RebuildError String :=
  if schemaVersion.isEmpty || !schemaVersion.toList.all schema.isDigit
      || 12 < schemaVersion.length then
    .error (.valueError "invalid schema version")
  else .ok (schema.base ++ "-v" ++ schemaVersion)

def createCandidate (schema : LexicalIndexSchema) (schemaVersion : String) : Rebuilding String := do
  let index ← Routine.ofExcept (schema.indexName schemaVersion)
  let present ← ask (.existsIndex index)
  if present then throw (.incompatibleIndex "candidate index already exists")
  let () ← ask (.create index)
  return index

def activeIndex : Rebuilding String := do
  let read : List (String × Option Bool) ← ask (.getAlias .read)
  let write : List (String × Option Bool) ← ask (.getAlias .write)
  match read with
  | [(index, _)] =>
    if (read.map Prod.fst).toFinset ≠ (write.map Prod.fst).toFinset then
      throw (.indexAlias "read and write aliases disagree")
    if write.lookup index ≠ some (some true) then
      throw (.indexAlias "write alias has no active index")
    return index
  | _ => throw (.indexAlias "read and write aliases disagree")

/-- The body of `update_aliases`. -/
def switchActions (expectedIndex targetIndex : String) : List AliasAction :=
  [.remove expectedIndex .read true, .remove expectedIndex .write true,
    .add targetIndex .read none, .add targetIndex .write (some true)]

def switchAliases (expectedIndex targetIndex : String) : Rebuilding Unit := do
  let active ← activeIndex
  if active ≠ expectedIndex then throw (.indexAlias "active index changed during rebuild")
  let present ← ask (.existsIndex targetIndex)
  if !present then throw (.indexAlias "target index is unavailable")
  let acknowledged ← ask (.updateAliases (switchActions expectedIndex targetIndex))
  if !acknowledged then throw (.indexAlias "alias switch was not acknowledged")
  let active ← activeIndex
  if active ≠ targetIndex then throw (.indexAlias "alias switch did not converge")

end LexicalIndexSchema

/-! ## `IndexRebuilder` -/

open LexicalIndexSchema

structure IndexSwitch where
  previousIndex : String
  currentIndex : String
  deriving DecidableEq, Repr

namespace IndexRebuilder

def rollback (switch : IndexSwitch) : Rebuilding Unit :=
  switchAliases switch.currentIndex switch.previousIndex

/-- The handler around the switch: undo it where it took effect. -/
def compensate (previous candidate : String) (error : RebuildError) : Rebuilding Unit := do
  let active ← activeIndex
  if active = candidate then rollback ⟨previous, candidate⟩
  throw error

def rebuild (catalog : LexicalIndexSchema) (schemaVersion : String) : Rebuilding IndexSwitch := do
  let previous ← activeIndex
  let candidate ← catalog.createCandidate schemaVersion
  let () ← ask (.build candidate)
  let valid ← ask (.validate candidate)
  if !valid then throw (.indexValidation "rebuilt index validation failed")
  tryCatch (switchAliases previous candidate) (compensate previous candidate)
  return ⟨previous, candidate⟩

end IndexRebuilder

/-! ## Calls side by side -/

inductive Call
  | rebuild (schemaVersion : String)
  | rollback (switch : IndexSwitch)
  deriving DecidableEq, Repr

/-- What a call runs. -/
def Call.body (catalog : LexicalIndexSchema) : Call → Rebuilding (Option IndexSwitch)
  | .rebuild schemaVersion => some <$> IndexRebuilder.rebuild catalog schemaVersion
  | .rollback switch => do
    IndexRebuilder.rollback switch
    return none

/-- The requests of a call, as the cluster sees them. -/
abbrev Answered (request : Request) := Except RebuildError request.Answer

abbrev Outcome := Except RebuildError (Option IndexSwitch)

abbrev Calls := Pool Catalog Call Request Answered Outcome

/-- Calls that start, are served and stop in any order; `may` says which may start. -/
def rebuilds (catalog : LexicalIndexSchema) (may : Calls → Call → Prop) :
    System Catalog Call Request Answered Outcome where
  body call := (call.body catalog).run
  serve := Catalog.Serves
  may := may

/-- A rollback goes back to the first index or to a validated one. -/
def Restores (first : String) (calls : Calls) : Call → Prop
  | .rebuild _ => True
  | .rollback switch => calls.server.Justified first switch.previousIndex

/-- What a stretch of a run says of the others: they did not switch the aliases. -/
def SameAliases (s t : Catalog) : Prop := t.aliases = s.aliases

end GroundedOps.Indexing
