import Hikyo.Project.Operations

/-!
# What the read surfaces share

What export, diff and fetch share: the grants of the caller, the reading of committed snapshots
(never of the live cells), the checks on supplied parameters and the resolution of templated config
values, with the texts of their refusals.
-/

namespace Hikyo.Delivery

open Hikyo.Lib Hikyo.Project List

inductive Capability
  | read
  | reveal
  | revealHistory
  | pin
  | publish
deriving DecidableEq

structure GrantRow where
  capability : Capability
  env : Option EnvID

def scopeCovers (scope : Option EnvID) (env : EnvID) : Bool :=
  match scope with
  | none => true
  | some granted => granted == env

def holds (grants : List GrantRow) (capability : Capability) (env : EnvID) : Bool :=
  grants.any fun row => row.capability == capability && scopeCovers row.env env

inductive Operation
  | valueExport
  | valueExportReveal
  | valueExportRevealHistory
  | deliveryFetch
  | revisionShow
  | pinSet
  | pinSetHistory
deriving DecidableEq

def Operation.formula : Operation → List Capability
  | .valueExport => [.read]
  | .valueExportReveal => [.read, .reveal]
  | .valueExportRevealHistory => [.read, .revealHistory]
  | .deliveryFetch => [.read]
  | .revisionShow => [.read]
  | .pinSet => [.pin, .publish]
  | .pinSetHistory => [.revealHistory]

def permits (grants : List GrantRow) (operation : Operation) (env : EnvID) : Bool :=
  operation.formula.all fun capability => holds grants capability env

/-- A refusal is the answer for an environment that does not exist. -/
def authorize (db : ProjectDB) (grants : List GrantRow) (operation : Operation) (env : EnvID) :
    Except ServiceError Unit :=
  require ((db.environment? env).isSome = true ∧ permits grants operation env = true)
    (.notFound "not found")

def checkWhen (needed : Bool) (check : Except ServiceError Unit) : Except ServiceError Unit :=
  if needed then check else .ok ()

/-- Neither `reveal` nor `reveal-history` implies the other. -/
def revealOperation (historical : Bool) : Operation :=
  if historical then .valueExportRevealHistory else .valueExportReveal

def readSnapshot (db : ProjectDB) (env : EnvID) (revision : Int) : Except ServiceError Snapshot :=
  match if revision ≤ 0 then db.latest env else db.atRevision env revision.toNat with
  | some snapshot => .ok snapshot
  | none => .error (.notFound "not found")

theorem readSnapshot_mem {db : ProjectDB} {env : EnvID} {revision : Int} {snapshot : Snapshot}
    (found : readSnapshot db env revision = .ok snapshot) :
    snapshot ∈ db.snapshots ∧ snapshot.env = env := by
  unfold readSnapshot at found
  split at found
  · next located =>
    cases found
    split at located
    · exact ⟨mem_of_find?_eq_some located, by simpa using find?_some located⟩
    have hit := find?_some located
    simp only [Bool.and_eq_true, beq_iff_eq] at hit
    exact ⟨mem_of_find?_eq_some located, hit.1⟩
  · cases found

/-- `Snapshots().Entries`: `ORDER BY key_name`; a collected payload is refused. -/
def liveEntries (snapshot : Snapshot) : Except ServiceError (List SnapshotEntry) := do
  require (snapshot.payloadPresent = true) (collectedRevisionError snapshot)
  return snapshot.entries.insertionSort fun a b => a.keyName ≤ b.keyName

abbrev Supplied := List (String × String)

def maxSuppliedBytes : Nat := 256

def isControl (c : Char) : Bool := c.toNat < 0x20 || (0x7f ≤ c.toNat && c.toNat < 0xa0)

def checkSuppliedValue (row : String × String) : Except String Unit := do
  require (isParameterName row.1.toList = true) s!"invalid parameter name {row.1}"
  require (row.2.utf8ByteSize ≤ maxSuppliedBytes ∧ row.2.toList.any isControl = false)
    (s!"parameter {row.1} must be valid text without control characters, at most " ++
     s!"{maxSuppliedBytes} bytes")

def checkSupplied (supplied : Supplied) : Except String Unit := do
  require (supplied.length ≤ maxParameters) s!"at most {maxParameters} parameters are allowed"
  supplied.forM checkSuppliedValue

def invalidDetail (checked : Except String Unit) : Except ServiceError Unit :=
  match checked with
  | .ok () => .ok ()
  | .error detail => .error (.invalid detail)

section Parameters
variable (server : Server)

def checkDeclaration (name pattern : String) : Except String Unit := do
  require (isParameterName name.toList = true) s!"parameter name {name} is not valid"
  require (0 < pattern.utf8ByteSize ∧ pattern.utf8ByteSize ≤ maxPatternBytes)
    s!"parameter {name} pattern must contain 1 to {maxPatternBytes} bytes"
  require (pattern.toList.all (fun c => !(c == Char.ofNat 0)) = true)
    s!"parameter {name} pattern must not contain a NUL character"
  require (server.compilesPattern pattern = true) s!"parameter {name} has an invalid pattern"

def checkDeclared (supplied : Supplied) (row : String × String) : Except String Unit := do
  checkDeclaration server row.1 row.2
  match supplied.lookup row.1 with
  | none => .error s!"required parameter {row.1} is missing"
  | some value =>
    require (server.matchesPattern row.2 value = true)
      s!"parameter {row.1} does not match its validation pattern"

def validateParameters (declarations : Declarations) (supplied : Supplied) :
    Except String Unit := do
  checkSupplied supplied
  ((supplied.map Prod.fst).insertionSort (· ≤ ·)).forM fun name =>
    require (declarations.any (fun row => row.1 == name) = true) s!"undeclared parameter {name}"
  (declarations.insertionSort fun a b => a.1 ≤ b.1).forM (checkDeclared server supplied)

def decodeParameterContract (contract : ParameterContract) :
    Except ServiceError ParameterContract := do
  require (contract.version = 0 ∨ contract.version = 1)
    (.internal s!"service: unsupported parameter contract version {contract.version}")
  require (contract.version = 1 ∨ (contract.declarations = [] ∧ contract.schemas = []))
    (.internal "service: nonempty parameter contract requires version 1")
  return contract

def snapshotParameters (snapshot : Snapshot) (supplied : Supplied) :
    Except ServiceError ParameterContract := do
  let contract ← decodeParameterContract snapshot.contract
  invalidDetail (validateParameters server contract.declarations supplied)
  return contract

/-- Only templated config values are substituted, and checked as delivered. -/
def resolveConfig (contract : ParameterContract) (supplied : Supplied) (name : String)
    (classification : Classification) (value : String) : Except ServiceError String :=
  if classification ≠ .config then .ok value
  else
    match contract.schemas.lookup name with
    | none => .ok value
    | some declaration =>
      match resolve value supplied maxValueBytes with
      | .error e => .error (.invalid s!"key {name}: {e}")
      | .ok resolved => do
        require (server.validateLiteralValue .config declaration resolved = true)
          (.invalid s!"value for {name} is invalid")
        return resolved

end Parameters

end Hikyo.Delivery
