import Mathlib.Algebra.Group.Nat.Defs
import Hikyo.Lib.Transaction
import Hikyo.Lib.Sealing

/-!
# The key store

The tables of the key hierarchy, master wrappers and keys of the third tier, and every transaction
on them as a function of the committed state, with the constraints of the schema.  Envelopes are
ideal ciphertexts.
-/

namespace Hikyo.KeyHierarchy

open Hikyo.Lib

/-- Symbolic 32-byte key material: root keys, master keys and tier-3 keys. -/
abbrev KeyBytes := Nat

abbrev RowID := Nat

inductive Purpose
  | project
  | instanceScope
  | token
  | scanning
deriving DecidableEq

inductive KeyState
  | active
  | retiring
  | retired
deriving DecidableEq

inductive WrappingKey
  | root (epoch : Nat)
  | master (version : Nat)
deriving DecidableEq

inductive KeyAAD
  | wrappedMaster (masterKeyVersion rootKeyEpoch : Nat)
  | wrappedDEK (orgID projectID : String) (dekID : RowID) (dekVersion masterKeyVersion : Nat)
  | wrappedTokenKey (tokenKeyVersion masterKeyVersion : Nat)
deriving DecidableEq

abbrev Blob := Sealed KeyBytes (WrappingKey × KeyAAD) KeyBytes

structure MasterWrapper where
  version : Nat
  rootKeyEpoch : Nat
  blob : Blob
deriving DecidableEq

structure Tier3Key where
  id : RowID
  purpose : Purpose
  orgID : String
  projectID : String
  version : Nat
  masterKeyVersion : Nat
  blob : Blob
deriving DecidableEq

structure MasterRow extends MasterWrapper where
  state : KeyState

structure Tier3Row extends Tier3Key where
  state : KeyState

structure Scope where
  purpose : Purpose
  orgID : String
  projectID : String
deriving DecidableEq

def Tier3Key.scope (key : Tier3Key) : Scope := ⟨key.purpose, key.orgID, key.projectID⟩

def Tier3Row.Openable (row : Tier3Row) : Prop := row.state = .active ∨ row.state = .retiring

instance (row : Tier3Row) : Decidable row.Openable :=
  inferInstanceAs (Decidable (row.state = .active ∨ row.state = .retiring))

/-- The hierarchy generation row is never removed, so it is not represented. -/
structure KeyDB where
  masters : List MasterRow
  tier3 : List Tier3Row
  scopes : List Scope
  selfConfigRootFinalizationBlockers : Nat

def KeyDB.empty : KeyDB := ⟨[], [], [], 0⟩

inductive KeyError
  | noKey
  | keyExists
  | staleMaster
  | masterRotationBlocked
  | rootRotationBlocked
  | notDualWrapped
  | rootKeyMismatch
  | decrypt
  | masterNotHeld (version : Nat)
  | hierarchyMissing
  | rotationSuperseded
  | staleDEK
  | conflict
  | rootFinalizationPendingDeployment
  | tier3Vanished (id : RowID) (version : Nat)
  | noScopeGeneration
  | versionOutOfRange (version : Nat)
deriving DecidableEq

def NewerEpoch (a b : MasterRow) : Prop := b.rootKeyEpoch ≤ a.rootKeyEpoch

instance : DecidableRel NewerEpoch := fun a b =>
  inferInstanceAs (Decidable (b.rootKeyEpoch ≤ a.rootKeyEpoch))

instance : Std.Total NewerEpoch := ⟨fun a b => Nat.le_total b.rootKeyEpoch a.rootKeyEpoch⟩

instance : IsTrans MasterRow NewerEpoch := ⟨fun _ _ _ first second => Nat.le_trans second first⟩

def KeyDB.activeMasters (db : KeyDB) : List MasterRow :=
  (db.masters.filter fun row => row.state = .active).insertionSort NewerEpoch

def KeyDB.activeTier3 (db : KeyDB) (scope : Scope) : Option Tier3Row :=
  db.tier3.find? fun row => row.scope = scope ∧ row.state = .active

def KeyDB.tier3Versions (db : KeyDB) (scope : Scope) : List Tier3Row :=
  db.tier3.filter fun row => row.scope = scope ∧ row.Openable

def KeyDB.allOpenableTier3 (db : KeyDB) : List Tier3Row :=
  db.tier3.filter fun row => row.Openable

def KeyDB.countOpenableTier3NotAtMaster (db : KeyDB) (masterKeyVersion : Nat) : Nat :=
  db.tier3.countP fun row => row.Openable ∧ row.masterKeyVersion ≠ masterKeyVersion

/-- The primary key is `(version, root_key_epoch)` and at most one wrapper of an
epoch is active. -/
def insertMasterRow (db : KeyDB) (key : MasterWrapper) : Except KeyError KeyDB := do
  require (∀ row ∈ db.masters,
    ¬ (row.version = key.version ∧ row.rootKeyEpoch = key.rootKeyEpoch)) .keyExists
  require (∀ row ∈ db.masters,
    ¬ (row.state = .active ∧ row.rootKeyEpoch = key.rootKeyEpoch)) .keyExists
  pure { db with masters := db.masters ++ [{ key with state := .active }] }

/-- The primary key is `id`; a scope has one row for each version and one active row. -/
def insertTier3Row (db : KeyDB) (key : Tier3Key) : Except KeyError KeyDB := do
  require (∀ row ∈ db.tier3, row.id ≠ key.id) .keyExists
  require (∀ row ∈ db.tier3, ¬ (row.scope = key.scope ∧ row.version = key.version)) .keyExists
  require (∀ row ∈ db.tier3, ¬ (row.scope = key.scope ∧ row.state = .active)) .keyExists
  pure { db with tier3 := db.tier3 ++ [{ key with state := .active }] }

def insertScopeGenerationRow (db : KeyDB) (scope : Scope) : Except KeyError KeyDB := do
  require (scope ∉ db.scopes) .keyExists
  pure { db with scopes := scope :: db.scopes }

def atActiveVersion (scope : Scope) (version : Int) (row : Tier3Row) : Bool :=
  row.scope = scope ∧ row.state = .active ∧ (row.version : Int) = version

/-- Both compare-and-swaps on the active row; the count says whether it was hit. -/
def moveActiveTier3 (state : KeyState) (db : KeyDB) (scope : Scope) (version : Int) :
    KeyDB × Nat :=
  let moved := updateWhere (atActiveVersion scope version) (fun row => { row with state }) db.tier3
  ({ db with tier3 := moved }, db.tier3.countP (atActiveVersion scope version))

def retireTier3AtVersion : KeyDB → Scope → Int → KeyDB × Nat := moveActiveTier3 .retired

def demoteTier3AtVersion : KeyDB → Scope → Int → KeyDB × Nat := moveActiveTier3 .retiring

def retireMasterWhere (db : KeyDB) (selected : MasterRow → Bool) : KeyDB × Nat :=
  let moved := updateWhere selected (fun row => { row with state := .retired }) db.masters
  ({ db with masters := moved }, db.masters.countP selected)

def retireMasterAtVersion (db : KeyDB) (version : Nat) : KeyDB × Nat :=
  retireMasterWhere db fun row => row.version = version ∧ row.state = .active

def isActiveWrapper (master row : MasterRow) : Bool :=
  row.version = master.version ∧ row.rootKeyEpoch = master.rootKeyEpoch ∧ row.state = .active

def retireMasterWrapper (db : KeyDB) (master : MasterRow) : KeyDB × Nat :=
  retireMasterWhere db (isActiveWrapper master)

def updateTier3Wrapping (db : KeyDB) (key : Tier3Key) : KeyDB × Nat :=
  let selected : Tier3Row → Bool := fun row => row.id = key.id ∧ row.version = key.version
  let rewrap : Tier3Row → Tier3Row := fun row =>
    { row with blob := key.blob, masterKeyVersion := key.masterKeyVersion }
  ({ db with tier3 := updateWhere selected rewrap db.tier3 }, db.tier3.countP selected)

def retireRetiringTier3ForScope (db : KeyDB) (scope : Scope) : KeyDB × Nat :=
  let selected : Tier3Row → Bool := fun row => row.scope = scope ∧ row.state = .retiring
  let moved := updateWhere selected (fun row => { row with state := .retired }) db.tier3
  ({ db with tier3 := moved }, db.tier3.countP selected)

/-- A successor wrapped under a master that retired after minting is refused. -/
def assertActiveMaster (db : KeyDB) (masterVersion : Nat) : Except KeyError Unit := do
  require (db.activeMasters ≠ []) .hierarchyMissing
  require (∀ master ∈ db.activeMasters, master.version = masterVersion) .staleMaster

/-- The wrapping master of the successor is not compared with the active one here. -/
def rotateRootScopedTier3 (db : KeyDB) (key : Tier3Key) (purpose : Purpose) :
    Except KeyError KeyDB := do
  let moved := retireTier3AtVersion db ⟨purpose, "", ""⟩ ((key.version : Int) - 1)
  require (moved.2 = 1) .rotationSuperseded
  insertTier3Row moved.1 key

def rotateDEK (db : KeyDB) (key : Tier3Key) : Except KeyError KeyDB := do
  require (key.scope ∈ db.scopes) .noScopeGeneration
  assertActiveMaster db key.masterKeyVersion
  let moved := demoteTier3AtVersion db key.scope ((key.version : Int) - 1)
  require (moved.2 = 1) .rotationSuperseded
  insertTier3Row moved.1 key

def assertActiveDEKVersion (db : KeyDB) (scope : Scope) (version : Nat) :
    Except KeyError Unit :=
  require (∃ row ∈ db.tier3, row.scope = scope ∧ row.version = version ∧ row.state = .active)
    .staleDEK

def rewrapAll : KeyDB → List Tier3Key → Except KeyError KeyDB
  | db, [] => pure db
  | db, key :: rest => do
    let updated := updateTier3Wrapping db key
    require (updated.2 = 1) (.tier3Vanished key.id key.version)
    rewrapAll updated.1 rest

/-- One active wrapper: none is a missing hierarchy, two is a root rotation in flight. -/
def rotateMasterKey (db : KeyDB) (newMaster : MasterWrapper) (rewrapped : List Tier3Key) :
    Except KeyError KeyDB :=
  match db.activeMasters with
  | [master] => do
    require (newMaster.version = master.version + 1) .rotationSuperseded
    let moved := retireMasterAtVersion db master.version
    require (moved.2 = 1) .rotationSuperseded
    let inserted ← insertMasterRow moved.1 newMaster
    let done ← rewrapAll inserted rewrapped
    require (done.countOpenableTier3NotAtMaster newMaster.version = 0) .rotationSuperseded
    pure done
  | _ => .error .masterRotationBlocked

def retireRetiringTier3 (db : KeyDB) (scope : Scope) : Except KeyError (KeyDB × Nat) := do
  require (scope ∈ db.scopes) .noScopeGeneration
  pure (retireRetiringTier3ForScope db scope)

def rootKeyRotatePrepare (db : KeyDB) (newWrapper : MasterWrapper) : Except KeyError KeyDB :=
  match db.activeMasters with
  | [master] => do
    require (master.version = newWrapper.version ∧
      master.rootKeyEpoch + 1 = newWrapper.rootKeyEpoch) .rootRotationBlocked
    insertMasterRow db newWrapper
  | _ => .error .rootRotationBlocked

/-- Nothing here refers to the epoch that the caller verified. -/
def rootKeyRotateFinalize (db : KeyDB) : Except KeyError (KeyDB × Nat) := do
  require (db.selfConfigRootFinalizationBlockers = 0) .rootFinalizationPendingDeployment
  match db.activeMasters with
  | [newer, older] => do
    let moved := retireMasterWrapper db older
    require (moved.2 = 1) .rotationSuperseded
    require (newer.rootKeyEpoch < 2 ^ 32) (.versionOutOfRange newer.rootKeyEpoch)
    pure (moved.1, newer.rootKeyEpoch)
  | _ => .error .notDualWrapped

def insertWithGeneration (db : KeyDB) (key : Tier3Key) : Except KeyError KeyDB := do
  let inserted ← insertTier3Row db key
  insertScopeGenerationRow inserted key.scope

def insertAllWithGeneration : KeyDB → List Tier3Key → Except KeyError KeyDB
  | db, [] => pure db
  | db, key :: rest => do
    let inserted ← insertWithGeneration db key
    insertAllWithGeneration inserted rest

def createHierarchy (db : KeyDB) (master : MasterWrapper) (tier3 : List Tier3Key) :
    Except KeyError KeyDB := do
  let inserted ← insertMasterRow db master
  insertAllWithGeneration inserted tier3

def createTier3 (db : KeyDB) (key : Tier3Key) : Except KeyError KeyDB := do
  assertActiveMaster db key.masterKeyVersion
  insertWithGeneration db key

def insertInitialProjectDEK (db : KeyDB) (orgID projectID : String) (key : Tier3Key) :
    Except KeyError KeyDB := do
  require (projectID ≠ "" ∧ key.scope = ⟨.project, orgID, projectID⟩ ∧ key.version = 1) .conflict
  assertActiveMaster db key.masterKeyVersion
  insertWithGeneration db key

end Hikyo.KeyHierarchy
