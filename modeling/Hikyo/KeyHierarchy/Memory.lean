import Hikyo.KeyHierarchy.Store

/-!
# The unwrapped hierarchy of one process

The keyring that one process holds in memory: the masters it knows, the versions of the keys under
them, and the functions that wrap, unwrap, mint and re-wrap.  Random draws are arguments, and
ciphers are ideal.
-/

namespace Hikyo.KeyHierarchy

open Hikyo.Lib

def nextVersion (version : Nat) : Nat := (version + 1) % 2 ^ 32

structure KeyHandle where
  id : RowID
  version : Nat
  key : KeyBytes

structure MasterSet where
  active : Nat
  byVer : List (Nat × KeyBytes)

namespace MasterSet

def keyAt (m : MasterSet) (version : Nat) : Option KeyBytes := m.byVer.lookup version

def activeKey (m : MasterSet) : Option KeyBytes := m.keyAt m.active

def single (version : Nat) (key : KeyBytes) : MasterSet := ⟨version, [(version, key)]⟩

def addMaster (m : MasterSet) (version : Nat) (key : KeyBytes) : MasterSet :=
  match m.keyAt version with
  | some _ => m
  | none => { m with byVer := (version, key) :: m.byVer }

def activateMaster (m : MasterSet) (version : Nat) : MasterSet :=
  if version ≤ m.active then m else { m with active := version }

def removeMaster (m : MasterSet) (version : Nat) : MasterSet :=
  if m.active = version then m
  else { m with byVer := m.byVer.filter fun entry => entry.1 ≠ version }

end MasterSet

structure VersionSet where
  active : Nat
  byVer : List KeyHandle

namespace VersionSet

def handleAt (set : VersionSet) (version : Nat) : Option KeyHandle :=
  set.byVer.find? fun handle => handle.version = version

def activeHandle (set : VersionSet) : Option KeyHandle := set.handleAt set.active

end VersionSet

structure Keyring where
  master : MasterSet
  instanceDEK : VersionSet
  token : KeyHandle
  scanning : KeyHandle
  deks : List (Scope × VersionSet)

def wrapMaster (root : KeyBytes) (version rootKeyEpoch : Nat) (master : KeyBytes) :
    MasterWrapper :=
  ⟨version, rootKeyEpoch, ⟨root, (.root rootKeyEpoch, .wrappedMaster version rootKeyEpoch), master⟩⟩

def openMaster (root : KeyBytes) (wrapper : MasterWrapper) : Option KeyBytes :=
  openSealed root
    (.root wrapper.rootKeyEpoch, .wrappedMaster wrapper.version wrapper.rootKeyEpoch) wrapper.blob

/-- Startup accepts any root key that opens any present wrapper. -/
def unwrapMaster (root : KeyBytes) : List MasterRow → Except KeyError (Nat × KeyBytes)
  | [] => .error .rootKeyMismatch
  | wrapper :: rest =>
    match openMaster root wrapper.toMasterWrapper with
    | some master => .ok (wrapper.version, master)
    | none => unwrapMaster root rest

def tier3AAD (row : Tier3Key) : KeyAAD :=
  match row.purpose with
  | .token => .wrappedTokenKey row.version row.masterKeyVersion
  | _ => .wrappedDEK row.orgID row.projectID row.id row.version row.masterKeyVersion

def unwrapTier3 (m : MasterSet) (row : Tier3Key) : Except KeyError KeyHandle :=
  match m.keyAt row.masterKeyVersion with
  | none => .error (.masterNotHeld row.masterKeyVersion)
  | some master =>
    match openSealed master (.master row.masterKeyVersion, tier3AAD row) row.blob with
    | none => .error .decrypt
    | some key => .ok ⟨row.id, row.version, key⟩

def sealTier3 (row : Tier3Key) (masterKeyVersion : Nat) (master key : KeyBytes) : Tier3Key :=
  let moved := { row with masterKeyVersion }
  { moved with blob := ⟨master, (.master masterKeyVersion, tier3AAD moved), key⟩ }

def buildVersionSet (m : MasterSet) : List Tier3Row → Except KeyError VersionSet
  | [] => .ok ⟨0, []⟩
  | row :: rest => do
    let handle ← unwrapTier3 m row.toTier3Key
    let others ← buildVersionSet m rest
    pure ⟨max row.version others.active, handle :: others.byVer⟩

def mintTier3At (m : MasterSet) (scope : Scope) (version : Nat) (id : RowID) (key : KeyBytes) :
    Option (KeyHandle × Tier3Key) := do
  let master ← m.activeKey
  let blank : Tier3Key :=
    ⟨id, scope.purpose, scope.orgID, scope.projectID, version, 0,
      ⟨0, (.master 0, .wrappedMaster 0 0), 0⟩⟩
  some (⟨id, version, key⟩, sealTier3 blank m.active master key)

/-- First startup: the master at version 1 and epoch 1, and the three keys under it. -/
def mintHierarchy (root master : KeyBytes)
    (instanceDraw tokenDraw scanningDraw : RowID × KeyBytes) :
    Option (Keyring × MasterWrapper × List Tier3Key) := do
  let m := MasterSet.single 1 master
  let (instanceHandle, instanceRow) ←
    mintTier3At m ⟨.instanceScope, "", ""⟩ 1 instanceDraw.1 instanceDraw.2
  let (token, tokenRow) ← mintTier3At m ⟨.token, "", ""⟩ 1 tokenDraw.1 tokenDraw.2
  let (scanning, scanningRow) ← mintTier3At m ⟨.scanning, "", ""⟩ 1 scanningDraw.1 scanningDraw.2
  some (⟨m, ⟨1, [instanceHandle]⟩, token, scanning, []⟩, wrapMaster root 1 1 master,
    [instanceRow, tokenRow, scanningRow])

def rewrapTier3 (m : MasterSet) (newVersion : Nat) (newMaster : KeyBytes) :
    List Tier3Row → Except KeyError (List Tier3Key)
  | [] => .ok []
  | row :: rest => do
    let handle ← unwrapTier3 m row.toTier3Key
    let others ← rewrapTier3 m newVersion newMaster rest
    pure (sealTier3 row.toTier3Key newVersion newMaster handle.key :: others)

def prepareRootKeyRotation (db : KeyDB) (m : MasterSet) (newRoot : KeyBytes) :
    Except KeyError MasterWrapper :=
  match db.activeMasters, m.activeKey with
  | [cur], some master => do
    require (m.active = cur.version) .staleMaster
    pure (wrapMaster newRoot cur.version (nextVersion cur.rootKeyEpoch) master)
  | _, _ => .error .rootRotationBlocked

def newestWrapper (newest : MasterRow) : List MasterRow → MasterRow
  | [] => newest
  | wrapper :: rest =>
    newestWrapper (if wrapper.rootKeyEpoch > newest.rootKeyEpoch then wrapper else newest) rest

/-- The primary root must open the newest wrapper to the live master. -/
def verifyRootKeyRotation (db : KeyDB) (m : MasterSet) (primaryRoot : KeyBytes) :
    Except KeyError MasterRow :=
  match db.activeMasters with
  | first :: second :: rest => do
    let newest := newestWrapper first (second :: rest)
    require (newest.version = m.active ∧
      ∃ master ∈ openMaster primaryRoot newest.toMasterWrapper, m.activeKey = some master)
      .rootKeyMismatch
    pure newest
  | _ => .error .notDualWrapped

end Hikyo.KeyHierarchy
