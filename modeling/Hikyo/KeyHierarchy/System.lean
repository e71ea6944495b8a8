import Mathlib.Logic.Function.Basic
import Hikyo.Lib.Transition
import Hikyo.KeyHierarchy.Memory

/-!
# Processes over one key store

Any number of processes over one key store.  Reading, minting and committing are separate actions,
so that other processes may commit in between; within a process the rotations hold the hierarchy
mutex.  A process may crash at any time and boot again.
-/

namespace Hikyo.KeyHierarchy

open Hikyo.Lib

abbrev ProcID := Nat

/-- What the holder of the hierarchy mutex has done so far. -/
inductive HierarchyRotation
  | masterRead (root : KeyBytes) (cur : MasterWrapper)
  | masterPrepared (newMaster : MasterWrapper) (rewrapped : List Tier3Key)
  | masterCommitted (version : Nat)
  | rootPrepared (newWrapper : MasterWrapper)
  | rootVerified (primaryRoot : KeyBytes) (verified : MasterWrapper)
deriving DecidableEq

inductive ProcState
  | down
  | minting (keyring : Keyring) (master : MasterWrapper) (rows : List Tier3Key)
  | loading (master : MasterSet) (instanceDEK : Option VersionSet) (token : Option KeyHandle)
  | up (keyring : Keyring) (rotation : Option HierarchyRotation)

inductive Tier3Op
  | create (row : Tier3Key)
  | initialProjectDEK (orgID projectID : String) (row : Tier3Key)
  | rotateDEK (row : Tier3Key)
  | rotateTokenKey (row : Tier3Key)
  | rotateScanningKey (row : Tier3Key)

def Tier3Op.row : Tier3Op → Tier3Key
  | .create row => row
  | .initialProjectDEK _ _ row => row
  | .rotateDEK row => row
  | .rotateTokenKey row => row
  | .rotateScanningKey row => row

structure Pending where
  proc : ProcID
  op : Tier3Op
  handle : KeyHandle

structure System where
  db : KeyDB
  procs : ProcID → ProcState
  pending : List Pending
  adopting : List Pending

def System.initial : System := ⟨.empty, fun _ => .down, [], []⟩

def System.setProc (s : System) (p : ProcID) (state : ProcState) : System :=
  { s with procs := Function.update s.procs p state }

inductive Action
  | mint (p : ProcID) (root master : KeyBytes)
    (instanceDraw tokenDraw scanningDraw : RowID × KeyBytes)
  | commitHierarchy (p : ProcID)
  | loadMaster (p : ProcID) (root : KeyBytes)
  | loadInstance (p : ProcID)
  | loadToken (p : ProcID)
  | loadScanning (p : ProcID)
  | mintScanning (p : ProcID) (id : RowID) (key : KeyBytes)
  | loadProject (p : ProcID) (orgID projectID : String)
  | mintProject (p : ProcID) (orgID projectID : String) (id : RowID) (key : KeyBytes)
  | prepareInitialProjectDEK (p : ProcID) (orgID projectID : String) (id : RowID) (key : KeyBytes)
  | evictProject (p : ProcID) (scope : Scope)
  | prepareProjectDEK (p : ProcID) (orgID projectID : String) (id : RowID) (key : KeyBytes)
  | prepareInstanceDEK (p : ProcID) (id : RowID) (key : KeyBytes)
  | prepareToken (p : ProcID) (id : RowID) (key : KeyBytes)
  | prepareScanning (p : ProcID) (id : RowID) (key : KeyBytes)
  | commitTier3 (index : Nat)
  | adoptTier3 (index : Nat)
  | readMaster (p : ProcID) (root : KeyBytes)
  | prepareMaster (p : ProcID) (newMaster : KeyBytes)
  | commitMaster (p : ProcID)
  | adoptMaster (p : ProcID)
  | prepareRoot (p : ProcID) (newRoot : KeyBytes)
  | commitRootPrepare (p : ProcID)
  | verifyRoot (p : ProcID) (primaryRoot : KeyBytes)
  | commitRootFinalize (p : ProcID)
  /-- The walk of a re-encrypt is over: the scope's retiring versions are retired. -/
  | retireRetiring (scope : Scope)
  | setBlockers (count : Nat)
  | crash (p : ProcID)

def System.queue (s : System) (p : ProcID) (op : Tier3Key → Tier3Op)
    (minted : Option (KeyHandle × Tier3Key)) : Option System := do
  let (handle, row) ← minted
  some { s with pending := s.pending ++ [⟨p, op row, handle⟩] }

def commitTier3Op (db : KeyDB) : Tier3Op → Except KeyError KeyDB
  | .create row => createTier3 db row
  | .initialProjectDEK orgID projectID row => insertInitialProjectDEK db orgID projectID row
  | .rotateDEK row => Hikyo.KeyHierarchy.rotateDEK db row
  | .rotateTokenKey row => rotateRootScopedTier3 db row .token
  | .rotateScanningKey row => rotateRootScopedTier3 db row .scanning

def adoptVersion (set : VersionSet) (handle : KeyHandle) : VersionSet :=
  if handle.version ≤ set.active then set
  else ⟨handle.version, handle :: set.byVer⟩

def adoptHandle (current next : KeyHandle) : KeyHandle :=
  if next.version ≤ current.version then current else next

def evictDEK (k : Keyring) (scope : Scope) : Keyring :=
  { k with deks := k.deks.filter fun entry => entry.1 ≠ scope }

def cacheDEK (k : Keyring) (scope : Scope) (set : VersionSet) : Keyring :=
  { k with deks := (scope, set) :: k.deks }

def adoptTier3Op (op : Tier3Op) (handle : KeyHandle) : ProcState → ProcState
  | .up k rotation =>
    match op with
    | .create row => .up (cacheDEK k row.scope ⟨handle.version, [handle]⟩) rotation
    | .initialProjectDEK _ _ _ => .up k rotation
    | .rotateDEK row =>
      if row.purpose = .instanceScope then
        .up { k with instanceDEK := adoptVersion k.instanceDEK handle } rotation
      else .up (evictDEK k row.scope) rotation
    | .rotateTokenKey _ => .up { k with token := adoptHandle k.token handle } rotation
    | .rotateScanningKey _ => .up { k with scanning := adoptHandle k.scanning handle } rotation
  | .loading m (some instanceDEK) (some token) =>
    match op with
    | .create _ => .up ⟨m, instanceDEK, token, handle, []⟩ none
    | _ => .loading m (some instanceDEK) (some token)
  | state => state

def System.finish (s : System) (p : ProcID) (k : Keyring) : System := s.setProc p (.up k none)

def step (s : System) : Action → Option System
  | .mint p root master instanceDraw tokenDraw scanningDraw =>
    match s.procs p, s.db.activeMasters,
      mintHierarchy root master instanceDraw tokenDraw scanningDraw with
    | .down, [], some (keyring, wrapper, rows) => s.setProc p (.minting keyring wrapper rows)
    | _, _, _ => none
  | .commitHierarchy p =>
    match s.procs p with
    | .minting keyring master rows =>
      match createHierarchy s.db master rows with
      | .ok db => ({ s with db }).setProc p (.up keyring none)
      -- Lost the first-boot race: the winner's hierarchy is read next.
      | .error _ => s.setProc p .down
    | _ => none
  | .loadMaster p root =>
    match s.procs p, unwrapMaster root s.db.activeMasters with
    | .down, .ok (version, key) =>
      s.setProc p (.loading (.single version key) none none)
    | _, _ => none
  | .loadInstance p =>
    match s.procs p, s.db.tier3Versions ⟨.instanceScope, "", ""⟩ with
    | .loading m none none, row :: rest =>
      match buildVersionSet m (row :: rest) with
      | .ok set => s.setProc p (.loading m (some set) none)
      | .error _ => s.setProc p .down
    | _, _ => none
  | .loadToken p =>
    match s.procs p, s.db.activeTier3 ⟨.token, "", ""⟩ with
    | .loading m (some set) none, some row =>
      match unwrapTier3 m row.toTier3Key with
      | .ok token => s.setProc p (.loading m (some set) (some token))
      | .error _ => s.setProc p .down
    | _, _ => none
  | .loadScanning p =>
    match s.procs p, s.db.activeTier3 ⟨.scanning, "", ""⟩ with
    | .loading m (some set) (some token), some row =>
      match unwrapTier3 m row.toTier3Key with
      | .ok scanning => s.setProc p (.up ⟨m, set, token, scanning, []⟩ none)
      | .error _ => s.setProc p .down
    | _, _ => none
  | .mintScanning p id key =>
    match s.procs p, s.db.activeTier3 ⟨.scanning, "", ""⟩ with
    | .loading m (some _) (some _), none =>
      s.queue p .create (mintTier3At m ⟨.scanning, "", ""⟩ 1 id key)
    | _, _ => none
  | .loadProject p orgID projectID =>
    match s.procs p, s.db.tier3Versions ⟨.project, orgID, projectID⟩ with
    | .up k rotation, row :: rest =>
      match buildVersionSet k.master (row :: rest) with
      | .ok set => s.setProc p (.up (cacheDEK k ⟨.project, orgID, projectID⟩ set) rotation)
      | .error _ => none
    | _, _ => none
  | .mintProject p orgID projectID id key =>
    match s.procs p, s.db.tier3Versions ⟨.project, orgID, projectID⟩ with
    | .up k _, [] => s.queue p .create (mintTier3At k.master ⟨.project, orgID, projectID⟩ 1 id key)
    | _, _ => none
  | .prepareInitialProjectDEK p orgID projectID id key =>
    match s.procs p with
    | .up k _ => s.queue p (.initialProjectDEK orgID projectID)
        (mintTier3At k.master ⟨.project, orgID, projectID⟩ 1 id key)
    | _ => none
  | .evictProject p scope =>
    match s.procs p with
    | .up k rotation => s.setProc p (.up (evictDEK k scope) rotation)
    | _ => none
  | .prepareProjectDEK p orgID projectID id key =>
    match s.procs p with
    | .up k _ =>
      match k.deks.lookup ⟨.project, orgID, projectID⟩ with
      | some set => s.queue p .rotateDEK
          (mintTier3At k.master ⟨.project, orgID, projectID⟩ (nextVersion set.active) id key)
      | none => none
    | _ => none
  | .prepareInstanceDEK p id key =>
    match s.procs p with
    | .up k _ => s.queue p .rotateDEK
        (mintTier3At k.master ⟨.instanceScope, "", ""⟩ (nextVersion k.instanceDEK.active) id key)
    | _ => none
  | .prepareToken p id key =>
    match s.procs p with
    | .up k _ => s.queue p .rotateTokenKey
        (mintTier3At k.master ⟨.token, "", ""⟩ (nextVersion k.token.version) id key)
    | _ => none
  | .prepareScanning p id key =>
    match s.procs p with
    | .up k _ => s.queue p .rotateScanningKey
        (mintTier3At k.master ⟨.scanning, "", ""⟩ (nextVersion k.scanning.version) id key)
    | _ => none
  | .commitTier3 index =>
    match s.pending[index]? with
    | some entry =>
      match commitTier3Op s.db entry.op with
      | .ok db => some { s with
          db, pending := s.pending.eraseIdx index, adopting := s.adopting ++ [entry] }
      | .error _ => some { s with pending := s.pending.eraseIdx index }
    | none => none
  | .adoptTier3 index =>
    match s.adopting[index]? with
    | some entry =>
      let adopted := adoptTier3Op entry.op entry.handle (s.procs entry.proc)
      some (({ s with adopting := s.adopting.eraseIdx index }).setProc entry.proc adopted)
    | none => none
  | .readMaster p root =>
    match s.procs p, s.db.activeMasters with
    | .up k none, [cur] =>
      match openMaster root cur.toMasterWrapper with
      | some _ => s.setProc p (.up k (some (.masterRead root cur.toMasterWrapper)))
      | none => none
    | _, _ => none
  | .prepareMaster p newMaster =>
    match s.procs p with
    | .up k (some (.masterRead root cur)) =>
      let newVersion := nextVersion cur.version
      match rewrapTier3 k.master newVersion newMaster s.db.allOpenableTier3 with
      | .ok rewrapped =>
        let wrapper := wrapMaster root newVersion cur.rootKeyEpoch newMaster
        let k := { k with master := k.master.addMaster newVersion newMaster }
        s.setProc p (.up k (some (.masterPrepared wrapper rewrapped)))
      | .error _ => s.finish p k
    | _ => none
  | .commitMaster p =>
    match s.procs p with
    | .up k (some (.masterPrepared newMaster rewrapped)) =>
      match rotateMasterKey s.db newMaster rewrapped with
      | .ok db => ({ s with db }).setProc p (.up k (some (.masterCommitted newMaster.version)))
      -- The abort drops the version that was only resolvable.
      | .error _ => s.finish p { k with master := k.master.removeMaster newMaster.version }
    | _ => none
  | .adoptMaster p =>
    match s.procs p with
    | .up k (some (.masterCommitted version)) =>
      s.finish p { k with master := k.master.activateMaster version }
    | _ => none
  | .prepareRoot p newRoot =>
    match s.procs p with
    | .up k none =>
      match prepareRootKeyRotation s.db k.master newRoot with
      | .ok wrapper => s.setProc p (.up k (some (.rootPrepared wrapper)))
      | .error _ => none
    | _ => none
  | .commitRootPrepare p =>
    match s.procs p with
    | .up k (some (.rootPrepared wrapper)) =>
      match rootKeyRotatePrepare s.db wrapper with
      | .ok db => ({ s with db }).finish p k
      | .error _ => s.finish p k
    | _ => none
  | .verifyRoot p primaryRoot =>
    match s.procs p with
    | .up k none =>
      match verifyRootKeyRotation s.db k.master primaryRoot with
      | .ok newest =>
        s.setProc p (.up k (some (.rootVerified primaryRoot newest.toMasterWrapper)))
      | .error _ => none
    | _ => none
  | .commitRootFinalize p =>
    match s.procs p with
    | .up k (some (.rootVerified _ _)) =>
      match rootKeyRotateFinalize s.db with
      | .ok (db, _) => ({ s with db }).finish p k
      | .error _ => s.finish p k
    | _ => none
  | .retireRetiring scope =>
    match retireRetiringTier3 s.db scope with
    | .ok (db, _) => some { s with db }
    | .error _ => none
  | .setBlockers count =>
      some { s with db := { s.db with selfConfigRootFinalizationBlockers := count } }
  | .crash p => some { s with
      procs := Function.update s.procs p .down
      pending := s.pending.filter fun entry => entry.proc ≠ p
      adopting := s.adopting.filter fun entry => entry.proc ≠ p }

def run : System → List Action → System := runFrom step

end Hikyo.KeyHierarchy
