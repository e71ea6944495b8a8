import Hikyo.KeyHierarchy.System

/-!
# What one action can do

`step_effect` says once what an accepted action can do: a transaction of the key store, or a change
of the memory of one process (`Move`).  The invariants are proved from `Effect` alone and never
unfold `step`.
-/

namespace Hikyo.KeyHierarchy

open Hikyo.Lib Function

variable {a : Action} {p : ProcID} {s : System}

def ProcState.masterSet : ProcState → Option MasterSet
  | .loading m _ _ => some m
  | .up k _ => some k.master
  | _ => none

def HierarchyRotation.addsMaster : HierarchyRotation → Bool
  | .masterPrepared _ _ => true
  | .masterCommitted _ => true
  | _ => false

inductive Move (db : KeyDB) : ProcState → ProcState → Prop
  | same (state : ProcState) : Move db state state
  | stop (state : ProcState) : Move db state .down
  | mint {root master : KeyBytes} {instanceDraw tokenDraw scanningDraw : RowID × KeyBytes}
      {keyring : Keyring} {wrapper : MasterWrapper} {rows : List Tier3Key}
      (minted : mintHierarchy root master instanceDraw tokenDraw scanningDraw =
        some (keyring, wrapper, rows)) : Move db .down (.minting keyring wrapper rows)
  | loadMaster {root key : KeyBytes} {version : Nat}
      (opened : unwrapMaster root db.activeMasters = .ok (version, key)) :
      Move db .down (.loading (.single version key) none none)
  | load (m : MasterSet) (i i' : Option VersionSet) (t t' : Option KeyHandle) :
      Move db (.loading m i t) (.loading m i' t')
  | loaded (m : MasterSet) (i : Option VersionSet) (t : Option KeyHandle) (k : Keyring)
      (kept : k.master = m) : Move db (.loading m i t) (.up k none)
  | cache (k k' : Keyring) (rotation : Option HierarchyRotation) (kept : k'.master = k.master) :
      Move db (.up k rotation) (.up k' rotation)
  | readMaster {k : Keyring} {root : KeyBytes} {cur : MasterRow}
      (single : db.activeMasters = [cur]) :
      Move db (.up k none) (.up k (some (.masterRead root cur.toMasterWrapper)))
  | prepareMaster {k : Keyring} {root newMaster : KeyBytes} {cur : MasterWrapper}
      {rewrapped : List Tier3Key}
      (rewrap : rewrapTier3 k.master (nextVersion cur.version) newMaster db.allOpenableTier3 =
        .ok rewrapped) :
      Move db (.up k (some (.masterRead root cur)))
        (.up { k with master := k.master.addMaster (nextVersion cur.version) newMaster }
          (some (.masterPrepared
            (wrapMaster root (nextVersion cur.version) cur.rootKeyEpoch newMaster) rewrapped)))
  | giveUp (k : Keyring) (rotation : HierarchyRotation) (quiet : rotation.addsMaster = false) :
      Move db (.up k (some rotation)) (.up k none)
  | abortMaster (k : Keyring) (newMaster : MasterWrapper) (rewrapped : List Tier3Key) :
      Move db (.up k (some (.masterPrepared newMaster rewrapped)))
        (.up { k with master := k.master.removeMaster newMaster.version } none)
  | adoptMaster (k : Keyring) (version : Nat) :
      Move db (.up k (some (.masterCommitted version)))
        (.up { k with master := k.master.activateMaster version } none)
  | prepareRoot {k : Keyring} {newRoot : KeyBytes} {wrapper : MasterWrapper}
      (prepared : prepareRootKeyRotation db k.master newRoot = .ok wrapper) :
      Move db (.up k none) (.up k (some (.rootPrepared wrapper)))
  | verifyRoot {k : Keyring} {primaryRoot : KeyBytes} {newest : MasterRow}
      (verified : verifyRootKeyRotation db k.master primaryRoot = .ok newest) :
      Move db (.up k none) (.up k (some (.rootVerified primaryRoot newest.toMasterWrapper)))

inductive Effect (s : System) : Action → System → Prop
  | memory {a : Action} {s' : System} (p : ProcID) (state : ProcState) (db : s'.db = s.db)
      (procs : s'.procs = update s.procs p state) (move : Move s.db (s.procs p) state)
      (pending : ∀ entry ∈ s'.pending, entry ∈ s.pending) : Effect s a s'
  | queue {a : Action} {s' : System} {p : ProcID} {m : MasterSet} {scope : Scope} {version : Nat}
      {id : RowID} {key : KeyBytes} {op : Tier3Op} {handle : KeyHandle} (db : s'.db = s.db)
      (procs : s'.procs = s.procs) (holds : (s.procs p).masterSet = some m)
      (minted : mintTier3At m scope version id key = some (handle, op.row))
      (pending : s'.pending = s.pending ++ [⟨p, op, handle⟩]) : Effect s a s'
  | drop {a : Action} {s' : System} (db : s'.db = s.db) (procs : s'.procs = s.procs)
      (pending : ∀ entry ∈ s'.pending, entry ∈ s.pending) : Effect s a s'
  | commitTier3 {s' : System} {index : Nat} {entry : Pending}
      (found : s.pending[index]? = some entry) (db : commitTier3Op s.db entry.op = .ok s'.db)
      (procs : s'.procs = s.procs) (pending : ∀ entry ∈ s'.pending, entry ∈ s.pending) :
      Effect s (.commitTier3 index) s'
  | createHierarchy {a : Action} {s' : System} {p : ProcID} {keyring : Keyring}
      {master : MasterWrapper} {rows : List Tier3Key}
      (minting : s.procs p = .minting keyring master rows)
      (db : Hikyo.KeyHierarchy.createHierarchy s.db master rows = .ok s'.db)
      (procs : s'.procs = update s.procs p (.up keyring none))
      (pending : s'.pending = s.pending) : Effect s a s'
  | rotateMaster {a : Action} {s' : System} {p : ProcID} {k : Keyring} {newMaster : MasterWrapper}
      {rewrapped : List Tier3Key}
      (prepared : s.procs p = .up k (some (.masterPrepared newMaster rewrapped)))
      (db : rotateMasterKey s.db newMaster rewrapped = .ok s'.db)
      (procs : s'.procs =
        update s.procs p (.up k (some (.masterCommitted newMaster.version))))
      (pending : s'.pending = s.pending) : Effect s a s'
  | rootPrepare {a : Action} {s' : System} {p : ProcID} {k : Keyring} {wrapper : MasterWrapper}
      (prepared : s.procs p = .up k (some (.rootPrepared wrapper)))
      (db : rootKeyRotatePrepare s.db wrapper = .ok s'.db)
      (procs : s'.procs = update s.procs p (.up k none))
      (pending : s'.pending = s.pending) : Effect s a s'
  | rootFinalize {s' : System} {p : ProcID} {k : Keyring} {primaryRoot : KeyBytes}
      {verified : MasterWrapper} {epoch : Nat}
      (prepared : s.procs p = .up k (some (.rootVerified primaryRoot verified)))
      (db : rootKeyRotateFinalize s.db = .ok (s'.db, epoch))
      (procs : s'.procs = update s.procs p (.up k none))
      (pending : s'.pending = s.pending) : Effect s (.commitRootFinalize p) s'
  | retireRetiring {s' : System} {scope : Scope} {count : Nat}
      (db : retireRetiringTier3 s.db scope = .ok (s'.db, count)) (procs : s'.procs = s.procs)
      (pending : s'.pending = s.pending) : Effect s (.retireRetiring scope) s'
  | setBlockers {a : Action} {s' : System} (masters : s'.db.masters = s.db.masters)
      (tier3 : s'.db.tier3 = s.db.tier3) (procs : s'.procs = s.procs)
      (pending : s'.pending = s.pending) : Effect s a s'

theorem effect_setProc {state : ProcState} (move : Move s.db (s.procs p) state) :
    Effect s a (s.setProc p state) :=
  .memory p state rfl rfl move fun _ => id

theorem adoptTier3Op_move (db : KeyDB) (op : Tier3Op) (handle : KeyHandle) (state : ProcState) :
    Move db state (adoptTier3Op op handle state) := by
  cases state with
  | down | minting => exact .same _
  | loading _ i t =>
    cases i with
    | none => exact .same _
    | some =>
      cases t with
      | none => exact .same _
      | some =>
        cases op with
        | create => exact .loaded _ _ _ _ rfl
        | _ => exact .same _
  | up =>
    cases op with
    | rotateDEK =>
      simp only [adoptTier3Op]
      split
      · exact .cache _ _ _ rfl
      · exact .cache _ _ _ rfl
    | _ => exact .cache _ _ _ rfl

theorem queue_effect {s' : System} {m : MasterSet} {scope : Scope}
    {version : Nat} {id : RowID} {key : KeyBytes} {op : Tier3Key → Tier3Op}
    (rowOf : ∀ row, (op row).row = row) (holds : (s.procs p).masterSet = some m)
    (taken : s.queue p op (mintTier3At m scope version id key) = some s') : Effect s a s' := by
  obtain ⟨⟨_, row⟩, minted, result⟩ := Option.bind_eq_some_iff.mp taken
  cases result
  exact .queue rfl rfl holds (minted.trans (by rw [rowOf row])) rfl

theorem step_effect {s' : System} (taken : step s a = some s') : Effect s a s' := by
  -- an action whose process or table is not as it takes them to be is refused
  cases a with (simp only [step] at taken; try split at taken) <;> try cases taken
  | mint =>
    rename_i isDown _ minted
    exact effect_setProc (isDown ▸ .mint minted)
  | commitHierarchy =>
    rename_i minting
    split at taken
    · rename_i created
      cases taken
      exact .createHierarchy minting created rfl rfl
    · cases taken
      exact effect_setProc (.stop _)
  | loadMaster =>
    rename_i isDown opened
    exact effect_setProc (isDown ▸ .loadMaster opened)
  | loadInstance | loadToken =>
    rename_i isLoading _
    split at taken
    · cases taken
      exact effect_setProc (isLoading ▸ .load _ _ _ _ _)
    · cases taken
      exact effect_setProc (.stop _)
  | loadScanning =>
    rename_i isLoading _
    split at taken
    · cases taken
      exact effect_setProc (isLoading ▸ .loaded _ _ _ _ rfl)
    · cases taken
      exact effect_setProc (.stop _)
  | mintScanning | mintProject =>
    rename_i held _
    exact queue_effect (fun _ => rfl) (by rw [held]; rfl) taken
  | loadProject =>
    rename_i isUp _
    split at taken
    · cases taken
      exact effect_setProc (isUp ▸ .cache _ _ _ rfl)
    · cases taken
  | prepareInitialProjectDEK | prepareInstanceDEK | prepareToken | prepareScanning =>
    rename_i isUp
    exact queue_effect (fun _ => rfl) (by rw [isUp]; rfl) taken
  | evictProject =>
    rename_i isUp
    exact effect_setProc (isUp ▸ .cache _ _ _ rfl)
  | prepareProjectDEK =>
    rename_i isUp
    split at taken
    · exact queue_effect (fun _ => rfl) (by rw [isUp]; rfl) taken
    · cases taken
  | commitTier3 =>
    rename_i entry found
    split at taken
    · rename_i committed
      cases taken
      exact .commitTier3 found committed rfl fun _ => List.mem_of_mem_eraseIdx
    · cases taken
      exact .drop rfl rfl fun _ => List.mem_of_mem_eraseIdx
  | adoptTier3 =>
    exact .memory _ _ rfl rfl (adoptTier3Op_move _ _ _ _) fun _ => id
  | readMaster =>
    rename_i isUp single
    split at taken
    · cases taken
      exact effect_setProc (isUp ▸ .readMaster single)
    · cases taken
  | prepareMaster =>
    rename_i isUp
    split at taken
    · rename_i rewrap
      cases taken
      exact effect_setProc (isUp ▸ .prepareMaster rewrap)
    · cases taken
      exact effect_setProc (isUp ▸ .giveUp _ _ rfl)
  | commitMaster =>
    rename_i isUp
    split at taken
    · rename_i rotated
      cases taken
      exact .rotateMaster isUp rotated rfl rfl
    · cases taken
      exact effect_setProc (isUp ▸ .abortMaster _ _ _)
  | adoptMaster =>
    rename_i isUp
    exact effect_setProc (isUp ▸ .adoptMaster _ _)
  | prepareRoot =>
    rename_i isUp
    split at taken
    · rename_i prepared
      cases taken
      exact effect_setProc (isUp ▸ .prepareRoot prepared)
    · cases taken
  | commitRootPrepare =>
    rename_i isUp
    split at taken
    · rename_i prepared
      cases taken
      exact .rootPrepare isUp prepared rfl rfl
    · cases taken
      exact effect_setProc (isUp ▸ .giveUp _ _ rfl)
  | verifyRoot =>
    rename_i isUp
    split at taken
    · rename_i verified
      cases taken
      exact effect_setProc (isUp ▸ .verifyRoot verified)
    · cases taken
  | commitRootFinalize =>
    rename_i isUp
    split at taken
    · rename_i finalized
      cases taken
      exact .rootFinalize isUp finalized rfl rfl
    · cases taken
      exact effect_setProc (isUp ▸ .giveUp _ _ rfl)
  | retireRetiring =>
    rename_i retired
    exact .retireRetiring retired rfl rfl
  | setBlockers =>
    exact .setBlockers rfl rfl rfl rfl
  | crash p =>
    exact .memory p .down rfl rfl (.stop _) fun _ member => (List.mem_filter.mp member).1

end Hikyo.KeyHierarchy
