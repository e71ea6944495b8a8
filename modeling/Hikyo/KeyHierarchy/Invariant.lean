import Hikyo.KeyHierarchy.Inversion
import Hikyo.KeyHierarchy.StoreSpec

/-!
# One live master version

`run_coherent`: before the first boot the store is empty and no process is up (`Fresh`); from its
creation on the hierarchy has one live master version, every active wrapper seals the key of that
version, and no memory of a process is ahead of the store or disagrees with it there (`Created`).
-/

namespace Hikyo.KeyHierarchy

open Hikyo.Lib List Function

variable {a : Action} {key root : KeyBytes} {db db' : KeyDB} {k keyring : Keyring}
  {rows : List Tier3Key} {master wrapper : MasterWrapper} {version : Nat} {p : ProcID}
  {state state' : ProcState}

structure LiveMaster (version : Nat) (key : KeyBytes) (db : KeyDB) : Prop where
  present : db.activeMasters ≠ []
  atMostTwo : db.activeMasters.length ≤ 2
  wrapped : ∀ row ∈ db.activeMasters,
    ∃ root, row.toMasterWrapper = wrapMaster root version row.rootKeyEpoch key
  first : ∃ row ∈ db.masters, row.version = 1 ∧ row.rootKeyEpoch = 1

/-- A memory is never ahead of the store, and agrees with it at the live version. -/
structure MemoryOk (version : Nat) (key : KeyBytes) (m : MasterSet) : Prop where
  notAhead : m.active ≤ version
  agrees : m.active = version → m.keyAt version = some key

def HoldsOnly (m : MasterSet) (added : Option Nat) : Prop :=
  ∀ w, m.active < w → some w ≠ added → m.keyAt w = none

def RotationOk (version : Nat) (key : KeyBytes) (m : MasterSet) : Option HierarchyRotation → Prop
  | none => HoldsOnly m none
  | some (.masterRead _ cur) =>
    HoldsOnly m none ∧ m.active ≤ cur.version ∧ cur.version ≤ version
  | some (.masterPrepared newMaster _) =>
    HoldsOnly m (some newMaster.version) ∧ newMaster.version ≤ version + 1 ∧
      (newMaster.version = version + 1 → ∃ root newKey,
        newMaster = wrapMaster root (version + 1) newMaster.rootKeyEpoch newKey ∧
          m.keyAt (version + 1) = some newKey)
  | some (.masterCommitted adopted) =>
    HoldsOnly m (some adopted) ∧ adopted ≤ version ∧
      (adopted = version → m.keyAt version = some key)
  | some (.rootPrepared wrapper) =>
    HoldsOnly m none ∧ wrapper.version ≤ version ∧
      (wrapper.version = version → ∃ root,
        wrapper = wrapMaster root version wrapper.rootKeyEpoch key)
  | some (.rootVerified _ _) => HoldsOnly m none

def Minted (keyring : Keyring) (master : MasterWrapper) (rows : List Tier3Key) : Prop :=
  ∃ root key instanceDraw tokenDraw scanningDraw,
    mintHierarchy root key instanceDraw tokenDraw scanningDraw = some (keyring, master, rows)

def ProcOk (version : Nat) (key : KeyBytes) : ProcState → Prop
  | .down => True
  | .minting keyring master rows => Minted keyring master rows
  | .loading m _ _ => MemoryOk version key m ∧ HoldsOnly m none
  | .up k rotation => MemoryOk version key k.master ∧ RotationOk version key k.master rotation

structure Created (version : Nat) (key : KeyBytes) (s : System) : Prop where
  live : LiveMaster version key s.db
  procs : ∀ p, ProcOk version key (s.procs p)

def Unborn : ProcState → Prop
  | .down => True
  | .minting keyring master rows => Minted keyring master rows
  | _ => False

structure Fresh (s : System) : Prop where
  masters : s.db.masters = []
  tier3 : s.db.tier3 = []
  pending : s.pending = []
  procs : ∀ p, Unborn (s.procs p)

def Coherent (s : System) : Prop := Fresh s ∨ ∃ version key, Created version key s

theorem keyAt_single (version w : Nat) (key : KeyBytes) :
    (MasterSet.single version key).keyAt w = if w = version then some key else none := by
  by_cases same : w = version
  all_goals simp [MasterSet.single, MasterSet.keyAt, same]

variable {m : MasterSet} {v w : Nat} {added : KeyBytes} {s s' : System}

theorem keyAt_addMaster_of_held {held : KeyBytes}
    (holds : m.keyAt w = some held) : (m.addMaster v added).keyAt w = some held := by
  unfold MasterSet.addMaster
  cases present : m.keyAt v with
  | some => exact holds
  | none =>
    have different : w ≠ v := by
      rintro rfl
      rw [holds] at present
      cases present
    simp only [MasterSet.keyAt, lookup_cons] at holds ⊢
    rw [beq_eq_false_iff_ne.mpr different]
    exact holds

theorem keyAt_addMaster_of_ne (different : w ≠ v) : (m.addMaster v added).keyAt w = m.keyAt w := by
  unfold MasterSet.addMaster
  cases m.keyAt v with
  | some => rfl
  | none =>
    simp only [MasterSet.keyAt, lookup_cons]
    rw [beq_eq_false_iff_ne.mpr different]

theorem keyAt_addMaster_self (absent : m.keyAt v = none) :
    (m.addMaster v added).keyAt v = some added := by
  unfold MasterSet.addMaster
  rw [absent]
  simp [MasterSet.keyAt]

theorem active_addMaster (m : MasterSet) (v : Nat) (added : KeyBytes) :
    (m.addMaster v added).active = m.active := by
  unfold MasterSet.addMaster
  cases m.keyAt v <;> rfl

theorem lookup_filter_ne {β : Type} (entries : List (Nat × β)) (v w : Nat) :
    (entries.filter fun entry => entry.1 ≠ v).lookup w = if w = v then none
    else entries.lookup w := by
  induction entries with
  | nil => simp
  | cons entry _ ih =>
    obtain ⟨version, _⟩ := entry
    by_cases dropped : version = v
    · subst dropped
      rw [filter_cons_of_neg (by simp), ih]
      split
      · rfl
      · rename_i different
        simp only [lookup_cons, beq_eq_false_iff_ne.mpr different]
    rw [filter_cons_of_pos (by simpa using dropped), lookup_cons, ih, lookup_cons]
    by_cases same : w = v
    · simp [same, beq_eq_false_iff_ne.mpr (Ne.symm dropped)]
    · simp [same]

theorem active_removeMaster (m : MasterSet) (v : Nat) : (m.removeMaster v).active = m.active := by
  unfold MasterSet.removeMaster
  split <;> rfl

theorem keyAt_removeMaster_of_ne (different : w ≠ v) : (m.removeMaster v).keyAt w = m.keyAt w := by
  unfold MasterSet.removeMaster
  split
  · rfl
  · exact (lookup_filter_ne m.byVer v w).trans (if_neg different)

theorem keyAt_removeMaster_self (inactive : m.active ≠ v) : (m.removeMaster v).keyAt v = none := by
  unfold MasterSet.removeMaster
  rw [if_neg inactive]
  exact (lookup_filter_ne m.byVer v v).trans (if_pos rfl)

theorem memoryOk_addMaster (ok : MemoryOk version key m) :
    MemoryOk version key (m.addMaster v added) := by
  refine ⟨?_, ?_⟩
  · rw [active_addMaster]
    exact ok.notAhead
  intro same
  rw [active_addMaster] at same
  exact keyAt_addMaster_of_held (ok.agrees same)

theorem memoryOk_removeMaster (ok : MemoryOk version key m) :
    MemoryOk version key (m.removeMaster v) := by
  refine ⟨?_, ?_⟩
  · rw [active_removeMaster]
    exact ok.notAhead
  intro same
  rw [active_removeMaster] at same
  by_cases removed : version = v
  · -- The removed version would be the active one, which stays.
    subst removed
    unfold MasterSet.removeMaster
    rw [if_pos same]
    exact ok.agrees same
  · rw [keyAt_removeMaster_of_ne removed]
    exact ok.agrees same

theorem holdsOnly_removeMaster (only : HoldsOnly m (some v)) :
    HoldsOnly (m.removeMaster v) none := by
  intro w above _
  rw [active_removeMaster] at above
  by_cases removed : w = v
  · subst removed
    exact keyAt_removeMaster_self (Nat.ne_of_lt above)
  · rw [keyAt_removeMaster_of_ne removed]
    exact only w above (by simpa using removed)

theorem memoryOk_activateMaster (ok : MemoryOk version key m) (bounded : v ≤ version)
    (agrees : v = version → m.keyAt version = some key) :
    MemoryOk version key (m.activateMaster v) := by
  unfold MasterSet.activateMaster
  split
  · exact ok
  · exact ⟨bounded, agrees⟩

theorem holdsOnly_activateMaster (only : HoldsOnly m (some v)) :
    HoldsOnly (m.activateMaster v) none := by
  unfold MasterSet.activateMaster
  split
  · intro w above _
    exact only w above (by simp; omega)
  intro w above _
  simp only at above
  exact only w (by omega) (by simp; omega)

theorem liveMaster_version {row : MasterRow} (live : LiveMaster version key db)
    (mem : row ∈ db.activeMasters) :
    row.version = version := by
  obtain ⟨_, wrapped⟩ := live.wrapped row mem
  exact congrArg MasterWrapper.version wrapped

theorem unwrapMaster_wrapped {found : Nat × KeyBytes} (rows : List MasterRow)
    (wrapped : ∀ row ∈ rows, ∃ root, row.toMasterWrapper =
      wrapMaster root version row.rootKeyEpoch key)
    (opened : unwrapMaster root rows = .ok found) : found = (version, key) := by
  induction rows with
  | nil => cases opened
  | cons row _ ih =>
    simp only [unwrapMaster] at opened
    cases result : openMaster root row.toMasterWrapper with
    | none =>
      rw [result] at opened
      exact ih (fun later mem => wrapped later (by simp [mem])) opened
    | some master =>
      rw [result] at opened
      obtain ⟨_, rowEq⟩ := wrapped row (by simp)
      have versionEq : row.version = version := congrArg MasterWrapper.version rowEq
      have keyEq : master = key := by
        have blobEq := openSealed_eq_some.mp result
        have messageEq := congrArg (fun wrapper => wrapper.blob.message) rowEq
        rw [blobEq] at messageEq
        exact messageEq
      rw [← Except.ok.inj opened, versionEq, keyEq]

theorem prepareRootKeyRotation_ok {newRoot : KeyBytes}
    (run : prepareRootKeyRotation db m newRoot = .ok wrapper) :
    ∃ cur master, db.activeMasters = [cur] ∧ m.activeKey = some master ∧ m.active = cur.version ∧
      wrapper = wrapMaster newRoot cur.version (nextVersion cur.rootKeyEpoch) master := by
  unfold prepareRootKeyRotation at run
  split at run
  · rename_i cur master single held
    obtain ⟨same, run⟩ := require_bind_eq_ok.mp run
    exact ⟨cur, master, single, held, same, (Except.ok.inj run).symm⟩
  · cases run

theorem nextVersion_le (version : Nat) : nextVersion version ≤ version + 1 := Nat.mod_le _ _

theorem move_procOk (live : LiveMaster version key db) (ok : ProcOk version key state)
    (move : Move db state state') :
    ProcOk version key state' := by
  cases move with
  | same | load => exact ok
  | stop => trivial
  | mint minted => exact ⟨_, _, _, _, _, minted⟩
  | loadMaster opened =>
    cases unwrapMaster_wrapped db.activeMasters live.wrapped opened
    refine ⟨⟨le_rfl, fun _ => by rw [keyAt_single, if_pos rfl]⟩, ?_⟩
    intro w above _
    have notLive : w ≠ version := Nat.ne_of_gt above
    rw [keyAt_single, if_neg notLive]
  | loaded _ _ _ _ kept =>
    subst kept
    exact ok
  | cache _ _ _ kept =>
    obtain ⟨memory, rotationOk⟩ := ok
    rw [ProcOk, kept]
    exact ⟨memory, rotationOk⟩
  | readMaster single =>
    rename_i k root cur
    obtain ⟨memory, only⟩ := ok
    have versionEq : cur.version = version := liveMaster_version live (by simp [single])
    refine ⟨memory, only, ?_, ?_⟩
    · rw [versionEq]
      exact memory.notAhead
    · exact Nat.le_of_eq versionEq
  | prepareMaster rewrap =>
    rename_i k root newMaster cur rewrapped
    obtain ⟨memory, only, _, bounded⟩ := ok
    have successor := nextVersion_le cur.version
    refine ⟨memoryOk_addMaster memory, ?_, ?_, ?_⟩
    · intro w above different
      rw [active_addMaster] at above
      have notAdded : w ≠ nextVersion cur.version := by simpa [wrapMaster] using different
      rw [keyAt_addMaster_of_ne notAdded]
      exact only w above (by simp)
    · change nextVersion cur.version ≤ version + 1
      omega
    · intro newest
      have newestEq : nextVersion cur.version = version + 1 := newest
      refine ⟨root, newMaster, ?_, ?_⟩
      · rw [newestEq]
        rfl
      -- The version is above the active one, so nothing was held at it.
      have absent : k.master.keyAt (version + 1) = none :=
        only (version + 1) (by have := memory.notAhead; omega) (by simp)
      rw [newestEq]
      exact keyAt_addMaster_self absent
  | giveUp _ rotation quiet =>
    obtain ⟨memory, rotationOk⟩ := ok
    refine ⟨memory, ?_⟩
    cases rotation with
    | masterRead | rootPrepared => exact rotationOk.1
    | masterPrepared | masterCommitted => cases quiet
    | rootVerified => exact rotationOk
  | abortMaster =>
    obtain ⟨memory, only, -⟩ := ok
    exact ⟨memoryOk_removeMaster memory, holdsOnly_removeMaster only⟩
  | adoptMaster =>
    obtain ⟨memory, only, bounded, agrees⟩ := ok
    exact ⟨memoryOk_activateMaster memory bounded agrees, holdsOnly_activateMaster only⟩
  | prepareRoot prepared =>
    rename_i k newRoot wrapper
    obtain ⟨memory, only⟩ := ok
    obtain ⟨cur, master, single, held, same, rfl⟩ := prepareRootKeyRotation_ok prepared
    have versionEq : cur.version = version := liveMaster_version live (by simp [single])
    refine ⟨memory, only, Nat.le_of_eq versionEq, ?_⟩
    intro _
    have activeEq : k.master.active = version := same.trans versionEq
    have keyEq : master = key := by
      have agreed := memory.agrees activeEq
      rw [MasterSet.activeKey, activeEq, agreed] at held
      exact (Option.some.inj held).symm
    exact ⟨newRoot, by rw [keyEq, versionEq]; rfl⟩
  | verifyRoot => exact ⟨ok.1, ok.2⟩

theorem procOk_succ {newKey : KeyBytes} (ok : ProcOk version key state) :
    ProcOk (version + 1) newKey state := by
  have memoryOk : ∀ m, MemoryOk version key m → MemoryOk (version + 1) newKey m := by
    intro m memory
    have notAhead := memory.notAhead
    exact ⟨by omega, fun ahead => by omega⟩
  cases state with
  | down => trivial
  | minting => exact ok
  | loading m => exact ⟨memoryOk m ok.1, ok.2⟩
  | up k rotation =>
    obtain ⟨memory, rotationOk⟩ := ok
    refine ⟨memoryOk k.master memory, ?_⟩
    cases rotation with
    | none => exact rotationOk
    | some rotation =>
      cases rotation with
      | masterRead =>
        obtain ⟨only, behind, bounded⟩ := rotationOk
        exact ⟨only, behind, by omega⟩
      | masterPrepared | masterCommitted | rootPrepared =>
        obtain ⟨only, _, -⟩ := rotationOk
        exact ⟨only, by omega, fun ahead => by omega⟩
      | rootVerified => exact rotationOk

section Existing
variable {s s' : System}

theorem activeMasters_congr (same : db'.masters = db.masters) :
    db'.activeMasters = db.activeMasters := by
  rw [KeyDB.activeMasters, same]
  rfl

theorem liveMaster_congr (same : db'.masters = db.masters)
    (live : LiveMaster version key db) : LiveMaster version key db' := by
  have actives := activeMasters_congr same
  exact ⟨actives ▸ live.present, actives ▸ live.atMostTwo, actives ▸ live.wrapped,
    same ▸ live.first⟩

theorem created_of_same_masters (created : Created version key s)
    (masters : s'.db.masters = s.db.masters) (procs : s'.procs = s.procs) :
    Created version key s' :=
  ⟨liveMaster_congr masters created.live, fun p => procs ▸ created.procs p⟩

theorem procs_update {P : ProcState → Prop} {procs : ProcID → ProcState}
    (others : ∀ q, P (procs q)) (own : P state) : ∀ q, P (update procs p state q) :=
  (forall_update_iff procs fun _ => P).mpr ⟨own, fun q _ => others q⟩

theorem created_of_move (created : Created version key s)
    (db : s'.db = s.db) (procs : s'.procs = update s.procs p state)
    (move : Move s.db (s.procs p) state) : Created version key s' := by
  refine ⟨db ▸ created.live, ?_⟩
  rw [procs]
  exact procs_update created.procs (move_procOk created.live (created.procs p) move)

theorem first_of_wrappers {added : List MasterWrapper}
    (wrappers : db'.masters.map (·.toMasterWrapper) = db.masters.map (·.toMasterWrapper) ++ added)
    (first : ∃ row ∈ db.masters, row.version = 1 ∧ row.rootKeyEpoch = 1) :
    ∃ row ∈ db'.masters, row.version = 1 ∧ row.rootKeyEpoch = 1 := by
  obtain ⟨row, mem, columns⟩ := first
  have listed : row.toMasterWrapper ∈ db'.masters.map (·.toMasterWrapper) := by
    rw [wrappers]
    exact mem_append_left _ (mem_map_of_mem mem)
  obtain ⟨row', mem', same⟩ := mem_map.mp listed
  refine ⟨row', mem', ?_⟩
  rw [same]
  exact columns

theorem created_rotateMaster {newMaster : MasterWrapper} {rewrapped : List Tier3Key}
    (created : Created version key s)
    (prepared : s.procs p = .up k (some (.masterPrepared newMaster rewrapped)))
    (rotated : RotatesMaster s.db s'.db newMaster rewrapped) (procs : s'.procs =
      update s.procs p (.up k (some (.masterCommitted newMaster.version)))) :
    ∃ newKey, newMaster.version = version + 1 ∧ k.master.keyAt (version + 1) = some newKey ∧
      Created (version + 1) newKey s' := by
  obtain ⟨_, single, successor⟩ := rotated.before
  have versionEq : newMaster.version = version + 1 := by
    rw [successor, liveMaster_version created.live (by simp [single])]
  have owner := created.procs p
  rw [prepared] at owner
  obtain ⟨memory, only, -, newest⟩ := owner
  obtain ⟨root, newKey, wrapped, held⟩ := newest versionEq
  refine ⟨newKey, versionEq, held, ⟨?_, ?_⟩⟩
  · refine ⟨by simp [rotated.after], by simp [rotated.after], ?_,
      first_of_wrappers rotated.wrappers created.live.first⟩
    intro _ mem
    rw [rotated.after] at mem
    cases mem_singleton.mp mem
    exact ⟨root, wrapped⟩
  rw [procs]
  refine procs_update (fun q => procOk_succ (created.procs q)) ⟨?_, ?_, ?_, ?_⟩
  · have notAhead := memory.notAhead
    exact ⟨by omega, fun ahead => by omega⟩
  · exact only
  · exact Nat.le_of_eq versionEq
  · intro _
    exact held

theorem created_rootPrepare
    (created : Created version key s) (prepared : s.procs p = .up k (some (.rootPrepared wrapper)))
    (committed : rootKeyRotatePrepare s.db wrapper = .ok s'.db)
    (procs : s'.procs = update s.procs p (.up k none)) : Created version key s' := by
  obtain ⟨master, single, sameVersion, -, dbEq, dual⟩ := rootKeyRotatePrepare_ok committed
  have owner := created.procs p
  rw [prepared] at owner
  obtain ⟨memory, only, -, current⟩ := owner
  have versionEq : wrapper.version = version := by
    rw [← sameVersion, liveMaster_version created.live (by simp [single])]
  obtain ⟨root, wrapped⟩ := current versionEq
  refine ⟨⟨by simp [dual], by simp [dual], ?_, ?_⟩, ?_⟩
  · intro _ mem
    rw [dual] at mem
    rcases mem_cons.mp mem with rfl | older
    · exact ⟨root, wrapped⟩
    · cases mem_singleton.mp older
      exact created.live.wrapped master (by simp [single])
  · have wrappers : s'.db.masters.map (·.toMasterWrapper) =
        s.db.masters.map (·.toMasterWrapper) ++ [wrapper] := by
      rw [dbEq, map_append]
      rfl
    exact first_of_wrappers wrappers created.live.first
  · rw [procs]
    exact procs_update created.procs ⟨memory, only⟩

theorem created_rootFinalize {primaryRoot : KeyBytes}
    {verified : MasterWrapper} {epoch : Nat} (created : Created version key s)
    (prepared : s.procs p = .up k (some (.rootVerified primaryRoot verified)))
    (committed : rootKeyRotateFinalize s.db = .ok (s'.db, epoch))
    (procs : s'.procs = update s.procs p (.up k none)) : Created version key s' := by
  obtain ⟨newer, _, dual, -, dbEq, single⟩ := rootKeyRotateFinalize_ok committed
  have owner := created.procs p
  rw [prepared] at owner
  refine ⟨⟨by simp [single], by simp [single], ?_, ?_⟩, ?_⟩
  · intro _ mem
    rw [single] at mem
    cases mem_singleton.mp mem
    exact created.live.wrapped newer (by simp [dual])
  · have wrappers : s'.db.masters.map (·.toMasterWrapper) =
        s.db.masters.map (·.toMasterWrapper) ++ [] := by
      rw [dbEq, append_nil]
      exact map_updateWhere fun _ => rfl
    exact first_of_wrappers wrappers created.live.first
  · rw [procs]
    exact procs_update created.procs owner

theorem mintHierarchy_wrapper {master : KeyBytes}
    {instanceDraw tokenDraw scanningDraw : RowID × KeyBytes}
    (minted : mintHierarchy root master instanceDraw tokenDraw scanningDraw =
      some (keyring, wrapper, rows)) :
    keyring.master = .single 1 master ∧ wrapper = wrapMaster root 1 1 master := by
  simp only [mintHierarchy] at minted
  obtain ⟨first, -, minted⟩ := Option.bind_eq_some_iff.mp minted
  obtain ⟨second, -, minted⟩ := Option.bind_eq_some_iff.mp minted
  obtain ⟨_, -, minted⟩ := Option.bind_eq_some_iff.mp minted
  cases minted
  exact ⟨rfl, rfl⟩

theorem createHierarchy_refused (created : Created version key s)
    (minting : s.procs p = .minting keyring master rows) :
    createHierarchy s.db master rows ≠ .ok db' := by
  intro run
  obtain ⟨_, insertRun, -⟩ := bind_eq_ok.mp run
  obtain ⟨-, newKey, -⟩ := insertMasterRow_ok insertRun
  have owner := created.procs p
  rw [minting] at owner
  obtain ⟨_, _, _, _, _, minted⟩ := owner
  obtain ⟨-, rfl⟩ := mintHierarchy_wrapper minted
  obtain ⟨row, mem, columns⟩ := created.live.first
  exact newKey row mem columns

end Existing

theorem fresh_of_unborn (fresh : Fresh s) (masters : s'.db.masters = s.db.masters)
    (tier3 : s'.db.tier3 = s.db.tier3) (pending : ∀ entry ∈ s'.pending, entry ∈ s.pending)
    (procs : ∀ p, Unborn (s'.procs p)) : Fresh s' := by
  refine ⟨masters.trans fresh.masters, tier3.trans fresh.tier3, ?_, procs⟩
  refine eq_nil_iff_forall_not_mem.mpr fun entry mem => ?_
  have listed := pending entry mem
  rw [fresh.pending] at listed
  cases listed

theorem move_unborn (noMasters : db.masters = [])
    (unborn : Unborn state) (move : Move db state state') : Unborn state' := by
  cases move with
  | same => exact unborn
  | stop => trivial
  | mint minted => exact ⟨_, _, _, _, _, minted⟩
  | loadMaster opened =>
    rw [KeyDB.activeMasters, noMasters] at opened
    cases opened
  | _ => exact False.elim unborn

theorem created_createHierarchy (fresh : Fresh s)
    (minting : s.procs p = .minting keyring master rows)
    (committed : createHierarchy s.db master rows = .ok s'.db)
    (procs : s'.procs = update s.procs p (.up keyring none)) :
    ∃ key, keyring.master = .single 1 key ∧ Created 1 key s' := by
  obtain ⟨_, insertRun, restRun⟩ := bind_eq_ok.mp committed
  obtain ⟨rfl, -⟩ := insertMasterRow_ok insertRun
  obtain ⟨masters, -⟩ := insertAllWithGeneration_ok rows _ _ restRun
  have owner := fresh.procs p
  rw [minting] at owner
  obtain ⟨root, key, _, _, _, minted⟩ := owner
  obtain ⟨memory, rfl⟩ := mintHierarchy_wrapper minted
  rw [fresh.masters, nil_append] at masters
  have single : s'.db.activeMasters = [{ wrapMaster root 1 1 key with state := .active }] := by
    rw [KeyDB.activeMasters, masters]
    rfl
  refine ⟨key, memory, ⟨⟨by simp [single], by simp [single], ?_, ?_⟩, ?_⟩⟩
  · intro _ mem
    rw [single] at mem
    cases mem_singleton.mp mem
    exact ⟨root, rfl⟩
  · exact ⟨{ wrapMaster root 1 1 key with state := .active }, by simp [masters], rfl, rfl⟩
  · have others : ∀ q, ProcOk 1 key (s.procs q) := by
      intro q
      have unborn := fresh.procs q
      cases state : s.procs q with
      | down => trivial
      | minting =>
        rw [state] at unborn
        exact unborn
      | _ =>
        rw [state] at unborn
        exact False.elim unborn
    rw [procs]
    refine procs_update others ⟨?_, ?_⟩
    · rw [memory]
      exact ⟨le_rfl, fun _ => by rw [keyAt_single, if_pos rfl]⟩
    intro w above _
    rw [memory] at above ⊢
    have notLive : w ≠ 1 := Nat.ne_of_gt above
    rw [keyAt_single, if_neg notLive]

theorem commitTier3Op_appends {op : Tier3Op} (run : commitTier3Op db op = .ok db') :
    AppendsTier3 db db' op.row := by
  cases op with
  | create => exact (createTier3_ok run).1
  | initialProjectDEK => exact (insertInitialProjectDEK_ok run).1
  | rotateDEK => exact (rotateDEK_ok run).1
  | rotateTokenKey | rotateScanningKey => exact rotateRootScopedTier3_appends run

theorem fresh_not_up {rotation : Option HierarchyRotation}
    (fresh : Fresh s) (isUp : s.procs p = .up k rotation) : False := by
  have unborn := fresh.procs p
  rw [isUp] at unborn
  exact unborn

theorem effect_of_fresh (fresh : Fresh s) (effect : Effect s a s') :
    Fresh s' ∨ ∃ p keyring master rows, s.procs p = .minting keyring master rows ∧
      createHierarchy s.db master rows = .ok s'.db ∧
      s'.procs = update s.procs p (.up keyring none) ∧ s'.pending = s.pending := by
  cases effect with
  | memory p _ db procs move pending =>
    refine .inl (fresh_of_unborn fresh (by rw [db]) (by rw [db]) pending ?_)
    intro q
    rw [procs]
    by_cases same : q = p
    · subst same
      rw [update_self]
      exact move_unborn fresh.masters (fresh.procs q) move
    · rw [update_of_ne same]
      exact fresh.procs q
  | queue db procs holds minted pending =>
    rename_i p _ _ _ _ _ _ _
    have unborn := fresh.procs p
    cases state : s.procs p with
    | down | minting => rw [state] at holds; cases holds
    | _ => rw [state] at unborn; exact False.elim unborn
  | drop db procs pending =>
    exact .inl (fresh_of_unborn fresh (by rw [db]) (by rw [db]) pending fun p =>
      procs ▸ fresh.procs p)
  | commitTier3 found _ _ pending =>
    rw [fresh.pending] at found
    cases found
  | createHierarchy minting db procs pending => exact .inr ⟨_, _, _, _, minting, db, procs, pending⟩
  | rotateMaster prepared | rootPrepare prepared | rootFinalize prepared =>
    exact (fresh_not_up fresh prepared).elim
  | retireRetiring db procs pending =>
    obtain ⟨masters, keys, -⟩ := retireRetiringTier3_ok db
    have tier3 : s'.db.tier3 = s.db.tier3 := by
      rw [fresh.tier3] at keys ⊢
      exact map_eq_nil_iff.mp keys
    exact .inl (fresh_of_unborn fresh masters tier3 (by simp [pending])
      fun p => procs ▸ fresh.procs p)
  | setBlockers masters tier3 procs pending =>
    exact .inl (fresh_of_unborn fresh masters tier3 (by simp [pending])
      fun p => procs ▸ fresh.procs p)

theorem effect_of_created (created : Created version key s) (effect : Effect s a s') :
    Created version key s' ∨ ∃ newKey, Created (version + 1) newKey s' := by
  cases effect with
  | memory _ _ db procs move => exact .inl (created_of_move created db procs move)
  | queue db procs | drop db procs =>
    exact .inl (created_of_same_masters created (by rw [db]) procs)
  | commitTier3 _ db procs =>
    exact .inl (created_of_same_masters created (commitTier3Op_appends db).masters procs)
  | createHierarchy minting db => exact absurd db (createHierarchy_refused created minting)
  | rotateMaster prepared db procs =>
    obtain ⟨newKey, -, -, moved⟩ :=
      created_rotateMaster created prepared (rotateMasterKey_ok db) procs
    exact .inr ⟨newKey, moved⟩
  | rootPrepare prepared db procs => exact .inl (created_rootPrepare created prepared db procs)
  | rootFinalize prepared db procs => exact .inl (created_rootFinalize created prepared db procs)
  | retireRetiring db procs =>
    exact .inl (created_of_same_masters created (retireRetiringTier3_ok db).1 procs)
  | setBlockers masters _ procs => exact .inl (created_of_same_masters created masters procs)

theorem step_coherent (s : System) (a : Action) (s' : System) (coherent : Coherent s)
    (taken : step s a = some s') : Coherent s' := by
  have effect := step_effect taken
  rcases coherent with fresh | ⟨version, key, created⟩
  · rcases effect_of_fresh fresh effect with stays | ⟨_, _, _, _, minting, db, procs, -⟩
    · exact .inl stays
    · obtain ⟨key, -, created⟩ := created_createHierarchy fresh minting db procs
      exact .inr ⟨1, key, created⟩
  rcases effect_of_created created effect with stays | ⟨newKey, moved⟩
  · exact .inr ⟨version, key, stays⟩
  · exact .inr ⟨version + 1, newKey, moved⟩

theorem fresh_initial : Fresh System.initial := ⟨rfl, rfl, rfl, fun _ => trivial⟩

theorem run_coherent (actions : List Action) : Coherent (run .initial actions) :=
  runFrom_invariant step Coherent step_coherent actions .initial (.inl fresh_initial)

end Hikyo.KeyHierarchy
