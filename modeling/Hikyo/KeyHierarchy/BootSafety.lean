import Hikyo.KeyHierarchy.Invariant

/-!
# Boot safety of the key hierarchy

`run_bootSafe_of_wrapsUnderActiveMaster`: in every history in which the rotations of the token and
scanning keys commit a key that is wrapped under the master active then, every openable key of the
third tier names a master version with an active row, and a process that boots with the root key
unwraps all of them.  `SealedSystem` is the invariant.  These two rotations do not compare the
wrapping master when they commit, so one that was minted before a master rotation leaves a key that
no boot can open (`tokenAcrossMaster_not_bootSafe`).
-/

namespace Hikyo.KeyHierarchy

open Hikyo.Lib List Function

variable {key newKey root : KeyBytes} {handle : KeyHandle} {keyring : Keyring}
  {rows : List Tier3Key} {m : MasterSet} {version : Nat} {id : RowID} {scope : Scope}
  {s s' : System} {row : Tier3Key}

/-- Every openable tier-3 row names a master version that has an active row. -/
def BootSafe (db : KeyDB) : Prop :=
  ∀ row ∈ db.tier3, row.Openable →
    ∃ master ∈ db.masters, master.state = .active ∧ master.version = row.masterKeyVersion

instance (db : KeyDB) : Decidable (BootSafe db) := by
  unfold BootSafe
  infer_instance

def BootUnwraps (db : KeyDB) : Prop :=
  ∀ root, ∀ wrapper ∈ db.activeMasters, (openMaster root wrapper.toMasterWrapper).isSome →
    ∃ version key, unwrapMaster root db.activeMasters = .ok (version, key) ∧
      ∀ row ∈ db.tier3, row.Openable →
        ∃ handle, unwrapTier3 (.single version key) row.toTier3Key = .ok handle

def Tier3Op.isRootScoped : Tier3Op → Bool
  | .rotateTokenKey _ => true
  | .rotateScanningKey _ => true
  | _ => false

def Action.committedTier3 : Action → Option Nat
  | .commitTier3 index => some index
  | _ => none

/-- A rotation that commits carries a key wrapped under the master that is active then. -/
def WrapsUnderActiveMaster (s : System) (a : Action) : Prop :=
  ∀ index ∈ a.committedTier3, ∀ entry ∈ s.pending[index]?, entry.op.isRootScoped = true →
    (commitTier3Op s.db entry.op).isOk →
      ∀ master ∈ s.db.activeMasters, master.version = entry.op.row.masterKeyVersion

instance (s : System) (a : Action) : Decidable (WrapsUnderActiveMaster s a) := by
  unfold WrapsUnderActiveMaster
  infer_instance

def SealedUnder (version : Nat) (key : KeyBytes) (row : Tier3Key) : Prop :=
  row.masterKeyVersion = version ∧
    ∃ dek, row.blob = ⟨key, (.master version, tier3AAD row), dek⟩

/-- A prepared master rotation re-seals rows of the store under its new master. -/
def RewrapOk (version : Nat) (db : KeyDB) : ProcState → Prop
  | .up k (some (.masterPrepared newMaster keys)) =>
    newMaster.version = version + 1 → ∀ newKey, k.master.keyAt (version + 1) = some newKey →
      ∀ key ∈ keys, SealedUnder (version + 1) newKey key ∧
        ∃ row ∈ db.tier3, row.id = key.id ∧ row.scope = key.scope ∧ row.version = key.version
  | _ => True

structure Tier3Sealed (version : Nat) (key : KeyBytes) (s : System) : Prop where
  rows : ∀ row ∈ s.db.tier3, row.Openable → SealedUnder version key row.toTier3Key
  ids : (s.db.tier3.map (·.id)).Nodup
  pending : ∀ entry ∈ s.pending, entry.op.row.masterKeyVersion ≤ version ∧
    (entry.op.row.masterKeyVersion = version → SealedUnder version key entry.op.row)
  rewraps : ∀ p, RewrapOk version s.db (s.procs p)

def SealedSystem (s : System) : Prop :=
  Fresh s ∨ ∃ version key, Created version key s ∧ Tier3Sealed version key s

theorem sealTier3_sealedUnder (row : Tier3Key) (version : Nat) (master dek : KeyBytes) :
    SealedUnder version master (sealTier3 row version master dek) := ⟨rfl, dek, rfl⟩

theorem mintTier3At_sealedUnder (minted : mintTier3At m scope version id key = some (handle, row)) :
    ∃ master, m.keyAt m.active = some master ∧ SealedUnder m.active master row := by
  obtain ⟨master, held, result⟩ := Option.bind_eq_some_iff.mp minted
  cases result
  exact ⟨master, held, sealTier3_sealedUnder _ _ _ _⟩

theorem rewrapTier3_sealedUnder {newVersion : Nat} {newMaster : KeyBytes}
    (rows : List Tier3Row) (keys : List Tier3Key)
    (run : rewrapTier3 m newVersion newMaster rows = .ok keys) :
    ∀ key ∈ keys, SealedUnder newVersion newMaster key ∧
      ∃ row ∈ rows, row.id = key.id ∧ row.scope = key.scope ∧ row.version = key.version := by
  induction rows generalizing keys with
  | nil =>
    cases run
    intro key mem
    cases mem
  | cons row _ ih =>
    obtain ⟨_, -, run⟩ := bind_eq_ok.mp run
    obtain ⟨others, restRun, run⟩ := bind_eq_ok.mp run
    cases run
    intro key mem
    rcases mem_cons.mp mem with rfl | later
    · exact ⟨sealTier3_sealedUnder _ _ _ _, row, by simp, rfl, rfl, rfl⟩
    · obtain ⟨isSealed, source, sourceMember, columns⟩ := ih others restRun key later
      exact ⟨isSealed, source, by simp [sourceMember], columns⟩

theorem unwrapTier3_of_sealedUnder (isSealed : SealedUnder version key row) :
    ∃ handle, unwrapTier3 (.single version key) row = .ok handle := by
  obtain ⟨rfl, dek, blobEq⟩ := isSealed
  refine ⟨⟨row.id, row.version, dek⟩, ?_⟩
  simp only [unwrapTier3, keyAt_single, if_true, blobEq, openSealed_seal]

theorem sealedUnder_of_rewrapped {key : Tier3Key} {old row : Tier3Row}
    (isSealed : SealedUnder version newKey key) (rewrapped : RewrappedBy key old row)
    (scopes : old.scope = key.scope) :
    SealedUnder version newKey row.toTier3Key := by
  obtain ⟨versionEq, dek, blobEq⟩ := isSealed
  have idEq : row.id = key.id := (congrArg Prod.fst rewrapped.identity).trans rewrapped.id
  have scopeEq : row.scope = key.scope :=
    (congrArg (fun columns => columns.2.1) rewrapped.identity).trans scopes
  have rowVersionEq : row.version = key.version :=
    (congrArg (fun columns => columns.2.2.1) rewrapped.identity).trans rewrapped.version
  have aadEq : tier3AAD row.toTier3Key = tier3AAD key := by
    have purposeEq : row.purpose = key.purpose := congrArg Scope.purpose scopeEq
    have orgEq : row.orgID = key.orgID := congrArg Scope.orgID scopeEq
    have projectEq : row.projectID = key.projectID := congrArg Scope.projectID scopeEq
    simp only [tier3AAD, purposeEq, orgEq, projectEq, idEq, rowVersionEq,
      rewrapped.masterKeyVersion]
  refine ⟨rewrapped.masterKeyVersion.trans versionEq, dek, ?_⟩
  rw [rewrapped.blob, blobEq, aadEq]

section Steps
def KeepsRows (db db' : KeyDB) : Prop :=
  ∀ row ∈ db.tier3, ∃ row' ∈ db'.tier3,
    row'.id = row.id ∧ row'.scope = row.scope ∧ row'.version = row.version

variable {db db' : KeyDB} {state : ProcState} {p : ProcID}

theorem keepsRows_of_keys {added : List Tier3Key}
    (keys : db'.tier3.map (·.toTier3Key) = db.tier3.map (·.toTier3Key) ++ added) :
    KeepsRows db db' := by
  intro row mem
  have listed : row.toTier3Key ∈ db'.tier3.map (·.toTier3Key) := by
    rw [keys]
    exact mem_append_left _ (mem_map_of_mem mem)
  obtain ⟨row', mem', same⟩ := mem_map.mp listed
  exact ⟨row', mem', by rw [same], by rw [same], by rw [same]⟩

theorem rewrapOk_of_keepsRows (kept : KeepsRows db db')
    (ok : RewrapOk version db state) : RewrapOk version db' state := by
  cases state with
  | up _ rotation =>
    cases rotation with
    | none => trivial
    | some rotation =>
      cases rotation with
      | masterPrepared =>
        intro newest newKey held sealedKey mem
        obtain ⟨isSealed, row, rowMember, idEq, scopeEq, versionEq⟩ :=
          ok newest newKey held sealedKey mem
        obtain ⟨row', rowMember', idEq', scopeEq', versionEq'⟩ := kept row rowMember
        exact ⟨isSealed, row', rowMember', idEq'.trans idEq, scopeEq'.trans scopeEq,
          versionEq'.trans versionEq⟩
      | _ => trivial
  | _ => trivial

theorem move_rewrapOk {state' : ProcState} (ok : ProcOk version key state)
    (rewrapOk : RewrapOk version s.db state) (move : Move s.db state state') :
    RewrapOk version s.db state' := by
  cases move with
  | same => exact rewrapOk
  | cache _ _ rotation kept =>
    cases rotation with
    | none => trivial
    | some rotation =>
      cases rotation with
      | masterPrepared =>
        simp only [RewrapOk, kept] at rewrapOk ⊢
        exact rewrapOk
      | _ => trivial
  | prepareMaster rewrap =>
    rename_i k root newMaster cur rewrapped
    obtain ⟨memory, only, -⟩ := ok
    intro newest newKey held sealedKey mem
    have newestEq : nextVersion cur.version = version + 1 := newest
    have absent : k.master.keyAt (version + 1) = none :=
      only (version + 1) (by have := memory.notAhead; omega) (by simp)
    have keyEq : newMaster = newKey := by
      simp only [newestEq] at held
      rw [keyAt_addMaster_self absent] at held
      exact Option.some.inj held
    obtain ⟨isSealed, row, rowMember, columns⟩ :=
      rewrapTier3_sealedUnder _ _ rewrap sealedKey mem
    rw [newestEq, keyEq] at isSealed
    exact ⟨isSealed, row, (mem_filter.mp rowMember).1, columns⟩
  | _ => trivial

theorem rewrapOk_succ (ok : ProcOk version key state) : RewrapOk (version + 1) db state := by
  cases state with
  | up _ rotation =>
    cases rotation with
    | none => trivial
    | some rotation =>
      cases rotation with
      | masterPrepared =>
        obtain ⟨-, -, _, -⟩ := ok
        intro _
        omega
      | _ => trivial
  | _ => trivial

section
variable (isSealed : Tier3Sealed version key s)
include isSealed

theorem tier3Sealed_of_same_store
    (tier3 : s'.db.tier3 = s.db.tier3) (pending : ∀ entry ∈ s'.pending, entry ∈ s.pending)
    (rewraps : ∀ p, RewrapOk version s.db (s'.procs p)) : Tier3Sealed version key s' := by
  refine ⟨tier3 ▸ isSealed.rows, tier3 ▸ isSealed.ids,
    fun entry mem => isSealed.pending entry (pending entry mem), ?_⟩
  intro p
  refine rewrapOk_of_keepsRows ?_ (rewraps p)
  intro row mem
  exact ⟨row, tier3 ▸ mem, rfl, rfl, rfl⟩

theorem tier3Sealed_queue {rowVersion : Nat} {dek : KeyBytes} {op : Tier3Op}
    (created : Created version key s) (db : s'.db = s.db) (procs : s'.procs = s.procs)
    (holds : (s.procs p).masterSet = some m)
    (minted : mintTier3At m scope rowVersion id dek = some (handle, op.row))
    (pending : s'.pending = s.pending ++ [⟨p, op, handle⟩]) : Tier3Sealed version key s' := by
  have memory : MemoryOk version key m := by
    have owner := created.procs p
    cases state : s.procs p with
    | down | minting => rw [state] at holds; cases holds
    | loading | up =>
      rw [state] at holds owner
      cases holds
      exact owner.1
  obtain ⟨master, held, rowSealed⟩ := mintTier3At_sealedUnder minted
  refine ⟨by rw [db]; exact isSealed.rows, by rw [db]; exact isSealed.ids, ?_,
    by rw [db, procs]; exact isSealed.rewraps⟩
  intro entry mem
  rw [pending] at mem
  rcases mem_append.mp mem with old | new
  · exact isSealed.pending entry old
  cases mem_singleton.mp new
  refine ⟨by rw [rowSealed.1]; exact memory.notAhead, ?_⟩
  intro live
  have activeEq : m.active = version := rowSealed.1.symm.trans live
  have keyEq : master = key := by
    rw [activeEq, memory.agrees activeEq] at held
    exact (Option.some.inj held).symm
  rw [activeEq, keyEq] at rowSealed
  exact rowSealed

theorem tier3Sealed_append (appended : AppendsTier3 s.db s'.db row)
    (rowSealed : SealedUnder version key row) (procs : s'.procs = s.procs)
    (pending : ∀ entry ∈ s'.pending, entry ∈ s.pending) :
    Tier3Sealed version key s' := by
  refine ⟨?_, ?_, fun entry mem => isSealed.pending entry (pending entry mem), ?_⟩
  · intro current mem isOpenable
    rcases appended.openable current mem isOpenable with new | ⟨old, oldMember, wasOpenable, same⟩
    · rw [new]
      exact rowSealed
    · rw [← same]
      exact isSealed.rows old oldMember wasOpenable
  · have ids : s'.db.tier3.map (·.id) = s.db.tier3.map (·.id) ++ [row.id] := by
      have mapped := congrArg (map Tier3Key.id) appended.keys
      simpa [map_map, comp_def] using mapped
    rw [ids]
    refine List.Nodup.append isSealed.ids (nodup_singleton _) ?_
    intro _ listed same
    obtain ⟨old, oldMember, rfl⟩ := mem_map.mp listed
    exact appended.newID old oldMember (mem_singleton.mp same)
  · intro p
    rw [procs]
    exact rewrapOk_of_keepsRows (keepsRows_of_keys appended.keys) (isSealed.rewraps p)

theorem tier3Sealed_rotateMaster {k : Keyring} {newMaster : MasterWrapper}
    {keys : List Tier3Key} (created : Created version key s)
    (prepared : s.procs p = .up k (some (.masterPrepared newMaster keys)))
    (versionEq : newMaster.version = version + 1)
    (held : k.master.keyAt (version + 1) = some newKey)
    (rotated : RotatesMaster s.db s'.db newMaster keys) (procs : s'.procs =
      update s.procs p (.up k (some (.masterCommitted newMaster.version))))
    (pending : s'.pending = s.pending) : Tier3Sealed (version + 1) newKey s' := by
  have rewraps := isSealed.rewraps p
  rw [prepared] at rewraps
  have idsEq : s'.db.tier3.map (·.id) = s.db.tier3.map (·.id) := by
    have mapped := congrArg (map Prod.fst) rotated.identities
    simpa [map_map, comp_def, Tier3Row.identity] using mapped
  refine ⟨?_, by rw [idsEq]; exact isSealed.ids, ?_, ?_⟩
  · intro row mem isOpenable
    have moved := rotated.openable row mem isOpenable
    rcases rotated.rows row mem with unchanged | ⟨source, sourceMember, old, oldMember, rewrapped⟩
    · -- An untouched openable row would still name the old version.
      have stale := (isSealed.rows row unchanged isOpenable).1
      omega
    obtain ⟨sourceSealed, original, originalMember, idEq, scopeEq, -⟩ :=
      rewraps versionEq newKey held source sourceMember
    have sameRow : original = old := by
      refine inj_on_of_nodup_map isSealed.ids originalMember oldMember ?_
      rw [idEq, rewrapped.id]
    exact sealedUnder_of_rewrapped sourceSealed rewrapped (sameRow ▸ scopeEq)
  · intro entry mem
    rw [pending] at mem
    have bound := (isSealed.pending entry mem).1
    exact ⟨by omega, fun ahead => by omega⟩
  · rw [procs]
    exact procs_update (fun q => rewrapOk_succ (created.procs q)) trivial

end

theorem mintHierarchy_rows {master : KeyBytes}
    {instanceDraw tokenDraw scanningDraw : RowID × KeyBytes}
    {wrapper : MasterWrapper}
    (minted : mintHierarchy root master instanceDraw tokenDraw scanningDraw =
      some (keyring, wrapper, rows)) : ∀ row ∈ rows, SealedUnder 1 master row := by
  simp only [mintHierarchy] at minted
  obtain ⟨_, firstMint, minted⟩ := Option.bind_eq_some_iff.mp minted
  obtain ⟨_, secondMint, minted⟩ := Option.bind_eq_some_iff.mp minted
  obtain ⟨_, thirdMint, minted⟩ := Option.bind_eq_some_iff.mp minted
  cases minted
  have underMaster : ∀ {pair : KeyHandle × Tier3Key} {scope : Scope} {id : RowID} {dek : KeyBytes},
      mintTier3At (.single 1 master) scope 1 id dek = some pair → SealedUnder 1 master pair.2 := by
    rintro ⟨_, row⟩ _ _ _ mint
    obtain ⟨used, held, isSealed⟩ := mintTier3At_sealedUnder mint
    have usedEq : used = master := by
      exact (Option.some.inj held).symm
    exact usedEq ▸ isSealed
  intro _ mem
  simp only [mem_cons, not_mem_nil, or_false] at mem
  rcases mem with rfl | rfl | rfl
  · exact underMaster firstMint
  · exact underMaster secondMint
  · exact underMaster thirdMint

theorem tier3Sealed_createHierarchy {master : MasterWrapper} (fresh : Fresh s)
    (minting : s.procs p = .minting keyring master rows)
    (committed : createHierarchy s.db master rows = .ok s'.db)
    (memory : keyring.master = .single 1 key)
    (procs : s'.procs = update s.procs p (.up keyring none)) (pending : s'.pending = s.pending) :
    Tier3Sealed 1 key s' := by
  obtain ⟨_, insertRun, restRun⟩ := bind_eq_ok.mp committed
  obtain ⟨rfl, -⟩ := insertMasterRow_ok insertRun
  obtain ⟨-, keys, nodup⟩ := insertAllWithGeneration_ok rows _ _ restRun
  have owner := fresh.procs p
  rw [minting] at owner
  obtain ⟨_, drawn, _, _, _, minted⟩ := owner
  have drawnEq : drawn = key := by
    have held := (mintHierarchy_wrapper minted).1.symm.trans memory
    exact (Prod.mk.inj (cons.inj (MasterSet.mk.inj held).2).1).2
  have rowsSealed := mintHierarchy_rows minted
  simp only [fresh.tier3, map_nil, nil_append] at keys nodup
  refine ⟨?_, nodup nodup_nil, ?_, ?_⟩
  · intro row mem _
    have listed : row.toTier3Key ∈ rows := by
      rw [← keys]
      exact mem_map_of_mem mem
    exact drawnEq ▸ rowsSealed row.toTier3Key listed
  · intro _ mem
    rw [pending, fresh.pending] at mem
    cases mem
  · rw [procs]
    refine procs_update (fun q => ?_) trivial
    cases state : s.procs q with
    | up => exact (fresh_not_up fresh state).elim
    | _ => trivial

theorem commitTier3Op_sealedUnder {index : Nat} {entry : Pending}
    (created : Created version key s) (isSealed : Tier3Sealed version key s)
    (found : s.pending[index]? = some entry) (run : commitTier3Op s.db entry.op = .ok db')
    (allowed : WrapsUnderActiveMaster s (.commitTier3 index)) :
    SealedUnder version key entry.op.row := by
  have queued := isSealed.pending entry (mem_of_getElem? found)
  obtain ⟨master, listed⟩ := exists_mem_of_ne_nil _ created.live.present
  have sameVersion : ∀ row : Tier3Key,
      (∀ master ∈ s.db.activeMasters, master.version = row.masterKeyVersion) →
        row.masterKeyVersion = version := by
    intro row current
    rw [← current master listed, liveMaster_version created.live listed]
  obtain ⟨_, op, _⟩ := entry
  refine queued.2 (sameVersion op.row ?_)
  cases op with
  | create => exact (createTier3_ok run).2.2
  | initialProjectDEK => exact (insertInitialProjectDEK_ok run).2.2
  | rotateDEK => exact (rotateDEK_ok run).2.2
  | rotateTokenKey | rotateScanningKey =>
      exact allowed index rfl _ found rfl (by simp [run, Except.isOk, Except.toBool])

end Steps

theorem effect_tier3Sealed {a : Action} (created : Created version key s)
    (isSealed : Tier3Sealed version key s) (allowed : WrapsUnderActiveMaster s a)
    (effect : Effect s a s') : SealedSystem s' := by
  right
  cases effect with
  | memory p _ db procs move pending =>
    refine ⟨version, key, created_of_move created db procs move, ?_⟩
    refine tier3Sealed_of_same_store isSealed (by rw [db]) pending ?_
    rw [procs]
    exact procs_update isSealed.rewraps
      (move_rewrapOk (created.procs p) (isSealed.rewraps p) move)
  | queue db procs holds minted pending =>
    exact ⟨version, key, created_of_same_masters created (by rw [db]) procs,
      tier3Sealed_queue isSealed created db procs holds minted pending⟩
  | drop db procs pending =>
    refine ⟨version, key, created_of_same_masters created (by rw [db]) procs, ?_⟩
    exact tier3Sealed_of_same_store isSealed (by rw [db]) pending
      (fun p => by rw [procs]; exact isSealed.rewraps p)
  | commitTier3 found db procs pending =>
    have appended := commitTier3Op_appends db
    have rowSealed := commitTier3Op_sealedUnder created isSealed found db allowed
    exact ⟨version, key, created_of_same_masters created appended.masters procs,
      tier3Sealed_append isSealed appended rowSealed procs pending⟩
  | createHierarchy minting db => exact absurd db (createHierarchy_refused created minting)
  | rotateMaster prepared db procs pending =>
    have rotated := rotateMasterKey_ok db
    obtain ⟨newKey, versionEq, held, moved⟩ := created_rotateMaster created prepared rotated procs
    exact ⟨version + 1, newKey, moved, tier3Sealed_rotateMaster isSealed created prepared
      versionEq held rotated procs pending⟩
  | rootPrepare prepared db procs pending =>
    obtain ⟨_, _, _, _, dbEq, _⟩ := rootKeyRotatePrepare_ok db
    refine ⟨version, key, created_rootPrepare created prepared db procs, ?_⟩
    refine tier3Sealed_of_same_store isSealed (by rw [dbEq]) (by simp [pending]) ?_
    rw [procs]
    exact procs_update isSealed.rewraps trivial
  | rootFinalize prepared db procs pending =>
    obtain ⟨_, _, _, _, dbEq, _⟩ := rootKeyRotateFinalize_ok db
    refine ⟨version, key, created_rootFinalize created prepared db procs, ?_⟩
    refine tier3Sealed_of_same_store isSealed (by rw [dbEq]; rfl) (by simp [pending]) ?_
    rw [procs]
    exact procs_update isSealed.rewraps trivial
  | retireRetiring db procs pending =>
    obtain ⟨masters, keys, rows⟩ := retireRetiringTier3_ok db
    refine ⟨version, key, created_of_same_masters created masters procs, ?_, ?_, ?_, ?_⟩
    · intro row mem isOpenable
      exact isSealed.rows row (rows row mem isOpenable) isOpenable
    · have ids := congrArg (map Tier3Key.id) keys
      simp only [map_map, comp_def] at ids
      rw [ids]
      exact isSealed.ids
    · rw [pending]
      exact isSealed.pending
    · intro p
      have kept : KeepsRows s.db s'.db :=
        keepsRows_of_keys (keys.trans (append_nil _).symm)
      rw [procs]
      exact rewrapOk_of_keepsRows kept (isSealed.rewraps p)
  | setBlockers masters tier3 procs pending =>
    refine ⟨version, key, created_of_same_masters created masters procs, ?_⟩
    exact tier3Sealed_of_same_store isSealed tier3 (by simp [pending])
      (fun p => by rw [procs]; exact isSealed.rewraps p)

theorem step_sealedSystem (s : System) (a : Action) (s' : System) (isSealed : SealedSystem s)
    (allowed : WrapsUnderActiveMaster s a) (taken : step s a = some s') : SealedSystem s' := by
  have effect := step_effect taken
  rcases isSealed with fresh | ⟨_, key, created, tier3⟩
  · rcases effect_of_fresh fresh effect with
      stays | ⟨p, keyring, master, rows, minting, db, procs, pending⟩
    · exact .inl stays
    obtain ⟨key, memory, created⟩ := created_createHierarchy fresh minting db procs
    exact .inr ⟨1, key, created,
      tier3Sealed_createHierarchy fresh minting db memory procs pending⟩
  · exact effect_tier3Sealed created tier3 allowed effect

theorem bootSafe_of_sealed
    (created : Created version key s) (isSealed : Tier3Sealed version key s) : BootSafe s.db := by
  intro row mem isOpenable
  obtain ⟨master, listed⟩ := exists_mem_of_ne_nil _ created.live.present
  have columns := mem_activeMasters.mp listed
  refine ⟨master, columns.1, columns.2, ?_⟩
  rw [liveMaster_version created.live listed, (isSealed.rows row mem isOpenable).1]

theorem unwrapMaster_of_opens (wrappers : List MasterRow) {wrapper : MasterRow}
    (mem : wrapper ∈ wrappers) (opens : (openMaster root wrapper.toMasterWrapper).isSome) :
    ∃ found, unwrapMaster root wrappers = .ok found := by
  induction wrappers with
  | nil => cases mem
  | cons first _ ih =>
    simp only [unwrapMaster]
    cases result : openMaster root first.toMasterWrapper with
    | some => exact ⟨_, rfl⟩
    | none =>
      rcases mem_cons.mp mem with rfl | later
      · rw [result] at opens
        cases opens
      · exact ih later

theorem bootUnwraps_of_sealed (created : Created version key s)
    (isSealed : Tier3Sealed version key s) :
    BootUnwraps s.db := by
  intro _ _ listed opens
  obtain ⟨_, unwrapped⟩ := unwrapMaster_of_opens s.db.activeMasters listed opens
  cases unwrapMaster_wrapped s.db.activeMasters created.live.wrapped unwrapped
  refine ⟨version, key, unwrapped, ?_⟩
  intro row mem isOpenable
  exact unwrapTier3_of_sealedUnder (isSealed.rows row mem isOpenable)

/-- Where the token and scanning rotations commit under the active master, the next boot unwraps
every key. -/
theorem run_bootSafe_of_wrapsUnderActiveMaster (actions : List Action)
    (allowed : AllowedFrom step WrapsUnderActiveMaster .initial actions) :
    BootSafe (run .initial actions).db ∧ BootUnwraps (run .initial actions).db := by
  have isSealed : SealedSystem (run .initial actions) :=
    runFrom_invariant_of_allowed step WrapsUnderActiveMaster SealedSystem step_sealedSystem
      actions .initial (.inl fresh_initial) allowed
  rcases isSealed with fresh | ⟨_, _, created, tier3⟩
  · refine ⟨?_, ?_⟩
    · intro _ mem
      rw [fresh.tier3] at mem
      cases mem
    · intro _ _ listed
      rw [KeyDB.activeMasters, fresh.masters] at listed
      cases listed
  · exact ⟨bootSafe_of_sealed created tier3, bootUnwraps_of_sealed created tier3⟩

def tokenAfterMaster : List Action :=
  [.mint 0 7 100 (1, 101) (2, 102) (3, 103), .commitHierarchy 0, .readMaster 0 7,
    .prepareMaster 0 200, .commitMaster 0, .adoptMaster 0, .prepareToken 0 4 104, .commitTier3 0]

theorem tokenAfterMaster_bootSafe :
    AllowedFrom step WrapsUnderActiveMaster .initial tokenAfterMaster ∧
      BootSafe (run .initial tokenAfterMaster).db ∧ BootUnwraps
        (run .initial tokenAfterMaster).db :=
  ⟨by decide, run_bootSafe_of_wrapsUnderActiveMaster tokenAfterMaster (by decide)⟩

/-- The token key is minted before the master rotation commits. -/
def tokenAcrossMaster : List Action :=
  [.mint 0 7 100 (1, 101) (2, 102) (3, 103), .commitHierarchy 0, .prepareToken 0 4 104,
    .readMaster 0 7, .prepareMaster 0 200, .commitMaster 0, .adoptMaster 0, .commitTier3 0]

theorem tokenAcrossMaster_not_bootSafe : ¬ BootSafe (run .initial tokenAcrossMaster).db := by
  decide

end Hikyo.KeyHierarchy
