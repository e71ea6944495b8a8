import Hikyo.KeyHierarchy.Store

/-!
# What a committed key transaction did

What a transaction of the key store did if it committed, one lemma for each: which rows it appended,
which states it changed and what it had checked.  `rotateMasterKey_ok` is the longest, since a
master rotation seals every openable key again.
-/

namespace Hikyo.KeyHierarchy

open Hikyo.Lib List

variable {db db' : KeyDB} {key : Tier3Key} {scope : Scope}

theorem mem_activeMasters {row : MasterRow} : row ∈ db.activeMasters ↔ row ∈ db.masters ∧
    row.state = .active := by
  simp [KeyDB.activeMasters, mem_insertionSort]

theorem eq_of_activeMasters_singleton {master row : MasterRow}
    (single : db.activeMasters = [master]) (mem : row ∈ db.masters)
    (active : row.state = .active) : row = master := by
  have listed : row ∈ db.activeMasters := mem_activeMasters.mpr ⟨mem, active⟩
  rw [single] at listed
  exact mem_singleton.mp listed

theorem assertActiveMaster_ok {version : Nat} {u : Unit}
    (run : assertActiveMaster db version = .ok u) :
    db.activeMasters ≠ [] ∧ ∀ master ∈ db.activeMasters, master.version = version := by
  obtain ⟨present, run⟩ := require_bind_eq_ok.mp run
  exact ⟨present, (require_eq_ok _ _ u).mp run⟩

structure AppendsTier3 (db db' : KeyDB) (key : Tier3Key) : Prop where
  masters : db'.masters = db.masters
  blockers : db'.selfConfigRootFinalizationBlockers = db.selfConfigRootFinalizationBlockers
  keys : db'.tier3.map (·.toTier3Key) = db.tier3.map (·.toTier3Key) ++ [key]
  openable : ∀ row ∈ db'.tier3, row.Openable → row.toTier3Key = key ∨
    ∃ old ∈ db.tier3, old.Openable ∧ old.toTier3Key = row.toTier3Key
  newID : ∀ old ∈ db.tier3, old.id ≠ key.id

theorem insertTier3Row_ok (run : insertTier3Row db key = .ok db') :
    db' = { db with tier3 := db.tier3 ++ [{ key with state := .active }] } ∧
      (∀ row ∈ db.tier3, row.id ≠ key.id) ∧
      (∀ row ∈ db.tier3, ¬ (row.scope = key.scope ∧ row.version = key.version)) ∧
      ∀ row ∈ db.tier3, ¬ (row.scope = key.scope ∧ row.state = .active) := by
  obtain ⟨newID, run⟩ := require_bind_eq_ok.mp run
  obtain ⟨newVersion, run⟩ := require_bind_eq_ok.mp run
  obtain ⟨noActive, run⟩ := require_bind_eq_ok.mp run
  exact ⟨(Except.ok.inj run).symm, newID, newVersion, noActive⟩

theorem appendsTier3_of_move {state : KeyState} {version : Int}
    (run : insertTier3Row (moveActiveTier3 state db scope version).1 key = .ok db') :
    AppendsTier3 db db' key := by
  obtain ⟨rfl, newID, -⟩ := insertTier3Row_ok run
  have keys : ((moveActiveTier3 state db scope version).1.tier3).map (·.toTier3Key) =
      db.tier3.map (·.toTier3Key) := map_updateWhere fun _ => rfl
  refine ⟨rfl, rfl, ?_, ?_, ?_⟩
  · rw [map_append, keys]
    rfl
  · intro row mem isOpenable
    rcases mem_append.mp mem with moved | appended
    · right
      rcases mem_updateWhere.mp moved with ⟨old, oldMember, hit, rfl⟩ | ⟨oldMember, -⟩
      · have wasActive : old.state = .active := by
          simp only [atActiveVersion, decide_eq_true_eq] at hit
          exact hit.2.1
        exact ⟨old, oldMember, .inl wasActive, rfl⟩
      · exact ⟨row, oldMember, isOpenable, rfl⟩
    · left
      rw [mem_singleton.mp appended]
  · intro old mem same
    have listed : old.toTier3Key ∈ db.tier3.map (·.toTier3Key) := mem_map_of_mem mem
    rw [← keys] at listed
    obtain ⟨row, rowMember, rowEq⟩ := mem_map.mp listed
    exact newID row rowMember (by rw [← same, ← rowEq])

theorem appendsTier3_of_insert (run : insertTier3Row db key = .ok db') :
    AppendsTier3 db db' key := by
  obtain ⟨rfl, newID, -⟩ := insertTier3Row_ok run
  refine ⟨rfl, rfl, by simp, ?_, newID⟩
  intro row mem isOpenable
  rcases mem_append.mp mem with old | appended
  · exact .inr ⟨row, old, isOpenable, rfl⟩
  · exact .inl (by rw [mem_singleton.mp appended])

theorem insertScopeGenerationRow_ok (run : insertScopeGenerationRow db scope = .ok db') :
    scope ∉ db.scopes ∧ db' = { db with scopes := scope :: db.scopes } := by
  obtain ⟨absent, run⟩ := require_bind_eq_ok.mp run
  exact ⟨absent, (Except.ok.inj run).symm⟩

theorem insertWithGeneration_appends (run : insertWithGeneration db key = .ok db') :
    AppendsTier3 db db' key := by
  obtain ⟨_, insertRun, scopeRun⟩ := bind_eq_ok.mp run
  obtain ⟨-, rfl⟩ := insertScopeGenerationRow_ok scopeRun
  have appended := appendsTier3_of_insert insertRun
  exact ⟨appended.masters, appended.blockers, appended.keys, appended.openable, appended.newID⟩

theorem rotateRootScopedTier3_appends {purpose : Purpose}
    (run : rotateRootScopedTier3 db key purpose = .ok db') : AppendsTier3 db db' key := by
  obtain ⟨-, run⟩ := require_bind_eq_ok.mp run
  exact appendsTier3_of_move run

theorem rotateDEK_ok (run : rotateDEK db key = .ok db') :
      AppendsTier3 db db' key ∧ db.activeMasters ≠ [] ∧
      ∀ master ∈ db.activeMasters, master.version = key.masterKeyVersion := by
  obtain ⟨-, run⟩ := require_bind_eq_ok.mp run
  obtain ⟨_, checked, run⟩ := bind_eq_ok.mp run
  obtain ⟨-, run⟩ := require_bind_eq_ok.mp run
  exact ⟨appendsTier3_of_move run, assertActiveMaster_ok checked⟩

theorem createTier3_ok (run : createTier3 db key = .ok db') :
      AppendsTier3 db db' key ∧ db.activeMasters ≠ [] ∧
      ∀ master ∈ db.activeMasters, master.version = key.masterKeyVersion := by
  obtain ⟨_, checked, run⟩ := bind_eq_ok.mp run
  exact ⟨insertWithGeneration_appends run, assertActiveMaster_ok checked⟩

theorem insertInitialProjectDEK_ok {orgID projectID : String}
    (run : insertInitialProjectDEK db orgID projectID key = .ok db') :
    AppendsTier3 db db' key ∧ db.activeMasters ≠ [] ∧
      ∀ master ∈ db.activeMasters, master.version = key.masterKeyVersion := by
  obtain ⟨-, run⟩ := require_bind_eq_ok.mp run
  exact createTier3_ok run

theorem retireRetiringTier3_ok {count : Nat}
    (run : retireRetiringTier3 db scope = .ok (db', count)) :
    db'.masters = db.masters ∧ db'.tier3.map (·.toTier3Key) = db.tier3.map (·.toTier3Key) ∧
      ∀ row ∈ db'.tier3, row.Openable → row ∈ db.tier3 := by
  obtain ⟨-, run⟩ := require_bind_eq_ok.mp run
  have dbEq : (retireRetiringTier3ForScope db scope).1 = db' :=
    congrArg Prod.fst (Except.ok.inj run)
  subst db'
  refine ⟨rfl, map_updateWhere fun _ => rfl, ?_⟩
  intro _ mem isOpenable
  rcases mem_updateWhere.mp mem with ⟨_, -, -, rfl⟩ | ⟨oldMember, -⟩
  · simp [Tier3Row.Openable] at isOpenable
  · exact oldMember

theorem insertMasterRow_ok {key : MasterWrapper} (run : insertMasterRow db key = .ok db') :
    db' = { db with masters := db.masters ++ [{ key with state := .active }] } ∧
      (∀ row ∈ db.masters,
        ¬ (row.version = key.version ∧ row.rootKeyEpoch = key.rootKeyEpoch)) ∧
      ∀ row ∈ db.masters, ¬ (row.state = .active ∧ row.rootKeyEpoch = key.rootKeyEpoch) := by
  obtain ⟨newKey, run⟩ := require_bind_eq_ok.mp run
  obtain ⟨oneActive, run⟩ := require_bind_eq_ok.mp run
  exact ⟨(Except.ok.inj run).symm, newKey, oneActive⟩

theorem insertAllWithGeneration_ok (keys : List Tier3Key) (db db' : KeyDB)
    (run : insertAllWithGeneration db keys = .ok db') : db'.masters = db.masters ∧
      db'.tier3.map (·.toTier3Key) = db.tier3.map (·.toTier3Key) ++ keys ∧
      ((db.tier3.map (·.id)).Nodup → (db'.tier3.map (·.id)).Nodup) := by
  induction keys generalizing db with
  | nil =>
    cases run
    exact ⟨rfl, by simp, id⟩
  | cons key _ ih =>
    obtain ⟨inserted, insertRun, restRun⟩ := bind_eq_ok.mp run
    have appended := insertWithGeneration_appends insertRun
    obtain ⟨masters, keysEq, nodup⟩ := ih inserted restRun
    refine ⟨masters.trans appended.masters, ?_, ?_⟩
    · rw [keysEq, appended.keys]
      simp
    intro before
    refine nodup ?_
    have ids : inserted.tier3.map (·.id) = db.tier3.map (·.id) ++ [key.id] := by
      have mapped := congrArg (map Tier3Key.id) appended.keys
      simpa [map_map, Function.comp_def] using mapped
    rw [ids]
    refine List.Nodup.append before (nodup_singleton _) ?_
    intro _ listed same
    obtain ⟨old, oldMember, rfl⟩ := mem_map.mp listed
    exact appended.newID old oldMember (mem_singleton.mp same)

theorem activeMasters_perm (db : KeyDB) :
    db.activeMasters.Perm (db.masters.filter fun row => row.state = .active) :=
  perm_insertionSort NewerEpoch _

theorem activeMasters_retireMasterWhere_perm (db : KeyDB) (selected : MasterRow → Bool) :
    (retireMasterWhere db selected).1.activeMasters.Perm
    (db.activeMasters.filter fun row => !selected row) := by
  have leaves : ∀ row : MasterRow,
      (decide ({ row with state := KeyState.retired : MasterRow }.state = .active)) = false := by
    intro row
    rfl
  refine (activeMasters_perm _).trans ?_
  have view : (retireMasterWhere db selected).1.masters.filter (fun row => row.state = .active) =
      (db.masters.filter fun row => row.state = .active).filter fun row => !selected row :=
    filter_updateWhere leaves
  rw [view]
  exact ((activeMasters_perm db).symm.filter _)

theorem countP_masters_eq {selected : MasterRow → Bool}
    (onlyActive : ∀ row, selected row = true → row.state = .active) :
    db.masters.countP selected = db.activeMasters.countP selected := by
  rw [(activeMasters_perm db).countP_eq selected, countP_filter]
  refine countP_congr fun row _ => ?_
  constructor
  · intro hit
    simp [hit, onlyActive row hit]
  intro both
  simp only [Bool.and_eq_true] at both
  exact both.1

def Tier3Row.identity (row : Tier3Row) : RowID × Scope × Nat × KeyState :=
  (row.id, row.scope, row.version, row.state)

structure RewrappedBy (key : Tier3Key) (old row : Tier3Row) : Prop where
  identity : row.identity = old.identity
  id : old.id = key.id
  version : old.version = key.version
  blob : row.blob = key.blob
  masterKeyVersion : row.masterKeyVersion = key.masterKeyVersion

theorem updateTier3Wrapping_rows {row : Tier3Row}
    (mem : row ∈ (updateTier3Wrapping db key).1.tier3) :
    row ∈ db.tier3 ∨ ∃ old ∈ db.tier3, RewrappedBy key old row := by
  rcases mem_updateWhere.mp mem with ⟨old, oldMember, hit, rfl⟩ | ⟨oldMember, -⟩
  · right
    simp only [decide_eq_true_eq] at hit
    exact ⟨old, oldMember, rfl, hit.1, hit.2, rfl, rfl⟩
  · exact .inl oldMember

theorem rewrapAll_ok (keys : List Tier3Key) (db db' : KeyDB) (run : rewrapAll db keys = .ok db') :
    db'.masters = db.masters ∧ db'.tier3.map (·.identity) = db.tier3.map (·.identity) ∧
      ∀ row ∈ db'.tier3, row ∈ db.tier3 ∨
        ∃ key ∈ keys, ∃ old ∈ db.tier3, RewrappedBy key old row := by
  induction keys generalizing db with
  | nil =>
    cases run
    exact ⟨rfl, rfl, fun row mem => .inl mem⟩
  | cons key _ ih =>
    obtain ⟨-, restRun⟩ := require_bind_eq_ok.mp run
    obtain ⟨masters, identities, rows⟩ := ih _ restRun
    have kept : (updateTier3Wrapping db key).1.tier3.map (·.identity) =
        db.tier3.map (·.identity) := map_updateWhere fun _ => rfl
    refine ⟨masters, identities.trans kept, ?_⟩
    intro row mem
    rcases rows row mem with unchanged | ⟨later, laterMember, mid, midMember, rewrapped⟩
    · rcases updateTier3Wrapping_rows unchanged with same | ⟨old, oldMember, rewrapped⟩
      · exact .inl same
      · exact .inr ⟨key, by simp, old, oldMember, rewrapped⟩
    right
    rcases updateTier3Wrapping_rows midMember with same | ⟨old, oldMember, first⟩
    · exact ⟨later, by simp [laterMember], mid, same, rewrapped⟩
    -- The later update overwrites what the first one wrote.
    have idEq : mid.id = old.id := congrArg Prod.fst first.identity
    have versionEq : mid.version = old.version :=
      congrArg (fun columns => columns.2.2.1) first.identity
    refine ⟨later, by simp [laterMember], old, oldMember, ?_⟩
    exact ⟨rewrapped.identity.trans first.identity, idEq.symm.trans rewrapped.id,
      versionEq.symm.trans rewrapped.version, rewrapped.blob, rewrapped.masterKeyVersion⟩

structure RotatesMaster (db db' : KeyDB) (newMaster : MasterWrapper) (rewrapped : List Tier3Key) :
    Prop where
  before : ∃ master, db.activeMasters = [master] ∧ newMaster.version = master.version + 1
  after : db'.activeMasters = [{ newMaster with state := .active }]
  wrappers : db'.masters.map (·.toMasterWrapper) = db.masters.map (·.toMasterWrapper) ++ [newMaster]
  identities : db'.tier3.map (·.identity) = db.tier3.map (·.identity)
  rows : ∀ row ∈ db'.tier3, row ∈ db.tier3 ∨
    ∃ key ∈ rewrapped, ∃ old ∈ db.tier3, RewrappedBy key old row
  openable : ∀ row ∈ db'.tier3, row.Openable → row.masterKeyVersion = newMaster.version

theorem rotateMasterKey_ok {newMaster : MasterWrapper} {rewrapped : List Tier3Key}
    (run : rotateMasterKey db newMaster rewrapped = .ok db') :
    RotatesMaster db db' newMaster rewrapped := by
  unfold rotateMasterKey at run
  split at run
  · rename_i master single
    obtain ⟨successor, run⟩ := require_bind_eq_ok.mp run
    obtain ⟨-, run⟩ := require_bind_eq_ok.mp run
    obtain ⟨_, insertRun, run⟩ := bind_eq_ok.mp run
    obtain ⟨_, rewrapRun, run⟩ := bind_eq_ok.mp run
    obtain ⟨zero, run⟩ := require_bind_eq_ok.mp run
    cases run
    obtain ⟨rfl, -⟩ := insertMasterRow_ok insertRun
    obtain ⟨masters, identities, rows⟩ := rewrapAll_ok rewrapped _ _ rewrapRun
    have isActive : master.state = .active := by
      have listed : master ∈ db.activeMasters := by simp [single]
      exact (mem_activeMasters.mp listed).2
    have noneLeft : (retireMasterAtVersion db master.version).1.activeMasters = [] := by
      have perm := activeMasters_retireMasterWhere_perm db
        fun row => row.version = master.version ∧ row.state = .active
      rw [single] at perm
      simpa [isActive, retireMasterAtVersion] using perm
    have retired : (retireMasterAtVersion db master.version).1.masters.filter
        (fun row => row.state = .active) = [] := by
      have perm := activeMasters_perm (retireMasterAtVersion db master.version).1
      rw [noneLeft] at perm
      exact perm.symm.eq_nil
    refine ⟨⟨master, single, successor⟩, ?_, ?_, identities, rows, ?_⟩
    · rw [KeyDB.activeMasters, masters, filter_append, retired]
      rfl
    · rw [masters, map_append]
      congr 1
      exact map_updateWhere fun _ => rfl
    · intro row mem isOpenable
      by_contra different
      rw [KeyDB.countOpenableTier3NotAtMaster, countP_eq_zero] at zero
      exact zero row mem (by simp [isOpenable, different])
  · cases run

theorem rootKeyRotatePrepare_ok {newWrapper : MasterWrapper}
    (run : rootKeyRotatePrepare db newWrapper = .ok db') :
    ∃ master, db.activeMasters = [master] ∧ master.version = newWrapper.version ∧
      master.rootKeyEpoch + 1 = newWrapper.rootKeyEpoch ∧
      db' = { db with masters := db.masters ++ [{ newWrapper with state := .active }] } ∧
      db'.activeMasters = [{ newWrapper with state := .active }, master] := by
  unfold rootKeyRotatePrepare at run
  split at run
  · rename_i master single
    obtain ⟨⟨version, epoch⟩, run⟩ := require_bind_eq_ok.mp run
    obtain ⟨rfl, -⟩ := insertMasterRow_ok run
    refine ⟨master, single, version, epoch, rfl, ?_⟩
    have filtered : db.masters.filter (fun row => row.state = .active) = [master] := by
      have perm := activeMasters_perm db
      rw [single] at perm
      exact perm_singleton.mp perm.symm
    have older : ¬ NewerEpoch master { newWrapper with state := .active } := by
      simp only [NewerEpoch]
      omega
    rw [KeyDB.activeMasters, filter_append, filtered]
    simp [insertionSort, orderedInsert, older]
  · cases run

theorem rootKeyRotateFinalize_ok {epoch : Nat} (run : rootKeyRotateFinalize db = .ok (db', epoch)) :
    ∃ newer older, db.activeMasters = [newer, older] ∧ epoch = newer.rootKeyEpoch ∧
      db' = (retireMasterWrapper db older).1 ∧ db'.activeMasters = [newer] := by
  obtain ⟨-, run⟩ := require_bind_eq_ok.mp run
  split at run
  · rename_i newer older dual
    obtain ⟨once, run⟩ := require_bind_eq_ok.mp run
    obtain ⟨-, run⟩ := require_bind_eq_ok.mp run
    cases run
    refine ⟨newer, older, dual, rfl, rfl, ?_⟩
    have hitOlder : isActiveWrapper older older = true := by
      have listed : older ∈ db.activeMasters := by simp [dual]
      simp [isActiveWrapper, (mem_activeMasters.mp listed).2]
    -- The statement hit one row, and it hit `older`; so it did not hit `newer`.
    have missedNewer : isActiveWrapper older newer = false := by
      have count : db.masters.countP (isActiveWrapper older) = 1 := once
      rw [countP_masters_eq (by simp [isActiveWrapper]), dual] at count
      by_contra hit
      simp [hitOlder, Bool.eq_true_of_not_eq_false hit] at count
    have perm := activeMasters_retireMasterWhere_perm db (isActiveWrapper older)
    rw [dual] at perm
    simp only [filter, hitOlder, missedNewer, Bool.not_true, Bool.not_false] at perm
    exact perm_singleton.mp perm
  · cases run

end Hikyo.KeyHierarchy
