import Hikyo.KeyHierarchy.StoreSpec
import Hikyo.KeyHierarchy.Inversion

/-!
# Which DEK versions stay openable

The versions of a data encryption key that are active or retiring are covered, that is, a record
sealed under one can be opened.  `step_keepsCovered`: no action of the key store takes a covered
version away but the retirement of its scope, and `covered_retireRetiringTier3` says what that
leaves.
-/

namespace Hikyo.KeyHierarchy

open Hikyo.Lib

def Covered (db : KeyDB) (scope : Scope) (version : Nat) : Prop :=
  ∃ row ∈ db.tier3, row.scope = scope ∧ row.version = version ∧ row.Openable

instance (db : KeyDB) (scope : Scope) (version : Nat) : Decidable (Covered db scope version) := by
  unfold Covered
  infer_instance

def Scope.SealsFields (scope : Scope) : Prop :=
  scope.purpose = .project ∨ scope.purpose = .instanceScope

def KeepsCovered (db db' : KeyDB) : Prop :=
  ∀ scope : Scope, scope.SealsFields → ∀ version, Covered db scope version →
    Covered db' scope version

variable {db db' : KeyDB} {key : Tier3Key}

theorem KeepsCovered.of_tier3_eq (same : db'.tier3 = db.tier3) : KeepsCovered db db' := by
  intro _ _ _ covered
  unfold Covered at covered ⊢
  rwa [same]

theorem KeepsCovered.trans {a b c : KeyDB} (first : KeepsCovered a b) (second : KeepsCovered b c) :
    KeepsCovered a c :=
  fun scope seals version covered => second scope seals version (first scope seals version covered)

theorem covered_of_identities
    (same : db'.tier3.map (·.identity) = db.tier3.map (·.identity)) : KeepsCovered db db' := by
  rintro scope - version ⟨row, mem, inScope, atVersion, isOpenable⟩
  have listed : row.identity ∈ db.tier3.map (·.identity) := List.mem_map_of_mem mem
  rw [← same] at listed
  obtain ⟨moved, movedMember, identity⟩ := List.mem_map.mp listed
  simp only [Tier3Row.identity, Prod.mk.injEq] at identity
  refine ⟨moved, movedMember, identity.2.1.trans inScope, identity.2.2.1.trans atVersion, ?_⟩
  unfold Tier3Row.Openable at isOpenable ⊢
  rwa [identity.2.2.2]

theorem covered_insertTier3Row (run : insertTier3Row db key = .ok db') : KeepsCovered db db' := by
  obtain ⟨rfl, -⟩ := insertTier3Row_ok run
  rintro scope - version ⟨row, mem, columns⟩
  exact ⟨row, List.mem_append_left _ mem, columns⟩

theorem covered_moveActiveTier3 {state : KeyState} {moved : Scope} {version : Int}
    (keeps : state = .retiring ∨ ¬ moved.SealsFields) :
    KeepsCovered db (moveActiveTier3 state db moved version).1 := by
  rintro scope seals v ⟨row, mem, inScope, atVersion, isOpenable⟩
  by_cases hit : atActiveVersion moved version row = true
  · have moves : ({ row with state } : Tier3Row) ∈
        (moveActiveTier3 state db moved version).1.tier3 :=
      mem_updateWhere.mpr (.inl ⟨row, mem, hit, rfl⟩)
    refine ⟨_, moves, inScope, atVersion, .inr ?_⟩
    rcases keeps with retiring | elsewhere
    · exact retiring
    simp only [atActiveVersion, decide_eq_true_eq] at hit
    rw [← hit.1, inScope] at elsewhere
    exact absurd seals elsewhere
  · refine ⟨row, ?_, inScope, atVersion, isOpenable⟩
    exact mem_updateWhere.mpr (.inr ⟨mem, Bool.eq_false_of_not_eq_true hit⟩)

theorem covered_insertWithGeneration (run : insertWithGeneration db key = .ok db') :
    KeepsCovered db db' := by
  obtain ⟨_, insertRun, scopeRun⟩ := bind_eq_ok.mp run
  obtain ⟨-, rfl⟩ := insertScopeGenerationRow_ok scopeRun
  exact (covered_insertTier3Row insertRun).trans (.of_tier3_eq rfl)

theorem covered_insertAllWithGeneration (keys : List Tier3Key) (db db' : KeyDB)
    (run : insertAllWithGeneration db keys = .ok db') : KeepsCovered db db' := by
  induction keys generalizing db with
  | nil =>
    cases run
    exact .of_tier3_eq rfl
  | cons _ _ ih =>
    obtain ⟨inserted, insertRun, restRun⟩ := bind_eq_ok.mp run
    exact (covered_insertWithGeneration insertRun).trans (ih inserted restRun)

theorem covered_rotateRootScopedTier3 {purpose : Purpose}
    (elsewhere : ¬ (⟨purpose, "", ""⟩ : Scope).SealsFields)
    (run : rotateRootScopedTier3 db key purpose = .ok db') : KeepsCovered db db' := by
  obtain ⟨-, insertRun⟩ := require_bind_eq_ok.mp run
  exact (covered_moveActiveTier3 (.inr elsewhere)).trans (covered_insertTier3Row insertRun)

theorem covered_rotateDEK (run : rotateDEK db key = .ok db') : KeepsCovered db db' := by
  obtain ⟨-, run⟩ := require_bind_eq_ok.mp run
  obtain ⟨_, -, run⟩ := bind_eq_ok.mp run
  obtain ⟨-, insertRun⟩ := require_bind_eq_ok.mp run
  exact (covered_moveActiveTier3 (.inl rfl)).trans (covered_insertTier3Row insertRun)

theorem covered_createTier3 (run : createTier3 db key = .ok db') : KeepsCovered db db' := by
  obtain ⟨_, -, insertRun⟩ := bind_eq_ok.mp run
  exact covered_insertWithGeneration insertRun

theorem covered_commitTier3Op {op : Tier3Op} (run : commitTier3Op db op = .ok db') :
    KeepsCovered db db' := by
  cases op with
  | create => exact covered_createTier3 run
  | initialProjectDEK =>
    obtain ⟨-, run⟩ := require_bind_eq_ok.mp run
    exact covered_createTier3 run
  | rotateDEK => exact covered_rotateDEK run
  | rotateTokenKey | rotateScanningKey =>
      exact covered_rotateRootScopedTier3 (by simp [Scope.SealsFields]) run

theorem step_keepsCovered {s s' : System} {a : Action} (taken : step s a = some s')
    (notRetire : ∀ scope, a ≠ .retireRetiring scope) : KeepsCovered s.db s'.db := by
  cases step_effect taken with
  | memory _ _ db | queue db | drop db => exact .of_tier3_eq (by rw [db])
  | commitTier3 _ db => exact covered_commitTier3Op db
  | createHierarchy _ db =>
    obtain ⟨inserted, insertRun, restRun⟩ := bind_eq_ok.mp db
    obtain ⟨dbEq, -⟩ := insertMasterRow_ok insertRun
    have masterOnly : KeepsCovered s.db inserted := .of_tier3_eq (by rw [dbEq])
    exact masterOnly.trans (covered_insertAllWithGeneration _ _ _ restRun)
  | rotateMaster _ db =>
    exact covered_of_identities (rotateMasterKey_ok db).identities
  | rootPrepare _ db =>
    obtain ⟨_, -, -, -, dbEq, -⟩ := rootKeyRotatePrepare_ok db
    exact .of_tier3_eq (by rw [dbEq])
  | rootFinalize _ db =>
    obtain ⟨_, _, -, -, dbEq, -⟩ := rootKeyRotateFinalize_ok db
    exact .of_tier3_eq (by rw [dbEq]; rfl)
  | retireRetiring => exact absurd rfl (notRetire _)
  | setBlockers _ tier3 => exact .of_tier3_eq tier3

theorem covered_retireRetiringTier3 {scope : Scope} {count : Nat}
    (run : retireRetiringTier3 db scope = .ok (db', count)) :
    (∀ other version, other ≠ scope → Covered db other version → Covered db' other version) ∧
      ∀ row ∈ db.tier3, row.scope = scope → row.state = .active →
        Covered db' scope row.version := by
  obtain ⟨-, run⟩ := require_bind_eq_ok.mp run
  have dbEq : (retireRetiringTier3ForScope db scope).1 = db' :=
    congrArg Prod.fst (Except.ok.inj run)
  subst db'
  constructor
  · rintro other version different ⟨row, mem, inScope, atVersion, isOpenable⟩
    have missed : row.scope ≠ scope := by rw [inScope]; exact different
    exact ⟨row, mem_updateWhere.mpr (.inr ⟨mem, by simp [missed]⟩), inScope, atVersion,
      isOpenable⟩
  intro row mem inScope active
  exact ⟨row, mem_updateWhere.mpr (.inr ⟨mem, by simp [active]⟩), inScope, rfl,
    Or.inl active⟩

end Hikyo.KeyHierarchy
