import Hikyo.KeyHierarchy.Invariant

/-!
# Root rotation

`run_finalize_keeps_verified_iff`: a root rotation is prepared, verified and then finalized, perhaps
by several processes at once; a finalize keeps the wrapper that its process verified exactly if it
is still the newest one.  The transaction does not refer to the epoch that was verified
(`finalizedInBetween_retires_verified`).
-/

namespace Hikyo.KeyHierarchy

open Hikyo.Lib

/-- Once created, the hierarchy has one or two active wrappers, all of one version. -/
def WrappersOfOneVersion (db : KeyDB) : Prop :=
  db.masters = [] ∨ ∃ version, (db.activeMasters.length = 1 ∨ db.activeMasters.length = 2) ∧
    ∀ row ∈ db.activeMasters, row.version = version

theorem wrappersOfOneVersion_of_coherent {s : System} (coherent : Coherent s) :
    WrappersOfOneVersion s.db := by
  rcases coherent with fresh | ⟨version, _, created⟩
  · exact .inl fresh.masters
  refine .inr ⟨version, ?_, fun row mem => liveMaster_version created.live mem⟩
  have positive := List.length_pos_iff.mpr created.live.present
  have bounded := created.live.atMostTwo
  omega

theorem newestWrapper_mem (newest : MasterRow) (rest : List MasterRow) :
    newestWrapper newest rest ∈ newest :: rest := by
  induction rest generalizing newest with
  | nil => exact .head _
  | cons wrapper _ ih =>
    have mem := ih (if wrapper.rootKeyEpoch > newest.rootKeyEpoch then wrapper else newest)
    simp only [newestWrapper]
    split at mem
    · rename_i newer
      rw [if_pos newer]
      exact .tail _ mem
    rename_i older
    rw [if_neg older]
    rcases List.mem_cons.mp mem with same | later
    · rw [same]
      exact .head _
    · exact .tail _ (.tail _ later)

theorem verifyRootKeyRotation_ok {db : KeyDB} {m : MasterSet} {primaryRoot : KeyBytes}
    {newest : MasterRow} (run : verifyRootKeyRotation db m primaryRoot = .ok newest) :
    newest ∈ db.activeMasters ∧ (openMaster primaryRoot newest.toMasterWrapper).isSome := by
  unfold verifyRootKeyRotation at run
  split at run
  · rename_i first second rest actives
    obtain ⟨⟨-, _, opened, -⟩, run⟩ := require_bind_eq_ok.mp run
    cases run
    refine ⟨?_, Option.isSome_of_mem opened⟩
    rw [actives]
    exact newestWrapper_mem first (second :: rest)
  · cases run

def VerifiedOpens : ProcState → Prop
  | .up _ (some (.rootVerified primaryRoot verified)) => (openMaster primaryRoot verified).isSome
  | _ => True

theorem move_verifiedOpens {db : KeyDB} {state state' : ProcState} (opens : VerifiedOpens state)
    (move : Move db state state') : VerifiedOpens state' := by
  cases move with
  | same => exact opens
  | cache _ _ rotation =>
    cases rotation with
    | none => trivial
    | some rotation => cases rotation <;> exact opens
  | verifyRoot verified => exact (verifyRootKeyRotation_ok verified).2
  | _ => trivial

theorem step_verifiedOpens (s : System) (a : Action) (s' : System)
    (opens : ∀ p, VerifiedOpens (s.procs p)) (taken : step s a = some s') :
    ∀ p, VerifiedOpens (s'.procs p) := by
  cases step_effect taken with
  | memory p _ _ procs move =>
    rw [procs]
    exact procs_update opens (move_verifiedOpens (opens p) move)
  | createHierarchy _ _ procs | rotateMaster _ _ procs | rootPrepare _ _ procs
  | rootFinalize _ _ procs =>
    rw [procs]
    exact procs_update opens trivial
  | queue _ procs | drop _ procs | commitTier3 _ _ procs | retireRetiring _ procs
  | setBlockers _ _ procs =>
    exact procs ▸ opens

def IsNewest (db : KeyDB) (wrapper : MasterWrapper) : Prop :=
  db.activeMasters.head?.map (·.toMasterWrapper) = some wrapper

instance (db : KeyDB) (wrapper : MasterWrapper) : Decidable (IsNewest db wrapper) := by
  unfold IsNewest
  infer_instance

def IsActiveWrapper (db : KeyDB) (wrapper : MasterWrapper) : Prop :=
  ∃ row ∈ db.masters, row.state = .active ∧ row.toMasterWrapper = wrapper

instance (db : KeyDB) (wrapper : MasterWrapper) : Decidable (IsActiveWrapper db wrapper) := by
  unfold IsActiveWrapper
  infer_instance

theorem rootKeyRotateFinalize_keeps_iff {db db' : KeyDB} {epoch : Nat} (wrapper : MasterWrapper)
    (committed : rootKeyRotateFinalize db = .ok (db', epoch)) :
    IsActiveWrapper db' wrapper ↔ IsNewest db wrapper := by
  obtain ⟨newer, _, dual, -, -, single⟩ := rootKeyRotateFinalize_ok committed
  have newest : IsNewest db wrapper ↔ newer.toMasterWrapper = wrapper := by
    simp [IsNewest, dual]
  rw [newest]
  constructor
  · rintro ⟨_, mem, active, rfl⟩
    rw [eq_of_activeMasters_singleton single mem active]
  intro same
  have listed : newer ∈ db'.activeMasters := by simp [single]
  have columns := mem_activeMasters.mp listed
  exact ⟨newer, columns.1, columns.2, same⟩

/-- A finalize keeps the verified wrapper exactly when it is still the newest. -/
theorem run_finalize_keeps_verified_iff (actions : List Action) :
    WrappersOfOneVersion (run .initial actions).db ∧
      ∀ p k primaryRoot verified db' epoch,
        (run .initial actions).procs p = .up k (some (.rootVerified primaryRoot verified)) →
        rootKeyRotateFinalize (run .initial actions).db = .ok (db', epoch) →
          (openMaster primaryRoot verified).isSome ∧
            (IsActiveWrapper db' verified ↔ IsNewest (run .initial actions).db verified) := by
  refine ⟨wrappersOfOneVersion_of_coherent (run_coherent actions), ?_⟩
  intro p _ _ verified _ epoch prepared committed
  have opens : ∀ p, VerifiedOpens ((run .initial actions).procs p) :=
    runFrom_invariant step (fun s => ∀ p, VerifiedOpens (s.procs p)) step_verifiedOpens actions
      .initial fun _ => trivial
  have mine := opens p
  rw [prepared] at mine
  exact ⟨mine, rootKeyRotateFinalize_keeps_iff verified committed⟩

/-- Two booted processes; the first prepared root 8 at epoch 2 and both verified it. -/
def verifiedByBoth : List Action :=
  [.mint 0 7 100 (1, 101) (2, 102) (3, 103), .commitHierarchy 0, .loadMaster 1 7, .loadInstance 1,
    .loadToken 1, .loadScanning 1, .prepareRoot 0 8, .commitRootPrepare 0, .verifyRoot 0 8,
    .verifyRoot 1 8]

theorem verifiedByBoth_keeps_verified :
    ∃ db' epoch, rootKeyRotateFinalize (run .initial verifiedByBoth).db = .ok (db', epoch) ∧
      IsActiveWrapper db' (wrapMaster 8 1 2 100) :=
  ⟨_, _, rfl, ((run_finalize_keeps_verified_iff verifiedByBoth).2 0 _ 8 (wrapMaster 8 1 2 100) _ _
    rfl rfl).2.mpr (by decide)⟩

/-- The second finalizes and prepares root 9 before the first finalizes. -/
def finalizedInBetween : List Action :=
  verifiedByBoth ++ [.commitRootFinalize 1, .prepareRoot 1 9, .commitRootPrepare 1]

def ProcState.rotation : ProcState → Option HierarchyRotation
  | .up _ rotation => rotation
  | _ => none

theorem finalizedInBetween_retires_verified :
    ((run .initial finalizedInBetween).procs 0).rotation =
        some (.rootVerified 8 (wrapMaster 8 1 2 100)) ∧
      IsActiveWrapper (run .initial finalizedInBetween).db (wrapMaster 8 1 2 100) ∧
      ¬ IsActiveWrapper (run .initial (finalizedInBetween ++ [.commitRootFinalize 0])).db
        (wrapMaster 8 1 2 100) := by
  decide

end Hikyo.KeyHierarchy
