import Hikyo.Access.Release

/-!
# What the writers change

What each writer does to the keys of the grant rows (who holds what, apart from the origins), as one
inversion lemma for each; `Surroundings` is the rest of the tables, which no writer touches.
`writeGrantRowState_eq_ok`, `cureIfMemberManagement_eq_ok` and `grantOne_eq_ok` are the ones that
the invariants use.
-/

namespace Hikyo.Access

open Hikyo.Lib List

variable {capability : Capability} {g : Grant} {result : GrantResult} {origin : Origin}
  {p : PrincipalID} {target : Scope}

structure GrantKey where
  id : GrantID
  principal : PrincipalID
  grant : Grant

def GrantRow.key (row : GrantRow) : GrantKey := ⟨row.id, row.principal, row.grant⟩

def Db.keys (db : Db) : List GrantKey := db.grants.map GrantRow.key

/-- Everything but the grants, the sessions and the session generations. -/
structure Surroundings where
  orgs : List OrgID
  projects : List Project
  environments : List Environment
  people : List Principal
  accounts : List Account
  serviceAccounts : List ServiceAccount
  pins : List WorkloadPin
  selfConfigOrg : Option OrgID
  restoreEpoch : Nat

def Principal.ungenerated (row : Principal) : Principal := { row with generation := 0 }

def Db.surroundings (db : Db) : Surroundings where
  orgs := db.orgs
  projects := db.projects
  environments := db.environments
  people := db.principals.map Principal.ungenerated
  accounts := db.accounts
  serviceAccounts := db.serviceAccounts
  pins := db.pins
  selfConfigOrg := db.selfConfigOrg
  restoreEpoch := db.restoreEpoch

section Writes
variable (db : Db)

@[simp] theorem setOrigins_keys (id : GrantID) (change : List Origin → List Origin) :
    (db.setOrigins id change).keys = db.keys := by
  simp only [Db.keys, Db.setOrigins, map_map]
  refine map_congr_left fun row _ => ?_
  by_cases same : row.id = id <;> simp [GrantRow.key, same]

@[simp] theorem addGrantOrigin_keys (id : GrantID) (origin : Origin) :
    (db.addGrantOrigin id origin).keys = db.keys :=
  setOrigins_keys db id _

@[simp] theorem releaseGrantOrigin_keys (id : GrantID) (origin : Origin) :
    (db.releaseGrantOrigin id origin).keys = db.keys :=
  setOrigins_keys db id _

@[simp] theorem createGrant_keys (target : PrincipalID) (grant : Grant) :
    (db.createGrant target grant).keys = db.keys ++ [⟨db.nextGrant, target, grant⟩] := by
  simp [Db.keys, Db.createGrant, GrantRow.key]

@[simp] theorem deleteGrantRow_keys (id : GrantID) : (db.deleteGrantRow id).keys = db.keys.filter
    (·.id ≠ id) := by
  simp only [Db.keys, Db.deleteGrantRow, filter_map]
  rfl

@[simp] theorem invalidateGrantChange_keys (p : PrincipalID) :
    (db.invalidateGrantChange p).keys = db.keys := rfl

@[simp] theorem setOrigins_surroundings (id : GrantID) (change : List Origin → List Origin) :
    (db.setOrigins id change).surroundings = db.surroundings := rfl

@[simp] theorem addGrantOrigin_surroundings (id : GrantID) (origin : Origin) :
    (db.addGrantOrigin id origin).surroundings = db.surroundings := rfl

@[simp] theorem releaseGrantOrigin_surroundings (id : GrantID) (origin : Origin) :
    (db.releaseGrantOrigin id origin).surroundings = db.surroundings := rfl

@[simp] theorem createGrant_surroundings (target : PrincipalID) (grant : Grant) :
    (db.createGrant target grant).surroundings = db.surroundings := rfl

@[simp] theorem deleteGrantRow_surroundings (id : GrantID) :
    (db.deleteGrantRow id).surroundings = db.surroundings := rfl

@[simp] theorem invalidateGrantChange_surroundings (p : PrincipalID) :
    (db.invalidateGrantChange p).surroundings = db.surroundings := by
  have same : (db.invalidateGrantChange p).principals.map Principal.ungenerated =
      db.principals.map Principal.ungenerated := by
    simp only [Db.invalidateGrantChange, Db.advanceGeneration, Db.revokeAllSessionsFor, map_map]
    refine map_congr_left fun row _ => ?_
    by_cases target : row.id = p <;> simp [Principal.ungenerated, target]
  unfold Db.surroundings
  rw [same]
  rfl

end Writes

section Reads
variable {db other : Db}

theorem mem_keys {key : GrantKey} : key ∈ db.keys ↔ ∃ row ∈ db.grants, row.key = key := by
  simp [Db.keys]

theorem holds_iff : holds (db.grantRowsForPrincipal p) capability target = true ↔
      ∃ key ∈ db.keys, key.principal = p ∧ key.grant.capability = capability ∧
        covers key.grant.scope target = true := by
  simp only [holds, scopeCovers, Db.grantRowsForPrincipal, any_eq_true, mem_filter,
    Bool.and_eq_true, beq_iff_eq, mem_keys]
  constructor
  · rintro ⟨row, ⟨mem, mine⟩, same, above⟩
    exact ⟨row.key, ⟨row, mem, rfl⟩, mine, same, above⟩
  · rintro ⟨_, ⟨row, mem, rfl⟩, mine, same, above⟩
    exact ⟨row, ⟨mem, mine⟩, same, above⟩

theorem mayGrantUnheld_iff : mayGrantUnheld (db.grantRowsForPrincipal p) target = true ↔
      ∃ key ∈ db.keys, key.principal = p ∧ key.grant.capability = .manageMembers ∧
        (key.grant.scope.org = none ∨ key.grant.scope.project = none ∧
          key.grant.scope.org = target.org) := by
  simp only [mayGrantUnheld, Db.grantRowsForPrincipal, any_eq_true, mem_filter, Bool.and_eq_true,
    Bool.or_eq_true, beq_iff_eq, mem_keys]
  constructor
  · rintro ⟨row, ⟨mem, mine⟩, same, place⟩
    exact ⟨row.key, ⟨row, mem, rfl⟩, mine, same, place⟩
  · rintro ⟨_, ⟨row, mem, rfl⟩, mine, same, place⟩
    exact ⟨row, ⟨mem, mine⟩, same, place⟩

theorem mem_grantsOf :
    g ∈ db.grantsOf p ↔ db.rowsInForce p = true ∧ ∃ key ∈ db.keys, key.principal = p ∧
      key.grant = g := by
  unfold Db.grantsOf
  split
  · rename_i inForce
    simp only [inForce, true_and, Db.grantRowsForPrincipal, mem_map, mem_filter,
      beq_iff_eq, mem_keys]
    constructor
    · rintro ⟨row, ⟨mem, mine⟩, same⟩
      exact ⟨row.key, ⟨row, mem, rfl⟩, mine, same⟩
    · rintro ⟨_, ⟨row, mem, rfl⟩, mine, same⟩
      exact ⟨row, ⟨mem, mine⟩, same⟩
  · rename_i notInForce
    simp [notInForce]

theorem any_people (test : Principal → Bool) (ignores : ∀ row, test row.ungenerated = test row) :
    db.principals.any test = db.surroundings.people.any test := by
  simp only [Db.surroundings, any_map]
  congr 1
  funext row
  exact (ignores row).symm

section
variable (same : other.surroundings = db.surroundings)
include same

theorem rowsInForce_congr (p : PrincipalID) : other.rowsInForce p = db.rowsInForce p := by
  have epoch : other.restoreEpoch = db.restoreEpoch := congrArg Surroundings.restoreEpoch same
  unfold Db.rowsInForce
  rw [epoch, any_people _ (fun _ => rfl), same, ← any_people _ (fun _ => rfl)]

theorem isActive_congr (p : PrincipalID) : other.isActive p = db.isActive p := by
  unfold Db.isActive
  rw [any_people _ (fun _ => rfl), same, ← any_people _ (fun _ => rfl)]

def Db.classOf (db : Db) (p : PrincipalID) : Option (Option PrincipalClass) :=
  (db.principal? p).map (·.class_)

theorem classOf_congr (p : PrincipalID) : other.classOf p = db.classOf p := by
  have read : ∀ state : Db, state.classOf p = (state.surroundings.people.find? (·.id == p)).map
      (·.class_) := by
    intro _
    simp only [Db.classOf, Db.principal?, Db.surroundings, find?_map, Option.map_map]
    rfl
  rw [read, read, same]

theorem environmentsInProject_congr (org : OrgID)
    (project : ProjectID) : other.environmentsInProject org project =
      db.environmentsInProject org project := by
  unfold Db.environmentsInProject
  rw [show other.environments = db.environments from congrArg Surroundings.environments same]

theorem grantsOf_mono
    (kept : ∀ key ∈ other.keys, ∃ key' ∈ db.keys, key'.principal = key.principal ∧
      key'.grant = key.grant) (held : g ∈ other.grantsOf p) : g ∈ db.grantsOf p := by
  obtain ⟨inForce, key, mem, mine, grant⟩ := mem_grantsOf.mp held
  obtain ⟨key', mem', samePrincipal, sameGrant⟩ := kept key mem
  rw [rowsInForce_congr same] at inForce
  exact mem_grantsOf.mpr ⟨inForce, key', mem', samePrincipal.trans mine, sameGrant.trans grant⟩

end

end Reads

section Surface
variable {db db' : Db} {scope : Scope}

theorem foldl_release_eq (id : GrantID) (origins : List Origin) (db : Db) :
    origins.foldl (fun db origin => db.releaseGrantOrigin id origin) db = db.setOrigins id
      (·.filter (· ∉ origins)) := by
  induction origins generalizing db with
  | nil => simp [Db.setOrigins]
  | cons _ _ ih =>
    rw [foldl_cons, ih]
    simp only [Db.releaseGrantOrigin, Db.setOrigins, map_map, Db.mk.injEq, true_and, and_true]
    refine map_congr_left fun row _ => ?_
    by_cases named : row.id = id
    · simp [named, filter_filter, Bool.and_comm]
    · simp [named]

theorem findGrant_some {row : GrantRow}
    (found : findGrant (db.grantRowsForPrincipal p) capability scope = some row) :
    row ∈ db.grants ∧ row.principal = p ∧ row.grant = ⟨capability, scope⟩ := by
  have test := find?_some found
  have mem := mem_of_find?_eq_some found
  simp only [Bool.and_eq_true, beq_iff_eq, decide_eq_true_eq] at test
  simp only [Db.grantRowsForPrincipal, mem_filter, beq_iff_eq] at mem
  refine ⟨mem.1, mem.2, ?_⟩
  rw [← test.1, ← test.2]

/-- A write adds an origin to a row that already says the same, or one row. -/
theorem writeGrantRowState_eq_ok {spec : GrantSpec}
    (run : writeGrantRowState db spec origin = .ok (db', result)) :
    (∃ existing ∈ db.grants, existing.principal = spec.target ∧
        existing.grant = ⟨spec.capability, spec.scope⟩ ∧
        result.outcome ≠ .created ∧ (db' = db ∨ db' = db.addGrantOrigin existing.id origin)) ∨
      findGrant (db.grantRowsForPrincipal spec.target) spec.capability spec.scope = none ∧
        result.outcome = .created ∧
        db' = (db.createGrant spec.target ⟨spec.capability, spec.scope⟩).addGrantOrigin
          db.nextGrant origin := by
  unfold writeGrantRowState at run
  split at run
  · rename_i existing found
    obtain ⟨mem, mine, grant⟩ := findGrant_some found
    split at run
    · cases run
      exact .inl ⟨existing, mem, mine, grant, nofun, .inl rfl⟩
    · cases run
      exact .inl ⟨existing, mem, mine, grant, nofun, .inr rfl⟩
  rename_i isNew
  obtain ⟨_, _, written⟩ := bind_eq_ok.mp run
  cases written
  exact .inr ⟨isNew, rfl, rfl⟩

theorem writeGrantRowState_effect {spec : GrantSpec}
    (run : writeGrantRowState db spec origin = .ok (db', result)) :
    db'.surroundings = db.surroundings ∧ (result.outcome ≠ .created ∧ db'.keys = db.keys ∧
        (∃ key ∈ db.keys, key.principal = spec.target ∧ key.grant = ⟨spec.capability, spec.scope⟩) ∨
      result.outcome = .created ∧
        db'.keys = db.keys ++ [⟨db.nextGrant, spec.target, ⟨spec.capability, spec.scope⟩⟩]) := by
  obtain ⟨existing, mem, mine, grant, old, rfl | rfl⟩ | ⟨-, isNew, rfl⟩ :=
    writeGrantRowState_eq_ok run
  · exact ⟨rfl, .inl ⟨old, rfl, existing.key, mem_keys.mpr ⟨existing, mem, rfl⟩, mine, grant⟩⟩
  · refine ⟨rfl, .inl ⟨old, addGrantOrigin_keys _ _ _, existing.key, ?_, mine, grant⟩⟩
    exact mem_keys.mpr ⟨existing, mem, rfl⟩
  · exact ⟨rfl, .inr ⟨isNew, by simp⟩⟩

theorem cureRetention_effect (db : Db) (retention : LockoutRetention) :
    (cureRetention db retention).surroundings =
      db.surroundings ∧ ((cureRetention db retention).keys = db.keys ∨
      remainingMemberManagers db retention.principal retention.scope ≠ 0 ∧
        (cureRetention db retention).keys = db.keys.filter (·.id ≠ retention.id)) := by
  unfold cureRetention
  dsimp only
  split
  · exact ⟨rfl, .inl rfl⟩
  rename_i someone
  split
  · exact ⟨rfl, .inl rfl⟩
  split
  · exact ⟨rfl, .inl rfl⟩
  split
  · exact ⟨by simp, .inr ⟨someone, by simp⟩⟩
  · exact ⟨by simp, .inl (by simp)⟩

theorem foldl_cure_effect (retentions : List LockoutRetention) (db : Db) :
    (retentions.foldl cureRetention db).surroundings = db.surroundings ∧
      (retentions.foldl cureRetention db).keys.Sublist db.keys := by
  induction retentions generalizing db with
  | nil => exact ⟨rfl, List.Sublist.refl _⟩
  | cons retention _ ih =>
    obtain ⟨same, keys⟩ := cureRetention_effect db retention
    obtain ⟨sameRest, sublist⟩ := ih (cureRetention db retention)
    refine ⟨sameRest.trans same, sublist.trans ?_⟩
    rcases keys with keys | ⟨_, keys⟩
    · rw [keys]
    · rw [keys]
      exact filter_sublist

theorem cureIfMemberManagement_eq_ok
    (run : cureIfMemberManagement db capability scope result = .ok db') :
    ∃ cured : List LockoutRetention,
      (∀ retention ∈ cured, ∃ row ∈ db.grants, retention ∈ retentionsOf row) ∧
      db' = cured.foldl cureRetention db := by
  unfold cureIfMemberManagement at run
  split at run
  · unfold cureLockoutRetentions at run
    split at run
    · cases run
    · cases run
      exact ⟨lockoutRetentions db, fun retention mem => mem_flatMap.mp mem, rfl⟩
    · cases run
      refine ⟨_, fun retention mem => ?_, rfl⟩
      split at mem
      · cases mem
      · obtain ⟨row, stored, inRow⟩ := mem_flatMap.mp mem
        exact ⟨row, mem_of_mem_filter stored, inRow⟩
    · cases run
      exact ⟨[], nofun, rfl⟩
    · cases run
      exact ⟨[], nofun, rfl⟩
  · cases run
    exact ⟨[], nofun, rfl⟩

theorem cureIfMemberManagement_effect
    (run : cureIfMemberManagement db capability scope result = .ok db') :
    db'.surroundings = db.surroundings ∧ db'.keys.Sublist db.keys := by
  obtain ⟨cured, -, rfl⟩ := cureIfMemberManagement_eq_ok run
  exact foldl_cure_effect cured db

variable {W : Type} {consume : W → Option SessionID → EnvID → Time → Option W} {contract : Contract}
  {st st' : State W}

structure Granted (consume : W → Option SessionID → EnvID → Time → Option W) (st st' : State W)
    (caller : Identity) (spec : GrantSpec) (now : Time) : Prop where
  surroundings : st'.db.surroundings = st.db.surroundings
  keys : st'.db.keys = st.db.keys ∧ (∃ key ∈ st.db.keys, key.principal = spec.target ∧
        key.grant = ⟨spec.capability, spec.scope⟩) ∨
    st'.db.keys = st.db.keys ++ [⟨st.db.nextGrant, spec.target, ⟨spec.capability, spec.scope⟩⟩]
  entitled : holds (st.db.grantRowsForPrincipal caller.principal) spec.capability spec.scope =
    true ∨
    mayGrantUnheld (st.db.grantRowsForPrincipal caller.principal) spec.scope = true
  classified : ∃ class_, lockAndClassify st.db now spec.target spec.capability spec.scope =
    .ok class_ ∧
    checkMachineWidening consume st caller (st.db.grantRowsForPrincipal caller.principal)
      spec class_ now =
      .ok st'.windows

section Grant
variable {caller : Identity} {spec : GrantSpec} {level : Level} {now : Time} {invalidate : Bool}

section
variable (run : grantOneWithInvalidation consume st caller spec level now invalidate =
  .ok (st', result))
include run

theorem grantOne_eq_ok :
      ∃ class_ db, lockAndClassify st.db now spec.target spec.capability spec.scope = .ok class_ ∧
      (holds (st.db.grantRowsForPrincipal caller.principal) spec.capability spec.scope = true ∨
        mayGrantUnheld (st.db.grantRowsForPrincipal caller.principal) spec.scope = true) ∧
      checkMachineWidening consume st caller
        (st.db.grantRowsForPrincipal caller.principal) spec class_ now =
        .ok st'.windows ∧
      writeGrantRowState st.db spec (.manual caller.principal) = .ok (db, result) ∧
      st'.db = if invalidate ∧ result.outcome = .created then db.invalidateGrantChange spec.target
        else db := by
  obtain ⟨_, _, run⟩ := bind_eq_ok.mp run
  obtain ⟨class_, classified, run⟩ := bind_eq_ok.mp run
  obtain ⟨entitled, run⟩ := require_bind_eq_ok.mp run
  obtain ⟨_, gate, run⟩ := bind_eq_ok.mp run
  obtain ⟨⟨db, _⟩, write, run⟩ := bind_eq_ok.mp run
  cases run
  exact ⟨class_, db, classified, entitled, gate, write, rfl⟩

theorem grantOne_effect : Granted consume st st' caller spec now := by
  obtain ⟨class_, db, classified, entitled, gate, write, after⟩ := grantOne_eq_ok run
  obtain ⟨same, keys⟩ := writeGrantRowState_effect write
  have settled : st'.db.surroundings = db.surroundings ∧ st'.db.keys = db.keys := by
    rw [after]
    split
    · exact ⟨invalidateGrantChange_surroundings _ _, rfl⟩
    · exact ⟨rfl, rfl⟩
  refine ⟨settled.1.trans same, ?_, entitled, class_, classified, gate⟩
  rw [settled.2]
  exact keys.imp And.right And.right

end

end Grant

end Surface

end Hikyo.Access
