import Hikyo.Access.Writes

/-!
# Each call as a sequence of writes

The calls of the access system as sequences of the single writes, each with the set of origins it
may add and the set it may drop: a grant adds one mintable origin, a release drops those it names
and may add a retention, and a cure drops retentions.  `writes_then_cure` puts a call and the cure
after it together.
-/

namespace Hikyo.Access

open Hikyo.Lib List

variable {db : Db} {id : GrantID} {result : GrantResult} {other row : GrantRow} {env : Option EnvID}
  {org : OrgID} {target : PrincipalID} {key : ScimOriginKey} {scope : Scope} {now : Time}

def Origin.isRetention : Origin → Bool
  | .lockoutRetention _ _ => true
  | _ => false

def noOrigin (_ : PrincipalID) (_ : Grant) (_ : Origin) : Prop := False

def retentions (_ : PrincipalID) (_ : Grant) (o : Origin) : Prop := o.isRetention = true

def exactly (spec : GrantSpec) (origin : Origin) (p : PrincipalID) (g : Grant) (o : Origin) :
    Prop :=
  p = spec.target ∧ g = ⟨spec.capability, spec.scope⟩ ∧ o = origin

section Release
variable {adds drops : PrincipalID → Grant → Origin → Prop}

theorem setOrigins_other {change : List Origin → List Origin}
    (stored : other ∈ db.grants) (elsewhere : other.id ≠ id) :
    other ∈ (db.setOrigins id change).grants :=
  mem_setOrigins.mpr ⟨other, stored, by simp [elsewhere]⟩

theorem setOrigins_named {change : List Origin → List Origin} (stored : row ∈ db.grants) :
    { row with origins := change row.origins } ∈ (db.setOrigins row.id change).grants :=
  mem_setOrigins.mpr ⟨row, stored, by simp⟩

theorem releaseGrantOrigin_named (stored : row ∈ db.grants) (origin : Origin) :
    { row with origins := row.origins.filter (· ≠ origin) } ∈
    (db.releaseGrantOrigin row.id origin).grants :=
  setOrigins_named stored

theorem foldl_release_other (origins : List Origin) (stored : other ∈ db.grants)
    (elsewhere : other.id ≠ id) :
    other ∈ (origins.foldl (fun db origin => db.releaseGrantOrigin id origin) db).grants := by
  rw [foldl_release_eq]
  exact setOrigins_other stored elsewhere

theorem foldl_release_named (origins : List Origin) (stored : row ∈ db.grants) :
    { row with origins := row.origins.filter (· ∉ origins) } ∈
      (origins.foldl (fun db origin => db.releaseGrantOrigin row.id origin) db).grants := by
  rw [foldl_release_eq]
  exact setOrigins_named stored

theorem foldl_release_writes (origins : List Origin) (stored : row ∈ db.grants)
    (dropped : ∀ o ∈ origins, drops row.principal row.grant o) :
    Writes adds drops db
      (origins.foldl (fun db origin => db.releaseGrantOrigin row.id origin) db) := by
  induction origins generalizing db row with
  | nil => exact .refl
  | cons origin _ ih =>
    have first : Write adds drops db (db.releaseGrantOrigin row.id origin) :=
      .drop db row origin stored (dropped origin (.head _))
    have later := ih (releaseGrantOrigin_named stored origin) fun o mem =>
      dropped o (mem_cons_of_mem origin mem)
    exact .head first later

end Release

section Grant
variable {db' : Db}

variable {spec : GrantSpec} {origin : Origin} {capability : Capability}
  {retention : LockoutRetention} {project : Option ProjectID}

theorem writeGrantRowState_writes
    (shaped : spec.scope.level ≠ none)
    (run : writeGrantRowState db spec origin = .ok (db', result)) :
    Writes (exactly spec origin) noOrigin db db' := by
  obtain ⟨existing, stored, mine, grant, -, rfl | rfl⟩ | ⟨-, -, rfl⟩ := writeGrantRowState_eq_ok run
  · exact .refl
  · exact .single (.add db existing origin stored ⟨mine, grant, rfl⟩)
  · exact .single (.create db _ _ origin shaped ⟨rfl, rfl, rfl⟩)

def Names (db : Db) (retention : LockoutRetention) : Prop :=
  ∀ key ∈ db.keys, key.id = retention.id →
    key.principal = retention.principal ∧ key.grant.scope = retention.scope

theorem cureRetention_writes (sound : Sound db) (names : Names db retention) :
    Writes noOrigin retentions db (cureRetention db retention) := by
  unfold cureRetention
  dsimp only
  split
  · exact .refl
  rename_i someone
  split
  · exact .refl
  split
  · exact .refl
  rename_i present
  obtain ⟨row, stored, named, _⟩ := originsFor_stored (not_not.mp present)
  obtain ⟨isPrincipal, isScope⟩ := names row.key (key_mem stored) named
  rw [← named]
  have drop : Write noOrigin retentions db
      (db.releaseGrantOrigin row.id (.lockoutRetention retention.binding retention.cause)) :=
    .drop db row _ stored rfl
  split
  · rename_i bare
    have kept :=
      releaseGrantOrigin_named stored (.lockoutRetention retention.binding retention.cause)
    have dispensable : Dispensable db row.principal row.grant := fun _ _ => by
      rw [show row.principal = retention.principal from isPrincipal,
        show row.grant.scope = retention.scope from isScope]
      exact someone
    have sound' := drop.sound (fun _ _ _ never => never.elim) sound
    refine .head drop (.head (.delete _ _ kept ?_ ?_) (.single (.invalidate _ _)))
    · rw [← sound'.originsFor kept]
      exact bare
    · exact dispensable.congr (by simp) (by simp)
  · exact .single drop

theorem retentionsOf_names (sound : Sound db) (stored : row ∈ db.grants)
    (mem : retention ∈ retentionsOf row) : Names db retention := by
  intro _ found named
  simp only [retentionsOf, mem_filterMap] at mem
  obtain ⟨_, _, shape⟩ := mem
  split at shape
  · cases shape
    cases inj_on_of_nodup_map sound.ids found (key_mem stored) named
    exact ⟨rfl, rfl⟩
  · cases shape

section
variable (sound : Sound db) (run : cureIfMemberManagement db capability scope result = .ok db')
include sound run

theorem cureIfMemberManagement_induction (holds : Db → Prop) (start : holds db)
    (cures : ∀ db retention, holds db → Sound db → Names db retention →
      holds (cureRetention db retention)) :
    holds db' := by
  obtain ⟨cured, stored, rfl⟩ := cureIfMemberManagement_eq_ok run
  have names : ∀ retention ∈ cured, Names db retention := by
    intro retention mem
    obtain ⟨_, inTable, inRow⟩ := stored retention mem
    exact retentionsOf_names sound inTable inRow
  clear run stored
  induction cured generalizing db with
  | nil => exact start
  | cons retention _ ih =>
    have own := names retention (.head _)
    have settled := (cureRetention_writes sound own).settled (fun _ _ _ never => never.elim) sound
    refine ih settled.sound (cures db retention start sound own) fun later mem key stored => ?_
    -- A cure only removes rows, so a name stays a name.
    have fewer := (foldl_cure_effect [retention] db).2
    exact names later (mem_cons_of_mem retention mem) key (fewer.subset stored)

theorem cureIfMemberManagement_writes : Writes noOrigin retentions db db' :=
  cureIfMemberManagement_induction sound run (Writes noOrigin retentions db) .refl
    fun _ _ writes sound names => writes.trans (cureRetention_writes sound names)

end

theorem writes_then_cure {mid : Db} (tenant : ∀ key, origin = .scim key → spec.scope.org ≠ none)
    (sound : Sound db) (writes : Writes (exactly spec origin) noOrigin db mid)
    (cure : cureIfMemberManagement mid capability scope result = .ok db') :
    Writes (exactly spec origin) retentions db db' := by
  have settled :=
    writes.settled (fun _ _ key added => by rw [added.2.1]; exact tenant key added.2.2.symm) sound
  have cures := cureIfMemberManagement_writes settled.sound cure
  refine (writes.mono (fun _ _ _ added => added) ?_).trans
    (cures.mono ?_ fun _ _ _ dropped => dropped)
  all_goals exact fun _ _ _ never => never.elim

theorem writeGrantRow_writes
    (shaped : spec.scope.level ≠ none) (run : writeGrantRow db spec origin = .ok (db', result)) :
    Writes (exactly spec origin) noOrigin db db' := by
  obtain ⟨⟨_, _⟩, write, run⟩ := bind_eq_ok.mp run
  cases run
  have writes := writeGrantRowState_writes shaped write
  split
  · exact writes.tail (.invalidate _ _)
  · exact writes

theorem attachSCIMOrigin_eq_ok
    (run : attachSCIMOrigin db key org project env target capability now = .ok (db', result)) :
    ∃ class_ mid, (⟨some org, project, env⟩ : Scope).level ≠ none ∧
      lockAndClassify db now target capability ⟨some org, project, env⟩ = .ok class_ ∧
      writeGrantRow db ⟨target, capability, ⟨some org, project, env⟩⟩ (.scim key) =
        .ok (mid, result) ∧
      cureIfMemberManagement mid capability ⟨some org, project, env⟩ result = .ok db' := by
  unfold attachSCIMOrigin at run
  dsimp only at run
  split at run
  · cases run
  rename_i level shaped
  obtain ⟨_, _, run⟩ := bind_eq_ok.mp run
  obtain ⟨class_, classified, run⟩ := bind_eq_ok.mp run
  obtain ⟨⟨mid, _⟩, write, run⟩ := bind_eq_ok.mp run
  obtain ⟨_, cure, run⟩ := bind_eq_ok.mp run
  cases run
  exact ⟨class_, mid, fun gap => (nomatch gap.symm.trans shaped), classified, write, cure⟩

theorem attachSCIMOrigin_writes (sound : Sound db)
    (run : attachSCIMOrigin db key org project env target capability now = .ok (db', result)) :
    Writes (exactly ⟨target, capability, ⟨some org, project, env⟩⟩ (.scim key))
      retentions db db' := by
  obtain ⟨_, _, shaped, _, write, cure⟩ := attachSCIMOrigin_eq_ok run
  exact writes_then_cure (fun _ _ => nofun) sound (writeGrantRow_writes shaped write) cure

end Grant

section Surface
variable {W : Type} {consume : W → Option SessionID → EnvID → Time → Option W} {contract : Contract}
  {st st' : State W}

def mintable (_ : PrincipalID) (_ : Grant) (o : Origin) : Prop := o.isMintable = true

variable {spec : GrantSpec} {caller : Identity}

theorem mintable_of_exactly {origin : Origin} (minted : origin.isMintable = true)
    (p : PrincipalID) (g : Grant) (o : Origin) (added : exactly spec origin p g o) :
    mintable p g o := by
  rw [mintable, added.2.2]
  exact minted

theorem mintable_not_scim (p : PrincipalID) (g : Grant) (key : ScimOriginKey)
    (added : mintable p g (.scim key)) :
    g.scope.org ≠ none := nomatch added

theorem grantOne_writes {level : Level} {invalidate : Bool} (shaped : spec.scope.level ≠ none)
    (run : grantOneWithInvalidation consume st caller spec level now invalidate =
      .ok (st', result)) :
    Writes (exactly spec (.manual caller.principal)) noOrigin st.db st'.db := by
  obtain ⟨_, _, _, _, _, write, after⟩ := grantOne_eq_ok run
  have writes := writeGrantRowState_writes shaped write
  rw [after]
  split
  · exact writes.tail (.invalidate _ _)
  · exact writes

theorem create_writes (sound : Sound st.db)
    (run : create consume contract st caller spec now = .ok (st', result)) :
    Writes mintable retentions st.db st'.db := by
  obtain ⟨_, _, _, shaped, _, grant, cure⟩ := create_eq_ok run
  have writes := grantOne_writes (fun gap => nomatch gap.symm.trans shaped) grant
  exact (writes_then_cure (fun _ isScim => by cases isScim) sound writes cure).mono
    (mintable_of_exactly rfl) fun _ _ _ dropped => dropped

theorem breakGlassGrant_eq_ok (run : breakGlassGrant st spec now = .ok (st', result)) :
    ∃ class_ mid, spec.scope.level ≠ none ∧
      lockAndClassify st.db now spec.target spec.capability spec.scope = .ok class_ ∧
      writeGrantRow st.db spec .breakGlass = .ok (mid, result) ∧
      cureIfMemberManagement mid spec.capability spec.scope result = .ok st'.db := by
  unfold breakGlassGrant at run
  split at run
  · cases run
  rename_i level shaped
  obtain ⟨_, _, run⟩ := bind_eq_ok.mp run
  obtain ⟨class_, classified, run⟩ := bind_eq_ok.mp run
  obtain ⟨⟨mid, _⟩, write, run⟩ := bind_eq_ok.mp run
  obtain ⟨_, cure, run⟩ := bind_eq_ok.mp run
  cases run
  exact ⟨class_, mid, fun gap => (nomatch gap.symm.trans shaped), classified, write, cure⟩

theorem breakGlassGrant_writes (sound : Sound st.db)
    (run : breakGlassGrant st spec now = .ok (st', result)) :
    Writes mintable retentions st.db st'.db := by
  obtain ⟨_, _, shaped, _, write, cure⟩ := breakGlassGrant_eq_ok run
  exact (writes_then_cure (fun _ isScim => by cases isScim) sound
    (writeGrantRow_writes shaped write) cure).mono
    (mintable_of_exactly rfl) fun _ _ _ dropped => dropped

theorem applyTemplate_writes {template : Template} {results : List GrantResult}
    (sound : Sound st.db)
    (run : applyTemplate consume contract st caller template target scope now =
      .ok (st', results)) :
    Writes mintable retentions st.db st'.db := by
  obtain ⟨level, _, _, mid, shaped, _, _, loop, cures⟩ := applyTemplate_eq_ok run
  have grants : Writes mintable retentions st.db mid.db := by
    refine foldlM_invariant
      (fun acc : State W × List GrantResult => Writes mintable retentions st.db acc.1.db) ?_ ?_ loop
    · intro _ _ before after writes step
      obtain ⟨⟨_, _⟩, grant, shape⟩ := bind_eq_ok.mp step
      cases shape
      have hasLevel : scope.level ≠ none := by simp [shaped]
      have more := grantOne_writes hasLevel grant
      exact writes.trans (more.mono (mintable_of_exactly rfl) fun _ _ _ never => never.elim)
    · exact .refl
  refine foldlM_invariant (fun db => Writes mintable retentions st.db db) ?_ ?_ cures
  · intro _ _ _ _ writes cure
    have settled := writes.settled mintable_not_scim sound
    exact writes.trans ((cureIfMemberManagement_writes settled.sound cure).mono
      (fun _ _ _ never => never.elim) fun _ _ _ dropped => dropped)
  split
  · exact grants.tail (.invalidate _ _)
  · exact grants

theorem checkLockout_dispensable (shaped : spec.scope.level ≠ none)
    (check : checkLockout db spec = .ok ()) :
    Dispensable db spec.target ⟨spec.capability, spec.scope⟩ := by
  intro (capability : spec.capability = .manageMembers) (shallow : spec.scope.project = none)
  rw [checkLockout, if_neg (not_not.mpr capability)] at check
  have level : spec.scope.level = some .none ∨ spec.scope.level = some .org := by
    have deepest := env_none_of_level shaped shallow
    revert shaped shallow deepest
    obtain ⟨_, _, ⟨org, _⟩⟩ := spec
    rintro shaped ⟨⟩ ⟨⟩
    cases org with
    | none => exact .inl rfl
    | some => exact .inr rfl
  rcases level with level | level
  all_goals
    rw [level] at check
    exact (require_eq_ok _ _ ()).mp check

theorem revoke_writes (sound : Sound st.db)
    (run : revoke contract st caller spec = .ok st') : Writes noOrigin mintable st.db st'.db := by
  obtain ⟨shaped, _, existing, stored, mine, grant, lockout, _, rfl, result⟩ := revoke_eq_ok run
  rw [result]
  have releases : Writes noOrigin mintable st.db ((existing.origins.filter (·.isMintable)).foldl
      (fun db origin => db.releaseGrantOrigin existing.id origin) st.db) :=
    foldl_release_writes _ stored fun o mem => (mem_filter.mp mem).2
  split
  · rename_i bare
    have kept := foldl_release_named (existing.origins.filter (·.isMintable)) stored
    have sound' := (releases.settled (fun _ _ _ never => never.elim) sound).sound
    have nothing := (sound'.originsFor kept).symm.trans bare
    -- No origin is left, so every origin was one that a revoke releases.
    have allMintable : existing.origins.all (·.isMintable) = true := by
      rw [all_eq_true]
      intro o mem
      by_contra system
      have left := filter_eq_nil_iff.mp nothing o mem
      simp [mem, system] at left
    rw [checkRowLockout, if_pos allMintable] at lockout
    have dispensable := checkLockout_dispensable shaped lockout
    rw [← mine, ← grant] at dispensable
    refine (releases.tail (.delete _ _ kept nothing ?_)).tail (.invalidate _ _)
    rw [foldl_release_eq]
    exact dispensable.congr (setOrigins_keys _ _ _) rfl
  · exact releases

end Surface

section Releases
variable {args : ReleaseArgs} {principal : PrincipalID}

def doomed (principal : PrincipalID) (args : ReleaseArgs) (p : PrincipalID) (g : Grant)
    (o : Origin) : Prop :=
  p = principal ∧ args.accepts g = true ∧ isDoomed args o = true

theorem dispensable_of_not_wouldLockOut (sound : Sound db) (stored : row ∈ db.grants)
    {o : Origin} (mem : o ∈ row.origins) (isScim : isDoomed args o = true)
    (safe : wouldLockOut db row.principal row.grant = false) :
    Dispensable db row.principal row.grant := by
  intro capability shallow remaining
  have tenant : row.grant.scope.org ≠ none := by
    cases o with
    | scim key => exact sound.tenant _ _ key ⟨row, stored, rfl, rfl, mem⟩
    | manual | breakGlass | structural | lockoutRetention => cases isScim
  have level : row.grant.scope.level = some .org := by
    have deepest := env_none_of_level (sound.shaped row.key (key_mem stored)) shallow
    revert tenant shallow deepest
    obtain ⟨_, _, ⟨_, ⟨org, _⟩⟩, _⟩ := row
    rintro ⟨⟩ tenant ⟨⟩
    cases org with
    | none => exact absurd rfl tenant
    | some => rfl
  simp [wouldLockOut, capability, level, remaining] at safe

theorem releaseRowOrigins_writes (sound : Sound db) (stored : row ∈ db.grants)
    (mine : row.principal = principal) (out : ReleaseOutcome) :
    Writes retentions (doomed principal args) db
      (releaseRowOrigins args principal (db, out) row).1 := by
  unfold releaseRowOrigins
  dsimp only
  split
  · exact .refl
  rename_i accepted
  have accepts : args.accepts row.grant = true := by simpa using accepted
  split
  · exact .refl
  rename_i someDoomed
  have releases : Writes retentions (doomed principal args)
      db ((row.origins.filter (isDoomed args)).foldl
      (fun db origin => db.releaseGrantOrigin row.id origin) db) :=
    foldl_release_writes _ stored fun o mem => ⟨mine, accepts, (mem_filter.mp mem).2⟩
  have kept := foldl_release_named (row.origins.filter (isDoomed args)) stored
  split
  · have conversion : Write retentions (doomed principal args) _ _ :=
      .add _ _ (.lockoutRetention args.binding args.cause) kept rfl
    exact releases.tail conversion
  rename_i noConversion
  split
  · rename_i bare
    have sound' := (releases.settled (fun _ _ _ never => nomatch never) sound).sound
    have nothing := (sound'.originsFor kept).symm.trans bare
    -- No survivor is left, so the census was asked and did not object.
    have noSurvivor : (row.origins.filter fun o => !isDoomed args o) = [] := by
      rw [filter_eq_nil_iff] at nothing ⊢
      intro o mem survives
      exact nothing o mem (by simp [survives])
    have safe : wouldLockOut db row.principal row.grant = false := by
      simpa [noSurvivor, mine] using noConversion
    obtain ⟨_, mem⟩ := exists_mem_of_ne_nil _ someDoomed
    obtain ⟨inRow, isScim⟩ := mem_filter.mp mem
    have dispensable := dispensable_of_not_wouldLockOut sound stored inRow isScim safe
    have removal : Write retentions (doomed principal args) _ _ := .delete _ _ kept nothing
      (dispensable.congr (by rw [foldl_release_eq, setOrigins_keys])
        (by rw [foldl_release_eq]; rfl))
    exact releases.tail removal
  · exact releases

theorem releaseRowOrigins_other (stored : other ∈ db.grants) (elsewhere : other.id ≠ row.id)
    (out : ReleaseOutcome) : other ∈ (releaseRowOrigins args principal (db, out) row).1.grants := by
  have released := foldl_release_other (row.origins.filter (isDoomed args)) stored elsewhere
  unfold releaseRowOrigins
  dsimp only
  split
  · exact stored
  split
  · exact stored
  split
  · exact setOrigins_other released elsewhere
  split
  · exact mem_filter.mpr ⟨released, by simpa using elsewhere⟩
  · exact released

theorem releaseSCIMOrigins_induction (sound : Sound db) (principal : PrincipalID)
    (args : ReleaseArgs) (holds : Db × ReleaseOutcome → Prop)
    (start : holds (db, ⟨0, 0, [], false⟩)) (releases : ∀ acc row, holds acc → Sound acc.1 →
      row ∈ acc.1.grants → row.principal = principal →
      holds (releaseRowOrigins args principal acc row)) : holds
        (releaseSCIMOrigins db principal args) := by
  unfold releaseSCIMOrigins
  cases db.principal? principal with
  | none => exact start
  | some =>
    have stored : ∀ row ∈ db.grantRowsForPrincipal principal, row ∈ db.grants ∧
        row.principal = principal := by
      simp [Db.grantRowsForPrincipal]
    have distinct : ((db.grantRowsForPrincipal principal).map (·.id)).Nodup :=
      (map_keys_id db ▸ sound.ids).sublist (filter_sublist.map _)
    generalize db.grantRowsForPrincipal principal = rows at stored distinct
    generalize (⟨0, 0, [], false⟩ : ReleaseOutcome) = out at start
    induction rows generalizing db out with
    | nil => exact start
    | cons row _ ih =>
      rw [map_cons, nodup_cons] at distinct
      obtain ⟨rowStored, mine⟩ := stored row (.head _)
      have first : Writes retentions (doomed principal args) _ _ :=
        releaseRowOrigins_writes sound rowStored mine out
      have sound' := (first.settled (by rintro _ _ _ ⟨⟩) sound).sound
      refine ih sound' (fun later mem => ?_) distinct.2 _
        (releases _ row start sound rowStored mine)
      obtain ⟨laterStored, laterMine⟩ := stored later (mem_cons_of_mem row mem)
      refine ⟨releaseRowOrigins_other laterStored ?_ out, laterMine⟩
      exact fun same => distinct.1 (same ▸ mem_map_of_mem mem)

theorem releaseAndSettle_writes (sound : Sound db) (principal : PrincipalID) (args : ReleaseArgs)
    (policy : AdvancePolicy) :
    Writes retentions (doomed principal args) db (releaseAndSettle db principal args policy).1 := by
  have releases := releaseSCIMOrigins_induction sound principal args
    (fun acc => Writes retentions (doomed principal args) db acc.1) .refl
    fun acc row writes sound stored mine =>
      writes.trans (releaseRowOrigins_writes sound stored mine acc.2)
  unfold releaseAndSettle
  dsimp only
  split
  · exact releases.tail (.invalidate _ _)
  · exact releases

end Releases

end Hikyo.Access
