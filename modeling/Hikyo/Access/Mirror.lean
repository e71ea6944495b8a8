import Hikyo.Access.LastManager

/-!
# Grant rows mirror their origins

`grant_rows_mirror_origins`: in every history each grant row has an origin, each origin belongs to a
row, no two rows say the same, and a transaction that changes what a principal holds raises the
generation of its sessions.  Within a transaction a row may be without an origin for a moment and
sessions may still be open (`Pending`); a call ends with both settled (`Accounted`).
-/

namespace Hikyo.Access

open Hikyo.Lib List

variable {capability : Capability} {result : GrantResult} {row : GrantRow} {origin : Origin}
  {target : PrincipalID} {scope : Scope} {now : Time}

def HoldsGrant (db : Db) (p : PrincipalID) (g : Grant) : Prop :=
  ∃ key ∈ db.keys, key.principal = p ∧ key.grant = g

def Db.generation (db : Db) (p : PrincipalID) : Nat := (db.principal? p).elim 0 (·.generation)

/-- Every row has an origin, and no two rows say the same. -/
structure Mirrored (db : Db) : Prop where
  held : ∀ row ∈ db.grants, row.origins ≠ []
  distinct : (db.keys.map fun key => (key.principal, key.grant)).Nodup

/-- What a transaction, or a part of it that ends the sessions it has to, leaves behind. -/
structure Accounted (db db' : Db) : Prop where
  mirrored : Mirrored db'
  generation : ∀ p, db.generation p ≤ db'.generation p
  advanced : ∀ p g, ¬ (HoldsGrant db p g ↔ HoldsGrant db' p g) → db.generation p < db'.generation p

/-- Rows of one principal are written and its sessions not ended yet. -/
structure Pending (p : PrincipalID) (changed : Prop) (db db' : Db) : Prop where
  mirrored : Mirrored db'
  principals : db'.principals = db.principals
  same : ∀ q g, (q = p → ¬ changed) → (HoldsGrant db q g ↔ HoldsGrant db' q g)

variable {db db' db'' : Db} {p : PrincipalID} {changed : Prop}

theorem Accounted.refl (mirrored : Mirrored db) : Accounted db db :=
  ⟨mirrored, fun _ => le_rfl, fun _ _ differs => absurd Iff.rfl differs⟩

theorem Accounted.trans (first : Accounted db db') (second : Accounted db' db'') :
    Accounted db db'' where
  mirrored := second.mirrored
  generation := fun p => Nat.le_trans (first.generation p) (second.generation p)
  advanced := by
    intro p g differs
    by_cases before : HoldsGrant db p g ↔ HoldsGrant db' p g
    · exact Nat.lt_of_le_of_lt (first.generation p) (second.advanced p g fun after =>
        differs (before.trans after))
    · exact Nat.lt_of_lt_of_le (first.advanced p g before) (second.generation p)

theorem Pending.refl (mirrored : Mirrored db) : Pending p changed db db :=
  ⟨mirrored, rfl, fun _ _ _ => Iff.rfl⟩

theorem Pending.trans {later : Prop} (first : Pending p changed db db')
    (second : Pending p later db' db'') :
    Pending p (changed ∨ later) db db'' where
  mirrored := second.mirrored
  principals := second.principals.trans first.principals
  same := by
    intro q g unchanged
    have before := first.same q g fun own isChanged => unchanged own (.inl isChanged)
    exact before.trans (second.same q g fun own isChanged => unchanged own (.inr isChanged))

theorem Pending.mono {more : Prop} (pending : Pending p changed db db') (weaker : changed → more) :
    Pending p more db db' :=
  ⟨pending.mirrored, pending.principals, fun q g unchanged => pending.same q g fun own is =>
    unchanged own (weaker is)⟩

theorem Pending.of_keys (mirrored : Mirrored db') (principals : db'.principals = db.principals)
    (isChanged : changed) (elsewhere : ∀ key, key.principal ≠ p →
      (key ∈ db.keys ↔ key ∈ db'.keys)) : Pending p changed db db' := by
  refine ⟨mirrored, principals, fun q g unchanged => exists_congr fun key =>
    and_congr_left fun holds => ?_⟩
  exact elsewhere key fun own => unchanged (holds.1.symm.trans own) isChanged

theorem generation_congr (same : db'.principals = db.principals) (q : PrincipalID) :
    db'.generation q = db.generation q := by
  unfold Db.generation Db.principal?
  rw [same]

theorem generation_invalidateGrantChange (db : Db) (p q : PrincipalID) :
      (db.invalidateGrantChange p).generation q =
      (db.principal? q).elim 0 fun row => row.generation + if q = p then 1 else 0 := by
  have found : (db.invalidateGrantChange p).principal? q = (db.principal? q).map fun row =>
      if row.id = p then { row with generation := row.generation + 1 } else row := by
    simp only [Db.principal?, Db.invalidateGrantChange, Db.advanceGeneration,
      Db.revokeAllSessionsFor, find?_map]
    congr 2
    funext row
    simp only [Function.comp]
    split <;> rfl
  unfold Db.generation
  rw [found]
  cases isRow : db.principal? q with
  | none => rfl
  | some row =>
    have own : row.id = q := by simpa using find?_some isRow
    by_cases target : q = p <;> simp [own, target]

theorem Pending.accounted (pending : Pending p changed db db') (unchanged : ¬ changed) :
    Accounted db db' where
  mirrored := pending.mirrored
  generation := fun q => Nat.le_of_eq (generation_congr pending.principals q).symm
  advanced := fun q g differs => absurd (pending.same q g fun _ => unchanged) differs

theorem Pending.invalidated (pending : Pending p changed db db')
    (known : changed → (db.principal? p).isSome = true) :
    Accounted db (db'.invalidateGrantChange p) := by
  have principal : ∀ q, db'.principal? q = db.principal? q := by
    intro q
    rw [Db.principal?, pending.principals]
    rfl
  refine ⟨⟨pending.mirrored.held, pending.mirrored.distinct⟩, fun q => ?_, fun q g differs => ?_⟩
  · rw [generation_invalidateGrantChange, principal, Db.generation]
    cases db.principal? q with
    | none => exact le_rfl
    | some => exact Nat.le_add_right _ _
  have own : q = p ∧ changed := by
    by_contra unchanged
    exact differs (pending.same q g fun own is => unchanged ⟨own, is⟩)
  obtain ⟨_, found⟩ := Option.isSome_iff_exists.mp (own.1 ▸ known own.2)
  rw [generation_invalidateGrantChange, principal, Db.generation, found, if_pos own.1]
  exact Nat.lt_succ_self _

section Rows
variable {id : GrantID} {change : List Origin → List Origin}

theorem pending_setOrigins (mirrored : Mirrored db)
    (kept : ∀ row ∈ db.grants, row.id = id → change row.origins ≠ []) :
    Pending p changed db (db.setOrigins id change) := by
  refine ⟨⟨fun row mem => ?_, by rw [setOrigins_keys]; exact mirrored.distinct⟩, rfl,
    fun q g _ => ?_⟩
  · obtain ⟨old, stored, rfl⟩ := mem_setOrigins.mp mem
    split
    · rename_i named
      exact kept old stored named
    · exact mirrored.held old stored
  · unfold HoldsGrant
    rw [setOrigins_keys]

theorem pending_deleteGrantRow (mirrored : Mirrored db)
    (own : ∀ key ∈ db.keys, key.id = id → key.principal = p) (isChanged : changed) :
    Pending p changed db ((db.setOrigins id change).deleteGrantRow id) := by
  have keys : ((db.setOrigins id change).deleteGrantRow id).keys = db.keys.filter (·.id ≠ id) := by
    simp
  refine .of_keys ⟨fun row mem => ?_, ?_⟩ rfl isChanged fun key other => ?_
  · obtain ⟨inTable, other⟩ := mem_filter.mp mem
    obtain ⟨old, stored, rfl⟩ := mem_setOrigins.mp inTable
    by_cases named : old.id = id
    · simp [named] at other
    · rw [if_neg named]
      exact mirrored.held old stored
  · rw [keys]
    exact mirrored.distinct.sublist (filter_sublist.map _)
  · rw [keys, mem_filter]
    exact ⟨fun mem => ⟨mem, decide_eq_true fun named => other (own key mem named)⟩, And.left⟩

theorem not_holds_of_findGrant
    (missing : findGrant (db.grantRowsForPrincipal p) capability scope = none) :
    ¬ HoldsGrant db p ⟨capability, scope⟩ := by
  rintro ⟨_, mem, mine, same⟩
  obtain ⟨row, stored, rfl⟩ := mem_keys.mp mem
  have grant : row.grant = ⟨capability, scope⟩ := same
  have absent := find?_eq_none.mp missing row
    (by simpa [Db.grantRowsForPrincipal] using ⟨stored, (mine : row.principal = p)⟩)
  simp [grant] at absent

theorem pending_createGrant {grant : Grant} (mirrored : Mirrored db)
    (isNew : ¬ HoldsGrant db p grant) (isChanged : changed) :
    Pending p changed db ((db.createGrant p grant).addGrantOrigin db.nextGrant origin) := by
  have keys : ((db.createGrant p grant).addGrantOrigin db.nextGrant origin).keys =
      db.keys ++ [⟨db.nextGrant, p, grant⟩] := by simp
  refine .of_keys ⟨fun row mem => ?_, ?_⟩ rfl isChanged fun key other => ?_
  · obtain ⟨old, stored, rfl⟩ := mem_setOrigins.mp mem
    by_cases named : old.id = db.nextGrant
    · simp [named]
    rw [if_neg named]
    rcases mem_append.mp stored with before | last
    · exact mirrored.held old before
    · exact absurd (congrArg GrantRow.id (mem_singleton.mp last)) named
  · rw [keys, map_append, nodup_append]
    refine ⟨mirrored.distinct, nodup_singleton _, ?_⟩
    rintro _ mem _ last rfl
    obtain ⟨key, stored, same⟩ := mem_map.mp mem
    cases mem_singleton.mp last
    exact isNew ⟨key, stored, congrArg Prod.fst same, congrArg Prod.snd same⟩
  · rw [keys, mem_append, mem_singleton]
    refine ⟨.inl, fun mem => mem.resolve_right ?_⟩
    rintro rfl
    exact other rfl

theorem originsFor_setOrigins (sound : Sound db) (stored : row ∈ db.grants) :
    (db.setOrigins row.id change).originsFor row.id = change row.origins := by
  have ids : ((db.setOrigins row.id change).grants.map (·.id)).Nodup := by
    rw [← map_keys_id, setOrigins_keys]
    exact sound.ids
  unfold Db.originsFor
  rw [(find?_eq_some_iff_of_nodup ids).mpr ⟨setOrigins_named stored, rfl⟩]

theorem setOrigins_setOrigins {first then_ : List Origin → List Origin} :
    (db.setOrigins id first).setOrigins id then_ = db.setOrigins id fun origins => then_
    (first origins) := by
  simp only [Db.setOrigins, map_map, Db.mk.injEq, true_and, and_true]
  refine map_congr_left fun row _ => ?_
  by_cases named : row.id = id <;> simp [named]

section
variable (sound : Sound db) (mirrored : Mirrored db) (stored : row ∈ db.grants)
include sound mirrored stored

theorem pending_emptied (mine : row.principal = p) (isChanged : changed) :
    Pending p changed db ((db.setOrigins row.id change).deleteGrantRow row.id) := by
  refine pending_deleteGrantRow mirrored (fun key mem named => ?_) isChanged
  cases inj_on_of_nodup_map sound.ids mem (key_mem stored) named
  exact mine

theorem pending_kept (remains : change row.origins ≠ []) :
    Pending p changed db (db.setOrigins row.id change) := by
  refine pending_setOrigins mirrored fun other mem named => ?_
  cases sound.row_eq mem stored named
  exact remains

theorem accounted_release (mine : row.principal = p) (known : (db.principal? p).isSome = true)
    (change : List Origin → List Origin) :
      Accounted db (if (db.setOrigins row.id change).originsFor row.id = [] then
      ((db.setOrigins row.id change).deleteGrantRow row.id).invalidateGrantChange p
      else db.setOrigins row.id change) := by
  split
  · exact (pending_emptied sound mirrored stored mine trivial).invalidated fun _ => known
  rename_i remains
  rw [originsFor_setOrigins sound stored] at remains
  have pending : Pending p False db (db.setOrigins row.id change) :=
    pending_kept sound mirrored stored remains
  exact pending.accounted id

end

end Rows

section Grants
variable {spec : GrantSpec}

theorem known_of_lockAndClassify {class_ : Option PrincipalClass}
    (run : lockAndClassify db now p capability scope = .ok class_) :
    (db.principal? p).isSome = true := by
  unfold lockAndClassify at run
  split at run
  · cases run
  rename_i found
  rw [found]
  rfl

theorem pending_writeGrantRowState (mirrored : Mirrored db)
    (run : writeGrantRowState db spec origin = .ok (db', result)) :
    Pending spec.target (result.outcome = .created) db db' := by
  obtain ⟨_, -, -, -, -, rfl | rfl⟩ | ⟨missing, isNew, rfl⟩ := writeGrantRowState_eq_ok run
  · exact .refl mirrored
  · exact pending_setOrigins mirrored fun row _ _ => by simp
  · exact pending_createGrant mirrored (not_holds_of_findGrant missing) isNew

theorem accounted_written (mirrored : Mirrored db)
    (known : (db.principal? spec.target).isSome = true)
    (run : writeGrantRowState db spec origin = .ok (db', result)) :
    Accounted db (if result.outcome = .created then db'.invalidateGrantChange spec.target
      else db') := by
  have pending := pending_writeGrantRowState mirrored run
  split
  · exact pending.invalidated fun _ => known
  · rename_i old
    exact pending.accounted old

theorem accounted_writeGrantRow (mirrored : Mirrored db)
    (known : (db.principal? spec.target).isSome = true)
    (run : writeGrantRow db spec origin = .ok (db', result)) : Accounted db db' := by
  obtain ⟨⟨_, _⟩, write, run⟩ := bind_eq_ok.mp run
  cases run
  exact accounted_written mirrored known write

theorem accounted_cureRetention (sound : Sound db) (mirrored : Mirrored db)
    {retention : LockoutRetention} (names : Names db retention) :
    Accounted db (cureRetention db retention) := by
  unfold cureRetention
  dsimp only
  split
  · exact .refl mirrored
  split
  · exact .refl mirrored
  rename_i known
  split
  · exact .refl mirrored
  rename_i present
  obtain ⟨row, stored, named, -⟩ := originsFor_stored (not_not.mp present)
  obtain ⟨isPrincipal, -⟩ := names row.key (key_mem stored) named
  have someone : (db.principal? retention.principal).isSome = true :=
    Option.isSome_iff_ne_none.mpr fun missing => known (by rw [missing]; rfl)
  rw [← named]
  exact accounted_release sound mirrored stored isPrincipal someone _

theorem accounted_cure (sound : Sound db) (mirrored : Mirrored db)
    (run : cureIfMemberManagement db capability scope result = .ok db') : Accounted db db' :=
  cureIfMemberManagement_induction sound run (Accounted db) (.refl mirrored)
    fun _ _ accounted sound names =>
    accounted.trans (accounted_cureRetention sound accounted.mirrored names)

theorem accounted_then_cure {mid : Db} (granted : Accounted db mid)
    (sound : Sound mid) (cure : cureIfMemberManagement mid capability scope result = .ok db') :
    Accounted db db' :=
  granted.trans (accounted_cure sound granted.mirrored cure)

end Grants

theorem pending_releaseRowOrigins {args : ReleaseArgs} (acc : Db × ReleaseOutcome)
    (sound : Sound acc.1) (mirrored : Mirrored acc.1) (stored : row ∈ acc.1.grants)
    (mine : row.principal = p) :
    acc.2.rowsRevoked ≤ (releaseRowOrigins args p acc row).2.rowsRevoked ∧
      Pending p (acc.2.rowsRevoked < (releaseRowOrigins args p acc row).2.rowsRevoked) acc.1
        (releaseRowOrigins args p acc row).1 := by
  unfold releaseRowOrigins
  dsimp only at sound mirrored stored ⊢
  rw [foldl_release_eq]
  split
  · exact ⟨le_rfl, .refl mirrored⟩
  split
  · exact ⟨le_rfl, .refl mirrored⟩
  split
  · refine ⟨le_rfl, ?_⟩
    rw [Db.addGrantOrigin, setOrigins_setOrigins]
    dsimp only
    refine pending_kept sound mirrored stored ?_
    simp
  split
  · exact ⟨Nat.le_succ _, pending_emptied sound mirrored stored mine (Nat.lt_succ_self _)⟩
  rename_i remains
  rw [originsFor_setOrigins sound stored] at remains
  exact ⟨le_rfl, pending_kept sound mirrored stored remains⟩

theorem accounted_releaseAndSettle (sound : Sound db) (mirrored : Mirrored db) (args : ReleaseArgs)
    (policy : AdvancePolicy) : Accounted db (releaseAndSettle db p args policy).1 := by
  have pending : Pending p (0 < (releaseSCIMOrigins db p args).2.rowsRevoked) db
      (releaseSCIMOrigins db p args).1 := by
    refine releaseSCIMOrigins_induction sound p args
      (fun acc => Pending p (0 < acc.2.rowsRevoked) db acc.1)
      (.refl mirrored) fun acc row before sound stored mine => ?_
    obtain ⟨_, after⟩ := pending_releaseRowOrigins acc sound before.mirrored stored mine
    refine (before.trans after).mono fun revoked => ?_
    omega
  unfold releaseAndSettle
  dsimp only
  split
  · refine pending.invalidated fun revoked => Option.isSome_iff_ne_none.mpr fun missing => ?_
    simp [releaseSCIMOrigins, missing] at revoked
  · rename_i unchanged
    exact pending.accounted fun revoked => unchanged (.inr revoked)

section Calls
variable {W : Type} {consume : W → Option SessionID → EnvID → Time → Option W} {contract : Contract}
  {st st' : State W} {caller : Identity} {spec : GrantSpec} (sound : Sound st.db)
  (mirrored : Mirrored st.db)
include sound mirrored

theorem accounted_create
    (run : create consume contract st caller spec now = .ok (st', result)) :
    Accounted st.db st'.db := by
  obtain ⟨level, -, _, shaped, -, grant, cure⟩ := create_eq_ok run
  have hasLevel : spec.scope.level ≠ none := by simp [shaped]
  have sound' :=
    ((grantOne_writes hasLevel grant).settled (fun _ _ _ added => nomatch added.2.2) sound).sound
  obtain ⟨_, _, classified, -, -, write, after⟩ := grantOne_eq_ok grant
  have granted := accounted_written mirrored (known_of_lockAndClassify classified) write
  refine accounted_then_cure ?_ sound' cure
  rw [after]
  simpa using granted

theorem accounted_breakGlassGrant
    (run : breakGlassGrant st spec now = .ok (st', result)) : Accounted st.db st'.db := by
  obtain ⟨_, _, shaped, classified, write, cure⟩ := breakGlassGrant_eq_ok run
  have sound' :=
    ((writeGrantRow_writes shaped write).settled (fun _ _ _ added => nomatch added.2.2) sound).sound
  exact accounted_then_cure (accounted_writeGrantRow mirrored (known_of_lockAndClassify classified)
    write) sound' cure

theorem accounted_attachSCIMOrigin {key : ScimOriginKey} {org : OrgID} {project : Option ProjectID}
    {env : Option EnvID} (run : attachSCIMOrigin st.db key org project env target capability now =
      .ok (db', result)) : Accounted st.db db' := by
  obtain ⟨_, mid, shaped, classified, write, cure⟩ := attachSCIMOrigin_eq_ok run
  have sound' : Sound mid := by
    refine ((writeGrantRow_writes shaped write).settled (fun _ _ _ added => ?_) sound).sound
    rw [added.2.1]
    exact nofun
  exact accounted_then_cure (accounted_writeGrantRow mirrored (known_of_lockAndClassify classified)
    write) sound' cure

theorem accounted_revoke (run : revoke contract st caller spec = .ok st') :
    Accounted st.db st'.db := by
  obtain ⟨-, known, _, stored, mine, -, -, _, rfl, result⟩ := revoke_eq_ok run
  rw [result, foldl_release_eq]
  exact accounted_release sound mirrored stored mine known _

theorem accounted_applyTemplate {template : Template} {results : List GrantResult}
    (run : applyTemplate consume contract st caller template target scope now =
      .ok (st', results)) :
    Accounted st.db st'.db := by
  obtain ⟨level, -, _, mid, shaped, -, -, loop, cures⟩ := applyTemplate_eq_ok run
  have hasLevel : scope.level ≠ none := by simp [shaped]
  let created (results : List GrantResult) : Prop := results.any (·.outcome == .created) = true
  have granted : Sound mid.db ∧ Pending target (created results) st.db mid.db ∧
      (created results → (st.db.principal? target).isSome = true) := by
    refine foldlM_invariant (fun acc : State W × List GrantResult => Sound acc.1.db ∧
      Pending target (created acc.2) st.db acc.1.db ∧
        (created acc.2 → (st.db.principal? target).isSome = true))
      ?_ ⟨sound, .refl mirrored, fun some => by cases some⟩ loop
    rintro capability - before after ⟨sound, pending, -⟩ iteration
    obtain ⟨⟨next, _⟩, grant, shape⟩ := bind_eq_ok.mp iteration
    cases shape
    have sound' :=
      ((grantOne_writes hasLevel grant).settled (fun _ _ _ added => nomatch added.2.2) sound).sound
    obtain ⟨_, db, classified, -, -, write, after⟩ := grantOne_eq_ok grant
    have written : next.db = db := by simpa using after
    have more := pending_writeGrantRowState pending.mirrored write
    refine ⟨sound', ?_, fun _ => ?_⟩
    · rw [written]
      refine (pending.trans more).mono fun changed => ?_
      simpa [created] using changed
    · have known := known_of_lockAndClassify classified
      rwa [Db.principal?, pending.principals] at known
  obtain ⟨sound', pending, known⟩ := granted
  refine (foldlM_invariant (fun db => Sound db ∧ Accounted st.db db) ?_ ?_ cures).2
  · rintro entry - before after ⟨sound, accounted⟩ cure
    have settled :=
      (cureIfMemberManagement_writes sound cure).settled (fun _ _ _ never => never.elim) sound
    exact ⟨settled.sound, accounted_then_cure accounted sound cure⟩
  split
  · have ended : Write noOrigin noOrigin mid.db (mid.db.invalidateGrantChange target) :=
      .invalidate _ _
    exact ⟨ended.sound (fun _ _ _ never => never.elim) sound', pending.invalidated known⟩
  · rename_i unchanged
    exact ⟨sound', pending.accounted unchanged⟩

def Action.writesGrants : Action → Bool
  | .applyPrivacySubject .. => false
  | _ => true

theorem accounted_step {action : Action}
    (writes : action.writesGrants = true) (taken : step consume contract st action = some st') :
    Accounted st.db st'.db := by
  rw [step_eq_some] at taken
  cases action with
  | create =>
    obtain ⟨⟨next, result⟩, run, rfl⟩ := map_eq_ok.mp taken
    exact accounted_create sound mirrored run
  | applyTemplate =>
    obtain ⟨⟨next, _⟩, run, rfl⟩ := map_eq_ok.mp taken
    exact accounted_applyTemplate sound mirrored run
  | revoke => exact accounted_revoke sound mirrored taken
  | breakGlassGrant =>
    obtain ⟨⟨_, result⟩, run, rfl⟩ := map_eq_ok.mp taken
    exact accounted_breakGlassGrant sound mirrored run
  | attachSCIMOrigin =>
    obtain ⟨⟨_, _⟩, run, rfl⟩ := map_eq_ok.mp taken
    exact accounted_attachSCIMOrigin sound mirrored run
  | releaseSCIMOrigins _ args policy =>
    cases taken
    exact accounted_releaseAndSettle sound mirrored args policy
  | applyPrivacySubject => cases writes

end Calls

/-- Rows and origins mirror each other in every history, and a transaction that changes what a
principal holds raises its generation. -/
theorem grant_rows_mirror_origins {W : Type}
    (consume : W → Option SessionID → EnvID → Time → Option W) (contract : Contract)
    (start : State W) (sound : Sound start.db) (mirrored : Mirrored start.db)
    (actions : List Action) (writes : ∀ action ∈ actions, action.writesGrants = true) :
    Mirrored (runFrom (step consume contract) start actions).db ∧
      (∀ id, ∀ origin ∈ (runFrom (step consume contract) start actions).db.originsFor id,
        ∃ row ∈ (runFrom (step consume contract) start actions).db.grants, row.id = id ∧
          origin ∈ row.origins) ∧
      ∀ past action, past ++ [action] <+: actions → ∀ p g,
        ¬ (HoldsGrant (runFrom (step consume contract) start past).db p g ↔
            HoldsGrant (runFrom (step consume contract) start (past ++ [action])).db p g) →
          (runFrom (step consume contract) start past).db.generation p <
            (runFrom (step consume contract) start (past ++ [action])).db.generation p := by
  have reached : ∀ past, (∀ action ∈ past, action.writesGrants = true) →
      Sound (runFrom (step consume contract) start past).db ∧
        Mirrored (runFrom (step consume contract) start past).db := by
    intro past allowed
    refine runFrom_invariant_of_allowed (step consume contract)
      (fun _ action => action.writesGrants = true)
      (fun st => Sound st.db ∧ Mirrored st.db) ?_ past start ⟨sound, mirrored⟩
      (allowedFrom_of_forall _ _ start allowed)
    rintro st action st' ⟨sound, mirrored⟩ writes taken
    exact ⟨(step_keeps sound taken).1, (accounted_step sound mirrored writes taken).mirrored⟩
  refine ⟨(reached actions writes).2, fun id origin mem => ?_,
    fun past action earlier p g differs => ?_⟩
  · obtain ⟨row, stored, named, origins⟩ := originsFor_stored mem
    exact ⟨row, stored, named, origins ▸ mem⟩
  · have allowed : ∀ call ∈ past ++ [action], call.writesGrants = true := fun call mem =>
      writes call (earlier.subset mem)
    obtain ⟨sound, mirrored⟩ := reached past fun call mem => allowed call (mem_append_left _ mem)
    rw [runFrom_append] at differs ⊢
    cases taken : step consume contract (runFrom (step consume contract) start past) action with
    | none =>
      simp [runFrom, Lib.next, taken] at differs
    | some =>
      simp only [runFrom, Lib.next, taken, Option.getD_some] at differs ⊢
      exact (accounted_step sound mirrored (allowed action (by simp)) taken).advanced p g differs

/-- The one manager's grant is withdrawn and retained; a second manager cures the retention. -/
def retainedThenCured : List Action :=
  [.releaseSCIMOrigins 2 ⟨1, 1, fun _ => true, fun _ => true, .deprovision⟩ .ifAuthorityChanged,
   .breakGlassGrant ⟨1, .manageMembers, ⟨some 1, none, none⟩⟩ 0]

def provisionedManager : State Unit where
  db :=
    { twoProjects with
      principals := [⟨1, some .human, .active, 0, 0⟩, ⟨2, some .human, .active, 0, 0⟩]
      grants := [⟨1, 2, ⟨.manageMembers, ⟨some 1, none, none⟩⟩, [.scim ⟨1, 1, 1⟩]⟩]
      nextGrant := 2 }
  windows := ()

theorem retainedThenCured_mirrored :
    (runFrom (step (fun _ _ _ _ => none) localContract) provisionedManager
        retainedThenCured).db.grants.map
        (fun row => (row.principal, row.origins)) = [(1, [.breakGlass])] ∧
      Mirrored
        (runFrom (step (fun _ _ _ _ => none) localContract) provisionedManager
          retainedThenCured).db := by
  refine ⟨by decide +kernel, ?_⟩
  refine (grant_rows_mirror_origins (fun _ _ _ _ => none) localContract provisionedManager ?_ ?_
    retainedThenCured (by simp [retainedThenCured, Action.writesGrants])).1
  · refine ⟨by decide, by decide, by decide, by decide, ?_⟩
    rintro p g key ⟨row, _, -, rfl, -⟩
    revert row
    decide
  · exact ⟨by decide, by decide⟩

end Hikyo.Access
