import Hikyo.Access.Isolation
import Hikyo.Access.Writers

/-!
# The last member manager stays

`member_management_survives`: a place that has a member manager in force has one after every further
history of grants, revocations, template applications, releases of the provisioning side and privacy
operations.  For the writers of the grant table this is `Write.keeps`; a privacy operation takes no
row away but puts a principal out of force, and `checkPrivacyLockout_alternative` is its own check.
-/

namespace Hikyo.Access

open Hikyo.Lib List

variable {principal : Principal} {action : PrivacyAction}

section Privacy
variable {db : Db} {p : PrincipalID}

theorem isActive_setPrivacyState_other {other : PrincipalID} (elsewhere : other ≠ p)
    (state : PrivacyState) :
    (db.setPrivacyState p state).isActive other = db.isActive other := by
  simp only [Db.isActive, Db.setPrivacyState, any_map]
  congr 1
  funext row
  by_cases named : row.id = p ∧ row.class_ = some .human ∧ row.privacy ≠ .erased
  · have different : (p == other) = false := beq_false_of_ne elsewhere.symm
    simp [named, different]
  · simp [named]

theorem isActive_setPrivacyState_active (active : db.isActive p = true) :
    (db.setPrivacyState p .active).isActive p = true := by
  simp only [Db.isActive, Db.setPrivacyState, any_map, any_eq_true, Function.comp] at active ⊢
  obtain ⟨row, mem, isActive⟩ := active
  refine ⟨row, mem, ?_⟩
  split
  · simpa using (Bool.and_eq_true_iff.mp isActive).1
  · exact isActive

theorem Sound.privacy_of_isActive (sound : Sound db) (found : db.principal? p = some principal)
    (active : db.isActive p = true) : principal.privacy = .active := by
  simp only [Db.isActive, any_eq_true, Bool.and_eq_true, beq_iff_eq] at active
  obtain ⟨_, mem, named, isActive⟩ := active
  have same := (find?_eq_some_iff_of_nodup sound.people).mpr ⟨mem, named⟩
  rw [Db.principal?, same] at found
  cases found
  exact isActive

theorem alternativeManager_iff {org : Option OrgID} :
    alternativeManager db p org = true ↔ ∃ key, Seat db key ∧ key.principal ≠ p ∧
      Manages org key.grant := by
  simp only [alternativeManager, any_eq_true, mem_manageMembersHolders, decide_eq_true_eq]
  constructor
  · rintro ⟨_, ⟨key, seat, rfl, manages⟩, other⟩
    exact ⟨key, seat, other, manages⟩
  · rintro ⟨key, seat, other, manages⟩
    exact ⟨key.principal, ⟨key, seat, rfl, manages⟩, other⟩

theorem checkPrivacyLockout_alternative
    (check : checkPrivacyLockout db principal action = .ok ())
    (active : principal.privacy = .active) (leaves : action ≠ .release) {key : GrantKey}
    (mem : key ∈ db.keys) (mine : key.principal = principal.id)
    (capability : key.grant.capability = .manageMembers)
    (shallow : key.grant.scope.project = none) :
    ∃ other, Seat db other ∧ other.principal ≠ principal.id ∧
      Manages key.grant.scope.org other.grant := by
  rw [checkPrivacyLockout, if_pos ⟨active, leaves⟩] at check
  have managed : key.grant.scope.org ∈ managedOrgs db principal.id := by
    obtain ⟨row, stored, rfl⟩ := mem_keys.mp mem
    simp only [managedOrgs, Db.grantRowsForPrincipal, mem_dedup, mem_map, mem_filter,
      Bool.and_eq_true, beq_iff_eq]
    exact ⟨row, ⟨⟨stored, mine⟩, capability, shallow⟩, rfl⟩
  exact alternativeManager_iff.mp ((require_eq_ok _ _ ()).mp (forM_eq_ok.mp check _ managed))

section
variable {db' : Db} {expected : Option AccountID}
  (run : applyPrivacySubject db p action expected = .ok db')
include run

theorem applyPrivacySubject_eq_ok :
    ∃ principal, db.principal? p = some principal ∧
      checkPrivacyLockout db principal action = .ok () ∧
      db' = if action = .erase then
        ((db.setPrivacyState p action.state).revokeAllSessionsFor p).erasePrivacyAccount p
        else (db.setPrivacyState p action.state).revokeAllSessionsFor p := by
  unfold applyPrivacySubject at run
  split at run
  · rename_i principal account found _
    obtain ⟨_, run⟩ := require_bind_eq_ok.mp run
    obtain ⟨_, run⟩ := require_bind_eq_ok.mp run
    obtain ⟨_, check, run⟩ := bind_eq_ok.mp run
    cases run
    exact ⟨principal, found, check, rfl⟩
  · cases run

theorem applyPrivacySubject_sound (sound : Sound db) : Sound db' := by
  obtain ⟨_, _, _, rfl⟩ := applyPrivacySubject_eq_ok run
  have settled : Sound ((db.setPrivacyState p action.state).revokeAllSessionsFor p) := by
    refine ⟨sound.ids, sound.fresh, ?_, sound.shaped, sound.tenant⟩
    have sameIds : (db.setPrivacyState p action.state).principals.map (·.id) =
        db.principals.map (·.id) := by
      simp only [Db.setPrivacyState, map_map]
      refine map_congr_left fun row _ => ?_
      simp only [Function.comp]
      split <;> rfl
    exact sameIds ▸ sound.people
  split
  · have fewer :
        (((db.setPrivacyState p action.state).revokeAllSessionsFor p).erasePrivacyAccount
          p).keys.Sublist
        ((db.setPrivacyState p action.state).revokeAllSessionsFor p).keys := filter_sublist.map _
    refine ⟨settled.ids.sublist (fewer.map _), fun key mem => settled.fresh key (fewer.subset mem),
      settled.people, fun key mem => settled.shaped key (fewer.subset mem), ?_⟩
    rintro q g key ⟨row, stored, mine, same, mem⟩
    exact settled.tenant q g key ⟨row, mem_of_mem_filter stored, mine, same, mem⟩
  · exact settled

theorem applyPrivacySubject_keeps (sound : Sound db) : Keeps db db' := by
  have sound' := applyPrivacySubject_sound run sound
  obtain ⟨principal, found, check, result⟩ := applyPrivacySubject_eq_ok run
  have isSubject : principal.id = p := by simpa using find?_some found
  -- The rows and the state of everybody else are untouched.
  have others : ∀ key, Seat db key → key.principal ≠ p → Seat db' key := by
    rintro key ⟨mem, active⟩ elsewhere
    have stillActive : (db.setPrivacyState p action.state).isActive key.principal = true :=
      (isActive_setPrivacyState_other elsewhere _).trans active
    obtain ⟨_, stored, rfl⟩ := mem_keys.mp mem
    rw [result]
    split
    · exact ⟨key_mem (mem_filter.mpr ⟨stored, decide_eq_true elsewhere⟩), stillActive⟩
    · exact ⟨mem, stillActive⟩
  refine keeps_of_substitutes sound.shaped sound'.shaped fun key seat capability shallow => ?_
  by_cases mine : key.principal = p
  · by_cases released : action = .release
    · subst released
      refine ⟨key, ⟨?_, ?_⟩, manages_own capability shallow⟩
      · rw [result, if_neg (by simp)]
        exact seat.1
      · rw [result, if_neg (by simp), mine]
        exact isActive_setPrivacyState_active (mine ▸ seat.2)
    have active := sound.privacy_of_isActive found (mine ▸ seat.2)
    obtain ⟨other, seat', elsewhere, there⟩ :=
      checkPrivacyLockout_alternative check active released seat.1 (mine.trans isSubject.symm)
        capability shallow
    exact ⟨other, others other seat' (isSubject ▸ elsewhere), there⟩
  · exact ⟨key, others key seat mine, manages_own capability shallow⟩

end

end Privacy

section History
variable {W : Type} {consume : W → Option SessionID → EnvID → Time → Option W} {contract : Contract}
  {st st' : State W}

theorem step_keeps {action : Action} (sound : Sound st.db)
    (taken : step consume contract st action = some st') :
    Sound st'.db ∧ Keeps st.db st'.db := by
  have settle : ∀ {adds drops : PrincipalID → Grant → Origin → Prop},
      (∀ p g key, adds p g (.scim key) → g.scope.org ≠ none) → Writes adds drops st.db st'.db →
      Sound st'.db ∧ Keeps st.db st'.db := fun tenant writes =>
    ⟨(writes.settled tenant sound).sound, (writes.settled tenant sound).keeps⟩
  rw [step_eq_some] at taken
  cases action with
  | create =>
    obtain ⟨⟨next, result⟩, run, rfl⟩ := map_eq_ok.mp taken
    exact settle mintable_not_scim (create_writes sound run)
  | applyTemplate =>
    obtain ⟨⟨next, _⟩, run, rfl⟩ := map_eq_ok.mp taken
    exact settle mintable_not_scim (applyTemplate_writes sound run)
  | revoke => exact settle (fun _ _ _ never => never.elim) (revoke_writes sound taken)
  | breakGlassGrant =>
    obtain ⟨⟨_, result⟩, run, rfl⟩ := map_eq_ok.mp taken
    exact settle mintable_not_scim (breakGlassGrant_writes sound run)
  | attachSCIMOrigin =>
    obtain ⟨⟨db, _⟩, run, rfl⟩ := map_eq_ok.mp taken
    refine settle (fun _ _ _ added => ?_) (attachSCIMOrigin_writes sound run)
    rw [added.2.1]
    exact nofun
  | releaseSCIMOrigins principal args policy =>
    cases taken
    exact settle (fun _ _ _ never => nomatch never)
      (releaseAndSettle_writes sound principal args policy)
  | applyPrivacySubject =>
    obtain ⟨_, run, rfl⟩ := map_eq_ok.mp taken
    exact ⟨applyPrivacySubject_sound run sound, applyPrivacySubject_keeps run sound⟩

end History

/-- A place that has a member manager in force has one after every further history. -/
theorem member_management_survives {W : Type}
    (consume : W → Option SessionID → EnvID → Time → Option W) (contract : Contract)
    (start : State W) (sound : Sound start.db) (past later : List Action) (org : Option OrgID)
    (managed : (runFrom (step consume contract) start past).db.manageMembersHolders org ≠ []) :
    (runFrom (step consume contract) start (past ++ later)).db.manageMembersHolders org ≠ [] := by
  have reached : Sound (runFrom (step consume contract) start past).db :=
    runFrom_invariant _ (fun st : State W => Sound st.db)
      (fun _ _ _ sound taken => (step_keeps sound taken).1) past start sound
  rw [← managed_iff] at managed ⊢
  rw [runFrom_append]
  refine (runFrom_invariant _ (fun st : State W => Sound st.db ∧ Managed st.db org) ?_ later _
    ⟨reached, managed⟩).2
  rintro st action st' ⟨sound, managed⟩ taken
  obtain ⟨sound', keeps⟩ := step_keeps sound taken
  exact ⟨sound', keeps org managed⟩

/-! One organisation with two member managers, one of them provisioned. -/

def twoManagers : State Unit where
  db :=
    { twoProjects with
      principals := [⟨1, some .human, .active, 0, 0⟩, ⟨2, some .human, .active, 0, 0⟩]
      accounts := [⟨1, 1⟩, ⟨2, 2⟩]
      grants :=
        [⟨1, 1, ⟨.manageMembers, ⟨some 1, none, none⟩⟩, [.breakGlass]⟩,
         ⟨2, 2, ⟨.manageMembers, ⟨some 1, none, none⟩⟩, [.scim ⟨1, 1, 1⟩]⟩]
      nextGrant := 3 }
  windows := ()

def bothLeave : List Action :=
  [.applyPrivacySubject 1 .restrict none,
   .releaseSCIMOrigins 2 ⟨1, 1, fun _ => true, fun _ => true, .deprovision⟩ .always]

theorem twoManagers_one_survives :
    (runFrom (step (fun _ _ _ _ => none) localContract) twoManagers bothLeave).db.grants.map
        (·.origins) =
        [[.breakGlass], [.lockoutRetention 1 .deprovision]] ∧
      (runFrom (step (fun _ _ _ _ => none) localContract) twoManagers
        bothLeave).db.manageMembersHolders (some 1) ≠
        [] := by
  refine ⟨by decide +kernel, ?_⟩
  refine member_management_survives (fun _ _ _ _ => none) localContract twoManagers ?_ [] bothLeave
    (some 1)
    (by decide)
  refine ⟨by decide, by decide, by decide, by decide, ?_⟩
  rintro p g key ⟨row, _, -, rfl, -⟩
  revert row
  decide

end Hikyo.Access
