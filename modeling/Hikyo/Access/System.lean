import Hikyo.Access.Effects
import Hikyo.Lib.Transition

/-!
# The access system

Every call that writes the grant table is one action of a serializable history, on a state of tables
and reauthentication windows.  `create_effect`, `applyTemplate_effect` and `revoke_effect` say what
an accepted call has checked and which keys it adds or removes.
-/

namespace Hikyo.Access

open Hikyo.Lib

variable {contract : Contract} {caller : Identity} {target : PrincipalID} {scope : Scope}
  {now : Time} {W : Type}

inductive Action
  | create (caller : Identity) (spec : GrantSpec) (now : Time)
  | applyTemplate (caller : Identity) (template : Template) (target : PrincipalID)
      (scope : Scope) (now : Time)
  | revoke (caller : Identity) (spec : GrantSpec)
  | breakGlassGrant (spec : GrantSpec) (now : Time)
  | attachSCIMOrigin (key : ScimOriginKey) (org : OrgID) (project : Option ProjectID)
      (env : Option EnvID)
      (target : PrincipalID) (capability : Capability) (now : Time)
  | releaseSCIMOrigins (principal : PrincipalID) (args : ReleaseArgs) (policy : AdvancePolicy)
  | applyPrivacySubject (principal : PrincipalID) (action : PrivacyAction)
      (expectedAccount : Option AccountID)

section System
variable (consume : W → Option SessionID → EnvID → Time → Option W) (contract : Contract)

def perform (st : State W) : Action → Except Error (State W)
  | .create caller spec now => (·.1) <$> create consume contract st caller spec now
  | .applyTemplate caller template target scope now =>
    (·.1) <$> applyTemplate consume contract st caller template target scope now
  | .revoke caller spec => revoke contract st caller spec
  | .breakGlassGrant spec now => (·.1) <$> breakGlassGrant st spec now
  | .attachSCIMOrigin key org project env target capability now =>
    (fun out => ⟨out.1, st.windows⟩) <$>
      attachSCIMOrigin st.db key org project env target capability now
  | .releaseSCIMOrigins principal args policy =>
      .ok ⟨(releaseAndSettle st.db principal args policy).1, st.windows⟩
  | .applyPrivacySubject principal action expectedAccount =>
    (fun db => ⟨db, st.windows⟩) <$> applyPrivacySubject st.db principal action expectedAccount

def step (st : State W) (action : Action) : Option (State W) :=
  (perform consume contract st action).toOption

end System

theorem step_eq_some {consume : W → Option SessionID → EnvID → Time → Option W} {st st' : State W}
    {action : Action} :
    step consume contract st action = some st' ↔ perform consume contract st action = .ok st' := by
  unfold step
  cases perform consume contract st action with
  | error | ok => simp [Except.toOption]

section Calls
variable {consume : W → Option SessionID → EnvID → Time → Option W} {st st' : State W}

inductive GrantedAll (consume : W → Option SessionID → EnvID → Time → Option W) (caller : Identity)
    (target : PrincipalID) (scope : Scope) (now : Time) : List Capability → State W → State W → Prop
  | nil (st : State W) : GrantedAll consume caller target scope now [] st st
  | cons {capability : Capability} {rest : List Capability} {st mid st' : State W}
      (first : Granted consume st mid caller ⟨target, capability, scope⟩ now)
      (later : GrantedAll consume caller target scope now rest mid st') :
      GrantedAll consume caller target scope now (capability :: rest) st st'

section Create
variable {spec : GrantSpec} {result : GrantResult}

theorem create_eq_ok (run : create consume contract st caller spec now = .ok (st', result)) :
    ∃ level proof mid, spec.scope.level = some level ∧
      authorize contract st.db caller (createOp level) spec.scope = .ok proof ∧
      grantOneWithInvalidation consume st caller spec level now true = .ok (mid, result) ∧
      cureIfMemberManagement mid.db spec.capability spec.scope result = .ok st'.db := by
  unfold create at run
  split at run
  · cases run
  rename_i level shaped
  obtain ⟨proof, allowed, run⟩ := bind_eq_ok.mp run
  obtain ⟨⟨mid, _⟩, grant, run⟩ := bind_eq_ok.mp run
  obtain ⟨_, cure, run⟩ := bind_eq_ok.mp run
  cases run
  exact ⟨level, proof, mid, shaped, allowed, grant, cure⟩

theorem create_effect (run : create consume contract st caller spec now = .ok (st', result)) :
    ∃ op proof mid, authorize contract st.db caller op spec.scope = .ok proof ∧
      Granted consume st mid caller spec now ∧ st'.db.surroundings = mid.db.surroundings ∧
      st'.db.keys.Sublist mid.db.keys := by
  obtain ⟨_, proof, mid, -, allowed, grant, cure⟩ := create_eq_ok run
  exact ⟨_, proof, mid, allowed, grantOne_effect grant, cureIfMemberManagement_effect cure⟩

end Create

theorem grantLoop_effect {level : Level} {caps : List Capability}
    {acc out : State W × List GrantResult}
    (run : caps.foldlM (fun (acc : State W × List GrantResult) capability => do
      let (next, result) ← grantOneWithInvalidation consume acc.1 caller
        ⟨target, capability, scope⟩ level now false
      pure (next, acc.2 ++ [result])) acc = .ok out) :
    GrantedAll consume caller target scope now caps acc.1 out.1 := by
  induction caps generalizing acc with
  | nil =>
    cases run
    exact .nil _
  | cons _ _ ih =>
    obtain ⟨_, first, later⟩ := bind_eq_ok.mp run
    obtain ⟨⟨_, _⟩, grant, shape⟩ := bind_eq_ok.mp first
    cases shape
    exact .cons (grantOne_effect grant) (ih later)

section Template
variable {template : Template} {results : List GrantResult}

section
variable (run : applyTemplate consume contract st caller template target scope now =
  .ok (st', results))
include run

theorem applyTemplate_eq_ok : ∃ level proof caps mid, scope.level = some level ∧
      authorize contract st.db caller (templateOp level) scope = .ok proof ∧
        expandTemplate template level = some caps ∧
      caps.foldlM (fun (acc : State W × List GrantResult) capability => do
        let (next, result) ← grantOneWithInvalidation consume acc.1 caller
          ⟨target, capability, scope⟩ level now false
        pure (next, acc.2 ++ [result])) (st, []) = .ok (mid, results) ∧
      (caps.zip results).foldlM (fun db entry => cureIfMemberManagement db entry.1 scope entry.2)
        (if results.any (·.outcome == .created) then mid.db.invalidateGrantChange target
          else mid.db) = .ok st'.db := by
  unfold applyTemplate at run
  split at run
  · cases run
  rename_i level shaped
  obtain ⟨proof, allowed, run⟩ := bind_eq_ok.mp run
  split at run
  · cases run
  rename_i caps expanded
  obtain ⟨⟨mid, _⟩, loop, run⟩ := bind_eq_ok.mp run
  obtain ⟨_, cures, run⟩ := bind_eq_ok.mp run
  cases run
  exact ⟨level, proof, caps, mid, shaped, allowed, expanded, loop, cures⟩

theorem applyTemplate_effect :
      ∃ op proof level caps mid, authorize contract st.db caller op scope = .ok proof ∧
      expandTemplate template level = some caps ∧
        GrantedAll consume caller target scope now caps st mid ∧
      st'.db.surroundings = mid.db.surroundings ∧ st'.db.keys.Sublist mid.db.keys := by
  obtain ⟨level, proof, caps, mid, -, allowed, expanded, loop, cures⟩ := applyTemplate_eq_ok run
  refine ⟨_, proof, level, caps, mid, allowed, expanded, grantLoop_effect loop, ?_⟩
  -- Ending the sessions leaves the rows alone, and the cures only remove some.
  refine foldlM_invariant
    (fun db => db.surroundings = mid.db.surroundings ∧ db.keys.Sublist mid.db.keys) ?_ ?_ cures
  · intro entry _ before after ⟨same, fewer⟩ cure
    obtain ⟨same', fewer'⟩ := cureIfMemberManagement_effect cure
    exact ⟨same'.trans same, fewer'.trans fewer⟩
  split
  · exact ⟨invalidateGrantChange_surroundings _ _, List.Sublist.refl _⟩
  · exact ⟨rfl, List.Sublist.refl _⟩

end

end Template

theorem revoke_eq_ok {spec : GrantSpec} (run : revoke contract st caller spec = .ok st') :
    spec.scope.level ≠ none ∧ (st.db.principal? spec.target).isSome = true ∧
      ∃ existing ∈ st.db.grants, existing.principal = spec.target ∧
        existing.grant = ⟨spec.capability, spec.scope⟩ ∧
        checkRowLockout st.db spec existing.origins = .ok () ∧
        ∃ released, released = (existing.origins.filter (·.isMintable)).foldl
            (fun db origin => db.releaseGrantOrigin existing.id origin) st.db ∧
          st'.db = if released.originsFor existing.id = [] then
            (released.deleteGrantRow existing.id).invalidateGrantChange spec.target
            else released := by
  unfold revoke at run
  split at run
  · cases run
  rename_i level shaped
  obtain ⟨_, _, run⟩ := bind_eq_ok.mp run
  obtain ⟨known, run⟩ := require_bind_eq_ok.mp run
  split at run
  · cases run
  rename_i existing found
  obtain ⟨mem, mine, grant⟩ := findGrant_some found
  obtain ⟨_, lockout, run⟩ := bind_eq_ok.mp run
  obtain ⟨_, run⟩ := require_bind_eq_ok.mp run
  cases run
  exact ⟨by simp [shaped], known, existing, mem, mine, grant, lockout, _, rfl, rfl⟩

theorem revoke_effect {spec : GrantSpec} (run : revoke contract st caller spec = .ok st') :
    st'.db.surroundings = st.db.surroundings ∧ ∃ existing ∈ st.db.grants, existing.principal =
        spec.target ∧
        existing.grant = ⟨spec.capability, spec.scope⟩ ∧
        (st'.db.keys = st.db.keys ∨ st'.db.keys = st.db.keys.filter (·.id ≠ existing.id)) := by
  obtain ⟨_, _, existing, mem, mine, grant, _, _, rfl, result⟩ := revoke_eq_ok run
  rw [result, foldl_release_eq]
  refine ⟨?_, existing, mem, mine, grant, ?_⟩
  · split <;> simp
  split
  · right
    simp
  · exact .inl (setOrigins_keys _ _ _)

end Calls

end Hikyo.Access
