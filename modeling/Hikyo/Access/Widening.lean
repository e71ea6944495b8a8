import Hikyo.Access.System
import Hikyo.Access.Isolation

/-!
# Widening what a machine can read

`widening_needs_disclosure`: if a call makes some plaintext reachable to a service account that
could not reach it before, then the caller of that call held the matching disclosure capability
there when the call began.  The gate of `checkMachineWidening` looks at one grant at a time; a
template is several grants in one call, and `GrantedAll.widens_from_start` carries the gate back to
the start of the call.
-/

namespace Hikyo.Access

open Hikyo.Lib List

variable {capability disclosure : Capability} {contract : Contract} {env : EnvID}
  {caller : Identity} {caps : List Capability} {grants : List Grant} {org : OrgID}
  {p target : PrincipalID} {project : ProjectID} {at_ scope : Scope} {now : Time} {W : Type}
  {windows : W}

def Db.reachable (db : Db) (p : PrincipalID) (org : OrgID) (project : ProjectID) : Reachable :=
  reachableFrom org project (db.environmentsInProject org project) (db.grantsOf p)

def Reads (grants : List Grant) (disclosure : Capability) (at_ : Scope) : Prop :=
  coveredBy grants .read at_ = true ∧ coveredBy grants disclosure at_ = true

theorem Reads.mono {held more : List Grant} (kept : ∀ g ∈ held, g ∈ more)
    (reads : Reads held disclosure at_) : Reads more disclosure at_ :=
  ⟨coveredBy_mono kept reads.1, coveredBy_mono kept reads.2⟩

def Reachable.of (reach : Reachable) : Capability → List EnvID
  | .reveal => reach.current
  | .revealHistory => reach.historical
  | _ => []

def isDisclosure (capability : Capability) : Prop :=
  capability = .reveal ∨ capability = .revealHistory

theorem mem_reachableFrom {envs : List EnvID} (kind : isDisclosure disclosure) :
    env ∈ (reachableFrom org project envs grants).of disclosure ↔
      env ∈ envs ∧ Reads grants disclosure ⟨some org, some project, some env⟩ := by
  rcases kind with rfl | rfl <;> simp [Reachable.of, reachableFrom, Reads]

section Gate
variable {consume : W → Option SessionID → EnvID → Time → Option W}

variable {st : State W} {spec : GrantSpec} {g : Grant} {actorRows : List GrantRow}
  {class_ : Option PrincipalClass}

theorem requireDisclosureAuthority_holds {windows' : W} {current historical : List EnvID}
    (run : requireDisclosureAuthority consume windows caller actorRows org project current
      historical now =
      .ok windows') : (∀ env ∈ current, holds actorRows .reveal ⟨some org, some project, some env⟩ =
        true) ∧
    (∀ env ∈ historical, holds actorRows .revealHistory ⟨some org, some project, some env⟩ =
      true) := by
  obtain ⟨_, first, run⟩ := bind_eq_ok.mp run
  obtain ⟨_, second, _⟩ := bind_eq_ok.mp run
  refine ⟨fun env mem => ?_, fun env mem => ?_⟩
  · exact (require_eq_ok _ _ ()).mp (forM_eq_ok.mp first env mem)
  · exact (require_eq_ok _ _ ()).mp (forM_eq_ok.mp second env mem)

theorem checkMachineWidening_holds (machine : isMachineClass class_ = true)
    (relevant : isDisclosureRelevant spec.capability = true)
    (run : checkMachineWidening consume st caller actorRows spec class_ now = .ok windows) :
    ∃ org project, spec.scope.org = some org ∧ spec.scope.project = some project ∧
      ∀ disclosure, isDisclosure disclosure → ∀ env ∈ st.db.environmentsInProject org project,
        Reads (st.db.grantsOf spec.target ++ [⟨spec.capability, spec.scope⟩]) disclosure
          ⟨some org, some project, some env⟩ →
        ¬ Reads (st.db.grantsOf spec.target) disclosure ⟨some org, some project, some env⟩ →
        holds actorRows disclosure ⟨some org, some project, some env⟩ = true := by
  unfold checkMachineWidening at run
  simp only [machine, relevant, Bool.not_true, Bool.or_self, Bool.false_eq_true, if_false] at run
  split at run
  · rename_i org project hasOrg hasProject
    refine ⟨org, project, hasOrg, hasProject, fun disclosure kind env mem reads unread => ?_⟩
    -- The environment is in the difference the gate looked at.
    have isNew : ∀ d, isDisclosure d → d = disclosure →
        env ∈ newlyReachable
          ((reachableFrom org project (st.db.environmentsInProject org project)
            (st.db.grantsOf spec.target)).of d)
          ((reachableFrom org project (st.db.environmentsInProject org project)
            (st.db.grantsOf spec.target ++ [⟨spec.capability, spec.scope⟩])).of d) := by
      rintro d _ rfl
      simp only [newlyReachable, mem_filter, mem_reachableFrom kind, decide_eq_true_eq,
        mem, true_and]
      exact ⟨reads, unread⟩
    split at run
    · rename_i nothing
      simp only [Bool.and_eq_true, List.isEmpty_iff] at nothing
      rcases kind with rfl | rfl
      · exact absurd (isNew .reveal (.inl rfl) rfl)
          (by rw [Reachable.of, Reachable.of, nothing.1]; simp)
      · exact absurd (isNew .revealHistory (.inr rfl) rfl)
          (by rw [Reachable.of, Reachable.of, nothing.2]; simp)
    obtain ⟨_, run⟩ := require_bind_eq_ok.mp run
    obtain ⟨current, historical⟩ := requireDisclosureAuthority_holds run
    rcases kind with rfl | rfl
    · exact current env (isNew .reveal (.inl rfl) rfl)
    · exact historical env (isNew .revealHistory (.inr rfl) rfl)
  · cases run

theorem lockAndClassify_class {db : Db}
    (run : lockAndClassify db now target capability scope = .ok class_) :
    db.classOf target = some class_ := by
  unfold lockAndClassify at run
  unfold Db.classOf
  split at run
  · cases run
  rename_i principal found
  rw [found]
  split at run
  · obtain ⟨_, _, run⟩ := bind_eq_ok.mp run
    cases run
    rfl
  obtain ⟨_, _, run⟩ := bind_eq_ok.mp run
  obtain ⟨_, _, run⟩ := bind_eq_ok.mp run
  obtain ⟨_, _, run⟩ := bind_eq_ok.mp run
  cases run
  rfl

theorem Granted.grantsOf {st' : State W} (granted : Granted consume st st' caller spec now)
    (held : g ∈ st'.db.grantsOf p) :
    g ∈ st.db.grantsOf p ∨ p = spec.target ∧ g = ⟨spec.capability, spec.scope⟩ := by
  obtain ⟨inForce, key, mem, mine, same⟩ := mem_grantsOf.mp held
  rw [rowsInForce_congr granted.surroundings] at inForce
  rcases granted.keys with ⟨keys, _⟩ | keys
  · rw [keys] at mem
    exact .inl (mem_grantsOf.mpr ⟨inForce, key, mem, mine, same⟩)
  rw [keys, mem_append, mem_singleton] at mem
  rcases mem with mem | rfl
  · exact .inl (mem_grantsOf.mpr ⟨inForce, key, mem, mine, same⟩)
  · exact .inr ⟨mine.symm, same.symm⟩

theorem coveredBy_append_one (covered : coveredBy (grants ++ [g]) capability at_ = true) :
    coveredBy grants capability at_ = true ∨ g.capability = capability ∧
      covers g.scope at_ = true := by
  obtain ⟨g', mem, same, above⟩ := coveredBy_iff.mp covered
  rw [mem_append, mem_singleton] at mem
  rcases mem with mem | rfl
  · exact .inl (coveredBy_iff.mpr ⟨g', mem, same, above⟩)
  · exact .inr ⟨same, above⟩

theorem Reads.completed (reads : Reads (grants ++ [g]) disclosure at_)
    (unread : ¬ Reads grants disclosure at_) :
    covers g.scope at_ = true ∧
      (g.capability = .read ∨ g.capability = disclosure ∧
        coveredBy grants disclosure at_ ≠ true) := by
  rcases coveredBy_append_one reads.1 with readHeld | ⟨isRead, above⟩
  · rcases coveredBy_append_one reads.2 with held | ⟨isDisclosing, above⟩
    · exact absurd ⟨readHeld, held⟩ unread
    · exact ⟨above, .inr ⟨isDisclosing, fun held => unread ⟨readHeld, held⟩⟩⟩
  · exact ⟨above, .inl isRead⟩

theorem isDisclosureRelevant_of (kind : isDisclosure disclosure)
    (completing : capability = .read ∨ capability = disclosure) :
    isDisclosureRelevant capability = true := by
  rcases completing with rfl | rfl
  · rfl
  · rcases kind with rfl | rfl <;> rfl

theorem Granted.widens {st' : State W} (granted : Granted consume st st' caller spec now)
    (account : (st.db.classOf p).any isServiceAccountKind = true) (kind : isDisclosure disclosure)
    (place : env ∈ st.db.environmentsInProject org project)
    (reads : Reads (st'.db.grantsOf p) disclosure ⟨some org, some project, some env⟩)
    (unread : ¬ Reads (st.db.grantsOf p) disclosure ⟨some org, some project, some env⟩) :
      p = spec.target ∧
      holds (st.db.grantRowsForPrincipal caller.principal) disclosure
        ⟨some org, some project, some env⟩ = true ∧
      (spec.capability = .read ∨
        coveredBy (st.db.grantsOf p) disclosure ⟨some org, some project, some env⟩ ≠ true) := by
  have isTarget : p = spec.target := by
    by_contra other
    exact unread (reads.mono fun g held => (granted.grantsOf held).resolve_right fun added =>
      other added.1)
  subst isTarget
  have afterwards : Reads (st.db.grantsOf spec.target ++ [⟨spec.capability, spec.scope⟩]) disclosure
      ⟨some org, some project, some env⟩ := by
    refine reads.mono fun g held => ?_
    rcases granted.grantsOf held with held | ⟨_, rfl⟩
    · exact mem_append_left _ held
    · exact mem_append_right _ (.head _)
  obtain ⟨above, completing⟩ := afterwards.completed unread
  obtain ⟨class_, classified, gate⟩ := granted.classified
  have machine : isMachineClass class_ = true := by
    rw [lockAndClassify_class classified] at account
    revert account
    rcases class_ with _ | _ | _ | _ | _ | _ <;> simp [isServiceAccountKind, isMachineClass]
  obtain ⟨org', project', hasOrg, hasProject, gated⟩ := checkMachineWidening_holds machine
    (isDisclosureRelevant_of kind (completing.imp id And.left)) gate
  -- The grant covers the environment, so the project the gate looked at is the environment's.
  have sameProject : org' = org ∧ project' = project := by
    rw [covers_iff, hasOrg, hasProject] at above
    simp only [reduceCtorEq, Option.some.injEq, false_or] at above
    exact ⟨above.1, above.2.1⟩
  obtain ⟨rfl, rfl⟩ := sameProject
  exact ⟨rfl, gated disclosure kind env place afterwards unread, completing.imp id And.right⟩

end Gate

theorem expandTemplate_read_first {template : Template} {level : Level}
    (expanded : expandTemplate template level = some caps) : .read ∉ caps.tail := by
  cases template <;> cases level <;> simp_all [expandTemplate, templates, tenantLevels, orgProject,
    operatorSet] <;>
    subst expanded <;> simp

section Call
variable {consume : W → Option SessionID → EnvID → Time → Option W}

def Extends (start st : State W) (target : PrincipalID) (scope : Scope) : Prop :=
  st.db.surroundings = start.db.surroundings ∧
    ∀ key ∈ st.db.keys, key ∈ start.db.keys ∨ key.principal = target ∧ key.grant.scope = scope

variable {st st' : State W}

theorem Extends.granted {start : State W} (extends_ : Extends start st target scope)
    (granted : Granted consume st st' caller ⟨target, capability, scope⟩ now) :
    Extends start st' target scope := by
  refine ⟨granted.surroundings.trans extends_.1, fun key mem => ?_⟩
  rcases granted.keys with ⟨keys, _⟩ | keys
  · exact extends_.2 key (keys ▸ mem)
  rw [keys, mem_append, mem_singleton] at mem
  rcases mem with mem | rfl
  · exact extends_.2 key mem
  · exact .inr ⟨rfl, rfl⟩

/-- A disclosure held when a template widens was held at the start: had the template just given it,
the widened account would be the caller. -/
theorem GrantedAll.widens {start : State W}
    (granted : GrantedAll consume caller target scope now caps st st')
    (extends_ : Extends start st target scope) (noRead : .read ∉ caps)
    (account : (start.db.classOf p).any isServiceAccountKind = true)
    (kind : isDisclosure disclosure) (place : env ∈ start.db.environmentsInProject org project)
    (inForce : start.db.rowsInForce caller.principal = true)
    (reads : Reads (st'.db.grantsOf p) disclosure ⟨some org, some project, some env⟩)
    (unread : ¬ Reads (st.db.grantsOf p) disclosure ⟨some org, some project, some env⟩) :
    holds (start.db.grantRowsForPrincipal caller.principal) disclosure
      ⟨some org, some project, some env⟩ = true := by
  induction granted with
  | nil => exact absurd reads unread
  | @cons _ _ _ mid _ first _ ih =>
    rw [mem_cons, not_or] at noRead
    by_cases midway : Reads (mid.db.grantsOf p) disclosure ⟨some org, some project, some env⟩
    · obtain ⟨isTarget, held, completing⟩ := first.widens
        (by rw [classOf_congr extends_.1]; exact account) kind
        (by rw [environmentsInProject_congr extends_.1]; exact place) midway unread
      have uncovered := completing.resolve_left (Ne.symm noRead.1)
      obtain ⟨key, mem, mine, same, above⟩ := holds_iff.mp held
      rcases extends_.2 key mem with old | ⟨isCaller, _⟩
      · exact holds_iff.mpr ⟨key, old, mine, same, above⟩
      refine absurd (coveredBy_iff.mpr ⟨key.grant, mem_grantsOf.mpr ⟨?_, key, mem, ?_, rfl⟩, same,
        above⟩)
        uncovered
      · rw [rowsInForce_congr extends_.1, isTarget]
        rw [mine] at isCaller
        exact isCaller ▸ inForce
      · exact isCaller.trans isTarget.symm
    · exact ih (extends_.granted first) noRead.2 reads midway

/-- The call's first grant may be `read`: it is checked in the state before the call. -/
theorem GrantedAll.widens_from_start
    (granted : GrantedAll consume caller target scope now caps st st')
    (readFirst : .read ∉ caps.tail) (account : (st.db.classOf p).any isServiceAccountKind = true)
    (kind : isDisclosure disclosure) (place : env ∈ st.db.environmentsInProject org project)
    (inForce : st.db.rowsInForce caller.principal = true)
    (reads : Reads (st'.db.grantsOf p) disclosure ⟨some org, some project, some env⟩)
    (unread : ¬ Reads (st.db.grantsOf p) disclosure ⟨some org, some project, some env⟩) :
    holds (st.db.grantRowsForPrincipal caller.principal) disclosure
      ⟨some org, some project, some env⟩ = true := by
  cases granted with
  | nil => exact absurd reads unread
  | @cons _ _ _ mid _ first later =>
    by_cases midway : Reads (mid.db.grantsOf p) disclosure ⟨some org, some project, some env⟩
    · exact (first.widens account kind place midway unread).2.1
    · have unchanged : Extends st st target scope := ⟨rfl, fun key mem => .inl mem⟩
      exact later.widens (unchanged.granted first) readFirst account kind place inForce reads midway

end Call

def Action.grantCaller : Action → Option Identity
  | .create caller _ _ => some caller
  | .applyTemplate caller _ _ _ _ => some caller
  | _ => none

section History
variable {consume : W → Option SessionID → EnvID → Time → Option W} {st st' : State W}

theorem grantCall_effect {action : Action} (isCall : action.grantCaller = some caller)
    (taken : step consume contract st action = some st') :
    st.db.rowsInForce caller.principal = true ∧
    ∃ target scope now caps mid, GrantedAll consume caller target scope now caps st mid ∧
      .read ∉ caps.tail ∧
      st'.db.surroundings = mid.db.surroundings ∧ st'.db.keys.Sublist mid.db.keys := by
  rw [step_eq_some] at taken
  cases action with
  | create _ spec now =>
    cases isCall
    obtain ⟨⟨next, _⟩, run, rfl⟩ := map_eq_ok.mp taken
    obtain ⟨_, _, mid, allowed, granted, same, fewer⟩ := create_effect run
    exact ⟨authorize_inForce allowed, spec.target, spec.scope, now, [spec.capability], mid,
      .cons granted (.nil mid), not_mem_nil, same, fewer⟩
  | applyTemplate _ _ target scope now =>
    cases isCall
    obtain ⟨⟨_, _⟩, run, rfl⟩ := map_eq_ok.mp taken
    obtain ⟨_, _, _, caps, mid, allowed, expanded, granted, same, fewer⟩ := applyTemplate_effect run
    exact ⟨authorize_inForce allowed, target, scope, now, caps, mid, granted,
      expandTemplate_read_first expanded, same, fewer⟩
  | revoke | breakGlassGrant | attachSCIMOrigin | releaseSCIMOrigins | applyPrivacySubject =>
      cases isCall

theorem GrantedAll.surroundings (granted : GrantedAll consume caller target scope now caps st st') :
    st'.db.surroundings = st.db.surroundings := by
  induction granted with
  | nil => rfl
  | cons first _ ih => exact ih.trans first.surroundings

theorem grantCall_widens {action : Action} (isCall : action.grantCaller = some caller)
    (taken : step consume contract st action = some st')
    (account : (st.db.classOf p).any isServiceAccountKind = true) (kind : isDisclosure disclosure)
    (reached : env ∈ (st'.db.reachable p org project).of disclosure)
    (unreached : env ∉ (st.db.reachable p org project).of disclosure) :
    coveredBy (st.db.grantsOf caller.principal) disclosure ⟨some org, some project, some env⟩ =
      true := by
  obtain ⟨inForce, _, _, _, _, mid, granted, readFirst, same, fewer⟩ :=
    grantCall_effect isCall taken
  obtain ⟨place, reads⟩ := (mem_reachableFrom kind).mp reached
  rw [environmentsInProject_congr (same.trans granted.surroundings)] at place
  have unread : ¬ Reads (st.db.grantsOf p) disclosure ⟨some org, some project, some env⟩ :=
    fun reads => unreached ((mem_reachableFrom kind).mpr ⟨place, reads⟩)
  -- The cures that end the call only take rows away.
  have readsMid : Reads (mid.db.grantsOf p) disclosure ⟨some org, some project, some env⟩ :=
    reads.mono fun g held => grantsOf_mono same (fun key mem => ⟨key, fewer.subset mem, rfl, rfl⟩)
      held
  have held := granted.widens_from_start readFirst account kind place inForce readsMid unread
  obtain ⟨key, mem, mine, capability, above⟩ := holds_iff.mp held
  exact coveredBy_iff.mpr ⟨key.grant, mem_grantsOf.mpr ⟨inForce, key, mem, mine, rfl⟩,
    capability, above⟩

end History

/-- What a call makes reachable to a service account is disclosed to the caller of that call. -/
theorem widening_needs_disclosure {W : Type}
    (consume : W → Option SessionID → EnvID → Time → Option W) (contract : Contract)
    (start : State W) (past : List Action) (action : Action)
    (calls : ∀ call ∈ past ++ [action], call.grantCaller.isSome = true) (p : PrincipalID)
    (account : ((runFrom (step consume contract) start past).db.classOf p).any
      isServiceAccountKind = true) (org : OrgID) (project : ProjectID) (env : EnvID) :
    (env ∈ ((runFrom (step consume contract) start (past ++ [action])).db.reachable p org
      project).current →
      env ∉ ((runFrom (step consume contract) start past).db.reachable p org project).current →
      ∃ caller, action.grantCaller = some caller ∧
        coveredBy ((runFrom (step consume contract) start past).db.grantsOf caller.principal)
          .reveal
          ⟨some org, some project, some env⟩ = true) ∧
    (env ∈ ((runFrom (step consume contract) start (past ++ [action])).db.reachable p org
      project).historical →
      env ∉ ((runFrom (step consume contract) start past).db.reachable p org project).historical →
      ∃ caller, action.grantCaller = some caller ∧
        coveredBy ((runFrom (step consume contract) start past).db.grantsOf caller.principal)
          .revealHistory
          ⟨some org, some project, some env⟩ = true) := by
  obtain ⟨caller, isCall⟩ := Option.isSome_iff_exists.mp (calls action (by simp))
  have widens : ∀ disclosure, isDisclosure disclosure →
      env ∈ ((runFrom (step consume contract) start (past ++ [action])).db.reachable p org
        project).of disclosure →
      env ∉ ((runFrom (step consume contract) start past).db.reachable p org project).of
        disclosure →
      coveredBy ((runFrom (step consume contract) start past).db.grantsOf caller.principal)
        disclosure
        ⟨some org, some project, some env⟩ = true := by
    intro _ kind reached unreached
    rw [runFrom_append] at reached
    cases taken : step consume contract (runFrom (step consume contract) start past) action with
    | none =>
      simp only [runFrom, Lib.next, taken, Option.getD_none] at reached
      exact absurd reached unreached
    | some =>
      simp only [runFrom, Lib.next, taken, Option.getD_some] at reached
      exact grantCall_widens isCall taken account kind reached unreached
  exact ⟨fun reached unreached => ⟨caller, isCall, widens .reveal (.inl rfl) reached unreached⟩,
    fun reached unreached => ⟨caller, isCall, widens .revealHistory (.inr rfl) reached unreached⟩⟩

/-! A workload is given the two halves of a reading, one after the other. -/

def workloadTeam : State Unit where
  db :=
    { twoProjects with
      projects := [⟨1, 1, true⟩]
      principals := [⟨1, some .human, .active, 0, 0⟩, ⟨2, some .workload, .active, 0, 0⟩]
      serviceAccounts := [⟨2, 1, 1⟩]
      grants :=
        [⟨1, 1, ⟨.manageMembers, ⟨some 1, some 1, none⟩⟩, [.breakGlass]⟩,
         ⟨2, 1, ⟨.read, ⟨some 1, some 1, none⟩⟩, [.breakGlass]⟩,
         ⟨3, 1, ⟨.reveal, ⟨some 1, some 1, none⟩⟩, [.breakGlass]⟩,
         ⟨4, 1, ⟨.manageIdentities, ⟨some 1, some 1, none⟩⟩, [.breakGlass]⟩]
      nextGrant := 5 }
  windows := ()

def openReauth (_ : Unit) (_ : Option SessionID) (_ : EnvID) (_ : Time) : Option Unit := some ()

def grantRead : Action := .create (human 1) ⟨2, .read, ⟨some 1, some 1, some 1⟩⟩ 0

def grantReveal : Action := .create (human 1) ⟨2, .reveal, ⟨some 1, some 1, some 1⟩⟩ 0

theorem workloadTeam_widening_held :
    1 ∈ ((runFrom (step openReauth localContract) workloadTeam [grantRead,
      grantReveal]).db.reachable 2 1 1).current ∧
      ∃ caller, grantReveal.grantCaller = some caller ∧
        coveredBy
          ((runFrom (step openReauth localContract) workloadTeam [grantRead]).db.grantsOf
            caller.principal)
          .reveal ⟨some 1, some 1, some 1⟩ = true := by
  have reached :
      1 ∈ ((runFrom (step openReauth localContract) workloadTeam
        ([grantRead] ++ [grantReveal])).db.reachable 2 1 1).current := by decide +kernel
  exact ⟨reached,
    (widening_needs_disclosure openReauth localContract workloadTeam [grantRead] grantReveal
    (by simp [grantRead, grantReveal, Action.grantCaller]) 2 (by decide +kernel) 1 1 1).1 reached
      (by decide +kernel)⟩

end Hikyo.Access
