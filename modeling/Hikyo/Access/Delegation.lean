import Hikyo.Access.System
import Hikyo.Access.Isolation
import Hikyo.Lib.Delegation

/-!
# Delegation does not escalate

`delegation_never_escalates` is about a group of principals none of whom manages members above a
project: whatever calls they make, in any order and interleaved with one another, every grant they
hold or create lies in the closure under scope containment of what the group held at the start.  It
instantiates the general rule for delegation of rights with the grant table, row by row.
-/

namespace Hikyo.Access

open Hikyo.Lib

def Above (h g : Grant) : Prop := h.capability = g.capability ∧ covers h.scope g.scope = true

theorem above_refl (g : Grant) : Above g g := ⟨rfl, covers_refl g.scope⟩

theorem above_trans (a b c : Grant) (upper : Above a b) (lower : Above b c) : Above a c :=
  ⟨upper.1.trans lower.1, covers_trans upper.2 lower.2⟩

/-- Who holds what, row by row: a slot is the id of a row and its principal. -/
def Db.table (db : Db) (slot : GrantID × PrincipalID) (g : Grant) : Prop :=
  ⟨slot.1, slot.2, g⟩ ∈ db.keys

def RowOf (group : PrincipalID → Prop) (slot : GrantID × PrincipalID) : Prop := group slot.2

/-- The closure, under scope containment, of what a group holds in a state. -/
def Reach (group : PrincipalID → Prop) (start : Db) (g : Grant) : Prop :=
  Closure Above (HeldBy (RowOf group) start.table) g

def Contained (group : PrincipalID → Prop) (start now : Db) : Prop :=
  Delegated Above (RowOf group) start.table now.table

def Action.DelegatedBy (group : PrincipalID → Prop) : Action → Prop
  | .create caller _ _ => group caller.principal
  | .applyTemplate caller _ _ _ _ => group caller.principal
  | .revoke caller _ => group caller.principal
  | _ => False

def Unprivileged (group : PrincipalID → Prop) (db : Db) : Prop :=
  ∀ key ∈ db.keys, group key.principal → key.grant.capability = .manageMembers →
    key.grant.scope.org ≠ none ∧ key.grant.scope.project ≠ none

section Group
variable {group : PrincipalID → Prop} {start : Db}

theorem closure_unprivileged (unprivileged : Unprivileged group start) {g : Grant}
    (inside : Reach group start g) (manages : g.capability = .manageMembers) :
    g.scope.org ≠ none ∧ g.scope.project ≠ none := by
  obtain ⟨_, ⟨_, mem, stored⟩, same, atop⟩ := inside
  obtain ⟨hasOrg, hasProject⟩ := unprivileged _ stored mem (same.trans manages)
  rcases (covers_iff _ _).mp atop with noOrg | ⟨sameOrg, noProject | ⟨sameProject, _⟩⟩
  · exact absurd noOrg hasOrg
  · exact absurd noProject hasProject
  · exact ⟨sameOrg ▸ hasOrg, sameProject ▸ hasProject⟩

theorem contained_of_keys {now later : Db} (so : Contained group start now)
    (kept : ∀ key ∈ later.keys, key ∈ now.keys) : Contained group start later :=
  Delegated.step above_trans so fun _ _ holds => .inl (kept _ holds)

variable {W : Type} {consume : W → Option SessionID → EnvID → Time → Option W} {contract : Contract}
  {st st' : State W}

section
variable (unprivileged : Unprivileged group start)
include unprivileged

/-- A member's individual grant passes on a capability the member holds above it. -/
theorem contained_granted (so : Contained group start st.db)
    {caller : Identity} {spec : GrantSpec} {now : Time} (acts : group caller.principal)
    (granted : Granted consume st st' caller spec now) : Contained group start st'.db := by
  have held : ∃ key ∈ st.db.keys, key.principal = caller.principal ∧
      Above key.grant ⟨spec.capability, spec.scope⟩ := by
    rcases granted.entitled with holds | exempt
    · obtain ⟨key, stored, mine, same, atop⟩ := holds_iff.mp holds
      exact ⟨key, stored, mine, same, atop⟩
    obtain ⟨key, stored, mine, manages, place⟩ := mayGrantUnheld_iff.mp exempt
    have inside : Reach group start key.grant :=
      so.held (key.id, key.principal) key.grant (mine ▸ acts) stored
    obtain ⟨hasOrg, hasProject⟩ := closure_unprivileged unprivileged inside manages
    rcases place with noOrg | ⟨noProject, _⟩
    · exact absurd noOrg hasOrg
    · exact absurd noProject hasProject
  refine Delegated.step above_trans so fun slot g holds => ?_
  have mem : (⟨slot.1, slot.2, g⟩ : GrantKey) ∈ st'.db.keys := holds
  rcases granted.keys with ⟨same, _⟩ | grown
  · rw [same] at mem
    exact .inl mem
  rw [grown, List.mem_append, List.mem_singleton] at mem
  rcases mem with before | added
  · exact .inl before
  obtain ⟨key, stored, mine, atop⟩ := held
  have grant : g = ⟨spec.capability, spec.scope⟩ := congrArg GrantKey.grant added
  exact .inr ⟨(key.id, key.principal), key.grant, mine ▸ acts, stored, grant ▸ atop⟩

theorem contained_grantedAll {caller : Identity} {target : PrincipalID}
    {scope : Scope} {now : Time} (acts : group caller.principal) {caps : List Capability}
    (run : GrantedAll consume caller target scope now caps st st')
    (so : Contained group start st.db) :
    Contained group start st'.db := by
  induction run with
  | nil => exact so
  | cons first _ ih => exact ih (contained_granted unprivileged so acts first)

theorem contained_call (so : Contained group start st.db) {action : Action}
    (acts : action.DelegatedBy group) (taken : step consume contract st action = some st') :
    Contained group start st'.db := by
  rw [step_eq_some] at taken
  cases action with
  | create =>
    obtain ⟨⟨next, _⟩, run, rfl⟩ := map_eq_ok.mp taken
    obtain ⟨_, _, mid, _, granted, _, fewer⟩ := create_effect run
    exact contained_of_keys (contained_granted unprivileged so acts granted) fewer.subset
  | applyTemplate =>
    obtain ⟨⟨_, _⟩, run, rfl⟩ := map_eq_ok.mp taken
    obtain ⟨_, _, _, _, _, _, _, granted, _, fewer⟩ := applyTemplate_effect run
    exact contained_of_keys (contained_grantedAll unprivileged acts granted so) fewer.subset
  | revoke =>
    obtain ⟨_, _, _, _, _, keys⟩ := revoke_effect taken
    refine contained_of_keys so fun key mem => ?_
    rcases keys with same | removed
    · exact same ▸ mem
    · exact (List.mem_filter.mp (removed ▸ mem)).1
  | breakGlassGrant | attachSCIMOrigin | releaseSCIMOrigins | applyPrivacySubject => exact acts.elim

end

end Group

/-- Principals without higher member management hold and create nothing outside the closure of what
they held at the start. -/
theorem delegation_never_escalates {W : Type}
    (consume : W → Option SessionID → EnvID → Time → Option W) (contract : Contract)
    (start : State W) (group : PrincipalID → Prop) (actions : List Action)
    (unprivileged : Unprivileged group start.db) (calls : ∀ a ∈ actions, a.DelegatedBy group) :
    (∀ key ∈ (runFrom (step consume contract) start actions).db.keys,
      group key.principal → Reach group start.db key.grant) ∧
    (∀ key ∈ (runFrom (step consume contract) start actions).db.keys,
      key ∉ start.db.keys → Reach group start.db key.grant) := by
  have so : Contained group start.db (runFrom (step consume contract) start actions).db := by
    refine runFrom_invariant_of_allowed (step consume contract) (fun _ a => a.DelegatedBy group)
      (fun st => Contained group start.db st.db) ?_ actions start
      (Delegated.refl above_refl) (allowedFrom_of_forall _ _ start calls)
    intro _ _ _ so acts taken
    exact contained_call unprivileged so acts taken
  constructor
  · intro key mem inGroup
    exact so.held (key.id, key.principal) key.grant inGroup mem
  · intro key mem isNew
    exact (so.added (key.id, key.principal) key.grant mem).resolve_left isNew

def projectTeam : State Unit where
  db :=
    { twoProjects with
      principals := [⟨1, some .human, .active, 0, 0⟩, ⟨2, some .human, .active, 0, 0⟩]
      grants :=
        [⟨1, 1, ⟨.manageMembers, ⟨some 1, some 1, none⟩⟩, [.breakGlass]⟩,
         ⟨2, 1, ⟨.read, ⟨some 1, some 1, none⟩⟩, [.breakGlass]⟩]
      nextGrant := 3 }
  windows := ()

def noReauth (_ : Unit) (_ : Option SessionID) (_ : EnvID) (_ : Time) : Option Unit := none

def teamCalls : List Action :=
  [.create (human 1) ⟨2, .manageMembers, ⟨some 1, some 1, none⟩⟩ 0,
   .create (human 1) ⟨2, .read, ⟨some 1, some 1, none⟩⟩ 0,
   .create (human 2) ⟨1, .read, ⟨some 1, some 1, some 1⟩⟩ 0,
   .create (human 2) ⟨2, .reveal, ⟨some 1, some 1, some 1⟩⟩ 0]

theorem projectTeam_never_escalates :
    (runFrom (step noReauth localContract) projectTeam teamCalls).db.keys.map (·.grant.capability) =
        [.manageMembers, .read, .manageMembers, .read, .read] ∧
      ∀ key ∈ (runFrom (step noReauth localContract) projectTeam teamCalls).db.keys,
        key ∉ projectTeam.db.keys → Reach (fun p => p = 1 ∨ p = 2) projectTeam.db key.grant := by
  refine ⟨by decide +kernel, ?_⟩
  refine (delegation_never_escalates noReauth localContract projectTeam
    (fun p => p = 1 ∨ p = 2) teamCalls ?_ ?_).2
  · unfold Unprivileged
    decide
  · simp [teamCalls, Action.DelegatedBy, human]

end Hikyo.Access
