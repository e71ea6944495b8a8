import Mathlib.Order.Basic

/-!
# Scopes, capabilities and principal classes

A grant is a capability at a scope of the tenant chain (instance, organisation, project,
environment) and reaches everything beneath it: `covers` is a preorder, and `coveredBy` asks for a
grant above.  With them the classes of principals, what each may hold and how deep, and the
expansion of the grant templates.
-/

namespace Hikyo.Access

abbrev OrgID := Nat
abbrev ProjectID := Nat
abbrev EnvID := Nat
abbrev PrincipalID := Nat
abbrev Time := Nat

inductive Level
  | none
  | org
  | project
  | env
deriving DecidableEq

def Level.depth : Level → Nat
  | .none => 0
  | .org => 1
  | .project => 2
  | .env => 3

/-- A scope as a request names it; an absent id is `none`. -/
structure Scope where
  org : Option OrgID
  project : Option ProjectID
  env : Option EnvID
deriving DecidableEq

namespace Scope

def zero : Scope := ⟨none, none, none⟩

def level : Scope → Option Level
  | ⟨none, none, none⟩ => some .none
  | ⟨some _, none, none⟩ => some .org
  | ⟨some _, some _, none⟩ => some .project
  | ⟨some _, some _, some _⟩ => some .env
  | _ => none

def truncate (s : Scope) : Level → Scope
  | .none => zero
  | .org => ⟨s.org, none, none⟩
  | .project => ⟨s.org, s.project, none⟩
  | .env => s

end Scope

def covers (g target : Scope) : Bool :=
  match g.org with
  | none => true
  | some org =>
    if some org ≠ target.org then false
    else
      match g.project with
      | none => true
      | some project =>
        if some project ≠ target.project then false
        else
          match g.env with
          | none => true
          | some env => some env == target.env

theorem covers_iff (g target : Scope) : covers g target = true ↔ g.org = none ∨ g.org = target.org ∧
        (g.project = none ∨ g.project = target.project ∧ (g.env = none ∨ g.env = target.env)) := by
  obtain ⟨org, project, env⟩ := g
  cases org with
  | none => simp [covers]
  | some =>
    cases project with
    | none => simp [covers]
    | some => cases env <;> simp [covers]

@[simp] theorem covers_refl (s : Scope) : covers s s = true := by
  rw [covers_iff]
  exact .inr ⟨rfl, .inr ⟨rfl, .inr rfl⟩⟩

theorem covers_trans {a b c : Scope} (upper : covers a b = true) (lower : covers b c = true) :
    covers a c = true := by
  rw [covers_iff] at *
  rcases upper with none | ⟨sameOrg, upper⟩
  · exact .inl none
  rcases lower with none | ⟨sameOrg', lower⟩
  · exact .inl (sameOrg.trans none)
  refine .inr ⟨sameOrg.trans sameOrg', ?_⟩
  rcases upper with none | ⟨sameProject, upper⟩
  · exact .inl none
  rcases lower with none | ⟨sameProject', lower⟩
  · exact .inl (sameProject.trans none)
  refine .inr ⟨sameProject.trans sameProject', ?_⟩
  rcases upper with none | sameEnv
  · exact .inl none
  rcases lower with none | sameEnv'
  · exact .inl (sameEnv.trans none)
  · exact .inr (sameEnv.trans sameEnv')

theorem truncate_covers (s : Scope) (level : Level) : covers (s.truncate level) s = true := by
  cases level <;> simp [Scope.truncate, covers_iff, Scope.zero]

theorem covers_zero {g : Scope} (above : covers g Scope.zero = true) : g.org = none := by
  rcases (covers_iff _ _).mp above with none | ⟨same, _⟩
  · exact none
  · exact same

inductive Capability
  | read
  | reveal
  | revealHistory
  | edit
  | publish
  | pin
  | definitionsEdit
  | projectSettings
  | manageIdentities
  | manageAdapters
  | manageMembers
  | manageProjects
  | backupExport
  | restore
  | rotateRootKey
  | rotateMasterKey
  | rotateDEK
  | reencrypt
  | instanceConfig
  | instanceDirector
  | scimProvision
  | auditRead
  | credentialReset
deriving DecidableEq

def deepestLevel : Capability → Level
  | .read | .reveal | .revealHistory | .edit | .publish | .pin | .auditRead => .env
  | .definitionsEdit | .projectSettings | .manageIdentities | .manageAdapters | .manageMembers =>
      .project
  | .manageProjects | .credentialReset | .scimProvision => .org
  | .backupExport | .restore | .rotateRootKey | .rotateMasterKey | .rotateDEK | .reencrypt
  | .instanceConfig | .instanceDirector => .none

def mfaMandatory : Capability → Bool
  | .reveal | .revealHistory | .manageMembers | .credentialReset | .instanceConfig
  | .instanceDirector => true
  | _ => false

structure Grant where
  capability : Capability
  scope : Scope
deriving DecidableEq

/-- The evaluator and the grant surface each carry their own copy of this rule. -/
def coveredBy (grants : List Grant) (capability : Capability) (target : Scope) : Bool :=
  grants.any fun g => g.capability == capability && covers g.scope target

theorem coveredBy_iff {grants : List Grant} {capability : Capability} {target : Scope} :
    coveredBy grants capability target = true ↔
      ∃ g ∈ grants, g.capability = capability ∧ covers g.scope target = true := by
  simp [coveredBy]

theorem coveredBy_mono {held more : List Grant} (kept : ∀ g ∈ held, g ∈ more)
    {capability : Capability} {target : Scope} (covered : coveredBy held capability target = true) :
    coveredBy more capability target = true := by
  obtain ⟨g, member, same, above⟩ := coveredBy_iff.mp covered
  exact coveredBy_iff.mpr ⟨g, kept g member, same, above⟩

inductive PrincipalClass
  | human
  | workload
  | automation
  | provisioning
  | instanceConn
deriving DecidableEq

def isServiceAccountKind : Option PrincipalClass → Bool
  | some .workload | some .automation => true
  | _ => false

def isMachineClass : Option PrincipalClass → Bool
  | some .workload | some .automation | some .provisioning | some .instanceConn => true
  | _ => false

def machineMayHold : Option PrincipalClass → Capability → Bool
  | some .workload, .read => true
  | some .automation, .read | some .automation, .edit | some .automation, .publish
  | some .automation, .definitionsEdit => true
  | some .provisioning, .scimProvision => true
  | some .instanceConn, .instanceDirector => true
  | _, _ => false

def machineMayHoldRevealByOptIn (class_ : Option PrincipalClass) : Bool :=
  class_ == some .workload || class_ == some .automation

def machineMayHoldRevealHistoryByPin (class_ : Option PrincipalClass) : Bool :=
  class_ == some .workload

def machineScopeDepth : Option PrincipalClass → Option Level
  | some .workload => some .env
  | some .automation => some .project
  | some .provisioning => some .org
  | some .instanceConn => some .none
  | _ => none

inductive Template
  | viewer
  | editor
  | publisher
  | revealer
  | historian
  | maintainer
  | admin
  | operator
deriving DecidableEq

structure TemplateSpec where
  applicable : List Level
  creates : List Capability
  orgOnly : List Capability

def operatorSet : List Capability :=
  [.backupExport, .restore, .rotateRootKey, .rotateMasterKey, .rotateDEK, .reencrypt,
    .instanceConfig]

def tenantLevels : List Level := [.org, .project, .env]

def orgProject : List Level := [.org, .project]

def templates : Template → TemplateSpec
  | .viewer => ⟨tenantLevels, [.read], []⟩
  | .editor => ⟨tenantLevels, [.read, .edit], []⟩
  | .publisher => ⟨tenantLevels, [.read, .edit, .publish, .pin], []⟩
  | .revealer => ⟨tenantLevels, [.reveal], []⟩
  | .historian => ⟨tenantLevels, [.revealHistory], []⟩
  | .maintainer =>
    ⟨orgProject, [.read, .edit, .publish, .pin, .definitionsEdit, .manageIdentities,
      .manageAdapters], []⟩
  | .admin =>
    ⟨orgProject,
      [.read, .edit, .publish, .pin, .definitionsEdit, .manageIdentities, .manageAdapters,
        .projectSettings, .manageMembers, .reveal, .revealHistory],
      [.manageProjects]⟩
  | .operator => ⟨[.none], operatorSet ++ [.manageMembers], []⟩

/-- The capabilities a template creates at a level; `none` where it does not apply. -/
def expandTemplate (template : Template) (at_ : Level) : Option (List Capability) :=
  let spec := templates template
  if at_ ∈ spec.applicable then
    some (spec.creates ++ if at_ = .org then spec.orgOnly else [])
  else none

end Hikyo.Access
