import Hikyo.Access.Registry
import Hikyo.Lib.Transaction
import Mathlib.Data.List.Dedup

/-!
# The tables behind authorization

The tables that decisions read and the grant surface writes, with one function for each query.  A
grant row carries the origins that hold it alive; sessions carry the generation of their principal,
which a change of its grants advances.
-/

namespace Hikyo.Access

open Hikyo.Lib

abbrev GrantID := Nat
abbrev SessionID := Nat
abbrev BindingID := Nat
abbrev AccountID := Nat

inductive Error
  | notFound
  | unauthorized
  | scopeGap
  | emptyScope
  | wrongDepth
  | tenantScope
  | invalid
  | capabilityScope
  | grantorLacksCapability
  | machineCapability
  | machineRevealOptIn
  | machineRevealHistoryPin
  | machineScope
  | machineProject
  | systemCreatedOnly
  | lastMemberManager
  | noSuchGrant
  | unknownPrincipal
  | disclosureAuthority
  | reauthRequired
  | machineGrantWithoutProject
  | limitExceeded
  | templateScope
  | scimOriginOnly
  | lockoutRetained
  | structuralGrant
  | receiptMismatch
  | erasedAccount
  | privacyLastManager
deriving DecidableEq

inductive PrivacyState
  | active
  | restricted
  | erased
deriving DecidableEq

/-- A principal.  A machine whose class column is empty has no class. -/
structure Principal where
  id : PrincipalID
  class_ : Option PrincipalClass
  privacy : PrivacyState
  reconciledEpoch : Nat
  generation : Nat

structure Account where
  id : AccountID
  principal : PrincipalID

structure Project where
  id : ProjectID
  org : OrgID
  machineReveal : Bool

structure Environment where
  id : EnvID
  org : OrgID
  project : ProjectID
  protected_ : Bool

structure ServiceAccount where
  principal : PrincipalID
  org : OrgID
  project : ProjectID

structure WorkloadPin where
  workload : PrincipalID
  env : EnvID
  revision : Nat
  latestRevision : Nat
  expiresAt : Time

structure Session where
  id : SessionID
  principal : PrincipalID

inductive Cause
  | deprovision
  | userDeleted
  | memberRemoved
  | groupDeleted
  | mappingDelete
  | bindingDelete
deriving DecidableEq

structure ScimOriginKey where
  binding : BindingID
  mappingRow : Nat
  group : Nat
deriving DecidableEq

inductive Origin
  | manual (grantor : PrincipalID)
  | breakGlass
  | scim (key : ScimOriginKey)
  | structural (binding : BindingID)
  | lockoutRetention (binding : BindingID) (cause : Cause)
deriving DecidableEq

/-- The origins the grant surface writes, and therefore the ones a revoke releases. -/
def Origin.isMintable : Origin → Bool
  | .manual _ | .breakGlass => true
  | _ => false

structure GrantRow where
  id : GrantID
  principal : PrincipalID
  grant : Grant
  origins : List Origin

structure Db where
  orgs : List OrgID
  projects : List Project
  environments : List Environment
  principals : List Principal
  accounts : List Account
  serviceAccounts : List ServiceAccount
  pins : List WorkloadPin
  sessions : List Session
  grants : List GrantRow
  selfConfigOrg : Option OrgID
  restoreEpoch : Nat
  nextGrant : GrantID

namespace Db
variable (db : Db)

def principal? (p : PrincipalID) : Option Principal := db.principals.find? (·.id == p)

def isActive (p : PrincipalID) : Bool :=
  db.principals.any fun row => row.id == p && row.privacy == .active

def resolveChain (scope : Scope) : Except Error Scope :=
  match scope with
  | ⟨some org, none, none⟩ => if org ∈ db.orgs then .ok scope else .error .notFound
  | ⟨some org, some project, none⟩ =>
    if db.projects.any fun row => row.org == org && row.id == project then .ok scope
      else .error .notFound
  | ⟨some org, some project, some env⟩ =>
    if db.environments.any fun row => row.org == org && row.project == project && row.id == env
    then .ok scope else .error .notFound
  | ⟨none, none, none⟩ => .error .emptyScope
  | _ => .error .scopeGap

def grantRowsForPrincipal (p : PrincipalID) : List GrantRow := db.grants.filter (·.principal == p)

def rowsInForce (p : PrincipalID) : Bool :=
  db.principals.any fun row =>
    row.id == p && row.privacy == .active && decide (db.restoreEpoch ≤ row.reconciledEpoch)

/-- Who is not privacy-active, or not reconciled since the last restore, has none. -/
def grantsOf (p : PrincipalID) : List Grant :=
  if db.rowsInForce p then (db.grantRowsForPrincipal p).map (·.grant) else []

def environment? (env : EnvID) : Option Environment := db.environments.find? (·.id == env)

def project? (project : ProjectID) : Option Project := db.projects.find? (·.id == project)

def machineRevealEnabled (project : ProjectID) : Bool := (db.project? project).any (·.machineReveal)

def environmentsInProject (org : OrgID) (project : ProjectID) : List EnvID :=
  (db.environments.filter fun row => row.org == org && row.project == project).map (·.id)

def serviceAccountByPrincipal (p : PrincipalID) : Option ServiceAccount :=
  db.serviceAccounts.find? (·.principal == p)

def workloadPinState (p : PrincipalID) (env : EnvID) : Option WorkloadPin :=
  db.pins.find? fun pin => pin.workload == p && pin.env == env

def countGrantsInOrg (org : OrgID) : Nat :=
  (db.grants.filter (·.grant.scope.org == some org)).length

/-- A project-scope row never counts. -/
def managesMembersOf (org : Option OrgID) (row : GrantRow) : Bool :=
  row.grant.capability == .manageMembers &&
  match org with
  | none => row.grant.scope.org == none
  | some org =>
    row.grant.scope.project == none &&
      (row.grant.scope.org == some org || row.grant.scope.org == none)

def manageMembersHolders (org : Option OrgID) : List PrincipalID :=
  ((db.grants.filter fun row => managesMembersOf org row && db.isActive row.principal).map
    (·.principal)).dedup

def createGrant (target : PrincipalID) (grant : Grant) : Db :=
  { db with
    grants := db.grants ++ [⟨db.nextGrant, target, grant, []⟩]
    nextGrant := db.nextGrant + 1 }

def setOrigins (id : GrantID) (change : List Origin → List Origin) : Db :=
  { db with
    grants := db.grants.map fun row => if row.id = id then
      { row with origins := change row.origins } else row }

def addGrantOrigin (id : GrantID) (origin : Origin) : Db := db.setOrigins id (· ++ [origin])

def releaseGrantOrigin (id : GrantID) (origin : Origin) : Db :=
  db.setOrigins id (·.filter (· ≠ origin))

def originsFor (id : GrantID) : List Origin :=
  match db.grants.find? (·.id == id) with
  | none => []
  | some row => row.origins

def deleteGrantRow (id : GrantID) : Db := { db with grants := db.grants.filter (·.id ≠ id) }

def advanceGeneration (p : PrincipalID) : Db :=
  { db with
    principals := db.principals.map fun row =>
      if row.id = p then { row with generation := row.generation + 1 } else row }

def revokeAllSessionsFor (p : PrincipalID) : Db :=
  { db with sessions := db.sessions.filter (·.principal ≠ p) }

def invalidateGrantChange (p : PrincipalID) : Db := (db.advanceGeneration p).revokeAllSessionsFor p

end Db

end Hikyo.Access
