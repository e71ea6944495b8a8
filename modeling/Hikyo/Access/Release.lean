import Hikyo.Access.Grants

/-!
# Releases under the lockout invariant

How the provisioning side attaches and withdraws origins, and the privacy operations of the local
host.  A withdrawal that would take the last member manager away leaves a retention in place of the
origin, which a later grant cures.
-/

namespace Hikyo.Access

open Hikyo.Lib

structure ReleaseArgs where
  binding : BindingID
  org : OrgID
  matches_ : ScimOriginKey → Bool
  accepts : Grant → Bool
  cause : Cause

structure ReleaseOutcome where
  released : Nat
  rowsRevoked : Nat
  retained : List GrantID
  manualRemains : Bool

/-- An organisation's binding holds no instance grant, so only organisation rows can. -/
def wouldLockOut (db : Db) (target : PrincipalID) (g : Grant) : Bool :=
  g.capability == .manageMembers && g.scope.level == some .org &&
  remainingMemberManagers db target g.scope == 0

def isDoomed (args : ReleaseArgs) : Origin → Bool
  | .scim key => args.matches_ key
  | _ => false

def hasManualOrigin (origins : List Origin) : Bool := origins.any (·.isMintable)

def releaseRowOrigins (args : ReleaseArgs) (principal : PrincipalID) (acc : Db × ReleaseOutcome)
    (row : GrantRow) :
    Db × ReleaseOutcome :=
  let (db, out) := acc
  if !args.accepts row.grant then acc
  else
    let doomed := row.origins.filter (isDoomed args)
    let survivors := row.origins.filter fun o => !isDoomed args o
    let manual := row.grant.scope.org == some args.org && hasManualOrigin row.origins
    if doomed = [] then (db, { out with manualRemains := out.manualRemains || manual })
    else
      -- Decided before the release, so that the conversion and the release commit together.
      let convert := survivors.isEmpty && wouldLockOut db principal row.grant
      let released := doomed.foldl (fun db origin => db.releaseGrantOrigin row.id origin) db
      let out := { out with released := out.released + doomed.length }
      if convert then
        (released.addGrantOrigin row.id (.lockoutRetention args.binding args.cause),
          { out with retained := out.retained ++ [row.id] })
      else if released.originsFor row.id = [] then
        (released.deleteGrantRow row.id, { out with rowsRevoked := out.rowsRevoked + 1 })
      else (released, { out with manualRemains := out.manualRemains || manual })

def releaseSCIMOrigins (db : Db) (principal : PrincipalID) (args : ReleaseArgs) :
    Db × ReleaseOutcome :=
  match db.principal? principal with
  | none => (db, ⟨0, 0, [], false⟩)
  | some _ =>
    (db.grantRowsForPrincipal principal).foldl (releaseRowOrigins args principal)
      (db, ⟨0, 0, [], false⟩)

inductive AdvancePolicy
  | ifAuthorityChanged
  | always
deriving DecidableEq

def releaseAndSettle (db : Db) (principal : PrincipalID) (args : ReleaseArgs)
    (policy : AdvancePolicy) :
    Db × ReleaseOutcome :=
  let (db, outcome) := releaseSCIMOrigins db principal args
  if policy = .always ∨ 0 < outcome.rowsRevoked then (db.invalidateGrantChange principal, outcome)
  else (db, outcome)

/-- The provisioning side as a granter; its scope lies in the organisation of the binding. -/
def attachSCIMOrigin (db : Db) (key : ScimOriginKey) (org : OrgID) (project : Option ProjectID)
    (env : Option EnvID) (target : PrincipalID) (capability : Capability) (now : Time) :
    Except Error (Db × GrantResult) :=
  let scope : Scope := ⟨some org, project, env⟩
  match scope.level with
  | none => .error .invalid
  | some level => do
    checkGrantable capability level
    let _ ← lockAndClassify db now target capability scope
    let (db, result) ← writeGrantRow db ⟨target, capability, scope⟩ (.scim key)
    let db ← cureIfMemberManagement db capability scope result
    pure (db, result)

inductive PrivacyAction
  | restrict
  | erase
  | release
deriving DecidableEq

def PrivacyAction.state : PrivacyAction → PrivacyState
  | .restrict => .restricted
  | .erase => .erased
  | .release => .active

/-- An erased principal stays erased; only a human has a privacy state to set. -/
def Db.setPrivacyState (db : Db) (p : PrincipalID) (state : PrivacyState) : Db :=
  { db with
    principals := db.principals.map fun row =>
      if row.id = p ∧ row.class_ = some .human ∧ row.privacy ≠ .erased then
        { row with privacy := state, generation := row.generation + 1 }
      else row }

def Db.erasePrivacyAccount (db : Db) (p : PrincipalID) : Db :=
  { db with grants := db.grants.filter (·.principal ≠ p) }

def alternativeManager (db : Db) (p : PrincipalID) (org : Option OrgID) : Bool :=
  (db.manageMembersHolders org).any (· ≠ p)

def managedOrgs (db : Db) (p : PrincipalID) : List (Option OrgID) :=
  (((db.grantRowsForPrincipal p).filter fun row =>
    row.grant.capability == .manageMembers && row.grant.scope.project == none).map
      (·.grant.scope.org)).dedup

def checkPrivacyLockout (db : Db) (principal : Principal) (action : PrivacyAction) :
    Except Error Unit :=
  if principal.privacy = .active ∧ action ≠ .release then
    (managedOrgs db principal.id).forM fun org =>
      require (alternativeManager db principal.id org = true) .privacyLastManager
  else .ok ()

def applyPrivacySubject (db : Db) (p : PrincipalID) (action : PrivacyAction)
    (expectedAccount : Option AccountID) :
    Except Error Db :=
  match db.principal? p, db.accounts.find? (·.principal == p) with
  | some principal, some account => do
    require (expectedAccount = none ∨ expectedAccount = some account.id) .receiptMismatch
    require (¬ (action ≠ .erase ∧ principal.privacy = .erased)) .erasedAccount
    checkPrivacyLockout db principal action
    let settled := (db.setPrivacyState p action.state).revokeAllSessionsFor p
    pure (if action = .erase then settled.erasePrivacyAccount p else settled)
  | _, _ => .error .notFound

end Hikyo.Access
