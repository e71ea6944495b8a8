import Hikyo.Access.Authorize

/-!
# The grant surface

Creating a grant, applying a template, granting in an emergency and revoking, each as one
transaction with all its checks: class and scope of the target, delegation, the cap of an
organisation, the gate on machine grants and the lockout of the last member manager.  `consume`
spends one reauthentication window.
-/

namespace Hikyo.Access

open Hikyo.Lib

def maxGrantsPerOrg : Nat := 1000

structure GrantSpec where
  target : PrincipalID
  capability : Capability
  scope : Scope

inductive GrantOutcome
  | created
  | originAdded
  | unchanged
deriving DecidableEq

structure GrantResult where
  grantID : GrantID
  outcome : GrantOutcome

def createOp : Level → Operation
  | .none => .grantCreateInstance
  | .org => .grantCreateOrg
  | .project => .grantCreateProject
  | .env => .grantCreateEnv

def revokeOp : Level → Operation
  | .none => .grantRevokeInstance
  | .org => .grantRevokeOrg
  | .project => .grantRevokeProject
  | .env => .grantRevokeEnv

def templateOp : Level → Operation
  | .none => .templateApplyInstance
  | .org => .templateApplyOrg
  | .project => .templateApplyProject
  | .env => .templateApplyEnv

def checkGrantable (capability : Capability) (at_ : Level) : Except Error Unit :=
  require (at_.depth ≤ (deepestLevel capability).depth) .capabilityScope

def checkPrincipalClass (class_ : Option PrincipalClass) (capability : Capability)
    (machineRevealOptIn activeHistoricalPin : Bool) : Except Error Unit :=
  if capability = .scimProvision then .error .systemCreatedOnly
  else if class_ = some .human then .ok ()
  else if capability = .instanceDirector then .error .systemCreatedOnly
  else if capability = .reveal ∧ machineMayHoldRevealByOptIn class_ then
    require (machineRevealOptIn = true) .machineRevealOptIn
  else if capability = .revealHistory ∧ machineMayHoldRevealHistoryByPin class_ then do
    require (machineRevealOptIn = true) .machineRevealOptIn
    require (activeHistoricalPin = true) .machineRevealHistoryPin
  else require (machineMayHold class_ capability = true) .machineCapability

def checkMachineScope (class_ : Option PrincipalClass) (scope : Scope) : Except Error Unit :=
  match scope.level with
  | none => .error .scopeGap
  | some level =>
    match machineScopeDepth class_ with
    | none => .error .machineScope
    | some deepest => require (deepest.depth ≤ level.depth) .machineScope

/-- A service account is confined to its project; another machine to the project of its grants. -/
def checkMachineProject (db : Db) (target : PrincipalID) (scope : Scope) : Except Error Unit :=
  match db.serviceAccountByPrincipal target with
  | some sa => require (some sa.org = scope.org ∧ some sa.project = scope.project) .machineProject
  | none =>
    require (∀ row ∈ db.grantRowsForPrincipal target, row.grant.scope.project = none ∨
      row.grant.scope.org = scope.org ∧ row.grant.scope.project = scope.project) .machineProject

def activeHistoricalPin (db : Db) (now : Time) (target : PrincipalID) (scope : Scope) : Bool :=
  match scope.env with
  | none => false
  | some env =>
    (db.workloadPinState target env).any fun pin =>
      decide (now < pin.expiresAt) && pin.revision != pin.latestRevision

/-- The target exists, and its class admits the capability at the scope. -/
def lockAndClassify (db : Db) (now : Time) (target : PrincipalID) (capability : Capability)
    (scope : Scope) :
    Except Error (Option PrincipalClass) :=
  match db.principal? target with
  | none => .error .unknownPrincipal
  | some principal =>
    if principal.class_ = some .human then do
      checkPrincipalClass principal.class_ capability false false
      pure principal.class_
    else do
      let optIn := scope.project.any db.machineRevealEnabled
      let pinned := capability == .revealHistory &&
        machineMayHoldRevealHistoryByPin principal.class_ &&
        optIn && activeHistoricalPin db now target scope
      checkPrincipalClass principal.class_ capability optIn pinned
      checkMachineScope principal.class_ scope
      checkMachineProject db target scope
      pure principal.class_

/-- The grant surface's own copy of the evaluator's rule. -/
def scopeCovers (g target : Scope) : Bool := covers g target

def holds (rows : List GrantRow) (capability : Capability) (target : Scope) : Bool :=
  rows.any fun row => row.grant.capability == capability && scopeCovers row.grant.scope target

/-- Member management at organisation or instance scope may hand out what it does not hold. -/
def mayGrantUnheld (rows : List GrantRow) (target : Scope) : Bool :=
  rows.any fun row =>
    row.grant.capability == .manageMembers &&
    (row.grant.scope.org == none ||
      row.grant.scope.project == none && row.grant.scope.org == target.org)

def findGrant (rows : List GrantRow) (capability : Capability) (scope : Scope) : Option GrantRow :=
  rows.find? fun row => row.grant.capability == capability && decide (row.grant.scope = scope)

structure Reachable where
  current : List EnvID
  historical : List EnvID

/-- Plaintext is delivered to `read` together with the matching disclosure capability. -/
def reachableFrom (org : OrgID) (project : ProjectID) (envs : List EnvID) (grants : List Grant) :
    Reachable where
  current := envs.filter fun env =>
    coveredBy grants .read ⟨some org, some project, some env⟩ &&
    coveredBy grants .reveal ⟨some org, some project, some env⟩
  historical := envs.filter fun env =>
    coveredBy grants .read ⟨some org, some project, some env⟩ &&
    coveredBy grants .revealHistory ⟨some org, some project, some env⟩

def newlyReachable (before after : List EnvID) : List EnvID := after.filter (· ∉ before)

section Surface
variable {W : Type}

structure State (W : Type) where
  db : Db
  windows : W

variable (consume : W → Option SessionID → EnvID → Time → Option W)

/-- The disclosure capability over every environment named, and one window for each. -/
def requireDisclosureAuthority (windows : W) (caller : Identity) (actorRows : List GrantRow)
    (org : OrgID) (project : ProjectID) (current historical : List EnvID) (now : Time) :
    Except Error W := do
  current.forM fun env =>
    require (holds actorRows .reveal ⟨some org, some project, some env⟩ = true) .disclosureAuthority
  historical.forM fun env =>
    require (holds actorRows .revealHistory ⟨some org, some project, some env⟩ = true)
      .disclosureAuthority
  (current ++ historical).dedup.foldlM (fun windows env =>
    match consume windows caller.sessionID env now with
    | none => .error .reauthRequired
    | some windows' => .ok windows') windows

/-- Only these capabilities move the set of plaintext a machine reaches. -/
def isDisclosureRelevant : Capability → Bool
  | .read | .reveal | .revealHistory => true
  | _ => false

/-- The gate is on the difference the grant makes, for each kind of plaintext on its own. -/
def checkMachineWidening (st : State W) (caller : Identity) (actorRows : List GrantRow)
    (spec : GrantSpec) (class_ : Option PrincipalClass) (now : Time) : Except Error W :=
  if !isMachineClass class_ || !isDisclosureRelevant spec.capability then .ok st.windows
  else
    match spec.scope.org, spec.scope.project with
    | some org, some project => do
      let envs := st.db.environmentsInProject org project
      let pre := st.db.grantsOf spec.target
      let before := reachableFrom org project envs pre
      let after := reachableFrom org project envs (pre ++ [⟨spec.capability, spec.scope⟩])
      let current := newlyReachable before.current after.current
      let historical := newlyReachable before.historical after.historical
      if current.isEmpty && historical.isEmpty then .ok st.windows
      else do
        require (holds actorRows .manageIdentities ⟨some org, some project, none⟩ = true)
          .disclosureAuthority
        requireDisclosureAuthority consume st.windows caller actorRows org project current
          historical now
    | _, _ => .error .machineGrantWithoutProject

def checkGrantCap (db : Db) (scope : Scope) : Except Error Unit :=
  match scope.org with
  | none => .ok ()
  | some org => require (db.countGrantsInOrg org < maxGrantsPerOrg) .limitExceeded

def writeGrantRowState (db : Db) (spec : GrantSpec) (origin : Origin) :
    Except Error (Db × GrantResult) :=
  match findGrant (db.grantRowsForPrincipal spec.target) spec.capability spec.scope with
  | some existing =>
    if origin ∈ existing.origins then .ok (db, ⟨existing.id, .unchanged⟩)
    else .ok (db.addGrantOrigin existing.id origin, ⟨existing.id, .originAdded⟩)
  | none => do
    checkGrantCap db spec.scope
    pure ((db.createGrant spec.target ⟨spec.capability, spec.scope⟩).addGrantOrigin
      db.nextGrant origin, ⟨db.nextGrant, .created⟩)

def writeGrantRow (db : Db) (spec : GrantSpec) (origin : Origin) :
    Except Error (Db × GrantResult) := do
  let (db', result) ← writeGrantRowState db spec origin
  pure (if result.outcome = .created then db'.invalidateGrantChange spec.target else db', result)

def grantOneWithInvalidation (st : State W) (caller : Identity) (spec : GrantSpec)
    (level : Level) (now : Time) (invalidateSessions : Bool) :
    Except Error (State W × GrantResult) := do
  checkGrantable spec.capability level
  let class_ ← lockAndClassify st.db now spec.target spec.capability spec.scope
  let grantorRows := st.db.grantRowsForPrincipal caller.principal
  require (holds grantorRows spec.capability spec.scope = true ∨
    mayGrantUnheld grantorRows spec.scope = true)
    .grantorLacksCapability
  let windows ← checkMachineWidening consume st caller grantorRows spec class_ now
  let (db, result) ← writeGrantRowState st.db spec (.manual caller.principal)
  let db := if invalidateSessions ∧ result.outcome = .created then
    db.invalidateGrantChange spec.target else db
  pure (⟨db, windows⟩, result)

def retainsMemberManagement (rows : List GrantRow) (scope : Scope) : Bool :=
  rows.any fun row =>
    row.grant.capability == .manageMembers && decide (row.grant.scope ≠ scope) &&
    row.grant.scope.project == none && scopeCovers row.grant.scope scope

def remainingMemberManagers (db : Db) (target : PrincipalID) (scope : Scope) : Nat :=
  ((db.manageMembersHolders scope.org).filter fun holder =>
    decide (holder ≠ target) ||
      retainsMemberManagement (db.grantRowsForPrincipal target) scope).length

structure LockoutRetention where
  id : GrantID
  principal : PrincipalID
  scope : Scope
  binding : BindingID
  cause : Cause

def retentionsOf (row : GrantRow) : List LockoutRetention :=
  row.origins.filterMap fun origin =>
    match origin with
    | .lockoutRetention binding cause =>
        some ⟨row.id, row.principal, row.grant.scope, binding, cause⟩
    | _ => none

def lockoutRetentions (db : Db) : List LockoutRetention := db.grants.flatMap retentionsOf

def lockoutRetentionsInOrg (db : Db) (org : OrgID) : List LockoutRetention :=
  (db.grants.filter (·.grant.scope.org == some org)).flatMap retentionsOf

/-- Releases one retention that is no longer needed, and the row with it if nothing else holds
it. -/
def cureRetention (db : Db) (retention : LockoutRetention) : Db :=
  let origin := Origin.lockoutRetention retention.binding retention.cause
  if remainingMemberManagers db retention.principal retention.scope = 0 then db
  else if (db.principal? retention.principal).isNone then db
  else if origin ∉ db.originsFor retention.id then db
  else
    let released := db.releaseGrantOrigin retention.id origin
    if released.originsFor retention.id = [] then
      (released.deleteGrantRow retention.id).invalidateGrantChange retention.principal
    else released

def cureLockoutRetentions (db : Db) (curing : Scope) : Except Error Db :=
  match curing.level with
  | none => .error .scopeGap
  | some .none => .ok ((lockoutRetentions db).foldl cureRetention db)
  | some .org =>
    .ok ((match curing.org with
      | none => []
      | some org => lockoutRetentionsInOrg db org).foldl cureRetention db)
  | some .project | some .env => .ok db

def cureIfMemberManagement (db : Db) (capability : Capability) (scope : Scope)
    (result : GrantResult) :
    Except Error Db :=
  if capability = .manageMembers ∧ result.outcome = .created then cureLockoutRetentions db scope
    else .ok db

variable (contract : Contract)

def create (st : State W) (caller : Identity) (spec : GrantSpec) (now : Time) :
    Except Error (State W × GrantResult) :=
  match spec.scope.level with
  | none => .error .invalid
  | some level => do
    let _ ← authorize contract st.db caller (createOp level) spec.scope
    let (st', result) ← grantOneWithInvalidation consume st caller spec level now true
    let db ← cureIfMemberManagement st'.db spec.capability spec.scope result
    pure (⟨db, st'.windows⟩, result)

/-- A template is one act: its grants first, then one end of the sessions, then the cures. -/
def applyTemplate (st : State W) (caller : Identity) (template : Template) (target : PrincipalID)
    (scope : Scope) (now : Time) : Except Error (State W × List GrantResult) :=
  match scope.level with
  | none => .error .invalid
  | some level => do
    let _ ← authorize contract st.db caller (templateOp level) scope
    match expandTemplate template level with
    | none => .error .templateScope
    | some caps => do
      let (st', results) ← caps.foldlM (fun (acc : State W × List GrantResult) capability => do
        let (next, result) ←
          grantOneWithInvalidation consume acc.1 caller ⟨target, capability, scope⟩ level now false
        pure (next, acc.2 ++ [result])) (st, [])
      let db :=
        if results.any (·.outcome == .created) then st'.db.invalidateGrantChange target else st'.db
      let db ← (caps.zip results).foldlM (fun db entry =>
        cureIfMemberManagement db entry.1 scope entry.2) db
      pure (⟨db, st'.windows⟩, results)

def breakGlassGrant (st : State W) (spec : GrantSpec) (now : Time) :
    Except Error (State W × GrantResult) :=
  match spec.scope.level with
  | none => .error .invalid
  | some level => do
    checkGrantable spec.capability level
    let _ ← lockAndClassify st.db now spec.target spec.capability spec.scope
    let (db, result) ← writeGrantRow st.db spec .breakGlass
    let db ← cureIfMemberManagement db spec.capability spec.scope result
    pure (⟨db, st.windows⟩, result)

def checkLockout (db : Db) (spec : GrantSpec) : Except Error Unit :=
  if spec.capability ≠ .manageMembers then .ok ()
  else
    match spec.scope.level with
    | none => .error .scopeGap
    | some .none | some .org =>
      require (remainingMemberManagers db spec.target spec.scope ≠ 0) .lastMemberManager
    -- An organisation without a project-scope member manager is still administrable.
    | some .project | some .env => .ok ()

/-- A release that leaves an origin behind takes nothing away and is not checked. -/
def checkRowLockout (db : Db) (spec : GrantSpec) (origins : List Origin) : Except Error Unit :=
  if origins.all (·.isMintable) then checkLockout db spec else .ok ()

def systemOriginRefusal (origins : List Origin) : Error :=
  if origins.any fun o => match o with | .scim _ => true | _ => false then .scimOriginOnly
  else if origins.any fun o => match o with | .lockoutRetention _ _ => true | _ => false then
    .lockoutRetained
  else if origins.any fun o => match o with | .structural _ => true | _ => false then
    .structuralGrant
  else .noSuchGrant

def revoke (st : State W) (caller : Identity) (spec : GrantSpec) : Except Error (State W) :=
  match spec.scope.level with
  | none => .error .invalid
  | some level => do
    let _ ← authorize contract st.db caller (revokeOp level) spec.scope
    require ((st.db.principal? spec.target).isSome = true) .noSuchGrant
    match findGrant (st.db.grantRowsForPrincipal spec.target) spec.capability spec.scope with
    | none => .error .noSuchGrant
    | some existing => do
      checkRowLockout st.db spec existing.origins
      let owned := existing.origins.filter (·.isMintable)
      require (owned ≠ []) (systemOriginRefusal existing.origins)
      let released := owned.foldl (fun db origin => db.releaseGrantOrigin existing.id origin) st.db
      pure ⟨if released.originsFor existing.id = [] then
        (released.deleteGrantRow existing.id).invalidateGrantChange spec.target
        else released, st.windows⟩

end Surface

end Hikyo.Access
