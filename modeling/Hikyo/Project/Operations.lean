import Hikyo.Project.Approvals

/-!
# Operations on values

The operations on values: staging and restoring drafts, publishing with its checks, declaring,
importing, copying and cloning.  Authorization, ceremonies, budgets and audit rows only refuse or
record, and are left out.
-/

namespace Hikyo.Project

open Hikyo.Lib

def maxPendingPerProject : Nat := 100

/-- `Set` and `Unset`: nothing is validated and nothing is published. -/
def stage (db : ProjectDB) (caller : PrincipalID) (env : EnvID) (keyName : String)
    (value : Option String) : Except ServiceError (ProjectDB × VersionID) := do
  let _ ← db.getEnvironment env
  let key ← db.findKey keyName
  require ((db.pending.filter fun change =>
      !(change.env == env && change.keyID == key.id && change.owner == caller)).length
        < maxPendingPerProject)
    (.limitExceeded s!"a project holds at most {maxPendingPerProject} pending changes")
  let change : PendingChange :=
    { id := db.nextID
      env := env
      keyID := key.id
      owner := caller
      value := value.map normalize
      stagedFromRevision := db.currentRevision env
      stagedFromEntry := (db.cell? env key.id).map ValueEntry.id
      source := .values
      secret := key.classification == .secret
      materialSecret := key.classification == .secret }
  return ({ db.stagePending change with nextID := db.nextID + 1 }, change.id)

/-- None when presence and plaintext already agree. -/
def restoreDraft (db : ProjectDB) (caller : PrincipalID) (env : EnvID) (latestRevision : Nat)
    (target : Snapshot) (key : CatalogueKey) : Option PendingChange :=
  let past := target.entries.find? fun entry => entry.keyID == key.id
  let current := db.cell? env key.id
  let pastSecret := past.any fun entry =>
    entry.classification == .secret || db.isSecretOccurrence env entry.valueEntryID
  if past.map SnapshotEntry.value = current.map ValueEntry.value then none
  else some
    { id := db.nextID
      env := env
      keyID := key.id
      owner := caller
      value := past.map SnapshotEntry.value
      stagedFromRevision := latestRevision
      stagedFromEntry := current.map ValueEntry.id
      source := .restore
      secret := pastSecret || (current.any fun entry => db.isSecretOccurrence env entry.id) ||
        key.classification == .secret
      materialSecret := pastSecret }

def restoreEach (caller : PrincipalID) (env : EnvID) (latestRevision : Nat) (target : Snapshot) :
    List CatalogueKey → ProjectDB → ProjectDB × List VersionID
  | [], db => (db, [])
  | key :: rest, db =>
    match restoreDraft db caller env latestRevision target key with
    | none => restoreEach caller env latestRevision target rest db
    | some change =>
      let (after, ids) := restoreEach caller env latestRevision target rest
        { db.stagePending change with nextID := db.nextID + 1 }
      (after, change.id :: ids)

/-- The whole catalogue, or one key.  An entry of a key that no longer exists refuses. -/
def restoreKeys (db : ProjectDB) (target : Snapshot) (keyName : Option String) :
    Except ServiceError (List CatalogueKey) :=
  match keyName with
  | none =>
    match target.entries.find? fun entry => (db.key? entry.keyID).isNone with
    | some entry =>
      .error (.invalid
        (s!"revision {target.revision} contains key {entry.keyName}, which is absent from the " ++
         "current schema"))
    | none => .ok db.listKeys
  | some name => do
    let key ← db.findKey name
    require (target.entries.all (fun entry => !(entry.keyName == name) || entry.keyID == key.id) =
      true)
      (.invalid
        (s!"revision {target.revision} contains an earlier key named {name} with a different " ++
         "identity; refusing to clear its replacement"))
    return [key]

def collectedRevisionError (snapshot : Snapshot) : ServiceError :=
  .conflict s!"revision {snapshot.revision} was collected by retention policy"

/-- `Restore`: stages the difference to a retained revision and previews it. -/
def restore (db : ProjectDB) (caller : PrincipalID) (env : EnvID) (revision : Nat)
    (keyName : Option String) : Except ServiceError (ProjectDB × Option PreviewToken) := do
  require (0 < revision) (.invalid "restore revision must be positive")
  let _ ← db.getEnvironment env
  match db.latest env, db.atRevision env revision with
  | some latest, some target =>
    require (target.payloadPresent = true) (collectedRevisionError target)
    let keys ← restoreKeys db target keyName
    if target.revision = latest.revision then return (db, none)
    let (after, ids) := restoreEach caller env latest.revision target keys db
    if ids = [] then return (after, none)
    let selected ← resolveVersions (after.ownPending caller) ids
    let index ← loadGroupIndex after
    let (selection, _) ← selectVersions after caller index selected
    return (after, some (publishPreviewToken after env caller selection))
  | _, _ => throw (.notFound s!"revision {revision}")

structure PublishResult where
  published : List VersionID
  closedIn : List VersionID
  environments : List PublishedEnvironment

inductive PublishOutcome
  | published (result : PublishResult)
  | requestCreated (request : ApprovalRequest)
  | refused (cause : InvalidatedCause)

def discardAll : List PendingChange → ProjectDB → Except ServiceError ProjectDB
  | [], db => .ok db
  | apply :: rest, db => do
    require (db.pending.any (fun change => change.id == apply.id) = true)
      (.stalePending s!"version {apply.id} vanished mid-publish")
    discardAll rest (db.discard apply.id)

section Publish
variable (server : Server)

def publishEnvironments (index : GroupIndex) (caller : PrincipalID)
    (selection : List PendingChange) :
    List EnvID → ProjectDB → Except ServiceError (ProjectDB × List PublishedEnvironment)
  | [], db => .ok (db, [])
  | env :: rest, db => do
    let row ← db.getEnvironment env
    checkFreshness db env (appliesTo selection env)
    let (db, published) ← materialize server db index row caller (appliesTo selection env)
    let db ← discardAll (appliesTo selection env) db
    let (db, more) ← publishEnvironments index caller selection rest db
    return (db, published :: more)

/-- A machine confirms exactly the protected environments; a human confirms by
ceremony and names none. -/
def checkProtected (db : ProjectDB) (caller : PrincipalID) (envs confirmed : List EnvID) :
    Except ServiceError Unit :=
  if caller ∈ db.directory.machines then
    require (confirmed.insertionSort (· ≤ ·) =
        envs.filter fun env => (db.environment? env).any Environment.isProtected)
      (.invalid "protected-environment confirmation does not match the reviewed protected set")
  else
    require (confirmed = [])
      (.invalid "human protected-environment confirmation is supplied by the bound ceremony")

def planSelection (db : ProjectDB) (caller : PrincipalID) (versionIDs : List VersionID) :
    Except ServiceError (GroupIndex × List PendingChange × List VersionID) := do
  let selected ← resolveVersions (db.ownPending caller) versionIDs
  let index ← loadGroupIndex db
  let (selection, closed) ← selectVersions db caller index selected
  return (index, selection, closed)

def commitPublish (db : ProjectDB) (index : GroupIndex) (caller : PrincipalID)
    (selection : List PendingChange) (closed : List VersionID) (confirmed : List EnvID)
    (resolved : Option (ApprovalRequest × Bool)) :
    Except ServiceError (ProjectDB × PublishOutcome) := do
  checkProtected db caller (selectionEnvs selection) confirmed
  let (db, environments) ←
    publishEnvironments server index caller selection (selectionEnvs selection) db
  let result : PublishResult :=
    ⟨(selection.map PendingChange.id).insertionSort (· ≤ ·), closed, environments⟩
  match resolved with
  | none => return (db, .published result)
  | some (request, bypass) =>
    return (setRequestState db request.env request.id (if bypass then .bypassed else .merged),
      .published result)

/-- A restored draft is published only with the preview it was shown with. -/
def checkPreview (db : ProjectDB) (caller : PrincipalID) (scopeEnv : EnvID)
    (request : PublishRequest) (selection : List PendingChange) : Except ServiceError Unit :=
  require (selection.any (fun change => change.source == .restore) = false ∨
      request.approvalRequestID ≠ none ∨
      request.previewToken = some (publishPreviewToken db scopeEnv caller selection))
    .stalePreview

def loadRequest (db : ProjectDB) (scopeEnv : EnvID) :
    Option RequestID → Except ServiceError (Option ApprovalRequest)
  | none => .ok none
  | some id => some <$> getRequest db scopeEnv id

def publishPlanned (db : ProjectDB) (caller : PrincipalID) (scopeEnv : EnvID)
    (request : PublishRequest) (now : Time) : Except ServiceError (ProjectDB × PublishOutcome) := do
  require (request.versionIDs ≠ [] ∨ request.approvalRequestID ≠ none)
    (.invalid "a publish names the pending changes it commits")
  require request.versionIDs.Nodup (.invalid "a pending change is named more than once")
  let _ ← db.getEnvironment scopeEnv
  let loaded ← loadRequest db scopeEnv request.approvalRequestID
  match planSelection db caller
    ((loaded.map ApprovalRequest.versionIDs).getD request.versionIDs) with
  | .error (.stalePending detail) =>
    match loaded with
    | none => throw (.stalePending detail)
    | some live =>
      -- the reviewed drafts are gone: the request must not stay open for ever
      if live.state.isActive = true then
        return (setRequestState db live.env live.id (.invalidated .draftEdited),
          .refused .draftEdited)
      else throw (.stalePending detail)
  | .error e => throw e
  | .ok (index, selection, closed) => do
    checkPreview db caller scopeEnv request selection
    let (db, outcome) ← approvalGate db caller scopeEnv request loaded selection closed now
    match outcome with
    | .refused cause => return (db, .refused cause)
    | .created created => return (db, .requestCreated created)
    | .proceed =>
        commitPublish server db index caller selection closed request.confirmedProtected none
    | .resolve live bypass =>
      commitPublish server db index caller selection closed request.confirmedProtected
        (some (live, bypass))

def checkNotForbidden (key : CatalogueKey) (env : EnvID) : Except ServiceError Unit :=
  require (key.presence.forbidden.covers env = false)
    (.invalid s!"key {key.name} is forbidden_in environment {env}")

def writeChecked (row : Environment) (db : ProjectDB) (key : CatalogueKey) (value : String) :
    Except ServiceError ProjectDB := do
  checkNotForbidden key row.id
  validateValueWithParameters server key value row.parameters
  return db.putValue row.id key.id (normalize value)

def writeEach (row : Environment) : List (CatalogueKey × String) → ProjectDB →
    Except ServiceError ProjectDB
  | [], db => .ok db
  | (key, value) :: rest, db => do
    let db ← writeChecked server row db key value
    writeEach row rest db

def writeAndPublish (caller : PrincipalID) (trigger : Trigger)
    (material : List (CatalogueKey × String)) :
    List EnvID → ProjectDB → Except ServiceError (ProjectDB × List PublishedEnvironment)
  | [], db => .ok (db, [])
  | env :: rest, db => do
    let row ← db.getEnvironment env
    let db ← writeEach server row material db
    let (db, published) ← republish server db env caller trigger
    let (db, more) ← writeAndPublish caller trigger material rest db
    return (db, published :: more)

/-- `Declare`: one supplied value into several environments. -/
def declare (db : ProjectDB) (caller : PrincipalID) (envs : List EnvID) (keyName value : String) :
    Except ServiceError (ProjectDB × List PublishedEnvironment) := do
  require (envs ≠ []) (.invalid "a value addresses an environment")
  require envs.Nodup (.invalid "an environment is named more than once")
  let key ← db.findKey keyName
  writeAndPublish server caller .declare [(key, value)] envs db

def findKeys (db : ProjectDB) : List String → Except ServiceError (List CatalogueKey)
  | [] => .ok []
  | name :: rest => do
    let key ← db.findKey name
    let keys ← findKeys db rest
    return key :: keys

/-- `Import`: an entry of a set cell is skipped unless its overwrite is consented to. -/
def importValues (db : ProjectDB) (caller : PrincipalID) (env : EnvID)
    (supplied : List (String × String)) (overwrite : List String) :
    Except ServiceError (ProjectDB × List PublishedEnvironment) := do
  require (supplied ≠ []) (.invalid "an import carries at least one value")
  require (supplied.all (fun v => decide (v.2.utf8ByteSize ≤ maxValueBytes)) = true)
    (.invalid s!"a value exceeds the {maxValueBytes}-byte validation budget")
  require (supplied.map Prod.fst).Nodup (.invalid "a key is named more than once")
  require overwrite.Nodup (.invalid "--overwrite names a key more than once")
  require (overwrite.all (fun name => (supplied.map Prod.fst).contains name) = true)
    (.invalid "--overwrite names a key which this import does not carry")
  let _ ← db.getEnvironment env
  let keys ← findKeys db (supplied.map Prod.fst)
  let material := (keys.zip supplied).filterMap fun (key, name, value) =>
    if (db.cell? env key.id).isSome && !overwrite.contains name then none else some (key, value)
  if material = [] then return (db, [])
  writeAndPublish server caller .importValues material [env] db

def sourceMaterial (db : ProjectDB) (source : EnvID) :
    List CatalogueKey → Except ServiceError (List (CatalogueKey × String))
  | [] => .ok []
  | key :: rest =>
    match db.cell? source key.id with
    | none => .error (.notFound s!"key {key.name} is absent in the source environment")
    | some entry => do
      let material ← sourceMaterial db source rest
      return (key, entry.value) :: material

def copyValues (db : ProjectDB) (caller : PrincipalID) (source : EnvID) (keyNames : List String)
    (destinations : List EnvID) : Except ServiceError (ProjectDB × List PublishedEnvironment) := do
  require (keyNames ≠ []) (.invalid "copy names at least one key")
  require (destinations ≠ []) (.invalid "copy names at least one destination environment")
  require (source ∉ destinations) (.invalid "an environment cannot be its own copy destination")
  require keyNames.Nodup (.invalid "a key is named more than once")
  require destinations.Nodup (.invalid "a destination environment is named more than once")
  let sourceRow ← db.getEnvironment source
  let keys ← findKeys db keyNames
  -- every destination is cleared before any source value is opened
  require (destinations.all (fun env => (coveringPolicy db env).isNone) = true) .approvalRequired
  let material ← sourceMaterial db source keys
  let templated := !sourceRow.parameters.isEmpty &&
    material.any fun (key, value) => key.classification == .config && hasMarker value
  require (templated = false ∨ destinations.all (fun env =>
      (db.environment? env).any fun row => !row.parameters.isEmpty) = true)
    (.invalid
      "a key uses template syntax; declare destination environment parameters before copying")
  let ordered := material.filter (fun m => m.1.classification == .config) ++
    material.filter fun m => m.1.classification == .secret
  writeAndPublish server caller
    (if keyNames.length > 1 ∨ destinations.length > 1 then .bulkApply
      else .copy) ordered destinations db

/-- Every set config key, and the secrets if the caller passed the source gate. -/
def cloneMaterial (db : ProjectDB) (source : EnvID) (copiesSecrets : Bool) :
    List (CatalogueKey × String) :=
  let carried (classification : Classification) := db.listKeys.filterMap fun key =>
    if key.classification = classification then
      (db.cell? source key.id).map fun entry => (key, entry.value)
    else none
  carried .config ++ if copiesSecrets then carried .secret else []

def createEnvironment (db : ProjectDB) (caller : PrincipalID) (clone : Option (EnvID × Bool)) :
    Except ServiceError (ProjectDB × List PublishedEnvironment) := do
  require (db.environments.length < maxEnvironmentsPerProject)
    (.limitExceeded s!"a project holds at most {maxEnvironmentsPerProject} environments")
  let created := db.insertEnvironment.bumpSchemaRevision
  let env := db.nextID
  match clone with
  | none => writeAndPublish server caller .environmentCreate [] [env] created
  | some (source, copiesSecrets) => do
    let sourceRow ← db.getEnvironment source
    require (sourceRow.parameters = []) (.invalid "cannot clone a parameterized environment")
    let material := cloneMaterial db source copiesSecrets
    require (db.listKeys.all (fun key =>
        !(key.classification == .secret && key.presence.required.covers env) ||
          material.any fun m => m.1.id == key.id) = true)
      (.invalid s!"cloning {source} would leave required secrets absent in the new environment")
    writeAndPublish server caller .environmentCreate material [env] created

end Publish

end Hikyo.Project
