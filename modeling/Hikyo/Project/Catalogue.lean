import Hikyo.Project.Parameters

/-!
# The key catalogue

The keys of a project with their presence rules, groups and parameters, and the statements of the
schema operations with all their checks and refusals.  A change that alters nothing answers `none`
and charges no revision.
-/

namespace Hikyo.Project

open Hikyo.Lib

def overlap : Presence → Presence → Bool
  | .none, _ => false
  | _, .none => false
  | .all, _ => true
  | _, .all => true
  | .explicit required, .explicit forbidden => forbidden.any required.contains

def checkPresenceShape (what : String) : Presence → Except ServiceError Unit
  | .none => .ok ()
  | .all => .ok ()
  | .explicit environments => do
    require (environments ≠ []) (.invalid s!"{what} mode explicit names at least one environment")
    require environments.Nodup (.invalid s!"{what} names an environment more than once")

def checkPresenceRules (rules : PresenceRules) : Except ServiceError Unit := do
  checkPresenceShape "required_in" rules.required
  checkPresenceShape "forbidden_in" rules.forbidden
  require (overlap rules.required rules.forbidden = false)
    (.invalid "a key cannot be both required_in and forbidden_in the same environment")

def checkGroupPresence (a b : PresenceRules) : Except ServiceError Unit :=
  require (overlap a.required b.forbidden = false ∧ overlap b.required a.forbidden = false)
    (.invalid
      "two members of one key group cannot be required_in and forbidden_in the same environment")

/-- `presenceEqual`: explicit rules are compared as sets of rows. -/
def Presence.same : Presence → Presence → Bool
  | .explicit a, .explicit b => a.insertionSort (· ≤ ·) == b.insertionSort (· ≤ ·)
  | a, b => a == b

def presenceEqual (a b : PresenceRules) : Bool :=
  a.required.same b.required && a.forbidden.same b.forbidden

def Presence.without (env : EnvID) : Presence → Presence
  | .explicit environments => .explicit (environments.filter fun id => !(id == env))
  | rule => rule

/-- `emptiedMode`: an explicit rule with no row left becomes `none`. -/
def Presence.emptied : Presence → Presence
  | .explicit [] => .none
  | rule => rule

def Presence.names (env : EnvID) : Presence → Bool
  | .explicit environments => environments.contains env
  | _ => false

def CatalogueKey.withoutRows (env : EnvID) (key : CatalogueKey) : CatalogueKey :=
  { key with presence := ⟨key.presence.required.without env, key.presence.forbidden.without env⟩ }

/-- `cascadeEnvironmentPresence` for one key: only a key whose rules name the
environment is touched. -/
def CatalogueKey.cascade (env : EnvID) (key : CatalogueKey) : CatalogueKey :=
  if key.presence.required.names env || key.presence.forbidden.names env then
    { key with presence :=
      ⟨(key.presence.required.without env).emptied, (key.presence.forbidden.without env).emptied⟩ }
  else key

/-- One reading of the catalogue.  Building it refuses a repeated key id. -/
structure GroupIndex where
  keys : List CatalogueKey
  distinct : (keys.map CatalogueKey.id).Nodup

namespace GroupIndex

def key? (index : GroupIndex) (id : KeyID) : Option CatalogueKey :=
  index.keys.find? fun key => key.id == id

def members (index : GroupIndex) (group : GroupID) : List CatalogueKey :=
  index.keys.filter fun key => key.groupID == some group

/-- The statically decidable conflict between members of one group. -/
def validateStaticMembership (index : GroupIndex) (group : Option GroupID) (selfID : KeyID)
    (self : PresenceRules) : Except ServiceError Unit :=
  match group with
  | none => .ok ()
  | some group =>
    (index.members group).forM fun mem =>
      if mem.id = selfID then .ok () else checkGroupPresence self mem.presence

end GroupIndex

def loadGroupIndex (db : ProjectDB) : Except ServiceError GroupIndex :=
  if distinct : (db.listKeys.map CatalogueKey.id).Nodup then .ok ⟨db.listKeys, distinct⟩
  else .error (.internal "service: group index: duplicate catalogue key")

def maxKeysPerProject : Nat := 1000
def maxKeyGroupsPerProject : Nat := 100
def maxKeyNameBytes : Nat := 128
def maxEnvironmentsPerProject : Nat := 50
def maxParameters : Nat := 32
def maxPatternBytes : Nat := 512

/-- `\A[A-Z_][A-Z0-9_]*\z`, at most 128 bytes. -/
def checkKeyName (name : String) : Except ServiceError Unit := do
  require (name ≠ "") (.invalid "key name must not be empty")
  require (name.utf8ByteSize ≤ maxKeyNameBytes)
    (.invalid s!"key name exceeds {maxKeyNameBytes} bytes")
  require (name.toList.all (fun c => c.isUpper || c.isDigit || c == '_') ∧
      name.toList.head?.all (fun c => !c.isDigit) = true)
    (.invalid s!"key name {name} does not match the canonical grammar [A-Z_][A-Z0-9_]*")

structure KeySpec where
  name : String
  classification : Classification
  declaration : String
  presence : PresenceRules
  groupID : Option GroupID

namespace ProjectDB

def getKey (db : ProjectDB) (id : KeyID) : Except ServiceError CatalogueKey :=
  match db.key? id with
  | some key => .ok key
  | none => .error (.notFound s!"key {id}")

def getGroup (db : ProjectDB) (id : GroupID) : Except ServiceError Unit :=
  require (id ∈ db.groups) (.notFound s!"key group {id}")

def getEnvironment (db : ProjectDB) (id : EnvID) : Except ServiceError Environment :=
  match db.environment? id with
  | some env => .ok env
  | none => .error (.notFound s!"environment {id}")

def findKey (db : ProjectDB) (name : String) : Except ServiceError CatalogueKey :=
  match db.listKeys.find? fun key => key.name == name with
  | some key => .ok key
  | none => .error (.notFound s!"no key {name} is declared in this project")

def nameFree (db : ProjectDB) (id : KeyID) (name : String) : Bool :=
  db.keys.all fun key => key.id == id || !(key.name == name)

def updateKey (db : ProjectDB) (id : KeyID) (change : CatalogueKey → CatalogueKey) : ProjectDB :=
  { db with keys := updateWhere (fun key => key.id == id) change db.keys }

def bumpSchemaRevision (db : ProjectDB) : ProjectDB :=
  { db with schemaRevision := db.schemaRevision + 1 }

def insertKey (db : ProjectDB) (spec : KeySpec) : Except ServiceError ProjectDB := do
  require (db.nameFree db.nextID spec.name = true) (.conflict s!"key {spec.name} already exists")
  return { db with
    keys := ⟨db.nextID, spec.name, spec.classification, spec.declaration, spec.presence,
      spec.groupID⟩ :: db.keys
    nextID := db.nextID + 1 }

def removeKey (db : ProjectDB) (id : KeyID) : ProjectDB :=
  { db with
    pending := db.pending.filter fun change => !(change.keyID == id)
    keys := db.keys.filter fun key => !(key.id == id) }

def clearKey (db : ProjectDB) (id : KeyID) : ProjectDB :=
  { db with entries := db.entries.filter fun entry => !(entry.keyID == id) }

def insertEnvironment (db : ProjectDB) : ProjectDB :=
  { db with
    environments := db.environments ++ [⟨db.nextID, false, []⟩]
    nextID := db.nextID + 1 }

/-- Everything stored for one environment, with the environment's row. -/
def removeEnvironment (db : ProjectDB) (env : EnvID) : ProjectDB :=
  { db with
    environments := db.environments.filter fun row => !(row.id == env)
    entries := db.entries.filter fun entry => !(entry.env == env)
    pending := db.pending.filter fun change => !(change.env == env)
    snapshots := db.snapshots.filter fun snapshot => !(snapshot.env == env)
    changes := db.changes.filter fun row => !(row.env == env)
    secretOccurrences := db.secretOccurrences.filter fun row => !(row.1 == env)
    requests := db.requests.filter fun request => !(request.env == env)
    votes := db.votes.filter fun vote =>
      db.requests.all fun request => !(request.id == vote.requestID) || !(request.env == env) }

end ProjectDB

section Changes
variable (server : Server)

def checkMembership (db : ProjectDB) (group : Option GroupID) (selfID : KeyID)
    (self : PresenceRules) :
    Except ServiceError Unit :=
  match group with
  | none => .ok ()
  | some groupID => do
    db.getGroup groupID
    let index ← loadGroupIndex db
    index.validateStaticMembership group selfID self

def createKey (db : ProjectDB) (spec : KeySpec) : Except ServiceError (Option ProjectDB) := do
  checkKeyName spec.name
  require (server.compiles spec.classification spec.declaration = true)
    (.invalid "the declaration does not compile")
  checkPresenceRules spec.presence
  require (db.keys.length < maxKeysPerProject)
    (.limitExceeded s!"a project declares at most {maxKeysPerProject} keys")
  checkMembership db spec.groupID db.nextID spec.presence
  some <$> db.insertKey spec

def renameKey (db : ProjectDB) (id : KeyID) (name : String) :
    Except ServiceError (Option ProjectDB) := do
  checkKeyName name
  let _ ← db.getKey id
  require (db.nameFree id name = true) (.conflict s!"key {name} already exists")
  return some (db.updateKey id fun key => { key with name := name })

def updateDeclaration (db : ProjectDB) (id : KeyID) (declaration : String)
    (presence : PresenceRules) : Except ServiceError (Option ProjectDB) := do
  let before ← db.getKey id
  require (server.compiles before.classification declaration = true)
    (.invalid "the declaration does not compile")
  checkPresenceRules presence
  let index ← loadGroupIndex db
  index.validateStaticMembership before.groupID id presence
  if server.valueDependentChange before.declaration declaration = false ∧
      presenceEqual before.presence presence = true then
    return none
  return some (db.updateKey id fun key =>
    { key with declaration := declaration, presence := presence })

def reclassifyKey (db : ProjectDB) (id : KeyID) (classification : Classification) :
    Except ServiceError (Option ProjectDB) := do
  let before ← db.getKey id
  require (before.classification ≠ classification)
    (.invalid s!"the key is already classified {classificationText classification}")
  require (server.compiles classification before.declaration = true)
    (.invalid s!"key {before.name} cannot be classified {classificationText classification}")
  return some (db.updateKey id fun key => { key with classification := classification })

def setKeyGroup (db : ProjectDB) (id : KeyID) (group : Option GroupID) :
    Except ServiceError (Option ProjectDB) := do
  let before ← db.getKey id
  if before.groupID = group then return none
  checkMembership db group id before.presence
  return some (db.updateKey id fun key => { key with groupID := group })

def deleteKey (db : ProjectDB) (id : KeyID) : Except ServiceError (Option ProjectDB) := do
  let before ← db.getKey id
  require (∀ entry ∈ db.entries, entry.keyID ≠ id)
    (.conflict s!"key {before.name} still holds values")
  return some (db.removeKey id)

def deleteGroup (db : ProjectDB) (id : GroupID) : Except ServiceError (Option ProjectDB) := do
  db.getGroup id
  return some { db with
    keys := updateWhere (fun key => key.groupID == some id)
      (fun key => { key with groupID := none })
      db.keys
    groups := db.groups.filter fun group => !(group == id) }

inductive DefinitionChange
  | deleteKey (id : KeyID)
  | deleteGroup (id : GroupID)
  | deleteEnvironment (env : EnvID)
  | createEnvironment
  | createGroup
  | renameKey (id : KeyID) (name : String)
  | createKey (spec : KeySpec)
  | updateKey (id : KeyID) (spec : KeySpec)

def executeChange (db : ProjectDB) : DefinitionChange → Except ServiceError ProjectDB
  | .deleteKey id => do
    let _ ← db.getKey id
    return (db.clearKey id).removeKey id
  | .deleteGroup id => do
    match ← deleteGroup db id with
    | some db => return db
    | none => return db
  | .deleteEnvironment env => do
    let _ ← db.getEnvironment env
    require (∀ entry ∈ db.entries, entry.env ≠ env)
      (.conflict
        s!"environment {env} holds live values and must be emptied before it can be deleted")
    return { db.removeEnvironment env with keys := db.keys.map (CatalogueKey.withoutRows env) }
  | .createEnvironment => return db.insertEnvironment
  | .createGroup => return { db with groups := db.nextID :: db.groups, nextID := db.nextID + 1 }
  | .renameKey id name => do
    let _ ← db.getKey id
    require (db.nameFree id name = true) (.conflict s!"key {name} already exists")
    return db.updateKey id fun key => { key with name := name }
  | .createKey spec => do
    require (server.compiles spec.classification spec.declaration = true)
      (.invalid "the declaration does not compile")
    checkPresenceRules spec.presence
    db.insertKey spec
  | .updateKey id spec => do
    let before ← db.getKey id
    checkPresenceRules spec.presence
    require (¬ (before.classification = .secret ∧ spec.classification = .config))
      (.invalid s!"definitions apply cannot declassify key {before.name} from secret to config")
    require (server.compiles spec.classification spec.declaration = true)
      (.invalid "the declaration does not compile")
    return db.updateKey id fun key => { key with
      declaration := spec.declaration
      presence := spec.presence
      classification := spec.classification
      groupID := spec.groupID }

def executeResolution (db : ProjectDB) (changes : List DefinitionChange) :
    Except ServiceError (Option ProjectDB) :=
  if changes.isEmpty then .ok none
  else do return some (← changes.foldlM (executeChange server) db)

def createGroup (db : ProjectDB) : Except ServiceError ProjectDB := do
  require (db.groups.length < maxKeyGroupsPerProject)
    (.limitExceeded s!"a project declares at most {maxKeyGroupsPerProject} key groups")
  return ProjectDB.bumpSchemaRevision
    { db with groups := db.nextID :: db.groups, nextID := db.nextID + 1 }

def deleteEnvironment (db : ProjectDB) (env : EnvID) : Except ServiceError ProjectDB := do
  let _ ← db.getEnvironment env
  return ProjectDB.bumpSchemaRevision
    { db.removeEnvironment env with keys := db.keys.map (CatalogueKey.cascade env) }

def checkParameter (declared : Declarations) (name : String) (pattern : Option String) :
    Except ServiceError Unit :=
  match pattern with
  | none =>
    require (declared.any (fun d => d.1 == name) = true)
      (.invalid s!"parameter {name} is not declared")
  | some text => do
    require (0 < text.utf8ByteSize ∧ text.utf8ByteSize ≤ maxPatternBytes)
      (.invalid s!"parameter {name} pattern must contain 1 to {maxPatternBytes} bytes")
    require (text.toList.all (fun c => !(c == Char.ofNat 0)) ∧ server.compilesPattern text = true)
      (.invalid s!"parameter {name} has an invalid pattern")
    require (declared.any (fun d => d.1 == name) = false)
      (.invalid s!"parameter {name} is already declared; delete it before changing its pattern")
    require (declared.length < maxParameters)
      (.invalid s!"at most {maxParameters} parameters are allowed")

def editDeclarations (declared : Declarations) (name : String) : Option String → Declarations
  | none => declared.filter fun d => !(d.1 == name)
  | some text => declared ++ [(name, text)]

def setParameter (db : ProjectDB) (env : EnvID) (name : String) (pattern : Option String) :
    Except ServiceError ProjectDB := do
  require (isParameterName name.toList = true) (.invalid s!"parameter name {name} is not valid")
  let row ← db.getEnvironment env
  checkParameter server row.parameters name pattern
  return ProjectDB.bumpSchemaRevision { db with
    environments := updateWhere (fun row => row.id == env)
      (fun row' => { row' with parameters := editDeclarations row.parameters name pattern })
      db.environments }

end Changes

end Hikyo.Project
