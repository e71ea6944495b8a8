import Hikyo.Lib.Json
import Hikyo.Lib.Saturate
import Hikyo.Project.Catalogue
import Hikyo.Delivery.Manifest

/-!
# Publishing

From named drafts to a committed revision: `selectVersions` closes the selection under the coupling
of key groups, `checkFreshness` compares each draft with the published cell, and `materialize` is
the one primitive that advances an environment.  The approval gate stands before it for the triggers
of `approvalGatedTrigger`.
-/

namespace Hikyo.Project

open Hikyo.Lib Hikyo.Delivery

section Selection

/-- `resolveVersions`: the named drafts among the caller's own. -/
def resolveVersions (mine : List PendingChange) :
    List VersionID → Except ServiceError (List PendingChange)
  | [] => .ok []
  | id :: rest =>
    match mine.find? fun change => change.id == id with
    | none => .error (.stalePending s!"no live pending change {id} is owned by this principal")
    | some change => do
      let selected ← resolveVersions mine rest
      return if selected.any fun other => other.id == id then selected else change :: selected

/-- `sortedChanges`: by environment, then by version. -/
def sortedChanges (selected : List PendingChange) : List PendingChange :=
  selected.insertionSort fun a b => a.env < b.env ∨ (a.env = b.env ∧ a.id ≤ b.id)

structure Closing where
  selected : List PendingChange
  closed : List VersionID

variable (principal : PrincipalID) (mine markers : List PendingChange) (index : GroupIndex)

def pullMarker (change : PendingChange) (group : GroupID) (mem : CatalogueKey) (acc : Closing)
    (marker : PendingChange) : Except ServiceError Closing :=
  if marker.keyID ≠ mem.id ∨ marker.env ≠ change.env then .ok acc
  else if marker.owner ≠ principal then
    .error (.invalid
      (s!"key group {group} couples key {mem.name}, whose pending change in environment " ++
       s!"{change.env} is owned by another principal: publish is refused rather than split"))
  else if acc.selected.any fun other => other.id == marker.id then .ok acc
  else
    match mine.find? fun other => other.id == marker.id with
    | none => .error (.stalePending s!"group mem version {marker.id} is no longer live")
    | some pull => .ok ⟨pull :: acc.selected, marker.id :: acc.closed⟩

def closeMember (change : PendingChange) (group : GroupID) (acc : Closing) (mem : CatalogueKey) :
    Except ServiceError Closing :=
  markers.foldlM (pullMarker principal mine change group mem) acc

def closeChange (acc : Closing) (change : PendingChange) : Except ServiceError Closing :=
  match index.key? change.keyID with
  | none =>
    .error (.stalePending
      s!"pending change {change.id} names key {change.keyID}, which is no longer declared")
  | some key =>
    match key.groupID with
    | none => .ok acc
    | some group =>
        (index.members group).foldlM (closeMember principal mine markers change group) acc

def closePass (acc : Closing) : Except ServiceError Closing :=
  (sortedChanges acc.selected).foldlM (closeChange principal mine markers index) acc

def closeSelection (selected : List PendingChange) : Except ServiceError Closing :=
  saturate (closePass principal mine markers index) (fun acc => acc.selected.length)
    (.internal "key-group closure does not end") (mine.length + 1) ⟨selected, []⟩

end Selection

/-- `selectVersions`: the closed selection in its stable order, and the versions
closure added. -/
def selectVersions (db : ProjectDB) (principal : PrincipalID) (index : GroupIndex)
    (selected : List PendingChange) :
    Except ServiceError (List PendingChange × List VersionID) := do
  let closing ← closeSelection principal (db.ownPending principal) db.pending index selected
  return (sortedChanges closing.selected, closing.closed.insertionSort (· ≤ ·))

def appliesTo (selection : List PendingChange) (env : EnvID) : List PendingChange :=
  selection.filter fun change => change.env == env

def selectionEnvs (selection : List PendingChange) : List EnvID :=
  (selection.map PendingChange.env).dedup

/-- `checkFreshness`: every selected draft still sits on the published cell it
was staged from. -/
def checkFreshness (db : ProjectDB) (env : EnvID) (applies : List PendingChange) :
    Except ServiceError Unit :=
  applies.forM fun apply =>
    require ((db.cell? env apply.keyID).map ValueEntry.id = apply.stagedFromEntry)
      (.stalePending
        (s!"version {apply.id} targets key {apply.keyID}, whose published value has changed " ++
         s!"since the draft was staged at revision {apply.stagedFromRevision}: restage the edit " ++
         "against the current state"))

def previewEnvironment (db : ProjectDB) (selection : List PendingChange) (env : EnvID) :
    PreviewEnvironment where
  env := env
  baseRevision := db.currentRevision env
  schemaRevision := db.schemaRevision
  isProtected := (db.environment? env).any Environment.isProtected
  changes := (appliesTo selection env).map fun apply =>
    ⟨apply.id, apply.keyID, apply.value.isSome, apply.stagedFromRevision, apply.stagedFromEntry,
      apply.source⟩

def publishPreviewToken (db : ProjectDB) (scopeEnv : EnvID) (principal : PrincipalID)
    (selection : List PendingChange) : PreviewToken where
  scopeEnv := scopeEnv
  principalGeneration := (db.directory.generations.lookup principal).getD 0
  environments := (selectionEnvs selection).map (previewEnvironment db selection)

inductive CellOutcome
  | absent
  | kept (id : EntryID) (value : String)
  | cleared
  | written (value : String) (materialSecret : Bool)

def CellOutcome.value : CellOutcome → Option String
  | .absent => none
  | .kept _ value => some value
  | .cleared => none
  | .written value _ => some value

structure ResolvedCell where
  key : CatalogueKey
  outcome : CellOutcome

def resolveCell (db : ProjectDB) (env : EnvID) (applies : List PendingChange) (key : CatalogueKey) :
    ResolvedCell where
  key := key
  outcome :=
    match applies.find? fun apply => apply.keyID == key.id with
    | some apply =>
      match apply.value with
      | none => .cleared
      | some value => .written value apply.materialSecret
    | none =>
      match db.cell? env key.id with
      | none => .absent
      | some entry => .kept entry.id entry.value

def maxContractBytes : Nat := 256 * 1024
def maxRenderBytesPerTarget : Nat := 1024 * 1024
def maxProjectStorageBytes : Nat := 4 * 1024 * 1024 * 1024

def templateSchemas (declarations : Declarations) :
    List ResolvedCell → Except ServiceError (List (String × String))
  | [] => .ok []
  | cell :: rest =>
    match cell.outcome.value with
    | none => templateSchemas declarations rest
    | some value =>
      if cell.key.classification ≠ .config then templateSchemas declarations rest
      else
        match checkReferences value declarations, references value with
        | .error e, _ => .error (.invalid s!"key {cell.key.name}: {e}")
        | _, .error e => .error (.internal e)
        | .ok (), .ok names => do
          let schemas ← templateSchemas declarations rest
          return if names ≠ [] ∨ hasEscape value.toList then
              (cell.key.name, cell.key.declaration) :: schemas
            else schemas

/-- The stored JSON of a contract; empty members are left out. -/
def contractJSON (contract : ParameterContract) : List Char :=
  jsonObject
    ((if contract.version = 0 then [] else [("version", (toString contract.version).toList)]) ++
    (if contract.declarations.isEmpty then []
      else [("declarations", jsonMap contract.declarations)]) ++
    (if contract.schemas.isEmpty then [] else [("schemas", jsonMap contract.schemas)]))

def parameterContract (declarations : Declarations) (cells : List ResolvedCell) :
    Except ServiceError ParameterContract := do
  let schemas ← if declarations.isEmpty then pure [] else templateSchemas declarations cells
  let contract : ParameterContract := ⟨if declarations.isEmpty then 0 else 1, declarations, schemas⟩
  require ((String.ofList (contractJSON contract)).utf8ByteSize ≤ maxContractBytes)
    (.invalid s!"environment parameter contract exceeds {maxContractBytes} bytes")
  return contract

def validateCell (server : Server) (env : EnvID) (declarations : Declarations)
    (cell : ResolvedCell) :
    Except ServiceError Unit := do
  require (¬ (cell.key.presence.required.covers env = true ∧ cell.outcome.value = none))
    (.invalid
      (s!"key {cell.key.name} is required_in environment {env} and resolves to absent: publish " ++
       "is vetoed"))
  require (¬ (cell.key.presence.forbidden.covers env = true ∧ cell.outcome.value ≠ none))
    (.invalid
      (s!"key {cell.key.name} is forbidden_in environment {env} and resolves to set: publish is " ++
       "vetoed"))
  match cell.outcome.value with
  | none => return
  | some value => validateValueWithParameters server cell.key value declarations

def resolvesPartially (cells : List ResolvedCell) (group : GroupID) : Bool :=
  (cells.any fun cell => cell.key.groupID == some group && cell.outcome.value.isSome) &&
    cells.any fun cell => cell.key.groupID == some group && cell.outcome.value.isNone

def validateResolvedPublish (server : Server) (env : EnvID) (declarations : Declarations)
    (cells : List ResolvedCell) : Except ServiceError Unit := do
  cells.forM (validateCell server env declarations)
  (cells.filterMap fun cell => cell.key.groupID).forM fun group =>
    require (resolvesPartially cells group = false)
      (.invalid
        (s!"key group {group} resolves partially in environment {env}: a group's presence is " ++
         "all-or-none"))

def renderTotal (cells : List ResolvedCell) : Nat :=
  (cells.filterMap fun cell => cell.outcome.value.map String.utf8ByteSize).sum

def checkLimits (server : Server) (db : ProjectDB) (env : EnvID) (cells : List ResolvedCell) :
    Except ServiceError Unit := do
  require (renderTotal cells ≤ maxRenderBytesPerTarget)
    (.limitExceeded
      s!"environment {env} renders more than the {maxRenderBytesPerTarget}-byte per-target limit")
  require (server.payloadBytes db < maxProjectStorageBytes)
    (.limitExceeded s!"project is at the {maxProjectStorageBytes}-byte storage high-water")

/-- A set cell after the published cells have moved: it names its occurrence. -/
structure MaterialCell where
  key : CatalogueKey
  value : String
  entryID : EntryID
  materialSecret : Bool

def writeCells (env : EnvID) : List ResolvedCell → ProjectDB → ProjectDB × List MaterialCell
  | [], db => (db, [])
  | ⟨key, outcome⟩ :: rest, db =>
    match outcome with
    | .absent => writeCells env rest db
    | .kept id value =>
      let (db, cells) := writeCells env rest db
      (db, ⟨key, value, id, false⟩ :: cells)
    | .cleared => writeCells env rest (db.clearValue env key.id)
    | .written value materialSecret =>
      let id := db.nextID
      let (db, cells) := writeCells env rest (db.putValue env key.id (normalize value))
      (db, ⟨key, value, id, materialSecret⟩ :: cells)

def MaterialCell.toEntry (cell : MaterialCell) : SnapshotEntry :=
  ⟨cell.key.id, cell.key.name, cell.key.classification, cell.value, cell.entryID⟩

def MaterialCell.toRow (cell : MaterialCell) : Row :=
  ⟨cell.key.name, cell.key.classification, cell.value⟩

def cellChange (before : List SnapshotEntry) (cell : MaterialCell) : Option ChangedKey :=
  match before.find? fun entry => entry.keyID == cell.key.id with
  | none => some ⟨cell.key.id, cell.key.name, .added⟩
  | some prior =>
    if prior.keyName ≠ cell.key.name ∨ prior.valueEntryID ≠ cell.entryID then
      some ⟨cell.key.id, cell.key.name, .edited⟩
    else none

def removedChanges (before : List SnapshotEntry) (cells : List MaterialCell) : List ChangedKey :=
  (before.filter fun entry => !(cells.any fun cell => cell.key.id == entry.keyID)).map
    fun entry => ⟨entry.keyID, entry.keyName, .removed⟩

def lineage (before : List SnapshotEntry) (cells : List MaterialCell) : List ChangedKey :=
  (cells.filterMap (cellChange before) ++ removedChanges before cells).insertionSort
    fun a b => a.name ≤ b.name

def recordOccurrences (env : EnvID) (cells : List MaterialCell)
    (occurrences : List (EnvID × EntryID)) :
    List (EnvID × EntryID) :=
  cells.foldl (fun occurrences cell =>
    if (cell.key.classification = .secret ∨ cell.materialSecret = true) ∧
        (env, cell.entryID) ∉ occurrences then
      (env, cell.entryID) :: occurrences
    else occurrences) occurrences

structure PublishedEnvironment where
  env : EnvID
  revision : Nat
  changeToken : String
  schemaRevision : Nat
  changedKeys : List ChangedKey

def commitSnapshot (db : ProjectDB) (env : EnvID) (publisher : PrincipalID)
    (contract : ParameterContract) (cells : List MaterialCell) : ProjectDB :=
  let revision := db.currentRevision env + 1
  let before := ((db.latest env).map Snapshot.entries).getD []
  { db with
    snapshots := ⟨env, revision, db.schemaRevision, contract, publisher, true,
      cells.map MaterialCell.toEntry⟩ :: db.snapshots
    changes := (lineage before cells).map (fun change => ⟨change, env, revision⟩) ++ db.changes
    secretOccurrences := recordOccurrences env cells db.secretOccurrences }

section Materialize
variable (server : Server)

def materialize (db : ProjectDB) (index : GroupIndex) (env : Environment) (publisher : PrincipalID)
    (applies : List PendingChange) : Except ServiceError (ProjectDB × PublishedEnvironment) := do
  let cells := index.keys.map (resolveCell db env.id applies)
  let contract ← parameterContract env.parameters cells
  validateResolvedPublish server env.id env.parameters cells
  checkLimits server db env.id cells
  let (moved, material) := writeCells env.id cells db
  let before := ((moved.latest env.id).map Snapshot.entries).getD []
  return (commitSnapshot moved env.id publisher contract material,
    { env := env.id
      revision := moved.currentRevision env.id + 1
      changeToken := changeToken server.hash env.id (manifest (material.map MaterialCell.toRow))
      schemaRevision := moved.schemaRevision
      changedKeys := lineage before material })

inductive Trigger
  | declare
  | environmentCreate
  | importValues
  | copy
  | bulkApply
  | clone
  | schema
deriving DecidableEq

def approvalGatedTrigger : Trigger → Bool
  | .importValues => true
  | .copy => true
  | .bulkApply => true
  | .clone => true
  | _ => false

/-- `CoveringPolicy`: a policy for the environment beats the project-wide one. -/
def coveringPolicy (db : ProjectDB) (env : EnvID) : Option ApprovalPolicy :=
  (db.policies.find? fun policy => policy.env == some env && policy.enabled).or
    (db.policies.find? fun policy => policy.env == none && policy.enabled)

def republish (db : ProjectDB) (env : EnvID) (publisher : PrincipalID) (trigger : Trigger) :
    Except ServiceError (ProjectDB × PublishedEnvironment) := do
  let row ← db.getEnvironment env
  require (¬ (approvalGatedTrigger trigger = true ∧ (coveringPolicy db env).isSome = true))
    .approvalRequired
  let index ← loadGroupIndex db
  materialize server db index row publisher []

def fanOut (publisher : PrincipalID) (trigger : Trigger) :
    List EnvID → ProjectDB → Except ServiceError (ProjectDB × List PublishedEnvironment)
  | [], db => .ok (db, [])
  | env :: rest, db => do
    let (db, published) ← republish server db env publisher trigger
    let (db, more) ← fanOut publisher trigger rest db
    return (db, published :: more)

def schemaPublish (publisher : PrincipalID) (db : ProjectDB)
    (change : Except ServiceError (Option ProjectDB)) :
    Except ServiceError (ProjectDB × List PublishedEnvironment) := do
  match ← change with
  | none => return (db, [])
  | some changed =>
    fanOut server publisher .schema (changed.environments.map Environment.id)
      changed.bumpSchemaRevision

end Materialize

end Hikyo.Project
