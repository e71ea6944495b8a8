import Hikyo.Delivery.Read

/-!
# Reading history: export and diff

`Revisions.Show`, the export of a revision and the diff of two, with their authorization.  Whether
an entry is secret is decided by the classification that its snapshot recorded; the diff takes the
stricter of its two sides.
-/

namespace Hikyo.Delivery

open Hikyo.Lib Hikyo.Project

structure ExportedValue where
  name : String
  classification : Classification
  value : String
  revealed : Bool
deriving DecidableEq

section Export
variable (server : Server)

def exportEach (contract : ParameterContract) (supplied : Supplied) (reveal : Bool) :
    List SnapshotEntry → Nat → Except ServiceError (List ExportedValue)
  | [], _ => .ok []
  | entry :: rest, renderBytes =>
    if entry.classification = .config ∨ reveal = true then do
      let resolved ← resolveConfig server contract supplied entry.keyName
          entry.classification entry.value
      require (renderBytes + resolved.utf8ByteSize ≤ maxRenderBytesPerTarget)
        (.invalid "resolved environment exceeds the per-target render limit")
      let values ← exportEach contract supplied reveal rest (renderBytes + resolved.utf8ByteSize)
      return ⟨entry.keyName, entry.classification, resolved, true⟩ :: values
    else do
      let values ← exportEach contract supplied reveal rest renderBytes
      return ⟨entry.keyName, entry.classification, "", false⟩ :: values

def isHistorical (db : ProjectDB) (env : EnvID) (revision : Int) (snapshot : Snapshot) : Bool :=
  decide (0 < revision ∧ snapshot.revision ≠ db.currentRevision env)

def exportWithParameters (db : ProjectDB) (grants : List GrantRow) (env : EnvID) (revision : Int)
    (reveal : Bool) (supplied : Supplied) : Except ServiceError (List ExportedValue × Nat) := do
  authorize db grants .valueExport env
  let snapshot ← readSnapshot db env revision
  checkWhen reveal (authorize db grants (revealOperation (isHistorical db env revision snapshot))
    env)
  let entries ← liveEntries snapshot
  let contract ← snapshotParameters server snapshot supplied
  let values ← exportEach server contract supplied reveal entries 0
  return (values.insertionSort fun a b => a.name ≤ b.name, snapshot.revision)

end Export

structure SnapshotKey where
  keyID : KeyID
  name : String
  classification : Classification

structure RevisionDetail where
  revision : Nat
  schemaRevision : Nat
  publishedBy : PrincipalID
  changedKeys : List ChangedKey
  payloadPresent : Bool
  changeToken : String
  keys : List SnapshotKey

/-- `Revisions.Show`.  The token is computed over the plaintexts, which `read` alone
does not disclose. -/
def showRevision (server : Server) (db : ProjectDB) (grants : List GrantRow) (env : EnvID)
    (revision : Int) :
    Except ServiceError RevisionDetail := do
  authorize db grants .revisionShow env
  let snapshot ← readSnapshot db env revision
  let changes := db.changes.filter fun change => change.env == env &&
    change.revision == snapshot.revision
  let entries ← liveEntries snapshot
  return {
    revision := snapshot.revision
    schemaRevision := snapshot.schemaRevision
    publishedBy := snapshot.publishedBy
    changedKeys := changes.map ChangeRow.toChangedKey
    payloadPresent := snapshot.payloadPresent
    changeToken := changeToken server.hash env
      (manifest (entries.map fun entry => ⟨entry.keyName, entry.classification, entry.value⟩))
    keys := entries.map fun entry => ⟨entry.keyID, entry.keyName, entry.classification⟩ }

inductive DiffStatus
  | added
  | removed
  | edited
  | notEdited
  | changed
  | unchanged
deriving DecidableEq

structure RevisionDiffRow where
  keyID : KeyID
  name : String
  classification : Classification
  status : DiffStatus
  revealed : Bool
  before : Option String
  after : Option String
deriving DecidableEq

structure RevisionDiff where
  leftRevision : Int
  rightRevision : Int
  items : List RevisionDiffRow

structure DiffSide where
  snapshot : Snapshot
  entries : List SnapshotEntry

def DiffSide.entryFor (side : DiffSide) (id : KeyID) : Option SnapshotEntry :=
  side.entries.find? fun entry => entry.keyID == id

def isSecret (entry : Option SnapshotEntry) : Bool :=
  entry.any fun entry => entry.classification == .secret

/-- Whether the cell was written again: occurrences are compared, not values. -/
def editStatus : Option SnapshotEntry → Option SnapshotEntry → DiffStatus
  | none, _ => .added
  | some _, none => .removed
  | some left, some right => if left.valueEntryID ≠ right.valueEntryID then .edited else .notEdited

def valueStatus (left right : Option SnapshotEntry) : DiffStatus :=
  match left, right with
  | some before, some after => if before.value = after.value then .unchanged else .changed
  | _, _ => editStatus left right

section Diff
variable (db : ProjectDB) (grants : List GrantRow) (env : EnvID)

def authorizeSide (side : DiffSide) (entry : Option SnapshotEntry) : Except ServiceError Unit :=
  match entry with
  | none => .ok ()
  | some _ =>
    authorize db grants (revealOperation (decide (side.snapshot.revision ≠ db.currentRevision env)))
      env

def diffRow (left right : DiffSide) (keyID : Option KeyID) (id : KeyID) :
    Except ServiceError RevisionDiffRow := do
  let before := left.entryFor id
  let after := right.entryFor id
  let secret := isSecret before || isSecret after
  let disclose := keyID.isSome && secret
  checkWhen disclose (authorizeSide db grants env left before)
  checkWhen disclose (authorizeSide db grants env right after)
  let name := ((after.or before).map SnapshotEntry.keyName).getD ""
  let classification : Classification := if secret then .secret else .config
  if !secret || disclose then
    return ⟨id, name, classification, valueStatus before after, true,
      before.map SnapshotEntry.value, after.map SnapshotEntry.value⟩
  else
    return ⟨id, name, classification, editStatus before after, false, none, none⟩

/-- The key ids are visited in a fixed order; the source ranges over a map and sorts by name. -/
def diff (leftRevision rightRevision : Int) (keyID : Option KeyID) :
    Except ServiceError RevisionDiff := do
  require (1 ≤ leftRevision ∧ 1 ≤ rightRevision) (.invalid "diff names two positive revisions")
  authorize db grants .valueExport env
  let left ← readSnapshot db env leftRevision
  let right ← readSnapshot db env rightRevision
  let leftEntries ← liveEntries left
  let rightEntries ← liveEntries right
  let ids := (leftEntries.map SnapshotEntry.keyID ++ rightEntries.map SnapshotEntry.keyID).dedup
  require (∀ named ∈ keyID, named ∈ ids) (.notFound "not found")
  let rows ← (ids.filter fun id => keyID.all (id == ·)).mapM
    (diffRow db grants env ⟨left, leftEntries⟩ ⟨right, rightEntries⟩ keyID)
  return ⟨leftRevision, rightRevision, rows.insertionSort fun a b => a.name ≤ b.name⟩

end Diff

end Hikyo.Delivery
