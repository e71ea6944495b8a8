import Mathlib.Data.String.Basic
import Hikyo.Lib.Paging
import Hikyo.KeyHierarchy.Memory

/-!
# Ciphertext tables

The tables that hold ciphertext, project by project and for the instance, with the associated data
of each field.  A record's header names the version it was sealed under; most instance tables also
stamp it in a column.  `write` is a writer's transaction: the fence, then its statements.
-/

namespace Hikyo.Reencrypt

open Hikyo.Lib Hikyo.KeyHierarchy

inductive FieldAAD
  | value (orgID projectID envID keyID rowID fieldTag : String)
  | projectField (orgID projectID ownerTable ownerRowID fieldTag : String)
      (environmentID keyID snapshotID : String)
  | instanceField (ownerTable ownerRowID fieldTag : String)
deriving DecidableEq

/-- The authenticated envelope header: the wrapping key and the nonce. -/
structure Header where
  keyID : RowID
  keyVersion : Nat
  nonce : Nat
deriving DecidableEq

abbrev Record := Sealed KeyBytes (Header × FieldAAD) String

def recordKeyVersion (record : Record) : Nat := record.data.1.keyVersion

def sealRecord (handle : KeyHandle) (nonce : Nat) (aad : FieldAAD) (plaintext : String) : Record :=
  ⟨handle.key, (⟨handle.id, handle.version, nonce⟩, aad), plaintext⟩

def openRecord (handle : KeyHandle) (aad : FieldAAD) (record : Record) : Option String :=
  openSealed handle.key (⟨handle.id, handle.version, record.data.1.nonce⟩, aad) record

def openVersioned (set : VersionSet) (aad : FieldAAD) (record : Record) : Option String := do
  let handle ← set.handleAt (recordKeyVersion record)
  openRecord handle aad record

inductive ProjectTable
  | value
  | snapshot
  | pending
  | adapter
  | adapterRouteMove
  | dynamicProvider
deriving DecidableEq

def projectTables : List ProjectTable :=
  [.value, .snapshot, .pending, .adapter, .adapterRouteMove, .dynamicProvider]

theorem mem_projectTables (table : ProjectTable) : table ∈ projectTables := by
  cases table <;> decide

def ProjectTable.name : ProjectTable → String
  | .value => "value"
  | .snapshot => "snapshot"
  | .pending => "pending"
  | .adapter => "adapter"
  | .adapterRouteMove => "adapter_route_move"
  | .dynamicProvider => "dynamic_provider"

/-- The ciphertext is empty for an unset pending draft and for a cleared credential. -/
structure ProjectRow where
  orgID : String
  projectID : String
  id : String
  env : String
  key : String
  snapshot : String
  owner : String
  ciphertext : Option Record
deriving DecidableEq

def ProjectRow.scope (row : ProjectRow) : Scope := ⟨.project, row.orgID, row.projectID⟩

def ProjectTable.aad (table : ProjectTable) (row : ProjectRow) : FieldAAD :=
  match table with
  | .value => .value row.orgID row.projectID row.env row.key row.id "value"
  | .snapshot => .projectField row.orgID row.projectID "snapshot_entries" row.id "snapshot_value"
      row.env row.key row.snapshot
  | .pending => .projectField row.orgID row.projectID "pending_changes" row.id "pending_value"
      row.env row.key ""
  | .adapter | .adapterRouteMove =>
    .projectField row.orgID row.projectID "adapters" row.owner "credential" "" "" ""
  | .dynamicProvider =>
    .projectField row.orgID row.projectID "dynamic_providers" row.owner "credential" "" "" ""

inductive InstanceTable
  | selfConfigSeedInputs
  | passwordCredentials
  | totpCredentials
  | recoveryCodes
  | oidcProviders
  | samlSPKeys
  | remotes
deriving DecidableEq

def instanceTables : List InstanceTable :=
  [.selfConfigSeedInputs, .passwordCredentials, .totpCredentials, .recoveryCodes, .oidcProviders,
    .samlSPKeys, .remotes]

theorem mem_instanceTables (table : InstanceTable) : table ∈ instanceTables := by
  cases table <;> decide

def InstanceTable.name : InstanceTable → String
  | .selfConfigSeedInputs => "self_config_seed_inputs"
  | .passwordCredentials => "password_credentials"
  | .totpCredentials => "totp_credentials"
  | .recoveryCodes => "recovery_codes"
  | .oidcProviders => "oidc_providers"
  | .samlSPKeys => "saml_sp_keys"
  | .remotes => "remotes"

def InstanceTable.fieldTag : InstanceTable → String
  | .selfConfigSeedInputs => "inputs"
  | .passwordCredentials => "verifier"
  | .totpCredentials => "seed"
  | .recoveryCodes => "batch"
  | .oidcProviders => "client_secret"
  | .samlSPKeys => "private_key"
  | .remotes => "credential"

/-- `remotes` has neither a version column nor a row version; both read as zero there. -/
structure InstanceRow where
  id : String
  ciphertext : Record
  dekVersion : Nat
  rowVersion : Nat
deriving DecidableEq

def InstanceTable.aad (table : InstanceTable) (id : String) : FieldAAD :=
  .instanceField table.name id table.fieldTag

/-- The registry's version source: the column, except for `remotes`. -/
def InstanceTable.versionOf : InstanceTable → InstanceRow → Nat
  | .remotes, row => recordKeyVersion row.ciphertext
  | _, row => row.dekVersion

def instanceScope : Scope := ⟨.instanceScope, "", ""⟩

structure Tables where
  project : ProjectTable → List ProjectRow
  inst : InstanceTable → List InstanceRow

def Tables.empty : Tables := ⟨fun _ => [], fun _ => []⟩

def Tables.setProject (tables : Tables) (table : ProjectTable) (rows : List ProjectRow) : Tables :=
  { tables with project := Function.update tables.project table rows }

def Tables.setInstance (tables : Tables) (table : InstanceTable) (rows : List InstanceRow) :
    Tables :=
  { tables with inst := Function.update tables.inst table rows }

/-- A project sealer carries every version it opens; an instance sealer opens through the live set.
-/
inductive Sealer
  | project (orgID projectID : String) (deks : VersionSet)
  | inst (wh : KeyHandle)

def Sealer.scope : Sealer → Scope
  | .project orgID projectID _ => ⟨.project, orgID, projectID⟩
  | .inst _ => instanceScope

def Sealer.version : Sealer → Nat
  | .project _ _ deks => deks.active
  | .inst wh => wh.version

def Sealer.writeHandle : Sealer → Option KeyHandle
  | .project _ _ deks => deks.activeHandle
  | .inst wh => some wh

theorem Sealer.writeHandle_version {sealer : Sealer} {handle : KeyHandle}
    (held : sealer.writeHandle = some handle) : handle.version = sealer.version := by
  cases sealer with
  | project => simpa [Sealer.version] using List.find?_some held
  | inst =>
    cases held
    rfl

inductive TableError
  | key (error : KeyError)
  | conflict
  | duplicateID
  | unsealable
  | openFailed (table id : String)
  | straggler (table id : String)
  | scanUnfinished
deriving DecidableEq

/-- Every ciphertext write calls this first, in its own transaction. -/
def fence (db : KeyDB) (scope : Scope) (version : Nat) : Except TableError Unit :=
  match assertActiveDEKVersion db scope version with
  | .ok u => .ok u
  | .error _ => .error .conflict

theorem fence_ok {db : KeyDB} {scope : Scope} {version : Nat} {u : Unit}
    (run : fence db scope version = .ok u) :
    ∃ row ∈ db.tier3, row.scope = scope ∧ row.version = version ∧ row.state = .active := by
  unfold fence at run
  split at run
  · rename_i checked
    exact (require_eq_ok _ _ _).mp checked
  · cases run

/-- A statement of a fenced write: it stores a record sealed by the writer. -/
inductive Put
  | insertProject (table : ProjectTable) (id env key snapshot owner : String)
      (plaintext : Option String)
  | setProject (table : ProjectTable) (id plaintext : String)
  | insertInstance (table : InstanceTable) (id plaintext : String)
  | setInstance (table : InstanceTable) (id plaintext : String)

/-- `activateOrigin`: the pending credential becomes the adapter's and is cleared. -/
inductive Edit
  | deleteProject (table : ProjectTable) (orgID projectID id : String)
  | clearProject (table : ProjectTable) (orgID projectID id : String)
  | activateOrigin (orgID projectID moveID adapterID : String)
  | deleteInstance (table : InstanceTable) (id : String)

def isProjectRow (orgID projectID id : String) (row : ProjectRow) : Bool :=
  row.orgID = orgID ∧ row.projectID = projectID ∧ row.id = id

/-- Row ids are minted with a type prefix, so none is empty; `id` is the primary key. -/
def insertProjectRow (tables : Tables) (table : ProjectTable) (row : ProjectRow) :
    Except TableError Tables := do
  require (row.id ≠ "" ∧ ∀ old ∈ tables.project table, old.id ≠ row.id) .duplicateID
  pure (tables.setProject table (row :: tables.project table))

def setCiphertext (tables : Tables) (table : ProjectTable) (selected : ProjectRow → Bool)
    (ciphertext : ProjectRow → Option Record) : Tables :=
  tables.setProject table
    (updateWhere selected (fun row => { row with ciphertext := ciphertext row })
      (tables.project table))

def insertInstanceRow (tables : Tables) (table : InstanceTable) (row : InstanceRow) :
    Except TableError Tables := do
  require (row.id ≠ "" ∧ ∀ old ∈ tables.inst table, old.id ≠ row.id) .duplicateID
  pure (tables.setInstance table (row :: tables.inst table))

/-- The columns of a sealed instance field; `remotes` has only the ciphertext. -/
def InstanceTable.stamp (table : InstanceTable) (row : InstanceRow) (ciphertext : Record)
    (version : Nat) : InstanceRow :=
  match table with
  | .remotes => { row with ciphertext }
  | _ => { row with ciphertext, dekVersion := version, rowVersion := row.rowVersion + 1 }

def setInstanceField (tables : Tables) (table : InstanceTable) (selected : InstanceRow → Bool)
    (ciphertext : InstanceRow → Record) (version : Nat) : Tables :=
  tables.setInstance table
    (updateWhere selected (fun row => table.stamp row (ciphertext row) version) (tables.inst table))

def put (sealer : Sealer) (handle : KeyHandle) (nonce : Nat) (tables : Tables) :
    Put → Except TableError Tables
  | .insertProject table id env key snapshot owner plaintext =>
    match sealer with
    | .project orgID projectID _ =>
      let row : ProjectRow := ⟨orgID, projectID, id, env, key, snapshot, owner, none⟩
      let ciphertext := plaintext.map (sealRecord handle nonce (table.aad row))
      insertProjectRow tables table { row with ciphertext }
    | .inst _ => .error .unsealable
  | .setProject table id plaintext =>
    match sealer with
    | .project orgID projectID _ =>
      .ok (setCiphertext tables table (isProjectRow orgID projectID id) fun row =>
        some (sealRecord handle nonce (table.aad row) plaintext))
    | .inst _ => .error .unsealable
  | .insertInstance table id plaintext =>
    match sealer with
    | .inst wh =>
      let blank : InstanceRow := ⟨id, sealRecord handle nonce (table.aad id) plaintext, 0, 0⟩
      insertInstanceRow tables table (table.stamp blank blank.ciphertext wh.version)
    | .project _ _ _ => .error .unsealable
  | .setInstance table id plaintext =>
    match sealer with
    | .inst wh =>
      .ok (setInstanceField tables table (fun row => row.id = id)
        (fun row => sealRecord handle nonce (table.aad row.id) plaintext) wh.version)
    | .project _ _ _ => .error .unsealable

def pendingCredential (tables : Tables) (orgID projectID moveID adapterID : String) :
    Option Record := do
  let row ← (tables.project .adapterRouteMove).find? fun row =>
    isProjectRow orgID projectID moveID row ∧ row.owner = adapterID
  row.ciphertext

def edit (tables : Tables) : Edit → Tables
  | .deleteProject table orgID projectID id =>
    tables.setProject table
      ((tables.project table).filter fun row => !isProjectRow orgID projectID id row)
  | .clearProject table orgID projectID id =>
    setCiphertext tables table (isProjectRow orgID projectID id) fun _ => none
  | .activateOrigin orgID projectID moveID adapterID =>
    let credential := pendingCredential tables orgID projectID moveID adapterID
    let activated := setCiphertext tables .adapter (isProjectRow orgID projectID adapterID)
      fun _ => credential
    setCiphertext activated .adapterRouteMove (isProjectRow orgID projectID moveID) fun _ => none
  | .deleteInstance table id =>
    tables.setInstance table ((tables.inst table).filter fun row => row.id ≠ id)

def putAll (sealer : Sealer) (handle : KeyHandle) (nonce : Nat) :
    Tables → List (Put ⊕ Edit) → Except TableError Tables
  | tables, [] => .ok tables
  | tables, .inl statement :: rest => do
    let next ← put sealer handle nonce tables statement
    putAll sealer handle (nonce + 1) next rest
  | tables, .inr statement :: rest => putAll sealer handle nonce (edit tables statement) rest

/-- A write transaction: the fence on the version the writer sealed under, then its statements. -/
def write (db : KeyDB) (tables : Tables) (sealer : Sealer) (nonce : Nat)
    (statements : List (Put ⊕ Edit)) : Except TableError Tables :=
  match sealer.writeHandle with
  | none => .error .unsealable
  | some handle => do
    fence db sealer.scope sealer.version
    putAll sealer handle nonce tables statements

end Hikyo.Reencrypt
