import Hikyo.Lib.Transition
import Hikyo.Project.Operations

/-!
# The project as a transition system

The project as a transition system: `Action` has every operation that reads or writes the tables of
one project, and `perform` dispatches to them.  A refused operation changes nothing; one that finds
its request stale commits the invalidation.  `Server.lenient` is the server of the examples.
-/

namespace Hikyo.Project

open Hikyo.Lib

/-- The semantic changes of the schema: each ends in a publish of every environment. -/
inductive SchemaChange
  | createKey (spec : KeySpec)
  | renameKey (id : KeyID) (name : String)
  | updateDeclaration (id : KeyID) (declaration : String) (presence : PresenceRules)
  | reclassifyKey (id : KeyID) (classification : Classification)
  | setKeyGroup (id : KeyID) (group : Option GroupID)
  | deleteKey (id : KeyID)
  | deleteGroup (id : GroupID)
  | applyDefinitions (changes : List DefinitionChange)

inductive MetadataTarget
  | key (id : KeyID)
  | group (id : GroupID)
  | environment (id : EnvID)

inductive Action
  | stage (caller : PrincipalID) (env : EnvID) (keyName : String) (value : Option String)
  | restore (caller : PrincipalID) (env : EnvID) (revision : Nat) (keyName : Option String)
  | publish (caller : PrincipalID) (scopeEnv : EnvID) (request : PublishRequest) (now : Time)
  | declare (caller : PrincipalID) (envs : List EnvID) (keyName value : String)
  | importValues (caller : PrincipalID) (env : EnvID) (supplied : List (String × String))
      (overwrite : List String)
  | copyValues (caller : PrincipalID) (source : EnvID) (keyNames : List String)
      (destinations : List EnvID)
  | createEnvironment (caller : PrincipalID) (clone : Option (EnvID × Bool))
  | deleteEnvironment (env : EnvID)
  | setProtected (env : EnvID) (flag : Bool)
  | setParameter (env : EnvID) (name : String) (pattern : Option String)
  | createGroup
  | editMetadata (target : MetadataTarget)
  | schema (caller : PrincipalID) (change : SchemaChange)
  | createPolicy (input : ApprovalPolicyInput)
  | updatePolicy (id : PolicyID) (input : ApprovalPolicyInput)
  | deletePolicy (id : PolicyID)
  | vote (caller : PrincipalID) (env : EnvID) (requestID : RequestID) (decision : VoteDecision)
      (now : Time)
  | expireDue (now : Time) (batch : List RequestID)
  | collectPayload (env : EnvID) (revision : Nat)
  | administer (directory : Directory)

inductive Response
  | done
  | staged (id : VersionID)
  | previewed (token : Option PreviewToken)
  | publish (outcome : PublishOutcome)
  | published (environments : List PublishedEnvironment)
  | voted (invalidated : Option InvalidatedCause)

section System
variable (server : Server)

def changeSchema (db : ProjectDB) : SchemaChange → Except ServiceError (Option ProjectDB)
  | .createKey spec => createKey server db spec
  | .renameKey id name => renameKey db id name
  | .updateDeclaration id declaration presence =>
      updateDeclaration server db id declaration presence
  | .reclassifyKey id classification => reclassifyKey server db id classification
  | .setKeyGroup id group => setKeyGroup db id group
  | .deleteKey id => deleteKey db id
  | .deleteGroup id => deleteGroup db id
  | .applyDefinitions changes => executeResolution server db changes

def checkTarget (db : ProjectDB) : MetadataTarget → Except ServiceError Unit
  | .key id => (fun _ => ()) <$> db.getKey id
  | .group id => db.getGroup id
  | .environment id => (fun _ => ()) <$> db.getEnvironment id

/-- `UpdateMetadata` and the renames: only the schema revision moves. -/
def editMetadata (db : ProjectDB) (target : MetadataTarget) : Except ServiceError ProjectDB := do
  checkTarget db target
  return db.bumpSchemaRevision

def setProtected (db : ProjectDB) (env : EnvID) (flag : Bool) : Except ServiceError ProjectDB := do
  let _ ← db.getEnvironment env
  return { db with
    environments := updateWhere (fun row => row.id == env)
      (fun row => { row with isProtected := flag }) db.environments }

def perform (db : ProjectDB) : Action → Except ServiceError (ProjectDB × Response)
  | .stage caller env keyName value =>
    (fun (after, id) => (after, .staged id)) <$> stage db caller env keyName value
  | .restore caller env revision keyName =>
    (fun (after, token) => (after, .previewed token)) <$> restore db caller env revision keyName
  | .publish caller scopeEnv request now =>
    (fun (after, outcome) => (after, .publish outcome)) <$>
      publishPlanned server db caller scopeEnv request now
  | .declare caller envs keyName value =>
    (fun (after, list) => (after, .published list)) <$> declare server db caller envs keyName value
  | .importValues caller env supplied overwrite =>
    (fun (after, list) => (after, .published list)) <$>
      importValues server db caller env supplied overwrite
  | .copyValues caller source keyNames destinations =>
    (fun (after, list) => (after, .published list)) <$>
      copyValues server db caller source keyNames destinations
  | .createEnvironment caller clone =>
    (fun (after, list) => (after, .published list)) <$> createEnvironment server db caller clone
  | .schema caller change =>
    (fun (after, list) => (after, .published list)) <$>
      schemaPublish server caller db (changeSchema server db change)
  | .deleteEnvironment env => (·, .done) <$> deleteEnvironment db env
  | .setProtected env flag => (·, .done) <$> setProtected db env flag
  | .setParameter env name pattern => (·, .done) <$> setParameter server db env name pattern
  | .createGroup => (·, .done) <$> createGroup db
  | .editMetadata target => (·, .done) <$> editMetadata db target
  | .createPolicy input => (·, .done) <$> createPolicy db input
  | .updatePolicy id input => (·, .done) <$> updatePolicy db id input
  | .deletePolicy id => (·, .done) <$> deletePolicy db id
  | .vote caller env requestID decision now =>
    (fun (after, cause) => (after, .voted cause)) <$> vote db caller env requestID decision now
  | .expireDue now batch => .ok (expireDue db now batch, .done)
  | .collectPayload env revision => (·, .done) <$> db.collectPayload env revision
  | .administer directory => .ok ({ db with directory := directory }, .done)

def step (db : ProjectDB) (action : Action) : Option ProjectDB :=
  (perform server db action).toOption.map Prod.fst

def run (actions : List Action) : ProjectDB := runFrom (step server) .empty actions

end System

def TokenLabel.encode : TokenLabel → UInt8
  | .changeToken => 0
  | .deliveryCursor => 1

def TokenKey.encode (key : TokenKey) : List UInt8 := key.label.encode :: uvarint key.env

theorem TokenKey.encode_inj (a b : TokenKey) (same : a.encode = b.encode) : a = b := by
  obtain ⟨labels, envs⟩ := List.cons.inj same
  have env : a.env = b.env :=
    (uvarint_append_inj (show uvarint a.env ++ [] = uvarint b.env ++ [] by rw [envs])).1
  have label : a.label = b.label := by
    revert labels
    cases a.label <;> cases b.label <;> decide
  cases a
  cases b
  simp_all

/-- Every verdict is positive and the keyed hash shows its input. -/
def Server.lenient : Server where
  validateLiteralValue _ _ _ := true
  compiles _ _ := true
  valueDependentChange old new := decide (old ≠ new)
  compilesPattern _ := true
  matchesPattern _ _ := true
  payloadBytes _ := 0
  hash := .transparent TokenKey.encode TokenKey.encode_inj

end Hikyo.Project
