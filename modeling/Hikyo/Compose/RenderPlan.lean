import Hikyo.Delivery.Fetch
import Hikyo.Lib.NameMap
import Mathlib.Data.String.Basic

/-!
# The render plan

`buildRenderPlan` says which rows each target's file has, which keys are left out and what is
refused (unrevealed secrets, names that are no variable names, loader controls that are not
acknowledged, values that a dotenv file cannot hold).  The same function plans from a delivery
(`liveRenderInput`) and from stored rows (`offlineRenderInput`).
-/

namespace Hikyo.Compose

open Hikyo.Lib Hikyo.Project Hikyo.Delivery

structure Target where
  keys : List KeyID
  acknowledgeLoaderControl : List String
deriving DecidableEq

structure Config where
  environment : String
  targets : Named Target
  distinct : targets.names.Nodup

def Config.targetNames (cfg : Config) : List String := cfg.targets.names.insertionSort (· ≤ ·)

def loaderControlPrefixes : List String := ["LD_", "GIT_"]

def loaderControlExact : List String :=
  ["PATH", "IFS", "ENV", "BASH_ENV", "SHELLOPTS", "NODE_OPTIONS", "PYTHONSTARTUP", "PYTHONPATH",
    "PERL5OPT", "PERL5LIB",
    "RUBYOPT", "RUBYLIB", "JAVA_TOOL_OPTIONS", "_JAVA_OPTIONS", "JDK_JAVA_OPTIONS", "CLASSPATH",
    "SSL_CERT_FILE",
    "SSL_CERT_DIR", "CURL_CA_BUNDLE", "REQUESTS_CA_BUNDLE", "NODE_EXTRA_CA_CERTS"]

def isLoaderControlKey (name : String) : Bool :=
  loaderControlExact.contains name || loaderControlPrefixes.any fun start =>
    start.toList.isPrefixOf name.toList

def unacknowledged (mapped acknowledged : List String) : List String × List String :=
  let mappedLC := mapped.filter isLoaderControlKey
  let refused := mappedLC.filter (· ∉ acknowledged)
  let extraAcks := acknowledged.filter fun name => name ∉ mappedLC ∨ 1 < acknowledged.count name
  (refused.dedup.insertionSort (· ≤ ·), extraAcks.dedup.insertionSort (· ≤ ·))

structure DotenvRow where
  name : String
  value : String

structure Refusal where
  key : String
  reason : String
deriving DecidableEq

def nameGrammar (name : String) : Bool :=
  match name.toList with
  | [] => false
  | first :: rest => (first.isAlpha || first == '_') && rest.all fun c => c.isAlphanum || c == '_'

def DotenvRow.refusal (row : DotenvRow) : Option Refusal :=
  if nameGrammar row.name = false then some ⟨row.name, "invalid name"⟩
  else if row.value.toList.any fun c => c == '\n' || c == '\r' then
    some ⟨row.name, "embedded newline"⟩
  else if row.value.toList.any (· == '\x00') then some ⟨row.name, "NUL byte"⟩
  else none

def encodeRaw (rows : List DotenvRow) : String × List Refusal :=
  match rows.filterMap DotenvRow.refusal with
  | [] => (String.join (rows.map fun row => row.name ++ "=" ++ row.value ++ "\n"), [])
  | refusals => ("", refusals)

inductive AbsentKeyPolicy
  | skip
  | refuseNotDelivered
  | refuseNotInSnapshot
deriving DecidableEq

structure RenderTarget where
  name : String
  keyIDs : List KeyID
  acknowledgeLoaderControl : List String

inductive RenderRowState
  | valued
  | noValue
  | unrevealedSecret
deriving DecidableEq

structure RenderSourceRow where
  keyID : KeyID
  name : String
  classification : Classification
  state : RenderRowState
  value : String

structure RenderInput where
  absentKeys : AbsentKeyPolicy
  targets : List RenderTarget
  rows : List RenderSourceRow

inductive RenderOmissionKind
  | absent
  | noValue
deriving DecidableEq

structure RenderOmission where
  target : String
  keyID : KeyID
  name : String := ""
  kind : RenderOmissionKind
deriving DecidableEq

inductive RenderRefusalKind
  | keyNotDelivered
  | keyNotInSnapshot
  | secretUnrevealed
  | loaderControl
  | encoding
deriving DecidableEq

inductive RefusedKey
  | id (keyID : KeyID)
  | name (name : String)
deriving DecidableEq

structure RenderRefusal where
  target : String
  key : RefusedKey
  kind : RenderRefusalKind
  reason : String := ""
deriving DecidableEq

structure SnapshotRow where
  name : String
  keyID : KeyID
  classification : Classification
  value : String
deriving DecidableEq

structure RenderTargetPlan where
  name : String
  content : String
  snapshotRows : List SnapshotRow
deriving DecidableEq

structure RenderPlan where
  targets : List RenderTargetPlan
  omissions : List RenderOmission
  refusals : List RenderRefusal
deriving DecidableEq

structure RowStateError where
  keyID : KeyID
  state : RenderRowState
deriving DecidableEq

def validateRenderInput (input : RenderInput) : Except RowStateError Unit :=
  input.rows.forM fun row =>
    if row.state ≠ .valued ∧ row.value ≠ "" then throw ⟨row.keyID, row.state⟩ else pure ()

section Keys
variable (absentKeys : AbsentKeyPolicy) (byID : KeyID → Option RenderSourceRow) (target : String)
  (keyID : KeyID)

def valuedRow : Option RenderSourceRow := (byID keyID).filter (·.state = .valued)

def keyOmission : Option RenderOmission :=
  match byID keyID with
  | none => if absentKeys = .skip then some { target, keyID, kind := .absent } else none
  | some row =>
    if row.state = .noValue then some { target, keyID, name := row.name, kind := .noValue }
    else none

def keyRefusal : Option RenderRefusal :=
  match byID keyID with
  | none =>
    match absentKeys with
    | .skip => none
    | .refuseNotDelivered => some { target, key := .id keyID, kind := .keyNotDelivered }
    | .refuseNotInSnapshot => some { target, key := .id keyID, kind := .keyNotInSnapshot }
  | some row =>
    if row.state = .unrevealedSecret then
      some { target, key := .name row.name, kind := .secretUnrevealed } else none

end Keys

def RenderSourceRow.dotenv (row : RenderSourceRow) : DotenvRow := ⟨row.name, row.value⟩

def RenderSourceRow.snapshot (row : RenderSourceRow) : SnapshotRow :=
  ⟨row.name, row.keyID, row.classification, row.value⟩

section Targets
variable (absentKeys : AbsentKeyPolicy) (byID : KeyID → Option RenderSourceRow)
  (target : RenderTarget)

def targetRows : List RenderSourceRow := target.keyIDs.filterMap (valuedRow byID)

def fileRefusals (rows : List RenderSourceRow) : List RenderRefusal :=
  let refused := (unacknowledged (rows.map (·.name)) target.acknowledgeLoaderControl).1
  refused.map (fun name => { target := target.name, key := .name name, kind := .loaderControl }) ++
    (encodeRaw (rows.map RenderSourceRow.dotenv)).2.map fun refusal =>
      { target := target.name, key := .name refusal.key, kind := .encoding,
        reason := refusal.reason }

def targetPlan : RenderTargetPlan :=
  let rows := targetRows byID target
  { name := target.name
    content := (encodeRaw (rows.map RenderSourceRow.dotenv)).1
    snapshotRows := rows.map RenderSourceRow.snapshot }

def targetRefusals : List RenderRefusal :=
  target.keyIDs.filterMap (keyRefusal absentKeys byID target.name) ++
    fileRefusals target (targetRows byID target)

end Targets

def rowByID (rows : List RenderSourceRow) (keyID : KeyID) : Option RenderSourceRow :=
  rows.reverse.find? (·.keyID == keyID)

def buildRenderPlan (input : RenderInput) : Except RowStateError RenderPlan := do
  validateRenderInput input
  let byID := rowByID input.rows
  return {
    targets := input.targets.map (targetPlan byID)
    omissions := input.targets.flatMap fun target =>
      target.keyIDs.filterMap (keyOmission input.absentKeys byID target.name)
    refusals := input.targets.flatMap (targetRefusals input.absentKeys byID) }

def isUnrevealedSecret (key : DeliveredKey) : Bool :=
  key.presence == .set && key.classification == .secret && key.value.isNone

def liveRow (configOnly : Bool) (key : DeliveredKey) : RenderSourceRow :=
  let row := fun state value =>
    { keyID := key.keyID, name := key.name, classification := key.classification, state, value }
  if configOnly = false ∧ isUnrevealedSecret key then row .unrevealedSecret ""
  else
    match key.value with
    | none => row .noValue ""
    | some value => row .valued value

def offlineRow (row : SnapshotRow) : RenderSourceRow :=
  { keyID := row.keyID, name := row.name, classification := row.classification, state := .valued,
    value := row.value }

def Config.renderTarget (cfg : Config) (name : String) : RenderTarget :=
  let target := (cfg.targets.lookup name).getD ⟨[], []⟩
  { name, keyIDs := target.keys, acknowledgeLoaderControl := target.acknowledgeLoaderControl }

def renderInput (cfg : Config) (configOnly : Bool) (fullProjectionPolicy : AbsentKeyPolicy)
    (rows : List RenderSourceRow) :
    RenderInput :=
  { absentKeys := if configOnly then .skip else fullProjectionPolicy
    targets := cfg.targetNames.map cfg.renderTarget
    rows }

def liveRenderInput (cfg : Config) (configOnly : Bool) (keys : List DeliveredKey) : RenderInput :=
  renderInput cfg configOnly .refuseNotDelivered (keys.map (liveRow configOnly))

def offlineRenderInput (cfg : Config) (configOnly : Bool) (rows : List SnapshotRow) : RenderInput :=
  renderInput cfg configOnly .refuseNotInSnapshot (rows.map offlineRow)

def RenderPlan.snapshotRows (plan : RenderPlan) : List SnapshotRow :=
  plan.targets.flatMap (·.snapshotRows)

end Hikyo.Compose
