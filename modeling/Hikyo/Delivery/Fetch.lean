import Hikyo.Delivery.Read

/-!
# The fetch

`fetchAs` is `FetchAs`: it selects the pinned or the latest snapshot, resolves parameters, delivers
the keys that the projection and the caller's grants let through, computes change token and cursor,
and answers "current" if the caller presents that cursor.  `prepare` is all of it but the last
comparison.
-/

namespace Hikyo.Delivery

open Hikyo.Lib Hikyo.Project

inductive Mode
  | full
  | configOnly
deriving DecidableEq

def modeText : Mode → String
  | .full => "full"
  | .configOnly => "config-only"

/-- `NormalizeMode` of the requested projection; any other text is refused. -/
def normalizeMode (projection : String) : Except ServiceError Mode :=
  if projection = "" ∨ projection = modeText .full then .ok .full
  else if projection = modeText .configOnly then .ok .configOnly
  else .error (.invalid s!"unknown delivery projection {projection}")

structure Cursor where
  changeToken : String
  projection : List String
  authorizationRevision : Nat
  pinGeneration : Nat
  mode : Mode
  pinnedHistoricalRevision : Nat

def cursorVersion : String := "v1"

def encodeCursor (cursor : Cursor) : List UInt8 :=
  field cursorVersion ++ (field cursor.changeToken ++ (field (modeText cursor.mode) ++
    (counted field (compact (cursor.projection.insertionSort (· ≤ ·))) ++
      (varint cursor.authorizationRevision ++ (varint cursor.pinGeneration ++
        varint cursor.pinnedHistoricalRevision)))))

def deliveryCursor (hash : KeyedHash TokenKey) (env : EnvID) (tuple : List UInt8) : String :=
  hash.tag ⟨.deliveryCursor, env⟩ tuple

/-- With parameters the map is bound in, whether or not a value uses it. -/
def parameterizedManifest (rows : List Row) (supplied : Supplied) : List UInt8 :=
  if supplied = [] then manifest rows
  else
    utf8 ("hikyo/parameterized-delivery/v1\x00" ++ String.ofList (jsonMap supplied) ++ "\x00") ++
      (manifest rows ++ [0])

structure RevisionPin where
  workload : PrincipalID
  env : EnvID
  revision : Nat
  authority : PrincipalID
  expiresAt : Time

structure Authority where
  grants : List (PrincipalID × GrantRow)
  machineReveal : Option (Bool × Nat)
  pins : List RevisionPin
  pinGenerations : List ((PrincipalID × EnvID) × Nat)

structure DeliveryState where
  project : ProjectDB
  authority : Authority

namespace DeliveryState
variable (state : DeliveryState)

def grantRowsForPrincipal (principal : PrincipalID) : List GrantRow :=
  (state.authority.grants.filter fun row => row.1 == principal).map Prod.snd

/-- A person always answers true at generation 0. -/
def machineRevealOptIn (caller : PrincipalID) : Bool × Nat :=
  if caller ∈ state.project.directory.machines then state.authority.machineReveal.getD (false, 0)
    else (true, 0)

def principalGeneration (principal : PrincipalID) : Nat :=
  (state.project.directory.generations.lookup principal).getD 0

def pinGeneration (principal : PrincipalID) (env : EnvID) : Nat :=
  (state.authority.pinGenerations.lookup (principal, env)).getD 0

def pinFor (workload : PrincipalID) (env : EnvID) : Option RevisionPin :=
  state.authority.pins.find? fun pin => pin.workload == workload && pin.env == env

def recordedPrincipalHolds (principal : PrincipalID) (operation : Operation) (env : EnvID) : Bool :=
  (state.project.environment? env).isSome &&
    permits (state.grantRowsForPrincipal principal) operation env

end DeliveryState

/-- Without the opt-in, the rows that disclose secrets are inert. -/
def withoutReveal (grants : List GrantRow) : List GrantRow :=
  grants.filter fun row => !(row.capability == .reveal || row.capability == .revealHistory)

def capabilityText : Capability → String
  | .read => "read"
  | .reveal => "reveal"
  | .revealHistory => "reveal-history"
  | .pin => "pin"
  | .publish => "publish"

def projectionOf (grants : List GrantRow) (env : EnvID) (revealGeneration : Nat) : List String :=
  (([.read, .reveal, .revealHistory] : List Capability).filter fun capability =>
      holds grants capability env).map capabilityText ++
    if 0 < revealGeneration then [s!"machine-reveal-generation:{revealGeneration}"] else []

structure FetchOptions where
  parameters : Supplied
  projection : String
  acknowledgedKeys : List String

structure FetchCall where
  state : DeliveryState
  caller : PrincipalID
  env : EnvID
  options : FetchOptions
  now : Time

def maxAcknowledgedKeys : Nat := 64

def checkAcknowledged (names : List String) : Except ServiceError Unit := do
  require (names.length ≤ maxAcknowledgedKeys)
    (.invalid
      (s!"acknowledged_keys carries {names.length} entries, at most {maxAcknowledgedKeys} are " ++
       "allowed"))
  names.forM fun name =>
    require ((checkKeyName name).isOk = true)
      (.invalid s!"acknowledged_keys entry {name} is not a valid key name")

def FetchCall.grants (call : FetchCall) : List GrantRow :=
  let rows := call.state.grantRowsForPrincipal call.caller
  if (call.state.machineRevealOptIn call.caller).1 then rows else withoutReveal rows

structure Selected where
  snapshot : Snapshot
  pinnedNonCurrent : Bool
  pinnedRevision : Nat
  pinExpired : Bool

/-- `history`: the recorded authority holds `reveal-history`. -/
def pinnedSelection (now : Time) (pin : RevisionPin) (history : Bool) :
    Option Snapshot → Option Snapshot → Except ServiceError Selected
  | some snapshot, some latest => do
    require (snapshot.revision = latest.revision ∨ history = true)
      (.invalid
        (s!"pinned delivery of revision {pin.revision} is refused because the recorded " ++
         "authority no longer holds reveal-history"))
    require (snapshot.payloadPresent = true) (collectedRevisionError snapshot)
    return ⟨snapshot, decide (snapshot.revision ≠ latest.revision), pin.revision,
      decide (pin.expiresAt ≤ now)⟩
  | _, _ => .error (.notFound "not found")

/-- A pin delivers under the authority it was recorded with, for as long as that
principal holds it. -/
def selectPinned (call : FetchCall) (pin : RevisionPin) : Except ServiceError Selected := do
  require (call.state.recordedPrincipalHolds pin.authority .pinSet call.env = true)
    (.invalid
      ("pinned delivery is refused because the recorded authority no longer holds pin and " ++
       "publish grants"))
  pinnedSelection call.now pin (call.state.recordedPrincipalHolds pin.authority
    .pinSetHistory call.env)
    (call.state.project.atRevision call.env pin.revision) (call.state.project.latest call.env)

def selectLatest : Option Snapshot → Except ServiceError Selected
  | some snapshot => .ok ⟨snapshot, false, 0, false⟩
  | none => .error (.internal "service: this environment has no published revision yet")

def selectSnapshot (call : FetchCall) : Except ServiceError Selected :=
  match call.state.pinFor call.caller call.env with
  | some pin => selectPinned call pin
  | none => selectLatest (call.state.project.latest call.env)

inductive KeyPresence
  | required
  | forbidden
  | optional
  | set
deriving DecidableEq

structure DeliveredKey where
  keyID : KeyID
  name : String
  classification : Classification
  presence : KeyPresence
  value : Option String
deriving DecidableEq

structure Delivered where
  keys : List DeliveredKey
  manifest : List Row

def crosses (revealsSecret : Bool) (classification : Classification) : Bool :=
  !(classification == .secret) || revealsSecret

section Rows
variable (server : Server)

def deliverEach (contract : ParameterContract) (supplied : Supplied) (mode : Mode)
    (revealsSecret : Bool) :
    List SnapshotEntry → Nat → Except ServiceError Delivered
  | [], _ => .ok ⟨[], []⟩
  | entry :: rest, renderBytes =>
    if entry.classification = .secret ∧ mode = .configOnly then
      deliverEach contract supplied mode revealsSecret rest renderBytes
    else do
      let resolved ← resolveConfig server contract supplied entry.keyName
          entry.classification entry.value
      let crossing := crosses revealsSecret entry.classification
      let total := if crossing then renderBytes + resolved.utf8ByteSize else renderBytes
      require (total ≤ maxRenderBytesPerTarget)
        (.invalid "resolved environment exceeds the per-target render limit")
      let more ← deliverEach contract supplied mode revealsSecret rest total
      return ⟨⟨entry.keyID, entry.keyName, entry.classification, .set,
          if crossing then some resolved else none⟩ :: more.keys,
        ⟨entry.keyName, entry.classification, resolved⟩ :: more.manifest⟩

def secretCapability (pinnedNonCurrent : Bool) : Capability :=
  if pinnedNonCurrent then .revealHistory else .reveal

def deliveryRows (call : FetchCall) (selected : Selected) (mode : Mode) :
    Except ServiceError Delivered := do
  let entries ← liveEntries selected.snapshot
  let contract ← snapshotParameters server selected.snapshot call.options.parameters
  deliverEach server contract call.options.parameters mode
    (holds call.grants (secretCapability selected.pinnedNonCurrent) call.env) entries 0

structure Prepared where
  keys : List DeliveredKey
  changeToken : String
  cursor : String
  schemaRevision : Nat
  revision : Nat
  pinnedRevision : Nat
  pinExpired : Bool

def cursorFor (call : FetchCall) (selected : Selected) (mode : Mode) (changeToken : String) :
    Cursor where
  changeToken := changeToken
  projection := projectionOf call.grants call.env (call.state.machineRevealOptIn call.caller).2
  authorizationRevision := call.state.principalGeneration call.caller
  pinGeneration := call.state.pinGeneration call.caller call.env
  mode := mode
  pinnedHistoricalRevision := if selected.pinnedNonCurrent then selected.pinnedRevision else 0

def prepareSelected (call : FetchCall) (mode : Mode) (selected : Selected) :
    Except ServiceError Prepared := do
  let delivered ← deliveryRows server call selected mode
  let token := changeToken server.hash call.env
    (parameterizedManifest delivered.manifest call.options.parameters)
  return {
    keys := delivered.keys
    changeToken := token
    cursor :=
      deliveryCursor server.hash call.env (encodeCursor (cursorFor call selected mode token))
    schemaRevision := selected.snapshot.schemaRevision
    revision := selected.snapshot.revision
    pinnedRevision := selected.pinnedRevision
    pinExpired := selected.pinExpired }

def prepare (call : FetchCall) : Except ServiceError Prepared := do
  invalidDetail (checkSupplied call.options.parameters)
  let mode ← normalizeMode call.options.projection
  checkAcknowledged call.options.acknowledgedKeys
  authorize call.state.project (call.state.grantRowsForPrincipal call.caller)
    .deliveryFetch call.env
  let selected ← selectSnapshot call
  prepareSelected server call mode selected

structure FetchResult where
  current : Bool
  cursor : String
  changeToken : String
  schemaRevision : Nat
  revision : Nat
  keys : List DeliveredKey
  pinnedRevision : Nat
  pinExpired : Bool
  issuedAt : Time
  snapshotExpiresAt : Time

def snapshotMaxAge : Nat := 7 * 24 * 60 * 60

def Prepared.answer (prepared : Prepared) (presented : String) (now : Time) : FetchResult :=
  let current := decide (presented ≠ "" ∧ presented = prepared.cursor)
  { current := current
    cursor := prepared.cursor
    changeToken := prepared.changeToken
    schemaRevision := prepared.schemaRevision
    revision := prepared.revision
    keys := if current then [] else prepared.keys
    pinnedRevision := prepared.pinnedRevision
    pinExpired := prepared.pinExpired
    issuedAt := now
    snapshotExpiresAt := now + snapshotMaxAge }

def fetchAs (call : FetchCall) (presented : String) : Except ServiceError FetchResult := do
  let prepared ← prepare server call
  return prepared.answer presented call.now

end Rows

end Hikyo.Delivery
