import Mathlib.Data.List.DropRight
import Hikyo.Lib.Transaction
import Hikyo.Lib.Sealing

/-!
# The tables of one project

The tables of one project and the statements on them.  Operations are functions of the committed
tables.  Ciphertext columns are modelled by the plaintext they open to; identifiers are drawn from
one counter, and the clock is an argument.  `Server` has what the project's logic takes as given:
verdicts on declarations, the pattern engine and the keyed hash.
-/

namespace Hikyo.Project

open List

abbrev EnvID := Nat
abbrev KeyID := Nat
abbrev GroupID := Nat
abbrev EntryID := Nat
abbrev VersionID := Nat
abbrev PrincipalID := Nat
abbrev PolicyID := Nat
abbrev RequestID := Nat
/-- Seconds; every operation that reads the clock gets the instant as an argument. -/
abbrev Time := Nat

inductive Classification
  | config
  | secret
deriving DecidableEq

def classificationText : Classification → String
  | .config => "config"
  | .secret => "secret"

theorem classificationText_inj {a b : Classification}
    (same : classificationText a = classificationText b) : a = b := by
  cases a <;> cases b <;> first | rfl | exact absurd same (by decide)

inductive Presence
  | none
  | all
  | explicit (environments : List EnvID)
deriving DecidableEq

def Presence.covers : Presence → EnvID → Bool
  | .none, _ => false
  | .all, _ => true
  | .explicit environments, env => environments.contains env

structure PresenceRules where
  required : Presence
  forbidden : Presence
deriving DecidableEq

structure CatalogueKey where
  id : KeyID
  name : String
  classification : Classification
  declaration : String
  presence : PresenceRules
  groupID : Option GroupID
deriving DecidableEq

/-- A parameter name and the pattern its values must match. -/
abbrev Declarations := List (String × String)

structure Environment where
  id : EnvID
  isProtected : Bool
  parameters : Declarations
deriving DecidableEq

/-- One published cell.  The id is the occurrence: every write mints a new one. -/
structure ValueEntry where
  id : EntryID
  env : EnvID
  keyID : KeyID
  value : String
deriving DecidableEq

inductive PendingSource
  | values
  | restore
deriving DecidableEq

/-- One draft.  The operation is `set` with a value or `unset` without one. -/
structure PendingChange where
  id : VersionID
  env : EnvID
  keyID : KeyID
  owner : PrincipalID
  value : Option String
  stagedFromRevision : Nat
  stagedFromEntry : Option EntryID
  source : PendingSource
  secret : Bool
  materialSecret : Bool
deriving DecidableEq

structure SnapshotEntry where
  keyID : KeyID
  keyName : String
  classification : Classification
  value : String
  valueEntryID : EntryID
deriving DecidableEq

structure ParameterContract where
  version : Nat
  declarations : Declarations
  schemas : List (String × String)
deriving DecidableEq

structure Snapshot where
  env : EnvID
  revision : Nat
  schemaRevision : Nat
  contract : ParameterContract
  publishedBy : PrincipalID
  /-- Lineage outlives its payload: a retention sweep drops the entries. -/
  payloadPresent : Bool
  entries : List SnapshotEntry
deriving DecidableEq

inductive RevisionChange
  | added
  | edited
  | removed
deriving DecidableEq

/-- One lineage row.  It carries no value in any form. -/
structure ChangedKey where
  keyID : KeyID
  name : String
  change : RevisionChange
deriving DecidableEq

structure ChangeRow extends ChangedKey where
  env : EnvID
  revision : Nat
deriving DecidableEq

inductive Approver
  | principal (subject : PrincipalID)
  | scimGroup (group binding : Nat)
deriving DecidableEq

structure ApprovalPolicy where
  id : PolicyID
  /-- `none` covers every environment of the project. -/
  env : Option EnvID
  minApprovals : Nat
  allowSelfApproval : Bool
  requestTTLSeconds : Nat
  enabled : Bool
  version : Nat
  approvers : List Approver
  bypassers : List PrincipalID
deriving DecidableEq

structure PreviewChange where
  versionID : VersionID
  keyID : KeyID
  set : Bool
  stagedFrom : Nat
  stagedFromEntry : Option EntryID
  source : PendingSource
deriving DecidableEq

structure PreviewEnvironment where
  env : EnvID
  baseRevision : Nat
  schemaRevision : Nat
  isProtected : Bool
  changes : List PreviewChange
deriving DecidableEq

/-- The keyed digest of a preview, represented by what it is computed from. -/
structure PreviewToken where
  scopeEnv : EnvID
  principalGeneration : Nat
  environments : List PreviewEnvironment
deriving DecidableEq

inductive InvalidatedCause
  | policyChanged
  | draftEdited
  | envAdvanced
  | approverRemoved
deriving DecidableEq

inductive RequestState
  | opened
  | approved
  | merged
  | rejected
  | expired
  | invalidated (cause : InvalidatedCause)
  | bypassed
deriving DecidableEq

structure ApprovalRequest where
  id : RequestID
  env : EnvID
  policyID : PolicyID
  policyVersion : Nat
  requester : PrincipalID
  versionIDs : List VersionID
  closedVersionIDs : List VersionID
  keyIDs : List KeyID
  previewDigest : PreviewToken
  baseRevision : Nat
  state : RequestState
  createdAt : Time
  expiresAt : Time
deriving DecidableEq

inductive VoteDecision
  | approve
  | reject
deriving DecidableEq

structure ApprovalVote where
  requestID : RequestID
  principal : PrincipalID
  decision : VoteDecision
deriving DecidableEq

structure SCIMUser where
  id : Nat
  binding : Nat
  account : Nat
  active : Bool
deriving DecidableEq

structure SCIMMembership where
  binding : Nat
  group : Nat
  user : Nat
deriving DecidableEq

/-- What the operations read about principals. -/
structure Directory where
  accounts : List (PrincipalID × Nat)
  scimUsers : List SCIMUser
  memberships : List SCIMMembership
  voters : List (PrincipalID × EnvID)
  generations : List (PrincipalID × Nat)
  machines : List PrincipalID
deriving DecidableEq

/-- `snapshots` and `changes` grow at the front. -/
structure ProjectDB where
  environments : List Environment
  keys : List CatalogueKey
  groups : List GroupID
  schemaRevision : Nat
  entries : List ValueEntry
  pending : List PendingChange
  snapshots : List Snapshot
  changes : List ChangeRow
  secretOccurrences : List (EnvID × EntryID)
  policies : List ApprovalPolicy
  requests : List ApprovalRequest
  votes : List ApprovalVote
  directory : Directory
  nextID : Nat
deriving DecidableEq

def ProjectDB.empty : ProjectDB where
  environments := []
  keys := []
  groups := []
  schemaRevision := 0
  entries := []
  pending := []
  snapshots := []
  changes := []
  secretOccurrences := []
  policies := []
  requests := []
  votes := []
  directory := ⟨[], [], [], [], [], []⟩
  nextID := 1

/-- The refusals of the service layer, with the detail the source gives. -/
inductive ServiceError
  | invalid (detail : String)
  | conflict (detail : String)
  | notFound (detail : String)
  | unauthorized (detail : String)
  | limitExceeded (detail : String)
  | stalePending (detail : String)
  | stalePreview
  | approvalRequired
  | approvalGatedMultiEnv
  | approvalNotSatisfied
  | internal (detail : String)
deriving DecidableEq

namespace ProjectDB

def cell? (db : ProjectDB) (env : EnvID) (keyID : KeyID) : Option ValueEntry :=
  db.entries.find? fun entry => entry.env == env && entry.keyID == keyID

def latest (db : ProjectDB) (env : EnvID) : Option Snapshot :=
  db.snapshots.find? fun snapshot => snapshot.env == env

def atRevision (db : ProjectDB) (env : EnvID) (revision : Nat) : Option Snapshot :=
  db.snapshots.find? fun snapshot => snapshot.env == env && snapshot.revision == revision

/-- The published revision number, 0 when the environment was never materialized. -/
def currentRevision (db : ProjectDB) (env : EnvID) : Nat :=
  match db.latest env with
  | none => 0
  | some snapshot => snapshot.revision

def environment? (db : ProjectDB) (env : EnvID) : Option Environment :=
  db.environments.find? fun row => row.id == env

def key? (db : ProjectDB) (keyID : KeyID) : Option CatalogueKey :=
  db.keys.find? fun key => key.id == keyID

def listKeys (db : ProjectDB) : List CatalogueKey :=
  db.keys.insertionSort fun a b => a.name ≤ b.name

def ownPending (db : ProjectDB) (owner : PrincipalID) : List PendingChange :=
  db.pending.filter fun change => change.owner == owner

def isSecretOccurrence (db : ProjectDB) (env : EnvID) (id : EntryID) : Bool :=
  db.secretOccurrences.contains (env, id)

def clearValue (db : ProjectDB) (env : EnvID) (keyID : KeyID) : ProjectDB :=
  { db with entries := db.entries.filter fun entry => !(entry.env == env && entry.keyID == keyID) }

def putValue (db : ProjectDB) (env : EnvID) (keyID : KeyID) (value : String) : ProjectDB :=
  { db.clearValue env keyID with
    entries := ⟨db.nextID, env, keyID, value⟩ :: (db.clearValue env keyID).entries
    nextID := db.nextID + 1 }

def discard (db : ProjectDB) (id : VersionID) : ProjectDB :=
  { db with pending := db.pending.filter fun change => !(change.id == id) }

/-- Every policy keeps at least one revision, so the newest is never collected. -/
def collectPayload (db : ProjectDB) (env : EnvID) (revision : Nat) :
    Except ServiceError ProjectDB := do
  Hikyo.Lib.require (revision ≠ db.currentRevision env) (.invalid "the newest revision is retained")
  return { db with
    snapshots :=
      Hikyo.Lib.updateWhere (fun snapshot => snapshot.env == env && snapshot.revision == revision)
      (fun snapshot => { snapshot with payloadPresent := false, entries := [] }) db.snapshots }

/-- `Pending().Stage`: one draft per cell and owner, so a new one supersedes. -/
def stagePending (db : ProjectDB) (change : PendingChange) : ProjectDB :=
  { db with pending := change :: db.pending.filter fun old =>
      !(old.env == change.env && old.keyID == change.keyID && old.owner == change.owner) }

end ProjectDB

/-- `unicode.IsSpace`: the ASCII spaces and the code points with White_Space. -/
def isSpace (c : Char) : Bool :=
  ([0x09, 0x0a, 0x0b, 0x0c, 0x0d, 0x20, 0x85, 0xa0, 0x1680, 0x2028, 0x2029, 0x202f, 0x205f,
    0x3000].contains c.toNat) || (0x2000 ≤ c.toNat && c.toNat ≤ 0x200a)

def normalize (value : String) : String :=
  String.ofList ((value.toList.dropWhile isSpace).rdropWhile isSpace)

theorem dropWhile_rdropWhile_dropWhile (p : Char → Bool) (l : List Char) :
    ((l.dropWhile p).rdropWhile p).dropWhile p = (l.dropWhile p).rdropWhile p := by
  rw [dropWhile_eq_self_iff]
  intro nonempty
  -- the first character survives the trimming on the right, and it is no space
  have start := rdropWhile_prefix p (l := l.dropWhile p)
  have longer : 0 < (l.dropWhile p).length := lt_of_lt_of_le nonempty start.length_le
  have first := dropWhile_eq_self_iff.mp (dropWhile_idempotent p l) longer
  rwa [start.getElem nonempty]

@[simp] theorem normalize_normalize (value : String) :
    normalize (normalize value) = normalize value := by
  unfold normalize
  rw [String.toList_ofList, dropWhile_rdropWhile_dropWhile, rdropWhile_idempotent]

inductive TokenLabel
  | changeToken
  | deliveryCursor
deriving DecidableEq

/-- The organisation and the project are those of the model. -/
structure TokenKey where
  label : TokenLabel
  env : EnvID

/-- The stored payload size depends on ciphertexts, so it is a parameter. -/
structure Server where
  /-- `validateLiteralValue`: the classification, the declaration, the value. -/
  validateLiteralValue : Classification → String → String → Bool
  /-- `CompileClassified` accepts the declaration. -/
  compiles : Classification → String → Bool
  /-- `ValueDependentChange` of the old and the new declaration. -/
  valueDependentChange : String → String → Bool
  compilesPattern : String → Bool
  matchesPattern : String → String → Bool
  payloadBytes : ProjectDB → Nat
  hash : Hikyo.Lib.KeyedHash TokenKey

end Hikyo.Project
