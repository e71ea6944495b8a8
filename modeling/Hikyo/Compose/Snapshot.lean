import Hikyo.Compose.Cursor
import Hikyo.Envelope.Record

/-!
# Offline snapshots

What a stack stores for rendering offline.  A save seals the payload for its scope and delivery,
writes the container and then the mark of the newest issue time, and may crash before either;
`loadSnapshot` checks scope, mark, expiry and age before it opens the container.  `Box` is the disk
of an attacker: any container that was ever sealed may be put in place in any directory.
-/

namespace Hikyo.Compose

open Hikyo.Lib Hikyo.Envelope

def isSpace (c : Char) : Bool :=
  c.toNat ∈ [0x9, 0xa, 0xb, 0xc, 0xd, 0x20, 0x85, 0xa0, 0x1680, 0x2028, 0x2029, 0x202f,
    0x205f, 0x3000] ∨
    (0x2000 ≤ c.toNat ∧ c.toNat ≤ 0x200a)

def isBlank (text : String) : Bool := text.toList.all isSpace

structure SnapshotScope where
  storageDir : String
  instanceOrigin : String
  orgID : String
  projectID : String
  environmentID : String
  credentialFingerprint : String
  configOnly : Bool
  targetNames : List String
deriving DecidableEq

/-- Times are instants; their spelling is the canonical one. -/
structure SnapshotDelivery where
  credentialID : String
  pinnedRevision : Int
  changeToken : String
  projection : List String
  issuedAt : Int
  expiresAt : Int
deriving DecidableEq

inductive BindingError
  | required (field : String)
  | setRequired (name : String)
  | emptyValue (name : String)
  | negativeRevision
  | window
  | alreadyDelivered
  | noDelivery
deriving DecidableEq

def requireFields (fields : List (String × String)) : Except BindingError Unit :=
  match fields.find? fun field => isBlank field.2 with
  | some field => .error (.required field.1)
  | none => .ok ()

def canonicalRequiredSet (name : String) (items : List String) :
    Except BindingError (List String) :=
  if items = [] then .error (.setRequired name)
  else if items.any isBlank then .error (.emptyValue name)
  else .ok (canonicalSet items)

def canonicalSnapshotScope (scope : SnapshotScope) : Except BindingError SnapshotScope := do
  requireFields [("storage dir", scope.storageDir), ("instance origin", scope.instanceOrigin),
    ("org id", scope.orgID),
    ("project id", scope.projectID), ("environment id", scope.environmentID),
    ("credential fingerprint", scope.credentialFingerprint)]
  let targets ← canonicalRequiredSet "target" scope.targetNames
  return { scope with targetNames := targets }

def canonicalSnapshotDelivery (delivery : SnapshotDelivery) :
    Except BindingError SnapshotDelivery := do
  requireFields [("credential id", delivery.credentialID), ("change token", delivery.changeToken)]
  if delivery.pinnedRevision < 0 then throw .negativeRevision
  else
    let projection ← canonicalRequiredSet "projection" delivery.projection
    if delivery.expiresAt ≤ delivery.issuedAt then throw .window
    else return { delivery with projection }

/-- A scope that has been made canonical, and a delivery if the binding is complete. -/
structure SnapshotBinding where
  scope : SnapshotScope
  delivery : Option SnapshotDelivery
  scopeCanonical : ∃ raw, canonicalSnapshotScope raw = .ok scope
  deliveryCanonical : ∀ d, delivery = some d → ∃ raw, canonicalSnapshotDelivery raw = .ok d

def newSnapshotBinding (scope : SnapshotScope) : Except BindingError SnapshotBinding :=
  match made : canonicalSnapshotScope scope with
  | .error e => .error e
  | .ok canonical =>
    .ok { scope := canonical
          delivery := none
          scopeCanonical := ⟨scope, made⟩
          deliveryCanonical := fun _ none => by cases none }

def SnapshotBinding.withDelivery (b : SnapshotBinding) (delivery : SnapshotDelivery) :
    Except BindingError SnapshotBinding :=
  if b.delivery.isSome then .error .alreadyDelivered
  else
    match made : canonicalSnapshotDelivery delivery with
    | .error e => .error e
    | .ok canonical =>
      .ok { b with
        delivery := some canonical
        deliveryCanonical := fun _ isDelivery => ⟨delivery, Option.some.inj isDelivery ▸ made⟩ }

structure SnapshotAAD where
  instanceOrigin : String
  orgID : String
  projectID : String
  environmentID : String
  credentialID : String
  credentialFingerprint : String
  configOnly : Bool
  targetNames : List String
  pinnedRevision : Int
  changeToken : String
  projection : List String
  issuedAt : Int
  expiresAt : Int

def snapshotAAD (scope : SnapshotScope) (delivery : SnapshotDelivery) : SnapshotAAD where
  instanceOrigin := scope.instanceOrigin
  orgID := scope.orgID
  projectID := scope.projectID
  environmentID := scope.environmentID
  credentialID := delivery.credentialID
  credentialFingerprint := scope.credentialFingerprint
  configOnly := scope.configOnly
  targetNames := scope.targetNames
  pinnedRevision := delivery.pinnedRevision
  changeToken := delivery.changeToken
  projection := delivery.projection
  issuedAt := delivery.issuedAt
  expiresAt := delivery.expiresAt

def SnapshotBinding.aad (b : SnapshotBinding) : Except BindingError SnapshotAAD :=
  match b.delivery with
  | none => .error .noDelivery
  | some delivery => .ok (snapshotAAD b.scope delivery)

def SnapshotAAD.canonical (aad : SnapshotAAD) : SnapshotAAD :=
  { aad with targetNames := canonicalSet aad.targetNames, projection :=
    canonicalSet aad.projection }

def contextMismatch (b expect : SnapshotScope) : Option String :=
  if b.instanceOrigin ≠ expect.instanceOrigin then some "instance"
  else if b.orgID ≠ expect.orgID then some "org"
  else if b.projectID ≠ expect.projectID then some "project"
  else if b.environmentID ≠ expect.environmentID then some "environment"
  else if b.credentialFingerprint ≠ expect.credentialFingerprint then some "credential"
  else if b.configOnly ≠ expect.configOnly then some "config_only"
  else if b.targetNames ≠ expect.targetNames then some "target set"
  else none

structure SnapshotPayload where
  rows : List SnapshotRow
  generationStamps : Named String

/-- JSON of headers and payloads, and the digest of a header: what is written is read back. -/
structure SnapshotCodec where
  header : SnapshotAAD → Bytes
  parseHeader : Bytes → Option SnapshotAAD
  parse_header : ∀ aad, parseHeader (header aad) = some aad
  payload : SnapshotPayload → Bytes
  parsePayload : Bytes → Option SnapshotPayload
  parse_payload : ∀ payload', parsePayload (payload payload') = some payload'
  digest : Bytes → String

def snapshotMagic : Bytes := [0x48, 0x4b, 0x53, 0x31]

def snapshotKeyID : Bytes := utf8 "hikyo/compose/snapshot/v1"

def frameSnapshot (framedHeader ciphertext : Bytes) : Bytes :=
  snapshotMagic ++ (framedHeader ++ ciphertext)

def unframeSnapshot (record : Bytes) : Option (Bytes × Bytes) :=
  if snapshotMagic.isPrefixOf record then readFrame (record.drop snapshotMagic.length) else none

structure HighWaterMark where
  issuedAt : Int
  digest : String

structure SnapshotStore where
  snapshot : Option Bytes := none
  mark : Option HighWaterMark := none

inductive SnapshotError
  | binding (error : BindingError)
  | framing
  | rollback
  | seal
  | notFound
  | header
  | context (field : String)
  | expired
  | opening (error : OpenError)
  | payload
deriving DecidableEq

def liftBinding {α : Type} : Except BindingError α → Except SnapshotError α
  | .ok a => .ok a
  | .error e => .error (.binding e)

def orError {α : Type} (error : SnapshotError) : Option α → Except SnapshotError α
  | some a => .ok a
  | none => .error error

def checkMark (mark : Option HighWaterMark) (issuedAt : Int) (digest : String) :
    Except SnapshotError Unit :=
  match mark with
  | none => .ok ()
  | some mark =>
    if issuedAt < mark.issuedAt then .error .rollback
    else if issuedAt = mark.issuedAt ∧ digest ≠ mark.digest then .error .rollback
    else .ok ()

section Snapshots
variable (codec : SnapshotCodec) (aead : Aead)

def prepareSnapshot (key nonce : Bytes) (store : SnapshotStore) (binding : SnapshotBinding)
    (payload : SnapshotPayload) :
    Except SnapshotError (Bytes × HighWaterMark) := do
  let aad ← liftBinding binding.aad
  let header := codec.header aad.canonical
  -- a header that is too long has no frame
  let framed ← orError .framing (frame header)
  let digest := codec.digest header
  checkMark store.mark aad.issuedAt digest
  let ciphertext ← orError .seal
      (sealRecord aead key snapshotKeyID 1 (.raw header) nonce (codec.payload payload))
  return (frameSnapshot framed ciphertext, { issuedAt := aad.issuedAt, digest })

def parseSnapshotBinding (storageDir : String) (header : Bytes) :
    Except SnapshotError SnapshotBinding := do
  let aad ← orError .header (codec.parseHeader header)
  let binding ← liftBinding (newSnapshotBinding
    { storageDir
      instanceOrigin := aad.instanceOrigin
      orgID := aad.orgID
      projectID := aad.projectID
      environmentID := aad.environmentID
      credentialFingerprint := aad.credentialFingerprint
      configOnly := aad.configOnly
      targetNames := aad.targetNames })
  liftBinding (binding.withDelivery
    { credentialID := aad.credentialID
      pinnedRevision := aad.pinnedRevision
      changeToken := aad.changeToken
      projection := aad.projection
      issuedAt := aad.issuedAt
      expiresAt := aad.expiresAt })

def loadSnapshot (key : Bytes) (store : SnapshotStore) (expect : SnapshotBinding)
    (now maxAge : Int) :
    Except SnapshotError (SnapshotPayload × SnapshotBinding) := do
  let record ← orError .notFound store.snapshot
  let (header, ciphertext) ← orError .framing (unframeSnapshot record)
  let binding ← parseSnapshotBinding codec expect.scope.storageDir header
  match contextMismatch binding.scope expect.scope with
  | some field => throw (.context field)
  | none =>
    let aad ← liftBinding binding.aad
    checkMark store.mark aad.issuedAt (codec.digest header)
    -- the earlier one of the server's bound and the cap of the stack
    if min aad.expiresAt (aad.issuedAt + maxAge) < now then throw .expired
    else
      match openRecord aead key snapshotKeyID 1 (.raw header) ciphertext with
      | .error e => throw (.opening e)
      | .ok plaintext =>
        let payload ← orError .payload (codec.parsePayload plaintext)
        return (payload, binding)

/-- The local snapshot key of each state directory.  Each directory has a key of its own. -/
structure StateKeys where
  key : String → Bytes
  apart : ∀ {dir dir' : String}, key dir = key dir' → dir = dir'

structure SealedSnapshot where
  binding : SnapshotBinding
  payload : SnapshotPayload
  container : Bytes

structure Box where
  stores : String → SnapshotStore
  sealedSoFar : List SealedSnapshot
  completed : List SnapshotBinding

inductive SaveReach
  | beforeSnapshot
  | beforeMark
  | complete

inductive BoxAct
  | save (binding : SnapshotBinding) (payload : SnapshotPayload) (nonce : Bytes) (reach : SaveReach)
  /-- the snapshot file of the directory is replaced by a container that was sealed -/
  | replace (dir : String) (container : Bytes)

variable (keys : StateKeys)

def Box.save (box : Box) (binding : SnapshotBinding) (payload : SnapshotPayload) (nonce : Bytes)
    (reach : SaveReach) : Box :=
  let dir := binding.scope.storageDir
  match prepareSnapshot codec aead (keys.key dir) nonce (box.stores dir) binding payload with
  | .error _ => box
  | .ok (container, mark) =>
    let box := { box with sealedSoFar := { binding, payload, container } :: box.sealedSoFar }
    match reach with
    | .beforeSnapshot => box
    | .beforeMark =>
      { box with
        stores := Function.update box.stores dir
          { box.stores dir with snapshot := some container } }
    | .complete =>
      { box with
        stores := Function.update box.stores dir { snapshot := some container, mark := some mark }
        completed := binding :: box.completed }

def Box.act (box : Box) : BoxAct → Box
  | .save binding payload nonce reach => box.save codec aead keys binding payload nonce reach
  | .replace dir container =>
    if (box.sealedSoFar.map (·.container)).contains container then
      { box with
        stores := Function.update box.stores dir
          { box.stores dir with snapshot := some container } }
    else box

def Box.fresh : Box := { stores := fun _ => {}, sealedSoFar := [], completed := [] }

def boxAfter (box : Box) (acts : List BoxAct) :
    Box := acts.foldl (fun box act => box.act codec aead keys act) box

end Snapshots

end Hikyo.Compose
