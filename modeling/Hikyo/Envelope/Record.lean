import Hikyo.Lib.Frames

/-!
# Sealed records

The sealed records of the key hierarchy and of the value tables.  A record is a header (format,
algorithm, key id, version, nonce), a ciphertext, and associated data that say to which table, row
and column it belongs; the bytes of header and associated data are authenticated with the
ciphertext.  The cipher is ideal (`Aead`): it opens what it sealed, and nothing else.
-/

namespace Hikyo.Envelope

open Hikyo.Lib

inductive Kind
  | value
  | wrappedDEK
  | wrappedMaster
  | wrappedTokenKey
  | projectField
  | instanceField
  | composeSnapshot
deriving DecidableEq

def Kind.byte : Kind → UInt8
  | .value => 1
  | .wrappedDEK => 2
  | .wrappedMaster => 3
  | .wrappedTokenKey => 4
  | .projectField => 5
  | .instanceField => 6
  | .composeSnapshot => 7

/-- The last constructor is that of the offline snapshots, which are sealed by the client. -/
inductive AAD
  | value (orgID projectID envID keyID rowID fieldTag : Bytes)
  | wrappedDEK (orgID projectID dekID : Bytes) (dekVersion masterKeyVersion : UInt32)
  | wrappedMaster (masterKeyVersion rootKeyEpoch : UInt32)
  | wrappedTokenKey (tokenKeyVersion masterKeyVersion : UInt32)
  | projectField (orgID projectID ownerTable ownerRowID fieldTag : Bytes)
      (environmentID keyID snapshotID : Bytes)
  | instanceField (ownerTable ownerRowID fieldTag : Bytes)
  | raw (headerCanonical : Bytes)

namespace AAD

def kind : AAD → Kind
  | .value .. => .value
  | .wrappedDEK .. => .wrappedDEK
  | .wrappedMaster .. => .wrappedMaster
  | .wrappedTokenKey .. => .wrappedTokenKey
  | .projectField .. => .projectField
  | .instanceField .. => .instanceField
  | .raw .. => .composeSnapshot

/-- The optional fields of a project field are there if one of them is. -/
def fields : AAD → List Bytes
  | .value orgID projectID envID keyID rowID fieldTag =>
    [orgID, projectID, envID, keyID, rowID, fieldTag]
  | .wrappedDEK orgID projectID dekID dekVersion masterKeyVersion =>
    [orgID, projectID, dekID, be32 dekVersion, be32 masterKeyVersion]
  | .wrappedMaster masterKeyVersion rootKeyEpoch => [be32 masterKeyVersion, be32 rootKeyEpoch]
  | .wrappedTokenKey tokenKeyVersion masterKeyVersion =>
      [be32 tokenKeyVersion, be32 masterKeyVersion]
  | .projectField orgID projectID ownerTable ownerRowID fieldTag environmentID keyID snapshotID =>
    let fields := [orgID, projectID, ownerTable, ownerRowID, fieldTag]
    if environmentID = [] ∧ keyID = [] ∧ snapshotID = [] then fields else fields ++
      [environmentID, keyID, snapshotID]
  | .instanceField ownerTable ownerRowID fieldTag => [ownerTable, ownerRowID, fieldTag]
  | .raw headerCanonical => [headerCanonical]

end AAD

def appendAAD (header : Bytes) (a : AAD) : Option Bytes := do
  let fields ← frames a.fields
  return header ++ fields

structure Header where
  format : UInt8
  kind : Kind
  alg : UInt8
  keyID : Bytes
  keyVersion : UInt32
  nonce : Bytes

def formatV1 : UInt8 := 1

def algXChaCha20Poly1305 : UInt8 := 1

def nonceSizeX : Nat := 24

def appendHeader (h : Header) : Option Bytes := do
  let keyID ← frame h.keyID
  let nonce ← frame h.nonce
  return [h.format, h.kind.byte, h.alg] ++ keyID ++ be32 h.keyVersion ++ nonce

structure RecordHeader where
  format : UInt8
  kind : UInt8
  alg : UInt8
  keyID : Bytes
  keyVersion : UInt32
  nonce : Bytes

inductive OpenError
  | decrypt
  | unknownFormat (format : UInt8)
deriving DecidableEq

def orDecrypt {α : Type} : Option α → Except OpenError α
  | some a => .ok a
  | none => .error .decrypt

def parseHeader (record : Bytes) : Except OpenError (RecordHeader × Bytes) :=
  match record with
  | format :: kind :: alg :: rest => do
    if format ≠ formatV1 then throw (.unknownFormat format)
    else
      let (keyID, rest) ← orDecrypt (readFrame rest)
      let (keyVersion, rest) ← orDecrypt (readWord rest)
      let (nonce, rest) ← orDecrypt (readFrame rest)
      return ({ format, kind, alg, keyID, keyVersion, nonce }, rest)
  | _ => throw .decrypt

/-- A ciphertext opens under the key, nonce and data it was sealed with, and under no others. -/
structure Aead where
  encrypt : (key nonce data plaintext : Bytes) → Bytes
  decrypt : (key nonce data ciphertext : Bytes) → Option Bytes
  decrypt_eq_some : ∀ {key nonce data ciphertext plaintext : Bytes},
    decrypt key nonce data ciphertext = some plaintext ↔
      ciphertext = encrypt key nonce data plaintext
  binding : ∀ {key nonce data plaintext key' nonce' data' plaintext' : Bytes},
    encrypt key nonce data plaintext = encrypt key' nonce' data' plaintext' →
      key = key' ∧ nonce = nonce' ∧ data = data' ∧ plaintext = plaintext'

section Sealing
variable (aead : Aead)

def sealHeader (keyID : Bytes) (keyVersion : UInt32) (a : AAD) (nonce : Bytes) : Header :=
  { format := formatV1, kind := a.kind, alg := algXChaCha20Poly1305, keyID, keyVersion, nonce }

def sealRecord (key keyID : Bytes) (keyVersion : UInt32) (a : AAD) (nonce plaintext : Bytes) :
    Option Bytes := do
  let header ← appendHeader (sealHeader keyID keyVersion a nonce)
  let aad ← appendAAD header a
  return header ++ aead.encrypt key nonce aad plaintext

def openRecord (key keyID : Bytes) (keyVersion : UInt32) (a : AAD) (record : Bytes) :
    Except OpenError Bytes := do
  let (h, ciphertext) ← parseHeader record
  if h.kind ≠ a.kind.byte ∨ h.alg ≠ algXChaCha20Poly1305 ∨ h.keyID ≠ keyID ∨
    h.keyVersion ≠ keyVersion ∨
      h.nonce.length ≠ nonceSizeX then
    throw .decrypt
  else
    let aad ← orDecrypt (appendAAD (record.take (record.length - ciphertext.length)) a)
    orDecrypt (aead.decrypt key h.nonce aad ciphertext)

end Sealing

end Hikyo.Envelope
