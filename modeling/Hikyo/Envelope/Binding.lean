import Hikyo.Envelope.Record

/-!
# Records open where they were sealed

`associated_data_injective`: the authenticated bytes of a record determine its header and its
associated data, across all kinds of place, and a sealed record opens under its own key, header and
place and under no others.  `authenticated_inj` peels the two encodings apart field by field; that
of the header has a fixed length, that of the data a length before each field.
-/

namespace Hikyo.Envelope

open Hikyo.Lib List

variable {bytes keyID nonce plaintext : Bytes} {keyVersion : UInt32}

theorem Kind.byte_injective {k k' : Kind} (same : k.byte = k'.byte) : k = k' := by
  revert same
  cases k <;> cases k' <;> decide

section Headers
variable {h h' : Header} {u v : Bytes}

theorem appendHeader_eq_some (appended : appendHeader h = some u) :
    ∃ keyID nonce, frame h.keyID = some keyID ∧ frame h.nonce = some nonce ∧
      u = [h.format, h.kind.byte, h.alg] ++ keyID ++ be32 h.keyVersion ++ nonce := by
  obtain ⟨keyID, isKeyID, appended⟩ := Option.bind_eq_some_iff.mp appended
  obtain ⟨nonce, isNonce, appended⟩ := Option.bind_eq_some_iff.mp appended
  cases appended
  exact ⟨keyID, nonce, isKeyID, isNonce, rfl⟩

theorem appendHeader_append_inj (first : appendHeader h = some u)
    (second : appendHeader h' = some v) {xs ys : Bytes} (same : u ++ xs = v ++ ys) :
    h = h' ∧ xs = ys := by
  obtain ⟨_, _, isKeyID, isNonce, rfl⟩ := appendHeader_eq_some first
  obtain ⟨_, _, isKeyID', isNonce', rfl⟩ := appendHeader_eq_some second
  simp only [append_assoc, cons_append, nil_append] at same
  obtain ⟨formats, same⟩ := cons.inj same
  obtain ⟨kinds, same⟩ := cons.inj same
  obtain ⟨algs, same⟩ := cons.inj same
  obtain ⟨keyIDs, same⟩ := frame_append_inj isKeyID isKeyID' same
  obtain ⟨versions, same⟩ := be32_append_inj same
  obtain ⟨nonces, rest⟩ := frame_append_inj isNonce isNonce' same
  refine ⟨?_, rest⟩
  cases h
  cases h'
  cases formats
  cases Kind.byte_injective kinds
  cases algs
  cases keyIDs
  cases versions
  cases nonces
  rfl

def Header.inRecord (h : Header) : RecordHeader :=
  { format := h.format, kind := h.kind.byte, alg := h.alg, keyID := h.keyID,
    keyVersion := h.keyVersion, nonce := h.nonce }

theorem parseHeader_append (appended : appendHeader h = some u) (isV1 : h.format = formatV1)
    (rest : Bytes) :
    parseHeader (u ++ rest) = .ok (h.inRecord, rest) := by
  obtain ⟨_, nonce, isKeyID, isNonce, rfl⟩ := appendHeader_eq_some appended
  simp only [append_assoc, cons_append, nil_append]
  unfold parseHeader
  dsimp only
  simp only [isV1, ne_eq, not_true, if_false, readFrame_append isKeyID, orDecrypt, bind,
    Except.bind, readWord_be32, readFrame_append isNonce]
  rw [← isV1]
  rfl

end Headers

theorem AAD.fields_injective {a b : AAD} (kinds : a.kind = b.kind) (same : a.fields = b.fields) :
    a = b := by
  cases a with
  | value | instanceField =>
    cases b <;> cases kinds
    obtain ⟨rfl, rfl, rfl, rfl, rfl, rfl⟩ := same
    rfl
  | wrappedDEK =>
    cases b <;> cases kinds
    simp only [AAD.fields, cons.injEq, and_true] at same
    obtain ⟨rfl, rfl, rfl, dekVersions, masterKeyVersions⟩ := same
    rw [be32_inj dekVersions, be32_inj masterKeyVersions]
  | wrappedMaster | wrappedTokenKey =>
    cases b <;> cases kinds
    simp only [AAD.fields, cons.injEq, and_true] at same
    rw [be32_inj same.1, be32_inj same.2]
  | projectField =>
    cases b <;> cases kinds
    simp only [AAD.fields] at same
    split at same
    · rename_i without
      split at same
      · rename_i without'
        obtain ⟨rfl, rfl, rfl, rfl, rfl⟩ := same
        obtain ⟨rfl, rfl, rfl⟩ := without
        obtain ⟨rfl, rfl, rfl⟩ := without'
        rfl
      · -- five fields are not eight
        simp at same
    split at same
    · simp at same
    · obtain ⟨rfl, rfl, rfl, rfl, rfl, rfl, rfl, rfl⟩ := same
      rfl
  | raw =>
    cases b <;> cases kinds
    simp only [AAD.fields, cons.injEq, and_true] at same
    rw [same]

theorem appendAAD_eq_some {header : Bytes} {a : AAD} (appended : appendAAD header a = some bytes) :
    ∃ fields, frames a.fields = some fields ∧ bytes = header ++ fields := by
  obtain ⟨fields, isFields, appended⟩ := Option.bind_eq_some_iff.mp appended
  cases appended
  exact ⟨fields, isFields, rfl⟩

def authenticated (h : Header) (a : AAD) : Option Bytes := do
  let header ← appendHeader { h with kind := a.kind }
  appendAAD header a

theorem authenticated_inj {h h' : Header} {a a' : AAD} (first : authenticated h a = some bytes)
    (second : authenticated h' a' = some bytes) :
    { h with kind := a.kind } = { h' with kind := a'.kind } ∧ a = a' := by
  obtain ⟨_, isHeader, appended⟩ := Option.bind_eq_some_iff.mp first
  obtain ⟨_, isHeader', appended'⟩ := Option.bind_eq_some_iff.mp second
  obtain ⟨_, isFields, rfl⟩ := appendAAD_eq_some appended
  obtain ⟨_, isFields', same⟩ := appendAAD_eq_some appended'
  obtain ⟨headers, rfl⟩ := appendHeader_append_inj isHeader isHeader' same
  have kinds : a.kind = a'.kind := congrArg Header.kind headers
  exact ⟨headers, AAD.fields_injective kinds (frames_inj isFields isFields')⟩

section Opening
variable {aead : Aead}

theorem sealRecord_eq_some {key record : Bytes} {a : AAD}
    (isSealed : sealRecord aead key keyID keyVersion a nonce plaintext = some record) :
    ∃ header aad, appendHeader (sealHeader keyID keyVersion a nonce) = some header ∧
      appendAAD header a = some aad ∧
      record = header ++ aead.encrypt key nonce aad plaintext := by
  obtain ⟨header, isHeader, isSealed⟩ := Option.bind_eq_some_iff.mp isSealed
  obtain ⟨aad, isAAD, isSealed⟩ := Option.bind_eq_some_iff.mp isSealed
  cases isSealed
  exact ⟨header, aad, isHeader, isAAD, rfl⟩

theorem orDecrypt_eq_ok {α : Type} {x : Option α} {a : α} (isOk : orDecrypt x = .ok a) :
    x = some a := by
  cases x with
  | none => cases isOk
  | some =>
    cases isOk
    rfl

theorem openRecord_eq_ok {key record key' keyID' plaintext' : Bytes} {keyVersion' : UInt32}
    {a a' : AAD} (isSealed : sealRecord aead key keyID keyVersion a nonce plaintext = some record)
    (isOpened : openRecord aead key' keyID' keyVersion' a' record = .ok plaintext') :
    key' = key ∧ keyID' = keyID ∧ keyVersion' = keyVersion ∧ a' = a ∧ plaintext' = plaintext := by
  obtain ⟨header, _, isHeader, isAAD, rfl⟩ := sealRecord_eq_some isSealed
  unfold openRecord at isOpened
  rw [parseHeader_append isHeader rfl] at isOpened
  change (if _ then _ else _) = _ at isOpened
  split at isOpened
  · cases isOpened
  rename_i named
  simp only [not_or, not_not] at named
  obtain ⟨kinds, -, rfl, rfl, -⟩ := named
  rw [length_append, Nat.add_sub_cancel, take_left] at isOpened
  cases appended : appendAAD header a' with
  | none =>
    rw [appended] at isOpened
    cases isOpened
  | some =>
    rw [appended] at isOpened
    have encrypted := aead.decrypt_eq_some.mp (orDecrypt_eq_ok isOpened)
    obtain ⟨rfl, -, rfl, rfl⟩ := aead.binding encrypted
    obtain ⟨fields, isFields, rfl⟩ := appendAAD_eq_some isAAD
    obtain ⟨fields', isFields', same⟩ := appendAAD_eq_some appended
    have sameFields : fields = fields' := append_cancel_left same
    subst sameFields
    have sameKind : a'.kind = a.kind := (Kind.byte_injective kinds).symm
    exact ⟨rfl, rfl, rfl, AAD.fields_injective sameKind (frames_inj isFields' isFields), rfl⟩

theorem openRecord_sealRecord {key record : Bytes} {a : AAD}
    (isSealed : sealRecord aead key keyID keyVersion a nonce plaintext = some record)
    (nonceSize : nonce.length = nonceSizeX) :
    openRecord aead key keyID keyVersion a record = .ok plaintext := by
  obtain ⟨_, aad, isHeader, isAAD, rfl⟩ := sealRecord_eq_some isSealed
  unfold openRecord
  rw [parseHeader_append isHeader rfl]
  change (if _ then _ else _) = _
  rw [if_neg (by simp [Header.inRecord, sealHeader, nonceSize]), length_append, Nat.add_sub_cancel,
    take_left, isAAD]
  change orDecrypt (aead.decrypt key nonce aad _) = _
  rw [aead.decrypt_eq_some.mpr rfl]
  rfl

end Opening

/-- Authenticated bytes tell the header and the data, and nothing else opens a sealed record. -/
theorem associated_data_injective (aead : Aead) :
    (∀ (h h' : Header) (a a' : AAD) (bytes : Bytes), authenticated h a = some bytes →
      authenticated h' a' = some bytes →
      h.format = h'.format ∧ h.keyID = h'.keyID ∧ h.keyVersion = h'.keyVersion ∧
        a.kind = a'.kind ∧ a = a') ∧
    ∀ (key keyID nonce plaintext record : Bytes) (keyVersion : UInt32) (a : AAD),
      sealRecord aead key keyID keyVersion a nonce plaintext = some record →
        ∀ (key' keyID' plaintext' : Bytes) (keyVersion' : UInt32) (a' : AAD),
          openRecord aead key' keyID' keyVersion' a' record = .ok plaintext' →
            key' = key ∧ keyID' = keyID ∧ keyVersion' = keyVersion ∧ a' = a ∧
              plaintext' = plaintext := by
  refine ⟨?_, ?_⟩
  · intro _ _ a a' _ first second
    obtain ⟨headers, rfl⟩ := authenticated_inj first second
    have formats := congrArg Header.format headers
    have keyIDs := congrArg Header.keyID headers
    have versions := congrArg Header.keyVersion headers
    exact ⟨formats, keyIDs, versions, rfl, rfl⟩
  · intro _ _ _ _ _ _ _ isSealed _ _ _ _ _ isOpened
    exact openRecord_eq_ok isSealed isOpened

def transparentStart (key nonce data : Bytes) : Bytes :=
  counted (fun b => [b]) key ++ (counted (fun b => [b]) nonce ++ counted (fun b => [b]) data)

def transparentAead : Aead where
  encrypt key nonce data plaintext := transparentStart key nonce data ++ plaintext
  decrypt key nonce data ciphertext :=
    if (transparentStart key nonce data).isPrefixOf ciphertext then
      some (ciphertext.drop (transparentStart key nonce data).length)
    else none
  decrypt_eq_some := by
    intro key nonce data ciphertext plaintext
    constructor
    · intro decrypted
      split at decrypted
      · rename_i starts
        cases decrypted
        exact (prefix_iff_eq_append.mp ( isPrefixOf_iff_prefix.mp starts)).symm
      · cases decrypted
    · rintro rfl
      rw [if_pos ( isPrefixOf_iff_prefix.mpr (prefix_append ..)), drop_left]
  binding := by
    intro key nonce data plaintext key' nonce' data' plaintext' same
    have byte : ∀ (a b : UInt8) (u v : Bytes), [a] ++ u = [b] ++ v → a = b ∧ u = v :=
      fun _ _ _ _ heads => cons.inj heads
    simp only [transparentStart, append_assoc] at same
    obtain ⟨keys, same⟩ := counted_append_inj byte same
    obtain ⟨nonces, same⟩ := counted_append_inj byte same
    obtain ⟨data, plaintexts⟩ := counted_append_inj byte same
    exact ⟨keys, nonces, data, plaintexts⟩

theorem associated_data_injective_row :
    let row := fun rowID => AAD.value [1] [2] [3] [4] [rowID] [5]
    ∃ record, sealRecord transparentAead [9] [8] 1 (row 6) (replicate 24 0) [7] = some record ∧
      openRecord transparentAead [9] [8] 1 (row 6) record = .ok [7] ∧
      openRecord transparentAead [9] [8] 1 (row 0) record = .error .decrypt ∧
      ∀ a' plaintext', openRecord transparentAead [9] [8] 1 a' record = .ok plaintext' →
        a' = row 6 := by
  intro row
  refine ⟨_, rfl, by decide +kernel, by decide +kernel, fun a' plaintext' isOpened => ?_⟩
  exact ((associated_data_injective transparentAead).2 [9] [8] (replicate 24 0) [7] _ 1
    (row 6) rfl [9] [8] plaintext' 1 a' isOpened).2.2.2.1

end Hikyo.Envelope
