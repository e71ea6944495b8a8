import Hikyo.Lib.Frames
import Hikyo.Lib.Numeral

/-!
# The bearer grammar

Bearer tokens are `hik_<version>_<type>_<body><checksum>`, the body in base 62 with the leading zero
bytes kept.  `bearer_grammar_exact`: for each type the parser accepts exactly the strings that some
body of 32 bytes is minted as, decoding inverts encoding, and different bodies give different
tokens.  The CRC-32 of the checksum is a parameter.
-/

namespace Hikyo.Bearer

open Hikyo.Lib

variable {raw : Bytes} {digit : Nat} {c : UInt8}

def ascii (text : String) : Bytes := text.toList.map Char.toUInt8

inductive ArtifactType where
  | cliSession | bootstrap | browserSession | recoveryCode | oidcState | oidcBinding | csrf
  | workload
  | automation | scim | instanceConn | workspaceSession | handoffState | handoffCode

def ArtifactType.text : ArtifactType → Bytes
  | cliSession => ascii "cli"
  | bootstrap => ascii "bs"
  | browserSession => ascii "br"
  | recoveryCode => ascii "rc"
  | oidcState => ascii "st"
  | oidcBinding => ascii "ob"
  | csrf => ascii "cs"
  | workload => ascii "wl"
  | automation => ascii "au"
  | scim => ascii "scim"
  | instanceConn => ascii "ic"
  | workspaceSession => ascii "ws"
  | handoffState => ascii "hs"
  | handoffCode => ascii "hc"

def artifactFormatVersion : Bytes := ascii "1"

def bodyBytes : Nat := 32

def base62Alphabet : Bytes := ascii "0123456789ABCDEFGHIJKLMNOPQRSTUVWXYZabcdefghijklmnopqrstuvwxyz"

def checksumChars : Nat := 6

inductive ArtifactError where
  | malformedArtifact

def base62Char (digit : Nat) : UInt8 := base62Alphabet.getD digit 0

def base62 (raw : Bytes) : Bytes := (recode 256 62 (raw.map UInt8.toNat)).map base62Char

-- The leading characters `0` are the leading digits zero: no other character has that index.
def decodeBase62 (text : Bytes) : Option Bytes :=
  (text.mapM (base62Alphabet.idxOf? ·)).map fun digits => (recode 62 256 digits).map UInt8.ofNat

def isBase62 (c : UInt8) : Bool :=
  (0x30 ≤ c && c ≤ 0x39) || (0x41 ≤ c && c ≤ 0x5a) || (0x61 ≤ c && c ≤ 0x7a)

def checksumLoop : Nat → UInt32 → Bytes
  | 0, _ => []
  | i + 1, sum => checksumLoop i (sum / 62) ++ [base62Char (sum % 62).toNat]

section Grammar
variable (crc32 : Bytes → UInt32)

def checksum (body : Bytes) : Bytes := checksumLoop checksumChars (crc32 body)

def newArtifact (type : ArtifactType) (raw : Bytes) : Bytes :=
  let body := base62 raw
  ascii "hik_" ++ artifactFormatVersion ++ ascii "_" ++ type.text ++ ascii "_" ++ body ++
    checksum crc32 body

def parseArtifact (value : Bytes) (want : ArtifactType) : Except ArtifactError Unit :=
  match value.splitOn 0x5f with
  | [scheme, version, type, payload] =>
    if scheme ≠ ascii "hik" then .error .malformedArtifact
    else if version ≠ artifactFormatVersion ∨ type ≠ want.text then .error .malformedArtifact
    else if payload.length ≤ checksumChars then .error .malformedArtifact
    else
      let body := payload.take (payload.length - checksumChars)
      let sum := payload.drop (payload.length - checksumChars)
      match decodeBase62 body with
      | none => .error .malformedArtifact
      | some raw =>
        if raw.length ≠ bodyBytes ∨ base62 raw ≠ body then .error .malformedArtifact
        else if sum.any (!isBase62 ·) then .error .malformedArtifact
        else if checksum crc32 body ≠ sum then .error .malformedArtifact
        else .ok ()
  | _ => .error .malformedArtifact

theorem idxOf_base62Char (small : digit < 62) :
    base62Alphabet.idxOf? (base62Char digit) = some digit :=
  (by decide : ∀ digit : Fin 62, base62Alphabet.idxOf? (base62Char digit) = some digit.val)
    ⟨digit, small⟩

theorem base62Char_mem (small : digit < 62) : base62Char digit ∈ base62Alphabet :=
  (by decide : ∀ digit : Fin 62, base62Char digit ∈ base62Alphabet) ⟨digit, small⟩

theorem mapM_base62Char {digits : List Nat} (small : ∀ digit ∈ digits, digit < 62) :
    (digits.map base62Char).mapM (base62Alphabet.idxOf? ·) = some digits := by
  induction digits with
  | nil => rfl
  | cons digit digits ih =>
    simp [idxOf_base62Char (small digit (by simp)), ih fun digit mem => small digit (by simp [mem])]

theorem decodeBase62_base62 (raw : Bytes) : decodeBase62 (base62 raw) = some raw := by
  have small : ∀ digit ∈ raw.map UInt8.toNat, digit < 256 := by
    simpa using fun byte _ => byte.toNat_lt
  rw [decodeBase62, base62, mapM_base62Char fun digit mem => recode_lt (by decide) mem,
    Option.map_some,
    recode_recode (by decide) small, List.map_map, List.map_congr_left (g := id) (by simp),
    List.map_id]

theorem mem_alphabet_of_base62 (mem : c ∈ base62 raw) : c ∈ base62Alphabet := by
  obtain ⟨digit, isDigit, rfl⟩ := List.mem_map.mp mem
  exact base62Char_mem (recode_lt (by decide) isDigit)

theorem mem_alphabet_of_checksum {sum : UInt32} {i : Nat} (mem : c ∈ checksumLoop i sum) :
    c ∈ base62Alphabet := by
  induction i generalizing sum with
  | zero => cases mem
  | succ i ih =>
    rcases List.mem_append.mp mem with earlier | last
    · exact ih earlier
    · rw [List.mem_singleton.mp last]
      exact base62Char_mem (by simpa using Nat.mod_lt sum.toNat (by decide))

theorem length_checksumLoop (i : Nat) (sum : UInt32) : (checksumLoop i sum).length = i := by
  induction i generalizing sum with
  | zero => rfl
  | succ i ih => simp [checksumLoop, ih]

theorem newArtifact_eq_intercalate (type : ArtifactType) (raw : Bytes) :
      newArtifact crc32 type raw =
      [0x5f].intercalate [ascii "hik", artifactFormatVersion, type.text, base62 raw ++
        checksum crc32 (base62 raw)] := by
  simp [newArtifact, List.intercalate, ascii, (by decide : '_'.toUInt8 = 0x5f)]

theorem splitOn_newArtifact (type : ArtifactType) (raw : Bytes) :
      (newArtifact crc32 type raw).splitOn 0x5f =
      [ascii "hik", artifactFormatVersion, type.text, base62 raw ++
        checksum crc32 (base62 raw)] := by
  have plain : 0x5f ∉ base62Alphabet := by decide
  rw [newArtifact_eq_intercalate, List.splitOn_intercalate _ ?_ (by simp)]
  intro part mem
  simp only [List.mem_cons, List.not_mem_nil, or_false] at mem
  rcases mem with rfl | rfl | rfl | rfl
  · decide
  · decide
  · cases type <;> decide
  · intro mem
    rcases List.mem_append.mp mem with body | sum
    · exact plain (mem_alphabet_of_base62 body)
    · exact plain (mem_alphabet_of_checksum sum)

theorem parseArtifact_newArtifact (type : ArtifactType) (long : raw.length = bodyBytes) :
    parseArtifact crc32 (newArtifact crc32 type raw) type = .ok () := by
  have width : (checksum crc32 (base62 raw)).length = checksumChars := length_checksumLoop ..
  have nonempty : 0 < (base62 raw).length := by
    refine List.length_pos_of_ne_nil fun empty => ?_
    have decoded := decodeBase62_base62 raw
    rw [empty] at decoded
    cases Option.some.inj decoded
    cases long
  have digits : ¬ (checksum crc32 (base62 raw)).any (!isBase62 ·) := by
    rw [checksum]
    simpa using fun c mem => List.all_eq_true.mp (by decide : base62Alphabet.all isBase62) c
      (mem_alphabet_of_checksum mem)
  rw [parseArtifact, splitOn_newArtifact]
  simp only [List.length_append, width, Nat.add_sub_cancel, List.take_left, List.drop_left,
    decodeBase62_base62, long]
  rw [if_neg (by simp), if_neg (by simp), if_neg (by omega), if_neg (by simp), if_neg digits,
    if_neg (by simp)]

theorem newArtifact_of_parseArtifact {value : Bytes} {want : ArtifactType}
    (accepted : parseArtifact crc32 value want = .ok ()) :
    ∃ raw, raw.length = bodyBytes ∧ newArtifact crc32 want raw = value := by
  have joined : [0x5f].intercalate (value.splitOn 0x5f) = value := List.intercalate_splitOn _
  unfold parseArtifact at accepted
  dsimp only at accepted
  split at accepted
  · rename_i scheme version type payload parts
    rcases decoded : decodeBase62 (payload.take (payload.length - checksumChars)) with _ | raw
    · simp [decoded] at accepted
    simp only [decoded] at accepted
    split_ifs at accepted with isScheme isType _ canonical _ isSum
    simp only [not_or, not_not] at isScheme isType canonical isSum
    refine ⟨raw, canonical.1, ?_⟩
    rw [← joined, parts, newArtifact_eq_intercalate, isScheme, isType.1, isType.2,
      canonical.2, isSum, List.take_append_drop]
  · cases accepted

theorem bearer_grammar_exact :
    (∀ type value, parseArtifact crc32 value type = .ok () ↔
      ∃ raw, raw.length = bodyBytes ∧ newArtifact crc32 type raw = value) ∧
    (∀ raw, decodeBase62 (base62 raw) = some raw) ∧
    ∀ type type' raw raw', raw ≠ raw' →
      newArtifact crc32 type raw ≠ newArtifact crc32 type' raw' := by
  refine ⟨fun type value => ⟨newArtifact_of_parseArtifact crc32, ?_⟩, decodeBase62_base62, ?_⟩
  · rintro ⟨raw, long, rfl⟩
    exact parseArtifact_newArtifact crc32 type long
  · intro type type' raw raw' differ same
    have parts := congrArg (List.splitOn 0x5f) same
    rw [splitOn_newArtifact, splitOn_newArtifact] at parts
    simp only [List.cons.injEq, and_true, true_and] at parts
    have bodies := (List.append_inj' parts.2 (by simp [checksum, length_checksumLoop])).1
    have decoded := congrArg decodeBase62 bodies
    rw [decodeBase62_base62, decodeBase62_base62] at decoded
    exact differ (Option.some.inj decoded)

end Grammar

end Hikyo.Bearer
