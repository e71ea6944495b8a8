import Hikyo.Lib.Encoding

/-!
# Ideal cryptography

Ideal ciphers and keyed hashes: a sealed message opens exactly for its key and data
(`openSealed_eq_some`), and a keyed hash carries its collision freedom as a field.
`KeyedHash.transparent` shows that there are such hashes.
-/

namespace Hikyo.Lib

structure Sealed (K D M : Type) where
  key : K
  data : D
  message : M
deriving DecidableEq

section Sealing
variable {K D M : Type} [DecidableEq K] [DecidableEq D]

def openSealed (key : K) (data : D) (ciphertext : Sealed K D M) : Option M :=
  if ciphertext.key = key ∧ ciphertext.data = data then some ciphertext.message else none

theorem openSealed_eq_some {key : K} {data : D} {ciphertext : Sealed K D M} {message : M} :
    openSealed key data ciphertext = some message ↔ ciphertext = ⟨key, data, message⟩ := by
  obtain ⟨sealedKey, sealedData, _⟩ := ciphertext
  simp only [openSealed, Sealed.mk.injEq]
  by_cases fits : sealedKey = key ∧ sealedData = data
  · simp [fits]
  simp only [if_neg fits]
  constructor
  · intro absurdity
    cases absurdity
  · rintro ⟨rfl, rfl, -⟩
    exact absurd ⟨rfl, rfl⟩ fits

@[simp] theorem openSealed_seal (key : K) (data : D) (message : M) :
    openSealed key data ⟨key, data, message⟩ = some message :=
  openSealed_eq_some.mpr rfl

end Sealing

section KeyedHash
variable {K : Type}

structure KeyedHash (K : Type) where
  tag : K → List UInt8 → String
  collisionFree : ∀ {k k' : K} {m m' : List UInt8}, tag k m = tag k' m' → k = k' ∧ m = m'

theorem ofUInt8_inj {a b : UInt8} (same : Char.ofUInt8 a = Char.ofUInt8 b) : a = b := by
  have values : a.toUInt32.toNat = b.toUInt32.toNat := congrArg Char.toNat same
  exact UInt8.toNat_inj.mp (by simpa using values)

/-- The hash that shows its input: keys that encode injectively give one. -/
def KeyedHash.transparent (encode : K → List UInt8)
    (injective : ∀ k k', encode k = encode k' → k = k') :
    KeyedHash K where
  tag k m := String.ofList ((counted (fun b => [b]) (encode k) ++ m).map Char.ofUInt8)
  collisionFree {k k' m m'} same := by
    have chars := String.ofList_injective same
    have bytes := List.map_injective_iff.mpr (fun _ _ => ofUInt8_inj) chars
    obtain ⟨keys, messages⟩ := counted_append_inj
      (fun a b u v h => ⟨List.head_eq_of_cons_eq h, List.tail_eq_of_cons_eq h⟩) bytes
    exact ⟨injective k k' keys, messages⟩

end KeyedHash

end Hikyo.Lib
