import Hikyo.Delivery.Rendering

/-!
# Preimages of the delivery tokens

`token_preimages_injective`: the bytes that occurrence tokens, change tokens and cursors are
computed over can be read back, so that under a collision-free hash equal tokens have equal
contents, and no token of one kind is one of another.
-/

namespace Hikyo.Delivery

open Hikyo.Lib

def occurrenceVersion : String := "v1"

structure Occurrence where
  declared : Bool
  name : String
  keyID : String
  entryID : String
  classification : String
  declaration : String
  intendedClassification : String
  intendedType : String

/-- Whether the key is declared is a field of its own, and decides what else is bound. -/
def encodeOccurrence (o : Occurrence) : List UInt8 :=
  field occurrenceVersion ++ (field (if o.declared then "declared" else "undeclared") ++
    (field o.name ++ if o.declared then
      field o.keyID ++ (field o.entryID ++ (field o.classification ++ field o.declaration))
    else field o.intendedClassification ++ field o.intendedType))

structure Occurrence.Agrees (a b : Occurrence) : Prop where
  declared : a.declared = b.declared
  name : a.name = b.name
  observed : a.declared = true → a.keyID = b.keyID ∧ a.entryID = b.entryID ∧
    a.classification = b.classification ∧ a.declaration = b.declaration
  intended : a.declared = false → a.intendedClassification = b.intendedClassification ∧
    a.intendedType = b.intendedType

theorem field_inj {a b : String} (same : field a = field b) : a = b :=
  (field_append_inj (congrArg (· ++ []) same)).1

theorem encodeOccurrence_inj {a b : Occurrence} (same : encodeOccurrence a = encodeOccurrence b) :
    a.Agrees b := by
  obtain ⟨-, same⟩ := field_append_inj same
  obtain ⟨kind, same⟩ := field_append_inj same
  obtain ⟨name, same⟩ := field_append_inj same
  cases isDeclared : a.declared with
  | true =>
    cases isDeclared' : b.declared with
    | true =>
      rw [isDeclared, isDeclared'] at same
      obtain ⟨keyID, same⟩ := field_append_inj same
      obtain ⟨entryID, same⟩ := field_append_inj same
      obtain ⟨classification, same⟩ := field_append_inj same
      exact ⟨isDeclared.trans isDeclared'.symm, name,
        fun _ => ⟨keyID, entryID, classification, field_inj same⟩,
        fun undeclared => by cases isDeclared.symm.trans undeclared⟩
    | false => simp [isDeclared, isDeclared'] at kind
  | false =>
    cases isDeclared' : b.declared with
    | true => simp [isDeclared, isDeclared'] at kind
    | false =>
      rw [isDeclared, isDeclared'] at same
      obtain ⟨classification, same⟩ := field_append_inj same
      exact ⟨isDeclared.trans isDeclared'.symm, name,
        fun declared => (by cases isDeclared.symm.trans declared),
        fun _ => ⟨classification, field_inj same⟩⟩

/-- Equal preimages have equal contents. -/
theorem token_preimages_injective :
    (∀ (rows rows' : List Row) (supplied supplied' : Supplied),
      parameterizedManifest rows supplied = parameterizedManifest rows' supplied' →
        rows.Perm rows' ∧ supplied.Perm supplied') ∧
      (∀ a b : CursorTuple, encodeTuple a = encodeTuple b →
        a.changeToken = b.changeToken ∧ a.normalMode = b.normalMode ∧
          (∀ atom, atom ∈ a.projection ↔ atom ∈ b.projection) ∧
          a.authorizationRevision = b.authorizationRevision ∧ a.pinGeneration = b.pinGeneration ∧
          a.pinnedHistoricalRevision = b.pinnedHistoricalRevision) ∧
      ∀ a b : Occurrence, encodeOccurrence a = encodeOccurrence b → a.Agrees b := by
  refine ⟨fun rows rows' supplied supplied' same => ?_, fun _ _ => encodeTuple_inj,
    fun _ _ => encodeOccurrence_inj⟩
  obtain ⟨sorted, parameters, -⟩ := parameterizedManifest_eq same
  exact ⟨(sortRows_perm rows).symm.trans (sorted ▸ sortRows_perm rows'), parameters⟩

theorem token_preimages_differ :
    parameterizedManifest [⟨"PORT", .config, "80"⟩] [] ≠ parameterizedManifest
      [⟨"PORT", .config, "80"⟩] [("P", "80")] :=
  fun same => absurd (token_preimages_injective.1 _ _ _ _ same).2 (by decide)

end Hikyo.Delivery
