import Hikyo.Project.State

/-!
# The delivery manifest

The canonical bytes a change token is computed over: a version, and the rendered rows in the order
of their names, each field behind its length.  `manifest_append_inj` reads them back.
-/

namespace Hikyo.Delivery

open Hikyo.Lib Hikyo.Project

def manifestVersion : String := "v1"

structure Row where
  key : String
  classification : Classification
  value : String

def sortRows (rows : List Row) : List Row := rows.insertionSort fun a b => a.key ≤ b.key

def encodeRow (row : Row) : List UInt8 :=
  field row.key ++ (field (classificationText row.classification) ++ field row.value)

def manifest (rows : List Row) : List UInt8 :=
  field manifestVersion ++ counted encodeRow (sortRows rows)

theorem encodeRow_append_inj (a b : Row) (u v : List UInt8)
    (same : encodeRow a ++ u = encodeRow b ++ v) : a = b ∧ u = v := by
  unfold encodeRow at same
  simp only [List.append_assoc] at same
  obtain ⟨key, rest⟩ := field_append_inj same
  obtain ⟨classification, rest⟩ := field_append_inj rest
  obtain ⟨value, tail⟩ := field_append_inj rest
  refine ⟨?_, tail⟩
  cases a
  cases b
  simp only [Row.mk.injEq]
  exact ⟨key, classificationText_inj classification, value⟩

theorem manifest_append_inj {rows rows' : List Row} {u v : List UInt8}
    (same : manifest rows ++ u = manifest rows' ++ v) : sortRows rows = sortRows rows' ∧ u = v := by
  unfold manifest at same
  simp only [List.append_assoc] at same
  obtain ⟨-, rest⟩ := field_append_inj same
  exact counted_append_inj encodeRow_append_inj rest

theorem sortRows_perm (rows : List Row) : (sortRows rows).Perm rows :=
  List.perm_insertionSort _ rows

def changeToken (hash : KeyedHash TokenKey) (env : EnvID) (manifest : List UInt8) : String :=
  hash.tag ⟨.changeToken, env⟩ manifest

end Hikyo.Delivery
