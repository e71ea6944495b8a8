import Hikyo.Lib.Encoding

/-!
# Frames

A frame is a byte string behind its length, a 32-bit word with the high byte first.
`readFrame_append` reads a frame off the front of a message, and `frames_inj` says that a sequence
of frames determines its parts.
-/

namespace Hikyo.Lib

open List

abbrev Bytes := List UInt8

def be32 (v : UInt32) : Bytes :=
  [UInt8.ofNat (v.toNat / 16777216), UInt8.ofNat (v.toNat / 65536 % 256),
    UInt8.ofNat (v.toNat / 256 % 256), UInt8.ofNat (v.toNat % 256)]

theorem be32_inj {v w : UInt32} (same : be32 v = be32 w) : v = w := by
  have vBound := v.toNat_lt
  have wBound := w.toNat_lt
  simp only [be32, cons.injEq, and_true] at same
  obtain ⟨first, second, third, fourth⟩ := same
  have a := ofNat_inj (by omega) (by omega) first
  have b := ofNat_inj (by omega) (by omega) second
  have c := ofNat_inj (by omega) (by omega) third
  have d := ofNat_inj (by omega) (by omega) fourth
  exact UInt32.toNat_inj.mp (by omega)

theorem be32_append_inj {v w : UInt32} {xs ys : Bytes} (same : be32 v ++ xs = be32 w ++ ys) :
    v = w ∧ xs = ys := by
  obtain ⟨words, rest⟩ := append_inj same rfl
  exact ⟨be32_inj words, rest⟩

def readWord (bytes : Bytes) : Option (UInt32 × Bytes) :=
  match bytes with
  | a :: b :: c :: d :: rest =>
    some (UInt32.ofNat (a.toNat * 16777216 + b.toNat * 65536 + c.toNat * 256 + d.toNat), rest)
  | _ => none

theorem readWord_be32 (v : UInt32) (rest : Bytes) : readWord (be32 v ++ rest) = some (v, rest) := by
  have bound := v.toNat_lt
  simp only [be32, cons_append, nil_append, readWord, Option.some.injEq, Prod.mk.injEq, and_true]
  apply UInt32.toNat_inj.mp
  simp only [UInt8.toNat_ofNat', UInt32.toNat_ofNat']
  omega

def frame (field : Bytes) : Option Bytes :=
  if field.length < 4294967296 then some (be32 (UInt32.ofNat field.length) ++ field) else none

def readFrame (bytes : Bytes) : Option (Bytes × Bytes) := do
  let (n, rest) ← readWord bytes
  if rest.length < n.toNat then none else some (rest.take n.toNat, rest.drop n.toNat)

theorem frame_eq_some {field bytes : Bytes} (framed : frame field = some bytes) :
    ∃ n : UInt32, n.toNat = field.length ∧ bytes = be32 n ++ field := by
  unfold frame at framed
  split at framed
  · cases framed
    refine ⟨_, ?_, rfl⟩
    rw [UInt32.toNat_ofNat']
    omega
  · cases framed

theorem readFrame_append {field bytes : Bytes} (framed : frame field = some bytes) (rest : Bytes) :
    readFrame (bytes ++ rest) = some (field, rest) := by
  obtain ⟨n, length, rfl⟩ := frame_eq_some framed
  unfold readFrame
  rw [append_assoc, readWord_be32]
  have fits : ¬ (field ++ rest).length < n.toNat := by
    rw [length_append]
    omega
  change (if (field ++ rest).length < n.toNat then none else _) = _
  rw [if_neg fits, length, take_left, drop_left]

theorem frame_append_inj {a b u v xs ys : Bytes} (first : frame a = some u)
    (second : frame b = some v) (same : u ++ xs = v ++ ys) : a = b ∧ xs = ys := by
  have read := readFrame_append first xs
  rw [same, readFrame_append second ys] at read
  obtain ⟨fields, rests⟩ := Prod.mk.inj (Option.some.inj read)
  exact ⟨fields.symm, rests.symm⟩

def frames : List Bytes → Option Bytes
  | [] => some []
  | field :: fields => do
    let first ← frame field
    let rest ← frames fields
    return first ++ rest

theorem frame_ne_nil {field bytes : Bytes} (framed : frame field = some bytes) : bytes ≠ [] := by
  obtain ⟨_, -, rfl⟩ := frame_eq_some framed
  simp [be32]

theorem frames_cons_eq_some {field bytes : Bytes} {fields : List Bytes}
    (framed : frames (field :: fields) = some bytes) :
    ∃ first rest, frame field = some first ∧ frames fields = some rest ∧ bytes = first ++ rest := by
  obtain ⟨first, isFirst, framed⟩ := Option.bind_eq_some_iff.mp framed
  obtain ⟨rest, isRest, framed⟩ := Option.bind_eq_some_iff.mp framed
  cases framed
  exact ⟨first, rest, isFirst, isRest, rfl⟩

theorem frames_inj {as bs : List Bytes} {bytes : Bytes} (first : frames as = some bytes)
    (second : frames bs = some bytes) :
    as = bs := by
  induction as generalizing bs bytes with
  | nil =>
    cases first
    cases bs with
    | nil => rfl
    | cons =>
      obtain ⟨head, rest, isHead, -, empty⟩ := frames_cons_eq_some second
      exact absurd (append_eq_nil_iff.mp empty.symm).1 (frame_ne_nil isHead)
  | cons _ _ ih =>
    obtain ⟨_, _, isHead, isRest, rfl⟩ := frames_cons_eq_some first
    cases bs with
    | nil =>
      exact absurd (append_eq_nil_iff.mp (Option.some.inj second).symm).1 (frame_ne_nil isHead)
    | cons =>
      obtain ⟨_, _, isHead', isRest', same⟩ := frames_cons_eq_some second
      obtain ⟨rfl, rfl⟩ := frame_append_inj isHead isHead' same
      rw [ih isRest isRest']

end Hikyo.Lib
