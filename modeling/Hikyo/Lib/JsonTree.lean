import Hikyo.Lib.Json

/-!
# JSON values and the case of their names

JSON values as trees, with the size of their compact text and a map over the names of their members
at any depth.  Names are compared by ASCII letters (`asciiLower`), or under a simple case folding of
all characters; `asciiLower_of_equal` says for which names the two agree.
-/

namespace Hikyo.Lib

open List

variable {f : String → String} {α : Type}

inductive Json
  | null
  | bool (value : Bool)
  | number (text : String)
  | string (text : String)
  | array (items : List Json)
  | object (members : List (String × Json))

namespace Json

mutual

def mapNames (f : String → String) : Json → Json
  | .array items => .array (mapItems f items)
  | .object members => .object (mapMembers f members)
  | .null => .null
  | .bool value => .bool value
  | .number text => .number text
  | .string text => .string text

def mapItems (f : String → String) : List Json → List Json
  | [] => []
  | item :: rest => item.mapNames f :: mapItems f rest

def mapMembers (f : String → String) : List (String × Json) → List (String × Json)
  | [] => []
  | (name, value) :: rest => (f name, value.mapNames f) :: mapMembers f rest

end

@[simp] theorem mapItems_eq (f : String → String) (items : List Json) :
    mapItems f items = items.map (·.mapNames f) := by
  induction items with
  | nil => rfl
  | cons _ _ ih => rw [mapItems, ih, map_cons]

@[simp] theorem mapMembers_eq (f : String → String) (members : List (String × Json)) :
    mapMembers f members = members.map fun m => (f m.1, m.2.mapNames f) := by
  induction members with
  | nil => rfl
  | cons _ _ ih => rw [mapMembers, ih, map_cons]

def byteLength (text : String) : Nat := (text.toList.map Char.utf8Size).sum

def stringSize (text : String) : Nat := ((jsonString text).map Char.utf8Size).sum

mutual

def size : Json → Nat
  | .null => 4
  | .bool value => if value then 4 else 5
  | .number text => byteLength text
  | .string text => stringSize text
  | .array items => 2 + sizeItems items + (items.length - 1)
  | .object members => 2 + sizeMembers members + (members.length - 1)

def sizeItems : List Json → Nat
  | [] => 0
  | item :: rest => item.size + sizeItems rest

def sizeMembers : List (String × Json) → Nat
  | [] => 0
  | (name, value) :: rest => stringSize name + 1 + value.size + sizeMembers rest

end

mutual

theorem size_mapNames (same : ∀ name, stringSize (f name) = stringSize name) :
    (value : Json) → (value.mapNames f).size = value.size
  | .null => rfl
  | .bool _ => rfl
  | .number _ => rfl
  | .string _ => rfl
  | .array items => by
    rw [mapNames, size, size, sizeItems_mapItems same items, mapItems_eq, length_map]
  | .object members => by
    rw [mapNames, size, size, sizeMembers_mapMembers same members, mapMembers_eq, length_map]

theorem sizeItems_mapItems (same : ∀ name, stringSize (f name) = stringSize name) :
    (items : List Json) → sizeItems (mapItems f items) = sizeItems items
  | [] => rfl
  | item :: rest => by
    rw [mapItems, sizeItems, sizeItems, size_mapNames same item, sizeItems_mapItems same rest]

theorem sizeMembers_mapMembers (same : ∀ name, stringSize (f name) = stringSize name) :
    (members : List (String × Json)) → sizeMembers (mapMembers f members) = sizeMembers members
  | [] => rfl
  | (name, value) :: rest => by
    rw [mapMembers, sizeMembers, sizeMembers, same, size_mapNames same value,
      sizeMembers_mapMembers same rest]

end

end Json

def asciiLower (name : String) : String := String.ofList (name.toList.map Char.toLower)

theorem toLower_cases (c : Char) : c.toLower = c ∨ c ∈ "ABCDEFGHIJKLMNOPQRSTUVWXYZ".toList := by
  by_cases upper : 65 ≤ c.toNat ∧ c.toNat ≤ 90
  · right
    obtain ⟨low, high⟩ := upper
    rw [← Char.ofNat_toNat c]
    generalize c.toNat = n at low high
    interval_cases n <;> decide
  left
  unfold Char.toLower
  rw [dif_neg]
  rintro ⟨low, high⟩
  exact upper ⟨UInt32.le_iff_toNat_le.mp low, UInt32.le_iff_toNat_le.mp high⟩

theorem toLower_invariant [DecidableEq α] (f : Char → α)
    (capitals : ("ABCDEFGHIJKLMNOPQRSTUVWXYZ".toList.all fun c => f c.toLower == f c) = true)
    (c : Char) :
    f c.toLower = f c := by
  rcases toLower_cases c with same | capital
  · rw [same]
  · simpa using all_eq_true.mp capitals c capital

theorem map_asciiLower {f : Char → α} (invariant : ∀ c, f c.toLower = f c) (name : String) :
    (asciiLower name).toList.map f = name.toList.map f := by
  simp only [asciiLower, String.toList_ofList, map_map]
  exact map_congr_left fun c _ => invariant c

@[simp] theorem asciiLower_asciiLower (name : String) :
    asciiLower (asciiLower name) = asciiLower name := by
  have lowered := map_asciiLower (toLower_invariant Char.toLower (by decide)) name
  rw [asciiLower, lowered, asciiLower]

@[simp] theorem Json.byteLength_asciiLower (name : String) :
    byteLength (asciiLower name) = byteLength name := by
  rw [byteLength, map_asciiLower (toLower_invariant Char.utf8Size (by decide)), byteLength]

theorem Json.stringSize_asciiLower (name : String) :
    stringSize (asciiLower name) = stringSize name := by
  have sizes : ∀ text : String, ((text.toList.flatMap jsonChar).map Char.utf8Size).sum =
      (text.toList.map fun c => ((jsonChar c).map Char.utf8Size).sum).sum := by
    intro text
    induction text.toList with
    | nil => rfl
    | cons _ _ ih => simp only [flatMap_cons, map_append, sum_append, map_cons, sum_cons, ih]
  unfold stringSize jsonString
  simp only [cons_append, map_cons, map_append, sum_cons, sum_append, sizes]
  rw [map_asciiLower (toLower_invariant (fun c => ((jsonChar c).map Char.utf8Size).sum)
    (by decide))]

/-- Only the Kelvin sign and the long s fold onto an ASCII letter from outside. -/
structure Folding where
  fold : Char → Char
  lower : ∀ c, fold c.toLower = fold c
  orbit : ∀ c d, d.toNat < 128 → fold c = fold d →
    c.toLower = d.toLower ∨ c.toNat = 0x212A ∧ d.toLower = 'k' ∨ c.toNat = 0x17F ∧ d.toLower = 's'

namespace Folding
variable (F : Folding)

def equal (a b : String) : Bool := a.toList.map F.fold == b.toList.map F.fold

@[simp] theorem equal_asciiLower (a b : String) : F.equal (asciiLower a) b = F.equal a b := by
  rw [equal, map_asciiLower F.lower, equal]

theorem equal_lower_right (a b : String) : F.equal a (asciiLower b) = F.equal a b := by
  rw [equal, map_asciiLower F.lower b, equal]

theorem equal_self (a : String) : F.equal a a = true := by simp [equal]

theorem asciiLower_of_equal {name target : String}
    (letters : ∀ d ∈ target.toList, d.toNat < 128 ∧ d.toLower = d ∧ d ≠ 'k' ∧ d ≠ 's')
    (same : F.equal name target = true) : asciiLower name = target := by
  have pointwise : ∀ {l m : List Char}, l.map F.fold = m.map F.fold →
      (∀ d ∈ m, d.toNat < 128 ∧ d.toLower = d ∧ d ≠ 'k' ∧ d ≠ 's') → l.map Char.toLower = m := by
    intro l m
    induction m generalizing l with
    | nil =>
      intro folded _
      rw [map_eq_nil_iff.mp folded]
      rfl
    | cons d _ ih =>
      intro folded plain
      obtain ⟨c, _, rfl, head, tail⟩ := map_eq_cons_iff.mp folded
      obtain ⟨ascii, lowered, notK, notS⟩ := plain d (.head _)
      have here : c.toLower = d := by
        rcases F.orbit c d ascii head with same | ⟨_, isK⟩ | ⟨_, isS⟩
        · exact same.trans lowered
        · exact absurd (lowered.symm.trans isK) notK
        · exact absurd (lowered.symm.trans isS) notS
      rw [map_cons, here, ih tail fun e member => plain e (mem_cons_of_mem d member)]
  rw [asciiLower, pointwise (by simpa [equal] using same) letters, String.ofList_toList]

def letters : Folding where
  fold c := if c.toNat = 0x212A then 'k' else if c.toNat = 0x17F then 's' else c.toLower
  lower c := toLower_invariant (fun c => if c.toNat = 0x212A then 'k' else if c.toNat = 0x17F then
    's' else c.toLower)
    (by decide) c
  orbit c d ascii same := by
    have notK : d.toNat ≠ 0x212A := by omega
    have notS : d.toNat ≠ 0x17F := by omega
    rw [if_neg notK, if_neg notS] at same
    by_cases isK : c.toNat = 0x212A
    · rw [if_pos isK] at same
      exact .inr (.inl ⟨isK, same.symm⟩)
    · rw [if_neg isK] at same
      by_cases isS : c.toNat = 0x17F
      · rw [if_pos isS] at same
        exact .inr (.inr ⟨isS, same.symm⟩)
      · rw [if_neg isS] at same
        exact .inl same

end Folding

end Hikyo.Lib
