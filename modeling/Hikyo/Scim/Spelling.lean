import Hikyo.Scim.Decode
import Mathlib.Data.List.Induction
import Mathlib.Data.String.Basic

/-!
# Spellings of one document

Attribute names are compared without regard to case, and `readAlike_iff` says for which user
documents that differ only in the case of their names this is what the server does.  Every check but
one is blind to case (`refusal_decodeUser_congr`); the exception is the activity flag, which
creation looks up under its own spelling and a patch does not (`PlainFlag`, `FlagsAlike`).  The
other condition is about names outside ASCII that fold onto `userName`: the one that is last in the
text is read, and its place depends on how the others are spelled (`LastAlike`). -/

namespace Hikyo.Scim

open Hikyo.Lib List Function

variable {F : Folding} {d d' : Members} {m : String × Json}

def lowerNames (members : Members) : Members :=
  members.map fun m => (asciiLower m.1, m.2.mapNames asciiLower)

/-- The documents differ only in the case of their attribute names, at any depth. -/
def CaseVariant (d d' : Members) : Prop := lowerNames d = lowerNames d'

section Refusal
variable {α β : Type} {kind : Nat × Option ScimType}

def refusal : Except Error α → Option (Nat × Option ScimType)
  | .ok _ => none
  | .error e => some (e.status, e.scimType)

theorem refusal_eq_none {x : Except Error α} : refusal x = none ↔ ∃ a, x = .ok a := by
  cases x <;> simp [refusal]

/-- A check that refuses in one way only, exactly under a condition. -/
def RefusesAs (kind : Nat × Option ScimType) (condition : Bool) (x : Except Error α) : Prop :=
  refusal x = if condition then some kind else none

theorem RefusesAs.ok_iff {condition : Bool} {x : Except Error Unit}
    (refuses : RefusesAs kind condition x) : x = .ok () ↔ condition = false := by
  have shape : (∃ a, x = .ok a) ↔ condition = false := by
    rw [← refusal_eq_none, refuses]
    cases condition <;> simp
  rw [← shape]
  exact ⟨fun ok => ⟨(), ok⟩, fun ⟨(), ok⟩ => ok⟩

theorem RefusesAs.bind {first second : Bool} {x : Except Error α}
    {f : α → Except Error β} (here : RefusesAs kind first x)
    (there : ∀ a, x = .ok a → RefusesAs kind second (f a)) :
    RefusesAs kind (first || second) (x >>= f) := by
  cases x with
  | error =>
    cases first with
    | false => cases here
    | true => exact here
  | ok a =>
    cases first with
    | false => exact there a rfl
    | true => cases here

theorem RefusesAs.forM {items : List α} {condition : α → Bool}
    {check : α → Except Error Unit}
    (each : ∀ item ∈ items, RefusesAs kind (condition item) (check item)) :
    RefusesAs kind (items.any condition) (items.forM check) := by
  induction items with
  | nil => rfl
  | cons item _ ih =>
    rw [any_cons]
    exact (each item (.head _)).bind fun _ _ =>
      ih fun later mem => each later (mem_cons_of_mem item mem)

theorem RefusesAs.require {condition : Prop} [Decidable condition] {e : Error} :
    RefusesAs (e.status, e.scimType) (decide (¬ condition)) (Hikyo.Lib.require condition e) := by
  unfold Hikyo.Lib.require RefusesAs
  by_cases met : condition <;> simp [met, refusal]

end Refusal

def namesTwice : Nat → Json → Bool
  | left + 1, .object members =>
    decide (¬ (members.map fun m => asciiLower m.1).Nodup) ||
      members.any fun m => namesTwice left m.2
  | left + 1, .array items => items.any (namesTwice left)
  | _, _ => false

def overBound : Nat → Json → Bool
  | 0, _ => true
  | _ + 1, .string text => decide (¬ Json.byteLength text ≤ stringBound)
  | left + 1, .object members =>
    members.any fun m => decide (¬ Json.byteLength m.1 ≤ stringBound) || overBound left m.2
  | left + 1, .array items => items.any (overBound left)
  | _ + 1, _ => false

theorem checkSeen_refuses (seen : List String) (name : String) :
    RefusesAs (400, some .invalidSyntax) (decide (asciiLower name ∈ seen.map asciiLower))
      (checkSeen seen name) := by
  unfold checkSeen
  cases found : seen.find? fun first => asciiLower first == asciiLower name with
  | none =>
    have absent : asciiLower name ∉ seen.map asciiLower := by
      rw [mem_map]
      rintro ⟨first, mem, same⟩
      simpa [same] using find?_eq_none.mp found first mem
    simp [RefusesAs, refusal, absent]
  | some first =>
    have present : asciiLower name ∈ seen.map asciiLower :=
      mem_map.mpr ⟨first, mem_of_find?_eq_some found, by simpa using find?_some found⟩
    simp [RefusesAs, refusal, present, bad]

theorem duplicateWalk_refuses {twice : String × Json → Bool} {child : Json → Except Error Unit}
    {members : Members}
    (each : ∀ m ∈ members, RefusesAs (400, some .invalidSyntax) (twice m) (child m.2))
    (seen : List String) (distinct : (seen.map asciiLower).Nodup) :
    RefusesAs (400, some .invalidSyntax)
      (decide (¬ ((seen ++ members.map (·.1)).map asciiLower).Nodup) || members.any twice)
      (members.foldlM (fun (seen : List String) mem => do
        checkSeen seen mem.1
        child mem.2
        pure (seen ++ [mem.1])) seen) := by
  induction members generalizing seen with
  | nil => simp [RefusesAs, refusal, distinct, pure, Except.pure]
  | cons m rest ih =>
    rw [foldlM_cons]
    have here : RefusesAs (400, some .invalidSyntax)
        (decide (asciiLower m.1 ∈ seen.map asciiLower) || (twice m || false))
        (do
          checkSeen seen m.1
          child m.2
          pure (seen ++ [m.1]) : Except Error (List String)) :=
      (checkSeen_refuses seen m.1).bind fun _ _ => (each m (.head _)).bind fun _ _ => rfl
    have conditions : (decide (¬ ((seen ++ (m :: rest).map (·.1)).map asciiLower).Nodup) ||
        (m :: rest).any twice) =
        (decide (asciiLower m.1 ∈ seen.map asciiLower) || (twice m || false) ||
          (decide (¬ ((seen ++ [m.1] ++ rest.map (·.1)).map asciiLower).Nodup) ||
            rest.any twice)) := by
      by_cases again : asciiLower m.1 ∈ seen.map asciiLower
      · have repeated : ¬ ((seen ++ (m :: rest).map (·.1)).map asciiLower).Nodup := by
          intro nodup
          rw [map_append, nodup_append] at nodup
          exact nodup.2.2 _ again _ (by simp) rfl
        rw [decide_eq_true repeated, decide_eq_true again]
        rfl
      rw [decide_eq_false again, append_assoc, singleton_append, map_cons, any_cons]
      simp only [Bool.false_or, Bool.or_false]
      rw [Bool.or_left_comm]
    rw [conditions]
    refine here.bind fun next reached => ?_
    obtain ⟨_, passed, reached⟩ := bind_eq_ok.mp reached
    obtain ⟨_, _, shape⟩ := bind_eq_ok.mp reached
    cases shape
    have fresh : asciiLower m.1 ∉ seen.map asciiLower := by
      simpa using (checkSeen_refuses seen m.1).ok_iff.mp passed
    refine ih (fun later mem => each later (mem_cons_of_mem m mem)) (seen ++ [m.1]) ?_
    rw [map_append, nodup_append]
    refine ⟨distinct, by simp, ?_⟩
    rintro a mem b single rfl
    simp only [map_cons, map_nil, mem_singleton] at single
    exact fresh (single ▸ mem)

theorem rejectDuplicateKeys_refuses (left : Nat) (value : Json) :
    RefusesAs (400, some .invalidSyntax) (namesTwice left value)
      (rejectDuplicateKeys left value) := by
  induction left generalizing value with
  | zero => rfl
  | succ left ih =>
    cases value with
    | object members =>
      have walk := duplicateWalk_refuses (fun m (_ : m ∈ members) => ih m.2) [] (by simp)
      rw [nil_append, map_map] at walk
      have whole : RefusesAs (400, some .invalidSyntax) (namesTwice (left + 1) (.object members) ||
          false)
          (rejectDuplicateKeys (left + 1) (.object members)) := walk.bind fun _ _ => rfl
      rwa [Bool.or_false] at whole
    | array => exact RefusesAs.forM fun item _ => ih item
    | null | bool | number | string => rfl

theorem boundStrings_refuses (left : Nat) (path : String) (value : Json) :
    RefusesAs (400, some .invalidValue) (overBound left value) (boundStrings left path value) := by
  induction left generalizing path value with
  | zero => rfl
  | succ _ ih =>
    cases value with
    | object => exact RefusesAs.forM fun m _ => RefusesAs.require.bind fun _ _ => ih _ m.2
    | array => exact RefusesAs.forM fun item _ => ih path item
    | string => exact RefusesAs.require
    | null | bool | number => rfl

section Invariance

theorem namesTwice_lowered (left : Nat) (value : Json) :
    namesTwice left (value.mapNames asciiLower) = namesTwice left value := by
  induction left generalizing value with
  | zero => rfl
  | succ _ ih =>
    cases value with
    | object =>
      simp only [Json.mapNames, Json.mapMembers_eq, namesTwice, map_map, any_map, comp_def,
        asciiLower_asciiLower, ih]
    | array =>
      simp only [Json.mapNames, Json.mapItems_eq, namesTwice, any_map, comp_def, ih]
    | null | bool | number | string => rfl

theorem overBound_lowered (left : Nat) (value : Json) :
    overBound left (value.mapNames asciiLower) = overBound left value := by
  induction left generalizing value with
  | zero => rfl
  | succ _ ih =>
    cases value with
    | object =>
      simp only [Json.mapNames, Json.mapMembers_eq, overBound, any_map, comp_def,
        Json.byteLength_asciiLower, ih]
    | array =>
      simp only [Json.mapNames, Json.mapItems_eq, overBound, any_map, comp_def, ih]
    | null | bool | number | string => rfl

theorem normalizeActive_lowered (value : Json) :
    normalizeActive (value.mapNames asciiLower) = normalizeActive value := by
  cases value <;> rfl

variable (F : Folding)

theorem isText_lowered (value : Json) : isText (value.mapNames asciiLower) = isText value := by
  cases value <;> rfl

theorem isListOf_lowered {item : Json → Bool} (same : ∀ v, item (v.mapNames asciiLower) = item v)
    (value : Json) :
    isListOf item (value.mapNames asciiLower) = isListOf item value := by
  cases value with
  | array => simp only [Json.mapNames, Json.mapItems_eq, isListOf, all_map, comp_def, same]
  | null | bool | number | string | object => rfl

theorem hasTextFields_lowered (fields : List String) (value : Json) :
    hasTextFields F fields (value.mapNames asciiLower) = hasTextFields F fields value := by
  cases value with
  | object =>
    simp only [Json.mapNames, Json.mapMembers_eq, hasTextFields, all_map, comp_def, isText_lowered]
    have names : ∀ name, F.equal (asciiLower name) = F.equal name := fun name =>
      funext fun target => F.equal_asciiLower name target
    simp only [names]
  | null | bool | number | string | array => rfl

theorem wellTyped_lowered (m : String × Json) :
    wellTyped F (asciiLower m.1, m.2.mapNames asciiLower) = wellTyped F m := by
  simp only [wellTyped, Folding.equal_asciiLower, isText_lowered, isListOf_lowered isText_lowered,
    isListOf_lowered (hasTextFields_lowered F _), hasTextFields_lowered]

theorem size_lowered (d : Members) : (Json.object (lowerNames d)).size = (Json.object d).size := by
  rw [lowerNames, ← Json.mapMembers_eq]
  exact Json.size_mapNames Json.stringSize_asciiLower (.object d)

structure Admitted (d : Members) : Prop where
  small : (Json.object d).size ≤ bodyBound
  distinct : namesTwice (nestingBound + 1) (.object d) = false
  noPassword : d.any (fun m => F.equal m.1 "password") = false
  typed : d.all (wellTyped F) = true
  bounded : overBound (nestingBound + 1) (.object d) = false

theorem object_lowered (d : Members) :
    Json.object (lowerNames d) = (Json.object d).mapNames asciiLower := by
  rw [Json.mapNames, Json.mapMembers_eq, lowerNames]

theorem any_equal_lowered (d : Members) (field : String) :
    (lowerNames d).any (fun m => F.equal m.1 field) = d.any fun m => F.equal m.1 field := by
  simp only [lowerNames, any_map, comp_def, Folding.equal_asciiLower]

theorem all_wellTyped_lowered (d : Members) :
    (lowerNames d).all (wellTyped F) = d.all (wellTyped F) := by
  simp only [lowerNames, all_map, comp_def, wellTyped_lowered]

theorem scimAttribute_lowered (d : Members) (field : String) :
    scimAttribute F (lowerNames d) field = (scimAttribute F d field).map
      (·.mapNames asciiLower) := by
  simp only [scimAttribute, lowerNames, find?_map, Option.map_map, comp_def,
    Folding.equal_asciiLower]

theorem scimDisplayAttributes_lowered (d : Members) :
    scimDisplayAttributes F (lowerNames d) = lowerNames (scimDisplayAttributes F d) := by
  have names : ∀ name, F.equal (asciiLower name) = F.equal name := fun name =>
    funext fun target => F.equal_asciiLower name target
  simp only [scimDisplayAttributes, isInterpretedSCIMAttribute, lowerNames, filter_map,
    comp_def, names]

end Invariance

section Fields
variable {field : String}

/-- The field is spelled with letters that nothing outside ASCII folds onto. -/
def Plain (field : String) : Prop :=
  ∀ c ∈ (asciiLower field).toList, c.toNat < 128 ∧ c.toLower = c ∧ c ≠ 'k' ∧ c ≠ 's'

theorem names_nodup {left : Nat} (distinct : namesTwice (left + 1) (.object d) = false) :
    (d.map fun m => asciiLower m.1).Nodup := by
  simp only [namesTwice, Bool.or_eq_false_iff, decide_eq_false_iff_not, not_not] at distinct
  exact distinct.1

theorem asciiLower_of_names (plain : Plain field) {name : String}
    (names : F.equal name field = true) :
    asciiLower name = asciiLower field :=
  F.asciiLower_of_equal plain (by rw [F.equal_lower_right]; exact names)

theorem named_unique (distinct : namesTwice (nestingBound + 1) (.object d) = false)
    (plain : Plain field) {m' : String × Json} (mem : m ∈ d) (mem' : m' ∈ d)
    (names : F.equal m.1 field = true) (names' : F.equal m'.1 field = true) : m = m' :=
  inj_on_of_nodup_map (names_nodup distinct) mem mem'
    ((asciiLower_of_names plain names).trans (asciiLower_of_names plain names').symm)

theorem scimAttribute_eq_some (distinct : namesTwice (nestingBound + 1) (.object d) = false)
    (plain : Plain field) (mem : m ∈ d) (names : F.equal m.1 field = true) :
    scimAttribute F d field = some m.2 := by
  unfold scimAttribute
  cases found : d.find? fun m => F.equal m.1 field with
  | none => exact absurd names (find?_eq_none.mp found m mem)
  | some =>
    have names' := find?_some found
    rw [named_unique distinct plain (mem_of_find?_eq_some found) mem names' names]
    rfl

theorem scimAttribute_eq_none (absent : ∀ m ∈ d, F.equal m.1 field = false) :
    scimAttribute F d field = none := by
  unfold scimAttribute
  rw [find?_eq_none.mpr fun m mem => by simp [absent m mem]]
  rfl

/-- The member is the last in the text to give the field a text.  It is the one that is read. -/
structure LastNamed (F : Folding) (field : String) (d : Members) (m : String × Json) : Prop where
  mem : m ∈ d
  names : F.equal m.1 field = true
  text : ∃ text, m.2 = .string text
  last : ∀ n ∈ d, F.equal n.1 field = true → (∃ text, n.2 = .string text) → n.1 ≤ m.1

/-- The last names of the two documents are spellings of one attribute, or give the same text. -/
def LastAlike (F : Folding) (field : String) (d d' : Members) : Prop :=
  ∀ m m', LastNamed F field d m → LastNamed F field d' m' →
    asciiLower m.1 = asciiLower m'.1 ∨ m.2 = m'.2

theorem textField_concat (d : Members) (m : String × Json) :
    textField F field (d ++ [m]) =
      match m.2 with
      | .string text => if F.equal m.1 field then text else textField F field d
      | _ => textField F field d := foldl_append

theorem textField_cases (F : Folding) (field : String) (sorted : d.Pairwise fun a b => a.1 ≤ b.1) :
    (∀ m ∈ d, F.equal m.1 field = true → ∀ text, m.2 ≠ .string text) ∧ textField F field d = "" ∨
      ∃ m, LastNamed F field d m ∧ m.2 = .string (textField F field d) := by
  induction d using List.reverseRecOn with
  | nil => exact .inl ⟨nofun, rfl⟩
  | append_singleton d m ih =>
    obtain ⟨older, -, before⟩ := pairwise_append.mp sorted
    rw [textField_concat]
    by_cases gives : F.equal m.1 field = true ∧ ∃ text, m.2 = .string text
    · obtain ⟨names, text, isText⟩ := gives
      refine .inr ⟨m, ⟨by simp, names, ⟨text, isText⟩, fun n mem _ _ => ?_⟩,
        by simp [isText, names]⟩
      rcases mem_append.mp mem with old | new
      · exact before n old m (.head _)
      · rw [mem_singleton.mp new]
    have kept : (match m.2 with
        | .string text => if F.equal m.1 field then text else textField F field d
        | _ => textField F field d) = textField F field d := by
      split
      · rename_i text isText
        exact if_neg fun names => gives ⟨names, text, isText⟩
      · rfl
    rw [kept]
    rcases ih older with ⟨none, isEmpty⟩ | ⟨found, last, isText⟩
    · refine .inl ⟨fun n mem names text isText => ?_, isEmpty⟩
      rcases mem_append.mp mem with old | new
      · exact none n old names text isText
      · cases mem_singleton.mp new
        exact gives ⟨names, text, isText⟩
    · refine .inr ⟨found, ⟨mem_append_left _ last.mem, last.names, last.text, ?_⟩, isText⟩
      intro n mem names text
      rcases mem_append.mp mem with old | new
      · exact last.last n old names text
      · cases mem_singleton.mp new
        exact absurd ⟨names, text⟩ gives

theorem mem_inTextOrder : m ∈ inTextOrder d ↔ m ∈ d := mem_insertionSort _

theorem inTextOrder_sorted (d : Members) : (inTextOrder d).Pairwise fun a b => a.1 ≤ b.1 :=
  have : Std.Total fun a b : String × Json => a.1 ≤ b.1 := ⟨fun a b => le_total a.1 b.1⟩
  have : IsTrans (String × Json) fun a b => a.1 ≤ b.1 := ⟨fun _ _ _ => le_trans⟩
  pairwise_insertionSort _ d

theorem lastNamed_inTextOrder : LastNamed F field (inTextOrder d) m ↔ LastNamed F field d m := by
  constructor
  · exact fun last => ⟨mem_inTextOrder.mp last.mem, last.names, last.text,
      fun n mem => last.last n (mem_inTextOrder.mpr mem)⟩
  · exact fun last => ⟨mem_inTextOrder.mpr last.mem, last.names, last.text,
      fun n mem => last.last n (mem_inTextOrder.mp mem)⟩

theorem textField_of_last (distinct : namesTwice (nestingBound + 1) (.object d) = false)
    (last : LastNamed F field d m) : m.2 = .string (textField F field (inTextOrder d)) := by
  rcases textField_cases F field (inTextOrder_sorted d) with ⟨none, -⟩ | ⟨m', last', isText⟩
  · obtain ⟨text, isText⟩ := last.text
    exact absurd isText (none m (mem_inTextOrder.mpr last.mem) last.names text)
  · have last' := lastNamed_inTextOrder.mp last'
    have sameName : m.1 = m'.1 :=
      le_antisymm (last'.last m last.mem last.names last.text)
        (last.last m' last'.mem last'.names last'.text)
    rw [inj_on_of_nodup_map (names_nodup distinct) last.mem last'.mem
      (congrArg asciiLower sameName)]
    exact isText

/-- A member of the one document stands in the other, with its name in some spelling. -/
theorem respelled (variant : CaseVariant d d') (mem : m ∈ d) :
    ∃ m' ∈ d', asciiLower m'.1 = asciiLower m.1 ∧
      m'.2.mapNames asciiLower = m.2.mapNames asciiLower := by
  have inBoth : (asciiLower m.1, m.2.mapNames asciiLower) ∈ lowerNames d' := by
    rw [← show lowerNames d = lowerNames d' from variant]
    exact mem_map_of_mem mem
  obtain ⟨m', mem', same⟩ := mem_map.mp inBoth
  exact ⟨m', mem', congrArg Prod.fst same, congrArg Prod.snd same⟩

theorem eq_string_of_mapNames {value : Json} {text : String}
    (same : value.mapNames asciiLower = .string text) : value = .string text := by
  cases value <;> simp_all [Json.mapNames]

theorem exists_lastNamed (mem : m ∈ d) (names : F.equal m.1 field = true)
    (text : ∃ text, m.2 = .string text) : ∃ last, LastNamed F field d last := by
  rcases textField_cases F field (inTextOrder_sorted d) with ⟨none, -⟩ | ⟨last, isLast, -⟩
  · obtain ⟨text, isText⟩ := text
    exact absurd isText (none m (mem_inTextOrder.mpr mem) names text)
  · exact ⟨last, lastNamed_inTextOrder.mp isLast⟩

theorem textField_of_none (none : ∀ m, ¬ LastNamed F field d m) :
    textField F field (inTextOrder d) = "" := by
  rcases textField_cases F field (inTextOrder_sorted d) with ⟨-, isEmpty⟩ | ⟨last, isLast, -⟩
  · exact isEmpty
  · exact absurd (lastNamed_inTextOrder.mp isLast) (none last)

theorem LastNamed.of_variant (variant : CaseVariant d d') (last : LastNamed F field d m) :
    ∃ m', LastNamed F field d' m' := by
  obtain ⟨m', mem', lowered, values⟩ := respelled variant last.mem
  obtain ⟨text, isText⟩ := last.text
  rw [isText] at values
  refine exists_lastNamed mem' ?_ ⟨text, eq_string_of_mapNames values⟩
  rw [← F.equal_asciiLower, lowered, F.equal_asciiLower]
  exact last.names

theorem textField_eq_iff (variant : CaseVariant d d')
    (distinct : namesTwice (nestingBound + 1) (.object d) = false)
    (distinct' : namesTwice (nestingBound + 1) (.object d') = false) :
    textField F field (inTextOrder d) = textField F field (inTextOrder d') ↔
      LastAlike F field d d' := by
  constructor
  · intro same m m' last last'
    rw [textField_of_last distinct last, textField_of_last distinct' last', same]
    exact .inr rfl
  intro alike
  by_cases present : ∃ m, LastNamed F field d m
  · obtain ⟨m, last⟩ := present
    obtain ⟨m', last'⟩ := last.of_variant variant
    have sameText : m.2 = m'.2 := by
      rcases alike m m' last last' with spellings | same
      · -- one attribute: the two are the same member of their documents
        obtain ⟨n, mem, lowered, values⟩ := respelled variant last.mem
        cases inj_on_of_nodup_map (names_nodup distinct') mem last'.mem (lowered.trans spellings)
        obtain ⟨text, isText⟩ := last.text
        rw [isText] at values ⊢
        exact (eq_string_of_mapNames values).symm
      · exact same
    rw [textField_of_last distinct last, textField_of_last distinct' last'] at sameText
    exact Json.string.inj sameText
  · have absent : ∀ m', ¬ LastNamed F field d' m' := fun m' last' =>
      present (last'.of_variant variant.symm)
    rw [textField_of_none fun m last => present ⟨m, last⟩, textField_of_none absent]

theorem lastAlike_of_plain (plain : Plain field) : LastAlike F field d d' := fun _ _ last last' =>
  .inl ((asciiLower_of_names plain last.names).trans (asciiLower_of_names plain last'.names).symm)

end Fields

section Decoder
theorem plain_of_all {field : String} (plain : ((asciiLower field).toList.all fun c =>
    decide (c.toNat < 128 ∧ c.toLower = c ∧ c ≠ 'k' ∧ c ≠ 's')) = true) : Plain field :=
  fun c mem => of_decide_eq_true (all_eq_true.mp plain c mem)

theorem activePlain : Plain "active" := plain_of_all (by decide)

theorem externalIdPlain : Plain "externalId" := plain_of_all (by decide)

theorem normalizeActive_refuses (value : Json) :
    RefusesAs (400, some .invalidValue) (refusal (normalizeActive value)).isSome
      (normalizeActive value) := by
  unfold RefusesAs normalizeActive
  split
  · rfl
  · split
    · rfl
    · split <;> rfl
  · rfl

theorem decodeActive_error {e : Error} (refused : decodeActive d = .error e) :
    e = bad .invalidValue "The active attribute must be a boolean." [] := by
  unfold decodeActive at refused
  split at refused
  · cases refused
  rename_i m _
  cases read : normalizeActive m.2 with
  | ok =>
    rw [read] at refused
    cases refused
  | error =>
    rw [read] at refused
    cases refused
    unfold normalizeActive at read
    split at read
    · cases read
    · split_ifs at read
      cases read
      rfl
    · cases read
      rfl

theorem decodeActive_refuses (d : Members) :
    RefusesAs (400, some .invalidValue) (refusal (decodeActive d)).isSome (decodeActive d) := by
  unfold decodeActive
  split
  · rfl
  rename_i m _
  have refuses := normalizeActive_refuses m.2
  cases run : normalizeActive m.2 with
  | ok => rfl
  | error => rwa [run] at refuses

theorem decodeUser_eq_ok {user : User} :
    decodeUser F d = .ok user ↔ Admitted F d ∧ ∃ active, decodeActive d = .ok active ∧
      user = ⟨textField F "userName" (inTextOrder d), textField F "externalId" (inTextOrder d),
        active, d⟩ := by
  unfold decodeUser decodeObject
  simp only [bind_assoc, bind_eq_ok, require_eq_ok]
  constructor
  · rintro ⟨_, small, _, distinct, _, noPassword, _, typed, active, flag, _, bounded, shape⟩
    cases shape
    exact ⟨⟨small, (rejectDuplicateKeys_refuses _ _).ok_iff.mp distinct, noPassword, typed,
      (boundStrings_refuses _ _ _).ok_iff.mp bounded⟩, active, flag, rfl⟩
  rintro ⟨admitted, active, flag, rfl⟩
  exact ⟨(), admitted.small, (), (rejectDuplicateKeys_refuses _ _).ok_iff.mpr admitted.distinct,
    (), admitted.noPassword, (), admitted.typed, active, flag,
    (), (boundStrings_refuses _ _ _).ok_iff.mpr admitted.bounded, rfl⟩

theorem refusal_bind_congr {α β γ δ : Type} {x : Except Error α} {y : Except Error β}
    {f : α → Except Error γ} {g : β → Except Error δ} (same : refusal x = refusal y)
    (later : ∀ a b, x = .ok a → y = .ok b → refusal (f a) = refusal (g b)) :
    refusal (x >>= f) = refusal (y >>= g) := by
  cases x with
  | error =>
    cases y with
    | error => exact same
    | ok => cases same
  | ok a =>
    cases y with
    | error => cases same
    | ok b => exact later a b rfl rfl

theorem refusal_require_congr {p q : Prop} [Decidable p] [Decidable q] (e : Error) (same : p ↔ q) :
    refusal (require p e) = refusal (require q e) := by
  have first : RefusesAs (e.status, e.scimType) (decide (¬ p)) (require p e) := RefusesAs.require
  have second : RefusesAs (e.status, e.scimType) (decide (¬ q)) (require q e) := RefusesAs.require
  rw [first, second]
  simp only [same]

section Variant
variable (variant : CaseVariant d d')
include variant

theorem size_congr : (Json.object d).size = (Json.object d').size := by
  rw [← size_lowered d, variant, size_lowered]

theorem namesTwice_congr : namesTwice (nestingBound + 1) (.object d) = namesTwice (nestingBound + 1)
    (.object d') := by
  rw [← namesTwice_lowered, ← object_lowered, variant, object_lowered, namesTwice_lowered]

theorem overBound_congr : overBound (nestingBound + 1) (.object d) = overBound (nestingBound + 1)
    (.object d') := by
  rw [← overBound_lowered, ← object_lowered, variant, object_lowered, overBound_lowered]

theorem any_equal_congr (field : String) :
    (d.any fun m => F.equal m.1 field) = d'.any fun m => F.equal m.1 field := by
  rw [← any_equal_lowered, variant, any_equal_lowered]

theorem all_wellTyped_congr : d.all (wellTyped F) = d'.all (wellTyped F) := by
  rw [← all_wellTyped_lowered, variant, all_wellTyped_lowered]

theorem Admitted.of_variant (admitted : Admitted F d) : Admitted F d' where
  small := size_congr variant ▸ admitted.small
  distinct := namesTwice_congr variant ▸ admitted.distinct
  noPassword := any_equal_congr variant "password" ▸ admitted.noPassword
  typed := all_wellTyped_congr variant ▸ admitted.typed
  bounded := overBound_congr variant ▸ admitted.bounded

theorem refusal_decodeUser_congr
    (flags : Admitted F d → (refusal (decodeActive d)).isSome =
      (refusal (decodeActive d')).isSome) :
    refusal (decodeUser F d) = refusal (decodeUser F d') := by
  refine refusal_bind_congr ?_ fun _ _ passed _ => ?_
  · refine refusal_bind_congr (refusal_require_congr _ (by rw [size_congr variant])) fun _ _ _ _ =>
      ?_
    rw [rejectDuplicateKeys_refuses, rejectDuplicateKeys_refuses, namesTwice_congr variant]
  obtain ⟨_, small, passed⟩ := bind_eq_ok.mp passed
  have distinct := (rejectDuplicateKeys_refuses _ _).ok_iff.mp passed
  refine refusal_bind_congr (refusal_require_congr _ (by rw [any_equal_congr variant]))
    fun _ _ noPassword _ => ?_
  refine refusal_bind_congr (refusal_require_congr _ (by rw [all_wellTyped_congr variant]))
    fun _ _ typed _ => ?_
  -- What is left refuses in one way, so only whether it refuses is compared.
  have rest : ∀ e : Members, RefusesAs (400, some .invalidValue)
      ((refusal (decodeActive e)).isSome || (overBound (nestingBound + 1) (.object e) || false))
      (do
        let active ← decodeActive e
        boundStrings (nestingBound + 1) "" (.object e)
        pure (⟨textField F "userName" (inTextOrder e), textField F "externalId" (inTextOrder e),
          active, e⟩ : User)) := fun e =>
    (decodeActive_refuses e).bind fun _ _ => (boundStrings_refuses _ _ _).bind fun _ _ => rfl
  have conditions : ((refusal (decodeActive d)).isSome ||
      (overBound (nestingBound + 1) (.object d) || false)) =
      ((refusal (decodeActive d')).isSome ||
        (overBound (nestingBound + 1) (.object d') || false)) := by
    rw [← overBound_congr variant]
    cases bounded : overBound (nestingBound + 1) (.object d) with
    | true => simp
    | false =>
      rw [flags ⟨(require_eq_ok _ _ _).mp small, distinct, (require_eq_ok _ _ _).mp noPassword,
        (require_eq_ok _ _ _).mp typed, bounded⟩]
  exact (rest d).trans (conditions ▸ (rest d').symm)

end Variant

end Decoder

section Flag
theorem flag_cases (distinct : namesTwice (nestingBound + 1) (.object d) = false) :
    (∀ m ∈ d, F.equal m.1 "active" = false) ∧ decodeActive d = .ok none ∨
      ∃ m ∈ d, F.equal m.1 "active" = true ∧
        decodeActive d = if m.1 = "active" then some <$> normalizeActive m.2 else .ok none := by
  by_cases present : ∃ m ∈ d, F.equal m.1 "active" = true
  · obtain ⟨m, mem, names⟩ := present
    refine .inr ⟨m, mem, names, ?_⟩
    unfold decodeActive
    cases found : d.find? (·.1 == "active") with
    | none =>
      have other : m.1 ≠ "active" := fun same => by
        simpa [same] using find?_eq_none.mp found m mem
      rw [if_neg other]
    | some m' =>
      have spelled : m'.1 = "active" := by simpa using find?_some found
      have names' : F.equal m'.1 "active" = true := spelled ▸ F.equal_self _
      cases named_unique distinct activePlain (mem_of_find?_eq_some found) mem names' names
      rw [if_pos spelled]
  have absent : ∀ m ∈ d, F.equal m.1 "active" = false := fun m mem =>
    Bool.eq_false_iff.mpr fun names => present ⟨m, mem, names⟩
  refine .inl ⟨absent, ?_⟩
  unfold decodeActive
  rw [find?_eq_none.mpr]
  intro m mem spelled
  have same : m.1 = "active" := by simpa using spelled
  exact absurd (absent m mem) (by rw [same, F.equal_self]; simp)

theorem userObjectCommands_flag (user : User) :
    ((∃ commands, userObjectCommands F user = .ok commands) ↔
      ∀ v, scimAttribute F user.extra "active" = some v → ∃ flag, normalizeActive v = .ok flag) ∧
    ∀ commands, userObjectCommands F user = .ok commands → ∀ flag, .setActive flag ∈ commands ↔
      ∃ v, scimAttribute F user.extra "active" = some v ∧ normalizeActive v = .ok flag := by
  have merge : ∀ flag, UserPatchCommand.setActive flag ∉ mergeCommand
      (scimDesiredDecodedUser F user) := by
    intro flag mem
    unfold mergeCommand at mem
    split at mem
    · cases mem
    · cases mem_singleton.mp mem
  have optional : ∀ (present : Bool) (command : UserPatchCommand) (flag : Bool), command ≠
      .setActive flag →
      UserPatchCommand.setActive flag ∉ if present then [command] else [] := by
    intro present _ flag other mem
    cases present with
    | false => cases mem
    | true => exact other (mem_singleton.mp mem).symm
  unfold userObjectCommands
  cases found : scimAttribute F user.extra "active" with
  | none =>
    refine ⟨by simp [pure, Except.pure, bind, Except.bind], ?_⟩
    intro commands run flag
    cases run
    simp [optional, merge]
  | some v =>
    cases reads : normalizeActive v with
    | error => simp [reads, bind, Except.bind, Functor.map, Except.map]
    | ok =>
      refine ⟨by simp [reads, bind, Except.bind, Functor.map, Except.map, pure, Except.pure], ?_⟩
      intro _ run _
      simp only [reads, bind, Except.bind, Functor.map, Except.map] at run
      cases run
      simp [optional, merge, reads]
      exact eq_comm

def flagOf (F : Folding) (d : Members) : Except Error Bool :=
  match scimAttribute F d "active" with
  | none => .ok true
  | some value => normalizeActive value

theorem flagOf_congr (variant : CaseVariant d d') : flagOf F d = flagOf F d' := by
  have lowered : ∀ e, flagOf F (lowerNames e) = flagOf F e := by
    intro e
    unfold flagOf
    rw [scimAttribute_lowered]
    cases scimAttribute F e "active" with
    | none => rfl
    | some value => exact normalizeActive_lowered value
  rw [← lowered d, variant, lowered]

theorem flagOf_absent (absent : ∀ m ∈ d, F.equal m.1 "active" = false) : flagOf F d = .ok true := by
  rw [flagOf, scimAttribute_eq_none absent]

section
variable (distinct : namesTwice (nestingBound + 1) (.object d) = false)
include distinct

theorem flagOf_named (mem : m ∈ d)
    (names : F.equal m.1 "active" = true) : flagOf F d = normalizeActive m.2 := by
  rw [flagOf, scimAttribute_eq_some distinct activePlain mem names]

/-- A flag that is spelled otherwise than `active` says what its absence says. -/
def PlainFlag (F : Folding) (d : Members) : Prop :=
  ∀ m ∈ d, F.equal m.1 "active" = true → m.1 = "active" ∨ normalizeActive m.2 = .ok true

/-- Creation can read the flag, where it looks for it. -/
def Readable (d : Members) : Prop :=
  ∀ m ∈ d, m.1 = "active" → ∃ flag, normalizeActive m.2 = .ok flag

/-- Creation finds the flag in both documents or in none, or it says what its absence says. -/
def FlagsAlike (F : Folding) (d d' : Members) : Prop :=
  ∀ m ∈ d, ∀ m' ∈ d', F.equal m.1 "active" = true → F.equal m'.1 "active" = true →
    (m.1 = "active" ↔ m'.1 = "active") ∨ normalizeActive m.2 = .ok true

theorem decodeActive_plain (plain : PlainFlag F d) :
    (·.getD true) <$> decodeActive d = flagOf F d := by
  rcases flag_cases (F := F) distinct with ⟨absent, reads⟩ | ⟨m, mem, names, reads⟩
  · rw [reads, flagOf_absent absent]
    rfl
  rw [reads, flagOf_named distinct mem names]
  by_cases spelled : m.1 = "active"
  · rw [if_pos spelled]
    cases normalizeActive m.2 <;> rfl
  · rw [if_neg spelled, (plain m mem names).resolve_left spelled]
    rfl

theorem decodeActive_isOk (plain : PlainFlag F d) :
    (∃ active, decodeActive d = .ok active) ↔ ∃ flag, flagOf F d = .ok flag := by
  rw [← decodeActive_plain distinct plain]
  cases decodeActive d <;> simp [Functor.map, Except.map]

theorem decodeActive_readable (F : Folding) :
    (∃ active, decodeActive d = .ok active) ↔ Readable d := by
  rcases flag_cases (F := F) distinct with ⟨absent, reads⟩ | ⟨m, mem, names, reads⟩
  · refine iff_of_true ⟨none, reads⟩ fun m mem spelled => ?_
    have other := absent m mem
    rw [spelled, F.equal_self] at other
    cases other
  rw [reads]
  by_cases spelled : m.1 = "active"
  · rw [if_pos spelled]
    constructor
    · rintro ⟨_, read⟩ m' mem' spelled'
      obtain ⟨flag, stated, -⟩ := map_eq_ok.mp read
      cases named_unique distinct activePlain mem' mem (spelled' ▸ F.equal_self _) names
      exact ⟨flag, stated⟩
    · intro readable
      obtain ⟨flag, stated⟩ := readable m mem spelled
      exact ⟨some flag, by rw [stated]; rfl⟩
  · rw [if_neg spelled]
    refine iff_of_true ⟨none, rfl⟩ fun m' mem' spelled' => ?_
    cases named_unique distinct activePlain mem' mem (spelled' ▸ F.equal_self _) names
    exact absurd spelled' spelled

theorem decodeActive_eq_iff (distinct' : namesTwice (nestingBound + 1) (.object d') = false)
    (variant : CaseVariant d d') :
    (·.getD true) <$> decodeActive d = (·.getD true) <$> decodeActive d' ↔ FlagsAlike F d d' := by
  rcases flag_cases (F := F) distinct with ⟨absent, reads⟩ | ⟨m, mem, names, reads⟩
  · rcases flag_cases (F := F) distinct' with ⟨-, reads'⟩ | ⟨m', mem', names', -⟩
    · rw [reads, reads']
      exact iff_of_true rfl fun m mem _ _ names => absurd names (by simp [absent m mem])
    · obtain ⟨m, mem, lowered, -⟩ := respelled variant.symm mem'
      have names : F.equal m.1 "active" = true := by
        rw [← F.equal_asciiLower, lowered, F.equal_asciiLower]
        exact names'
      exact absurd names (by simp [absent m mem])
  rcases flag_cases (F := F) distinct' with ⟨absent', -⟩ | ⟨m', mem', names', reads'⟩
  · obtain ⟨m', mem', lowered, -⟩ := respelled variant mem
    have names' : F.equal m'.1 "active" = true := by
      rw [← F.equal_asciiLower, lowered, F.equal_asciiLower]
      exact names
    exact absurd names' (by simp [absent' m' mem'])
  have values : normalizeActive m.2 = normalizeActive m'.2 := by
    rw [← flagOf_named distinct mem names, flagOf_congr variant, flagOf_named distinct' mem' names']
  have alike : FlagsAlike F d d' ↔
      (m.1 = "active" ↔ m'.1 = "active") ∨ normalizeActive m.2 = .ok true := by
    refine ⟨fun alike => alike m mem m' mem' names names',
      fun here n mem n' mem' names names' => ?_⟩
    cases named_unique distinct activePlain mem ‹m ∈ d› names ‹_›
    cases named_unique distinct' activePlain mem' ‹m' ∈ d'› names' ‹_›
    exact here
  rw [alike, reads, reads', ← values]
  have stated : ∀ read : Except Error Bool, (·.getD true) <$> (some <$> read) = read := by
    intro read
    cases read <;> rfl
  have unstated : (·.getD true) <$> (.ok none : Except Error (Option Bool)) = .ok true := rfl
  by_cases spelled : m.1 = "active" <;> by_cases spelled' : m'.1 = "active" <;>
    simp [spelled, spelled', stated, unstated, eq_comm]

end

end Flag

section Reading
def SameOutcome (first second : Except Error DesiredUser) : Prop :=
  refusal first = refusal second ∧ ∀ a b, first = .ok a → second = .ok b →
    a.userName = b.userName ∧ a.externalID = b.externalID ∧ a.active = b.active ∧
      CaseVariant a.attributes b.attributes

def PatchFits (verb : PatchVerb) (d : Members) : Prop :=
  (patchMessage verb (.object d)).size ≤ bodyBound

/-- A full-object patch that is within the bound reads a document if creation does, and no other
flag from it. -/
def PatchAgrees (F : Folding) (verb : PatchVerb) (d : Members) : Prop :=
  PatchFits verb d →
    ((∃ desired, scimDesiredUser F d = .ok desired) ↔
      ∃ commands, fullObjectPatch F verb d = .ok commands) ∧
    ∀ desired commands, scimDesiredUser F d = .ok desired →
      fullObjectPatch F verb d = .ok commands →
      ∀ flag, .setActive flag ∈ commands → flag = desired.active

/-- The two documents are read alike, by creation, by the duplicate check and by a patch. -/
structure ReadAlike (F : Folding) (verb : PatchVerb) (d d' : Members) : Prop where
  outcome : SameOutcome (scimDesiredUser F d) (scimDesiredUser F d')
  duplicates : rejectDuplicateKeys (nestingBound + 1) (.object d) = .ok () ↔
    rejectDuplicateKeys (nestingBound + 1) (.object d') = .ok ()
  patch : PatchAgrees F verb d
  patch' : PatchAgrees F verb d'

theorem size_patchMessage (verb : PatchVerb) {value value' : Json}
    (same : value.size = value'.size) :
    (patchMessage verb value).size = (patchMessage verb value').size := by
  simp [patchMessage, Json.size, Json.sizeMembers, Json.sizeItems, same]

theorem scimDesiredUser_eq_ok {desired : DesiredUser} :
    scimDesiredUser F d = .ok desired ↔ Admitted F d ∧ ∃ active, decodeActive d = .ok active ∧
      desired = ⟨textField F "userName" (inTextOrder d), textField F "externalId" (inTextOrder d),
        active.getD true, scimDisplayAttributes F d⟩ := by
  unfold scimDesiredUser
  rw [map_eq_ok]
  constructor
  · rintro ⟨_, decoded, rfl⟩
    obtain ⟨admitted, active, reads, rfl⟩ := decodeUser_eq_ok.mp decoded
    exact ⟨admitted, active, reads, rfl⟩
  · rintro ⟨admitted, active, reads, rfl⟩
    exact ⟨_, decodeUser_eq_ok.mpr ⟨admitted, active, reads, rfl⟩, rfl⟩

section Patch
variable {verb : PatchVerb}

theorem fullObjectPatch_eq_ok {commands : List UserPatchCommand} :
    fullObjectPatch F verb d = .ok commands ↔
      PatchFits verb d ∧ ∃ user, decodeUser F d = .ok user ∧ userObjectCommands F user =
        .ok commands := by
  unfold fullObjectPatch
  simp only [bind_eq_ok, require_eq_ok]
  constructor
  · rintro ⟨-, fits, rest⟩
    exact ⟨fits, rest⟩
  · rintro ⟨fits, rest⟩
    exact ⟨(), fits, rest⟩

theorem fullObjectPatch_isOk (fits : PatchFits verb d) :
    (∃ commands, fullObjectPatch F verb d = .ok commands) ↔
      Admitted F d ∧ (∃ active, decodeActive d = .ok active) ∧ ∃ flag, flagOf F d = .ok flag := by
  have flags : (∀ value, scimAttribute F d "active" = some value →
      ∃ flag, normalizeActive value = .ok flag) ↔ ∃ flag, flagOf F d = .ok flag := by
    unfold flagOf
    cases scimAttribute F d "active" <;> simp
  simp only [fullObjectPatch_eq_ok]
  constructor
  · rintro ⟨commands, -, user, decoded, run⟩
    obtain ⟨admitted, active, reads, rfl⟩ := decodeUser_eq_ok.mp decoded
    exact ⟨admitted, ⟨active, reads⟩, flags.mp ((userObjectCommands_flag _).1.mp ⟨commands, run⟩)⟩
  rintro ⟨admitted, ⟨active, reads⟩, flag⟩
  obtain ⟨user, decoded, extra⟩ : ∃ user, decodeUser F d = .ok user ∧ user.extra = d :=
    ⟨_, decodeUser_eq_ok.mpr ⟨admitted, active, reads, rfl⟩, rfl⟩
  obtain ⟨commands, run⟩ := (userObjectCommands_flag user).1.mpr (extra ▸ flags.mpr flag)
  exact ⟨commands, fits, user, decoded, run⟩

theorem fullObjectPatch_flag {commands : List UserPatchCommand}
    (patched : fullObjectPatch F verb d = .ok commands)
    (flag : Bool) : .setActive flag ∈ commands ↔
      ∃ value, scimAttribute F d "active" = some value ∧ normalizeActive value = .ok flag := by
  obtain ⟨-, user, decoded, run⟩ := fullObjectPatch_eq_ok.mp patched
  have extra : user.extra = d := by
    obtain ⟨_, _, _, shape⟩ := decodeUser_eq_ok.mp decoded
    rw [shape]
  rw [(userObjectCommands_flag user).2 commands run flag, extra]

theorem patchAgrees_of_plain (plain : Admitted F d → PatchFits verb d → PlainFlag F d) :
    PatchAgrees F verb d := by
  intro fits
  constructor
  · rw [fullObjectPatch_isOk fits]
    constructor
    · rintro ⟨desired, read⟩
      obtain ⟨admitted, active, reads, -⟩ := scimDesiredUser_eq_ok.mp read
      have both := decodeActive_isOk admitted.distinct (plain admitted fits)
      exact ⟨admitted, ⟨active, reads⟩, both.mp ⟨active, reads⟩⟩
    · rintro ⟨admitted, ⟨active, reads⟩, -⟩
      exact ⟨_, scimDesiredUser_eq_ok.mpr ⟨admitted, active, reads, rfl⟩⟩
  intro _ _ read patched flag mem
  obtain ⟨admitted, _, reads, rfl⟩ := scimDesiredUser_eq_ok.mp read
  obtain ⟨_, named, stated⟩ := (fullObjectPatch_flag patched flag).mp mem
  have both := decodeActive_plain admitted.distinct (plain admitted fits)
  have whole : flagOf F d = .ok flag := by
    rw [flagOf, named]
    exact stated
  rw [reads, whole] at both
  cases both
  rfl

theorem plain_of_patchAgrees (agrees : PatchAgrees F verb d) (admitted : Admitted F d)
    (fits : PatchFits verb d) : PlainFlag F d := by
  intro m mem names
  rw [or_iff_not_imp_left]
  intro otherwise
  have present := scimAttribute_eq_some admitted.distinct activePlain mem names
  have reads : decodeActive d = .ok none := by
    rcases flag_cases (F := F) admitted.distinct with ⟨absent, -⟩ | ⟨_, mem', names', reads⟩
    · exact absurd names (by simp [absent m mem])
    · rw [named_unique admitted.distinct activePlain mem' mem names' names,
        if_neg otherwise] at reads
      exact reads
  obtain ⟨both, flags⟩ := agrees fits
  have desired := scimDesiredUser_eq_ok.mpr ⟨admitted, none, reads, rfl⟩
  obtain ⟨commands, patched⟩ := both.mp ⟨_, desired⟩
  obtain ⟨-, -, flag, stated⟩ := (fullObjectPatch_isOk fits).mp ⟨commands, patched⟩
  rw [flagOf_named admitted.distinct mem names] at stated
  have given := (fullObjectPatch_flag patched flag).mpr ⟨m.2, present, stated⟩
  have same : flag = true := flags _ commands desired patched flag given
  rw [stated, same]

end Patch

section Outcome
variable (variant : CaseVariant d d')
include variant

theorem flags_of_sameOutcome (admitted : Admitted F d)
    (same : SameOutcome (scimDesiredUser F d) (scimDesiredUser F d')) :
    (·.getD true) <$> decodeActive d = (·.getD true) <$> decodeActive d' := by
  have admitted' := admitted.of_variant variant
  have both : (∃ active, decodeActive d = .ok active) ↔ ∃ active, decodeActive d' = .ok active := by
    have read : ∀ {e}, Admitted F e →
        ((∃ active, decodeActive e = .ok active) ↔ ∃ desired, scimDesiredUser F e =
          .ok desired) := by
      intro e admitted
      constructor
      · exact fun ⟨active, reads⟩ => ⟨_, scimDesiredUser_eq_ok.mpr ⟨admitted, active, reads, rfl⟩⟩
      · rintro ⟨_, desired⟩
        obtain ⟨-, active, reads, -⟩ := scimDesiredUser_eq_ok.mp desired
        exact ⟨active, reads⟩
    rw [read admitted, read admitted', ← refusal_eq_none, ← refusal_eq_none, same.1]
  cases first : decodeActive d with
  | ok active =>
    obtain ⟨active', second⟩ := both.mp ⟨active, first⟩
    have desired := scimDesiredUser_eq_ok.mpr ⟨admitted, active, first, rfl⟩
    have desired' := scimDesiredUser_eq_ok.mpr ⟨admitted', active', second, rfl⟩
    rw [second]
    exact congrArg Except.ok (same.2 _ _ desired desired').2.2.1
  | error e =>
    cases second : decodeActive d' with
    | ok active' => exact absurd (both.mpr ⟨active', second⟩) (by simp [first])
    | error => rw [decodeActive_error first, decodeActive_error second]

theorem sameOutcome_of_alike (flags : Admitted F d → FlagsAlike F d d')
    (names : Admitted F d → Readable d → LastAlike F "userName" d d') :
    SameOutcome (scimDesiredUser F d) (scimDesiredUser F d') := by
  have sameFlag : ∀ admitted : Admitted F d,
      (·.getD true) <$> decodeActive d = (·.getD true) <$> decodeActive d' := fun admitted =>
    (decodeActive_eq_iff admitted.distinct (admitted.of_variant variant).distinct variant).mpr
    (flags admitted)
  constructor
  · refine refusal_bind_congr (refusal_decodeUser_congr variant fun admitted => ?_) fun _ _ _ _ =>
      rfl
    have same := sameFlag admitted
    cases first : decodeActive d <;> cases second : decodeActive d' <;>
      rw [first, second] at same <;>
      first | rfl | cases same
  intro _ _ read read'
  obtain ⟨admitted, active, reads, rfl⟩ := scimDesiredUser_eq_ok.mp read
  obtain ⟨-, _, reads', rfl⟩ := scimDesiredUser_eq_ok.mp read'
  have distinct' := (admitted.of_variant variant).distinct
  have readable := (decodeActive_readable admitted.distinct F).mp ⟨active, reads⟩
  refine ⟨?_, ?_, ?_, ?_⟩
  · exact (textField_eq_iff variant admitted.distinct distinct').mpr (names admitted readable)
  · exact (textField_eq_iff variant admitted.distinct distinct').mpr
      (lastAlike_of_plain externalIdPlain)
  · have same := sameFlag admitted
    rw [reads, reads'] at same
    exact Except.ok.inj same
  · show lowerNames (scimDisplayAttributes F d) = lowerNames (scimDisplayAttributes F d')
    rw [← scimDisplayAttributes_lowered, variant, scimDisplayAttributes_lowered]

theorem patchFits_congr (verb : PatchVerb) : PatchFits verb d ↔ PatchFits verb d' := by
  rw [PatchFits, size_patchMessage verb (size_congr variant), PatchFits]

end Outcome

end Reading

def adaLowered : Members :=
  [("userName", .string "ada"), ("externalId", .string "7"), ("active", .bool true)]

def adaRaised : Members :=
  [("USERNAME", .string "ada"), ("EXTERNALID", .string "7"), ("ACTIVE", .bool true)]

def inactive (spelling : String) : Members := [("userName", .string "ada"), (spelling, .bool false)]

end Hikyo.Scim
