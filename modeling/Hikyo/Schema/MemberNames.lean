import Hikyo.Lib.JsonTree
import Mathlib.Data.List.Duplicate

/-!
# Duplicate member names

`checkNoDuplicateKeys` walks the tokens of one document with a stack of the open containers and
refuses a name that the innermost object has seen; `tokens` is the order in which the decoder hands
them out, and `unquote` its decoding of a written name or string.  `duplicate_names_exact`: for
every document the walk reports a repeated name exactly if some object of it, at any depth, has two
members of one decoded name, and it never takes a value for a name.  `Ends` is what holds of every
stretch of tokens, and `ends_tokens` is proved by recursion on the document.
-/

namespace Hikyo.Schema

open Hikyo.Lib List

inductive Delim
  | openObject
  | closeObject
  | openArray
  | closeArray

inductive Token
  | delim (d : Delim)
  | string (text : String)
  | number (text : String)
  | bool (value : Bool)
  | null

structure Frame where
  object : Bool
  seen : List String
  expectKey : Bool

inductive TokenError
  | keyNotString
  | duplicateKey (name : String)

/-- A value was consumed: an enclosing object expects a key next. -/
def fillSlot : List Frame → List Frame
  | f :: stack => (if f.object then { f with expectKey := true } else f) :: stack
  | [] => []

def takeKey (f : Frame) (stack : List Frame) : Token → Except TokenError (List Frame)
  | .string name =>
    if name ∈ f.seen then .error (.duplicateKey name)
    else .ok ({ f with seen := name :: f.seen, expectKey := false } :: stack)
  | _ => .error .keyNotString

def consume (stack : List Frame) : Token → Except TokenError (List Frame)
  | .delim .openObject => .ok (⟨true, [], true⟩ :: fillSlot stack)
  | .delim .openArray => .ok (⟨false, [], false⟩ :: fillSlot stack)
  | .delim _ => .ok stack.tail
  | tok =>
    match stack with
    | f :: below => if f.object && f.expectKey then takeKey f below tok else .ok (fillSlot stack)
    | [] => .ok []

def checkNoDuplicateKeys (stream : List Token) : Except TokenError Unit :=
  stream.foldlM consume [] >>= fun _ => .ok ()

section Document
variable (unquote : String → String)

mutual

def tokens : Json → List Token
  | .null => [.null]
  | .bool value => [.bool value]
  | .number text => [.number text]
  | .string text => [.string (unquote text)]
  | .array items => .delim .openArray :: itemTokens items ++ [.delim .closeArray]
  | .object members => .delim .openObject :: memberTokens members ++ [.delim .closeObject]

def itemTokens : List Json → List Token
  | [] => []
  | item :: rest => tokens item ++ itemTokens rest

def memberTokens : List (String × Json) → List Token
  | [] => []
  | (name, value) :: rest => .string (unquote name) :: tokens value ++ memberTokens rest

end

def memberNames (members : List (String × Json)) : List String := members.map fun m => unquote m.1

end Document

mutual

/-- The member lists of all objects in a document. -/
def objects : Json → List (List (String × Json))
  | .array items => itemObjects items
  | .object members => members :: memberObjects members
  | _ => []

def itemObjects : List Json → List (List (String × Json))
  | [] => []
  | item :: rest => objects item ++ itemObjects rest

def memberObjects : List (String × Json) → List (List (String × Json))
  | [] => []
  | (_, value) :: rest => objects value ++ memberObjects rest

end

section Walk
variable {unquote : String → String} {stack after mid : List Frame} {first second : List Token}
  {objs objs' : List (List (String × Json))} {repeats repeats' : String → Prop}

def Repeated (unquote : String → String) (objs : List (List (String × Json))) (name : String) :
    Prop :=
  ∃ members ∈ objs, Duplicate name (memberNames unquote members)

theorem repeated_append {name : String} :
    Repeated unquote (objs ++ objs') name ↔
      Repeated unquote objs name ∨ Repeated unquote objs' name := by
  simp only [Repeated, mem_append, or_and_right, exists_or]

/-- The walk over a stretch of tokens ends with the stack `after`, or at a repeated name. -/
def Ends (repeats : String → Prop) (after : List Frame) (result : Except TokenError (List Frame)) :
    Prop :=
  (∀ name, ¬ repeats name) ∧ result = .ok after ∨
    ∃ name, repeats name ∧ result = .error (.duplicateKey name)

theorem Ends.append (walked : Ends repeats mid (first.foldlM consume stack))
    (onward : Ends repeats' after (second.foldlM consume mid)) :
    Ends (fun name => repeats name ∨ repeats' name) after
      ((first ++ second).foldlM consume stack) := by
  rw [foldlM_append]
  obtain ⟨clean, stopped⟩ | ⟨name, found, stopped⟩ := walked
  · rw [stopped]
    obtain ⟨clean', stopped'⟩ | ⟨name, found, stopped'⟩ := onward
    · exact .inl ⟨fun name either => either.elim (clean name) (clean' name), stopped'⟩
    · exact .inr ⟨name, .inr found, stopped'⟩
  · rw [stopped]
    exact .inr ⟨name, .inl found, rfl⟩

theorem Ends.congr {result : Except TokenError (List Frame)} (ended : Ends repeats after result)
    (same : ∀ name, repeats name ↔ repeats' name) : Ends repeats' after result := by
  rwa [← show repeats = repeats' from funext fun name => propext (same name)]

theorem Ends.close {f : Frame} (d : Delim)
    (inside : Ends repeats (f :: after) (first.foldlM consume stack))
    (closes : consume (f :: after) (.delim d) = .ok after) :
    Ends repeats after ((first ++ [Token.delim d]).foldlM consume stack) := by
  have last : Ends (fun _ => False) after ([Token.delim d].foldlM consume (f :: after)) := by
    refine .inl ⟨fun _ => id, ?_⟩
    rw [foldlM_cons, closes]
    rfl
  exact (inside.append last).congr fun name => by rw [or_false]

/-- The next token is a value: no enclosing object expects a key. -/
def AtValue : List Frame → Prop
  | f :: _ => (f.object && f.expectKey) = false
  | [] => True

theorem consume_value {tok : Token} (ready : AtValue stack) (plain : ∀ d, tok ≠ .delim d) :
    consume stack tok = .ok (fillSlot stack) := by
  cases stack with
  | nil => cases tok <;> first | rfl | exact absurd rfl (plain _)
  | cons f below =>
    have value : (f.object && f.expectKey) = false := ready
    cases tok <;> first | exact absurd rfl (plain _) | simp [consume, value]

theorem consume_key (seen : List String) (name : String) :
    consume (⟨true, seen, true⟩ :: stack) (.string name) =
      if name ∈ seen then .error (.duplicateKey name)
      else .ok (⟨true, name :: seen, false⟩ :: stack) := rfl

theorem ends_scalar {tok : Token} (ready : AtValue stack) (plain : ∀ d, tok ≠ .delim d) :
    Ends (Repeated unquote []) (fillSlot stack) ([tok].foldlM consume stack) := by
  refine .inl ⟨fun _ found => ?_, ?_⟩
  · obtain ⟨_, mem, _⟩ := found
    cases mem
  · rw [foldlM_cons, consume_value ready plain]
    rfl

/-- The name is one of `seen` and occurs again, or is repeated among the members, or below them. -/
def RepeatedAfter (unquote : String → String) (seen : List String) (members : List (String × Json))
    (name : String) : Prop :=
  (name ∈ seen ∧ name ∈ memberNames unquote members ∨
    Duplicate name (memberNames unquote members)) ∨
    Repeated unquote (memberObjects members) name

theorem repeatedAfter_cons {seen : List String} {written name : String} {value : Json}
    {rest : List (String × Json)} (fresh : unquote written ∉ seen) :
    RepeatedAfter unquote seen ((written, value) :: rest) name ↔
      Repeated unquote (objects value) name ∨
        RepeatedAfter unquote (unquote written :: seen) rest name := by
  unfold RepeatedAfter
  rw [memberObjects, repeated_append, memberNames, map_cons, ← memberNames, mem_cons, mem_cons,
    duplicate_cons_iff]
  by_cases same : unquote written = name
  · subst same
    tauto
  · simp only [same, Ne.symm same, false_and, false_or]
    tauto

mutual

theorem ends_tokens : (doc : Json) → ∀ {stack}, AtValue stack →
    Ends (Repeated unquote (objects doc)) (fillSlot stack)
      ((tokens unquote doc).foldlM consume stack)
  | .null, _, ready => ends_scalar ready (by rintro _ ⟨⟩)
  | .bool _, _, ready => ends_scalar ready (by rintro _ ⟨⟩)
  | .number _, _, ready => ends_scalar ready (by rintro _ ⟨⟩)
  | .string _, _, ready => ends_scalar ready (by rintro _ ⟨⟩)
  | .array items, stack, _ => (ends_itemTokens items (fillSlot stack)).close .closeArray rfl
  | .object members, stack, _ => by
    obtain ⟨_, inside⟩ := ends_memberTokens members [] (fillSlot stack)
    refine (inside.close .closeObject rfl).congr fun name => ?_
    simp [RepeatedAfter, Repeated, objects]

theorem ends_itemTokens : (items : List Json) → (stack : List Frame) →
    Ends (Repeated unquote (itemObjects items)) (⟨false, [], false⟩ :: stack)
      ((itemTokens unquote items).foldlM consume (⟨false, [], false⟩ :: stack))
  | [], _ => .inl ⟨by rintro _ ⟨_, ⟨⟩, _⟩, rfl⟩
  | item :: rest, stack => by
    have head := ends_tokens item (show AtValue (⟨false, [], false⟩ :: stack) from rfl)
    exact (head.append (ends_itemTokens rest stack)).congr fun _ => repeated_append.symm

theorem ends_memberTokens : (members : List (String × Json)) → (seen : List String) →
    (stack : List Frame) →
    ∃ seen', Ends (RepeatedAfter unquote seen members) (⟨true, seen', true⟩ :: stack)
      ((memberTokens unquote members).foldlM consume (⟨true, seen, true⟩ :: stack))
  | [], seen, _ => by
    refine ⟨seen, .inl ⟨fun name found => ?_, rfl⟩⟩
    simp [RepeatedAfter, Repeated, memberNames, memberObjects] at found
  | (written, value) :: rest, seen, stack => by
    rw [memberTokens, cons_append, foldlM_cons, consume_key]
    by_cases known : unquote written ∈ seen
    · rw [if_pos known]
      exact ⟨seen, .inr ⟨unquote written, .inl (.inl ⟨known, mem_cons_self⟩), rfl⟩⟩
    rw [if_neg known]
    obtain ⟨seen', onward⟩ := ends_memberTokens rest (unquote written :: seen) stack
    have head := ends_tokens value
      (show AtValue (⟨true, unquote written :: seen, false⟩ :: stack) from rfl)
    exact ⟨seen', (head.append onward).congr fun _ => (repeatedAfter_cons known).symm⟩

end

/-- A repeated decoded name is reported, whatever surrounds it, and nothing else is. -/
theorem duplicate_names_exact (unquote : String → String) (doc : Json) :
    ((∃ name, checkNoDuplicateKeys (tokens unquote doc) = .error (.duplicateKey name)) ↔
        ∃ members ∈ objects doc, ¬ (memberNames unquote members).Nodup) ∧
      (∀ name, checkNoDuplicateKeys (tokens unquote doc) = .error (.duplicateKey name) →
        ∃ members ∈ objects doc, Duplicate name (memberNames unquote members)) ∧
      checkNoDuplicateKeys (tokens unquote doc) ≠ .error .keyNotString := by
  have ended : Ends (Repeated unquote (objects doc)) [] ((tokens unquote doc).foldlM consume []) :=
    ends_tokens doc trivial
  unfold checkNoDuplicateKeys
  obtain ⟨clean, stopped⟩ | ⟨name, ⟨members, mem, twice⟩, stopped⟩ := ended
  · rw [stopped]
    refine ⟨⟨by rintro ⟨_, ⟨⟩⟩, ?_⟩, by rintro _ ⟨⟩, by rintro ⟨⟩⟩
    rintro ⟨members, mem, repeated⟩
    obtain ⟨name, twice⟩ := exists_duplicate_iff_not_nodup.mpr repeated
    exact absurd ⟨members, mem, twice⟩ (clean name)
  rw [stopped]
  refine ⟨⟨fun _ => ⟨members, mem, exists_duplicate_iff_not_nodup.mp ⟨name, twice⟩⟩,
    fun _ => ⟨name, rfl⟩⟩, ?_, ?_⟩
  · rintro _ ⟨⟩
    exact ⟨members, mem, twice⟩
  · rintro ⟨⟩

end Walk

end Hikyo.Schema
