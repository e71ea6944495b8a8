import Mathlib.Data.List.Sort
import Mathlib.Tactic.IntervalCases
import Hikyo.Lib.Encoding

/-!
# JSON text of string maps

The encoding of Go's `encoding/json` for strings and for maps of strings, with its escapes.
`jsonString_append_inj` reads a string off the front of a text, and `jsonMap_perm` says that the
text of a nonempty map determines it up to the order of its members.
-/

namespace Hikyo.Lib

open List

variable {d : Char} {values : List (String × String)}

def hexDigit (n : Nat) : Char := "0123456789abcdef".toList.getD n '0'

/-- `\u00XX` and the other four-digit escapes. -/
def unicodeEscape (c : Char) : List Char :=
  ['\\', 'u', hexDigit (c.toNat / 4096 % 16), hexDigit (c.toNat / 256 % 16),
    hexDigit (c.toNat / 16 % 16), hexDigit (c.toNat % 16)]

def jsonChar (c : Char) : List Char :=
  if c = '"' ∨ c = '\\' then ['\\', c]
  else if c = '\n' then ['\\', 'n']
  else if c = '\r' then ['\\', 'r']
  else if c = '\t' then ['\\', 't']
  else if c.toNat = 8 then ['\\', 'b']
  else if c.toNat = 12 then ['\\', 'f']
  else if c.toNat < 32 ∨ c = '<' ∨ c = '>' ∨ c = '&' ∨ c.toNat = 0x2028 ∨ c.toNat = 0x2029 then
    unicodeEscape c
  else [c]

def jsonString (text : String) : List Char := '"' :: text.toList.flatMap jsonChar ++ ['"']

def jsonMember (mem : String × List Char) : List Char := jsonString mem.1 ++ ':' :: mem.2

def jsonObject (members : List (String × List Char)) : List Char :=
  '\x7b' :: (intercalate [','] (members.map jsonMember) ++ ['\x7d'])

def jsonMap (values : List (String × String)) : List Char :=
  jsonObject ((values.insertionSort fun a b => a.1 ≤ b.1).map fun v => (v.1, jsonString v.2))

example : String.ofList (jsonMap [("B", "<"), ("A", "x\n")]) =
    "\x7b\"A\":\"x\\n\",\"B\":\"\\u003c\"\x7d" := by decide

/-! ## No NUL character

JSON escapes control characters, so a zero byte can end a JSON text. -/

theorem hexDigit_plain (n : Nat) : (hexDigit n).toNat ≠ 0 := by
  by_cases small : n < 16
  · interval_cases n <;> decide
  have past : "0123456789abcdef".toList.length ≤ n := by
    rw [show "0123456789abcdef".toList.length = 16 from by decide]
    omega
  rw [hexDigit, getD_eq_getElem?_getD, getElem?_eq_none past]
  decide

theorem plain_of_all {text : List Char} (plain : text.all (·.toNat != 0) = true) (mem : d ∈ text) :
    d.toNat ≠ 0 := by
  simpa using all_eq_true.mp plain d mem

theorem jsonChar_plain {c : Char} (mem : d ∈ jsonChar c) : d.toNat ≠ 0 := by
  unfold jsonChar at mem
  split at mem
  · next special =>
    rcases special with rfl | rfl <;> exact plain_of_all (by decide) mem
  split at mem
  · exact plain_of_all (by decide) mem
  split at mem
  · exact plain_of_all (by decide) mem
  split at mem
  · exact plain_of_all (by decide) mem
  split at mem
  · exact plain_of_all (by decide) mem
  split at mem
  · exact plain_of_all (by decide) mem
  split at mem
  · simp only [unicodeEscape, mem_cons, not_mem_nil, or_false] at mem
    rcases mem with rfl | rfl | rfl | rfl | rfl | rfl
    · decide
    · decide
    all_goals exact hexDigit_plain _
  next printable =>
  obtain rfl := mem_singleton.mp mem
  intro _
  exact printable (.inl (by omega))

theorem jsonString_plain {text : String} (mem : d ∈ jsonString text) : d.toNat ≠ 0 := by
  unfold jsonString at mem
  simp only [cons_append, mem_cons, mem_append, mem_flatMap, not_mem_nil,
    or_false] at mem
  rcases mem with rfl | ⟨_, -, inChar⟩ | rfl
  · decide
  · exact jsonChar_plain inChar
  · decide

theorem mem_intercalate {sep : List Char} {parts : List (List Char)}
    (mem : d ∈ intercalate sep parts) : d ∈ sep ∨ ∃ part ∈ parts, d ∈ part := by
  induction parts with
  | nil => simp [intercalate] at mem
  | cons part rest ih =>
    cases rest with
    | nil => exact .inr ⟨part, .head _, by simpa [intercalate] using mem⟩
    | cons =>
      simp only [intercalate, intersperse_cons_cons, flatten_cons, mem_append] at mem
      rcases mem with here | separator | later
      · exact .inr ⟨part, .head _, here⟩
      · exact .inl separator
      · refine (ih later).imp_right ?_
        rintro ⟨other, inRest, inPart⟩
        exact ⟨other, .tail _ inRest, inPart⟩

theorem jsonMap_plain (mem : d ∈ jsonMap values) : d.toNat ≠ 0 := by
  unfold jsonMap jsonObject at mem
  simp only [mem_cons, mem_append, not_mem_nil, or_false] at mem
  rcases mem with rfl | inside | rfl
  · decide
  · rcases mem_intercalate inside with comma | ⟨_, listed, inPart⟩
    · obtain rfl := mem_singleton.mp comma
      decide
    obtain ⟨_, inRows, rfl⟩ := mem_map.mp listed
    obtain ⟨_, -, rfl⟩ := mem_map.mp inRows
    simp only [jsonMember, mem_append, mem_cons] at inPart
    rcases inPart with name | rfl | text
    · exact jsonString_plain name
    · decide
    · exact jsonString_plain text
  · decide

def hexValue (d : Char) : Nat := "0123456789abcdef".toList.idxOf d

def readChar : List Char → Char × List Char
  | '\\' :: 'n' :: rest => ('\n', rest)
  | '\\' :: 'r' :: rest => ('\r', rest)
  | '\\' :: 't' :: rest => ('\t', rest)
  | '\\' :: 'b' :: rest => (Char.ofNat 8, rest)
  | '\\' :: 'f' :: rest => (Char.ofNat 12, rest)
  | '\\' :: 'u' :: a :: b :: c :: d :: rest =>
    (Char.ofNat (hexValue a * 4096 + hexValue b * 256 + hexValue c * 16 + hexValue d), rest)
  | '\\' :: c :: rest => (c, rest)
  | c :: rest => (c, rest)
  | [] => ('\\', [])

theorem hexValue_hexDigit {n : Nat} (small : n < 16) : hexValue (hexDigit n) = n := by
  interval_cases n <;> decide

theorem readChar_jsonChar (c : Char) (rest : List Char) :
    readChar (jsonChar c ++ rest) = (c, rest) := by
  unfold jsonChar
  split
  · next special => rcases special with rfl | rfl <;> rfl
  next notSpecial =>
  split
  · next same => rw [same]; rfl
  split
  · next same => rw [same]; rfl
  split
  · next same => rw [same]; rfl
  split
  · next same => rw [← Char.ofNat_toNat c, same]; rfl
  split
  · next same => rw [← Char.ofNat_toNat c, same]; rfl
  split
  · next escaped =>
    have small : c.toNat < 65536 := by
      rcases escaped with low | rfl | rfl | rfl | high | high
      · omega
      · decide
      · decide
      · decide
      · omega
      · omega
    have digits : c.toNat / 4096 % 16 * 4096 + c.toNat / 256 % 16 * 256 + c.toNat / 16 % 16 * 16 +
        c.toNat % 16 = c.toNat := by omega
    simp only [unicodeEscape, cons_append, nil_append, readChar]
    rw [hexValue_hexDigit (by omega), hexValue_hexDigit (by omega), hexValue_hexDigit (by omega),
      hexValue_hexDigit (by omega), digits, Char.ofNat_toNat]
  · have plain : c ≠ '\\' := fun same => notSpecial (.inr same)
    simp [readChar, plain]

theorem jsonChar_append_inj (a b : Char) (u v : List Char)
    (same : jsonChar a ++ u = jsonChar b ++ v) :
    a = b ∧ u = v := by
  have read := congrArg readChar same
  rw [readChar_jsonChar, readChar_jsonChar] at read
  exact Prod.ext_iff.mp read

theorem jsonChar_starts (c : Char) (u v : List Char) : jsonChar c ++ u ≠ '"' :: v := by
  intro same
  have read : (c, u) = ('"', v) := (readChar_jsonChar c u).symm.trans (congrArg readChar same)
  cases read
  cases same

theorem jsonString_append_inj {s t : String} {u v : List Char}
    (same : jsonString s ++ u = jsonString t ++ v) :
    s = t ∧ u = v := by
  simp only [jsonString, cons_append, append_assoc, nil_append] at same
  obtain ⟨chars, rest⟩ := flatMap_stop_inj jsonChar_append_inj jsonChar_starts (cons.inj same).2
  exact ⟨String.toList_inj.mp chars, rest⟩

theorem cons_intercalate {β : Type} {sep : β} : ∀ {parts : List (List β)}, parts ≠ [] →
    sep :: intercalate [sep] parts = parts.flatMap (sep :: ·)
  | [], nonempty => absurd rfl nonempty
  | [part], _ => by simp [intercalate]
  | part :: next :: rest, _ => by
    rw [flatMap_cons, ← cons_intercalate (cons_ne_nil next rest)]
    simp [intercalate]

theorem jsonMap_perm {values' : List (String × String)} (nonempty : values ≠ [])
    (nonempty' : values' ≠ []) (same : jsonMap values = jsonMap values') : values.Perm values' := by
  let item (v : String × String) : List Char := ',' :: (jsonString v.1 ++ ':' :: jsonString v.2)
  have spelled {values : List (String × String)} (nonempty : values ≠ []) :
      ',' :: (jsonMap values).tail = (values.insertionSort fun a b => a.1 ≤ b.1).flatMap item ++
        ['\x7d'] := by
    have sorted : (values.insertionSort fun a b => a.1 ≤ b.1) ≠ [] := fun none =>
      nonempty (List.Perm.nil_eq (none ▸ perm_insertionSort _ values)).symm
    rw [jsonMap, jsonObject, tail_cons, ← cons_append, cons_intercalate (by simpa using sorted)]
    simp [flatMap_map, jsonMember, item, Function.comp_def]
  have delimited (a b : String × String) (u v : List Char) (equal : item a ++ u = item b ++ v) : a =
      b ∧ u = v := by
    simp only [item, cons_append, append_assoc] at equal
    obtain ⟨names, rest⟩ := jsonString_append_inj (cons.inj equal).2
    obtain ⟨texts, rest⟩ := jsonString_append_inj (cons.inj rest).2
    exact ⟨Prod.ext names texts, rest⟩
  have starts (a : String × String) (u v : List Char) : item a ++ u ≠ '\x7d' :: v := by
    rintro ⟨⟩
  have sorted := (flatMap_stop_inj delimited starts
    ((spelled nonempty).symm.trans (same ▸ spelled nonempty'))).1
  exact (perm_insertionSort _ values).symm.trans (sorted ▸ perm_insertionSort _ values')

end Hikyo.Lib
