import Hikyo.Lib.NameMap
import Mathlib.Data.String.Basic

/-!
# The managed block

The stamps of a stack stand in the project's `.env` file, between two marker lines.
`splice_managed_block`: for every text in which the block can be located, whatever its line ends,
splicing succeeds, changes nothing outside of the block but for the line end of an open last line,
parses back to the stamps, and does nothing the second time; and targets and variable names
correspond to each other.  `scanLines` is inverted once (`locate_eq_ok`), and everything else
is about the lines around the block.
-/

namespace Hikyo.Compose

open Hikyo.Lib List

variable {digits : Option Nat} {stamps : Named String} {entry : String × String}

abbrev Line := List Char

def splitKeepEnds : List Char → List Line
  | [] => []
  | c :: rest =>
    if c = '\n' then [c] :: splitKeepEnds rest
    else
      match splitKeepEnds rest with
      | [] => [[c]]
      | line :: more => (c :: line) :: more

def trimSuffix (c : Char) (line : Line) : Line :=
  if line.getLast? = some c then line.dropLast else line

def trimLineEnd (line : Line) : Line := trimSuffix '\r' (trimSuffix '\n' line)

def managedBegin : Line := "# >>> hikyo compose (managed, do not edit) >>>".toList

def managedEnd : Line := "# <<< hikyo compose <<<".toList

inductive BlockError
  | nested (line : Nat)
  | duplicateBegin (line : Nat)
  | endWithoutBegin (line : Nat)
  | duplicateEnd (line : Nat)
  | unterminated
  | malformedLine (content : Line)
  | unexpectedVariable (key : Line)
  | duplicateVariable (key : Line)
  | stampGrammar (value : Line)
deriving DecidableEq

inductive Scan
  | before (lines : List Line)
  | inside (lines body : List Line)
  | after (lines body rest : List Line)

def Scan.line (scan : Scan) (line : Line) : Except BlockError Scan :=
  let content := trimLineEnd line
  match scan with
  | .before lines =>
    if content = managedBegin then .ok (.inside lines [])
    else if content = managedEnd then .error (.endWithoutBegin (lines.length + 1))
    else .ok (.before (lines ++ [line]))
  | .inside lines body =>
    if content = managedBegin then .error (.nested (lines.length + body.length + 2))
    else if content = managedEnd then .ok (.after lines body [])
    else .ok (.inside lines (body ++ [line]))
  | .after lines body rest =>
    if content = managedBegin then
      .error (.duplicateBegin (lines.length + body.length + rest.length + 3))
    else if content = managedEnd then
      .error (.duplicateEnd (lines.length + body.length + rest.length + 3))
    else .ok (.after lines body (rest ++ [line]))

def scanLines (scan : Scan) : List Line → Except BlockError Scan
  | [] => .ok scan
  | line :: more => do scanLines (← scan.line line) more

/-- `locateManagedBlock`: the lines around the one block and in it, if there is one. -/
def locateManagedBlock (lines : List Line) :
    Except BlockError (Option (List Line × List Line × List Line)) := do
  match ← scanLines (.before []) lines with
  | .before _ => return none
  | .inside .. => throw .unterminated
  | .after lines body rest => return some (lines, body, rest)

def stampVarPrefix : Line := "HIKYO_GEN_".toList

def targetNameGrammar (target : String) : Bool :=
  match target.toList with
  | [] => false
  | first :: rest => first.isLower && rest.all fun c => c.isLower || c.isDigit || c == '-'

def varName (target : String) : Line := stampVarPrefix ++ target.toList.map fun c => if c = '-' then
    '_' else c.toUpper

def targetFromVar (variableName : Line) : Option String :=
  if stampVarPrefix.isPrefixOf variableName then
    some (String.ofList ((variableName.drop stampVarPrefix.length).map fun c => if c = '_' then '-'
      else c.toLower))
  else none

def isLowerHex (c : Char) : Bool := c.isDigit || ('a' ≤ c && c ≤ 'f')

/-- `^v1-[0-9a-f]{32}$` for 32 digits.  Where stamps are to be free of collisions, their number of
digits has to be left open. -/
def parseStamp (digits : Option Nat) (stamp : String) : Bool :=
  match stamp.toList with
  | 'v' :: '1' :: '-' :: hex => digits.all (· == hex.length) && hex.all isLowerHex
  | _ => false

def cutAtEquals : Line → Option (Line × Line)
  | [] => none
  | c :: rest =>
      if c = '=' then some ([], rest) else (cutAtEquals rest).map fun (key, value) =>
        (c :: key, value)

def parseManagedLine (digits : Option Nat) (stamps : Named String) (line : Line) :
    Except BlockError (Named String) :=
  let content := trimLineEnd line
  if content = [] then .ok stamps
  else
    match cutAtEquals content with
    | none => .error (.malformedLine content)
    | some (key, value) =>
      match targetFromVar key with
      | none => .error (.unexpectedVariable key)
      | some target =>
        if target ∈ stamps.names then .error (.duplicateVariable key)
        else if parseStamp digits (String.ofList value) = false then .error (.stampGrammar value)
        else .ok (stamps ++ [(target, String.ofList value)])

def parseManagedLines (digits : Option Nat) (stamps : Named String) :
    List Line → Except BlockError (Named String)
  | [] => .ok stamps
  | line :: more => do parseManagedLines digits (← parseManagedLine digits stamps line) more

def parseManagedBlock (digits : Option Nat) (raw : List Char) :
    Except BlockError (Named String) := do
  match ← locateManagedBlock (splitKeepEnds raw) with
  | none => return []
  | some (_, body, _) => parseManagedLines digits [] body

def stampLine (entry : String × String) : Line := varName entry.1 ++ '=' :: entry.2.toList ++ ['\n']

def sortedStamps (stamps : Named String) : Named String := stamps.insertionSort fun a b => a.1 ≤ b.1

def blockLines (stamps : Named String) : List Line :=
  (managedBegin ++ ['\n']) :: (sortedStamps stamps).map stampLine ++ [managedEnd ++ ['\n']]

def renderManagedBlock (stamps : Named String) : List Char := (blockLines stamps).flatten

def spliceManagedBlock (raw block : List Char) : Except BlockError (List Char) := do
  match ← locateManagedBlock (splitKeepEnds raw) with
  | some (lines, _, rest) => return lines.flatten ++ block ++ rest.flatten
  | none =>
    let separator := if raw ≠ [] ∧ raw.getLast? ≠ some '\n' then ['\n'] else []
    return raw ++ separator ++ block

def Ended (line : Line) : Prop := ∃ content, '\n' ∉ content ∧ line = content ++ ['\n']

theorem splitKeepEnds_ended {line : Line} (ended : Ended line) (rest : List Char) :
    splitKeepEnds (line ++ rest) = line :: splitKeepEnds rest := by
  obtain ⟨content, unbroken, rfl⟩ := ended
  induction content with
  | nil => simp [splitKeepEnds]
  | cons c _ ih =>
    have other : c ≠ '\n' := fun same => unbroken (same ▸ .head _)
    have tail := ih fun inContent => unbroken (mem_cons_of_mem c inContent)
    rw [cons_append, cons_append, splitKeepEnds, if_neg other, tail]

theorem splitKeepEnds_flatten {lines : List Line} (ended : ∀ line ∈ lines, Ended line)
    (rest : List Char) :
    splitKeepEnds (lines.flatten ++ rest) = lines ++ splitKeepEnds rest := by
  induction lines with
  | nil => rfl
  | cons line _ ih =>
    rw [flatten_cons, append_assoc, splitKeepEnds_ended (ended line (.head _)),
      ih fun other inLines => ended other (mem_cons_of_mem line inLines)]
    rfl

def openLine (text : List Char) : List Line := if text = [] then [] else [text]

theorem splitKeepEnds_unbroken {text : List Char} (unbroken : '\n' ∉ text) :
    splitKeepEnds text = openLine text := by
  induction text with
  | nil => rfl
  | cons c text ih =>
    have other : c ≠ '\n' := fun same => unbroken (same ▸ .head _)
    rw [splitKeepEnds, if_neg other, ih fun inText => unbroken (mem_cons_of_mem c inText)]
    cases text with
    | nil | cons => rfl

theorem exists_lines (raw : List Char) :
    ∃ (lines : List Line) (last : List Char), (∀ line ∈ lines, Ended line) ∧ '\n' ∉ last ∧
      raw = lines.flatten ++ last := by
  induction raw with
  | nil => exact ⟨[], [], by simp, by simp, rfl⟩
  | cons c _ ih =>
    obtain ⟨lines, last, ended, unbroken, rfl⟩ := ih
    by_cases isEnd : c = '\n'
    · refine ⟨[c] :: lines, last, ?_, unbroken, rfl⟩
      intro line inLines
      rcases mem_cons.mp inLines with rfl | old
      · exact ⟨[], by simp, by rw [isEnd]; rfl⟩
      · exact ended line old
    cases lines with
    | nil => exact ⟨[], c :: last, by simp, by simp [Ne.symm isEnd, unbroken], rfl⟩
    | cons line lines =>
      obtain ⟨content, free, isLine⟩ := ended line (.head _)
      refine ⟨(c :: line) :: lines, last, ?_, unbroken, rfl⟩
      intro other inLines
      rcases mem_cons.mp inLines with rfl | old
      · exact ⟨c :: content, by simp [Ne.symm isEnd, free], by rw [isLine]; rfl⟩
      · exact ended other (mem_cons_of_mem line old)

variable {raw : List Char} {c : Char} {target : String}

theorem splitKeepEnds_append {first second : List Line}
    (split : splitKeepEnds raw = first ++ second) :
    (second ≠ [] → ∀ line ∈ first, Ended line) ∧ splitKeepEnds second.flatten = second := by
  obtain ⟨_, last, ended, unbroken, rfl⟩ := exists_lines raw
  rw [splitKeepEnds_flatten ended, splitKeepEnds_unbroken unbroken] at split
  rcases append_eq_append_iff.mp split with ⟨more, rfl, rest⟩ | ⟨more, rfl, rfl⟩
  · -- the second part lies within the open line
    unfold openLine at rest
    split at rest
    · have none : second = [] := (append_eq_nil_iff.mp rest.symm).2
      exact ⟨fun some => absurd none some, by rw [none]; rfl⟩
    rename_i some
    rcases append_eq_singleton_iff.mp rest.symm with ⟨rfl, rfl⟩ | ⟨-, rfl⟩
    · refine ⟨fun _ line inFirst => ended line (by simpa using inFirst), ?_⟩
      rw [flatten_singleton, splitKeepEnds_unbroken unbroken, openLine, if_neg some]
    · exact ⟨fun some => absurd rfl some, rfl⟩
  refine ⟨fun _ line inFirst => ended line (mem_append_left more inFirst), ?_⟩
  have tail : ∀ line ∈ more, Ended line :=
    fun line inMore => ended line (mem_append_right first inMore)
  have flat : (openLine last).flatten = last := by
    unfold openLine
    split
    · rename_i empty
      rw [empty]
      rfl
    · simp
  rw [flatten_append, splitKeepEnds_flatten tail, flat, splitKeepEnds_unbroken unbroken]

def Plain (line : Line) : Prop := trimLineEnd line ≠ managedBegin ∧ trimLineEnd line ≠ managedEnd

section Scan
variable {lines body rest more : List Line} {line : Line} {scan : Scan}

theorem managedEnd_ne_begin : managedEnd ≠ managedBegin := by decide

section
variable (plain : ∀ line ∈ more, Plain line)
include plain

/-- Plain lines are collected in the part where the scan stands. -/
theorem scan_plain (part : List Line → Scan)
    (collects : ∀ kept line, Plain line → (part kept).line line = .ok (part (kept ++ [line])))
    (kept onward : List Line) :
    scanLines (part kept) (more ++ onward) = scanLines (part (kept ++ more)) onward := by
  induction more generalizing kept with
  | nil => simp
  | cons line more ih =>
    rw [cons_append, scanLines, collects kept line (plain line (.head _))]
    change scanLines (part (kept ++ [line])) (more ++ onward) = _
    rw [ih fun other inMore => plain other (mem_cons_of_mem line inMore)]
    simp

theorem scan_before_plain (onward : List Line) :
    scanLines (.before lines) (more ++ onward) = scanLines (.before (lines ++ more)) onward :=
  scan_plain plain .before
    (fun _ _ isPlain => by rw [Scan.line, if_neg isPlain.1, if_neg isPlain.2]) lines onward

theorem scan_inside_plain (onward : List Line) :
    scanLines (.inside lines body) (more ++ onward) =
      scanLines (.inside lines (body ++ more)) onward :=
  scan_plain plain (.inside lines)
    (fun _ _ isPlain => by rw [Scan.line, if_neg isPlain.1, if_neg isPlain.2]) body onward

theorem scan_after_plain :
    scanLines (.after lines body rest) more = .ok (.after lines body (rest ++ more)) := by
  have scanned := scan_plain plain (.after lines body)
    (fun _ _ isPlain => by rw [Scan.line, if_neg isPlain.1, if_neg isPlain.2]) rest []
  rwa [append_nil] at scanned

end

theorem locate_block {opening closing : Line} (isOpening : trimLineEnd opening = managedBegin)
    (isClosing : trimLineEnd closing = managedEnd) (plainLines : ∀ line ∈ lines, Plain line)
    (plainBody : ∀ line ∈ body, Plain line) (plainRest : ∀ line ∈ rest, Plain line) :
    locateManagedBlock (lines ++ opening :: (body ++ closing :: rest)) =
      .ok (some (lines, body, rest)) := by
  have opened : Scan.line (.before lines) opening = .ok (.inside lines []) := by
    rw [Scan.line, if_pos isOpening]
  have closed : Scan.line (.inside lines body) closing = .ok (.after lines body []) := by
    rw [Scan.line, isClosing, if_neg managedEnd_ne_begin, if_pos rfl]
  unfold locateManagedBlock
  rw [scan_before_plain plainLines, nil_append, scanLines, opened]
  change (scanLines (.inside lines []) (body ++ closing :: rest) >>= _) = _
  rw [scan_inside_plain plainBody, nil_append, scanLines, closed]
  change (scanLines (.after lines body []) rest >>= _) = _
  rw [scan_after_plain plainRest]
  rfl

theorem scan_after_eq_ok (scanned : scanLines (.after lines body rest) more = .ok scan) :
    (∀ line ∈ more, Plain line) ∧ scan = .after lines body (rest ++ more) := by
  induction more generalizing rest with
  | nil =>
    cases scanned
    simp
  | cons line _ ih =>
    rw [scanLines, Scan.line] at scanned
    split at scanned
    · cases scanned
    rename_i notBegin
    split at scanned
    · cases scanned
    rename_i notEnd
    obtain ⟨plain, rfl⟩ := ih scanned
    refine ⟨fun other inMore => ?_, by simp⟩
    rcases mem_cons.mp inMore with rfl | old
    · exact ⟨notBegin, notEnd⟩
    · exact plain other old

theorem scan_inside_eq_ok (scanned : scanLines (.inside lines body) more = .ok scan) :
    (∃ open', scan = .inside lines open') ∨
      ∃ first closing last, more = first ++ closing :: last ∧ trimLineEnd closing = managedEnd ∧
        (∀ line ∈ last, Plain line) ∧ scan = .after lines (body ++ first) last := by
  induction more generalizing body with
  | nil =>
    cases scanned
    exact .inl ⟨body, rfl⟩
  | cons line more ih =>
    rw [scanLines, Scan.line] at scanned
    split at scanned
    · cases scanned
    split at scanned
    · rename_i closes
      obtain ⟨plain, rfl⟩ := scan_after_eq_ok scanned
      exact .inr ⟨[], line, more, rfl, closes, plain, by simp⟩
    rcases ih scanned with open' | ⟨first, closing, last, rfl, closes, plain, rfl⟩
    · exact .inl open'
    · exact .inr ⟨line :: first, closing, last, rfl, closes, plain, by simp⟩

theorem scan_before_eq_ok (scanned : scanLines (.before lines) more = .ok scan) :
    ((∀ line ∈ more, Plain line) ∧ scan = .before (lines ++ more)) ∨
      (∃ lines' open', scan = .inside lines' open') ∨
      ∃ first opening inner closing last, more = first ++ opening :: (inner ++ closing :: last) ∧
        (trimLineEnd opening = managedBegin ∧ trimLineEnd closing = managedEnd) ∧
        (∀ line ∈ first, Plain line) ∧
        (∀ line ∈ last, Plain line) ∧ scan = .after (lines ++ first) inner last := by
  induction more generalizing lines with
  | nil =>
    cases scanned
    exact .inl ⟨by simp, by simp⟩
  | cons line _ ih =>
    rw [scanLines, Scan.line] at scanned
    split at scanned
    · rename_i opens
      rcases scan_inside_eq_ok scanned
          with ⟨open', rfl⟩ | ⟨inner, closing, last, rfl, closes, plain, rfl⟩
      · exact .inr (.inl ⟨lines, open', rfl⟩)
      · exact .inr (.inr ⟨[], line, inner, closing, last, rfl, ⟨opens, closes⟩, by simp,
          plain, by simp⟩)
    rename_i notBegin
    split at scanned
    · cases scanned
    rename_i notEnd
    have here : ∀ {others : List Line}, (∀ other ∈ others, Plain other) →
        ∀ other ∈ line :: others, Plain other := by
      intro _ plain other inLines
      rcases mem_cons.mp inLines with rfl | old
      · exact ⟨notBegin, notEnd⟩
      · exact plain other old
    rcases ih scanned with ⟨plain, rfl⟩ | open' | ⟨first, opening, inner, closing, last, rfl,
        marked, plain, plainLast, rfl⟩
    · exact .inl ⟨here plain, by simp⟩
    · exact .inr (.inl open')
    · exact .inr (.inr ⟨line :: first, opening, inner, closing, last, rfl, marked, here plain,
        plainLast, by simp⟩)

/-- What has been located: nothing to splice into, or one block between marker lines. -/
def Located (lines : List Line) : Option (List Line × List Line × List Line) → Prop
  | none => ∀ line ∈ lines, Plain line
  | some (before, inner, after) => ∃ opening closing,
    lines = before ++ opening :: (inner ++ closing :: after) ∧
      (trimLineEnd opening = managedBegin ∧ trimLineEnd closing = managedEnd) ∧
      (∀ line ∈ before, Plain line) ∧ ∀ line ∈ after, Plain line

theorem locate_eq_ok {found : Option (List Line × List Line × List Line)}
    (located : locateManagedBlock lines = .ok found) : Located lines found := by
  unfold locateManagedBlock at located
  cases scanned : scanLines (.before []) lines with
  | error =>
    rw [scanned] at located
    cases located
  | ok =>
    rw [scanned] at located
    rcases scan_before_eq_ok scanned with ⟨plain, rfl⟩ | ⟨_, _, rfl⟩ |
      ⟨_, opening, _, closing, _, rfl, marked, plain, plainLast, rfl⟩ <;> cases located
    · exact plain
    · exact ⟨opening, closing, rfl, marked, plain, plainLast⟩

end Scan

def upperSnake (c : Char) : Char := if c = '-' then '_' else c.toUpper

def lowerKebab (c : Char) : Char := if c = '_' then '-' else c.toLower

theorem exists_of_isLower (lower : c.isLower = true) : ∃ n : Fin 26, c = Char.ofNat (97 + n) := by
  have bounds : 97 ≤ c.toNat ∧ c.toNat ≤ 122 := by
    have range : (c.val ≥ 'a'.val && c.val ≤ 'z'.val) = true := lower
    simpa [UInt32.le_iff_toNat_le, ← Char.toNat_val] using range
  refine ⟨⟨c.toNat - 97, by omega⟩, ?_⟩
  have same : 97 + (c.toNat - 97) = c.toNat := by omega
  simp [same]

theorem exists_of_isDigit (digit : c.isDigit = true) : ∃ n : Fin 10, c = Char.ofNat (48 + n) := by
  have bounds : 48 ≤ c.toNat ∧ c.toNat ≤ 57 := by
    simpa [Char.isDigit, UInt32.le_iff_toNat_le, ← Char.toNat_val] using digit
  refine ⟨⟨c.toNat - 48, by omega⟩, ?_⟩
  have same : 48 + (c.toNat - 48) = c.toNat := by omega
  simp [same]

theorem lowerKebab_upperSnake (allowed : c.isLower = true ∨ c.isDigit = true ∨ c = '-') :
    lowerKebab (upperSnake c) = c ∧ upperSnake c ≠ '=' := by
  rcases allowed with lower | digit | rfl
  · obtain ⟨n, rfl⟩ := exists_of_isLower lower
    revert n
    decide
  · obtain ⟨n, rfl⟩ := exists_of_isDigit digit
    revert n
    decide
  · decide

section
variable (grammar : targetNameGrammar target = true)
include grammar

theorem targetNameGrammar_chars :
    ∀ c ∈ target.toList, c.isLower = true ∨ c.isDigit = true ∨ c = '-' := by
  unfold targetNameGrammar at grammar
  cases chars : target.toList with
  | nil => simp
  | cons =>
    rw [chars] at grammar
    simp only [Bool.and_eq_true, all_eq_true, Bool.or_eq_true, beq_iff_eq] at grammar
    intro c inChars
    rcases mem_cons.mp inChars with rfl | inRest
    · exact .inl grammar.1
    · exact or_assoc.mp (grammar.2 c inRest)

theorem targetFromVar_varName : targetFromVar (varName target) = some target := by
  have chars := targetNameGrammar_chars grammar
  have spelled : (target.toList.map upperSnake).map lowerKebab = target.toList := by
    rw [map_map]
    exact (map_congr_left fun c inChars => (lowerKebab_upperSnake (chars c inChars)).1).trans
      (map_id _)
  have start : stampVarPrefix.isPrefixOf (varName target) = true := by
    rw [ isPrefixOf_iff_prefix]
    exact prefix_append ..
  have rest : (varName target).drop stampVarPrefix.length = target.toList.map upperSnake :=
    drop_left
  rw [targetFromVar, if_pos start, rest]
  change some (String.ofList ((target.toList.map upperSnake).map lowerKebab)) = _
  rw [spelled, String.ofList_toList]

theorem equals_notMem_varName : '=' ∉ varName target := by
  intro inName
  rcases mem_append.mp inName with inPrefix | inChars
  · revert inPrefix
    decide
  · obtain ⟨c, inTarget, isEquals⟩ := mem_map.mp inChars
    exact (lowerKebab_upperSnake (targetNameGrammar_chars grammar c inTarget)).2 isEquals

end

theorem cutAtEquals_append {key : Line} (free : '=' ∉ key) (value : Line) :
    cutAtEquals (key ++ '=' :: value) = some (key, value) := by
  induction key with
  | nil => rfl
  | cons c _ ih =>
    have other : c ≠ '=' := fun same => free (same ▸ .head _)
    rw [cons_append, cutAtEquals, if_neg other, ih fun inKey => free (mem_cons_of_mem c inKey)]
    rfl

theorem parseStamp_getLast {stamp : String} (valid : parseStamp digits stamp = true) :
    ∃ last, stamp.toList.getLast? = some last ∧ last ≠ '\r' ∧ '\n' ∉ stamp.toList := by
  unfold parseStamp at valid
  split at valid
  · rename_i hex chars
    have plain : ∀ c ∈ hex, c ≠ '\r' ∧ c ≠ '\n' := by
      intro c inHex
      have isHex := all_eq_true.mp (Bool.and_eq_true_iff.mp valid).2 c inHex
      constructor
      all_goals
        rintro rfl
        exact absurd isHex (by decide)
    rw [chars]
    cases lastDigit : hex.getLast? with
    | none =>
      rw [getLast?_eq_none_iff.mp lastDigit]
      exact ⟨'-', rfl, by decide, by decide⟩
    | some last =>
      refine ⟨last, ?_, (plain last (mem_of_getLast? lastDigit)).1, ?_⟩
      · cases hex with
        | nil => cases lastDigit
        | cons => simpa using lastDigit
      intro inStamp
      simp only [mem_cons] at inStamp
      rcases inStamp with bad | bad | bad | inHex
      · exact absurd bad (by decide)
      · exact absurd bad (by decide)
      · exact absurd bad (by decide)
      · exact (plain _ inHex).2 rfl
  · cases valid

theorem trimSuffix_append (c : Char) (line : Line) :
    trimSuffix c (line ++ [c]) = line := by simp [trimSuffix]

theorem trimLineEnd_append {content : Line} {last : Char} (isLast : content.getLast? = some last)
    (plain : last ≠ '\r') :
    trimLineEnd (content ++ ['\n']) = content := by
  have other : ¬ content.getLast? = some '\r' := by
    rw [isLast]
    simpa using plain
  rw [trimLineEnd, trimSuffix_append, trimSuffix, if_neg other]

section Entry
variable (grammar : targetNameGrammar entry.1 = true) (valid : parseStamp digits entry.2 = true)

include valid

theorem trimLineEnd_stampLine : trimLineEnd (stampLine entry) = varName entry.1 ++
    '=' :: entry.2.toList := by
  obtain ⟨_, isLast, plain, -⟩ := parseStamp_getLast valid
  refine trimLineEnd_append ?_ plain
  rw [getLast?_append, getLast?_cons, isLast]
  rfl

theorem plain_stampLine : Plain (stampLine entry) := by
  have ofVariable : stampVarPrefix.head? = some 'H' := by decide
  have ofBegin : managedBegin.head? = some '#' := by decide
  have ofEnd : managedEnd.head? = some '#' := by decide
  have first : (varName entry.1 ++ '=' :: entry.2.toList).head? = some 'H' := by
    rw [head?_append, varName, head?_append, ofVariable]
    rfl
  rw [Plain, trimLineEnd_stampLine valid]
  constructor
  · intro same
    rw [same, ofBegin] at first
    exact absurd first (by decide)
  intro same
  rw [same, ofEnd] at first
  exact absurd first (by decide)

include grammar

theorem ended_stampLine : Ended (stampLine entry) := by
  obtain ⟨-, -, -, unbroken⟩ := parseStamp_getLast valid
  refine ⟨varName entry.1 ++ '=' :: entry.2.toList, ?_, rfl⟩
  intro inLine
  rcases mem_append.mp inLine with inName | inRest
  · rcases mem_append.mp inName with inPrefix | inChars
    · revert inPrefix
      decide
    obtain ⟨c, inTarget, isBreak⟩ := mem_map.mp inChars
    have back := (lowerKebab_upperSnake (targetNameGrammar_chars grammar c inTarget)).1
    have isBreak' : upperSnake c = '\n' := isBreak
    rw [isBreak'] at back
    have isC : c = '\n' := back.symm.trans (by decide)
    have allowed := targetNameGrammar_chars grammar c inTarget
    rw [isC] at allowed
    revert allowed
    decide
  rcases mem_cons.mp inRest with bad | inStamp
  · exact absurd bad (by decide)
  · exact unbroken inStamp

theorem parseManagedLine_stampLine (fresh : entry.1 ∉ stamps.names) :
    parseManagedLine digits stamps (stampLine entry) = .ok (stamps ++ [entry]) := by
  have cut := cutAtEquals_append (equals_notMem_varName grammar) entry.2.toList
  have nonempty : varName entry.1 ++ '=' :: entry.2.toList ≠ [] := by simp
  have stampValid : ¬ parseStamp digits (String.ofList entry.2.toList) = false := by simp [valid]
  rw [parseManagedLine, trimLineEnd_stampLine valid, if_neg nonempty, cut]
  dsimp only
  rw [targetFromVar_varName grammar]
  dsimp only
  rw [if_neg fresh, if_neg stampValid, String.ofList_toList]

end Entry

/-- The stamps may be committed: their targets are distinct and well named, and the stamps
well formed. -/
structure Committable (digits : Option Nat) (stamps : Named String) : Prop where
  distinct : stamps.names.Nodup
  grammar : ∀ entry ∈ stamps, targetNameGrammar entry.1 = true
  valid : ∀ entry ∈ stamps, parseStamp digits entry.2 = true

theorem parseManagedLines_stampLines {entries : Named String}
    (committable : Committable digits (stamps ++ entries)) :
    parseManagedLines digits stamps (entries.map stampLine) = .ok (stamps ++ entries) := by
  induction entries generalizing stamps with
  | nil => simp [parseManagedLines]
  | cons entry entries ih =>
    have inBoth : entry ∈ stamps ++ entry :: entries := by simp
    have fresh : entry.1 ∉ stamps.names := by
      have distinct := committable.distinct
      rw [Named.names, map_append, map_cons, nodup_append] at distinct
      exact fun inStamps => distinct.2.2 entry.1 inStamps entry.1 (.head _) rfl
    have onward : stamps ++ entry :: entries = stamps ++ [entry] ++ entries := by simp
    rw [map_cons, parseManagedLines, parseManagedLine_stampLine (committable.grammar entry inBoth)
      (committable.valid entry inBoth) fresh]
    rw [onward] at committable ⊢
    exact ih committable

theorem mem_sortedStamps : entry ∈ sortedStamps stamps ↔ entry ∈ stamps := mem_insertionSort _

theorem Committable.sorted (committable : Committable digits stamps) :
    Committable digits (sortedStamps stamps) where
  distinct := ((perm_insertionSort _ stamps).map _).nodup_iff.mpr committable.distinct
  grammar entry inSorted := committable.grammar entry (mem_sortedStamps.mp inSorted)
  valid entry inSorted := committable.valid entry (mem_sortedStamps.mp inSorted)

theorem trimLineEnd_begin : trimLineEnd (managedBegin ++ ['\n']) = managedBegin := by decide

theorem trimLineEnd_end : trimLineEnd (managedEnd ++ ['\n']) = managedEnd := by decide

theorem exists_plain_lines (plain : ∀ line ∈ splitKeepEnds raw, Plain line) :
    ∃ lines : List Line, (∀ line ∈ lines, Ended line ∧ Plain line) ∧
      raw ++ (if raw ≠ [] ∧ raw.getLast? ≠ some '\n' then ['\n'] else []) = lines.flatten := by
  obtain ⟨lines, last, ended, unbroken, rfl⟩ := exists_lines raw
  rw [splitKeepEnds_flatten ended, splitKeepEnds_unbroken unbroken] at plain
  have older : ∀ line ∈ lines, Ended line ∧ Plain line :=
    fun line inLines => ⟨ended line inLines, plain line (mem_append_left _ inLines)⟩
  by_cases isEmpty : last = []
  · subst isEmpty
    refine ⟨lines, older, ?_⟩
    rw [append_nil, if_neg, append_nil]
    rintro ⟨nonempty, notEnded⟩
    rcases eq_nil_or_concat lines with rfl | ⟨_, line, rfl⟩
    · exact nonempty rfl
    · obtain ⟨_, -, rfl⟩ := ended line (by simp)
      exact notEnded (by simp)
  have separator : lines.flatten ++ last ≠ [] ∧ (lines.flatten ++ last).getLast? ≠ some '\n' := by
    refine ⟨by simp [isEmpty], fun isEnd => unbroken ?_⟩
    rw [getLast?_append_of_ne_nil _ isEmpty] at isEnd
    exact mem_of_getLast? isEnd
  have isOpen : openLine last = [last] := if_neg isEmpty
  -- the new line end does not change what the last line says
  have notEnded : trimSuffix '\n' last = last :=
    if_neg fun isEnd => unbroken (mem_of_getLast? isEnd)
  have same : trimLineEnd (last ++ ['\n']) = trimLineEnd last := by
    rw [trimLineEnd, trimSuffix_append, trimLineEnd, notEnded]
  refine ⟨lines ++ [last ++ ['\n']], fun line inLines => ?_, by rw [if_pos separator]; simp⟩
  rcases mem_append.mp inLines with old | isLast
  · exact older line old
  rw [mem_singleton.mp isLast]
  refine ⟨⟨last, unbroken, rfl⟩, ?_⟩
  rw [Plain, same]
  exact plain last (mem_append_right _ (isOpen ▸ mem_singleton_self last))

section Splice
variable {next : List Char} (committable : Committable digits stamps)
include committable

theorem ended_blockLines : ∀ line ∈ blockLines stamps, Ended line := by
  intro _ inBlock
  rcases mem_append.mp inBlock with inFirst | isEnd
  · rcases mem_cons.mp inFirst with rfl | inEntries
    · exact ⟨managedBegin, by decide, rfl⟩
    · obtain ⟨entry, inSorted, rfl⟩ := mem_map.mp inEntries
      exact ended_stampLine (committable.sorted.grammar entry inSorted)
        (committable.sorted.valid entry inSorted)
  · rw [mem_singleton.mp isEnd]
    exact ⟨managedEnd, by decide, rfl⟩

theorem locate_around_block {before : List Line} {after : List Char}
    (ended : ∀ line ∈ before, Ended line) (plain : ∀ line ∈ before, Plain line)
    (plainAfter : ∀ line ∈ splitKeepEnds after, Plain line) :
    locateManagedBlock (splitKeepEnds (before.flatten ++ renderManagedBlock stamps ++ after)) =
      .ok (some (before, (sortedStamps stamps).map stampLine, splitKeepEnds after)) := by
  have lines : splitKeepEnds (before.flatten ++ renderManagedBlock stamps ++ after) =
      before ++ (managedBegin ++ ['\n']) :: ((sortedStamps stamps).map stampLine ++
        (managedEnd ++ ['\n']) :: splitKeepEnds after) := by
    rw [append_assoc, splitKeepEnds_flatten ended, renderManagedBlock,
      splitKeepEnds_flatten (ended_blockLines committable)]
    simp [blockLines]
  have plainBody : ∀ line ∈ (sortedStamps stamps).map stampLine, Plain line := by
    intro _ inBody
    obtain ⟨entry, inSorted, rfl⟩ := mem_map.mp inBody
    exact plain_stampLine (committable.sorted.valid entry inSorted)
  rw [lines, locate_block trimLineEnd_begin trimLineEnd_end plain plainBody plainAfter]

omit committable in
theorem splice_around (spliced : spliceManagedBlock raw (renderManagedBlock stamps) = .ok next) :
    ∃ before after : List Line, (∀ line ∈ before, Ended line) ∧ (∀ line ∈ before, Plain line) ∧
      (∀ line ∈ after, Plain line) ∧
      splitKeepEnds after.flatten = after ∧ next = before.flatten ++ renderManagedBlock stamps ++
        after.flatten := by
  unfold spliceManagedBlock at spliced
  cases located : locateManagedBlock (splitKeepEnds raw) with
  | error =>
    rw [located] at spliced
    cases spliced
  | ok found =>
    rw [located] at spliced
    cases found with
    | some parts =>
      obtain ⟨before, inner, after⟩ := parts
      cases spliced
      obtain ⟨opening, closing, split, -, plain, plainAfter⟩ := locate_eq_ok located
      have split' : splitKeepEnds raw = (before ++ opening :: (inner ++ [closing])) ++
          after := by simp [split]
      exact ⟨before, after, (splitKeepEnds_append split).1 (by simp), plain, plainAfter,
        (splitKeepEnds_append split').2, rfl⟩
    | none =>
      cases spliced
      obtain ⟨lines, ended, separated⟩ := exists_plain_lines (locate_eq_ok located)
      refine ⟨lines, [], fun line inLines => (ended line inLines).1,
        fun line inLines => (ended line inLines).2, by simp, rfl, ?_⟩
      rw [separated, flatten_nil, append_nil]

theorem locate_splice (spliced : spliceManagedBlock raw (renderManagedBlock stamps) = .ok next) :
    ∃ before after, locateManagedBlock (splitKeepEnds next) =
        .ok (some (before, (sortedStamps stamps).map stampLine, after)) ∧
      next = before.flatten ++ renderManagedBlock stamps ++ after.flatten := by
  obtain ⟨before, after, ended, plain, plainAfter, lines, rfl⟩ := splice_around spliced
  refine ⟨before, after, ?_, rfl⟩
  rw [locate_around_block committable ended plain (lines.symm ▸ plainAfter), lines]

theorem parse_splice (spliced : spliceManagedBlock raw (renderManagedBlock stamps) = .ok next) :
    parseManagedBlock digits next = .ok (sortedStamps stamps) := by
  obtain ⟨_, _, located, -⟩ := locate_splice committable spliced
  rw [parseManagedBlock, located]
  exact parseManagedLines_stampLines committable.sorted

theorem splice_splice (spliced : spliceManagedBlock raw (renderManagedBlock stamps) = .ok next) :
    spliceManagedBlock next (renderManagedBlock stamps) = .ok next := by
  obtain ⟨_, _, located, whole⟩ := locate_splice committable spliced
  rw [spliceManagedBlock, located]
  exact congrArg _ whole.symm

end Splice

theorem parseManagedLine_nodup {next : Named String} {line : Line} (distinct : stamps.names.Nodup)
    (parsed : parseManagedLine digits stamps line = .ok next) : next.names.Nodup := by
  unfold parseManagedLine at parsed
  dsimp only at parsed
  split at parsed
  · cases parsed
    exact distinct
  split at parsed
  · cases parsed
  split at parsed
  · cases parsed
  split at parsed
  · cases parsed
  rename_i target _ fresh
  split_ifs at parsed
  cases parsed
  rw [Named.names, map_append]
  exact distinct.append (nodup_singleton _) (disjoint_singleton.mpr fresh)

theorem parseManagedBlock_nodup (parsed : parseManagedBlock digits raw = .ok stamps) :
    stamps.names.Nodup := by
  have lines : ∀ (body : List Line) (before after : Named String), before.names.Nodup →
      parseManagedLines digits before body = .ok after → after.names.Nodup := by
    intro body
    induction body with
    | nil =>
      rintro before after distinct ⟨⟩
      exact distinct
    | cons line _ ih =>
      intro before after distinct parsed
      rw [parseManagedLines] at parsed
      cases first : parseManagedLine digits before line with
      | error =>
        rw [first] at parsed
        cases parsed
      | ok next =>
        rw [first] at parsed
        exact ih next after (parseManagedLine_nodup distinct first) parsed
  unfold parseManagedBlock at parsed
  cases located : locateManagedBlock (splitKeepEnds raw) with
  | error =>
    rw [located] at parsed
    cases parsed
  | ok found =>
    rw [located] at parsed
    cases found with
    | none =>
      cases parsed
      exact nodup_nil
    | some parts => exact lines parts.2.1 [] stamps nodup_nil parsed

theorem flatten_splitKeepEnds (raw : List Char) : (splitKeepEnds raw).flatten = raw := by
  induction raw with
  | nil => rfl
  | cons c rest ih =>
    rw [splitKeepEnds]
    split
    · rw [flatten_cons, ih, singleton_append]
    split
    · rename_i none_
      simp_all
    · rename_i some_
      simp_all

theorem varName_inj {target' : String} (grammar : targetNameGrammar target = true)
    (grammar' : targetNameGrammar target' = true) (same : varName target = varName target') :
    target = target' := by
  have back := targetFromVar_varName grammar
  rw [same, targetFromVar_varName grammar'] at back
  exact (Option.some.inj back).symm

theorem spliceManagedBlock_ok (parsed : parseManagedBlock digits raw = .ok stamps)
    (block : List Char) : ∃ next, spliceManagedBlock raw block = .ok next := by
  unfold parseManagedBlock at parsed
  unfold spliceManagedBlock
  cases located : locateManagedBlock (splitKeepEnds raw) with
  | error =>
    rw [located] at parsed
    cases parsed
  | ok found =>
    cases found with
    | none | some => exact ⟨_, rfl⟩

/-- What a splice replaces: nothing, or the lines from the opening to the closing marker. -/
def Spliced (raw block next : List Char) : Option (List Line × List Line × List Line) → Prop
  | none => (∀ line ∈ splitKeepEnds raw, Plain line) ∧
    next = raw ++ (if raw ≠ [] ∧ raw.getLast? ≠ some '\n' then ['\n'] else []) ++ block
  | some (before, inner, after) => ∃ opening closing, trimLineEnd opening = managedBegin ∧
    trimLineEnd closing = managedEnd ∧
    raw = before.flatten ++ (opening ++ inner.flatten ++ closing) ++ after.flatten ∧
    next = before.flatten ++ block ++ after.flatten

section
variable {found : Option (List Line × List Line × List Line)}

theorem spliced_of_located (located : locateManagedBlock (splitKeepEnds raw) = .ok found)
    (block : List Char) :
    ∃ next, spliceManagedBlock raw block = .ok next ∧ Spliced raw block next found := by
  rw [spliceManagedBlock, located]
  cases found with
  | none => exact ⟨_, rfl, locate_eq_ok located, rfl⟩
  | some parts =>
    obtain ⟨before, inner, after⟩ := parts
    obtain ⟨opening, closing, split, marked, -⟩ := locate_eq_ok located
    refine ⟨_, rfl, opening, closing, marked.1, marked.2, ?_, rfl⟩
    rw [← flatten_splitKeepEnds raw, split]
    simp

/-- Splicing replaces the block and nothing else; what is parsed back are the stamps, whatever
number of digits they are to have. -/
theorem splice_managed_block (digits : Option Nat) (raw : List Char)
    (located : locateManagedBlock (splitKeepEnds raw) = .ok found)
    (stamps : Named String) (committable : Committable digits stamps) :
    (∃ next parsed, spliceManagedBlock raw (renderManagedBlock stamps) = .ok next ∧
      Spliced raw (renderManagedBlock stamps) next found ∧
      parseManagedBlock digits next = .ok parsed ∧ parsed.Perm stamps ∧
      spliceManagedBlock next (renderManagedBlock stamps) = .ok next) ∧
    ∀ target target', targetNameGrammar target = true → targetNameGrammar target' = true →
      varName target = varName target' → target = target' := by
  obtain ⟨next, spliced, frame⟩ := spliced_of_located located (renderManagedBlock stamps)
  exact ⟨⟨next, sortedStamps stamps, spliced, frame, parse_splice committable spliced,
    perm_insertionSort _ _, splice_splice committable spliced⟩, fun _ _ => varName_inj⟩

def webStamps : Named String :=
  [("web", "v1-0123456789abcdef0123456789abcdef"),
    ("db-main", "v1-00000000000000000000000000000000")]

theorem splice_open_line :
    ∃ next parsed, spliceManagedBlock "A=1".toList (renderManagedBlock webStamps) = .ok next ∧
      Spliced "A=1".toList (renderManagedBlock webStamps) next none ∧
      parseManagedBlock (some 32) next = .ok parsed ∧ parsed.Perm webStamps ∧
      spliceManagedBlock next (renderManagedBlock webStamps) = .ok next :=
  (splice_managed_block (some 32) _ (by decide) _ ⟨by decide, by decide, by decide⟩).1

end

end Hikyo.Compose
