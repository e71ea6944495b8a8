import Hikyo.Lib.Encoding
import Hikyo.Lib.Transaction
import Mathlib.Algebra.GroupWithZero.Nat
import Mathlib.Data.List.Nodup

/-!
# Verdicts of value validation

A declaration compiles to its alternatives; a value is valid when one of them reports no failure.
Otherwise the failures are deduplicated and cut to the caps of one verdict, on the number of errors
and on the bytes of the whole JSON text, and a single failure that is too large is shrunk until it
fits.  `verdict_sound`: for every compiled declaration and every value the verdict is valid exactly
if it has no errors, its errors are distinct and within the caps.  Texts are Go strings, any bytes
at all.  What one rule accepts is the engine's business.
-/

namespace Hikyo.Schema

open Hikyo.Lib List

abbrev Text := List UInt8

structure Failure where
  alternative : Int64
  keyword : Text
  message : Text
  instancePath : Text
  deriving DecidableEq

structure Verdict where
  valid : Bool
  errors : List Failure

def maxVerdictErrors : Nat := 100
def maxVerdictErrorBytes : Nat := 65536
def maxValueBytes : Nat := 65536
def maxAnyOfAlternatives : Nat := 8

variable {s : Text} {f : Failure} {failures : List Failure}

section Encoding

def escapedByte (b : UInt8) : Nat :=
  if b = 0x22 ∨ b = 0x5c ∨ b = 8 ∨ b = 9 ∨ b = 10 ∨ b = 12 ∨ b = 13 then 2
  else if b < 0x20 ∨ b = 0x26 ∨ b = 0x3c ∨ b = 0x3e then 6
  else 1

def escapedRune (c : Char) : Nat :=
  if c.toNat = 0x2028 ∨ c.toNat = 0x2029 then 6 else c.utf8Size

/-- The bytes of a JSON string between its quotes; `skip` bytes belong to the rune before. -/
def escapedSize : Nat → Text → Nat
  | _, [] => 0
  | skip + 1, _ :: rest => escapedSize skip rest
  | 0, b :: rest =>
    if b < 0x80 then escapedByte b + escapedSize 0 rest
    else match ByteArray.utf8DecodeChar? ⟨(b :: rest).toArray⟩ 0 with
      -- an invalid byte is written as the escape of U+FFFD
      | none => 6 + escapedSize 0 rest
      | some c => escapedRune c + escapedSize (c.utf8Size - 1) rest

def quotedSize (s : Text) : Nat := escapedSize 0 s + 2

def failureSize (f : Failure) : Nat :=
  "\x7b\"alternative\":".length + (toString f.alternative.toInt).length
    + ",\"keyword\":".length + quotedSize f.keyword + ",\"message\":".length + quotedSize f.message
    + (if f.instancePath = [] then 0 else ",\"instance_path\":".length + quotedSize f.instancePath)
    + "\x7d".length

def verdictSize (v : Verdict) : Nat :=
  (if v.valid then "\x7b\"valid\":true" else "\x7b\"valid\":false").length
    + (if v.errors = [] then 0 else
      ",\"errors\":[".length + (v.errors.map failureSize).sum + (v.errors.length - 1) + "]".length)
    + "\x7d".length

def encodedSize (failures : List Failure) : Nat := verdictSize ⟨false, failures⟩

theorem escapedByte_le (b : UInt8) : escapedByte b ≤ 6 := by
  unfold escapedByte
  split
  · decide
  · split <;> decide

theorem escapedRune_le (c : Char) : escapedRune c ≤ 6 := by
  unfold escapedRune
  split
  · decide
  · exact Nat.le_trans c.utf8Size_le_four (by decide)

theorem escapedSize_le (skip : Nat) (s : Text) : escapedSize skip s ≤ 6 * s.length := by
  induction s generalizing skip with
  | nil => simp [escapedSize]
  | cons b rest ih =>
    rw [length_cons]
    cases skip with
    | succ skip =>
      rw [escapedSize]
      have := ih skip
      omega
    | zero =>
      rw [escapedSize]
      split
      · have := escapedByte_le b
        have := ih 0
        omega
      split
      · have := ih 0
        omega
      next c _ =>
      have := escapedRune_le c
      have := ih (c.utf8Size - 1)
      omega

theorem decimal_le (n : Int64) : (toString n.toInt).length ≤ 20 := by
  have low := n.le_toInt
  have high := n.toInt_lt
  rcases sign : n.toInt with m | m
  · have := Int.ofNat_eq_natCast m
    exact (Nat.length_repr_le_iff (by decide)).mpr (by omega)
  show ("-" ++ m.succ.repr).length ≤ 20
  have digits : m.succ.repr.length ≤ 19 := (Nat.length_repr_le_iff (by decide)).mpr (by omega)
  rw [String.length_append]
  exact Nat.add_le_add (by decide : "-".length ≤ 1) digits

/-- What the envelope adds to the texts of one failure without an instance path. -/
theorem encodedSize_le (bare : f.instancePath = []) :
    encodedSize [f] ≤ 89 + 6 * (f.keyword.length + f.message.length) := by
  have decimal := decimal_le f.alternative
  have keyword := escapedSize_le 0 f.keyword
  have message := escapedSize_le 0 f.message
  have envelope : "\x7b\"valid\":false".length + ",\"errors\":[".length +
      "\x7b\"alternative\":".length +
      ",\"keyword\":".length + ",\"message\":".length + "\x7d".length + "]".length +
        "\x7d".length = 65 := by
    decide
  simp only [encodedSize, verdictSize, failureSize, bare, quotedSize, if_true, if_false,
    Bool.false_eq_true, cons_ne_self, map_singleton, sum_singleton, length_singleton]
  omega

end Encoding

section Truncation

def validString (s : Text) : Bool := ByteArray.validateUTF8 ⟨s.toArray⟩

def backOff (s : Text) : Nat → Nat
  | 0 => 0
  | n + 1 => if validString (s.take (n + 1)) then n + 1 else backOff s n

def trimRunes (s : Text) (n : Nat) : Text :=
  s.take (backOff s (if s.length ≤ n then s.length - 1 else n))

theorem backOff_le (s : Text) (n : Nat) : backOff s n ≤ n := by
  induction n with
  | zero => exact Nat.le_refl 0
  | succ n ih =>
    rw [backOff]
    split
    · exact Nat.le_refl _
    · omega

theorem trimRunes_lt {s : Text} (n : Nat) (more : s ≠ []) : (trimRunes s n).length < s.length := by
  have pos := length_pos_iff.mpr more
  have cut := backOff_le s (if s.length ≤ n then s.length - 1 else n)
  rw [trimRunes, length_take]
  split at cut
  · next long => rw [if_pos long]; omega
  · next short => rw [if_neg short]; omega

/-- The loop of `truncateFailure`: halve the message, then the keyword, until the verdict fits. -/
def shrink (f : Failure) : Failure :=
  if encodedSize [f] ≤ maxVerdictErrorBytes then f
  else if f.message ≠ [] then
    shrink { f with message := trimRunes f.message ((f.message.length + 1) / 2) }
  else if f.keyword ≠ [] then
    shrink { f with keyword := trimRunes f.keyword ((f.keyword.length + 1) / 2) }
  else f
termination_by f.message.length + f.keyword.length
decreasing_by
  · exact Nat.add_lt_add_right (trimRunes_lt _ ‹_›) _
  · exact Nat.add_lt_add_left (trimRunes_lt _ ‹_›) _

def truncateFailure (f : Failure) : Failure := shrink { f with instancePath := [] }

theorem shrink_fits (f : Failure) (bare : f.instancePath = []) :
    encodedSize [shrink f] ≤ maxVerdictErrorBytes := by
  fun_induction shrink f with
  | case1 f fits => exact fits
  | case2 f _ _ ih => exact ih bare
  | case3 f _ _ _ ih => exact ih bare
  | case4 f _ noMessage noKeyword =>
    have small := encodedSize_le bare
    rw [not_ne_iff.mp noMessage, not_ne_iff.mp noKeyword] at small
    exact Nat.le_trans small (by decide)

/-- The loop over the failures: `seen` those met so far, `out` those kept. -/
def collect : List Failure → List Failure → List Failure → List Failure
  | _, out, [] => out
  | seen, out, f :: rest =>
    if f ∈ seen then collect seen out rest
    else if maxVerdictErrors ≤ out.length then out
    else if maxVerdictErrorBytes < encodedSize (out ++ [f]) then out
    else collect (f :: seen) (out ++ [f]) rest

def capFailures (failures : List Failure) : List Failure :=
  match collect [] [] failures, failures with
  | [], f :: _ => [truncateFailure f]
  | out, _ => out

/-- What holds of every verdict: a consumer may read validity off its list of errors. -/
structure Verdict.Sound (v : Verdict) : Prop where
  valid_iff : v.valid = true ↔ v.errors = []
  few : v.errors.length ≤ maxVerdictErrors
  nodup : v.errors.Nodup
  fits : verdictSize v ≤ maxVerdictErrorBytes

structure Capped (out : List Failure) : Prop where
  few : out.length ≤ maxVerdictErrors
  nodup : out.Nodup
  fits : encodedSize out ≤ maxVerdictErrorBytes

theorem Capped.sound (capped : Capped failures) (failed : failures ≠ []) :
    Verdict.Sound ⟨false, failures⟩ :=
  ⟨by simp [failed], capped.few, capped.nodup, capped.fits⟩

theorem collect_capped {seen out : List Failure} (known : out ⊆ seen) (capped : Capped out)
    (failures : List Failure) : Capped (collect seen out failures) := by
  induction failures generalizing seen out with
  | nil => exact capped
  | cons f rest ih =>
    rw [collect]
    split
    · exact ih known capped
    next new =>
    split
    · exact capped
    split
    · exact capped
    next room fits =>
    refine ih (append_subset.mpr ⟨subset_cons_of_subset f known, by simp⟩) ⟨?_, ?_, by omega⟩
    · rw [length_append, length_singleton]
      omega
    · exact nodup_append.mpr ⟨capped.nodup, nodup_singleton f, fun a mem b last same =>
        new (known (mem_singleton.mp last ▸ same ▸ mem))⟩

theorem singleton_capped (fits : encodedSize [f] ≤ maxVerdictErrorBytes) : Capped [f] :=
  ⟨show 1 ≤ 100 by decide, nodup_singleton f, fits⟩

theorem capFailures_capped (failures : List Failure) : Capped (capFailures failures) := by
  unfold capFailures
  split
  · exact singleton_capped (shrink_fits _ rfl)
  · exact collect_capped (nil_subset []) ⟨by decide, nodup_nil, by decide⟩ _

theorem capFailures_ne_nil (failed : failures ≠ []) : capFailures failures ≠ [] := by
  unfold capFailures
  split
  · exact cons_ne_nil _ _
  next out nonempty =>
  intro empty
  obtain ⟨f, rest, rfl⟩ := exists_cons_of_ne_nil failed
  exact nonempty f rest empty rfl

end Truncation

section Validate

structure Declaration (Rule : Type) where
  rule : Option Rule
  anyOf : List Rule

/-- The text of the refusal of a declaration. -/
abbrev DeclError := String

/-- The parts that depend on the rule types; a compiled rule reports the failures of one value. -/
structure Engine (Class Rule : Type) where
  valid : Class → Bool
  quoted : Class → String
  normalizeRule : Rule → Except DeclError Rule
  checkDeclarationClassification : Class → Declaration Rule → Except DeclError Unit
  compileRule : Rule → Except DeclError (Text → Class → Int64 → List Failure)
  trimSpace : Text → Text

structure Compiled (Class : Type) where
  classification : Class
  single : Bool
  alts : List (Text → Class → Int64 → List Failure)

variable {Class Rule : Type} (e : Engine Class Rule)

def Declaration.alternatives (d : Declaration Rule) : List Rule :=
  match d.rule with
  | some r => [r]
  | none => d.anyOf

def normalizeForCompile (d : Declaration Rule) : Except DeclError (Declaration Rule) := do
  require (d.rule.isNone ≠ d.anyOf.isEmpty)
    "a declaration carries exactly one of `rule` or `any_of`"
  require (d.rule.isSome ∨ 2 ≤ d.anyOf.length)
    "an `any_of` union carries at least two alternatives"
  require (d.anyOf.length ≤ maxAnyOfAlternatives)
    s!"an `any_of` union carries at most {maxAnyOfAlternatives} alternatives"
  let rule ← d.rule.mapM e.normalizeRule
  let anyOf ← d.anyOf.mapM e.normalizeRule
  return ⟨rule, anyOf⟩

def compileClassified (classification : Class) (d : Declaration Rule) :
    Except DeclError (Compiled Class) := do
  require (e.valid classification)
    s!"classification {e.quoted classification} is neither `secret` nor `config`"
  let norm ← normalizeForCompile e d
  e.checkDeclarationClassification classification norm
  let alts ← norm.alternatives.mapM e.compileRule
  return ⟨classification, norm.rule.isSome, alts⟩

def fail (keyword message : String) : Verdict := ⟨false, [⟨-1, utf8 keyword, utf8 message, []⟩]⟩

/-- The loop over the alternatives, `i` the index of the next and `all` the failures so far. -/
def tryAlternatives (c : Compiled Class) (trimmed : Text) :
    Int64 → List Failure → List (Text → Class → Int64 → List Failure) → Verdict
  | _, all, [] => ⟨false, capFailures all⟩
  | i, all, alt :: rest =>
    match alt trimmed c.classification (if c.single then -1 else i) with
    | [] => ⟨true, []⟩
    | failures => tryAlternatives c trimmed (i + 1) (all ++ failures) rest

def validate (c : Compiled Class) (value : Text) : Verdict :=
  let trimmed := e.trimSpace value
  if maxValueBytes < trimmed.length then
    fail "budget.value_bytes" "value exceeds the 65536-byte validation budget"
  else if !validString trimmed then fail "lexical.utf8" "value is not valid UTF-8"
  else if 0 ∈ trimmed then fail "lexical.nul" "value contains a NUL byte"
  else tryAlternatives c trimmed 0 [] c.alts

theorem mapM_ne_nil {α β : Type} {g : α → Except DeclError β} {rows : List α} {out : List β}
    (ok : rows.mapM g = .ok out) (nonempty : rows ≠ []) : out ≠ [] := by
  obtain ⟨a, rest, rfl⟩ := exists_cons_of_ne_nil nonempty
  rw [mapM_cons] at ok
  obtain ⟨b, _, ok⟩ := bind_eq_ok.mp ok
  obtain ⟨bs, _, ⟨⟩⟩ := bind_eq_ok.mp ok
  exact cons_ne_nil b bs

theorem compiled_ne_nil {e : Engine Class Rule} {classification : Class} {d : Declaration Rule}
    {c : Compiled Class} (compiled : compileClassified e classification d = .ok c) :
    c.alts ≠ [] := by
  simp only [compileClassified, normalizeForCompile, bind_eq_ok, require_eq_ok] at compiled
  obtain ⟨_, _, norm, ⟨_, one, _, _, _, _, rule, ruled, anyOf, united, ⟨⟩⟩, _, _, alts, compiled,
      ⟨⟩⟩ := compiled
  refine mapM_ne_nil compiled ?_
  cases declared : d.rule with
  | none =>
    rw [declared] at ruled one
    cases ruled
    refine mapM_ne_nil united ?_
    rintro empty
    rw [empty] at one
    exact one rfl
  | some r =>
    rw [declared] at ruled
    obtain ⟨_, _, ⟨⟩⟩ := bind_eq_ok.mp ruled
    exact cons_ne_nil _ _

theorem fail_sound {keyword message : String}
    (short : (utf8 keyword).length + (utf8 message).length ≤ 100) :
    (fail keyword message).Sound := by
  have size := encodedSize_le (f := ⟨-1, utf8 keyword, utf8 message, []⟩) rfl
  have fits : encodedSize [⟨-1, utf8 keyword, utf8 message, []⟩] ≤ maxVerdictErrorBytes :=
    Nat.le_trans size (show 89 + 6 * (_ + _) ≤ 65536 by dsimp only; omega)
  exact (singleton_capped fits).sound (cons_ne_nil _ _)

theorem tryAlternatives_sound {c : Compiled Class} {trimmed : Text} (i : Int64)
    {all : List Failure} {alts} (more : all ≠ [] ∨ alts ≠ []) :
    (tryAlternatives c trimmed i all alts).Sound := by
  induction alts generalizing i all with
  | nil =>
    exact (capFailures_capped all).sound (capFailures_ne_nil (more.resolve_right (absurd rfl)))
  | cons alt rest ih =>
    rw [tryAlternatives]
    split
    · exact ⟨by simp, by decide, nodup_nil, by decide⟩
    · next failed => exact ih _ (.inl fun empty => failed (append_eq_nil_iff.mp empty).2)

theorem verdict_sound {e : Engine Class Rule} {classification : Class} {d : Declaration Rule}
    {c : Compiled Class} (compiled : compileClassified e classification d = .ok c) (value : Text) :
    (validate e c value).Sound := by
  unfold validate
  dsimp only
  split
  · exact fail_sound (by decide)
  split
  · exact fail_sound (by decide)
  split
  · exact fail_sound (by decide)
  · exact tryAlternatives_sound 0 (.inr (compiled_ne_nil compiled))

/-- A rule of this engine is the one text that it accepts. -/
def constEngine : Engine Unit Text where
  valid _ := true
  quoted _ := ""
  normalizeRule := .ok
  checkDeclarationClassification _ _ := .ok ()
  compileRule rule := .ok fun value _ alternative =>
    if value = rule then [] else [⟨alternative, utf8 "const", rule, []⟩]
  trimSpace := id

theorem verdict_sound_two_alternatives :
    ∃ c, compileClassified constEngine () ⟨none, [utf8 "a", utf8 "b"]⟩ = .ok c ∧
      (validate constEngine c (utf8 "c")).errors.length = 2 ∧
      (validate constEngine c (utf8 "c")).Sound := by
  obtain ⟨c, compiled, two⟩ :
      ∃ c, compileClassified constEngine () ⟨none, [utf8 "a", utf8 "b"]⟩ = .ok c ∧
        (validate constEngine c (utf8 "c")).errors.length = 2 := ⟨_, rfl, by decide +kernel⟩
  exact ⟨c, compiled, two, verdict_sound compiled (utf8 "c")⟩

end Validate

end Hikyo.Schema
