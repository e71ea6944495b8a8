import Hikyo.Project.State

/-!
# Config parameters

The references to config parameters in values.  `transform` is the single pass that both the
reference check and the substitution run; a value without references is validated when it is
written, any other one when it is delivered.
-/

namespace Hikyo.Project

open Hikyo.Lib List

def maxValueBytes : Nat := 65536

/-- `^[A-Z][A-Z0-9_]{0,63}$`. -/
def isParameterName : List Char → Bool
  | [] => false
  | first :: rest =>
    first.isUpper && rest.all (fun c => c.isUpper || c.isDigit || c == '_') && rest.length ≤ 63

/-- The text before the first `${` and the text after it. -/
def cutMarker : List Char → Option (List Char × List Char)
  | [] => none
  | '$' :: '{' :: rest => some ([], rest)
  | c :: rest =>
    match cutMarker rest with
    | none => none
    | some (before, after) => some (c :: before, after)

def cutBrace : List Char → Option (List Char × List Char)
  | [] => none
  | '}' :: rest => some ([], rest)
  | c :: rest =>
    match cutBrace rest with
    | none => none
    | some (name, after) => some (c :: name, after)

def checkLimit (maxBytes : Option Nat) (out : String) : Except String Unit :=
  match maxBytes with
  | none => .ok ()
  | some limit => require (out.utf8ByteSize ≤ limit) s!"resolved config exceeds {limit} bytes"

def invalidReference : String := "invalid parameter reference; expected $\x7bNAME\x7d or $$\x7b"

section Transform
variable {σ : Type}

/-- The callback may keep a state.  An iteration consumes at least two characters. -/
def transformLoop (replacement : σ → String → Except String (σ × String)) (maxBytes : Option Nat) :
    Nat → List Char → String → σ → Except String (σ × String)
  | _, [], out, s => do
    checkLimit maxBytes out
    return (s, out)
  | 0, _ :: _, _, _ => .error "out of fuel"
  | fuel + 1, value, out, s =>
    match cutMarker value with
    | none => do
      checkLimit maxBytes (out ++ String.ofList value)
      return (s, out ++ String.ofList value)
    | some (before, after) =>
      if before.getLast? == some '$' then do
        let out := out ++ String.ofList before.dropLast ++ "$\x7b"
        checkLimit maxBytes out
        transformLoop replacement maxBytes fuel after out s
      else
        match cutBrace after with
        | none => .error invalidReference
        | some (name, rest) => do
          require (isParameterName name = true) invalidReference
          let (s, text) ← replacement s (String.ofList name)
          let out := out ++ String.ofList before ++ text
          checkLimit maxBytes out
          transformLoop replacement maxBytes fuel rest out s

def transform (value : String) (replacement : σ → String → Except String (σ × String))
    (maxBytes : Option Nat) (s : σ) : Except String (σ × String) :=
  transformLoop replacement maxBytes value.toList.length value.toList "" s

end Transform

def references (value : String) : Except String (List String) :=
  (transform value (fun names name => .ok (names ++ [name], "")) none []).map Prod.fst

def checkReferences (value : String) (declarations : Declarations) : Except String Unit :=
  if declarations.isEmpty then .ok ()
  else do
    let names ← references value
    match names.find? fun name => !(declarations.any fun d => d.1 == name) with
    | some name => .error s!"undeclared parameter {name}"
    | none => .ok ()

/-- Substitutes once; what the caller supplies is never scanned again. -/
def resolve (value : String) (supplied : List (String × String)) (maxBytes : Nat) :
    Except String String :=
  (transform value (fun (_ : Unit) name =>
    match supplied.lookup name with
    | none => .error s!"required parameter {name} is missing"
    | some text => .ok ((), text)) (some maxBytes) ()).map Prod.snd

example : references "$\x7bA\x7d/$$\x7bB\x7d/$\x7bC_1\x7d" = .ok ["A", "C_1"] := by decide

example : resolve "$\x7bA\x7d/$$\x7bA\x7d" [("A", "$\x7bB\x7d")] 64 =
    .ok "$\x7bB\x7d/$\x7bA\x7d" := by decide

def hasMarker (value : String) : Bool := (cutMarker value.toList).isSome

def hasEscape : List Char → Bool
  | [] => false
  | '$' :: '$' :: '{' :: _ => true
  | _ :: rest => hasEscape rest

theorem cutMarker_eq_some {value before after : List Char}
    (cut : cutMarker value = some (before, after)) :
    value = before ++ '$' :: '{' :: after := by
  fun_induction cutMarker value generalizing before with
  | case1 | case3 => cases cut
  | case2 =>
    cases cut
    rfl
  | case4 _ _ _ _ _ found ih =>
    cases cut
    exact congrArg _ (ih found)

theorem hasEscape_append {before : List Char} (after : List Char)
    (escaped : before.getLast? = some '$') :
    hasEscape (before ++ '$' :: '{' :: after) = true := by
  induction before with
  | nil => cases escaped
  | cons c rest ih =>
    cases rest with
    | nil =>
      obtain rfl : c = '$' := by simpa using escaped
      rfl
    | cons =>
      have later := ih (by simpa using escaped)
      rw [cons_append, hasEscape.eq_def]
      split
      · rename_i impossible
        cases impossible
      · rfl
      · rename_i same
        cases same
        exact later

theorem collected_grow {fuel : Nat} {value : List Char} {out text : String}
    {seen names : List String}
    (run : transformLoop (fun names name => .ok (names ++ [name], "")) none fuel value out seen =
      .ok (names, text)) :
    seen <+: names := by
  fun_induction transformLoop with
  | case1 | case3 =>
    cases run
    exact prefix_rfl
  | case2 | case5 => cases run
  | case4 _ _ _ _ _ _ _ _ _ _ ih => exact ih run
  | case6 _ _ _ seen _ _ _ _ _ name _ _ ih =>
    exact (prefix_append _ _).trans
      (ih (seen ++ [String.ofList name]) "" (require_bind_eq_ok.mp run).2)

/-- A value without references and escapes has no marker. -/
theorem hasMarker_of_plain {value : String} (none_ : references value = .ok [])
    (plain : hasEscape value.toList = false) : hasMarker value = false := by
  obtain ⟨⟨_, _⟩, run, same⟩ := map_eq_ok.mp none_
  cases same
  rw [hasMarker, Option.isSome_eq_false_iff, Option.isNone_iff_eq_none]
  by_contra marked
  obtain ⟨⟨_, after⟩, cut⟩ := Option.ne_none_iff_exists'.mp marked
  rw [transform] at run
  generalize value.toList = chars at *
  cases chars with
  | nil => cases cut
  | cons =>
    rw [length_cons, transformLoop.eq_3 _ _ _ _ _ _ (by simp), cut] at run
    dsimp only at run
    split at run
    · rename_i escaped
      have found := hasEscape_append after (eq_of_beq escaped)
      rw [← cutMarker_eq_some cut, plain] at found
      cases found
    split at run
    · cases run
    -- the first reference stays in the list
    obtain ⟨_, longer⟩ := collected_grow (require_bind_eq_ok.mp run).2
    cases longer

/-- A literal is checked now; a value with references is checked when delivered. -/
def validateValueWithParameters (server : Server) (key : CatalogueKey) (value : String)
    (declarations : Declarations) : Except ServiceError Unit :=
  if key.classification ≠ .config ∨ declarations.isEmpty ∨ hasMarker value = false then
    validateLiteral value
  else if maxValueBytes < value.utf8ByteSize then
    .error (.invalid s!"key {key.name} exceeds the value byte limit")
  else
    match references value with
    | .error e => .error (.invalid s!"key {key.name}: {e}")
    | .ok names =>
      match names.find? fun name => !(declarations.any fun d => d.1 == name) with
      | some name => .error (.invalid s!"key {key.name}: undeclared parameter {name}")
      | none =>
        if names.isEmpty then
          match resolve value [] maxValueBytes with
          | .error e => .error (.invalid s!"key {key.name}: {e}")
          | .ok resolved => validateLiteral resolved
        else .ok ()
where
  validateLiteral (text : String) : Except ServiceError Unit :=
    if server.validateLiteralValue key.classification key.declaration text then .ok ()
    else .error (.invalid s!"value for {key.name} is invalid")

end Hikyo.Project
