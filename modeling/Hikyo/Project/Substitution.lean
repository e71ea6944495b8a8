import Hikyo.Project.Parameters

/-!
# Parameter substitution is one pass

`substitution_single_pass`: a value is read once and from the left into literal pieces, escapes and
references (`Scans`); the result has each piece replaced, what is put in for a reference is never
looked at again, the names reported are those substituted, resolution succeeds exactly if they are
all supplied, and resolving undoes the escaping of a text.
-/

namespace Hikyo.Project

open Hikyo.Lib List

variable {fuel : Nat} {limit : Option Nat} {out text : String}

inductive Token
  | literal (text : List Char)
  | escape
  | reference (name : List Char)

/-- Before a reference a literal does not end in a dollar sign, which would make an escape. -/
inductive Scans : List Char → List Token → Prop
  | done {text : List Char} (plain : ¬ ['$', '{'] <:+: text) : Scans text [.literal text]
  | escape {text rest : List Char} {tokens : List Token} (plain : ¬ ['$', '{'] <:+: text)
      (later : Scans rest tokens) : Scans (text ++ '$' :: '$' :: '{' :: rest)
      (.literal text :: .escape :: tokens)
  | reference {text name rest : List Char} {tokens : List Token} (plain : ¬ ['$', '{'] <:+: text)
      (unescaped : text.getLast? ≠ some '$') (named : isParameterName name = true)
      (later : Scans rest tokens) :
      Scans (text ++ '$' :: '{' :: (name ++ '}' :: rest))
        (.literal text :: .reference name :: tokens)

def Token.name? : Token → Option String
  | .reference name => some (String.ofList name)
  | _ => none

def Token.meaning (value : String → String) : Token → List Char
  | .literal text => text
  | .escape => ['$', '{']
  | .reference name => (value (String.ofList name)).toList

/-- `Resolve`; no limit is what the source writes as a negative one. -/
def resolveWithin (value : String) (supplied : List (String × String)) (limit : Option Nat) :
    Except String String :=
  (transform value (fun (_ : Unit) name =>
    match supplied.lookup name with
    | none => .error s!"required parameter {name} is missing"
    | some text => .ok ((), text)) limit ()).map Prod.snd

def escapeMarkers : List Char → List Char
  | [] => []
  | '$' :: '{' :: rest => '$' :: '$' :: '{' :: escapeMarkers rest
  | c :: rest => c :: escapeMarkers rest

section Cuts
variable {value text after name rest : List Char}

theorem marker_infix_cons {c : Char} :
    ['$', '{'] <:+: c :: rest ↔ (c = '$' ∧ ∃ tail, rest = '{' :: tail) ∨ ['$', '{'] <:+: rest := by
  rw [infix_cons_iff, cons_prefix_cons]
  refine or_congr_left (and_congr eq_comm ?_)
  cases rest with
  | nil => simp
  | cons => simp [cons_prefix_cons, eq_comm]

theorem not_infix_of_cutMarker_none (cut : cutMarker value = none) : ¬ ['$', '{'] <:+: value := by
  fun_induction cutMarker value with
  | case1 => simp
  | case2 | case4 => cases cut
  | case3 c rest other _ ih =>
    rw [marker_infix_cons]
    rintro (⟨rfl, tail, rfl⟩ | later)
    · exact other tail rfl rfl
    · exact ih ‹_› later

theorem not_infix_of_cutMarker (cut : cutMarker value = some (text, after)) :
    ¬ ['$', '{'] <:+: text := by
  fun_induction cutMarker value generalizing text with
  | case1 | case3 => cases cut
  | case2 =>
    cases cut
    simp
  | case4 c rest other before later found ih =>
    cases cut
    rw [marker_infix_cons]
    rintro (⟨rfl, tail, rfl⟩ | inside)
    · exact other (tail ++ '$' :: '{' :: after) rfl (cutMarker_eq_some found)
    · exact ih found inside

theorem cutMarker_append (plain : ¬ ['$', '{'] <:+: text) :
    cutMarker (text ++ '$' :: '{' :: after) = some (text, after) := by
  induction text with
  | nil => rfl
  | cons c text ih =>
    rw [marker_infix_cons, not_or] at plain
    rw [cons_append, cutMarker, ih plain.2]
    rintro tail rfl start
    cases text with
    | nil => cases start
    | cons d text => exact plain.1 ⟨rfl, text, by cases start; rfl⟩

theorem cutBrace_eq_some (cut : cutBrace value = some (name, rest)) :
    value = name ++ '}' :: rest := by
  fun_induction cutBrace value generalizing name with
  | case1 | case3 => cases cut
  | case2 =>
    cases cut
    rfl
  | case4 _ _ _ _ _ found ih =>
    cases cut
    exact congrArg _ (ih found)

theorem cutBrace_append (named : '}' ∉ name) :
    cutBrace (name ++ '}' :: rest) = some (name, rest) := by
  induction name with
  | nil => rfl
  | cons c name ih =>
    obtain ⟨other, later⟩ := not_or.mp (mem_cons.not.mp named)
    rw [cons_append, cutBrace, ih later]
    exact fun same => other same.symm

theorem brace_not_mem (named : isParameterName name = true) : '}' ∉ name := by
  cases name with
  | nil => cases named
  | cons first rest =>
    simp only [isParameterName, Bool.and_eq_true, all_eq_true] at named
    intro mem
    rcases mem_cons.mp mem with rfl | mem
    · exact absurd named.1.1 (by decide)
    · exact absurd (named.1.2 _ mem) (by decide)

end Cuts

section Passes
variable {σ : Type} {replacement : σ → String → Except String (σ × String)}

def substitute (replacement : σ → String → Except String (σ × String)) :
    List Token → String → σ → Except String (σ × String)
  | [], out, s => .ok (s, out)
  | .literal text :: rest, out, s => substitute replacement rest (out ++ String.ofList text) s
  | .escape :: rest, out, s => substitute replacement rest (out ++ "$\x7b") s
  | .reference name :: rest, out, s => do
    let (s, text) ← replacement s (String.ofList name)
    substitute replacement rest (out ++ text) s

theorem transformLoop_of_scans {value : List Char} {tokens : List Token}
    (scans : Scans value tokens) (enough : value.length ≤ fuel) (out : String) (s : σ) :
    transformLoop replacement none fuel value out s = substitute replacement tokens out s := by
  induction scans generalizing fuel out s with
  | @done text plain =>
    cases text with
    | nil => simp [transformLoop, substitute, checkLimit]
    | cons c rest =>
      obtain ⟨fuel, rfl⟩ := Nat.exists_eq_succ_of_ne_zero (Nat.ne_zero_of_lt enough)
      rw [transformLoop.eq_3 _ _ _ _ _ _ (by simp)]
      cases cut : cutMarker (c :: rest) with
      | none => rfl
      | some parts =>
        obtain ⟨before, after⟩ := parts
        refine absurd ⟨before, after, ?_⟩ plain
        rw [cutMarker_eq_some cut]
        simp
  | @escape text rest tokens plain _ ih =>
    obtain ⟨fuel, rfl⟩ := Nat.exists_eq_succ_of_ne_zero (n := fuel) (by simp at enough; omega)
    have unmarked : ¬ ['$', '{'] <:+: text ++ ['$'] := by
      rw [infix_concat_iff, suffix_concat_iff]
      rintro ((impossible | ⟨start, same, -⟩) | inside)
      · cases impossible
      · exact absurd (congrArg getLast? same) (by simp)
      · exact plain inside
    have cut := @cutMarker_append _ rest unmarked
    rw [append_assoc, singleton_append] at cut
    rw [transformLoop.eq_3 _ _ _ _ _ _ (by simp), cut]
    simp only [getLast?_concat, beq_self_eq_true, if_true, dropLast_concat, checkLimit, substitute]
    exact ih (by simp at enough; omega) _ s
  | @reference text name rest tokens plain unescaped named _ ih =>
    obtain ⟨fuel, rfl⟩ := Nat.exists_eq_succ_of_ne_zero (n := fuel) (by simp at enough; omega)
    rw [transformLoop.eq_3 _ _ _ _ _ _ (by simp), cutMarker_append plain]
    simp only [beq_iff_eq, unescaped, if_false, cutBrace_append (brace_not_mem named), require,
      named, if_true, checkLimit, substitute]
    cases replacement s (String.ofList name) with
    | error => rfl
    | ok => exact ih (by simp at enough; omega) _ _

theorem scans_of_transformLoop {value : List Char} {s : σ}
    {result : σ × String} (run : transformLoop replacement limit fuel value out s = .ok result) :
    ∃ tokens, Scans value tokens ∧ substitute replacement tokens out s = .ok result := by
  fun_induction transformLoop with
  | case1 =>
    obtain ⟨_, -, same⟩ := bind_eq_ok.mp run
    cases same
    exact ⟨_, .done (by simp), by simp [substitute]⟩
  | case2 | case5 => cases run
  | case3 _ _ _ _ _ cut =>
    obtain ⟨_, -, same⟩ := bind_eq_ok.mp run
    exact ⟨_, .done (not_infix_of_cutMarker_none cut), same⟩
  | case4 fuel value out s nonempty before after cut escaped out' ih =>
    obtain ⟨_, -, later⟩ := bind_eq_ok.mp run
    obtain ⟨tokens, scans, same⟩ := ih later
    obtain ⟨start, rfl⟩ := getLast?_eq_some_iff.mp (eq_of_beq escaped)
    rw [cutMarker_eq_some cut, append_assoc, singleton_append]
    refine ⟨_, .escape (fun inside => ?_) scans, ?_⟩
    · exact not_infix_of_cutMarker cut (inside.trans (prefix_append start ['$']).isInfix)
    · simp only [out', dropLast_concat] at same
      exact same
  | case6 fuel value out s nonempty before after cut plain name rest closed ih =>
    obtain ⟨named, run⟩ := require_bind_eq_ok.mp run
    obtain ⟨⟨s', text⟩, replaced, run⟩ := bind_eq_ok.mp run
    obtain ⟨_, -, later⟩ := bind_eq_ok.mp run
    obtain ⟨tokens, scans, same⟩ := ih s' text later
    rw [cutMarker_eq_some cut, cutBrace_eq_some closed]
    refine ⟨_, .reference (not_infix_of_cutMarker cut) (by simpa using plain) named scans, ?_⟩
    rw [substitute, substitute, replaced]
    exact same

end Passes

section Outcomes
variable {value : String} {supplied : List (String × String)} {tokens : List Token}

theorem substitute_collect (out : String) (seen : List String) :
    ∃ text, substitute (fun names name => .ok (names ++ [name], "")) tokens out seen =
      .ok (seen ++ tokens.filterMap Token.name?, text) := by
  induction tokens generalizing out seen with
  | nil => exact ⟨out, by simp [substitute]⟩
  | cons token _ ih =>
    cases token with
    | literal | escape => exact ih _ seen
    | reference name =>
      obtain ⟨text, same⟩ := ih (out ++ "") (seen ++ [String.ofList name])
      exact ⟨text, by simpa [substitute, Token.name?] using same⟩

theorem references_eq_ok {names : List String} : references value = .ok names ↔
    ∃ tokens, Scans value.toList tokens ∧ names = tokens.filterMap Token.name? := by
  constructor
  · intro scanned
    obtain ⟨_, run, rfl⟩ := map_eq_ok.mp scanned
    obtain ⟨tokens, scans, same⟩ := scans_of_transformLoop run
    obtain ⟨text, collected⟩ := @substitute_collect tokens "" []
    exact ⟨tokens, scans, by rw [← Except.ok.inj (collected.symm.trans same)]; rfl⟩
  rintro ⟨tokens, scans, rfl⟩
  obtain ⟨text, collected⟩ := @substitute_collect tokens "" []
  exact map_eq_ok.mpr ⟨_, (transformLoop_of_scans scans le_rfl "" []).trans collected, rfl⟩

theorem substitute_supplied : substitute (fun (_ : Unit) name => match supplied.lookup name with
      | none => .error s!"required parameter {name} is missing"
      | some text => .ok ((), text)) tokens out () = .ok ((), text) ↔
    (∀ name ∈ tokens.filterMap Token.name?, (supplied.lookup name).isSome) ∧
      text.toList = out.toList ++
        tokens.flatMap (Token.meaning fun name => (supplied.lookup name).getD "") := by
  induction tokens generalizing out with
  | nil => simp [substitute, String.toList_inj, @eq_comm _ out]
  | cons token _ ih =>
    cases token with
    | literal | escape => simp [substitute, ih, Token.name?, Token.meaning]
    | reference name =>
      cases found : supplied.lookup (String.ofList name) with
      | none =>
        simp only [substitute, found, filterMap_cons, Token.name?, forall_mem_cons,
          Option.isSome_none]
        exact ⟨nofun, fun holds => by cases holds.1.1⟩
      | some =>
        simp only [substitute, found, filterMap_cons, Token.name?, forall_mem_cons,
          Option.isSome_some, true_and,
          flatMap_cons, Token.meaning, Option.getD_some, ok_bind, ih,
          String.toList_append, append_assoc]

theorem scans_of_resolveWithin
    (resolved : resolveWithin value supplied limit = .ok text) :
      ∃ tokens, Scans value.toList tokens ∧
      (∀ name ∈ tokens.filterMap Token.name?, (supplied.lookup name).isSome) ∧
      text.toList = tokens.flatMap (Token.meaning fun name => (supplied.lookup name).getD "") := by
  obtain ⟨_, run, rfl⟩ := map_eq_ok.mp resolved
  obtain ⟨tokens, scans, same⟩ := scans_of_transformLoop run
  exact ⟨tokens, scans, substitute_supplied.mp same⟩

theorem resolveWithin_of_scans (scans : Scans value.toList tokens) :
      resolveWithin value supplied none = .ok text ↔
      (∀ name ∈ tokens.filterMap Token.name?, (supplied.lookup name).isSome) ∧
        text.toList = tokens.flatMap
          (Token.meaning fun name => (supplied.lookup name).getD "") := by
  rw [resolveWithin, transform, transformLoop_of_scans scans le_rfl]
  constructor
  · intro resolved
    obtain ⟨_, run, rfl⟩ := map_eq_ok.mp resolved
    exact substitute_supplied.mp run
  · exact fun holds => map_eq_ok.mpr ⟨((), text), substitute_supplied.mpr holds, rfl⟩

theorem escapeMarkers_eq (text : List Char) : escapeMarkers text = match cutMarker text with
    | none => text
    | some (before, after) => before ++ '$' :: '$' :: '{' :: escapeMarkers after := by
  fun_induction cutMarker text with
  | case1 | case2 => rfl
  | case3 _ _ other found ih =>
    rw [escapeMarkers.eq_3 _ _ other, ih, found]
  | case4 _ _ other _ _ found ih =>
    rw [escapeMarkers.eq_3 _ _ other, ih, found]
    rfl

theorem scans_escapeMarkers (text : List Char) : ∃ tokens, Scans (escapeMarkers text) tokens ∧
    tokens.filterMap Token.name? = [] ∧ ∀ value, tokens.flatMap (Token.meaning value) = text := by
  induction length : text.length using Nat.strong_induction_on generalizing text with
  | _ n ih =>
    rw [escapeMarkers_eq]
    cases cut : cutMarker text with
    | none =>
        exact ⟨_, .done (not_infix_of_cutMarker_none cut), rfl, fun _ => by simp [Token.meaning]⟩
    | some parts =>
      obtain ⟨before, after⟩ := parts
      have split := cutMarker_eq_some cut
      obtain ⟨tokens, scans, none_, same⟩ :=
        ih after.length (by simp [← length, split]; omega) after rfl
      refine ⟨_, .escape (not_infix_of_cutMarker cut) scans, by simpa [Token.name?] using none_,
        fun value => ?_⟩
      simp [Token.meaning, same value, split]

/-- Escapes and references are replaced once and from the left, the names are those of `References`,
and escaping is undone. -/
theorem substitution_single_pass (value : String) (supplied : List (String × String)) :
    (∀ limit text, resolveWithin value supplied limit = .ok text →
      ∃ tokens, Scans value.toList tokens ∧ references value = .ok (tokens.filterMap Token.name?) ∧
        (∀ name ∈ tokens.filterMap Token.name?, (supplied.lookup name).isSome) ∧
        text.toList = tokens.flatMap (Token.meaning fun name => (supplied.lookup name).getD "")) ∧
    ((∃ text, resolveWithin value supplied none = .ok text) ↔
      ∃ names, references value = .ok names ∧ ∀ name ∈ names, (supplied.lookup name).isSome) ∧
    resolveWithin (String.ofList (escapeMarkers value.toList)) supplied none = .ok value := by
  refine ⟨fun limit text resolved => ?_,
    ⟨fun ⟨text, resolved⟩ => ?_, fun ⟨names, scanned, held⟩ => ?_⟩, ?_⟩
  · obtain ⟨tokens, scans, held, same⟩ := scans_of_resolveWithin resolved
    exact ⟨tokens, scans, references_eq_ok.mpr ⟨tokens, scans, rfl⟩, held, same⟩
  · obtain ⟨tokens, scans, held, -⟩ := scans_of_resolveWithin resolved
    exact ⟨_, references_eq_ok.mpr ⟨tokens, scans, rfl⟩, held⟩
  · obtain ⟨tokens, scans, rfl⟩ := references_eq_ok.mp scanned
    exact ⟨String.ofList _, (resolveWithin_of_scans scans).mpr ⟨held, String.toList_ofList⟩⟩
  · obtain ⟨tokens, scans, none_, same⟩ := scans_escapeMarkers value.toList
    rw [resolveWithin_of_scans (by rwa [String.toList_ofList]), none_, same]
    exact ⟨nofun, rfl⟩

end Outcomes

end Hikyo.Project
