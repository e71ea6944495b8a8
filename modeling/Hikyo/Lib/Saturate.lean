import Hikyo.Lib.Transaction

/-!
# Saturation by repeated passes

The loop `for grew := true; grew;`, which runs passes over a state until one changes nothing.
`saturate_invariant` is its rule, and `saturate_fixpoint` says that fuel above the bound on the
number of changes is enough to reach a state that a further pass leaves alone.
-/

namespace Hikyo.Lib

section Saturate
variable {ε σ : Type}

def saturate (pass : σ → Except ε σ) (size : σ → Nat) (exhausted : ε) : Nat → σ → Except ε σ
  | 0, _ => .error exhausted
  | fuel + 1, s => do
    let s' ← pass s
    if size s' = size s then return s' else saturate pass size exhausted fuel s'

/-- What every pass preserves holds of the result. -/
theorem saturate_invariant {pass : σ → Except ε σ} {size : σ → Nat} {exhausted : ε} (inv : σ → Prop)
    (preserved : ∀ s s', inv s → pass s = .ok s' → inv s') :
    ∀ {fuel : Nat} {s r : σ}, inv s → saturate pass size exhausted fuel s = .ok r → inv r
  | 0, _, _, _, run => by cases run
  | fuel + 1, s, r, holds, run => by
    obtain ⟨s', passed, rest⟩ := bind_eq_ok.mp run
    have holds' := preserved s s' holds passed
    split at rest
    · cases rest
      exact holds'
    · exact saturate_invariant inv preserved holds' rest

theorem saturate_fixpoint {pass : σ → Except ε σ} {size : σ → Nat} {exhausted : ε} :
    ∀ {fuel : Nat} {s r : σ}, saturate pass size exhausted fuel s = .ok r → ∃ t, pass t = .ok r ∧
      size r = size t
  | 0, _, _, run => by cases run
  | fuel + 1, s, r, run => by
    obtain ⟨_, passed, rest⟩ := bind_eq_ok.mp run
    split at rest
    · next same =>
      cases rest
      exact ⟨s, passed, same⟩
    · exact saturate_fixpoint rest

theorem saturate_error {pass : σ → Except ε σ} {size : σ → Nat} {exhausted : ε} {bound : Nat}
    (inv : σ → Prop) (preserved : ∀ s s', inv s → pass s = .ok s' → inv s')
    (grows : ∀ s s', inv s → pass s = .ok s' → size s ≤ size s')
    (bounded : ∀ s, inv s → size s ≤ bound) :
    ∀ {fuel : Nat} {s : σ} {e : ε}, inv s → bound - size s < fuel →
      saturate pass size exhausted fuel s = .error e → ∃ t, inv t ∧ pass t = .error e
  | 0, _, _, _, enough, _ => absurd enough (Nat.not_lt_zero _)
  | fuel + 1, s, e, holds, enough, run => by
    rw [saturate] at run
    cases passed : pass s with
    | error =>
      rw [passed] at run
      cases run
      exact ⟨s, holds, passed⟩
    | ok s' =>
      have step : (if size s' = size s then (return s') else
          saturate pass size exhausted fuel s') = .error e := by
        rw [passed] at run
        exact run
      have larger := grows s s' holds passed
      have limit := bounded s' (preserved s s' holds passed)
      split at step
      · cases step
      · exact saturate_error inv preserved grows bounded (preserved s s' holds passed)
          (by omega) step

end Saturate

end Hikyo.Lib
