import Mathlib.Data.List.Induction

/-!
# Runs of a guarded transition function

Runs of a partial transition function.  A refused action leaves the state as it was, so every list
of actions is a history.  `runFrom_invariant` and, for histories whose actions all meet a guard,
`runFrom_invariant_of_allowed` are the induction rules; `runFrom_history` and `runFrom_prefix`
relate points of one history.
-/

namespace Hikyo.Lib

section Transition
variable {S A : Type}

def next (step : S → A → Option S) (s : S) (a : A) : S := (step s a).getD s

def runFrom (step : S → A → Option S) : S → List A → S
  | s, [] => s
  | s, a :: rest => runFrom step (next step s a) rest

/-- Every action of the history met `guard` in the state it was taken in. -/
def AllowedFrom (step : S → A → Option S) (guard : S → A → Prop) : S → List A → Prop
  | _, [] => True
  | s, a :: rest => guard s a ∧ AllowedFrom step guard (next step s a) rest

instance decidableAllowedFrom (step : S → A → Option S) (guard : S → A → Prop)
    [∀ s a, Decidable (guard s a)] : ∀ s actions, Decidable (AllowedFrom step guard s actions)
  | _, [] => .isTrue trivial
  | s, a :: rest =>
    have := decidableAllowedFrom step guard (next step s a) rest
    inferInstanceAs (Decidable (guard s a ∧ AllowedFrom step guard (next step s a) rest))

section
variable (step : S → A → Option S)
include step

theorem next_invariant (inv : S → Prop) (s : S) (a : A)
    (holds : inv s) (preserved : ∀ s', step s a = some s' → inv s') : inv (next step s a) := by
  unfold next
  cases taken : step s a with
  | none => simpa [taken] using holds
  | some s' => simpa [taken] using preserved s' taken

/-- What every allowed accepted action preserves holds after every allowed history. -/
theorem runFrom_invariant_of_allowed (guard : S → A → Prop) (inv : S → Prop)
    (preserved : ∀ s a s', inv s → guard s a → step s a = some s' → inv s')
    (actions : List A) (s : S) (holds : inv s) (allowed : AllowedFrom step guard s actions) :
    inv (runFrom step s actions) := by
  induction actions generalizing s with
  | nil => exact holds
  | cons a _ ih =>
    obtain ⟨met, allowedRest⟩ := allowed
    refine ih (next step s a) ?_ allowedRest
    exact next_invariant step inv s a holds fun s' taken => preserved s a s' holds met taken

theorem allowedFrom_of_forall (guard : A → Prop) (s : S) {actions : List A}
    (met : ∀ a ∈ actions, guard a) : AllowedFrom step (fun _ a => guard a) s actions := by
  induction actions generalizing s with
  | nil => trivial
  | cons a _ ih =>
    exact ⟨met a (.head _), ih (next step s a) fun b inRest =>
      met b (List.mem_cons_of_mem a inRest)⟩

theorem allowedFrom_true (s : S) (actions : List A) :
    AllowedFrom step (fun _ _ => True) s actions := by
  induction actions generalizing s with
  | nil => trivial
  | cons a _ ih => exact ⟨trivial, ih (next step s a)⟩

/-- What every accepted action preserves holds after every history. -/
theorem runFrom_invariant (inv : S → Prop)
    (preserved : ∀ s a s', inv s → step s a = some s' → inv s') (actions : List A) (s : S)
    (holds : inv s) : inv (runFrom step s actions) :=
  runFrom_invariant_of_allowed step (fun _ _ => True) inv
    (fun s a s' h _ taken => preserved s a s' h taken) actions s holds
    (allowedFrom_true step s actions)

theorem runFrom_append (s : S) (past more : List A) :
    runFrom step s (past ++ more) = runFrom step (runFrom step s past) more := by
  induction past generalizing s with
  | nil => rfl
  | cons a _ ih => exact ih (next step s a)

end

theorem allowedFrom_append {step : S → A → Option S} {guard : S → A → Prop} {s : S}
    {past more : List A} :
    AllowedFrom step guard s (past ++ more) ↔
      AllowedFrom step guard s past ∧ AllowedFrom step guard (runFrom step s past) more := by
  induction past generalizing s with
  | nil => exact ⟨fun allowed => ⟨trivial, allowed⟩, And.right⟩
  | cons _ _ ih =>
    constructor
    · rintro ⟨met, allowed⟩
      obtain ⟨first, second⟩ := ih.mp allowed
      exact ⟨⟨met, first⟩, second⟩
    · rintro ⟨⟨met, first⟩, second⟩
      exact ⟨met, ih.mpr ⟨first, second⟩⟩

/-- What holds at a point of the history is carried over the next action. -/
theorem runFrom_history (step : S → A → Option S) (s : S) (holdsAt : List A → S → Prop)
    (start : holdsAt [] s) (accepted : ∀ past a s', holdsAt past (runFrom step s past) →
      step (runFrom step s past) a = some s' →
      runFrom step s (past ++ [a]) = s' → holdsAt (past ++ [a]) s')
    (refused : ∀ past a, holdsAt past (runFrom step s past) → step (runFrom step s past) a = none →
      holdsAt (past ++ [a]) (runFrom step s past))
    (actions : List A) : holdsAt actions (runFrom step s actions) := by
  induction actions using List.reverseRecOn with
  | nil => exact start
  | append_singleton past a ih =>
    have last : runFrom step s (past ++ [a]) = next step (runFrom step s past) a :=
      runFrom_append step s past [a]
    rw [last]
    cases taken : step (runFrom step s past) a with
    | none =>
      have same : next step (runFrom step s past) a = runFrom step s past := by simp [next, taken]
      rw [same]
      exact refused past a ih taken
    | some s' =>
      have moved : next step (runFrom step s past) a = s' := by simp [next, taken]
      rw [moved]
      exact accepted past a s' ih taken (last.trans moved)

/-- What every accepted action relates holds between two points of a history. -/
theorem runFrom_prefix (step : S → A → Option S) (s : S) (rel : S → S → Prop) (refl : ∀ s, rel s s)
    (trans : ∀ a b c, rel a b → rel b c → rel a c) (inv : S → Prop) (holds : inv s)
    (preserved : ∀ s a s', inv s → step s a = some s' → inv s' ∧ rel s s') {past actions : List A}
    (earlier : past <+: actions) : rel (runFrom step s past) (runFrom step s actions) := by
  obtain ⟨more, rfl⟩ := earlier
  have before : inv (runFrom step s past) :=
    runFrom_invariant step inv (fun s a s' h taken => (preserved s a s' h taken).1) past s holds
  rw [runFrom_append]
  refine (runFrom_invariant step (fun t => inv t ∧ rel (runFrom step s past) t) ?_ more _
    ⟨before, refl _⟩).2
  intro t a t' ⟨invT, reached⟩ taken
  obtain ⟨invT', moved⟩ := preserved t a t' invT taken
  exact ⟨invT', trans _ _ _ reached moved⟩

end Transition

end Hikyo.Lib
