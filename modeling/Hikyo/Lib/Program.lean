/-!
# Programs that keep their state when they fail

`Ends x s ok bad` says of a program with state and errors that it returns from `s` with `ok` or
fails with `bad`, the state at the failure included.  It is proved step by step (`ends_bind`,
`Ends.andThen`), and `keeps_forM` is the rule for a loop whose rounds keep an invariant.
-/

namespace Hikyo.Lib

section Program
variable {ε σ α β : Type}

def Ends (x : EStateM ε σ α) (s : σ) (ok : α → σ → Prop) (bad : ε → σ → Prop) : Prop :=
  match x s with
  | .ok a s' => ok a s'
  | .error e s' => bad e s'

variable {s : σ} {bad : ε → σ → Prop} {ok : α → σ → Prop} {x : EStateM ε σ α} {ok' : α → σ → Prop}

theorem ends_bind {f : α → EStateM ε σ β} {ok : β → σ → Prop}
    (first : Ends x s (fun a s' => Ends (f a) s' ok bad) bad) : Ends (x >>= f) s ok bad := by
  unfold Ends at first ⊢
  show match EStateM.bind x f s with
    | .ok a s' => ok a s'
    | .error e s' => bad e s'
  unfold EStateM.bind
  cases taken : x s with
  | ok | error => simpa only [taken] using first

theorem ends_pure {a : α} (holds : ok a s) : Ends (pure a : EStateM ε σ α) s ok bad := holds

theorem ends_throw {e : ε} (holds : bad e s) : Ends (throw e : EStateM ε σ α) s ok bad := holds

theorem Ends.mono {bad' : ε → σ → Prop}
    (ends : Ends x s ok bad) (returns : ∀ a s', ok a s' → ok' a s')
    (fails : ∀ e s', bad e s' → bad' e s') :
    Ends x s ok' bad' := by
  unfold Ends at ends ⊢
  cases taken : x s with
  | ok a s' =>
    rw [taken] at ends
    exact returns a s' ends
  | error e s' =>
    rw [taken] at ends
    exact fails e s' ends

section Sequence
variable {x : EStateM ε σ α} {f : α → EStateM ε σ β} {ok' : β → σ → Prop}

theorem Ends.bind {bad' : ε → σ → Prop} (first : Ends x s ok bad)
    (next : ∀ a s', ok a s' → Ends (f a) s' ok' bad') (fails : ∀ e s', bad e s' → bad' e s') :
    Ends (x >>= f) s ok' bad' :=
  ends_bind (first.mono next fails)

theorem Ends.andThen (first : Ends x s ok bad) (next : ∀ a s', ok a s' → Ends (f a) s' ok' bad) :
    Ends (x >>= f) s ok' bad :=
  first.bind next fun _ _ failed => failed

end Sequence

/-- From a state with the invariant the program returns in one, or fails with `bad`. -/
def Keeps (inv : σ → Prop) (bad : ε → σ → Prop) (x : EStateM ε σ α) : Prop :=
  ∀ s, inv s → Ends x s (fun _ s' => inv s') bad

section Keeps
variable {inv : σ → Prop} {x : EStateM ε σ α} {f : α → EStateM ε σ β}

theorem Keeps.bind (first : Keeps inv bad x) (next : ∀ a, Keeps inv bad (f a)) :
    Keeps inv bad (x >>= f) :=
  fun s holds => (first s holds).andThen fun a s' => next a s'

theorem keeps_pure (a : α) : Keeps inv bad (pure a : EStateM ε σ α) := fun _ holds => holds

theorem keeps_forM {f : α → EStateM ε σ PUnit} {rows : List α}
    (round : ∀ a ∈ rows, Keeps inv bad (f a)) :
    Keeps inv bad (rows.forM f) := by
  induction rows with
  | nil => exact keeps_pure _
  | cons a _ ih =>
      exact (round a (.head _)).bind fun _ => ih fun b member =>
        round b (List.mem_cons_of_mem a member)

end Keeps

end Program

end Hikyo.Lib
