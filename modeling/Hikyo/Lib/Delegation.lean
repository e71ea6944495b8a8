import Mathlib.Order.Basic

/-!
# Delegation of rights

Rights form a preorder, and a group may pass on what is beneath a right of one of its members.
`Delegated.step` is the rule for runs: what the group holds, and what it has given away, stays
inside the closure of what it held at the start, as long as each step hands out nothing else.
-/

namespace Hikyo.Lib

section Delegation
variable {P R : Type} (above : R → R → Prop)

def Closure (held : R → Prop) (r : R) : Prop := ∃ h, held h ∧ above h r

variable {above}

theorem Closure.of_held (refl : ∀ r, above r r) {held : R → Prop} {r : R} (holds : held r) :
    Closure above held r :=
  ⟨r, holds, refl r⟩

theorem Closure.beneath (trans : ∀ a b c, above a b → above b c → above a c)
    {held : R → Prop} {h r : R} (inside : Closure above held h) (under : above h r) :
    Closure above held r := by
  obtain ⟨top, holds, atop⟩ := inside
  exact ⟨top, holds, trans top h r atop under⟩

def HeldBy (group : P → Prop) (table : P → R → Prop) (r : R) : Prop := ∃ p, group p ∧ table p r

variable (above)

structure Delegated (group : P → Prop) (start now : P → R → Prop) : Prop where
  held : ∀ p r, group p → now p r → Closure above (HeldBy group start) r
  added : ∀ p r, now p r → start p r ∨ Closure above (HeldBy group start) r

variable {above} {group : P → Prop} {start now later : P → R → Prop}

theorem Delegated.refl (refl : ∀ r, above r r) : Delegated above group start start where
  held p _ mem holds := Closure.of_held refl ⟨p, mem, holds⟩
  added _ _ holds := .inl holds

theorem Delegated.step (trans : ∀ a b c, above a b → above b c → above a c)
    (so : Delegated above group start now)
    (gains : ∀ p r, later p r → now p r ∨ ∃ actor h, group actor ∧ now actor h ∧ above h r) :
    Delegated above group start later where
  held p r mem holds := by
    rcases gains p r holds with before | ⟨actor, h, acts, has, under⟩
    · exact so.held p r mem before
    · exact (so.held actor h acts has).beneath trans under
  added p r holds := by
    rcases gains p r holds with before | ⟨actor, h, acts, has, under⟩
    · exact so.added p r before
    · exact .inr ((so.held actor h acts has).beneath trans under)

end Delegation

end Hikyo.Lib
