import Hikyo.Access.Effects

/-!
# The census of member managers

A place is managed if some principal in force has member management at or above it.  `Keeps` says
that every place managed before a change is managed after it.  `keeps_of_removed` is what the
lockout rules amount to: a row whose removal they allow is `Dispensable`, that is, each place it
manages has another manager in force.
-/

namespace Hikyo.Access

open Hikyo.Lib List

variable {db db' : Db} {g : Grant} {org : Option OrgID} {scope : Scope}

def Manages (org : Option OrgID) (g : Grant) : Prop :=
  g.capability = .manageMembers ∧
  match org with
  | none => g.scope.org = none
  | some org => g.scope.project = none ∧ (g.scope.org = some org ∨ g.scope.org = none)

def Seat (db : Db) (key : GrantKey) : Prop := key ∈ db.keys ∧ db.isActive key.principal = true

def Managed (db : Db) (org : Option OrgID) : Prop := ∃ key, Seat db key ∧ Manages org key.grant

def Keeps (db db' : Db) : Prop := ∀ org, Managed db org → Managed db' org

def Dispensable (db : Db) (p : PrincipalID) (g : Grant) : Prop :=
  g.capability = .manageMembers → g.scope.project = none → remainingMemberManagers db p g.scope ≠ 0

theorem Keeps.refl (db : Db) : Keeps db db := fun _ managed => managed

theorem Keeps.trans {a b c : Db} (first : Keeps a b) (second : Keeps b c) : Keeps a c :=
  fun org managed => second org (first org managed)

section Reading
variable {p : PrincipalID}

theorem managesMembersOf_iff {row : GrantRow} :
    Db.managesMembersOf org row = true ↔ Manages org row.grant := by
  cases org <;> simp [Db.managesMembersOf, Manages]

theorem mem_manageMembersHolders :
    p ∈ db.manageMembersHolders org ↔ ∃ key, Seat db key ∧ key.principal = p ∧
      Manages org key.grant := by
  simp only [Db.manageMembersHolders, mem_dedup, mem_map, mem_filter, Bool.and_eq_true,
    managesMembersOf_iff]
  constructor
  · rintro ⟨row, ⟨stored, manages, active⟩, rfl⟩
    exact ⟨row.key, ⟨mem_keys.mpr ⟨row, stored, rfl⟩, active⟩, rfl, manages⟩
  rintro ⟨_, ⟨mem, active⟩, rfl, manages⟩
  obtain ⟨row, stored, rfl⟩ := mem_keys.mp mem
  exact ⟨row, ⟨stored, manages, active⟩, rfl⟩

theorem managed_iff : Managed db org ↔ db.manageMembersHolders org ≠ [] := by
  constructor
  · rintro ⟨key, seat, manages⟩
    exact ne_nil_of_mem (mem_manageMembersHolders.mpr ⟨key, seat, rfl, manages⟩)
  intro someone
  obtain ⟨_, holder⟩ := exists_mem_of_ne_nil _ someone
  obtain ⟨key, seat, _, manages⟩ := mem_manageMembersHolders.mp holder
  exact ⟨key, seat, manages⟩

theorem retainsMemberManagement_iff :
      retainsMemberManagement (db.grantRowsForPrincipal p) scope = true ↔
      ∃ key ∈ db.keys, key.principal = p ∧ key.grant.capability = .manageMembers ∧
        key.grant.scope ≠ scope ∧
        key.grant.scope.project = none ∧ covers key.grant.scope scope = true := by
  simp only [retainsMemberManagement, scopeCovers, Db.grantRowsForPrincipal,
    any_eq_true, mem_filter, Bool.and_eq_true, beq_iff_eq, decide_eq_true_eq, mem_keys]
  constructor
  · rintro ⟨row, ⟨stored, mine⟩, ⟨⟨capability, elsewhere⟩, shallow⟩, above⟩
    exact ⟨row.key, ⟨row, stored, rfl⟩, mine, capability, elsewhere, shallow, above⟩
  · rintro ⟨_, ⟨row, stored, rfl⟩, mine, capability, elsewhere, shallow, above⟩
    exact ⟨row, ⟨stored, mine⟩, ⟨⟨capability, elsewhere⟩, shallow⟩, above⟩

theorem remainingMemberManagers_ne_zero {target : PrincipalID} :
      remainingMemberManagers db target scope ≠ 0 ↔
      ∃ key, Seat db key ∧ Manages scope.org key.grant ∧ (key.principal ≠ target ∨
        ∃ other ∈ db.keys, other.principal = target ∧ other.grant.capability = .manageMembers ∧
          other.grant.scope ≠ scope ∧ other.grant.scope.project = none ∧
            covers other.grant.scope scope = true) := by
  unfold remainingMemberManagers
  rw [← Nat.pos_iff_ne_zero, length_pos_iff_exists_mem]
  simp only [mem_filter, mem_manageMembersHolders, Bool.or_eq_true, decide_eq_true_eq,
    retainsMemberManagement_iff]
  constructor
  · rintro ⟨_, ⟨key, seat, rfl, manages⟩, remains⟩
    exact ⟨key, seat, manages, remains⟩
  · rintro ⟨key, seat, manages, remains⟩
    exact ⟨key.principal, ⟨key, seat, rfl, manages⟩, remains⟩

theorem Dispensable.congr (keys : db'.keys = db.keys) (same : db'.surroundings = db.surroundings)
    (dispensable : Dispensable db p g) : Dispensable db' p g := by
  intro capability shallow
  have remaining := dispensable capability shallow
  rw [remainingMemberManagers_ne_zero] at remaining ⊢
  simpa only [Seat, keys, isActive_congr same] using remaining

end Reading

section Substitutes
theorem project_none_of_level (shaped : scope.level ≠ none) (instance_ : scope.org = none) :
    scope.project = none := by
  obtain ⟨_, project, env⟩ := scope
  cases instance_
  cases project with
  | none => rfl
  | some => cases env <;> exact absurd rfl shaped

theorem env_none_of_level (shaped : scope.level ≠ none) (shallow : scope.project = none) :
    scope.env = none := by
  obtain ⟨org, _, env⟩ := scope
  cases shallow
  cases env with
  | none => rfl
  | some => cases org <;> exact absurd rfl shaped

theorem Manages.lift {g' : Grant} (shaped : g'.scope.level ≠ none) (there : Manages g.scope.org g')
    (manages : Manages org g) : Manages org g' := by
  cases org with
  | none => exact manages.2 ▸ there
  | some =>
    rcases manages.2.2 with place | place
    · exact place ▸ there
    · rw [place] at there
      exact ⟨there.1, project_none_of_level shaped there.2, .inr there.2⟩

theorem Manages.shallow (shaped : g.scope.level ≠ none) (manages : Manages org g) :
    g.scope.project = none := by
  cases org with
  | none => exact project_none_of_level shaped manages.2
  | some => exact manages.2.1

theorem keeps_of_substitutes (shaped : ∀ key ∈ db.keys, key.grant.scope.level ≠ none)
    (shaped' : ∀ key ∈ db'.keys, key.grant.scope.level ≠ none)
    (substitute : ∀ key, Seat db key → key.grant.capability = .manageMembers →
      key.grant.scope.project = none →
      ∃ key', Seat db' key' ∧ Manages key.grant.scope.org key'.grant) : Keeps db db' := by
  rintro org ⟨key, seat, manages⟩
  obtain ⟨key', seat', there⟩ := substitute key seat manages.1 (manages.shallow (shaped key seat.1))
  exact ⟨key', seat', there.lift (shaped' key' seat'.1) manages⟩

theorem manages_own (capability : g.capability = .manageMembers)
    (shallow : g.scope.project = none) :
    Manages g.scope.org g := by
  refine ⟨capability, ?_⟩
  cases place : g.scope.org with
  | none => rfl
  | some => exact ⟨shallow, .inl rfl⟩

theorem keeps_of_removed {removed : GrantID} (ids : (db.keys.map (·.id)).Nodup)
    (shaped : ∀ key ∈ db.keys, key.grant.scope.level ≠ none)
    (keys : db'.keys = db.keys.filter (·.id ≠ removed)) (same : db'.surroundings = db.surroundings)
    (dispensable : ∀ key ∈ db.keys, key.id = removed → Dispensable db key.principal key.grant) :
    Keeps db db' := by
  have kept : ∀ key, Seat db key → key.id ≠ removed → Seat db' key := by
    rintro key ⟨mem, active⟩ other
    refine ⟨?_, by rw [isActive_congr same]; exact active⟩
    rw [keys, mem_filter]
    exact ⟨mem, by simpa using other⟩
  have shaped' : ∀ key ∈ db'.keys, key.grant.scope.level ≠ none := by
    intro key mem
    rw [keys] at mem
    exact shaped key (mem_of_mem_filter mem)
  refine keeps_of_substitutes shaped shaped' fun key seat capability shallow => ?_
  by_cases named : key.id = removed
  · obtain ⟨rest, seat', there, elsewhere⟩ :=
      remainingMemberManagers_ne_zero.mp (dispensable key seat.1 named capability shallow)
    rcases elsewhere with other | ⟨above, mem, mine, capability', otherScope, shallow', covers_⟩
    · -- Another principal: its row is not the one removed.
      refine ⟨rest, kept rest seat' fun same => other ?_, there⟩
      rw [inj_on_of_nodup_map ids seat'.1 seat.1 (same.trans named.symm)]
    -- The same principal, which holds member management higher up as well.
    have seatAbove : Seat db above := ⟨mem, mine ▸ seat.2⟩
    refine ⟨above, kept above seatAbove fun same => otherScope ?_, ?_⟩
    · rw [inj_on_of_nodup_map ids mem seat.1 (same.trans named.symm)]
    refine ⟨capability', ?_⟩
    have place : above.grant.scope.org = none ∨ above.grant.scope.org = key.grant.scope.org :=
      ((covers_iff _ _).mp covers_).imp id And.left
    cases org : key.grant.scope.org with
    | none => exact place.elim id fun same => same.trans org
    | some => exact ⟨shallow', place.symm.imp (·.trans org) id⟩
  · exact ⟨key, kept key seat named, manages_own capability shallow⟩

end Substitutes

end Hikyo.Access
