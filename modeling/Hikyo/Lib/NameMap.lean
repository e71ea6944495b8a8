import Hikyo.Lib.JsonTree
import Mathlib.Data.List.Nodup

/-!
# Maps from names

Lists of members with distinct names as maps: lookup, erasure and assignment, with the lemmas that
an assignment changes one name and keeps the names distinct.
-/

namespace Hikyo.Lib

open List

section NameMap
variable {α : Type}

abbrev Named (α : Type) := List (String × α)

namespace Named
variable (members : Named α) (name : String)

def names : List String := members.map (·.1)

def lookup : Option α := (members.find? (·.1 == name)).map (·.2)

def erase : Named α := members.filter (·.1 ≠ name)

def assign (value : α) : Named α := erase members name ++ [(name, value)]

variable {members name}

@[simp] theorem mem_erase {m : String × α} : m ∈ erase members name ↔ m ∈ members ∧ m.1 ≠ name := by
  simp [erase]

theorem mem_names {m : String × α} (mem : m ∈ members) : m.1 ∈ names members :=
  mem_map.mpr ⟨m, mem, rfl⟩

theorem nodup_erase (distinct : (names members).Nodup) : (names (erase members name)).Nodup :=
  distinct.sublist (filter_sublist.map _)

theorem nodup_assign (distinct : (names members).Nodup) (value : α) :
    (names (assign members name value)).Nodup := by
  unfold names assign
  rw [map_append]
  refine (nodup_erase distinct).append (nodup_singleton _) ?_
  intro _ inErased single
  obtain ⟨_, kept, rfl⟩ := mem_map.mp inErased
  exact (mem_erase.mp kept).2 (mem_singleton.mp single)

theorem eq_of_name_eq (distinct : (names members).Nodup) {m m' : String × α} (mem : m ∈ members)
    (mem' : m' ∈ members) (same : m.1 = m'.1) : m = m' :=
  inj_on_of_nodup_map distinct mem mem' same

theorem mem_of_lookup {value : α} (found : lookup members name = some value) :
    (name, value) ∈ members := by
  obtain ⟨m, hit, rfl⟩ := Option.map_eq_some_iff.mp found
  have spelled : m.1 = name := by simpa using find?_some hit
  exact spelled ▸ mem_of_find?_eq_some hit

theorem lookup_eq_some (distinct : (names members).Nodup) {value : α}
    (mem : (name, value) ∈ members) :
    lookup members name = some value := by
  cases found : lookup members name with
  | none =>
    have absent := Option.map_eq_none_iff.mp found
    simpa using find?_eq_none.mp absent (name, value) mem
  | some =>
    have same := eq_of_name_eq distinct (mem_of_lookup found) mem rfl
    rw [(Prod.mk.inj same).2]

theorem lookup_eq_none (absent : ∀ m ∈ members, m.1 ≠ name) : lookup members name = none := by
  unfold lookup
  rw [find?_eq_none.mpr fun m mem => by simpa using absent m mem]
  rfl

theorem assign_fresh (fresh : name ∉ names members) (value : α) :
    assign members name value = members ++ [(name, value)] := by
  have others : ∀ m ∈ members, decide (m.1 ≠ name) = true := by
    intro _ mem
    exact decide_eq_true fun same => fresh (same ▸ mem_names mem)
  unfold assign erase
  rw [filter_eq_self.mpr others]

theorem lookup_assign_self (value : α) : lookup (assign members name value) name = some value := by
  unfold lookup assign
  rw [find?_append, find?_eq_none.mpr fun m mem => by simpa using (mem_erase.mp mem).2]
  simp

theorem lookup_erase_self : lookup (erase members name) name = none :=
  lookup_eq_none fun _ mem => (mem_erase.mp mem).2

theorem lookup_erase_ne {other : String} (differs : name ≠ other) :
    lookup (erase members other) name = lookup members name := by
  unfold lookup erase
  rw [find?_filter]
  congr 2
  funext m
  by_cases same : m.1 = name <;> simp [same, differs]

theorem lookup_assign_ne {other : String} (differs : name ≠ other) (value : α) :
    lookup (assign members other value) name = lookup members name := by
  refine Eq.trans ?_ (lookup_erase_ne differs)
  unfold lookup assign
  have last : [(other, value)].find? (·.1 == name) = none := by simp [Ne.symm differs]
  rw [find?_append, last, Option.or_none]

theorem mem_names_iff : name ∈ names members ↔ ∃ value, lookup members name = some value := by
  constructor
  · intro named
    cases found : lookup members name with
    | some value => exact ⟨value, rfl⟩
    | none =>
      obtain ⟨m, mem, rfl⟩ := mem_map.mp named
      simpa using find?_eq_none.mp (Option.map_eq_none_iff.mp found) m mem
  · rintro ⟨_, found⟩
    exact mem_names (mem_of_lookup found)

end Named

end NameMap

end Hikyo.Lib
