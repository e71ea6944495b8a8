import Hikyo.Access.Census
import Hikyo.Access.System
import Mathlib.Logic.Relation

/-!
# The grant table as a history of single writes

Every writer of the grant table is a sequence of five kinds of `Write`.  `Write.sound` says that
each keeps the ids distinct and the origins with their rows, and `Write.keeps` that no managed place
loses its last manager; `Writes.settled` lifts both to sequences, with the account of which origins
were added and dropped.
-/

namespace Hikyo.Access

open Hikyo.Lib List

variable {db : Db} {g : Grant} {o origin : Origin} {p : PrincipalID}

def Held (db : Db) (p : PrincipalID) (g : Grant) (o : Origin) : Prop :=
  ∃ row ∈ db.grants, row.principal = p ∧ row.grant = g ∧ o ∈ row.origins

structure Sound (db : Db) : Prop where
  ids : (db.keys.map (·.id)).Nodup
  fresh : ∀ key ∈ db.keys, key.id < db.nextGrant
  people : (db.principals.map (·.id)).Nodup
  shaped : ∀ key ∈ db.keys, key.grant.scope.level ≠ none
  tenant : ∀ p g key, Held db p g (.scim key) → g.scope.org ≠ none

/-- One write, with the origins it may add and the origins it may drop. -/
inductive Write (adds drops : PrincipalID → Grant → Origin → Prop) : Db → Db → Prop
  | invalidate (db : Db) (p : PrincipalID) : Write adds drops db (db.invalidateGrantChange p)
  | create (db : Db) (target : PrincipalID) (grant : Grant) (origin : Origin)
      (shaped : grant.scope.level ≠ none) (added : adds target grant origin) :
      Write adds drops db ((db.createGrant target grant).addGrantOrigin db.nextGrant origin)
  | add (db : Db) (row : GrantRow) (origin : Origin) (stored : row ∈ db.grants)
      (added : adds row.principal row.grant origin) : Write adds drops db
      (db.addGrantOrigin row.id origin)
  | drop (db : Db) (row : GrantRow) (origin : Origin) (stored : row ∈ db.grants)
      (dropped : drops row.principal row.grant origin) : Write adds drops db
      (db.releaseGrantOrigin row.id origin)
  | delete (db : Db) (row : GrantRow) (stored : row ∈ db.grants) (bare : row.origins = [])
      (dispensable : Dispensable db row.principal row.grant) : Write adds drops db
      (db.deleteGrantRow row.id)

def Writes (adds drops : PrincipalID → Grant → Origin → Prop) : Db → Db → Prop :=
  Relation.ReflTransGen (Write adds drops)

section Rows
theorem map_keys_id (db : Db) : db.keys.map (·.id) = db.grants.map (·.id) := by
  simp only [Db.keys, map_map]
  rfl

variable {row : GrantRow} {id : GrantID}

theorem key_mem (stored : row ∈ db.grants) : row.key ∈ db.keys := mem_keys.mpr ⟨row, stored, rfl⟩

theorem Sound.row_eq (sound : Sound db) {row' : GrantRow} (stored : row ∈ db.grants)
    (stored' : row' ∈ db.grants) (same : row.id = row'.id) : row = row' :=
  inj_on_of_nodup_map (map_keys_id db ▸ sound.ids) stored stored' same

theorem Sound.originsFor (sound : Sound db) (stored : row ∈ db.grants) :
    db.originsFor row.id = row.origins := by
  unfold Db.originsFor
  rw [(find?_eq_some_iff_of_nodup (map_keys_id db ▸ sound.ids)).mpr ⟨stored, rfl⟩]

theorem originsFor_stored (mem : o ∈ db.originsFor id) :
    ∃ row ∈ db.grants, row.id = id ∧ row.origins = db.originsFor id := by
  unfold Db.originsFor at mem ⊢
  cases found : db.grants.find? (·.id == id) with
  | none => simp [found] at mem
  | some row =>
    exact ⟨row, mem_of_find?_eq_some found, by simpa using find?_some found, rfl⟩

theorem mem_setOrigins {change : List Origin → List Origin} :
      row ∈ (db.setOrigins id change).grants ↔
      ∃ old ∈ db.grants, row = if old.id = id then { old with origins := change old.origins }
        else old := by
  simp only [Db.setOrigins, mem_map, eq_comm]

theorem held_addGrantOrigin : Held (db.addGrantOrigin id origin) p g o ↔
      Held db p g o ∨ o = origin ∧ ∃ row ∈ db.grants, row.id = id ∧ row.principal = p ∧
        row.grant = g := by
  constructor
  · rintro ⟨row, found, mine, same, mem⟩
    obtain ⟨old, stored, rfl⟩ := mem_setOrigins.mp found
    by_cases named : old.id = id
    · simp only [named, if_true] at mine same mem
      rcases mem_append.mp mem with mem | mem
      · exact .inl ⟨old, stored, mine, same, mem⟩
      · exact .inr ⟨mem_singleton.mp mem, old, stored, named, mine, same⟩
    · simp only [named, if_false] at mine same mem
      exact .inl ⟨old, stored, mine, same, mem⟩
  rintro (⟨row, stored, mine, same, mem⟩ | ⟨rfl, row, stored, named, mine, same⟩)
  · refine ⟨_, mem_setOrigins.mpr ⟨row, stored, rfl⟩, ?_⟩
    by_cases named : row.id = id
    all_goals simp [named, mine, same, mem]
  · refine ⟨_, mem_setOrigins.mpr ⟨row, stored, rfl⟩, ?_⟩
    simp [named, mine, same]

theorem held_releaseGrantOrigin : Held (db.releaseGrantOrigin id origin) p g o ↔
      ∃ row ∈ db.grants, row.principal = p ∧ row.grant = g ∧ o ∈ row.origins ∧
        (row.id = id → o ≠ origin) := by
  constructor
  · rintro ⟨row, found, mine, same, mem⟩
    obtain ⟨old, stored, rfl⟩ := mem_setOrigins.mp found
    by_cases named : old.id = id
    · simp only [named, if_true, mem_filter, decide_eq_true_eq] at mine same mem
      exact ⟨old, stored, mine, same, mem.1, fun _ => mem.2⟩
    · simp only [named, if_false] at mine same mem
      exact ⟨old, stored, mine, same, mem, fun isNamed => absurd isNamed named⟩
  rintro ⟨row, stored, mine, same, mem, kept⟩
  refine ⟨_, mem_setOrigins.mpr ⟨row, stored, rfl⟩, ?_⟩
  by_cases named : row.id = id
  · simp [named, mine, same, mem, kept named]
  · simp [named, mine, same, mem]

theorem held_createGrant {target : PrincipalID} {grant : Grant} :
    Held (db.createGrant target grant) p g o ↔ Held db p g o := by
  unfold Held Db.createGrant
  simp only [mem_append, mem_singleton]
  constructor
  · rintro ⟨row, stored | rfl, mine, same, mem⟩
    · exact ⟨row, stored, mine, same, mem⟩
    · cases mem
  · rintro ⟨row, stored, mine, same, mem⟩
    exact ⟨row, .inl stored, mine, same, mem⟩

theorem held_deleteGrantRow : Held (db.deleteGrantRow id) p g o ↔
      ∃ row ∈ db.grants, row.id ≠ id ∧ row.principal = p ∧ row.grant = g ∧ o ∈ row.origins := by
  unfold Held Db.deleteGrantRow
  simp only [mem_filter, decide_eq_true_eq, and_assoc]

end Rows

section Write
variable {adds drops : PrincipalID → Grant → Origin → Prop} {db' : Db}

section
variable (write : Write adds drops db db')
include write

theorem Write.held_before (sound : Sound db) (held : Held db' p g o) :
    Held db p g o ∨ adds p g o := by
  cases write with
  | invalidate => exact .inl held
  | create _ _ _ _ added =>
    rcases held_addGrantOrigin.mp held with held | ⟨rfl, row, stored, named, rfl, rfl⟩
    · exact .inl (held_createGrant.mp held)
    simp only [Db.createGrant, mem_append, mem_singleton] at stored
    rcases stored with stored | rfl
    · exact absurd named (Nat.ne_of_lt (sound.fresh row.key (key_mem stored)))
    · exact .inr added
  | add _ _ stored added =>
    rcases held_addGrantOrigin.mp held with held | ⟨rfl, row', stored', named, rfl, rfl⟩
    · exact .inl held
    · cases sound.row_eq stored' stored named
      exact .inr added
  | drop =>
    obtain ⟨row', stored, mine, same, mem, _⟩ := held_releaseGrantOrigin.mp held
    exact .inl ⟨row', stored, mine, same, mem⟩
  | delete =>
    obtain ⟨row', stored, _, mine, same, mem⟩ := held_deleteGrantRow.mp held
    exact .inl ⟨row', stored, mine, same, mem⟩

theorem Write.held_after (sound : Sound db) (held : Held db p g o) (kept : ¬ drops p g o) :
    Held db' p g o := by
  cases write with
  | invalidate => exact held
  | create => exact held_addGrantOrigin.mpr (.inl (held_createGrant.mpr held))
  | add => exact held_addGrantOrigin.mpr (.inl held)
  | drop _ _ stored dropped =>
    obtain ⟨row', stored', mine, same, mem⟩ := held
    refine held_releaseGrantOrigin.mpr ⟨row', stored', mine, same, mem, ?_⟩
    rintro named rfl
    cases sound.row_eq stored' stored named
    exact kept (mine ▸ same ▸ dropped)
  | delete _ stored bare =>
    obtain ⟨row', stored', mine, same, mem⟩ := held
    refine held_deleteGrantRow.mpr ⟨row', stored', ?_, mine, same, mem⟩
    intro named
    cases sound.row_eq stored' stored named
    rw [bare] at mem
    cases mem

theorem Write.surroundings : db'.surroundings = db.surroundings := by
  cases write <;> simp

theorem Write.keys : db'.keys.Sublist db.keys ∧ db'.nextGrant = db.nextGrant ∨
      ∃ target grant, grant.scope.level ≠ none ∧ db'.keys = db.keys ++
        [⟨db.nextGrant, target, grant⟩] ∧
        db'.nextGrant = db.nextGrant + 1 := by
  cases write with
  | invalidate => exact .inl ⟨List.Sublist.refl _, rfl⟩
  | create target grant _ shaped => exact .inr ⟨target, grant, shaped, by simp, rfl⟩
  | add | drop | delete => exact .inl ⟨by simp, rfl⟩

end

end Write

section Sound
variable {adds drops : PrincipalID → Grant → Origin → Prop} {db' : Db}

theorem map_people_id (db : Db) : db.surroundings.people.map (·.id) = db.principals.map (·.id) := by
  simp only [Db.surroundings, map_map]
  rfl

theorem Write.sound (write : Write adds drops db db')
    (tenant : ∀ p g key, adds p g (.scim key) → g.scope.org ≠ none) (sound : Sound db) :
    Sound db' := by
  have tenant' : ∀ p g key, Held db' p g (.scim key) → g.scope.org ≠ none := by
    intro p g key held
    rcases write.held_before sound held with held | added
    · exact sound.tenant p g key held
    · exact tenant p g key added
  have people' : (db'.principals.map (·.id)).Nodup := by
    rw [← map_people_id, write.surroundings, map_people_id]
    exact sound.people
  rcases write.keys with ⟨fewer, same⟩ | ⟨_, _, isShaped, keys, next⟩
  · refine ⟨sound.ids.sublist (fewer.map _), ?_, people', ?_, tenant'⟩
    · rw [same]
      exact fun key mem => sound.fresh key (fewer.subset mem)
    · exact fun key mem => sound.shaped key (fewer.subset mem)
  refine ⟨?_, ?_, people', ?_, tenant'⟩
  · rw [keys, map_append, nodup_append]
    refine ⟨sound.ids, by simp, ?_⟩
    simp only [mem_map, forall_exists_index, and_imp, map_cons, map_nil, mem_singleton]
    rintro _ key mem rfl _ rfl
    exact Nat.ne_of_lt (sound.fresh key mem)
  · intro key mem
    rw [keys, mem_append, mem_singleton] at mem
    rw [next]
    rcases mem with mem | rfl
    · exact Nat.lt_succ_of_lt (sound.fresh key mem)
    · exact Nat.lt_succ_self _
  · intro key mem
    rw [keys, mem_append, mem_singleton] at mem
    rcases mem with mem | rfl
    · exact sound.shaped key mem
    · exact isShaped

theorem Write.keeps (write : Write adds drops db db') (sound : Sound db) : Keeps db db' := by
  have grows : (∀ key ∈ db.keys, key ∈ db'.keys) → Keeps db db' := by
    rintro kept org ⟨key, ⟨mem, active⟩, manages⟩
    exact ⟨key, ⟨kept key mem, by rw [isActive_congr write.surroundings]; exact active⟩, manages⟩
  cases write with
  | invalidate => exact grows fun _ => id
  | create => exact grows fun _ mem => by simp [mem]
  | add | drop => exact grows fun _ mem => by simpa using mem
  | delete row stored _ dispensable =>
    refine keeps_of_removed sound.ids sound.shaped (deleteGrantRow_keys db row.id) rfl
      fun key mem named => ?_
    cases inj_on_of_nodup_map sound.ids mem (key_mem stored) named
    exact dispensable

end Sound

section Sequences
variable {adds drops : PrincipalID → Grant → Origin → Prop} {db' db'' : Db}

theorem Writes.mono {adds' drops' : PrincipalID → Grant → Origin → Prop}
    (more : ∀ p g o, adds p g o → adds' p g o) (more' : ∀ p g o, drops p g o → drops' p g o)
    (writes : Writes adds drops db db') :
    Writes adds' drops' db db' := by
  refine Relation.ReflTransGen.mono (fun a b write => ?_) db db' writes
  cases write with
  | invalidate p => exact .invalidate a p
  | create target grant origin shaped added =>
      exact .create a target grant origin shaped (more _ _ _ added)
  | add row origin stored added => exact .add a row origin stored (more _ _ _ added)
  | drop row origin stored dropped => exact .drop a row origin stored (more' _ _ _ dropped)
  | delete row stored bare dispensable => exact .delete a row stored bare dispensable

/-- What a sequence of writes does to sound tables. -/
structure Settled (adds drops : PrincipalID → Grant → Origin → Prop) (db db' : Db) : Prop where
  sound : Sound db'
  surroundings : db'.surroundings = db.surroundings
  keeps : Keeps db db'
  held_before : ∀ p g o, Held db' p g o → Held db p g o ∨ adds p g o
  held_after : ∀ p g o, Held db p g o → ¬ drops p g o → Held db' p g o

theorem Writes.settled (writes : Writes adds drops db db')
    (tenant : ∀ p g key, adds p g (.scim key) → g.scope.org ≠ none) (sound : Sound db) :
    Settled adds drops db db' := by
  induction writes with
  | refl => exact ⟨sound, rfl, Keeps.refl db, fun _ _ _ held => .inl held, fun _ _ _ held _ => held⟩
  | tail _ write ih =>
    refine ⟨write.sound tenant ih.sound, write.surroundings.trans ih.surroundings,
      ih.keeps.trans (write.keeps ih.sound), fun p g o held => ?_, fun p g o held kept => ?_⟩
    · rcases write.held_before ih.sound held with held | added
      · exact ih.held_before p g o held
      · exact .inr added
    · exact write.held_after ih.sound (ih.held_after p g o held kept) kept

end Sequences

end Hikyo.Access
