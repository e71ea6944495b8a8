import Mathlib.Data.List.Dedup
import Hikyo.Project.Effects

/-!
# The latest snapshot mirrors the published state

`run_mirrored`: between operations the latest snapshot of every environment renders exactly its
published cells under the current catalogue.  Catalogue writes only drop rows, and no published row
of a cell that remains (`Keeps`); every operation that changes more publishes again.
-/

namespace Hikyo.Project

open Hikyo.Lib List

variable {env other : EnvID}

/-- Catalogue writes only drop rows, and no published row of a cell that remains. -/
structure Keeps (db after : ProjectDB) : Prop where
  nextID : db.nextID ≤ after.nextID
  keys : ∀ id ∈ after.keyIDs, id < db.nextID → id ∈ db.keyIDs
  environments : ∀ env ∈ after.environmentIDs, env < db.nextID → env ∈ db.environmentIDs
  entries : ∀ entry ∈ after.entries, entry ∈ db.entries
  pending : ∀ change ∈ after.pending, change ∈ db.pending
  requests : ∀ request ∈ after.requests, request ∈ db.requests
  cells : ∀ env ∈ after.environmentIDs, env < db.nextID →
    ∀ keyID ∈ after.keyIDs, keyID < db.nextID →
    after.cell? env keyID = db.cell? env keyID
  latest : ∀ env, after.latest env = db.latest env ∨ after.latest env = none

section Catalogue
variable {db mid after : ProjectDB}

theorem Keeps.trans (first : Keeps db mid) (second : Keeps mid after) : Keeps db after where
  nextID := Nat.le_trans first.nextID second.nextID
  keys id mem below :=
    first.keys id (second.keys id mem (Nat.lt_of_lt_of_le below first.nextID)) below
  environments env mem below :=
    first.environments env (second.environments env mem (Nat.lt_of_lt_of_le below first.nextID))
      below
  entries entry mem := first.entries entry (second.entries entry mem)
  pending change mem := first.pending change (second.pending change mem)
  requests request mem := first.requests request (second.requests request mem)
  cells env listed envBelow keyID declared keyBelow := by
    have envMid := Nat.lt_of_lt_of_le envBelow first.nextID
    have keyMid := Nat.lt_of_lt_of_le keyBelow first.nextID
    rw [second.cells env listed envMid keyID declared keyMid]
    exact first.cells env (second.environments env listed envMid) envBelow keyID
      (second.keys keyID declared keyMid) keyBelow
  latest env := by
    rcases second.latest env with same | gone
    · rw [same]
      exact first.latest env
    · exact .inr gone

theorem keeps_of_same (nextID : db.nextID ≤ after.nextID) (entries : after.entries = db.entries)
    (snapshots : after.snapshots = db.snapshots) (pending : after.pending = db.pending)
    (requests : after.requests = db.requests)
    (keys : ∀ id ∈ after.keyIDs, id < db.nextID → id ∈ db.keyIDs)
    (environments : ∀ env ∈ after.environmentIDs, env < db.nextID → env ∈ db.environmentIDs) :
    Keeps db after := by
  refine ⟨nextID, keys, environments, fun entry mem => entries ▸ mem,
    fun change mem => pending ▸ mem, fun request mem => requests ▸ mem,
    fun env _ _ keyID _ _ => ?_, fun env => .inl (latest_congr snapshots)⟩
  rw [ProjectDB.cell?, entries]
  rfl

theorem latest_removeEnvironment_of_ne (different : other ≠ env) :
    (db.removeEnvironment env).latest other = db.latest other := by
  rw [ProjectDB.latest, ProjectDB.removeEnvironment, find?_filter, ProjectDB.latest]
  congr 1
  funext snapshot
  by_cases here : snapshot.env = other
  · simp [here, different]
  · simp [here]

theorem latest_removeEnvironment_self : (db.removeEnvironment env).latest env = none := by
  rw [ProjectDB.latest, find?_eq_none]
  intro _ mem
  have different := (mem_filter.mp mem).2
  simpa using different

theorem cell?_removeEnvironment_of_ne (different : other ≠ env) (keyID : KeyID) :
    (db.removeEnvironment env).cell? other keyID = db.cell? other keyID := by
  refine ProjectDB.cell?_filter (fun entry sameEnv _ => ?_) db.entries
  simpa [sameEnv] using different

theorem ne_of_mem_removeEnvironment
    (listed : other ∈ (db.removeEnvironment env).environmentIDs) :
    other ≠ env ∧ other ∈ db.environmentIDs := by
  obtain ⟨_, mem, rfl⟩ := mem_map.mp listed
  obtain ⟨known, different⟩ := mem_filter.mp mem
  exact ⟨by simpa using different, mem_map_of_mem known⟩

theorem CatalogueWrite.keeps (write : CatalogueWrite db after) : Keeps db after := by
  cases write with
  | insertKey =>
    refine keeps_of_same (Nat.le_succ _) rfl rfl rfl rfl (fun id mem below => ?_) fun _ mem _ => mem
    rcases mem_cons.mp mem with rfl | old
    · exact absurd below (Nat.lt_irrefl _)
    · exact old
  | editKeys _ sameID =>
    refine keeps_of_same le_rfl rfl rfl rfl rfl (fun id mem _ => ?_) fun _ mem _ => mem
    rwa [ProjectDB.keyIDs, keyIDs_map sameID] at mem
  | renameKey =>
    refine keeps_of_same le_rfl rfl rfl rfl rfl (fun id mem _ => ?_) fun _ mem _ => mem
    rwa [keyIDs_renamed] at mem
  | @removeKey id =>
    refine ⟨le_rfl, fun _ mem _ => (filter_sublist.map _).subset mem,
      fun _ mem _ => mem, fun _ mem => (mem_filter.mp mem).1,
      fun _ mem => (mem_filter.mp mem).1, fun _ mem => mem, ?_, fun _ => .inl rfl⟩
    intro env _ _ keyID declared _
    obtain ⟨key, mem, rfl⟩ := mem_map.mp declared
    have other : key.id ≠ id := by simpa using (mem_filter.mp mem).2
    refine ProjectDB.cell?_filter (fun entry _ sameKey => ?_) db.entries
    simpa [sameKey] using other
  | insertEnvironment =>
    refine keeps_of_same (Nat.le_succ _) rfl rfl rfl rfl (fun _ mem _ => mem) fun env mem below =>
      ?_
    rw [environmentIDs_insertEnvironment] at mem
    rcases mem_append.mp mem with old | isNew
    · exact old
    · rw [mem_singleton.mp isNew] at below
      exact absurd below (Nat.lt_irrefl _)
  | @removeEnvironment env =>
    refine ⟨le_rfl, fun _ mem _ => mem,
      fun _ mem _ => (ne_of_mem_removeEnvironment mem).2,
      fun _ mem => (mem_filter.mp mem).1, fun _ mem => (mem_filter.mp mem).1,
      fun _ mem => (mem_filter.mp mem).1, fun other listed _ keyID _ _ =>
        cell?_removeEnvironment_of_ne (ne_of_mem_removeEnvironment listed).1 keyID,
      fun other => ?_⟩
    by_cases here : other = env
    · subst here
      exact .inr latest_removeEnvironment_self
    · exact .inl (latest_removeEnvironment_of_ne here)
  | editParameters =>
    refine keeps_of_same le_rfl rfl rfl rfl rfl (fun _ mem _ => mem) fun env mem _ => ?_
    rwa [ProjectDB.environmentIDs, environmentIDs_editParameters] at mem
  | setGroups later =>
    exact keeps_of_same later rfl rfl rfl rfl (fun _ mem _ => mem) fun _ mem _ => mem

theorem CatalogueWrites.keeps (writes : Relation.ReflTransGen CatalogueWrite db after) :
    Keeps db after := by
  induction writes with
  | refl => exact keeps_of_same le_rfl rfl rfl rfl rfl (fun _ mem _ => mem) fun _ mem _ => mem
  | tail _ write ih => exact ih.trans write.keeps

theorem Keeps.currentRevision_le (keeps : Keeps db after) (env : EnvID) :
    after.currentRevision env ≤ db.currentRevision env := by
  rcases keeps.latest env with same | gone
  · rw [currentRevision_congr same]
  · rw [ProjectDB.currentRevision, gone]
    exact Nat.zero_le _

end Catalogue

section Reachable
variable {server : Server} {db after : ProjectDB} {action : Action}

theorem latest_collect {revision : Nat} (older : revision ≠ db.currentRevision env)
    (same : after.snapshots = updateWhere (fun snapshot => snapshot.env == env &&
      snapshot.revision == revision)
      (fun snapshot => { snapshot with payloadPresent := false, entries := [] }) db.snapshots)
        (other : EnvID) :
    after.latest other = db.latest other := by
  rw [ProjectDB.latest, same, find?_updateWhere (by exact fun _ => rfl)]
  change (db.latest other).map _ = db.latest other
  cases newest : db.latest other with
  | none => rfl
  | some snapshot =>
    have named : snapshot.env = other := by simpa using find?_some newest
    have kept : (snapshot.env == env && snapshot.revision == revision) = false := by
      by_contra hit
      simp only [Bool.not_eq_false, Bool.and_eq_true, beq_iff_eq] at hit
      refine older ?_
      rw [ProjectDB.currentRevision, ← hit.1, named, newest]
      exact hit.2.symm
    rw [Option.map_some, kept]
    rfl

section
variable (taken : step server db action = some after)
include taken

theorem step_mirrored (ok : WellFormed db) (mirrored : Mirrored db) : Mirrored after := by
  cases step_effect ok taken with
  | quiet same =>
    intro env listed
    rw [same.environments] at listed
    exact (mirrored env listed).frame same.snapshots same.keys same.entries
  | drafted drafts =>
    rw [drafts.frame]
    exact fun env listed => (mirrored env listed).frame rfl rfl rfl
  | opened => exact fun env listed => (mirrored env listed).frame rfl rfl rfl
  | collected older =>
    exact fun env listed => (mirrored env listed).congr (latest_collect older rfl env) rfl
  | @removed =>
    intro other listed
    obtain ⟨different, known⟩ := ne_of_mem_removeEnvironment listed
    refine (mirrored other known).congr (latest_removeEnvironment_of_ne different) ?_
    exact render_editKeys (fun key => by unfold CatalogueKey.cascade; split <;> rfl)
      (fun key => by unfold CatalogueKey.cascade; split <;> rfl)
      (fun key => by unfold CatalogueKey.cascade; split <;> rfl) rfl
      fun keyID => cell?_removeEnvironment_of_ne different keyID
  | planned _ _ _ advance | written _ advance =>
    intro env listed
    rw [ProjectDB.environmentIDs, advance.environments] at listed
    exact advance.mirrored env (.inr (mirrored env listed))
  | created advance =>
    intro env listed
    rw [ProjectDB.environmentIDs, advance.environments] at listed
    change env ∈ db.insertEnvironment.environmentIDs at listed
    rw [environmentIDs_insertEnvironment] at listed
    refine advance.mirrored env ?_
    rcases mem_append.mp listed with old | isNew
    · exact .inr ((mirrored env old).frame rfl rfl rfl)
    · exact .inl isNew
  | changed _ advance =>
    intro env listed
    rw [ProjectDB.environmentIDs, advance.environments] at listed
    exact advance.mirrored env (.inl listed)

theorem step_nextID_le (ok : WellFormed db) : db.nextID ≤ after.nextID := by
  obtain ⟨mid, catalogue, -, data⟩ := ok.writes taken
  have first : db.nextID ≤ mid.nextID := by
    rcases catalogue with rfl | ⟨_, writes, rfl⟩
    · exact le_rfl
    · exact (CatalogueWrites.keeps writes).nextID
  have second : mid.nextID ≤ after.nextID := by
    clear taken
    induction data with
    | refl => exact le_rfl
    | tail _ write ih => exact Nat.le_trans ih write.extends.nextID
  exact Nat.le_trans first second

theorem step_pending (ok : WellFormed db) :
      ∀ change ∈ after.pending, change ∈ db.pending ∨ (db.nextID ≤ change.id ∧
      change.stagedFromEntry = (db.cell? change.env change.keyID).map ValueEntry.id) := by
  intro change mem
  cases step_effect ok taken with
  | drafted drafts => exact drafts.pending change mem
  | quiet same => exact .inl (same.pending ▸ mem)
  | opened | collected => exact .inl mem
  | removed => exact .inl (mem_filter.mp mem).1
  | planned _ _ _ advance | written _ advance | created advance =>
    exact .inl (advance.pending change mem)
  | changed changes advance =>
    exact .inl ((CatalogueWrites.keeps (changeSchema_writes changes)).pending change
      (advance.pending change mem))

theorem step_currentRevision_le (ok : WellFormed db)
    (env : EnvID) : after.currentRevision env ≤ db.currentRevision env + 1 := by
  have once {envs : List EnvID} {start : ProjectDB} (distinct : envs.Nodup)
      (advance : Advance envs start after)
      (bound : start.currentRevision env ≤ db.currentRevision env) :
      after.currentRevision env ≤ db.currentRevision env + 1 := by
    rw [advance.revision]
    exact Nat.add_le_add bound (nodup_iff_count_le_one.mp distinct env)
  cases step_effect ok taken with
  | quiet same =>
      exact Nat.le_succ_of_le (Nat.le_of_eq (currentRevision_congr (latest_congr same.snapshots)))
  | drafted drafts =>
    rw [drafts.frame]
    exact Nat.le_succ _
  | opened => exact Nat.le_succ _
  | collected older =>
      exact Nat.le_succ_of_le (Nat.le_of_eq (currentRevision_congr (latest_collect older rfl env)))
  | @removed removed =>
    exact Nat.le_succ_of_le ((@CatalogueWrite.removeEnvironment db removed).keeps.currentRevision_le
      env)
  | planned _ _ _ advance => exact once (nodup_dedup _) advance le_rfl
  | written distinct advance => exact once distinct advance le_rfl
  | created advance => exact once (nodup_singleton _) advance le_rfl
  | changed changes advance =>
    have writes := changeSchema_writes changes
    exact once (CatalogueWrites.wellFormed writes ok).catalogue.environmentIDs advance
      ((CatalogueWrites.keeps writes).currentRevision_le env)

end

theorem run_mirrored (actions : List Action) : Mirrored (run server actions) :=
  (runFrom_invariant (step server) (fun db => WellFormed db ∧ Mirrored db)
    (fun _ _ _ holds taken => ⟨step_wellFormed holds.1 taken, step_mirrored taken holds.1 holds.2⟩)
    actions .empty
    ⟨empty_wellFormed, nofun⟩).2

end Reachable

end Hikyo.Project
