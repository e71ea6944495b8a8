import Hikyo.Project.Publish

/-!
# The published cells

A cell is the published value of a key in an environment, and `ProjectDB.render` the entries a
snapshot has for the cells.  `writeCells_outcome` says what a publication leaves in each cell, and
`MovesCells` that it leaves everything else; a snapshot is a rendering of `value_entries` and of
nothing else.
-/

namespace Hikyo.Project

open Hikyo.Lib List

variable {env env' : EnvID} {keyID keyID' : KeyID} {cell : ResolvedCell}

namespace ProjectDB

theorem cell?_eq_some {db : ProjectDB} {entry : ValueEntry}
    (found : db.cell? env keyID = some entry) :
    entry ∈ db.entries ∧ entry.env = env ∧ entry.keyID = keyID := by
  have hit := find?_some found
  simp only [Bool.and_eq_true, beq_iff_eq] at hit
  exact ⟨mem_of_find?_eq_some found, hit⟩

theorem cell?_eq_none {db : ProjectDB} :
    db.cell? env keyID = none ↔
      ∀ entry ∈ db.entries, ¬ (entry.env = env ∧ entry.keyID = keyID) := by
  simp [cell?, find?_eq_none]

theorem cell?_filter {keep : ValueEntry → Bool}
    (kept : ∀ entry : ValueEntry, entry.env = env → entry.keyID = keyID → keep entry = true)
    (rows : List ValueEntry) :
      ((rows.filter keep).find? fun entry => entry.env == env && entry.keyID == keyID) =
      rows.find? fun entry => entry.env == env && entry.keyID == keyID := by
  rw [find?_filter]
  congr 1
  funext entry
  by_cases here : entry.env = env ∧ entry.keyID = keyID
  · simp [here, kept entry here.1 here.2]
  · have miss : (entry.env == env && entry.keyID == keyID) = false := by simpa using here
    simp [miss]

theorem cell?_clearValue_self (db : ProjectDB) (env : EnvID) (keyID : KeyID) :
    (db.clearValue env keyID).cell? env keyID = none := by
  rw [cell?_eq_none]
  intro _ mem here
  simp [clearValue, here] at mem

theorem cell?_clearValue_of_ne (db : ProjectDB) (other : ¬ (env' = env ∧ keyID' = keyID)) :
    (db.clearValue env keyID).cell? env' keyID' = db.cell? env' keyID' := by
  refine cell?_filter (fun entry sameEnv sameKey => ?_) db.entries
  rw [← sameEnv, ← sameKey] at other
  simpa [imp_iff_not_or] using other

theorem cell?_putValue_self (db : ProjectDB) (env : EnvID) (keyID : KeyID) (value : String) :
    (db.putValue env keyID value).cell? env keyID = some ⟨db.nextID, env, keyID, value⟩ := by
  simp [putValue, cell?]

theorem cell?_putValue_of_ne (db : ProjectDB) (value : String)
    (other : ¬ (env' = env ∧ keyID' = keyID)) :
    (db.putValue env keyID value).cell? env' keyID' = db.cell? env' keyID' := by
  rw [← cell?_clearValue_of_ne db other]
  refine find?_cons_of_neg ?_
  intro here
  simp only [Bool.and_eq_true, beq_iff_eq] at here
  exact other ⟨here.1.symm, here.2.symm⟩

end ProjectDB

def CatalogueKey.entryOf (key : CatalogueKey) (entry : ValueEntry) : SnapshotEntry :=
  ⟨key.id, key.name, key.classification, entry.value, entry.id⟩

def ProjectDB.render (db : ProjectDB) (env : EnvID) : List SnapshotEntry :=
  db.listKeys.filterMap fun key => (db.cell? env key.id).map key.entryOf

variable {db after : ProjectDB} {cells : List ResolvedCell}

theorem mem_listKeys {key : CatalogueKey} : key ∈ db.listKeys ↔ key ∈ db.keys :=
  (perm_insertionSort _ _).mem_iff

theorem loadGroupIndex_keys {index : GroupIndex} (loaded : loadGroupIndex db = .ok index) :
    index.keys = db.listKeys := by
  unfold loadGroupIndex at loaded
  split at loaded
  · cases loaded
    rfl
  · cases loaded

theorem mem_render {row : SnapshotEntry} : row ∈ db.render env ↔
      ∃ key ∈ db.keys, ∃ entry, db.cell? env key.id = some entry ∧ row = key.entryOf entry := by
  simp only [ProjectDB.render, mem_filterMap, Option.map_eq_some_iff, mem_listKeys]
  constructor
  all_goals
    rintro ⟨key, mem, entry, found, rfl⟩
    exact ⟨key, mem, entry, found, rfl⟩

theorem render_congr (keys : after.keys = db.keys)
    (cells : ∀ key ∈ db.keys, after.cell? env key.id = db.cell? env key.id) :
    after.render env = db.render env := by
  unfold ProjectDB.render
  have sameKeys : after.listKeys = db.listKeys := by rw [ProjectDB.listKeys, keys]; rfl
  rw [sameKeys]
  refine filterMap_congr fun key mem => ?_
  rw [cells key (mem_listKeys.mp mem)]

structure MovesCells (db after : ProjectDB) : Prop where
  frame : after = { db with entries := after.entries, nextID := after.nextID }
  fresh : db.nextID ≤ after.nextID

theorem MovesCells.refl (db : ProjectDB) : MovesCells db db := ⟨rfl, le_rfl⟩

theorem MovesCells.trans {a b c : ProjectDB} (first : MovesCells a b) (second : MovesCells b c) :
    MovesCells a c := by
  refine ⟨?_, Nat.le_trans first.fresh second.fresh⟩
  have left := second.frame
  rw [first.frame] at left
  exact left

section
variable (moves : MovesCells db after)
include moves

theorem MovesCells.keys : after.keys = db.keys := by
  rw [moves.frame]

theorem MovesCells.snapshots : after.snapshots = db.snapshots := by
  rw [moves.frame]

theorem MovesCells.schemaRevision : after.schemaRevision = db.schemaRevision := by
  rw [moves.frame]

theorem MovesCells.currentRevision (env : EnvID) :
    after.currentRevision env = db.currentRevision env := by
  rw [ProjectDB.currentRevision, ProjectDB.latest, moves.snapshots]
  rfl

end

theorem movesCells_clearValue (db : ProjectDB) (env : EnvID) (keyID : KeyID) :
    MovesCells db (db.clearValue env keyID) := ⟨rfl, le_rfl⟩

theorem movesCells_putValue (db : ProjectDB) (env : EnvID) (keyID : KeyID) (value : String) :
    MovesCells db (db.putValue env keyID value) := ⟨rfl, Nat.le_succ _⟩

theorem writeCells_movesCells (env : EnvID) (cells : List ResolvedCell) (db : ProjectDB) :
    MovesCells db (writeCells env cells db).1 := by
  induction cells generalizing db with
  | nil => exact .refl db
  | cons cell _ ih =>
    obtain ⟨key, outcome⟩ := cell
    cases outcome with
    | absent | kept => exact ih db
    | cleared => exact (movesCells_clearValue db env key.id).trans (ih _)
    | written value =>
      exact (movesCells_putValue db env key.id (normalize value)).trans (ih _)

theorem writeCells_cell?_of_notMem
    (outside : env' ≠ env ∨ keyID ∉ cells.map fun cell => cell.key.id) :
    (writeCells env cells db).1.cell? env' keyID = db.cell? env' keyID := by
  induction cells generalizing db with
  | nil => rfl
  | cons cell rest ih =>
    obtain ⟨key, outcome⟩ := cell
    have outsideRest : env' ≠ env ∨ keyID ∉ rest.map fun cell => cell.key.id :=
      outside.imp_right fun absent mem => absent (.tail _ mem)
    have other : ¬ (env' = env ∧ keyID = key.id) := by
      rintro ⟨sameEnv, rfl⟩
      exact outside.elim (fun different => different sameEnv) fun absent => absent (.head _)
    cases outcome with
    | absent | kept => exact ih outsideRest
    | cleared => exact (ih outsideRest).trans (db.cell?_clearValue_of_ne other)
    | written =>
      exact (ih outsideRest).trans (db.cell?_putValue_of_ne _ other)

def Outcome (db after : ProjectDB) (env : EnvID) (keyID : KeyID) : CellOutcome → Prop
  | .absent => after.cell? env keyID = db.cell? env keyID
  | .kept _ _ => after.cell? env keyID = db.cell? env keyID
  | .cleared => after.cell? env keyID = none
  | .written value _ =>
    ∃ id, db.nextID ≤ id ∧ after.cell? env keyID = some ⟨id, env, keyID, normalize value⟩

theorem writeCells_outcome (distinct : (cells.map fun cell => cell.key.id).Nodup)
    (mem : cell ∈ cells) :
    Outcome db (writeCells env cells db).1 env cell.key.id cell.outcome := by
  induction cells generalizing db with
  | nil => cases mem
  | cons head rest ih =>
    obtain ⟨key, outcome⟩ := head
    obtain ⟨notLater, distinctRest⟩ := nodup_cons.mp distinct
    rcases mem_cons.mp mem with rfl | later
    · -- the row written here survives the rest, which never names this key again
      have survives {db' : ProjectDB} :
          (writeCells env rest db').1.cell? env key.id = db'.cell? env key.id :=
        writeCells_cell?_of_notMem (.inr notLater)
      cases outcome with
      | absent | kept => exact survives
      | cleared => exact survives.trans (db.cell?_clearValue_self env key.id)
      | written =>
        exact ⟨db.nextID, le_rfl, survives.trans (db.cell?_putValue_self env key.id _)⟩
    have different : cell.key.id ≠ key.id := by
      intro same
      exact notLater (mem_map.mpr ⟨cell, later, same⟩)
    have before {db' : ProjectDB} (moves : MovesCells db db')
        (same : db'.cell? env cell.key.id = db.cell? env cell.key.id)
        (after : Outcome db' (writeCells env rest db').1 env cell.key.id cell.outcome) :
        Outcome db (writeCells env rest db').1 env cell.key.id cell.outcome := by
      cases written : cell.outcome with
      | absent | kept => rw [written] at after; exact after.trans same
      | cleared => rw [written] at after; exact after
      | written =>
        rw [written] at after
        obtain ⟨id, fresh, found⟩ := after
        exact ⟨id, Nat.le_trans moves.fresh fresh, found⟩
    have other : ¬ (env = env ∧ cell.key.id = key.id) := fun here => different here.2
    cases outcome with
    | absent | kept => exact ih distinctRest later
    | cleared =>
      exact before (movesCells_clearValue db env key.id) (db.cell?_clearValue_of_ne other)
        (ih distinctRest later)
    | written =>
      exact before (movesCells_putValue db env key.id _) (db.cell?_putValue_of_ne _ other)
        (ih distinctRest later)

def Resolved (db : ProjectDB) (env : EnvID) (cell : ResolvedCell) : Prop :=
  match cell.outcome with
  | .absent => db.cell? env cell.key.id = none
  | .kept id value => db.cell? env cell.key.id = some ⟨id, env, cell.key.id, value⟩
  | .cleared => True
  | .written value _ => normalize value = value

theorem resolved_resolveCell {applies : List PendingChange}
    (normal : ∀ apply ∈ applies, ∀ value, apply.value = some value → normalize value = value)
    (key : CatalogueKey) : Resolved db env (resolveCell db env applies key) := by
  unfold Resolved resolveCell
  cases found : applies.find? fun apply => apply.keyID == key.id with
  | some apply =>
    cases operation : apply.value with
    | none => simp [operation]
    | some value =>
        simpa [operation] using normal apply (mem_of_find?_eq_some found) value operation
  | none =>
    cases published : db.cell? env key.id with
    | none => simp
    | some =>
      obtain ⟨-, sameEnv, sameKey⟩ := ProjectDB.cell?_eq_some published
      simp [← sameEnv, ← sameKey]

theorem Resolved.congr {db' : ProjectDB}
    (same : db'.cell? env cell.key.id = db.cell? env cell.key.id)
    (resolved : Resolved db env cell) :
    Resolved db' env cell := by
  unfold Resolved at resolved ⊢
  rw [same]
  exact resolved

theorem writeCells_material (distinct : (cells.map fun cell => cell.key.id).Nodup)
    (resolved : ∀ cell ∈ cells, Resolved db env cell) :
      (writeCells env cells db).2.map MaterialCell.toEntry =
      (cells.map ResolvedCell.key).filterMap fun key =>
        ((writeCells env cells db).1.cell? env key.id).map key.entryOf := by
  induction cells generalizing db with
  | nil => rfl
  | cons head rest ih =>
    obtain ⟨key, outcome⟩ := head
    obtain ⟨notLater, distinctRest⟩ := nodup_cons.mp distinct
    have here := resolved _ (.head _)
    have survives {db' : ProjectDB} :
        (writeCells env rest db').1.cell? env key.id = db'.cell? env key.id :=
      writeCells_cell?_of_notMem (.inr notLater)
    have unchanged {db' : ProjectDB} (same : ∀ keyID, keyID ≠ key.id →
        db'.cell? env keyID = db.cell? env keyID) : ∀ cell ∈ rest, Resolved db' env cell := by
      intro cell later
      refine (resolved cell (.tail _ later)).congr (same _ fun hit => ?_)
      exact notLater (mem_map.mpr ⟨cell, later, hit⟩)
    cases outcome with
    | absent =>
      have gone := survives.trans (show db.cell? env key.id = none from here)
      simp only [writeCells, map_cons, filterMap_cons, gone, Option.map_none]
      exact ih distinctRest (unchanged fun _ _ => rfl)
    | kept id value =>
      have stays :=
        survives.trans (show db.cell? env key.id = some ⟨id, env, key.id, value⟩ from here)
      simp only [writeCells, map_cons, filterMap_cons, stays, Option.map_some]
      exact congrArg _ (ih distinctRest (unchanged fun _ _ => rfl))
    | cleared =>
      have gone := survives.trans (db.cell?_clearValue_self env key.id)
      simp only [writeCells, map_cons, filterMap_cons, gone, Option.map_none]
      exact ih distinctRest
        (unchanged fun keyID different => db.cell?_clearValue_of_ne fun hit => different hit.2)
    | written value =>
      have normal : normalize value = value := here
      have stays := survives.trans (db.cell?_putValue_self env key.id (normalize value))
      simp only [writeCells, map_cons, filterMap_cons, stays, Option.map_some]
      refine congrArg₂ _ ?_ (ih distinctRest
        (unchanged fun keyID different => db.cell?_putValue_of_ne _ fun hit => different hit.2))
      simp [MaterialCell.toEntry, CatalogueKey.entryOf, normal]

end Hikyo.Project
