import Hikyo.Project.Lineage

/-!
# Replaying the lineage

Each revision records which keys it added, removed and edited.  `lineage_reconstructs`: applied one
after the other, the records of the revisions up to one give the keys of its snapshot, and a key is
recorded as edited exactly if its occurrence differs from the one before.  `Chronicled` is the
invariant of the whole lineage.
-/

namespace Hikyo.Project

open Hikyo.Lib List

variable {change : ChangedKey} {id : KeyID} {ids : List KeyID} {cells : List MaterialCell}
  {contract : ParameterContract} {publisher : PrincipalID}

def ProjectDB.recorded (db : ProjectDB) (env : EnvID) (revision : Nat) : List ChangedKey :=
  (db.changes.filter fun row => row.env == env && row.revision == revision).map
    ChangeRow.toChangedKey

def applyChange (ids : List KeyID) (change : ChangedKey) : List KeyID :=
  match change.change with
  | .added => change.keyID :: ids
  | .edited => ids
  | .removed => ids.filter (· != change.keyID)

def ProjectDB.replay (db : ProjectDB) (env : EnvID) : Nat → List KeyID
  | 0 => []
  | revision + 1 => (db.recorded env (revision + 1)).foldl applyChange (db.replay env revision)

def keyIDs (entries : List SnapshotEntry) : List KeyID := entries.map SnapshotEntry.keyID

def Records (changes : List ChangedKey) (id : KeyID) (change : RevisionChange) : Prop :=
  ∃ row ∈ changes, row.keyID = id ∧ row.change = change

def Edited (before after : List SnapshotEntry) (id : KeyID) : Prop :=
  ∃ old ∈ before, ∃ new ∈ after, old.keyID = id ∧ new.keyID = id ∧
    (old.valueEntryID ≠ new.valueEntryID ∨ old.keyName ≠ new.keyName)

section Differences
variable {before : List SnapshotEntry} {changes : List ChangedKey}

theorem mem_foldl_applyChange (once : (changes.map ChangedKey.keyID).Nodup) :
      id ∈ changes.foldl applyChange ids ↔
      Records changes id .added ∨ id ∈ ids ∧ ¬ Records changes id .removed := by
  induction changes generalizing ids with
  | nil => simp [Records]
  | cons change rest ih =>
    obtain ⟨fresh, once⟩ := nodup_cons.mp once
    have later {kind : RevisionChange} : Records (change :: rest) id kind ↔
        change.keyID = id ∧ change.change = kind ∨ Records rest id kind := exists_mem_cons_iff _ _ _
    have absent {kind : RevisionChange} (same : change.keyID = id) : ¬ Records rest id kind :=
      fun ⟨row, mem, named, _⟩ => fresh (same.trans named.symm ▸ mem_map_of_mem mem)
    rw [foldl_cons, ih once, later, later]
    by_cases same : change.keyID = id
    · have none_ := @absent .added same
      have stays := @absent .removed same
      cases kind : change.change <;> simp [applyChange, kind, same, none_, stays]
    · cases kind : change.change <;> simp [applyChange, kind, same, Ne.symm same]

theorem mem_lineage : change ∈ lineage before cells ↔
      (∃ cell ∈ cells, cellChange before cell = some change) ∨
      change ∈ removedChanges before cells := by
  rw [lineage, (perm_insertionSort _ _).mem_iff, mem_append, mem_filterMap]

theorem cellChange_eq_some (distinct : (keyIDs before).Nodup) {cell : MaterialCell} :
    cellChange before cell = some change ↔
      change = ⟨cell.key.id, cell.key.name, .added⟩ ∧ cell.key.id ∉ keyIDs before ∨
      change = ⟨cell.key.id, cell.key.name, .edited⟩ ∧ ∃ old ∈ before, old.keyID = cell.key.id ∧
        (old.valueEntryID ≠ cell.entryID ∨ old.keyName ≠ cell.key.name) := by
  unfold cellChange
  split
  · next none_ =>
    have absent : cell.key.id ∉ keyIDs before := fun present => by
      obtain ⟨old, stored, same⟩ := mem_map.mp present
      simpa [same] using find?_eq_none.mp none_ old stored
    grind [keyIDs]
  next prior located =>
  have stored := mem_of_find?_eq_some located
  have named : prior.keyID = cell.key.id := by simpa using find?_some located
  have only : ∀ old ∈ before, old.keyID = cell.key.id → old = prior := fun old mem same =>
    inj_on_of_nodup_map distinct mem stored (same.trans named.symm)
  have present : cell.key.id ∈ keyIDs before := mem_map.mpr ⟨prior, stored, named⟩
  grind

theorem mem_removedChanges :
    change ∈ removedChanges before cells ↔
      ∃ old ∈ before, (∀ cell ∈ cells, cell.key.id ≠ old.keyID) ∧
      change = ⟨old.keyID, old.keyName, .removed⟩ := by
  simp only [removedChanges, mem_map, mem_filter, Bool.not_eq_true', any_eq_false, beq_iff_eq]
  grind

theorem mem_keyIDs_cells : id ∈ keyIDs (cells.map MaterialCell.toEntry) ↔
    ∃ cell ∈ cells, cell.key.id = id := by
  simp [keyIDs, MaterialCell.toEntry]

section
variable (distinct : (keyIDs before).Nodup)
include distinct

theorem records_lineage {kind : RevisionChange} : Records (lineage before cells) id kind ↔
      (∃ cell ∈ cells, cell.key.id = id ∧
        (kind = .added ∧ id ∉ keyIDs before ∨ kind = .edited ∧ ∃ old ∈ before, old.keyID = id ∧
          (old.valueEntryID ≠ cell.entryID ∨ old.keyName ≠ cell.key.name))) ∨
      kind = .removed ∧ id ∈ keyIDs before ∧ ∀ cell ∈ cells, cell.key.id ≠ id := by
  constructor
  · rintro ⟨change, listed, rfl, rfl⟩
    rcases mem_lineage.mp listed with ⟨cell, mem, found⟩ | gone
    · refine .inl ⟨cell, mem, ?_⟩
      rcases (cellChange_eq_some distinct).mp found with ⟨rfl, absent⟩ | ⟨rfl, moved⟩
      · exact ⟨rfl, .inl ⟨rfl, absent⟩⟩
      · exact ⟨rfl, .inr ⟨rfl, moved⟩⟩
    · obtain ⟨old, stored, absent, rfl⟩ := mem_removedChanges.mp gone
      exact .inr ⟨rfl, mem_map_of_mem stored, absent⟩
  rintro (⟨cell, mem, rfl, moved⟩ | ⟨rfl, present, absent⟩)
  · refine ⟨⟨cell.key.id, cell.key.name, kind⟩, mem_lineage.mpr (.inl ⟨cell, mem, ?_⟩), rfl, rfl⟩
    rw [cellChange_eq_some distinct]
    rcases moved with ⟨rfl, absent⟩ | ⟨rfl, moved⟩
    · exact .inl ⟨rfl, absent⟩
    · exact .inr ⟨rfl, moved⟩
  · obtain ⟨old, stored, rfl⟩ := mem_map.mp present
    exact ⟨_, mem_lineage.mpr (.inr (mem_removedChanges.mpr ⟨old, stored, absent, rfl⟩)), rfl, rfl⟩

theorem lineage_edited :
    Records (lineage before cells) id .edited ↔ Edited before
      (cells.map MaterialCell.toEntry) id := by
  rw [records_lineage distinct]
  simp only [Edited, mem_map, exists_exists_and_eq_and, MaterialCell.toEntry]
  grind

theorem filterMap_cellChange_sublist :
    ((cells.filterMap (cellChange before)).map ChangedKey.keyID).Sublist
    (cells.map fun cell => cell.key.id) := by
  induction cells with
  | nil => exact .refl _
  | cons cell _ ih =>
    rw [filterMap_cons, map_cons]
    cases found : cellChange before cell with
    | none => exact ih.cons _
    | some =>
      rcases (cellChange_eq_some distinct).mp found with ⟨rfl, -⟩ | ⟨rfl, -⟩ <;>
          exact ih.cons_cons _

theorem lineage_once (once : (keyIDs (cells.map MaterialCell.toEntry)).Nodup) :
    ((lineage before cells).map ChangedKey.keyID).Nodup := by
  have ids : keyIDs (cells.map MaterialCell.toEntry) = cells.map fun cell => cell.key.id :=
    map_map ..
  rw [lineage, ((perm_insertionSort _ _).map _).nodup_iff, map_append, nodup_append]
  refine ⟨(ids ▸ once).sublist (filterMap_cellChange_sublist distinct), ?_, ?_⟩
  · rw [removedChanges, map_map]
    exact distinct.sublist (filter_sublist.map _)
  rintro _ moved _ gone rfl
  obtain ⟨cell, mem, same⟩ := mem_map.mp ((filterMap_cellChange_sublist distinct).subset moved)
  obtain ⟨change, gone, named⟩ := mem_map.mp gone
  obtain ⟨_, -, absent, rfl⟩ := mem_removedChanges.mp gone
  exact absent cell mem (same.trans named.symm)

theorem mem_foldl_lineage (once : (keyIDs (cells.map MaterialCell.toEntry)).Nodup)
    (start : ∀ id, id ∈ ids ↔ id ∈ keyIDs before) :
    id ∈ (lineage before cells).foldl applyChange ids ↔ id ∈ keyIDs
      (cells.map MaterialCell.toEntry) := by
  rw [mem_foldl_applyChange (lineage_once distinct once), records_lineage distinct,
    records_lineage distinct, start, mem_keyIDs_cells]
  grind

end

end Differences

/-- What stood before a revision, if that is not collected. -/
inductive Follows (db : ProjectDB) (snapshot : Snapshot) : List SnapshotEntry → Prop
  | first (start : snapshot.revision = 1) : Follows db snapshot []
  | later {before : Snapshot} (stored : before ∈ db.snapshots) (sameEnv : before.env = snapshot.env)
      (next : before.revision + 1 = snapshot.revision) (present : before.payloadPresent = true) :
      Follows db snapshot before.entries

structure Chronicled (db : ProjectDB) : Prop where
  newest : ∀ env snapshot, db.latest env = some snapshot → snapshot.payloadPresent = true
  rows : ∀ row ∈ db.changes, row.revision ≤ db.currentRevision row.env
  once : ∀ env revision, ((db.recorded env revision).map ChangedKey.keyID).Nodup
  distinct : ∀ snapshot ∈ db.snapshots, (keyIDs snapshot.entries).Nodup
  replayed : ∀ snapshot ∈ db.snapshots, snapshot.payloadPresent = true →
    ∀ id, id ∈ db.replay snapshot.env snapshot.revision ↔ id ∈ keyIDs snapshot.entries
  edited : ∀ snapshot ∈ db.snapshots, snapshot.payloadPresent = true →
    ∀ before, Follows db snapshot before →
    ∀ id, Records (db.recorded snapshot.env snapshot.revision) id .edited ↔
      Edited before snapshot.entries id

section Chronicles
variable {server : Server} {db after : ProjectDB} {env : EnvID}

theorem replay_congr {revision : Nat}
    (same : ∀ n ≤ revision, after.recorded env n = db.recorded env n) :
    after.replay env revision = db.replay env revision := by
  induction revision with
  | zero => rfl
  | succ _ ih =>
      rw [ProjectDB.replay, ProjectDB.replay, ih fun n le => same n (Nat.le_succ_of_le le),
        same _ le_rfl]

theorem Chronicled.shrink (ok : Chronicled db) (live : EnvID → Prop)
    (changes : after.changes.Sublist db.changes) (rows : ∀ row ∈ after.changes, live row.env)
    (latest : ∀ env, live env → after.latest env = db.latest env)
    (recorded : ∀ env, live env → ∀ n, after.recorded env n = db.recorded env n)
    (snapshots : ∀ snapshot ∈ after.snapshots, live snapshot.env ∧ (snapshot ∈ db.snapshots ∨
      snapshot.payloadPresent = false ∧ snapshot.entries = [])) : Chronicled after := by
  have kept {snapshot : Snapshot} (stored : snapshot ∈ after.snapshots)
      (present : snapshot.payloadPresent = true) :
      snapshot ∈ db.snapshots := by
    rcases (snapshots snapshot stored).2 with old | ⟨gone, -⟩
    · exact old
    · cases gone.symm.trans present
  refine ⟨fun env snapshot newest => ?_, fun row mem => ?_, fun env n =>
    (ok.once env n).sublist (((changes.filter _).map _).map _), fun snapshot stored => ?_,
    fun snapshot stored present => ?_, fun snapshot stored present before follows => ?_⟩
  · obtain ⟨alive, -⟩ := snapshots snapshot (mem_of_find?_eq_some newest)
    obtain rfl : snapshot.env = env := by simpa using find?_some newest
    exact ok.newest _ snapshot (latest _ alive ▸ newest)
  · rw [currentRevision_congr (latest row.env (rows row mem))]
    exact ok.rows row (changes.subset mem)
  · rcases (snapshots snapshot stored).2 with old | ⟨-, empty⟩
    · exact ok.distinct snapshot old
    · rw [empty]
      exact .nil
  · rw [replay_congr fun n _ => recorded _ (snapshots snapshot stored).1 n]
    exact ok.replayed snapshot (kept stored present) present
  · rw [recorded _ (snapshots snapshot stored).1]
    refine ok.edited snapshot (kept stored present) present before ?_
    cases follows with
    | first start => exact .first start
    | later mem sameEnv next held => exact .later (kept mem held) sameEnv next held

theorem Chronicled.congr (ok : Chronicled db) (changes : after.changes = db.changes)
    (snapshots : after.snapshots = db.snapshots) : Chronicled after := by
  refine ok.shrink (fun _ => True) (changes ▸ .refl _) (fun _ _ => trivial)
    (fun _ _ => latest_congr snapshots)
    (fun env _ n => ?_) fun snapshot stored => ⟨trivial, .inl (snapshots ▸ stored)⟩
  rw [ProjectDB.recorded, changes, ProjectDB.recorded]

theorem recorded_commit {own : EnvID} (n : Nat) :
      (commitSnapshot db own publisher contract cells).recorded env n =
      (if own = env ∧ db.currentRevision own + 1 = n then
        lineage (((db.latest own).map Snapshot.entries).getD []) cells else []) ++
          db.recorded env n := by
  rw [ProjectDB.recorded, commitSnapshot, filter_append, map_append, ProjectDB.recorded]
  congr 1
  split
  · next here =>
    obtain ⟨rfl, rfl⟩ := here
    rw [filter_map, map_map, filter_eq_self.mpr fun _ _ => by simp]
    exact map_id _
  next other =>
  rw [map_eq_nil_iff, filter_eq_nil_iff]
  intro _ mem
  obtain ⟨_, -, rfl⟩ := mem_map.mp mem
  simpa using other

/-- The newest revision and what it holds; before the first publish it is the empty revision 0. -/
theorem Chronicled.current (ok : Chronicled db) (numbered : Numbered db) (env : EnvID) :
    ∃ before, ((db.latest env).map Snapshot.entries).getD [] = before ∧ (keyIDs before).Nodup ∧
      (∀ id, id ∈ db.replay env (db.currentRevision env) ↔ id ∈ keyIDs before) ∧
      (db.currentRevision env = 0 → before = []) ∧
      ∀ snapshot ∈ db.snapshots, snapshot.env = env → snapshot.revision = db.currentRevision env →
        snapshot.entries = before := by
  rw [ProjectDB.currentRevision]
  cases newest : db.latest env with
  | none =>
    refine ⟨[], rfl, .nil, fun _ => Iff.rfl, fun _ => rfl, fun snapshot stored named _ => ?_⟩
    exact absurd named (by simpa using find?_eq_none.mp newest snapshot stored)
  | some latest =>
    have stored := mem_of_find?_eq_some newest
    obtain rfl : latest.env = env := by simpa using find?_some newest
    refine ⟨latest.entries, rfl, ok.distinct latest stored,
      ok.replayed latest stored (ok.newest _ latest newest),
      fun zero => ?_, fun snapshot mem named same => ?_⟩
    · exact absurd zero (numbered.revision_bounds stored).1.ne'
    · rw [numbered.snapshot_unique mem stored named same]

theorem Chronicled.commit (ok : Chronicled db) (numbered : Numbered db)
    (once : (keyIDs (cells.map MaterialCell.toEntry)).Nodup) :
    Chronicled (commitSnapshot db env publisher contract cells) := by
  obtain ⟨before, latest, distinct, replayed, start, current⟩ := ok.current numbered env
  have here : (commitSnapshot db env publisher contract cells).recorded env
      (db.currentRevision env + 1) =
      lineage before cells := by
    have fresh : db.recorded env (db.currentRevision env + 1) = [] := by
      rw [ProjectDB.recorded, map_eq_nil_iff, filter_eq_nil_iff]
      intro row mem
      have bound := ok.rows row mem
      simp only [Bool.and_eq_true, beq_iff_eq, not_and]
      rintro rfl
      omega
    rw [recorded_commit, if_pos ⟨rfl, rfl⟩, fresh, append_nil, latest]
  have old {own : EnvID} {n : Nat} (other : own = env → n ≠ db.currentRevision env + 1) :
      (commitSnapshot db env publisher contract cells).recorded own n = db.recorded own n := by
    rw [recorded_commit, if_neg fun ⟨same, after⟩ => other same.symm after.symm, nil_append]
  have known {snapshot : Snapshot} (stored : snapshot ∈ db.snapshots) (same : snapshot.env = env) :
      snapshot.revision < db.currentRevision env + 1 :=
        Nat.lt_succ_of_le (same ▸ (numbered.revision_bounds stored).2)
  refine ⟨fun own snapshot newest => ?_, fun row mem => ?_, fun own n => ?_,
    fun snapshot stored => ?_,
    fun snapshot stored present id => ?_, fun snapshot stored present earlier follows => ?_⟩
  · by_cases same : env = own
    · cases (latest_cons_self same rfl).symm.trans newest
      rfl
    · exact ok.newest own snapshot ((latest_cons_of_ne same rfl).symm.trans newest)
  · by_cases same : env = row.env
    · have newest : (commitSnapshot db env publisher contract cells).currentRevision row.env =
          db.currentRevision env + 1 := by rw [ProjectDB.currentRevision, latest_cons_self same rfl]
      rw [newest]
      rcases mem_append.mp mem with new | stored
      · obtain ⟨_, -, rfl⟩ := mem_map.mp new
        exact le_rfl
      · exact Nat.le_succ_of_le (same ▸ ok.rows row stored)
    rw [currentRevision_congr (latest_cons_of_ne same rfl)]
    rcases mem_append.mp mem with new | stored
    · obtain ⟨_, -, rfl⟩ := mem_map.mp new
      exact absurd rfl same
    · exact ok.rows row stored
  · by_cases same : own = env ∧ n = db.currentRevision env + 1
    · rw [same.1, same.2, here]
      exact lineage_once distinct once
    · rw [old fun named next => same ⟨named, next⟩]
      exact ok.once own n
  · rcases mem_cons.mp stored with rfl | stored
    · exact once
    · exact ok.distinct snapshot stored
  · rcases mem_cons.mp stored with rfl | stored
    · change id ∈ (commitSnapshot db env publisher contract cells).replay env
        (db.currentRevision env + 1) ↔ _
      rw [ProjectDB.replay, here, replay_congr fun n le => old fun _ => by omega]
      exact mem_foldl_lineage distinct once replayed
    · rw [replay_congr fun n le => old fun same => (le.trans_lt (known stored same)).ne]
      exact ok.replayed snapshot stored present id
  · rcases mem_cons.mp stored with rfl | stored
    · have same : earlier = before := by
        cases follows with
        | first zero => exact (start (Nat.succ.inj zero)).symm
        | later mem sameEnv next held =>
          rcases mem_cons.mp mem with rfl | mem
          · exact absurd next (by simp)
          · exact current _ mem sameEnv (Nat.succ.inj next)
      rw [same, here]
      exact fun _ => lineage_edited distinct
    rw [old fun same => (known stored same).ne]
    refine ok.edited snapshot stored present earlier ?_
    cases follows with
    | first zero => exact .first zero
    | later mem sameEnv next held =>
      rcases mem_cons.mp mem with rfl | mem
      · have bound := known stored sameEnv.symm
        exact absurd next (by simp; omega)
      · exact .later mem sameEnv next held

theorem DataWrite.chronicled (write : DataWrite server db after) (ok : WellFormed db)
    (numbered : Numbered db) (chronicled : Chronicled db) : Chronicled after := by
  cases write with
  | @commit row _ _ _ _ rendered =>
    refine chronicled.commit numbered ?_
    rw [rendered]
    exact (((perm_insertionSort _ db.keys).map CatalogueKey.id).nodup_iff.mpr
      ok.catalogue.keyIDs).sublist
      (render_sublist row.id _ _ fun _ _ => rfl)
  | collect older =>
    refine chronicled.shrink (fun _ => True) (.refl _) (fun _ _ => trivial)
      (fun env _ => latest_collect older rfl env) (fun _ _ _ => rfl) fun snapshot stored =>
      ⟨trivial, ?_⟩
    rcases mem_updateWhere.mp stored with ⟨_, -, -, rfl⟩ | ⟨stored, -⟩
    · exact .inr ⟨rfl, rfl⟩
    · exact .inl stored
  | castVote state => cases state <;> exact chronicled.congr rfl rfl
  | put | clear | stage | discard | protect | policies | administer | openRequest | resolve
  | expire =>
    exact chronicled.congr rfl rfl

theorem CatalogueStep.chronicled (step : CatalogueStep db after) (chronicled : Chronicled db) :
    Chronicled after := by
  rcases step with rfl | ⟨changed, writes, rfl⟩
  · exact chronicled
  suffices kept : Chronicled changed from kept.congr rfl rfl
  induction writes with
  | refl => exact chronicled
  | tail _ write ih =>
    cases write with
    | @removeEnvironment removed =>
      refine ih.shrink (· ≠ removed) filter_sublist (fun row mem => ?_)
        (fun _ other => latest_removeEnvironment_of_ne other) (fun env other n => ?_)
        fun snapshot stored => ?_
      · simpa using (mem_filter.mp mem).2
      · rw [ProjectDB.recorded, ProjectDB.removeEnvironment, filter_filter, ProjectDB.recorded]
        exact congrArg _ (filter_congr fun row _ => by grind)
      · obtain ⟨stored, other⟩ := mem_filter.mp stored
        exact ⟨by simpa using other, .inl stored⟩
    | insertKey | editKeys | renameKey | removeKey | insertEnvironment | editParameters
    | setGroups =>
      exact ih.congr rfl rfl

theorem step_chronicled {action : Action} (ok : WellFormed db) (numbered : Numbered db)
    (chronicled : Chronicled db) (taken : step server db action = some after) :
    Chronicled after := by
  obtain ⟨mid, catalogue, okMid, data⟩ := ok.writes taken
  clear taken
  induction data with
  | refl => exact catalogue.chronicled chronicled
  | tail before write ih =>
    exact write.chronicled (DataWrites.wellFormed before okMid)
      (DataWrites.numbered before (catalogue.numbered numbered)) ih

/-- The records of the revisions up to one give the keys of its snapshot, and tell the edited ones.
-/
theorem lineage_reconstructs (server : Server) (history : List Action) :
    (∀ snapshot ∈ (run server history).snapshots, snapshot.payloadPresent = true →
      (∀ id, id ∈ (run server history).replay snapshot.env snapshot.revision ↔
        id ∈ snapshot.entries.map SnapshotEntry.keyID) ∧
      ∀ before, Follows (run server history) snapshot before →
        ∀ id, Records ((run server history).recorded snapshot.env snapshot.revision) id .edited ↔
          Edited before snapshot.entries id) ∧
    ∀ env revision, (((run server history).recorded env revision).map ChangedKey.keyID).Nodup := by
  have chronicled : Chronicled (run server history) :=
    (runFrom_invariant (step server) (fun db => WellFormed db ∧ Numbered db ∧ Chronicled db)
      (fun _ _ _ ⟨ok, numbered, chronicled⟩ taken => ⟨step_wellFormed ok taken,
        step_numbered ok numbered taken, step_chronicled ok numbered chronicled taken⟩)
          history .empty
      ⟨empty_wellFormed, fun _ => rfl, nofun, nofun, fun _ _ => .nil, nofun, nofun, nofun⟩).2.2
  exact ⟨fun snapshot stored present => ⟨chronicled.replayed snapshot stored present,
    chronicled.edited snapshot stored present⟩, chronicled.once⟩

end Chronicles

end Hikyo.Project
