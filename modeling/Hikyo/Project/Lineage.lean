import Mathlib.Data.List.Infix
import Hikyo.Project.Mirror

/-!
# Lineage: numbers and validity of snapshots

`run_snapshots_valid_and_numbered`: in every reachable state each snapshot obeys the catalogue of
the schema revision that it pins, whatever has become of the catalogue since, and the revisions of
an environment are 1, 2, 3 and so on without a gap.  A schema revision names one catalogue
(`run_schema_unique`), and a snapshot was valid when it was committed (`run_committed`).
-/

namespace Hikyo.Project

open Hikyo.Lib Relation List

variable {action : Action} {server : Server} {snapshot : Snapshot}

def ProjectDB.revisions (db : ProjectDB) (env : EnvID) : List Nat :=
  (db.snapshots.filter fun snapshot => snapshot.env == env).map Snapshot.revision

/-- The revisions of every environment are 1, 2, 3, … up to the current one. -/
def Numbered (db : ProjectDB) : Prop :=
  ∀ env, (db.revisions env).reverse = range' 1 (db.currentRevision env)

section Numbers
variable {db after : ProjectDB} {env : EnvID}

theorem currentRevision_eq_head : db.currentRevision env = (db.revisions env).headD 0 := by
  rw [ProjectDB.currentRevision, ProjectDB.latest, ProjectDB.revisions, ← head?_filter]
  cases db.snapshots.filter fun snapshot => snapshot.env == env with
  | nil | cons => rfl

theorem DataWrite.revisions (write : DataWrite server db after) (env : EnvID) :
    after.revisions env = db.revisions env ∨
      after.revisions env = (db.currentRevision env + 1) :: db.revisions env := by
  cases write with
  | @commit row =>
    by_cases here : row.id = env
    · subst here
      exact .inr (by simp [ProjectDB.revisions, commitSnapshot])
    · exact .inl (by simp [ProjectDB.revisions, commitSnapshot, here])
  | collect =>
    exact .inl (map_filter_updateWhere (fun _ => rfl) fun _ => rfl)
  | castVote state => cases state <;> exact .inl rfl
  | put | clear | stage | discard | protect | policies | administer | openRequest | resolve
  | expire =>
    exact .inl rfl

theorem CatalogueWrite.revisions (write : CatalogueWrite db after) (env : EnvID) :
    after.revisions env = db.revisions env ∨ after.revisions env = [] := by
  cases write with
  | @removeEnvironment removed =>
    rw [ProjectDB.revisions, ProjectDB.removeEnvironment, filter_filter]
    by_cases here : env = removed
    · subst here
      refine .inr ?_
      rw [map_eq_nil_iff, filter_eq_nil_iff]
      simp
    refine .inl (congrArg _ (filter_congr fun snapshot _ => ?_))
    by_cases named : snapshot.env = env
    · simp [named, here]
    · simp [named]
  | insertKey | editKeys | renameKey | removeKey | insertEnvironment | editParameters | setGroups =>
    exact .inl rfl

theorem Numbered.of_same (numbered : Numbered db)
    (same : ∀ env, after.revisions env = db.revisions env ∨ after.revisions env = [] ∨
      after.revisions env = (db.currentRevision env + 1) :: db.revisions env) : Numbered after := by
  intro env
  rcases same env with unchanged | removed | committed
  · rw [currentRevision_eq_head, unchanged, ← currentRevision_eq_head]
    exact numbered env
  · rw [currentRevision_eq_head, removed]
    rfl
  · rw [currentRevision_eq_head, committed, reverse_cons, numbered env, headD_cons,
      range'_1_concat, Nat.add_comm 1]

theorem DataWrites.numbered (writes : DataWrites server db after) (numbered : Numbered db) :
    Numbered after := by
  induction writes with
  | refl => exact numbered
  | tail _ write ih => exact ih.of_same fun env => (write.revisions env).imp_right Or.inr

theorem CatalogueStep.numbered (step : CatalogueStep db after) (numbered : Numbered db) :
    Numbered after := by
  rcases step with rfl | ⟨changed, writes, rfl⟩
  · exact numbered
  suffices renumbered : Numbered changed from fun env => renumbered env
  induction writes with
  | refl => exact numbered
  | tail _ write ih => exact ih.of_same fun env => (write.revisions env).imp_right Or.inl

theorem step_numbered (ok : WellFormed db) (numbered : Numbered db)
    (taken : step server db action = some after) : Numbered after := by
  obtain ⟨_, catalogue, -, data⟩ := ok.writes taken
  exact data.numbered (catalogue.numbered numbered)

theorem run_numbered (actions : List Action) : Numbered (run server actions) :=
  (runFrom_invariant (step server) (fun db => WellFormed db ∧ Numbered db)
    (fun _ _ _ holds taken => ⟨step_wellFormed holds.1 taken, step_numbered holds.1 holds.2 taken⟩)
    actions
    .empty ⟨empty_wellFormed, fun _ => rfl⟩).2

theorem Numbered.revision_bounds (numbered : Numbered db) (mem : snapshot ∈ db.snapshots) :
    0 < snapshot.revision ∧ snapshot.revision ≤ db.currentRevision snapshot.env := by
  have listed : snapshot.revision ∈ (db.revisions snapshot.env).reverse := by
    rw [mem_reverse]
    exact mem_map_of_mem (mem_filter.mpr ⟨mem, by simp⟩)
  rw [numbered, mem_range'_1] at listed
  omega

theorem Numbered.snapshot_unique (numbered : Numbered db) {snapshot' : Snapshot}
    (mem : snapshot ∈ db.snapshots) (mem' : snapshot' ∈ db.snapshots)
    (sameEnv : snapshot.env = snapshot'.env)
    (sameRevision : snapshot.revision = snapshot'.revision) : snapshot = snapshot' := by
  have distinct : (db.revisions snapshot.env).Nodup := by
    rw [← nodup_reverse, numbered]
    exact nodup_range'
  exact inj_on_of_nodup_map distinct (mem_filter.mpr ⟨mem, by simp⟩)
    (mem_filter.mpr ⟨mem', by simp [sameEnv]⟩) sameRevision

end Numbers

/-- What a schema revision stands for: the keys, and each environment's parameters. -/
structure Schema where
  keys : List CatalogueKey
  environments : List (EnvID × Declarations)
deriving DecidableEq

def ProjectDB.schema (db : ProjectDB) : Schema :=
  ⟨db.keys, db.environments.map fun row => (row.id, row.parameters)⟩

/-- Revisions only grow, and two states of one revision have one catalogue. -/
def SchemaBefore (db after : ProjectDB) : Prop :=
  db.schemaRevision ≤ after.schemaRevision ∧
    (after.schemaRevision = db.schemaRevision → after.schema = db.schema)

section Schemas
variable {db mid after : ProjectDB}

theorem SchemaBefore.trans (first : SchemaBefore db mid) (second : SchemaBefore mid after) :
    SchemaBefore db after := by
  refine ⟨Nat.le_trans first.1 second.1, fun same => ?_⟩
  have sandwich : mid.schemaRevision = db.schemaRevision :=
    Nat.le_antisymm (same ▸ second.1) first.1
  rw [second.2 (same.trans sandwich.symm), first.2 sandwich]

theorem DataWrite.schema (write : DataWrite server db after) :
    after.schemaRevision = db.schemaRevision ∧ after.schema = db.schema := by
  cases write with
  | protect =>
    refine ⟨rfl, congrArg (Schema.mk db.keys) (map_updateWhere fun _ => rfl)⟩
  | castVote state => cases state <;> exact ⟨rfl, rfl⟩
  | put | clear | commit | stage | discard | collect | policies | administer | openRequest
  | resolve | expire =>
    exact ⟨rfl, rfl⟩

theorem DataWrites.schema (writes : DataWrites server db after) :
    after.schemaRevision = db.schemaRevision ∧ after.schema = db.schema := by
  induction writes with
  | refl => exact ⟨rfl, rfl⟩
  | tail _ write ih => exact ⟨write.schema.1.trans ih.1, write.schema.2.trans ih.2⟩

theorem CatalogueWrites.schemaRevision (writes : ReflTransGen CatalogueWrite db after) :
    after.schemaRevision = db.schemaRevision := by
  induction writes with
  | refl => rfl
  | tail _ write ih =>
    refine Eq.trans ?_ ih
    cases write <;> rfl

theorem CatalogueStep.schemaBefore (step : CatalogueStep db after) : SchemaBefore db after := by
  rcases step with rfl | ⟨changed, writes, rfl⟩
  · exact ⟨le_rfl, fun _ => rfl⟩
  have same := CatalogueWrites.schemaRevision writes
  have later : changed.bumpSchemaRevision.schemaRevision = db.schemaRevision + 1 :=
    congrArg (· + 1) same
  exact ⟨by omega, fun unchanged => by omega⟩

theorem step_schemaBefore (ok : WellFormed db) (taken : step server db action = some after) :
    SchemaBefore db after := by
  obtain ⟨_, catalogue, -, data⟩ := ok.writes taken
  obtain ⟨revision, schema⟩ := data.schema
  exact catalogue.schemaBefore.trans ⟨Nat.le_of_eq revision.symm, fun _ => schema⟩

theorem run_schemaBefore {past actions : List Action} (earlier : past <+: actions) :
    SchemaBefore (run server past) (run server actions) :=
  runFrom_prefix (step server) .empty SchemaBefore (fun _ => ⟨le_rfl, fun _ => rfl⟩)
    (fun _ _ _ => SchemaBefore.trans) WellFormed empty_wellFormed
    (fun _ _ _ ok taken => ⟨step_wellFormed ok taken, step_schemaBefore ok taken⟩) earlier

theorem run_schema_unique {past other actions : List Action} (earlier : past <+: actions)
    (earlier' : other <+: actions)
    (same : (run server past).schemaRevision = (run server other).schemaRevision) :
    (run server past).schema = (run server other).schema := by
  rcases prefix_or_prefix_of_prefix earlier earlier' with before | before
  · exact ((run_schemaBefore before).2 same.symm).symm
  · exact (run_schemaBefore before).2 same

end Schemas

def ValidIn (server : Server) (schema : Schema) (snapshot : Snapshot) : Prop :=
  ∃ row : Environment, (row.id, row.parameters) ∈ schema.environments ∧ row.id = snapshot.env ∧
    SnapshotValid server schema.keys row snapshot.entries ∧
    Pins schema.keys row.parameters snapshot.entries snapshot.contract

def Inherited (db : ProjectDB) (snapshot : Snapshot) : Prop :=
  ∃ old ∈ db.snapshots, snapshot.schemaRevision = old.schemaRevision ∧
    (snapshot.payloadPresent = true → snapshot = old)

def Committed (server : Server) (db : ProjectDB) (snapshot : Snapshot) : Prop :=
  snapshot.schemaRevision = db.schemaRevision ∧
    (snapshot.payloadPresent = true → ValidIn server db.schema snapshot)

section Validity
variable {db mid after : ProjectDB}

theorem inherited_of_mem (mem : snapshot ∈ db.snapshots) : Inherited db snapshot :=
  ⟨snapshot, mem, rfl, fun _ => rfl⟩

theorem DataWrite.origin (write : DataWrite server db after) (mem : snapshot ∈ after.snapshots) :
    Inherited db snapshot ∨ Committed server after snapshot := by
  cases write with
  | @commit row _ contract cells environment rendered valid pins =>
    rcases mem_cons.mp mem with rfl | old
    · refine .inr ⟨rfl, fun _ => ⟨row, mem_map_of_mem environment, rfl, ?_⟩⟩
      change SnapshotValid server db.keys row (cells.map MaterialCell.toEntry) ∧
        Pins db.keys row.parameters (cells.map MaterialCell.toEntry) contract
      rw [rendered]
      exact ⟨valid, pins⟩
    · exact .inl (inherited_of_mem old)
  | collect =>
    rcases mem_updateWhere.mp mem with ⟨old, stored, -, rfl⟩ | ⟨stored, -⟩
    · exact .inl ⟨old, stored, rfl, fun present => by cases present⟩
    · exact .inl (inherited_of_mem stored)
  | castVote state => cases state <;> exact .inl (inherited_of_mem mem)
  | put | clear | stage | discard | protect | policies | administer | openRequest | resolve
  | expire =>
    exact .inl (inherited_of_mem mem)

theorem origin_of_inherited (origin : ∀ old ∈ mid.snapshots, Inherited db old ∨
    Committed server mid old)
    (inherited : Inherited mid snapshot) :
    Inherited db snapshot ∨ Committed server mid snapshot := by
  obtain ⟨old, stored, revision, same⟩ := inherited
  rcases origin old stored with ⟨older, storedBefore, oldRevision, oldSame⟩ | ⟨oldRevision, valid⟩
  · refine .inl ⟨older, storedBefore, revision.trans oldRevision, fun present => ?_⟩
    obtain rfl := same present
    exact oldSame present
  refine .inr ⟨revision.trans oldRevision, fun present => ?_⟩
  obtain rfl := same present
  exact valid present

theorem DataWrites.origin (writes : DataWrites server db after) :
    ∀ snapshot ∈ after.snapshots, Inherited db snapshot ∨ Committed server after snapshot := by
  induction writes with
  | refl => exact fun snapshot mem => .inl (inherited_of_mem mem)
  | tail _ write ih =>
    intro _ mem
    rcases write.origin mem with inherited | committed
    · refine (origin_of_inherited ih inherited).imp_right fun ⟨revision, valid⟩ => ?_
      exact ⟨revision.trans write.schema.1.symm,
        fun present => by rw [write.schema.2]; exact valid present⟩
    · exact .inr committed

theorem CatalogueStep.snapshots (step : CatalogueStep db after) :
    ∀ snapshot ∈ after.snapshots, snapshot ∈ db.snapshots := by
  rcases step with rfl | ⟨_, writes, rfl⟩
  · exact fun _ => id
  induction writes with
  | refl => exact fun _ => id
  | tail _ write ih =>
    intro snapshot mem
    refine ih snapshot ?_
    cases write with
    | removeEnvironment => exact (mem_filter.mp mem).1
    | insertKey | editKeys | renameKey | removeKey | insertEnvironment | editParameters
    | setGroups =>
      exact mem

theorem step_origin (ok : WellFormed db) (taken : step server db action = some after)
    (mem : snapshot ∈ after.snapshots) :
    Inherited db snapshot ∨ Committed server after snapshot := by
  obtain ⟨_, catalogue, -, data⟩ := ok.writes taken
  refine (data.origin snapshot mem).imp_left fun ⟨old, stored, facts⟩ => ?_
  exact ⟨old, catalogue.snapshots old stored, facts⟩

theorem run_committed (history : List Action) : ∀ snapshot ∈ (run server history).snapshots,
    ∃ past, past <+: history ∧ Committed server (run server past) snapshot := by
  refine runFrom_history (step server) .empty
    (fun history db => ∀ snapshot ∈ db.snapshots,
      ∃ past, past <+: history ∧ Committed server (run server past) snapshot) ?_ ?_ ?_ history
  · exact nofun
  · intro past action _ ih taken reached snapshot mem
    rcases step_origin (run_wellFormed past) taken mem
        with ⟨old, stored, revision, same⟩ | committed
    · obtain ⟨earlier, before, committed⟩ := ih old stored
      refine ⟨earlier, before.trans (prefix_append _ _), revision.trans committed.1,
        fun present => ?_⟩
      obtain rfl := same present
      exact committed.2 present
    refine ⟨past ++ [action], prefix_refl _, ?_⟩
    rw [run, reached]
    exact committed
  · intro _ _ ih _ snapshot mem
    obtain ⟨earlier, before, committed⟩ := ih snapshot mem
    exact ⟨earlier, before.trans (prefix_append _ _), committed⟩

theorem SnapshotValid.of_parameters {keys : List CatalogueKey} {row other : Environment}
    {entries : List SnapshotEntry} (valid : SnapshotValid server keys row entries)
    (id : other.id = row.id) (parameters : other.parameters = row.parameters) :
    SnapshotValid server keys other entries := by
  refine ⟨valid.declared, ?_, ?_, valid.grouped, ?_, ?_⟩
  · rw [id]
    exact valid.required
  · rw [id]
    exact valid.forbidden
  · rw [parameters]
    exact valid.valued
  · rw [parameters]
    exact valid.literal

def DistinctNames (db : ProjectDB) : Prop :=
  ∀ snapshot ∈ db.snapshots, (snapshot.entries.map SnapshotEntry.keyName).Nodup

theorem render_sublist {α : Type} (env : EnvID) (column : SnapshotEntry → α)
    (name : CatalogueKey → α) (same : ∀ key entry, column (key.entryOf entry) = name key) :
    ((db.render env).map column).Sublist (db.listKeys.map name) := by
  rw [ProjectDB.render]
  induction db.listKeys with
  | nil => exact .refl _
  | cons key _ ih =>
    rw [filterMap_cons, map_cons]
    cases db.cell? env key.id with
    | none => exact ih.cons _
    | some =>
      rw [Option.map_some, map_cons, same]
      exact ih.cons_cons _

theorem DataWrite.distinctNames (write : DataWrite server db after) (ok : WellFormed db)
    (distinct : DistinctNames db) : DistinctNames after := by
  intro snapshot mem
  cases write with
  | @commit row _ _ _ _ rendered =>
    rcases mem_cons.mp mem with rfl | old
    · rw [rendered]
      refine List.Nodup.sublist (render_sublist row.id _ CatalogueKey.name fun _ _ => rfl) ?_
      exact (((perm_insertionSort _ db.keys).map CatalogueKey.name).nodup_iff).mpr
        ok.catalogue.keyNames
    · exact distinct snapshot old
  | collect =>
    rcases mem_updateWhere.mp mem with ⟨_, -, -, rfl⟩ | ⟨stored, -⟩
    · exact .nil
    · exact distinct snapshot stored
  | castVote state => cases state <;> exact distinct snapshot mem
  | put | clear | stage | discard | protect | policies | administer | openRequest | resolve
  | expire =>
    exact distinct snapshot mem

theorem step_distinctNames (ok : WellFormed db) (distinct : DistinctNames db)
    (taken : step server db action = some after) : DistinctNames after := by
  obtain ⟨mid, catalogue, okMid, data⟩ := ok.writes taken
  have start : DistinctNames mid :=
    fun snapshot mem => distinct snapshot (catalogue.snapshots snapshot mem)
  clear taken
  induction data with
  | refl => exact start
  | tail before write ih => exact write.distinctNames (DataWrites.wellFormed before okMid) ih

theorem run_distinctNames (history : List Action) : DistinctNames (run server history) :=
  (runFrom_invariant (step server) (fun db => WellFormed db ∧ DistinctNames db)
    (fun _ _ _ holds taken => ⟨step_wellFormed holds.1 taken,
      step_distinctNames holds.1 holds.2 taken⟩) history
    .empty ⟨empty_wellFormed, nofun⟩).2

/-- Every snapshot obeys the catalogue it pins, and the revisions of each environment are 1, 2, 3, …
-/
theorem run_snapshots_valid_and_numbered (history : List Action) :
    (∀ snapshot ∈ (run server history).snapshots,
      (∃ past, past <+: history ∧ (run server past).schemaRevision = snapshot.schemaRevision) ∧
      (snapshot.payloadPresent = true → ∀ past, past <+: history →
        (run server past).schemaRevision = snapshot.schemaRevision →
        ∃ row ∈ (run server past).environments, row.id = snapshot.env ∧
          SnapshotValid server (run server past).keys row snapshot.entries)) ∧
    ∀ env, ((run server history).revisions env).reverse =
      List.range' 1 ((run server history).currentRevision env) := by
  refine ⟨fun snapshot mem => ?_, run_numbered history⟩
  obtain ⟨point, before, revision, valid⟩ := run_committed history snapshot mem
  refine ⟨⟨point, before, revision.symm⟩, fun present past earlier pins => ?_⟩
  have schema : (run server past).schema = (run server point).schema :=
    run_schema_unique earlier before (pins.trans revision)
  obtain ⟨_, listed, named, holds, -⟩ := valid present
  rw [← schema] at listed holds
  obtain ⟨stored, inTable, same⟩ := mem_map.mp listed
  obtain ⟨sameID, sameParameters⟩ := Prod.mk.inj same
  exact ⟨stored, inTable, sameID.trans named, holds.of_parameters sameID sameParameters⟩

end Validity

end Hikyo.Project
