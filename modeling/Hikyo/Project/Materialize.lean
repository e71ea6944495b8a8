import Hikyo.Project.Cells

/-!
# What a materialization commits

`materialize` moves the cells of one environment, validates the result, renders a snapshot and
records the lineage.  `materialize_spec` says all that a successful run has done and checked
(`Materialized`), and is what its callers use.
-/

namespace Hikyo.Project

open Hikyo.Lib Hikyo.Delivery List

variable {key : CatalogueKey} {declarations : Declarations} {env : EnvID} {row : Environment}
  {applies : List PendingChange} {cells : List ResolvedCell} {contract : ParameterContract}
  {moved : ProjectDB} {cell : ResolvedCell} {server : Server}

section
/-- A value that is delivered as it is stored: it cannot refer to a parameter. -/
def IsLiteral (key : CatalogueKey) (declarations : Declarations) (value : String) : Prop :=
  key.classification ≠ .config ∨ declarations.isEmpty ∨ hasMarker value = false

theorem validateValueWithParameters_literal {value : String}
    (literal : IsLiteral key declarations value)
    (valid : validateValueWithParameters server key value declarations = .ok ()) :
    server.validateLiteralValue key.classification key.declaration value = true := by
  unfold IsLiteral at literal
  rw [validateValueWithParameters, if_pos literal,
    validateValueWithParameters.validateLiteral] at valid
  split at valid
  · assumption
  · cases valid

/-- The rendered entries obey the catalogue: presence rules, groups, values. -/
structure SnapshotValid (server : Server) (keys : List CatalogueKey) (row : Environment)
    (entries : List SnapshotEntry) : Prop where
  declared : ∀ entry ∈ entries, ∃ key ∈ keys, entry.keyID = key.id ∧ entry.keyName = key.name ∧
    entry.classification = key.classification
  required : ∀ key ∈ keys, key.presence.required.covers row.id = true →
    ∃ entry ∈ entries, entry.keyID = key.id
  forbidden : ∀ key ∈ keys, key.presence.forbidden.covers row.id = true →
    ∀ entry ∈ entries, entry.keyID ≠ key.id
  grouped : ∀ key ∈ keys, ∀ other ∈ keys, ∀ group, key.groupID = some group →
    other.groupID = some group → (∃ entry ∈ entries, entry.keyID = key.id) →
      ∃ entry ∈ entries, entry.keyID = other.id
  valued : ∀ key ∈ keys, ∀ entry ∈ entries, entry.keyID = key.id →
    validateValueWithParameters server key entry.value row.parameters = .ok ()
  literal : ∀ key ∈ keys, ∀ entry ∈ entries, entry.keyID = key.id →
    IsLiteral key row.parameters entry.value →
      server.validateLiteralValue key.classification key.declaration entry.value = true

/-- The contract holds the declarations of keys, among them of every config key whose value
is not a literal. -/
structure Pins (keys : List CatalogueKey) (declarations : Declarations)
    (entries : List SnapshotEntry) (contract : ParameterContract) : Prop where
  pinned : ∀ pin ∈ contract.schemas, ∃ key ∈ keys, pin = (key.name, key.declaration)
  literal : ∀ key ∈ keys, ∀ entry ∈ entries, entry.keyID = key.id → key.classification = .config →
    (key.name, key.declaration) ∈ contract.schemas ∨ IsLiteral key declarations entry.value

theorem validateCell_eq_ok : validateCell server env declarations cell = .ok () ↔
      (cell.key.presence.required.covers env = true → cell.outcome.value ≠ none) ∧
      (cell.key.presence.forbidden.covers env = true → cell.outcome.value = none) ∧
      ∀ value, cell.outcome.value = some value →
        validateValueWithParameters server cell.key value declarations = .ok () := by
  unfold validateCell
  rw [require_bind_eq_ok, require_bind_eq_ok]
  cases set : cell.outcome.value with
  | none => simp [pure, Except.pure]
  | some => simp

theorem validateResolvedPublish_eq_ok :
      validateResolvedPublish server env declarations cells = .ok () ↔
      (∀ cell ∈ cells, validateCell server env declarations cell = .ok ()) ∧
      ∀ cell ∈ cells, ∀ group, cell.key.groupID = some group →
        resolvesPartially cells group = false := by
  unfold validateResolvedPublish
  rw [bind_eq_ok]
  simp only [forM_eq_ok, require_eq_ok, mem_filterMap]
  constructor
  · rintro ⟨_, checked, groups⟩
    exact ⟨checked, fun cell mem group named => groups group ⟨cell, mem, named⟩⟩
  · rintro ⟨checked, groups⟩
    exact ⟨(), checked, fun group ⟨cell, mem, named⟩ => groups cell mem group named⟩

/-- The schemas are declarations of the cells' keys, among them of every config key whose
value has a marker. -/
structure Templates (cells : List ResolvedCell) (schemas : List (String × String)) : Prop where
  pinned : ∀ pin ∈ schemas, ∃ cell ∈ cells, pin = (cell.key.name, cell.key.declaration)
  marked : ∀ cell ∈ cells, ∀ value, cell.outcome.value = some value →
    cell.key.classification = .config →
    hasMarker value = true → (cell.key.name, cell.key.declaration) ∈ schemas

end

section Schemas
variable {schemas : List (String × String)}

theorem Templates.skip (templates : Templates cells schemas)
    (own : ∀ value, cell.outcome.value = some value → cell.key.classification = .config →
      hasMarker value = false) :
    Templates (cell :: cells) schemas where
  pinned pin mem := (templates.pinned pin mem).imp fun _ known => ⟨.tail _ known.1, known.2⟩
  marked := by
    have := templates.marked
    grind

theorem Templates.pin (templates : Templates cells schemas) :
    Templates (cell :: cells) ((cell.key.name, cell.key.declaration) :: schemas) where
  pinned := by
    have := templates.pinned
    grind
  marked := by
    have := templates.marked
    grind

theorem templateSchemas_eq_ok (run : templateSchemas declarations cells = .ok schemas) :
    Templates cells schemas := by
  induction cells generalizing schemas with
  | nil =>
    cases run
    exact ⟨nofun, nofun⟩
  | cons _ _ ih =>
    rw [templateSchemas] at run
    split at run
    · rename_i unset
      exact (ih run).skip (by simp [unset])
    rename_i value set
    split at run
    · rename_i secret
      exact (ih run).skip fun _ _ config => absurd config secret
    split at run
    · cases run
    · cases run
    · rename_i names checked listed
      obtain ⟨_, later, same⟩ := bind_eq_ok.mp run
      cases same
      split
      · exact (ih later).pin
      rename_i plain
      rw [not_or, not_not] at plain
      refine (ih later).skip fun value' set' _ => ?_
      cases set.symm.trans set'
      exact hasMarker_of_plain (plain.1 ▸ listed) (by simpa using plain.2)

theorem parameterContract_eq_ok (made : parameterContract declarations cells = .ok contract) :
    (declarations.isEmpty = true ∧ contract.schemas = []) ∨ Templates cells contract.schemas := by
  unfold parameterContract at made
  split at made
  · rename_i empty
    obtain ⟨-, run⟩ := require_bind_eq_ok.mp made
    cases run
    exact .inl ⟨empty, rfl⟩
  obtain ⟨_, found, run⟩ := bind_eq_ok.mp made
  obtain ⟨-, run⟩ := require_bind_eq_ok.mp run
  cases run
  exact .inr (templateSchemas_eq_ok found)

end Schemas

section Outcomes
variable {db after : ProjectDB}

theorem outcome_value (resolved : Resolved db env cell)
    (outcome : Outcome db after env cell.key.id cell.outcome) :
    (after.cell? env cell.key.id).map ValueEntry.value = cell.outcome.value := by
  unfold Resolved at resolved
  cases done : cell.outcome with
  | absent =>
    rw [done] at resolved outcome
    have gone : after.cell? env cell.key.id = none := outcome.trans resolved
    simp [gone, CellOutcome.value]
  | kept id value =>
    rw [done] at resolved outcome
    have stays : after.cell? env cell.key.id = some ⟨id, env, cell.key.id, value⟩ :=
      outcome.trans resolved
    simp [stays, CellOutcome.value]
  | cleared =>
    rw [done] at outcome
    have gone : after.cell? env cell.key.id = none := outcome
    simp [gone, CellOutcome.value]
  | written value =>
    rw [done] at resolved outcome
    obtain ⟨_, -, stays⟩ := outcome
    have normal : normalize value = value := resolved
    simp [stays, CellOutcome.value, normal]

theorem mem_render_iff_value (distinct : (db.keys.map CatalogueKey.id).Nodup)
    (declared : key ∈ db.keys) {value : String} :
    (∃ entry ∈ db.render env, entry.keyID = key.id ∧ entry.value = value) ↔
      (db.cell? env key.id).map ValueEntry.value = some value := by
  rw [Option.map_eq_some_iff]
  constructor
  · rintro ⟨_, mem, sameKey, sameValue⟩
    obtain ⟨other, otherDeclared, entry, found, rfl⟩ := mem_render.mp mem
    have same : other = key := inj_on_of_nodup_map distinct otherDeclared declared sameKey
    subst same
    exact ⟨entry, found, sameValue⟩
  · rintro ⟨entry, found, sameValue⟩
    exact ⟨key.entryOf entry, mem_render.mpr ⟨key, declared, entry, found, rfl⟩, rfl, sameValue⟩

theorem snapshotValid_render (distinct : (after.keys.map CatalogueKey.id).Nodup)
    (resolve : CatalogueKey → ResolvedCell) (keyed : ∀ key, (resolve key).key = key)
    (exact : ∀ cell, cell ∈ cells ↔ ∃ key ∈ after.keys, resolve key = cell)
    (values : ∀ key ∈ after.keys, (after.cell? row.id key.id).map ValueEntry.value =
      (resolve key).outcome.value)
    (valid : validateResolvedPublish server row.id row.parameters cells = .ok ()) :
    SnapshotValid server after.keys row (after.render row.id) := by
  obtain ⟨checked, groups⟩ := validateResolvedPublish_eq_ok.mp valid
  have checkedKey (key : CatalogueKey) (declared : key ∈ after.keys) :=
    validateCell_eq_ok.mp (checked (resolve key) ((exact _).mpr ⟨key, declared, rfl⟩))
  have present (key : CatalogueKey) (declared : key ∈ after.keys) :
      (∃ entry ∈ after.render row.id, entry.keyID = key.id) ↔
      (resolve key).outcome.value ≠ none := by
    rw [← values key declared, ← Option.isSome_iff_ne_none, Option.isSome_iff_exists]
    simp only [← mem_render_iff_value distinct declared]
    constructor
    · rintro ⟨entry, mem, same⟩
      exact ⟨entry.value, entry, mem, same, rfl⟩
    · rintro ⟨_, entry, mem, same, -⟩
      exact ⟨entry, mem, same⟩
  have valued : ∀ key ∈ after.keys, ∀ entry ∈ after.render row.id, entry.keyID = key.id →
      validateValueWithParameters server key entry.value row.parameters = .ok () := by
    intro key declared entry mem same
    have known := (mem_render_iff_value distinct declared).mp ⟨entry, mem, same, rfl⟩
    rw [values key declared] at known
    have passed := (checkedKey key declared).2.2 entry.value known
    rwa [keyed] at passed
  refine ⟨?_, ?_, ?_, ?_, valued, fun key declared entry mem same literal =>
    validateValueWithParameters_literal literal (valued key declared entry mem same)⟩
  · intro entry mem
    obtain ⟨key, declared, _, -, rfl⟩ := mem_render.mp mem
    exact ⟨key, declared, rfl, rfl, rfl⟩
  · intro key declared rule
    have needed := (checkedKey key declared).1
    rw [keyed] at needed
    exact (present key declared).mpr (needed rule)
  · intro key declared rule entry mem same
    have refused := (checkedKey key declared).2.1
    rw [keyed] at refused
    exact (present key declared).mp ⟨entry, mem, same⟩ (refused rule)
  · intro key declared other otherDeclared group inGroup otherInGroup set
    have whole := groups (resolve key) ((exact _).mpr ⟨key, declared, rfl⟩) group
      (by rw [keyed]; exact inGroup)
    rw [present key declared] at set
    rw [present other otherDeclared]
    intro missing
    -- one member set and one missing is what the group check refuses
    have partly : resolvesPartially cells group = true := by
      simp only [resolvesPartially, Bool.and_eq_true, any_eq_true, beq_iff_eq]
      refine ⟨⟨resolve key, (exact _).mpr ⟨key, declared, rfl⟩, by rw [keyed]; exact inGroup, ?_⟩,
        ⟨resolve other, (exact _).mpr ⟨other, otherDeclared, rfl⟩,
          by rw [keyed]; exact otherInGroup, ?_⟩⟩
      · exact Option.isSome_iff_ne_none.mpr set
      · exact Option.isNone_iff_eq_none.mpr missing
    rw [whole] at partly
    cases partly

end Outcomes

def SnapshotEntry.toRow (entry : SnapshotEntry) : Row :=
  ⟨entry.keyName, entry.classification, entry.value⟩

def applyFor (applies : List PendingChange) (keyID : KeyID) : Option PendingChange :=
  applies.find? fun apply => apply.keyID == keyID

/-- Everything a materialization of `row` with the drafts `applies` does. -/
structure Materialized (server : Server) (db : ProjectDB) (row : Environment)
    (publisher : PrincipalID) (applies : List PendingChange) (after : ProjectDB)
    (published : PublishedEnvironment) : Prop where
  frame : after = { db with
    entries := after.entries
    nextID := after.nextID
    snapshots := after.snapshots
    changes := after.changes
    secretOccurrences := after.secretOccurrences }
  fresh : db.nextID ≤ after.nextID
  elsewhere : ∀ env keyID, env ≠ row.id ∨ keyID ∉ db.keys.map CatalogueKey.id →
    after.cell? env keyID = db.cell? env keyID
  kept : ∀ key ∈ db.keys, applyFor applies key.id = none →
    after.cell? row.id key.id = db.cell? row.id key.id
  applied : ∀ key ∈ db.keys, ∀ apply, applyFor applies key.id = some apply →
    (after.cell? row.id key.id).map ValueEntry.value = apply.value ∧
      ∀ entry, after.cell? row.id key.id = some entry → db.nextID ≤ entry.id
  snapshot : ∃ contract, after.snapshots = ⟨row.id, db.currentRevision row.id + 1,
    db.schemaRevision, contract, publisher, true, after.render row.id⟩ :: db.snapshots
  valid : SnapshotValid server db.keys row (after.render row.id)
  environment : published.env = row.id
  revision : published.revision = db.currentRevision row.id + 1
  token : published.changeToken =
    changeToken server.hash row.id (manifest ((after.render row.id).map SnapshotEntry.toRow))

section Spec
variable {db after : ProjectDB} {index : GroupIndex} {publisher : PrincipalID}
  {published : PublishedEnvironment}

theorem materialize_eq_ok (run : materialize server db index row publisher applies =
    .ok (after, published)) :
    ∃ contract, parameterContract row.parameters (index.keys.map (resolveCell db row.id applies)) =
      .ok contract ∧
      validateResolvedPublish server row.id row.parameters
        (index.keys.map (resolveCell db row.id applies)) = .ok () ∧
      after = commitSnapshot
        (writeCells row.id (index.keys.map (resolveCell db row.id applies)) db).1
        row.id publisher contract
          (writeCells row.id (index.keys.map (resolveCell db row.id applies)) db).2 ∧
      published.env = row.id ∧ published.revision =
        (writeCells row.id (index.keys.map (resolveCell db row.id applies)) db).1.currentRevision
        row.id + 1 ∧
      published.changeToken = changeToken server.hash row.id (manifest
        ((writeCells row.id (index.keys.map (resolveCell db row.id applies)) db).2.map
          MaterialCell.toRow)) := by
  obtain ⟨contract, made, run⟩ := bind_eq_ok.mp run
  obtain ⟨_, valid, run⟩ := bind_eq_ok.mp run
  obtain ⟨_, -, run⟩ := bind_eq_ok.mp run
  cases run
  exact ⟨contract, made, valid, rfl, rfl, rfl, rfl⟩

theorem GroupIndex.distinct_keys (keys : index.keys = db.listKeys) :
    (db.keys.map CatalogueKey.id).Nodup := by
  have distinct := index.distinct
  rw [keys] at distinct
  exact ((perm_insertionSort _ _).map _).nodup_iff.mp distinct

theorem resolved_ids (keys : List CatalogueKey) :
    ((keys.map (resolveCell db row.id applies)).map fun cell => cell.key.id) =
    keys.map CatalogueKey.id := by
  rw [map_map]
  rfl

theorem resolved_distinct :
    ((index.keys.map (resolveCell db row.id applies)).map fun cell => cell.key.id).Nodup := by
  rw [resolved_ids]
  exact index.distinct

theorem moved_elsewhere (row : Environment) (applies : List PendingChange)
    (keys : index.keys = db.listKeys) {keyID : KeyID}
    (out : env ≠ row.id ∨ keyID ∉ db.keys.map CatalogueKey.id) :
    (writeCells row.id (index.keys.map (resolveCell db row.id applies)) db).1.cell? env keyID =
      db.cell? env keyID := by
  refine writeCells_cell?_of_notMem (out.imp_right fun absent => ?_)
  rw [resolved_ids, keys]
  exact fun mem => absent (((perm_insertionSort _ _).map _).mem_iff.mp mem)

theorem moved_outcome (row : Environment) (applies : List PendingChange)
    (keys : index.keys = db.listKeys) (declared : key ∈ db.keys) :
    Outcome db (writeCells row.id (index.keys.map (resolveCell db row.id applies)) db).1 row.id
      key.id
      (resolveCell db row.id applies key).outcome := by
  have mem : key ∈ index.keys := by
    rw [keys]
    exact mem_listKeys.mpr declared
  exact writeCells_outcome resolved_distinct (mem_map_of_mem mem)

theorem moved_render (row : Environment) (keys : index.keys = db.listKeys)
    (normal : ∀ apply ∈ applies, ∀ value, apply.value = some value → normalize value = value) :
    (writeCells row.id (index.keys.map (resolveCell db row.id applies)) db).2.map
      MaterialCell.toEntry =
      (writeCells row.id (index.keys.map (resolveCell db row.id applies)) db).1.render row.id := by
  have moves := writeCells_movesCells row.id (index.keys.map (resolveCell db row.id applies)) db
  have resolved : ∀ cell ∈ index.keys.map (resolveCell db row.id applies),
      Resolved db row.id cell := by
    intro _ mem
    obtain ⟨key, -, rfl⟩ := mem_map.mp mem
    exact resolved_resolveCell normal key
  rw [writeCells_material resolved_distinct resolved, ProjectDB.render,
    ProjectDB.listKeys, moves.keys, map_map, ← ProjectDB.listKeys, ← keys]
  exact congrArg _ (map_id index.keys)

theorem moved_pins (keys : index.keys = db.listKeys)
    (normal : ∀ apply ∈ applies, ∀ value, apply.value = some value → normalize value = value)
    (made : parameterContract row.parameters (index.keys.map (resolveCell db row.id applies)) =
      .ok contract) :
    Pins db.keys row.parameters
      ((writeCells row.id (index.keys.map (resolveCell db row.id applies)) db).1.render row.id)
      contract := by
  have moves := writeCells_movesCells row.id (index.keys.map (resolveCell db row.id applies)) db
  rcases parameterContract_eq_ok made with ⟨empty, none_⟩ | templates
  · refine ⟨?_, fun _ _ _ _ _ _ => .inr (.inr (.inl empty))⟩
    rw [none_]
    exact nofun
  refine ⟨fun pin mem => ?_, fun key declared entry rendered same config => ?_⟩
  · obtain ⟨cell, listed, rfl⟩ := templates.pinned pin mem
    obtain ⟨key, known, rfl⟩ := mem_map.mp listed
    rw [keys, mem_listKeys] at known
    exact ⟨key, known, rfl⟩
  -- the rendered value is the one the key's cell resolved to
  have declared' :
      key ∈ (writeCells row.id (index.keys.map (resolveCell db row.id applies)) db).1.keys := by
    rwa [moves.keys]
  have shown :=
    (mem_render_iff_value (by rw [moves.keys]; exact index.distinct_keys keys) declared').mp
    ⟨entry, rendered, same, rfl⟩
  have shown :=
    (outcome_value (resolved_resolveCell normal key)
      (moved_outcome row applies keys declared)).symm.trans shown
  have listed : key ∈ index.keys := by rwa [keys, mem_listKeys]
  cases marker : hasMarker entry.value with
  | true => exact .inl (templates.marked _ (mem_map_of_mem listed) entry.value shown config marker)
  | false => exact .inr (.inr (.inr marker))

theorem resolveCell_outcome_of_none (unselected : applyFor applies key.id = none)
    (outcome : Outcome db moved row.id key.id (resolveCell db row.id applies key).outcome) :
    moved.cell? row.id key.id = db.cell? row.id key.id := by
  unfold applyFor at unselected
  simp only [resolveCell, unselected] at outcome
  cases published : db.cell? row.id key.id with
  | none | some =>
    rw [published] at outcome
    exact outcome.trans published

theorem resolveCell_outcome_of_some {apply : PendingChange}
    (normal : ∀ value, apply.value = some value → normalize value = value)
    (selected : applyFor applies key.id = some apply)
    (outcome : Outcome db moved row.id key.id (resolveCell db row.id applies key).outcome) :
    (moved.cell? row.id key.id).map ValueEntry.value = apply.value ∧
      ∀ entry, moved.cell? row.id key.id = some entry → db.nextID ≤ entry.id := by
  unfold applyFor at selected
  simp only [resolveCell, selected] at outcome
  cases operation : apply.value with
  | none =>
    rw [operation] at outcome
    have gone : moved.cell? row.id key.id = none := outcome
    simp [gone]
  | some value =>
    rw [operation] at outcome
    obtain ⟨_, fresh, written⟩ := outcome
    refine ⟨by simp [written, normal value operation], fun entry found => ?_⟩
    rw [written] at found
    cases found
    exact fresh

theorem materialize_spec (keys : index.keys = db.listKeys)
    (normal : ∀ apply ∈ applies, ∀ value, apply.value = some value → normalize value = value)
    (run : materialize server db index row publisher applies = .ok (after, published)) :
    Materialized server db row publisher applies after published := by
  obtain ⟨contract, -, checked, committed, environment, revision, token⟩ := materialize_eq_ok run
  have moves := writeCells_movesCells row.id (index.keys.map (resolveCell db row.id applies)) db
  have rendered := moved_render row keys normal
  have outcome {key : CatalogueKey} (declared : key ∈ db.keys) :=
    moved_outcome row applies keys declared
  have elsewhere {env : EnvID} {keyID : KeyID} (out : env ≠ row.id ∨
      keyID ∉ db.keys.map CatalogueKey.id) :=
    moved_elsewhere row applies keys out
  have exact (cell : ResolvedCell) : cell ∈ index.keys.map (resolveCell db row.id applies) ↔
      ∃ key ∈ db.keys, resolveCell db row.id applies key = cell := by
    simp only [mem_map, keys, mem_listKeys]
  generalize (writeCells row.id (index.keys.map (resolveCell db row.id applies)) db).2 = cells at *
  generalize (writeCells row.id (index.keys.map (resolveCell db row.id applies)) db).1 = moved at *
  subst committed
  have renders : (commitSnapshot moved row.id publisher contract cells).render row.id =
      moved.render row.id := rfl
  refine ⟨?_, moves.fresh, fun env keyID out => elsewhere out, ?_, ?_, ⟨contract, ?_⟩, ?_,
    environment, ?_, ?_⟩
  · rw [moves.frame]
    rfl
  · intro key declared unselected
    exact resolveCell_outcome_of_none unselected (outcome declared)
  · intro key declared apply selected
    exact resolveCell_outcome_of_some (normal apply (mem_of_find?_eq_some selected)) selected
      (outcome declared)
  · rw [renders, ← rendered, ← moves.currentRevision, ← moves.schemaRevision, ← moves.snapshots]
    rfl
  · rw [← moves.keys, renders]
    refine snapshotValid_render
      (by rw [moves.keys]; exact index.distinct_keys keys) (resolveCell db row.id applies)
      (fun _ => rfl) (by rw [moves.keys]; exact exact) ?_ checked
    intro key declared
    rw [moves.keys] at declared
    have resolved : Resolved db row.id (resolveCell db row.id applies key) :=
      resolved_resolveCell normal key
    exact outcome_value resolved (outcome declared)
  · rw [revision, moves.currentRevision]
  · rw [token, renders, ← rendered, map_map]
    rfl

end Spec

end Hikyo.Project
