import Mathlib.Logic.Relation
import Hikyo.Project.System
import Hikyo.Project.Materialize
import Hikyo.Project.Selection
import Hikyo.Project.ApprovalSpec

/-!
# Operations as sequences of writes

The writes that operations consist of, `DataWrite` for values, drafts, snapshots and approvals and
`CatalogueWrite` for the catalogue, each stated with what the operation has checked when it performs
it.  There is one lemma for each loop and each operation on values; invariants are then proved for
single writes.
-/

namespace Hikyo.Project

open Hikyo.Lib Relation List

variable {key : CatalogueKey} {env scopeEnv : EnvID} {row : Environment}
  {material : List (CatalogueKey × String)} {confirmed envs : List EnvID}
  {applies : List PendingChange} {ids : List VersionID} {latestRevision revision : Nat}
  {resolved : Option (ApprovalRequest × Bool)} {keyName : Option String} {change : PendingChange}
  {caller : PrincipalID} {request : PublishRequest} {server : Server} {now : Time}

def ProjectDB.environmentIDs (db : ProjectDB) : List EnvID := db.environments.map Environment.id
def ProjectDB.keyIDs (db : ProjectDB) : List KeyID := db.keys.map CatalogueKey.id

structure DraftOf (db : ProjectDB) (change : PendingChange) : Prop where
  environment : change.env ∈ db.environmentIDs
  declared : change.keyID ∈ db.keyIDs
  normal : ∀ value, change.value = some value → normalize value = value
  baseline : change.stagedFromEntry = (db.cell? change.env change.keyID).map ValueEntry.id

inductive DataWrite (server : Server) : ProjectDB → ProjectDB → Prop
  | put {db : ProjectDB} {env : EnvID} {keyID : KeyID} {value : String}
      (environment : env ∈ db.environmentIDs) (declared : keyID ∈ db.keyIDs)
      (normal : normalize value = value) : DataWrite server db (db.putValue env keyID value)
  | clear {db : ProjectDB} {env : EnvID} {keyID : KeyID} : DataWrite server db
      (db.clearValue env keyID)
  | commit {db : ProjectDB} {row : Environment} {publisher : PrincipalID}
      {contract : ParameterContract}
      {cells : List MaterialCell} (environment : row ∈ db.environments)
      (rendered : cells.map MaterialCell.toEntry = db.render row.id)
      (valid : SnapshotValid server db.keys row (db.render row.id))
      (pins : Pins db.keys row.parameters (db.render row.id) contract) :
      DataWrite server db (commitSnapshot db row.id publisher contract cells)
  | stage {db : ProjectDB} {change : PendingChange} (fresh : change.id = db.nextID)
      (draft : DraftOf db change) :
      DataWrite server db { db.stagePending change with nextID := db.nextID + 1 }
  | discard {db : ProjectDB} {id : VersionID} : DataWrite server db (db.discard id)
  | collect {db : ProjectDB} {env : EnvID} {revision : Nat}
      (older : revision ≠ db.currentRevision env) :
      DataWrite server db { db with
        snapshots :=
          updateWhere (fun snapshot => snapshot.env == env && snapshot.revision == revision)
          (fun snapshot => { snapshot with payloadPresent := false, entries := [] }) db.snapshots }
  | protect {db : ProjectDB} {env : EnvID} {flag : Bool} :
      DataWrite server db { db with
        environments := updateWhere (fun row => row.id == env)
          (fun row => { row with isProtected := flag }) db.environments }
  | policies {db : ProjectDB} {policies : List ApprovalPolicy} {nextID : Nat}
      (later : db.nextID ≤ nextID) :
      DataWrite server db { db with policies := policies, nextID := nextID }
  | administer {db : ProjectDB} {directory : Directory} :
      DataWrite server db { db with directory := directory }
  | openRequest {db : ProjectDB} {request : ApprovalRequest} (fresh : request.id = db.nextID) :
      DataWrite server db { db with requests := request :: db.requests, nextID := db.nextID + 1 }
  | resolve {db : ProjectDB} {env : EnvID} {id : RequestID} {state : RequestState}
      (inactive : state.isActive = false) : DataWrite server db (setRequestState db env id state)
  | expire {db : ProjectDB} {now : Time} {batch : List RequestID} :
      DataWrite server db (expireDue db now batch)
  | castVote {db : ProjectDB} {env : EnvID} {request : ApprovalRequest} {caller : PrincipalID}
      (state : Option RequestState) (decision : VoteDecision)
      (stored : request ∈ db.requests) (inEnvironment : request.env = env)
      (active : request.state.isActive = true)
      (first : ∀ vote ∈ db.votes, ¬ (vote.requestID = request.id ∧ vote.principal = caller))
      (rejects : decision = .reject → state = some .rejected)
      (moves : state = none ∨ state = some .approved ∨ state = some .rejected) :
      DataWrite server db
        (state.elim { db with votes := ⟨request.id, caller, decision⟩ :: db.votes }
          (setRequestState { db with votes := ⟨request.id, caller, decision⟩ :: db.votes }
            env request.id))

abbrev DataWrites (server : Server) : ProjectDB → ProjectDB → Prop :=
  ReflTransGen (DataWrite server)

inductive CatalogueWrite : ProjectDB → ProjectDB → Prop
  | insertKey {db : ProjectDB} {spec : KeySpec} (free : db.nameFree db.nextID spec.name = true) :
      CatalogueWrite db { db with
        keys := ⟨db.nextID, spec.name, spec.classification, spec.declaration, spec.presence,
          spec.groupID⟩ :: db.keys
        nextID := db.nextID + 1 }
  | editKeys {db : ProjectDB} (edit : CatalogueKey → CatalogueKey)
      (sameID : ∀ key, (edit key).id = key.id)
      (sameName : ∀ key, (edit key).name = key.name) :
      CatalogueWrite db { db with keys := db.keys.map edit }
  | renameKey {db : ProjectDB} {id : KeyID} {name : String} (free : db.nameFree id name = true) :
      CatalogueWrite db (db.updateKey id fun key => { key with name := name })
  | removeKey {db : ProjectDB} {id : KeyID} : CatalogueWrite db ((db.clearKey id).removeKey id)
  | insertEnvironment {db : ProjectDB} : CatalogueWrite db db.insertEnvironment
  | removeEnvironment {db : ProjectDB} {env : EnvID} : CatalogueWrite db (db.removeEnvironment env)
  | editParameters {db : ProjectDB} {env : EnvID} {parameters : Declarations} :
      CatalogueWrite db { db with
        environments := updateWhere (fun row => row.id == env)
          (fun row => { row with parameters := parameters }) db.environments }
  | setGroups {db : ProjectDB} {groups : List GroupID} {nextID : Nat} (later : db.nextID ≤ nextID) :
      CatalogueWrite db { db with groups := groups, nextID := nextID }

/-- The catalogue part of an operation: nothing, or some writes under one new
schema revision. -/
def CatalogueStep (db after : ProjectDB) : Prop :=
  after = db ∨ ∃ changed, ReflTransGen CatalogueWrite db changed ∧
    after = changed.bumpSchemaRevision

section Lookups
variable {db : ProjectDB}

theorem getEnvironment_eq_ok (found : db.getEnvironment env = .ok row) :
    row ∈ db.environments ∧ row.id = env := by
  unfold ProjectDB.getEnvironment at found
  split at found
  · next located =>
    cases found
    exact ⟨mem_of_find?_eq_some located, by simpa using find?_some located⟩
  · cases found

theorem environment_listed (found : db.getEnvironment env = .ok row) : env ∈ db.environmentIDs := by
  obtain ⟨mem, rfl⟩ := getEnvironment_eq_ok found
  exact mem_map_of_mem mem

theorem findKey_eq_ok {name : String} (found : db.findKey name = .ok key) :
    key ∈ db.keys ∧ key.name = name := by
  unfold ProjectDB.findKey at found
  split at found
  · next located =>
    cases found
    exact ⟨mem_listKeys.mp (mem_of_find?_eq_some located), by simpa using find?_some located⟩
  · cases found

theorem getRequest_eq_ok {id : RequestID} {request : ApprovalRequest}
    (found : getRequest db env id = .ok request) :
    request ∈ db.requests ∧ request.id = id ∧ request.env = env := by
  unfold getRequest at found
  split at found
  · next located =>
    cases found
    have hit := find?_some located
    simp only [Bool.and_eq_true, beq_iff_eq] at hit
    exact ⟨mem_of_find?_eq_some located, hit⟩
  · cases found

end Lookups

section Publishing
variable {db after : ProjectDB}

variable {publisher : PrincipalID} {published : PublishedEnvironment} {trigger : Trigger}

theorem writeCells_writes (environment : row ∈ db.environments)
    {cells : List ResolvedCell} (declared : ∀ cell ∈ cells, cell.key.id ∈ db.keyIDs) :
    DataWrites server db (writeCells row.id cells db).1 := by
  induction cells generalizing db with
  | nil => exact .refl
  | cons cell rest ih =>
    obtain ⟨key, outcome⟩ := cell
    have listed : row.id ∈ db.environmentIDs := mem_map_of_mem environment
    have here : key.id ∈ db.keyIDs := declared _ (.head _)
    have later : ∀ cell ∈ rest, cell.key.id ∈ db.keyIDs :=
      fun cell mem => declared cell (.tail _ mem)
    cases outcome with
    | absent | kept => exact ih environment later
    | cleared => exact .head .clear (ih environment later)
    | written value =>
      exact .head (.put listed here (normalize_normalize value)) (ih environment later)

theorem materialize_writes {index : GroupIndex}
    (keys : index.keys = db.listKeys) (environment : row ∈ db.environments)
    (normal : ∀ apply ∈ applies, ∀ value, apply.value = some value → normalize value = value)
    (run : materialize server db index row publisher applies = .ok (after, published)) :
    DataWrites server db after := by
  have spec := materialize_spec keys normal run
  obtain ⟨_, made, -, rfl, -⟩ := materialize_eq_ok run
  have moves := writeCells_movesCells row.id (index.keys.map (resolveCell db row.id applies)) db
  have moved : DataWrites server db
      (writeCells row.id (index.keys.map (resolveCell db row.id applies)) db).1 := by
    refine writeCells_writes environment fun cell mem => ?_
    obtain ⟨_, listed, rfl⟩ := mem_map.mp mem
    rw [keys] at listed
    exact mem_map_of_mem (mem_listKeys.mp listed)
  refine moved.tail (.commit ?_ (moved_render row keys normal) ?_ ?_)
  · rw [moves.frame]
    exact environment
  · rw [moves.keys]
    exact spec.valid
  · rw [moves.keys]
    exact moved_pins keys normal made

theorem republish_spec (run : republish server db env publisher trigger = .ok (after, published)) :
    ∃ row ∈ db.environments, row.id = env ∧ Materialized server db row publisher
      [] after published ∧
      DataWrites server db after ∧ (approvalGatedTrigger trigger = true →
        coveringPolicy db env = none) := by
  obtain ⟨row, found, run⟩ := bind_eq_ok.mp run
  rw [require_bind_eq_ok, bind_eq_ok] at run
  obtain ⟨gated, _, loaded, run⟩ := run
  obtain ⟨mem, named⟩ := getEnvironment_eq_ok found
  have keys := loadGroupIndex_keys loaded
  refine ⟨row, mem, named, materialize_spec keys (by simp) run,
    materialize_writes keys mem (by simp) run, fun isGated => ?_⟩
  simpa [isGated] using gated

theorem Materialized.keys
    (spec : Materialized server db row publisher applies after published) :
    after.keys = db.keys := by
  rw [spec.frame]

theorem Materialized.environments
    (spec : Materialized server db row publisher applies after published) :
    after.environments = db.environments := by
  rw [spec.frame]

theorem fanOut_writes {published : List PublishedEnvironment}
    (run : fanOut server publisher trigger envs db = .ok (after, published)) :
    DataWrites server db after := by
  induction envs generalizing db published with
  | nil =>
    cases run
    exact .refl
  | cons _ _ ih =>
    obtain ⟨⟨_, _⟩, head, run⟩ := bind_eq_ok.mp run
    obtain ⟨⟨_, _⟩, tail, run⟩ := bind_eq_ok.mp run
    cases run
    obtain ⟨_, _, _, _, writes, _⟩ := republish_spec head
    exact writes.trans (ih tail)

theorem writeEach_writes (environment : row ∈ db.environments)
    (declared : ∀ m ∈ material, m.1.id ∈ db.keyIDs)
    (run : writeEach server row material db = .ok after) :
    DataWrites server db after ∧ MovesCells db after := by
  induction material generalizing db with
  | nil =>
    cases run
    exact ⟨.refl, .refl _⟩
  | cons head _ ih =>
    obtain ⟨key, value⟩ := head
    obtain ⟨mid, first, run⟩ := bind_eq_ok.mp run
    obtain ⟨_, -, first⟩ := bind_eq_ok.mp first
    obtain ⟨_, -, first⟩ := bind_eq_ok.mp first
    obtain rfl : db.putValue row.id key.id (normalize value) = mid := Except.ok.inj first
    have listed : row.id ∈ db.environmentIDs := mem_map_of_mem environment
    obtain ⟨writes, moves⟩ := ih
      (show row ∈ (db.putValue row.id key.id (normalize value)).environments from environment)
      (fun m mem => declared m (.tail _ mem)) run
    exact ⟨.head (.put listed (declared _ (.head _)) (normalize_normalize value)) writes,
      (movesCells_putValue db row.id key.id _).trans moves⟩

theorem writeAndPublish_writes {published : List PublishedEnvironment}
    (declared : ∀ m ∈ material, m.1.id ∈ db.keyIDs)
    (run : writeAndPublish server caller trigger material envs db = .ok (after, published)) :
    DataWrites server db after := by
  induction envs generalizing db published with
  | nil =>
    cases run
    exact .refl
  | cons _ _ ih =>
    obtain ⟨_, found, run⟩ := bind_eq_ok.mp run
    obtain ⟨_, first, run⟩ := bind_eq_ok.mp run
    obtain ⟨⟨_, _⟩, second, run⟩ := bind_eq_ok.mp run
    obtain ⟨⟨_, _⟩, tail, run⟩ := bind_eq_ok.mp run
    cases run
    obtain ⟨written, moves⟩ := writeEach_writes (getEnvironment_eq_ok found).1 declared first
    obtain ⟨_, _, _, spec, committed, _⟩ := republish_spec second
    refine (written.trans committed).trans (ih (fun m mem => ?_) tail)
    rw [ProjectDB.keyIDs, spec.keys, moves.keys]
    exact declared m mem

end Publishing

section Drafts
variable {db after : ProjectDB}

variable {target : Snapshot}

theorem stage_writes {keyName : String} {value : Option String}
    {id : VersionID} (run : stage db caller env keyName value = .ok (after, id)) :
    DataWrites server db after := by
  obtain ⟨_, found, run⟩ := bind_eq_ok.mp run
  obtain ⟨_, named, run⟩ := bind_eq_ok.mp run
  obtain ⟨-, run⟩ := require_bind_eq_ok.mp run
  cases run
  refine .single (.stage rfl ⟨environment_listed found, mem_map_of_mem (findKey_eq_ok named).1, ?_,
    rfl⟩)
  intro _ staged
  obtain ⟨_, _, rfl⟩ := Option.map_eq_some_iff.mp staged
  exact normalize_normalize _

theorem restoreDraft_draftOf (environment : env ∈ db.environmentIDs) (declared : key.id ∈ db.keyIDs)
    (normal : ∀ entry ∈ target.entries, normalize entry.value = entry.value)
    (drafted : restoreDraft db caller env latestRevision target key = some change) :
    change.id = db.nextID ∧ DraftOf db change := by
  unfold restoreDraft at drafted
  dsimp only at drafted
  split at drafted
  · cases drafted
  cases drafted
  refine ⟨rfl, environment, declared, ?_, rfl⟩
  intro _ restored
  obtain ⟨entry, located, rfl⟩ := Option.map_eq_some_iff.mp restored
  exact normal entry (mem_of_find?_eq_some located)

theorem restoreEach_writes (environment : env ∈ db.environmentIDs)
    (normal : ∀ entry ∈ target.entries, normalize entry.value = entry.value)
    {keys : List CatalogueKey} (declared : ∀ key ∈ keys, key.id ∈ db.keyIDs) :
    DataWrites server db (restoreEach caller env latestRevision target keys db).1 := by
  induction keys generalizing db with
  | nil => exact .refl
  | cons key rest ih =>
    have later : ∀ key ∈ rest, key.id ∈ db.keyIDs :=
      fun key mem => declared key (.tail _ mem)
    rw [restoreEach]
    cases drafted : restoreDraft db caller env latestRevision target key with
    | none => exact ih environment later
    | some =>
      obtain ⟨fresh, draft⟩ := restoreDraft_draftOf environment (declared key (.head _))
        normal drafted
      exact .head (.stage fresh draft) (ih environment later)

theorem restoreKeys_declared {keys : List CatalogueKey}
    (run : restoreKeys db target keyName = .ok keys) : ∀ key ∈ keys, key.id ∈ db.keyIDs := by
  unfold restoreKeys at run
  cases keyName with
  | none =>
    dsimp only at run
    split at run
    · cases run
    · cases run
      exact fun key mem => mem_map_of_mem (mem_listKeys.mp mem)
  | some =>
    obtain ⟨_, found, run⟩ := bind_eq_ok.mp run
    obtain ⟨-, run⟩ := require_bind_eq_ok.mp run
    cases run
    intro _ mem
    obtain rfl := mem_singleton.mp mem
    exact mem_map_of_mem (findKey_eq_ok found).1

theorem atRevision_mem {snapshot : Snapshot} (found : db.atRevision env revision = some snapshot) :
    snapshot ∈ db.snapshots ∧ snapshot.env = env ∧ snapshot.revision = revision := by
  have hit := find?_some found
  simp only [Bool.and_eq_true, beq_iff_eq] at hit
  exact ⟨mem_of_find?_eq_some found, hit⟩

theorem restore_spec
    {token : Option PreviewToken}
    (run : restore db caller env revision keyName = .ok (after, token)) :
    env ∈ db.environmentIDs ∧ (after = db ∨ ∃ target latestRevision keys,
      db.atRevision env revision = some target ∧ (∀ key ∈ keys, key.id ∈ db.keyIDs) ∧
      after = (restoreEach caller env latestRevision target keys db).1) := by
  unfold restore at run
  rw [require_bind_eq_ok, bind_eq_ok] at run
  obtain ⟨-, _, found, run⟩ := run
  refine ⟨environment_listed found, ?_⟩
  split at run
  · next latest target _ located =>
    rw [require_bind_eq_ok, bind_eq_ok] at run
    obtain ⟨-, keys, covered, run⟩ := run
    have declared := restoreKeys_declared covered
    split at run
    · cases run
      exact .inl rfl
    cases staged : restoreEach caller env latest.revision target keys db with | mk restored ids
    have same : restored = (restoreEach caller env latest.revision target keys db).1 := by
      rw [staged]
    rw [staged] at run
    dsimp only at run
    split at run
    · cases run
      exact .inr ⟨target, latest.revision, keys, located, declared, same⟩
    obtain ⟨_, -, run⟩ := bind_eq_ok.mp run
    obtain ⟨_, -, run⟩ := bind_eq_ok.mp run
    obtain ⟨⟨_, _⟩, -, run⟩ := bind_eq_ok.mp run
    cases run
    exact .inr ⟨target, latest.revision, keys, located, declared, same⟩
  · cases run

theorem discardAll_writes (run : discardAll applies db = .ok after) :
    DataWrites server db after := by
  induction applies generalizing db with
  | nil =>
    cases run
    exact .refl
  | cons _ _ ih =>
    rw [discardAll, require_bind_eq_ok] at run
    exact .head .discard (ih run.2)

theorem discardAll_eq (run : discardAll applies db = .ok after) :
    after = { db with pending := db.pending.filter fun change =>
      !(applies.any fun apply => apply.id == change.id) } := by
  induction applies generalizing db with
  | nil =>
    cases run
    simp
  | cons apply _ ih =>
    rw [discardAll, require_bind_eq_ok] at run
    rw [ih run.2]
    simp only [ProjectDB.discard, filter_filter]
    congr 1
    refine filter_congr fun change _ => ?_
    have flip : (apply.id == change.id) = (change.id == apply.id) := by
      rw [Bool.eq_iff_iff, beq_iff_eq, beq_iff_eq, eq_comm]
    rw [any_cons, flip, Bool.not_or, Bool.and_comm]

end Drafts

section Planned
variable {db after : ProjectDB}

variable {index : GroupIndex} {selection : List PendingChange} {closed : List VersionID}
  {outcome : PublishOutcome}

theorem planSelection_eq_ok (run : planSelection db caller ids = .ok (index, selection, closed)) :
    index.keys = db.listKeys ∧ ∃ selected, resolveVersions (db.ownPending caller) ids =
      .ok selected ∧
      selectVersions db caller index selected = .ok (selection, closed) := by
  obtain ⟨selected, resolved, run⟩ := bind_eq_ok.mp run
  obtain ⟨_, loaded, run⟩ := bind_eq_ok.mp run
  obtain ⟨⟨_, _⟩, selects, run⟩ := bind_eq_ok.mp run
  cases run
  exact ⟨loadGroupIndex_keys loaded, selected, resolved, selects⟩

theorem planSelection_own (run : planSelection db caller ids = .ok (index, selection, closed)) :
    ∀ change ∈ selection, change ∈ db.pending ∧ change.owner = caller := by
  obtain ⟨-, _, resolved, selects⟩ := planSelection_eq_ok run
  exact selectVersions_own selects resolved

theorem mem_appliesTo : change ∈ appliesTo selection env ↔ change ∈ selection ∧
    change.env = env := by
  simp [appliesTo]

structure PublishedOne (server : Server) (db : ProjectDB) (caller : PrincipalID)
    (selection : List PendingChange) (env : EnvID) (row : Environment) (mid after : ProjectDB)
    (published : PublishedEnvironment) : Prop where
  environment : row ∈ db.environments
  named : row.id = env
  fresh : ∀ change ∈ appliesTo selection env,
    (db.cell? env change.keyID).map ValueEntry.id = change.stagedFromEntry
  materialized : Materialized server db row caller (appliesTo selection env) mid published
  discarded : after = { mid with pending := mid.pending.filter fun change =>
    !((appliesTo selection env).any fun apply => apply.id == change.id) }
  writes : DataWrites server db after

theorem publishEnvironments_cons
    {rest : List EnvID} {published : List PublishedEnvironment} (keys : index.keys = db.listKeys)
    (normal : ∀ change ∈ selection, ∀ value, change.value = some value → normalize value = value)
    (run : publishEnvironments server index caller selection (env :: rest) db =
      .ok (after, published)) :
    ∃ row mid next here more, PublishedOne server db caller selection env row mid next here ∧
      publishEnvironments server index caller selection rest next = .ok (after, more) ∧
        published = here :: more := by
  obtain ⟨row, found, run⟩ := bind_eq_ok.mp run
  obtain ⟨_, fresh, run⟩ := bind_eq_ok.mp run
  obtain ⟨⟨mid, here⟩, materializes, run⟩ := bind_eq_ok.mp run
  obtain ⟨next, discards, run⟩ := bind_eq_ok.mp run
  obtain ⟨⟨_, more⟩, tail, run⟩ := bind_eq_ok.mp run
  cases run
  obtain ⟨mem, named⟩ := getEnvironment_eq_ok found
  have normalHere : ∀ change ∈ appliesTo selection env, ∀ value, change.value = some value →
      normalize value = value := fun change applied => normal change (mem_appliesTo.mp applied).1
  refine ⟨row, mid, next, here,
    more, ⟨mem, named, ?_, materialize_spec keys normalHere materializes, discardAll_eq discards,
    (materialize_writes keys mem normalHere materializes).trans (discardAll_writes discards)⟩, tail,
      rfl⟩
  intro change applied
  simpa using forM_eq_ok.mp fresh change applied

theorem PublishedOne.keys {mid : ProjectDB} {published : PublishedEnvironment}
    (one : PublishedOne server db caller selection env row mid after published) :
    after.keys = db.keys := by
  rw [one.discarded]
  exact one.materialized.keys

theorem publishEnvironments_writes {published : List PublishedEnvironment}
    (keys : index.keys = db.listKeys)
    (normal : ∀ change ∈ selection, ∀ value, change.value = some value → normalize value = value)
    (run : publishEnvironments server index caller selection envs db = .ok (after, published)) :
    DataWrites server db after := by
  induction envs generalizing db published with
  | nil =>
    cases run
    exact .refl
  | cons _ _ ih =>
    obtain ⟨_, _, _, _, _, one, tail, -⟩ := publishEnvironments_cons keys normal run
    refine one.writes.trans (ih ?_ tail)
    rw [keys, ProjectDB.listKeys, ProjectDB.listKeys, one.keys]

theorem commitPublish_spec
    (run : commitPublish server db index caller selection closed confirmed resolved =
      .ok (after, outcome)) :
    ∃ moved environments, publishEnvironments server index caller selection
        (selectionEnvs selection) db =
        .ok (moved, environments) ∧ after = resolved.elim moved (fun r =>
        setRequestState moved r.1.env r.1.id (if r.2 then .bypassed else .merged)) ∧
      outcome = .published ⟨(selection.map PendingChange.id).insertionSort (· ≤ ·), closed,
        environments⟩ := by
  obtain ⟨_, -, run⟩ := bind_eq_ok.mp run
  obtain ⟨⟨moved, environments⟩, publishes, run⟩ := bind_eq_ok.mp run
  refine ⟨moved, environments, publishes, ?_⟩
  cases resolved with
  | none | some =>
    cases run
    exact ⟨rfl, rfl⟩

theorem commitPublish_writes (keys : index.keys = db.listKeys)
    (normal : ∀ change ∈ selection, ∀ value, change.value = some value → normalize value = value)
    (run : commitPublish server db index caller selection closed confirmed resolved =
      .ok (after, outcome)) :
    DataWrites server db after := by
  obtain ⟨_, _, publishes, rfl, -⟩ := commitPublish_spec run
  have writes := publishEnvironments_writes keys normal publishes
  cases resolved with
  | none => exact writes
  | some r =>
    refine writes.tail (.resolve ?_)
    cases r.2
    · rfl
    · rfl

inductive Planned (server : Server) (db : ProjectDB) (caller : PrincipalID) (scopeEnv : EnvID)
    (request : PublishRequest) (now : Time) (loaded : Option ApprovalRequest) :
    ProjectDB → PublishOutcome → Prop
  | stale {live : ApprovalRequest} (isLoaded : loaded = some live) :
      Planned server db caller scopeEnv request now loaded
        (setRequestState db live.env live.id (.invalidated .draftEdited)) (.refused .draftEdited)
  | refused {live : ApprovalRequest} {cause : InvalidatedCause} (isLoaded : loaded = some live) :
      Planned server db caller scopeEnv request now loaded
        (setRequestState db live.env live.id (.invalidated cause)) (.refused cause)
  | created {index : GroupIndex} {selection : List PendingChange} {closed : List VersionID}
      {after : ProjectDB} {created : ApprovalRequest}
      (selects : planSelection db caller request.versionIDs = .ok (index, selection, closed))
      (gate : GateOutcome db caller scopeEnv loaded selection now after (.created created)) :
      Planned server db caller scopeEnv request now loaded after (.requestCreated created)
  | plain {index : GroupIndex} {selection : List PendingChange} {closed : List VersionID}
      {after : ProjectDB} {outcome : PublishOutcome}
      (selects : planSelection db caller
        ((loaded.map ApprovalRequest.versionIDs).getD request.versionIDs) =
        .ok (index, selection, closed))
      (uncovered : ∀ env ∈ selectionEnvs selection, coveringPolicy db env = none)
      (commits : commitPublish server db index caller selection closed request.confirmedProtected
        none = .ok (after, outcome)) :
      Planned server db caller scopeEnv request now loaded after outcome
  | resolved {index : GroupIndex} {selection : List PendingChange} {closed : List VersionID}
      {live : ApprovalRequest} {bypass : Bool} {env : EnvID} {policy : ApprovalPolicy}
      {after : ProjectDB}
      {outcome : PublishOutcome} (isLoaded : loaded = some live)
      (selects : planSelection db caller live.versionIDs = .ok (index, selection, closed))
      (approves : Approves db caller scopeEnv selection now live bypass env policy)
      (commits : commitPublish server db index caller selection closed request.confirmedProtected
        (some (live, bypass)) = .ok (after, outcome)) :
      Planned server db caller scopeEnv request now loaded after outcome

theorem publishPlanned_spec (run : publishPlanned server db caller scopeEnv request now =
    .ok (after, outcome)) :
    ∃ loaded, (∀ id, request.approvalRequestID = some id → ∃ live, loaded = some live ∧
        getRequest db scopeEnv id = .ok live) ∧ (request.approvalRequestID = none → loaded = none) ∧
      Planned server db caller scopeEnv request now loaded after outcome := by
  unfold publishPlanned at run
  rw [require_bind_eq_ok, require_bind_eq_ok, bind_eq_ok] at run
  obtain ⟨-, -, _, -, run⟩ := run
  rw [bind_eq_ok] at run
  obtain ⟨loaded, loads, run⟩ := run
  refine ⟨loaded, ?_, ?_, ?_⟩
  · intro _ named
    rw [named] at loads
    obtain ⟨live, found, rfl⟩ := map_eq_ok.mp loads
    exact ⟨live, rfl, found⟩
  · intro none
    rw [none] at loads
    cases loads
    rfl
  · split at run
    · split at run
      · cases run
      next live =>
      split at run
      · cases run
        exact .stale rfl
      · cases run
    · cases run
    · next index selection closed selects =>
      rw [bind_eq_ok] at run
      obtain ⟨_, -, run⟩ := run
      rw [bind_eq_ok] at run
      obtain ⟨⟨_, outcome'⟩, passes, run⟩ := run
      have spec := approvalGate_spec passes
      cases outcome' with
      | refused =>
        cases run
        obtain ⟨live, isLoaded, rfl⟩ := spec
        exact .refused isLoaded
      | created created =>
        cases run
        have fresh : loaded = none := spec.2.1
        rw [fresh] at selects
        exact .created selects spec
      | proceed =>
        obtain ⟨rfl, uncovered⟩ := spec
        exact .plain selects uncovered run
      | resolve =>
        obtain ⟨rfl, isLoaded, _, _, approves⟩ := spec
        rw [isLoaded] at selects
        exact .resolved isLoaded selects approves run

theorem publishPlanned_writes
    (normal : ∀ change ∈ db.pending, ∀ value, change.value = some value → normalize value = value)
    (run : publishPlanned server db caller scopeEnv request now = .ok (after, outcome)) :
    DataWrites server db after := by
  obtain ⟨_, -, -, planned⟩ := publishPlanned_spec run
  cases planned with
  | stale | refused => exact .single (.resolve rfl)
  | created _ gate =>
    obtain ⟨rfl, -, fresh, -⟩ := gate
    exact .single (.openRequest fresh)
  | plain selects _ commits | resolved _ selects _ commits =>
    exact commitPublish_writes (planSelection_eq_ok selects).1
      (fun change mem => normal change (planSelection_own selects change mem).1) commits

end Planned

end Hikyo.Project
