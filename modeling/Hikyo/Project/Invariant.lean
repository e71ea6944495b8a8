import Hikyo.Project.StepWrites

/-!
# The tables stay well formed

`run_wellFormed`: in every reachable state ids and names are distinct and ids below the counter,
entries, drafts and snapshots refer to keys and environments that exist and hold normalized values,
a principal has at most one draft of a cell and one vote on a request, and a rejected request is
closed.  Each part is proved for the single writes of `Hikyo.Project.Writes`, and for operations
through `step_writes`.
-/

namespace Hikyo.Project

open Hikyo.Lib Relation List

variable {request : ApprovalRequest} {env : EnvID} {after : ProjectDB} {server : Server}

structure EntryOK (db : ProjectDB) (entry : ValueEntry) : Prop where
  fresh : entry.id < db.nextID
  environment : entry.env ∈ db.environmentIDs
  declared : entry.keyID ∈ db.keyIDs
  normal : normalize entry.value = entry.value

structure ChangeOK (db : ProjectDB) (change : PendingChange) : Prop where
  fresh : change.id < db.nextID
  environment : change.env ∈ db.environmentIDs
  declared : change.keyID ∈ db.keyIDs
  normal : ∀ value, change.value = some value → normalize value = value

structure SnapshotOK (db : ProjectDB) (snapshot : Snapshot) : Prop where
  environment : snapshot.env ∈ db.environmentIDs
  entries : ∀ entry ∈ snapshot.entries, normalize entry.value = entry.value ∧
    entry.valueEntryID < db.nextID ∧ entry.keyID < db.nextID

structure Extends (db after : ProjectDB) : Prop where
  nextID : db.nextID ≤ after.nextID
  environments : ∀ env ∈ db.environmentIDs, env ∈ after.environmentIDs
  keys : ∀ id ∈ db.keyIDs, id ∈ after.keyIDs

section Rows
variable {db : ProjectDB} (grows : Extends db after)
include grows

theorem EntryOK.mono {entry : ValueEntry} (ok : EntryOK db entry) : EntryOK after entry :=
  ⟨Nat.lt_of_lt_of_le ok.fresh grows.nextID, grows.environments _ ok.environment,
    grows.keys _ ok.declared, ok.normal⟩

theorem ChangeOK.mono {change : PendingChange} (ok : ChangeOK db change) : ChangeOK after change :=
  ⟨Nat.lt_of_lt_of_le ok.fresh grows.nextID, grows.environments _ ok.environment,
    grows.keys _ ok.declared, ok.normal⟩

theorem SnapshotOK.mono {snapshot : Snapshot} (ok : SnapshotOK db snapshot) :
    SnapshotOK after snapshot := by
  refine ⟨grows.environments _ ok.environment, fun entry mem => ?_⟩
  obtain ⟨normal, occurrence, key⟩ := ok.entries entry mem
  exact ⟨normal, Nat.lt_of_lt_of_le occurrence grows.nextID, Nat.lt_of_lt_of_le key grows.nextID⟩

end Rows

def PendingChange.cell (change : PendingChange) : EnvID × KeyID × PrincipalID :=
  (change.env, change.keyID, change.owner)

structure CatalogueOK (db : ProjectDB) : Prop where
  environmentIDs : db.environmentIDs.Nodup
  environments : ∀ env ∈ db.environmentIDs, env < db.nextID
  keyIDs : db.keyIDs.Nodup
  keyNames : (db.keys.map CatalogueKey.name).Nodup
  keys : ∀ id ∈ db.keyIDs, id < db.nextID

structure RowsOK (db : ProjectDB) : Prop where
  entries : ∀ entry ∈ db.entries, EntryOK db entry
  pending : ∀ change ∈ db.pending, ChangeOK db change
  pendingIDs : (db.pending.map PendingChange.id).Nodup
  pendingCells : (db.pending.map PendingChange.cell).Nodup
  snapshots : ∀ snapshot ∈ db.snapshots, SnapshotOK db snapshot

structure ApprovalsOK (db : ProjectDB) : Prop where
  requestIDs : (db.requests.map ApprovalRequest.id).Nodup
  requests : ∀ request ∈ db.requests, request.id < db.nextID
  votes : ∀ vote ∈ db.votes, vote.requestID < db.nextID
  ballots : (db.votes.map fun vote => (vote.requestID, vote.principal)).Nodup
  rejected : ∀ vote ∈ db.votes, vote.decision = .reject →
    ∀ request ∈ db.requests, request.id = vote.requestID → request.state.isActive = false

structure WellFormed (db : ProjectDB) : Prop where
  catalogue : CatalogueOK db
  rows : RowsOK db
  approvals : ApprovalsOK db

section Data
variable {db : ProjectDB}

theorem environmentIDs_updateWhere {selected : Environment → Bool}
    {edit : Environment → Environment} (sameID : ∀ row, (edit row).id = row.id) :
    (updateWhere selected edit db.environments).map Environment.id = db.environmentIDs :=
  map_updateWhere sameID

theorem DataWrite.catalogue (write : DataWrite server db after) :
    after.keys = db.keys ∧ after.environmentIDs = db.environmentIDs ∧ db.nextID ≤ after.nextID := by
  cases write with
  | protect => exact ⟨rfl, environmentIDs_updateWhere fun _ => rfl, le_rfl⟩
  | policies later => exact ⟨rfl, rfl, later⟩
  | put | stage | openRequest => exact ⟨rfl, rfl, Nat.le_succ _⟩
  | castVote state => cases state <;> exact ⟨rfl, rfl, le_rfl⟩
  | clear | commit | discard | collect | administer | resolve | expire => exact ⟨rfl, rfl, le_rfl⟩

theorem DataWrite.extends (write : DataWrite server db after) : Extends db after := by
  obtain ⟨keys, environments, nextID⟩ := write.catalogue
  refine ⟨nextID, fun env mem => ?_, fun id mem => ?_⟩
  · rwa [environments]
  · rwa [ProjectDB.keyIDs, keys]

theorem CatalogueOK.shrink (ok : CatalogueOK db) (nextID : db.nextID ≤ after.nextID)
    (environments : after.environmentIDs.Sublist db.environmentIDs)
    (keyIDs : after.keyIDs.Sublist db.keyIDs)
    (keyNames : (after.keys.map CatalogueKey.name).Sublist (db.keys.map CatalogueKey.name)) :
    CatalogueOK after where
  environmentIDs := ok.environmentIDs.sublist environments
  environments env mem := Nat.lt_of_lt_of_le (ok.environments env (environments.subset mem)) nextID
  keyIDs := ok.keyIDs.sublist keyIDs
  keyNames := ok.keyNames.sublist keyNames
  keys id mem := Nat.lt_of_lt_of_le (ok.keys id (keyIDs.subset mem)) nextID

theorem DataWrite.catalogueOK (write : DataWrite server db after) (ok : CatalogueOK db) :
    CatalogueOK after := by
  obtain ⟨keys, environments, nextID⟩ := write.catalogue
  refine ok.shrink nextID (environments ▸ .refl _) ?_ (keys ▸ .refl _)
  rw [ProjectDB.keyIDs, keys]
  exact .refl _

theorem RowsOK.shrink (ok : RowsOK db) (grows : Extends db after)
    (entries : ∀ entry ∈ after.entries, entry ∈ db.entries)
    (pending : after.pending.Sublist db.pending)
    (snapshots : ∀ snapshot ∈ after.snapshots, ∃ old ∈ db.snapshots,
      snapshot.env = old.env ∧ ∀ entry ∈ snapshot.entries, entry ∈ old.entries) : RowsOK after where
  entries entry mem := (ok.entries entry (entries entry mem)).mono grows
  pending change mem := (ok.pending change (pending.subset mem)).mono grows
  pendingIDs := ok.pendingIDs.sublist (pending.map _)
  pendingCells := ok.pendingCells.sublist (pending.map _)
  snapshots snapshot mem := by
    obtain ⟨old, oldMember, sameEnv, subset⟩ := snapshots snapshot mem
    have stored := (ok.snapshots old oldMember).mono grows
    exact ⟨sameEnv ▸ stored.environment,
      fun entry inSnapshot => stored.entries entry (subset entry inSnapshot)⟩

theorem same_snapshots : ∀ snapshot ∈ db.snapshots, ∃ old ∈ db.snapshots,
    snapshot.env = old.env ∧ ∀ entry ∈ snapshot.entries, entry ∈ old.entries :=
  fun snapshot mem => ⟨snapshot, mem, rfl, fun _ => id⟩

theorem RowsOK.same (ok : RowsOK db) (grows : Extends db after)
    (rows : after.entries = db.entries ∧ after.pending = db.pending ∧
      after.snapshots = db.snapshots) : RowsOK after := by
  obtain ⟨entries, pending, snapshots⟩ := rows
  exact ok.shrink grows (entries ▸ fun _ => id) (pending ▸ .refl _) (snapshots ▸ same_snapshots)

theorem RowsOK.put (ok : RowsOK db) {keyID : KeyID} {value : String}
    (environment : env ∈ db.environmentIDs) (declared : keyID ∈ db.keyIDs)
    (normal : normalize value = value) : RowsOK (db.putValue env keyID value) := by
  have grows : Extends db (db.putValue env keyID value) :=
    ⟨Nat.le_succ _, fun _ => id, fun _ => id⟩
  refine ⟨fun entry mem => ?_, fun change mem => (ok.pending change mem).mono grows,
    ok.pendingIDs, ok.pendingCells, fun snapshot mem => (ok.snapshots snapshot mem).mono grows⟩
  rcases mem_cons.mp mem with rfl | old
  · exact ⟨Nat.lt_succ_self _, environment, declared, normal⟩
  · exact (ok.entries entry (mem_filter.mp old).1).mono grows

theorem RowsOK.commit (ok : RowsOK db) (catalogue : CatalogueOK db) {row : Environment}
    (environment : row ∈ db.environments) {publisher : PrincipalID} {contract : ParameterContract}
    {cells : List MaterialCell} (rendered : cells.map MaterialCell.toEntry = db.render row.id) :
    RowsOK (commitSnapshot db row.id publisher contract cells) := by
  have grows : Extends db (commitSnapshot db row.id publisher contract cells) :=
    ⟨le_rfl, fun _ => id, fun _ => id⟩
  refine ⟨fun entry mem => (ok.entries entry mem).mono grows,
    fun change mem => (ok.pending change mem).mono grows, ok.pendingIDs, ok.pendingCells,
    fun snapshot mem => ?_⟩
  rcases mem_cons.mp mem with rfl | old
  · refine ⟨mem_map_of_mem environment, fun entry inSnapshot => ?_⟩
    rw [rendered] at inSnapshot
    obtain ⟨_, declared, stored, found, rfl⟩ := mem_render.mp inSnapshot
    have published := ok.entries stored (ProjectDB.cell?_eq_some found).1
    exact ⟨published.normal, published.fresh, catalogue.keys _ (mem_map_of_mem declared)⟩
  · exact (ok.snapshots snapshot old).mono grows

theorem RowsOK.stage (ok : RowsOK db) {change : PendingChange} (fresh : change.id = db.nextID)
    (draft : DraftOf db change) :
    RowsOK { db.stagePending change with nextID := db.nextID + 1 } := by
  have grows : Extends db { db.stagePending change with nextID := db.nextID + 1 } :=
    ⟨Nat.le_succ _, fun _ => id, fun _ => id⟩
  have kept : (db.pending.filter fun old =>
      !(old.env == change.env && old.keyID == change.keyID && old.owner == change.owner)).Sublist
        db.pending :=
    filter_sublist
  refine ⟨fun entry mem => (ok.entries entry mem).mono grows, fun other mem => ?_, ?_, ?_,
    fun snapshot mem => (ok.snapshots snapshot mem).mono grows⟩
  · rcases mem_cons.mp mem with rfl | old
    · exact ⟨by rw [fresh]; exact Nat.lt_succ_self _, draft.environment,
        draft.declared, draft.normal⟩
    · exact (ok.pending other (kept.subset old)).mono grows
  · refine nodup_cons.mpr ⟨fun repeated => ?_, ok.pendingIDs.sublist (kept.map _)⟩
    obtain ⟨other, old, same⟩ := mem_map.mp repeated
    have below := (ok.pending other (kept.subset old)).fresh
    rw [same, fresh] at below
    exact Nat.lt_irrefl _ below
  · refine nodup_cons.mpr ⟨fun repeated => ?_, ok.pendingCells.sublist (kept.map _)⟩
    obtain ⟨_, old, same⟩ := mem_map.mp repeated
    have removed := (mem_filter.mp old).2
    simp only [PendingChange.cell, Prod.mk.injEq] at same
    simp [same] at removed

theorem DataWrite.rowsOK (write : DataWrite server db after) (catalogue : CatalogueOK db)
    (ok : RowsOK db) : RowsOK after := by
  have grows := write.extends
  cases write with
  | put environment declared normal => exact ok.put environment declared normal
  | clear => exact ok.shrink grows (fun _ mem => (mem_filter.mp mem).1) (.refl _) same_snapshots
  | commit environment rendered => exact ok.commit catalogue environment rendered
  | stage fresh draft => exact ok.stage fresh draft
  | discard => exact ok.shrink grows (fun _ => id) filter_sublist same_snapshots
  | collect =>
    refine ok.shrink grows (fun _ => id) (.refl _) fun snapshot mem => ?_
    rcases mem_updateWhere.mp mem with ⟨old, oldMember, -, rfl⟩ | ⟨same, -⟩
    · exact ⟨old, oldMember, rfl, nofun⟩
    · exact ⟨snapshot, same, rfl, fun _ => id⟩
  | castVote state =>
    cases state <;> exact ok.same grows ⟨rfl, rfl, rfl⟩
  | protect | policies | administer | openRequest | resolve | expire =>
    exact ok.same grows ⟨rfl, rfl, rfl⟩

theorem ApprovalsOK.shrink (ok : ApprovalsOK db) (nextID : db.nextID ≤ after.nextID)
    (requests : after.requests.Sublist db.requests) (votes : after.votes.Sublist db.votes) :
    ApprovalsOK after where
  requestIDs := ok.requestIDs.sublist (requests.map _)
  requests request mem := Nat.lt_of_lt_of_le (ok.requests request (requests.subset mem)) nextID
  votes vote mem := Nat.lt_of_lt_of_le (ok.votes vote (votes.subset mem)) nextID
  ballots := ok.ballots.sublist (votes.map _)
  rejected vote mem reject request stored :=
    ok.rejected vote (votes.subset mem) reject request (requests.subset stored)

theorem ApprovalsOK.resolve (ok : ApprovalsOK db) {selected : ApprovalRequest → Bool}
    {state : RequestState} (inactive : state.isActive = false) : ApprovalsOK { db with
      requests := updateWhere selected
        (fun request => { request with state := state }) db.requests } := by
  refine ⟨?_, ?_, ok.votes, ok.ballots, ?_⟩
  · have ids :
        (updateWhere selected (fun request => { request with state := state }) db.requests).map
        ApprovalRequest.id = db.requests.map ApprovalRequest.id := map_updateWhere fun _ => rfl
    exact ids.symm ▸ ok.requestIDs
  · intro request mem
    rcases mem_updateWhere.mp mem with ⟨old, stored, -, rfl⟩ | ⟨stored, -⟩
    · exact ok.requests old stored
    · exact ok.requests request stored
  · intro vote cast reject request mem same
    rcases mem_updateWhere.mp mem with ⟨_, stored, -, rfl⟩ | ⟨stored, -⟩
    · exact inactive
    · exact ok.rejected vote cast reject request stored same

theorem ApprovalsOK.open (ok : ApprovalsOK db) (fresh : request.id = db.nextID) :
    ApprovalsOK { db with requests := request :: db.requests, nextID := db.nextID + 1 } := by
  refine ⟨nodup_cons.mpr ⟨fun repeated => ?_, ok.requestIDs⟩, fun other mem => ?_,
    fun vote cast => Nat.lt_succ_of_lt (ok.votes vote cast), ok.ballots,
    fun vote cast reject other mem same => ?_⟩
  · obtain ⟨other, stored, same⟩ := mem_map.mp repeated
    have below := ok.requests other stored
    rw [same, fresh] at below
    exact Nat.lt_irrefl _ below
  · rcases mem_cons.mp mem with rfl | stored
    · rw [fresh]
      exact Nat.lt_succ_self _
    · exact Nat.lt_succ_of_lt (ok.requests other stored)
  · rcases mem_cons.mp mem with rfl | stored
    · -- no vote can name a request that did not exist
      have below := ok.votes vote cast
      rw [← same, fresh] at below
      exact absurd below (Nat.lt_irrefl _)
    · exact ok.rejected vote cast reject other stored same

theorem ApprovalsOK.cast (ok : ApprovalsOK db) (stored : request ∈ db.requests)
    {caller : PrincipalID} {decision : VoteDecision}
    (first : ∀ vote ∈ db.votes, ¬ (vote.requestID = request.id ∧ vote.principal = caller))
    {requests : List ApprovalRequest}
    (sameIDs : requests.map ApprovalRequest.id = db.requests.map ApprovalRequest.id)
    (others : ∀ other ∈ requests, other.id ≠ request.id → other ∈ db.requests)
    (active : request.state.isActive = true)
    (rejects : decision = .reject → ∀ other ∈ requests, other.id = request.id →
      other.state.isActive = false) :
    ApprovalsOK { db with requests := requests, votes := ⟨request.id, caller, decision⟩ ::
      db.votes } := by
  refine ⟨by rw [sameIDs]; exact ok.requestIDs, fun other mem => ?_, fun vote mem => ?_,
    nodup_cons.mpr ⟨fun repeated => ?_, ok.ballots⟩,
    fun vote mem reject other inRequests same => ?_⟩
  · have known : other.id ∈ db.requests.map ApprovalRequest.id := sameIDs ▸ mem_map_of_mem mem
    obtain ⟨old, inOld, sameID⟩ := mem_map.mp known
    rw [← sameID]
    exact ok.requests old inOld
  · rcases mem_cons.mp mem with rfl | cast
    · exact ok.requests request stored
    · exact ok.votes vote cast
  · obtain ⟨vote, cast, same⟩ := mem_map.mp repeated
    exact first vote cast (Prod.mk.injEq .. ▸ same)
  · rcases mem_cons.mp mem with rfl | cast
    · exact rejects reject other inRequests same
    by_cases here : other.id = request.id
    · -- an active request has no rejecting vote
      have contradiction := ok.rejected vote cast reject request stored (here.symm.trans same)
      rw [active] at contradiction
      cases contradiction
    · exact ok.rejected vote cast reject other (others other inRequests here) same

theorem DataWrite.approvalsOK (write : DataWrite server db after) (ok : ApprovalsOK db) :
    ApprovalsOK after := by
  have nextID := write.extends.nextID
  cases write with
  | openRequest fresh => exact ok.open fresh
  | resolve inactive => exact ok.resolve inactive
  | expire => exact ok.resolve rfl
  | @castVote _ _ _ state _ stored inEnvironment active first rejects =>
    cases state with
    | none =>
      refine ok.cast stored first rfl (fun other mem _ => mem) active fun reject => ?_
      cases rejects reject
    | some =>
      refine ok.cast stored first (map_updateWhere fun _ => rfl)
        (fun other mem different => ?_) active
        fun reject other mem same => ?_
      · rcases mem_updateWhere.mp mem with ⟨old, -, hit, rfl⟩ | ⟨same, -⟩
        · simp only [Bool.and_eq_true, beq_iff_eq] at hit
          exact absurd hit.1 different
        · exact same
      cases rejects reject
      rcases mem_updateWhere.mp mem with ⟨_, -, -, rfl⟩ | ⟨inOld, miss⟩
      · rfl
      · have isRequest := List.inj_on_of_nodup_map ok.requestIDs inOld stored same
        simp [isRequest, inEnvironment] at miss
  | put | clear | commit | stage | discard | collect | protect | policies | administer =>
    exact ok.shrink nextID (.refl _) (.refl _)

theorem DataWrites.wellFormed (writes : DataWrites server db after) (ok : WellFormed db) :
    WellFormed after := by
  induction writes with
  | refl => exact ok
  | tail _ write ih =>
    exact ⟨write.catalogueOK ih.catalogue, write.rowsOK ih.catalogue ih.rows,
      write.approvalsOK ih.approvals⟩

end Data

section Catalogue
variable {db : ProjectDB} {id : KeyID} {name : String}

theorem nameFree_iff : db.nameFree id name = true ↔ ∀ key ∈ db.keys, key.id = id ∨
    key.name ≠ name := by
  simp [ProjectDB.nameFree]

theorem keyIDs_map {edit : CatalogueKey → CatalogueKey} (sameID : ∀ key, (edit key).id = key.id) :
    (db.keys.map edit).map CatalogueKey.id = db.keyIDs := by
  rw [List.map_map]
  exact List.map_congr_left fun key _ => sameID key

theorem keyIDs_renamed : (db.updateKey id fun key => { key with name := name }).keyIDs =
    db.keyIDs :=
  map_updateWhere fun _ => rfl

theorem environmentIDs_insertEnvironment :
    db.insertEnvironment.environmentIDs = db.environmentIDs ++ [db.nextID] := by
  simp [ProjectDB.insertEnvironment, ProjectDB.environmentIDs]

theorem environmentIDs_editParameters {parameters : Declarations} :
    (updateWhere (fun row => row.id == env) (fun row => { row with parameters := parameters })
      db.environments).map Environment.id = db.environmentIDs :=
  environmentIDs_updateWhere fun _ => rfl

theorem CatalogueOK.rename (ok : CatalogueOK db) (free : db.nameFree id name = true) :
    CatalogueOK (db.updateKey id fun key => { key with name := name }) := by
  refine ⟨ok.environmentIDs, ok.environments, by rw [keyIDs_renamed]; exact ok.keyIDs, ?_,
    by rw [keyIDs_renamed]; exact ok.keys⟩
  have others := nameFree_iff.mp free
  simp only [ProjectDB.updateKey, updateWhere, List.map_map]
  refine List.Nodup.map_on (fun key declared other otherDeclared same => ?_)
    (List.Nodup.of_map _ ok.keyIDs)
  by_cases isKey : key.id = id
  · by_cases isOther : other.id = id
    · exact inj_on_of_nodup_map ok.keyIDs declared otherDeclared (isKey.trans isOther.symm)
    · simp only [Function.comp_apply, beq_iff_eq, isKey, isOther, if_true, if_false] at same
      exact absurd same.symm ((others other otherDeclared).resolve_left isOther)
  by_cases isOther : other.id = id
  · simp only [Function.comp_apply, beq_iff_eq, isKey, isOther, if_true, if_false] at same
    exact absurd same ((others key declared).resolve_left isKey)
  · simp only [Function.comp_apply, beq_iff_eq, isKey, isOther, if_false] at same
    exact inj_on_of_nodup_map ok.keyNames declared otherDeclared same

theorem CatalogueWrite.catalogueOK (write : CatalogueWrite db after) (ok : CatalogueOK db) :
    CatalogueOK after := by
  cases write with
  | @insertKey _ free =>
    have others := nameFree_iff.mp free
    refine ⟨ok.environmentIDs, fun env mem => Nat.lt_succ_of_lt (ok.environments env mem),
      nodup_cons.mpr ⟨fun repeated => ?_, ok.keyIDs⟩,
      nodup_cons.mpr ⟨fun repeated => ?_, ok.keyNames⟩,
      fun id mem => ?_⟩
    · exact Nat.lt_irrefl _ (ok.keys _ repeated)
    · obtain ⟨key, declared, same⟩ := mem_map.mp repeated
      have below := ok.keys _ (mem_map_of_mem declared)
      exact (others key declared).elim (fun isNew => Nat.lt_irrefl _ (isNew ▸ below)) fun ne =>
        ne same
    · rcases mem_cons.mp mem with rfl | old
      · exact Nat.lt_succ_self _
      · exact Nat.lt_succ_of_lt (ok.keys id old)
  | editKeys edit sameID sameName =>
    have ids : (db.keys.map edit).map CatalogueKey.id = db.keyIDs := keyIDs_map sameID
    have names : (db.keys.map edit).map CatalogueKey.name = db.keys.map CatalogueKey.name := by
      rw [List.map_map]
      exact map_congr_left fun key _ => sameName key
    exact ok.shrink le_rfl (.refl _) (ids ▸ .refl _) (names ▸ .refl _)
  | renameKey free => exact ok.rename free
  | removeKey =>
    exact ok.shrink le_rfl (.refl _) (filter_sublist.map _) (filter_sublist.map _)
  | insertEnvironment =>
    have ids : db.insertEnvironment.environmentIDs = db.environmentIDs ++ [db.nextID] :=
      environmentIDs_insertEnvironment
    refine ⟨?_, ?_, ok.keyIDs, ok.keyNames, fun id mem => Nat.lt_succ_of_lt (ok.keys id mem)⟩
    · rw [ids]
      refine List.Nodup.append ok.environmentIDs (nodup_singleton _) fun env old isNew => ?_
      rw [mem_singleton.mp isNew] at old
      exact Nat.lt_irrefl _ (ok.environments _ old)
    intro env mem
    rw [ids] at mem
    rcases mem_append.mp mem with old | isNew
    · exact Nat.lt_succ_of_lt (ok.environments env old)
    · rw [mem_singleton.mp isNew]
      exact Nat.lt_succ_self _
  | removeEnvironment => exact ok.shrink le_rfl (filter_sublist.map _) (.refl _) (.refl _)
  | editParameters =>
    refine ok.shrink le_rfl ?_ (.refl _) (.refl _)
    rw [ProjectDB.environmentIDs, environmentIDs_editParameters]
  | setGroups later => exact ok.shrink later (.refl _) (.refl _) (.refl _)

theorem RowsOK.removeKey (ok : RowsOK db) : RowsOK ((db.clearKey id).removeKey id) := by
  have stillDeclared {keyID : KeyID} (declared : keyID ∈ db.keyIDs) (other : keyID ≠ id) :
      keyID ∈ ((db.clearKey id).removeKey id).keyIDs := by
    obtain ⟨_, mem, rfl⟩ := mem_map.mp declared
    exact mem_map_of_mem (mem_filter.mpr ⟨mem, by simpa using other⟩)
  have kept : ((db.clearKey id).removeKey id).pending.Sublist db.pending := filter_sublist
  refine ⟨fun entry mem => ?_, fun change mem => ?_, ok.pendingIDs.sublist (kept.map _),
    ok.pendingCells.sublist (kept.map _), fun snapshot mem => ?_⟩
  · have other : entry.keyID ≠ id := by simpa using (mem_filter.mp mem).2
    have stored := ok.entries entry (mem_filter.mp mem).1
    exact ⟨stored.fresh, stored.environment, stillDeclared stored.declared other, stored.normal⟩
  · have other : change.keyID ≠ id := by simpa using (mem_filter.mp mem).2
    have stored := ok.pending change (kept.subset mem)
    exact ⟨stored.fresh, stored.environment, stillDeclared stored.declared other, stored.normal⟩
  · have stored := ok.snapshots snapshot mem
    exact ⟨stored.environment, stored.entries⟩

theorem RowsOK.removeEnvironment (ok : RowsOK db) : RowsOK (db.removeEnvironment env) := by
  have stillListed {other : EnvID} (listed : other ∈ db.environmentIDs) (different : other ≠ env) :
      other ∈ (db.removeEnvironment env).environmentIDs := by
    obtain ⟨_, mem, rfl⟩ := mem_map.mp listed
    exact mem_map_of_mem (mem_filter.mpr ⟨mem, by simpa using different⟩)
  have kept : (db.removeEnvironment env).pending.Sublist db.pending := filter_sublist
  refine ⟨fun entry mem => ?_, fun change mem => ?_, ok.pendingIDs.sublist (kept.map _),
    ok.pendingCells.sublist (kept.map _), fun snapshot mem => ?_⟩
  · have different : entry.env ≠ env := by simpa using (mem_filter.mp mem).2
    have stored := ok.entries entry (mem_filter.mp mem).1
    exact ⟨stored.fresh, stillListed stored.environment different, stored.declared, stored.normal⟩
  · have different : change.env ≠ env := by simpa using (mem_filter.mp mem).2
    have stored := ok.pending change (kept.subset mem)
    exact ⟨stored.fresh, stillListed stored.environment different, stored.declared, stored.normal⟩
  · have different : snapshot.env ≠ env := by simpa using (mem_filter.mp mem).2
    have stored := ok.snapshots snapshot (mem_filter.mp mem).1
    exact ⟨stillListed stored.environment different, stored.entries⟩

theorem CatalogueWrite.rowsOK (write : CatalogueWrite db after) (ok : RowsOK db) :
    RowsOK after := by
  cases write with
  | removeKey => exact ok.removeKey
  | removeEnvironment => exact ok.removeEnvironment
  | insertKey =>
    exact ok.same ⟨Nat.le_succ _, fun _ => id, fun _ mem => .tail _ mem⟩ ⟨rfl, rfl, rfl⟩
  | editKeys edit sameID =>
    refine ok.same ⟨le_rfl, fun _ => id, fun id mem => ?_⟩ ⟨rfl, rfl, rfl⟩
    obtain ⟨key, declared, rfl⟩ := mem_map.mp mem
    exact mem_map.mpr ⟨edit key, mem_map_of_mem declared, sameID key⟩
  | renameKey =>
    exact ok.same ⟨le_rfl, fun _ => id, fun _ mem => keyIDs_renamed.symm ▸ mem⟩ ⟨rfl, rfl, rfl⟩
  | insertEnvironment =>
    refine ok.same ⟨Nat.le_succ _, fun env mem => ?_, fun _ => id⟩ ⟨rfl, rfl, rfl⟩
    obtain ⟨_, listed, rfl⟩ := mem_map.mp mem
    exact mem_map_of_mem (mem_append_left _ listed)
  | editParameters =>
    refine ok.same ⟨le_rfl, fun env mem => ?_, fun _ => id⟩ ⟨rfl, rfl, rfl⟩
    rwa [ProjectDB.environmentIDs, environmentIDs_editParameters]
  | setGroups later =>
    exact ok.same ⟨later, fun _ => id, fun _ => id⟩ ⟨rfl, rfl, rfl⟩

theorem CatalogueWrite.approvalsOK (write : CatalogueWrite db after) (ok : ApprovalsOK db) :
    ApprovalsOK after := by
  cases write with
  | insertKey | insertEnvironment => exact ok.shrink (Nat.le_succ _) (.refl _) (.refl _)
  | removeEnvironment => exact ok.shrink le_rfl filter_sublist filter_sublist
  | setGroups later => exact ok.shrink later (.refl _) (.refl _)
  | editKeys | renameKey | removeKey | editParameters =>
    exact ok.shrink le_rfl (.refl _) (.refl _)

theorem WellFormed.bump (ok : WellFormed db) : WellFormed db.bumpSchemaRevision where
  catalogue := ok.catalogue.shrink le_rfl (.refl _) (.refl _) (.refl _)
  rows := ok.rows.same ⟨le_rfl, fun _ => id, fun _ => id⟩ ⟨rfl, rfl, rfl⟩
  approvals := ok.approvals.shrink le_rfl (.refl _) (.refl _)

theorem CatalogueWrites.wellFormed (writes : ReflTransGen CatalogueWrite db after)
    (ok : WellFormed db) :
    WellFormed after := by
  induction writes with
  | refl => exact ok
  | tail _ write ih =>
    exact ⟨write.catalogueOK ih.catalogue, write.rowsOK ih.rows, write.approvalsOK ih.approvals⟩

theorem CatalogueStep.wellFormed (step : CatalogueStep db after) (ok : WellFormed db) :
    WellFormed after := by
  rcases step with rfl | ⟨_, writes, rfl⟩
  · exact ok
  · exact (CatalogueWrites.wellFormed writes ok).bump

end Catalogue

section Reachable
variable {db : ProjectDB} {action : Action}

theorem WellFormed.writes (ok : WellFormed db) (taken : step server db action = some after) :
    ∃ mid, CatalogueStep db mid ∧ WellFormed mid ∧ DataWrites server mid after := by
  obtain ⟨mid, catalogue, data⟩ :=
    step_writes (fun change mem => (ok.rows.pending change mem).normal)
    (fun snapshot mem entry inSnapshot =>
      ((ok.rows.snapshots snapshot mem).entries entry inSnapshot).1)
    taken
  exact ⟨mid, catalogue, catalogue.wellFormed ok, data⟩

theorem step_wellFormed (ok : WellFormed db) (taken : step server db action = some after) :
    WellFormed after := by
  obtain ⟨_, -, midOK, data⟩ := ok.writes taken
  exact data.wellFormed midOK

theorem empty_wellFormed : WellFormed .empty where
  catalogue := ⟨.nil, by simp [ProjectDB.environmentIDs, ProjectDB.empty], .nil, .nil,
    by simp [ProjectDB.keyIDs, ProjectDB.empty]⟩
  rows := ⟨by simp [ProjectDB.empty], by simp [ProjectDB.empty], .nil, .nil,
    by simp [ProjectDB.empty]⟩
  approvals := ⟨.nil, by simp [ProjectDB.empty], by simp [ProjectDB.empty], .nil,
    by simp [ProjectDB.empty]⟩

theorem run_wellFormed (actions : List Action) : WellFormed (run server actions) :=
  runFrom_invariant (step server) WellFormed (fun _ _ _ ok taken => step_wellFormed ok taken)
    actions .empty
    empty_wellFormed

end Reachable

end Hikyo.Project
