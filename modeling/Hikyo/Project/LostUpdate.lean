import Hikyo.Project.Mirror

/-!
# No lost update in a publish

`run_publish_overwrites`: a publish that commits overwrites exactly the closure of the versions it
names, each on the occurrence that its draft was staged from and that is still published, and leaves
every other draft and cell alone.  `StagedIn` traces each draft back to the operation that staged
it.
-/

namespace Hikyo.Project

open Hikyo.Lib List

variable {env : EnvID} {envs : List EnvID} {selection : List PendingChange}
  {list : List PublishedEnvironment} {caller : PrincipalID} {server : Server}

def ProjectDB.value? (db : ProjectDB) (env : EnvID) (keyID : KeyID) : Option String :=
  (db.cell? env keyID).map ValueEntry.value

def overwrite (values : EnvID → KeyID → Option String) (changes : List PendingChange) (env : EnvID)
    (keyID : KeyID) : Option String :=
  match changes.find? fun change => change.env == env && change.keyID == keyID with
  | some change => change.value
  | none => values env keyID

structure Overwritten (selection : List PendingChange) (envs : List EnvID) (db after : ProjectDB) :
    Prop where
  baseline : ∀ change ∈ selection, change.env ∈ envs →
    (db.cell? change.env change.keyID).map ValueEntry.id = change.stagedFromEntry
  selected : ∀ change ∈ selection, change.env ∈ envs →
    after.value? change.env change.keyID = change.value ∧
      ∀ entry, after.cell? change.env change.keyID = some entry → db.nextID ≤ entry.id
  kept : ∀ env keyID, (∀ change ∈ selection, change.env ∈ envs →
    ¬ (change.env = env ∧ change.keyID = keyID)) → after.cell? env keyID = db.cell? env keyID
  drafts : ∀ change, change ∈ after.pending ↔ change ∈ db.pending ∧
    ∀ apply ∈ selection, apply.env ∈ envs → apply.id ≠ change.id
  requests : after.requests = db.requests

section Loop
variable {db mid after : ProjectDB} {index : GroupIndex}

theorem applyFor_appliesTo (single : (selection.map fun change => (change.env, change.keyID)).Nodup)
    {change : PendingChange} (mem : change ∈ selection) :
    applyFor (appliesTo selection change.env) change.keyID = some change := by
  have found : ((appliesTo selection change.env).find? fun apply =>
      apply.keyID == change.keyID).isSome := by
    rw [find?_isSome]
    exact ⟨change, mem_appliesTo.mpr ⟨mem, rfl⟩, by simp⟩
  obtain ⟨other, located⟩ := Option.isSome_iff_exists.mp found
  obtain ⟨inSelection, sameEnv⟩ := mem_appliesTo.mp (mem_of_find?_eq_some located)
  have sameKey : other.keyID = change.keyID := by simpa using find?_some located
  rw [applyFor, located, inj_on_of_nodup_map single inSelection mem (by simp [sameEnv, sameKey])]

theorem applyFor_eq_none {keyID : KeyID}
    (unselected : ∀ change ∈ selection, ¬ (change.env = env ∧ change.keyID = keyID)) :
    applyFor (appliesTo selection env) keyID = none := by
  rw [applyFor, find?_eq_none]
  intro change applied
  obtain ⟨mem, sameEnv⟩ := mem_appliesTo.mp applied
  exact fun sameKey => unselected change mem ⟨sameEnv, by simpa using sameKey⟩

theorem PublishedOne.overwritten {row : Environment} {published : PublishedEnvironment}
    (single : (selection.map fun change => (change.env, change.keyID)).Nodup)
    (declared : ∀ change ∈ selection, change.keyID ∈ db.keyIDs)
    (one : PublishedOne server db caller selection env row mid after published) :
    Overwritten selection [env] db after := by
  have spec := one.materialized
  have cells (other : EnvID) (keyID : KeyID) : after.cell? other keyID = mid.cell? other keyID := by
    rw [one.discarded]
    rfl
  have pending : mid.pending = db.pending := by rw [spec.frame]
  refine ⟨fun change mem here => ?_, fun change mem here => ?_, fun other keyID unselected => ?_,
    fun change => ?_, by rw [one.discarded, spec.frame]⟩
  · obtain rfl := mem_singleton.mp here
    exact one.fresh change (mem_appliesTo.mpr ⟨mem, rfl⟩)
  · obtain rfl := mem_singleton.mp here
    obtain ⟨key, known, sameID⟩ := mem_map.mp (declared change mem)
    have applied :=
      spec.applied key known change (by rw [sameID]; exact applyFor_appliesTo single mem)
    rw [one.named, sameID] at applied
    rw [ProjectDB.value?, cells]
    exact applied
  · rw [cells]
    by_cases here : other = env ∧ keyID ∈ db.keyIDs
    · obtain ⟨rfl, known⟩ := here
      obtain ⟨key, inCatalogue, rfl⟩ := mem_map.mp known
      rw [← one.named]
      refine spec.kept key inCatalogue (applyFor_eq_none fun change mem same => ?_)
      exact unselected change mem (mem_singleton.mpr same.1) same
    refine spec.elsewhere other keyID ?_
    rw [one.named]
    by_cases sameEnv : other = env
    · exact .inr fun known => here ⟨sameEnv, known⟩
    · exact .inl sameEnv
  · rw [one.discarded, mem_filter, pending]
    simp only [Bool.not_eq_true', any_eq_false, mem_appliesTo, beq_iff_eq, mem_singleton]
    exact and_congr_right fun _ =>
      ⟨fun gone apply mem here => gone apply ⟨mem, here⟩,
        fun gone apply applied => gone apply applied.1 applied.2⟩

theorem Overwritten.cons (notLater : env ∉ envs)
    (first : Overwritten selection [env] db mid) (second : Overwritten selection envs mid after)
    (grows : db.nextID ≤ mid.nextID) : Overwritten selection (env :: envs) db after := by
  -- the cells of one environment are moved by its own iteration only
  have before {other : EnvID} (later : other ∈ envs) (keyID : KeyID) :
      mid.cell? other keyID = db.cell? other keyID := by
    refine first.kept other keyID fun change _ here same => ?_
    rw [← same.1, mem_singleton.mp here] at later
    exact notLater later
  have behind (keyID : KeyID) : after.cell? env keyID = mid.cell? env keyID :=
    second.kept env keyID fun change _ later same => notLater (same.1 ▸ later)
  refine ⟨fun change mem listed => ?_, fun change mem listed => ?_,
    fun other keyID unselected => ?_, fun change => ?_, second.requests.trans first.requests⟩
  · rcases mem_cons.mp listed with here | later
    · exact first.baseline change mem (mem_singleton.mpr here)
    · rw [← before later]
      exact second.baseline change mem later
  · rcases mem_cons.mp listed with here | later
    · have moved := first.selected change mem (mem_singleton.mpr here)
      rw [here] at moved ⊢
      rw [ProjectDB.value?, behind]
      exact moved
    · obtain ⟨value, fresh⟩ := second.selected change mem later
      exact ⟨value, fun entry found => Nat.le_trans grows (fresh entry found)⟩
  · rw [second.kept other keyID fun change mem later => unselected change mem (.tail _ later)]
    exact first.kept other keyID fun change mem here =>
      unselected change mem (mem_cons.mpr (.inl (mem_singleton.mp here)))
  · rw [second.drafts, first.drafts, and_assoc]
    refine and_congr_right fun _ => ⟨fun ⟨notFirst, notSecond⟩ apply mem listed => ?_,
      fun gone => ?_⟩
    · rcases mem_cons.mp listed with here | later
      · exact notFirst apply mem (mem_singleton.mpr here)
      · exact notSecond apply mem later
    exact ⟨fun apply mem here =>
        gone apply mem (mem_cons.mpr (.inl (mem_singleton.mp here))),
      fun apply mem later => gone apply mem (.tail _ later)⟩

theorem publishEnvironments_overwritten
    (single : (selection.map fun change => (change.env, change.keyID)).Nodup)
    (declared : ∀ change ∈ selection, change.keyID ∈ db.keyIDs) (distinct : envs.Nodup)
    (keys : index.keys = db.listKeys)
    (normal : ∀ change ∈ selection, ∀ value, change.value = some value → normalize value = value)
    (run : publishEnvironments server index caller selection envs db = .ok (after, list)) :
    Overwritten selection envs db after := by
  induction envs generalizing db list with
  | nil =>
    cases run
    exact ⟨fun _ _ listed => (nomatch listed), fun _ _ listed => (nomatch listed), fun _ _ _ => rfl,
      fun _ => ⟨fun mem => ⟨mem, fun _ _ listed => (nomatch listed)⟩, And.left⟩, rfl⟩
  | cons _ _ ih =>
    obtain ⟨notLater, distinctRest⟩ := nodup_cons.mp distinct
    obtain ⟨_, _, _, _, _, one, tail, -⟩ := publishEnvironments_cons keys normal run
    have sameKeys := one.keys
    have later :=
      ih (fun change mem => by rw [ProjectDB.keyIDs, sameKeys]; exact declared change mem)
      distinctRest (by rw [keys, ProjectDB.listKeys, ProjectDB.listKeys, sameKeys]) tail
    refine (one.overwritten single declared).cons notLater later ?_
    rw [one.discarded]
    exact one.materialized.fresh

end Loop

structure PublishesClosure (db : ProjectDB) (caller : PrincipalID) (ids : List VersionID)
    (closure : List PendingChange) (after : ProjectDB) : Prop where
  /-- The caller's named drafts and those that key groups couple to them. -/
  closed : ∀ change, change ∈ closure ↔ Coupled db.keys (db.ownPending caller) ids change
  distinct : (closure.map PendingChange.id).Nodup
  baseline : ∀ change ∈ closure,
    (db.cell? change.env change.keyID).map ValueEntry.id = change.stagedFromEntry
  values : after.value? = overwrite db.value? closure
  /-- What was not selected keeps its occurrence, what was gets a new one. -/
  kept : ∀ env keyID, (∀ change ∈ closure, ¬ (change.env = env ∧ change.keyID = keyID)) →
    after.cell? env keyID = db.cell? env keyID
  fresh : ∀ change ∈ closure, ∀ entry, after.cell? change.env change.keyID = some entry →
    db.nextID ≤ entry.id
  drafts : ∀ change, change ∈ after.pending ↔ change ∈ db.pending ∧ change ∉ closure
  /-- The new snapshots render the published cells, in which no draft shows. -/
  snapshots : ∀ env ∈ closure.map PendingChange.env, ∃ snapshot, after.latest env = some snapshot ∧
    snapshot.revision = db.currentRevision env + 1 ∧ snapshot.entries = after.render env
  elsewhere : ∀ env, env ∉ closure.map PendingChange.env → after.latest env = db.latest env

section Planned
variable {db after : ProjectDB} {ids closed : List VersionID} {index : GroupIndex}

theorem mem_selectionEnvs : env ∈ selectionEnvs selection ↔ env ∈ selection.map PendingChange.env :=
  mem_dedup

theorem selection_cells (ok : WellFormed db)
    (own : ∀ change ∈ selection, change ∈ db.pending ∧ change.owner = caller)
    (distinct : (selection.map PendingChange.id).Nodup) :
    (selection.map fun change => (change.env, change.keyID)).Nodup := by
  refine List.Nodup.map_on (fun change mem other otherMember same => ?_)
    (List.Nodup.of_map _ distinct)
  obtain ⟨stored, owned⟩ := own change mem
  obtain ⟨otherStored, otherOwned⟩ := own other otherMember
  obtain ⟨sameEnv, sameKey⟩ := Prod.mk.inj same
  refine inj_on_of_nodup_map ok.rows.pendingCells stored otherStored ?_
  simp [PendingChange.cell, sameEnv, sameKey, owned, otherOwned]

theorem overwrite_eq {values : EnvID → KeyID → Option String} (env : EnvID) (keyID : KeyID)
    {result : Option String} (selected : ∀ change ∈ selection, change.env = env →
      change.keyID = keyID → result = change.value)
    (unselected : (∀ change ∈ selection, ¬ (change.env = env ∧ change.keyID = keyID)) →
      result = values env keyID) : result = overwrite values selection env keyID := by
  unfold overwrite
  split
  · next change located =>
    have hit := find?_some located
    simp only [Bool.and_eq_true, beq_iff_eq] at hit
    exact selected change (mem_of_find?_eq_some located) hit.1 hit.2
  next missing =>
  refine unselected fun change mem => ?_
  simpa using find?_eq_none.mp missing change mem

section
variable (selects : planSelection db caller ids = .ok (index, selection, closed))
include selects

variable {confirmed : List EnvID} {outcome : PublishOutcome}

theorem publishEnvironments_planned {moved : ProjectDB} (ok : WellFormed db)
    (moves : publishEnvironments server index caller selection (selectionEnvs selection) db =
      .ok (moved, list)) :
    Overwritten selection (selectionEnvs selection) db moved := by
  obtain ⟨keys, _, resolves, chosen⟩ := planSelection_eq_ok selects
  obtain ⟨-, distinct⟩ := selectVersions_spec chosen keys ok.rows.pendingIDs resolves
  have own := planSelection_own selects
  exact publishEnvironments_overwritten (selection_cells ok own distinct)
    (fun change mem => (ok.rows.pending change (own change mem).1).declared)
    (nodup_dedup _) keys (fun change mem => (ok.rows.pending change (own change mem).1).normal)
      moves

theorem commitPublish_resolves {live : ApprovalRequest} {bypass : Bool} (ok : WellFormed db)
    (stored : live ∈ db.requests)
    (commits : commitPublish server db index caller selection closed confirmed
      (some (live, bypass)) =
      .ok (after, outcome)) : { live with state := if bypass then .bypassed else .merged } ∈
        after.requests := by
  obtain ⟨_, _, moves, rfl, -⟩ := commitPublish_spec commits
  have kept := (publishEnvironments_planned selects ok moves).requests
  exact mem_updateWhere.mpr (.inl ⟨live, by rw [kept]; exact stored, by simp, rfl⟩)

theorem commitPublish_publishes {resolved : Option (ApprovalRequest × Bool)} (ok : WellFormed db)
    (commits : commitPublish server db index caller selection closed confirmed resolved =
      .ok (after, outcome)) :
    PublishesClosure db caller ids selection after := by
  obtain ⟨moved, _, moves, same, -⟩ := commitPublish_spec commits
  obtain ⟨keys, selected, resolves, chosen⟩ := planSelection_eq_ok selects
  obtain ⟨coupled, distinct⟩ := selectVersions_spec chosen keys ok.rows.pendingIDs resolves
  have own := planSelection_own selects
  have listed (change : PendingChange) (mem : change ∈ selection) :
      change.env ∈ selectionEnvs selection :=
    mem_selectionEnvs.mpr (mem_map_of_mem mem)
  have loop := publishEnvironments_planned selects ok moves
  have advance := publishEnvironments_advance keys
    (fun change mem => (ok.rows.pending change (own change mem).1).normal) moves
  -- resolving the request touches nothing but the requests
  have frame : after = { moved with requests := after.requests } := by
    rw [same]
    cases resolved <;> rfl
  have cells (env : EnvID) (keyID : KeyID) : after.cell? env keyID = moved.cell? env keyID := by
    rw [frame]
    rfl
  have latest (env : EnvID) : after.latest env = moved.latest env := by
    rw [frame]
    rfl
  have pending : after.pending = moved.pending := by rw [frame]
  have render (env : EnvID) : after.render env = moved.render env := by
    rw [frame]
    rfl
  refine ⟨coupled, distinct, fun change mem => loop.baseline change mem (listed change mem), ?_,
    fun env keyID unselected => ?_, fun change mem entry found => ?_, fun change => ?_,
    fun env here => ?_,
    fun env outside => ?_⟩
  · funext env keyID
    refine overwrite_eq env keyID (fun change mem sameEnv sameKey => ?_) fun unselected => ?_
    · rw [ProjectDB.value?, cells, ← sameEnv, ← sameKey]
      exact (loop.selected change mem (listed change mem)).1
    · rw [ProjectDB.value?, cells, loop.kept env keyID fun change mem _ => unselected change mem]
      rfl
  · rw [cells]
    exact loop.kept env keyID fun change mem _ => unselected change mem
  · rw [cells] at found
    exact (loop.selected change mem (listed change mem)).2 entry found
  · rw [pending, loop.drafts]
    refine and_congr_right fun stored => ⟨fun gone mem => gone change mem (listed change mem) rfl,
      ?_⟩
    intro outside apply mem _ sameID
    refine outside ?_
    rwa [← inj_on_of_nodup_map ok.rows.pendingIDs (own apply mem).1 stored sameID]
  · have inEnvs := mem_selectionEnvs.mpr here
    obtain ⟨snapshot, found, -, entries⟩ := advance.mirrored env (.inl inEnvs)
    refine ⟨snapshot, (latest env).trans found, ?_, entries.trans (render env).symm⟩
    have once : (selectionEnvs selection).Nodup := nodup_dedup _
    have revision := advance.revision env
    rw [count_eq_one_of_mem once inEnvs, ProjectDB.currentRevision, found] at revision
    exact revision
  · rw [latest]
    exact advance.latest env fun inEnvs => outside (mem_selectionEnvs.mp inEnvs)

end

end Planned

section Histories
/-- The operation of the history that staged a draft, and the occurrence it saw. -/
def StagedIn (server : Server) (history : List Action) (change : PendingChange) : Prop :=
  ∃ past action, past ++ [action] <+: history ∧ (run server past).nextID ≤ change.id ∧
    change ∈ (run server (past ++ [action])).pending ∧
    change.stagedFromEntry = ((run server past).cell? change.env change.keyID).map ValueEntry.id

theorem run_staged (history : List Action) :
    ∀ change ∈ (run server history).pending, StagedIn server history change := by
  refine runFrom_history (step server) .empty
    (fun history db => ∀ change ∈ db.pending, StagedIn server history change) ?_ ?_ ?_ history
  · exact nofun
  · intro past action _ ih taken reached change mem
    rcases step_pending taken (run_wellFormed past) change mem with old | ⟨fresh, baseline⟩
    · obtain ⟨earlier, staging, before, facts⟩ := ih change old
      exact ⟨earlier, staging, before.trans (prefix_append _ _), facts⟩
    refine ⟨past, action, prefix_refl _, fresh, ?_, baseline⟩
    rw [run, reached]
    exact mem
  · intro _ _ ih _ change mem
    obtain ⟨earlier, staging, before, facts⟩ := ih change mem
    exact ⟨earlier, staging, before.trans (prefix_append _ _), facts⟩

/-- The versions a publish names: its own, or those of the approval request it resolves. -/
def NamesVersions (db : ProjectDB) (request : PublishRequest) (ids : List VersionID) : Prop :=
  match request.approvalRequestID with
  | none => ids = request.versionIDs
  | some id => ∃ live ∈ db.requests, live.id = id ∧ ids = live.versionIDs

/-- A publish overwrites the closure of the versions it names, each still on the occurrence it was
staged from, and leaves every other draft alone. -/
theorem run_publish_overwrites (past : List Action) {caller : PrincipalID} {scopeEnv : EnvID}
    {request : PublishRequest} {now : Time} {after : ProjectDB} {result : PublishResult}
    (commits : perform server (run server past) (.publish caller scopeEnv request now) =
      .ok (after, .publish (.published result))) :
    ∃ ids closure, NamesVersions (run server past) request ids ∧
      PublishesClosure (run server past) caller ids closure after ∧
      result.published = (closure.map PendingChange.id).insertionSort (· ≤ ·) ∧
      ∀ change ∈ closure, StagedIn server past change := by
  have ok : WellFormed (run server past) := run_wellFormed past
  obtain ⟨⟨_, outcome⟩, performed, same⟩ := map_eq_ok.mp commits
  cases same
  obtain ⟨loaded, named, unnamed, planned⟩ := publishPlanned_spec performed
  have names : NamesVersions (run server past) request
      ((loaded.map ApprovalRequest.versionIDs).getD request.versionIDs) := by
    unfold NamesVersions
    cases identified : request.approvalRequestID with
    | none =>
      rw [unnamed identified]
      rfl
    | some id =>
      obtain ⟨live, rfl, found⟩ := named id identified
      obtain ⟨stored, sameID, -⟩ := getRequest_eq_ok found
      exact ⟨live, stored, sameID, rfl⟩
  have staged {ids closed : List VersionID} {index : GroupIndex} {selection : List PendingChange}
      (selects : planSelection (run server past) caller ids = .ok (index, selection, closed)) :
      ∀ change ∈ selection, StagedIn server past change :=
    fun change mem => run_staged past change (planSelection_own selects change mem).1
  cases planned with
  | plain selects _ commits =>
    obtain ⟨moved, list, -, -, outcome⟩ := commitPublish_spec commits
    cases outcome
    exact ⟨_, _, names, commitPublish_publishes selects ok commits, rfl, staged selects⟩
  | resolved isLoaded selects _ commits =>
    obtain ⟨_, _, -, -, outcome⟩ := commitPublish_spec commits
    cases outcome
    rw [isLoaded] at names
    exact ⟨_, _, names, commitPublish_publishes selects ok commits, rfl, staged selects⟩

def publishResult? (server : Server) (db : ProjectDB) (action : Action) :
    Option (ProjectDB × PublishResult) :=
  match perform server db action with
  | .ok (after, .publish (.published result)) => some (after, result)
  | _ => none

theorem exists_published {db : ProjectDB} {action : Action}
    (commits : (publishResult? server db action).isSome = true) :
    ∃ after result, perform server db action = .ok (after, .publish (.published result)) := by
  unfold publishResult? at commits
  split at commits
  · next after result performed => exact ⟨after, result, performed⟩
  · cases commits

def twoDrafts : List Action :=
  [.createEnvironment 7 none,
    .schema 7 (.createKey ⟨"DB_URL", .config, "string", ⟨.none, .none⟩, none⟩),
    .stage 7 1 "DB_URL" (some "a"), .stage 8 1 "DB_URL" (some "b")]

set_option maxRecDepth 10000 in
theorem twoDrafts_publish_overwrites : ∃ after result ids closure,
    perform .lenient (run .lenient twoDrafts) (.publish 7 1 ⟨[3], none, [], none, none⟩ 0) =
      .ok (after, .publish (.published result)) ∧
    PublishesClosure (run .lenient twoDrafts) 7 ids closure after := by
  obtain ⟨after, result, commits⟩ := exists_published
    (show (publishResult? .lenient (run .lenient twoDrafts)
      (.publish 7 1 ⟨[3], none, [], none, none⟩ 0)).isSome = true by decide)
  obtain ⟨ids, closure, -, publishes, -⟩ := run_publish_overwrites twoDrafts commits
  exact ⟨after, result, ids, closure, commits, publishes⟩

end Histories

end Hikyo.Project
