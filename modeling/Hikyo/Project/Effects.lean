import Hikyo.Project.Advance

/-!
# What one operation does to the delivered state

`step_effect` says what one operation can do to cells, drafts and snapshots: nothing, a change of
drafts, the collection of a payload, the creation or removal of an environment, an opened request, a
publish with the gate it passed, a write of material, or a schema change with the environments
published under it.  It is the one inversion of `step` for statements about the delivered state.
-/

namespace Hikyo.Project

open Hikyo.Lib

variable {env : EnvID} {caller : PrincipalID} {db : ProjectDB}

/-- Nothing that delivery reads has changed. -/
structure Quiet (db after : ProjectDB) : Prop where
  keys : after.keys = db.keys
  entries : after.entries = db.entries
  snapshots : after.snapshots = db.snapshots
  environments : after.environmentIDs = db.environmentIDs
  pending : after.pending = db.pending
  requests : Restated db after

/-- Only drafts were written, each on the published occurrence of its cell. -/
structure Drafts (db after : ProjectDB) : Prop where
  frame : after = { db with pending := after.pending, nextID := after.nextID }
  fresh : db.nextID ≤ after.nextID
  pending : ∀ change ∈ after.pending, change ∈ db.pending ∨ (db.nextID ≤ change.id ∧
    change.stagedFromEntry = (db.cell? change.env change.keyID).map ValueEntry.id)

theorem Drafts.refl (db : ProjectDB) : Drafts db db := ⟨rfl, le_rfl, fun _ mem => .inl mem⟩

theorem Drafts.trans {a b c : ProjectDB} (first : Drafts a b) (second : Drafts b c) :
    Drafts a c := by
  have cells (env : EnvID) (keyID : KeyID) : b.cell? env keyID = a.cell? env keyID := by
    rw [first.frame]
    rfl
  refine ⟨?_, Nat.le_trans first.fresh second.fresh, fun change mem => ?_⟩
  · have frame := second.frame
    rw [first.frame] at frame
    exact frame
  rcases second.pending change mem with old | ⟨fresh, baseline⟩
  · exact first.pending change old
  · exact .inr ⟨Nat.le_trans first.fresh fresh, by rw [baseline, cells]⟩

theorem drafts_stage {change : PendingChange} (fresh : change.id = db.nextID)
    (baseline : change.stagedFromEntry = (db.cell? change.env change.keyID).map ValueEntry.id) :
    Drafts db { db.stagePending change with nextID := db.nextID + 1 } := by
  refine ⟨rfl, Nat.le_succ _, fun other mem => ?_⟩
  rcases List.mem_cons.mp mem with rfl | old
  · exact .inr ⟨Nat.le_of_eq fresh.symm, baseline⟩
  · exact .inl (List.mem_filter.mp old).1

theorem restoreEach_drafts {latestRevision : Nat} {target : Snapshot} {keys : List CatalogueKey} :
    Drafts db (restoreEach caller env latestRevision target keys db).1 := by
  induction keys generalizing db with
  | nil => exact .refl db
  | cons key _ ih =>
    rw [restoreEach]
    cases drafted : restoreDraft db caller env latestRevision target key with
    | none => exact ih
    | some change =>
      obtain ⟨fresh, baseline⟩ : change.id = db.nextID ∧
          change.stagedFromEntry = (db.cell? change.env change.keyID).map ValueEntry.id := by
        unfold restoreDraft at drafted
        dsimp only at drafted
        split at drafted
        · cases drafted
        · cases drafted
          exact ⟨rfl, rfl⟩
      exact (drafts_stage fresh baseline).trans ih

inductive PublishGate (db : ProjectDB) (caller : PrincipalID) (scopeEnv : EnvID)
    (request : PublishRequest) (now : Time) (selection : List PendingChange) :
    List VersionID → Option (ApprovalRequest × Bool) → Prop
  | uncovered {ids : List VersionID}
    (free : ∀ env ∈ selectionEnvs selection, coveringPolicy db env = none) :
      PublishGate db caller scopeEnv request now selection ids none
  | approved {live : ApprovalRequest} {bypass : Bool} {env : EnvID} {policy : ApprovalPolicy}
      (stored : live ∈ db.requests) (named : request.approvalRequestID = some live.id)
      (approves : Approves db caller scopeEnv selection now live bypass env policy) :
      PublishGate db caller scopeEnv request now selection live.versionIDs (some (live, bypass))

/-- The kinds of operation, as delivery sees them. -/
inductive Effect (server : Server) (db : ProjectDB) : Action → ProjectDB → Prop
  | quiet {action : Action} {after : ProjectDB} (same : Quiet db after) :
    Effect server db action after
  | drafted {action : Action} {after : ProjectDB} (drafts : Drafts db after) :
    Effect server db action after
  | collected {env : EnvID} {revision : Nat} (older : revision ≠ db.currentRevision env) :
      Effect server db (.collectPayload env revision) { db with
        snapshots :=
          updateWhere (fun snapshot => snapshot.env == env && snapshot.revision == revision)
          (fun snapshot => { snapshot with payloadPresent := false, entries := [] }) db.snapshots }
  | removed {env : EnvID} : Effect server db (.deleteEnvironment env)
      (ProjectDB.bumpSchemaRevision
        { db.removeEnvironment env with keys := db.keys.map (CatalogueKey.cascade env) })
  | opened {caller : PrincipalID} {scopeEnv : EnvID} {request : PublishRequest} {now : Time}
      {index : GroupIndex} {selection : List PendingChange} {closed : List VersionID}
      {created : ApprovalRequest}
      (selects : planSelection db caller request.versionIDs = .ok (index, selection, closed))
      (digest : created.previewDigest = publishPreviewToken db scopeEnv caller selection)
      (proposer : created.requester = caller) :
      Effect server db (.publish caller scopeEnv request now)
        { db with requests := created :: db.requests, nextID := db.nextID + 1 }
  | planned {caller : PrincipalID} {scopeEnv : EnvID} {request : PublishRequest} {now : Time}
      {ids : List VersionID} {index : GroupIndex} {selection : List PendingChange}
      {closed : List VersionID} {resolved : Option (ApprovalRequest × Bool)}
      {outcome : PublishOutcome}
      {after : ProjectDB} (selects : planSelection db caller ids = .ok (index, selection, closed))
      (gate : PublishGate db caller scopeEnv request now selection ids resolved)
      (commits : commitPublish server db index caller selection closed request.confirmedProtected
        resolved = .ok (after, outcome))
      (advance : Advance (selectionEnvs selection) db after) :
      Effect server db (.publish caller scopeEnv request now) after
  | written {action : Action} {envs : List EnvID} {after : ProjectDB} (distinct : envs.Nodup)
      (advance : Advance envs db after)
      (gate : (∀ env ∈ envs, coveringPolicy db env = none) ∨
        ∃ caller keyName value, action = .declare caller envs keyName value) : Effect server
          db action after
  | created {caller : PrincipalID} {clone : Option (EnvID × Bool)} {after : ProjectDB}
      (advance : Advance [db.nextID] db.insertEnvironment.bumpSchemaRevision after)
      (plain : clone = none → ∀ env keyID, after.cell? env keyID = db.cell? env keyID) :
      Effect server db (.createEnvironment caller clone) after
  | changed {caller : PrincipalID} {change : SchemaChange} {changed after : ProjectDB}
      (changes : changeSchema server db change = .ok (some changed))
      (advance : Advance (changed.environments.map Environment.id) changed.bumpSchemaRevision after)
      (cells : ∀ env keyID, after.cell? env keyID = changed.cell? env keyID) :
      Effect server db (.schema caller change) after

section Step
variable {server : Server} {after : ProjectDB} {action : Action}

theorem setRequestState_quiet {id : RequestID} {state : RequestState} :
    Quiet db (setRequestState db env id state) :=
  ⟨rfl, rfl, rfl, rfl, rfl, restated_updateWhere rfl⟩

theorem vote_quiet {requestID : RequestID} {decision : VoteDecision} {now : Time}
    {cause : Option InvalidatedCause}
    (run : vote db caller env requestID decision now = .ok (after, cause)) : Quiet db after := by
  rcases vote_cases run with rfl | ⟨request, _, rfl⟩ | ⟨request, _, -, -, -, -, rfl⟩
  · exact ⟨rfl, rfl, rfl, rfl, rfl, restated_of_eq rfl⟩
  · exact setRequestState_quiet
  · unfold recordVote
    cases decision with
    | reject => exact ⟨rfl, rfl, rfl, rfl, rfl, restated_updateWhere rfl⟩
    | approve =>
      dsimp only
      split
      · exact ⟨rfl, rfl, rfl, rfl, rfl, restated_updateWhere rfl⟩
      · exact ⟨rfl, rfl, rfl, rfl, rfl, restated_of_eq rfl⟩

theorem commitPublish_advance {ids : List VersionID} {index : GroupIndex}
    {selection : List PendingChange} {closed : List VersionID} {confirmed : List EnvID}
    {resolved : Option (ApprovalRequest × Bool)} {outcome : PublishOutcome}
    (ok : WellFormed db) (selects : planSelection db caller ids = .ok (index, selection, closed))
    (commits : commitPublish server db index caller selection closed confirmed resolved =
      .ok (after, outcome)) :
    Advance (selectionEnvs selection) db after := by
  obtain ⟨_, _, moves, rfl, -⟩ := commitPublish_spec commits
  have own := planSelection_own selects
  have advance := publishEnvironments_advance (planSelection_eq_ok selects).1
    (fun change mem => (ok.rows.pending change (own change mem).1).normal) moves
  cases resolved with
  | none => exact advance
  | some =>
    exact ⟨advance.keys, advance.environments, advance.policies, advance.pending,
      advance.requests.trans (restated_updateWhere rfl),
      fun env known => (advance.mirrored env known).frame rfl rfl rfl, advance.revision,
      advance.elsewhere, advance.latest⟩

theorem step_effect (ok : WellFormed db) (taken : step server db action = some after) :
    Effect server db action after := by
  obtain ⟨_, run⟩ := step_eq_some.mp taken
  cases action with first
    | have performed := of_done run
    | obtain ⟨_, performed⟩ := answered run fun _ => rfl
    | cases run
  | stage =>
    obtain ⟨row, -, performed⟩ := bind_eq_ok.mp performed
    obtain ⟨_, -, performed⟩ := bind_eq_ok.mp performed
    obtain ⟨-, performed⟩ := require_bind_eq_ok.mp performed
    cases performed
    exact .drafted (drafts_stage rfl rfl)
  | restore =>
    obtain ⟨-, rfl | ⟨target, _, _, -, -, rfl⟩⟩ := restore_spec performed
    · exact .quiet ⟨rfl, rfl, rfl, rfl, rfl, restated_of_eq rfl⟩
    · exact .drafted restoreEach_drafts
  | publish _ _ request =>
    obtain ⟨_, named, unnamed, planned⟩ := publishPlanned_spec performed
    cases planned with
    | stale | refused => exact .quiet setRequestState_quiet
    | created selects gate =>
      obtain ⟨rfl, -, -, digest, proposer⟩ := gate
      exact .opened selects digest proposer
    | plain selects uncovered commits =>
      exact .planned selects (.uncovered uncovered) commits
        (commitPublish_advance ok selects commits)
    | @resolved _ _ _ _ _ _ _ _ _ isLoaded selects approves commits =>
      cases identified : request.approvalRequestID with
      | none => cases (unnamed identified).symm.trans isLoaded
      | some id =>
        obtain ⟨_, same, loads⟩ := named id identified
        cases same.symm.trans isLoaded
        obtain ⟨stored, rfl, -⟩ := getRequest_eq_ok loads
        exact .planned selects (.approved stored identified approves) commits
          (commitPublish_advance ok selects commits)
  | declare caller _ keyName value =>
    obtain ⟨distinct, material, declared, writes⟩ := declare_spec performed
    exact .written distinct (writeAndPublish_advance declared writes).1
      (.inr ⟨caller, keyName, value, rfl⟩)
  | importValues =>
    rcases importValues_spec performed with ⟨rfl, -⟩ | ⟨material, declared, writes⟩
    · exact .quiet ⟨rfl, rfl, rfl, rfl, rfl, restated_of_eq rfl⟩
    · obtain ⟨advance, -, gated⟩ := writeAndPublish_advance declared writes
      exact .written (List.nodup_singleton _) advance (.inl (gated rfl))
  | copyValues =>
    obtain ⟨distinct, uncovered, _, material, declared, writes⟩ := copyValues_spec performed
    exact .written distinct (writeAndPublish_advance declared writes).1 (.inl uncovered)
  | createEnvironment =>
    obtain ⟨⟨_, declared, writes⟩, plain⟩ := createEnvironment_spec performed
    refine .created (writeAndPublish_advance declared writes).1 fun isPlain env keyID => ?_
    exact (writeAndPublish_advance (by simp) (plain isPlain)).2.1 env keyID (by simp)
  | deleteEnvironment =>
    obtain ⟨row, -, performed⟩ := bind_eq_ok.mp performed
    cases performed
    exact .removed
  | setProtected =>
    obtain ⟨row, -, performed⟩ := bind_eq_ok.mp performed
    cases performed
    exact .quiet ⟨rfl, rfl, rfl, environmentIDs_updateWhere fun _ => rfl, rfl, restated_of_eq rfl⟩
  | setParameter =>
    rw [setParameter, require_bind_eq_ok, bind_eq_ok] at performed
    obtain ⟨-, _, -, performed⟩ := performed
    obtain ⟨_, -, performed⟩ := bind_eq_ok.mp performed
    cases performed
    exact .quiet ⟨rfl, rfl, rfl, environmentIDs_updateWhere fun _ => rfl, rfl, restated_of_eq rfl⟩
  | createGroup | deletePolicy =>
    obtain ⟨-, performed⟩ := require_bind_eq_ok.mp performed
    cases performed
    exact .quiet ⟨rfl, rfl, rfl, rfl, rfl, restated_of_eq rfl⟩
  | editMetadata =>
    obtain ⟨_, -, performed⟩ := bind_eq_ok.mp performed
    cases performed
    exact .quiet ⟨rfl, rfl, rfl, rfl, rfl, restated_of_eq rfl⟩
  | schema =>
    rcases schemaPublish_spec performed with ⟨rfl, -⟩ | ⟨changed, changes, fans⟩
    · exact .quiet ⟨rfl, rfl, rfl, rfl, rfl, restated_of_eq rfl⟩
    · obtain ⟨advance, cells⟩ := fanOut_advance fans
      exact .changed changes advance cells
  | createPolicy =>
    obtain ⟨_, -, performed⟩ := bind_eq_ok.mp performed
    rw [require_bind_eq_ok, require_bind_eq_ok] at performed
    obtain ⟨-, -, performed⟩ := performed
    cases performed
    exact .quiet ⟨rfl, rfl, rfl, rfl, rfl, restated_of_eq rfl⟩
  | updatePolicy =>
    obtain ⟨_, -, performed⟩ := bind_eq_ok.mp performed
    split at performed
    · cases performed
    obtain ⟨-, performed⟩ := require_bind_eq_ok.mp performed
    cases performed
    exact .quiet ⟨rfl, rfl, rfl, rfl, rfl, restated_of_eq rfl⟩
  | vote =>
    exact .quiet (vote_quiet performed)
  | expireDue =>
    exact .quiet ⟨rfl, rfl, rfl, rfl, rfl, restated_updateWhere rfl⟩
  | collectPayload =>
    obtain ⟨older, performed⟩ := require_bind_eq_ok.mp performed
    cases performed
    exact .collected older
  | administer =>
    exact .quiet ⟨rfl, rfl, rfl, rfl, rfl, restated_of_eq rfl⟩

end Step

end Hikyo.Project
