import Hikyo.Project.Lineage
import Hikyo.Project.Review

/-!
# The approval gate

`run_everyRevisionSanctioned`: in every history whose declares and clones address no covered
environment, each revision of a covered environment that changes the value or the presence of a key
was merged from a request that had its approvals, for exactly the drafts that were reviewed, or was
committed by a named bypasser.  `declare` and the clone of a new environment are exempt from the
gate (`declaredHistory_not_sanctioned`).
-/

namespace Hikyo.Project

open Hikyo.Lib List

variable {action : Action} {env : EnvID} {keyID : KeyID} {server : Server}

def Snapshot.value? (snapshot : Snapshot) (keyID : KeyID) : Option String :=
  (snapshot.entries.find? fun entry => entry.keyID == keyID).map SnapshotEntry.value

section Delivered
variable {db after : ProjectDB}

theorem value?_of_render {snapshot : Snapshot} (declared : keyID ∈ db.keyIDs)
    (entries : snapshot.entries = db.render env) : snapshot.value? keyID = db.value? env keyID := by
  obtain ⟨key, known, rfl⟩ := mem_map.mp declared
  rw [Snapshot.value?, entries, ProjectDB.value?]
  cases located : (db.render env).find? fun entry => entry.keyID == key.id with
  | none =>
    have missing := find?_eq_none.mp located
    cases found : db.cell? env key.id with
    | none => rfl
    | some entry =>
      have listed : key.entryOf entry ∈ db.render env :=
        mem_render.mpr ⟨key, known, entry, found, rfl⟩
      exact absurd (by simp [CatalogueKey.entryOf]) (missing _ listed)
  | some =>
    obtain ⟨other, _, _, found, rfl⟩ := mem_render.mp (mem_of_find?_eq_some located)
    have sameID : other.id = key.id := by simpa [CatalogueKey.entryOf] using find?_some located
    rw [← sameID, found]
    rfl

/-- Between operations the latest revision delivers the published values. -/
theorem delivered_eq_value? (ok : WellFormed db) (mirrored : Mirrored db)
    (declared : keyID ∈ db.keyIDs) :
    ((db.latest env).bind fun snapshot => snapshot.value? keyID) = db.value? env keyID := by
  by_cases listed : env ∈ db.environmentIDs
  · obtain ⟨snapshot, found, -, entries⟩ := mirrored env listed
    rw [found]
    exact value?_of_render declared entries
  have noSnapshot : db.latest env = none := by
    rw [ProjectDB.latest, find?_eq_none]
    intro snapshot mem named
    have known := (ok.rows.snapshots snapshot mem).environment
    rw [show snapshot.env = env by simpa using named] at known
    exact listed known
  have noCell : db.cell? env keyID = none := by
    rw [ProjectDB.cell?_eq_none]
    intro entry mem named
    exact listed (named.1 ▸ (ok.rows.entries entry mem).environment)
  rw [noSnapshot, ProjectDB.value?, noCell]
  rfl

theorem committed_latest {snapshot : Snapshot} (ok : WellFormed db) (numbered : Numbered after)
    (taken : step server db action = some after) (mem : snapshot ∈ after.snapshots)
    (named : snapshot.env = env) (newer : db.currentRevision env < snapshot.revision) :
    after.latest env = some snapshot := by
  have inList : snapshot ∈ after.snapshots.filter fun snapshot => snapshot.env == env :=
    mem_filter.mpr ⟨mem, by simpa using named⟩
  have bound := step_currentRevision_le taken ok env
  have order := numbered env
  have inRevisions : snapshot.revision ∈ (after.revisions env).reverse :=
    mem_reverse.mpr (mem_map_of_mem inList)
  rw [order, mem_range'_1] at inRevisions
  have newest : snapshot.revision = after.currentRevision env := by omega
  -- the numbers are distinct, so the newest number is the newest snapshot
  have distinct : (after.revisions env).Nodup := by
    rw [← nodup_reverse, order]
    exact nodup_range'
  rw [ProjectDB.latest, ← head?_filter]
  cases shape : after.snapshots.filter fun snapshot => snapshot.env == env with
  | nil => rw [shape] at inList; cases inList
  | cons first =>
    have head : after.currentRevision env = first.revision := by
      rw [currentRevision_eq_head, ProjectDB.revisions, shape]
      rfl
    rw [ProjectDB.revisions, shape] at distinct
    rw [shape] at inList
    have same := inj_on_of_nodup_map distinct inList (.head _) (newest.trans head)
    rw [head?_cons, same]

end Delivered

structure Resolves (server : Server) (past : List Action) (action : Action)
    (after : ProjectDB) (env : EnvID) (policy : ApprovalPolicy) (live : ApprovalRequest)
    (closure : List PendingChange) : Prop where
  stored : live ∈ (run server past).requests
  environment : live.env = env
  publish : ∃ scopeEnv request now, action = .publish live.requester scopeEnv request now ∧
    request.approvalRequestID = some live.id ∧ now < live.expiresAt
  active : live.state.isActive = true
  policyID : live.policyID = policy.id
  policyVersion : live.policyVersion = policy.version
  reviewed : ReviewedIn server past live closure
  commits : PublishesClosure (run server past) live.requester live.versionIDs closure after

def Sanctioned (server : Server) (past : List Action) (action : Action)
    (after : ProjectDB) (env : EnvID) (policy : ApprovalPolicy) : Prop :=
  ∃ live closure, Resolves server past action after env policy live closure ∧
    (({ live with state := .merged } ∈ after.requests ∧
        (∀ vote ∈ (run server past).votes, vote.requestID = live.id → vote.decision ≠ .reject) ∧
        Quorum (run server past) policy live) ∨
      ({ live with state := .bypassed } ∈ after.requests ∧ live.requester ∈ policy.bypassers))

def EveryRevisionSanctioned (server : Server) (history : List Action) : Prop :=
  ∀ past action after, past ++ [action] <+: history →
    step server (run server past) action = some after →
    ∀ env policy, coveringPolicy (run server past) env = some policy →
      ∀ snapshot ∈ after.snapshots, snapshot.env = env →
        (run server past).currentRevision env < snapshot.revision →
        ∀ keyID ∈ (run server past).keyIDs, keyID ∈ after.keyIDs →
          snapshot.value? keyID ≠ (((run server past).latest env).bind fun before =>
            before.value? keyID) →
          Sanctioned server past action after env policy

/-- The two writes without a gate address no covered environment. -/
def AvoidsCovered (db : ProjectDB) : Action → Prop
  | .declare _ envs _ _ => ∀ env ∈ envs, coveringPolicy db env = none
  | .createEnvironment _ (some _) => coveringPolicy db db.nextID = none
  | _ => True

instance decidableAvoidsCovered (db : ProjectDB) (action : Action) :
    Decidable (AvoidsCovered db action) := by
  unfold AvoidsCovered
  split <;> infer_instance

section Gate
variable {db after : ProjectDB} {policy : ApprovalPolicy}

theorem schemaChange_cell? {changed : ProjectDB} {change : SchemaChange} (ok : WellFormed db)
    (changes : changeSchema server db change = .ok (some changed))
    (listed : env ∈ changed.environmentIDs) (before : keyID ∈ db.keyIDs)
    (declared : keyID ∈ changed.keyIDs) :
    changed.cell? env keyID = db.cell? env keyID := by
  have keeps := CatalogueWrites.keeps (changeSchema_writes changes)
  by_cases old : env < db.nextID
  · exact keeps.cells env listed old keyID declared (ok.catalogue.keys keyID before)
  -- a new environment has no cell before or after
  have none : ∀ entry ∈ db.entries, ¬ (entry.env = env ∧ entry.keyID = keyID) := by
    intro entry mem named
    have known := (ok.rows.entries entry mem).environment
    rw [named.1] at known
    exact old (ok.catalogue.environments env known)
  rw [ProjectDB.cell?_eq_none.mpr none, ProjectDB.cell?_eq_none]
  exact fun entry mem => none entry (keeps.entries entry mem)

/-- The only operation that moves a cell of a covered environment is a planned
publish of that environment. -/
theorem covered_cell_moves (ok : WellFormed db) (avoids : AvoidsCovered db action)
    (taken : step server db action = some after) (covered : coveringPolicy db env = some policy)
    (listed : env ∈ after.environmentIDs) (before : keyID ∈ db.keyIDs)
    (declared : keyID ∈ after.keyIDs) (moves : after.cell? env keyID ≠ db.cell? env keyID) :
    ∃ caller scopeEnv request now ids index selection closed resolved outcome,
      action = .publish caller scopeEnv request now ∧ env ∈ selectionEnvs selection ∧
      planSelection db caller ids = .ok (index, selection, closed) ∧
      PublishGate db caller scopeEnv request now selection ids resolved ∧
      commitPublish server db index caller selection closed request.confirmedProtected resolved =
        .ok (after, outcome) := by
  have uncovered {envs : List EnvID} (free : ∀ env ∈ envs, coveringPolicy db env = none) :
      env ∉ envs :=
    fun inList => by cases covered.symm.trans (free env inList)
  cases step_effect ok taken with
  | quiet same =>
    refine absurd ?_ moves
    rw [ProjectDB.cell?, same.entries]
    rfl
  | drafted drafts =>
    refine absurd ?_ moves
    rw [drafts.frame]
    rfl
  | opened | collected => exact absurd rfl moves
  | removed =>
      exact absurd (cell?_removeEnvironment_of_ne (ne_of_mem_removeEnvironment listed).1 keyID)
        moves
  | written _ advance gate =>
    rcases gate with free | ⟨caller, _, _, rfl⟩
    · exact absurd (advance.elsewhere env (uncovered free) keyID) moves
    · exact absurd (advance.elsewhere env (uncovered avoids) keyID) moves
  | @created _ clone _ advance plain =>
    cases clone with
    | none => exact absurd (plain rfl env keyID) moves
    | some =>
      have free : ∀ env ∈ [db.nextID], coveringPolicy db env = none := by
        intro _ isNew
        rw [mem_singleton.mp isNew]
        exact avoids
      exact absurd (advance.elsewhere env (uncovered free) keyID) moves
  | changed changes advance cells =>
    refine absurd ((cells env keyID).trans (schemaChange_cell? ok changes ?_ before ?_)) moves
    · rwa [ProjectDB.environmentIDs, advance.environments] at listed
    · rwa [ProjectDB.keyIDs, advance.keys] at declared
  | planned selects gate commits advance =>
    refine ⟨_, _, _, _, _, _, _, _, _, _, rfl, ?_, selects, gate, commits⟩
    by_contra outside
    exact moves (advance.elsewhere env outside keyID)

theorem step_sanctioned {past : List Action} (avoids : AvoidsCovered (run server past) action)
    (taken : step server (run server past) action = some after)
    (covered : coveringPolicy (run server past) env = some policy)
    (listed : env ∈ after.environmentIDs) (before : keyID ∈ (run server past).keyIDs)
    (declared : keyID ∈ after.keyIDs)
    (moves : after.value? env keyID ≠ (run server past).value? env keyID) :
    Sanctioned server past action after env policy := by
  have ok : WellFormed (run server past) := run_wellFormed past
  have cellMoves : after.cell? env keyID ≠ (run server past).cell? env keyID := fun same =>
    moves (congrArg (Option.map ValueEntry.value) same)
  obtain ⟨caller, scopeEnv, request, now, ids, index, selection, closed, resolved, outcome,
      rfl, inSelection,
    selects, gate, commits⟩ := covered_cell_moves ok avoids taken covered listed before
      declared cellMoves
  cases gate with
  | uncovered free => cases covered.symm.trans (free env inSelection)
  | @approved live bypass env' policy' stored named approves =>
    have sameEnv : env = env' := by
      rw [approves.single] at inSelection
      exact mem_singleton.mp inSelection
    subst sameEnv
    obtain rfl : policy = policy' := Option.some.inj (covered.symm.trans approves.covered)
    have bound := approves.bound
    have proposer := bound.proposer
    subst proposer
    refine ⟨live, selection, ⟨stored, bound.environment,
      ⟨scopeEnv, request, now, rfl, named, bound.unexpired⟩,
      bound.active, bound.policyID.symm, bound.policyVersion.symm,
      approves_reviewed stored approves selects,
      commitPublish_publishes selects ok commits⟩, ?_⟩
    have left := commitPublish_resolves selects ok stored commits
    cases bypass with
    | false =>
      exact .inl ⟨left, no_rejection ok stored bound.active,
        quorum_of_count ok (approves.quorum rfl)⟩
    | true => exact .inr ⟨left, approves.named rfl⟩

/-- Where declares and clones address no covered environment, each revision of one that changes a
value was merged or bypassed. -/
theorem run_everyRevisionSanctioned (history : List Action)
    (avoids : AllowedFrom (step server) AvoidsCovered .empty history) :
    EveryRevisionSanctioned server history := by
  intro past action after reached taken env _ covered snapshot mem named newer _ before
    declared differs
  have here : AvoidsCovered (run server past) action := by
    obtain ⟨_, rfl⟩ := reached
    rw [append_assoc] at avoids
    exact (allowedFrom_append.mp avoids).2.1
  have ok : WellFormed (run server past) := run_wellFormed past
  have okAfter : WellFormed after := step_wellFormed ok taken
  have mirrored : Mirrored (run server past) := run_mirrored past
  have latest :=
    committed_latest ok (step_numbered ok (run_numbered past) taken) taken mem named newer
  have listed : env ∈ after.environmentIDs :=
    named ▸ (okAfter.rows.snapshots snapshot mem).environment
  refine step_sanctioned here taken covered listed before declared fun same => differs ?_
  rw [delivered_eq_value? ok mirrored before, ← same,
    ← delivered_eq_value? okAfter (step_mirrored taken ok mirrored) declared, latest]
  rfl

end Gate

def coveredProject : List Action :=
  [.createEnvironment 7 none,
    .schema 7 (.createKey ⟨"DB_URL", .config, "string", ⟨.none, .none⟩, none⟩),
    .createPolicy ⟨some 1, 1, false, 60, true, [.principal 8], []⟩]

def mergedHistory : List Action :=
  coveredProject ++ [.stage 7 1 "DB_URL" (some "a"), .publish 7 1 ⟨[4], none, [], none, none⟩ 0,
    .administer ⟨[], [], [], [(8, 1)], [], []⟩, .vote 8 1 5 .approve 1,
    .publish 7 1 ⟨[], none, [], some 5, none⟩ 2]

set_option maxRecDepth 10000 in
theorem mergedHistory_sanctioned :
    (run .lenient mergedHistory).value? 1 2 = some "a" ∧
    EveryRevisionSanctioned .lenient mergedHistory :=
  ⟨by decide, run_everyRevisionSanctioned mergedHistory (by decide)⟩

/-- The same key, declared into the covered environment by a principal nobody reviews. -/
def declaredHistory : List Action := coveredProject ++ [.declare 7 [1] "DB_URL" "v"]

set_option maxRecDepth 10000 in
theorem declaredHistory_not_sanctioned : ¬ EveryRevisionSanctioned .lenient declaredHistory := by
  intro every
  obtain ⟨snapshot, mem, named, newer, differs⟩ :
      ∃ snapshot ∈ (run .lenient declaredHistory).snapshots,
      snapshot.env = 1 ∧ (run .lenient coveredProject).currentRevision 1 < snapshot.revision ∧
      snapshot.value? 2 ≠ (((run .lenient coveredProject).latest 1).bind fun before =>
        before.value? 2) := by
    decide
  obtain ⟨_, _, resolves, -⟩ := every coveredProject (.declare 7 [1] "DB_URL" "v")
    (run .lenient declaredHistory) (prefix_refl _) (by decide) 1
    ⟨3, some 1, 1, false, 60, true, 1, [.principal 8], []⟩ (by decide) snapshot mem named
      newer 2 (by decide)
    (by decide) differs
  obtain ⟨_, _, _, publishes, -⟩ := resolves.publish
  cases publishes

end Hikyo.Project
