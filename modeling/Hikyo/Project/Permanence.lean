import Hikyo.Project.Gate
import Hikyo.Project.Plaintexts

/-!
# What later operations leave alone

What later operations leave alone, between any two points of a history (`run_preserves`).
`revisions_are_permanent`: committed revisions keep their number and content, apart from a collected
payload.  `latest_delivers_published`: the latest revision is the published state.
`decided_requests_stay_decided`: an approval request that is decided stays so and gets no further
vote.
-/

namespace Hikyo.Project

open Hikyo.Lib Relation List

variable {db mid after : ProjectDB} {server : Server} {action : Action} {snapshot : Snapshot}
  {id : RequestID}

def Snapshot.collected (snapshot : Snapshot) : Snapshot :=
  { snapshot with payloadPresent := false, entries := [] }

/-- No request of this id can be voted on, now or later. -/
def ProjectDB.Closed (db : ProjectDB) (id : RequestID) : Prop :=
  id < db.nextID ∧ ∀ request ∈ db.requests, request.id = id → request.state.isActive = false

/-- What every later state shares with an earlier one; a removed environment takes its revisions
along. -/
structure Preserves (db after : ProjectDB) : Prop where
  nextID : db.nextID ≤ after.nextID
  environments : ∀ env ∈ after.environmentIDs, env < db.nextID → env ∈ db.environmentIDs
  snapshots : ∀ snapshot ∈ db.snapshots, snapshot.env < db.nextID →
    snapshot.env ∈ after.environmentIDs →
    snapshot ∈ after.snapshots ∨ snapshot.collected ∈ after.snapshots
  closed : ∀ id, db.Closed id → after.Closed id
  votes : ∀ id, db.Closed id → ∀ vote ∈ after.votes, vote.requestID = id → vote ∈ db.votes

theorem Preserves.refl (db : ProjectDB) : Preserves db db :=
  ⟨le_rfl, fun _ mem _ => mem, fun _ mem _ _ => .inl mem, fun _ closed => closed,
    fun _ _ _ mem _ => mem⟩

theorem Preserves.trans (first : Preserves db mid) (second : Preserves mid after) :
    Preserves db after where
  nextID := first.nextID.trans second.nextID
  environments env mem old :=
    first.environments env (second.environments env mem (old.trans_le first.nextID)) old
  snapshots snapshot mem old there := by
    have older := old.trans_le first.nextID
    rcases first.snapshots snapshot mem old (second.environments _ there older) with kept | stripped
    · exact second.snapshots snapshot kept older there
    · exact .inr ((second.snapshots _ stripped older there).elim id id)
  closed id before := second.closed id (first.closed id before)
  votes id before vote mem same := by
    have kept := second.votes id (first.closed id before) vote mem same
    exact first.votes id before vote kept same

theorem DataWrite.snapshots (write : DataWrite server db after) (mem : snapshot ∈ db.snapshots) :
    snapshot ∈ after.snapshots ∨ snapshot.collected ∈ after.snapshots := by
  cases write with
  | commit => exact .inl (mem_cons_of_mem _ mem)
  | @collect env revision =>
    by_cases hit : (snapshot.env == env && snapshot.revision == revision) = true
    · exact .inr (mem_updateWhere.mpr (.inl ⟨snapshot, mem, hit, rfl⟩))
    · exact .inl (mem_updateWhere.mpr (.inr ⟨mem, by simpa using hit⟩))
  | castVote state => cases state <;> exact .inl mem
  | put | clear | stage | discard | protect | policies | administer | openRequest | resolve
  | expire => exact .inl mem

theorem inactive_updateWhere {requests : List ApprovalRequest} {selected : ApprovalRequest → Bool}
    {change : ApprovalRequest → ApprovalRequest}
    (inactive : ∀ request ∈ requests, request.id = id → request.state.isActive = false)
    (ends : ∀ request, selected request = true → (change request).id = id →
      (change request).state.isActive = false) :
    ∀ request ∈ updateWhere selected change requests, request.id = id →
      request.state.isActive = false := by
  intro request mem same
  rcases mem_updateWhere.mp mem with ⟨old, -, hit, rfl⟩ | ⟨mem, -⟩
  · exact ends old hit same
  · exact inactive request mem same

theorem DataWrite.closed (write : DataWrite server db after) (closed : db.Closed id) :
    after.Closed id ∧ ∀ vote ∈ after.votes, vote.requestID = id → vote ∈ db.votes := by
  obtain ⟨old, inactive⟩ := closed
  have older := old.trans_le write.catalogue.2.2
  cases write with
  | openRequest fresh =>
    refine ⟨⟨older, fun request mem same => ?_⟩, fun _ mem _ => mem⟩
    rcases mem_cons.mp mem with rfl | mem
    · exact absurd (fresh.symm.trans same) old.ne'
    · exact inactive request mem same
  | resolve ended => exact ⟨⟨older, inactive_updateWhere inactive fun _ _ _ => ended⟩,
      fun _ mem _ => mem⟩
  | expire => exact ⟨⟨older, inactive_updateWhere inactive fun _ _ _ => rfl⟩, fun _ mem _ => mem⟩
  | @castVote _ request _ state _ stored _ active =>
    have other : request.id ≠ id := fun same => by simp [inactive request stored same] at active
    have ballots : ∀ (ballot vote : ApprovalVote), ballot.requestID = request.id →
        vote ∈ ballot :: db.votes →
        vote.requestID = id → vote ∈ db.votes := by
      intro ballot vote cast mem same
      rcases mem_cons.mp mem with rfl | mem
      · exact absurd (cast.symm.trans same) other
      · exact mem
    cases state with
    | none => exact ⟨⟨older, inactive⟩, fun vote => ballots _ vote rfl⟩
    | some state =>
      refine ⟨⟨older, inactive_updateWhere inactive fun row hit same => ?_⟩,
        fun vote => ballots _ vote rfl⟩
      simp only [Bool.and_eq_true, beq_iff_eq] at hit
      exact absurd (hit.1.symm.trans same) other
  | put | clear | commit | stage | discard | collect | protect | policies | administer =>
    exact ⟨⟨older, inactive⟩, fun _ mem _ => mem⟩

theorem DataWrite.preserves (write : DataWrite server db after) : Preserves db after where
  nextID := write.catalogue.2.2
  environments _ mem _ := write.catalogue.2.1 ▸ mem
  snapshots _ mem _ _ := write.snapshots mem
  closed _ closed := (write.closed closed).1
  votes _ closed := (write.closed closed).2

theorem CatalogueWrite.preserves (write : CatalogueWrite db after) : Preserves db after := by
  have keeps := write.keeps
  refine ⟨keeps.nextID, keeps.environments, fun snapshot mem _ there => ?_, fun id closed => ?_,
    fun _ _ vote mem _ => ?_⟩
  · cases write with
    | removeEnvironment =>
      obtain ⟨row, kept, same⟩ := mem_map.mp there
      exact .inl (mem_filter.mpr ⟨mem, same ▸ (mem_filter.mp kept).2⟩)
    | insertKey | editKeys | renameKey | removeKey | insertEnvironment | editParameters
    | setGroups => exact .inl mem
  · exact ⟨closed.1.trans_le keeps.nextID,
      fun request mem => closed.2 request (keeps.requests request mem)⟩
  · cases write with
    | removeEnvironment => exact (mem_filter.mp mem).1
    | insertKey | editKeys | renameKey | removeKey | insertEnvironment | editParameters
    | setGroups => exact mem

theorem preserves_of_writes {write : ProjectDB → ProjectDB → Prop}
    (each : ∀ {db after}, write db after → Preserves db after)
    (writes : ReflTransGen write db after) : Preserves db after := by
  induction writes with
  | refl => exact .refl db
  | tail _ last ih => exact ih.trans (each last)

theorem step_preserves (ok : WellFormed db) (taken : step server db action = some after) :
    Preserves db after := by
  obtain ⟨mid, catalogue, -, data⟩ := ok.writes taken
  refine Preserves.trans ?_ (preserves_of_writes DataWrite.preserves data)
  rcases catalogue with rfl | ⟨_, writes, rfl⟩
  · exact .refl mid
  · have changed := preserves_of_writes CatalogueWrite.preserves writes
    exact ⟨changed.nextID, changed.environments, changed.snapshots, changed.closed, changed.votes⟩

theorem run_preserves (past more : List Action) :
    Preserves (run server past) (run server (past ++ more)) :=
  runFrom_prefix (step server) .empty Preserves .refl (fun _ _ _ => Preserves.trans) WellFormed
    empty_wellFormed
    (fun _ _ _ ok taken => ⟨step_wellFormed ok taken, step_preserves ok taken⟩)
    (prefix_append past more)

theorem atRevision_eq_some (numbered : Numbered db) (mem : snapshot ∈ db.snapshots) :
    db.atRevision snapshot.env snapshot.revision = some snapshot := by
  unfold ProjectDB.atRevision
  cases found : db.snapshots.find? fun other => other.env == snapshot.env &&
    other.revision == snapshot.revision with
  | none => exact absurd (by simp) (find?_eq_none.mp found snapshot mem)
  | some other =>
    have same := find?_some found
    simp only [Bool.and_eq_true, beq_iff_eq] at same
    rw [numbered.snapshot_unique (mem_of_find?_eq_some found) mem same.1 same.2]

/-- A committed revision keeps its number and its content; only its payload may be collected, and
only once a newer revision stands.  No value entry ever shows two texts. -/
theorem revisions_are_permanent (server : Server) (past more : List Action) :
    (∀ snapshot ∈ (run server past).snapshots, snapshot.env ∈
      (run server (past ++ more)).environmentIDs →
      (run server (past ++ more)).atRevision snapshot.env snapshot.revision = some snapshot ∨
      (run server (past ++ more)).atRevision snapshot.env snapshot.revision =
        some snapshot.collected ∧
        snapshot.revision < (run server (past ++ more)).currentRevision snapshot.env) ∧
    Agree (run server past) (run server (past ++ more)) := by
  refine ⟨fun snapshot stored there => ?_, run_agree_later (prefix_append past more)⟩
  have ok : WellFormed (run server past) := run_wellFormed past
  have numbered : Numbered (run server (past ++ more)) := run_numbered _
  have old := ok.catalogue.environments _ (ok.rows.snapshots snapshot stored).environment
  rcases (run_preserves past more).snapshots snapshot stored old there with kept | stripped
  · exact .inl (atRevision_eq_some numbered kept)
  · refine .inr ⟨atRevision_eq_some numbered stripped,
      Nat.lt_of_le_of_ne (numbered.revision_bounds stripped).2 fun newest => ?_⟩
    obtain ⟨latest, found, present, -⟩ := run_mirrored (past ++ more) _ there
    have current : snapshot.revision = latest.revision := by
      rw [newest, ProjectDB.currentRevision, found]
    have sameEnv : latest.env = snapshot.env := by simpa using find?_some found
    have same := numbered.snapshot_unique stripped (mem_of_find?_eq_some found) sameEnv.symm current
    rw [← same] at present
    cases present

/-- Between operations an environment's latest revision is its published values under the current
catalogue. -/
theorem latest_delivers_published (server : Server) (history : List Action) (env : EnvID) :
    (env ∈ (run server history).environmentIDs → ∃ snapshot, (run server history).latest env =
      some snapshot ∧
      snapshot.payloadPresent = true ∧ snapshot.entries = (run server history).render env) ∧
    ∀ keyID ∈ (run server history).keyIDs, (((run server history).latest env).bind fun snapshot =>
      snapshot.value? keyID) = (run server history).value? env keyID := by
  have mirrored : Mirrored (run server history) := run_mirrored history
  exact ⟨mirrored env, fun _ declared =>
    delivered_eq_value? (run_wellFormed history) mirrored declared⟩

/-- A decided approval request is never open again and gets no further vote; nobody votes twice on
one request, and a single rejection closes it. -/
theorem decided_requests_stay_decided (server : Server) (past more : List Action) :
    (∀ request ∈ (run server past).requests, request.state.isActive = false →
      (∀ later ∈ (run server (past ++ more)).requests, later.id = request.id →
        later.state.isActive = false) ∧
      ∀ vote ∈ (run server (past ++ more)).votes, vote.requestID = request.id →
        vote ∈ (run server past).votes) ∧
    ((run server past).votes.map fun vote => (vote.requestID, vote.principal)).Nodup ∧
    ∀ vote ∈ (run server past).votes, vote.decision = .reject →
      ∀ later ∈ (run server (past ++ more)).requests,
      later.id = vote.requestID → later.state.isActive = false := by
  have ok : ApprovalsOK (run server past) := (run_wellFormed past).approvals
  have keeps : Preserves (run server past) (run server (past ++ more)) := run_preserves past more
  refine ⟨fun request mem decided => ?_, ok.ballots, fun vote cast rejects => ?_⟩
  · have closed : (run server past).Closed request.id := by
      refine ⟨ok.requests request mem, fun other stored same => ?_⟩
      rwa [inj_on_of_nodup_map ok.requestIDs stored mem same]
    exact ⟨(keeps.closed _ closed).2, keeps.votes _ closed⟩
  · exact (keeps.closed _ ⟨ok.votes vote cast, ok.rejected vote cast rejects⟩).2

end Hikyo.Project
