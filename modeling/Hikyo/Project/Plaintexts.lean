import Hikyo.Project.Occurrences

/-!
# Occurrences and their plaintexts

An occurrence is written once and shows one plaintext in every table and every later state:
`run_plaintexts` has one assignment of plaintexts to occurrences that explains every snapshot of a
run.  `perform_committed` says that the change token an operation reports for an environment is that
of a snapshot it has committed.
-/

namespace Hikyo.Project

open Hikyo.Lib Hikyo.Delivery Relation List

variable {action : Action} {id : EntryID} {server : Server} {trigger : Trigger}

def Occurs (db : ProjectDB) (id : EntryID) (value : String) : Prop :=
  (∃ entry ∈ db.entries, entry.id = id ∧ entry.value = value) ∨
    ∃ snapshot ∈ db.snapshots, ∃ entry ∈ snapshot.entries, entry.valueEntryID = id ∧
      entry.value = value

def Agree (earlier later : ProjectDB) : Prop :=
  ∀ id value value', Occurs earlier id value → Occurs later id value' → value = value'

section Plaintexts
variable {db after : ProjectDB}

theorem Occurs.of_subset {value : String} (occurs : Occurs after id value)
    (entries : ∀ entry ∈ after.entries, entry ∈ db.entries)
    (snapshots : ∀ snapshot ∈ after.snapshots, ∀ entry ∈ snapshot.entries,
      ∃ old ∈ db.snapshots, entry ∈ old.entries) : Occurs db id value := by
  rcases occurs with ⟨entry, stored, shown⟩ | ⟨snapshot, stored, entry, mem, shown⟩
  · exact .inl ⟨entry, entries entry stored, shown⟩
  · obtain ⟨old, known, before⟩ := snapshots snapshot stored entry mem
    exact .inr ⟨old, known, entry, before, shown⟩

theorem Occurs.lt_nextID {value : String} (occurs : Occurs db id value) (ok : WellFormed db) :
    id < db.nextID := by
  rcases occurs with ⟨entry, stored, rfl, -⟩ | ⟨snapshot, stored, entry, mem, rfl, -⟩
  · exact (ok.rows.entries entry stored).fresh
  · exact ((ok.rows.snapshots snapshot stored).entries entry mem).2.1

theorem DataWrite.occurs (write : DataWrite server db after) :
    ∃ new, ∀ id value, Occurs after id value → Occurs db id value ∨
      (id = db.nextID ∧ value = new) := by
  have old (entries : ∀ entry ∈ after.entries, entry ∈ db.entries)
      (snapshots : ∀ snapshot ∈ after.snapshots, ∀ entry ∈ snapshot.entries,
        ∃ old ∈ db.snapshots, entry ∈ old.entries) :
      ∃ new, ∀ id value, Occurs after id value → Occurs db id value ∨
        (id = db.nextID ∧ value = new) :=
    ⟨"", fun _ _ occurs => .inl (occurs.of_subset entries snapshots)⟩
  have same : ∀ snapshot ∈ db.snapshots, ∀ entry ∈ snapshot.entries, ∃ old ∈ db.snapshots,
      entry ∈ old.entries :=
    fun snapshot stored entry mem => ⟨snapshot, stored, mem⟩
  cases write with
  | @put _ _ value =>
    refine ⟨value, fun id shown occurs => ?_⟩
    rcases occurs with ⟨entry, stored, rfl, rfl⟩ | snapshots
    · rcases mem_cons.mp stored with rfl | kept
      · exact .inr ⟨rfl, rfl⟩
      · exact .inl (.inl ⟨entry, (mem_filter.mp kept).1, rfl, rfl⟩)
    · exact .inl (.inr snapshots)
  | clear => exact old (fun _ mem => (mem_filter.mp mem).1) same
  | @commit _ _ _ cells _ rendered =>
    refine ⟨"", fun id shown occurs => .inl ?_⟩
    rcases occurs with entries | ⟨snapshot, stored, entry, mem, rfl, rfl⟩
    · exact .inl entries
    rcases mem_cons.mp stored with rfl | kept
    · -- what is rendered is what the cells hold
      rw [rendered] at mem
      obtain ⟨_, -, cell, found, rfl⟩ := mem_render.mp mem
      exact .inl ⟨cell, (ProjectDB.cell?_eq_some found).1, rfl, rfl⟩
    · exact .inr ⟨snapshot, kept, entry, mem, rfl, rfl⟩
  | collect =>
    refine old (fun _ => id) fun snapshot mem entry inSnapshot => ?_
    rcases mem_updateWhere.mp mem with ⟨_, -, -, rfl⟩ | ⟨stored, -⟩
    · cases inSnapshot
    · exact ⟨snapshot, stored, inSnapshot⟩
  | castVote state => cases state <;> exact old (fun _ => id) same
  | stage | discard | protect | policies | administer | openRequest | resolve | expire =>
    exact old (fun _ => id) same

/-- What a state shows was shown before or has a new id. -/
def Later (db after : ProjectDB) : Prop :=
  db.nextID ≤ after.nextID ∧ ∀ id value, Occurs after id value → Occurs db id value ∨ db.nextID ≤ id

theorem Later.refl (db : ProjectDB) : Later db db := ⟨le_rfl, fun _ _ occurs => .inl occurs⟩

theorem Later.trans {a b c : ProjectDB} (first : Later a b) (second : Later b c) : Later a c := by
  refine ⟨Nat.le_trans first.1 second.1, fun id value occurs => ?_⟩
  rcases second.2 id value occurs with before | new
  · exact first.2 id value before
  · exact .inr (Nat.le_trans first.1 new)

theorem Later.agree (later : Later db after) (ok : WellFormed db) (agree : Agree db db) :
    Agree db after := by
  intro id value value' before now
  rcases later.2 id value' now with known | new
  · exact agree id value value' before known
  · exact absurd (before.lt_nextID ok) (Nat.not_lt.mpr new)

theorem DataWrite.later (write : DataWrite server db after) (ok : WellFormed db)
    (agree : Agree db db) :
    Later db after ∧ Agree after after := by
  obtain ⟨_, shown⟩ := write.occurs
  have later : Later db after := by
    refine ⟨write.catalogue.2.2, fun id value occurs =>
      (shown id value occurs).imp_right fun fresh => ?_⟩
    exact Nat.le_of_eq fresh.1.symm
  refine ⟨later, fun id value value' occurs occurs' => ?_⟩
  rcases shown id value occurs with known | ⟨rfl, rfl⟩
  · exact later.agree ok agree id value value' known occurs'
  rcases shown _ value' occurs' with known | ⟨-, rfl⟩
  · exact absurd (known.lt_nextID ok) (Nat.lt_irrefl _)
  · rfl

theorem DataWrites.later (writes : DataWrites server db after) (ok : WellFormed db)
    (agree : Agree db db) :
    Later db after ∧ Agree after after := by
  induction writes with
  | refl => exact ⟨.refl _, agree⟩
  | tail before write ih =>
    obtain ⟨later, agreeMid⟩ := ih
    obtain ⟨last, agreeAfter⟩ := write.later (DataWrites.wellFormed before ok) agreeMid
    exact ⟨later.trans last, agreeAfter⟩

theorem CatalogueStep.nextID (step : CatalogueStep db after) : db.nextID ≤ after.nextID := by
  rcases step with rfl | ⟨_, writes, rfl⟩
  · exact le_rfl
  induction writes with
  | refl => exact le_rfl
  | tail _ write ih =>
    refine Nat.le_trans ih ?_
    cases write with
    | insertKey | insertEnvironment => exact Nat.le_succ _
    | setGroups later => exact later
    | editKeys | renameKey | removeKey | removeEnvironment | editParameters => exact le_rfl

theorem CatalogueStep.later (step : CatalogueStep db after) (agree : Agree db db) :
    Later db after ∧ Agree after after := by
  have occurs {id : EntryID} {value : String} (shown : Occurs after id value) :
      Occurs db id value :=
    shown.of_subset (fun _ mem => step.entries_sublist.subset mem)
      fun snapshot stored entry mem => ⟨snapshot, step.snapshots snapshot stored, mem⟩
  exact ⟨⟨step.nextID, fun _ _ shown => .inl (occurs shown)⟩,
    fun id value value' shown shown' => agree id value value' (occurs shown) (occurs shown')⟩

theorem step_later (ok : WellFormed db) (agree : Agree db db)
    (taken : step server db action = some after) : Later db after ∧ Agree after after := by
  obtain ⟨_, catalogue, okMid, data⟩ := ok.writes taken
  obtain ⟨first, agreeMid⟩ := catalogue.later agree
  obtain ⟨last, agreeAfter⟩ := data.later okMid agreeMid
  exact ⟨first.trans last, agreeAfter⟩

theorem run_agree_later {past history : List Action} (earlier : past <+: history) :
    Agree (run server past) (run server history) := by
  have kept (s : ProjectDB) (action : Action) (s' : ProjectDB) (holds : WellFormed s ∧ Agree s s)
      (taken : step server s action = some s') : (WellFormed s' ∧ Agree s' s') ∧ Later s s' := by
    obtain ⟨later, agree⟩ := step_later holds.1 holds.2 taken
    exact ⟨⟨step_wellFormed holds.1 taken, agree⟩, later⟩
  have start : WellFormed .empty ∧ Agree .empty .empty := by
    refine ⟨empty_wellFormed, fun id value value' occurs => ?_⟩
    rcases occurs with ⟨_, mem, -⟩ | ⟨_, mem, -⟩ <;> cases mem
  have later : Later (run server past) (run server history) :=
    runFrom_prefix (step server) .empty Later Later.refl (fun _ _ _ => Later.trans)
      (fun db => WellFormed db ∧ Agree db db) start kept earlier
  have reached : WellFormed (run server past) ∧ Agree (run server past) (run server past) :=
    runFrom_invariant (step server) (fun db => WellFormed db ∧ Agree db db)
      (fun s action s' holds taken => (kept s action s' holds taken).1) past .empty start
  exact later.agree reached.1 reached.2

/-- One assignment of plaintexts to occurrences explains every snapshot of a run. -/
theorem run_plaintexts (server : Server) (history : List Action) :
    ∃ plaintext : EntryID → String, ∀ n, ∀ snapshot ∈ (run server (history.take n)).snapshots,
      ∀ entry ∈ snapshot.entries, entry.value = plaintext entry.valueEntryID := by
  classical
  let shown (id : EntryID) (value : String) := ∃ n, Occurs (run server (history.take n)) id value
  have unique {id : EntryID} {value value' : String} (first : shown id value)
      (second : shown id value') :
      value = value' := by
    obtain ⟨n, first⟩ := first
    obtain ⟨n', second⟩ := second
    rcases Nat.le_total n n' with before | before
    · exact run_agree_later (take_prefix_take_left before) id value value' first second
    · exact (run_agree_later (take_prefix_take_left before) id value' value second first).symm
  refine ⟨fun id => if known : ∃ value, shown id value then known.choose else "",
    fun n snapshot stored entry mem => ?_⟩
  have here : shown entry.valueEntryID entry.value :=
    ⟨n, .inr ⟨snapshot, stored, entry, mem, rfl, rfl⟩⟩
  have known : ∃ value, shown entry.valueEntryID value := ⟨_, here⟩
  dsimp only
  rw [dif_pos known]
  exact unique here known.choose_spec

end Plaintexts

def TokenCommitted (server : Server) (db : ProjectDB) (published : PublishedEnvironment) : Prop :=
  ∃ snapshot ∈ db.snapshots, snapshot.env = published.env ∧ snapshot.revision = published.revision ∧
    published.changeToken =
      changeToken server.hash snapshot.env (manifest (snapshot.entries.map SnapshotEntry.toRow))

structure Commits (server : Server) (db after : ProjectDB) (list : List PublishedEnvironment) :
    Prop where
  keeps : ∀ snapshot ∈ db.snapshots, snapshot ∈ after.snapshots
  committed : ∀ published ∈ list, TokenCommitted server after published

section Tokens
variable {db mid after : ProjectDB} {list : List PublishedEnvironment}
  {published : PublishedEnvironment} {publisher : PrincipalID} {envs : List EnvID}
  {caller : PrincipalID} {selection : List PendingChange} {outcome : PublishOutcome}

theorem Commits.nil (keeps : ∀ snapshot ∈ db.snapshots, snapshot ∈ after.snapshots) :
    Commits server db after [] :=
  ⟨keeps, nofun⟩

theorem Commits.cons (first : Commits server db mid [published])
    (rest : Commits server mid after list) : Commits server db after (published :: list) := by
  refine ⟨fun snapshot stored => rest.keeps snapshot (first.keeps snapshot stored),
    fun other mem => ?_⟩
  rcases mem_cons.mp mem with rfl | later
  · obtain ⟨snapshot, stored, facts⟩ := first.committed other (mem_singleton_self _)
    exact ⟨snapshot, rest.keeps snapshot stored, facts⟩
  · exact rest.committed other later

theorem Commits.frame {db' after' : ProjectDB} (commits : Commits server db after list)
    (before : db.snapshots = db'.snapshots) (later : after.snapshots = after'.snapshots) :
    Commits server db' after' list := by
  refine ⟨fun snapshot stored => later ▸ commits.keeps snapshot (before ▸ stored),
    fun published mem => ?_⟩
  obtain ⟨snapshot, stored, facts⟩ := commits.committed published mem
  exact ⟨snapshot, later ▸ stored, facts⟩

theorem Materialized.commits {row : Environment} {applies : List PendingChange}
    (spec : Materialized server db row publisher applies after published) :
    Commits server db after [published] := by
  obtain ⟨_, snapshots⟩ := spec.snapshot
  refine ⟨fun snapshot stored => snapshots ▸ .tail _ stored, fun other mem => ?_⟩
  obtain rfl := mem_singleton.mp mem
  exact ⟨_, snapshots ▸ mem_cons_self, spec.environment.symm, spec.revision.symm, spec.token⟩

theorem fanOut_commits
    (run : fanOut server publisher trigger envs db = .ok (after, list)) :
    Commits server db after list := by
  induction envs generalizing db list with
  | nil =>
    cases run
    exact .nil fun _ stored => stored
  | cons _ _ ih =>
    obtain ⟨⟨_, _⟩, head, run⟩ := bind_eq_ok.mp run
    obtain ⟨⟨_, _⟩, tail, run⟩ := bind_eq_ok.mp run
    cases run
    obtain ⟨_, _, _, spec, _⟩ := republish_spec head
    exact spec.commits.cons (ih tail)

theorem WritesMaterial.commits
    (direct : WritesMaterial server caller trigger envs db after list) :
    Commits server db after list := by
  obtain ⟨_, declared, run⟩ := direct
  induction envs generalizing db list with
  | nil =>
    cases run
    exact .nil fun _ stored => stored
  | cons _ _ ih =>
    obtain ⟨_, found, run⟩ := bind_eq_ok.mp run
    obtain ⟨_, first, run⟩ := bind_eq_ok.mp run
    obtain ⟨⟨mid', _⟩, second, run⟩ := bind_eq_ok.mp run
    obtain ⟨⟨_, _⟩, tail, run⟩ := bind_eq_ok.mp run
    cases run
    obtain ⟨-, moves⟩ := writeEach_writes (getEnvironment_eq_ok found).1
      (fun m known => mem_map_of_mem (declared m known)) first
    obtain ⟨_, _, _, spec, _⟩ := republish_spec second
    have keys : mid'.keys = db.keys := spec.keys.trans moves.keys
    exact (spec.commits.frame moves.snapshots rfl).cons
      (ih (fun m known => keys ▸ declared m known) tail)

theorem publishEnvironments_commits {index : GroupIndex} (keys : index.keys = db.listKeys)
    (normal : ∀ change ∈ selection, ∀ value, change.value = some value → normalize value = value)
    (run : publishEnvironments server index caller selection envs db = .ok (after, list)) :
    Commits server db after list := by
  induction envs generalizing db list with
  | nil =>
    cases run
    exact .nil fun _ stored => stored
  | cons _ _ ih =>
    obtain ⟨_, _, _, _, _, one, tail, rfl⟩ := publishEnvironments_cons keys normal run
    refine (one.materialized.commits.frame rfl (by rw [one.discarded])).cons (ih ?_ tail)
    rw [keys, ProjectDB.listKeys, ProjectDB.listKeys, one.keys]

def PublishOutcome.environments : PublishOutcome → List PublishedEnvironment
  | .published result => result.environments
  | .requestCreated _ | .refused _ => []

def Response.environments : Response → List PublishedEnvironment
  | .publish outcome => outcome.environments
  | .published environments => environments
  | .done | .staged _ | .previewed _ | .voted _ => []

theorem commitPublish_commits {index : GroupIndex}
    {closed : List VersionID} {confirmed : List EnvID} {resolved : Option (ApprovalRequest × Bool)}
    (keys : index.keys = db.listKeys)
    (normal : ∀ change ∈ selection, ∀ value, change.value = some value → normalize value = value)
    (run : commitPublish server db index caller selection closed confirmed resolved =
      .ok (after, outcome)) :
    Commits server db after outcome.environments := by
  obtain ⟨_, _, publishes, rfl, rfl⟩ := commitPublish_spec run
  refine (publishEnvironments_commits keys normal publishes).frame rfl ?_
  cases resolved <;> rfl

theorem publishPlanned_commits {scopeEnv : EnvID} {request : PublishRequest} {now : Time}
    (normal : ∀ change ∈ db.pending, ∀ value, change.value = some value → normalize value = value)
    (run : publishPlanned server db caller scopeEnv request now = .ok (after, outcome)) :
    ∀ published ∈ outcome.environments, TokenCommitted server after published := by
  obtain ⟨_, -, -, planned⟩ := publishPlanned_spec run
  cases planned with
  | stale isLoaded | refused isLoaded | created selects gate => exact nofun
  | plain selects _ commits | resolved _ selects _ commits =>
    exact (commitPublish_commits (planSelection_eq_ok selects).1
      (fun change mem => normal change (planSelection_own selects change mem).1) commits).committed

theorem perform_committed {response : Response} (ok : WellFormed db)
    (run : perform server db action = .ok (after, response)) :
    ∀ published ∈ response.environments, TokenCommitted server after published := by
  cases action with first
    | obtain ⟨⟨_, _⟩, performed, same⟩ := map_eq_ok.mp run
      cases same
    | cases run
  | publish =>
    exact publishPlanned_commits (fun change mem => (ok.rows.pending change mem).normal) performed
  | declare =>
    exact (declare_spec performed).2.commits.committed
  | importValues =>
    rcases importValues_spec performed with ⟨-, rfl⟩ | direct
    · exact nofun
    · exact direct.commits.committed
  | copyValues =>
    obtain ⟨-, -, _, direct⟩ := copyValues_spec performed
    exact direct.commits.committed
  | createEnvironment =>
    exact (createEnvironment_spec performed).1.commits.committed
  | schema =>
    rcases schemaPublish_spec performed with ⟨-, rfl⟩ | ⟨_, -, fans⟩
    · exact nofun
    · exact (fanOut_commits fans).committed
  | _ => exact nofun

end Tokens

end Hikyo.Project
