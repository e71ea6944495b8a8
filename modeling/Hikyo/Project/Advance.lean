import Hikyo.Project.Invariant

/-!
# Publishing a list of environments

What the publishing loops of the services do to published cells and latest snapshots.  An `Advance`
moves some environments on, each to a snapshot that renders its cells (`MirroredAt`), and leaves the
others alone; `fanOut_advance`, `writeAndPublish_advance` and `publishEnvironments_advance` are the
three loops.
-/

namespace Hikyo.Project

open Hikyo.Lib List

variable {env : EnvID} {envs : List EnvID} {caller : PrincipalID} {after db : ProjectDB}
  {snapshot : Snapshot} {trigger : Trigger}

def MirroredAt (db : ProjectDB) (env : EnvID) : Prop :=
  ∃ snapshot, db.latest env = some snapshot ∧ snapshot.payloadPresent = true ∧
    snapshot.entries = db.render env

def Mirrored (db : ProjectDB) : Prop := ∀ env ∈ db.environmentIDs, MirroredAt db env

section Frames
theorem latest_congr (snapshots : after.snapshots = db.snapshots) :
    after.latest env = db.latest env := by
  rw [ProjectDB.latest, snapshots]
  rfl

theorem currentRevision_congr (latest : after.latest env = db.latest env) :
    after.currentRevision env = db.currentRevision env := by
  rw [ProjectDB.currentRevision, latest]
  rfl

theorem MirroredAt.congr (mirrored : MirroredAt db env) (latest : after.latest env = db.latest env)
    (render : after.render env = db.render env) : MirroredAt after env := by
  obtain ⟨snapshot, found, present, same⟩ := mirrored
  exact ⟨snapshot, latest.trans found, present, same.trans render.symm⟩

theorem MirroredAt.frame (mirrored : MirroredAt db env) (snapshots : after.snapshots = db.snapshots)
    (keys : after.keys = db.keys) (entries : after.entries = db.entries) :
    MirroredAt after env := by
  refine mirrored.congr (latest_congr snapshots) (render_congr keys fun key _ => ?_)
  rw [ProjectDB.cell?, entries]
  rfl

theorem latest_cons_self (named : snapshot.env = env)
    (committed : after.snapshots = snapshot :: db.snapshots) :
    after.latest env = some snapshot := by
  rw [ProjectDB.latest, committed]
  exact find?_cons_of_pos (by simpa using named)

theorem latest_cons_of_ne (other : snapshot.env ≠ env)
    (committed : after.snapshots = snapshot :: db.snapshots) :
    after.latest env = db.latest env := by
  rw [ProjectDB.latest, committed]
  exact find?_cons_of_neg (by simpa using other)

theorem render_editKeys {edit : CatalogueKey → CatalogueKey}
    (sameID : ∀ key, (edit key).id = key.id) (sameName : ∀ key, (edit key).name = key.name)
    (sameClass : ∀ key, (edit key).classification = key.classification)
    (keys : after.keys = db.keys.map edit)
    (cells : ∀ keyID, after.cell? env keyID = db.cell? env keyID) :
    after.render env = db.render env := by
  have sorted : after.listKeys = db.listKeys.map edit := by
    rw [ProjectDB.listKeys, keys, ProjectDB.listKeys,
      map_insertionSort (fun a b : CatalogueKey => a.name ≤ b.name) (fun a b => a.name ≤ b.name)]
    intro _ _ _ _
    rw [sameName, sameName]
  rw [ProjectDB.render, sorted, filterMap_map]
  refine filterMap_congr fun key _ => ?_
  simp only [Function.comp_apply, sameID, cells]
  congr 1
  funext entry
  simp only [CatalogueKey.entryOf, sameID, sameName, sameClass]

end Frames

/-- Requests may be dropped and may change their state, and no request is new. -/
def Restated (db after : ProjectDB) : Prop :=
  ∀ request ∈ after.requests, ∃ old ∈ db.requests, ∃ state, request = { old with state := state }

theorem restated_of_subset (subset : ∀ request ∈ after.requests, request ∈ db.requests) :
    Restated db after :=
  fun request mem => ⟨request, subset request mem, request.state, rfl⟩

theorem restated_of_eq (same : after.requests = db.requests) : Restated db after :=
  restated_of_subset fun _ mem => same ▸ mem

theorem Restated.trans {a b c : ProjectDB} (first : Restated a b) (second : Restated b c) :
    Restated a c := by
  intro request mem
  obtain ⟨mid, inMid, state, rfl⟩ := second request mem
  obtain ⟨old, stored, _, rfl⟩ := first mid inMid
  exact ⟨old, stored, state, rfl⟩

theorem restated_updateWhere {selected : ApprovalRequest → Bool} {state : RequestState}
    (same : after.requests = updateWhere selected (fun request => { request with state := state })
      db.requests) :
    Restated db after := by
  intro request mem
  rw [same] at mem
  rcases mem_updateWhere.mp mem with ⟨old, stored, -, rfl⟩ | ⟨stored, -⟩
  · exact ⟨old, stored, state, rfl⟩
  · exact ⟨request, stored, request.state, rfl⟩

structure Advance (envs : List EnvID) (db after : ProjectDB) : Prop where
  keys : after.keys = db.keys
  environments : after.environments = db.environments
  policies : after.policies = db.policies
  pending : ∀ change ∈ after.pending, change ∈ db.pending
  requests : Restated db after
  mirrored : ∀ env, env ∈ envs ∨ MirroredAt db env → MirroredAt after env
  revision : ∀ env, after.currentRevision env = db.currentRevision env + envs.count env
  elsewhere : ∀ env, env ∉ envs → ∀ keyID, after.cell? env keyID = db.cell? env keyID
  latest : ∀ env, env ∉ envs → after.latest env = db.latest env

theorem Advance.refl (db : ProjectDB) : Advance [] db db :=
  ⟨rfl, rfl, rfl, fun _ => id, restated_of_eq rfl, fun _ known => known.resolve_left nofun,
    fun _ => rfl, fun _ _ _ => rfl, fun _ _ => rfl⟩

theorem Advance.cons {mid : ProjectDB}
    (first : Advance [env] db mid) (rest : Advance envs mid after) :
    Advance (env :: envs) db after where
  keys := rest.keys.trans first.keys
  environments := rest.environments.trans first.environments
  policies := rest.policies.trans first.policies
  pending change mem := first.pending change (rest.pending change mem)
  requests := first.requests.trans rest.requests
  mirrored other known := by
    by_cases later : other ∈ envs
    · exact rest.mirrored other (.inl later)
    refine rest.mirrored other (.inr (first.mirrored other ?_))
    rcases known with mem | before
    · exact .inl ((mem_cons.mp mem).resolve_right later ▸ mem_singleton_self _)
    · exact .inr before
  revision other := by
    rw [rest.revision, first.revision]
    simp only [count_cons, count_nil]
    omega
  elsewhere other outside keyID := by
    have notFirst : other ∉ [env] := fun here =>
      outside (mem_cons.mpr (.inl (mem_singleton.mp here)))
    rw [rest.elsewhere other (fun later => outside (.tail _ later)),
      first.elsewhere other notFirst]
  latest other outside := by
    have notFirst : other ∉ [env] := fun here =>
      outside (mem_cons.mpr (.inl (mem_singleton.mp here)))
    rw [rest.latest other (fun later => outside (.tail _ later)), first.latest other notFirst]

section Publish
variable {server : Server} {row : Environment} {publisher : PrincipalID}
  {applies : List PendingChange} {published : PublishedEnvironment}
  {list : List PublishedEnvironment} {material : List (CatalogueKey × String)}

theorem Materialized.latest (spec : Materialized server db row publisher applies after published) :
    ∃ contract, after.latest row.id = some ⟨row.id, db.currentRevision row.id + 1,
      db.schemaRevision, contract, publisher, true, after.render row.id⟩ := by
  obtain ⟨contract, committed⟩ := spec.snapshot
  exact ⟨contract, latest_cons_self rfl committed⟩

theorem Materialized.advance (spec : Materialized server db row publisher applies after published) :
    Advance [row.id] db after := by
  obtain ⟨_, found⟩ := spec.latest
  obtain ⟨_, committed⟩ := spec.snapshot
  have elsewhere {env : EnvID} (outside : env ∉ [row.id]) (keyID : KeyID) :
      after.cell? env keyID = db.cell? env keyID :=
    spec.elsewhere env keyID (.inl fun here => outside (mem_singleton.mpr here))
  have latest {env : EnvID} (outside : env ∉ [row.id]) : after.latest env = db.latest env :=
    latest_cons_of_ne (fun here => outside (mem_singleton.mpr here.symm)) committed
  have pending : after.pending = db.pending := by rw [spec.frame]
  refine ⟨spec.keys, spec.environments, by rw [spec.frame], fun change mem => pending ▸ mem,
    restated_of_eq (by rw [spec.frame]), fun env known => ?_, fun env => ?_,
    fun env outside => elsewhere outside, fun env outside => latest outside⟩
  · by_cases here : env ∈ [row.id]
    · obtain rfl := mem_singleton.mp here
      exact ⟨_, found, rfl, rfl⟩
    · refine (known.resolve_left here).congr (latest here) (render_congr spec.keys fun key _ => ?_)
      exact elsewhere here key.id
  by_cases here : env = row.id
  · subst here
    rw [ProjectDB.currentRevision, found]
    simp
  have outside : env ∉ [row.id] := by simpa using here
  rw [currentRevision_congr (latest outside), count_eq_zero_of_not_mem outside]
  rfl

theorem Materialized.cell?_of_nil (spec : Materialized server db row publisher [] after published)
    (env : EnvID) (keyID : KeyID) : after.cell? env keyID = db.cell? env keyID := by
  by_cases here : env = row.id ∧ keyID ∈ db.keyIDs
  · obtain ⟨rfl, declared⟩ := here
    obtain ⟨key, mem, rfl⟩ := mem_map.mp declared
    exact spec.kept key mem rfl
  refine spec.elsewhere env keyID ?_
  by_cases sameEnv : env = row.id
  · exact .inr fun declared => here ⟨sameEnv, declared⟩
  · exact .inl sameEnv

theorem fanOut_advance (run : fanOut server publisher trigger envs db = .ok (after, list)) :
    Advance envs db after ∧ ∀ env keyID, after.cell? env keyID = db.cell? env keyID := by
  induction envs generalizing db list with
  | nil =>
    cases run
    exact ⟨.refl _, fun _ _ => rfl⟩
  | cons env _ ih =>
    obtain ⟨⟨_, _⟩, head, run⟩ := bind_eq_ok.mp run
    obtain ⟨⟨_, _⟩, tail, run⟩ := bind_eq_ok.mp run
    cases run
    obtain ⟨_, -, rfl, spec, -⟩ := republish_spec head
    obtain ⟨advance, same⟩ := ih tail
    refine ⟨spec.advance.cons advance, fun env keyID => ?_⟩
    rw [same, spec.cell?_of_nil]

theorem writeEach_cell? (run : writeEach server row material db = .ok after) {keyID : KeyID}
    (outside : env ≠ row.id ∨ ∀ m ∈ material, m.1.id ≠ keyID) :
    after.cell? env keyID = db.cell? env keyID := by
  induction material generalizing db with
  | nil =>
    cases run
    rfl
  | cons head _ ih =>
    obtain ⟨key, value⟩ := head
    obtain ⟨mid, first, run⟩ := bind_eq_ok.mp run
    obtain ⟨_, -, first⟩ := bind_eq_ok.mp first
    obtain ⟨_, -, first⟩ := bind_eq_ok.mp first
    obtain rfl : db.putValue row.id key.id (normalize value) = mid := Except.ok.inj first
    rw [ih run (outside.imp_right fun other m mem => other m (.tail _ mem))]
    refine db.cell?_putValue_of_ne _ fun here => ?_
    exact outside.elim (fun different => different here.1) fun other =>
      other _ (.head _) here.2.symm

theorem writeAndPublish_advance (declared : ∀ m ∈ material, m.1 ∈ db.keys)
    (run : writeAndPublish server caller trigger material envs db = .ok (after, list)) :
      Advance envs db after ∧
      (∀ env keyID, (∀ m ∈ material, m.1.id ≠ keyID) → after.cell? env keyID = db.cell? env keyID) ∧
      (approvalGatedTrigger trigger = true → ∀ env ∈ envs, coveringPolicy db env = none) := by
  induction envs generalizing db list with
  | nil =>
    cases run
    exact ⟨.refl _, fun _ _ _ => rfl, fun _ _ mem => nomatch mem⟩
  | cons env _ ih =>
    obtain ⟨row, found, run⟩ := bind_eq_ok.mp run
    obtain ⟨mid, first, run⟩ := bind_eq_ok.mp run
    obtain ⟨⟨mid', _⟩, second, run⟩ := bind_eq_ok.mp run
    obtain ⟨⟨_, _⟩, tail, run⟩ := bind_eq_ok.mp run
    cases run
    obtain ⟨mem, rfl⟩ := getEnvironment_eq_ok found
    obtain ⟨-, moves⟩ := writeEach_writes mem
      (fun m known => mem_map_of_mem (declared m known)) first
    obtain ⟨_, _, same, spec, -, gated⟩ := republish_spec second
    have advance := spec.advance
    rw [same] at advance
    -- the cells of this environment moved before its snapshot was taken
    have here : Advance [row.id] db mid' := by
      have cells {env : EnvID} (outside : env ∉ [row.id]) (keyID : KeyID) :
          mid.cell? env keyID = db.cell? env keyID :=
        writeEach_cell? first (.inl fun here => outside (mem_singleton.mpr here))
      refine ⟨advance.keys.trans moves.keys, advance.environments.trans (by rw [moves.frame]),
        advance.policies.trans (by rw [moves.frame]), fun change mem => ?_,
        (restated_of_eq (by rw [moves.frame])).trans advance.requests,
        fun env known => advance.mirrored env ?_,
        fun env => by rw [advance.revision, moves.currentRevision],
        fun env outside keyID => (advance.elsewhere env outside keyID).trans (cells outside keyID),
        fun env outside => (advance.latest env outside).trans (latest_congr moves.snapshots)⟩
      · have kept : mid.pending = db.pending := by rw [moves.frame]
        exact kept ▸ advance.pending change mem
      by_cases inList : env ∈ [row.id]
      · exact .inl inList
      · refine .inr ((known.resolve_left inList).congr (latest_congr moves.snapshots) ?_)
        exact render_congr moves.keys fun key _ => cells inList key.id
    obtain ⟨later, untouched, gatedLater⟩ :=
      ih (fun m known => by rw [here.keys]; exact declared m known) tail
    refine ⟨here.cons later, fun env keyID outside => ?_, fun isGated env inList => ?_⟩
    · rw [untouched env keyID outside, spec.cell?_of_nil, writeEach_cell? first (.inr outside)]
    have samePolicies (db' : ProjectDB) (policies : db'.policies = db.policies) (env : EnvID) :
        coveringPolicy db' env = coveringPolicy db env := by
      rw [coveringPolicy, policies]
      rfl
    rcases mem_cons.mp inList with rfl | inRest
    · rw [← samePolicies mid (by rw [moves.frame])]
      exact gated isGated
    · rw [← samePolicies mid' here.policies]
      exact gatedLater isGated env inRest

theorem publishEnvironments_advance {index : GroupIndex} {selection : List PendingChange}
    (keys : index.keys = db.listKeys)
    (normal : ∀ change ∈ selection, ∀ value, change.value = some value → normalize value = value)
    (run : publishEnvironments server index caller selection envs db = .ok (after, list)) :
    Advance envs db after := by
  induction envs generalizing db list with
  | nil =>
    cases run
    exact .refl _
  | cons env _ ih =>
    obtain ⟨_, _, next, _, _, one, tail, -⟩ := publishEnvironments_cons keys normal run
    have advance := one.materialized.advance
    rw [one.named] at advance
    have first : Advance [env] db next := by
      rw [one.discarded]
      exact ⟨advance.keys, advance.environments, advance.policies,
        fun change mem => advance.pending change (mem_filter.mp mem).1, advance.requests,
        fun env known => (advance.mirrored env known).frame rfl rfl rfl, advance.revision,
        advance.elsewhere, advance.latest⟩
    refine first.cons (ih ?_ tail)
    rw [keys, ProjectDB.listKeys, ProjectDB.listKeys, first.keys]

end Publish

end Hikyo.Project
