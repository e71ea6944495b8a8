import Hikyo.Project.Writes

/-!
# Every operation as a catalogue step and data writes

`step_writes`: every operation is a catalogue step (perhaps empty) under at most one new schema
revision, followed by data writes.  It is the one inversion of `step` that the invariants of the
project are proved with; the schema operations are inverted on the way (`changeSchema_spec`).
-/

namespace Hikyo.Project

open Hikyo.Lib Relation List

variable {env : EnvID} {id : GroupID} {keys : List CatalogueKey} {envs : List EnvID}
  {published : List PublishedEnvironment} {caller : PrincipalID} {change : SchemaChange}
  {server : Server}

section Votes
variable {db after : ProjectDB} {requestID : RequestID} {decision : VoteDecision} {now : Time}
  {cause : Option InvalidatedCause}

theorem repeatVote_eq {existing : Option ApprovalVote}
    (run : repeatVote db existing decision = .ok (after, cause)) : after = db := by
  unfold repeatVote at run
  split at run
  · cases run
  obtain ⟨-, run⟩ := require_bind_eq_ok.mp run
  cases run
  rfl

theorem recordVote_writes {request : ApprovalRequest} {policy : ApprovalPolicy}
    (stored : request ∈ db.requests) (inEnvironment : request.env = env)
    (active : request.state.isActive = true)
    (first : ∀ vote ∈ db.votes, ¬ (vote.requestID = request.id ∧ vote.principal = caller)) :
    DataWrites server db (recordVote db caller env request policy decision) := by
  unfold recordVote
  cases decision with
  | reject =>
    exact .single (.castVote (some .rejected) .reject stored inEnvironment active
      first (fun _ => rfl) (.inr (.inr rfl)))
  | approve =>
    dsimp only
    split
    · exact .single (.castVote (some .approved) .approve stored inEnvironment active
        first (fun impossible => by cases impossible) (.inr (.inl rfl)))
    · exact .single (.castVote none .approve stored inEnvironment active
        first (fun impossible => by cases impossible) (.inl rfl))

theorem vote_cases (run : vote db caller env requestID decision now = .ok (after, cause)) :
    after = db ∨ (∃ request cause', after = (invalidateRequest db request cause').1) ∨
      ∃ request policy, request ∈ db.requests ∧ request.env = env ∧ request.state.isActive = true ∧
        (∀ vote ∈ db.votes, ¬ (vote.requestID = request.id ∧ vote.principal = caller)) ∧
        after = recordVote db caller env request policy decision := by
  obtain ⟨request, loads, run⟩ := bind_eq_ok.mp run
  obtain ⟨stored, rfl, inEnvironment⟩ := getRequest_eq_ok loads
  split at run
  · exact .inl (repeatVote_eq run)
  next active =>
  obtain ⟨-, run⟩ := require_bind_eq_ok.mp run
  split at run
  · cases run
    exact .inr (.inl ⟨request, _, rfl⟩)
  next policy _ =>
  split at run
  · cases run
    exact .inr (.inl ⟨request, _, rfl⟩)
  rw [require_bind_eq_ok, require_bind_eq_ok] at run
  obtain ⟨-, -, run⟩ := run
  split at run
  · cases run
    exact .inr (.inl ⟨request, _, rfl⟩)
  · cases run
  · split at run
    · cases run
      exact .inr (.inl ⟨request, _, rfl⟩)
    split at run
    · exact .inl (repeatVote_eq run)
    next none =>
    cases run
    refine .inr (.inr ⟨request, policy, stored, inEnvironment, by simpa using active,
      fun vote mem same => ?_, rfl⟩)
    simpa [same] using find?_eq_none.mp none vote mem

theorem vote_writes (run : vote db caller env requestID decision now = .ok (after, cause)) :
    DataWrites server db after := by
  rcases vote_cases run with rfl | ⟨request, _, rfl⟩ | ⟨request, _, stored, inEnvironment,
      active, first, rfl⟩
  · exact .refl
  · exact .single (.resolve rfl)
  · exact recordVote_writes stored inEnvironment active first

end Votes

inductive Executed (db : ProjectDB) : DefinitionChange → ProjectDB → Prop
  | deleteKey {id : KeyID} : Executed db (.deleteKey id) ((db.clearKey id).removeKey id)
  | deleteGroup {id : GroupID} : Executed db (.deleteGroup id) { db with
      keys := updateWhere (fun key => key.groupID == some id)
        (fun key => { key with groupID := none }) db.keys
      groups := db.groups.filter fun group => !(group == id) }
  | deleteEnvironment {env : EnvID} : Executed db (.deleteEnvironment env)
      { db.removeEnvironment env with keys := db.keys.map (CatalogueKey.withoutRows env) }
  | createEnvironment : Executed db .createEnvironment db.insertEnvironment
  | createGroup : Executed db .createGroup
      { db with groups := db.nextID :: db.groups, nextID := db.nextID + 1 }
  | renameKey {id : KeyID} {name : String} (free : db.nameFree id name = true) :
      Executed db (.renameKey id name) (db.updateKey id fun key => { key with name := name })
  | createKey {spec : KeySpec} {changed : ProjectDB} (inserts : db.insertKey spec = .ok changed) :
      Executed db (.createKey spec) changed
  | updateKey {id : KeyID} {spec : KeySpec} : Executed db (.updateKey id spec)
      (db.updateKey id fun key => { key with
        declaration := spec.declaration
        presence := spec.presence
        classification := spec.classification
        groupID := spec.groupID })

/-- What the semantic changes of the schema write before they publish. -/
inductive Changed (server : Server) (db : ProjectDB) : SchemaChange → ProjectDB → Prop
  | createKey {spec : KeySpec} {changed : ProjectDB} (inserts : db.insertKey spec = .ok changed) :
      Changed server db (.createKey spec) changed
  | renameKey {id : KeyID} {name : String} (free : db.nameFree id name = true) :
      Changed server db (.renameKey id name) (db.updateKey id fun key => { key with name := name })
  | updateDeclaration {id : KeyID} {declaration : String} {presence : PresenceRules} :
      Changed server db (.updateDeclaration id declaration presence) (db.updateKey id fun key =>
        { key with declaration := declaration, presence := presence })
  | reclassifyKey {id : KeyID} {classification : Classification} :
      Changed server db (.reclassifyKey id classification) (db.updateKey id fun key =>
        { key with classification := classification })
  | setKeyGroup {id : KeyID} {group : Option GroupID} :
      Changed server db (.setKeyGroup id group)
        (db.updateKey id fun key => { key with groupID := group })
  | deleteKey {id : KeyID} (unset : ∀ entry ∈ db.entries, entry.keyID ≠ id) :
      Changed server db (.deleteKey id) (db.removeKey id)
  | deleteGroup {id : GroupID} : Changed server db (.deleteGroup id) { db with
      keys := updateWhere (fun key => key.groupID == some id)
        (fun key => { key with groupID := none }) db.keys
      groups := db.groups.filter fun group => !(group == id) }
  | applyDefinitions {changes : List DefinitionChange} {changed : ProjectDB}
      (executes : changes.foldlM (executeChange server) db = .ok changed) :
      Changed server db (.applyDefinitions changes) changed

section Catalogue
variable {db changed : ProjectDB}

theorem deleteGroup_eq_ok {result : Option ProjectDB} (run : deleteGroup db id = .ok result) :
      result = some { db with
      keys := updateWhere (fun key => key.groupID == some id)
        (fun key => { key with groupID := none }) db.keys
      groups := db.groups.filter fun group => !(group == id) } := by
  obtain ⟨_, -, run⟩ := bind_eq_ok.mp run
  exact (Except.ok.inj run).symm

theorem executeChange_spec {change : DefinitionChange}
    (run : executeChange server db change = .ok changed) :
    Executed db change changed := by
  cases change with
  | deleteKey =>
    obtain ⟨key, -, run⟩ := bind_eq_ok.mp run
    cases run
    exact .deleteKey
  | deleteGroup =>
    obtain ⟨_, deleted, run⟩ := bind_eq_ok.mp run
    obtain rfl := deleteGroup_eq_ok deleted
    cases run
    exact .deleteGroup
  | deleteEnvironment =>
    obtain ⟨_, -, run⟩ := bind_eq_ok.mp run
    obtain ⟨-, run⟩ := require_bind_eq_ok.mp run
    cases run
    exact .deleteEnvironment
  | createEnvironment =>
    cases run
    exact .createEnvironment
  | createGroup =>
    cases run
    exact .createGroup
  | renameKey =>
    obtain ⟨key, -, run⟩ := bind_eq_ok.mp run
    obtain ⟨free, run⟩ := require_bind_eq_ok.mp run
    cases run
    exact .renameKey free
  | createKey =>
    rw [executeChange, require_bind_eq_ok, bind_eq_ok] at run
    obtain ⟨-, _, -, run⟩ := run
    exact .createKey run
  | updateKey =>
    obtain ⟨_, -, run⟩ := bind_eq_ok.mp run
    obtain ⟨_, -, run⟩ := bind_eq_ok.mp run
    rw [require_bind_eq_ok, require_bind_eq_ok] at run
    obtain ⟨-, -, run⟩ := run
    cases run
    exact .updateKey

theorem changeSchema_spec (run : changeSchema server db change = .ok (some changed)) :
    Changed server db change changed := by
  cases change with
  | createKey =>
    obtain ⟨_, -, run⟩ := bind_eq_ok.mp run
    rw [require_bind_eq_ok, bind_eq_ok] at run
    obtain ⟨-, _, -, run⟩ := run
    rw [require_bind_eq_ok, bind_eq_ok] at run
    obtain ⟨-, _, -, run⟩ := run
    obtain ⟨_, inserts, same⟩ := map_eq_ok.mp run
    cases same
    exact .createKey inserts
  | renameKey =>
    obtain ⟨_, -, run⟩ := bind_eq_ok.mp run
    obtain ⟨key, -, run⟩ := bind_eq_ok.mp run
    obtain ⟨free, run⟩ := require_bind_eq_ok.mp run
    cases run
    exact .renameKey free
  | updateDeclaration =>
    obtain ⟨key, -, run⟩ := bind_eq_ok.mp run
    rw [require_bind_eq_ok, bind_eq_ok] at run
    obtain ⟨-, _, -, run⟩ := run
    obtain ⟨_, -, run⟩ := bind_eq_ok.mp run
    obtain ⟨_, -, run⟩ := bind_eq_ok.mp run
    split at run
    · cases run
    · cases run
      exact .updateDeclaration
  | reclassifyKey =>
    obtain ⟨key, -, run⟩ := bind_eq_ok.mp run
    rw [require_bind_eq_ok, require_bind_eq_ok] at run
    obtain ⟨-, -, run⟩ := run
    cases run
    exact .reclassifyKey
  | setKeyGroup =>
    obtain ⟨key, -, run⟩ := bind_eq_ok.mp run
    split at run
    · cases run
    obtain ⟨_, -, run⟩ := bind_eq_ok.mp run
    cases run
    exact .setKeyGroup
  | deleteKey =>
    obtain ⟨_, -, run⟩ := bind_eq_ok.mp run
    obtain ⟨unset, run⟩ := require_bind_eq_ok.mp run
    cases run
    exact .deleteKey unset
  | deleteGroup =>
    cases deleteGroup_eq_ok run
    exact .deleteGroup
  | applyDefinitions =>
    rw [changeSchema, executeResolution] at run
    split at run
    · cases run
    obtain ⟨_, executes, run⟩ := bind_eq_ok.mp run
    cases run
    exact .applyDefinitions executes

theorem updateKey_writes {id : KeyID} {edit : CatalogueKey → CatalogueKey}
    (sameID : ∀ key, (edit key).id = key.id) (sameName : ∀ key, (edit key).name = key.name) :
    CatalogueWrite db (db.updateKey id edit) := by
  refine .editKeys _ (fun key => ?_) (fun key => ?_)
  · split
    · exact sameID key
    · rfl
  split
  · exact sameName key
  · rfl

theorem insertKey_writes {spec : KeySpec} (run : db.insertKey spec = .ok changed) :
    CatalogueWrite db changed := by
  obtain ⟨free, run⟩ := require_bind_eq_ok.mp run
  cases run
  exact .insertKey free

theorem dropGroup_writes : ReflTransGen CatalogueWrite db { db with
    keys := updateWhere (fun key => key.groupID == some id)
      (fun key => { key with groupID := none }) db.keys
    groups := db.groups.filter fun group => !(group == id) } := by
  refine .head (.editKeys _ (fun key => ?_) (fun key => ?_)) (.single (.setGroups le_rfl))
  · split <;> rfl
  · split <;> rfl

theorem clearKey_eq_self {id : KeyID} (unset : ∀ entry ∈ db.entries, entry.keyID ≠ id) :
    db.clearKey id = db := by
  have all : (db.entries.filter fun entry => !(entry.keyID == id)) = db.entries :=
    filter_eq_self.mpr fun entry mem => by simpa using unset entry mem
  rw [ProjectDB.clearKey, all]

theorem Executed.writes {change : DefinitionChange} (executed : Executed db change changed) :
    ReflTransGen CatalogueWrite db changed := by
  cases executed with
  | deleteKey => exact .single .removeKey
  | deleteGroup => exact dropGroup_writes
  | @deleteEnvironment env =>
    exact .head (.editKeys (CatalogueKey.withoutRows env) (fun _ => rfl) fun _ => rfl)
      (.single .removeEnvironment)
  | createEnvironment => exact .single .insertEnvironment
  | createGroup => exact .single (.setGroups (Nat.le_succ _))
  | renameKey free => exact .single (.renameKey free)
  | createKey inserts => exact .single (insertKey_writes inserts)
  | updateKey => exact .single (updateKey_writes (fun _ => rfl) fun _ => rfl)

theorem changeSchema_writes
    (run : changeSchema server db change = .ok (some changed)) :
    ReflTransGen CatalogueWrite db changed := by
  cases changeSchema_spec run with
  | createKey inserts => exact .single (insertKey_writes inserts)
  | renameKey free => exact .single (.renameKey free)
  | updateDeclaration | reclassifyKey | setKeyGroup =>
    exact .single (updateKey_writes (fun _ => rfl) fun _ => rfl)
  | @deleteKey id unset =>
    have write : CatalogueWrite db ((db.clearKey id).removeKey id) := .removeKey
    rw [clearKey_eq_self unset] at write
    exact .single write
  | deleteGroup => exact dropGroup_writes
  | applyDefinitions executes =>
    refine foldlM_invariant (fun s => ReflTransGen CatalogueWrite db s) ?_ .refl executes
    exact fun change _ s s' writes first => writes.trans (executeChange_spec first).writes

end Catalogue

section Direct
variable {db after : ProjectDB}

theorem findKeys_mem {names : List String} (run : findKeys db names = .ok keys) :
    ∀ key ∈ keys, key ∈ db.keys := by
  induction names generalizing keys with
  | nil =>
    cases run
    simp
  | cons _ _ ih =>
    obtain ⟨_, found, run⟩ := bind_eq_ok.mp run
    obtain ⟨_, finds, run⟩ := bind_eq_ok.mp run
    cases run
    intro other mem
    rcases mem_cons.mp mem with rfl | inLater
    · exact (findKey_eq_ok found).1
    · exact ih finds other inLater

variable {source : EnvID}

theorem sourceMaterial_mem
    {material : List (CatalogueKey × String)} (run : sourceMaterial db source keys = .ok material) :
    ∀ m ∈ material, m.1 ∈ keys := by
  induction keys generalizing material with
  | nil =>
    cases run
    simp
  | cons _ _ ih =>
    rw [sourceMaterial] at run
    split at run
    · cases run
    obtain ⟨_, reads, run⟩ := bind_eq_ok.mp run
    cases run
    intro m mem
    rcases mem_cons.mp mem with rfl | inLater
    · exact .head _
    · exact .tail _ (ih reads m inLater)

theorem cloneMaterial_mem {copiesSecrets : Bool} :
    ∀ m ∈ cloneMaterial db source copiesSecrets, m.1 ∈ db.keys := by
  have carried (classification : Classification) : ∀ m ∈ db.listKeys.filterMap fun key =>
      if key.classification = classification then
        (db.cell? source key.id).map fun entry => (key, entry.value)
      else none, m.1 ∈ db.keys := by
    intro m mem
    obtain ⟨_, listed, found⟩ := mem_filterMap.mp mem
    split at found
    · obtain ⟨_, -, rfl⟩ := Option.map_eq_some_iff.mp found
      exact mem_listKeys.mp listed
    · cases found
  intro m mem
  rcases mem_append.mp mem with config | secret
  · exact carried .config m config
  split at secret
  · exact carried .secret m secret
  · cases secret

/-- What the direct writes have in common: material of declared keys, written to
the destinations in turn. -/
def WritesMaterial (server : Server) (caller : PrincipalID) (trigger : Trigger) (envs : List EnvID)
    (db after : ProjectDB) (published : List PublishedEnvironment) : Prop :=
  ∃ material : List (CatalogueKey × String), (∀ m ∈ material, m.1 ∈ db.keys) ∧
    writeAndPublish server caller trigger material envs db = .ok (after, published)

theorem WritesMaterial.writes {trigger : Trigger}
    (direct : WritesMaterial server caller trigger envs db after published) :
    DataWrites server db after := by
  obtain ⟨_, declared, run⟩ := direct
  exact writeAndPublish_writes (fun m mem => mem_map_of_mem (declared m mem)) run

theorem declare_spec {keyName value : String}
    (run : declare server db caller envs keyName value = .ok (after, published)) :
    envs.Nodup ∧ WritesMaterial server caller .declare envs db after published := by
  unfold declare at run
  rw [require_bind_eq_ok, require_bind_eq_ok, bind_eq_ok] at run
  obtain ⟨-, distinct, _, found, run⟩ := run
  refine ⟨distinct, _, fun m mem => ?_, run⟩
  rw [mem_singleton.mp mem]
  exact (findKey_eq_ok found).1

theorem importValues_spec {supplied : List (String × String)} {overwrite : List String}
    (run : importValues server db caller env supplied overwrite = .ok (after, published)) :
    (after = db ∧ published = []) ∨ WritesMaterial server caller .importValues
    [env] db after published := by
  unfold importValues at run
  simp only [require_bind_eq_ok] at run
  obtain ⟨-, -, -, -, -, run⟩ := run
  obtain ⟨_, -, run⟩ := bind_eq_ok.mp run
  obtain ⟨_, finds, run⟩ := bind_eq_ok.mp run
  split at run
  · cases run
    exact .inl ⟨rfl, rfl⟩
  refine .inr ⟨_, fun m mem => ?_, run⟩
  obtain ⟨⟨key, _⟩, zipped, chosen⟩ := mem_filterMap.mp mem
  split at chosen
  · cases chosen
  · cases chosen
    exact findKeys_mem finds key (of_mem_zip zipped).1

theorem copyValues_spec {keyNames : List String} {destinations : List EnvID}
    (run : copyValues server db caller source keyNames destinations = .ok (after, published)) :
    destinations.Nodup ∧ (∀ env ∈ destinations, coveringPolicy db env = none) ∧
      ∃ trigger, WritesMaterial server caller trigger destinations db after published := by
  unfold copyValues at run
  simp only [require_bind_eq_ok] at run
  obtain ⟨-, -, -, -, distinct, run⟩ := run
  obtain ⟨_, -, run⟩ := bind_eq_ok.mp run
  obtain ⟨_, finds, run⟩ := bind_eq_ok.mp run
  rw [require_bind_eq_ok, bind_eq_ok] at run
  obtain ⟨uncovered, material, reads, run⟩ := run
  obtain ⟨-, run⟩ := require_bind_eq_ok.mp run
  refine ⟨distinct, fun env mem => ?_, _, _, fun m mem => ?_, run⟩
  · simpa using all_eq_true.mp uncovered env mem
  have known : m ∈ material := by
    rcases mem_append.mp mem with config | secret
    · exact (mem_filter.mp config).1
    · exact (mem_filter.mp secret).1
  exact findKeys_mem finds m.1 (sourceMaterial_mem reads m known)

theorem createEnvironment_spec {clone : Option (EnvID × Bool)}
    (run : createEnvironment server db caller clone = .ok (after, published)) :
    WritesMaterial server caller .environmentCreate
        [db.nextID] db.insertEnvironment.bumpSchemaRevision
        after published ∧ (clone = none →
          writeAndPublish server caller .environmentCreate [] [db.nextID]
        db.insertEnvironment.bumpSchemaRevision = .ok (after, published)) := by
  obtain ⟨-, run⟩ := require_bind_eq_ok.mp run
  cases clone with
  | none => exact ⟨⟨[], by simp, run⟩, fun _ => run⟩
  | some =>
    obtain ⟨_, -, run⟩ := bind_eq_ok.mp run
    rw [require_bind_eq_ok, require_bind_eq_ok] at run
    obtain ⟨-, -, run⟩ := run
    exact ⟨⟨_, cloneMaterial_mem, run⟩, fun impossible => by cases impossible⟩

end Direct

section Step
variable {db after : ProjectDB} {action : Action}

theorem step_eq_some :
    step server db action = some after ↔
      ∃ response, perform server db action = .ok (after, response) := by
  unfold step
  cases perform server db action with
  | error => simp [Except.toOption]
  | ok => simp [Except.toOption, Prod.ext_iff]

theorem answered {α β : Type} {x : Except ServiceError (ProjectDB × α)}
    {f : ProjectDB × α → ProjectDB × β} {response : β} (run : f <$> x = .ok (after, response))
    (keeps : ∀ a, (f a).1 = a.1) :
    ∃ answer, x = .ok (after, answer) := by
  obtain ⟨⟨_, answer⟩, performed, same⟩ := map_eq_ok.mp run
  cases (congrArg Prod.fst same).symm.trans (keeps _)
  exact ⟨answer, performed⟩

theorem of_done {x : Except ServiceError ProjectDB} {response : Response}
    (run : (·, Response.done) <$> x = .ok (after, response)) : x = .ok after := by
  obtain ⟨_, performed, same⟩ := map_eq_ok.mp run
  cases same
  exact performed

theorem schemaPublish_spec
    (run : schemaPublish server caller db (changeSchema server db change) =
      .ok (after, published)) :
    (after = db ∧ published = []) ∨ ∃ changed, changeSchema server db change = .ok (some changed) ∧
      fanOut server caller .schema
        (changed.environments.map Environment.id) changed.bumpSchemaRevision =
        .ok (after, published) := by
  obtain ⟨result, changes, run⟩ := bind_eq_ok.mp run
  cases result with
  | none =>
    cases run
    exact .inl ⟨rfl, rfl⟩
  | some changed => exact .inr ⟨changed, changes, run⟩

/-- Every operation is a catalogue step followed by data writes. -/
theorem step_writes
    (pendingNormal : ∀ change ∈ db.pending, ∀ value, change.value = some value →
      normalize value = value)
    (snapshotsNormal : ∀ snapshot ∈ db.snapshots, ∀ entry ∈ snapshot.entries,
      normalize entry.value = entry.value)
    (taken : step server db action = some after) :
    ∃ mid, CatalogueStep db mid ∧ DataWrites server mid after := by
  obtain ⟨_, run⟩ := step_eq_some.mp taken
  have data (writes : DataWrites server db after) : ∃ mid, CatalogueStep db mid ∧
      DataWrites server mid after :=
    ⟨db, .inl rfl, writes⟩
  have catalogue {changed : ProjectDB} (writes : ReflTransGen CatalogueWrite db changed)
      (same : after = changed.bumpSchemaRevision) : ∃ mid, CatalogueStep db mid ∧
        DataWrites server mid after :=
    ⟨after, .inr ⟨changed, writes, same⟩, .refl⟩
  cases action with first
    | have performed := of_done run
    | obtain ⟨_, performed⟩ := answered run fun _ => rfl
    | cases run
  | stage =>
    exact data (stage_writes performed)
  | restore =>
    obtain ⟨environment, rfl | ⟨target, _, _, located, declared, rfl⟩⟩ := restore_spec performed
    · exact data .refl
    · exact data (restoreEach_writes environment (snapshotsNormal target (atRevision_mem located).1)
        declared)
  | publish =>
    exact data (publishPlanned_writes pendingNormal performed)
  | declare =>
    exact data (declare_spec performed).2.writes
  | importValues =>
    rcases importValues_spec performed with ⟨rfl, -⟩ | direct
    · exact data .refl
    · exact data direct.writes
  | copyValues =>
    obtain ⟨-, -, _, direct⟩ := copyValues_spec performed
    exact data direct.writes
  | createEnvironment =>
    exact ⟨_, .inr ⟨_, .single .insertEnvironment, rfl⟩,
      (createEnvironment_spec performed).1.writes⟩
  | deleteEnvironment env =>
    obtain ⟨row, -, performed⟩ := bind_eq_ok.mp performed
    cases performed
    refine catalogue (.head (.editKeys (CatalogueKey.cascade env) (fun key => ?_) fun key => ?_)
      (.single .removeEnvironment)) rfl
    all_goals
      unfold CatalogueKey.cascade
      split <;> rfl
  | setProtected =>
    obtain ⟨row, -, performed⟩ := bind_eq_ok.mp performed
    cases performed
    exact data (.single .protect)
  | setParameter =>
    rw [setParameter, require_bind_eq_ok, bind_eq_ok] at performed
    obtain ⟨-, _, -, performed⟩ := performed
    obtain ⟨_, -, performed⟩ := bind_eq_ok.mp performed
    cases performed
    exact catalogue (.single .editParameters) rfl
  | createGroup =>
    obtain ⟨-, performed⟩ := require_bind_eq_ok.mp performed
    cases performed
    exact catalogue (.single (.setGroups (Nat.le_succ _))) rfl
  | editMetadata =>
    obtain ⟨_, -, performed⟩ := bind_eq_ok.mp performed
    cases performed
    exact catalogue .refl rfl
  | schema =>
    rcases schemaPublish_spec performed with ⟨rfl, -⟩ | ⟨changed, changes, fans⟩
    · exact data .refl
    · exact ⟨_, .inr ⟨changed, changeSchema_writes changes, rfl⟩, fanOut_writes fans⟩
  | createPolicy =>
    obtain ⟨_, -, performed⟩ := bind_eq_ok.mp performed
    rw [require_bind_eq_ok, require_bind_eq_ok] at performed
    obtain ⟨-, -, performed⟩ := performed
    cases performed
    exact data (.single (.policies (Nat.le_succ _)))
  | updatePolicy =>
    obtain ⟨_, -, performed⟩ := bind_eq_ok.mp performed
    split at performed
    · cases performed
    obtain ⟨-, performed⟩ := require_bind_eq_ok.mp performed
    cases performed
    exact data (.single (.policies le_rfl))
  | deletePolicy =>
    obtain ⟨-, performed⟩ := require_bind_eq_ok.mp performed
    cases performed
    exact data (.single (.policies le_rfl))
  | vote =>
    exact data (vote_writes performed)
  | expireDue =>
    exact data (.single .expire)
  | collectPayload =>
    obtain ⟨older, performed⟩ := require_bind_eq_ok.mp performed
    cases performed
    exact data (.single (.collect older))
  | administer =>
    exact data (.single .administer)

end Step

end Hikyo.Project
