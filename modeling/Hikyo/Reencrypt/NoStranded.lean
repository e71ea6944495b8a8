import Hikyo.KeyHierarchy.Coverage
import Hikyo.Reencrypt.Walk

/-!
# No stranded ciphertext

`run_noStranded`: for every interleaving of writers, key rotations, walks and retirements, each
stored record carries a version of its data encryption key that is active or retiring, so that it
can be opened.  A writer's transaction is fenced on the version it sealed under, and a version
retires only after the paged scan of every table of its scope has found nothing off the active one
(`dryAt_project`, `dryAt_instance`).
-/

namespace Hikyo.Reencrypt

open Hikyo.Lib Hikyo.KeyHierarchy List Function

variable {row : InstanceRow} {shorter : Job} {db : KeyDB} {handle wh : KeyHandle} {cursor : String}
  {result : Tables × Nat} {deks : VersionSet} {walk : Walk}

inductive Stored (tables : Tables) : Scope → Record → Prop
  | project {table : ProjectTable} {row : ProjectRow} {record : Record}
      (mem : row ∈ tables.project table) (present : row.ciphertext = some record) :
      Stored tables row.scope record
  | inst {table : InstanceTable} {row : InstanceRow} (mem : row ∈ tables.inst table) :
      Stored tables instanceScope row.ciphertext

/-- Primary keys, and the version column that most instance tables stamp. -/
structure WellFormed (tables : Tables) : Prop where
  projectIDs : ∀ table, ((tables.project table).map (·.id)).Nodup
  projectNamed : ∀ table, ∀ row ∈ tables.project table, row.id ≠ ""
  instanceIDs : ∀ table, ((tables.inst table).map (·.id)).Nodup
  instanceNamed : ∀ table, ∀ row ∈ tables.inst table, row.id ≠ ""
  stamped : ∀ table, ∀ row ∈ tables.inst table,
    table.versionOf row = recordKeyVersion row.ciphertext

structure Stores (scope : Scope) (version : Nat) (tables tables' : Tables) : Prop where
  records : ∀ sc record, Stored tables' sc record →
    Stored tables sc record ∨ (sc = scope ∧ recordKeyVersion record = version)
  wellFormed : WellFormed tables → WellFormed tables'

variable {scope : Scope} {version : Nat}

theorem Stores.refl (tables : Tables) : Stores scope version tables tables :=
  ⟨fun _ _ stored => .inl stored, id⟩

theorem Stores.trans {a b c : Tables} (first : Stores scope version a b)
    (second : Stores scope version b c) : Stores scope version a c := by
  refine ⟨fun sc record stored => ?_, fun wf => second.wellFormed (first.wellFormed wf)⟩
  rcases second.records sc record stored with earlier | new
  · exact first.records sc record earlier
  · exact .inr new

variable {tables tables' : Tables} {table : InstanceTable} {sc : Scope} {record : Record}
  {sealer : Sealer} {nonce chunkSize active index : Nat} {orgID projectID : String} {u : Unit}
  {s s' : State}

theorem stores_setProject {table : ProjectTable} {rows : List ProjectRow}
    (records : ∀ row ∈ rows, ∀ record, row.ciphertext = some record →
      Stored tables row.scope record ∨ row.scope = scope ∧ recordKeyVersion record = version)
    (keys : WellFormed tables → (rows.map (·.id)).Nodup ∧ ∀ row ∈ rows, row.id ≠ "") :
    Stores scope version tables (tables.setProject table rows) where
  records := by
    intro _ record stored
    cases stored with
    | inst mem => exact .inl (.inst mem)
    | @project t row _ mem present =>
      by_cases same : t = table
      · subst same
        simp only [Tables.setProject, update_self] at mem
        exact records row mem record present
      · simp only [Tables.setProject, update_of_ne same] at mem
        exact .inl (.project mem present)
  wellFormed := fun wf =>
    { wf with
      projectIDs :=
        (forall_update_iff _ fun _ (rows : List ProjectRow) => (rows.map (·.id)).Nodup).mpr
        ⟨(keys wf).1, fun t _ => wf.projectIDs t⟩
      projectNamed :=
        (forall_update_iff _ fun _ (rows : List ProjectRow) => ∀ row ∈ rows, row.id ≠ "").mpr
        ⟨(keys wf).2, fun t _ => wf.projectNamed t⟩ }

theorem stores_setInstance {rows : List InstanceRow} (records : ∀ row ∈ rows,
      Stored tables instanceScope row.ciphertext ∨ instanceScope = scope ∧
        recordKeyVersion row.ciphertext = version)
    (keys : WellFormed tables → (rows.map (·.id)).Nodup ∧ ∀ row ∈ rows,
      row.id ≠ "" ∧ table.versionOf row = recordKeyVersion row.ciphertext) :
    Stores scope version tables (tables.setInstance table rows) where
  records := by
    intro _ _ stored
    cases stored with
    | project mem present => exact .inl (.project mem present)
    | @inst t row mem =>
      by_cases same : t = table
      · subst same
        simp only [Tables.setInstance, update_self] at mem
        exact records row mem
      · simp only [Tables.setInstance, update_of_ne same] at mem
        exact .inl (.inst mem)
  wellFormed := fun wf =>
    { wf with
      instanceIDs :=
        (forall_update_iff _ fun _ (rows : List InstanceRow) => (rows.map (·.id)).Nodup).mpr
        ⟨(keys wf).1, fun t _ => wf.instanceIDs t⟩
      instanceNamed :=
        (forall_update_iff _ fun _ (rows : List InstanceRow) => ∀ row ∈ rows, row.id ≠ "").mpr
        ⟨fun row mem => ((keys wf).2 row mem).1, fun t _ => wf.instanceNamed t⟩
      stamped :=
        (forall_update_iff _ fun (t : InstanceTable) (rows : List InstanceRow) => ∀ row ∈ rows,
          t.versionOf row = recordKeyVersion row.ciphertext).mpr
        ⟨fun row mem => ((keys wf).2 row mem).2, fun t _ => wf.stamped t⟩ }

theorem setCiphertext_stores {table : ProjectTable}
    {selected : ProjectRow → Bool} {ciphertext : ProjectRow → Option Record}
    (writes : ∀ row ∈ tables.project table, selected row = true → ∀ record,
      ciphertext row = some record → Stored tables row.scope record ∨
        (row.scope = scope ∧ recordKeyVersion record = version)) :
    Stores scope version tables (setCiphertext tables table selected ciphertext) := by
  refine stores_setProject (fun row mem record present => ?_) fun wf => ⟨?_, fun row mem => ?_⟩
  · rcases mem_updateWhere.mp mem with ⟨old, oldMember, hit, rfl⟩ | ⟨oldMember, -⟩
    · exact writes old oldMember hit record present
    · exact .inl (.project oldMember present)
  · rw [map_updateWhere]
    exacts [wf.projectIDs table, fun _ => rfl]
  · rcases mem_updateWhere.mp mem with ⟨old, oldMember, -, rfl⟩ | ⟨oldMember, -⟩
    · exact wf.projectNamed table old oldMember
    · exact wf.projectNamed table row oldMember

theorem stamp_id (table : InstanceTable) (row : InstanceRow) (ciphertext : Record) (v : Nat) :
    (table.stamp row ciphertext v).id = row.id := by
  cases table <;> rfl

theorem stamp_ciphertext (table : InstanceTable) (row : InstanceRow) (ciphertext : Record)
    (v : Nat) : (table.stamp row ciphertext v).ciphertext = ciphertext := by
  cases table <;> rfl

theorem stamp_versionOf {ciphertext : Record} {v : Nat} (agrees : recordKeyVersion ciphertext = v) :
    table.versionOf (table.stamp row ciphertext v) = v := by
  cases table <;> first | rfl | exact agrees

theorem setInstanceField_stores {selected : InstanceRow → Bool} {ciphertext : InstanceRow → Record}
    (writes : ∀ row, recordKeyVersion (ciphertext row) = version) :
      Stores instanceScope version tables
      (setInstanceField tables table selected ciphertext version) := by
  refine stores_setInstance (fun row mem => ?_) fun wf => ⟨?_, fun row mem => ?_⟩
  · rcases mem_updateWhere.mp mem with ⟨old, -, -, rfl⟩ | ⟨oldMember, -⟩
    · rw [stamp_ciphertext]
      exact .inr ⟨rfl, writes old⟩
    · exact .inl (.inst oldMember)
  · rw [map_updateWhere]
    exacts [wf.instanceIDs table, fun row => stamp_id table row _ version]
  · rcases mem_updateWhere.mp mem with ⟨old, oldMember, -, rfl⟩ | ⟨oldMember, -⟩
    · rw [stamp_id, stamp_ciphertext, stamp_versionOf (writes old), writes old]
      exact ⟨wf.instanceNamed table old oldMember, rfl⟩
    · exact ⟨wf.instanceNamed table row oldMember, wf.stamped table row oldMember⟩

theorem insertProjectRow_stores {table : ProjectTable} {row : ProjectRow}
    (fenced : ∀ record, row.ciphertext = some record → row.scope = scope ∧
      recordKeyVersion record = version)
    (run : insertProjectRow tables table row = .ok tables') :
    Stores scope version tables tables' := by
  obtain ⟨⟨named, fresh⟩, run⟩ := require_bind_eq_ok.mp run
  cases run
  refine stores_setProject (fun other mem record present => ?_) fun wf => ⟨?_, fun other mem => ?_⟩
  · rcases mem_cons.mp mem with rfl | old
    · exact .inr (fenced record present)
    · exact .inl (.project old present)
  · refine nodup_cons.mpr ⟨fun listed => ?_, wf.projectIDs table⟩
    obtain ⟨old, oldMember, same⟩ := mem_map.mp listed
    exact fresh old oldMember same
  · rcases mem_cons.mp mem with rfl | old
    · exact named
    · exact wf.projectNamed table other old

theorem insertInstanceRow_stores (fenced : recordKeyVersion row.ciphertext = version)
    (stamped : table.versionOf row = recordKeyVersion row.ciphertext)
    (run : insertInstanceRow tables table row = .ok tables') :
    Stores instanceScope version tables tables' := by
  obtain ⟨⟨named, fresh⟩, run⟩ := require_bind_eq_ok.mp run
  cases run
  refine stores_setInstance (fun other mem => ?_) fun wf => ⟨?_, fun other mem => ?_⟩
  · rcases mem_cons.mp mem with rfl | old
    · exact .inr ⟨rfl, fenced⟩
    · exact .inl (.inst old)
  · refine nodup_cons.mpr ⟨fun listed => ?_, wf.instanceIDs table⟩
    obtain ⟨old, oldMember, same⟩ := mem_map.mp listed
    exact fresh old oldMember same
  · rcases mem_cons.mp mem with rfl | old
    · exact ⟨named, stamped⟩
    · exact ⟨wf.instanceNamed table other old, wf.stamped table other old⟩

theorem put_stores {statement : Put} (held : sealer.writeHandle = some handle)
    (run : put sealer handle nonce tables statement = .ok tables') :
    Stores sealer.scope sealer.version tables tables' := by
  have atVersion := Sealer.writeHandle_version held
  cases statement with
  | insertProject =>
    cases sealer with
    | inst => cases run
    | project =>
      refine insertProjectRow_stores ?_ run
      intro record present
      obtain ⟨_, -, rfl⟩ := Option.map_eq_some_iff.mp present
      exact ⟨rfl, atVersion⟩
  | setProject =>
    cases sealer with
    | inst => cases run
    | project =>
      cases run
      refine setCiphertext_stores ?_
      intro _ _ hit record present
      cases present
      simp only [isProjectRow, decide_eq_true_eq] at hit
      refine .inr ⟨?_, atVersion⟩
      rw [ProjectRow.scope, hit.1, hit.2.1]
      rfl
  | insertInstance table id plaintext =>
    cases sealer with
    | project => cases run
    | inst wh =>
      have agrees : recordKeyVersion (sealRecord handle nonce (table.aad id) plaintext) =
          wh.version := atVersion
      refine insertInstanceRow_stores ?_ ?_ run
      · rw [stamp_ciphertext]
        exact agrees
      · rw [stamp_ciphertext, stamp_versionOf agrees, agrees]
  | setInstance =>
    cases sealer with
    | project => cases run
    | inst =>
      cases run
      exact setInstanceField_stores fun _ => atVersion

theorem pendingCredential_stored {moveID adapterID : String}
    (found : pendingCredential tables orgID projectID moveID adapterID = some record) :
    Stored tables ⟨.project, orgID, projectID⟩ record := by
  obtain ⟨row, rowFound, present⟩ := Option.bind_eq_some_iff.mp found
  have mem := mem_of_find?_eq_some rowFound
  have hit := find?_some rowFound
  simp only [isProjectRow, decide_eq_true_eq] at hit
  have inScope : row.scope = ⟨.project, orgID, projectID⟩ := by
    rw [ProjectRow.scope, hit.1.1, hit.1.2.1]
  exact inScope ▸ .project mem present

theorem filterProject_stores (tables : Tables) (table : ProjectTable) (keep : ProjectRow → Bool) :
    Stores scope version tables (tables.setProject table ((tables.project table).filter keep)) := by
  refine stores_setProject (fun row mem record present => ?_) fun wf => ⟨?_, fun row mem => ?_⟩
  · exact .inl (.project (mem_of_mem_filter mem) present)
  · exact (wf.projectIDs table).sublist (filter_sublist.map _)
  · exact wf.projectNamed table row (mem_of_mem_filter mem)

theorem filterInstance_stores (tables : Tables) (table : InstanceTable)
    (keep : InstanceRow → Bool) :
    Stores scope version tables (tables.setInstance table ((tables.inst table).filter keep)) := by
  refine stores_setInstance (fun row mem => ?_) fun wf => ⟨?_, fun row mem => ?_⟩
  · exact .inl (.inst (mem_of_mem_filter mem))
  · exact (wf.instanceIDs table).sublist (filter_sublist.map _)
  · have old := mem_of_mem_filter mem
    exact ⟨wf.instanceNamed table row old, wf.stamped table row old⟩

theorem edit_stores (tables : Tables) (statement : Edit) :
    Stores scope version tables (edit tables statement) := by
  cases statement with
  | deleteProject table => exact filterProject_stores tables table _
  | clearProject =>
    exact setCiphertext_stores fun _ _ _ _ present => by cases present
  | activateOrigin orgID projectID =>
    refine Stores.trans (setCiphertext_stores ?_)
      (setCiphertext_stores fun _ _ _ _ present => by cases present)
    intro row _ hit _ present
    simp only [isProjectRow, decide_eq_true_eq] at hit
    have inScope : row.scope = ⟨.project, orgID, projectID⟩ := by
      rw [ProjectRow.scope, hit.1, hit.2.1]
    exact .inl (inScope ▸ pendingCredential_stored present)
  | deleteInstance table => exact filterInstance_stores tables table _

theorem putAll_stores (held : sealer.writeHandle = some handle) (statements : List (Put ⊕ Edit))
    (nonce : Nat) (tables tables' : Tables)
    (run : putAll sealer handle nonce tables statements = .ok tables') :
    Stores sealer.scope sealer.version tables tables' := by
  induction statements generalizing nonce tables with
  | nil =>
    cases run
    exact .refl _
  | cons statement _ ih =>
    cases statement with
    | inl =>
      obtain ⟨next, putRun, restRun⟩ := bind_eq_ok.mp run
      exact (put_stores held putRun).trans (ih (nonce + 1) next restRun)
    | inr plain => exact (edit_stores tables plain).trans (ih nonce _ run)

theorem walkProjectRows_stores {table : ProjectTable} (rows : List ProjectRow)
    (inScope : ∀ row ∈ rows, row.orgID = orgID ∧ row.projectID = projectID) (tables : Tables)
    (nonce moved : Nat) (run : walkProjectRows table deks rows tables nonce moved = .ok result) :
    Stores ⟨.project, orgID, projectID⟩ deks.active tables result.1 := by
  induction rows generalizing tables nonce moved with
  | nil =>
    cases run
    exact .refl _
  | cons row rest ih =>
    have restScope : ∀ other ∈ rest, other.orgID = orgID ∧ other.projectID = projectID :=
      fun other mem => inScope other (mem_cons_of_mem row mem)
    simp only [walkProjectRows] at run
    split at run
    · exact ih restScope _ _ _ run
    split at run
    · exact ih restScope _ _ _ run
    split at run
    · rename_i handle _ held
      refine Stores.trans (setCiphertext_stores ?_) (ih restScope _ _ _ run)
      intro _ _ hit _ present
      cases present
      have rowScope := inScope row (by simp)
      simp only [isProjectRow, Bool.decide_and, Bool.and_eq_true, decide_eq_true_eq] at hit
      refine .inr ⟨?_, ?_⟩
      · rw [ProjectRow.scope, hit.1.1, hit.1.2.1, rowScope.1, rowScope.2]
      have atActive : handle.version = deks.active := by
        simpa using find?_some held
      exact atActive
    · cases run

theorem walkInstanceRows_stores {live : VersionSet} (rows : List InstanceRow) (tables : Tables)
    (nonce moved : Nat)
    (run : walkInstanceRows table live wh rows tables nonce moved = .ok result) :
    Stores instanceScope wh.version tables result.1 := by
  induction rows generalizing tables nonce moved with
  | nil =>
    cases run
    exact .refl _
  | cons _ _ ih =>
    simp only [walkInstanceRows] at run
    split at run
    · exact ih _ _ _ run
    split at run
    · exact Stores.trans (setInstanceField_stores fun _ => rfl) (ih _ _ _ run)
    · cases run

theorem checkAll_ok {T : Type} {check : T → Except TableError Unit} (tables : List T)
    (run : checkAll check tables = .ok u) : ∀ table ∈ tables, check table = .ok () := by
  induction tables with
  | nil => simp
  | cons _ _ ih =>
    obtain ⟨_, first, restRun⟩ := bind_eq_ok.mp run
    intro other mem
    rcases mem_cons.mp mem with rfl | later
    · exact first
    · exact ih restRun other later

theorem empty_lt_of_ne {text : String} (named : text ≠ "") : "" < text := by
  rw [String.lt_iff_toList_lt]
  cases chars : text.toList with
  | nil => exact absurd (String.toList_eq_nil_iff.mp chars) named
  | cons => simp

theorem projectTableStraggler_ok {table : ProjectTable} (wf : WellFormed tables)
    (run : projectTableStraggler chunkSize tables orgID projectID active table = .ok u) :
    ∀ row ∈ tables.project table, row.orgID = orgID → row.projectID = projectID →
      ∀ record, row.ciphertext = some record → recordKeyVersion record = active := by
  intro row mem org project _ present
  simp only [projectTableStraggler] at run
  split at run
  · rename_i scan
    have listed : row ∈ (tables.project table).filter fun row =>
        row.orgID = orgID ∧ row.projectID = projectID ∧
          (table = .dynamicProvider → row.ciphertext.isSome) := by
      rw [mem_filter]
      exact ⟨mem, by simp [org, project, present]⟩
    have distinct : (((tables.project table).filter fun row =>
        row.orgID = orgID ∧ row.projectID = projectID ∧
          (table = .dynamicProvider → row.ciphertext.isSome)).map (·.id)).Nodup :=
      (wf.projectIDs table).sublist (filter_sublist.map _)
    have clean := findPaged_none distinct scan row listed
      (empty_lt_of_ne (wf.projectNamed table row mem))
    simpa [ProjectRow.offVersion, present] using clean
  · cases run
  · cases run

theorem instanceStraggler_ok (wf : WellFormed tables)
    (run : instanceStraggler chunkSize tables active table = .ok u) :
    ∀ row ∈ tables.inst table, recordKeyVersion row.ciphertext = active := by
  intro row mem
  simp only [instanceStraggler] at run
  split at run
  · rename_i scan
    have clean := findPaged_none (wf.instanceIDs table) scan row mem
      (empty_lt_of_ne (wf.instanceNamed table row mem))
    rw [← wf.stamped table row mem]
    simpa using clean
  · cases run
  · cases run

def DryAt (tables : Tables) (scope : Scope) (active : Nat) : Prop :=
  ∀ record, Stored tables scope record → recordKeyVersion record = active

theorem instanceScope_ne_project (orgID projectID : String) :
    instanceScope ≠ ⟨.project, orgID, projectID⟩ := by
  simp [instanceScope]

theorem dryAt_project (wf : WellFormed tables)
    (run : checkAll (projectTableStraggler chunkSize tables orgID projectID active) projectTables =
      .ok u) : DryAt tables ⟨.project, orgID, projectID⟩ active := by
  intro record stored
  generalize scopeEq : (⟨.project, orgID, projectID⟩ : Scope) = sc at stored
  cases stored with
  | inst => exact absurd scopeEq.symm (instanceScope_ne_project orgID projectID)
  | @project table row _ mem present =>
    have checked := checkAll_ok projectTables run table (mem_projectTables table)
    simp only [ProjectRow.scope, Scope.mk.injEq, true_and] at scopeEq
    exact projectTableStraggler_ok wf checked row mem scopeEq.1.symm scopeEq.2.symm record
      present

theorem dryAt_instance (wf : WellFormed tables)
    (run : checkAll (instanceStraggler chunkSize tables active) instanceTables = .ok u) :
    DryAt tables instanceScope active := by
  intro record stored
  generalize scopeEq : instanceScope = sc at stored
  cases stored with
  | project => exact absurd scopeEq (instanceScope_ne_project _ _)
  | @inst table row mem =>
    have checked := checkAll_ok instanceTables run table (mem_instanceTables table)
    exact instanceStraggler_ok wf checked row mem

/-- Every stored record carries a version whose tier-3 row is active or retiring. -/
def NoStranded (s : State) : Prop :=
  ∀ scope record, Stored s.tables scope record →
    Covered s.keys.db scope (recordKeyVersion record)

structure Invariant (s : State) : Prop where
  noStranded : NoStranded s
  wellFormed : WellFormed s.tables

theorem stored_sealsFields (stored : Stored tables sc record) : sc.SealsFields := by
  cases stored with
  | project => exact .inl rfl
  | inst => exact .inr rfl

theorem covered_of_fence (run : fence db scope version = .ok u) : Covered db scope version := by
  obtain ⟨row, mem, inScope, atVersion, active⟩ := fence_ok run
  exact ⟨row, mem, inScope, atVersion, .inl active⟩

section
variable (inv : Invariant s)
include inv

theorem invariant_of_stores (keys : s'.keys.db = s.keys.db)
    (stores : Stores scope version s.tables s'.tables) (covered : Covered s.keys.db scope version) :
    Invariant s' := by
  refine ⟨?_, stores.wellFormed inv.wellFormed⟩
  intro sc record stored
  rw [keys]
  rcases stores.records sc record stored with old | ⟨rfl, atVersion⟩
  · exact inv.noStranded sc record old
  · exact atVersion.symm ▸ covered

theorem invariant_of_keepsCovered
    (tables : s'.tables = s.tables) (keeps : KeepsCovered s.keys.db s'.keys.db) : Invariant s' := by
  refine ⟨?_, tables ▸ inv.wellFormed⟩
  intro sc record stored
  rw [tables] at stored
  exact keeps sc (stored_sealsFields stored) _ (inv.noStranded sc record stored)

theorem invariant_of_retire (tables : s'.tables = s.tables) (dbEq : s'.keys.db = db)
    (fenced : fence s.keys.db scope active = .ok u) (dry : DryAt s.tables scope active)
    (run : retireScope s.keys.db scope = .ok db) : Invariant s' := by
  refine ⟨?_, tables ▸ inv.wellFormed⟩
  intro sc record stored
  rw [tables] at stored
  rw [dbEq]
  unfold retireScope at run
  split at run
  · rename_i retired
    cases run
    obtain ⟨elsewhere, activeKept⟩ := covered_retireRetiringTier3 retired
    by_cases same : sc = scope
    · subst same
      rw [dry record stored]
      obtain ⟨row, mem, inScope, atVersion, isActive⟩ := fence_ok fenced
      exact atVersion ▸ activeKept row mem inScope isActive
    · exact elsewhere sc _ same (inv.noStranded sc record stored)
  · cases run

theorem stepKeys_invariant {action : KeyHierarchy.Action} (taken : stepKeys s action = some s') :
    Invariant s' := by
  unfold stepKeys at taken
  split at taken
  · cases taken
  rename_i notRetire
  obtain ⟨keys, keyStep, taken⟩ := Option.bind_eq_some_iff.mp taken
  have keeps : KeepsCovered s.keys.db keys.db :=
    step_keepsCovered keyStep fun scope same => notRetire scope same
  split at taken
  all_goals
    cases taken
    exact invariant_of_keepsCovered inv rfl keeps

theorem write_invariant {statements : List (Put ⊕ Edit)}
    (run : write s.keys.db s.tables sealer nonce statements = .ok tables) :
    Invariant { s with tables } := by
  unfold write at run
  split at run
  · cases run
  rename_i handle held
  obtain ⟨_, fenced, putRun⟩ := bind_eq_ok.mp run
  exact invariant_of_stores inv rfl (putAll_stores held statements nonce _ _ putRun)
    (covered_of_fence fenced)

theorem edit_invariant (statement : Edit) :
    Invariant { s with tables := edit s.tables statement } := by
  constructor
  · intro sc record stored
    -- Whatever version is fenced, the record is an old one; so take one it does not carry.
    have stores : Stores sc (recordKeyVersion record + 1) s.tables (edit s.tables statement) :=
      edit_stores s.tables statement
    rcases stores.records sc record stored with old | ⟨-, _⟩
    · exact inv.noStranded sc record old
    · omega
  have stores : Stores instanceScope 0 s.tables (edit s.tables statement) :=
    edit_stores s.tables statement
  exact stores.wellFormed inv.wellFormed

theorem projectChunk_invariant {table : ProjectTable} :
      Invariant (settleChunk chunkSize s index walk shorter
      (projectChunk chunkSize s.keys.db s.tables orgID projectID deks table cursor nonce)) := by
  cases outcome : projectChunk chunkSize s.keys.db s.tables orgID projectID deks table cursor nonce
  with
  | error _ => exact ⟨inv.noStranded, inv.wellFormed⟩
  | ok _ =>
    obtain ⟨_, fenced, run⟩ := bind_eq_ok.mp outcome
    obtain ⟨⟨_, _⟩, walkRun, result⟩ := bind_eq_ok.mp run
    cases result
    have inScope : ∀ row ∈ listProject s.tables table orgID projectID cursor chunkSize,
        row.orgID = orgID ∧ row.projectID = projectID := by
      intro _ mem
      have listed := (mem_filter.mp (mem_of_mem_page mem)).2
      simp only [decide_eq_true_eq] at listed
      exact ⟨listed.1, listed.2.1⟩
    exact invariant_of_stores inv rfl (walkProjectRows_stores _ inScope _ _ _ walkRun)
      (covered_of_fence fenced)

theorem instanceChunk_invariant {live : VersionSet} :
      Invariant (settleChunk chunkSize s index walk shorter
      (instanceChunk chunkSize s.keys.db s.tables live wh table cursor nonce)) := by
  cases outcome : instanceChunk chunkSize s.keys.db s.tables live wh table cursor nonce with
  | error => exact ⟨inv.noStranded, inv.wellFormed⟩
  | ok =>
    obtain ⟨_, fenced, run⟩ := bind_eq_ok.mp outcome
    obtain ⟨⟨_, _⟩, walkRun, result⟩ := bind_eq_ok.mp run
    cases result
    exact invariant_of_stores inv rfl (walkInstanceRows_stores _ _ _ _ walkRun)
      (covered_of_fence fenced)

theorem retireProject_invariant : Invariant (settleRetire s index
      (retireProject chunkSize s.keys.db s.tables orgID projectID active)) := by
  cases outcome : retireProject chunkSize s.keys.db s.tables orgID projectID active with
  | error => exact ⟨inv.noStranded, inv.wellFormed⟩
  | ok =>
    obtain ⟨_, fenced, run⟩ := bind_eq_ok.mp outcome
    obtain ⟨_, checked, retireRun⟩ := bind_eq_ok.mp run
    exact invariant_of_retire inv rfl rfl fenced (dryAt_project inv.wellFormed checked) retireRun

theorem retireInstance_invariant :
    Invariant (settleRetire s index (retireInstance chunkSize s.keys.db s.tables active)) := by
  cases outcome : retireInstance chunkSize s.keys.db s.tables active with
  | error => exact ⟨inv.noStranded, inv.wellFormed⟩
  | ok =>
    obtain ⟨_, fenced, run⟩ := bind_eq_ok.mp outcome
    obtain ⟨_, checked, retireRun⟩ := bind_eq_ok.mp run
    exact invariant_of_retire inv rfl rfl fenced (dryAt_instance inv.wellFormed checked) retireRun

theorem invariant_of_same_store (tables : s'.tables = s.tables) (db : s'.keys.db = s.keys.db) :
    Invariant s' :=
  invariant_of_keepsCovered inv tables (.of_tier3_eq (by rw [db]))

end

theorem step_invariant (chunkSize : Nat) (s : State) (a : Action) (s' : State) (inv : Invariant s)
    (taken : step chunkSize s a = some s') : Invariant s' := by
  cases a with
  | keys => exact stepKeys_invariant inv taken
  | reloadInstance =>
    simp only [step] at taken
    split at taken
    · split at taken
      · cases taken
        exact invariant_of_same_store inv rfl rfl
      · cases taken
    · cases taken
  | openProjectSealer | openInstanceSealer | startProject | startInstance =>
    obtain ⟨k, -, taken⟩ := Option.bind_eq_some_iff.mp taken
    obtain ⟨_, -, taken⟩ := Option.bind_eq_some_iff.mp taken
    cases taken
    exact invariant_of_same_store inv rfl rfl
  | write =>
    obtain ⟨⟨_, _⟩, -, taken⟩ := Option.bind_eq_some_iff.mp taken
    simp only at taken
    split at taken
    · rename_i committed
      cases taken
      exact write_invariant inv committed
    · cases taken
  | edit statement =>
    cases taken
    exact edit_invariant inv statement
  | chunk =>
    obtain ⟨walk, -, taken⟩ := Option.bind_eq_some_iff.mp taken
    split at taken
    · cases taken
      exact projectChunk_invariant inv
    · obtain ⟨_, -, taken⟩ := Option.bind_eq_some_iff.mp taken
      cases taken
      exact instanceChunk_invariant inv
    · cases taken
  | retire =>
    obtain ⟨_, -, taken⟩ := Option.bind_eq_some_iff.mp taken
    split at taken
    · cases taken
      exact retireProject_invariant inv
    · cases taken
      exact retireInstance_invariant inv
    · cases taken
  | stop =>
    cases taken
    exact invariant_of_same_store inv rfl rfl

theorem invariant_initial : Invariant .initial := by
  refine ⟨?_, ⟨fun _ => nodup_nil, ?_, fun _ => nodup_nil, ?_, ?_⟩⟩
  · intro _ _ stored
    cases stored with
    | project mem => cases mem
    | inst mem => cases mem
  · intro table row mem
    cases mem
  · intro table row mem
    cases mem
  · intro _ _ mem
    cases mem

/-- Whatever the chunk size, each stored record carries a version that is active or retiring. -/
theorem run_noStranded (chunkSize : Nat) (actions : List Action) :
    NoStranded (run chunkSize .initial actions) :=
  (runFrom_invariant (step chunkSize) Invariant (step_invariant chunkSize) actions .initial
    invariant_initial).noStranded

end Hikyo.Reencrypt
