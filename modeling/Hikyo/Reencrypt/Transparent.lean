import Hikyo.Lib.Sweep
import Hikyo.Reencrypt.NoStranded

/-!
# Re-encryption keeps every plaintext

`reencryption_transparent`: with any writers between its chunks, a walk leaves every row opening as
it would without the walk, and an undisturbed walk ends with every row on the active version and the
right count.  The walk is run beside a second copy of the tables that only the writers change
(`TableWalk.Beside`), and the two stay `Alike`; the general part is the theory of sweeps.
-/

namespace Hikyo.Reencrypt

open Hikyo.Lib Hikyo.KeyHierarchy List Function

variable {chunkSize : Nat} {R : Type}

structure Pass (R : Type) where
  scope : Scope
  active : Nat
  id : R → String
  list : Tables → String → List R
  swap : Tables → List R → Nat → Except TableError (Tables × Nat)

def projectPass (chunkSize : Nat) (orgID projectID : String) (deks : VersionSet)
    (table : ProjectTable) : Pass ProjectRow where
  scope := ⟨.project, orgID, projectID⟩
  active := deks.active
  id := (·.id)
  list tables cursor := listProject tables table orgID projectID cursor chunkSize
  swap tables rows nonce := walkProjectRows table deks rows tables nonce 0

def instancePass (chunkSize : Nat) (live : VersionSet) (wh : KeyHandle) (table : InstanceTable) :
    Pass InstanceRow where
  scope := instanceScope
  active := wh.version
  id := (·.id)
  list tables cursor := listInstance tables table cursor chunkSize
  swap tables rows nonce := walkInstanceRows table live wh rows tables nonce 0

structure Replacement where
  table : ProjectTable ⊕ InstanceTable
  id : String
  plaintext : String

def Replacement.put (r : Replacement) : Put :=
  match r.table with
  | .inl table => .setProject table r.id r.plaintext
  | .inr table => .setInstance table r.id r.plaintext

/-- The transaction of a writer; one that is refused changes nothing. -/
def replaceAll (db : KeyDB) (sealer : Sealer) (nonce : Nat) (replacements : List Replacement)
    (tables : Tables) : Tables :=
  match write db tables sealer nonce (replacements.map fun r => .inl r.put) with
  | .ok written => written
  | .error _ => tables

inductive Turn
  | write (db : KeyDB) (sealer : Sealer) (nonce : Nat) (replacements : List Replacement)
  | attempt
  | commit (db : KeyDB) (nonce : Nat)

inductive Phase
  | walking
  | finished
  | failed
deriving DecidableEq

structure TableWalk (R : Type) where
  tables : Tables
  cursor : String := ""
  moved : Nat := 0
  page : Option (List R) := none
  phase : Phase := .walking

section Walk
variable (pass : Pass R) (chunkSize : Nat)

/-- `walkChunked`: cursor and count move when the chunk has committed. -/
def TableWalk.turn (w : TableWalk R) : Turn → TableWalk R
  | .write db sealer nonce replacements =>
    { w with tables := replaceAll db sealer nonce replacements w.tables }
  | .attempt => { w with page := some (pass.list w.tables w.cursor) }
  | .commit db nonce =>
    match w.phase, w.page with
    | .walking, some rows =>
      match fence db pass.scope pass.active >>= fun _ => pass.swap w.tables rows nonce with
      | .error _ => { w with page := none, phase := .failed }
      | .ok (tables, delta) =>
        { tables
          cursor := cursorAfter pass.id w.cursor rows
          moved := w.moved + delta
          phase := if rows.length < chunkSize then .finished else .walking }
    | _, _ => w

def walkFrom (w : TableWalk R) (turns : List Turn) : TableWalk R :=
  turns.foldl (fun w turn => w.turn pass chunkSize turn) w

def Turn.writes : Turn → Tables → Tables
  | .write db sealer nonce replacements, tables => replaceAll db sealer nonce replacements tables
  | _, tables => tables

def writersOnly (start : Tables) (turns : List Turn) : Tables :=
  turns.foldl (fun tables turn => turn.writes tables) start

end Walk

def Within (deks set : VersionSet) : Prop := ∀ version handle, deks.handleAt version = some handle →
    set.handleAt version = some handle

section Alike
variable (set : VersionSet)

/-- The rows agree in their other columns, and their ciphertexts open alike under all data. -/
def ProjectRow.Alike (row other : ProjectRow) : Prop :=
  (∀ ciphertext, { row with ciphertext } = { other with ciphertext }) ∧
    ∀ aad, row.ciphertext.map (openVersioned set aad) = other.ciphertext.map (openVersioned set aad)

def InstanceRow.Alike (row other : InstanceRow) : Prop :=
  row.id = other.id ∧ ∀ aad, openVersioned set aad row.ciphertext =
    openVersioned set aad other.ciphertext

structure Tables.Alike (tables others : Tables) : Prop where
  project : ∀ table, List.Forall₂ (ProjectRow.Alike set) (tables.project table)
    (others.project table)
  inst : ∀ table, List.Forall₂ (InstanceRow.Alike set) (tables.inst table) (others.inst table)

end Alike

variable {set deks live : VersionSet} {tables others tables' : Tables} {handle wh : KeyHandle}
  {nonce : Nat}

theorem openVersioned_sealed (held : set.handleAt handle.version = some handle) (nonce : Nat)
    (aad aad' : FieldAAD) (plaintext : String) :
    openVersioned set aad' (sealRecord handle nonce aad plaintext) = if aad = aad' then
      some plaintext else none := by
  have found : set.handleAt (recordKeyVersion (sealRecord handle nonce aad plaintext)) =
      some handle := held
  unfold openVersioned
  rw [found]
  simp [openRecord, sealRecord, openSealed]

theorem reseal_alike {aad : FieldAAD} {old : Record} {plaintext : String}
    (opened : openVersioned deks aad old = some plaintext) (within : Within deks set)
    (held : set.handleAt handle.version = some handle) (nonce : Nat) (aad' : FieldAAD) :
    openVersioned set aad' (sealRecord handle nonce aad plaintext) =
      openVersioned set aad' old := by
  obtain ⟨first, atVersion, isOpen⟩ := Option.bind_eq_some_iff.mp opened
  have isOld : old = sealRecord first old.data.1.nonce aad plaintext := openSealed_eq_some.mp isOpen
  have sameVersion : recordKeyVersion old = first.version := by rw [isOld]; rfl
  rw [sameVersion] at atVersion
  rw [openVersioned_sealed held, isOld, openVersioned_sealed (within _ _ atVersion)]

theorem Tables.Alike.setProject (alike : Tables.Alike set tables others) (table : ProjectTable)
    {rows rows' : List ProjectRow} (same : List.Forall₂ (ProjectRow.Alike set) rows rows') :
    Tables.Alike set (tables.setProject table rows) (others.setProject table rows') := by
  refine ⟨fun t => ?_, alike.inst⟩
  by_cases here : t = table
  · subst here
    simpa only [Tables.setProject, update_self] using same
  · simpa only [Tables.setProject, update_of_ne here] using alike.project t

theorem Tables.Alike.setInstance (alike : Tables.Alike set tables others) (table : InstanceTable)
    {rows rows' : List InstanceRow} (same : List.Forall₂ (InstanceRow.Alike set) rows rows') :
    Tables.Alike set (tables.setInstance table rows) (others.setInstance table rows') := by
  refine ⟨alike.project, fun t => ?_⟩
  by_cases here : t = table
  · subst here
    simpa only [Tables.setInstance, update_self] using same
  · simpa only [Tables.setInstance, update_of_ne here] using alike.inst t

def Both (set : VersionSet) : Except TableError Tables → Except TableError Tables → Prop
  | .ok tables, .ok others => Tables.Alike set tables others
  | .error _, .error _ => True
  | _, _ => False

theorem Both.cases {x y : Except TableError Tables} (both : Both set x y) :
    (∃ e e', x = .error e ∧ y = .error e') ∨ ∃ tables others, x = .ok tables ∧ y = .ok others ∧
    Tables.Alike set tables others := by
  cases x with
  | error e =>
    cases y with
    | error e' => exact .inl ⟨e, e', rfl, rfl⟩
    | ok => exact both.elim
  | ok tables =>
    cases y with
    | error => exact both.elim
    | ok others => exact .inr ⟨tables, others, rfl, rfl, both⟩

theorem ProjectRow.Alike.updated {row other : ProjectRow}
    (alike : ProjectRow.Alike set row other)
    (table : ProjectTable) (orgID projectID id plaintext : String) (nonce : Nat) :
    isProjectRow orgID projectID id row = isProjectRow orgID projectID id other ∧
      ProjectRow.Alike
        set { row with ciphertext := some (sealRecord handle nonce (table.aad row) plaintext) }
        { other with ciphertext := some (sealRecord handle nonce (table.aad other)
          plaintext) } := by
  obtain ⟨columns, -⟩ := alike
  have selected := congrArg (isProjectRow orgID projectID id) (columns none)
  have aads : table.aad row = table.aad other := by
    have same := congrArg table.aad (columns none)
    cases table <;> exact same
  exact ⟨selected, columns, fun aad => by rw [aads]⟩

theorem put_alike (alike : Tables.Alike set tables others) (sealer : Sealer) (handle : KeyHandle)
    (nonce : Nat) (r : Replacement) :
    Both set (put sealer handle nonce tables r.put) (put sealer handle nonce others r.put) := by
  obtain ⟨table, id, plaintext⟩ := r
  cases table with
  | inl table =>
    cases sealer with
    | inst => trivial
    | project orgID projectID =>
      refine alike.setProject table ?_
      simp only [updateWhere, forall₂_map_left_iff, forall₂_map_right_iff]
      refine (alike.project table).imp fun row other same => ?_
      obtain ⟨selected, updated⟩ := same.updated table orgID projectID id plaintext nonce
      rw [selected]
      split
      · exact updated
      · exact same
  | inr table =>
    cases sealer with
    | project => trivial
    | inst =>
      refine alike.setInstance table ?_
      simp only [updateWhere, forall₂_map_left_iff, forall₂_map_right_iff]
      refine (alike.inst table).imp fun row other same => ?_
      rw [same.1]
      split
      · refine ⟨by rw [stamp_id, stamp_id]; exact same.1, fun aad => ?_⟩
        rw [stamp_ciphertext, stamp_ciphertext]
      · exact same

theorem putAll_alike (sealer : Sealer) (replacements : List Replacement)
    (alike : Tables.Alike set tables others) :
    Both set (putAll sealer handle nonce tables (replacements.map fun r => .inl r.put))
      (putAll sealer handle nonce others (replacements.map fun r => .inl r.put)) := by
  induction replacements generalizing tables others nonce with
  | nil => exact alike
  | cons r _ ih =>
    simp only [map_cons, putAll]
    rcases (put_alike alike sealer handle nonce r).cases
        with ⟨_, _, left, right⟩ | ⟨_, _, left, right, onward⟩
    · rw [left, right]
      trivial
    · rw [left, right]
      exact ih onward

theorem replaceAll_alike (db : KeyDB) (sealer : Sealer) (nonce : Nat)
    (replacements : List Replacement) (alike : Tables.Alike set tables others) :
    Tables.Alike set (replaceAll db sealer nonce replacements tables)
      (replaceAll db sealer nonce replacements others) := by
  have both : Both set (write db tables sealer nonce (replacements.map fun r => .inl r.put))
      (write db others sealer nonce (replacements.map fun r => .inl r.put)) := by
    unfold write
    cases sealer.writeHandle with
    | none => trivial
    | some =>
      cases fence db sealer.scope sealer.version with
      | error => trivial
      | ok => exact putAll_alike sealer replacements alike
  unfold replaceAll
  rcases both.cases with ⟨_, _, left, right⟩ | ⟨_, _, left, right, onward⟩
  · rw [left, right]
    exact alike
  · rw [left, right]
    exact onward

section Sweeps
variable (orgID projectID : String) (deks live : VersionSet) (wh : KeyHandle)

def projectSweep (table : ProjectTable) : Sweep ProjectRow String TableError where
  key := (·.id)
  listed row := row.orgID = orgID ∧ row.projectID = projectID ∧
    (table = .dynamicProvider → row.ciphertext.isSome)
  done row := row.ciphertext.all fun ciphertext => recordKeyVersion ciphertext = deks.active
  hits row stored := isProjectRow row.orgID row.projectID row.id stored ∧
    stored.ciphertext = row.ciphertext
  renew nonce row :=
    match row.ciphertext.bind (openVersioned deks (table.aad row)), deks.activeHandle with
    | some plaintext, some handle =>
        .ok fun stored =>
          { stored with ciphertext := some (sealRecord handle nonce (table.aad row) plaintext) }
    | _, _ => .error (.openFailed table.name row.id)

def instanceSweep (table : InstanceTable) : Sweep InstanceRow String TableError where
  key := (·.id)
  listed _ := true
  done row := table.versionOf row = wh.version
  hits row stored :=
    match table with
    | .remotes => stored.id = row.id ∧ stored.ciphertext = row.ciphertext
    | .selfConfigSeedInputs =>
        stored.id = row.id ∧ stored.rowVersion = row.rowVersion ∧ stored.ciphertext = row.ciphertext
    | _ => stored.id = row.id ∧ stored.rowVersion = row.rowVersion
  renew nonce row :=
    match openVersioned live (table.aad row.id) row.ciphertext with
    | some plaintext =>
        .ok fun stored => table.stamp stored (sealRecord wh nonce (table.aad row.id) plaintext)
          wh.version
    | none => .error (.openFailed table.name row.id)

end Sweeps

theorem walkProjectRows_eq (orgID projectID : String) (table : ProjectTable)
    (rows : List ProjectRow) (tables : Tables) (nonce moved : Nat) :
    walkProjectRows table deks rows tables nonce moved =
      ((projectSweep orgID projectID deks table).rows rows (tables.project table) nonce moved).map
        fun result =>
        (tables.setProject table result.1, result.2) := by
  induction rows generalizing tables nonce moved with
  | nil => simp [walkProjectRows, Sweep.rows, Except.map, Tables.setProject]
  | cons row _ ih =>
    unfold walkProjectRows Sweep.rows
    cases isCiphertext : row.ciphertext with
    | none => simp [projectSweep, isCiphertext, ih]
    | some old =>
      by_cases onActive : recordKeyVersion old = deks.active
      · simp [projectSweep, isCiphertext, onActive, ih]
      cases opened : openVersioned deks (table.aad row) old with
      | none => simp [projectSweep, isCiphertext, onActive, opened, Except.map]
      | some =>
        cases held : deks.activeHandle with
        | none => simp [projectSweep, isCiphertext, onActive, opened, held, Except.map]
        | some =>
          simp [projectSweep, isCiphertext, onActive, opened, held, ih, casProject, setCiphertext,
            Tables.setProject]

theorem walkInstanceRows_eq (table : InstanceTable) (rows : List InstanceRow) (tables : Tables)
    (nonce moved : Nat) :
    walkInstanceRows table live wh rows tables nonce moved =
      ((instanceSweep live wh table).rows rows (tables.inst table) nonce moved).map fun result =>
        (tables.setInstance table result.1, result.2) := by
  induction rows generalizing tables nonce moved with
  | nil => simp [walkInstanceRows, Sweep.rows, Except.map, Tables.setInstance]
  | cons row _ ih =>
    unfold walkInstanceRows Sweep.rows
    by_cases onActive : table.versionOf row = wh.version
    · simp [instanceSweep, onActive, ih]
    cases opened : openVersioned live (table.aad row.id) row.ciphertext with
    | none => simp [instanceSweep, onActive, opened, Except.map]
    | some =>
      cases table <;> simp [instanceSweep, onActive, opened, ih, resealInstance, setInstanceField,
        Tables.setInstance]

theorem projectSweep_renew {orgID projectID : String} {table : ProjectTable} {row : ProjectRow}
    {change : ProjectRow → ProjectRow}
    (renewed : (projectSweep orgID projectID deks table).renew nonce row = .ok change) :
    ∃ old plaintext handle, row.ciphertext = some old ∧ openVersioned deks
      (table.aad row) old = some plaintext ∧
      deks.activeHandle = some handle ∧
      change = fun stored =>
        { stored with ciphertext := some (sealRecord handle nonce (table.aad row) plaintext) } := by
  simp only [projectSweep] at renewed
  split at renewed
  · rename_i plaintext handle opened held
    obtain ⟨old, isOld, opened⟩ := Option.bind_eq_some_iff.mp opened
    exact ⟨old, plaintext, handle, isOld, opened, held, (Except.ok.inj renewed).symm⟩
  · cases renewed

theorem instanceSweep_renew {table : InstanceTable} {row : InstanceRow}
    {change : InstanceRow → InstanceRow}
    (renewed : (instanceSweep live wh table).renew nonce row = .ok change) :
    ∃ plaintext, openVersioned live (table.aad row.id) row.ciphertext = some plaintext ∧
      change = fun stored => table.stamp stored
        (sealRecord wh nonce (table.aad row.id) plaintext) wh.version := by
  simp only [instanceSweep] at renewed
  split at renewed
  · rename_i plaintext opened
    exact ⟨plaintext, opened, (Except.ok.inj renewed).symm⟩
  · cases renewed

theorem activeHandle_version (held : deks.activeHandle = some handle) :
    handle.version = deks.active := by
  simpa using find?_some held

theorem projectSweep_exact (orgID projectID : String) (table : ProjectTable) :
    (projectSweep orgID projectID deks table).Exact where
  hits_self := by simp [projectSweep, isProjectRow]
  hits_key := by
    intro row _ hit
    simp only [projectSweep, isProjectRow, Bool.decide_and, Bool.and_eq_true,
      decide_eq_true_eq] at hit
    exact hit.1.2.2
  renew_key := by
    intro nonce row change renewed
    obtain ⟨-, -, -, -, -, -, rfl⟩ := projectSweep_renew renewed
    rfl
  renew_done := by
    intro nonce row change renewed
    obtain ⟨-, _, _, -, -, held, rfl⟩ := projectSweep_renew renewed
    simp [projectSweep, recordKeyVersion, sealRecord, activeHandle_version held]
  renew_listed := by
    intro _ _ _ renewed
    obtain ⟨_, -, -, isOld, -, -, rfl⟩ := projectSweep_renew renewed
    simp [projectSweep, isOld]

theorem instanceSweep_exact (table : InstanceTable) : (instanceSweep live wh table).Exact where
  hits_self := by
    intro row
    cases table <;> simp [instanceSweep]
  hits_key := by
    intro row _ hit
    simp only [instanceSweep] at hit ⊢
    split at hit <;> simp_all
  renew_key := by
    intro nonce row change renewed
    obtain ⟨-, -, rfl⟩ := instanceSweep_renew renewed
    exact stamp_id ..
  renew_done := by
    intro _ _ _ renewed
    obtain ⟨-, -, rfl⟩ := instanceSweep_renew renewed
    exact decide_eq_true (stamp_versionOf rfl)
  renew_listed := fun _ => rfl

section Alone
variable [DecidableEq R] {pass : Pass R} {sweep : Sweep R String TableError}
  {rowsOf : Tables → List R} {start : Tables}

structure Pass.Sweeps (pass : Pass R) (chunkSize : Nat) (sweep : Sweep R String TableError)
    (rowsOf : Tables → List R) : Prop where
  isExact : sweep.Exact
  id : pass.id = sweep.key
  list : ∀ tables cursor, pass.list tables cursor =
    page sweep.key ((rowsOf tables).filter sweep.listed) cursor chunkSize
  swap : ∀ {tables rows nonce tables' delta}, pass.swap tables rows nonce = .ok (tables', delta) →
    sweep.rows rows (rowsOf tables) nonce 0 = .ok (rowsOf tables', delta)

structure TableWalk.Alone (pass : Pass R) (sweep : Sweep R String TableError)
    (rowsOf : Tables → List R) (start : Tables) (w : TableWalk R) :
    Prop where
  progress : sweep.Progress (rowsOf start) (rowsOf w.tables) w.cursor w.moved
  page : ∀ rows, w.page = some rows → rows = pass.list w.tables w.cursor
  finished : w.phase = .finished → ∀ row ∈ rowsOf w.tables, sweep.listed row = true →
    sweep.done row = true

def Turn.IsWrite : Turn → Prop
  | .write .. => True
  | _ => False

section
variable (sweeps : pass.Sweeps chunkSize sweep rowsOf)
  (distinct : ((rowsOf start).map sweep.key).Nodup)
include sweeps distinct

theorem TableWalk.Alone.turn {w : TableWalk R} (alone : w.Alone pass sweep rowsOf start)
    {turn : Turn} (walks : ¬ turn.IsWrite) :
    (w.turn pass chunkSize turn).Alone pass sweep rowsOf start := by
  cases turn with
  | write => exact absurd trivial walks
  | attempt => exact ⟨alone.progress, fun rows isPage => (Option.some.inj isPage).symm,
      alone.finished⟩
  | commit =>
    unfold TableWalk.turn
    dsimp only
    split
    · rename_i rows _ isPage
      split
      · exact ⟨alone.progress, nofun, nofun⟩
      rename_i tables delta committed
      obtain ⟨-, -, swapped⟩ := bind_eq_ok.mp committed
      have isPage := (alone.page rows isPage).trans (sweeps.list w.tables w.cursor)
      have run := sweeps.swap swapped
      rw [isPage] at run
      obtain ⟨progress, complete⟩ := alone.progress.chunk sweeps.isExact distinct run
      rw [← isPage, ← sweeps.id] at progress
      refine ⟨progress, nofun, fun isFinished => ?_⟩
      by_cases short : rows.length < chunkSize
      · exact complete (isPage ▸ short)
      · rw [if_neg short] at isFinished
        cases isFinished
    · exact alone

theorem TableWalk.Alone.walkFrom {w : TableWalk R} (alone : w.Alone pass sweep rowsOf start)
    {turns : List Turn} (walks : ∀ turn ∈ turns, ¬ turn.IsWrite) :
    (walkFrom pass chunkSize w turns).Alone pass sweep rowsOf start := by
  induction turns generalizing w with
  | nil => exact alone
  | cons turn _ ih =>
    exact ih (alone.turn sweeps distinct (walks turn (.head _))) fun other mem =>
      walks other (mem_cons_of_mem turn mem)

theorem walk_complete
    (named : ∀ row ∈ rowsOf start, sweep.key row ≠ "") {turns : List Turn}
    (walks : ∀ turn ∈ turns, ¬ turn.IsWrite)
    (ended : (walkFrom pass chunkSize { tables := start } turns).phase = .finished) :
    (∀ row ∈ rowsOf (walkFrom pass chunkSize { tables := start } turns).tables, sweep.listed row =
      true → sweep.done row = true) ∧
      (walkFrom pass chunkSize { tables := start } turns).moved =
        changed (rowsOf start)
          (rowsOf (walkFrom pass chunkSize { tables := start } turns).tables) := by
  have unchanged : changed (rowsOf start) (rowsOf start) = 0 := by
    refine countP_eq_zero.mpr fun pair mem => ?_
    obtain ⟨_, -, rfl⟩ := mem_iff_getElem.mp mem
    simp
  have first : TableWalk.Alone pass sweep rowsOf start ({ tables := start } : TableWalk R) := by
    refine ⟨⟨forall₂_same.mpr fun _ _ => .inl rfl, unchanged.symm, fun row mem _ low => ?_⟩, nofun,
      nofun⟩
    exact absurd low (not_le.mpr (empty_lt_of_ne (named row mem)))
  have alone := first.walkFrom sweeps distinct walks
  exact ⟨alone.finished ended, alone.progress.count⟩

end

end Alone

section Beside
variable {pass : Pass R} {rowsOf : Tables → List R} {Since : R → R → Prop}

/-- `Since` relates a row that was read to what has been stored since. -/
structure Pass.Safe (pass : Pass R) (set : VersionSet) (rowsOf : Tables → List R)
    (Since : R → R → Prop) : Prop where
  read : ∀ {tables others cursor row stored}, WellFormed others → Tables.Alike set tables others →
    row ∈ pass.list tables cursor →
    stored ∈ rowsOf tables → Since row stored
  written : ∀ {tables row} db sealer nonce replacements,
    (∀ stored ∈ rowsOf tables, Since row stored) →
    ∀ stored ∈ rowsOf (replaceAll db sealer nonce replacements tables), Since row stored
  swap : ∀ {tables others rows nonce tables' delta}, pass.swap tables rows nonce =
    .ok (tables', delta) →
    (∀ row ∈ rows, ∀ stored ∈ rowsOf tables, Since row stored) → Tables.Alike set tables others →
      Tables.Alike set tables' others

structure TableWalk.Beside (set : VersionSet) (rowsOf : Tables → List R) (Since : R → R → Prop)
    (others : Tables) (w : TableWalk R) : Prop where
  alike : Tables.Alike set w.tables others
  wellFormed : WellFormed others
  since : ∀ rows, w.page = some rows → ∀ row ∈ rows, ∀ stored ∈ rowsOf w.tables, Since row stored

theorem replaceAll_wellFormed (db : KeyDB) (sealer : Sealer) (nonce : Nat)
    (replacements : List Replacement) (wf : WellFormed tables) :
    WellFormed (replaceAll db sealer nonce replacements tables) := by
  unfold replaceAll
  split
  · rename_i written run
    unfold write at run
    split at run
    · cases run
    rename_i handle held
    obtain ⟨-, -, run⟩ := bind_eq_ok.mp run
    exact (putAll_stores held _ nonce _ _ run).wellFormed wf
  · exact wf

theorem TableWalk.Beside.turn {w : TableWalk R} (safe : pass.Safe set rowsOf Since)
    (beside : w.Beside set rowsOf Since others) (turn : Turn) :
    (w.turn pass chunkSize turn).Beside set rowsOf Since (turn.writes others) := by
  cases turn with
  | write db sealer nonce replacements =>
    refine ⟨replaceAll_alike db sealer nonce replacements beside.alike,
      replaceAll_wellFormed db sealer nonce replacements beside.wellFormed, ?_⟩
    exact fun rows isPage row mem => safe.written db sealer nonce replacements
      (beside.since rows isPage row mem)
  | attempt =>
    refine ⟨beside.alike, beside.wellFormed, ?_⟩
    rintro _ ⟨⟩ _ listed _ mem
    exact safe.read beside.wellFormed beside.alike listed mem
  | commit =>
    unfold TableWalk.turn
    dsimp only
    split
    · rename_i rows _ isPage
      split
      · exact ⟨beside.alike, beside.wellFormed, nofun⟩
      rename_i tables delta committed
      obtain ⟨-, -, swapped⟩ := bind_eq_ok.mp committed
      exact ⟨safe.swap swapped (beside.since rows isPage) beside.alike, beside.wellFormed, nofun⟩
    · exact beside

theorem TableWalk.Beside.walkFrom {w : TableWalk R} (safe : pass.Safe set rowsOf Since)
    (beside : w.Beside set rowsOf Since others) (turns : List Turn) :
    (walkFrom pass chunkSize w turns).Beside set rowsOf Since (writersOnly others turns) := by
  induction turns generalizing w others with
  | nil => exact beside
  | cons turn _ ih => exact ih (beside.turn safe turn)

theorem Tables.Alike.refl (set : VersionSet) (tables : Tables) : Tables.Alike set tables tables :=
  ⟨fun _ => forall₂_same.mpr fun _ _ => ⟨fun _ => rfl, fun _ => rfl⟩,
    fun _ => forall₂_same.mpr fun _ _ => ⟨rfl, fun _ => rfl⟩⟩

theorem walk_alike {start : Tables} (safe : pass.Safe set rowsOf Since) (wf : WellFormed start)
    (turns : List Turn) :
    Tables.Alike set (walkFrom pass chunkSize { tables := start } turns).tables
      (writersOnly start turns) := by
  have first : TableWalk.Beside set rowsOf Since start ({ tables := start } : TableWalk R) :=
    ⟨.refl set start, wf, nofun⟩
  exact (first.walkFrom safe turns).alike

end Beside

/-! A project swap compares the ciphertext, so that it needs to know nothing of its row. -/

theorem projectPass_safe (chunkSize : Nat) (orgID projectID : String) (table : ProjectTable)
    (within : Within deks set) :
    (projectPass chunkSize orgID projectID deks table).Safe set (·.project table) fun _ _ =>
    True where
  read := fun _ _ _ _ => trivial
  written := fun _ _ _ _ _ _ _ => trivial
  swap := by
    intro _ _ _ nonce _ _ swapped _ alike
    obtain ⟨⟨_, _⟩, run, same⟩ :=
      map_eq_ok.mp ((walkProjectRows_eq orgID projectID ..).symm.trans swapped)
    cases same
    have kept :=
      Sweep.rows_alike (ProjectRow.Alike set) (fun _ _ => True) ?_ (fun _ _ _ _ => trivial) run
      (fun _ _ _ _ => trivial) (alike.project table)
    · have onward := alike.setProject table kept
      simpa only [Tables.setProject, Function.update_eq_self] using onward
    intro nonce row _ renewed _ _ _ hit same
    obtain ⟨_, _, handle, isOld, opened, held, rfl⟩ := projectSweep_renew renewed
    simp only [projectSweep, Bool.decide_and, Bool.and_eq_true, decide_eq_true_eq] at hit
    have atVersion : set.handleAt handle.version = some handle := by
      rw [activeHandle_version held]
      exact within _ _ held
    refine ⟨same.1, fun aad => ?_⟩
    rw [← same.2 aad, hit.2, isOld]
    exact congrArg some (reseal_alike opened within atVersion nonce aad)

/-! An instance swap compares the row version, which every writer raises. -/

def InstanceTable.Since (table : InstanceTable) (row stored : InstanceRow) : Prop :=
  table ≠ .remotes → stored.id = row.id →
    row.rowVersion ≤ stored.rowVersion ∧
      (row.rowVersion = stored.rowVersion → stored.ciphertext = row.ciphertext)

theorem InstanceTable.Since.stamp {table : InstanceTable} {row stored : InstanceRow}
    (since : table.Since row stored) (ciphertext : Record) (version : Nat) :
    table.Since row (table.stamp stored ciphertext version) := by
  intro versioned same
  rw [stamp_id] at same
  obtain ⟨_, -⟩ := since versioned same
  have raised : (table.stamp stored ciphertext version).rowVersion = stored.rowVersion + 1 := by
    cases table <;> first | rfl | exact absurd rfl versioned
  rw [raised]
  exact ⟨by omega, fun same => by omega⟩

theorem InstanceTable.Since.hit {table : InstanceTable} {row stored : InstanceRow}
    (since : table.Since row stored) (hit : (instanceSweep live wh table).hits row stored = true) :
    stored.ciphertext = row.ciphertext := by
  simp only [instanceSweep] at hit
  split at hit
  · simp_all
  · simp_all
  · rename_i versioned _
    simp only [decide_eq_true_eq] at hit
    exact (since versioned hit.1).2 hit.2.symm

theorem putAll_since {table : InstanceTable} {row : InstanceRow} {sealer : Sealer}
    (replacements : List Replacement)
    (run : putAll sealer handle nonce tables (replacements.map fun r => .inl r.put) = .ok tables')
    (since : ∀ stored ∈ tables.inst table, table.Since row stored) :
    ∀ stored ∈ tables'.inst table, table.Since row stored := by
  induction replacements generalizing tables nonce with
  | nil =>
    cases run
    exact since
  | cons r _ ih =>
    obtain ⟨_, written, run⟩ := bind_eq_ok.mp run
    refine ih run fun stored mem => ?_
    obtain ⟨target, _⟩ := r
    cases target with
    | inl =>
      cases sealer with
      | inst => cases written
      | project =>
        cases written
        exact since stored mem
    | inr target =>
      cases sealer with
      | project => cases written
      | inst =>
        cases written
        by_cases here : table = target
        · subst here
          simp only [setInstanceField, Tables.setInstance, update_self] at mem
          rcases mem_updateWhere.mp mem with ⟨old, inOld, -, rfl⟩ | ⟨inOld, -⟩
          · exact (since old inOld).stamp _ _
          · exact since stored inOld
        · simp only [setInstanceField, Tables.setInstance, update_of_ne here] at mem
          exact since stored mem

theorem alike_ids {rows others : List InstanceRow}
    (alike : List.Forall₂ (InstanceRow.Alike set) rows others) :
    rows.map (·.id) = others.map (·.id) := by
  induction alike with
  | nil => rfl
  | cons head _ ih => rw [map_cons, map_cons, head.1, ih]

theorem instancePass_safe (chunkSize : Nat) (table : InstanceTable) (within : Within live set)
    (held : set.handleAt wh.version = some wh) :
    (instancePass chunkSize live wh table).Safe set (·.inst table) table.Since where
  read := by
    intro tables others _ row stored wf alike listed mem _ same
    have distinct : ((tables.inst table).map (·.id)).Nodup :=
      alike_ids (alike.inst table) ▸ wf.instanceIDs table
    rw [inj_on_of_nodup_map distinct mem (mem_of_mem_page listed) same]
    exact ⟨le_refl _, fun _ => rfl⟩
  written := by
    intro tables row _ _ nonce replacements since
    unfold replaceAll
    split
    · rename_i written run
      unfold write at run
      split at run
      · cases run
      · obtain ⟨-, -, run⟩ := bind_eq_ok.mp run
        exact putAll_since replacements run since
    · exact since
  swap := by
    intro _ _ _ nonce _ _ swapped since alike
    obtain ⟨⟨_, _⟩, run, same⟩ := map_eq_ok.mp ((walkInstanceRows_eq ..).symm.trans swapped)
    cases same
    have kept :=
      Sweep.rows_alike (InstanceRow.Alike set) table.Since ?_ ?_ run since (alike.inst table)
    · have onward := alike.setInstance table kept
      simpa only [Tables.setInstance, Function.update_eq_self] using onward
    · intro nonce row change renewed stored _ known hit same
      obtain ⟨plaintext, opened, rfl⟩ := instanceSweep_renew renewed
      refine ⟨by rw [stamp_id]; exact same.1, fun aad => ?_⟩
      rw [← same.2 aad, stamp_ciphertext, known.hit hit]
      exact reseal_alike opened within held nonce aad
    · intro _ _ _ renewed _ _ known
      obtain ⟨_, -, rfl⟩ := instanceSweep_renew renewed
      exact known.stamp _ _

theorem projectPass_sweeps (chunkSize : Nat) (orgID projectID : String) (table : ProjectTable) :
    (projectPass chunkSize orgID projectID deks table).Sweeps chunkSize
    (projectSweep orgID projectID deks table) (·.project table) where
  isExact := projectSweep_exact orgID projectID table
  id := rfl
  list := fun _ _ => rfl
  swap := by
    intro _ _ _ _ _ swapped
    obtain ⟨⟨_, _⟩, run, same⟩ :=
      map_eq_ok.mp ((walkProjectRows_eq orgID projectID ..).symm.trans swapped)
    cases same
    simpa only [Tables.setProject, update_self] using run

theorem instancePass_sweeps (chunkSize : Nat) (table : InstanceTable) :
    (instancePass chunkSize live wh table).Sweeps chunkSize (instanceSweep live wh table)
    (·.inst table) where
  isExact := instanceSweep_exact table
  id := rfl
  list := fun tables cursor => by simp [instancePass, listInstance, instanceSweep]
  swap := by
    intro _ _ _ _ _ swapped
    obtain ⟨⟨_, _⟩, run, same⟩ := map_eq_ok.mp ((walkInstanceRows_eq ..).symm.trans swapped)
    cases same
    simpa only [Tables.setInstance, update_self] using run

/-- Every row opens as it would without the walk; an undisturbed walk ends with every row on the
active version. -/
theorem reencryption_transparent (chunkSize : Nat) (set : VersionSet) (start : Tables)
    (wf : WellFormed start) (turns : List Turn) :
    (∀ (orgID projectID : String) (deks : VersionSet) (table : ProjectTable), Within deks set →
      let w := walkFrom (projectPass chunkSize orgID projectID deks table) chunkSize
        { tables := start } turns
      Tables.Alike set w.tables (writersOnly start turns) ∧
        ((∀ turn ∈ turns, ¬ turn.IsWrite) → w.phase = .finished →
          (∀ row ∈ w.tables.project table, row.scope = ⟨.project, orgID, projectID⟩ →
            row.offVersion deks.active = false) ∧
            w.moved = changed (start.project table) (w.tables.project table))) ∧
    ∀ (live : VersionSet) (wh : KeyHandle) (table : InstanceTable), Within live set →
      set.handleAt wh.version = some wh →
      let w := walkFrom (instancePass chunkSize live wh table) chunkSize { tables := start } turns
      Tables.Alike set w.tables (writersOnly start turns) ∧
        ((∀ turn ∈ turns, ¬ turn.IsWrite) → w.phase = .finished →
          (∀ row ∈ w.tables.inst table, table.versionOf row = wh.version) ∧
            w.moved = changed (start.inst table) (w.tables.inst table)) := by
  refine ⟨fun orgID projectID deks table within => ?_, fun live wh table within held => ?_⟩
  · refine ⟨walk_alike (projectPass_safe chunkSize orgID projectID table within) wf turns,
      fun walks ended => ?_⟩
    obtain ⟨done, count⟩ :=
      walk_complete (projectPass_sweeps chunkSize orgID projectID table) (wf.projectIDs table)
      (wf.projectNamed table) walks ended
    refine ⟨fun row mem inScope => ?_, count⟩
    have columns := Scope.mk.inj inScope
    cases isCiphertext : row.ciphertext with
    | none => simp [ProjectRow.offVersion, isCiphertext]
    | some =>
      have onActive := done row mem (by simp [projectSweep, columns, isCiphertext])
      simpa [projectSweep, isCiphertext, ProjectRow.offVersion] using onActive
  · refine ⟨walk_alike (instancePass_safe chunkSize table within held) wf turns,
      fun walks ended => ?_⟩
    obtain ⟨done, count⟩ := walk_complete (instancePass_sweeps chunkSize table)
      (wf.instanceIDs table) (wf.instanceNamed table) walks ended
    exact ⟨fun row mem => of_decide_eq_true (done row mem rfl), count⟩

def rotatedSet : VersionSet := ⟨2, [⟨4, 1, 104⟩, ⟨5, 2, 105⟩]⟩

def rotatedValue : ProjectRow :=
  ⟨"o", "p", "val_1", "e", "k", "", "",
    some (sealRecord ⟨4, 1, 104⟩ 1 (.value "o" "p" "e" "k" "val_1" "value") "plain")⟩

def rotatedTables : Tables := Tables.empty.setProject .value [rotatedValue]

def rotatedDB : KeyDB :=
  ⟨[], [⟨⟨5, .project, "o", "p", 2, 1, ⟨7, (.master 1, .wrappedDEK "o" "p" 5 2 1), 105⟩⟩, .active⟩],
    [], 0⟩

theorem reencryption_transparent_retried :
    (walkFrom (projectPass 5 "o" "p" rotatedSet .value) 5 { tables := rotatedTables } [.attempt,
      .attempt, .commit rotatedDB 9]).moved =
      changed [rotatedValue]
        ((walkFrom (projectPass 5 "o" "p" rotatedSet .value) 5 { tables := rotatedTables }
        [.attempt, .attempt, .commit rotatedDB 9]).tables.project .value) ∧ changed [rotatedValue]
      ((walkFrom (projectPass 5 "o" "p" rotatedSet .value) 5 { tables := rotatedTables }
        [.attempt, .attempt, .commit rotatedDB 9]).tables.project .value) = 1 := by
  have wf : WellFormed rotatedTables := by
    constructor <;> intro table <;> cases table <;> decide
  obtain ⟨-, complete⟩ :=
    (reencryption_transparent 5 rotatedSet rotatedTables wf [.attempt, .attempt,
      .commit rotatedDB 9]).1
    "o" "p" rotatedSet .value fun _ _ found => found
  obtain ⟨-, count⟩ := complete (by simp [Turn.IsWrite]) (by decide)
  exact ⟨count, by decide⟩

end Hikyo.Reencrypt
