import Hikyo.KeyHierarchy.System
import Hikyo.Reencrypt.Tables

/-!
# The re-encrypt walk

The re-encryption of a scope: `walkChunked` over each of its tables, where each chunk is a
transaction of its own, then the check for stragglers and the retirement.  Between two transactions
anything may happen, a crash of the process included.
-/

namespace Hikyo.Reencrypt

open Hikyo.Lib Hikyo.KeyHierarchy

/-- The page query of a project table; `dynamic_providers` skips cleared credentials. -/
def listProject (tables : Tables) (table : ProjectTable) (orgID projectID cursor : String)
    (chunkSize : Nat) : List ProjectRow :=
  page (·.id)
    ((tables.project table).filter fun row =>
      row.orgID = orgID ∧ row.projectID = projectID ∧
        (table = .dynamicProvider → row.ciphertext.isSome))
    cursor chunkSize

def listInstance (tables : Tables) (table : InstanceTable) (cursor : String) (chunkSize : Nat) :
    List InstanceRow :=
  page (·.id) (tables.inst table) cursor chunkSize

def casProject (tables : Tables) (table : ProjectTable) (row : ProjectRow) (old new : Record) :
    Tables × Nat :=
  let selected : ProjectRow → Bool := fun other =>
    isProjectRow row.orgID row.projectID row.id other ∧ other.ciphertext = some old
  (setCiphertext tables table selected fun _ => some new, (tables.project table).countP selected)

/-- The seed inputs also compare the ciphertext, and `remotes` compares only the ciphertext. -/
def resealInstance (tables : Tables) (table : InstanceTable) (row : InstanceRow) (new : Record)
    (active : Nat) : Tables × Nat :=
  let selected : InstanceRow → Bool := fun other =>
    match table with
    | .remotes => other.id = row.id ∧ other.ciphertext = row.ciphertext
    | .selfConfigSeedInputs =>
      other.id = row.id ∧ other.rowVersion = row.rowVersion ∧ other.ciphertext = row.ciphertext
    | _ => other.id = row.id ∧ other.rowVersion = row.rowVersion
  (setInstanceField tables table selected (fun _ => new) active,
    (tables.inst table).countP selected)

/-- The rows of one page, in order; `moved` counts the swaps that hit. -/
def walkProjectRows (table : ProjectTable) (deks : VersionSet) :
    List ProjectRow → Tables → Nat → Nat → Except TableError (Tables × Nat)
  | [], tables, _, moved => .ok (tables, moved)
  | row :: rest, tables, nonce, moved =>
    match row.ciphertext with
    -- An unset pending draft holds no ciphertext to move.
    | none => walkProjectRows table deks rest tables nonce moved
    | some old =>
      if recordKeyVersion old = deks.active then
        walkProjectRows table deks rest tables nonce moved
      else
        match openVersioned deks (table.aad row) old, deks.activeHandle with
        | some plaintext, some handle =>
          let new := sealRecord handle nonce (table.aad row) plaintext
          let swapped := casProject tables table row old new
          walkProjectRows table deks rest swapped.1 (nonce + 1)
            (if swapped.2 = 1 then moved + 1 else moved)
        | _, _ => .error (.openFailed table.name row.id)

/-- `live` is the process's instance set, `wh` the handle captured for writing. -/
def walkInstanceRows (table : InstanceTable) (live : VersionSet) (wh : KeyHandle) :
    List InstanceRow → Tables → Nat → Nat → Except TableError (Tables × Nat)
  | [], tables, _, moved => .ok (tables, moved)
  | row :: rest, tables, nonce, moved =>
    if table.versionOf row = wh.version then
      walkInstanceRows table live wh rest tables nonce moved
    else
      match openVersioned live (table.aad row.id) row.ciphertext with
      | some plaintext =>
        let new := sealRecord wh nonce (table.aad row.id) plaintext
        let swapped := resealInstance tables table row new wh.version
        walkInstanceRows table live wh rest swapped.1 (nonce + 1)
          (if swapped.2 = 1 then moved + 1 else moved)
      | none => .error (.openFailed table.name row.id)

structure Chunk where
  tables : Tables
  next : String
  seen : Nat
  delta : Nat

def projectChunk (chunkSize : Nat) (db : KeyDB) (tables : Tables) (orgID projectID : String)
    (deks : VersionSet) (table : ProjectTable) (cursor : String) (nonce : Nat) :
    Except TableError Chunk := do
  fence db ⟨.project, orgID, projectID⟩ deks.active
  let rows := listProject tables table orgID projectID cursor chunkSize
  let (moved, delta) ← walkProjectRows table deks rows tables nonce 0
  pure ⟨moved, cursorAfter (·.id) cursor rows, rows.length, delta⟩

def instanceChunk (chunkSize : Nat) (db : KeyDB) (tables : Tables) (live : VersionSet)
    (wh : KeyHandle) (table : InstanceTable) (cursor : String) (nonce : Nat) :
    Except TableError Chunk := do
  fence db instanceScope wh.version
  let rows := listInstance tables table cursor chunkSize
  let (moved, delta) ← walkInstanceRows table live wh rows tables nonce 0
  pure ⟨moved, cursorAfter (·.id) cursor rows, rows.length, delta⟩

def ProjectRow.offVersion (active : Nat) (row : ProjectRow) : Bool :=
  row.ciphertext.any fun ciphertext => recordKeyVersion ciphertext ≠ active

/-- The cursor grows with every full page, so as many pages as rows, and one more, are enough. -/
def projectTableStraggler (chunkSize : Nat) (tables : Tables) (orgID projectID : String)
    (active : Nat) (table : ProjectTable) : Except TableError Unit :=
  let rows := (tables.project table).filter fun row =>
    row.orgID = orgID ∧ row.projectID = projectID ∧
      (table = .dynamicProvider → row.ciphertext.isSome)
  match findPaged (·.id) rows chunkSize (ProjectRow.offVersion active) (rows.length + 1) "" with
  | some none => .ok ()
  | some (some row) => .error (.straggler table.name row.id)
  | none => .error .scanUnfinished

def instanceStraggler (chunkSize : Nat) (tables : Tables) (active : Nat) (table : InstanceTable) :
    Except TableError Unit :=
  let rows := tables.inst table
  match findPaged (·.id) rows chunkSize (fun row => table.versionOf row ≠ active)
    (rows.length + 1) "" with
  | some none => .ok ()
  | some (some row) => .error (.straggler table.name row.id)
  | none => .error .scanUnfinished

def checkAll {T : Type} (check : T → Except TableError Unit) : List T → Except TableError Unit
  | [] => .ok ()
  | table :: rest => do
    check table
    checkAll check rest

def retireScope (db : KeyDB) (scope : Scope) : Except TableError KeyDB :=
  match retireRetiringTier3 db scope with
  | .ok (retired, _) => .ok retired
  | .error error => .error (.key error)

def retireProject (chunkSize : Nat) (db : KeyDB) (tables : Tables) (orgID projectID : String)
    (active : Nat) : Except TableError KeyDB := do
  fence db ⟨.project, orgID, projectID⟩ active
  checkAll (projectTableStraggler chunkSize tables orgID projectID active) projectTables
  retireScope db ⟨.project, orgID, projectID⟩

def retireInstance (chunkSize : Nat) (db : KeyDB) (tables : Tables) (active : Nat) :
    Except TableError KeyDB := do
  fence db instanceScope active
  checkAll (instanceStraggler chunkSize tables active) instanceTables
  retireScope db instanceScope

/-- A walk in progress: the tables still to walk, the first of them being at `cursor`. -/
inductive Job
  | project (orgID projectID : String) (deks : VersionSet) (remaining : List ProjectTable)
  | inst (wh : KeyHandle) (remaining : List InstanceTable)

structure Walk where
  proc : ProcID
  job : Job
  cursor : String
  moved : Nat

structure State where
  keys : KeyHierarchy.System
  tables : Tables
  sealers : List (ProcID × Sealer)
  walks : List Walk

def State.initial : State := ⟨.initial, .empty, [], []⟩

inductive Action
  /-- Any action of the key hierarchy; retiring a scope is left to the walk's last transaction. -/
  | keys (action : KeyHierarchy.Action)
  | reloadInstance (p : ProcID)
  | openProjectSealer (p : ProcID) (orgID projectID : String)
  | openInstanceSealer (p : ProcID)
  | write (sealer nonce : Nat) (statements : List (Put ⊕ Edit))
  | edit (statement : Edit)
  | startProject (p : ProcID) (orgID projectID : String)
  | startInstance (p : ProcID)
  | chunk (walk nonce : Nat)
  | retire (walk : Nat)
  | stop (walk : Nat)

def keyringOf (s : State) (p : ProcID) : Option Keyring :=
  match s.keys.procs p with
  | .up k _ => some k
  | _ => none

def State.dropProc (s : State) (p : ProcID) : State :=
  { s with
    sealers := s.sealers.filter fun entry => entry.1 ≠ p
    walks := s.walks.filter fun walk => walk.proc ≠ p }

def crashedProc : KeyHierarchy.Action → Option ProcID
  | .crash p => some p
  | _ => none

def stepKeys (s : State) (action : KeyHierarchy.Action) : Option State :=
  match action with
  | .retireRetiring _ => none
  | action => do
    let keys ← KeyHierarchy.step s.keys action
    let next := { s with keys }
    match crashedProc action with
    | some p => some (next.dropProc p)
    | none => some next

def advance (chunkSize : Nat) (walk : Walk) (chunk : Chunk) (shorter : Job) : Walk :=
  if chunk.seen < chunkSize then
    { walk with job := shorter, cursor := "", moved := walk.moved + chunk.delta }
  else { walk with cursor := chunk.next, moved := walk.moved + chunk.delta }

def settleChunk (chunkSize : Nat) (s : State) (index : Nat) (walk : Walk) (shorter : Job) :
    Except TableError Chunk → State
  | .ok chunk => { s with
      tables := chunk.tables
      walks := s.walks.set index (advance chunkSize walk chunk shorter) }
  | .error _ => { s with walks := s.walks.eraseIdx index }

def settleRetire (s : State) (index : Nat) : Except TableError KeyDB → State
  | .ok db => { s with keys := { s.keys with db }, walks := s.walks.eraseIdx index }
  | .error _ => { s with walks := s.walks.eraseIdx index }

def step (chunkSize : Nat) (s : State) : Action → Option State
  | .keys action => stepKeys s action
  | .reloadInstance p =>
    match s.keys.procs p, s.keys.db.tier3Versions instanceScope with
    | .up k rotation, row :: rest =>
      match buildVersionSet k.master (row :: rest) with
      | .ok set =>
          some { s with keys := s.keys.setProc p (.up { k with instanceDEK := set } rotation) }
      | .error _ => none
    | _, _ => none
  | .openProjectSealer p orgID projectID => do
    let k ← keyringOf s p
    let deks ← k.deks.lookup ⟨.project, orgID, projectID⟩
    some { s with sealers := s.sealers ++ [(p, .project orgID projectID deks)] }
  | .openInstanceSealer p => do
    let k ← keyringOf s p
    let wh ← k.instanceDEK.activeHandle
    some { s with sealers := s.sealers ++ [(p, .inst wh)] }
  | .write index nonce statements => do
    let (_, sealer) ← s.sealers[index]?
    match write s.keys.db s.tables sealer nonce statements with
    | .ok tables => some { s with tables }
    | .error _ => none
  | .edit statement => some { s with tables := Reencrypt.edit s.tables statement }
  | .startProject p orgID projectID => do
    let k ← keyringOf s p
    let deks ← k.deks.lookup ⟨.project, orgID, projectID⟩
    some { s with walks := s.walks ++ [⟨p, .project orgID projectID deks projectTables, "", 0⟩] }
  | .startInstance p => do
    let k ← keyringOf s p
    let wh ← k.instanceDEK.activeHandle
    some { s with walks := s.walks ++ [⟨p, .inst wh instanceTables, "", 0⟩] }
  | .chunk index nonce => do
    let walk ← s.walks[index]?
    match walk.job with
    | .project orgID projectID deks (table :: rest) =>
      some (settleChunk chunkSize s index walk (.project orgID projectID deks rest)
        (projectChunk chunkSize s.keys.db s.tables orgID projectID deks table walk.cursor nonce))
    | .inst wh (table :: rest) =>
      let k ← keyringOf s walk.proc
      some (settleChunk chunkSize s index walk (.inst wh rest)
        (instanceChunk chunkSize s.keys.db s.tables k.instanceDEK wh table walk.cursor nonce))
    | _ => none
  | .retire index => do
    let walk ← s.walks[index]?
    match walk.job with
    | .project orgID projectID deks [] =>
      some (settleRetire s index
        (retireProject chunkSize s.keys.db s.tables orgID projectID deks.active))
    | .inst wh [] =>
      some (settleRetire s index (retireInstance chunkSize s.keys.db s.tables wh.version))
    | _ => none
  | .stop index => some { s with walks := s.walks.eraseIdx index }

def run (chunkSize : Nat) : State → List Action → State := runFrom (step chunkSize)

end Hikyo.Reencrypt
