import Hikyo.Compose.ManagedBlock
import Hikyo.Lib.Program

/-!
# Render generations

The render generations of a stack on its disk, and the verbs publish, recover and collect as
programs over it.  Each filesystem step is one `act`, and a run crashes where its fuse has burnt
down, which may be in the midst of a recursive removal.  What the operating system leaves open (the
order of listings, the ages of directories) is an argument, and stamps are an ideal keyed hash of
target and content.
-/

namespace Hikyo.Compose

open Hikyo.Lib

/-- The local key of an installation, as far as stamps go: an ideal keyed hash. -/
structure LocalKeys where
  stamp : String → String
  wellFormed : ∀ message, parseStamp none (stamp message) = true
  collisionFree : ∀ {message message' : String}, stamp message = stamp message' → message = message'

def targetContentDomain : String := "hikyo-target-content-v1\x00"

def targetSep : String := "\x00"

def targetStamp (keys : LocalKeys) (target content : String) : String :=
  keys.stamp (targetContentDomain ++ target ++ targetSep ++ content)

structure Generation where
  files : Named String := []
  complete : Bool := false
deriving DecidableEq

inductive Entry
  | file (target : String)
  | marker

def Generation.entries (dir : Generation) : List Entry :=
  dir.files.names.map Entry.file ++ if dir.complete then [.marker] else []

/-- The runtime directory, which is empty where there is none, and the `.env` file. -/
structure Disk where
  runtime : Named Generation := []
  env : List Char := []

/-- What the operating system leaves open: the orders of entries, and the ages of generations. -/
structure Listing where
  dirs : List String → List String
  entries : List Entry → List Entry
  victims : List String → List String
  mtime : String → Nat
  dirs_perm : ∀ names, (dirs names).Perm names
  entries_perm : ∀ names, (entries names).Perm names
  victims_perm : ∀ names, (victims names).Perm names

inductive Fault
  | crash
  | noTargets
  | invalidTarget (target : String)
  | managedBlock (error : BlockError)
  | dirExists (stamp : String)
  | noDir (stamp : String)
  | dirNotEmpty (stamp : String)
  | reverify (stamp : String)
  | contentMismatch (stamp : String)
  | stampGrammar (stamp : String)
  | foreignEntry (name : String)
  | invalidTargetFile (target : String)
  | multipleTargetFiles (target other : String)
  | targetFileMissing
deriving DecidableEq

structure World where
  disk : Disk
  fuse : Option Nat := none

abbrev Fs := EStateM Fault World

def act (effect : Disk → Except Fault Disk) : Fs PUnit := fun world =>
  if world.fuse = some 0 then .error .crash world
  else
    match effect world.disk with
    | .ok disk => .ok ⟨⟩ { disk, fuse := world.fuse.map (· - 1) }
    | .error fault => .error fault world

def readDisk : Fs Disk := fun world => .ok world.disk world

def liftBlock {α : Type} (result : Except BlockError α) : Fs α :=
  match result with
  | .ok a => pure a
  | .error e => throw (.managedBlock e)

def mkdir (stamp : String) (disk : Disk) : Except Fault Disk :=
  if (disk.runtime.lookup stamp).isSome then .error (.dirExists stamp)
  else .ok { disk with runtime := disk.runtime.assign stamp {} }

def inDir (stamp : String) (change : Generation → Generation) (disk : Disk) : Except Fault Disk :=
  match disk.runtime.lookup stamp with
  | none => .error (.noDir stamp)
  | some dir => .ok { disk with runtime := disk.runtime.assign stamp (change dir) }

def Generation.create (target : String) (dir : Generation) : Generation :=
  { dir with files := dir.files.assign target "" }

def Generation.write (target content : String) (dir : Generation) : Generation :=
  { dir with files := dir.files.assign target content }

def Generation.mark (dir : Generation) : Generation := { dir with complete := true }

def Generation.unlink (entry : Entry) (dir : Generation) : Generation :=
  match entry with
  | .file target => { dir with files := dir.files.erase target }
  | .marker => { dir with complete := false }

def rmdir (stamp : String) (disk : Disk) : Except Fault Disk :=
  match disk.runtime.lookup stamp with
  | none => .error (.noDir stamp)
  | some dir =>
      if dir.entries = [] then .ok { disk with runtime := disk.runtime.erase stamp }
        else .error (.dirNotEmpty stamp)

def removeAll (os : Listing) (stamp : String) : Fs PUnit := do
  let disk ← readDisk
  match disk.runtime.lookup stamp with
  | none => pure ⟨⟩
  | some dir =>
    (os.entries dir.entries).forM fun entry => act (inDir stamp (Generation.unlink entry))
    act (rmdir stamp)

section Verbs
variable (os : Listing) (keys : LocalKeys)

def materialize (stamp target content : String) : Fs PUnit := do
  act (mkdir stamp)
  act (inDir stamp (Generation.create target))
  act (inDir stamp (Generation.write target content))
  act (inDir stamp Generation.mark)

def writeGeneration (target content : String) : Fs (String × Bool) := do
  let stamp := targetStamp keys target content
  let disk ← readDisk
  if targetNameGrammar target = false then throw (.invalidTarget target)
  else
    match disk.runtime.lookup stamp with
    | none => do
      materialize stamp target content
      return (stamp, true)
    | some dir =>
      if dir.complete then
        match dir.files.lookup target with
        | none => throw (.reverify stamp)
        | some existing =>
          if targetStamp keys target existing = stamp then return (stamp, false)
          else throw (.contentMismatch stamp)
      else do
        removeAll os stamp
        materialize stamp target content
        return (stamp, true)

def currentStamps : Fs (Named String) := do
  let disk ← readDisk
  liftBlock (parseManagedBlock none disk.env)

def commitStamps (stamps : Named String) : Fs PUnit := do
  let disk ← readDisk
  match stamps.find? (fun entry => parseStamp none entry.2 = false) with
  | some entry => throw (.stampGrammar entry.2)
  | none => do
    let _ ← liftBlock (parseManagedBlock none disk.env)
    let next ← liftBlock (spliceManagedBlock disk.env (renderManagedBlock stamps))
    act fun disk => .ok { disk with env := next }

def soleTarget (met : Option String) : List Entry → Except Fault String
  | [] =>
    match met with
    | none => .error .targetFileMissing
    | some target => .ok target
  | .marker :: rest => soleTarget met rest
  | .file candidate :: rest =>
    if targetNameGrammar candidate = false then .error (.invalidTargetFile candidate)
    else
      match met with
      | some target => .error (.multipleTargetFiles target candidate)
      | none => soleTarget (some candidate) rest

def generationTarget (dir : Generation) : Except Fault String :=
  soleTarget none (os.entries dir.entries)

/-- What is incomplete is removed, and each superseded generation is filed under its target. -/
def collect (current : List String) : List String → Fs (List (String × String))
  | [] => pure []
  | name :: rest =>
    if parseStamp none name = false then throw (.foreignEntry name)
    else if name ∈ current then collect current rest
    else do
      let disk ← readDisk
      match disk.runtime.lookup name with
      | none => collect current rest
      | some dir =>
        if dir.complete then
          match generationTarget os dir with
          | .error fault => throw fault
          | .ok target => do
            let others ← collect current rest
            return (target, name) :: others
        else do
          removeAll os name
          collect current rest

def superfluous (keep : Nat) (superseded : List (String × String)) : List String :=
  (superseded.map (·.1)).dedup.flatMap fun target =>
    (((superseded.filter (·.1 = target)).map (·.2)).insertionSort fun a b =>
      os.mtime b ≤ os.mtime a).drop keep

def gc (keep : Nat) : Fs PUnit := do
  let stamps ← currentStamps
  let disk ← readDisk
  let superseded ← collect os (stamps.map (·.2)) (os.dirs disk.runtime.names)
  (os.victims (superfluous os keep superseded)).forM (removeAll os)

def recoverDir (name : String) : Fs PUnit := do
  let disk ← readDisk
  if parseStamp none name = false then throw (.foreignEntry name)
  else
    match disk.runtime.lookup name with
    | none => pure ⟨⟩
    | some dir => if dir.complete then pure ⟨⟩ else removeAll os name

def recover : Fs PUnit := do
  let disk ← readDisk
  (os.dirs disk.runtime.names).forM (recoverDir os)

def defaultGenerationsKept : Nat := 3

def writeGenerations (plan : Named String) : Fs PUnit :=
  plan.forM fun entry => do
    let _ ← writeGeneration os keys entry.1 entry.2
    pure ⟨⟩

def planStamps (plan : Named String) : Named String :=
  plan.map fun entry => (entry.1, targetStamp keys entry.1 entry.2)

def publish (plan : Named String) : Fs PUnit := do
  if plan = [] then throw .noTargets
  else
    match plan.find? (fun entry => targetNameGrammar entry.1 = false) with
    | some entry => throw (.invalidTarget entry.1)
    | none => do
      let _ ← currentStamps
      writeGenerations os keys (plan.insertionSort fun a b => a.1 ≤ b.1)
      commitStamps (planStamps keys plan)
      gc os defaultGenerationsKept

end Verbs

structure Plan where
  targets : Named String
  distinct : targets.names.Nodup

inductive Verb
  | publish (plan : Plan)
  | recover
  | gc (keep : Nat)

structure Run where
  verb : Verb
  os : Listing
  fuse : Option Nat := none

def verbProgram (keys : LocalKeys) (os : Listing) : Verb → Fs PUnit
  | .publish plan => publish os keys plan.targets
  | .recover => recover os
  | .gc keep => gc os keep

def Run.result (keys : LocalKeys) (run : Run) (disk : Disk) : Option Fault × Disk :=
  match verbProgram keys run.os run.verb { disk, fuse := run.fuse } with
  | .ok _ world => (none, world.disk)
  | .error fault world => (some fault, world.disk)

def diskAfter (keys : LocalKeys) (disk : Disk) (runs : List Run) : Disk :=
  runs.foldl (fun disk run => (run.result keys disk).2) disk

end Hikyo.Compose
