import Hikyo.Compose.Generation
import Hikyo.Compose.RenderPlan

/-!
# The conditional fetch

A compose stack keeps the cursor of its last fetch with the binding it was fetched under and the
stamps it published.  `eligibleCursor` offers it to the server again if binding, stamps and files
match what stands now.  `Stack.act` is what may happen to a stack: renders, answered from the server
or from the offline snapshot, edits of the configuration, changes of key or mode, and removals of
files.
-/

namespace Hikyo.Compose

open Hikyo.Lib Hikyo.Project Hikyo.Delivery

structure CursorBinding where
  credentialID : String
  environment : String
  configOnly : Bool
  pinnedRevision : Int
  projection : List String
  targetKeyIDs : Named (List KeyID)
deriving DecidableEq

def canonicalSet {α : Type} [LinearOrder α] (items : List α) : List α :=
  items.dedup.insertionSort (· ≤ ·)

/-- The targets are a map, so they are compared in the order of their names. -/
def CursorBinding.canonical (binding : CursorBinding) : CursorBinding :=
  { binding with
    projection := canonicalSet binding.projection
    targetKeyIDs :=
      (binding.targetKeyIDs.map fun target => (target.1, canonicalSet target.2)).insertionSort
      fun a b => a.1 ≤ b.1 }

def CursorBinding.equal (binding other : CursorBinding) : Bool :=
  binding.canonical = other.canonical

structure CursorState where
  cursor : String
  binding : CursorBinding
  generationStamps : Named String

def CursorState.standing (state : CursorState) (currentStamps : Named String) (disk : Disk)
    (target : String) : Bool :=
  match state.generationStamps.lookup target with
  | none => false
  | some stamp =>
    parseStamp none stamp && currentStamps.lookup target == some stamp &&
      match disk.runtime.lookup stamp with
      | none => false
      | some dir => dir.complete && (dir.files.lookup target).isSome

def eligibleCursor (state : CursorState) (want : CursorBinding) (currentStamps : Named String)
    (disk : Disk) : Option String :=
  if state.binding.equal want = false then none
  else if state.generationStamps.length ≠ want.targetKeyIDs.length then none
  else if currentStamps.length ≠ want.targetKeyIDs.length then none
  else if want.targetKeyIDs.names.all (state.standing currentStamps disk) then some state.cursor
  else none

/-- The local keys that an installation may create; no two of them give one stamp. -/
structure Keyring where
  key : Nat → LocalKeys
  apart : ∀ {k k' : Nat} {message message' : String},
    (key k).stamp message = (key k').stamp message' → k = k'

/-- A stored cursor, with the configuration and the local key it was stored under. -/
structure Saved where
  state : CursorState
  config : Config
  key : Nat

structure Stack where
  config : Config
  configOnly : Bool
  token : String
  key : Nat
  disk : Disk
  stored : Option Saved

def targetKeyIDs (cfg : Config) : Named (List KeyID) :=
  cfg.targets.map fun target => (target.1, target.2.keys)

def deliveryProjection (keys : List DeliveredKey) : List String :=
  "read" ::
    if keys.any fun key => key.classification == .secret && key.value.isSome then ["reveal"] else []

def publishTargets (plan : RenderPlan) : Named String :=
  plan.targets.foldl (fun targets target => targets.assign target.name target.content) []

theorem nodup_publishTargets (plan : RenderPlan) : (publishTargets plan).names.Nodup := by
  have step : ∀ (rest : List RenderTargetPlan) (targets : Named String), targets.names.Nodup →
      (Named.names (rest.foldl (fun targets target => targets.assign target.name target.content)
        targets)).Nodup := by
    intro rest
    induction rest with
    | nil => exact fun targets distinct => distinct
    | cons target _ ih =>
        exact fun targets distinct => ih _ (Named.nodup_assign distinct target.content)
  exact step plan.targets [] List.nodup_nil

def RenderPlan.publishPlan (plan : RenderPlan) : Plan :=
  ⟨publishTargets plan, nodup_publishTargets plan⟩

inductive Answer
  | unavailable (rows : Option (List SnapshotRow))
  | current
  | full (cursor : String) (pinnedRevision : Int)

/-- After a publication a render may still fail to save the cursor. -/
structure Render where
  answer : Answer
  recoverOs : Listing
  recoverFuse : Option Nat := none
  publishOs : Listing
  publishFuse : Option Nat := none
  saves : Bool := true

section Stack
variable (ring : Keyring) (sent : String → List DeliveredKey) (fingerprint : String → String)

/-- The binding of the stack as it stands.  What only the server knows is taken from the
stored cursor. -/
def Stack.cursorBinding (stack : Stack) (stored : CursorState) : CursorBinding where
  credentialID := fingerprint stack.token
  environment := stack.config.environment
  configOnly := stack.configOnly
  pinnedRevision := stored.binding.pinnedRevision
  projection := stored.binding.projection
  targetKeyIDs := targetKeyIDs stack.config

def Stack.offered (stack : Stack) : Option String := do
  let stored ← stack.stored
  let currentStamps ← (parseManagedBlock none stack.disk.env).toOption
  eligibleCursor stored.state (stack.cursorBinding fingerprint stored.state)
    currentStamps stack.disk

def Stack.saveCursor (stack : Stack) (cursor : String) (pinnedRevision : Int)
    (stamps : Named String) : Saved where
  state :=
    { cursor
      binding :=
        { credentialID := fingerprint stack.token
          environment := stack.config.environment
          configOnly := stack.configOnly
          pinnedRevision
          projection := deliveryProjection (sent cursor)
          targetKeyIDs := targetKeyIDs stack.config }
      generationStamps := stamps }
  config := stack.config
  key := stack.key

def Stack.publishPlan (stack : Stack) (render : Render) (plan : RenderPlan) : Option Fault × Disk :=
  Run.result (ring.key stack.key)
    { verb := .publish plan.publishPlan, os := render.publishOs, fuse := render.publishFuse }
    stack.disk

def Stack.renderApply (stack : Stack) (render : Render)
    (cursor : String) (pinnedRevision : Int) : Stack :=
  match buildRenderPlan (liveRenderInput stack.config stack.configOnly (sent cursor)) with
  | .error _ => stack
  | .ok plan =>
    if plan.refusals ≠ [] then stack
    else
      match stack.publishPlan ring render plan with
      | (some _, disk) => { stack with disk }
      | (none, disk) =>
        if render.saves then
          let stamps := planStamps (ring.key stack.key) plan.publishPlan.targets
          { stack with
            disk
            stored := some (stack.saveCursor sent fingerprint cursor pinnedRevision stamps) }
        else { stack with disk }

def Stack.renderOffline (stack : Stack) (render : Render) (rows : List SnapshotRow) : Stack :=
  match buildRenderPlan (offlineRenderInput stack.config stack.configOnly rows) with
  | .error _ => stack
  | .ok plan =>
    if plan.refusals ≠ [] then stack
    else { stack with disk := (stack.publishPlan ring render plan).2 }

/-- `composeRenderCore`: torn generations are removed before anything is fetched. -/
def Stack.render (stack : Stack) (render : Render) : Stack :=
  match Run.result (ring.key stack.key)
    { verb := .recover, os := render.recoverOs, fuse := render.recoverFuse } stack.disk with
  | (some _, disk) => { stack with disk }
  | (none, disk) =>
    let stack := { stack with disk }
    match parseManagedBlock none disk.env with
    | .error _ => stack
    | .ok _ =>
      match render.answer with
      | .unavailable none => stack
      | .unavailable (some rows) => stack.renderOffline ring render rows
      | .current => stack
      | .full cursor pinnedRevision =>
        stack.renderApply ring sent fingerprint render cursor pinnedRevision

/-- What can be removed.  A local key that is gone is made anew. -/
inductive Removal
  | generation (stamp : String)
  | entry (stamp : String) (entry : Entry)
  | env
  | cursor
  | key (next : Nat)

inductive Act
  | edit (config : Config)
  | setMode (configOnly : Bool)
  | setToken (token : String)
  | render (render : Render)
  | remove (removal : Removal)

def Stack.remove (stack : Stack) : Removal → Stack
  | .generation stamp =>
    { stack with disk := { stack.disk with runtime := stack.disk.runtime.erase stamp } }
  | .entry stamp entry =>
    match stack.disk.runtime.lookup stamp with
    | none => stack
    | some dir =>
      { stack with
        disk := { stack.disk with
          runtime := stack.disk.runtime.assign stamp (dir.unlink entry) } }
  | .env => { stack with disk := { stack.disk with env := [] } }
  | .cursor => { stack with stored := none }
  | .key next => { stack with key := next }

def Stack.act (stack : Stack) : Act → Stack
  | .edit config => { stack with config }
  | .setMode configOnly => { stack with configOnly }
  | .setToken token => { stack with token }
  | .render render => stack.render ring sent fingerprint render
  | .remove removal => stack.remove removal

def stackAfter (stack : Stack) (acts : List Act) : Stack :=
  acts.foldl (fun stack act => stack.act ring sent fingerprint act) stack

end Stack

end Hikyo.Compose
