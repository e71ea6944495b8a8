import Mathlib.Logic.Function.Basic
import Hikyo.Lib.Transaction
import Hikyo.Lib.Transition

/-!
# The registry of live nodes

A node registers under a check that no live node has another root key, and from then on refreshes
its row by plain upserts; a sweep removes rows that are long silent.  The lock keeps only
registrations apart, and check and insert are two steps.  `oneRootKey_of_prompt`: live nodes share
one root key in every run whose heartbeats refresh a row that is still live.  A node that has been
silent longer resumes without a check (`resumed_node_mixes_root_keys`).
-/

namespace Hikyo.Coordination

open Hikyo.Lib List Function

variable {id now : Nat}

def defaultHeartbeat : Nat := 10 * 1000

def nodeLivenessWindow : Nat := 3 * defaultHeartbeat

def nodeRegistryRetention : Nat := 24 * 60 * 60 * 1000

structure HANode where
  nodeID : String
  binaryVersion : String
  schemaVersion : Nat
  rootKeyFingerprint : String
  startedAt : Nat
  heartbeatAt : Nat

def HANode.Live (now : Nat) (row : HANode) : Prop := now - nodeLivenessWindow ≤ row.heartbeatAt

instance (now : Nat) (row : HANode) : Decidable (row.Live now) :=
  inferInstanceAs (Decidable (_ ≤ _))

theorem HANode.Live.earlier {later : Nat} {row : HANode} (le : now ≤ later)
    (live : row.Live later) : row.Live now :=
  le_trans (Nat.sub_le_sub_right le _) live

structure Registry where
  rows : List HANode
  unique : (rows.map (·.nodeID)).Nodup

/-- What `ON CONFLICT (node_id) DO UPDATE` writes: all but the key and `started_at`. -/
def HANode.refreshedBy (n row : HANode) : HANode :=
  { row with
    binaryVersion := n.binaryVersion
    schemaVersion := n.schemaVersion
    rootKeyFingerprint := n.rootKeyFingerprint
    heartbeatAt := n.heartbeatAt }

def Registry.upsertNode (registry : Registry) (n : HANode) : Registry :=
  if known : n.nodeID ∈ registry.rows.map (·.nodeID) then
    { rows := updateWhere (·.nodeID == n.nodeID) n.refreshedBy registry.rows
      unique := by
        have sameKeys : ∀ row, (n.refreshedBy row).nodeID = row.nodeID := fun _ => rfl
        rw [map_updateWhere sameKeys]
        exact registry.unique }
  else
    { rows := n :: registry.rows
      unique := nodup_cons.mpr ⟨known, registry.unique⟩ }

def Registry.foreignNodes (registry : Registry) (n : HANode) (since : Nat) : List HANode :=
  registry.rows.filter fun row =>
    row.nodeID != n.nodeID && row.rootKeyFingerprint != n.rootKeyFingerprint &&
      decide (since ≤ row.heartbeatAt)

def Registry.pruneNodes (registry : Registry) (cutoff : Nat) : Registry where
  rows := registry.rows.filter fun row => decide (cutoff ≤ row.heartbeatAt)
  unique := registry.unique.sublist (filter_sublist.map _)

theorem mem_upsertNode {registry : Registry} {n row : HANode}
    (mem : row ∈ (registry.upsertNode n).rows) :
    row ∈ registry.rows ∧ row.nodeID ≠ n.nodeID ∨
      row.nodeID = n.nodeID ∧ row.rootKeyFingerprint = n.rootKeyFingerprint ∧
        row.heartbeatAt = n.heartbeatAt := by
  unfold Registry.upsertNode at mem
  split at mem
  · rcases mem_updateWhere.mp mem with ⟨old, -, hit, rfl⟩ | ⟨kept, miss⟩
    · have sameNode : old.nodeID = n.nodeID := by simpa using hit
      exact .inr ⟨sameNode, rfl, rfl⟩
    · exact .inl ⟨kept, by simpa using miss⟩
  rename_i unknown
  rcases mem_cons.mp mem with rfl | kept
  · exact .inr ⟨rfl, rfl, rfl⟩
  · exact .inl ⟨kept, fun same => unknown (mem_map.mpr ⟨row, kept, same⟩)⟩

/-- Where a process stands in its boot registration or in a tick. -/
inductive Phase
  | idle
  | timed (now : Nat)
  | admitted (now : Nat)
  | recorded (now : Nat)
deriving DecidableEq

structure Process where
  node : HANode
  booted : Bool
  registered : Bool
  phase : Phase

structure Cluster where
  clock : Nat
  registry : Registry
  lock : Option Nat
  processes : Nat → Option Process

def Cluster.start : Cluster := ⟨0, ⟨[], nodup_nil⟩, none, fun _ => none⟩

inductive Action
  | advance (elapsed : Nat)
  /-- `configureHA` reads the clock; a deferred boot leaves the registration to the first tick -/
  | boot (process : Nat) (node : HANode) (deferred : Bool)
  | readClock (process : Nat)
  | check (process : Nat)
  /-- the registration commits; its answer may be lost -/
  | record (process : Nat) (answered : Bool)
  | heartbeat (process : Nat)
  | sweep (process : Nat)
  /-- the datastore or the topology check answers with an error -/
  | fail (process : Nat)
  | crash (process : Nat)

def Cluster.set (s : Cluster) (process : Nat) (p : Option Process) : Cluster :=
  { s with processes := update s.processes process p }

def Cluster.unlock (s : Cluster) (process : Nat) : Cluster :=
  { s with lock := if s.lock = some process then none else s.lock }

def Cluster.abandon (s : Cluster) (process : Nat) (p : Process) : Cluster :=
  (s.unlock process).set process (if p.booted then some { p with phase := .idle } else none)

def Process.rowAt (p : Process) (now : Nat) : HANode := { p.node with heartbeatAt := now }

def Cluster.boot (s : Cluster) (process : Nat) (node : HANode) (deferred : Bool) : Option Cluster :=
  match s.processes process with
  | some _ => none
  | none =>
    let node := { node with startedAt := s.clock, heartbeatAt := s.clock }
    some (s.set process (some ⟨node, deferred, false, if deferred then .idle else .timed s.clock⟩))

def Cluster.check (s : Cluster) (process : Nat) (p : Process) : Option Cluster :=
  match p.phase, p.registered, s.lock with
  | .timed now, false, none =>
    if s.registry.foreignNodes (p.rowAt now) (now - nodeLivenessWindow) = [] then
      some ({ s with lock := some process }.set process (some { p with phase := .admitted now }))
    else some (s.abandon process p)
  | _, _, _ => none

/-- A boot whose answer is lost fails; a tick tries to register again. -/
def Cluster.record (s : Cluster) (process : Nat) (p : Process) (answered : Bool) : Option Cluster :=
  match p.phase with
  | .admitted now =>
    let written := { s with registry := s.registry.upsertNode (p.rowAt now) }
    let phase := if p.booted then .recorded now else .idle
    if answered then
      some ((written.unlock process).set process
        (some { p with booted := true, registered := true, phase }))
    else some (written.abandon process p)
  | _ => none

def Cluster.heartbeat (s : Cluster) (process : Nat) (p : Process) : Option Cluster :=
  match p.phase, p.registered with
  | .timed now, true =>
    some ({ s with registry := s.registry.upsertNode (p.rowAt now) }.set process
      (some { p with phase := .recorded now }))
  | _, _ => none

def Cluster.sweep (s : Cluster) (process : Nat) (p : Process) : Option Cluster :=
  match p.phase with
  | .recorded now =>
    some ({ s with registry := s.registry.pruneNodes (now - nodeRegistryRetention) }.set process
      (some { p with phase := .idle }))
  | _ => none

def step (s : Cluster) : Action → Option Cluster
  | .advance elapsed => some { s with clock := s.clock + elapsed }
  | .boot process node deferred => s.boot process node deferred
  | .readClock process => do
    let p ← s.processes process
    if p.booted ∧ p.phase = .idle then
      some (s.set process (some { p with phase := .timed s.clock })) else none
  | .check process => do s.check process (← s.processes process)
  | .record process answered => do s.record process (← s.processes process) answered
  | .heartbeat process => do s.heartbeat process (← s.processes process)
  | .sweep process => do s.sweep process (← s.processes process)
  | .fail process => do return s.abandon process (← s.processes process)
  | .crash process => some ((s.unlock process).set process none)

def OneRootKey (s : Cluster) : Prop :=
  ∀ row ∈ s.registry.rows, ∀ other ∈ s.registry.rows, row.Live s.clock → other.Live s.clock →
    row.rootKeyFingerprint = other.rootKeyFingerprint

def Process.reading (p : Process) : Option Nat :=
  match p.phase with
  | .timed now | .admitted now => some now
  | .idle | .recorded _ => none

/-- No peer under another root key has a row that counted as live at the check. -/
def Unopposed (registry : Registry) (p : Process) (now : Nat) : Prop :=
  ∀ row ∈ registry.rows, row.nodeID ≠ p.node.nodeID → row.Live now →
    row.rootKeyFingerprint = p.node.rootKeyFingerprint

structure Coherent (s : Cluster) : Prop where
  shared : OneRootKey s
  read : ∀ id p, s.processes id = some p → ∀ now ∈ p.reading, now ≤ s.clock
  locked : ∀ id p now, s.processes id = some p → p.phase = .admitted now → s.lock = some id
  unopposed : ∀ id p now, s.processes id = some p → p.phase = .admitted now →
    Unopposed s.registry p now

/-- The row a heartbeat refreshes is the process's own and still live when it lands. -/
def Prompt (s : Cluster) : Action → Prop
  | .heartbeat id =>
    ∀ p ∈ s.processes id, ∃ row ∈ s.registry.rows, row.nodeID = p.node.nodeID ∧
      row.rootKeyFingerprint = p.node.rootKeyFingerprint ∧ row.Live s.clock
  | _ => True

instance (s : Cluster) (action : Action) : Decidable (Prompt s action) := by
  unfold Prompt
  split <;> infer_instance

theorem foreignNodes_eq_nil {registry : Registry} {p : Process}
    (empty : registry.foreignNodes (p.rowAt now) (now - nodeLivenessWindow) = []) :
    Unopposed registry p now := by
  intro row mem other live
  by_contra differs
  have vetoes : row ∈ registry.foreignNodes (p.rowAt now) (now - nodeLivenessWindow) := by
    refine mem_filter.mpr ⟨mem, ?_⟩
    rw [Bool.and_eq_true, Bool.and_eq_true, bne_iff_ne, bne_iff_ne, decide_eq_true_iff]
    exact ⟨⟨other, differs⟩, live⟩
  rw [empty] at vetoes
  cases vetoes

theorem coherent_start : Coherent Cluster.start := by
  constructor <;> simp [Cluster.start, OneRootKey]

theorem Coherent.transition {s s' : Cluster} {next : Option Process} (coherent : Coherent s)
    (clock : s'.clock = s.clock) (processes : s'.processes = update s.processes id next)
    (shared : OneRootKey s')
    (others : ∀ other q now, other ≠ id → s.processes other = some q → q.phase = .admitted now →
      s'.lock = some other ∧ Unopposed s'.registry q now)
    (read : ∀ q ∈ next, ∀ now ∈ q.reading, now ≤ s.clock)
    (admitted : ∀ q ∈ next, ∀ now, q.phase = .admitted now → s'.lock = some id ∧
      Unopposed s'.registry q now) :
    Coherent s' := by
  have held : ∀ other q now, s'.processes other = some q → q.phase = .admitted now →
      s'.lock = some other ∧ Unopposed s'.registry q now := by
    intro other q now running phase
    rw [processes, update_apply] at running
    split at running
    · rename_i same
      exact same ▸ admitted q running now phase
    · rename_i different
      exact others other q now different running phase
  refine ⟨shared, ?_, fun o q now r phase => (held o q now r phase).1,
    fun o q now r phase => (held o q now r phase).2⟩
  intro other q running now isReading
  rw [clock]
  rw [processes, update_apply] at running
  split at running
  · exact read q running now isReading
  · exact coherent.read other q running now isReading

theorem Coherent.local_transition {s s' : Cluster} {next : Option Process} (coherent : Coherent s)
    (clock : s'.clock = s.clock) (processes : s'.processes = update s.processes id next)
    (registry : s'.registry = s.registry)
    (lock : ∀ other, other ≠ id → s.lock = some other → s'.lock = some other)
    (read : ∀ q ∈ next, ∀ now ∈ q.reading, now ≤ s.clock)
    (admitted : ∀ q ∈ next, ∀ now, q.phase = .admitted now → s'.lock = some id ∧
      Unopposed s'.registry q now) :
    Coherent s' := by
  refine coherent.transition clock processes ?_ ?_ read admitted
  · unfold OneRootKey
    rw [registry, clock]
    exact coherent.shared
  intro other q now different running phase
  rw [registry]
  exact ⟨lock other different (coherent.locked other q now running phase),
    coherent.unopposed other q now running phase⟩

theorem unlock_lock_of_ne {s : Cluster} {other : Nat} (different : other ≠ id)
    (held : s.lock = some other) :
    (s.unlock id).lock = some other := by
  have otherHolds : s.lock ≠ some id :=
    fun same => different (Option.some.inj (held.symm.trans same))
  simpa [Cluster.unlock, otherHolds] using held

theorem Coherent.abandon {s : Cluster} (coherent : Coherent s) (id : Nat) (p : Process) :
    Coherent (s.abandon id p) := by
  refine coherent.local_transition rfl rfl rfl (fun other => unlock_lock_of_ne) ?_ ?_
  · intro q isNext now isReading
    split at isNext
    · cases isNext
      cases isReading
    · cases isNext
  intro _ isNext _ phase
  split at isNext
  · cases isNext
    cases phase
  · cases isNext

theorem oneRootKey_upsert {s : Cluster} {p : Process} (shared : OneRootKey s)
    (peers : ∀ row ∈ s.registry.rows, row.nodeID ≠ p.node.nodeID → (p.rowAt now).Live s.clock →
      row.Live s.clock → row.rootKeyFingerprint = p.node.rootKeyFingerprint) :
    OneRootKey { s with registry := s.registry.upsertNode (p.rowAt now) } := by
  intro row mem other mem' live live'
  rcases mem_upsertNode mem with ⟨kept, differs⟩ | ⟨-, key, beat⟩
  · rcases mem_upsertNode mem' with ⟨kept', -⟩ | ⟨-, key', beat'⟩
    · exact shared row kept other kept' live live'
    · have written : (p.rowAt now).Live s.clock := by simpa [HANode.Live, beat'] using live'
      exact (peers row kept differs written live).trans key'.symm
  have written : (p.rowAt now).Live s.clock := by simpa [HANode.Live, beat] using live
  rcases mem_upsertNode mem' with ⟨kept', differs'⟩ | ⟨-, key', -⟩
  · exact key.trans (peers other kept' differs' written live').symm
  · exact key.trans key'.symm

section
variable {s s' : Cluster} (coherent : Coherent s)
include coherent

variable {p : Process}

theorem Coherent.record {answered : Bool} (running : s.processes id = some p)
    (taken : s.record id p answered = some s') : Coherent s' := by
  unfold Cluster.record at taken
  split at taken
  · rename_i now phase
    have lockHeld : s.lock = some id := coherent.locked id p now running phase
    have past : now ≤ s.clock := coherent.read id p running now (by simp [Process.reading, phase])
    have shared : OneRootKey { s with registry := s.registry.upsertNode (p.rowAt now) } := by
      refine oneRootKey_upsert coherent.shared fun row mem differs _ live => ?_
      exact coherent.unopposed id p now running phase row mem differs (live.earlier past)
    -- the lock has one holder, so no other registration is under way
    have alone : ∀ other q t, other ≠ id → s.processes other = some q → q.phase ≠ .admitted t := by
      intro other q t different otherRunning otherPhase
      have otherHolds : s.lock = some other := coherent.locked other q t otherRunning otherPhase
      exact different (Option.some.inj (otherHolds.symm.trans lockHeld))
    cases answered with
    | true =>
      cases taken
      refine coherent.transition rfl rfl shared
        (fun other q t different running phase => absurd phase (alone other q t different running))
          ?_ ?_
      · intro q isNext t isReading
        cases isNext
        cases booted : p.booted <;> simp [Process.reading, booted] at isReading
      · intro _ isNext _ nextPhase
        cases isNext
        cases booted : p.booted <;> simp [booted] at nextPhase
    | false =>
      cases taken
      refine coherent.transition rfl rfl shared
        (fun other q t different running phase => absurd phase (alone other q t different running))
          ?_ ?_
      all_goals cases booted : p.booted <;> simp [Process.reading]
  · cases taken

theorem Coherent.heartbeat (running : s.processes id = some p) (prompt : Prompt s (.heartbeat id))
    (taken : s.heartbeat id p = some s') : Coherent s' := by
  unfold Cluster.heartbeat at taken
  split at taken
  · cases taken
    obtain ⟨own, ownMember, ownNode, ownKey, ownLive⟩ := prompt p running
    refine coherent.transition rfl rfl ?_ ?_ (by simp [Process.reading]) (by simp)
    · refine oneRootKey_upsert coherent.shared fun row mem _ _ live => ?_
      exact (coherent.shared row mem own ownMember live ownLive).trans ownKey
    intro other q t _ otherRunning otherPhase
    refine ⟨coherent.locked other q t otherRunning otherPhase, ?_⟩
    intro row mem differs live
    rcases mem_upsertNode mem with ⟨kept, -⟩ | ⟨node, key, -⟩
    · exact coherent.unopposed other q t otherRunning otherPhase row kept differs live
    -- the row that is overwritten was live all along, so the check has seen it
    have past : t ≤ s.clock :=
      coherent.read other q otherRunning t (by simp [Process.reading, otherPhase])
    have seen := coherent.unopposed other q t otherRunning otherPhase own ownMember
      (fun same => differs (node.trans (ownNode.symm.trans same))) (ownLive.earlier past)
    exact key.trans (ownKey.symm.trans seen)
  · cases taken

theorem Coherent.sweep (taken : s.sweep id p = some s') : Coherent s' := by
  unfold Cluster.sweep at taken
  split at taken
  · cases taken
    refine coherent.transition rfl rfl ?_ ?_ (by simp [Process.reading]) (by simp)
    · intro row mem other mem'
      exact coherent.shared row (mem_filter.mp mem).1 other (mem_filter.mp mem').1
    intro other q t _ otherRunning otherPhase
    refine ⟨coherent.locked other q t otherRunning otherPhase, fun row mem => ?_⟩
    exact coherent.unopposed other q t otherRunning otherPhase row (mem_filter.mp mem).1
  · cases taken

theorem Coherent.check (running : s.processes id = some p) (taken : s.check id p = some s') :
    Coherent s' := by
  unfold Cluster.check at taken
  split at taken
  · rename_i now phase unregistered free
    split at taken
    · rename_i empty
      cases taken
      refine coherent.local_transition rfl rfl rfl ?_ ?_ ?_
      · intro _ _ held
        exact absurd (free.symm.trans held) (by simp)
      · intro q isNext t isReading
        cases isNext
        cases isReading
        exact coherent.read id p running now (by simp [Process.reading, phase])
      · intro _ isNext _ nextPhase
        cases isNext
        cases nextPhase
        exact ⟨rfl, foreignNodes_eq_nil empty⟩
    · cases taken
      exact coherent.abandon id p
  · cases taken

theorem Coherent.boot {node : HANode} {deferred : Bool}
    (taken : s.boot id node deferred = some s') : Coherent s' := by
  unfold Cluster.boot at taken
  split at taken
  · cases taken
  cases taken
  refine coherent.local_transition rfl rfl rfl (fun _ _ held => held) ?_ ?_
  · intro q isNext t isReading
    cases isNext
    cases deferred <;> simp [Process.reading] at isReading
    exact isReading.ge
  intro _ isNext _ nextPhase
  cases isNext
  cases deferred <;> cases nextPhase

theorem Coherent.step {action : Action} (prompt : Prompt s action)
    (taken : step s action = some s') : Coherent s' := by
  cases action with first
    | have acts := Option.bind_eq_some_iff.mp taken
      obtain ⟨p, running, acts⟩ := acts
    | skip
  | advance elapsed =>
    cases taken
    refine ⟨?_, ?_, coherent.locked, coherent.unopposed⟩
    · intro row mem other mem' live live'
      have past : s.clock ≤ s.clock + elapsed := Nat.le_add_right _ _
      exact coherent.shared row mem other mem' (live.earlier past) (live'.earlier past)
    · intro id p running now isReading
      exact Nat.le_add_right_of_le (coherent.read id p running now isReading)
  | boot => exact coherent.boot taken
  | readClock =>
    split at acts
    · cases acts
      refine coherent.local_transition rfl rfl rfl (fun _ _ held => held) ?_ (by simp)
      intro _ isNext _ isReading
      cases isNext
      cases isReading
      exact le_rfl
    · cases acts
  | check =>
    exact coherent.check running acts
  | record =>
    exact coherent.record running acts
  | heartbeat =>
    exact coherent.heartbeat running prompt acts
  | sweep =>
    exact coherent.sweep acts
  | fail id =>
    cases acts
    exact coherent.abandon id p
  | crash =>
    cases taken
    exact coherent.local_transition rfl rfl rfl (fun other => unlock_lock_of_ne) (by simp) (by simp)

end

/-- In every run whose heartbeats are prompt, live nodes share one root key. -/
theorem oneRootKey_of_prompt (actions : List Action)
    (prompt : AllowedFrom step Prompt Cluster.start actions) :
    OneRootKey (runFrom step Cluster.start actions) :=
  (runFrom_invariant_of_allowed step Prompt Coherent (fun _ _ _ coherent met taken =>
    coherent.step met taken) actions Cluster.start coherent_start prompt).shared

def nodeUnder (nodeID fingerprint : String) : HANode := ⟨nodeID, "v1", 1, fingerprint, 0, 0⟩

def sharedKeyRun : List Action :=
  [.boot 0 (nodeUnder "a" "k1") false, .check 0, .record 0 true, .advance defaultHeartbeat,
    .boot 1 (nodeUnder "b" "k1") false, .check 1, .record 1 true, .readClock 0,
    .heartbeat 0, .sweep 0]

theorem oneRootKey_of_prompt_sharedKeyRun :
    (runFrom step Cluster.start sharedKeyRun).registry.rows.length = 2 ∧
      OneRootKey (runFrom step Cluster.start sharedKeyRun) :=
  ⟨by decide, oneRootKey_of_prompt sharedKeyRun (by decide)⟩

/-- Node `a` is silent, `b` registers under another key, and `a` resumes with a plain upsert. -/
def resumedRun : List Action :=
  [.boot 0 (nodeUnder "a" "k1") false, .check 0, .record 0 true, .advance (nodeLivenessWindow + 1),
    .boot 1 (nodeUnder "b" "k2") false, .check 1, .record 1 true, .readClock 0, .heartbeat 0]

theorem resumed_node_mixes_root_keys : ¬ OneRootKey (runFrom step Cluster.start resumedRun) := by
  unfold OneRootKey
  decide

end Hikyo.Coordination
