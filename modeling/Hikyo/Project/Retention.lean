import Hikyo.Lib.Transaction
import Mathlib.Data.List.Sort

/-!
# Releasing a pin

`consequence` foretells what `ListEligibleSnapshotPayloads` selects once a pin is released: the same
rule, written once as a loop over lists and once as a ranked query.  It does not read
`self_config_retention`, the snapshots that the server's own configuration holds, and
`release_consequence_agrees` says that this is the whole difference: the two agree unless such a row
alone keeps the sweep from the snapshot.  Times are in microseconds.
-/

namespace Hikyo.Retention

open Hikyo.Lib List

structure Chain where
  org : String
  project : String
  env : String
deriving DecidableEq

/-- `retention_age_seconds` and `retention_revision_count`, with their `CHECK`. -/
structure Bounds where
  ageSeconds : Nat
  revisionCount : Nat
  positive : 0 < ageSeconds ∧ 0 < revisionCount

structure Org where
  unlimited : Bool
  bounds : Bounds

structure Project where
  retentionOverride : Option Bounds

structure Snapshot where
  id : String
  chain : Chain
  revision : Nat
  publishedAt : Int
  payloadPresent : Bool
deriving DecidableEq

structure RevisionPin where
  id : String
  chain : Chain
  snapshotID : String
  expiresAt : Int

/-- The tables, with their unique and foreign keys. -/
structure Database where
  orgs : String → Option Org
  projects : String → String → Option Project
  snapshots : List Snapshot
  pins : List RevisionPin
  selfConfigRetention : List String
  ids : (snapshots.map (·.id)).Nodup
  revisions : (snapshots.map fun s => (s.chain, s.revision)).Nodup
  owned : ∀ s ∈ snapshots, (orgs s.chain.org).isSome ∧ (projects s.chain.org s.chain.project).isSome
  pinned : ∀ pin ∈ pins, ∃ s ∈ snapshots, s.id = pin.snapshotID ∧ s.chain = pin.chain

def Database.release (db : Database) (pinID : String) : Database :=
  { db with
    pins := db.pins.filter (·.id != pinID)
    pinned := fun pin mem => db.pinned pin (mem_filter.mp mem).1 }

/-- The tables, had the server's own configuration retained nothing. -/
def Database.unretained (db : Database) : Database := { db with selfConfigRetention := [] }

def seconds (n : Nat) : Int := n * 1000000

structure RetentionPolicy where
  unlimited : Bool := false
  maxAge : Int
  lastRevisions : Nat

def Bounds.policy (bounds : Bounds) (unlimited : Bool) : RetentionPolicy :=
  { unlimited, maxAge := seconds bounds.ageSeconds, lastRevisions := bounds.revisionCount }

def effectivePolicy (org : Org) (project : Project) : RetentionPolicy :=
  match project.retentionOverride with
  | some bounds => bounds.policy false
  | none => org.bounds.policy org.unlimited

structure PinRetentionState where
  policy : RetentionPolicy
  snapshots : List Snapshot
  pins : List RevisionPin

def Database.loadPinRetentionState (db : Database) (chain : Chain) : Option PinRetentionState := do
  let org ← db.orgs chain.org
  let project ← db.projects chain.org chain.project
  some
    { policy := effectivePolicy org project
      snapshots := db.snapshots.filter (·.chain = chain)
      pins := db.pins.filter (·.chain = chain) }

inductive RetentionConsequence
  | alreadyCollected
  | retained
  | collectionEligible
deriving DecidableEq

def PinRetentionState.consequence (state : PinRetentionState) (snapshotID releasingPinID : String)
    (now : Int) :
    Option RetentionConsequence := do
  let target ← state.snapshots.find? (·.id == snapshotID)
  if target.payloadPresent = false then some .alreadyCollected
  else if state.policy.unlimited ∨ ¬ target.publishedAt < now - state.policy.maxAge then
    some .retained
  else if state.snapshots.countP (fun s => target.revision ≤ s.revision) ≤
    state.policy.lastRevisions then some .retained
  else if state.pins.any (fun pin => pin.id != releasingPinID && pin.snapshotID == snapshotID &&
    now < pin.expiresAt) then
    some .retained
  else some .collectionEligible

/-- The row number in the partition of the environment, newest revision first. -/
def newestRank (partition : List Snapshot) (s : Snapshot) : Nat :=
  (partition.insertionSort fun a b => b.revision ≤ a.revision).idxOf s + 1

def Database.eligible (db : Database) (now : Int) : List Snapshot :=
  db.snapshots.filter fun s =>
    match db.orgs s.chain.org, db.projects s.chain.org s.chain.project with
    | some org, some project =>
      let bounds := project.retentionOverride.getD org.bounds
      let unlimited := if project.retentionOverride.isSome then false else org.unlimited
      !unlimited && s.payloadPresent && !db.selfConfigRetention.contains s.id &&
        decide (s.publishedAt < now - seconds bounds.ageSeconds) &&
        decide (bounds.revisionCount < newestRank (db.snapshots.filter (·.chain = s.chain)) s) &&
        !db.pins.any fun pin => pin.snapshotID == s.id && now < pin.expiresAt
    | _, _ => false

theorem idxOf_of_descending {l : List Snapshot} {s : Snapshot}
    (descending : l.Pairwise fun a b => b.revision < a.revision) (mem : s ∈ l) :
    l.idxOf s + 1 = l.countP fun x => s.revision ≤ x.revision := by
  induction descending with
  | nil => cases mem
  | @cons a rest newer _ ih =>
    by_cases first : a = s
    · subst first
      have older : rest.countP (fun x => a.revision ≤ x.revision) = 0 :=
        countP_eq_zero.mpr fun x inRest => by simp [newer x inRest]
      simp [older]
    · have later : s ∈ rest := (mem_cons.mp mem).resolve_left (Ne.symm first)
      rw [idxOf_cons_ne _ first, countP_cons_of_pos (by simpa using Nat.le_of_lt (newer s later)), ←
        ih later]

theorem newestRank_eq {partition : List Snapshot} {s : Snapshot}
    (distinct : (partition.map (·.revision)).Nodup) (mem : s ∈ partition) :
    newestRank partition s = partition.countP fun x => s.revision ≤ x.revision := by
  have perm := perm_insertionSort (fun a b : Snapshot => b.revision ≤ a.revision) partition
  have : Std.Total fun a b : Snapshot => b.revision ≤ a.revision := ⟨fun a b => Nat.le_total ..⟩
  have : IsTrans Snapshot fun a b => b.revision ≤ a.revision :=
    ⟨fun a b c older older' => Nat.le_trans older' older⟩
  have sorted := pairwise_insertionSort (fun a b : Snapshot => b.revision ≤ a.revision) partition
  have apart := pairwise_map.mp ((perm.map (·.revision)).nodup_iff.mpr distinct)
  rw [newestRank,
    idxOf_of_descending ((sorted.and apart).imp fun ⟨le, ne⟩ => Nat.lt_of_le_of_ne le (Ne.symm ne))
    (perm.mem_iff.mpr mem), perm.countP_eq]

/-- What both rules ask for, besides a payload, when no other pin holds the snapshot. -/
def Outlived (policy : RetentionPolicy) (partition : List Snapshot) (s : Snapshot) (now : Int) :
    Prop :=
  policy.unlimited = false ∧ s.publishedAt < now - policy.maxAge ∧
    policy.lastRevisions < partition.countP fun x => s.revision ≤ x.revision

section Rules
variable {s : Snapshot} (now : Int)

theorem consequence_eq (state : PinRetentionState) {snapshotID : String} (pinID : String)
    (isTarget : state.snapshots.find? (·.id == snapshotID) = some s)
    (present : s.payloadPresent = true) :
    (Outlived state.policy state.snapshots s now ∧
        ∀ pin ∈ state.pins, pin.id ≠ pinID → pin.snapshotID = snapshotID → ¬ now < pin.expiresAt) ∧
      state.consequence snapshotID pinID now = some .collectionEligible ∨
    ¬ (Outlived state.policy state.snapshots s now ∧
        ∀ pin ∈ state.pins, pin.id ≠ pinID → pin.snapshotID = snapshotID → ¬ now < pin.expiresAt) ∧
      state.consequence snapshotID pinID now = some .retained := by
  unfold PinRetentionState.consequence Outlived
  rw [isTarget, Option.bind_eq_bind, Option.bind_some, if_neg (by simp [present])]
  split
  · rename_i kept
    exact .inr ⟨fun ⟨⟨bounded, old, _⟩, _⟩ => kept.elim (by simp [bounded]) (absurd old), rfl⟩
  rename_i expired
  push Not at expired
  split
  · rename_i recent
    exact .inr ⟨fun ⟨⟨_, _, outranked⟩, _⟩ => absurd recent (Nat.not_le.mpr outranked), rfl⟩
  rename_i outranked
  simp only [any_eq_true, Bool.and_eq_true, bne_iff_ne, beq_iff_eq, decide_eq_true_eq]
  split
  · rename_i held
    obtain ⟨pin, mem, ⟨other, same⟩, live⟩ := held
    exact .inr ⟨fun ⟨_, free⟩ => free pin mem other same live, rfl⟩
  rename_i free
  refine .inl ⟨⟨⟨by simpa using expired.1, expired.2, Nat.not_le.mp outranked⟩, ?_⟩, rfl⟩
  exact fun pin mem other same live => free ⟨pin, mem, ⟨other, same⟩, live⟩

theorem mem_eligible_iff (db : Database) {org : Org} {project : Project} (mem : s ∈ db.snapshots)
    (isOrg : db.orgs s.chain.org = some org)
    (isProject : db.projects s.chain.org s.chain.project = some project) :
    s ∈ db.eligible now ↔ s.payloadPresent = true ∧ s.id ∉ db.selfConfigRetention ∧
      Outlived (effectivePolicy org project) (db.snapshots.filter (·.chain = s.chain)) s now ∧
      ∀ pin ∈ db.pins, pin.snapshotID = s.id → ¬ now < pin.expiresAt := by
  have distinct : ((db.snapshots.filter (·.chain = s.chain)).map (·.revision)).Nodup := by
    refine (nodup_map_iff_inj_on ((Nodup.of_map _ db.ids).filter _)).mpr fun x inX y inY same => ?_
    obtain ⟨memX, chainX⟩ := mem_filter.mp inX
    obtain ⟨memY, chainY⟩ := mem_filter.mp inY
    refine inj_on_of_nodup_map db.revisions memX memY (Prod.ext ?_ same)
    exact (of_decide_eq_true chainX).trans (of_decide_eq_true chainY).symm
  have rank := newestRank_eq distinct (mem_filter.mpr ⟨mem, decide_eq_true rfl⟩)
  unfold Database.eligible Outlived effectivePolicy
  rw [mem_filter, isOrg, isProject]
  cases override : project.retentionOverride with
  | none => simp [override, mem, rank, Bounds.policy, and_assoc, and_left_comm]
  | some => simp [override, mem, rank, Bounds.policy, and_assoc]

end Rules

/-- What a release is said to do is what the sweep does once the pin is released, except to a
snapshot that only the server's own configuration retains. -/
theorem release_consequence_agrees (db : Database) (pin : RevisionPin) (listed : pin ∈ db.pins)
    (now : Int) :
    ∃ state, db.loadPinRetentionState pin.chain = some state ∧
      ∃ snapshot ∈ db.snapshots, snapshot.id = pin.snapshotID ∧
        (state.consequence pin.snapshotID pin.id now = some (
          if snapshot.payloadPresent = false then .alreadyCollected
          else if snapshot ∈ (db.release pin.id).eligible now then .collectionEligible
          else .retained) ↔
        (pin.snapshotID ∈ db.selfConfigRetention →
          snapshot ∉ (db.unretained.release pin.id).eligible now)) := by
  obtain ⟨snapshot, mem, isTarget, sameChain⟩ := db.pinned pin listed
  obtain ⟨hasOrg, hasProject⟩ := db.owned snapshot mem
  obtain ⟨org, isOrg⟩ := Option.isSome_iff_exists.mp hasOrg
  obtain ⟨project, isProject⟩ := Option.isSome_iff_exists.mp hasProject
  let state : PinRetentionState :=
    ⟨effectivePolicy org project, db.snapshots.filter (·.chain = pin.chain),
      db.pins.filter (·.chain = pin.chain)⟩
  refine ⟨state, by simp [state, Database.loadPinRetentionState, ← sameChain, isOrg, isProject],
    snapshot, mem, isTarget, ?_⟩
  have located : (db.snapshots.filter (·.chain = pin.chain)).find? (·.id == pin.snapshotID) =
      some snapshot :=
    (find?_eq_some_iff_of_nodup (db.ids.sublist (filter_sublist.map _))).mpr
      ⟨mem_filter.mpr ⟨mem, decide_eq_true sameChain⟩, isTarget⟩
  -- a pin of this snapshot is a pin of its environment
  have holders : (∀ x ∈ db.pins.filter (·.chain = pin.chain), x.id ≠ pin.id →
        x.snapshotID = pin.snapshotID → ¬ now < x.expiresAt) ↔
      ∀ x ∈ (db.release pin.id).pins, x.snapshotID = snapshot.id → ¬ now < x.expiresAt := by
    constructor
    · intro unheld x inRest same
      obtain ⟨inAll, other⟩ := mem_filter.mp inRest
      obtain ⟨target, inSnapshots, isIts, itsChain⟩ := db.pinned x inAll
      have own : target = snapshot := inj_on_of_nodup_map db.ids inSnapshots mem (isIts.trans same)
      refine unheld x (mem_filter.mpr ⟨inAll, decide_eq_true ?_⟩) (by simpa using other)
        (same.trans isTarget)
      rw [← itsChain, own, sameChain]
    · intro unheld x inChain other same
      exact unheld x (mem_filter.mpr ⟨(mem_filter.mp inChain).1, by simpa using other⟩)
        (same.trans isTarget.symm)
  have selected := mem_eligible_iff now (db.release pin.id) mem isOrg isProject
  have unheld := mem_eligible_iff now (db.unretained.release pin.id) mem isOrg isProject
  rw [sameChain, ← holders] at selected
  have samePins : (db.unretained.release pin.id).pins = (db.release pin.id).pins := rfl
  rw [samePins, sameChain, ← holders] at unheld
  cases present : snapshot.payloadPresent with
  | false =>
    have gone : ¬ snapshot ∈ (db.unretained.release pin.id).eligible now := fun chosen => by
      cases present.symm.trans (unheld.mp chosen).1
    refine iff_of_true ?_ fun _ => gone
    rw [if_pos rfl]
    simp [state, PinRetentionState.consequence, located, present]
  | true =>
    rw [if_neg nofun]
    rcases consequence_eq now state pin.id located present
        with ⟨outlived, foretold⟩ | ⟨kept, foretold⟩
    · have chosen := unheld.mpr ⟨present, not_mem_nil, outlived⟩
      rw [foretold]
      constructor
      · intro same row
        rw [if_neg fun taken => (selected.mp taken).2.1 (isTarget ▸ row)] at same
        cases same
      · intro free
        rw [if_pos (selected.mpr ⟨present, fun row => free (isTarget ▸ row) chosen, outlived⟩)]
    · rw [foretold, if_neg fun chosen => kept (selected.mp chosen).2.2]
      exact iff_of_true rfl fun _ chosen => kept (unheld.mp chosen).2.2

section Fixture

def production : Chain := ⟨"acme", "shop", "production"⟩

def pinnedOnce (selfConfigRetention : List String) : Database where
  orgs := fun _ => some ⟨false, 1, 1, by decide⟩
  projects := fun _ _ => some ⟨none⟩
  snapshots := [⟨"s1", production, 1, 0, true⟩, ⟨"s2", production, 2, 0, true⟩]
  pins := [⟨"p", production, "s1", 9000000⟩]
  selfConfigRetention
  ids := by decide
  revisions := by decide
  owned := fun _ _ => ⟨rfl, rfl⟩
  pinned := by simp

/-- The older of the two snapshots may be collected; the newer one is held by a row and by its
rank. -/
theorem release_consequence_agrees_old :
    ((pinnedOnce ["s2"]).loadPinRetentionState production).bind (·.consequence "s1" "p" 8000000) =
      some .collectionEligible := by
  obtain ⟨state, loaded, snapshot, mem, isTarget, foretold⟩ :=
    release_consequence_agrees (pinnedOnce ["s2"]) ⟨"p", production, "s1", 9000000⟩
      (.head _) 8000000
  rw [loaded, Option.bind_some, foretold.mpr fun row => absurd row (by decide)]
  rcases mem_cons.mp mem with rfl | later
  · decide +kernel
  · rw [mem_singleton.mp later] at isTarget
    exact absurd isTarget (by decide)

/-- No call sets such a pin: the project of the server's configuration has no workloads. -/
theorem self_configuration_retains :
    ((pinnedOnce ["s1"]).loadPinRetentionState production).bind (·.consequence "s1" "p" 8000000) =
        some .collectionEligible ∧
      ((pinnedOnce ["s1"]).release "p").eligible 8000000 = [] := by
  decide +kernel

end Fixture

end Hikyo.Retention
