import Hikyo.Compose.RenderPlan

/-!
# Offline rendering

`offline_reproduces_live`: for a live render without refusals, the plan made from the snapshot rows
it stored has the same files, and has no refusals exactly when only config is rendered or every
delivered key has a value.  A key without a value is left out by the live render and stores no row,
and the offline render then refuses it as missing (`valueless_key_refused_offline`).
-/

namespace Hikyo.Compose

open Hikyo.Lib Hikyo.Project Hikyo.Delivery List

variable {absentKeys : AbsentKeyPolicy} {keyID : KeyID} {byID : KeyID → Option RenderSourceRow}
  {keys : List DeliveredKey} {rows : List RenderSourceRow} {row : RenderSourceRow}
  {target : RenderTarget}

theorem rowByID_eq_some (found : rowByID rows keyID = some row) : row ∈ rows ∧ row.keyID = keyID :=
  ⟨mem_reverse.mp (mem_of_find?_eq_some found), by simpa using find?_some found⟩

theorem rowByID_eq_none : rowByID rows keyID = none ↔ ∀ row ∈ rows, row.keyID ≠ keyID := by
  simp [rowByID, find?_eq_none]

def latestKey (keys : List DeliveredKey) (keyID : KeyID) : Option DeliveredKey :=
  keys.reverse.find? (·.keyID == keyID)

theorem liveRow_keyID (configOnly : Bool) (key : DeliveredKey) :
    (liveRow configOnly key).keyID = key.keyID := by
  unfold liveRow
  split
  · rfl
  · cases key.value <;> rfl

theorem rowByID_live (configOnly : Bool) (keys : List DeliveredKey) (keyID : KeyID) :
    rowByID (keys.map (liveRow configOnly)) keyID = (latestKey keys keyID).map
      (liveRow configOnly) := by
  have same : (fun row : RenderSourceRow => row.keyID == keyID) ∘ liveRow configOnly = fun key =>
      key.keyID == keyID := by
    funext key
    simp [liveRow_keyID]
  unfold rowByID latestKey
  rw [← map_reverse, find?_map, same]

theorem offlineRow_snapshot (valued : row.state = .valued) : offlineRow row.snapshot = row := by
  cases row
  cases valued
  rfl

theorem validateRenderInput_eq_ok {input : RenderInput}
    (valid : ∀ row ∈ input.rows, row.state = .valued ∨ row.value = "") :
    validateRenderInput input = .ok () := by
  unfold validateRenderInput
  rw [forM_eq_forM]
  generalize input.rows = rows at valid
  induction rows with
  | nil => rfl
  | cons row _ ih =>
    have here : ¬ (row.state ≠ .valued ∧ row.value ≠ "") := by
      rcases valid row (.head _) with valued | empty
      · exact fun met => met.1 valued
      · exact fun met => met.2 empty
    rw [forM_cons, if_neg here]
    exact ih fun other inRest => valid other (mem_cons_of_mem row inRest)

theorem liveRow_valid (configOnly : Bool) (key : DeliveredKey) :
    (liveRow configOnly key).state = .valued ∨ (liveRow configOnly key).value = "" := by
  unfold liveRow
  split
  · exact .inr rfl
  cases key.value with
  | none => exact .inr rfl
  | some => exact .inl rfl

def liveByID (configOnly : Bool) (keys : List DeliveredKey) : KeyID → Option RenderSourceRow :=
  rowByID (keys.map (liveRow configOnly))

def offlineByID (rows : List SnapshotRow) : KeyID → Option RenderSourceRow :=
  rowByID (rows.map offlineRow)

def Config.renderTargets (cfg : Config) : List RenderTarget := cfg.targetNames.map cfg.renderTarget

def planOf (cfg : Config) (absentKeys : AbsentKeyPolicy) (byID : KeyID → Option RenderSourceRow) :
    RenderPlan where
  targets := cfg.renderTargets.map (targetPlan byID)
  omissions := cfg.renderTargets.flatMap fun target =>
    target.keyIDs.filterMap (keyOmission absentKeys byID target.name)
  refusals := cfg.renderTargets.flatMap (targetRefusals absentKeys byID)

theorem buildRenderPlan_live (cfg : Config) (configOnly : Bool) (keys : List DeliveredKey) :
    buildRenderPlan (liveRenderInput cfg configOnly keys) =
      .ok (planOf cfg (if configOnly then .skip else .refuseNotDelivered)
        (liveByID configOnly keys)) := by
  unfold buildRenderPlan
  rw [validateRenderInput_eq_ok]
  · rfl
  intro _ inRows
  obtain ⟨key, -, rfl⟩ := mem_map.mp inRows
  exact liveRow_valid configOnly key

theorem buildRenderPlan_offline (cfg : Config) (configOnly : Bool) (rows : List SnapshotRow) :
    buildRenderPlan (offlineRenderInput cfg configOnly rows) =
      .ok (planOf cfg (if configOnly then .skip else .refuseNotInSnapshot) (offlineByID rows)) := by
  unfold buildRenderPlan
  rw [validateRenderInput_eq_ok]
  · rfl
  intro _ inRows
  obtain ⟨_, -, rfl⟩ := mem_map.mp inRows
  exact .inl rfl

theorem planOf_refusals_eq_nil {cfg : Config} : (planOf cfg absentKeys byID).refusals = [] ↔
      ∀ target ∈ cfg.renderTargets, (∀ keyID ∈ target.keyIDs, keyRefusal absentKeys byID target.name
        keyID = none) ∧
        fileRefusals target (targetRows byID target) = [] := by
  unfold planOf targetRefusals
  simp only [flatMap_eq_nil_iff, append_eq_nil_iff, filterMap_eq_nil_iff]

section Stored
variable {cfg : Config}
variable (looked : ∀ keyID row, byID keyID = some row → row.keyID = keyID)

theorem mem_snapshotRows {row : SnapshotRow} : row ∈ (planOf cfg absentKeys byID).snapshotRows ↔
      ∃ target ∈ cfg.renderTargets, ∃ keyID ∈ target.keyIDs, ∃ source, valuedRow byID keyID =
        some source ∧
        source.snapshot = row := by
  simp only [RenderPlan.snapshotRows, planOf, mem_flatMap, mem_map, targetPlan, targetRows,
    mem_filterMap, exists_exists_and_eq_and]
  grind

theorem valuedRow_eq_some : valuedRow byID keyID = some row ↔ byID keyID = some row ∧
    row.state = .valued := by
  simp [valuedRow, Option.filter_eq_some_iff]

include looked

theorem offlineByID_eq (inTargets : target ∈ cfg.renderTargets) (inKeys : keyID ∈ target.keyIDs) :
    offlineByID (planOf cfg absentKeys byID).snapshotRows keyID = valuedRow byID keyID := by
  cases found : offlineByID (planOf cfg absentKeys byID).snapshotRows keyID with
  | none =>
    cases valued : valuedRow byID keyID with
    | none => rfl
    | some source =>
      have stored : source.snapshot ∈ (planOf cfg absentKeys byID).snapshotRows :=
        mem_snapshotRows.mpr ⟨target, inTargets, keyID, inKeys, source, valued, rfl⟩
      have absent := rowByID_eq_none.mp found (offlineRow source.snapshot) (mem_map_of_mem stored)
      exact absurd (looked keyID source (valuedRow_eq_some.mp valued).1) absent
  | some =>
    obtain ⟨inRows, sameKey⟩ := rowByID_eq_some found
    obtain ⟨_, isStored, rfl⟩ := mem_map.mp inRows
    obtain ⟨_, -, other, -, source, valued, rfl⟩ := mem_snapshotRows.mp isStored
    obtain ⟨isSource, isValued⟩ := valuedRow_eq_some.mp valued
    have sameID : other = keyID := (looked other source isSource).symm.trans sameKey
    rw [← sameID, valued, offlineRow_snapshot isValued]

theorem targetRows_offline (inTargets : target ∈ cfg.renderTargets) :
    targetRows (offlineByID (planOf cfg absentKeys byID).snapshotRows) target =
      targetRows byID target := by
  refine filterMap_congr fun keyID inKeys => ?_
  have found : offlineByID (planOf cfg absentKeys byID).snapshotRows keyID = valuedRow byID keyID :=
    offlineByID_eq looked inTargets inKeys
  unfold valuedRow at found ⊢
  rw [found, Option.filter_filter]
  simp

theorem targetPlan_offline (inTargets : target ∈ cfg.renderTargets) :
    targetPlan (offlineByID (planOf cfg absentKeys byID).snapshotRows) target =
      targetPlan byID target := by
  unfold targetPlan
  rw [targetRows_offline looked inTargets]

end Stored

section Refusals
variable {target : String}

theorem keyRefusal_skip_eq_none : keyRefusal .skip (valuedRow byID) target keyID = none := by
  unfold keyRefusal
  cases valued : valuedRow byID keyID with
  | none => rfl
  | some =>
    dsimp only
    rw [(valuedRow_eq_some.mp valued).2]
    rfl

theorem keyRefusal_snapshot_eq_none :
    keyRefusal .refuseNotInSnapshot (valuedRow byID) target keyID = none ↔
      (valuedRow byID keyID).isSome := by
  unfold keyRefusal
  cases valued : valuedRow byID keyID with
  | none => simp
  | some =>
    dsimp only
    rw [(valuedRow_eq_some.mp valued).2]
    simp

theorem keyRefusal_live
    (accepted : keyRefusal .refuseNotDelivered (liveByID false keys) target keyID = none) :
    ∃ key, latestKey keys keyID = some key ∧
      ((valuedRow (liveByID false keys) keyID).isSome ↔ key.value.isSome) := by
  unfold keyRefusal at accepted
  have looked : liveByID false keys keyID = (latestKey keys keyID).map (liveRow false) :=
    rowByID_live false keys keyID
  unfold valuedRow
  rw [looked] at accepted ⊢
  cases isKey : latestKey keys keyID with
  | none => simp [isKey] at accepted
  | some key =>
    refine ⟨key, rfl, ?_⟩
    have revealed : ¬ (false = false ∧ isUnrevealedSecret key = true) := by
      rintro ⟨-, hidden⟩
      simp [isKey, liveRow, hidden] at accepted
    rw [Option.map_some]
    unfold liveRow
    rw [if_neg revealed]
    cases key.value <;> simp

end Refusals

def Valueless (cfg : Config) (keys : List DeliveredKey) : Prop :=
  ∃ target ∈ cfg.targets, ∃ keyID ∈ target.2.keys, ∃ key, latestKey keys keyID = some key ∧
    key.value = none

theorem renderTarget_of_mem {cfg : Config} {target : String × Target}
    (inTargets : target ∈ cfg.targets) :
    cfg.renderTarget target.1 = ⟨target.1, target.2.keys, target.2.acknowledgeLoaderControl⟩ := by
  have found : cfg.targets.lookup target.1 = some target.2 :=
    Named.lookup_eq_some cfg.distinct inTargets
  simp [Config.renderTarget, found]

theorem mem_renderTargets {cfg : Config} :
    target ∈ cfg.renderTargets ↔ ∃ configured ∈ cfg.targets, cfg.renderTarget configured.1 =
      target := by
  simp only [Config.renderTargets, Config.targetNames, mem_map, mem_insertionSort, Named.names]
  grind

theorem valueless_iff {cfg : Config} :
    Valueless cfg keys ↔ ∃ target ∈ cfg.renderTargets, ∃ keyID ∈ target.keyIDs, ∃ key,
      latestKey keys keyID = some key ∧ key.value = none := by
  constructor
  · rintro ⟨target, inTargets, keyID, inKeys, valueless⟩
    have same := renderTarget_of_mem inTargets
    refine ⟨_, mem_renderTargets.mpr ⟨target, inTargets, rfl⟩, keyID, ?_, valueless⟩
    rw [same]
    exact inKeys
  rintro ⟨_, isTarget, keyID, inKeys, valueless⟩
  obtain ⟨target, inTargets, rfl⟩ := mem_renderTargets.mp isTarget
  rw [renderTarget_of_mem inTargets] at inKeys
  exact ⟨target, inTargets, keyID, inKeys, valueless⟩

theorem liveByID_keyID {configOnly : Bool} (keyID : KeyID) (row : RenderSourceRow)
    (found : liveByID configOnly keys keyID = some row) : row.keyID = keyID :=
  (rowByID_eq_some found).2

/-- The offline render has the files of the live one, and no refusals exactly when only config is
rendered or every key has a value. -/
theorem offline_reproduces_live (cfg : Config) (configOnly : Bool) (keys : List DeliveredKey)
    (live : RenderPlan) (rendered : buildRenderPlan (liveRenderInput cfg configOnly keys) =
      .ok live) (accepted : live.refusals = []) :
    ∃ offline, buildRenderPlan (offlineRenderInput cfg configOnly live.snapshotRows) = .ok offline ∧
      offline.targets = live.targets ∧
      (offline.refusals = [] ↔ configOnly = true ∨ ¬ Valueless cfg keys) := by
  rw [buildRenderPlan_live] at rendered
  cases rendered
  refine ⟨_, buildRenderPlan_offline .., ?_, ?_⟩
  · exact map_congr_left fun target inTargets => targetPlan_offline liveByID_keyID inTargets
  rw [planOf_refusals_eq_nil] at accepted ⊢
  have same : ∀ absentKeys, ∀ target ∈ cfg.renderTargets, ∀ keyID ∈ target.keyIDs,
      keyRefusal
        absentKeys (offlineByID (planOf cfg (if configOnly then .skip else .refuseNotDelivered)
        (liveByID configOnly keys)).snapshotRows) target.name keyID =
      keyRefusal absentKeys (valuedRow (liveByID configOnly keys)) target.name keyID := by
    intro _ target inTargets keyID inKeys
    unfold keyRefusal
    rw [offlineByID_eq liveByID_keyID inTargets inKeys]
  cases configOnly with
  | true =>
    refine iff_of_true (fun target inTargets => ⟨fun keyID inKeys => ?_, ?_⟩) (.inl rfl)
    · rw [same _ target inTargets keyID inKeys]
      exact keyRefusal_skip_eq_none
    · rw [targetRows_offline liveByID_keyID inTargets]
      exact (accepted target inTargets).2
  | false =>
    rw [valueless_iff]
    simp only [Bool.false_eq_true, if_false, false_or] at accepted same ⊢
    constructor
    · rintro offlineAccepted ⟨target, inTargets, keyID, inKeys, key, isKey, valueless⟩
      have found := (offlineAccepted target inTargets).1 keyID inKeys
      rw [same _ target inTargets keyID inKeys, keyRefusal_snapshot_eq_none] at found
      obtain ⟨_, isKey', valued⟩ := keyRefusal_live ((accepted target inTargets).1 keyID inKeys)
      cases isKey.symm.trans isKey'
      have isSome := valued.mp found
      rw [valueless] at isSome
      cases isSome
    · intro valued target inTargets
      refine ⟨fun keyID inKeys => ?_, ?_⟩
      · rw [same _ target inTargets keyID inKeys, keyRefusal_snapshot_eq_none]
        obtain ⟨key, isKey, iff⟩ := keyRefusal_live ((accepted target inTargets).1 keyID inKeys)
        refine iff.mpr (Option.isSome_iff_ne_none.mpr fun valueless => valued ?_)
        exact ⟨target, inTargets, keyID, inKeys, key, isKey, valueless⟩
      · rw [targetRows_offline liveByID_keyID inTargets]
        exact (accepted target inTargets).2

def twoTargets : Config := ⟨"e", [("t", ⟨[1], []⟩), ("u", ⟨[2, 1, 3], []⟩)], by decide⟩

def rowA : SnapshotRow := ⟨"A", 1, .config, "x"⟩

def rowC : SnapshotRow := ⟨"C", 3, .secret, "y"⟩

/-- Of the keys of the second target one has no value and one is not delivered, and only config is
rendered; then all of them have values. -/
theorem offline_reproduces_live_twice :
    (∃ offline, buildRenderPlan (offlineRenderInput twoTargets true [rowA, rowA]) = .ok offline ∧
      offline.targets = [⟨"t", "A=x\n", [rowA]⟩, ⟨"u", "A=x\n", [rowA]⟩] ∧ offline.refusals = []) ∧
    ∃ offline, buildRenderPlan (offlineRenderInput twoTargets false
        [rowA, ⟨"B", 2, .config, ""⟩, rowA, rowC]) = .ok offline ∧
      offline.targets = [⟨"t", "A=x\n", [rowA]⟩,
        ⟨"u", "B=\nA=x\nC=y\n", [⟨"B", 2, .config, ""⟩, rowA, rowC]⟩] ∧
      offline.refusals = [] := by
  let some_ : List DeliveredKey :=
    [⟨1, "A", .config, .set, some "x"⟩, ⟨2, "B", .config, .optional, none⟩]
  let all : List DeliveredKey :=
    [⟨1, "A", .config, .set, some "x"⟩, ⟨2, "B", .config, .set, some ""⟩,
      ⟨3, "C", .secret, .set, some "y"⟩]
  have valued : ¬ Valueless twoTargets all := by
    unfold Valueless
    decide +kernel
  obtain ⟨first, rendered, files, refusals⟩ := offline_reproduces_live twoTargets true some_
    ⟨[⟨"t", "A=x\n", [rowA]⟩, ⟨"u", "A=x\n", [rowA]⟩],
      [⟨"u", 2, "B", .noValue⟩, ⟨"u", 3, "", .absent⟩], []⟩ (by decide +kernel) rfl
  obtain ⟨second, rendered', files', refusals'⟩ := offline_reproduces_live twoTargets false all
    ⟨[⟨"t", "A=x\n", [rowA]⟩, ⟨"u", "B=\nA=x\nC=y\n", [⟨"B", 2, .config, ""⟩, rowA, rowC]⟩], [], []⟩
    (by decide +kernel) rfl
  exact ⟨⟨first, rendered, files, refusals.mpr (.inl rfl)⟩,
    ⟨second, rendered', files', refusals'.mpr (.inr valued)⟩⟩

def oneKey : Config := ⟨"e", [("t", ⟨[1], []⟩)], by decide⟩

theorem valueless_key_refused_offline :
    buildRenderPlan (liveRenderInput oneKey false [⟨1, "A", .config, .optional, none⟩]) =
        .ok ⟨[⟨"t", "", []⟩], [⟨"t", 1, "A", .noValue⟩], []⟩ ∧
      buildRenderPlan (offlineRenderInput oneKey false []) =
        .ok ⟨[⟨"t", "", []⟩], [], [⟨"t", .id 1, .keyNotInSnapshot, ""⟩]⟩ := by
  decide +kernel

end Hikyo.Compose
