import Hikyo.Compose.CrashSafety
import Hikyo.Compose.Cursor
import Hikyo.Compose.Offline

/-!
# When an offered cursor is sound

`offered_cursor_sound`: if a stack offers a cursor and the server confirms it, then a render of what
the server would deliver has no refusals, and its files are the ones that stand on the disk.
`Stack.Consistent` carries this through every history of acts.  It is about a stack whose targets
have the same keys in the same order, the same acknowledgements and the same local key as when the
cursor was stored, for the binding tells none of these (`offered_cursor_after_edit`).
-/

namespace Hikyo.Compose

open Hikyo.Lib Hikyo.Project Hikyo.Delivery List

variable {disk : Disk} {name : String} {sent : String → List DeliveredKey}
  {fingerprint : String → String}

def Keyring.allowed (ring : Keyring) (name target content : String) : Prop :=
  ∃ k, targetStamp (ring.key k) target content = name

def DiskTruthful (ring : Keyring) (disk : Disk) : Prop :=
  ∀ name dir, disk.runtime.lookup name = some dir → Truthful ring.allowed name dir

section Disk
variable {ring : Keyring}

theorem DiskTruthful.run (truthful : DiskTruthful ring disk) (k : Nat)
    (run : Run) : DiskTruthful ring (run.result (ring.key k) disk).2 := by
  let watch : Watch :=
    { env := disk.env, stamps := [], allowed := ring.allowed, strict := False, crashes := True }
  have held : Held (ring.key k) watch { disk, fuse := run.fuse } :=
    { env := rfl
      readable := False.elim
      kept := nofun
      fits := fun _ _ _ => ⟨False.elim, False.elim⟩
      truthful := truthful
      stamped := fun _ _ => ⟨k, rfl⟩
      fuse := fun _ => trivial }
  have orderly : watch.strict → watch.crashes → run.os.MarkerFirst := False.elim
  have relied : ∀ stamps, parseManagedBlock none watch.env = .ok stamps → ∀ entry ∈ watch.stamps,
      entry ∈ stamps :=
    fun _ _ entry mem => absurd mem not_mem_nil
  obtain ⟨verb, os, fuse⟩ := run
  cases verb with
  | publish plan =>
    by_cases publishable : plan.Publishable
    · refine Run.result_of_ends (fun result => DiskTruthful ring result.2)
        (held.publish orderly publishable) ?_ ?_
      · rintro world (kept | ⟨_, _, -, kept⟩)
        · exact kept.truthful
        · exact kept.truthful
      rintro fault world (⟨kept, -⟩ | ⟨_, _, -, kept, -⟩)
      · exact kept.truthful
      · exact kept.truthful
    obtain ⟨fault, refused⟩ := publish_refused (ring.key k) publishable os { disk, fuse }
    have result : Run.result (ring.key k) ⟨.publish plan, os, fuse⟩ disk = (some fault, disk) := by
      simp only [Run.result, verbProgram, refused]
    rw [result]
    exact truthful
  | recover =>
    exact Run.result_of_ends (fun result => DiskTruthful ring result.2)
      (held.recover orderly) (fun _ kept => kept.1.truthful)
      fun _ _ stopped => stopped.1.truthful
  | gc keep =>
    exact Run.result_of_ends (fun result => DiskTruthful ring result.2)
      (held.gc orderly relied keep) (fun _ kept => kept.truthful)
      fun _ _ stopped => stopped.1.truthful

theorem publishable_of_published {keys : LocalKeys} {plan : Plan} {os : Listing} {fuse : Option Nat}
    (published : (Run.result keys ⟨.publish plan, os, fuse⟩ disk).1 = none) : plan.Publishable := by
  by_contra unpublishable
  obtain ⟨_, refused⟩ := publish_refused keys unpublishable os { disk, fuse }
  simp [Run.result, verbProgram, refused] at published

end Disk

section Stack
variable {ring : Keyring} {stack : Stack}

def livePlan (cfg : Config) (configOnly : Bool) (keys : List DeliveredKey) : RenderPlan :=
  planOf cfg (if configOnly then .skip else .refuseNotDelivered) (liveByID configOnly keys)

theorem buildRenderPlan_livePlan (cfg : Config) (configOnly : Bool) (keys : List DeliveredKey) :
    buildRenderPlan (liveRenderInput cfg configOnly keys) = .ok (livePlan cfg configOnly keys) :=
  buildRenderPlan_live cfg configOnly keys

structure Saved.Rendered (ring : Keyring) (sent : String → List DeliveredKey) (saved : Saved) :
    Prop where
  membership : saved.state.binding.targetKeyIDs = targetKeyIDs saved.config
  accepted : (livePlan saved.config saved.state.binding.configOnly
    (sent saved.state.cursor)).refusals = []
  stamps : saved.state.generationStamps = planStamps (ring.key saved.key)
    (publishTargets (livePlan saved.config saved.state.binding.configOnly
      (sent saved.state.cursor)))
  grammar :
    ∀ entry ∈ publishTargets (livePlan saved.config saved.state.binding.configOnly
      (sent saved.state.cursor)),
    targetNameGrammar entry.1 = true

structure Stack.Consistent (ring : Keyring) (sent : String → List DeliveredKey) (stack : Stack) :
    Prop where
  truthful : DiskTruthful ring stack.disk
  rendered : ∀ saved, stack.stored = some saved → saved.Rendered ring sent

section
variable (consistent : stack.Consistent ring sent)
include consistent

theorem Stack.Consistent.withDisk (truthful : DiskTruthful ring disk) :
    Stack.Consistent ring sent { stack with disk } := ⟨truthful, consistent.rendered⟩

theorem Stack.Consistent.published (render : Render) (plan : RenderPlan) :
    DiskTruthful ring (stack.publishPlan ring render plan).2 := consistent.truthful.run stack.key _

theorem Stack.Consistent.renderApply (render : Render) (cursor : String) (pinnedRevision : Int) :
    (stack.renderApply ring sent fingerprint render cursor pinnedRevision).Consistent
    ring sent := by
  unfold Stack.renderApply
  rw [buildRenderPlan_livePlan]
  dsimp only
  split
  · exact consistent
  rename_i accepted
  have left := consistent.published render (livePlan stack.config stack.configOnly (sent cursor))
  split
  · rename_i published
    rw [published] at left
    exact consistent.withDisk left
  rename_i published
  rw [published] at left
  split
  · refine ⟨left, fun saved isSaved => ?_⟩
    cases isSaved
    exact ⟨rfl, not_not.mp accepted, rfl,
      (publishable_of_published (congrArg Prod.fst published)).grammar⟩
  · exact consistent.withDisk left

theorem Stack.Consistent.renderOffline (render : Render) (rows : List SnapshotRow) :
    (stack.renderOffline ring render rows).Consistent ring sent := by
  unfold Stack.renderOffline
  split
  · exact consistent
  rename_i plan _
  split
  · exact consistent
  · exact consistent.withDisk (consistent.published render plan)

theorem Stack.Consistent.render (render : Render) :
    (stack.render ring sent fingerprint render).Consistent ring sent := by
  have left :=
    consistent.truthful.run stack.key
      { verb := .recover, os := render.recoverOs, fuse := render.recoverFuse }
  unfold Stack.render
  split
  · rename_i recovered
    rw [recovered] at left
    exact consistent.withDisk left
  rename_i disk recovered
  rw [recovered] at left
  have onward : Stack.Consistent ring sent { stack with disk } := consistent.withDisk left
  split
  · exact onward
  split
  · exact onward
  · exact onward.renderOffline render _
  · exact onward
  · exact onward.renderApply render _ _

theorem Stack.Consistent.remove (removal : Removal) :
    (stack.remove removal).Consistent ring sent := by
  cases removal with
  | generation stamp =>
    refine consistent.withDisk fun name dir found => ?_
    by_cases here : name = stamp
    · subst here
      rw [Named.lookup_erase_self] at found
      cases found
    · exact consistent.truthful name dir ((Named.lookup_erase_ne here).symm.trans found)
  | entry stamp entry =>
    unfold Stack.remove
    dsimp only
    split
    · exact consistent
    rename_i dir located
    refine consistent.withDisk fun name dir' found => ?_
    by_cases here : name = stamp
    · subst here
      rw [Named.lookup_assign_self] at found
      cases found
      have left : Truthful ring.allowed name (dir.without [entry]) :=
        (consistent.truthful name dir located).without
      exact left
    · exact consistent.truthful name dir' ((Named.lookup_assign_ne here _).symm.trans found)
  | env => exact consistent.withDisk consistent.truthful
  | cursor => exact ⟨consistent.truthful, fun saved isSaved => by cases isSaved⟩
  | key => exact ⟨consistent.truthful, consistent.rendered⟩

theorem Stack.Consistent.act (act : Act) :
    (stack.act ring sent fingerprint act).Consistent ring sent := by
  cases act with
  | edit | setMode | setToken => exact ⟨consistent.truthful, consistent.rendered⟩
  | render render => exact consistent.render render
  | remove removal => exact consistent.remove removal

theorem Stack.Consistent.after (acts : List Act) :
    (stackAfter ring sent fingerprint stack acts).Consistent ring sent := by
  induction acts generalizing stack with
  | nil => exact consistent
  | cons act _ ih => exact ih (consistent.act act)

end

structure Stack.Fresh (stack : Stack) : Prop where
  runtime : stack.disk.runtime = []
  stored : stack.stored = none

theorem Stack.Fresh.consistent (fresh : stack.Fresh) : stack.Consistent ring sent := by
  refine ⟨fun name dir found => ?_, fun saved isSaved => ?_⟩
  · rw [fresh.runtime] at found
    cases found
  · rw [fresh.stored] at isSaved
    cases isSaved

end Stack

section Plans
variable {cfg cfg' : Config} {configOnly : Bool} {keys : List DeliveredKey}

theorem mem_names_targetKeyIDs :
    name ∈ (targetKeyIDs cfg).names ↔ ∃ target, cfg.targets.lookup name = some target := by
  rw [← Named.mem_names_iff]
  simp [targetKeyIDs, Named.names]

theorem CursorBinding.of_equal {binding other : CursorBinding}
    (equal : binding.equal other = true) :
    binding.configOnly = other.configOnly ∧ ∀ name, name ∈ binding.targetKeyIDs.names ↔
      name ∈ other.targetKeyIDs.names := by
  have same : binding.canonical = other.canonical := by simpa [CursorBinding.equal] using equal
  have mode : binding.canonical.configOnly = other.canonical.configOnly := by rw [same]
  refine ⟨mode, fun name => ?_⟩
  have canonicalNames : ∀ b : CursorBinding, name ∈ b.targetKeyIDs.names ↔
      name ∈ b.canonical.targetKeyIDs.names := by
    intro _
    simp [CursorBinding.canonical, Named.names]
  rw [canonicalNames binding, same, ← canonicalNames other]

theorem targetNames_congr (same : ∀ name, cfg.targets.lookup name = cfg'.targets.lookup name) :
    cfg.targetNames = cfg'.targetNames := by
  have names : cfg.targets.names.Perm cfg'.targets.names := by
    refine (perm_ext_iff_of_nodup cfg.distinct cfg'.distinct).mpr fun name => ?_
    rw [Named.mem_names_iff, Named.mem_names_iff, same]
  have sorted :=
    ((perm_insertionSort (· ≤ ·) _).trans names).trans (perm_insertionSort (· ≤ ·) _).symm
  exact sorted.eq_of_pairwise (fun a b _ _ => le_antisymm) (pairwise_insertionSort _ _)
    (pairwise_insertionSort _ _)

theorem livePlan_congr (same : ∀ name, cfg.targets.lookup name = cfg'.targets.lookup name) :
    livePlan cfg configOnly keys = livePlan cfg' configOnly keys := by
  have targets : cfg.renderTargets = cfg'.renderTargets := by
    unfold Config.renderTargets
    rw [targetNames_congr same]
    refine map_congr_left fun name _ => ?_
    rw [Config.renderTarget, Config.renderTarget, same]
  unfold livePlan planOf
  rw [targets]

theorem livePlan_names : (livePlan cfg configOnly keys).targets.map (·.name) = cfg.targetNames := by
  simp [livePlan, planOf, Config.renderTargets, targetPlan, Config.renderTarget, Function.comp_def]

theorem publishTargets_livePlan :
    publishTargets (livePlan cfg configOnly keys) =
      (livePlan cfg configOnly keys).targets.map fun target => (target.name, target.content) := by
  have step : ∀ (rest : List RenderTargetPlan) (targets : Named String), (targets.names ++
      rest.map (·.name)).Nodup →
      rest.foldl (fun targets target => targets.assign target.name target.content) targets =
        targets ++ rest.map fun target => (target.name, target.content) := by
    intro rest
    induction rest with
    | nil => simp
    | cons target _ ih =>
      intro targets distinct
      have fresh : target.name ∉ targets.names := fun old =>
        (nodup_append.mp distinct).2.2 target.name old target.name (.head _) rfl
      rw [foldl_cons, Named.assign_fresh fresh, ih]
      · simp
      · simpa [Named.names] using distinct
  refine step _ [] ?_
  rw [Named.names, map_nil, nil_append, livePlan_names]
  exact (perm_insertionSort _ _).nodup_iff.mpr cfg.distinct

theorem mem_names_publishTargets :
    name ∈ (publishTargets (livePlan cfg configOnly keys)).names ↔ name ∈ cfg.targets.names := by
  have names : (publishTargets (livePlan cfg configOnly keys)).names = cfg.targetNames := by
    have planned : (livePlan cfg configOnly keys).targets.map (·.name) = cfg.targetNames :=
      livePlan_names
    rw [publishTargets_livePlan, ← planned]
    simp [Named.names, Function.comp_def]
  rw [names, Config.targetNames, mem_insertionSort]

end Plans

section Offered
variable {ring : Keyring} {stack : Stack} {cursor : String} {stamps : Named String}

/-- The targets of the stored cursor have the same keys in the same order, the same acknowledgements
and the same local key. -/
def Stack.Unchanged (stack : Stack) : Prop :=
  ∀ saved, stack.stored = some saved → saved.key = stack.key ∧
    ∀ name target target', saved.config.targets.lookup name = some target →
      stack.config.targets.lookup name = some target' → target = target'

structure Standing (stack : Stack) (saved : Saved) (stamps : Named String) : Prop where
  parsed : parseManagedBlock none stack.disk.env = .ok stamps
  configOnly : saved.state.binding.configOnly = stack.configOnly
  targets : ∀ name, name ∈ saved.state.binding.targetKeyIDs.names ↔
    name ∈ (targetKeyIDs stack.config).names
  length : stamps.length = (targetKeyIDs stack.config).length
  standing : ∀ name ∈ (targetKeyIDs stack.config).names, ∃ stamp dir content,
    saved.state.generationStamps.lookup name = some stamp ∧
    stamps.lookup name = some stamp ∧ stack.disk.runtime.lookup stamp = some dir ∧
      dir.complete = true ∧
    dir.files.lookup name = some content

theorem CursorState.of_standing {state : CursorState} {target : String}
    (standing : state.standing stamps disk target = true) :
    ∃ stamp dir content, state.generationStamps.lookup target = some stamp ∧
      stamps.lookup target = some stamp ∧
      disk.runtime.lookup stamp = some dir ∧ dir.complete = true ∧ dir.files.lookup target =
        some content := by
  unfold CursorState.standing at standing
  split at standing
  · cases standing
  rename_i stamp found
  simp only [Bool.and_eq_true, beq_iff_eq] at standing
  obtain ⟨⟨-, current⟩, there⟩ := standing
  split at there
  · cases there
  rename_i dir located
  simp only [Bool.and_eq_true] at there
  obtain ⟨content, isFile⟩ := Option.isSome_iff_exists.mp there.2
  exact ⟨stamp, dir, content, found, current, located, there.1, isFile⟩

theorem Stack.of_offered (offered : stack.offered fingerprint = some cursor) :
    ∃ saved stamps, stack.stored = some saved ∧ saved.state.cursor = cursor ∧
      Standing stack saved stamps := by
  obtain ⟨saved, isStored, offered⟩ := Option.bind_eq_some_iff.mp offered
  obtain ⟨stamps, parsed, eligible⟩ := Option.bind_eq_some_iff.mp offered
  have parses : parseManagedBlock none stack.disk.env = .ok stamps := by
    cases result : parseManagedBlock none stack.disk.env with
    | error => simp [result, Except.toOption] at parsed
    | ok => simpa [result, Except.toOption] using parsed
  obtain ⟨equal, eligible⟩ := Option.ite_none_left_eq_some.mp eligible
  split at eligible
  · cases eligible
  obtain ⟨lengths, eligible⟩ := Option.ite_none_left_eq_some.mp eligible
  split at eligible
  · rename_i all
    obtain ⟨mode, names⟩ := CursorBinding.of_equal (Bool.not_eq_false _ ▸ equal)
    refine ⟨saved, stamps, isStored, Option.some.inj eligible, parses, mode, names,
      not_not.mp lengths, fun name mem => ?_⟩
    exact CursorState.of_standing (all_eq_true.mp all name mem)
  · cases eligible

theorem Standing.mem_iff {saved : Saved} (standing : Standing stack saved stamps)
    (distinct : saved.state.generationStamps.names.Nodup)
    (names : ∀ name, name ∈ saved.state.generationStamps.names ↔
      name ∈ (targetKeyIDs stack.config).names) (entry : String × String) :
    entry ∈ stamps ↔ entry ∈ saved.state.generationStamps := by
  have nodup := parseManagedBlock_nodup standing.parsed
  have configured : (targetKeyIDs stack.config).names.Nodup := by
    have same : (targetKeyIDs stack.config).names = stack.config.targets.names := by
      simp [targetKeyIDs, Named.names]
    rw [same]
    exact stack.config.distinct
  -- all configured targets are in the block, and there are as many of them
  have covered : (targetKeyIDs stack.config).names ⊆ stamps.names := by
    intro name mem
    obtain ⟨stamp, _, _, -, current, -⟩ := standing.standing name mem
    exact Named.mem_names_iff.mpr ⟨stamp, current⟩
  have all : (targetKeyIDs stack.config).names.Perm stamps.names := by
    refine (subperm_of_subset configured covered).perm_of_length_le ?_
    rw [Named.names, Named.names, length_map, length_map, standing.length]
  have agree : ∀ name ∈ (targetKeyIDs stack.config).names, stamps.lookup name =
      saved.state.generationStamps.lookup name := by
    intro name mem
    obtain ⟨_, _, _, found, current, -⟩ := standing.standing name mem
    rw [found, current]
  constructor
  · intro mem
    have found : stamps.lookup entry.1 = some entry.2 := Named.lookup_eq_some nodup mem
    rw [agree entry.1 (all.mem_iff.mpr (Named.mem_names mem))] at found
    exact Named.mem_of_lookup found
  intro mem
  have found : saved.state.generationStamps.lookup entry.1 = some entry.2 :=
    Named.lookup_eq_some distinct mem
  rw [← agree entry.1 ((names entry.1).mp (Named.mem_names mem))] at found
  exact Named.mem_of_lookup found

theorem Standing.lookup_eq {saved : Saved} (standing : Standing stack saved stamps)
    (membership : saved.state.binding.targetKeyIDs = targetKeyIDs saved.config)
    (same : ∀ name target target', saved.config.targets.lookup name = some target →
      stack.config.targets.lookup name = some target' →
      target = target') (name : String) : stack.config.targets.lookup name =
        saved.config.targets.lookup name := by
  have both := standing.targets name
  rw [membership, mem_names_targetKeyIDs, mem_names_targetKeyIDs] at both
  cases now : stack.config.targets.lookup name with
  | none =>
    cases before : saved.config.targets.lookup name with
    | none => rfl
    | some target =>
      obtain ⟨target', found⟩ := both.mp ⟨target, before⟩
      rw [now] at found
      cases found
  | some target' =>
    obtain ⟨target, found⟩ := both.mpr ⟨target', now⟩
    rw [found, same name target target' found now]

/-- A render of what would be delivered has no refusals, and its files are those on disk. -/
theorem offered_cursor_sound (ring : Keyring) (sent : String → List DeliveredKey)
    (fingerprint : String → String) {start : Stack} (fresh : start.Fresh) (acts : List Act)
    {stack : Stack} (reached : stackAfter ring sent fingerprint start acts = stack)
    {cursor : String} (offered : stack.offered fingerprint = some cursor)
    (unchanged : stack.Unchanged) {keys : List DeliveredKey} (confirmed : keys = sent cursor) :
    ∃ plan stamps, buildRenderPlan (liveRenderInput stack.config stack.configOnly keys) = .ok plan ∧
      plan.refusals = [] ∧
      parseManagedBlock none stack.disk.env = .ok stamps ∧
      (∀ entry, entry ∈ stamps ↔ entry ∈ planStamps (ring.key stack.key) plan.publishPlan.targets) ∧
      ∀ target ∈ plan.targets, ∃ dir, stack.disk.runtime.lookup
        (targetStamp (ring.key stack.key) target.name target.content) = some dir ∧
        dir.complete = true ∧ dir.files.lookup target.name = some target.content := by
  subst confirmed
  have consistent : stack.Consistent ring sent := reached ▸ fresh.consistent.after acts
  obtain ⟨saved, stamps, isStored, rfl, standing⟩ := Stack.of_offered offered
  have rendered := consistent.rendered saved isStored
  obtain ⟨sameKey, sameTargets⟩ := unchanged saved isStored
  have samePlan : livePlan saved.config saved.state.binding.configOnly (sent saved.state.cursor) =
      livePlan stack.config stack.configOnly (sent saved.state.cursor) := by
    rw [standing.configOnly]
    exact livePlan_congr fun name => (standing.lookup_eq rendered.membership sameTargets name).symm
  obtain ⟨-, accepted, recorded, grammar⟩ := rendered
  rw [samePlan] at accepted recorded grammar
  rw [sameKey] at recorded
  have recordedNames : saved.state.generationStamps.names =
      (publishTargets (livePlan stack.config stack.configOnly
        (sent saved.state.cursor))).names := by
    rw [recorded]
    simp [planStamps, Named.names]
  have distinct : saved.state.generationStamps.names.Nodup := recordedNames ▸ nodup_publishTargets _
  have names : ∀ name, name ∈ saved.state.generationStamps.names ↔
      name ∈ (targetKeyIDs stack.config).names := by
    intro name
    rw [recordedNames, mem_names_publishTargets, mem_names_targetKeyIDs, Named.mem_names_iff]
  refine ⟨_, stamps, buildRenderPlan_livePlan .., accepted, standing.parsed, fun entry => ?_,
    fun target inPlan => ?_⟩
  · rw [standing.mem_iff distinct names, recorded]
    rfl
  · have published : (target.name, target.content) ∈ publishTargets
        (livePlan stack.config stack.configOnly (sent saved.state.cursor)) := by
      rw [publishTargets_livePlan]
      exact mem_map_of_mem inPlan
    have inRecorded : (target.name, targetStamp (ring.key stack.key) target.name target.content) ∈
        saved.state.generationStamps := by
      rw [recorded]
      exact mem_map_of_mem published
    obtain ⟨stamp, dir, content, found, -, located, complete, isFile⟩ :=
      standing.standing target.name ((names _).mp (Named.mem_names inRecorded))
    have isStamp : targetStamp (ring.key stack.key) target.name target.content = stamp :=
      Option.some.inj ((Named.lookup_eq_some distinct inRecorded).symm.trans found)
    subst isStamp
    -- the file that stands there was named from its content under some key, and only one key gives
    -- this name
    obtain ⟨k, named⟩ := consistent.truthful _ dir located complete target.name content isFile
    have sameK : k = stack.key := ring.apart named
    subst sameK
    have grammarTarget := grammar _ published
    obtain ⟨-, sameContent⟩ := targetStamp_inj grammarTarget grammarTarget named
    exact ⟨dir, located, complete, sameContent ▸ isFile⟩

end Offered

theorem replicate_hexStamp_inj {k k' : Nat} {message message' : List Char}
    (same : replicate k 'a' ++ hexStamp message = replicate k' 'a' ++ hexStamp message') :
    k = k' := by
  have start : ∀ text, ∃ first rest, hexStamp text = first :: rest ∧ first ≠ 'a' := by
    intro _
    unfold hexStamp
    split
    · exact ⟨'0', _, rfl, by decide⟩
    · exact ⟨'1', _, rfl, by decide⟩
  induction k generalizing k' with
  | zero =>
    cases k' with
    | zero => rfl
    | succ =>
      obtain ⟨first, rest, isText, other⟩ := start message
      rw [isText] at same
      exact absurd (cons.inj same).1 other
  | succ _ ih =>
    cases k' with
    | zero =>
      obtain ⟨_, _, isText, other⟩ := start message'
      rw [isText] at same
      exact absurd (cons.inj same).1.symm other
    | succ => rw [ih (cons.inj same).2]

def hexRing : Keyring where
  key k :=
    { stamp := fun message => String.ofList ('v' :: '1' :: '-' ::
        (replicate k 'a' ++ hexStamp message.toList))
      wellFormed := by
        intro message
        rw [parseStamp, String.toList_ofList]
        refine all_eq_true.mpr fun c mem => ?_
        rcases mem_append.mp mem with inKey | inText
        · rw [eq_of_mem_replicate inKey]
          decide
        · exact isLowerHex_hexStamp c inText
      collisionFree := by
        intro message message' same
        have texts := String.ofList_injective same
        have digits := (cons.inj (cons.inj (cons.inj texts).2).2).2
        exact String.toList_inj.mp (hexStamp_injective (append_cancel_left digits)) }
  apart := by
    intro k k' message message' same
    have texts := String.ofList_injective same
    have digits := (cons.inj (cons.inj (cons.inj texts).2).2).2
    exact replicate_hexStamp_inj digits

def pathAndFlag : String → List DeliveredKey :=
  fun _ => [⟨1, "PATH", .config, .set, some "x"⟩, ⟨2, "B", .config, .set, some "y"⟩]

def stackConfig (keys : List KeyID) (acknowledged : List String) : Config :=
  ⟨"e", [("t", ⟨keys, acknowledged⟩)], by simp [Named.names]⟩

def freshStack (keys : List KeyID) : Stack where
  config := stackConfig keys ["PATH"]
  configOnly := false
  token := "k"
  key := 0
  disk := {}
  stored := none

def fullRender : Act :=
  .render { answer := .full "c" 0, recoverOs := fileFirst, publishOs := fileFirst }

theorem offered_cursor_sound_unedited :
    let stack := stackAfter hexRing pathAndFlag id (freshStack [2]) [fullRender]
    stack.offered id = some "c" ∧
      ∃ plan, buildRenderPlan (liveRenderInput stack.config stack.configOnly (pathAndFlag "c")) =
          .ok plan ∧ plan.refusals = [] ∧
        ∀ target ∈ plan.targets, ∃ dir, stack.disk.runtime.lookup
            (targetStamp (hexRing.key stack.key) target.name target.content) = some dir ∧
          dir.complete = true ∧ dir.files.lookup target.name = some target.content := by
  intro stack
  have fresh : (freshStack [2]).Fresh := ⟨rfl, rfl⟩
  have reached : stackAfter hexRing pathAndFlag id (freshStack [2]) [fullRender] = stack := rfl
  have evaluated : stack.offered id = some "c" ∧
      (stack.stored.map fun saved => (saved.key, saved.config.targets)) =
          some (stack.key, stack.config.targets) := by
    decide +kernel
  clear_value stack
  obtain ⟨offered, same⟩ := evaluated
  have unchanged : stack.Unchanged := by
    intro _ isStored
    rw [isStored] at same
    obtain ⟨sameKey, sameTargets⟩ := Prod.mk.inj (Option.some.inj same)
    refine ⟨sameKey, fun name target target' before now => ?_⟩
    rw [sameTargets, now] at before
    exact (Option.some.inj before).symm
  obtain ⟨plan, _, built, accepted, -, -, files⟩ :=
      offered_cursor_sound hexRing pathAndFlag id fresh [fullRender] reached offered unchanged rfl
  exact ⟨offered, plan, built, accepted, files⟩

/-- The cursor is offered without the acknowledgement, and with the keys the other way round. -/
theorem offered_cursor_after_edit :
    let unacknowledged := stackAfter hexRing pathAndFlag id (freshStack [1])
        [fullRender, .edit (stackConfig [1] [])]
    let reordered := stackAfter hexRing pathAndFlag id (freshStack [1, 2])
        [fullRender, .edit (stackConfig [2, 1] ["PATH"])]
    unacknowledged.offered id = some "c" ∧
      (livePlan unacknowledged.config false (pathAndFlag "c")).refusals =
        [⟨"t", .name "PATH", .loaderControl, ""⟩] ∧
      reordered.offered id = some "c" ∧
      (livePlan reordered.config false (pathAndFlag "c")).targets.map
        (·.content) = ["B=y\nPATH=x\n"] ∧
      reordered.disk.runtime.map (·.2.files) = [[("t", "PATH=x\nB=y\n")]] := by
  decide +kernel

end Hikyo.Compose
