import Hikyo.Compose.Generation

/-!
# What a publication keeps

What a verb keeps while it runs, crashed or not.  `Held` is the invariant: the directories of the
stamps that are relied on are complete and are not touched, and every complete generation holds the
one file it is named from.  There is one lemma for each step of the verbs, and `Held.publish`,
`Held.recover` and `Held.gc` put them together with the rules for programs that keep their state
when they fail.
-/

namespace Hikyo.Compose

open Hikyo.Lib List

variable {entry : Entry} {gone : List Entry} {keys : LocalKeys} {content stamp target : String}
  {α : Type}

theorem nul_notMem_target (grammar : targetNameGrammar target = true) : '\x00' ∉ target.toList := by
  intro inTarget
  have allowed := targetNameGrammar_chars grammar _ inTarget
  revert allowed
  decide

theorem append_cons_inj {sep : α} {key key' value value' : List α} (free : sep ∉ key)
    (free' : sep ∉ key') (same : key ++ sep :: value = key' ++ sep :: value') :
    key = key' ∧ value = value' := by
  induction key generalizing key' with
  | nil =>
    cases key' with
    | nil => exact ⟨rfl, (cons.inj same).2⟩
    | cons => exact absurd ((cons.inj same).1 ▸ .head _) free'
  | cons c _ ih =>
    cases key' with
    | nil => exact absurd ((cons.inj same).1 ▸ .head _) free
    | cons =>
      obtain ⟨rfl, rest⟩ := cons.inj same
      obtain ⟨rfl, values⟩ := ih (fun old => free (mem_cons_of_mem c old))
        (fun old => free' (mem_cons_of_mem c old)) rest
      exact ⟨rfl, values⟩

theorem targetStamp_inj {target' content' : String}
    (grammar : targetNameGrammar target = true) (grammar' : targetNameGrammar target' = true)
    (same : targetStamp keys target content = targetStamp keys target' content') :
    target = target' ∧ content = content' := by
  have messages := congrArg String.toList (keys.collisionFree same)
  have sep : targetSep.toList = ['\x00'] := by decide
  simp only [String.toList_append, append_assoc, sep, singleton_append,
    append_cancel_left_eq] at messages
  obtain ⟨targets, contents⟩ :=
    append_cons_inj (nul_notMem_target grammar) (nul_notMem_target grammar') messages
  exact ⟨String.toList_inj.mp targets, String.toList_inj.mp contents⟩

structure SameBut (stamp : String) (world world' : World) : Prop where
  env : world'.disk.env = world.disk.env
  others : ∀ name, name ≠ stamp → world'.disk.runtime.lookup name = world.disk.runtime.lookup name
  fuse : world'.fuse ≠ none → world.fuse ≠ none

section Steps
variable {world world' world'' : World} {dir : Generation} {disk : Disk}
  {bad : Fault → World → Prop}

theorem SameBut.refl : SameBut stamp world world := ⟨rfl, fun _ _ => rfl, id⟩

theorem SameBut.trans (first : SameBut stamp world world') (second : SameBut stamp world' world'') :
    SameBut stamp world world'' :=
  ⟨second.env.trans first.env, fun name other =>
    (second.others name other).trans (first.others name other),
    fun burns => first.fuse (second.fuse burns)⟩

theorem ends_readDisk {f : Disk → Fs α} {ok : α → World → Prop}
    (read : Ends (f world.disk) world ok bad) : Ends (readDisk >>= f) world ok bad := ends_bind read

theorem ends_act {effect : Disk → Except Fault Disk} {ok : PUnit → World → Prop}
    (effected : effect world.disk = .ok disk) (crash : world.fuse ≠ none → bad .crash world)
    (done : ∀ fuse, (fuse ≠ none → world.fuse ≠ none) → ok ⟨⟩ { disk, fuse }) :
    Ends (act effect) world ok bad := by
  unfold Ends act
  split
  · rename_i taken
    split at taken
    · cases taken
    rw [effected] at taken
    cases taken
    refine done _ fun burns unlit => ?_
    rw [unlit] at burns
    exact burns rfl
  rename_i taken
  split at taken
  · rename_i burnt
    cases taken
    exact crash (by rw [burnt]; exact Option.some_ne_none 0)
  · rw [effected] at taken
    cases taken

theorem sameBut_assign (stamp : String) (dir : Generation) {fuse : Option Nat}
    (burns : fuse ≠ none → world.fuse ≠ none) :
    SameBut stamp world
      { disk := { world.disk with runtime := world.disk.runtime.assign stamp dir }, fuse } :=
  ⟨rfl, fun _ other => Named.lookup_assign_ne other dir, burns⟩

theorem inDir_eq {change : Generation → Generation} (found : disk.runtime.lookup stamp = some dir) :
    inDir stamp change disk =
      .ok { disk with runtime := disk.runtime.assign stamp (change dir) } := by
  simp only [inDir, found]

theorem mem_entries_file : Entry.file target ∈ dir.entries ↔ target ∈ dir.files.names := by
  unfold Generation.entries
  split <;> simp

theorem mem_entries_marker : Entry.marker ∈ dir.entries ↔ dir.complete = true := by
  unfold Generation.entries
  split <;> simp_all

theorem mem_entries_unlink {other : Entry} :
    other ∈ (dir.unlink entry).entries ↔ other ∈ dir.entries ∧ other ≠ entry := by
  cases entry with
  | marker =>
    cases other with
    | marker => simp [mem_entries_marker, Generation.unlink]
    | file => simp [mem_entries_file, Generation.unlink]
  | file =>
    cases other with
    | marker => simp [mem_entries_marker, Generation.unlink]
    | file =>
      rw [mem_entries_file, mem_entries_file]
      simp [Generation.unlink, Named.names]

def Generation.without (dir : Generation) (gone : List Entry) : Generation :=
  gone.foldl (fun dir entry => dir.unlink entry) dir

theorem mem_entries_without : entry ∈ (dir.without gone).entries ↔ entry ∈ dir.entries ∧
    entry ∉ gone := by
  unfold Generation.without
  induction gone generalizing dir with
  | nil => simp
  | cons _ _ ih =>
    rw [foldl_cons, ih, mem_entries_unlink, mem_cons, not_or, and_assoc]

theorem lookup_without (found : (dir.without gone).files.lookup target = some content) :
    dir.files.lookup target = some content := by
  induction gone generalizing dir with
  | nil => exact found
  | cons first _ ih =>
    have there := ih found
    cases first with
    | marker => exact there
    | file erased =>
      by_cases same : target = erased
      · subst same
        simp only [Generation.unlink, Named.lookup_erase_self] at there
        cases there
      · exact (Named.lookup_erase_ne same).symm.trans there

structure Unlinked (stamp : String) (dir : Generation) (gone : List Entry) (world world' : World) :
    Prop extends
    SameBut stamp world world' where
  found : world'.disk.runtime.lookup stamp = some (dir.without gone)

theorem unlinkEntries_ends (found : world.disk.runtime.lookup stamp = some dir)
    (rest : List Entry) :
    Ends (rest.forM fun entry => act (inDir stamp (Generation.unlink entry))) world
      (fun _ world' => Unlinked stamp dir rest world world')
      fun fault world' => fault = .crash ∧ world.fuse ≠ none ∧ ∃ gone, gone <+: rest ∧
        Unlinked stamp dir gone world world' := by
  induction rest generalizing world dir with
  | nil => exact ends_pure ⟨.refl, found⟩
  | cons entry _ ih =>
    refine ends_bind
      (ends_act (inDir_eq found) (fun burns => ⟨rfl, burns, [], nil_prefix, .refl, found⟩)
        fun fuse burns => ?_)
    have first : SameBut stamp world _ := sameBut_assign stamp (dir.unlink entry) burns
    refine (ih (Named.lookup_assign_self _)).mono
      (fun _ world' unlinked => ⟨first.trans unlinked.toSameBut, unlinked.found⟩) ?_
    rintro fault world' ⟨rfl, lit, gone, isPrefix, unlinked⟩
    exact ⟨rfl, first.fuse lit, entry :: gone, cons_prefix_cons.mpr ⟨rfl, isPrefix⟩,
      first.trans unlinked.toSameBut, unlinked.found⟩

theorem removeAll_ends (os : Listing) (found : world.disk.runtime.lookup stamp = some dir) :
    Ends (removeAll os stamp) world
      (fun _ world' => SameBut stamp world world' ∧ world'.disk.runtime.lookup stamp = none)
      fun fault world' => fault = .crash ∧ world.fuse ≠ none ∧
        ∃ gone, gone <+: os.entries dir.entries ∧ Unlinked stamp dir gone world world' := by
  refine ends_readDisk ?_
  rw [found]
  refine (unlinkEntries_ends found _).andThen fun _ world' unlinked => ?_
  -- every entry that was listed is gone
  have empty : (dir.without (os.entries dir.entries)).entries = [] := by
    refine eq_nil_iff_forall_not_mem.mpr fun entry left => ?_
    obtain ⟨old, kept⟩ := mem_entries_without.mp left
    exact kept ((os.entries_perm _).mem_iff.mpr old)
  have removed : rmdir stamp world'.disk =
      .ok { world'.disk with runtime := world'.disk.runtime.erase stamp } := by
    simp only [rmdir, unlinked.found, empty, if_true]
  refine ends_act removed (fun burns => ⟨rfl, unlinked.fuse burns, _, prefix_rfl, unlinked⟩)
    fun fuse burns => ?_
  refine ⟨unlinked.toSameBut.trans ⟨rfl, fun _ other => Named.lookup_erase_ne other, burns⟩,
    Named.lookup_erase_self⟩

theorem materialize_ends (absent : world.disk.runtime.lookup stamp = none) :
    Ends (materialize stamp target content) world (fun _ world' => SameBut stamp world world' ∧
        world'.disk.runtime.lookup stamp = some { files := [(target, content)], complete := true })
      fun fault world' => fault = .crash ∧ world.fuse ≠ none ∧ SameBut stamp world world' ∧
        ∀ dir, world'.disk.runtime.lookup stamp = some dir → dir.complete = false := by
  have made : mkdir stamp world.disk =
      .ok { world.disk with runtime := world.disk.runtime.assign stamp {} } := by
    simp [mkdir, absent]
  have torn : ∀ {world' : World} {dir : Generation}, SameBut stamp world world' →
      world'.disk.runtime.lookup stamp = some dir →
      dir.complete = false → world'.fuse ≠ none → (Fault.crash = .crash ∧ world.fuse ≠ none ∧
        SameBut stamp world world' ∧
        ∀ dir, world'.disk.runtime.lookup stamp = some dir → dir.complete = false) := by
    intro _ dir same found incomplete burns
    refine ⟨rfl, same.fuse burns, same, fun other again => ?_⟩
    cases found.symm.trans again
    exact incomplete
  refine ends_bind (ends_act made (fun burns => ⟨rfl, burns, .refl, fun dir found => ?_⟩)
    fun fuse burns => ?_)
  · rw [absent] at found
    cases found
  have made := sameBut_assign stamp {} burns
  refine ends_bind (ends_act (inDir_eq (Named.lookup_assign_self _))
    (torn made (Named.lookup_assign_self _) rfl) fun fuse burns => ?_)
  have created := made.trans (sameBut_assign stamp (Generation.create target {}) burns)
  refine ends_bind (ends_act (inDir_eq (Named.lookup_assign_self _))
    (torn created (Named.lookup_assign_self _) rfl) fun fuse burns => ?_)
  have written :=
    created.trans
      (sameBut_assign stamp (Generation.write target content (Generation.create target {})) burns)
  refine ends_act (inDir_eq (Named.lookup_assign_self _))
    (torn written (Named.lookup_assign_self _) rfl) fun fuse burns => ?_
  refine ⟨written.trans (sameBut_assign stamp _ burns), (Named.lookup_assign_self _).trans ?_⟩
  simp [Generation.mark, Generation.write, Generation.create, Named.assign, Named.erase]

end Steps

/-- The stamp names a complete generation, and the target's file in it has that stamp. -/
def Good (keys : LocalKeys) (disk : Disk) (target stamp : String) : Prop :=
  ∃ dir content, disk.runtime.lookup stamp = some dir ∧ dir.complete = true ∧
    dir.files.lookup target = some content ∧
    targetStamp keys target content = stamp

/-- A complete generation holds its one target file, and has its name from it. -/
def HoldsTarget (keys : LocalKeys) (name : String) (dir : Generation) : Prop :=
  ∃ target content, dir.files = [(target, content)] ∧ targetNameGrammar target = true ∧
    targetStamp keys target content = name

structure Fits (keys : LocalKeys) (strict : Prop) (name : String) (dir : Generation) : Prop where
  stamp : strict → parseStamp none name = true
  holds : strict → dir.complete = true → HoldsTarget keys name dir

def Truthful (allowed : String → String → String → Prop) (name : String) (dir : Generation) :
    Prop :=
  dir.complete = true → ∀ target content, dir.files.lookup target = some content →
    allowed name target content

/-- What is relied on during a verb, and whether the verb may crash. -/
structure Watch where
  env : List Char
  stamps : Named String
  allowed : String → String → String → Prop
  strict : Prop
  crashes : Prop

def Watch.add (watch : Watch) (stamps : Named String) : Watch :=
  { watch with stamps := watch.stamps ++ stamps }

structure Held (keys : LocalKeys) (watch : Watch) (world : World) : Prop where
  env : world.disk.env = watch.env
  readable : watch.strict → ∃ stamps, parseManagedBlock none watch.env = .ok stamps
  kept : ∀ entry ∈ watch.stamps, Good keys world.disk entry.1 entry.2
  fits : ∀ name dir, world.disk.runtime.lookup name = some dir → Fits keys watch.strict name dir
  truthful : ∀ name dir, world.disk.runtime.lookup name = some dir → Truthful watch.allowed name dir
  stamped : ∀ target content, watch.allowed (targetStamp keys target content) target content
  fuse : world.fuse ≠ none → watch.crashes

/-- A verb has stopped, and if directories were as they should be then for a crash. -/
def Stopped (keys : LocalKeys) (watch : Watch) (fault : Fault) (world : World) : Prop :=
  Held keys watch world ∧ (watch.strict → fault = .crash ∧ watch.crashes)

def Listing.MarkerFirst (os : Listing) : Prop :=
  ∀ target, os.entries [.file target, .marker] = [.marker, .file target]

section Relied
variable {watch : Watch} {world world' : World} {dir : Generation} {os : Listing}
  {stamps : Named String}

theorem Held.mono (held : Held keys watch world) (fewer : ∀ entry ∈ stamps, entry ∈ watch.stamps) :
    Held keys { watch with stamps } world :=
  { held with kept := fun entry mem => held.kept entry (fewer entry mem) }

theorem Held.of_add (held : Held keys (watch.add stamps) world) : Held keys watch world :=
  held.mono fun _ mem => mem_append_left stamps mem

section
variable (held : Held keys watch world)
include held

theorem Held.free (torn : ∀ dir, world.disk.runtime.lookup stamp = some dir →
    dir.complete = false) :
    ∀ entry ∈ watch.stamps, entry.2 ≠ stamp := by
  rintro entry mem rfl
  obtain ⟨dir, _, found, complete, -⟩ := held.kept entry mem
  rw [torn dir found] at complete
  cases complete

theorem Held.free_of_incomplete (found : world.disk.runtime.lookup stamp = some dir)
    (incomplete : ¬ dir.complete = true) : ∀ entry ∈ watch.stamps, entry.2 ≠ stamp := by
  refine held.free fun other again => ?_
  cases found.symm.trans again
  exact Bool.eq_false_iff.mpr incomplete

theorem Held.add (good : Good keys world.disk target stamp) :
    Held keys (watch.add [(target, stamp)]) world := by
  refine { held with kept := fun entry mem => ?_ }
  rcases mem_append.mp mem with old | new
  · exact held.kept entry old
  · cases mem_singleton.mp new
    exact good

theorem Held.change (same : SameBut stamp world world')
    (free : ∀ entry ∈ watch.stamps, entry.2 ≠ stamp)
    (fits : ∀ dir, world'.disk.runtime.lookup stamp = some dir → Fits keys watch.strict stamp dir ∧
      Truthful watch.allowed stamp dir) :
    Held keys watch world' := by
  have everywhere : ∀ name dir, world'.disk.runtime.lookup name = some dir →
      Fits keys watch.strict name dir ∧ Truthful watch.allowed name dir := by
    intro name dir found
    by_cases here : name = stamp
    · subst here
      exact fits dir found
    · have old := (same.others name here).symm.trans found
      exact ⟨held.fits name dir old, held.truthful name dir old⟩
  refine { held with
    env := same.env.trans held.env
    kept := fun entry mem => ?_
    fits := fun name dir found => (everywhere name dir found).1
    truthful := fun name dir found => (everywhere name dir found).2
    fuse := fun burns => held.fuse (same.fuse burns) }
  obtain ⟨dir, content, found, good⟩ := held.kept entry mem
  exact ⟨dir, content, (same.others entry.2 (free entry mem)).trans found, good⟩

end

theorem HoldsTarget.entries (complete : dir.complete = true) (holds : HoldsTarget keys stamp dir) :
    ∃ target, targetNameGrammar target = true ∧ dir.entries = [.file target, .marker] := by
  obtain ⟨target, _, files, grammar, -⟩ := holds
  exact ⟨target, grammar, by simp [Generation.entries, files, complete, Named.names]⟩

theorem complete_without (complete : (dir.without gone).complete = true) :
    dir.complete = true ∧ Entry.marker ∉ gone := by
  obtain ⟨marked, left⟩ := mem_entries_without.mp (mem_entries_marker.mpr complete)
  exact ⟨mem_entries_marker.mp marked, left⟩

theorem Truthful.without {allowed : String → String → String → Prop}
    (truthful : Truthful allowed stamp dir) :
    Truthful allowed stamp (dir.without gone) := fun complete target content found =>
  truthful (complete_without complete).1 target content (lookup_without found)

theorem Fits.without (fits : Fits keys watch.strict stamp dir)
    (orderly : watch.strict → os.MarkerFirst) (isPrefix : gone <+: os.entries dir.entries) :
    Fits keys watch.strict stamp (dir.without gone) := by
  refine ⟨fits.stamp, fun strict complete => ?_⟩
  -- the marker is still there, so nothing is gone
  obtain ⟨marked, left⟩ := complete_without complete
  have holds := fits.holds strict marked
  obtain ⟨target, -, entries⟩ := holds.entries marked
  rw [entries, orderly strict target] at isPrefix
  cases gone with
  | nil => exact holds
  | cons => exact absurd (cons_prefix_cons.mp isPrefix).1 fun isMarker => left (isMarker ▸ .head _)

section
variable (held : Held keys watch world)
include held

theorem Held.removeAll (orderly : watch.strict → watch.crashes → os.MarkerFirst)
    (free : ∀ entry ∈ watch.stamps, entry.2 ≠ stamp) : Ends (removeAll os stamp) world
      (fun _ world' => Held keys watch world' ∧ SameBut stamp world world' ∧
        world'.disk.runtime.lookup stamp = none)
      (Stopped keys watch) := by
  cases found : world.disk.runtime.lookup stamp with
  | none =>
    refine ends_readDisk ?_
    rw [found]
    exact ends_pure ⟨held, .refl, found⟩
  | some dir =>
    refine (removeAll_ends os found).mono ?_ ?_
    · rintro _ world' ⟨same, gone⟩
      refine ⟨held.change same free fun dir again => ?_, same, gone⟩
      cases gone.symm.trans again
    rintro fault world' ⟨rfl, burns, _, isPrefix, unlinked⟩
    refine ⟨held.change unlinked.toSameBut free fun dir' again => ?_,
      fun _ => ⟨rfl, held.fuse burns⟩⟩
    cases unlinked.found.symm.trans again
    exact ⟨(held.fits stamp dir found).without (fun strict => orderly strict (held.fuse burns))
      isPrefix, (held.truthful stamp dir found).without⟩

theorem Held.materialize (grammar : targetNameGrammar target = true)
    (absent : world.disk.runtime.lookup (targetStamp keys target content) = none) :
    Ends (materialize (targetStamp keys target content) target content) world
      (fun _ world' => Held keys (watch.add [(target, targetStamp keys target content)]) world')
      (Stopped keys watch) := by
  have free : ∀ entry ∈ watch.stamps, entry.2 ≠ targetStamp keys target content := by
    refine held.free fun dir found => ?_
    cases absent.symm.trans found
  refine (materialize_ends absent).mono ?_ ?_
  · rintro _ world' ⟨same, found⟩
    have kept : Held keys watch world' := by
      refine held.change same free fun dir again => ?_
      cases found.symm.trans again
      refine ⟨⟨fun _ => keys.wellFormed _, fun _ _ => ⟨target, content, rfl, grammar, rfl⟩⟩,
        fun _ other text located => ?_⟩
      cases mem_singleton.mp (Named.mem_of_lookup located)
      exact held.stamped target content
    exact kept.add ⟨_, content, found, rfl, Named.lookup_eq_some (by simp [Named.names]) (by simp),
      rfl⟩
  rintro fault world' ⟨rfl, burns, same, torn⟩
  refine ⟨held.change same free fun dir found => ?_, fun _ => ⟨rfl, held.fuse burns⟩⟩
  have incomplete : ¬ dir.complete = true := by simp [torn dir found]
  exact ⟨⟨fun _ => keys.wellFormed _, fun _ complete => absurd complete incomplete⟩,
    fun complete => absurd complete incomplete⟩

theorem Held.writeGeneration (orderly : watch.strict → watch.crashes → os.MarkerFirst)
    (grammar : targetNameGrammar target = true) :
      Ends (writeGeneration os keys target content) world
      (fun _ world' => Held keys (watch.add [(target, targetStamp keys target content)]) world')
      (Stopped keys watch) := by
  have valid : ¬ targetNameGrammar target = false := by
    rw [grammar]; exact Bool.true_eq_false_eq_False
  refine ends_readDisk ?_
  rw [if_neg valid]
  cases found : world.disk.runtime.lookup (targetStamp keys target content) with
  | none =>
    refine (held.materialize grammar found).andThen fun _ world' kept => ?_
    exact ends_pure kept
  | some dir =>
    dsimp only
    split
    · rename_i complete
      have fits := held.fits _ dir found
      have stored : watch.strict → dir.files.lookup target = some content := by
        intro strict
        obtain ⟨_, _, files, otherGrammar, stamped⟩ := fits.holds strict complete
        obtain ⟨rfl, rfl⟩ := targetStamp_inj otherGrammar grammar stamped
        rw [files]
        exact Named.lookup_eq_some (by simp [Named.names]) (by simp)
      split
      · rename_i missing
        refine ends_throw ⟨held, fun strict => ?_⟩
        cases (stored strict).symm.trans missing
      rename_i existing located
      split
      · rename_i stamped
        exact ends_pure (held.add ⟨dir, existing, found, complete, located, stamped⟩)
      rename_i mismatch
      refine ends_throw ⟨held, fun strict => absurd ?_ mismatch⟩
      cases (stored strict).symm.trans located
      rfl
    rename_i incomplete
    refine (held.removeAll orderly (held.free_of_incomplete found incomplete)).andThen ?_
    rintro _ world' ⟨kept, -, gone⟩
    exact (kept.materialize grammar gone).andThen fun _ _ written => ends_pure written

theorem Held.currentStamps :
    Ends currentStamps world (fun stamps world' => world' = world ∧
      parseManagedBlock none watch.env = .ok stamps) (Stopped keys watch) := by
  refine ends_readDisk ?_
  rw [held.env]
  cases parsed : parseManagedBlock none watch.env with
  | ok => exact ends_pure ⟨rfl, rfl⟩
  | error =>
    refine ends_throw ⟨held, fun strict => ?_⟩
    obtain ⟨_, ok⟩ := held.readable strict
    cases parsed.symm.trans ok

end

theorem generationTarget_eq (os : Listing) (complete : dir.complete = true)
    (holds : HoldsTarget keys stamp dir) :
    ∃ target, generationTarget os dir = .ok target := by
  obtain ⟨target, grammar, entries⟩ := holds.entries complete
  refine ⟨target, ?_⟩
  have listed := os.entries_perm dir.entries
  unfold generationTarget
  rw [entries] at listed ⊢
  generalize os.entries [.file target, .marker] = order at listed
  cases order with
  | nil => cases listed.length_eq
  | cons =>
    rcases mem_pair.mp (listed.mem_iff.mp (.head _)) with rfl | rfl
    · rw [perm_singleton.mp listed.cons_inv]
      simp [soleTarget, grammar]
    · rw [perm_singleton.mp (listed.trans (.swap ..)).cons_inv]
      simp [soleTarget, grammar]

theorem Held.collect (held : Held keys watch world)
    (orderly : watch.strict → watch.crashes → os.MarkerFirst) {current names : List String}
    (relied : ∀ entry ∈ watch.stamps, entry.2 ∈ current)
    (named : watch.strict → ∀ name ∈ names, parseStamp none name = true) :
      Ends (collect os current names) world
      (fun superseded world' => Held keys watch world' ∧ ∀ entry ∈ superseded, entry.2 ∉ current)
      (Stopped keys watch) := by
  induction names generalizing world with
  | nil => exact ends_pure ⟨held, by simp⟩
  | cons name rest ih =>
    have later : watch.strict → ∀ name ∈ rest, parseStamp none name = true :=
      fun strict other mem => named strict other (mem_cons_of_mem name mem)
    unfold collect
    split
    · rename_i foreign
      refine ends_throw ⟨held, fun strict => ?_⟩
      cases (named strict name (.head _)).symm.trans foreign
    split
    · exact ih held later
    rename_i superseded
    have free : ∀ entry ∈ watch.stamps, entry.2 ≠ name :=
      fun entry mem same => superseded (same ▸ relied entry mem)
    refine ends_readDisk ?_
    split
    · exact ih held later
    rename_i dir found
    split
    · rename_i complete
      split
      · rename_i fault refused
        refine ends_throw ⟨held, fun strict => ?_⟩
        obtain ⟨_, sole⟩ :=
          generationTarget_eq os complete ((held.fits name dir found).holds strict complete)
        cases sole.symm.trans refused
      refine (ih held later).andThen ?_
      rintro others world' ⟨kept, apart⟩
      refine ends_pure ⟨kept, fun entry mem => ?_⟩
      rcases mem_cons.mp mem with rfl | old
      · exact superseded
      · exact apart entry old
    refine (held.removeAll orderly free).andThen ?_
    rintro _ world' ⟨kept, -⟩
    exact ih kept later

theorem mem_superfluous {keep : Nat} {superseded : List (String × String)} {name : String}
    (chosen : name ∈ superfluous os keep superseded) : ∃ entry ∈ superseded, entry.2 = name := by
  obtain ⟨_, -, dropped⟩ := mem_flatMap.mp chosen
  have sorted := (mem_insertionSort _).mp (mem_of_mem_drop dropped)
  obtain ⟨entry, filtered, rfl⟩ := mem_map.mp sorted
  exact ⟨entry, mem_of_mem_filter filtered, rfl⟩

theorem Held.listed (held : Held keys watch world) (strict : watch.strict) :
    ∀ name ∈ os.dirs world.disk.runtime.names, parseStamp none name = true := by
  intro name listed
  obtain ⟨dir, found⟩ := Named.mem_names_iff.mp ((os.dirs_perm _).mem_iff.mp listed)
  exact (held.fits name dir found).stamp strict

theorem Held.gc (held : Held keys watch world)
    (orderly : watch.strict → watch.crashes → os.MarkerFirst)
    (relied : ∀ stamps, parseManagedBlock none watch.env = .ok stamps →
      ∀ entry ∈ watch.stamps, entry ∈ stamps) (keep : Nat) :
    Ends (gc os keep) world (fun _ world' => Held keys watch world') (Stopped keys watch) := by
  refine held.currentStamps.andThen ?_
  rintro stamps world ⟨rfl, parsed⟩
  have current : ∀ entry ∈ watch.stamps, entry.2 ∈ stamps.map (·.2) :=
    fun entry mem => mem_map_of_mem (relied stamps parsed entry mem)
  refine ends_readDisk ?_
  refine (held.collect orderly current held.listed).andThen ?_
  rintro superseded world' ⟨kept, apart⟩
  refine keeps_forM (fun name chosen world'' kept => ?_) _ kept
  obtain ⟨entry, mem, rfl⟩ := mem_superfluous ((os.victims_perm _).mem_iff.mp chosen)
  have free : ∀ relied ∈ watch.stamps, relied.2 ≠ entry.2 :=
    fun other old same => apart entry mem (same ▸ current other old)
  exact (kept.removeAll orderly free).mono (fun _ _ done => done.1) fun _ _ stopped => stopped

def CompleteBut (names : List String) (world : World) : Prop :=
  ∀ name dir, name ∉ names → world.disk.runtime.lookup name = some dir → dir.complete = true

section
variable (held : Held keys watch world) (orderly : watch.strict → watch.crashes → os.MarkerFirst)
include held orderly

theorem Held.recoverDirs
    {names : List String} (named : watch.strict → ∀ name ∈ names, parseStamp none name = true)
    (completed : CompleteBut names world) :
    Ends (names.forM (recoverDir os)) world
      (fun _ world' => Held keys watch world' ∧ CompleteBut [] world') (Stopped keys watch) := by
  induction names generalizing world with
  | nil => exact ends_pure ⟨held, completed⟩
  | cons name rest ih =>
    have later : watch.strict → ∀ name ∈ rest, parseStamp none name = true :=
      fun strict other mem => named strict other (mem_cons_of_mem name mem)
    have visited : ∀ {world' : World}, (∀ other, other ≠ name → world'.disk.runtime.lookup other =
        world.disk.runtime.lookup other) →
        (∀ dir, world'.disk.runtime.lookup name = some dir → dir.complete = true) →
          CompleteBut rest world' := by
      intro world' same complete other dir left found
      by_cases here : other = name
      · subst here
        exact complete dir found
      · exact completed other dir (by simp [here, left]) ((same other here).symm.trans found)
    refine ends_bind (ends_readDisk ?_)
    split
    · rename_i foreign
      refine ends_throw ⟨held, fun strict => ?_⟩
      cases (named strict name (.head _)).symm.trans foreign
    split
    · rename_i absent
      refine ends_pure (ih held later (visited (fun _ _ => rfl) fun dir found => ?_))
      cases absent.symm.trans found
    rename_i dir found
    split
    · rename_i complete
      refine ends_pure (ih held later (visited (fun _ _ => rfl) fun other again => ?_))
      cases found.symm.trans again
      exact complete
    rename_i incomplete
    refine (held.removeAll orderly (held.free_of_incomplete found incomplete)).mono ?_
      fun _ _ stopped => stopped
    rintro _ world' ⟨kept, same, gone⟩
    refine ih kept later (visited same.others fun dir again => ?_)
    cases gone.symm.trans again

theorem Held.recover :
    Ends (recover os) world (fun _ world' => Held keys watch world' ∧ CompleteBut [] world')
      (Stopped keys watch) := by
  refine ends_readDisk ?_
  refine held.recoverDirs orderly held.listed fun name dir left found => ?_
  exact absurd ((os.dirs_perm _).mem_iff.mpr (Named.mem_names_iff.mpr ⟨dir, found⟩)) left

theorem Held.writeGenerations {plan : Named String}
    (grammar : ∀ entry ∈ plan, targetNameGrammar entry.1 = true) :
    Ends (writeGenerations os keys plan) world
      (fun _ world' => Held keys (watch.add (planStamps keys plan)) world')
      (Stopped keys watch) := by
  induction plan generalizing world watch with
  | nil => exact ends_pure (by simpa [planStamps, Watch.add] using held)
  | cons entry _ ih =>
    refine ends_bind ((held.writeGeneration orderly (grammar entry (.head _))).andThen ?_)
    intro _ _ written
    refine ends_pure
      ((ih written orderly fun other mem => grammar other (mem_cons_of_mem entry mem)).mono ?_ ?_)
    · intro _ world'' all
      simpa [planStamps, Watch.add] using all
    · rintro fault world'' ⟨kept, crashed⟩
      exact ⟨kept.of_add, crashed⟩

end

theorem Held.commitStamps (held : Held keys watch world) (committable : Committable none stamps)
    (relied : ∀ entry ∈ stamps, entry ∈ watch.stamps) : Ends (commitStamps stamps) world
      (fun _ world' => ∃ env, parseManagedBlock none env = .ok (sortedStamps stamps) ∧
        Held keys { watch with env, stamps := sortedStamps stamps } world')
      (Stopped keys watch) := by
  have valid : stamps.find? (fun entry => parseStamp none entry.2 = false) = none :=
    find?_eq_none.mpr fun entry mem => by simp [committable.valid entry mem]
  refine ends_readDisk ?_
  rw [valid, held.env]
  cases parsed : parseManagedBlock none watch.env with
  | error =>
    refine ends_throw ⟨held, fun strict => ?_⟩
    obtain ⟨old, ok⟩ := held.readable strict
    cases parsed.symm.trans ok
  | ok =>
    obtain ⟨env, spliced⟩ := spliceManagedBlock_ok parsed (renderManagedBlock stamps)
    have readBack := parse_splice committable spliced
    refine ends_bind (ends_pure (ends_bind ?_))
    rw [spliced]
    refine ends_pure (ends_act rfl (fun burns => ⟨held, fun _ => ⟨rfl, held.fuse burns⟩⟩)
      fun fuse burns => ⟨env, readBack, ?_⟩)
    exact { env := rfl
            readable := fun _ => ⟨_, readBack⟩
            kept := fun entry mem => held.kept entry (relied entry (mem_sortedStamps.mp mem))
            fits := held.fits
            truthful := held.truthful
            stamped := held.stamped
            fuse := fun lit => held.fuse (burns lit) }

structure Plan.Publishable (plan : Plan) : Prop where
  some : plan.targets ≠ []
  grammar : ∀ entry ∈ plan.targets, targetNameGrammar entry.1 = true

theorem Plan.Publishable.committable {plan : Plan} (publishable : plan.Publishable) :
    Committable none (planStamps keys plan.targets) := by
  refine ⟨?_, fun entry mem => ?_, fun entry mem => ?_⟩
  · have names : Named.names (planStamps keys plan.targets) = plan.targets.names := by
      simp [planStamps, Named.names]
    rw [names]
    exact plan.distinct
  · obtain ⟨source, inPlan, rfl⟩ := mem_map.mp mem
    exact publishable.grammar source inPlan
  · obtain ⟨_, _, rfl⟩ := mem_map.mp mem
    exact keys.wellFormed _

def Switched (watch : Watch) (hold : Watch → Prop) : Prop :=
  hold watch ∨ ∃ env stamps, parseManagedBlock none env = .ok stamps ∧
    hold { watch with env, stamps }

theorem Held.publish {plan : Plan} (held : Held keys watch world)
    (orderly : watch.strict → watch.crashes → os.MarkerFirst) (publishable : plan.Publishable) :
    Ends (publish os keys plan.targets) world
      (fun _ world' => Switched watch fun watch => Held keys watch world')
      fun fault world' => Switched watch fun watch => Stopped keys watch fault world' := by
  have valid : plan.targets.find? (fun entry => targetNameGrammar entry.1 = false) = none :=
    find?_eq_none.mpr fun entry mem => by simp [publishable.grammar entry mem]
  unfold Compose.publish
  rw [if_neg publishable.some, valid]
  refine ends_bind (held.currentStamps.mono ?_ fun _ _ stopped => .inl stopped)
  rintro stamps world ⟨rfl, -⟩
  have grammar : ∀ entry ∈ plan.targets.insertionSort fun a b => a.1 ≤ b.1,
      targetNameGrammar entry.1 = true :=
    fun entry mem => publishable.grammar entry ((mem_insertionSort _).mp mem)
  refine (held.writeGenerations orderly grammar).bind ?_ fun _ _ stopped => .inl stopped
  intro _ _ written
  have relied : ∀ entry ∈ planStamps keys plan.targets,
      entry ∈ (watch.add
        (planStamps keys (plan.targets.insertionSort fun a b => a.1 ≤ b.1))).stamps := by
    intro entry mem
    obtain ⟨_, inPlan, rfl⟩ := mem_map.mp mem
    exact mem_append_right _ (mem_map_of_mem ((mem_insertionSort _).mpr inPlan))
  refine (written.commitStamps publishable.committable relied).bind ?_ ?_
  · rintro _ world'' ⟨env, parsed, committed⟩
    have named : ∀ stamps, parseManagedBlock none env = .ok stamps →
        ∀ entry ∈ sortedStamps (planStamps keys plan.targets), entry ∈ stamps := by
      intro _ again _ mem
      cases parsed.symm.trans again
      exact mem
    exact (committed.gc orderly named defaultGenerationsKept).mono
      (fun _ _ kept => .inr ⟨env, _, parsed, kept⟩)
      fun _ _ stopped => .inr ⟨env, _, parsed, stopped⟩
  · rintro fault world'' ⟨kept, crashed⟩
    exact .inl ⟨kept.of_add, crashed⟩

end Relied

end Hikyo.Compose
