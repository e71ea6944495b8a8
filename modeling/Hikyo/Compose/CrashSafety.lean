import Hikyo.Compose.Publication

/-!
# Publication and crashes

`publication_crash_safe`: after any sequence of publications, recoveries and collections, each of
which may crash between two filesystem steps, every stamp of the managed block names a complete
generation with the content it was computed from, and a run that does not crash succeeds.  It needs
that a run which crashes has the marker files listed first: a collection that removes the file
before the marker can leave a complete directory without its file, which blocks every later
publication (`cut_collection_blocks_publication`).  The first half needs nothing
(`recorded_at_every_instant`).
-/

namespace Hikyo.Compose

open Hikyo.Lib List

section CrashSafety
variable {keys : LocalKeys} {disk : Disk} {strict : Prop} {run : Run} {runs : List Run}
  {env : List Char}

/-- Every stamp in the managed block names a complete generation with its content. -/
def Recorded (keys : LocalKeys) (disk : Disk) : Prop :=
  ∃ stamps, parseManagedBlock none disk.env = .ok stamps ∧
    ∀ entry ∈ stamps, Good keys disk entry.1 entry.2

structure Rests (keys : LocalKeys) (strict : Prop) (disk : Disk) : Prop where
  recorded : Recorded keys disk
  fits : ∀ name dir, disk.runtime.lookup name = some dir → Fits keys strict name dir

def Verb.Valid : Verb → Prop
  | .publish plan => plan.Publishable
  | .recover => True
  | .gc _ => True

def Run.Orderly (run : Run) : Prop := run.fuse = none ∨ run.os.MarkerFirst

theorem Held.rests {watch : Watch} {world : World} (held : Held keys watch world)
    (parsed : parseManagedBlock none watch.env = .ok watch.stamps) :
    Rests keys watch.strict world.disk :=
  ⟨⟨watch.stamps, held.env ▸ parsed, held.kept⟩, held.fits⟩

theorem Rests.held (rests : Rests keys strict disk) (fuse : Option Nat) :
    ∃ stamps, parseManagedBlock none disk.env = .ok stamps ∧
      Held keys ⟨disk.env, stamps, fun _ _ _ => True, strict, fuse ≠ none⟩ { disk, fuse } := by
  obtain ⟨stamps, parsed, good⟩ := rests.recorded
  exact ⟨stamps, parsed, rfl, fun _ => ⟨stamps, parsed⟩, good, rests.fits,
    fun _ _ _ _ _ _ _ => trivial, fun _ _ => trivial, id⟩

theorem publish_refused (keys : LocalKeys) {plan : Plan} (refused : ¬ plan.Publishable)
    (os : Listing) (world : World) :
    ∃ fault, publish os keys plan.targets world = .error fault world := by
  unfold publish
  split
  · exact ⟨_, rfl⟩
  rename_i some
  cases found : plan.targets.find? fun entry => targetNameGrammar entry.1 = false with
  | some => exact ⟨_, rfl⟩
  | none =>
    refine absurd ⟨some, fun entry mem => ?_⟩ refused
    simpa using find?_eq_none.mp found entry mem

structure Concluded (keys : LocalKeys) (strict : Prop) (run : Run) (result : Option Fault × Disk) :
    Prop where
  rests : Rests keys strict result.2
  crashed : strict → run.verb.Valid → ∀ fault, result.1 = some fault → run.fuse ≠ none

theorem Run.result_of_ends {ok : PUnit → World → Prop} {bad : Fault → World → Prop}
    (post : Option Fault × Disk → Prop)
    (ends : Ends (verbProgram keys run.os run.verb) { disk, fuse := run.fuse } ok bad)
    (returns : ∀ world, ok ⟨⟩ world → post (none, world.disk))
    (fails : ∀ fault world, bad fault world → post (some fault, world.disk)) :
    post (run.result keys disk) := by
  unfold Ends at ends
  unfold Run.result
  split
  · rename_i taken
    rw [taken] at ends
    exact returns _ ends
  rename_i taken
  rw [taken] at ends
  exact fails _ _ ends

theorem Run.concluded (run : Run) (rests : Rests keys strict disk)
    (orderly : strict → run.Orderly) :
    Concluded keys strict run (run.result keys disk) := by
  obtain ⟨stamps, parsed, held⟩ := rests.held run.fuse
  have listed : strict → run.fuse ≠ none → run.os.MarkerFirst :=
    fun isStrict burns => (orderly isStrict).resolve_left burns
  have returned : ∀ {watch : Watch} {world : World}, parseManagedBlock none watch.env =
      .ok watch.stamps → watch.strict = strict →
      Held keys watch world → Concluded keys strict run (none, world.disk) := by
    rintro watch world parsed rfl held
    exact ⟨held.rests parsed, fun _ _ _ none => by cases none⟩
  have stopped : ∀ {watch : Watch} {fault : Fault} {world : World},
      parseManagedBlock none watch.env = .ok watch.stamps → watch.strict = strict →
      watch.crashes = (run.fuse ≠ none) → Stopped keys watch fault world →
        Concluded keys strict run (some fault, world.disk) := by
    rintro watch fault world parsed rfl crashes ⟨held, crashed⟩
    exact ⟨held.rests parsed, fun isStrict _ _ _ => crashes ▸ (crashed isStrict).2⟩
  obtain ⟨verb, os, fuse⟩ := run
  cases verb with
  | publish plan =>
    by_cases publishable : plan.Publishable
    · refine Run.result_of_ends _ (held.publish listed publishable) (fun world switched => ?_)
        fun fault world switched => ?_
      · rcases switched with kept | ⟨env, stamps, parsed', kept⟩
        · exact returned parsed rfl kept
        · exact returned parsed' rfl kept
      rcases switched with kept | ⟨env, stamps, parsed', kept⟩
      · exact stopped parsed rfl rfl kept
      · exact stopped parsed' rfl rfl kept
    obtain ⟨fault, refused⟩ := publish_refused keys publishable os { disk, fuse }
    have result : Run.result keys ⟨.publish plan, os, fuse⟩ disk = (some fault, disk) := by
      simp only [Run.result, verbProgram, refused]
    rw [result]
    exact ⟨rests, fun _ valid => absurd valid publishable⟩
  | recover =>
    exact Run.result_of_ends _ (held.recover listed) (fun world kept => returned parsed rfl kept.1)
      fun fault world => stopped parsed rfl rfl
  | gc keep =>
    have relied : ∀ stamps', parseManagedBlock none disk.env = .ok stamps' →
        ∀ entry ∈ stamps, entry ∈ stamps' := by
      intro _ again _ mem
      rw [parsed] at again
      cases again
      exact mem
    exact Run.result_of_ends _ (held.gc listed relied keep) (fun world => returned parsed rfl)
      fun fault world => stopped parsed rfl rfl

theorem recover_completes (rests : Rests keys strict disk) (os : Listing)
    (fault : (Run.result keys { verb := .recover, os } disk).1 = none) :
    ∀ name dir, (Run.result keys { verb := .recover, os } disk).2.runtime.lookup name = some dir →
      dir.complete = true := by
  obtain ⟨_, _, held⟩ := rests.held none
  have listed : strict → (none : Option Nat) ≠ none → os.MarkerFirst :=
    fun _ crashes => absurd rfl crashes
  have ends := held.recover listed
  revert fault
  refine Run.result_of_ends (fun result => result.1 = none →
    ∀ name dir, result.2.runtime.lookup name = some dir → dir.complete = true)
    ends (fun world kept _ name dir found => kept.2 name dir (by simp) found)
      fun fault world _ some => ?_
  cases some

theorem rests_blockless (blockless : parseManagedBlock none env = .ok []) :
    Rests keys strict { env } :=
  ⟨⟨[], blockless, by simp⟩, fun name dir found => by cases found⟩

theorem Rests.after (rests : Rests keys strict disk)
    (orderly : strict → ∀ run ∈ runs, run.Orderly) :
    Rests keys strict (diskAfter keys disk runs) := by
  induction runs generalizing disk with
  | nil => exact rests
  | cons run _ ih =>
    have first := run.concluded rests fun isStrict => orderly isStrict run (.head _)
    exact ih first.rests fun isStrict other mem => orderly isStrict other (mem_cons_of_mem run mem)

/-- However runs have crashed, every stamp in the managed block names what it is of. -/
theorem recorded_at_every_instant (blockless : parseManagedBlock none env = .ok [])
    (runs : List Run) :
    Recorded keys (diskAfter keys { env } runs) := by
  have rests : Rests keys False { env } := rests_blockless blockless
  exact (rests.after fun impossible => impossible.elim).recorded

/-- Publication is crash safe as long as a run that crashes has the markers listed first. -/
theorem publication_crash_safe (keys : LocalKeys) (blockless : parseManagedBlock none env = .ok [])
    (runs : List Run) (orderly : ∀ run ∈ runs, run.Orderly) (os : Listing) :
    Recorded keys (diskAfter keys { env } runs) ∧
      ∃ disk, Run.result keys { verb := .recover, os } (diskAfter keys { env } runs) =
        (none, disk) ∧
        (∀ name dir, disk.runtime.lookup name = some dir → dir.complete = true ∧
          HoldsTarget keys name dir) ∧
        ∀ (later : List Run) (run : Run), (∀ other ∈ later, other.fuse = none) → run.fuse = none →
          run.verb.Valid →
          (run.result keys (diskAfter keys disk later)).1 = none := by
  have rests : Rests keys True (diskAfter keys { env } runs) :=
    (rests_blockless blockless).after fun _ => orderly
  refine ⟨rests.recorded, ?_⟩
  have recovered := Run.concluded { verb := .recover, os } rests fun _ => .inl rfl
  have completes := recover_completes rests os
  generalize Run.result keys { verb := .recover, os } (diskAfter keys { env } runs) =
    result at recovered completes
  obtain ⟨fault, disk⟩ := result
  cases fault with
  | some fault => exact absurd rfl (recovered.crashed trivial trivial fault rfl)
  | none =>
    refine ⟨disk, rfl, fun name dir found => ?_, fun later run unharmed crashless valid => ?_⟩
    · have complete := completes rfl name dir found
      exact ⟨complete, (recovered.rests.fits name dir found).holds trivial complete⟩
    · have restsLater := recovered.rests.after fun _ other mem => .inl (unharmed other mem)
      have concluded := run.concluded restsLater fun _ => .inl crashless
      cases ended : (run.result keys (diskAfter keys disk later)).1 with
      | none => rfl
      | some fault => exact absurd crashless (concluded.crashed trivial valid fault ended)

end CrashSafety

def nibbles (n : Nat) : List (Fin 16) :=
  [Fin.ofNat 16 (n / 1048576), Fin.ofNat 16 (n / 65536), Fin.ofNat 16 (n / 4096),
    Fin.ofNat 16 (n / 256), Fin.ofNat 16 (n / 16), Fin.ofNat 16 n]

def hexDigit (n : Fin 16) : Char := Char.ofNat (if n < 10 then 48 + n else 87 + n)

def hexText (text : List Char) : List Char := (text.flatMap fun c => nibbles c.toNat).map hexDigit

theorem nibbles_injective {n m : Nat} (nBound : n < 16777216) (mBound : m < 16777216)
    (same : nibbles n = nibbles m) : n = m := by
  simp only [nibbles, cons.injEq, Fin.ext_iff, Fin.val_ofNat] at same
  omega

theorem toNat_lt (c : Char) : c.toNat < 16777216 := by
  have valid : c.val.toNat < 55296 ∨ 57343 < c.val.toNat ∧ c.val.toNat < 1114112 := c.valid
  change c.val.toNat < 16777216
  omega

theorem hexText_injective {text text' : List Char} (same : hexText text = hexText text') :
    text = text' := by
  have digits : Function.Injective hexDigit := by
    unfold Function.Injective
    decide
  replace same := digits.list_map same
  induction text generalizing text' with
  | nil =>
    cases text' with
    | nil => rfl
    | cons => cases same
  | cons c _ ih =>
    cases text' with
    | nil => cases same
    | cons c' =>
      obtain ⟨first, rest⟩ := append_inj same rfl
      rw [Char.toNat_inj.mp (nibbles_injective (toNat_lt c) (toNat_lt c') first), ih rest]

/-- The digits tell messages under the domain of contents, which they leave out, from others. -/
def hexStamp (message : List Char) : List Char :=
  if targetContentDomain.toList.isPrefixOf message then
    '0' :: hexText (message.drop targetContentDomain.toList.length)
  else '1' :: hexText message

theorem hexStamp_injective {message message' : List Char}
    (same : hexStamp message = hexStamp message') : message = message' := by
  unfold hexStamp at same
  split at same
  · rename_i here
    split at same
    · rename_i there
      have rests := hexText_injective (cons.inj same).2
      rw [← prefix_iff_eq_append.mp ( isPrefixOf_iff_prefix.mp here),
        ← prefix_iff_eq_append.mp ( isPrefixOf_iff_prefix.mp there), rests]
    · exact absurd (cons.inj same).1 (by decide)
  split at same
  · exact absurd (cons.inj same).1 (by decide)
  · exact hexText_injective (cons.inj same).2

theorem isLowerHex_hexStamp {message : List Char} :
    ∀ c ∈ hexStamp message, isLowerHex c = true := by
  have digits : ∀ n, isLowerHex (hexDigit n) = true := by decide
  have texts : ∀ text, ∀ c ∈ hexText text, isLowerHex c = true := by
    intro _ c inText
    obtain ⟨n, -, rfl⟩ := mem_map.mp inText
    exact digits n
  intro c inStamp
  unfold hexStamp at inStamp
  split at inStamp
  all_goals
    rcases mem_cons.mp inStamp with rfl | inText
    · decide
    · exact texts _ c inText

def hexKeys : LocalKeys where
  stamp message := String.ofList ('v' :: '1' :: '-' :: hexStamp message.toList)
  wellFormed message := by
    rw [parseStamp, String.toList_ofList]
    exact all_eq_true.mpr isLowerHex_hexStamp
  collisionFree := by
    intro message message' same
    have texts := String.ofList_injective same
    exact String.toList_inj.mp (hexStamp_injective (cons.inj (cons.inj (cons.inj texts).2).2).2)

def fileFirst : Listing where
  dirs := id
  entries := id
  victims := id
  mtime name := (name.toList.getLast?.map Char.toNat).getD 0
  dirs_perm := List.Perm.refl
  entries_perm := List.Perm.refl
  victims_perm := List.Perm.refl

def publishOnly (content : String) : Run where
  verb := .publish ⟨[("a", content)], by simp [Named.names]⟩
  os := fileFirst

/-- The fifth content crashes after six steps: the file of the first generation is removed. -/
def collectionCut : List Run :=
  [publishOnly "1", publishOnly "2", publishOnly "3", publishOnly "4",
    { publishOnly "5" with fuse := some 6 }, { verb := .recover, os := fileFirst }]

/-- Recovery keeps the directory without a file, and neither a collection nor a
publication gets past it. -/
theorem cut_collection_blocks_publication :
    let disk := diskAfter hexKeys {} collectionCut
    disk.runtime.lookup (targetStamp hexKeys "a" "1") = some { files := [], complete := true } ∧
      (Run.result hexKeys { verb := .gc defaultGenerationsKept, os := fileFirst } disk).1 =
        some .targetFileMissing ∧
      ((publishOnly "6").result hexKeys disk).1 = some .targetFileMissing := by
  decide +kernel

theorem recorded_at_every_instant_cut : Recorded hexKeys (diskAfter hexKeys {} collectionCut) :=
  recorded_at_every_instant rfl collectionCut

def markerFirst : Listing where
  dirs := id
  entries := reverse
  victims := id
  mtime := fileFirst.mtime
  dirs_perm := List.Perm.refl
  entries_perm := reverse_perm
  victims_perm := List.Perm.refl

theorem publication_crash_safe_cut :
    let runs := collectionCut.map fun run => { run with os := markerFirst }
    Recorded hexKeys (diskAfter hexKeys {} runs) ∧
      ∃ disk, Run.result hexKeys { verb := .recover, os := markerFirst }
        (diskAfter hexKeys {} runs) = (none, disk) ∧
        (Run.result hexKeys { verb := .gc defaultGenerationsKept, os := markerFirst } disk).1 =
          none ∧
        ((publishOnly "6").result hexKeys disk).1 = none := by
  have orderly : ∀ run ∈ collectionCut.map fun run => { run with os := markerFirst },
    run.Orderly := by
    intro _ mem
    obtain ⟨_, -, rfl⟩ := mem_map.mp mem
    exact .inr fun target => rfl
  have blockless : parseManagedBlock none [] = .ok [] := rfl
  obtain ⟨recorded, disk, recovered, -, succeeds⟩ :=
    publication_crash_safe hexKeys blockless _ orderly markerFirst
  have publishable : (publishOnly "6").verb.Valid := ⟨by simp, by simp; decide⟩
  exact ⟨recorded, disk, recovered, succeeds [] _ (by simp) rfl trivial,
    succeeds [] _ (by simp) rfl publishable⟩

end Hikyo.Compose
