import Hikyo.Project.Cells

/-!
# The closed selection

`selectVersions` closes the named drafts under the coupling of key groups in an environment, by
passes over all pending drafts until nothing is added.  `closure_least_or_refused`: the loop ends
within its bound, with the least set that has the named drafts and is closed; it is refused exactly
when that set has a draft of another principal.
-/

namespace Hikyo.Project

open Hikyo.Lib List

variable {key : CatalogueKey} {acc : Closing} {group : GroupID} {mine : List PendingChange}
  {marker : PendingChange} {e : ServiceError}

structure SameGroup (keys : List CatalogueKey) (change other : PendingChange) : Prop where
  environment : other.env = change.env
  group : ∃ group, ∃ key ∈ keys, ∃ mem ∈ keys, key.id = change.keyID ∧ key.groupID = some group ∧
    mem.id = other.keyID ∧ mem.groupID = some group

inductive Coupled (keys : List CatalogueKey) (mine : List PendingChange) (ids : List VersionID) :
    PendingChange → Prop
  | named {change : PendingChange} (own : change ∈ mine) (chosen : change.id ∈ ids) :
      Coupled keys mine ids change
  | pulled {change other : PendingChange} (selected : Coupled keys mine ids change)
      (own : other ∈ mine) (together : SameGroup keys change other) : Coupled keys mine ids other

section Resolve
variable {selected : List PendingChange}

theorem resolveVersions_sound {ids : List VersionID}
    (run : resolveVersions mine ids = .ok selected) :
    (∀ change ∈ selected, change ∈ mine ∧ change.id ∈ ids) ∧
      (∀ id ∈ ids, ∃ change ∈ selected, change.id = id) ∧
      (selected.map PendingChange.id).Nodup := by
  induction ids generalizing selected with
  | nil =>
    cases run
    simp
  | cons id rest ih =>
    rw [resolveVersions] at run
    split at run
    · cases run
    next change located =>
    obtain ⟨later, run, chosen⟩ := bind_eq_ok.mp run
    obtain ⟨sound, complete, distinct⟩ := ih run
    have mem := mem_of_find?_eq_some located
    have named : change.id = id := by simpa using find?_some located
    have weaker : ∀ other ∈ later, other ∈ mine ∧ other.id ∈ id :: rest := fun other inLater =>
      ⟨(sound other inLater).1, .tail _ (sound other inLater).2⟩
    split at chosen
    · next repeated =>
      cases chosen
      refine ⟨weaker, ?_, distinct⟩
      obtain ⟨other, inLater, same⟩ := any_eq_true.mp repeated
      intro wanted mem
      rcases mem_cons.mp mem with rfl | inRest
      · exact ⟨other, inLater, by simpa using same⟩
      · exact complete wanted inRest
    next single =>
    cases chosen
    refine ⟨?_, ?_, ?_⟩
    · intro other inBoth
      rcases mem_cons.mp inBoth with rfl | inLater
      · exact ⟨mem, by simp [named]⟩
      · exact weaker other inLater
    · intro wanted inBoth
      rcases mem_cons.mp inBoth with rfl | inRest
      · exact ⟨change, .head _, named⟩
      · obtain ⟨other, inLater, same⟩ := complete wanted inRest
        exact ⟨other, .tail _ inLater, same⟩
    · rw [map_cons, nodup_cons]
      refine ⟨fun repeated => single ?_, distinct⟩
      obtain ⟨other, inLater, same⟩ := mem_map.mp repeated
      exact any_eq_true.mpr ⟨other, inLater, by simp [same, named]⟩

theorem mem_sortedChanges {change : PendingChange} :
    change ∈ sortedChanges selected ↔ change ∈ selected :=
  (perm_insertionSort _ _).mem_iff

end Resolve

section Pass
variable {principal : PrincipalID} {markers : List PendingChange} {index : GroupIndex}
  {source : PendingChange → Prop}

structure Grows (source : PendingChange → Prop) (acc acc' : Closing) : Prop where
  kept : ∀ change ∈ acc.selected, change ∈ acc'.selected
  origin : ∀ pull ∈ acc'.selected, pull ∈ acc.selected ∨ source pull
  distinct : (acc.selected.map PendingChange.id).Nodup → (acc'.selected.map PendingChange.id).Nodup
  longer : acc.selected.length ≤ acc'.selected.length
  stable : acc'.selected.length = acc.selected.length → acc'.selected = acc.selected

theorem Grows.refl (acc : Closing) : Grows source acc acc :=
  ⟨fun _ => id, fun _ => .inl, id, le_rfl, fun _ => rfl⟩

theorem Grows.trans (a b c : Closing) (first : Grows source a b) (second : Grows source b c) :
    Grows source a c where
  kept change mem := second.kept change (first.kept change mem)
  origin pull mem := (second.origin pull mem).elim (first.origin pull) .inr
  distinct distinct := second.distinct (first.distinct distinct)
  longer := Nat.le_trans first.longer second.longer
  stable same := by
    have left := first.longer
    have right := second.longer
    rw [second.stable (by omega), first.stable (by omega)]

variable {change : PendingChange} {mem : CatalogueKey} {acc' : Closing}

theorem Grows.weaken {wider : PendingChange → Prop} (grows : Grows source acc acc')
    (allowed : ∀ pull, source pull → wider pull) : Grows wider acc acc' :=
  { grows with origin := fun pull mem => (grows.origin pull mem).imp_right (allowed pull) }

def Pulled (principal : PrincipalID) (change : PendingChange) (mem : CatalogueKey)
    (marker : PendingChange) (acc : Closing) : Prop :=
  marker.keyID = mem.id → marker.env = change.env →
    marker.owner = principal ∧ ∃ other ∈ acc.selected, other.id = marker.id

theorem pullMarker_spec (run : pullMarker principal mine change group mem acc marker = .ok acc') :
    Grows (fun pull => pull ∈ mine ∧ pull.id = marker.id ∧ marker.keyID = mem.id ∧
      marker.env = change.env) acc acc' ∧
      Pulled principal change mem marker acc' := by
  unfold pullMarker at run
  split at run
  · next elsewhere =>
    cases run
    exact ⟨.refl _, fun sameKey sameEnv => absurd elsewhere (by simp [sameKey, sameEnv])⟩
  next here =>
  simp only [not_or, ne_eq, Decidable.not_not] at here
  split at run
  · cases run
  next owned =>
  simp only [ne_eq, Decidable.not_not] at owned
  split at run
  · next present =>
    cases run
    obtain ⟨other, mem, same⟩ := any_eq_true.mp present
    exact ⟨.refl _, fun _ _ => ⟨owned, other, mem, by simpa using same⟩⟩
  next absent =>
  split at run
  · cases run
  next pull located =>
  cases run
  have named : pull.id = marker.id := by simpa using find?_some located
  refine ⟨⟨fun other => .tail _, ?_, ?_, by simp, by simp⟩,
    fun _ _ => ⟨owned, pull, .head _, named⟩⟩
  · intro other inBoth
    rcases mem_cons.mp inBoth with rfl | old
    · exact .inr ⟨mem_of_find?_eq_some located, named, here⟩
    · exact .inl old
  intro distinct
  rw [map_cons, nodup_cons]
  refine ⟨fun repeated => absent ?_, distinct⟩
  obtain ⟨other, old, same⟩ := mem_map.mp repeated
  exact any_eq_true.mpr ⟨other, old, by simp [same, named]⟩

theorem Pulled.mono (grows : Grows source acc acc')
    (pulled : Pulled principal change mem marker acc) :
    Pulled principal change mem marker acc' := by
  intro sameKey sameEnv
  obtain ⟨owned, other, old, same⟩ := pulled sameKey sameEnv
  exact ⟨owned, other, grows.kept other old, same⟩

theorem closeMember_spec
    (run : closeMember principal mine markers change group acc mem = .ok acc') :
    Grows (fun pull => pull ∈ mine ∧ ∃ marker ∈ markers, pull.id = marker.id ∧
        marker.keyID = mem.id ∧ marker.env = change.env) acc acc' ∧
      ∀ marker ∈ markers, Pulled principal change mem marker acc' :=
  foldlM_grows run .refl Grows.trans (fun _ _ _ grows pulled => pulled.mono grows)
    fun marker listed _ _ first => (pullMarker_spec first).imp_left fun grows =>
      grows.weaken fun _ ⟨own, pulls⟩ => ⟨own, marker, listed, pulls⟩

def PullsFrom (mine markers : List PendingChange) (index : GroupIndex)
    (change pull : PendingChange) :
    Prop :=
  pull ∈ mine ∧ ∃ key, index.key? change.keyID = some key ∧ ∃ group, key.groupID = some group ∧
    ∃ mem ∈ index.members group, ∃ marker ∈ markers,
      pull.id = marker.id ∧ marker.keyID = mem.id ∧ marker.env = change.env

def ClosedAt (principal : PrincipalID) (markers : List PendingChange) (index : GroupIndex)
    (change : PendingChange) (acc : Closing) : Prop :=
  ∃ key, index.key? change.keyID = some key ∧ ∀ group, key.groupID = some group →
    ∀ mem ∈ index.members group, ∀ marker ∈ markers, Pulled principal change mem marker acc

theorem closeChange_spec (run : closeChange principal mine markers index acc change = .ok acc') :
    Grows (PullsFrom mine markers index change) acc acc' ∧
      ClosedAt principal markers index change acc' := by
  unfold closeChange at run
  split at run
  · cases run
  next key located =>
  split at run
  · next ungrouped =>
    cases run
    refine ⟨.refl _, key, located, fun group grouped => ?_⟩
    rw [ungrouped] at grouped
    cases grouped
  next group grouped =>
  obtain ⟨grows, each⟩ := foldlM_grows run .refl Grows.trans
    (fun _ _ _ grows pulled marker listed => (pulled marker listed).mono grows)
    fun mem listed _ _ first => (closeMember_spec first).imp_left fun grows =>
      @Grows.weaken _ _ _ (PullsFrom mine markers index change) grows
        fun _ ⟨own, pulls⟩ => ⟨own, key, located, group, grouped, mem, listed, pulls⟩
  refine ⟨grows, key, located, fun group' grouped' => ?_⟩
  rw [grouped] at grouped'
  cases grouped'
  exact each

theorem ClosedAt.mono (grows : Grows source acc acc')
    (closed : ClosedAt principal markers index change acc) :
    ClosedAt principal markers index change acc' := by
  obtain ⟨key, located, pulled⟩ := closed
  exact ⟨key, located, fun group grouped mem inGroup marker listed =>
    (pulled group grouped mem inGroup marker listed).mono grows⟩

theorem closePass_spec (run : closePass principal mine markers index acc = .ok acc') :
    Grows (fun pull => ∃ change ∈ acc.selected, PullsFrom mine markers index change pull) acc acc' ∧
      ∀ change ∈ acc.selected, ClosedAt principal markers index change acc' := by
  refine (foldlM_grows run .refl Grows.trans (fun _ _ _ grows closed => closed.mono grows)
    fun change listed _ _ first => (closeChange_spec first).imp_left fun grows =>
      grows.weaken fun _ pulls => ⟨change, mem_sortedChanges.mp listed, pulls⟩).imp_right
    fun each change selected => each change (mem_sortedChanges.mpr selected)

end Pass

section Closure
variable {db : ProjectDB} {principal : PrincipalID} {index : GroupIndex}

variable {change : PendingChange} {ids closed : List VersionID}
  {selected markers selection : List PendingChange} {closing : Closing}

theorem own_pending : change ∈ db.ownPending principal ↔ change ∈ db.pending ∧
    change.owner = principal := by
  simp [ProjectDB.ownPending]

theorem GroupIndex.key?_eq_some (keys : index.keys = db.listKeys) {id : KeyID} :
    index.key? id = some key ↔ key ∈ db.keys ∧ key.id = id := by
  rw [GroupIndex.key?, find?_eq_some_iff_of_nodup index.distinct, keys, mem_listKeys]

theorem GroupIndex.mem_members (keys : index.keys = db.listKeys) :
    key ∈ index.members group ↔ key ∈ db.keys ∧ key.groupID = some group := by
  rw [GroupIndex.members, mem_filter, keys, mem_listKeys, beq_iff_eq]

section
variable (run : closeSelection principal mine markers index selected = .ok closing)
include run

theorem closeSelection_grows : Grows (· ∈ mine) ⟨selected, []⟩ closing :=
  saturate_invariant (fun acc => Grows (· ∈ mine) ⟨selected, []⟩ acc)
    (fun _ _ grows passed => grows.trans _ _ _ ((closePass_spec passed).1.weaken
      fun _ ⟨_, _, pulls⟩ => pulls.1)) (.refl _) run

theorem closeSelection_closed :
    ∀ change ∈ closing.selected, ClosedAt principal markers index change closing := by
  obtain ⟨_, passed, same⟩ := saturate_fixpoint run
  obtain ⟨grows, closed⟩ := closePass_spec passed
  rw [grows.stable same]
  exact closed

end

theorem Coupled.mono {keys : List CatalogueKey} (subset : mine ⊆ markers)
    (coupled : Coupled keys mine ids change) : Coupled keys markers ids change := by
  induction coupled with
  | named own chosen => exact .named (subset own) chosen
  | pulled _ own together ih => exact .pulled ih (subset own) together

section
variable (keys : index.keys = db.listKeys) (distinct : (db.pending.map PendingChange.id).Nodup)
include keys distinct

theorem pullsFrom_sameGroup {pull : PendingChange}
    (pulls : PullsFrom (db.ownPending principal) db.pending index change pull) :
    pull ∈ db.ownPending principal ∧ SameGroup db.keys change pull := by
  obtain ⟨own, key, located, group, grouped, mem, inGroup, marker, listed, same, sameKey,
      sameEnv⟩ := pulls
  obtain rfl : pull = marker :=
    inj_on_of_nodup_map distinct (own_pending.mp own).1 listed same
  obtain ⟨declared, named⟩ := (GroupIndex.key?_eq_some keys).mp located
  obtain ⟨memberDeclared, memberGrouped⟩ := (GroupIndex.mem_members keys).mp inGroup
  exact ⟨own, sameEnv, group, key, declared, mem, memberDeclared, named, grouped, sameKey.symm,
    memberGrouped⟩

theorem closePass_coupled {acc' : Closing}
    (coupled : ∀ change ∈ acc.selected, Coupled db.keys (db.ownPending principal) ids change)
    (passed : closePass principal (db.ownPending principal) db.pending index acc = .ok acc') :
    ∀ change ∈ acc'.selected, Coupled db.keys (db.ownPending principal) ids change := by
  intro pull mem
  rcases (closePass_spec passed).1.origin pull mem with old | ⟨change, selected, pulls⟩
  · exact coupled pull old
  · obtain ⟨own, together⟩ := pullsFrom_sameGroup keys distinct pulls
    exact .pulled (coupled change selected) own together

theorem closeSelection_sound (named : ∀ change ∈ selected, change ∈ db.ownPending principal ∧
    change.id ∈ ids)
    (run : closeSelection principal (db.ownPending principal) db.pending index selected =
      .ok closing) :
    ∀ change ∈ closing.selected, Coupled db.keys (db.ownPending principal) ids change :=
  saturate_invariant
    (fun acc => ∀ change ∈ acc.selected, Coupled db.keys (db.ownPending principal) ids change)
    (fun _ _ => closePass_coupled keys distinct)
    (fun change mem => .named (named change mem).1 (named change mem).2) run

theorem closeSelection_complete (named : ∀ change ∈ selected, change ∈ db.ownPending principal)
    (all : ∀ id ∈ ids, ∃ change ∈ selected, change.id = id)
    (run : closeSelection principal (db.ownPending principal) db.pending index selected =
      .ok closing)
    (coupled : Coupled db.keys db.pending ids change) : change ∈ closing.selected := by
  have grows := closeSelection_grows run
  have live : ∀ change ∈ closing.selected, change ∈ db.pending := fun change mem =>
    (own_pending.mp ((grows.origin change mem).elim (named change) id)).1
  induction coupled with
  | named isLive chosen =>
    obtain ⟨other, mem, sameID⟩ := all _ chosen
    have inClosing := grows.kept other mem
    rwa [← inj_on_of_nodup_map distinct (live other inClosing) isLive sameID]
  | pulled _ isLive together inClosing =>
    obtain ⟨sameEnv, group, key, declared, mem, memberDeclared, isKey, grouped, isMember,
        memberGrouped⟩ :=
      together
    obtain ⟨located, found, pulled⟩ := closeSelection_closed run _ inClosing
    have same' : located = key := by
      have known := (GroupIndex.key?_eq_some keys).mpr ⟨declared, isKey⟩
      rw [found] at known
      exact Option.some.inj known
    subst same'
    obtain ⟨-, other, selected, sameID⟩ := pulled group grouped mem
      ((GroupIndex.mem_members keys).mpr ⟨memberDeclared, memberGrouped⟩) _ isLive
        isMember.symm sameEnv
    rwa [← inj_on_of_nodup_map distinct (live other selected) isLive sameID]

end

section
variable (run : selectVersions db principal index selected = .ok (selection, closed))
include run

theorem selectVersions_eq_ok :
    ∃ closing, closeSelection principal (db.ownPending principal) db.pending index selected =
      .ok closing ∧
      selection = sortedChanges closing.selected := by
  obtain ⟨closing, closes, run⟩ := bind_eq_ok.mp run
  cases run
  exact ⟨closing, closes, rfl⟩

theorem selectVersions_own (resolved : resolveVersions (db.ownPending principal) ids =
    .ok selected) :
    ∀ change ∈ selection, change ∈ db.pending ∧ change.owner = principal := by
  obtain ⟨_, closes, rfl⟩ := selectVersions_eq_ok run
  intro change mem
  rcases (closeSelection_grows closes).origin change (mem_sortedChanges.mp mem) with old | own
  · exact own_pending.mp ((resolveVersions_sound resolved).1 change old).1
  · exact own_pending.mp own

theorem selectVersions_spec (keys : index.keys = db.listKeys)
    (distinct : (db.pending.map PendingChange.id).Nodup)
    (resolved : resolveVersions (db.ownPending principal) ids = .ok selected) :
    (∀ change, change ∈ selection ↔ Coupled db.keys (db.ownPending principal) ids change) ∧
      (selection.map PendingChange.id).Nodup := by
  obtain ⟨_, closes, rfl⟩ := selectVersions_eq_ok run
  obtain ⟨named, all, single⟩ := resolveVersions_sound resolved
  refine ⟨fun change => ?_, ?_⟩
  · rw [mem_sortedChanges]
    exact ⟨closeSelection_sound keys distinct named closes change,
        fun coupled => closeSelection_complete keys distinct
        (fun change mem => (named change mem).1)
        all closes (coupled.mono fun _ own => (own_pending.mp own).1)⟩
  · exact ((perm_insertionSort _ _).map _).nodup_iff.mpr
      ((closeSelection_grows closes).distinct single)

end

/-- With a change to a grouped key come all live changes to members of the group in
the same environment. -/
def GroupClosed (db : ProjectDB) (changes : Set PendingChange) : Prop :=
  ∀ change ∈ changes, ∀ other ∈ db.pending, SameGroup db.keys change other → other ∈ changes

def closedSupersets (db : ProjectDB) (selected : List PendingChange) : Set (Set PendingChange) :=
  fun changes => (∀ change ∈ selected, change ∈ changes) ∧ GroupClosed db changes

section Least
variable (distinct : (db.pending.map PendingChange.id).Nodup)
  (own : ∀ change ∈ selected, change ∈ db.ownPending principal)
include distinct own

theorem coupled_isLeast : IsLeast (closedSupersets db selected)
      (Set.ofPred (Coupled db.keys db.pending (selected.map PendingChange.id))) := by
  have live : ∀ change ∈ selected, change ∈ db.pending := fun change mem =>
    (own_pending.mp (own change mem)).1
  refine ⟨⟨fun change mem => .named (live change mem) (mem_map_of_mem mem),
    fun change coupled other isLive together => .pulled coupled isLive together⟩, ?_⟩
  rintro changes ⟨contains, closed⟩ _ coupled
  induction coupled with
  | named isLive chosen =>
    obtain ⟨other, mem, same⟩ := mem_map.mp chosen
    rw [← inj_on_of_nodup_map distinct (live other mem) isLive same]
    exact contains other mem
  | pulled _ isLive together ih => exact closed _ ih _ isLive together

variable (loaded : loadGroupIndex db = .ok index)
  (declared : ∀ change ∈ db.pending, ∃ key ∈ db.keys, key.id = change.keyID)
include loaded declared

omit distinct own in
theorem closePass_refusal (own : ∀ change ∈ acc.selected, change ∈ db.ownPending principal)
    (run : closePass principal (db.ownPending principal) db.pending index acc = .error e) :
    (∃ detail, e = .invalid detail) ∧ ∃ change ∈ acc.selected, ∃ other ∈ db.pending,
      SameGroup db.keys change other ∧ other.owner ≠ principal := by
  have keys := loadGroupIndex_keys loaded
  let refusal (e : ServiceError) : Prop :=
    (∃ detail, e = .invalid detail) ∧ ∃ change ∈ acc.selected,
    ∃ other ∈ db.pending, SameGroup db.keys change other ∧ other.owner ≠ principal
  refine foldlM_error refusal (fun change listed s e refused => ?_) run
  have selected := mem_sortedChanges.mp listed
  obtain ⟨key, isKey, named⟩ := declared change (own_pending.mp (own change selected)).1
  have located := (GroupIndex.key?_eq_some keys).mpr ⟨isKey, named⟩
  simp only [closeChange, located] at refused
  split at refused
  · cases refused
  next group grouped =>
  refine foldlM_error refusal (fun mem inGroup s e refused => ?_) refused
  refine foldlM_error refusal (fun marker live s e refused => ?_) refused
  obtain ⟨isMember, memberGrouped⟩ := (GroupIndex.mem_members keys).mp inGroup
  unfold pullMarker at refused
  split at refused
  · cases refused
  next here =>
  simp only [not_or, ne_eq, Decidable.not_not] at here
  split at refused
  · next foreign =>
    cases refused
    exact ⟨⟨_, rfl⟩, change, selected, marker, live,
      ⟨here.2, group, key, isKey, mem, isMember, named, grouped, here.1.symm, memberGrouped⟩,
      foreign⟩
  next owned =>
  -- a live draft of the caller is in the caller's own listing
  have listed := own_pending.mpr ⟨live, Decidable.not_not.mp owned⟩
  split at refused
  · cases refused
  split at refused
  · next missing =>
    exact absurd (beq_self_eq_true marker.id) (find?_eq_none.mp missing marker listed)
  · cases refused

variable (single : (selected.map PendingChange.id).Nodup)
include single

/-- The bound on the passes is never reached, and what is refused is a coupled draft of
another principal. -/
theorem closeSelection_refusal
    (run : closeSelection principal (db.ownPending principal) db.pending index selected =
      .error e) :
    (∃ detail, e = .invalid detail) ∧ ∃ change, Coupled db.keys db.pending
        (selected.map PendingChange.id) change ∧
        change.owner ≠ principal := by
  have keys := loadGroupIndex_keys loaded
  let inv (acc : Closing) : Prop := Grows (· ∈ db.ownPending principal) ⟨selected, []⟩ acc ∧
    ∀ change ∈ acc.selected, Coupled db.keys (db.ownPending principal)
      (selected.map PendingChange.id) change
  have listed (acc : Closing) (holds : inv acc) :
      ∀ change ∈ acc.selected, change ∈ db.ownPending principal :=
    fun change mem => (holds.1.origin change mem).elim (own change) id
  obtain ⟨last, ⟨grows, coupled⟩, refused⟩ := saturate_error inv
    (fun acc acc' holds passed => ⟨holds.1.trans _ _ _ ((closePass_spec passed).1.weaken
      fun _ ⟨_, _, pulls⟩ => pulls.1), closePass_coupled keys distinct holds.2 passed⟩)
    (fun acc acc' _ passed => (closePass_spec passed).1.longer)
    (fun acc holds => (subperm_of_subset (.of_map _ (holds.1.distinct single))
      (listed acc holds)).length_le)
    ⟨.refl _, fun change mem => .named (own change mem) (mem_map_of_mem mem)⟩
    (by simp only; omega) run
  obtain ⟨invalid, change, mem, other, live, together, foreign⟩ :=
    closePass_refusal loaded declared (listed last ⟨grows, coupled⟩) refused
  exact ⟨invalid, other, .pulled ((coupled change mem).mono fun _ own => (own_pending.mp own).1)
    live together, foreign⟩

/-- Key-group closure ends with the least closed set, and is refused exactly when that has a foreign
draft. -/
theorem closure_least_or_refused :
    (∀ selection closed, selectVersions db principal index selected = .ok (selection, closed) →
        IsLeast (closedSupersets db selected) (Set.ofPred (· ∈ selection))) ∧
      ((∃ detail, selectVersions db principal index selected = .error (.invalid detail)) ↔
        ∃ changes, IsLeast (closedSupersets db selected) changes ∧
          ∃ change ∈ changes, change.owner ≠ principal) ∧
      ((∃ result, selectVersions db principal index selected = .ok result) ∨
        ∃ detail, selectVersions db principal index selected = .error (.invalid detail)) := by
  have keys := loadGroupIndex_keys loaded
  have least := coupled_isLeast distinct own
  cases closes : closeSelection principal (db.ownPending principal) db.pending index selected with
  | error =>
    obtain ⟨⟨detail, rfl⟩, change, coupled, foreign⟩ :=
      closeSelection_refusal distinct own loaded declared single closes
    have refused : selectVersions db principal index selected = .error (.invalid detail) := by
      rw [selectVersions, closes]
      rfl
    refine ⟨fun _ _ run => ?_, ⟨fun _ => ⟨_, least, change, coupled, foreign⟩,
      fun _ => ⟨detail, refused⟩⟩, .inr ⟨detail, refused⟩⟩
    rw [refused] at run
    cases run
  | ok closing =>
    have returned : selectVersions db principal index selected =
        .ok (sortedChanges closing.selected, closing.closed.insertionSort (· ≤ ·)) := by
      rw [selectVersions, closes]
      rfl
    have coupled := closeSelection_sound keys distinct
      (fun change mem => ⟨own change mem, mem_map_of_mem mem⟩) closes
    have complete {change : PendingChange} := @closeSelection_complete db principal index change
      (selected.map PendingChange.id) selected closing keys distinct own
      (fun _ chosen => mem_map.mp chosen) closes
    refine ⟨?_, ⟨?_, ?_⟩, .inl ⟨_, returned⟩⟩
    · intro _ _ run
      rw [returned] at run
      cases run
      convert least
      exact mem_sortedChanges.trans ⟨fun mem => (coupled _ mem).mono fun _ own =>
        (own_pending.mp own).1, complete⟩
    · rintro ⟨_, refused⟩
      rw [returned] at refused
      cases refused
    · rintro ⟨_, isLeast, change, mem, foreign⟩
      rw [isLeast.unique least] at mem
      have listed := (closeSelection_grows closes).origin change (complete mem)
      exact absurd (own_pending.mp (listed.elim (own change) id)).2 foreign

end Least

end Closure

def splitGroup : ProjectDB :=
  { ProjectDB.empty with
    keys := [⟨1, "USER", .config, "", ⟨.none, .none⟩, some 5⟩,
      ⟨2, "PASSWORD", .secret, "", ⟨.none, .none⟩, some 5⟩]
    pending := [⟨10, 3, 1, 7, none, 0, none, .values, false, false⟩,
      ⟨11, 3, 2, 8, none, 0, none, .values, true, true⟩] }

theorem splitGroup_refused : ∃ index, loadGroupIndex splitGroup = .ok index ∧
    ∃ changes, IsLeast (closedSupersets splitGroup (splitGroup.ownPending 7)) changes ∧
      ∃ change ∈ changes, change.owner ≠ 7 := by
  refine ⟨⟨splitGroup.listKeys, by decide +kernel⟩, by rfl, ?_⟩
  refine (closure_least_or_refused (by decide) (fun _ => id) rfl (by decide) (by decide)).2.1.mp
    ⟨_, rfl⟩

end Hikyo.Project
