import Mathlib.Data.List.Forall2
import Hikyo.Lib.Paging
import Hikyo.Lib.Transaction

/-!
# Sweeps

A sweep renews the rows of a table page by page: it reads a page, computes the new rows and swaps
each if it is still as read, while others may change the table in between.  `Sweep.rows_alike` is
the rule for what the swaps preserve row by row, and `Sweep.Progress.chunk` the one for an
undisturbed sweep: the rows up to the cursor are done.
-/

namespace Hikyo.Lib

open List

structure Sweep (R K E : Type) where
  key : R → K
  /-- the rows that the pages list -/
  listed : R → Bool
  done : R → Bool
  /-- whether the swap for the row that was read hits the row that is stored -/
  hits : R → R → Bool
  /-- what the swap for the row that was read makes of the row it hits -/
  renew : Nat → R → Except E (R → R)

section Sweep
variable {R K E P : Type} {sweep : Sweep R K E} {page table table' : List R}
  {nonce moved moved' : Nat}

/-- The swaps of a page, in order.  A swap counts if it hits one row. -/
def Sweep.rows (sweep : Sweep R K E) : List R → List R → Nat → Nat → Except E (List R × Nat)
  | [], table, _, moved => .ok (table, moved)
  | row :: rest, table, nonce, moved =>
    if sweep.done row then sweep.rows rest table nonce moved
    else
      match sweep.renew nonce row with
      | .error e => .error e
      | .ok change =>
        sweep.rows rest (updateWhere (sweep.hits row) change table) (nonce + 1)
          (if table.countP (sweep.hits row) = 1 then moved + 1 else moved)

theorem forall₂_updateWhere {Alike : R → P → Prop} {selected : R → Bool} {change : R → R}
    {others : List P} (alike : List.Forall₂ Alike table others)
    (kept : ∀ row ∈ table, ∀ other, selected row = true → Alike row other →
      Alike (change row) other) :
    List.Forall₂ Alike (updateWhere selected change table) others := by
  induction alike with
  | nil => exact .nil
  | @cons row other _ _ head _ ih =>
    refine .cons ?_ (ih fun row' mem => kept row' (mem_cons_of_mem row mem))
    dsimp only
    split
    · rename_i hit
      exact kept row (.head _) other hit head
    · exact head

/-- `Since` is what is known of a stored row and a row that was read before. -/
theorem Sweep.rows_alike (Alike : R → P → Prop) (Since : R → R → Prop) {others : List P}
    (safe : ∀ {nonce row change}, sweep.renew nonce row = .ok change →
      ∀ {stored other}, Since row stored →
      sweep.hits row stored = true → Alike stored other → Alike (change stored) other)
    (onward : ∀ {nonce row change}, sweep.renew nonce row = .ok change →
      ∀ {stored read}, Since read stored → Since read (change stored))
    (run : sweep.rows page table nonce moved = .ok (table', moved'))
    (since : ∀ row ∈ page, ∀ stored ∈ table, Since row stored)
    (alike : List.Forall₂ Alike table others) : List.Forall₂ Alike table' others := by
  induction page generalizing table nonce moved with
  | nil =>
    cases run
    exact alike
  | cons row rest ih =>
    have sinceRest : ∀ row' ∈ rest, ∀ stored ∈ table, Since row' stored :=
      fun row' mem => since row' (mem_cons_of_mem row mem)
    unfold Sweep.rows at run
    split at run
    · exact ih run sinceRest alike
    split at run
    · cases run
    rename_i change renewed
    refine ih run (fun row' mem stored inTable => ?_)
      (forall₂_updateWhere alike fun stored inTable other hit => ?_)
    · rcases mem_updateWhere.mp inTable with ⟨old, inOld, -, rfl⟩ | ⟨inOld, -⟩
      · exact onward renewed (sinceRest row' mem old inOld)
      · exact sinceRest row' mem stored inOld
    · exact safe renewed (since row (.head _) stored inTable) hit

/-- A swap hits the row that was read and no other one, and makes it done. -/
structure Sweep.Exact (sweep : Sweep R K E) : Prop where
  hits_self : ∀ row, sweep.hits row row = true
  hits_key : ∀ {row stored}, sweep.hits row stored = true → sweep.key stored = sweep.key row
  renew_key : ∀ {nonce row change}, sweep.renew nonce row = .ok change →
    sweep.key (change row) = sweep.key row
  renew_done : ∀ {nonce row change}, sweep.renew nonce row = .ok change →
    sweep.done (change row) = true
  renew_listed : ∀ {nonce row change}, sweep.renew nonce row = .ok change →
    sweep.listed (change row) = sweep.listed row

def Sweep.Moved (sweep : Sweep R K E) (old new : R) : Prop :=
  new = old ∨ sweep.done old = false ∧ sweep.done new = true ∧ sweep.key new = sweep.key old ∧
    sweep.listed new = sweep.listed old

def changed [DecidableEq R] (start table : List R) : Nat :=
  (start.zip table).countP fun pair => pair.1 ≠ pair.2

variable {start : List R} {row old : R}

theorem Sweep.Moved.same_key (moved : sweep.Moved old row) : sweep.key row = sweep.key old := by
  rcases moved with rfl | ⟨-, -, same, -⟩
  · rfl
  · exact same

theorem Sweep.Moved.same_listed (moved : sweep.Moved old row) :
    sweep.listed row = sweep.listed old := by
  rcases moved with rfl | ⟨-, -, -, same⟩
  · rfl
  · exact same

theorem Sweep.Moved.stays_done (moved : sweep.Moved old row) (isDone : sweep.done old = true) :
    sweep.done row = true := by
  rcases moved with rfl | ⟨-, now, -⟩
  · exact isDone
  · exact now

section
variable (rows : List.Forall₂ sweep.Moved start table)
include rows

theorem moved_keys : table.map sweep.key = start.map sweep.key := by
  induction rows with
  | nil => rfl
  | cons head _ ih => rw [map_cons, map_cons, head.same_key, ih]

theorem moved_mem (mem : row ∈ table) : ∃ old ∈ start, sweep.Moved old row := by
  induction rows with
  | nil => cases mem
  | @cons first _ _ _ head _ ih =>
    rcases mem_cons.mp mem with rfl | later
    · exact ⟨first, .head _, head⟩
    · obtain ⟨old, inRest, moved⟩ := ih later
      exact ⟨old, mem_cons_of_mem first inRest, moved⟩

theorem moved_at (distinct : (start.map sweep.key).Nodup) (inStart : old ∈ start)
    (mem : row ∈ table) (same : sweep.key row = sweep.key old) : sweep.Moved old row := by
  obtain ⟨other, inStart', moved⟩ := moved_mem rows mem
  have sameKey : sweep.key other = sweep.key old := moved.same_key.symm.trans same
  rw [← inj_on_of_nodup_map distinct inStart' inStart sameKey]
  exact moved

end

theorem Sweep.Exact.still_mem (exact_ : sweep.Exact) (change : R → R) (row : R) {other : R}
    (mem : other ∈ table) (apart : sweep.key other ≠ sweep.key row) :
    other ∈ updateWhere (sweep.hits row) change table :=
  mem_updateWhere.mpr (.inr ⟨mem, Bool.eq_false_iff.mpr fun hit => apart (exact_.hits_key hit)⟩)

variable [DecidableEq R]

theorem Sweep.Exact.swap {change : R → R} (exact_ : sweep.Exact)
    (rows : List.Forall₂ sweep.Moved start table) (distinct : (table.map sweep.key).Nodup)
    (mem : row ∈ table) (undone : sweep.done row = false)
    (renewed : sweep.renew nonce row = .ok change) :
    List.Forall₂ sweep.Moved start (updateWhere (sweep.hits row) change table) ∧
      changed start (updateWhere (sweep.hits row) change table) = changed start table + 1 ∧
        table.countP (sweep.hits row) = 1 := by
  induction rows with
  | nil => cases mem
  | @cons first now _ rest head tail ih =>
    obtain ⟨apart, restDistinct⟩ := nodup_cons.mp distinct
    rcases mem_cons.mp mem with rfl | later
    · -- no row behind this one has its key
      have misses : ∀ other ∈ rest, sweep.hits row other = false := fun other inRest =>
        Bool.eq_false_iff.mpr fun hit => apart (mem_map.mpr ⟨other, inRest, exact_.hits_key hit⟩)
      have kept : updateWhere (sweep.hits row) change rest = rest := by
        refine (map_congr_left fun other inRest => ?_).trans (map_id rest)
        simp [misses other inRest]
      have none : rest.countP (sweep.hits row) = 0 :=
        countP_eq_zero.mpr fun other inRest => by simp [misses other inRest]
      have isFirst : row = first := by
        rcases head with same | ⟨-, isDone, -⟩
        · exact same
        · rw [isDone] at undone
          cases undone
      subst isFirst
      have differs : row ≠ change row := fun same => by
        have isDone := exact_.renew_done renewed
        rw [← same, undone] at isDone
        cases isDone
      have moved : sweep.Moved row (change row) :=
        .inr ⟨undone, exact_.renew_done renewed, exact_.renew_key renewed,
          exact_.renew_listed renewed⟩
      have updated : updateWhere (sweep.hits row) change (row :: rest) = change row :: rest := by
        unfold updateWhere at kept ⊢
        rw [map_cons, kept, if_pos (exact_.hits_self row)]
      rw [updated]
      refine ⟨.cons moved tail, ?_, ?_⟩
      · simp [changed, differs]
      · simp [exact_.hits_self row, none]
    have miss : sweep.hits row now = false :=
      Bool.eq_false_iff.mpr fun hit => apart (mem_map.mpr ⟨row, later, (exact_.hits_key hit).symm⟩)
    obtain ⟨rows, more, once⟩ := ih restDistinct later
    have updated : updateWhere (sweep.hits row) change (now :: rest) = now ::
        updateWhere (sweep.hits row) change rest := by
      simp [updateWhere, miss]
    rw [updated]
    refine ⟨.cons head rows, ?_, ?_⟩
    · simp only [changed, zip_cons_cons, countP_cons] at more ⊢
      omega
    · simpa [miss] using once

theorem Sweep.Exact.rows (exact_ : sweep.Exact)
    (run : sweep.rows page table nonce moved = .ok (table', moved'))
    (stored : ∀ row ∈ page, row ∈ table) (pageDistinct : (page.map sweep.key).Nodup)
    (distinct : (table.map sweep.key).Nodup) :
    (∀ {start}, List.Forall₂ sweep.Moved start table →
      List.Forall₂ sweep.Moved start table' ∧ moved' + changed start table = moved +
        changed start table') ∧
      ∀ row ∈ table', sweep.key row ∈ page.map sweep.key → sweep.done row = true := by
  have refl : ∀ table : List R, List.Forall₂ sweep.Moved table table :=
    fun table => forall₂_same.mpr fun _ _ => .inl rfl
  induction page generalizing table nonce moved with
  | nil =>
    cases run
    exact ⟨fun rows => ⟨rows, rfl⟩, fun _ _ inPage => (nomatch inPage)⟩
  | cons first rest ih =>
    obtain ⟨apart, restDistinct⟩ := nodup_cons.mp pageDistinct
    have firstStored := stored first (.head _)
    have restStored : ∀ row ∈ rest, row ∈ table :=
      fun row' mem => stored row' (mem_cons_of_mem first mem)
    unfold Sweep.rows at run
    split at run
    · rename_i isDone
      obtain ⟨moves, allDone⟩ := ih run restStored restDistinct distinct
      refine ⟨moves, fun row mem inPage => ?_⟩
      rcases mem_cons.mp inPage with same | later
      · exact (moved_at (moves (refl table)).1 distinct firstStored mem same).stays_done isDone
      · exact allDone row mem later
    rename_i undone
    split at run
    · cases run
    rename_i change renewed
    have swap {start : List R} (rows : List.Forall₂ sweep.Moved start table) :=
      exact_.swap rows distinct firstStored (Bool.eq_false_iff.mpr undone) renewed
    have keys := moved_keys (swap (refl table)).1
    rw [if_pos (swap (refl table)).2.2] at run
    obtain ⟨moves, allDone⟩ :=
      ih run (fun row' mem => exact_.still_mem change first (restStored row' mem)
      fun same => apart (mem_map.mpr ⟨row', mem, same⟩)) restDistinct (keys ▸ distinct)
    refine ⟨fun rows => ?_, fun row mem inPage => ?_⟩
    · obtain ⟨swapped, _, -⟩ := swap rows
      obtain ⟨ends, _⟩ := moves swapped
      exact ⟨ends, by omega⟩
    rcases mem_cons.mp inPage with same | later
    · have now : change first ∈ updateWhere (sweep.hits first) change table :=
        mem_updateWhere.mpr (.inl ⟨first, firstStored, exact_.hits_self first, rfl⟩)
      exact (moved_at (moves (refl _)).1 (keys ▸ distinct) now mem
        (same.trans (exact_.renew_key renewed).symm)).stays_done (exact_.renew_done renewed)
    · exact allDone row mem later

variable [LinearOrder K] {cursor : K} {limit delta : Nat}

/-- Where a sweep stands: the rows up to the cursor are done, and the count is right. -/
structure Sweep.Progress (sweep : Sweep R K E) (start table : List R) (cursor : K) (moved : Nat) :
    Prop where
  rows : List.Forall₂ sweep.Moved start table
  count : moved = changed start table
  below : ∀ row ∈ table, sweep.listed row = true → sweep.key row ≤ cursor → sweep.done row = true

theorem Sweep.Progress.chunk (exact_ : sweep.Exact) (distinct : (start.map sweep.key).Nodup)
    (progress : sweep.Progress start table cursor moved)
    (run : sweep.rows (Lib.page sweep.key (table.filter sweep.listed) cursor limit) table nonce 0 =
      .ok (table', delta)) :
    sweep.Progress start table'
      (cursorAfter sweep.key cursor (Lib.page sweep.key (table.filter sweep.listed) cursor limit))
      (moved + delta) ∧
      ((Lib.page sweep.key (table.filter sweep.listed) cursor limit).length < limit →
        ∀ row ∈ table', sweep.listed row = true → sweep.done row = true) := by
  have tableDistinct : (table.map sweep.key).Nodup := moved_keys progress.rows ▸ distinct
  have listedDistinct : ((table.filter sweep.listed).map sweep.key).Nodup :=
    tableDistinct.sublist (filter_sublist.map sweep.key)
  have stored : ∀ row ∈ Lib.page sweep.key (table.filter sweep.listed) cursor limit, row ∈ table :=
    fun row inPage => (mem_filter.mp (mem_of_mem_page inPage)).1
  have pageDistinct :
      ((Lib.page sweep.key (table.filter sweep.listed) cursor limit).map sweep.key).Nodup :=
    (pairwise_map.mpr ((above_strict listedDistinct cursor).imp ne_of_lt)).sublist
    ((take_sublist ..).map sweep.key)
  obtain ⟨moves, allDone⟩ := exact_.rows run stored pageDistinct tableDistinct
  obtain ⟨rows, count⟩ := moves progress.rows
  -- a row that was not done before is on the page
  have reached : ∀ row ∈ table', sweep.listed row =
      true → (∀ old ∈ table.filter sweep.listed, cursor < sweep.key old →
      sweep.key old = sweep.key row →
        old ∈ Lib.page sweep.key (table.filter sweep.listed) cursor limit) →
          sweep.done row = true := by
    intro row mem isListed covers
    obtain ⟨old, inTable, moved⟩ := moved_mem (moves (forall₂_same.mpr fun _ _ => .inl rfl)).1 mem
    have oldListed : sweep.listed old = true := moved.same_listed ▸ isListed
    rcases le_or_gt (sweep.key old) cursor with low | high
    · exact moved.stays_done (progress.below old inTable oldListed low)
    · have inPage := covers old (mem_filter.mpr ⟨inTable, oldListed⟩) high moved.same_key.symm
      exact allDone row mem (mem_map.mpr ⟨old, inPage, moved.same_key.symm⟩)
  refine ⟨⟨rows, by rw [progress.count]; omega, fun row mem isListed low => ?_⟩,
    fun short row mem isListed => ?_⟩
  · refine reached row mem isListed fun old inListed high same => ?_
    by_contra missed
    exact absurd (same ▸ low) (not_le.mpr (cursorAfter_lt listedDistinct inListed high missed))
  refine reached row mem isListed fun old inListed high _ => ?_
  rw [page_of_short short]
  exact mem_above.mpr ⟨inListed, high⟩

end Sweep

end Hikyo.Lib
