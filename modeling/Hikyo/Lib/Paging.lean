import Mathlib.Data.List.Sort
import Mathlib.Data.List.Nodup
import Mathlib.Order.Lattice

/-!
# Keyset pagination

A table is read in pages of rows above a cursor, in the order of their keys.  `findPaged_none`: a
scan that ends without finding a row has seen every row above its first cursor, whatever the page
size.  `filter_past` splits the rows at the last key of a page.
-/

namespace Hikyo.Lib

open List

section Paging
variable {R K : Type} [LinearOrder K]

def above (key : R → K) (rows : List R) (cursor : K) : List R :=
  (rows.filter fun row => cursor < key row).insertionSort fun a b => key a ≤ key b

/-- `WHERE key > cursor ORDER BY key LIMIT limit`. -/
def page (key : R → K) (rows : List R) (cursor : K) (limit : Nat) : List R :=
  (above key rows cursor).take limit

def cursorAfter (key : R → K) (cursor : K) (listed : List R) : K :=
  (listed.getLast?.map key).getD cursor

/-- Pages until a row fails the test or a page is short; `none` when the fuel is spent. -/
def findPaged (key : R → K) (rows : List R) (limit : Nat) (bad : R → Bool) :
    Nat → K → Option (Option R)
  | 0, _ => none
  | fuel + 1, cursor =>
    let listed := page key rows cursor limit
    match listed.find? bad with
    | some row => some (some row)
    | none =>
      if listed.length < limit then some none
      else findPaged key rows limit bad fuel (cursorAfter key cursor listed)

variable {key : R → K} {rows : List R} {cursor : K} {limit : Nat}

theorem mem_above {row : R} : row ∈ above key rows cursor ↔ row ∈ rows ∧ cursor < key row := by
  simp [above, mem_insertionSort]

theorem mem_of_mem_page {row : R} (listed : row ∈ page key rows cursor limit) : row ∈ rows :=
  (mem_above.mp (mem_of_mem_take listed)).1

theorem page_of_short (short : (page key rows cursor limit).length < limit) :
    page key rows cursor limit = above key rows cursor := by
  refine take_of_length_le ?_
  by_contra longer
  simp only [page, length_take] at short
  omega

theorem above_strict (distinct : (rows.map key).Nodup) (cursor : K) :
    (above key rows cursor).Pairwise fun a b => key a < key b := by
  have sorted : (above key rows cursor).Pairwise fun a b => key a ≤ key b :=
    pairwise_insertionSort (fun a b => key a ≤ key b) _
  have different : (above key rows cursor).Pairwise fun a b => key a ≠ key b := by
    have perm := (perm_insertionSort (fun a b => key a ≤ key b)
      (rows.filter fun row => cursor < key row)).map key
    have kept : ((rows.filter fun row => cursor < key row).map key).Nodup :=
      distinct.sublist (filter_sublist.map key)
    exact pairwise_map.mp (perm.nodup_iff.mpr kept)
  exact (sorted.and different).imp fun both => lt_of_le_of_ne both.1 both.2

theorem cursorAfter_lt (distinct : (rows.map key).Nodup) {row : R}
    (mem : row ∈ rows) (high : cursor < key row) (missed : row ∉ page key rows cursor limit) :
    cursorAfter key cursor (page key rows cursor limit) < key row := by
  have listed : row ∈ above key rows cursor := mem_above.mpr ⟨mem, high⟩
  have split := take_append_drop limit (above key rows cursor)
  have later : row ∈ (above key rows cursor).drop limit := by
    rw [← split] at listed
    exact (mem_append.mp listed).resolve_left missed
  have ordered := above_strict distinct cursor
  rw [← split, pairwise_append] at ordered
  unfold cursorAfter
  cases lastEq : (page key rows cursor limit).getLast? with
  | none => exact high
  | some last => exact ordered.2.2 last (mem_of_getLast? lastEq) row later

theorem filter_past {front back : List R} {last : R}
    (increasing : (front ++ last :: back).Pairwise fun a b => key a < key b) :
    (front ++ last :: back).filter (fun row => key last < key row) = back := by
  obtain ⟨-, later, earlier⟩ := pairwise_append.mp increasing
  have past : front.filter (fun row => key last < key row) = [] := by
    refine filter_eq_nil_iff.mpr fun row mem => ?_
    simpa using (earlier row mem last (.head _)).le
  have rest : back.filter (fun row => key last < key row) = back := by
    refine filter_eq_self.mpr fun row mem => ?_
    simpa using rel_of_pairwise_cons later mem
  rw [filter_append, past, filter_cons, rest]
  simp

theorem findPaged_none (distinct : (rows.map key).Nodup) {bad : R → Bool}
    {fuel : Nat} (scan : findPaged key rows limit bad fuel cursor = some none) :
    ∀ row ∈ rows, cursor < key row → bad row = false := by
  induction fuel generalizing cursor with
  | zero => cases scan
  | succ _ ih =>
    intro row mem high
    simp only [findPaged] at scan
    split at scan
    · cases scan
    rename_i clean
    by_cases listed : row ∈ page key rows cursor limit
    · simpa using find?_eq_none.mp clean row listed
    split at scan
    · rename_i short
      rw [page_of_short short] at listed
      exact absurd (mem_above.mpr ⟨mem, high⟩) listed
    · exact ih scan row mem (cursorAfter_lt distinct mem high listed)

end Paging

end Hikyo.Lib
