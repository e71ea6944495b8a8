import Mathlib.Data.List.Nodup
import Mathlib.Data.List.Sort

/-!
# Transactions over tables

Transactions as functions into `Except` over tables that are lists of rows or partial functions: an
aborted one has no state to commit.  Inversion of binds, checks and loops (`bind_eq_ok`,
`require_bind_eq_ok`, `foldlM_invariant`), and lemmas on updating the rows that a condition selects.
-/

namespace Hikyo.Lib

open List Function

variable {condition : Prop} {K R γ : Type}

section Checks
variable {ε α β : Type}

def require (condition : Prop) [Decidable condition] (error : ε) : Except ε Unit :=
  if condition then .ok () else .error error

@[simp] theorem require_eq_ok (condition : Prop) [Decidable condition] (error : ε) (u : Unit) :
    require condition error = .ok u ↔ condition := by
  unfold require
  split <;> simp [*]

@[simp] theorem ok_bind (a : α) (f : α → Except ε β) : (Except.ok a >>= f) = f a := rfl

variable {x : Except ε α} {r : β}

theorem bind_eq_ok {f : α → Except ε β} : (x >>= f) = .ok r ↔ ∃ a, x = .ok a ∧ f a = .ok r := by
  cases x <;> simp [bind, Except.bind]

theorem require_bind_eq_ok [Decidable condition] {error : ε} {f : Unit → Except ε β} :
    (require condition error >>= f) = .ok r ↔ condition ∧ f () = .ok r := by
  rw [bind_eq_ok]
  constructor
  · rintro ⟨u, met, rest⟩
    exact ⟨(require_eq_ok condition error u).mp met, rest⟩
  · rintro ⟨met, rest⟩
    exact ⟨(), (require_eq_ok condition error ()).mpr met, rest⟩

theorem unless_eq_ok [Decidable condition] {error : ε} {y : Except ε β} :
    (if condition then .error error else y) = .ok r ↔ ¬ condition ∧ y = .ok r := by
  split <;> simp [*]

theorem map_eq_ok {f : α → β} : (f <$> x) = .ok r ↔ ∃ a, x = .ok a ∧ f a = r := by
  cases x <;> simp [Functor.map, Except.map]

theorem bind_eq_bind_of_map_eq {part : α → γ} {y : Except ε α} {f : α → Except ε β}
    (same : part <$> x = part <$> y) (reads : ∀ a b, x = .ok a → y = .ok b → part a = part b →
      f a = f b) : x >>= f = y >>= f := by
  cases hx : x <;> cases hy : y <;> rw [hx, hy] at same
  · cases same
    rfl
  · cases same
  · cases same
  · exact reads _ _ hx hy (Except.ok.inj same)

theorem isOk_eq_of_map_eq {part : α → γ} {y : Except ε α} (same : part <$> x = part <$> y) :
    x.isOk = y.isOk := by
  cases x <;> cases y <;> first | rfl | cases same

theorem exists_ok_of_any {test : α → Bool} (passes : x.toOption.any test = true) :
    ∃ a, x = .ok a ∧ test a = true := by
  cases x with
  | error => cases passes
  | ok a => exact ⟨a, rfl, passes⟩

theorem forM_eq_ok {check : α → Except ε Unit} {list : List α} {u : Unit} :
    list.forM check = .ok u ↔ ∀ a ∈ list, check a = .ok () := by
  induction list with
  | nil => simp [List.forM, pure, Except.pure]
  | cons a rest ih =>
    rw [show (a :: rest).forM check = (check a >>= fun _ => rest.forM check) from rfl, bind_eq_ok,
      forall_mem_cons]
    constructor
    · rintro ⟨_, first, later⟩
      exact ⟨first, ih.mp later⟩
    · rintro ⟨first, later⟩
      exact ⟨(), first, ih.mpr later⟩

end Checks

section Loops
variable {ε σ α : Type} {f : σ → α → Except ε σ}

variable {list : List α} {s : σ}

/-- What the body of a loop preserves holds after the loop. -/
theorem foldlM_invariant (inv : σ → Prop)
    (preserved : ∀ a ∈ list, ∀ s s', inv s → f s a = .ok s' → inv s') {r : σ} (holds : inv s)
    (run : list.foldlM f s = .ok r) : inv r := by
  induction list generalizing s with
  | nil =>
    cases run
    exact holds
  | cons a _ ih =>
    obtain ⟨s', first, later⟩ := bind_eq_ok.mp run
    exact ih (fun b mem => preserved b (.tail _ mem))
      (preserved a (.head _) s s' holds first) later

theorem foldlM_grows {r : σ} (run : list.foldlM f s = .ok r) {grows : σ → σ → Prop}
    {done : α → σ → Prop} (refl : ∀ s, grows s s)
    (trans : ∀ s s' s'', grows s s' → grows s' s'' → grows s s'')
    (keeps : ∀ a s s', grows s s' → done a s → done a s')
    (body : ∀ a ∈ list, ∀ s s', f s a = .ok s' → grows s s' ∧ done a s') :
    grows s r ∧ ∀ a ∈ list, done a r := by
  induction list generalizing s with
  | nil =>
    cases run
    exact ⟨refl _, nofun⟩
  | cons a _ ih =>
    obtain ⟨s', first, later⟩ := bind_eq_ok.mp run
    obtain ⟨grown, established⟩ := body a (.head _) s s' first
    obtain ⟨further, others⟩ := ih later fun b mem => body b (.tail _ mem)
    exact ⟨trans s s' r grown further,
      forall_mem_cons.mpr ⟨keeps a s' r further established, others⟩⟩

theorem foldlM_error (refusal : ε → Prop)
    (refused : ∀ a ∈ list, ∀ s e, f s a = .error e → refusal e) {e : ε}
    (run : list.foldlM f s = .error e) : refusal e := by
  induction list generalizing s with
  | nil => cases run
  | cons a _ ih =>
    rw [foldlM_cons] at run
    cases first : f s a with
    | error =>
      rw [first] at run
      cases run
      exact refused a (.head _) s e first
    | ok =>
      rw [first] at run
      exact ih (fun b mem => refused b (.tail _ mem)) run

end Loops

section Tables
variable {C : Type}

/-- `UPDATE … SET change WHERE selected`. -/
def updateWhere (selected : R → Bool) (change : R → R) (rows : List R) : List R :=
  rows.map fun row => if selected row then change row else row

variable {selected : R → Bool} {change : R → R} {rows : List R} {column : R → C}

theorem mem_updateWhere {row : R} : row ∈ updateWhere selected change rows ↔
      (∃ old ∈ rows, selected old = true ∧ change old = row) ∨
      (row ∈ rows ∧ selected row = false) := by
  simp only [updateWhere, mem_map]
  constructor
  · rintro ⟨old, mem, rfl⟩
    by_cases hit : selected old = true
    · exact .inl ⟨old, mem, hit, by simp [hit]⟩
    · exact .inr (by simpa [hit] using mem)
  rintro (⟨old, mem, hit, rfl⟩ | ⟨mem, miss⟩)
  · exact ⟨old, mem, by simp [hit]⟩
  · exact ⟨row, mem, by simp [miss]⟩

theorem map_updateWhere (kept : ∀ row, column (change row) = column row) :
    (updateWhere selected change rows).map column = rows.map column := by
  simp only [updateWhere, map_map]
  refine map_congr_left fun row _ => ?_
  by_cases hit : selected row = true
  · simp [hit, kept]
  · simp [hit]

theorem find?_updateWhere {test : R → Bool} (kept : ∀ row, test (change row) = test row) :
    (updateWhere selected change rows).find? test =
      (rows.find? test).map fun row => if selected row then change row else row := by
  rw [updateWhere, find?_map]
  congr 2
  funext row
  rw [comp_apply]
  split
  · exact kept row
  · rfl

theorem map_filter_updateWhere {keep : R → Bool}
    (stays : ∀ row, keep (change row) = keep row) (kept : ∀ row, column (change row) = column row) :
    ((updateWhere selected change rows).filter keep).map column =
    (rows.filter keep).map column := by
  induction rows with
  | nil => rfl
  | cons row _ ih =>
    simp only [updateWhere, map_cons] at ih ⊢
    by_cases hit : selected row = true
    · by_cases inView : keep row = true
      · simp [hit, inView, stays, kept, ih]
      · simp [hit, inView, stays, ih]
    by_cases inView : keep row = true
    · simp [hit, inView, ih]
    · simp [hit, inView, ih]

theorem filter_updateWhere {keep : R → Bool} (leaves : ∀ row, keep (change row) = false) :
    (updateWhere selected change rows).filter keep = (rows.filter keep).filter fun row =>
    !selected row := by
  induction rows with
  | nil => rfl
  | cons row _ ih =>
    simp only [updateWhere, map_cons] at ih ⊢
    by_cases hit : selected row = true
    · by_cases kept : keep row = true
      all_goals simp [hit, kept, leaves, ih]
    by_cases kept : keep row = true
    · simp [hit, kept, ih]
    · simp [hit, kept, ih]

theorem find?_eq_some_iff_of_nodup [DecidableEq C] {key : C} {row : R}
    (distinct : (rows.map column).Nodup) :
    rows.find? (fun r => column r == key) = some row ↔ row ∈ rows ∧ column row = key := by
  constructor
  · intro located
    exact ⟨mem_of_find?_eq_some located, by simpa using find?_some located⟩
  rintro ⟨mem, rfl⟩
  obtain ⟨other, located⟩ : ∃ other, rows.find? (fun r => column r == column row) = some other :=
    Option.isSome_iff_exists.mp (find?_isSome.mpr ⟨row, mem, by simp⟩)
  have same : column other = column row := by simpa using find?_some located
  rw [located, inj_on_of_nodup_map distinct (mem_of_find?_eq_some located) mem same]

theorem map_eq_map_iff_of_keys {key : R → K} {rows' : List R}
    (distinct : (rows.map key).Nodup) (same : rows.map key = rows'.map key) :
      rows.map column = rows'.map column ↔
      ∀ row ∈ rows, ∀ row' ∈ rows', key row = key row' → column row = column row' := by
  induction rows generalizing rows' with
  | nil =>
    obtain rfl : rows' = [] := map_eq_nil_iff.mp same.symm
    exact ⟨fun _ row mem => (nomatch mem), fun _ => rfl⟩
  | cons first _ ih =>
    cases rows' with
    | nil => cases same
    | cons first' rest' =>
      obtain ⟨sameFirst, sameRest⟩ := cons.inj same
      obtain ⟨fresh, distinctRest⟩ := nodup_cons.mp distinct
      have fresh' : key first ∉ rest'.map key := sameRest ▸ fresh
      rw [map_cons, map_cons, cons.injEq, ih distinctRest sameRest]
      constructor
      · rintro ⟨head, tail⟩ row mem row' mem' sameKey
        rcases mem_cons.mp mem with rfl | later
        · rcases mem_cons.mp mem' with rfl | later'
          · exact head
          · exact absurd (mem_map.mpr ⟨row', later', sameKey.symm⟩) fresh'
        rcases mem_cons.mp mem' with rfl | later'
        · exact absurd (mem_map.mpr ⟨row, later, sameKey.trans sameFirst.symm⟩) fresh
        · exact tail row later row' later' sameKey
      intro agree
      exact ⟨agree first (.head _) first' (.head _) sameFirst,
        fun row later row' later' => agree row (.tail _ later) row' (.tail _ later')⟩

end Tables

section Sorting
variable {before : R → R → Prop} [DecidableRel before] [IsTrans R before]

theorem filter_orderedInsert {keep : R → Bool} {a : R} {rows : List R}
    (sorted : rows.Pairwise before) :
    (rows.orderedInsert before a).filter keep =
      if keep a then (rows.filter keep).orderedInsert before a else rows.filter keep := by
  induction rows with
  | nil => cases kept : keep a <;> simp [kept]
  | cons b rest ih =>
    obtain ⟨first, later⟩ := pairwise_cons.mp sorted
    by_cases le : before a b
    · rw [orderedInsert_cons_of_le _ _ le]
      cases kept : keep a with
      | false => simp [kept]
      | true =>
        -- the inserted row comes before whatever the filter leaves
        have least : ∀ c ∈ (b :: rest).filter keep, before a c := by
          intro c mem
          rcases mem_cons.mp (mem_filter.mp mem).1 with rfl | inRest
          · exact le
          · exact IsTrans.trans _ _ _ le (first c inRest)
        rw [filter_cons_of_pos kept, if_pos rfl]
        cases left : (b :: rest).filter keep with
        | nil => rfl
        | cons c => rw [orderedInsert_cons_of_le _ _ (least c (left ▸ .head _))]
    rw [orderedInsert_of_not_le _ _ le]
    cases keptFirst : keep b with
    | false =>
        rw [filter_cons_of_neg (by simp [keptFirst]), filter_cons_of_neg (by simp [keptFirst]),
          ih later]
    | true =>
      rw [filter_cons_of_pos keptFirst, filter_cons_of_pos keptFirst, ih later]
      cases keep a with
      | false => rfl
      | true => rw [if_pos rfl, if_pos rfl, orderedInsert_of_not_le _ _ le]

theorem filter_insertionSort [Std.Total before] {keep : R → Bool} {rows : List R} :
    (rows.insertionSort before).filter keep = (rows.filter keep).insertionSort before := by
  induction rows with
  | nil => rfl
  | cons a rest ih =>
    rw [insertionSort_cons, filter_orderedInsert (pairwise_insertionSort before rest), ih]
    cases kept : keep a with
    | false => rw [filter_cons_of_neg (by simp [kept]), if_neg (by simp)]
    | true => rw [filter_cons_of_pos kept, insertionSort_cons, if_pos rfl]

end Sorting

section Table
variable [DecidableEq K] {table : K → Option R} {key i : K} {row written : R}

theorem update_cases {next : Option R} (found : update table key next i = some row) :
    i = key ∧ next = some row ∨ i ≠ key ∧ table i = some row := by
  rw [update_apply] at found
  split at found
  · rename_i same
    exact .inl ⟨same, found⟩
  · rename_i different
    exact .inr ⟨different, found⟩

theorem update_eq_some (found : update table key (some written) i = some row) :
    i = key ∧ row = written ∨ i ≠ key ∧ table i = some row :=
  (update_cases found).imp_left fun ⟨same, new⟩ => ⟨same, (Option.some.inj new).symm⟩

theorem update_none_eq_some (found : update table key none i = some row) : table i = some row := by
  rcases update_cases found with ⟨-, new⟩ | ⟨-, old⟩
  · cases new
  · exact old

end Table

end Hikyo.Lib
