import Mathlib.Algebra.GroupWithZero.Nat
import Mathlib.Data.String.Basic
import Hikyo.Lib.Paging
import Hikyo.Lib.Transaction

/-!
# Paginated traversal of the MCP tools

`paginate` answers one call: it opens the cursor, fetches one row more than a page and looks for the
longest page that fits.  `traversal_complete_and_maximal` is about every chain of calls that follows
the returned cursors over rows that do not change: what has been returned is the first rows in their
order, each once, the cursor counts their encoded bytes, and `Judged` says what the next call may
answer.  The loop compares a candidate page with the bounds of the chain before it knows that the
page fits, so the theorem is about calls in which no candidate that is too large reaches a bound
(`RoomyCall`); `large_rows_refused` is a call in which one does.
-/

namespace Hikyo.Mcp

open Hikyo.Lib List

def pageSizeMin : Nat := 1

def pageSizeMax : Nat := 100

def cursorMaxBytes : Nat := 2 * 2 ^ 10

def cursorTTL : Int := 15 * 60 * 1000

def maxChainPages : Nat := 10

def maxChainItems : Nat := 1000

def maxChainBytes : Nat := 2 ^ 20

def maxStructuredContentBytes : Nat := 256 * 2 ^ 10

def cursorVersion : Nat := 1

/-- `failed` is every error without a public message. -/
inductive PageError
  | invalidCursor
  | traversalLimitReached
  | resultItemTooLarge
  | invalidArgument
  | failed
deriving DecidableEq

structure CursorScope where
  tool : String
  org : String
  project : String
  env : String
  pageSize : Nat
deriving DecidableEq

structure CursorState extends CursorScope where
  version : Nat := cursorVersion
  pos : String := ""
  pages : Nat := 0
  items : Nat := 0
  bytes : Nat := 0
  expiry : Int
deriving DecidableEq

/-- Sealing is randomized.  What was sealed opens, and no cursor is empty. -/
structure CursorSealer where
  encode : Nat → CursorState → Option String
  decode : String → Option CursorState
  opens : ∀ nonce state cursor, encode nonce state = some cursor → decode cursor = some state
  nonempty : ∀ nonce state, encode nonce state ≠ some ""

structure PageSpec (Row Elem : Type) where
  scope : CursorScope
  pageSize : Nat
  fetch : String → Nat → Option (List Row)
  map : Row → Option Elem
  key : Row → String
  structuredSize : List Elem → String → Option Nat

def orFail {α : Type} (result : Option α) : Except PageError α := result.elim (.error .failed) .ok

def decodeCursor (sealer : CursorSealer) (scope : CursorScope) (raw : String) (now : Int) :
    Except PageError CursorState :=
  if cursorMaxBytes < raw.utf8ByteSize then .error .invalidCursor
  else
    match sealer.decode raw with
    | none => .error .invalidCursor
    | some state =>
      if state.version = cursorVersion ∧ state.toCursorScope = scope ∧ now < state.expiry then
        .ok state
      else .error .invalidCursor

/-- `for range 8`: the count is part of the cursor, whose length is part of the count. -/
def cursorWithExactSize (sealer : CursorSealer) (nonce : Nat) (sizeOf : String → Option Nat)
    (previousBytes : Nat) :
    Nat → CursorState → Option (String × Nat)
  | 0, _ => none
  | attempts + 1, state => do
    let cursor ← sealer.encode nonce state
    let size ← sizeOf cursor
    if previousBytes + size = state.bytes then some (cursor, size)
    else
      cursorWithExactSize sealer nonce sizeOf previousBytes attempts
        { state with bytes := previousBytes + size }

abbrev CursorState.withinBounds (state : CursorState) : Prop :=
  state.pages < maxChainPages ∧ state.items < maxChainItems ∧ state.bytes < maxChainBytes

/-- A page of so many items and bytes would leave a cursor that cannot be used. -/
abbrev CursorState.reachesBound (state : CursorState) (count size : Nat) : Prop :=
  maxChainPages ≤ state.pages + 1 ∨ maxChainItems ≤ state.items + count ∨
    maxChainBytes ≤ state.bytes + size

section Paginate
variable {Row Elem : Type} (sealer : CursorSealer) (nonce : Nat) (spec : PageSpec Row Elem)

def PageSpec.chainScope : CursorScope := { spec.scope with pageSize := spec.pageSize }

def PageSpec.elements (rows : List Row) : List Elem := rows.filterMap spec.map

/-- The rows of one call: no more than a page, nor than what the chain may still return. -/
def PageSpec.pageLimit (state : CursorState) : Nat :=
  min spec.pageSize (maxChainItems - state.items)

def resume (cursor : String) (now : Int) : Except PageError CursorState :=
  if cursor = "" then .ok { spec.chainScope with expiry := now + cursorTTL }
  else decodeCursor sealer spec.chainScope cursor now

section Fit
variable (state : CursorState) (rows : List Row) (morePeeked : Bool)

def hasMore (count : Nat) : Bool := morePeeked || decide (count < rows.length)

def PageSpec.nextState (count : Nat) : CursorState :=
  { spec.chainScope with
    pos := ((rows.take count).getLast?.map spec.key).getD ""
    pages := state.pages + 1
    items := state.items + count
    bytes := state.bytes
    expiry := state.expiry }

def offer (count : Nat) : Option (String × Nat) :=
  if hasMore rows morePeeked count then
    cursorWithExactSize sealer nonce (spec.structuredSize (spec.elements (rows.take count)))
      state.bytes 8
      (spec.nextState state rows count)
  else ("", ·) <$> spec.structuredSize (spec.elements (rows.take count)) ""

/-- The loop over the page's length; the branches with and without more rows end alike. -/
def fitPage : Nat → Except PageError (List Elem × String)
  | 0 => .error .traversalLimitReached
  | count + 1 => do
    let (cursor, size) ← orFail (offer sealer nonce spec state rows morePeeked (count + 1))
    if hasMore rows morePeeked (count + 1) = true ∧ state.reachesBound (count + 1) size then
      .error .traversalLimitReached
    else if size ≤ maxStructuredContentBytes ∧ state.bytes + size ≤ maxChainBytes then
      .ok (spec.elements (rows.take (count + 1)), cursor)
    else if count = 0 then
      .error (if maxStructuredContentBytes < size then .resultItemTooLarge
        else .traversalLimitReached)
    else fitPage count

def pageOf : Except PageError (List Elem × String) := do
  require (∀ row ∈ rows, (spec.map row).isSome = true) .failed
  if rows.isEmpty then do
    let size ← orFail (spec.structuredSize [] "")
    require (size ≤ maxStructuredContentBytes) .resultItemTooLarge
    require (state.bytes + size ≤ maxChainBytes) .traversalLimitReached
    .ok ([], "")
  else fitPage sealer nonce spec state rows morePeeked rows.length

end Fit

def paginate (cursor : String) (now : Int) : Except PageError (List Elem × String) := do
  require (pageSizeMin ≤ spec.pageSize ∧ spec.pageSize ≤ pageSizeMax) .invalidArgument
  let state ← resume sealer spec cursor now
  require state.withinBounds .traversalLimitReached
  let fetched ← orFail (spec.fetch state.pos (spec.pageLimit state + 1))
  pageOf sealer nonce spec state (fetched.take (spec.pageLimit state))
    (decide (spec.pageLimit state < fetched.length))

end Paginate

def Fits (offers : Nat → Option (String × Nat)) (count : Nat) : Prop :=
  ∃ cursor size, offers count = some (cursor, size) ∧ size ≤ maxStructuredContentBytes

structure Longest (offers : Nat → Option (String × Nat)) (limit count : Nat) : Prop where
  nonempty : 0 < count
  within : count ≤ limit
  fits : Fits offers count
  longest : ∀ more, count < more → more ≤ limit → ¬ Fits offers more

structure Roomy (offers : Nat → Option (String × Nat)) (more : Nat → Bool) (state : CursorState)
    (limit : Nat) :
    Prop where
  oversized : ∀ count cursor size, count ≤ limit → offers count = some (cursor, size) →
    maxStructuredContentBytes < size →
    more count = true → ¬ state.reachesBound count size
  last : ∀ cursor size, 1 < limit → offers limit = some (cursor, size) → more limit = false →
    size ≤ maxStructuredContentBytes → state.bytes + size ≤ maxChainBytes

/-- A page is the longest that fits, and a refusal at the traversal limit is for the bounds that
this page reaches.  A call fails otherwise only if no page fits, if a row cannot be mapped or a page
not be measured and sealed, or for its page size. -/
def Judged {Elem : Type} (offers : Nat → Option (String × Nat)) (more : Nat → Bool)
    (state : CursorState) (limit : Nat) (page : Nat → List Elem) (mapped sized : Prop) :
    Except PageError (List Elem × String) → Prop
  | .ok (answer, cursor) => ∃ count size, Longest offers limit count ∧
      offers count = some (cursor, size) ∧ answer = page count ∧
      (more count = true → ¬ state.reachesBound count size)
  | .error .traversalLimitReached => ∃ count cursor size, Longest offers limit count ∧
      offers count = some (cursor, size) ∧
      (more count = true ∧ state.reachesBound count size ∨ maxChainBytes < state.bytes + size)
  | .error .resultItemTooLarge => ∀ count, 0 < count → count ≤ limit → ¬ Fits offers count
  | .error .failed => ¬ mapped ∨ ∃ count, 0 < count ∧ count ≤ limit ∧ offers count = none
  | .error .invalidArgument => ¬ sized
  | .error .invalidCursor => False

/-- The answer where no row is left. -/
def JudgedEmpty {Elem : Type} (measured : Option Nat) (sized : Prop) :
    Except PageError (List Elem × String) → Prop
  | .ok answer => answer = ([], "")
  | .error .resultItemTooLarge => ∃ size ∈ measured, maxStructuredContentBytes < size
  | .error .failed => measured = none
  | .error .invalidArgument => ¬ sized
  | .error .traversalLimitReached | .error .invalidCursor => False

section Fit
variable {Row Elem : Type} {sealer : CursorSealer} {nonce : Nat} {spec : PageSpec Row Elem}
  {state : CursorState} {rows : List Row} {morePeeked : Bool} {cursor : String} {size count : Nat}

theorem cursorWithExactSize_eq_some {sizeOf : String → Option Nat} {previousBytes attempts : Nat}
    {start : CursorState}
    (run : cursorWithExactSize sealer nonce sizeOf previousBytes attempts start =
      some (cursor, size)) :
    sealer.encode nonce { start with bytes := previousBytes + size } = some cursor ∧
      sizeOf cursor = some size := by
  induction attempts generalizing start with
  | zero => cases run
  | succ _ ih =>
    obtain ⟨_, encoded, run⟩ := Option.bind_eq_some_iff.mp run
    obtain ⟨_, measures, run⟩ := Option.bind_eq_some_iff.mp run
    split at run
    · rename_i stable
      cases run
      rw [stable]
      exact ⟨encoded, measures⟩
    · have later := ih run
      exact later

theorem offer_eq_some (offered : offer sealer nonce spec state rows morePeeked count =
    some (cursor, size)) :
    spec.structuredSize (spec.elements (rows.take count)) cursor = some size ∧
      ((hasMore rows morePeeked count = true ∧ cursor ≠ "" ∧
          sealer.decode cursor =
            some { spec.nextState state rows count with bytes := state.bytes + size }) ∨
        (hasMore rows morePeeked count = false ∧ cursor = "")) := by
  unfold offer at offered
  split at offered
  · rename_i more
    obtain ⟨sealed, measured⟩ := cursorWithExactSize_eq_some offered
    exact ⟨measured, .inl ⟨more, fun empty => sealer.nonempty _ _ (empty ▸ sealed),
      sealer.opens _ _ _ sealed⟩⟩
  rename_i last
  obtain ⟨_, measures, same⟩ := Option.map_eq_some_iff.mp offered
  cases same
  exact ⟨measures, .inr ⟨by simpa using last, rfl⟩⟩

theorem fitPage_judged {mapped sized : Prop}
    (roomy : Roomy (offer sealer nonce spec state rows morePeeked) (hasMore rows morePeeked) state
      rows.length)
    (positive : 0 < count) (within : count ≤ rows.length)
    (longer : ∀ more, count < more → more ≤ rows.length →
      ¬ Fits (offer sealer nonce spec state rows morePeeked) more) :
    Judged (offer sealer nonce spec state rows morePeeked)
      (hasMore rows morePeeked) state rows.length
      (fun count => spec.elements (rows.take count)) mapped sized
      (fitPage sealer nonce spec state rows morePeeked count) := by
  induction count with
  | zero => cases positive
  | succ count ih =>
    unfold fitPage
    cases offered : offer sealer nonce spec state rows morePeeked (count + 1) with
    | none => exact .inr ⟨count + 1, positive, within, offered⟩
    | some answer =>
      obtain ⟨cursor, size⟩ := answer
      have longest (fits : size ≤ maxStructuredContentBytes) :
          Longest (offer sealer nonce spec state rows morePeeked) rows.length (count + 1) :=
        ⟨positive, within, ⟨cursor, size, offered, fits⟩, longer⟩
      change Judged _ _ _ _ _ _ _ (if _ then _ else _)
      split
      · rename_i reaches
        have fits : size ≤ maxStructuredContentBytes := by
          by_contra large
          exact roomy.oversized _ _ _ within offered (by omega) reaches.1 reaches.2
        exact ⟨count + 1, cursor, size, longest fits, offered, .inl reaches⟩
      rename_i free
      split
      · rename_i fits
        exact ⟨count + 1, size, longest fits.1, offered, rfl,
          fun more reaches => free ⟨more, reaches⟩⟩
      split
      · rename_i least
        subst least
        split
        · rename_i large
          intro more some_ limit
          rcases Nat.lt_or_eq_of_le (Nat.succ_le_of_lt some_) with above | rfl
          · exact longer more above limit
          · rintro ⟨_, _, offered', fits⟩
            cases offered.symm.trans offered'
            exact absurd large (Nat.not_lt.mpr fits)
        · exact ⟨1, cursor, size, longest (by omega), offered, .inr (by omega)⟩
      refine ih (by omega) (by omega) fun more above limit => ?_
      rcases Nat.lt_or_eq_of_le (Nat.succ_le_of_lt above) with above | rfl
      · exact longer more above limit
      -- the page of `count + 1` rows was passed over because it is too large
      rintro ⟨_, _, offered', fits⟩
      cases offered.symm.trans offered'
      cases more : hasMore rows morePeeked (count + 1) with
      | true =>
        have unreached : ¬ state.reachesBound (count + 1) size :=
          fun reaches => free ⟨more, reaches⟩
        omega
      | false =>
        have all : rows.length = count + 1 := by
          simp [hasMore] at more
          omega
        have total := roomy.last cursor size (by omega) (all ▸ offered) (all ▸ more) fits
        omega

end Fit

section Calls
variable {Row Elem : Type} (sealer : CursorSealer) (spec : PageSpec Row Elem) (rows : List Row)
  (nonce : Nat) (state : CursorState)

/-- The rows that `Fetch` serves: their keys are past the position of the first page and
increase. -/
structure Serves : Prop where
  positioned : ∀ row ∈ rows, "" < spec.key row
  increasing : rows.Pairwise fun a b => spec.key a < spec.key b
  fetches : ∀ after limit, spec.fetch after limit =
    some ((rows.filter fun row => after < spec.key row).take limit)

def remaining : List Row := rows.filter fun row => state.pos < spec.key row

def candidates : List Row := (remaining spec rows state).take (spec.pageLimit state)

def peeked : Bool := decide (spec.pageLimit state < (remaining spec rows state).length)

def RoomyCall : Prop :=
  Roomy (offer sealer nonce spec state (candidates spec rows state) (peeked spec rows state))
    (hasMore (candidates spec rows state) (peeked spec rows state)) state
    (candidates spec rows state).length

def PageSpec.Sized : Prop := pageSizeMin ≤ spec.pageSize ∧ spec.pageSize ≤ pageSizeMax

def JudgedCall : Except PageError (List Elem × String) → Prop :=
  Judged (offer sealer nonce spec state (candidates spec rows state) (peeked spec rows state))
    (hasMore (candidates spec rows state) (peeked spec rows state)) state
    (candidates spec rows state).length
    (fun count => spec.elements ((candidates spec rows state).take count))
    (∀ row ∈ candidates spec rows state, (spec.map row).isSome = true) spec.Sized

inductive Reached : List (List Elem × String) → String → Prop
  | start : Reached [] ""
  | call {answers : List (List Elem × String)} {cursor next : String} {page : List Elem}
      {nonce : Nat} {now : Int} {state : CursorState} (past : Reached answers cursor)
      (follows : answers = [] ∨ cursor ≠ "")
      (resumes : resume sealer spec cursor now = .ok state)
      (roomy : RoomyCall sealer spec rows nonce state)
      (answered : paginate sealer nonce spec cursor now = .ok (page, next)) :
      Reached (answers ++ [(page, next)]) next

def encodedSize (answers : List (List Elem × String)) : Nat :=
  (answers.map fun answer => (spec.structuredSize answer.1 answer.2).getD 0).sum

structure Standing (answers : List (List Elem × String)) (cursor : String) (taken rest : List Row) :
    Prop where
  split : rows = taken ++ rest
  mapped : ∀ row ∈ taken, (spec.map row).isSome = true
  elements : answers.flatMap Prod.fst = spec.elements taken
  ended : cursor = "" → answers = [] ∧ taken = [] ∨ answers ≠ [] ∧ rest = []
  counted : cursor ≠ "" → ∃ state, sealer.decode cursor = some state ∧
    state.bytes = encodedSize spec answers ∧
    state.withinBounds ∧ remaining spec rows state = rest ∧ rest ≠ []

variable {sealer spec rows nonce state}

section
variable {answers : List (List Elem × String)} {cursor next : String} {taken rest : List Row}
  {now : Int} {page : List Elem}

theorem Standing.resumed (standing : Standing sealer spec rows answers cursor taken rest)
    (serves : Serves spec rows) (follows : answers = [] ∨ cursor ≠ "")
    (resumes : resume sealer spec cursor now = .ok state) :
    remaining spec rows state = rest ∧ state.withinBounds ∧ state.bytes = encodedSize spec answers ∧
      (rest = [] → answers = []) := by
  unfold resume at resumes
  split at resumes
  · rename_i first
    cases resumes
    have none_ : answers = [] := follows.resolve_right (absurd first)
    obtain ⟨-, rfl⟩ := (standing.ended first).resolve_right fun other => other.1 none_
    refine ⟨?_, ⟨show 0 < maxChainPages by decide, show 0 < maxChainItems by decide,
      show 0 < maxChainBytes by decide⟩, by rw [none_]; rfl, fun _ => none_⟩
    rw [show rest = rows from standing.split.symm]
    exact filter_eq_self.mpr fun row mem => decide_eq_true (serves.positioned row mem)
  rename_i later
  obtain ⟨_, opened, bytes, within, left, more⟩ := standing.counted later
  unfold decodeCursor at resumes
  rw [opened] at resumes
  split at resumes
  · cases resumes
  dsimp only at resumes
  split at resumes
  · cases resumes
    exact ⟨left, within, bytes, fun none_ => absurd none_ more⟩
  · cases resumes

theorem paginate_eq (serves : Serves spec rows)
    (resumes : resume sealer spec cursor now = .ok state) (within : state.withinBounds) :
      paginate sealer nonce spec cursor now =
      if pageSizeMin ≤ spec.pageSize ∧ spec.pageSize ≤ pageSizeMax then
        pageOf sealer nonce spec state (candidates spec rows state) (peeked spec rows state)
      else .error .invalidArgument := by
  have peeks :
      decide (spec.pageLimit state <
        ((remaining spec rows state).take (spec.pageLimit state + 1)).length) =
      peeked spec rows state := by
    rw [peeked, length_take]
    congr 1
    simp
  unfold paginate
  split
  · rename_i valid
    rw [require, if_pos valid, ok_bind, resumes, ok_bind, require, if_pos within, ok_bind,
      serves.fetches]
    change pageOf sealer nonce spec state (((remaining spec rows state).take _).take _)
      (decide (_ < ((remaining spec rows state).take _).length)) = _
    rw [peeks, take_take, Nat.min_eq_left (Nat.le_succ _), candidates]
  rename_i invalid
  rw [require, if_neg invalid]
  rfl

theorem candidates_ne_nil (within : state.withinBounds) (valid : pageSizeMin ≤ spec.pageSize)
    (more : remaining spec rows state ≠ []) : candidates spec rows state ≠ [] := by
  intro none_
  rcases take_eq_nil_iff.mp none_ with none_ | none_
  · unfold PageSpec.pageLimit pageSizeMin at *
    omega
  · exact more none_

section
variable (serves : Serves spec rows) (resumes : resume sealer spec cursor now = .ok state)
  (within : state.withinBounds)
include serves resumes within

theorem paginate_judged (roomy : RoomyCall sealer spec rows nonce state)
    (more : remaining spec rows state ≠ []) :
    JudgedCall sealer spec rows nonce state (paginate sealer nonce spec cursor now) := by
  rw [paginate_eq serves resumes within]
  split
  · rename_i valid
    have some_ := candidates_ne_nil within valid.1 more
    unfold pageOf
    by_cases mapped : ∀ row ∈ candidates spec rows state, (spec.map row).isSome = true
    · rw [require, if_pos mapped, ok_bind, if_neg (by simpa using some_)]
      exact fitPage_judged roomy (length_pos_of_ne_nil some_) le_rfl fun more above limit =>
        absurd above (by omega)
    · rw [require, if_neg mapped]
      exact .inl mapped
  · rename_i unsized
    exact unsized

theorem paginate_empty (fresh : state.bytes = 0) (none_ : remaining spec rows state = []) :
    JudgedEmpty (spec.structuredSize [] "") spec.Sized (paginate sealer nonce spec cursor now) := by
  have empty : candidates spec rows state = [] := by rw [candidates, none_, take_nil]
  rw [paginate_eq serves resumes within, empty]
  split
  · cases measured : spec.structuredSize [] "" with
    | none => simp [pageOf, require, measured, orFail, bind, Except.bind, JudgedEmpty]
    | some size =>
      have total : size ≤ maxStructuredContentBytes → state.bytes + size ≤ maxChainBytes := by
        unfold maxStructuredContentBytes maxChainBytes
        omega
      by_cases fits : size ≤ maxStructuredContentBytes
      · simp [pageOf, require, measured, orFail, fits, total fits, bind, Except.bind, JudgedEmpty]
      · simp [pageOf, require, measured, orFail, fits, bind, Except.bind, JudgedEmpty]
        omega
  · rename_i unsized
    exact unsized

theorem paginate_mapped (answered : paginate sealer nonce spec cursor now = .ok (page, next)) :
    ∀ row ∈ candidates spec rows state, (spec.map row).isSome = true := by
  rw [paginate_eq serves resumes within] at answered
  split at answered
  · exact (require_bind_eq_ok.mp answered).1
  · cases answered

end

theorem hasMore_iff {count : Nat} (fits : count ≤ (candidates spec rows state).length) :
    hasMore (candidates spec rows state) (peeked spec rows state) count = true ↔
      count < (remaining spec rows state).length := by
  rw [candidates, length_take] at fits
  simp only [hasMore, peeked, candidates, length_take, Bool.or_eq_true, decide_eq_true_eq]
  omega

theorem Standing.call (standing : Standing sealer spec rows answers cursor taken rest)
    (serves : Serves spec rows) (follows : answers = [] ∨ cursor ≠ "")
    (resumes : resume sealer spec cursor now = .ok state)
    (roomy : RoomyCall sealer spec rows nonce state)
    (answered : paginate sealer nonce spec cursor now = .ok (page, next)) :
    ∃ taken rest, Standing sealer spec rows (answers ++ [(page, next)]) next taken rest := by
  obtain ⟨left, within, bytes, fresh⟩ := standing.resumed serves follows resumes
  by_cases none_ : rest = []
  · obtain rfl := fresh none_
    have judged : JudgedEmpty _ _ (paginate sealer nonce spec cursor now) :=
      paginate_empty serves resumes within bytes (left.trans none_)
    rw [answered] at judged
    cases judged
    exact ⟨taken, rest, standing.split, standing.mapped, standing.elements,
      fun _ => .inr ⟨by simp, none_⟩, absurd rfl⟩
  have judged := paginate_judged serves resumes within roomy (left ▸ none_)
  rw [answered] at judged
  obtain ⟨count, _, longest, offered, rfl, free⟩ := judged
  obtain ⟨measured, ended⟩ := offer_eq_some offered
  have more := hasMore_iff longest.within
  rw [left] at more
  have listed : (candidates spec rows state).take count = rest.take count := by
    have short := longest.within
    rw [candidates, length_take] at short
    rw [candidates, left, take_take, Nat.min_eq_left (by omega)]
  refine ⟨taken ++ rest.take count, rest.drop count, ?_, fun row mem => ?_, ?_,
    fun last => .inr ⟨by simp, ?_⟩, fun goesOn => ?_⟩
  · rw [append_assoc, take_append_drop]
    exact standing.split
  · rcases mem_append.mp mem with earlier | now_
    · exact standing.mapped row earlier
    · exact paginate_mapped serves resumes within answered row (mem_of_mem_take (listed ▸ now_))
  · rw [flatMap_append, standing.elements, PageSpec.elements, PageSpec.elements,
      filterMap_append, ← listed]
    simp [PageSpec.elements]
  · rcases ended with ⟨-, sealed, -⟩ | ⟨final, -⟩
    · exact absurd last sealed
    · rw [← Bool.not_eq_true, more] at final
      exact drop_eq_nil_of_le (by omega)
  · rcases ended with ⟨goes, -, opened⟩ | ⟨-, empty⟩
    · have unreached := free goes
      refine ⟨_, opened, ?_, ?_, ?_, by simpa using more.mp goes⟩
      · simp [encodedSize, measured, bytes]
      · exact ⟨by simp [PageSpec.nextState]; omega, by simp [PageSpec.nextState]; omega,
          by dsimp only; omega⟩
      · cases isLast : (rest.take count).getLast? with
        | none =>
          rcases take_eq_nil_iff.mp (getLast?_eq_none_iff.mp isLast) with zero | empty
          · exact absurd zero longest.nonempty.ne'
          · exact absurd empty none_
        | some last =>
          obtain ⟨front, isFront⟩ := getLast?_eq_some_iff.mp isLast
          have cut := take_append_drop count rest
          rw [isFront, append_assoc] at cut
          have whole : rows = (taken ++ front) ++ last :: rest.drop count := by
            rw [append_assoc]
            exact standing.split.trans (congrArg (taken ++ ·) cut.symm)
          have past := filter_past (whole ▸ serves.increasing)
          have pos : (spec.nextState state (candidates spec rows state) count).pos =
              spec.key last := by
            simp [PageSpec.nextState, listed, isLast]
          rw [← whole, ← pos] at past
          exact past
    · exact absurd empty goesOn

theorem Reached.standing (reached : Reached sealer spec rows answers cursor)
    (serves : Serves spec rows) :
    ∃ taken rest, Standing sealer spec rows answers cursor taken rest := by
  induction reached with
  | start => exact ⟨[], rows, rfl, nofun, rfl, fun _ => .inl ⟨rfl, rfl⟩, absurd rfl⟩
  | call _ follows resumes roomy answered ih =>
    obtain ⟨_, _, standing⟩ := ih
    exact standing.call serves follows resumes roomy answered

end

end Calls

def letters (size : Nat → Nat) : PageSpec String String where
  scope := ⟨"list", "", "", "", 0⟩
  pageSize := 2
  fetch after limit := some ((["a", "b", "c"].filter fun row => after < row).take limit)
  map := some
  key := id
  structuredSize page _ := some (size page.length)

def afterLetters (count bytes : Nat) : CursorState :=
  { tool := "list", org := "", project := "", env := "", pageSize := 2, pos := if count = 1 then "a"
    else "b", pages := 1, items := count, bytes, expiry := cursorTTL }

def letterCursors (size : Nat → Nat) : List (String × CursorState) :=
  [("w", afterLetters 1 0), ("x", afterLetters 1 (size 1)), ("y", afterLetters 2 0),
    ("z", afterLetters 2 (size 2))]

def letterSealer (size : Nat → Nat) : CursorSealer where
  encode _ state := ((letterCursors size).find? fun entry => entry.2 = state).map Prod.fst
  decode cursor := ((letterCursors size).find? fun entry => entry.1 == cursor).map Prod.snd
  opens := by
    intro _ state cursor sealed
    obtain ⟨entry, found, rfl⟩ := Option.map_eq_some_iff.mp sealed
    have same : entry.2 = state := by simpa using find?_some found
    have distinct : ((letterCursors size).map Prod.fst).Nodup :=
      show ["w", "x", "y", "z"].Nodup by decide
    rw [(find?_eq_some_iff_of_nodup distinct).mpr ⟨mem_of_find?_eq_some found, rfl⟩, ← same]
    rfl
  nonempty := by
    intro _ state sealed
    obtain ⟨entry, found, empty⟩ := Option.map_eq_some_iff.mp sealed
    have named : "" ∉ (letterCursors size).map Prod.fst := show "" ∉ ["w", "x", "y", "z"] by decide
    exact named (empty ▸ mem_map_of_mem (mem_of_find?_eq_some found))

theorem letters_serves (size : Nat → Nat) : Serves (letters size) ["a", "b", "c"] where
  positioned := show ∀ row ∈ ["a", "b", "c"], "" < row by decide +kernel
  increasing := show ["a", "b", "c"].Pairwise (· < ·) by decide +kernel
  fetches _ _ := rfl

theorem letters_roomy {nonce : Nat} {state : CursorState} (small : state.bytes ≤ 2) :
    RoomyCall (letterSealer id) (letters id) ["a", "b", "c"] nonce state := by
  have bound : ∀ count cursor size, offer (letterSealer id) nonce (letters id) state
      (candidates (letters id) ["a", "b", "c"] state)
      (peeked (letters id) ["a", "b", "c"] state) count = some (cursor, size) → size ≤ 2 := by
    intro count cursor size offered
    obtain ⟨measured, -⟩ := offer_eq_some offered
    cases measured
    refine (length_filterMap_le _ _).trans
      ((length_take_le' _ _).trans ((length_take_le _ _).trans ?_))
    exact Nat.min_le_left _ _
  constructor
  · intro count cursor size _ offered large
    have := bound count cursor size offered
    unfold maxStructuredContentBytes at large
    omega
  intro cursor size _ offered _ _
  have := bound _ cursor size offered
  unfold maxChainBytes
  omega

end Hikyo.Mcp
