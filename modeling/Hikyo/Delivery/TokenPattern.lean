import Hikyo.Project.Plaintexts
import Hikyo.Delivery.History
import Hikyo.Delivery.Withheld

/-!
# What equal tokens tell across runs

Two runs that differ only in the plaintexts of secrets are watched by a principal without `reveal`,
who sees change tokens and cursors.  `tokens_same_pattern`: both runs show one pattern of equal and
different tokens, as long as no secret was written again between revisions of one outline.  A
`Sight` is what a token is computed over with the secrets left open, and `Twins` are the two runs.
A principal that may write but not read a secret can test a guess by writing it
(`guessHistory_pattern_differs`).
-/

namespace Hikyo.Delivery

open Hikyo.Lib Hikyo.Project List

variable {plaintext : EntryID → String} {rows : List Row} {entries : List SnapshotEntry}
  {moment : Nat} {prepared : Prepared} {server : Server} {snapshot : Snapshot}
  {entry : SnapshotEntry}

def fillEntry (plaintext : EntryID → String) (entry : SnapshotEntry) : SnapshotEntry :=
  if entry.classification = .secret then { entry with value := plaintext entry.valueEntryID }
    else entry

def fillSecrets (plaintext : EntryID → String) (entries : List SnapshotEntry) :
    List SnapshotEntry :=
  entries.map (fillEntry plaintext)

def fillRow (plaintext : EntryID → String) (entry : SnapshotEntry) (row : Row) : Row :=
  if entry.classification = .secret then { row with value := plaintext entry.valueEntryID } else row

def fillRows (plaintext : EntryID → String) (entries : List SnapshotEntry) (rows : List Row) :
    List Row :=
  zipWith (fillRow plaintext) entries rows

section Fill
theorem fillEntry_secret (secret : entry.classification = .secret) :
    fillEntry plaintext entry = { entry with value := plaintext entry.valueEntryID } :=
  if_pos secret

theorem fillEntry_config (config : entry.classification = .config) :
    fillEntry plaintext entry = entry := if_neg (by simp [config])

theorem fillEntry_keyName (entry : SnapshotEntry) :
    (fillEntry plaintext entry).keyName = entry.keyName := by
  unfold fillEntry
  split <;> rfl

theorem fillEntry_fillEntry (entry : SnapshotEntry) :
    fillEntry plaintext (fillEntry plaintext entry) = fillEntry plaintext entry := by
  cases recorded : entry.classification with
  | secret =>
    rw [fillEntry_secret recorded]
    exact fillEntry_secret recorded
  | config => rw [fillEntry_config recorded, fillEntry_config recorded]

theorem fillSecrets_fillSecrets (entries : List SnapshotEntry) :
    fillSecrets plaintext (fillSecrets plaintext entries) = fillSecrets plaintext entries := by
  rw [fillSecrets, fillSecrets, map_map]
  exact map_congr_left fun entry _ => fillEntry_fillEntry entry

theorem fillSecrets_self (own : ∀ entry ∈ entries, entry.value = plaintext entry.valueEntryID) :
    fillSecrets plaintext entries = entries := by
  have same : ∀ entry ∈ entries, fillEntry plaintext entry = id entry := by
    intro entry mem
    cases recorded : entry.classification with
    | secret => rw [fillEntry_secret recorded, ← own entry mem, id]
    | config => rw [fillEntry_config recorded, id]
  rw [fillSecrets, map_congr_left same, map_id]

theorem fillRow_row (entry : SnapshotEntry) (row : Row) :
    (fillRow plaintext entry row).key = row.key ∧ (fillRow plaintext entry row).classification =
    row.classification := by
  unfold fillRow
  split <;> exact ⟨rfl, rfl⟩

theorem fillSecrets_keepsOrder : KeepsOrder (fillSecrets plaintext) :=
  keepsOrder_map fillEntry_keyName

theorem toRow_fillEntry (entry : SnapshotEntry) :
    (fillEntry plaintext entry).toRow = fillRow plaintext entry entry.toRow := by
  unfold fillEntry fillRow
  split <;> rfl

theorem fillRows_toRow (entries : List SnapshotEntry) :
      (fillSecrets plaintext entries).map SnapshotEntry.toRow =
      fillRows plaintext entries (entries.map SnapshotEntry.toRow) := by
  induction entries with
  | nil => rfl
  | cons _ _ ih =>
    rw [fillSecrets, map_cons, map_cons, toRow_fillEntry, map_cons, fillRows, zipWith_cons_cons]
    exact congrArg _ ih

theorem fillEntry_edits : EditsSecrets (fillEntry plaintext) where
  config _ := fillEntry_config
  classification entry := by unfold fillEntry; split <;> rfl
  keyID entry := by unfold fillEntry; split <;> rfl
  keyName := fillEntry_keyName

theorem fillRows_eq : fillRows plaintext entries rows = zipWith
    (editRow (fillEntry plaintext)) entries rows := by
  rw [fillRows]
  congr 1
  funext entry row
  unfold fillRow editRow fillEntry
  split <;> rfl

end Fill

/-- What a token or a cursor is computed over, with the secret plaintexts left open. -/
structure Sight where
  env : EnvID
  supplied : Supplied
  entries : List SnapshotEntry
  rows : List Row
  cursor : Option Cursor

structure Sight.Aligned (sight : Sight) : Prop where
  names : sight.rows.map (fun row => (row.key, row.classification)) =
    sight.entries.map fun entry => (entry.keyName, entry.classification)
  sorted : sight.entries.Pairwise fun a b => a.keyName ≤ b.keyName

section Sights
variable (hash : KeyedHash TokenKey) (plaintext : EntryID → String)

def Sight.token (sight : Sight) : String :=
  changeToken hash sight.env (parameterizedManifest (fillRows plaintext sight.entries sight.rows)
    sight.supplied)

def Sight.text (sight : Sight) : String :=
  match sight.cursor with
  | none => sight.token hash plaintext
  | some tuple =>
      deliveryCursor hash sight.env
        (encodeCursor { tuple with changeToken := sight.token hash plaintext })

end Sights

section Patterns
variable {hash : KeyedHash TokenKey}

theorem fillRows_names (length : rows.length = entries.length) :
    (fillRows plaintext entries rows).map (fun row => (row.key, row.classification)) =
      rows.map fun row => (row.key, row.classification) := by
  induction entries generalizing rows with
  | nil =>
    rw [length_eq_zero_iff.mp length]
    rfl
  | cons entry _ ih =>
    cases rows with
    | nil => cases length
    | cons row =>
      obtain ⟨key, classification⟩ := @fillRow_row plaintext entry row
      rw [fillRows, zipWith_cons_cons, map_cons, map_cons, key, classification]
      exact congrArg _ (ih (Nat.succ.inj length))

theorem Sight.Aligned.length {sight : Sight} (aligned : sight.Aligned) :
    sight.rows.length = sight.entries.length := by
  simpa using congrArg List.length aligned.names

theorem Sight.Aligned.sortRows_eq {sight : Sight} (aligned : sight.Aligned) :
    sortRows (fillRows plaintext sight.entries sight.rows) =
      fillRows plaintext sight.entries sight.rows := by
  have names := (@fillRows_names plaintext _ _ aligned.length).trans aligned.names
  have keys : (fillRows plaintext sight.entries sight.rows).map Row.key =
      sight.entries.map SnapshotEntry.keyName := by
    have keys := congrArg (map Prod.fst) names
    rwa [map_map, map_map] at keys
  have sorted : ((fillRows plaintext sight.entries sight.rows).map Row.key).Pairwise (· ≤ ·) := by
    rw [keys, pairwise_map]
    exact aligned.sorted
  rw [pairwise_map] at sorted
  exact sorted.insertionSort_eq

def SameSecrets (entries entries' : List SnapshotEntry) : Prop :=
  ∀ entry ∈ entries, ∀ entry' ∈ entries', entry.keyName = entry'.keyName →
    entry.classification = .secret →
    entry.valueEntryID = entry'.valueEntryID

instance (entries entries' : List SnapshotEntry) : Decidable (SameSecrets entries entries') := by
  unfold SameSecrets
  infer_instance

theorem fillRows_eq_of_eq {entries' : List SnapshotEntry} {rows' : List Row}
    (names : rows.map (fun row => (row.key, row.classification)) =
      entries.map fun entry => (entry.keyName, entry.classification))
    (names' : rows'.map (fun row => (row.key, row.classification)) =
      entries'.map fun entry => (entry.keyName, entry.classification))
    (secrets : SameSecrets entries entries') (other : EntryID → String)
    (same : fillRows plaintext entries rows = fillRows plaintext entries' rows') :
    fillRows other entries rows = fillRows other entries' rows' := by
  induction entries generalizing rows entries' rows' with
  | nil =>
    obtain rfl : rows = [] := map_eq_nil_iff.mp names
    cases entries' with
    | nil => rfl
    | cons =>
      cases rows' with
      | nil => cases names'
      | cons => cases same
  | cons entry _ ih =>
    cases rows with
    | nil => cases names
    | cons row =>
      cases entries' with
      | nil => cases same
      | cons entry' =>
        cases rows' with
        | nil => cases names'
        | cons row' =>
          simp only [map_cons, cons.injEq, Prod.mk.injEq] at names names'
          rw [fillRows, fillRows, zipWith_cons_cons, zipWith_cons_cons, cons.injEq] at same ⊢
          obtain ⟨⟨name, class_⟩, tail⟩ := names
          obtain ⟨⟨name', class'⟩, tail'⟩ := names'
          refine ⟨?_, ih tail tail' (fun a mem b mem' => secrets a (.tail _ mem) b
            (.tail _ mem')) same.2⟩
          have key : row.key = row'.key := by
            rw [← (@fillRow_row plaintext entry row).1, same.1,
              (@fillRow_row plaintext entry' row').1]
          have classified : row.classification = row'.classification := by
            rw [← (@fillRow_row plaintext entry row).2, same.1,
              (@fillRow_row plaintext entry' row').2]
          have here := same.1
          cases recorded : entry.classification with
          | secret =>
            have recorded' : entry'.classification = .secret := by
              rw [← class', ← classified, class_, recorded]
            have occurrence := secrets entry (.head _) entry' (.head _)
              (by rw [← name, ← name', key]) recorded
            simp only [fillRow, recorded, recorded', if_true, key, classified, occurrence]
          | config =>
            have recorded' : entry'.classification = .config := by
              rw [← class', ← classified, class_, recorded]
            simpa [fillRow, recorded, recorded'] using here

theorem Sight.text_eq_of_eq {sight sight' : Sight} (aligned : sight.Aligned)
    (aligned' : sight'.Aligned) (secrets : sight.env = sight'.env →
        sight.entries.map (fun entry => (entry.keyName, entry.classification)) =
        sight'.entries.map (fun entry => (entry.keyName, entry.classification)) →
      SameSecrets sight.entries sight'.entries) (other : EntryID → String)
    (same : sight.text hash plaintext = sight'.text hash plaintext) :
    sight.text hash other = sight'.text hash other := by
  have tokens (equal : sight.token hash plaintext = sight'.token hash plaintext) :
      sight.token hash other = sight'.token hash other := by
    obtain ⟨key, bytes⟩ := hash.collisionFree equal
    have env : sight.env = sight'.env := congrArg TokenKey.env key
    obtain ⟨rows, -, encode⟩ := parameterizedManifest_eq bytes
    rw [aligned.sortRows_eq, aligned'.sortRows_eq] at rows
    have names := congrArg (map fun row : Row => (row.key, row.classification)) rows
    rw [fillRows_names aligned.length, fillRows_names aligned'.length, aligned.names,
      aligned'.names] at names
    have filled := fillRows_eq_of_eq aligned.names aligned'.names (secrets env names) other rows
    rw [Sight.token, Sight.token, env, encode _ _ (congrArg sortRows filled)]
  unfold Sight.text at same ⊢
  cases first : sight.cursor with
  | none =>
    cases second : sight'.cursor with
    | none =>
      simp only [first, second] at same ⊢
      exact tokens same
    | some =>
      simp only [first, second] at same
      exact absurd (congrArg TokenKey.label (hash.collisionFree same).1) (by simp)
  | some =>
    cases second : sight'.cursor with
    | none =>
      simp only [first, second] at same
      exact absurd (congrArg TokenKey.label (hash.collisionFree same).1) (by simp)
    | some =>
      simp only [first, second] at same ⊢
      obtain ⟨key, bytes⟩ := hash.collisionFree same
      have env : sight.env = sight'.env := congrArg TokenKey.env key
      have moved := tokens (encodeCursor_inj bytes).changeToken
      have encoded := encodeCursor_token bytes (sight.token hash other)
      rw [env, ← moved]
      exact congrArg _ encoded

end Patterns

structure Recast (plaintext : EntryID → String) (a b : ProjectDB) : Prop where
  directory : b.directory = a.directory
  environments : b.environments = a.environments
  snapshots : b.snapshots = a.snapshots.map (editEntries (fillSecrets plaintext))

structure Sight.Of (db : ProjectDB) (sight : Sight) : Prop extends sight.Aligned where
  snapshot : ∃ snapshot ∈ db.snapshots, snapshot.env = sight.env ∧
    sight.entries.Perm snapshot.entries

section Looks
variable {a b : ProjectDB}

theorem Recast.environment? (recast : Recast plaintext a b) (env : EnvID) :
    b.environment? env = a.environment? env := by
  rw [ProjectDB.environment?, ProjectDB.environment?, recast.environments]

theorem Recast.find? (recast : Recast plaintext a b) (selected : Snapshot → Bool)
    (blind : ∀ snapshot, selected (editEntries (fillSecrets plaintext) snapshot) =
      selected snapshot) :
    b.snapshots.find? selected = (a.snapshots.find? selected).map
      (editEntries (fillSecrets plaintext)) := by
  rw [recast.snapshots, find?_map]
  exact congrArg (fun test => (a.snapshots.find? test).map _) (funext blind)

theorem Recast.readSnapshot (recast : Recast plaintext a b) (env : EnvID) (revision : Int) :
    readSnapshot b env revision = editEntries (fillSecrets plaintext) <$>
      readSnapshot a env revision := by
  have latest : b.latest env = (a.latest env).map (editEntries (fillSecrets plaintext)) :=
    recast.find? _ fun _ => rfl
  have at_ : b.atRevision env revision.toNat =
      (a.atRevision env revision.toNat).map (editEntries (fillSecrets plaintext)) :=
        recast.find? _ fun _ => rfl
  rw [Hikyo.Delivery.readSnapshot, Hikyo.Delivery.readSnapshot, latest, at_]
  by_cases newest : revision ≤ 0
  · rw [if_pos newest, if_pos newest]
    cases a.latest env <;> rfl
  · rw [if_neg newest, if_neg newest]
    cases a.atRevision env revision.toNat <;> rfl

def snapshotSight (snapshot : Snapshot) : Sight where
  env := snapshot.env
  supplied := []
  entries := snapshot.entries.insertionSort fun a b => a.keyName ≤ b.keyName
  rows := (snapshot.entries.insertionSort fun a b => a.keyName ≤ b.keyName).map SnapshotEntry.toRow
  cursor := none

theorem snapshotSight_of (stored : snapshot ∈ a.snapshots) :
    Sight.Of a (snapshotSight snapshot) := by
  refine ⟨⟨?_, sorted_by_name snapshot.entries⟩, snapshot, stored, rfl, perm_insertionSort _ _⟩
  rw [snapshotSight, map_map]
  rfl

theorem snapshotSight_text (stored : snapshot ∈ a.snapshots) (hash : KeyedHash TokenKey) :
    changeToken hash snapshot.env
      (manifest ((fillSecrets plaintext snapshot.entries).map SnapshotEntry.toRow)) =
      (snapshotSight snapshot).text hash plaintext := by
  have sorted : sortRows ((fillSecrets plaintext snapshot.entries).map SnapshotEntry.toRow) =
      sortRows (fillRows plaintext (snapshotSight snapshot).entries
        (snapshotSight snapshot).rows) := by
    rw [(snapshotSight_of stored).toAligned.sortRows_eq,
      snapshotSight, ← fillRows_toRow, ← fillSecrets_keepsOrder,
      sortRows, map_insertionSort (fun a b : SnapshotEntry => a.keyName ≤ b.keyName) fun a b =>
        a.key ≤ b.key]
    exact fun _ _ _ _ => Iff.rfl
  rw [Sight.text, Sight.token, parameterizedManifest]
  simp only [snapshotSight, if_true] at sorted ⊢
  rw [manifest, manifest, sorted]

/-- The look shows nothing under any plaintexts, or one sight whose text depends on
them. -/
inductive Shows (server : Server) (a : ProjectDB) (look : ProjectDB → Option String) : Prop
  | refused (none_ : ∀ plaintext b, Recast plaintext a b → look b = none)
  | sight (sight : Sight) (of : sight.Of a)
      (text : ∀ plaintext b, Recast plaintext a b →
        look b = some (sight.text server.hash plaintext))

theorem showRevision_token (db : ProjectDB) (grants : List GrantRow) (env : EnvID)
    (revision : Int) :
    (showRevision server db grants env revision).toOption.map RevisionDetail.changeToken =
      if (db.environment? env).isSome = true ∧ permits grants .revisionShow env = true then
        (readSnapshot db env revision).toOption.bind fun snapshot => if snapshot.payloadPresent =
            true then
            some (changeToken server.hash env (manifest
              ((snapshot.entries.insertionSort fun a b => a.keyName ≤ b.keyName).map
                SnapshotEntry.toRow))) else none
      else none := by
  unfold showRevision authorize
  by_cases allowed : (db.environment? env).isSome = true ∧ permits grants .revisionShow env = true
  · rw [require, if_pos allowed, if_pos allowed, ok_bind]
    cases readSnapshot db env revision with
    | error => rfl
    | ok snapshot =>
      simp only [ok_bind, liveEntries, Except.toOption, Option.bind_some]
      by_cases present : snapshot.payloadPresent = true
      · rw [require, if_pos present, if_pos present]
        rfl
      · rw [require, if_neg present, if_neg present]
        rfl
  · rw [require, if_neg allowed, if_neg allowed]
    rfl

theorem detail_shows (a : ProjectDB) (grants : List GrantRow) (env : EnvID) (revision : Int) :
    Shows server a fun db =>
      (showRevision server db grants env revision).toOption.map RevisionDetail.changeToken := by
  by_cases allowed : (a.environment? env).isSome = true ∧ permits grants .revisionShow env = true
  · cases found : readSnapshot a env revision with
    | error =>
      refine .refused fun plaintext b recast => ?_
      rw [showRevision_token, recast.environment?, if_pos allowed, recast.readSnapshot, found]
      rfl
    | ok snapshot =>
      obtain ⟨stored, rfl⟩ := readSnapshot_mem found
      by_cases present : snapshot.payloadPresent = true
      · refine .sight (snapshotSight snapshot) (snapshotSight_of stored) fun plaintext b recast =>
          ?_
        rw [showRevision_token, recast.environment?, if_pos allowed, recast.readSnapshot, found]
        have sorts := @fillSecrets_keepsOrder plaintext snapshot.entries
        simp only [Functor.map, Except.map, Except.toOption, Option.bind_some, editEntries, present,
          if_true, sorts, fillRows_toRow]
        rw [Sight.text, Sight.token, parameterizedManifest]
        simp [snapshotSight]
      refine .refused fun plaintext b recast => ?_
      rw [showRevision_token, recast.environment?, if_pos allowed, recast.readSnapshot, found]
      exact if_neg present
  · refine .refused fun plaintext b recast => ?_
    rw [showRevision_token, recast.environment?, if_neg allowed]

def FetchCall.Blind (call : FetchCall) : Prop :=
  ∀ capability ∈ [Capability.reveal, .revealHistory],
    holds (call.state.grantRowsForPrincipal call.caller) capability call.env = false

theorem FetchCall.Blind.withholds {call : FetchCall} (blind : call.Blind) : Withholds call := by
  intro selected _
  have listed : secretCapability selected.pinnedNonCurrent ∈ [Capability.reveal,
      .revealHistory] := by
    cases selected.pinnedNonCurrent <;> decide
  have lacks := blind _ listed
  unfold FetchCall.grants
  split
  · exact lacks
  -- dropping rows grants nothing
  rw [holds, any_eq_false] at lacks ⊢
  exact fun row mem => lacks row (mem_filter.mp mem).1

theorem deliverEach_full_names {contract : ParameterContract} {supplied : Supplied}
    {revealsSecret : Bool} {renderBytes : Nat} {delivered : Delivered}
    (run : deliverEach server contract supplied .full revealsSecret entries renderBytes =
      .ok delivered) :
    delivered.manifest.map (fun row => (row.key, row.classification)) =
      entries.map fun entry => (entry.keyName, entry.classification) := by
  induction entries generalizing renderBytes delivered with
  | nil =>
    cases run
    rfl
  | cons _ _ ih =>
    obtain ⟨_, _, _, name, class_, -, later, rfl⟩ := deliverEach_cons (by simp [delivers]) run
    rw [map_cons, map_cons, name, class_, ih later]

theorem editEntries_fillSecrets (snapshot : Snapshot) :
    editEntries (fillSecrets plaintext) (editEntries (fillSecrets plaintext) snapshot) =
      editEntries (fillSecrets plaintext) snapshot :=
  congrArg (fun entries => { snapshot with entries := entries })
    (fillSecrets_fillSecrets snapshot.entries)

section Fetch
variable {call : FetchCall} {authority : Authority}

section
variable (recast : Recast plaintext a b)
include recast

theorem Recast.sameUpTo (env : EnvID) (authority : Authority) :
    SameUpTo (fillSecrets plaintext) env ⟨a, authority⟩ ⟨b, authority⟩ where
  authority := rfl
  directory := recast.directory.symm
  environment := (recast.environment? env).symm
  snapshots := by
    have idempotent : editEntries (fillSecrets plaintext) ∘ editEntries (fillSecrets plaintext) =
        editEntries (fillSecrets plaintext) := funext editEntries_fillSecrets
    rw [recast.snapshots, filter_map, map_map, idempotent]
    rfl

theorem Recast.selected {selected selected' : Selected}
    (selects : selectSnapshot (call.at_ ⟨a, authority⟩) = .ok selected)
    (selects' : selectSnapshot (call.at_ ⟨b, authority⟩) = .ok selected') :
    selected' = selected.edit (fillSecrets plaintext) := by
  have alike := (recast.sameUpTo call.env authority).select
  rw [selects, selects'] at alike
  have edited : selected.edit (fillSecrets plaintext) = selected'.edit (fillSecrets plaintext) :=
    Except.ok.inj alike
  have stored : selected'.snapshot ∈ b.snapshots := (selectSnapshot_eq_ok selects').1
  rw [recast.snapshots] at stored
  obtain ⟨_, -, filled⟩ := mem_map.mp stored
  have settled : selected'.edit (fillSecrets plaintext) = selected' := by
    rw [Selected.edit, ← filled, editEntries_fillSecrets, filled]
  rw [edited, settled]

theorem Recast.delivered (blind : (call.at_ ⟨a, authority⟩).Blind) {mode mode' : Mode}
    {selected selected' : Selected} {delivered delivered' : Delivered} {prepared' : Prepared}
    (full : mode = .full) (live : liveEntries selected.snapshot = .ok entries)
    (by_ : PreparedBy server (call.at_ ⟨a, authority⟩) mode selected delivered prepared)
    (by' : PreparedBy server (call.at_ ⟨b, authority⟩) mode' selected' delivered' prepared') :
    mode' = .full ∧ delivered'.manifest = fillRows plaintext entries delivered.manifest := by
  have full' : mode' = .full := by
    have normal : normalizeMode call.options.projection = .ok mode := by_.normalizes
    have normal' : normalizeMode call.options.projection = .ok mode' := by'.normalizes
    rw [← full]
    exact (Except.ok.inj (normal.symm.trans normal')).symm
  have withholds := FetchCall.Blind.withholds blind
  have withholds' := withholds.of_same (recast.sameUpTo call.env authority)
  obtain ⟨live', contract', loads', parameters', renders'⟩ := deliveryRows_eq_ok by'.renders
  obtain ⟨again, contract, loads, parameters, renders⟩ := deliveryRows_eq_ok by_.renders
  obtain rfl := recast.selected by_.selects by'.selects
  obtain rfl : entries = again := Except.ok.inj (live.symm.trans loads)
  have commuted : liveEntries (editEntries (fillSecrets plaintext) selected.snapshot) = .ok live' :=
    loads'
  rw [fillSecrets_keepsOrder.liveEntries, live] at commuted
  obtain rfl : fillSecrets plaintext entries = live' := Except.ok.inj commuted
  obtain rfl : contract = contract' := Except.ok.inj (parameters.symm.trans parameters')
  rw [withholds selected by_.selects, full] at renders
  rw [withholds' _ by'.selects, full', fillSecrets,
    fillEntry_edits.deliverEach entries 0 (Nat.zero_le _)] at renders'
  have same : deliverEach server contract (call.at_ ⟨b, authority⟩).options.parameters .full
      false entries 0 =
    .ok delivered := renders
  rw [same] at renders'
  rw [fillRows_eq]
  exact ⟨full', congrArg Delivered.manifest (Except.ok.inj renders').symm⟩

theorem Recast.prepare_isOk
    (blind : (call.at_ ⟨a, authority⟩).Blind)
    (full : normalizeMode call.options.projection = .ok .full) :
    (prepare server (call.at_ ⟨a, authority⟩)).isOk =
    (prepare server (call.at_ ⟨b, authority⟩)).isOk :=
  isOk_eq_of_map_eq (fillEntry_edits.withheld_keys (recast.sameUpTo call.env authority) full
    blind.withholds)

end

def fetchSight (call : FetchCall) (entries : List SnapshotEntry) (rows : List Row)
    (cursor : Option Cursor) : Sight :=
  ⟨call.env, call.options.parameters, entries, rows, cursor⟩

theorem PreparedBy.sight_of {selected : Selected} {delivered : Delivered}
    (by_ : PreparedBy server (call.at_ ⟨a, authority⟩) .full selected delivered prepared)
    (live : liveEntries selected.snapshot = .ok entries) (cursor : Option Cursor) :
    (fetchSight call entries delivered.manifest cursor).Of a := by
  obtain ⟨again, _, loads, _, renders⟩ := deliveryRows_eq_ok by_.renders
  obtain rfl : entries = again := Except.ok.inj (live.symm.trans loads)
  obtain ⟨-, sorts⟩ := liveEntries_eq_ok live
  obtain ⟨stored, named, -⟩ := selectSnapshot_eq_ok by_.selects
  refine ⟨⟨deliverEach_full_names renders, ?_⟩, selected.snapshot, stored, named, ?_⟩
  · rw [fetchSight, sorts]
    exact sorted_by_name selected.snapshot.entries
  · rw [fetchSight, sorts]
    exact perm_insertionSort _ _

theorem fetch_shows (blind : (call.at_ ⟨a, authority⟩).Blind)
    (full : normalizeMode call.options.projection = .ok .full) : (Shows server a fun db =>
      (prepare server (call.at_ ⟨db, authority⟩)).toOption.map Prepared.changeToken) ∧
    Shows server a fun db => (prepare server (call.at_ ⟨db, authority⟩)).toOption.map
      Prepared.cursor := by
  have alike {plaintext : EntryID → String} {b : ProjectDB} (recast : Recast plaintext a b) :
      (prepare server (call.at_ ⟨a, authority⟩)).isOk =
      (prepare server (call.at_ ⟨b, authority⟩)).isOk :=
    recast.prepare_isOk blind full
  cases prepares : prepare server (call.at_ ⟨a, authority⟩) with
  | error =>
    have fails {plaintext : EntryID → String} {b : ProjectDB} (recast : Recast plaintext a b) :
        (prepare server (call.at_ ⟨b, authority⟩)).toOption = none := by
      have outcome := alike recast
      rw [prepares] at outcome
      revert outcome
      cases prepare server (call.at_ ⟨b, authority⟩) with
      | error => exact fun _ => rfl
      | ok => exact nofun
    exact ⟨.refused fun _ _ recast => by rw [fails recast]; rfl,
      .refused fun _ _ recast => by rw [fails recast]; rfl⟩
  | ok =>
    obtain ⟨mode, selected, delivered, by_⟩ := prepare_eq_ok prepares
    obtain rfl : mode = .full := (Except.ok.inj (full.symm.trans by_.normalizes)).symm
    obtain ⟨entries, -, live, -⟩ := deliveryRows_eq_ok by_.renders
    let tuple := cursorFor (call.at_ ⟨a, authority⟩) selected .full ""
    have shown {plaintext : EntryID → String} {b : ProjectDB} (recast : Recast plaintext a b) :
        ∃ prepared', prepare server (call.at_ ⟨b, authority⟩) = .ok prepared' ∧
          prepared'.changeToken = (fetchSight call entries delivered.manifest none).text
            server.hash plaintext ∧
          prepared'.cursor = (fetchSight call entries delivered.manifest (some tuple)).text
            server.hash plaintext := by
      have outcome := alike recast
      rw [prepares] at outcome
      cases prepares' : prepare server (call.at_ ⟨b, authority⟩) with
      | error =>
        rw [prepares'] at outcome
        cases outcome
      | ok prepared' =>
        obtain ⟨_, _, _, by'⟩ := prepare_eq_ok prepares'
        obtain ⟨rfl, rows⟩ := recast.delivered blind rfl live by_ by'
        obtain rfl := recast.selected by_.selects by'.selects
        have token : prepared'.changeToken =
            (fetchSight call entries delivered.manifest none).text server.hash plaintext := by
          rw [by'.changeToken, rows]
          rfl
        refine ⟨prepared', rfl, token, ?_⟩
        rw [by'.cursor, ← (recast.sameUpTo call.env authority).cursorFor_eq, token]
        rfl
    refine ⟨.sight _ (by_.sight_of live none) fun plaintext b recast => ?_,
      .sight _ (by_.sight_of live (some tuple)) fun plaintext b recast => ?_⟩
    · obtain ⟨prepared', prepares', token, -⟩ := shown recast
      rw [prepares', ← token]
      rfl
    obtain ⟨_, prepares', -, cursor⟩ := shown recast
    rw [prepares', ← cursor]
    rfl

end Fetch

end Looks

structure Observer where
  caller : PrincipalID
  authority : Nat → Authority

def answersAt (server : Server) (history : List Action) (moment : Nat) :
    List PublishedEnvironment :=
  match history[moment]? with
  | none => []
  | some action =>
    match perform server (run server (history.take moment)) action with
    | .error _ => []
    | .ok (_, response) => response.environments

structure FetchRequest where
  env : EnvID
  parameters : Supplied
  acknowledgedKeys : List String
  presented : String
  now : Time

inductive Look
  | answer (position : Nat)
  | detail (env : EnvID) (revision : Int)
  | token (request : FetchRequest)
  | cursor (request : FetchRequest)

section Observe
variable (server : Server) (observer : Observer)

def Observer.fetch (request : FetchRequest) (moment : Nat) (db : ProjectDB) : FetchCall where
  state := ⟨db, observer.authority moment⟩
  caller := observer.caller
  env := request.env
  options := ⟨request.parameters, modeText .full, request.acknowledgedKeys⟩
  now := request.now

def observe (history : List Action) (moment : Nat) (look : Look) : Option String :=
  let db := run server (history.take moment)
  match look with
  | .answer position =>
      (answersAt server history moment)[position]?.map PublishedEnvironment.changeToken
  | .detail env revision =>
    (showRevision server db (DeliveryState.grantRowsForPrincipal ⟨db, observer.authority moment⟩
      observer.caller) env revision).toOption.map RevisionDetail.changeToken
  | .token request =>
    (fetchAs server (observer.fetch request moment db) request.presented).toOption.map
      FetchResult.changeToken
  | .cursor request =>
    (fetchAs server (observer.fetch request moment db) request.presented).toOption.map
      FetchResult.cursor

end Observe

def Observer.Blind (observer : Observer) : Prop :=
  ∀ moment, ∀ row ∈ (observer.authority moment).grants, row.1 = observer.caller →
    row.2.capability ≠ .reveal ∧ row.2.capability ≠ .revealHistory

def hideEntry (entry : SnapshotEntry) : SnapshotEntry :=
  if entry.classification = .secret then { entry with value := "" } else entry

def hideSecrets (entries : List SnapshotEntry) : List SnapshotEntry := entries.map hideEntry

/-- Runs that differ only in secret plaintexts. -/
structure Twins (server : Server) (left right : List Action) : Prop where
  length : left.length = right.length
  directory : ∀ n ≤ left.length, (run server (left.take n)).directory =
    (run server (right.take n)).directory
  environments : ∀ n ≤ left.length,
    (run server (left.take n)).environments = (run server (right.take n)).environments
  snapshots : ∀ n ≤ left.length, (run server (left.take n)).snapshots.map
    (editEntries hideSecrets) =
    (run server (right.take n)).snapshots.map (editEntries hideSecrets)
  answers : ∀ n ≤ left.length, (answersAt server left n).map
    (fun published => (published.env, published.revision)) =
    (answersAt server right n).map fun published => (published.env, published.revision)

def outline (snapshot : Snapshot) : List (String × Classification) :=
  snapshot.entries.map fun entry => (entry.keyName, entry.classification)

def KeepsSecrets (snapshots snapshots' : List Snapshot) : Prop :=
  ∀ snapshot ∈ snapshots, ∀ snapshot' ∈ snapshots', snapshot.env = snapshot'.env →
    (outline snapshot).Perm (outline snapshot') → SameSecrets snapshot.entries snapshot'.entries

instance (snapshots snapshots' : List Snapshot) :
    Decidable (KeepsSecrets snapshots snapshots') := by
  unfold KeepsSecrets
  infer_instance

def SecretsWrittenOnce (server : Server) (history : List Action) : Prop :=
  ∀ m ≤ history.length, ∀ n ≤ history.length,
    KeepsSecrets (run server (history.take m)).snapshots (run server (history.take n)).snapshots

section Runs
variable {observer : Observer} {left right : List Action} {history : List Action}

theorem fill_hide (plaintext : EntryID → String) (entry : SnapshotEntry) :
    fillEntry plaintext (hideEntry entry) = fillEntry plaintext entry := by
  unfold hideEntry
  split
  · next secret =>
    rw [fillEntry_secret secret]
    exact fillEntry_secret secret
  · rfl

theorem recast_self {db : ProjectDB}
    (own : ∀ snapshot ∈ db.snapshots, ∀ entry ∈ snapshot.entries, entry.value =
      plaintext entry.valueEntryID) :
    Recast plaintext db db := by
  refine ⟨rfl, rfl, ?_⟩
  have same : ∀ snapshot ∈ db.snapshots, editEntries (fillSecrets plaintext) snapshot =
      id snapshot :=
    fun snapshot stored => congrArg (fun entries => { snapshot with entries := entries })
      (fillSecrets_self (own snapshot stored))
  rw [map_congr_left same, map_id]

theorem recast_twin {a b : ProjectDB} (directory : a.directory = b.directory)
    (environments : a.environments = b.environments)
    (hidden : a.snapshots.map (editEntries hideSecrets) = b.snapshots.map (editEntries hideSecrets))
    (own : ∀ snapshot ∈ b.snapshots, ∀ entry ∈ snapshot.entries, entry.value =
      plaintext entry.valueEntryID) :
    Recast plaintext a b := by
  refine ⟨directory.symm, environments.symm, ?_⟩
  have refill : editEntries (fillSecrets plaintext) ∘ editEntries hideSecrets =
      editEntries (fillSecrets plaintext) := by
    funext snapshot
    refine congrArg (fun entries => { snapshot with entries := entries }) ?_
    change (snapshot.entries.map hideEntry).map (fillEntry plaintext) =
      snapshot.entries.map (fillEntry plaintext)
    rw [map_map]
    exact map_congr_left fun entry _ => fill_hide plaintext entry
  calc b.snapshots
      = b.snapshots.map (editEntries (fillSecrets plaintext)) := (recast_self own).snapshots
    _ = (b.snapshots.map (editEntries hideSecrets)).map (editEntries (fillSecrets plaintext)) := by
        rw [map_map, refill]
    _ = a.snapshots.map (editEntries (fillSecrets plaintext)) := by rw [← hidden, map_map, refill]

theorem take_min (history : List Action) (n : Nat) :
    history.take n = history.take (min n history.length) := by
  rcases Nat.le_total n history.length with within | beyond
  · rw [Nat.min_eq_left within]
  · rw [Nat.min_eq_right beyond, take_of_length_le beyond, take_length]

theorem answersAt_committed {published : PublishedEnvironment}
    (mem : published ∈ answersAt server history moment) :
    moment < history.length ∧ TokenCommitted server
      (run server (history.take (moment + 1))) published := by
  unfold answersAt at mem
  split at mem
  · cases mem
  next action taken =>
  obtain ⟨within, rfl⟩ := List.getElem?_eq_some_iff.mp taken
  refine ⟨within, ?_⟩
  split at mem
  · cases mem
  next after response performs =>
  have reached : run server (history.take (moment + 1)) = after := by
    rw [take_succ_eq_append_getElem within, run, runFrom_append]
    change Lib.next (step server) (run server (history.take moment)) history[moment] = after
    rw [Lib.next, step_eq_some.mpr ⟨response, performs⟩]
    rfl
  rw [reached]
  exact perform_committed (run_wellFormed _) performs published mem

theorem fetchAs_changeToken (call : FetchCall) (presented : String) :
    (fetchAs server call presented).toOption.map FetchResult.changeToken =
      (prepare server call).toOption.map Prepared.changeToken := by
  rw [fetchAs]
  cases prepare server call <;> rfl

theorem fetchAs_cursor (call : FetchCall) (presented : String) :
    (fetchAs server call presented).toOption.map FetchResult.cursor =
      (prepare server call).toOption.map Prepared.cursor := by
  rw [fetchAs]
  cases prepare server call <;> rfl

theorem Observer.fetch_full (observer : Observer) (request : FetchRequest) (moment : Nat) :
    normalizeMode (observer.fetch request moment .empty).options.projection = .ok .full :=
  if_pos (.inr rfl)

theorem Observer.Blind.fetch (blind : observer.Blind) (request : FetchRequest) (moment : Nat)
    (db : ProjectDB) :
    ((observer.fetch request moment .empty).at_ ⟨db, observer.authority moment⟩).Blind := by
  intro capability listed
  rw [holds, any_eq_false]
  intro _ mem
  obtain ⟨granted, stored, rfl⟩ := mem_map.mp mem
  obtain ⟨inTable, mine⟩ := mem_filter.mp stored
  obtain ⟨noReveal, noHistory⟩ := blind moment granted inTable (beq_iff_eq.mp mine)
  have other : granted.2.capability ≠ capability := by
    rcases mem_cons.mp listed with rfl | listed
    · exact noReveal
    · obtain rfl := mem_singleton.mp listed
      exact noHistory
  simp [other]

theorem SecretsWrittenOnce.sights (once : SecretsWrittenOnce server history) {m n : Nat}
    (within : m ≤ history.length) (within' : n ≤ history.length) {sight sight' : Sight}
    (of : sight.Of (run server (history.take m))) (of' : sight'.Of (run server (history.take n)))
    (env : sight.env = sight'.env)
    (names : sight.entries.map (fun entry => (entry.keyName, entry.classification)) =
      sight'.entries.map fun entry => (entry.keyName, entry.classification)) :
    SameSecrets sight.entries sight'.entries := by
  obtain ⟨snapshot, stored, named, perm⟩ := of.snapshot
  obtain ⟨snapshot', stored', named', perm'⟩ := of'.snapshot
  have outlines : (outline snapshot).Perm (outline snapshot') :=
    (perm.map _).symm.trans (names ▸ perm'.map _)
  have same := once m within n within' snapshot stored snapshot' stored'
    (by rw [named, named', env]) outlines
  intro entry mem entry' mem'
  exact same entry (perm.mem_iff.mp mem) entry' (perm'.mem_iff.mp mem')

inductive Observed (server : Server) (observer : Observer) (left right : List Action)
    (plaintext plaintext' : EntryID → String) (moment : Nat) (look : Look) : Prop
  | nothing (none_ : observe server observer left moment look = none)
      (none' : observe server observer right moment look = none)
  | sight (sight : Sight) (n : Nat) (within : n ≤ left.length)
      (of : sight.Of (run server (left.take n)))
      (text : observe server observer left moment look = some (sight.text server.hash plaintext))
      (text' : observe server observer right moment look = some (sight.text server.hash plaintext'))

section Pair
variable {plaintext' : EntryID → String}
  (own : ∀ n, ∀ snapshot ∈ (run server (left.take n)).snapshots, ∀ entry ∈ snapshot.entries,
    entry.value = plaintext entry.valueEntryID)
  (own' : ∀ n, ∀ snapshot ∈ (run server (right.take n)).snapshots, ∀ entry ∈ snapshot.entries,
    entry.value = plaintext' entry.valueEntryID)
include own own'

section
variable (twins : Twins server left right)
include twins

theorem Twins.recast (n : Nat) : Recast plaintext (run server (left.take n))
      (run server (left.take n)) ∧
      Recast plaintext' (run server (left.take n)) (run server (right.take n)) := by
  refine ⟨recast_self (own n), ?_⟩
  have within : min n left.length ≤ left.length := Nat.min_le_right _ _
  rw [take_min left, take_min right, ← twins.length]
  exact recast_twin (twins.directory _ within) (twins.environments _ within)
    (twins.snapshots _ within) (own' _)

theorem Twins.observed_of_shows {look : Look}
    {view : ProjectDB → Option String} (shows : Shows server (run server (left.take moment)) view)
    (looks : ∀ history, observe server observer history moment look =
      view (run server (history.take moment))) :
    Observed server observer left right plaintext plaintext' moment look := by
  obtain ⟨here, there⟩ := twins.recast own own' moment
  cases shows with
  | refused none_ => exact .nothing (by rw [looks, none_ _ _ here]) (by rw [looks, none_ _ _ there])
  | sight sight of text =>
    rw [take_min left] at of
    exact .sight sight _ (Nat.min_le_right _ _) of (by rw [looks, text _ _ here])
      (by rw [looks, text _ _ there])

theorem Twins.observed_answer (moment position : Nat) :
    Observed server observer left right plaintext plaintext' moment (.answer position) := by
  have pairs : ((answersAt server left moment).map fun published =>
      (published.env, published.revision)) =
      (answersAt server right moment).map fun published => (published.env, published.revision) := by
    by_cases within : moment ≤ left.length
    · exact twins.answers moment within
    have none_ : left[moment]? = none := getElem?_eq_none (Nat.le_of_not_le within)
    have none' : right[moment]? = none := getElem?_eq_none (twins.length ▸ Nat.le_of_not_le within)
    rw [answersAt, answersAt, none_, none']
  have reported := congrArg (fun list => list[position]?) pairs
  simp only [getElem?_map] at reported
  cases first : (answersAt server left moment)[position]? with
  | none =>
    rw [first] at reported
    have second := Option.map_eq_none_iff.mp reported.symm
    exact .nothing (by rw [observe, first]; rfl) (by rw [observe, second]; rfl)
  | some =>
    rw [first] at reported
    obtain ⟨_, second, same⟩ := Option.map_eq_some_iff.mp reported.symm
    obtain ⟨within, snapshot, stored, env, revision, token⟩ :=
      answersAt_committed (mem_of_getElem? first)
    obtain ⟨-, _, stored', env', revision', token'⟩ := answersAt_committed (mem_of_getElem? second)
    obtain ⟨_, there⟩ := twins.recast own own' (moment + 1)
    rw [there.snapshots] at stored'
    obtain ⟨old, known, rfl⟩ := mem_map.mp stored'
    -- revisions are numbered, so both answers report the same snapshot
    obtain ⟨pairEnv, pairRevision⟩ := Prod.mk.inj same
    have sameEnv : old.env = snapshot.env := by
      rw [env, ← pairEnv]
      exact env'
    have sameRevision : old.revision = snapshot.revision := by
      rw [revision, ← pairRevision]
      exact revision'
    obtain rfl :=
      (run_numbered (left.take (moment + 1))).snapshot_unique known stored sameEnv sameRevision
    refine .sight (snapshotSight old) (moment + 1) within (snapshotSight_of known) ?_ ?_
    · rw [observe, first, Option.map_some, token, ← snapshotSight_text known,
        fillSecrets_self (own _ _ known)]
    · rw [observe, second, Option.map_some, token', ← snapshotSight_text known]
      rfl

theorem Twins.observed (blind : observer.Blind) (moment : Nat) (look : Look) :
    Observed server observer left right plaintext plaintext' moment look := by
  cases look with
  | answer position => exact twins.observed_answer own own' moment position
  | detail env revision =>
    exact twins.observed_of_shows own own' (detail_shows _
      (DeliveryState.grantRowsForPrincipal ⟨.empty, observer.authority moment⟩ observer.caller) env
      revision)
      fun history => rfl
  | token request =>
    exact twins.observed_of_shows own own'
      (fetch_shows (blind.fetch request moment _) (observer.fetch_full request moment)).1
      fun history => fetchAs_changeToken _ _
  | cursor request =>
    exact twins.observed_of_shows own own'
      (fetch_shows (blind.fetch request moment _) (observer.fetch_full request moment)).2
      fun history => fetchAs_cursor _ _

end

end Pair

/-- Without `reveal`, runs that differ only in secret plaintexts show one pattern, if no secret was
written again between revisions of one outline. -/
theorem tokens_same_pattern (server : Server) (observer : Observer) (left right : List Action)
    (twins : Twins server left right) (blind : observer.Blind)
    (once : SecretsWrittenOnce server left) (moment moment' : Nat) (look look' : Look) :
    observe server observer left moment look = observe server observer left moment' look' ↔
      observe server observer right moment look = observe server observer right moment' look' := by
  obtain ⟨plaintext, own⟩ := run_plaintexts server left
  obtain ⟨plaintext', own'⟩ := run_plaintexts server right
  have first : Observed server observer left right plaintext plaintext' moment look :=
    twins.observed own own' blind moment look
  have second : Observed server observer left right plaintext plaintext' moment' look' :=
    twins.observed own own' blind moment' look'
  cases first with
  | nothing none_ none' =>
    cases second with
    | nothing alsoNone alsoNone' => rw [none_, none', alsoNone, alsoNone']
    | sight _ _ _ _ text text' =>
      rw [none_, none', text, text']
      exact ⟨nofun, nofun⟩
  | sight sight _ within of text text' =>
    cases second with
    | nothing none_ none' =>
      rw [none_, none', text, text']
      exact ⟨nofun, nofun⟩
    | sight _ _ within' of' also also' =>
      rw [text, text', also, also', Option.some_inj, Option.some_inj]
      have secrets := once.sights within within' of of'
      exact ⟨Sight.text_eq_of_eq of.toAligned of'.toAligned secrets plaintext',
        Sight.text_eq_of_eq of.toAligned of'.toAligned secrets plaintext⟩

end Runs

def reader : Observer := ⟨9, fun _ => ⟨[(9, ⟨.read, none⟩)], none, [], []⟩⟩

theorem reader_blind : reader.Blind := by
  intro _ _ mem _
  obtain rfl := mem_singleton.mp mem
  exact ⟨by decide, by decide⟩

def readerRequest : FetchRequest := ⟨1, [], [], "", 0⟩

theorem twins_of_decide {left right : List Action}
      (same : (left.length = right.length ∧ ∀ n ≤ left.length,
      (run .lenient (left.take n)).directory = (run .lenient (right.take n)).directory ∧
      (run .lenient (left.take n)).environments = (run .lenient (right.take n)).environments ∧
      (run .lenient (left.take n)).snapshots.map (editEntries hideSecrets) =
        (run .lenient (right.take n)).snapshots.map (editEntries hideSecrets) ∧
      (answersAt .lenient left n).map (fun published => (published.env, published.revision)) =
        (answersAt .lenient right n).map fun published => (published.env, published.revision))) :
    Twins .lenient left right :=
  ⟨same.1, fun n within => (same.2 n within).1, fun n within => (same.2 n within).2.1,
    fun n within => (same.2 n within).2.2.1, fun n within => (same.2 n within).2.2.2⟩

theorem pairHistory_same_pattern :
    (observe .lenient reader (pairHistory "s") 4 (.token readerRequest)).isSome = true ∧
      (observe .lenient reader (pairHistory "s") 4 (.token readerRequest) =
          observe .lenient reader (pairHistory "s") 5 (.detail 1 4) ↔
        observe .lenient reader (pairHistory "t") 4 (.token readerRequest) =
          observe .lenient reader (pairHistory "t") 5 (.detail 1 4)) :=
  ⟨by decide +kernel, tokens_same_pattern .lenient reader (pairHistory "s") (pairHistory "t")
    (twins_of_decide (by decide +kernel)) reader_blind
    (by unfold SecretsWrittenOnce; decide +kernel) 4 5 _ _⟩

/-- Principal 7 publishes a secret; principal 9, who may not read it, writes a guess
over it. -/
def guessHistory (secret : String) : List Action :=
  [.createEnvironment 7 none,
    .schema 7 (.createKey ⟨"TOKEN", .secret, "string", ⟨.none, .none⟩, none⟩),
    .declare 7 [1] "TOKEN" secret,
    .stage 9 1 "TOKEN" (some "guess"), .publish 9 1 ⟨[4], none, [], none, none⟩ 0]

/-- The token that the guess is answered with equals the token before it exactly
when the guess was right. -/
theorem guessHistory_pattern_differs :
    Twins .lenient (guessHistory "guess") (guessHistory "other") ∧ reader.Blind ∧
      observe .lenient reader (guessHistory "guess") 3 (.token readerRequest) =
        observe .lenient reader (guessHistory "guess") 4 (.answer 0) ∧
      observe .lenient reader (guessHistory "other") 3 (.token readerRequest) ≠
        observe .lenient reader (guessHistory "other") 4 (.answer 0) ∧
      (observe .lenient reader (guessHistory "guess") 3 (.token readerRequest)).isSome = true :=
  ⟨twins_of_decide (by decide +kernel), reader_blind, by decide +kernel, by decide +kernel,
    by decide +kernel⟩

end Hikyo.Delivery
