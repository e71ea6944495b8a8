import Hikyo.Project.Lineage
import Hikyo.Delivery.Rendering

/-!
# Cursors and the keys they stand for

`current_keys_iff_sameBinding`: if a fetch is answered "current" for a cursor that an earlier fetch
of the same principal returned, then the keys it would be sent are those it was sent then, exactly
if every delivered name still stands for the same key.  The key ids are not in the preimage of a
cursor, and a key may be deleted and another one created under its name
(`recreatedHistory_current_other_key`).
-/

namespace Hikyo.Delivery

open Hikyo.Lib Hikyo.Project List

variable {sorted : List SnapshotEntry} {mode : Mode} {prepared : Prepared} {selected : Selected}

def FetchCall.served (call : FetchCall) : List SnapshotEntry :=
  match selectSnapshot call, normalizeMode call.options.projection with
  | .ok selected, .ok mode => selected.snapshot.entries.filter (delivers mode)
  | _, _ => []

/-- No name is delivered for two keys. -/
def SameBinding (issuing later : FetchCall) : Prop :=
  ∀ row ∈ later.served, ∀ row' ∈ issuing.served, row.keyName = row'.keyName → row.keyID = row'.keyID

section Keys
variable {server : Server} {delivered : Delivered} {revealsSecret : Bool}
  {issuing later : FetchCall} {first second : Delivered}

structure KeysOf (call : FetchCall) (delivered : Delivered) (revealsSecret : Bool)
    (sorted : List SnapshotEntry) :
    Prop where
  served : ∀ row, row ∈ sorted ↔ row ∈ call.served
  names : delivered.manifest.map Row.key = sorted.map SnapshotEntry.keyName
  keys : delivered.keys = zipWith (keyOf revealsSecret) (sorted.map SnapshotEntry.keyID)
    delivered.manifest
  ordered : sortRows delivered.manifest = delivered.manifest
  distinct : (sorted.map SnapshotEntry.keyName).Nodup

theorem PreparedBy.keysOf {call : FetchCall} (names : DistinctNames call.state.project)
    (by_ : PreparedBy server call mode selected delivered prepared) :
    ∃ sorted, KeysOf call delivered
      (holds call.grants (secretCapability selected.pinnedNonCurrent) call.env)
      sorted := by
  obtain ⟨entries, _, live, -, renders⟩ := deliveryRows_eq_ok by_.renders
  obtain ⟨-, sorts⟩ := liveEntries_eq_ok live
  obtain ⟨rowNames, keys⟩ := deliverEach_rows renders
  have perm : entries.Perm selected.snapshot.entries := sorts ▸ perm_insertionSort _ _
  refine ⟨entries.filter (delivers mode), fun row => ?_, rowNames, keys,
    sortRows_manifest live renders, ?_⟩
  · rw [FetchCall.served, by_.selects, by_.normalizes]
    exact (perm.filter _).mem_iff
  · refine List.Nodup.sublist (filter_sublist.map _) ?_
    exact ((perm.map _).nodup_iff).mpr (names _ (selectSnapshot_eq_ok by_.selects).1)

theorem zipWith_keyOf_ids {ids : List KeyID} {rows : List Row} (length : ids.length = rows.length) :
    (zipWith (keyOf revealsSecret) ids rows).map DeliveredKey.keyID = ids := by
  rw [map_zipWith]
  change zipWith (fun id _ => id) ids rows = ids
  induction ids generalizing rows with
  | nil => rfl
  | cons _ _ ih =>
    cases rows with
    | nil => cases length
    | cons => rw [List.zipWith_cons_cons, ih (Nat.succ.inj length)]

theorem KeysOf.length {call : FetchCall} (of : KeysOf call delivered revealsSecret sorted) :
    (sorted.map SnapshotEntry.keyID).length = delivered.manifest.length := by
  have lengths := congrArg List.length of.names
  simpa using lengths.symm

theorem KeysOf.keys_eq_iff {sorted' : List SnapshotEntry}
    (of : KeysOf issuing first revealsSecret sorted)
    (of' : KeysOf later second revealsSecret sorted') (rows : second.manifest = first.manifest) :
    second.keys = first.keys ↔ SameBinding issuing later := by
  have sameNames : sorted'.map SnapshotEntry.keyName = sorted.map SnapshotEntry.keyName := by
    rw [← of.names, ← of'.names, rows]
  have sameIDs : second.keys = first.keys ↔
      sorted'.map SnapshotEntry.keyID = sorted.map SnapshotEntry.keyID := by
    constructor
    · intro same
      have ids := congrArg (map DeliveredKey.keyID) same
      rwa [of.keys, of'.keys, zipWith_keyOf_ids of.length, zipWith_keyOf_ids of'.length] at ids
    · intro same
      rw [of.keys, of'.keys, same, rows]
  rw [sameIDs, map_eq_map_iff_of_keys of'.distinct sameNames]
  exact ⟨fun agree row mem row' mem' => agree row ((of'.served row).mpr mem) row'
    ((of.served row').mpr mem'),
    fun agree row mem row' mem' => agree row ((of'.served row).mp mem) row'
    ((of.served row').mp mem')⟩

theorem pinnedNonCurrent_eq {selected' : Selected} {mode' : Mode}
    {token token' : String} (numbered : Numbered issuing.state.project)
    (numbered' : Numbered later.state.project) (selects : selectSnapshot issuing = .ok selected)
    (selects' : selectSnapshot later = .ok selected')
    (same : (cursorFor issuing selected mode token).pinnedHistoricalRevision =
      (cursorFor later selected' mode' token').pinnedHistoricalRevision) :
    selected.pinnedNonCurrent = selected'.pinnedNonCurrent := by
  have positive {call : FetchCall} {chosen : Selected} (isNumbered : Numbered call.state.project)
      (chooses : selectSnapshot call = .ok chosen) (pinned : chosen.pinnedNonCurrent = true) :
      0 < chosen.pinnedRevision := by
    obtain ⟨stored, -, revision⟩ := selectSnapshot_eq_ok chooses
    rw [revision pinned]
    exact (isNumbered.revision_bounds stored).1
  simp only [cursorFor] at same
  cases here : selected.pinnedNonCurrent with
  | false =>
    cases there : selected'.pinnedNonCurrent with
    | false => rfl
    | true =>
      have := positive numbered' selects' there
      simp only [here, there, if_true, Bool.false_eq_true, if_false] at same
      omega
  | true =>
    cases there : selected'.pinnedNonCurrent with
    | true => rfl
    | false =>
      have := positive numbered selects here
      simp only [here, there, if_true, Bool.false_eq_true, if_false] at same
      omega

theorem prepared_of_cursor {mode' : Mode} {selected' : Selected}
    {prepared' : Prepared} (numbered : Numbered issuing.state.project)
    (numbered' : Numbered later.state.project) (names : DistinctNames issuing.state.project)
    (names' : DistinctNames later.state.project)
    (by_ : PreparedBy server issuing mode selected first prepared)
    (by' : PreparedBy server later mode' selected' second prepared')
    (same : prepared.cursor = prepared'.cursor) :
    prepared'.keys = prepared.keys ↔ SameBinding issuing later := by
  rw [by_.cursor, by'.cursor] at same
  obtain ⟨_, sameTuple⟩ := server.hash.collisionFree same
  have tuple := encodeCursor_inj sameTuple
  have rows : second.manifest = first.manifest := by
    have tokens : prepared.changeToken = prepared'.changeToken := tuple.changeToken
    rw [by_.changeToken, by'.changeToken] at tokens
    have sorted := (parameterizedManifest_eq (server.hash.collisionFree tokens).2).1
    obtain ⟨_, of⟩ := by_.keysOf names
    obtain ⟨_, of'⟩ := by'.keysOf names'
    rw [← of.ordered, sorted, of'.ordered]
  have pinned :=
    pinnedNonCurrent_eq numbered numbered' by_.selects by'.selects tuple.pinnedHistoricalRevision
  have authority : holds issuing.grants (secretCapability selected.pinnedNonCurrent) issuing.env =
      holds later.grants (secretCapability selected'.pinnedNonCurrent) later.env := by
    have listed : secretCapability selected.pinnedNonCurrent ∈ [Capability.reveal,
        .revealHistory] := by
      cases selected.pinnedNonCurrent <;> decide
    have atoms := tuple.projection (capabilityText (secretCapability selected.pinnedNonCurrent))
    simp only [cursorFor] at atoms
    rw [mem_projectionOf listed, mem_projectionOf listed, pinned] at atoms
    rw [pinned]
    exact Bool.eq_iff_iff.mpr atoms
  obtain ⟨_, of⟩ := by_.keysOf names
  obtain ⟨_, of'⟩ := by'.keysOf names'
  rw [← authority] at of'
  rw [by_.keys, by'.keys]
  exact of.keys_eq_iff of' rows

/-- What a current cursor stands for would be sent again exactly if every delivered name still means
the same key. -/
theorem current_keys_iff_sameBinding (issuing later : FetchCall) (history history' : List Action)
    (reached : issuing.state.project = run server history)
    (reached' : later.state.project = run server history') (presented : String)
    (issued answer : FetchResult) (sent : fetchAs server issuing presented = .ok issued)
    (delivered : issued.current = false) (asked : fetchAs server later issued.cursor = .ok answer)
    (current : answer.current = true) :
    ∃ full, fetchAs server later "" = .ok full ∧ full.current = false ∧
      (full.keys = issued.keys ↔ SameBinding issuing later) := by
  obtain ⟨prepared, prepares, rfl⟩ := fetchAs_eq_ok sent
  obtain ⟨prepared', prepares', rfl⟩ := fetchAs_eq_ok asked
  refine ⟨prepared'.answer "" later.now, ?_, by simp [Prepared.answer], ?_⟩
  · rw [fetchAs, prepares']
    rfl
  have same : prepared.cursor = prepared'.cursor := (of_decide_eq_true current).2
  have fullKeys : (prepared'.answer "" later.now).keys = prepared'.keys := by simp [Prepared.answer]
  obtain ⟨_, _, _, by_⟩ := prepare_eq_ok prepares
  obtain ⟨_, _, _, by'⟩ := prepare_eq_ok prepares'
  rw [answer_keys delivered, fullKeys]
  have numbered : Numbered issuing.state.project := reached ▸ run_numbered history
  have numbered' : Numbered later.state.project := reached' ▸ run_numbered history'
  have names : DistinctNames issuing.state.project := reached ▸ run_distinctNames history
  have names' : DistinctNames later.state.project := reached' ▸ run_distinctNames history'
  exact prepared_of_cursor numbered numbered' names names' by_ by' same

end Keys

def configHistory : List Action :=
  [.createEnvironment 7 none,
    .schema 7 (.createKey ⟨"DB_URL", .config, "string", ⟨.none, .none⟩, none⟩),
    .declare 7 [1] "DB_URL" "v"]

def readerFetch (db : ProjectDB) : FetchCall where
  state := ⟨db, ⟨[(9, ⟨.read, none⟩)], none, [], []⟩⟩
  caller := 9
  env := 1
  options := ⟨[], "", []⟩
  now := 0

theorem readerFetch_project (db : ProjectDB) : (readerFetch db).state.project = db := rfl

def pollKeyIDs (issuing later : FetchCall) : Option (Bool × Bool × List KeyID × List KeyID) := do
  let issued ← (fetchAs .lenient issuing "").toOption
  let answer ← (fetchAs .lenient later issued.cursor).toOption
  let full ← (fetchAs .lenient later "").toOption
  return (issued.current, answer.current, full.keys.map DeliveredKey.keyID,
    issued.keys.map DeliveredKey.keyID)

def describedHistory : List Action := configHistory ++ [.editMetadata (.key 2)]

theorem describedHistory_current_keys :
    ∃ issued full, fetchAs .lenient (readerFetch (run .lenient configHistory)) "" = .ok issued ∧
      fetchAs .lenient (readerFetch (run .lenient describedHistory)) "" = .ok full ∧
        full.keys = issued.keys := by
  obtain ⟨issued, sent, facts⟩ :
      ∃ issued, fetchAs .lenient (readerFetch (run .lenient configHistory)) "" = .ok issued ∧
      (!issued.current && (fetchAs .lenient (readerFetch (run .lenient describedHistory))
        issued.cursor).toOption.any FetchResult.current) = true :=
    exists_ok_of_any (by decide +kernel)
  obtain ⟨delivered, polled⟩ := Bool.and_eq_true_iff.mp facts
  obtain ⟨answer, asked, current⟩ := exists_ok_of_any polled
  obtain ⟨full, again, -, same⟩ :=
    current_keys_iff_sameBinding (readerFetch (run .lenient configHistory))
    (readerFetch (run .lenient describedHistory)) configHistory describedHistory
    (readerFetch_project _)
    (readerFetch_project _) "" issued answer sent
    (by simpa using delivered) asked current
  exact ⟨issued, full, sent, again, same.mpr (by unfold SameBinding; decide +kernel)⟩

def recreatedHistory : List Action :=
  configHistory ++ [.stage 7 1 "DB_URL" none, .publish 7 1 ⟨[4], none, [], none, none⟩ 0,
    .schema 7 (.deleteKey 2),
    .schema 7 (.createKey ⟨"DB_URL", .config, "string", ⟨.none, .none⟩, none⟩),
    .declare 7 [1] "DB_URL" "v"]

/-- The poll is told "current" while the key behind the name is another one. -/
theorem recreatedHistory_current_other_key :
    pollKeyIDs (readerFetch (run .lenient configHistory))
      (readerFetch (run .lenient recreatedHistory)) =
      some (false, true, [5], [2]) := by
  decide +kernel

end Hikyo.Delivery
