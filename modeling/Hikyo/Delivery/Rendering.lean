import Hikyo.Delivery.Fetch

/-!
# What token and cursor determine

What a fetch that succeeds has done, said once (`prepare_eq_ok`, `deliverEach_rows`,
`selectSnapshot_eq_ok`), and what its tokens determine: under a collision-free hash a change token
names the rendered rows, and a cursor moreover the mode, the projection and the authority it was
computed for (`encodeCursor_inj`).
-/

namespace Hikyo.Delivery

open Hikyo.Lib Hikyo.Project List

variable {delivered : Delivered} {mode : Mode} {selected : Selected} {server : Server}
  {snapshot : Snapshot} {entry : SnapshotEntry} {presented : String} {supplied : Supplied}

theorem modeText_inj {a b : Mode} (same : modeText a = modeText b) : a = b := by
  cases a <;> cases b <;> first | rfl | exact absurd same (by decide)

structure SameTuple (a b : Cursor) : Prop where
  changeToken : a.changeToken = b.changeToken
  projection : ∀ atom, atom ∈ a.projection ↔ atom ∈ b.projection
  authorizationRevision : a.authorizationRevision = b.authorizationRevision
  pinGeneration : a.pinGeneration = b.pinGeneration
  mode : a.mode = b.mode
  pinnedHistoricalRevision : a.pinnedHistoricalRevision = b.pinnedHistoricalRevision

/-- A tuple as `EncodeCursor` takes it: the mode may be empty, the counters are signed. -/
structure CursorTuple where
  changeToken : String
  projection : List String
  authorizationRevision : Int
  pinGeneration : Int
  mode : String
  pinnedHistoricalRevision : Int

/-- `NormalizeMode`: the empty mode is `full`. -/
def CursorTuple.normalMode (tuple : CursorTuple) : String :=
  if tuple.mode = "" then "full" else tuple.mode

def encodeTuple (tuple : CursorTuple) : List UInt8 :=
  field cursorVersion ++ (field tuple.changeToken ++ (field tuple.normalMode ++
    (counted field (compact (tuple.projection.insertionSort (· ≤ ·))) ++
      (varint tuple.authorizationRevision ++ (varint tuple.pinGeneration ++
        varint tuple.pinnedHistoricalRevision)))))

theorem encodeTuple_inj {a b : CursorTuple} (same : encodeTuple a = encodeTuple b) :
    a.changeToken = b.changeToken ∧ a.normalMode = b.normalMode ∧
      (∀ atom, atom ∈ a.projection ↔ atom ∈ b.projection) ∧
      a.authorizationRevision = b.authorizationRevision ∧ a.pinGeneration = b.pinGeneration ∧
      a.pinnedHistoricalRevision = b.pinnedHistoricalRevision := by
  obtain ⟨-, same⟩ := field_append_inj same
  obtain ⟨token, same⟩ := field_append_inj same
  obtain ⟨mode, same⟩ := field_append_inj same
  obtain ⟨projection, same⟩ := counted_append_inj (fun _ _ _ _ h => field_append_inj h) same
  obtain ⟨authorization, same⟩ := varint_append_inj same
  obtain ⟨pin, same⟩ := varint_append_inj same
  refine ⟨token, mode, fun atom => ?_, authorization, pin,
    (varint_append_inj (congrArg (· ++ []) same)).1⟩
  have members (l : List String) : atom ∈ compact (l.insertionSort (· ≤ ·)) ↔ atom ∈ l := by
    rw [mem_compact, mem_insertionSort]
  rw [← members a.projection, projection, members]

def Cursor.tuple (cursor : Cursor) : CursorTuple :=
  ⟨cursor.changeToken, cursor.projection, cursor.authorizationRevision, cursor.pinGeneration,
    modeText cursor.mode, cursor.pinnedHistoricalRevision⟩

theorem encodeCursor_eq (cursor : Cursor) : encodeCursor cursor = encodeTuple cursor.tuple := by
  cases cursor with
  | mk _ _ _ _ mode => cases mode <;> rfl

theorem encodeCursor_inj {a b : Cursor} (same : encodeCursor a = encodeCursor b) :
    SameTuple a b := by
  rw [encodeCursor_eq, encodeCursor_eq] at same
  obtain ⟨token, mode, projection, authorization, pin, pinned⟩ := encodeTuple_inj same
  have normal (cursor : Cursor) : cursor.tuple.normalMode = modeText cursor.mode := by
    cases cursor with
    | mk _ _ _ _ mode => cases mode <;> rfl
  exact ⟨token, projection, Int.ofNat.inj authorization, Int.ofNat.inj pin,
    modeText_inj (by rw [← normal, mode, normal]), Int.ofNat.inj pinned⟩

theorem encodeCursor_token {a b : Cursor} (same : encodeCursor a = encodeCursor b)
    (token : String) :
    encodeCursor { a with changeToken := token } = encodeCursor
      { b with changeToken := token } := by
  unfold encodeCursor at same ⊢
  obtain ⟨-, same⟩ := field_append_inj same
  obtain ⟨-, same⟩ := field_append_inj same
  rw [same]

theorem manifest_ne_parameterized (rows : List Row) (rest : String) (tail : List UInt8) :
    manifest rows ≠ utf8 ("hikyo/parameterized-delivery/v1\x00" ++ rest) ++ tail := by
  intro same
  have starts : utf8 "hikyo/parameterized-delivery/v1\x00" =
      104 :: (utf8 "hikyo/parameterized-delivery/v1\x00").tail := by decide
  have version : field manifestVersion = 2 :: (field manifestVersion).tail := by decide
  exact absurd (cons.inj same).1 (by decide)

theorem parameterizedManifest_eq {rows rows' : List Row} {supplied' : Supplied}
    (same : parameterizedManifest rows supplied = parameterizedManifest rows' supplied') :
    sortRows rows = sortRows rows' ∧ supplied.Perm supplied' ∧ ∀ other other', sortRows other =
      sortRows other' →
      parameterizedManifest other supplied = parameterizedManifest other' supplied' := by
  unfold parameterizedManifest at same ⊢
  have plain (s : Supplied) : 0 ∉ utf8 (String.ofList (jsonMap s)) :=
    utf8_ofList_plain fun _ member => jsonMap_plain member
  have zero : utf8 "\x00" = [0] := by decide
  have encoded {other other' : List Row} (sorted : sortRows other = sortRows other') :
      manifest other = manifest other' := by
    rw [manifest, manifest, sorted]
  by_cases none : supplied = []
  · by_cases none' : supplied' = []
    · rw [if_pos none, if_pos none'] at same
      refine ⟨(manifest_append_inj (congrArg (· ++ []) same)).1, none ▸ none' ▸ .nil,
        fun other other' sorted => ?_⟩
      rw [if_pos none, if_pos none', encoded sorted]
    · rw [if_pos none, if_neg none', String.append_assoc] at same
      exact absurd same (manifest_ne_parameterized _ _ _)
  by_cases none' : supplied' = []
  · rw [if_neg none, if_pos none', String.append_assoc] at same
    exact absurd same.symm (manifest_ne_parameterized _ _ _)
  rw [if_neg none, if_neg none', utf8_append, utf8_append, utf8_append, utf8_append, zero] at same
  simp only [append_assoc] at same
  -- the JSON text ends at the first zero byte, the manifest ends itself
  have rest := append_cancel_left same
  obtain ⟨texts, tails⟩ := terminated_append_inj (plain supplied) (plain supplied') rest
  refine ⟨(manifest_append_inj tails).1,
    jsonMap_perm none none' (String.ofList_injective (utf8_inj texts)),
    fun other other' sorted => ?_⟩
  rw [if_neg none, if_neg none', utf8_append, utf8_append, utf8_append, utf8_append, texts,
    encoded sorted]

def delivers (mode : Mode) (entry : SnapshotEntry) : Bool :=
  !(entry.classification == .secret && mode == .configOnly)

def keyOf (revealsSecret : Bool) (id : KeyID) (row : Row) : DeliveredKey :=
  ⟨id, row.key, row.classification, .set, if crosses revealsSecret row.classification then
    some row.value else none⟩

section Rows
variable {contract : ParameterContract} {revealsSecret : Bool} {entries : List SnapshotEntry}
  {renderBytes : Nat}

theorem deliverEach_skip (skipped : delivers mode entry = false) :
    deliverEach server contract supplied mode revealsSecret (entry :: entries) renderBytes =
      deliverEach server contract supplied mode revealsSecret entries renderBytes := by
  rw [deliverEach, if_pos (by simpa [delivers] using skipped)]

theorem deliverEach_cons (kept : delivers mode entry = true)
    (run : deliverEach server contract supplied mode revealsSecret (entry :: entries) renderBytes =
      .ok delivered) :
    ∃ row total more, row.key = entry.keyName ∧ row.classification = entry.classification ∧
      resolveConfig server contract supplied entry.keyName entry.classification entry.value =
        .ok row.value ∧
      deliverEach server contract supplied mode revealsSecret entries total = .ok more ∧
      delivered = ⟨keyOf revealsSecret entry.keyID row :: more.keys, row :: more.manifest⟩ := by
  have present : ¬ (entry.classification = .secret ∧ mode = .configOnly) := by
    rintro ⟨secret, configOnly⟩
    simp [delivers, secret, configOnly] at kept
  rw [deliverEach, if_neg present, bind_eq_ok] at run
  obtain ⟨resolved, resolves, run⟩ := run
  rw [require_bind_eq_ok, bind_eq_ok] at run
  obtain ⟨-, more, later, run⟩ := run
  cases run
  exact ⟨⟨entry.keyName, entry.classification, resolved⟩, _, more, rfl, rfl, resolves, later, rfl⟩

theorem deliverEach_rows
    (run : deliverEach server contract supplied mode revealsSecret entries renderBytes =
      .ok delivered) :
    delivered.manifest.map Row.key = (entries.filter (delivers mode)).map SnapshotEntry.keyName ∧
      delivered.keys = zipWith (keyOf revealsSecret)
        ((entries.filter (delivers mode)).map SnapshotEntry.keyID) delivered.manifest := by
  induction entries generalizing renderBytes delivered with
  | nil =>
    cases run
    exact ⟨rfl, rfl⟩
  | cons entry _ ih =>
    cases kept : delivers mode entry with
    | false =>
      rw [deliverEach_skip kept] at run
      rw [filter_cons_of_neg (by simp [kept])]
      exact ih run
    | true =>
      obtain ⟨_, _, _, name, -, -, later, rfl⟩ := deliverEach_cons kept run
      obtain ⟨names, keys⟩ := ih later
      rw [filter_cons_of_pos kept]
      simp only [map_cons, zipWith_cons_cons, name, names, keys, and_self]

theorem liveEntries_eq_ok (live : liveEntries snapshot = .ok entries) :
      snapshot.payloadPresent = true ∧
      entries = snapshot.entries.insertionSort fun a b => a.keyName ≤ b.keyName := by
  obtain ⟨present, live⟩ := require_bind_eq_ok.mp live
  cases live
  exact ⟨present, rfl⟩

theorem sorted_by_name (entries : List SnapshotEntry) :
    (entries.insertionSort fun a b => a.keyName ≤ b.keyName).Pairwise fun a b =>
    a.keyName ≤ b.keyName := by
  exact pairwise_insertionSort _ _

theorem sortRows_manifest (live : liveEntries snapshot = .ok entries)
    (run : deliverEach server contract supplied mode revealsSecret entries renderBytes =
      .ok delivered) :
    sortRows delivered.manifest = delivered.manifest := by
  have sorted : entries.Pairwise fun a b => a.keyName ≤ b.keyName := by
    rw [(liveEntries_eq_ok live).2]
    exact sorted_by_name snapshot.entries
  have names := (deliverEach_rows run).1
  have keys : (delivered.manifest.map Row.key).Pairwise (· ≤ ·) := by
    rw [names, pairwise_map]
    exact sorted.sublist filter_sublist
  rw [pairwise_map] at keys
  exact keys.insertionSort_eq

end Rows

def editEntries (edit : List SnapshotEntry → List SnapshotEntry) (snapshot : Snapshot) : Snapshot :=
  { snapshot with entries := edit snapshot.entries }

def KeepsOrder (edit : List SnapshotEntry → List SnapshotEntry) : Prop :=
  ∀ entries, (edit entries).insertionSort (fun a b => a.keyName ≤ b.keyName) =
    edit (entries.insertionSort fun a b => a.keyName ≤ b.keyName)

theorem keepsOrder_map {edit : SnapshotEntry → SnapshotEntry}
    (name : ∀ entry, (edit entry).keyName = entry.keyName) :
    KeepsOrder (map edit) := by
  intro _
  rw [map_insertionSort (fun a b : SnapshotEntry => a.keyName ≤ b.keyName) fun a b =>
    a.keyName ≤ b.keyName]
  intro _ _ _ _
  rw [name, name]

theorem KeepsOrder.liveEntries {edit : List SnapshotEntry → List SnapshotEntry}
    (keeps : KeepsOrder edit) (snapshot : Snapshot) :
    liveEntries (editEntries edit snapshot) = edit <$> liveEntries snapshot := by
  unfold Delivery.liveEntries
  rw [show (editEntries edit snapshot).entries = edit snapshot.entries from rfl, keeps]
  by_cases present : snapshot.payloadPresent = true
  · simp [require, editEntries, present]
  · simp [require, editEntries, present, collectedRevisionError]

section Authority
variable {grants : List GrantRow} {env : EnvID}

theorem capabilityText_ne_generation (capability : Capability) (generation : Nat) :
    capabilityText capability ≠ s!"machine-reveal-generation:{generation}" := by
  intro same
  have shorter : (capabilityText capability).length < 26 := by cases capability <;> decide
  have longer : 26 ≤ (s!"machine-reveal-generation:{generation}").length := by
    change 26 ≤ ("machine-reveal-generation:" ++ toString generation).length
    rw [String.length_append]
    have : "machine-reveal-generation:".length = 26 := by decide
    omega
  rw [same] at shorter
  omega

theorem mem_projectionOf {capability : Capability}
    (listed : capability ∈ [Capability.reveal, .revealHistory]) (generation : Nat) :
    capabilityText capability ∈ projectionOf grants env generation ↔
      holds grants capability env = true := by
  have inAll : capability ∈ ([.read, .reveal, .revealHistory] : List Capability) := .tail _ listed
  have text (a b : Capability) (same : capabilityText a = capabilityText b) : a = b := by
    cases a <;> cases b <;> first | rfl | exact absurd same (by decide)
  rw [projectionOf, mem_append, mem_map]
  constructor
  · rintro (⟨_, held, same⟩ | generated)
    · obtain rfl := text _ _ same
      exact (mem_filter.mp held).2
    split at generated
    · exact absurd (mem_singleton.mp generated) (capabilityText_ne_generation _ _)
    · cases generated
  · intro held
    exact .inl ⟨capability, mem_filter.mpr ⟨inAll, held⟩, rfl⟩

end Authority

structure PreparedBy (server : Server) (call : FetchCall) (mode : Mode) (selected : Selected)
    (delivered : Delivered) (prepared : Prepared) : Prop where
  normalizes : normalizeMode call.options.projection = .ok mode
  selects : selectSnapshot call = .ok selected
  renders : deliveryRows server call selected mode = .ok delivered
  keys : prepared.keys = delivered.keys
  changeToken : prepared.changeToken = changeToken server.hash call.env
    (parameterizedManifest delivered.manifest call.options.parameters)
  cursor : prepared.cursor = deliveryCursor server.hash call.env
    (encodeCursor (cursorFor call selected mode prepared.changeToken))

section Prepared
variable {call : FetchCall} {prepared : Prepared}

theorem prepare_eq_ok (run : prepare server call = .ok prepared) :
    ∃ mode selected delivered, PreparedBy server call mode selected delivered prepared := by
  obtain ⟨_, -, run⟩ := bind_eq_ok.mp run
  obtain ⟨mode, normalized, run⟩ := bind_eq_ok.mp run
  obtain ⟨_, -, run⟩ := bind_eq_ok.mp run
  obtain ⟨_, -, run⟩ := bind_eq_ok.mp run
  obtain ⟨selected, selects, run⟩ := bind_eq_ok.mp run
  obtain ⟨delivered, renders, run⟩ := bind_eq_ok.mp run
  cases run
  exact ⟨mode, selected, delivered, normalized, selects, renders, rfl, rfl, rfl⟩

theorem fetchAs_eq_ok {result : FetchResult} (run : fetchAs server call presented = .ok result) :
    ∃ prepared, prepare server call = .ok prepared ∧
      result = prepared.answer presented call.now := by
  obtain ⟨prepared, prepares, run⟩ := bind_eq_ok.mp run
  cases run
  exact ⟨prepared, prepares, rfl⟩

theorem answer_keys {now : Time} (delivered : (prepared.answer presented now).current = false) :
    (prepared.answer presented now).keys = prepared.keys := by
  change (if (prepared.answer presented now).current then [] else prepared.keys) = _
  rw [delivered]
  rfl

theorem deliveryRows_eq_ok (run : deliveryRows server call selected mode = .ok delivered) :
    ∃ entries contract, liveEntries selected.snapshot = .ok entries ∧
      snapshotParameters server selected.snapshot call.options.parameters = .ok contract ∧
      deliverEach server contract call.options.parameters mode
        (holds call.grants (secretCapability selected.pinnedNonCurrent) call.env) entries 0 =
        .ok delivered := by
  obtain ⟨entries, live, run⟩ := bind_eq_ok.mp run
  obtain ⟨contract, parameters, run⟩ := bind_eq_ok.mp run
  exact ⟨entries, contract, live, parameters, run⟩

theorem selectSnapshot_eq_ok (run : selectSnapshot call = .ok selected) :
    selected.snapshot ∈ call.state.project.snapshots ∧ selected.snapshot.env = call.env ∧
      (selected.pinnedNonCurrent = true →
        selected.pinnedRevision = selected.snapshot.revision) := by
  unfold selectSnapshot at run
  split at run
  · next pin located =>
    obtain ⟨-, run⟩ := require_bind_eq_ok.mp run
    unfold pinnedSelection at run
    split at run
    · next snapshot latest found newest =>
      rw [require_bind_eq_ok, require_bind_eq_ok] at run
      obtain ⟨-, -, run⟩ := run
      cases run
      have hit := find?_some found
      simp only [Bool.and_eq_true, beq_iff_eq] at hit
      exact ⟨mem_of_find?_eq_some found, hit.1, fun _ => hit.2.symm⟩
    · cases run
  unfold selectLatest at run
  split at run
  · next snapshot found =>
    cases run
    exact ⟨mem_of_find?_eq_some found, by simpa using find?_some found, nofun⟩
  · cases run

end Prepared

end Hikyo.Delivery
