import Hikyo.Project.System
import Hikyo.Delivery.Rendering

/-!
# What a fetch shows of secrets

`fetch_blind_to_secrets`: in two states that differ only in secret entries of an environment,
config-only fetches give the same answer, and full ones of a caller without the capability that the
served revision's secrets need agree on every config key and hold no secret value.  `SameUpTo`
relates the two states by an edit of the entries, and each stage of the fetch is shown to commute
with it.  The capability is `reveal-history`, not `reveal`, for an older pinned revision
(`pinnedHistory_discloses`).
-/

namespace Hikyo.Delivery

open Hikyo.Lib Hikyo.Project

variable {delivered : Delivered} {env : EnvID} {renderBytes : Nat} {contract : ParameterContract}
  {server : Server} {supplied : Supplied}

def isConfig (entry : SnapshotEntry) : Bool := entry.classification == .config

def dropSecrets (entries : List SnapshotEntry) : List SnapshotEntry := entries.filter isConfig

def maskEntry (entry : SnapshotEntry) : SnapshotEntry :=
  if entry.classification = .secret then { entry with value := "", valueEntryID := 0 } else entry

def maskSecrets (entries : List SnapshotEntry) : List SnapshotEntry := entries.map maskEntry

structure SameUpTo (edit : List SnapshotEntry → List SnapshotEntry) (env : EnvID)
    (a b : DeliveryState) :
    Prop where
  authority : a.authority = b.authority
  directory : a.project.directory = b.project.directory
  environment : a.project.environment? env = b.project.environment? env
  snapshots : (a.project.snapshots.filter fun snapshot => snapshot.env == env).map
    (editEntries edit) =
    (b.project.snapshots.filter fun snapshot => snapshot.env == env).map (editEntries edit)

def FetchCall.at_ (call : FetchCall) (state : DeliveryState) : FetchCall :=
  { call with state := state }

def Selected.edit (edit : List SnapshotEntry → List SnapshotEntry) (selected : Selected) :
    Selected :=
  { selected with snapshot := editEntries edit selected.snapshot }

section Select
variable {edit : List SnapshotEntry → List SnapshotEntry} {call : FetchCall} {a b : DeliveryState}

section
variable (same : SameUpTo edit env a b)
include same

theorem SameUpTo.find? (selected : Snapshot → Bool)
    (blind : ∀ snapshot, selected (editEntries edit snapshot) = selected snapshot) :
    (a.project.snapshots.find? fun snapshot => snapshot.env == env && selected snapshot).map
      (editEntries edit) =
      (b.project.snapshots.find? fun snapshot => snapshot.env == env && selected snapshot).map
      (editEntries edit) := by
  have view (snapshots : List Snapshot) :
      (snapshots.find? fun snapshot => snapshot.env == env && selected snapshot).map
      (editEntries edit) =
        ((snapshots.filter fun snapshot => snapshot.env == env).map (editEntries edit)).find?
          selected := by
    rw [List.find?_map, List.find?_filter]
    congr 2
    funext snapshot
    rw [Function.comp_apply, blind]
    simp [beq_eq_decide]
  rw [view, view, same.snapshots]

theorem SameUpTo.latest :
    (a.project.latest env).map (editEntries edit) = (b.project.latest env).map
    (editEntries edit) := by
  have found := same.find? (fun _ => true) fun _ => rfl
  simpa [ProjectDB.latest] using found

theorem SameUpTo.atRevision (revision : Nat) :
      (a.project.atRevision env revision).map (editEntries edit) =
      (b.project.atRevision env revision).map (editEntries edit) :=
  same.find? (fun snapshot => snapshot.revision == revision) fun _ => rfl

theorem SameUpTo.recordedPrincipalHolds (principal : PrincipalID) (operation : Operation) :
    a.recordedPrincipalHolds principal operation env =
      b.recordedPrincipalHolds principal operation env := by
  rw [DeliveryState.recordedPrincipalHolds, DeliveryState.recordedPrincipalHolds, same.environment,
    DeliveryState.grantRowsForPrincipal, DeliveryState.grantRowsForPrincipal, same.authority]

end

theorem editEntries_same {snapshot snapshot' : Snapshot}
    (same : editEntries edit snapshot = editEntries edit snapshot') :
    snapshot.revision = snapshot'.revision ∧ snapshot.payloadPresent =
      snapshot'.payloadPresent := by
  rw [editEntries, editEntries, Snapshot.mk.injEq] at same
  simp only [same, and_self]

theorem pinnedSelection_edit {now : Time} {pin : RevisionPin} {history : Bool}
    {snapshot snapshot' latest latest' : Option Snapshot}
    (same : snapshot.map (editEntries edit) = snapshot'.map (editEntries edit))
    (newest : latest.map (editEntries edit) = latest'.map (editEntries edit)) :
    Selected.edit edit <$> pinnedSelection now pin history snapshot latest =
      Selected.edit edit <$> pinnedSelection now pin history snapshot' latest' := by
  cases snapshot with
  | none =>
    obtain rfl : snapshot' = none := Option.map_eq_none_iff.mp same.symm
    rfl
  | some chosen =>
    obtain ⟨_, rfl, sameChosen⟩ := Option.map_eq_some_iff.mp same.symm
    cases latest with
    | none =>
      obtain rfl : latest' = none := Option.map_eq_none_iff.mp newest.symm
      rfl
    | some last =>
      obtain ⟨_, rfl, sameLast⟩ := Option.map_eq_some_iff.mp newest.symm
      obtain ⟨revision, present⟩ := editEntries_same sameChosen
      obtain ⟨lastRevision, -⟩ := editEntries_same sameLast
      dsimp only [pinnedSelection, collectedRevisionError]
      rw [revision, present, lastRevision]
      by_cases allowed : chosen.revision = last.revision ∨ history = true
      · by_cases live : chosen.payloadPresent = true
        · simp [require, allowed, live, Selected.edit, sameChosen]
        · simp [require, allowed, live]
      · rw [require, if_neg allowed]
        rfl

theorem SameUpTo.select (same : SameUpTo edit call.env a b) :
    Selected.edit edit <$> selectSnapshot (call.at_ a) = Selected.edit edit <$> selectSnapshot
      (call.at_ b) := by
  have pins : a.pinFor call.caller call.env = b.pinFor call.caller call.env :=
    congrArg (fun authority : Authority => authority.pins.find? _) same.authority
  have newest := same.latest
  simp only [selectSnapshot, FetchCall.at_]
  rw [pins]
  cases b.pinFor call.caller call.env with
  | none =>
    revert newest
    cases a.project.latest call.env <;> cases b.project.latest call.env <;> intro newest
    · rfl
    · cases newest
    · cases newest
    · exact congrArg (fun snapshot => Except.ok (Selected.mk snapshot false 0 false))
        (Option.some.inj newest)
  | some pin =>
    dsimp only [selectPinned]
    rw [same.recordedPrincipalHolds, same.recordedPrincipalHolds]
    by_cases held : b.recordedPrincipalHolds pin.authority .pinSet call.env = true
    · rw [require, if_pos held]
      exact pinnedSelection_edit (same.atRevision pin.revision) newest
    · rw [require, if_neg held]
      rfl

end Select

section Rows
theorem dropSecrets_keepsOrder : KeepsOrder dropSecrets := by
  intro _
  exact filter_insertionSort.symm

theorem deliverEach_configOnly {revealsSecret : Bool} (entries : List SnapshotEntry)
    (renderBytes : Nat) :
    deliverEach server contract supplied .configOnly revealsSecret
      (dropSecrets entries) renderBytes =
      deliverEach server contract supplied .configOnly revealsSecret entries renderBytes := by
  induction entries generalizing renderBytes with
  | nil => rfl
  | cons entry rest ih =>
    cases recorded : entry.classification with
    | secret =>
      rw [dropSecrets, List.filter_cons_of_neg (by simp [isConfig, recorded]),
        deliverEach_skip (by simp [delivers, recorded])]
      exact ih renderBytes
    | config =>
      rw [dropSecrets, List.filter_cons_of_pos (by simp [isConfig, recorded])]
      simp only [deliverEach, recorded]
      simp only [show (rest.filter isConfig) = dropSecrets rest from rfl, ih]

section Full
variable {entry : SnapshotEntry} {rest : List SnapshotEntry}

theorem deliverEach_secret (recorded : entry.classification = .secret)
    (within : renderBytes ≤ maxRenderBytesPerTarget) :
    deliverEach server contract supplied .full false (entry :: rest) renderBytes =
      (fun more => ⟨⟨entry.keyID, entry.keyName, .secret, .set, none⟩ :: more.keys,
        ⟨entry.keyName, .secret, entry.value⟩ :: more.manifest⟩) <$>
        deliverEach server contract supplied .full false rest renderBytes := by
  rw [deliverEach, if_neg (by simp), recorded]
  simp [resolveConfig, crosses, require, within]

theorem deliverEach_config (recorded : entry.classification = .config) :
    deliverEach server contract supplied .full false (entry :: rest) renderBytes = (do
      let resolved ← resolveConfig server contract supplied entry.keyName .config entry.value
      require (renderBytes + resolved.utf8ByteSize ≤ maxRenderBytesPerTarget)
        (.invalid "resolved environment exceeds the per-target render limit")
      (fun more => ⟨⟨entry.keyID, entry.keyName, .config, .set, some resolved⟩ :: more.keys,
        ⟨entry.keyName, .config, resolved⟩ :: more.manifest⟩) <$>
        deliverEach server contract supplied .full false rest
          (renderBytes + resolved.utf8ByteSize)) := by
  rw [deliverEach, if_neg (by simp), recorded]
  rfl

end Full

def isConfigKey (key : DeliveredKey) : Bool := key.classification == .config

def configKeys (keys : List DeliveredKey) : List DeliveredKey := keys.filter isConfigKey

theorem deliverEach_dropSecrets (entries : List SnapshotEntry) (renderBytes : Nat)
    (within : renderBytes ≤ maxRenderBytesPerTarget) :
        (fun delivered => configKeys delivered.keys) <$>
        deliverEach server contract supplied .full false (dropSecrets entries) renderBytes =
      (fun delivered => configKeys delivered.keys) <$>
        deliverEach server contract supplied .full false entries renderBytes := by
  induction entries generalizing renderBytes with
  | nil => rfl
  | cons entry _ ih =>
    cases recorded : entry.classification with
    | secret =>
      rw [dropSecrets, List.filter_cons_of_neg (by simp [isConfig, recorded]),
        deliverEach_secret recorded within, Functor.map_map]
      exact ih renderBytes within
    | config =>
      rw [dropSecrets, List.filter_cons_of_pos (by simp [isConfig, recorded])]
      rw [deliverEach_config recorded, deliverEach_config recorded]
      cases resolveConfig server contract supplied entry.keyName .config entry.value with
      | error => rfl
      | ok resolved =>
        by_cases fits : renderBytes + resolved.utf8ByteSize ≤ maxRenderBytesPerTarget
        · have later :=
            congrArg (List.cons ⟨entry.keyID, entry.keyName, .config, .set, some resolved⟩ <$> ·)
              (ih _ fits)
          simp only [Functor.map_map] at later
          simp only [require, ok_bind, if_pos fits, Functor.map_map]
          exact later
        · simp only [require, ok_bind, if_neg fits]
          rfl

/-- The edit leaves config entries alone and the names of the others. -/
structure EditsSecrets (edit : SnapshotEntry → SnapshotEntry) : Prop where
  config : ∀ entry, entry.classification = .config → edit entry = entry
  classification : ∀ entry, (edit entry).classification = entry.classification
  keyID : ∀ entry, (edit entry).keyID = entry.keyID
  keyName : ∀ entry, (edit entry).keyName = entry.keyName

def editRow (edit : SnapshotEntry → SnapshotEntry) (entry : SnapshotEntry) (row : Row) : Row :=
  if entry.classification = .secret then { row with value := (edit entry).value } else row

theorem EditsSecrets.deliverEach {edit : SnapshotEntry → SnapshotEntry} (edits : EditsSecrets edit)
    (entries : List SnapshotEntry) (renderBytes : Nat)
    (within : renderBytes ≤ maxRenderBytesPerTarget) :
    deliverEach server contract supplied .full false (entries.map edit) renderBytes =
      (fun delivered => ⟨delivered.keys,
        List.zipWith (editRow edit) entries delivered.manifest⟩) <$>
        deliverEach server contract supplied .full false entries renderBytes := by
  induction entries generalizing renderBytes with
  | nil => rfl
  | cons entry _ ih =>
    rw [List.map_cons]
    cases recorded : entry.classification with
    | secret =>
      rw [deliverEach_secret ((edits.classification entry).trans recorded) within,
        deliverEach_secret recorded within,
        ih renderBytes within, Functor.map_map, Functor.map_map, edits.keyID, edits.keyName]
      refine congrArg (· <$> _) (funext fun more => ?_)
      simp only [List.zipWith_cons_cons, editRow, recorded, if_true]
    | config =>
      rw [edits.config entry recorded, deliverEach_config recorded, deliverEach_config recorded]
      cases resolveConfig server contract supplied entry.keyName .config entry.value with
      | error => rfl
      | ok resolved =>
        simp only [ok_bind]
        by_cases fits : renderBytes + resolved.utf8ByteSize ≤ maxRenderBytesPerTarget
        · simp only [require, if_pos fits, ok_bind, ih _ fits, Functor.map_map]
          refine congrArg (· <$> _) (funext fun more => ?_)
          simp [editRow, recorded]
        · simp only [require, if_neg fits]
          rfl

theorem maskEntry_edits : EditsSecrets maskEntry where
  config entry config := if_neg (by simp [config])
  classification entry := by unfold maskEntry; split <;> rfl
  keyID entry := by unfold maskEntry; split <;> rfl
  keyName entry := by unfold maskEntry; split <;> rfl

end Rows

section Fetches
variable {call : FetchCall} {mode : Mode} {selected : Selected}

theorem deliveryRows_edit {γ : Type} {view : Delivered → γ}
    {edit : List SnapshotEntry → List SnapshotEntry}
    (keeps : KeepsOrder edit) (blind : ∀ contract entries,
      view <$> deliverEach server contract call.options.parameters mode
          (holds call.grants (secretCapability selected.pinnedNonCurrent) call.env)
          (edit entries) 0 =
        view <$> deliverEach server contract call.options.parameters mode
          (holds call.grants (secretCapability selected.pinnedNonCurrent) call.env) entries 0) :
    view <$> deliveryRows server call (selected.edit edit) mode =
      view <$> deliveryRows server call selected mode := by
  rw [deliveryRows, deliveryRows]
  rw [show (selected.edit edit).snapshot = editEntries edit selected.snapshot from rfl,
    keeps.liveEntries]
  cases liveEntries selected.snapshot with
  | error => rfl
  | ok entries =>
    rw [show snapshotParameters server (editEntries edit selected.snapshot)
      call.options.parameters =
      snapshotParameters server selected.snapshot call.options.parameters from rfl]
    cases snapshotParameters server selected.snapshot call.options.parameters with
    | error => rfl
    | ok contract => exact blind contract entries

section Authority
variable {edit : List SnapshotEntry → List SnapshotEntry} {a b : DeliveryState}

section
variable (same : SameUpTo edit env a b)
include same

theorem SameUpTo.grantRows (principal : PrincipalID) :
    a.grantRowsForPrincipal principal = b.grantRowsForPrincipal principal := by
  rw [DeliveryState.grantRowsForPrincipal, DeliveryState.grantRowsForPrincipal, same.authority]

theorem SameUpTo.machineReveal (caller : PrincipalID) :
    a.machineRevealOptIn caller = b.machineRevealOptIn caller := by
  rw [DeliveryState.machineRevealOptIn, DeliveryState.machineRevealOptIn, same.authority,
    same.directory]

theorem SameUpTo.grants : (call.at_ a).grants = (call.at_ b).grants := by
  dsimp only [FetchCall.grants, FetchCall.at_]
  rw [same.grantRows, same.machineReveal]

theorem SameUpTo.cursorFor_eq : cursorFor (call.at_ a) = cursorFor (call.at_ b) := by
  funext selected mode token
  rw [cursorFor, cursorFor, same.grants]
  dsimp only [FetchCall.at_]
  rw [same.machineReveal, DeliveryState.principalGeneration, DeliveryState.principalGeneration,
    DeliveryState.pinGeneration, DeliveryState.pinGeneration, same.authority, same.directory]

theorem SameUpTo.prepareSelected_eq : prepareSelected server (call.at_ a) = prepareSelected server
    (call.at_ b) := by
  have rows : deliveryRows server (call.at_ a) = deliveryRows server (call.at_ b) := by
    funext selected mode
    rw [deliveryRows, deliveryRows, same.grants]
    rfl
  funext mode selected
  rw [prepareSelected, prepareSelected, rows, same.cursorFor_eq]
  rfl

end

theorem SameUpTo.authorize_eq (same : SameUpTo edit call.env a b) :
    authorize (call.at_ a).state.project
        ((call.at_ a).state.grantRowsForPrincipal (call.at_ a).caller) .deliveryFetch
        (call.at_ a).env =
      authorize (call.at_ b).state.project
        ((call.at_ b).state.grantRowsForPrincipal (call.at_ b).caller)
        .deliveryFetch (call.at_ b).env := by
  dsimp only [FetchCall.at_]
  rw [authorize, authorize, same.grantRows, same.environment]

end Authority

theorem SameUpTo.prepare_view {γ : Type} {view : Prepared → γ}
    {edit : List SnapshotEntry → List SnapshotEntry} {a b : DeliveryState}
    (same : SameUpTo edit call.env a b)
    (normalizes : normalizeMode call.options.projection = .ok mode)
    (blind : ∀ selected, selectSnapshot (call.at_ a) = .ok selected ∨
        selectSnapshot (call.at_ b) = .ok selected →
      view <$> prepareSelected server (call.at_ b) mode (selected.edit edit) =
        view <$> prepareSelected server (call.at_ b) mode selected) :
    view <$> prepare server (call.at_ a) = view <$> prepare server (call.at_ b) := by
  have normal (state : DeliveryState) : normalizeMode (call.at_ state).options.projection =
      .ok mode := normalizes
  simp only [prepare, map_bind, normal, ok_bind, same.authorize_eq, same.prepareSelected_eq]
  refine bind_congr fun _ => bind_congr fun _ => bind_congr fun _ => ?_
  refine bind_eq_bind_of_map_eq same.select fun selected selected' selects selects' alike => ?_
  rw [← blind selected (.inl selects), ← blind selected' (.inr selects'), alike]

theorem prepareSelected_keys {γ : Type} {view : List DeliveredKey → γ} :
    (fun prepared => view prepared.keys) <$> prepareSelected server call mode selected =
      (fun delivered => view delivered.keys) <$> deliveryRows server call selected mode := by
  rw [prepareSelected, map_bind]
  cases deliveryRows server call selected mode <;> rfl

theorem prepareSelected_configOnly :
      prepareSelected server call .configOnly (selected.edit dropSecrets) =
      prepareSelected server call .configOnly selected := by
  have rows : id <$> deliveryRows server call (selected.edit dropSecrets) .configOnly =
      id <$> deliveryRows server call selected .configOnly :=
    deliveryRows_edit dropSecrets_keepsOrder fun contract entries =>
      congrArg (id <$> ·) (deliverEach_configOnly entries 0)
  rw [id_map, id_map] at rows
  rw [prepareSelected, prepareSelected, rows]
  rfl

/-- The caller lacks the capability that the served revision's secrets need. -/
def Withholds (call : FetchCall) : Prop :=
  ∀ selected, selectSnapshot call = .ok selected →
    holds call.grants (secretCapability selected.pinnedNonCurrent) call.env = false

section Withholds
variable {edit : List SnapshotEntry → List SnapshotEntry} {a b : DeliveryState}

theorem Withholds.of_same (withholds : Withholds (call.at_ a)) (same : SameUpTo edit call.env a b) :
    Withholds (call.at_ b) := by
  intro selected' selects'
  have alike := same.select
  rw [selects'] at alike
  obtain ⟨selected, selects, edited⟩ := map_eq_ok.mp alike
  rw [Selected.edit, Selected.edit, Selected.mk.injEq] at edited
  have standing : selected.pinnedNonCurrent = selected'.pinnedNonCurrent := edited.2.1
  rw [← standing, ← same.grants]
  exact withholds selected selects

theorem SameUpTo.withheld_keys {γ : Type} {view : List DeliveredKey → γ}
    (same : SameUpTo edit call.env a b)
    (keeps : KeepsOrder edit)
    (blind : ∀ contract entries, (fun delivered => view delivered.keys) <$>
          deliverEach server contract call.options.parameters .full false (edit entries) 0 =
        (fun delivered => view delivered.keys) <$>
          deliverEach server contract call.options.parameters .full false entries 0)
    (normalizes : normalizeMode call.options.projection = .ok .full)
    (withholds : Withholds (call.at_ a)) :
    (fun prepared => view prepared.keys) <$> prepare server (call.at_ a) =
      (fun prepared => view prepared.keys) <$> prepare server (call.at_ b) := by
  refine same.prepare_view normalizes fun selected selects => ?_
  have lacks : holds (call.at_ b).grants (secretCapability selected.pinnedNonCurrent)
      (call.at_ b).env = false := by
    rcases selects with selects | selects
    · rw [← same.grants]
      exact withholds selected selects
    · exact withholds.of_same same selected selects
  rw [prepareSelected_keys, prepareSelected_keys]
  refine deliveryRows_edit keeps fun contract entries => ?_
  rw [lacks]
  exact blind contract entries

theorem EditsSecrets.withheld_keys {edit : SnapshotEntry → SnapshotEntry}
    (edits : EditsSecrets edit) (same : SameUpTo (List.map edit) call.env a b)
    (full : normalizeMode call.options.projection = .ok .full)
    (withholds : Withholds (call.at_ a)) :
    Prepared.keys <$> prepare server (call.at_ a) = Prepared.keys <$> prepare server
      (call.at_ b) := by
  refine @SameUpTo.withheld_keys server call _ a b _ id same (keepsOrder_map edits.keyName)
    (fun contract entries => ?_) full withholds
  rw [edits.deliverEach entries 0 (Nat.zero_le _), Functor.map_map]

end Withholds

theorem deliverEach_withheld {entries : List SnapshotEntry}
    (run : deliverEach server contract supplied mode false entries renderBytes = .ok delivered)
    (key : DeliveredKey) (mem : key ∈ delivered.keys) (secret : key.classification = .secret) :
    key.value = none := by
  induction entries generalizing renderBytes delivered with
  | nil =>
    cases run
    cases mem
  | cons entry _ ih =>
    cases kept : delivers mode entry with
    | false => exact ih (deliverEach_skip kept ▸ run) mem
    | true =>
      obtain ⟨row, _, _, -, -, -, later, rfl⟩ := deliverEach_cons kept run
      rcases List.mem_cons.mp mem with rfl | mem
      · simp [keyOf, crosses, show row.classification = .secret from secret]
      · exact ih later mem

theorem PreparedBy.withheld {prepared : Prepared}
    (by_ : PreparedBy server call mode selected delivered prepared) (withholds : Withholds call)
    (key : DeliveredKey) (mem : key ∈ prepared.keys) (secret : key.classification = .secret) :
    key.value = none := by
  obtain ⟨_, _, -, -, each⟩ := deliveryRows_eq_ok by_.renders
  rw [withholds selected by_.selects] at each
  exact deliverEach_withheld each key (by_.keys ▸ mem) secret

/-- What two full answers show a caller from whom secrets are withheld. -/
structure ShownAlike (edited : Prop) (answer answer' : FetchResult) : Prop where
  config : configKeys answer.keys = configKeys answer'.keys
  withheld : ∀ key ∈ answer.keys ++ answer'.keys, key.classification = .secret → key.value = none
  same : edited → answer.keys = answer'.keys

/-- Two states that differ only in secret entries: config-only fetches are alike, and full ones
agree on config and hold no secret value for a caller without the capability. -/
theorem fetch_blind_to_secrets (server : Server) (call : FetchCall) (a b : DeliveryState)
    (same : SameUpTo dropSecrets call.env a b) :
    (normalizeMode call.options.projection = .ok .configOnly →
      ∀ presented, fetchAs server (call.at_ a) presented = fetchAs server (call.at_ b) presented) ∧
    (normalizeMode call.options.projection = .ok .full → Withholds (call.at_ a) →
      ∀ presented presented',
        (fetchAs server (call.at_ a) presented).isOk =
        (fetchAs server (call.at_ b) presented').isOk ∧
        ∀ answer answer', fetchAs server (call.at_ a) presented = .ok answer →
          fetchAs server (call.at_ b) presented' = .ok answer' → answer.current = false →
            answer'.current = false →
          ShownAlike (SameUpTo maskSecrets call.env a b) answer answer') := by
  constructor
  · intro configOnly presented
    have prepared : id <$> prepare server (call.at_ a) = id <$> prepare server (call.at_ b) :=
      same.prepare_view configOnly fun selected _ => congrArg (id <$> ·) prepareSelected_configOnly
    rw [id_map, id_map] at prepared
    rw [fetchAs, fetchAs, prepared]
    rfl
  · intro full withholds _ _
    have config : (fun prepared => configKeys prepared.keys) <$> prepare server (call.at_ a) =
        (fun prepared => configKeys prepared.keys) <$> prepare server (call.at_ b) :=
      same.withheld_keys dropSecrets_keepsOrder
        (fun contract entries => deliverEach_dropSecrets entries 0 (Nat.zero_le _)) full withholds
    constructor
    · have outcome := isOk_eq_of_map_eq config
      rw [fetchAs, fetchAs]
      revert outcome
      cases prepare server (call.at_ a) <;> cases prepare server (call.at_ b) <;> exact id
    · intro _ _ sent sent' delivered delivered'
      obtain ⟨_, prepares, rfl⟩ := fetchAs_eq_ok sent
      obtain ⟨_, prepares', rfl⟩ := fetchAs_eq_ok sent'
      obtain ⟨_, _, _, by_⟩ := prepare_eq_ok prepares
      obtain ⟨_, _, _, by'⟩ := prepare_eq_ok prepares'
      rw [prepares, prepares'] at config
      refine ⟨?_, ?_, ?_⟩
      · rw [answer_keys delivered, answer_keys delivered']
        exact Except.ok.inj config
      · rw [answer_keys delivered, answer_keys delivered']
        intro key mem secret
        rcases List.mem_append.mp mem with mem | mem
        · exact by_.withheld withholds key mem secret
        · exact by'.withheld (withholds.of_same same) key mem secret
      · intro masked
        have keys :=
          @EditsSecrets.withheld_keys server _ _ _ _ maskEntry_edits masked full withholds
        rw [prepares, prepares'] at keys
        rw [answer_keys delivered, answer_keys delivered']
        exact Except.ok.inj keys

end Fetches

def pairHistory (plaintext : String) : List Action :=
  [.createEnvironment 7 none,
    .schema 7 (.createKey ⟨"TOKEN", .secret, "string", ⟨.none, .none⟩, none⟩),
    .schema 7 (.createKey ⟨"DB_URL", .config, "string", ⟨.none, .none⟩, none⟩),
    .declare 7 [1] "TOKEN" plaintext, .declare 7 [1] "DB_URL" "v"]

/-- Principal 9 holds `read` and what else is given, principal 8 what a pin to an
older revision needs. -/
def pairState (plaintext : String) (held : List Capability) (pins : List RevisionPin) :
    DeliveryState where
  project := run .lenient (pairHistory plaintext)
  authority :=
    { grants := (Capability.read :: held).map (fun capability => (9, ⟨capability, none⟩)) ++
        [Capability.pin, .publish, .revealHistory].map fun capability => (8, ⟨capability, none⟩)
      machineReveal := none
      pins := pins
      pinGenerations := [] }

def pairFetch (projection : String) : FetchCall where
  state := pairState "" [] []
  caller := 9
  env := 1
  options := ⟨[], projection, []⟩
  now := 0

theorem pairState_same (edit : List SnapshotEntry → List SnapshotEntry) (held : List Capability)
    (pins : List RevisionPin) (snapshots : (run .lenient (pairHistory "s")).snapshots.map
      (editEntries edit) = (run .lenient (pairHistory "t")).snapshots.map (editEntries edit)) :
    SameUpTo edit 1 (pairState "s" held pins) (pairState "t" held pins) where
  authority := rfl
  directory := by
    show (run .lenient (pairHistory "s")).directory = (run .lenient (pairHistory "t")).directory
    decide +kernel
  environment := by
    show (run .lenient (pairHistory "s")).environment? 1 =
      (run .lenient (pairHistory "t")).environment? 1
    decide +kernel
  snapshots := by
    have all (plaintext : String) (mem : plaintext ∈ ["s", "t"]) :
        (run .lenient (pairHistory plaintext)).snapshots.filter
        (fun snapshot => snapshot.env == 1) =
          (run .lenient (pairHistory plaintext)).snapshots := by
      revert plaintext
      decide +kernel
    show ((run .lenient (pairHistory "s")).snapshots.filter fun snapshot => snapshot.env == 1).map
      _ =
      ((run .lenient (pairHistory "t")).snapshots.filter fun snapshot => snapshot.env == 1).map _
    rw [all "s" (by decide), all "t" (by decide)]
    exact snapshots

theorem pairFetch_blind :
    (∃ answer, fetchAs .lenient ((pairFetch "config-only").at_ (pairState "s" [] [])) "" =
      .ok answer ∧
      fetchAs .lenient ((pairFetch "config-only").at_ (pairState "t" [] [])) "" = .ok answer) ∧
    ∃ answer answer', fetchAs .lenient ((pairFetch "").at_ (pairState "s" [] [])) "" = .ok answer ∧
      fetchAs .lenient ((pairFetch "").at_ (pairState "t" [] [])) "" = .ok answer' ∧
      answer.keys = answer'.keys ∧ answer.keys.length = 2 := by
  have dropped := pairState_same dropSecrets [] [] (by decide +kernel)
  have masked := pairState_same maskSecrets [] [] (by decide +kernel)
  constructor
  · obtain ⟨answer, sent, -⟩ : ∃ answer,
        fetchAs .lenient ((pairFetch "config-only").at_ (pairState "s" [] [])) "" = .ok answer ∧
          true = true :=
      exists_ok_of_any (by decide +kernel)
    have alike := (fetch_blind_to_secrets .lenient (pairFetch "config-only") _ _ dropped).1
      (by decide +kernel) ""
    exact ⟨answer, sent, alike ▸ sent⟩
  · obtain ⟨answer, sent, delivered⟩ : ∃ answer,
        fetchAs .lenient ((pairFetch "").at_ (pairState "s" [] [])) "" = .ok answer ∧
          (!answer.current && answer.keys.length == 2) = true :=
      exists_ok_of_any (by decide +kernel)
    obtain ⟨answer', sent', delivered'⟩ : ∃ answer,
        fetchAs .lenient ((pairFetch "").at_ (pairState "t" [] [])) "" = .ok answer ∧
          (!answer.current) = true :=
      exists_ok_of_any (by decide +kernel)
    have withholds : Withholds ((pairFetch "").at_ (pairState "s" [] [])) := by
      intro _ _
      rw [secretCapability]
      split <;> decide +kernel
    have shown :=
      ((fetch_blind_to_secrets .lenient (pairFetch "") _ _ dropped).2 (by decide +kernel)
        withholds "" "").2
      answer answer' sent sent' (by simpa using (Bool.and_eq_true_iff.mp delivered).1)
        (by simpa using delivered')
    exact ⟨answer, answer', sent, sent', shown.same masked,
      by simpa using (Bool.and_eq_true_iff.mp delivered).2⟩

theorem pinnedHistory_discloses :
    let pins : List RevisionPin := [⟨9, 1, 4, 8, 100⟩]
    let call := pairFetch ""
    holds (call.at_ (pairState "s" [.revealHistory] pins)).grants .reveal 1 = false ∧
      SameUpTo maskSecrets 1 (pairState "s" [.revealHistory] pins)
        (pairState "t" [.revealHistory] pins) ∧
      (FetchResult.keys <$> fetchAs .lenient (call.at_ (pairState "s" [.revealHistory] pins))
        "").toOption =
        some [⟨2, "TOKEN", .secret, .set, some "s"⟩] ∧
      (FetchResult.keys <$> fetchAs .lenient (call.at_ (pairState "t" [.revealHistory] pins))
        "").toOption =
        some [⟨2, "TOKEN", .secret, .set, some "t"⟩] :=
  ⟨by decide +kernel, pairState_same maskSecrets _ _ (by decide +kernel), by decide +kernel,
    by decide +kernel⟩

end Hikyo.Delivery
