import Hikyo.Delivery.Rendering
import Hikyo.Project.Lineage

/-!
# Delivered config values and their declarations

`delivered_values_conform_iff`: every config value that a fetch delivers in a reachable state is
accepted by the declaration that its snapshot pinned and is in normal form, exactly if no parameter
brings white space to an end of a templated value.  `Validate` trims the text it checks, and
`resolveConfig` delivers the text as it is (`padded_port_delivered`).  `piecesLoop` takes a value
apart as the substitution does.
-/

namespace Hikyo.Delivery

open Hikyo.Lib Hikyo.Project List

variable {maxBytes : Nat} {server : Server} {supplied : Supplied}

/-- Text that is delivered as it is written, or the name of a parameter. -/
inductive Piece
  | text (chars : List Char)
  | parameter (name : String)

/-- The pieces that `transform` scans; the length of the template is fuel enough. -/
def piecesLoop : Nat → List Char → List Piece
  | _, [] => []
  | 0, _ :: _ => []
  | fuel + 1, value =>
    match cutMarker value with
    | none => [.text value]
    | some (before, after) =>
      if before.getLast? == some '$' then .text (before.dropLast ++ ['$', '{']) ::
        piecesLoop fuel after
      else
        match cutBrace after with
        | none => []
        | some (name, rest) =>
            .text before :: .parameter (String.ofList name) :: piecesLoop fuel rest

def pieces (template : String) : List Piece := piecesLoop template.toList.length template.toList

def Piece.chars (supplied : Supplied) : Piece → List Char
  | .text chars => chars
  | .parameter name => ((supplied.lookup name).getD "").toList

/-- What comes first starts without white space, and what comes last ends without it. -/
def Trimmed (supplied : Supplied) (pieces : List Piece) : Prop :=
  (∀ c ∈ pieces.findSome? fun piece => (piece.chars supplied).head?, isSpace c = false) ∧
    ∀ c ∈ pieces.reverse.findSome? fun piece => (piece.chars supplied).getLast?, isSpace c = false

instance (supplied : Supplied) (pieces : List Piece) : Decidable (Trimmed supplied pieces) :=
  @instDecidableAnd _ _ (Option.decidableForallMem _) (Option.decidableForallMem _)

section Templates
variable {value text out : String} {limit : Option Nat}

theorem resolveLoop_eq_ok {fuel : Nat}
      {chars : List Char} (run : transformLoop (fun (_ : Unit) name =>
      match supplied.lookup name with
      | none => .error s!"required parameter {name} is missing"
      | some text => .ok ((), text)) limit fuel chars out () = .ok ((), text)) :
    text.toList = out.toList ++ (piecesLoop fuel chars).flatMap (Piece.chars supplied) := by
  fun_induction piecesLoop generalizing out with
  | case1 =>
    obtain ⟨_, -, same⟩ :=
      bind_eq_ok.mp (show checkLimit limit out >>= _ = _ by simpa only [transformLoop] using run)
    cases same
    simp
  | case2 => simp [transformLoop] at run
  | case3 _ _ nonempty cut =>
    rw [transformLoop.eq_3 _ _ _ _ _ _ nonempty, cut] at run
    obtain ⟨_, -, same⟩ := bind_eq_ok.mp run
    cases same
    simp [Piece.chars]
  | case4 _ _ nonempty _ _ cut escaped ih =>
    rw [transformLoop.eq_3 _ _ _ _ _ _ nonempty, cut] at run
    dsimp only at run
    rw [if_pos escaped] at run
    obtain ⟨_, -, later⟩ := bind_eq_ok.mp run
    rw [ih later]
    simp [Piece.chars]
  | case5 _ _ nonempty _ _ cut plain unclosed =>
    rw [transformLoop.eq_3 _ _ _ _ _ _ nonempty, cut] at run
    simp [plain, unclosed] at run
  | case6 _ _ nonempty _ _ cut plain _ _ closed ih =>
    rw [transformLoop.eq_3 _ _ _ _ _ _ nonempty, cut] at run
    dsimp only at run
    rw [if_neg plain, closed] at run
    obtain ⟨⟨_, _⟩, replaces, later⟩ := bind_eq_ok.mp (require_bind_eq_ok.mp run).2
    obtain ⟨_, -, later⟩ := bind_eq_ok.mp later
    split at replaces
    · cases replaces
    rename_i found
    cases replaces
    rw [ih later]
    simp [Piece.chars, found]

theorem resolve_eq_ok (run : resolve value supplied maxBytes = .ok text) :
    text.toList = (pieces value).flatMap (Piece.chars supplied) := by
  obtain ⟨⟨⟨⟩, _⟩, loop, same⟩ := map_eq_ok.mp run
  cases same
  exact resolveLoop_eq_ok loop

theorem normalize_eq_self_iff : normalize value = value ↔
    (∀ c ∈ value.toList.head?, isSpace c = false) ∧
    ∀ c ∈ value.toList.getLast?, isSpace c = false := by
  have trims : normalize value = value ↔ (value.toList.dropWhile isSpace).rdropWhile isSpace =
      value.toList := by
    rw [Project.normalize, ← String.toList_inj, String.toList_ofList]
  have first : value.toList.dropWhile isSpace = value.toList ↔
      ∀ c ∈ value.toList.head?, isSpace c = false := by
    cases value.toList <;> simp [dropWhile_eq_self_iff]
  have last : value.toList.rdropWhile isSpace = value.toList ↔
      ∀ c ∈ value.toList.getLast?, isSpace c = false := by
    rw [rdropWhile_eq_self_iff]
    cases value.toList with
    | nil => simp
    | cons c rest => simp [getLast?_eq_some_getLast (cons_ne_nil c rest)]
  rw [trims, ← first, ← last]
  constructor
  · intro same
    -- dropping at the end cannot make up for what was dropped at the start
    have longer := ( rdropWhile_prefix isSpace (l := value.toList.dropWhile isSpace)).length_le
    rw [same] at longer
    have start := (dropWhile_suffix isSpace).eq_of_length_le longer
    exact ⟨start, by rwa [start] at same⟩
  · rintro ⟨start, stop⟩
    rw [start, stop]

theorem normalize_resolved_iff (run : resolve value supplied maxBytes = .ok text) :
    normalize text = text ↔ Trimmed supplied (pieces value) := by
  rw [normalize_eq_self_iff, resolve_eq_ok run, head?_flatMap, getLast?_flatMap]
  rfl

end Templates

def PinnedDeclaration (server : Server) (history : List Action) (snapshot : Snapshot) (id : KeyID)
    (declaration : String) : Prop :=
  ∃ past, past <+: history ∧ (run server past).schemaRevision = snapshot.schemaRevision ∧
    ∃ key ∈ (run server past).keys, key.id = id ∧ key.declaration = declaration

/-- The bytes that are delivered are accepted by the pinned declaration and in normal form. -/
def Conforms (server : Server) (history : List Action) (snapshot : Snapshot) (key : DeliveredKey) :
    Prop :=
  ∃ value declaration, key.value = some value ∧
    PinnedDeclaration server history snapshot key.keyID declaration ∧
    server.validateLiteralValue .config declaration value = true ∧ normalize value = value

def TemplatesTrimmed (snapshot : Snapshot) (supplied : Supplied) : Prop :=
  ∀ entry ∈ snapshot.entries, entry.classification = .config →
    (snapshot.contract.schemas.lookup entry.keyName).isSome = true →
      Trimmed supplied (pieces entry.value)

section Rows
variable {contract : ParameterContract} {mode : Mode} {revealsSecret : Bool}
  {entries : List SnapshotEntry} {renderBytes : Nat} {delivered : Delivered}

theorem deliverEach_config_keys
    (run : deliverEach server contract supplied mode revealsSecret entries renderBytes =
      .ok delivered) :
    (∀ entry ∈ entries, entry.classification = .config →
      ∃ value, resolveConfig server contract supplied entry.keyName .config entry.value =
        .ok value) ∧
    ∀ holds : KeyID → String → Prop,
      (∀ key ∈ delivered.keys, key.classification = .config → ∃ value, key.value = some value ∧
        holds key.keyID value) ↔
        ∀ entry ∈ entries, entry.classification = .config → ∀ value,
          resolveConfig server contract supplied entry.keyName .config entry.value = .ok value →
            holds entry.keyID value := by
  induction entries generalizing renderBytes delivered with
  | nil =>
    cases run
    simp
  | cons entry _ ih =>
    cases kept : delivers mode entry with
    | false =>
      rw [deliverEach_skip kept] at run
      have secret : entry.classification = .secret := by
        simp only [delivers, Bool.not_eq_false', Bool.and_eq_true, beq_iff_eq] at kept
        exact kept.1
      simpa [secret] using ih run
    | true =>
      obtain ⟨_, _, _, _, class_, resolves, later, rfl⟩ := deliverEach_cons kept run
      obtain ⟨resolved, keys⟩ := ih later
      cases recorded : entry.classification with
      | secret => simpa [keyOf, class_, recorded] using ih later
      | config =>
        rw [recorded] at resolves
        simp only [forall_mem_cons, keys]
        simpa [keyOf, class_, recorded, crosses, resolves] using resolved

end Rows

section Fetches
variable {history : List Action} {snapshot : Snapshot} {entry : SnapshotEntry} {value : String}

theorem resolveConfig_conforms (stored : snapshot ∈ (run server history).snapshots)
    (present : snapshot.payloadPresent = true) (mem : entry ∈ snapshot.entries)
    (config : entry.classification = .config)
    (resolves : resolveConfig server snapshot.contract supplied entry.keyName .config entry.value =
      .ok value) :
    (∃ declaration, PinnedDeclaration server history snapshot entry.keyID declaration ∧
      server.validateLiteralValue .config declaration value = true) ∧ (normalize value = value ↔
      ((snapshot.contract.schemas.lookup entry.keyName).isSome = true →
        Trimmed supplied (pieces entry.value))) := by
  obtain ⟨past, before, revision, committed⟩ := run_committed history snapshot stored
  obtain ⟨row, -, -, valid, pins⟩ := committed present
  obtain ⟨key, declared, sameID, sameName, sameClass⟩ := valid.declared entry mem
  have pinned : PinnedDeclaration server history snapshot entry.keyID key.declaration :=
    ⟨past, before, revision.symm, key, declared, sameID.symm, rfl⟩
  have keyConfig : key.classification = .config := sameClass.symm.trans config
  unfold resolveConfig at resolves
  simp only [ne_eq, not_true_eq_false, if_false] at resolves
  cases found : snapshot.contract.schemas.lookup entry.keyName with
  | none =>
    rw [found] at resolves
    cases resolves
    have normal := ((run_wellFormed history).rows.snapshots snapshot stored).entries entry mem
    refine ⟨⟨key.declaration, pinned, ?_⟩, by simpa using normal.1⟩
    have literal : IsLiteral key row.parameters entry.value := by
      refine (pins.literal key declared entry mem sameID keyConfig).resolve_left fun held => ?_
      rw [lookup_eq_none_iff] at found
      have different := found _ held
      simp [sameName] at different
    exact keyConfig ▸ valid.literal key declared entry mem sameID literal
  | some declaration =>
    rw [found] at resolves
    dsimp only at resolves
    split at resolves
    · cases resolves
    rename_i resolved substituted
    obtain ⟨accepted, same⟩ := require_bind_eq_ok.mp resolves
    cases same
    refine ⟨⟨declaration, ?_, accepted⟩, by simpa using normalize_resolved_iff substituted⟩
    -- the name finds the key's own declaration
    obtain ⟨_, _, listed, -⟩ := lookup_eq_some_iff.mp found
    obtain ⟨other, otherDeclared, same⟩ :=
      pins.pinned (entry.keyName, declaration) (by simp [listed])
    obtain ⟨names, rfl⟩ := Prod.mk.inj same
    have own : other = key :=
      inj_on_of_nodup_map (run_wellFormed past).catalogue.keyNames otherDeclared declared
      (names.symm.trans sameName)
    rw [own]
    exact pinned

/-- Delivered config values conform exactly if no parameter brings white space to an end. -/
theorem delivered_values_conform_iff (server : Server) (history : List Action) (call : FetchCall)
    (presented : String) (result : FetchResult) (project : call.state.project = run server history)
    (fetched : fetchAs server call presented = .ok result) :
    ∃ selected, selectSnapshot call = .ok selected ∧
      (∀ key ∈ result.keys, key.classification = .config →
        ∃ value declaration, key.value = some value ∧
        PinnedDeclaration server history selected.snapshot key.keyID declaration ∧
        server.validateLiteralValue .config declaration value = true) ∧
      ((∀ key ∈ result.keys, key.classification = .config →
        Conforms server history selected.snapshot key) ↔
        result.current = true ∨ TemplatesTrimmed selected.snapshot call.options.parameters) := by
  obtain ⟨prepared, prepares, rfl⟩ := fetchAs_eq_ok fetched
  obtain ⟨_, selected, _, made⟩ := prepare_eq_ok prepares
  obtain ⟨_, contract, live, parameters, rows⟩ := deliveryRows_eq_ok made.renders
  obtain ⟨present, rfl⟩ := liveEntries_eq_ok live
  obtain rfl : selected.snapshot.contract = contract := by
    obtain ⟨_, decoded, same⟩ := bind_eq_ok.mp parameters
    obtain ⟨_, -, same⟩ := bind_eq_ok.mp same
    cases same
    cases (require_bind_eq_ok.mp (require_bind_eq_ok.mp decoded).2).2
    rfl
  have stored : selected.snapshot ∈ (run server history).snapshots :=
    project ▸ (selectSnapshot_eq_ok made.selects).1
  obtain ⟨resolved, keys⟩ := deliverEach_config_keys rows
  rw [← made.keys] at keys
  simp only [mem_insertionSort] at resolved keys
  have accepted := (keys fun id value =>
    ∃ declaration, PinnedDeclaration server history selected.snapshot id declaration ∧
    server.validateLiteralValue .config declaration value = true).mpr
      fun entry mem config value resolves =>
      (resolveConfig_conforms stored present mem config resolves).1
  have normal : (∀ key ∈ prepared.keys, key.classification = .config →
      ∃ value, key.value = some value ∧ normalize value = value) ↔
      TemplatesTrimmed selected.snapshot call.options.parameters := by
    refine (keys fun _ value => normalize value = value).trans
      (forall₃_congr fun entry mem config => ?_)
    obtain ⟨value, resolves⟩ := resolved entry mem config
    rw [← (resolveConfig_conforms stored present mem config resolves).2, resolves]
    simp
  refine ⟨selected, made.selects, ?_⟩
  cases current : (prepared.answer presented call.now).current with
  | true =>
    have empty : (prepared.answer presented call.now).keys = [] := by
      change (if (prepared.answer presented call.now).current then [] else prepared.keys) = []
      rw [current, if_pos rfl]
    simp [empty]
  | false =>
    rw [answer_keys current]
    refine ⟨fun key mem config => ?_, ?_⟩
    · obtain ⟨value, shown, declaration, facts⟩ := accepted key mem config
      exact ⟨value, declaration, shown, facts⟩
    · rw [← normal]
      simp only [Bool.false_eq_true, false_or]
      refine forall₃_congr fun key mem config => ?_
      obtain ⟨value, shown, declaration, pinned, valid⟩ := accepted key mem config
      constructor
      · rintro ⟨value', _, shown', -, -, same⟩
        exact ⟨value', shown', same⟩
      · rintro ⟨_, shown', same⟩
        cases shown.symm.trans shown'
        exact ⟨value, declaration, shown, pinned, valid, same⟩

end Fetches

def digitServer : Server :=
  { Server.lenient with validateLiteralValue := fun _ _ value =>
    (normalize value).toList.all Char.isDigit }

def portHistory : List Action :=
  [.createEnvironment 7 none, .setParameter 1 "P" (some ".*"),
    .schema 7 (.createKey ⟨"PORT", .config, "integer", ⟨.none, .none⟩, none⟩),
    .declare 7 [1] "PORT" "$\x7bP\x7d"]

def portFetch (port : String) : FetchCall where
  state := ⟨run digitServer portHistory, ⟨[(9, ⟨.read, none⟩)], none, [], []⟩⟩
  caller := 9
  env := 1
  options := ⟨[("P", port)], "", []⟩
  now := 0

theorem portFetch_conforms : ∃ result selected, fetchAs digitServer
    (portFetch "80") "" = .ok result ∧
    result.keys.map DeliveredKey.value = [some "80"] ∧
    ∀ key ∈ result.keys, key.classification = .config →
      Conforms digitServer portHistory selected key := by
  obtain ⟨result, fetched, shown⟩ : ∃ result, fetchAs digitServer (portFetch "80") "" = .ok result ∧
      decide (result.keys.map DeliveredKey.value = [some "80"]) = true :=
        exists_ok_of_any (by decide +kernel)
  obtain ⟨selected, selects, -, conform⟩ :=
    delivered_values_conform_iff digitServer portHistory (portFetch "80") "" result rfl fetched
  obtain ⟨selected', selects', trimmed⟩ : ∃ selected, selectSnapshot (portFetch "80") =
      .ok selected ∧
      decide (∀ entry ∈ selected.snapshot.entries, Trimmed [("P", "80")] (pieces entry.value)) =
        true :=
    exists_ok_of_any (by decide +kernel)
  cases selects.symm.trans selects'
  refine ⟨result, selected.snapshot, fetched, of_decide_eq_true shown,
    conform.mpr (.inr fun entry mem _ _ => ?_)⟩
  exact of_decide_eq_true trimmed entry mem

/-- The blank before the digits is checked away and delivered. -/
theorem padded_port_delivered : ∃ result, fetchAs digitServer (portFetch " 80") "" = .ok result ∧
    ∃ key ∈ result.keys, key.classification = .config ∧ key.value = some " 80" ∧
      normalize " 80" ≠ " 80" := by
  obtain ⟨result, fetched, shown⟩ : ∃ result, fetchAs digitServer (portFetch " 80") "" =
      .ok result ∧
      decide (∃ key ∈ result.keys, key.classification = .config ∧ key.value = some " 80" ∧
        normalize " 80" ≠ " 80") = true :=
    exists_ok_of_any (by decide +kernel)
  exact ⟨result, fetched, of_decide_eq_true shown⟩

end Hikyo.Delivery
