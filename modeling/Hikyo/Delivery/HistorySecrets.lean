import Hikyo.Project.Occurrences
import Hikyo.Delivery.History
import Hikyo.Delivery.Rendering

/-!
# Current secrets in history

An occurrence is hidden from a caller when every export and every diff gives the same answer
whatever its plaintext is (`HidesOccurrence`).  `run_hidesCurrentSecrets`: in every history in which
no key turns secret while it has a published value, all current secrets are hidden from callers who
hold neither `reveal` nor `reveal-history`.  Otherwise a revision that recorded the key as config
keeps showing the value (`reclassifiedHistory_discloses`), as the documentation of reclassification
says.
-/

namespace Hikyo.Delivery

open Hikyo.Lib Hikyo.Project List

variable {entries : List SnapshotEntry} {db : ProjectDB} {server : Server} {snapshot : Snapshot}
  {row : SnapshotEntry}

def retext (id : EntryID) (text : String) (row : SnapshotEntry) : SnapshotEntry :=
  if row.valueEntryID = id then { row with value := text } else row

def retextSnapshot (id : EntryID) (text : String) (snapshot : Snapshot) : Snapshot :=
  { snapshot with entries := snapshot.entries.map (retext id text) }

def withPlaintext (db : ProjectDB) (id : EntryID) (text : String) : ProjectDB :=
  { db with
    entries := updateWhere (fun entry => entry.id == id) (fun entry => { entry with value := text })
      db.entries
    snapshots := db.snapshots.map (retextSnapshot id text) }

def HidesOccurrence (server : Server) (db : ProjectDB) (grants : List GrantRow) (env : EnvID)
    (id : EntryID) :
    Prop :=
  ∀ text,
    (∀ revision reveal supplied,
      exportWithParameters server (withPlaintext db id text) grants env revision reveal supplied =
        exportWithParameters server db grants env revision reveal supplied) ∧
    ∀ left right keyID, diff (withPlaintext db id text) grants env left right keyID =
      diff db grants env left right keyID

def HidesCurrentSecrets (server : Server) (db : ProjectDB) : Prop :=
  ∀ env, ∀ key ∈ db.keys, key.classification = .secret → ∀ entry, db.cell? env key.id = some entry →
    ∀ grants, holds grants .reveal env = false → holds grants .revealHistory env = false →
      HidesOccurrence server db grants env entry.id

section Retext
variable {id : EntryID} {text : String}

@[simp] theorem retext_keyID : (retext id text row).keyID = row.keyID := by
  unfold retext; split <;> rfl

@[simp] theorem retext_keyName : (retext id text row).keyName = row.keyName := by
  unfold retext; split <;> rfl

@[simp] theorem retext_classification :
    (retext id text row).classification = row.classification := by
  unfold retext; split <;> rfl

@[simp] theorem retext_valueEntryID : (retext id text row).valueEntryID = row.valueEntryID := by
  unfold retext; split <;> rfl

def SecretIn (id : EntryID) (entries : List SnapshotEntry) : Prop :=
  ∀ row ∈ entries, row.valueEntryID = id → row.classification = .secret

theorem retext_of_config (secret : SecretIn id entries) (mem : row ∈ entries)
    (config : row.classification = .config) : retext id text row = row := by
  refine if_neg fun same => ?_
  cases config.symm.trans (secret row mem same)

end Retext

section Reads
variable {id : EntryID} {text : String} {env : EnvID}

theorem find?_retextSnapshot {selected : Snapshot → Bool}
    (same : ∀ snapshot, selected (retextSnapshot id text snapshot) = selected snapshot) :
    (withPlaintext db id text).snapshots.find? selected =
      (db.snapshots.find? selected).map (retextSnapshot id text) := by
  rw [withPlaintext, find?_map]
  congr 2
  funext snapshot
  exact same snapshot

theorem latest_withPlaintext : (withPlaintext db id text).latest env = (db.latest env).map
    (retextSnapshot id text) :=
  find?_retextSnapshot fun _ => rfl

theorem atRevision_withPlaintext {revision : Nat} :
    (withPlaintext db id text).atRevision env revision =
    (db.atRevision env revision).map (retextSnapshot id text) :=
  find?_retextSnapshot fun _ => rfl

theorem currentRevision_withPlaintext :
    (withPlaintext db id text).currentRevision env = db.currentRevision env := by
  rw [ProjectDB.currentRevision, latest_withPlaintext, ProjectDB.currentRevision]
  cases db.latest env <;> rfl

theorem readSnapshot_withPlaintext {revision : Int} :
    readSnapshot (withPlaintext db id text) env revision =
    retextSnapshot id text <$> readSnapshot db env revision := by
  unfold readSnapshot
  rw [latest_withPlaintext, atRevision_withPlaintext]
  by_cases newest : revision ≤ 0
  · rw [if_pos newest, if_pos newest]
    cases db.latest env <;> rfl
  · rw [if_neg newest, if_neg newest]
    cases db.atRevision env revision.toNat <;> rfl

theorem liveEntries_retext : liveEntries (retextSnapshot id text snapshot) =
    map (retext id text) <$> liveEntries snapshot :=
  (keepsOrder_map fun _ => retext_keyName).liveEntries snapshot

theorem liveEntries_secretIn (secret : SecretIn id snapshot.entries)
    (live : liveEntries snapshot = .ok entries) :
    SecretIn id entries := by
  obtain ⟨-, live⟩ := require_bind_eq_ok.mp live
  cases live
  exact fun row mem => secret row ((mem_insertionSort _).mp mem)

end Reads

section Export
variable {grants : List GrantRow} {id : EntryID} {text : String} {env : EnvID}

theorem exportEach_retext {contract : ParameterContract} {supplied : Supplied}
    (secret : SecretIn id entries) (renderBytes : Nat) :
    exportEach server contract supplied false (entries.map (retext id text)) renderBytes =
      exportEach server contract supplied false entries renderBytes := by
  induction entries generalizing renderBytes with
  | nil => rfl
  | cons row rest ih =>
    have later : SecretIn id rest := fun other mem => secret other (.tail _ mem)
    rw [map_cons, exportEach, exportEach]
    by_cases config : row.classification = .config
    · rw [retext_of_config secret (.head _) config]
      simp only [ih later]
    · simp only [retext_classification, retext_keyName, ih later]
      rw [if_neg (by simpa using config), if_neg (by simpa using config)]

section
variable (noReveal : holds grants .reveal env = false)
  (noHistory : holds grants .revealHistory env = false)
include noReveal noHistory

theorem authorize_reveal (historical : Bool) :
    authorize db grants (revealOperation historical) env = .error (.notFound "not found") := by
  have refused : permits grants (revealOperation historical) env = false := by
    cases historical with
    | false => simp [permits, revealOperation, Operation.formula, noReveal]
    | true => simp [permits, revealOperation, Operation.formula, noHistory]
  rw [authorize, require, if_neg (by simp [refused])]

theorem export_withPlaintext
    (secret : ∀ snapshot ∈ db.snapshots, SecretIn id snapshot.entries) (revision : Int)
    (reveal : Bool) (supplied : Supplied) :
    exportWithParameters server (withPlaintext db id text) grants env revision reveal supplied =
      exportWithParameters server db grants env revision reveal supplied := by
  unfold exportWithParameters
  rw [readSnapshot_withPlaintext, show authorize (withPlaintext db id text) = authorize db from rfl]
  cases authorize db grants .valueExport env with
  | error => rfl
  | ok =>
    cases found : readSnapshot db env revision with
    | error => rfl
    | ok snapshot =>
      have hidden := secret snapshot (readSnapshot_mem found).1
      change (checkWhen reveal _ >>= _) = (checkWhen reveal _ >>= _)
      rw [authorize_reveal noReveal noHistory, authorize_reveal noReveal noHistory]
      cases reveal with
      | true => rfl
      | false =>
        rw [liveEntries_retext]
        cases live : liveEntries snapshot with
        | error => rfl
        | ok =>
          change (snapshotParameters server snapshot supplied >>= _) =
            (snapshotParameters server snapshot supplied >>= _)
          congr 1
          funext contract
          rw [exportEach_retext (liveEntries_secretIn hidden live)]
          rfl

end

end Export

section Diff
variable {grants : List GrantRow} {id : EntryID} {text : String} {env : EnvID} {side : DiffSide}
  {keyID : KeyID} {entry : Option SnapshotEntry}

def retextSide (id : EntryID) (text : String) (side : DiffSide) : DiffSide :=
  ⟨retextSnapshot id text side.snapshot, side.entries.map (retext id text)⟩

theorem entryFor_retext : (retextSide id text side).entryFor keyID = (side.entryFor keyID).map
    (retext id text) := by
  rw [DiffSide.entryFor, retextSide, find?_map, DiffSide.entryFor]
  congr 2
  funext row
  rw [Function.comp_apply, retext_keyID]

theorem isSecret_retext : isSecret (entry.map (retext id text)) = isSecret entry := by
  cases entry <;> simp [isSecret]

theorem editStatus_retext {left right : Option SnapshotEntry} :
    editStatus (left.map (retext id text)) (right.map (retext id text)) =
      editStatus left right := by
  cases left <;> cases right <;> simp [editStatus]

theorem entryFor_mem (found : side.entryFor keyID = some row) : row ∈ side.entries :=
  mem_of_find?_eq_some found

theorem retext_of_shown (secret : SecretIn id side.entries)
    (shown : isSecret (side.entryFor keyID) = false) :
    (side.entryFor keyID).map (retext id text) = side.entryFor keyID := by
  cases found : side.entryFor keyID with
  | none => rfl
  | some row =>
    have config : row.classification = .config := by
      rw [found] at shown
      cases recorded : row.classification with
      | config => rfl
      | secret => simp [isSecret, recorded] at shown
    rw [Option.map_some, retext_of_config secret (entryFor_mem found) config]

theorem authorizeSide_retext :
    authorizeSide (withPlaintext db id text) grants env (retextSide id text side)
      (entry.map (retext id text)) =
      authorizeSide db grants env side entry := by
  cases entry with
  | none => rfl
  | some =>
    change authorize _ _ (revealOperation (decide (side.snapshot.revision ≠ _))) _ = _
    rw [currentRevision_withPlaintext]
    rfl

section
variable (noReveal : holds grants .reveal env = false)
  (noHistory : holds grants .revealHistory env = false)
include noReveal noHistory

theorem diffRow_withPlaintext {left right : DiffSide}
    (secretLeft : SecretIn id left.entries) (secretRight : SecretIn id right.entries)
    (named : Option KeyID) (keyID : KeyID) :
    diffRow (withPlaintext db id text) grants env (retextSide id text left)
      (retextSide id text right) named keyID =
      diffRow db grants env left right named keyID := by
  unfold diffRow
  simp only [entryFor_retext, isSecret_retext, authorizeSide_retext]
  cases anySecret : isSecret (left.entryFor keyID) || isSecret (right.entryFor keyID) with
  | false =>
    obtain ⟨shownLeft, shownRight⟩ := Bool.or_eq_false_iff.mp anySecret
    rw [retext_of_shown secretLeft shownLeft, retext_of_shown secretRight shownRight]
  | true =>
    cases named with
    | none =>
      -- nothing is opened: the row shows names and occurrences only
      have names :
          (((right.entryFor keyID).map (retext id text)).or
            ((left.entryFor keyID).map (retext id text))).map
          SnapshotEntry.keyName = ((right.entryFor keyID).or (left.entryFor keyID)).map
            SnapshotEntry.keyName := by
        cases right.entryFor keyID <;> cases left.entryFor keyID <;> simp
      simp [editStatus_retext, names]
    | some key =>
      -- a secret key was named, so one of the two sides is refused
      cases leftEntry : left.entryFor keyID with
      | some => simp [checkWhen, authorizeSide, authorize_reveal noReveal noHistory,
          bind, Except.bind]
      | none =>
        cases rightEntry : right.entryFor keyID with
        | some => simp [checkWhen, authorizeSide, authorize_reveal noReveal noHistory,
            bind, Except.bind]
        | none =>
          rw [leftEntry, rightEntry] at anySecret
          cases anySecret

theorem diff_withPlaintext
    (secret : ∀ snapshot ∈ db.snapshots, SecretIn id snapshot.entries)
    (leftRevision rightRevision : Int) (named : Option KeyID) :
      diff (withPlaintext db id text) grants env leftRevision rightRevision named =
      diff db grants env leftRevision rightRevision named := by
  unfold diff
  rw [readSnapshot_withPlaintext, readSnapshot_withPlaintext,
    show authorize (withPlaintext db id text) = authorize db from rfl]
  congr 1
  funext _
  congr 1
  funext _
  cases foundLeft : readSnapshot db env leftRevision with
  | error => rfl
  | ok left =>
    cases foundRight : readSnapshot db env rightRevision with
    | error => rfl
    | ok right =>
      change (liveEntries (retextSnapshot id text left) >>= _) = (liveEntries left >>= _)
      rw [liveEntries_retext]
      cases liveLeft : liveEntries left with
      | error => rfl
      | ok leftEntries =>
        rw [liveEntries_retext]
        cases liveRight : liveEntries right with
        | error => rfl
        | ok rightEntries =>
          have secretLeft : SecretIn id leftEntries :=
            liveEntries_secretIn (secret left (readSnapshot_mem foundLeft).1) liveLeft
          have secretRight : SecretIn id rightEntries :=
            liveEntries_secretIn (secret right (readSnapshot_mem foundRight).1) liveRight
          have rows : diffRow (withPlaintext db id text) grants env
              ⟨retextSnapshot id text left, leftEntries.map (retext id text)⟩
              ⟨retextSnapshot id text right, rightEntries.map (retext id text)⟩ named =
              diffRow db grants env ⟨left, leftEntries⟩ ⟨right, rightEntries⟩ named := by
            funext keyID
            exact @diffRow_withPlaintext db grants id text env noReveal noHistory
              ⟨left, leftEntries⟩
              ⟨right, rightEntries⟩ secretLeft secretRight named keyID
          have keyIDs (entries : List SnapshotEntry) :
              (entries.map (retext id text)).map SnapshotEntry.keyID =
                entries.map SnapshotEntry.keyID := by
            simp
          change (require (∀ key ∈ named,
            key ∈ (((leftEntries.map (retext id text)).map SnapshotEntry.keyID ++
            (rightEntries.map (retext id text)).map SnapshotEntry.keyID).dedup)) _ >>= _) = _
          simp only [keyIDs, rows]
          rfl

end

end Diff

section Histories
end Histories

def secretHistory : List Action :=
  [.createEnvironment 7 none,
    .schema 7 (.createKey ⟨"DB_PASSWORD", .secret, "string", ⟨.none, .none⟩, none⟩),
    .declare 7 [1] "DB_PASSWORD" "hunter2",
    .schema 7 (.updateDeclaration 2 "string" ⟨.all, .none⟩)]

/-- The value is published as config; then the key turns secret and keeps it. -/
def reclassifiedHistory : List Action :=
  [.createEnvironment 7 none,
    .schema 7 (.createKey ⟨"DB_PASSWORD", .config, "string", ⟨.none, .none⟩, none⟩),
    .declare 7 [1] "DB_PASSWORD" "hunter2",
    .schema 7 (.reclassifyKey 2 .secret)]

end Hikyo.Delivery
