import Hikyo.Project.Lineage

/-!
# Occurrences and what snapshots recorded about them

A value occurrence is recorded in snapshots with the classification of the moment.
`run_recordedSecret`: if no operation makes a key secret that has a published value, every snapshot
with the published occurrence of a secret key recorded it as secret.
-/

namespace Hikyo.Project

open Hikyo.Lib Relation List

def DefinitionChange.ClassifiesUnset (db : ProjectDB) : DefinitionChange → Prop
  | .updateKey id spec => spec.classification = .secret →
      (∃ key ∈ db.keys, key.id = id ∧ key.classification = .secret) ∨
        ∀ entry ∈ db.entries, entry.keyID ≠ id
  | _ => True

/-- The operation makes no key secret that has a published value. -/
def ClassifiesUnset (db : ProjectDB) : Action → Prop
  | .schema _ (.reclassifyKey id .secret) => ∀ entry ∈ db.entries, entry.keyID ≠ id
  | .schema _ (.applyDefinitions changes) => ∀ change ∈ changes, change.ClassifiesUnset db
  | _ => True

instance decidableDefinitionClassifiesUnset (db : ProjectDB) (change : DefinitionChange) :
    Decidable (change.ClassifiesUnset db) := by
  unfold DefinitionChange.ClassifiesUnset
  split <;> infer_instance

instance decidableClassifiesUnset (db : ProjectDB) (action : Action) :
    Decidable (ClassifiesUnset db action) := by
  unfold ClassifiesUnset
  split <;> infer_instance

def SecretsOrUnset (db after : ProjectDB) : Prop :=
  ∀ key ∈ after.keys, key.classification = .secret →
    (∃ old ∈ db.keys, old.id = key.id ∧ old.classification = .secret) ∨
      ∀ entry ∈ db.entries, entry.keyID ≠ key.id

section Classes
variable {server : Server} {db mid after : ProjectDB} {action : Action}

theorem secretsOrUnset_of_eq (keys : after.keys = db.keys) : SecretsOrUnset db after :=
  fun key mem secret => .inl ⟨key, keys ▸ mem, rfl, secret⟩

section
variable (before : SecretsOrUnset db mid)
include before

theorem SecretsOrUnset.edit (edit : CatalogueKey → CatalogueKey)
    (sameID : ∀ key, (edit key).id = key.id)
    (sameClass : ∀ key, (edit key).classification = key.classification)
    (keys : after.keys = mid.keys.map edit) : SecretsOrUnset db after := by
  intro _ mem secret
  rw [keys] at mem
  obtain ⟨old, stored, rfl⟩ := mem_map.mp mem
  rw [sameID]
  exact before old stored (sameClass old ▸ secret)

theorem SecretsOrUnset.subset (keys : ∀ key ∈ after.keys, key ∈ mid.keys) :
    SecretsOrUnset db after :=
  fun key mem => before key (keys key mem)

theorem SecretsOrUnset.classify {id : KeyID}
    {edit : CatalogueKey → CatalogueKey} (sameID : ∀ key, (edit key).id = key.id)
    (unset : ∀ key, (edit key).classification = .secret →
      (∃ old ∈ db.keys, old.id = id ∧ old.classification = .secret) ∨
      ∀ entry ∈ db.entries, entry.keyID ≠ id) :
    SecretsOrUnset db (mid.updateKey id edit) := by
  intro key mem secret
  rcases mem_updateWhere.mp mem with ⟨old, -, named, rfl⟩ | ⟨stored, -⟩
  · rw [sameID, show old.id = id by simpa using named]
    exact unset old secret
  · exact before key stored secret

theorem SecretsOrUnset.insertKey (ok : WellFormed db)
    (later : db.nextID ≤ mid.nextID) {spec : KeySpec} (inserts : mid.insertKey spec = .ok after) :
    SecretsOrUnset db after := by
  obtain ⟨-, inserts⟩ := require_bind_eq_ok.mp inserts
  cases inserts
  intro key mem secret
  rcases mem_cons.mp mem with rfl | stored
  · refine .inr fun entry inTable named => ?_
    have known := ok.catalogue.keys _ (ok.rows.entries entry inTable).declared
    rw [named] at known
    exact Nat.not_lt_of_le later known
  · exact before key stored secret

end

theorem dropGroup_edit (id : GroupID) (key : CatalogueKey) :
    (if (key.groupID == some id) = true then { key with groupID := none } else key).id = key.id ∧
      (if (key.groupID == some id) = true then { key with groupID := none }
        else key).classification =
        key.classification := by
  split <;> exact ⟨rfl, rfl⟩

theorem Executed.secretsOrUnset {change : DefinitionChange} (ok : WellFormed db)
    (later : db.nextID ≤ mid.nextID) (before : SecretsOrUnset db mid)
    (unset : change.ClassifiesUnset db) (executed : Executed mid change after) :
    SecretsOrUnset db after := by
  cases executed with
  | deleteKey => exact before.subset fun key mem => (mem_filter.mp mem).1
  | @deleteGroup id =>
    exact before.edit _ (fun key => (dropGroup_edit id key).1)
      (fun key => (dropGroup_edit id key).2) rfl
  | @deleteEnvironment env =>
    exact before.edit (CatalogueKey.withoutRows env) (fun _ => rfl) (fun _ => rfl) rfl
  | createEnvironment | createGroup => exact before
  | renameKey => exact before.edit _ (fun key => by split <;> rfl) (fun key => by split <;> rfl) rfl
  | createKey inserts => exact before.insertKey ok later inserts
  | updateKey => exact before.classify (fun _ => rfl) fun _ secret => unset secret

theorem Changed.secretsOrUnset {caller : PrincipalID} {change : SchemaChange} (ok : WellFormed db)
    (unset : ClassifiesUnset db (.schema caller change))
    (changed : Changed server db change after) :
    SecretsOrUnset db after := by
  have start : SecretsOrUnset db db := secretsOrUnset_of_eq rfl
  cases changed with
  | createKey inserts => exact start.insertKey ok le_rfl inserts
  | renameKey | updateDeclaration | setKeyGroup =>
      exact start.edit _ (fun key => by split <;> rfl) (fun key => by split <;> rfl) rfl
  | @reclassifyKey =>
    refine start.classify (fun _ => rfl) fun key secret => ?_
    subst secret
    exact .inr unset
  | deleteKey => exact start.subset fun key mem => (mem_filter.mp mem).1
  | @deleteGroup id =>
    exact start.edit _ (fun key => (dropGroup_edit id key).1) (fun key => (dropGroup_edit id key).2)
      rfl
  | applyDefinitions executes =>
    -- the counter only grows while the bundle is executed
    refine (foldlM_invariant (fun s => db.nextID ≤ s.nextID ∧ SecretsOrUnset db s) ?_
      ⟨le_rfl, start⟩ executes).2
    intro change mem _ _ holds executed
    have spec := executeChange_spec executed
    exact ⟨Nat.le_trans holds.1 (CatalogueWrites.keeps spec.writes).nextID,
      spec.secretsOrUnset ok holds.1 holds.2 (unset change mem)⟩

theorem step_secretsOrUnset (ok : WellFormed db) (unset : ClassifiesUnset db action)
    (taken : step server db action = some after) : SecretsOrUnset db after := by
  cases step_effect ok taken with
  | quiet same => exact secretsOrUnset_of_eq same.keys
  | drafted drafts =>
    rw [drafts.frame]
    exact secretsOrUnset_of_eq rfl
  | collected | opened => exact secretsOrUnset_of_eq rfl
  | @removed env =>
    have start : SecretsOrUnset db db := secretsOrUnset_of_eq rfl
    refine start.edit (CatalogueKey.cascade env) ?_ ?_ rfl
    all_goals exact fun key => by unfold CatalogueKey.cascade; split <;> rfl
  | planned _ _ _ advance | written _ advance | created advance =>
    exact secretsOrUnset_of_eq advance.keys
  | changed changes advance =>
    exact ((changeSchema_spec changes).secretsOrUnset ok unset).subset fun key mem =>
      advance.keys ▸ mem

end Classes

/-- Every snapshot that has the published occurrence of a secret key recorded it as secret. -/
def RecordedSecret (db : ProjectDB) : Prop :=
  ∀ snapshot ∈ db.snapshots, ∀ row ∈ snapshot.entries, ∀ entry ∈ db.entries, row.valueEntryID =
    entry.id →
    ∀ key ∈ db.keys, key.id = entry.keyID → key.classification = .secret →
      row.classification = .secret

/-- One cell for each published occurrence. -/
def DistinctOccurrences (db : ProjectDB) : Prop := (db.entries.map ValueEntry.id).Nodup

section Recorded
variable {server : Server} {db mid after : ProjectDB} {action : Action}

theorem DistinctOccurrences.sublist (distinct : DistinctOccurrences db)
    (entries : after.entries.Sublist db.entries) : DistinctOccurrences after :=
  List.Nodup.sublist (entries.map _) distinct

theorem DataWrite.distinctOccurrences (write : DataWrite server db after) (ok : WellFormed db)
    (distinct : DistinctOccurrences db) : DistinctOccurrences after := by
  cases write with
  | @put env keyID =>
    have kept : DistinctOccurrences (db.clearValue env keyID) := distinct.sublist filter_sublist
    refine nodup_cons.mpr ⟨fun reused => ?_, kept⟩
    obtain ⟨entry, mem, same⟩ := mem_map.mp reused
    have fresh := (ok.rows.entries entry (mem_filter.mp mem).1).fresh
    exact absurd same (Nat.ne_of_lt fresh)
  | clear => exact distinct.sublist filter_sublist
  | castVote state => cases state <;> exact distinct
  | commit | stage | discard | collect | protect | policies | administer | openRequest
  | resolve | expire =>
    exact distinct

theorem RecordedSecret.shrink (recorded : RecordedSecret db) (keys : after.keys = db.keys)
    (entries : ∀ entry ∈ after.entries, entry ∈ db.entries)
    (snapshots : ∀ snapshot ∈ after.snapshots, ∀ row ∈ snapshot.entries,
      ∃ old ∈ db.snapshots, row ∈ old.entries) : RecordedSecret after := by
  intro snapshot mem row inSnapshot entry inTable same key declared
  obtain ⟨old, stored, inOld⟩ := snapshots snapshot mem row inSnapshot
  exact recorded old stored row inOld entry (entries entry inTable) same key (keys ▸ declared)

theorem DataWrite.recordedSecret (write : DataWrite server db after) (ok : WellFormed db)
    (distinct : DistinctOccurrences db) (recorded : RecordedSecret db) : RecordedSecret after := by
  have same : ∀ snapshot ∈ db.snapshots, ∀ row ∈ snapshot.entries, ∃ old ∈ db.snapshots,
      row ∈ old.entries :=
    fun snapshot mem row inSnapshot => ⟨snapshot, mem, inSnapshot⟩
  cases write with
  | @put =>
    intro snapshot mem row inSnapshot entry inTable occurrence
    rcases mem_cons.mp inTable with rfl | kept
    · -- the new occurrence is in no snapshot yet
      have older := ((ok.rows.snapshots snapshot mem).entries row inSnapshot).2.1
      exact absurd occurrence (Nat.ne_of_lt older)
    · exact recorded snapshot mem row inSnapshot entry (mem_filter.mp kept).1 occurrence
  | clear => exact recorded.shrink rfl (fun _ mem => (mem_filter.mp mem).1) same
  | @commit _ _ _ _ _ rendered =>
    intro snapshot mem entryRow inSnapshot entry inTable occurrence key declared named secret
    rcases mem_cons.mp mem with rfl | stored
    · rw [rendered] at inSnapshot
      obtain ⟨rowKey, rowDeclared, cell, found, rfl⟩ := mem_render.mp inSnapshot
      obtain ⟨inEntries, -, cellKey⟩ := ProjectDB.cell?_eq_some found
      have sameCell : cell = entry := inj_on_of_nodup_map distinct inEntries inTable occurrence
      have sameKey : rowKey = key := inj_on_of_nodup_map ok.catalogue.keyIDs rowDeclared declared
        (by rw [named, ← sameCell, cellKey])
      rw [sameKey]
      exact secret
    · exact recorded snapshot stored entryRow inSnapshot entry inTable occurrence key
        declared named secret
  | collect =>
    refine recorded.shrink rfl (fun _ => id) fun snapshot mem row inSnapshot => ?_
    rcases mem_updateWhere.mp mem with ⟨_, -, -, rfl⟩ | ⟨stored, -⟩
    · cases inSnapshot
    · exact ⟨snapshot, stored, inSnapshot⟩
  | castVote state => cases state <;> exact recorded
  | stage | discard | protect | policies | administer | openRequest | resolve | expire =>
      exact recorded

theorem DataWrites.recordedSecret (writes : DataWrites server db after) (ok : WellFormed db)
    (distinct : DistinctOccurrences db) (recorded : RecordedSecret db) :
    DistinctOccurrences after ∧ RecordedSecret after := by
  induction writes with
  | refl => exact ⟨distinct, recorded⟩
  | tail before write ih =>
    have okMid := DataWrites.wellFormed before ok
    exact ⟨write.distinctOccurrences okMid ih.1, write.recordedSecret okMid ih.1 ih.2⟩

theorem CatalogueWrite.entries_sublist (write : CatalogueWrite db after) :
    after.entries.Sublist db.entries := by
  cases write with
  | removeKey | removeEnvironment => exact filter_sublist
  | insertKey | editKeys | renameKey | insertEnvironment | editParameters | setGroups =>
      exact .refl _

theorem CatalogueStep.entries_sublist (step : CatalogueStep db after) :
    after.entries.Sublist db.entries := by
  rcases step with rfl | ⟨_, writes, rfl⟩
  · exact .refl _
  induction writes with
  | refl => exact .refl _
  | tail _ write ih => exact write.entries_sublist.trans ih

theorem step_recordedSecret (ok : WellFormed db) (unset : ClassifiesUnset db action)
    (distinct : DistinctOccurrences db) (recorded : RecordedSecret db)
    (taken : step server db action = some after) :
    DistinctOccurrences after ∧ RecordedSecret after := by
  obtain ⟨mid, catalogue, okMid, data⟩ := ok.writes taken
  have keys : after.keys = mid.keys := congrArg Schema.keys data.schema.2
  have entries := catalogue.entries_sublist
  refine data.recordedSecret okMid (distinct.sublist entries) ?_
  intro snapshot mem row inSnapshot entry inTable same key declared named secret
  have stored := catalogue.snapshots snapshot mem
  have before := entries.subset inTable
  -- a key that was not secret before has no published occurrence at all
  rcases step_secretsOrUnset ok unset taken key (keys ▸ declared) secret
      with ⟨old, known, oldID, oldSecret⟩ | none
  · exact recorded snapshot stored row inSnapshot entry before same old known
      (oldID.trans named) oldSecret
  · exact absurd named.symm (none entry before)

theorem run_recordedSecret (history : List Action)
    (unset : AllowedFrom (step server) ClassifiesUnset .empty history) :
    RecordedSecret (run server history) :=
  (runFrom_invariant_of_allowed (step server) ClassifiesUnset
    (fun db => WellFormed db ∧ DistinctOccurrences db ∧ RecordedSecret db)
    (fun _ _ _ holds isUnset taken => ⟨step_wellFormed holds.1 taken,
      step_recordedSecret holds.1 isUnset holds.2.1 holds.2.2 taken⟩) history .empty
    ⟨empty_wellFormed, .nil, nofun⟩ unset).2.2

end Recorded

end Hikyo.Project
