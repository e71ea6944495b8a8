import Hikyo.Compose.Snapshot
import Hikyo.Lib.Transition

/-!
# Offline disclosure records

What a stack serves from its snapshot is recorded on disk first, one file for each append, and
posted to the server later: `flushOffline` reads the pending batches, posts their records in chunks
and then removes the files that it read.  None of this is under a lock, so that appends and other
flushes may come between any two of these acts, and each of them may be the last.  The server claims
each record id once for the principal that presents it.

`offline_records_kept` is the result: a pending read finds every record of a completed append until
its file is removed by a flush, every record is at the server at most once, and those that were
posted or removed are there.  It needs that no crash leaves a part of a batch in its file
(`torn_batch_hides_all`).
-/

namespace Hikyo.Compose

open Hikyo.Lib List

structure OfflineRecord where
  recordID : String
  keyID : String
  keyName : String
  classification : String
  occurredAt : String
  credentialID : String
  generation : String
  servedFrom : String
deriving DecidableEq

structure BatchCodec where
  isTime : String → Bool
  marshal : List OfflineRecord → Bytes
  decode : Bytes → Option (List OfflineRecord)
  decode_marshal : ∀ batch, decode (marshal batch) = some batch

abbrev Batches := List (String × Bytes)

def batchName (nanos : Nat) (suffix : String) : String := toString nanos ++ "-" ++ suffix ++ ".json"

section Log
variable (codec : BatchCodec)

def OfflineRecord.validate (r : OfflineRecord) : Bool :=
  [r.recordID, r.keyID, r.keyName, r.credentialID, r.servedFrom].all (fun text => !isBlank text) ∧
    r.classification ∈ ["config", "secret"] ∧ codec.isTime r.occurredAt ∧
    parseStamp (some 32) r.generation

def readBatches : Batches → Option (List OfflineRecord × List String)
  | [] => some ([], [])
  | f :: rest => do
    let batch ← codec.decode f.2
    let (records, handles) ← readBatches rest
    return (batch ++ records, f.1 :: handles)

def pending (files : Batches) : Option (List OfflineRecord × List String) :=
  readBatches codec (files.insertionSort fun f g => f.1 ≤ g.1)

def opaqueHandle (handle : String) : Bool :=
  handle ≠ "" ∧ handle ≠ "." ∧ handle ≠ ".." ∧ '/' ∉ handle.toList ∧ '\\' ∉ handle.toList

/-- The claimed record ids of each principal, and the disclosures that are recorded. -/
structure Server where
  claims : List (String × String)
  events : List (String × OfflineRecord)

abbrev Owner := String → String

def OfflineRecord.acceptable (r : OfflineRecord) : Bool :=
  [r.recordID, r.keyID, r.credentialID, r.generation].all (fun text => text ≠ "" ∧
    (utf8 text).length ≤ 64) ∧
    r.keyName ≠ "" ∧ (utf8 r.keyName).length ≤ 256 ∧ codec.isTime r.occurredAt ∧
      codec.isTime r.servedFrom ∧
    r.classification ∈ ["config", "secret"]

variable (owner : Owner)

def Server.record (caller : String) (server : Server) (r : OfflineRecord) : Option Server :=
  if owner r.credentialID ≠ caller then none
  else if (caller, r.recordID) ∈ server.claims then some server
  else some { claims := (caller, r.recordID) :: server.claims, events := (caller, r) ::
    server.events }

def reconcileOfflineRecords (caller : String) (records : List OfflineRecord) (server : Server) :
    Option Server :=
  if records = [] ∨ 1000 < records.length then none
  else if ¬ records.all (OfflineRecord.acceptable codec) then none
  else records.foldlM (Server.record owner caller) server

/-- A run of `flushOffline`: what it has read, how many records are posted, and the handles that
are still to be removed. -/
structure Flush where
  caller : String
  records : List OfflineRecord
  handles : List String
  sent : Nat := 0
  ended : Bool := false

structure LogWorld where
  files : Batches := []
  server : Server := ⟨[], []⟩
  flushes : List Flush := []
  drawn : List (String × List OfflineRecord) := []
  completed : List String := []
  flushed : List String := []

inductive LogAct
  /-- an append that returns, or crashes with so many bytes in its file, or with no file -/
  | append (records : List OfflineRecord) (nanos : Nat) (suffix : String)
      (crashed : Option (Option Nat))
  | pending (caller : String)
  /-- the answer of the server may be lost -/
  | post (flush : Nat) (answered : Bool)
  | markFlushed (flush : Nat)

def LogWorld.recordIDs (w : LogWorld) : List String := (w.drawn.flatMap (·.2)).map (·.recordID)

/-- `Append`.  File names and record ids are random, so that none is drawn twice. -/
def LogWorld.append (w : LogWorld) (records : List OfflineRecord) (name : String)
    (crashed : Option (Option Nat)) : Option LogWorld :=
  if records = [] ∨ ¬ records.all (OfflineRecord.validate codec) then none
  else if name ∈ w.drawn.map (·.1) ∨ ¬ (records.map (·.recordID) ++ w.recordIDs).Nodup then none
  else
    let w := { w with drawn := (name, records) :: w.drawn }
    match crashed with
    | none =>
      some { w with
        files := (name, codec.marshal records) :: w.files
        completed := name :: w.completed }
    | some none => some w
    | some (some n) => some { w with files := (name, (codec.marshal records).take n) :: w.files }

def LogWorld.pending (w : LogWorld) (caller : String) : Option LogWorld := do
  let (records, handles) ← Compose.pending codec w.files
  return { w with flushes := w.flushes ++ [{ caller, records, handles }] }

/-- The next chunk of a flush.  One that is refused, or whose answer is lost, ends the flush. -/
def LogWorld.post (w : LogWorld) (i : Nat) (answered : Bool) : Option LogWorld := do
  let flush ← w.flushes[i]?
  if flush.ended ∨ flush.records.length ≤ flush.sent then none
  else
    let chunk := (flush.records.drop flush.sent).take 1000
    match reconcileOfflineRecords codec owner flush.caller chunk w.server with
    | none => return { w with flushes := w.flushes.set i { flush with ended := true } }
    | some server =>
      let posted := if answered then { flush with sent := flush.sent + 1000 }
        else { flush with ended := true }
      return { w with server, flushes := w.flushes.set i posted }

/-- One round of `MarkFlushed`, which is called once every chunk is accepted.  A file that is gone
is passed over. -/
def LogWorld.markFlushed (w : LogWorld) (i : Nat) : Option LogWorld := do
  let flush ← w.flushes[i]?
  match flush.handles with
  | [] => none
  | handle :: rest =>
    if flush.ended ∨ flush.records = [] ∨ flush.sent < flush.records.length then none
    else if opaqueHandle handle then
      return { w with
        files := w.files.filter (·.1 ≠ handle)
        flushed := handle :: w.flushed
        flushes := w.flushes.set i { flush with handles := rest } }
    else return { w with flushes := w.flushes.set i { flush with ended := true } }

def LogWorld.step (w : LogWorld) : LogAct → Option LogWorld
  | .append records nanos suffix crashed => w.append codec records (batchName nanos suffix) crashed
  | .pending caller => w.pending codec caller
  | .post flush answered => w.post codec owner flush answered
  | .markFlushed flush => w.markFlushed flush

def Untorn : LogAct → Prop
  | .append records _ _ (some (some n)) => (codec.marshal records).length ≤ n
  | _ => True

end Log

section Server
variable {codec : BatchCodec} {owner : Owner} {drawn records : List OfflineRecord}
  {server server' : Server} {caller : String}

structure Server.Sound (owner : Owner) (drawn : List OfflineRecord) (server : Server) : Prop where
  claims : server.claims = server.events.map fun e => (e.1, e.2.recordID)
  once : server.claims.Nodup
  events : ∀ e ∈ server.events, e.1 = owner e.2.credentialID ∧ e.2 ∈ drawn

theorem Server.Sound.record {r : OfflineRecord}
    (sound : server.Sound owner drawn)
    (distinct : (drawn.map (·.recordID)).Nodup)
    (isDrawn : r ∈ drawn) (run : server.record owner caller r = some server') :
    server'.Sound owner drawn ∧ (owner r.credentialID, r) ∈ server'.events ∧ server.events ⊆
      server'.events := by
  obtain ⟨owned, run⟩ := Option.ite_none_left_eq_some.mp run
  simp only [ne_eq, not_not] at owned
  subst owned
  split at run
  · rename_i claimed
    cases run
    rw [sound.claims] at claimed
    obtain ⟨e, isEvent, same⟩ := mem_map.mp claimed
    obtain ⟨owns, eDrawn⟩ := sound.events e isEvent
    have sameRecord : e.2 = r := inj_on_of_nodup_map distinct eDrawn isDrawn
      (congrArg Prod.snd same)
    have isEvent' : e = (owner r.credentialID, r) := by rw [← sameRecord, ← owns]
    exact ⟨sound, isEvent' ▸ isEvent, fun _ => id⟩
  rename_i fresh
  cases run
  refine ⟨⟨by simp [sound.claims], nodup_cons.mpr ⟨fresh, sound.once⟩, fun e mem => ?_⟩, .head _,
    subset_cons_self _ _⟩
  rcases mem_cons.mp mem with rfl | old
  · exact ⟨rfl, isDrawn⟩
  · exact sound.events e old

theorem Server.Sound.recordAll (sound : server.Sound owner drawn)
    (distinct : (drawn.map (·.recordID)).Nodup) (areDrawn : records ⊆ drawn)
    (run : records.foldlM (Server.record owner caller) server = some server') :
    server'.Sound owner drawn ∧ (∀ r ∈ records, (owner r.credentialID, r) ∈ server'.events) ∧
      server.events ⊆ server'.events := by
  induction records generalizing server with
  | nil =>
    cases run
    exact ⟨sound, nofun, fun _ => id⟩
  | cons r _ ih =>
    obtain ⟨_, first, run⟩ := Option.bind_eq_some_iff.mp run
    obtain ⟨onward, recorded, more⟩ := sound.record distinct (areDrawn (.head _)) first
    obtain ⟨ends, all, more'⟩ := ih onward (fun _ mem => areDrawn (mem_cons_of_mem r mem)) run
    refine ⟨ends, fun other mem => ?_, fun _ mem => more' (more mem)⟩
    rcases mem_cons.mp mem with rfl | later
    · exact more' recorded
    · exact all other later

theorem Server.Sound.reconcile (sound : server.Sound owner drawn)
    (distinct : (drawn.map (·.recordID)).Nodup) (areDrawn : records ⊆ drawn)
    (run : reconcileOfflineRecords codec owner caller records server = some server') :
    server'.Sound owner drawn ∧ (∀ r ∈ records, (owner r.credentialID, r) ∈ server'.events) ∧
      server.events ⊆ server'.events := by
  unfold reconcileOfflineRecords at run
  split at run
  · cases run
  split at run
  · cases run
  exact sound.recordAll distinct areDrawn run

end Server

section Log
variable {codec : BatchCodec} {owner : Owner} {w w' : LogWorld} {records : List OfflineRecord}
  {name : String}

theorem readBatches_isSome (files : Batches) :
    (readBatches codec files).isSome = files.all fun f => (codec.decode f.2).isSome := by
  induction files with
  | nil => rfl
  | cons f rest ih =>
    rw [all_cons, ← ih]
    cases decoded : codec.decode f.2 with
    | none => simp [readBatches, decoded]
    | some => cases read : readBatches codec rest <;> simp [readBatches, decoded, read]

theorem readBatches_eq_some {files : Batches} {handles : List String}
    (read : readBatches codec files = some (records, handles)) :
    handles = files.map (·.1) ∧ ∀ r, r ∈ records ↔ ∃ f ∈ files, ∃ batch, codec.decode f.2 =
      some batch ∧ r ∈ batch := by
  induction files generalizing records handles with
  | nil =>
    cases read
    simp
  | cons _ _ ih =>
    obtain ⟨batch, isBatch, read⟩ := Option.bind_eq_some_iff.mp read
    obtain ⟨⟨_, _⟩, readRest, read⟩ := Option.bind_eq_some_iff.mp read
    cases read
    obtain ⟨isNames, isOthers⟩ := ih readRest
    refine ⟨by rw [isNames, map_cons], fun r => ?_⟩
    simp [isOthers, isBatch]

/-- The records of a flush and of its handles are drawn, and those it has sent are recorded. -/
structure Flush.Kept (owner : Owner) (w : LogWorld) (flush : Flush) : Prop where
  drawn : flush.records ⊆ w.drawn.flatMap (·.2)
  handles : ∀ name ∈ flush.handles, ∃ batch, (name, batch) ∈ w.drawn ∧ batch ⊆ flush.records
  sent : ∀ r ∈ flush.records.take flush.sent, (owner r.credentialID, r) ∈ w.server.events

theorem Flush.Kept.mono {flush : Flush} (kept : flush.Kept owner w) (drawn : w.drawn ⊆ w'.drawn)
    (events : w.server.events ⊆ w'.server.events) : flush.Kept owner w' where
  drawn r mem := by
    obtain ⟨b, isDrawn, inBatch⟩ := mem_flatMap.mp (kept.drawn mem)
    exact mem_flatMap.mpr ⟨b, drawn isDrawn, inBatch⟩
  handles name mem := by
    obtain ⟨batch, isDrawn, inRecords⟩ := kept.handles name mem
    exact ⟨batch, drawn isDrawn, inRecords⟩
  sent r mem := events (kept.sent r mem)

/-- The invariant of a run in which no batch is torn. -/
structure LogWorld.Kept (codec : BatchCodec) (owner : Owner) (w : LogWorld) : Prop where
  ids : w.recordIDs.Nodup
  names : (w.drawn.map (·.1)).Nodup
  whole : ∀ f ∈ w.files, ∃ batch, (f.1, batch) ∈ w.drawn ∧ f.2 = codec.marshal batch
  held : ∀ name ∈ w.completed, name ∉ w.flushed →
    ∃ batch, (name, batch) ∈ w.drawn ∧ (name, codec.marshal batch) ∈ w.files
  flushed : ∀ name ∈ w.flushed, ∃ batch, (name, batch) ∈ w.drawn ∧
    ∀ r ∈ batch, (owner r.credentialID, r) ∈ w.server.events
  server : w.server.Sound owner (w.drawn.flatMap (·.2))
  flushes : ∀ flush ∈ w.flushes, flush.Kept owner w

theorem LogWorld.Kept.reads (kept : w.Kept codec owner) :
    ∃ records handles, Compose.pending codec w.files = some (records, handles) ∧
      (∀ name, name ∈ handles ↔ name ∈ w.files.map (·.1)) ∧
      ∀ r, r ∈ records ↔ ∃ f ∈ w.files, ∃ batch, codec.decode f.2 = some batch ∧ r ∈ batch := by
  have whole : (Compose.pending codec w.files).isSome := by
    unfold Compose.pending
    rw [readBatches_isSome, all_eq_true]
    intro f mem
    obtain ⟨_, -, isBytes⟩ := kept.whole f (by simpa using mem)
    rw [isBytes, codec.decode_marshal]
    rfl
  obtain ⟨⟨records, _⟩, read⟩ := Option.isSome_iff_exists.mp whole
  obtain ⟨rfl, isRecords⟩ := readBatches_eq_some read
  exact ⟨records, _, read, by simp, by simpa using isRecords⟩

theorem eq_of_name (names : (w.drawn.map (·.1)).Nodup) {batch batch' : List OfflineRecord}
    (first : (name, batch) ∈ w.drawn) (second : (name, batch') ∈ w.drawn) : batch = batch' :=
  congrArg Prod.snd (inj_on_of_nodup_map names first second rfl)

section
variable (kept : w.Kept codec owner)
include kept

theorem LogWorld.Kept.draw (fresh : name ∉ w.drawn.map (·.1))
    (distinct : (records.map (·.recordID) ++ w.recordIDs).Nodup) :
    LogWorld.Kept codec owner { w with drawn := (name, records) :: w.drawn } where
  ids := by simpa [LogWorld.recordIDs] using distinct
  names := nodup_cons.mpr ⟨fresh, kept.names⟩
  whole f mem := by
    obtain ⟨batch, isDrawn, isBytes⟩ := kept.whole f mem
    exact ⟨batch, .tail _ isDrawn, isBytes⟩
  held other mem unflushed := by
    obtain ⟨batch, isDrawn, inFiles⟩ := kept.held other mem unflushed
    exact ⟨batch, .tail _ isDrawn, inFiles⟩
  flushed other mem := by
    obtain ⟨batch, isDrawn, recorded⟩ := kept.flushed other mem
    exact ⟨batch, .tail _ isDrawn, recorded⟩
  server := ⟨kept.server.claims, kept.server.once, fun e mem =>
    ⟨(kept.server.events e mem).1, mem_append_right _ (kept.server.events e mem).2⟩⟩
  flushes flush mem := (kept.flushes flush mem).mono (subset_cons_self _ _) fun _ => id

/-- A whole batch of a name that was drawn may appear, with or without its append completing. -/
theorem LogWorld.Kept.write (isDrawn : (name, records) ∈ w.drawn) {completed : List String}
    (isCompleted : ∀ other ∈ completed, other = name ∨ other ∈ w.completed) :
    LogWorld.Kept codec owner
      { w with files := (name, codec.marshal records) :: w.files, completed } := by
  refine { kept with
    whole := fun f mem => ?_, held := fun other mem unflushed => ?_, flushes := ?_ }
  · rcases mem_cons.mp mem with rfl | old
    · exact ⟨records, isDrawn, rfl⟩
    · exact kept.whole f old
  · rcases isCompleted other mem with rfl | old
    · exact ⟨records, isDrawn, .head _⟩
    · obtain ⟨batch, drawn, inFiles⟩ := kept.held other old unflushed
      exact ⟨batch, drawn, .tail _ inFiles⟩
  · exact fun flush mem => (kept.flushes flush mem).mono (fun _ => id) fun _ => id

theorem LogWorld.Kept.append {crashed : Option (Option Nat)}
    (untorn : ∀ n, crashed = some (some n) → (codec.marshal records).length ≤ n)
    (run : w.append codec records name crashed = some w') : w'.Kept codec owner := by
  unfold LogWorld.append at run
  split at run
  · cases run
  obtain ⟨drawable, run⟩ := Option.ite_none_left_eq_some.mp run
  simp only [not_or, not_not] at drawable
  have drawn : LogWorld.Kept codec owner { w with drawn := (name, records) :: w.drawn } :=
    kept.draw drawable.1 drawable.2
  split at run <;> cases run
  · exact drawn.write (.head _) fun _ mem => mem_cons.mp mem
  · exact drawn
  · rename_i n
    rw [take_of_length_le (untorn n rfl)]
    exact drawn.write (.head _) fun _ => .inr

theorem LogWorld.Kept.pending {caller : String} (run : w.pending codec caller = some w') :
    w'.Kept codec owner := by
  obtain ⟨records, handles, read, isHandles, isRecords⟩ := kept.reads
  unfold LogWorld.pending at run
  rw [read] at run
  cases run
  have fresh : Flush.Kept owner w { caller, records, handles } := by
    refine ⟨fun r mem => ?_, fun name mem => ?_, fun _ mem => by simp at mem⟩
    · obtain ⟨f, inFiles, batch, isBatch, inBatch⟩ := (isRecords r).mp mem
      obtain ⟨_, isDrawn, isBytes⟩ := kept.whole f inFiles
      rw [isBytes, codec.decode_marshal] at isBatch
      cases isBatch
      exact mem_flatMap.mpr ⟨_, isDrawn, inBatch⟩
    · obtain ⟨f, inFiles, rfl⟩ := mem_map.mp ((isHandles name).mp mem)
      obtain ⟨batch, isDrawn, isBytes⟩ := kept.whole f inFiles
      have decoded : codec.decode f.2 = some batch := by rw [isBytes, codec.decode_marshal]
      exact ⟨batch, isDrawn, fun r inBatch => (isRecords r).mpr ⟨f, inFiles, batch,
        decoded, inBatch⟩⟩
  refine { kept with flushes := fun flush mem => ?_ }
  rcases mem_append.mp mem with old | new
  · exact (kept.flushes flush old).mono (fun _ => id) fun _ => id
  · rw [mem_singleton.mp new]
    exact fresh.mono (fun _ => id) fun _ => id

/-- One flush may move on, and the server record more, as long as what it has sent is recorded. -/
theorem LogWorld.Kept.move {i : Nat} {flush : Flush} {server : Server}
    (sound : server.Sound owner (w.drawn.flatMap (·.2))) (more : w.server.events ⊆ server.events)
    (moved : flush.Kept owner { w with server }) :
    LogWorld.Kept codec owner { w with server, flushes := w.flushes.set i flush } := by
  refine { kept with
    flushed := fun name mem => ?_, server := sound, flushes := fun other mem => ?_ }
  · obtain ⟨batch, isDrawn, recorded⟩ := kept.flushed name mem
    exact ⟨batch, isDrawn, fun r inBatch => more (recorded r inBatch)⟩
  · rcases mem_or_eq_of_mem_set mem with old | rfl
    · exact (kept.flushes other old).mono (fun _ => id) more
    · exact moved.mono (fun _ => id) fun _ => id

theorem LogWorld.Kept.post {i : Nat} {answered : Bool}
    (run : w.post codec owner i answered = some w') : w'.Kept codec owner := by
  obtain ⟨flush, found, run⟩ := Option.bind_eq_some_iff.mp run
  have before := kept.flushes flush (mem_of_getElem? found)
  split at run
  · cases run
  dsimp only at run
  split at run
  · cases run
    exact kept.move kept.server (fun _ => id) ⟨before.drawn, before.handles, before.sent⟩
  · rename_i server posted
    have chunk : (flush.records.drop flush.sent).take 1000 ⊆ w.drawn.flatMap (·.2) :=
      fun _ mem => before.drawn (mem_of_mem_drop (mem_of_mem_take mem))
    obtain ⟨sound, recorded, more⟩ := kept.server.reconcile kept.ids chunk posted
    have sent : ∀ r ∈ flush.records.take flush.sent, (owner r.credentialID, r) ∈ server.events :=
      fun r mem => more (before.sent r mem)
    cases run
    refine kept.move sound more ?_
    cases answered with
    | false => exact ⟨before.drawn, before.handles, sent⟩
    | true =>
      refine ⟨before.drawn, before.handles, fun r mem => ?_⟩
      rw [if_pos rfl, take_add] at mem
      rcases mem_append.mp mem with early | late
      · exact sent r early
      · exact recorded r late

theorem LogWorld.Kept.markFlushed {i : Nat} (run : w.markFlushed i = some w') :
    w'.Kept codec owner := by
  obtain ⟨flush, found, run⟩ := Option.bind_eq_some_iff.mp run
  have before := kept.flushes flush (mem_of_getElem? found)
  split at run
  · cases run
  rename_i handle rest isHandles
  split at run
  · cases run
  rename_i ready
  simp only [not_or, Nat.not_lt] at ready
  have later : ∀ name ∈ rest, name ∈ flush.handles := fun name mem => isHandles ▸ .tail _ mem
  split at run <;> cases run
  · obtain ⟨batch, isDrawn, inRecords⟩ := before.handles handle (isHandles ▸ .head _)
    have sentAll : ∀ r ∈ batch, (owner r.credentialID, r) ∈ w.server.events :=
      fun r mem => before.sent r ((take_of_length_le ready.2.2).symm ▸ inRecords mem)
    have advanced : Flush.Kept owner w { flush with handles := rest } :=
      ⟨before.drawn, fun name mem => before.handles name (later name mem), before.sent⟩
    have moved := kept.move (i := i) kept.server (fun _ => id) advanced
    refine { moved with
      whole := fun f mem => kept.whole f (mem_filter.mp mem).1
      held := fun name mem unflushed => ?_
      flushed := fun name mem => ?_
      flushes := fun other mem => (moved.flushes other mem).mono (fun _ => id) fun _ => id }
    · obtain ⟨other, unmarked⟩ := not_or.mp (mt mem_cons.mpr unflushed)
      obtain ⟨b, drawn, inFiles⟩ := kept.held name mem unmarked
      exact ⟨b, drawn, mem_filter.mpr ⟨inFiles, by simpa using other⟩⟩
    · rcases mem_cons.mp mem with rfl | old
      · exact ⟨batch, isDrawn, sentAll⟩
      · exact kept.flushed name old
  · exact kept.move kept.server (fun _ => id) ⟨before.drawn, before.handles, before.sent⟩

theorem LogWorld.Kept.step {act : LogAct} (untorn : Untorn codec act)
    (run : w.step codec owner act = some w') : w'.Kept codec owner := by
  cases act with
  | append =>
    refine kept.append (fun n isCrashed => ?_) run
    subst isCrashed
    exact untorn
  | pending => exact kept.pending run
  | post => exact kept.post run
  | markFlushed => exact kept.markFlushed run

end

theorem LogWorld.kept_fresh : LogWorld.Kept codec owner {} := by
  constructor <;> simp [LogWorld.recordIDs]
  constructor <;> simp

theorem Server.Sound.countP_le {drawn : List OfflineRecord} {server : Server} {r : OfflineRecord}
    (sound : server.Sound owner drawn) (distinct : (drawn.map (·.recordID)).Nodup)
    (isDrawn : r ∈ drawn) :
    server.events.countP (fun e => e.2.recordID = r.recordID) = server.events.count
      (owner r.credentialID, r) ∧
      server.events.count (owner r.credentialID, r) ≤ 1 := by
  refine ⟨countP_congr fun e mem => ?_,
    nodup_iff_count_le_one.mp (.of_map _ (sound.claims ▸ sound.once)) _⟩
  obtain ⟨owns, eDrawn⟩ := sound.events e mem
  simp only [decide_eq_true_eq, beq_iff_eq]
  constructor
  · intro same
    have sameRecord : e.2 = r := inj_on_of_nodup_map distinct eDrawn isDrawn same
    rw [← sameRecord, ← owns]
  · rintro rfl
    rfl

end Log

/-- Where no batch is torn, every record of a completed append is pending until its file is removed
by a flush, and no record is at the server twice.  A record that was posted, or whose file was
removed, is there. -/
theorem offline_records_kept (codec : BatchCodec) (owner : Owner) (acts : List LogAct)
    (untorn : ∀ act ∈ acts, Untorn codec act) :
    let w := runFrom (LogWorld.step codec owner) {} acts
    (∃ records handles, pending codec w.files = some (records, handles) ∧
      ∀ name ∈ w.completed, name ∉ w.flushed → ∀ batch, (name, batch) ∈ w.drawn → batch ⊆ records) ∧
    ∀ name batch, (name, batch) ∈ w.drawn → ∀ r ∈ batch,
      w.server.events.countP (fun e => e.2.recordID = r.recordID) ≤ 1 ∧
      (name ∈ w.flushed ∨ (∃ flush ∈ w.flushes, r ∈ flush.records.take flush.sent) →
        w.server.events.countP (fun e => e.2.recordID = r.recordID) = 1 ∧
          (owner r.credentialID, r) ∈ w.server.events) := by
  intro w
  have kept : w.Kept codec owner :=
    runFrom_invariant_of_allowed (LogWorld.step codec owner) (fun _ => Untorn codec)
      (LogWorld.Kept codec owner) (fun _ _ _ kept allowed run => kept.step allowed run) acts {}
      LogWorld.kept_fresh (allowedFrom_of_forall _ (Untorn codec) _ untorn)
  refine ⟨?_, fun name batch isDrawn r inBatch => ?_⟩
  · obtain ⟨records, handles, read, -, isRecords⟩ := kept.reads
    refine ⟨records, handles, read, fun name completed unflushed batch isDrawn r inBatch => ?_⟩
    obtain ⟨batch', isDrawn', inFiles⟩ := kept.held name completed unflushed
    cases eq_of_name kept.names isDrawn isDrawn'
    exact (isRecords r).mpr ⟨_, inFiles, batch, codec.decode_marshal batch, inBatch⟩
  · obtain ⟨same, atMost⟩ := kept.server.countP_le kept.ids (mem_flatMap.mpr ⟨_, isDrawn, inBatch⟩)
    rw [same]
    refine ⟨atMost, fun uploaded => ?_⟩
    have recorded : (owner r.credentialID, r) ∈ w.server.events := by
      rcases uploaded with flushed | ⟨flush, mem, sent⟩
      · obtain ⟨_, isDrawn', recorded⟩ := kept.flushed name flushed
        exact recorded r (eq_of_name kept.names isDrawn isDrawn' ▸ inBatch)
      · exact (kept.flushes flush mem).sent r sent
    exact ⟨le_antisymm atMost (count_pos_iff.mpr recorded), recorded⟩

/-! ### A batch format

Three bytes for each character, and a mark before each character and each record. -/

def plainText (text : List Char) : Bytes :=
  text.flatMap (fun c =>
    [1, UInt8.ofNat (c.toNat / 65536), UInt8.ofNat (c.toNat / 256), UInt8.ofNat c.toNat]) ++ [0]

def readText : Bytes → Option (List Char × Bytes)
  | 0 :: rest => some ([], rest)
  | 1 :: high :: middle :: low :: rest => do
    let (text, rest) ← readText rest
    return (Char.ofNat (high.toNat * 65536 + middle.toNat * 256 + low.toNat) :: text, rest)
  | _ => none

def OfflineRecord.fields (r : OfflineRecord) : List String :=
  [r.recordID, r.keyID, r.keyName, r.classification, r.occurredAt, r.credentialID, r.generation,
    r.servedFrom]

def plainRecord (r : OfflineRecord) : Bytes := r.fields.flatMap fun text => plainText text.toList

def readRecord (bytes : Bytes) : Option (OfflineRecord × Bytes) := do
  let (recordID, bytes) ← readText bytes
  let (keyID, bytes) ← readText bytes
  let (keyName, bytes) ← readText bytes
  let (classification, bytes) ← readText bytes
  let (occurredAt, bytes) ← readText bytes
  let (credentialID, bytes) ← readText bytes
  let (generation, bytes) ← readText bytes
  let (servedFrom, bytes) ← readText bytes
  return (⟨.ofList recordID, .ofList keyID, .ofList keyName, .ofList classification,
    .ofList occurredAt, .ofList credentialID, .ofList generation, .ofList servedFrom⟩, bytes)

def plainBatch (batch : List OfflineRecord) : Bytes :=
  batch.flatMap (fun r => 1 :: plainRecord r) ++ [0]

def readBatch : Nat → Bytes → Option (List OfflineRecord)
  | _, [0] => some []
  | fuel + 1, 1 :: bytes => do
    let (r, bytes) ← readRecord bytes
    return r :: (← readBatch fuel bytes)
  | _, _ => none

theorem readText_append (text : List Char) (rest : Bytes) :
    readText (plainText text ++ rest) = some (text, rest) := by
  induction text with
  | nil => rfl
  | cons c text ih =>
    have bound : c.toNat < 65536 * 256 := by
      rcases c.valid with low | ⟨-, high⟩
      · exact Nat.lt_trans low (by decide)
      · exact Nat.lt_trans high (by decide)
    have spelled : (UInt8.ofNat (c.toNat / 65536)).toNat * 65536 +
        (UInt8.ofNat (c.toNat / 256)).toNat * 256 + (UInt8.ofNat c.toNat).toNat = c.toNat := by
      simp only [UInt8.toNat_ofNat']
      omega
    have split : plainText (c :: text) ++ rest = 1 :: UInt8.ofNat (c.toNat / 65536) ::
        UInt8.ofNat (c.toNat / 256) :: UInt8.ofNat c.toNat :: (plainText text ++ rest) := by
      simp [plainText]
    rw [split, readText, ih, spelled, Char.ofNat_toNat]
    rfl

theorem readRecord_append (r : OfflineRecord) (rest : Bytes) :
    readRecord (plainRecord r ++ rest) = some (r, rest) := by
  simp [readRecord, plainRecord, OfflineRecord.fields, readText_append]

theorem readBatch_plainBatch (batch : List OfflineRecord) {fuel : Nat}
    (enough : batch.length ≤ fuel) :
    readBatch fuel (plainBatch batch) = some batch := by
  induction batch generalizing fuel with
  | nil => cases fuel <;> rfl
  | cons r batch ih =>
    obtain ⟨fuel, rfl⟩ :=
      Nat.exists_eq_add_one_of_ne_zero (Nat.ne_of_gt (Nat.lt_of_lt_of_le (Nat.succ_pos _) enough))
    have split : plainBatch (r :: batch) = 1 :: (plainRecord r ++ plainBatch batch) := by
      simp [plainBatch]
    rw [split, readBatch, readRecord_append]
    simp [ih (Nat.le_of_succ_le_succ enough)]

theorem length_le_plainBatch (batch : List OfflineRecord) :
    batch.length ≤ (plainBatch batch).length := by
  induction batch with
  | nil => exact Nat.zero_le _
  | cons r batch ih =>
    simp only [plainBatch, flatMap_cons, length_append, length_cons] at ih ⊢
    omega

def plainBatchCodec : BatchCodec where
  isTime := fun _ => true
  marshal := plainBatch
  decode bytes := readBatch bytes.length bytes
  decode_marshal batch := readBatch_plainBatch batch (length_le_plainBatch batch)

def disclosed (id : String) : OfflineRecord :=
  ⟨id, "k", "A", "config", "t", "c", "v1-0123456789abcdef0123456789abcdef", "t"⟩

/-- The first flush loses its answer.  The second one has read both batches and stops after the
removal of the first. -/
def resentHistory : List LogAct :=
  [.append [disclosed "1"] 1 "a" none, .pending "c", .append [disclosed "2"] 2 "b" none,
    .post 0 false, .pending "c", .post 1 true, .markFlushed 1]

theorem run_resentHistory :
    let w := runFrom (LogWorld.step plainBatchCodec id) {} resentHistory
    w.completed = [batchName 2 "b", batchName 1 "a"] ∧ w.flushed = [batchName 1 "a"] ∧
      w.drawn = [(batchName 2 "b", [disclosed "2"]), (batchName 1 "a", [disclosed "1"])] ∧
      ∃ flush ∈ w.flushes, disclosed "2" ∈ flush.records.take flush.sent := by
  decide +kernel

theorem offline_records_kept_resent :
    let w := runFrom (LogWorld.step plainBatchCodec id) {} resentHistory
    (∃ records handles, pending plainBatchCodec w.files = some (records, handles) ∧
      disclosed "2" ∈ records) ∧
    ∀ r ∈ [disclosed "1", disclosed "2"],
      w.server.events.countP (fun e => e.2.recordID = r.recordID) = 1 := by
  have ends := run_resentHistory
  have kept :=
    offline_records_kept plainBatchCodec id resentHistory (by simp [resentHistory, Untorn])
  generalize runFrom (LogWorld.step plainBatchCodec id) {} resentHistory = w at ends kept ⊢
  obtain ⟨completed, flushed, drawn, posted⟩ := ends
  obtain ⟨⟨records, handles, read, all⟩, once⟩ := kept
  rw [drawn, flushed] at once
  rw [completed, flushed, drawn] at all
  refine ⟨⟨records, handles, read, ?_⟩, fun r mem => ?_⟩
  · exact all _ (.head _) (by decide +kernel) _ (.head _) (.head _)
  · rcases mem_cons.mp mem with rfl | two
    · exact ((once _ _ (.tail _ (.head _)) _ (.head _)).2 (.inl (.head _))).1
    · rw [mem_singleton.mp two]
      exact ((once _ _ (.head _) _ (.head _)).2 (.inr posted)).1

def tornHistory : List LogAct :=
  [.append [disclosed "1"] 1 "a" none, .append [disclosed "2"] 2 "b" (some (some 0))]

theorem torn_batch_hides_all :
    let w := runFrom (LogWorld.step plainBatchCodec id) {} tornHistory
    batchName 1 "a" ∈ w.completed ∧ batchName 1 "a" ∉ w.flushed ∧
      pending plainBatchCodec w.files = none := by
  decide +kernel

end Hikyo.Compose
