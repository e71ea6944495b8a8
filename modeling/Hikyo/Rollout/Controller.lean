import Hikyo.Lib.Transaction
import Hikyo.Lib.Transition
import Mathlib.Data.List.Chain

/-!
# The rollout controller

The controller that carries signed configuration commands out.  Any number of `reconcile` runs
overlap, and each takes its next step at any time or never; an update of the journal takes effect
only while the journal is what was read.  `reconcile_ordered`: the accepted sequence numbers
increase, each accepted command was verified and gets at most one response, and the executor only
ever acts on the plan of the journal.  Digests are symbolic.
-/

namespace Hikyo.Rollout

open Hikyo.Lib List

inductive RolloutError
  | invalid | conflict | unavailable | unsupported | notSubmitted
deriving DecidableEq

inductive CommandAction
  | prepare | submit | observe | restore
deriving DecidableEq

inductive Phase
  | prepared | configWritten | rolloutRequested | rolloutReady | applied | restoring | restored
deriving DecidableEq

structure Intent where
  (jobID ownerInstanceID incarnation snapshotID : String)
  (revision catalogueVersion expectedGeneration generation : Int)
deriving DecidableEq

structure SingletonTopology where
  ha : Bool
  nodeID : String
deriving DecidableEq

structure SingletonTopologyChange where
  (before after : SingletonTopology)
deriving DecidableEq

/-- `body` has the fields that only the executor and the digest read. -/
structure PlanData where
  topology : Option SingletonTopologyChange
  intent : Intent
  targetDigest : String
  beforeStamp : Option String
  body : String
deriving DecidableEq

inductive Digest
  | plan (data : PlanData)
  | other (text : String)
deriving DecidableEq

structure Command where
  sequence : Nat
  action : CommandAction
  intent : Intent
  planDigest : Digest
  previousTemplateStamp : String
  topology : Option SingletonTopologyChange
  issuedAt : Int
  expiresAt : Int
  body : String
deriving DecidableEq

structure SignedCommand where
  command : Command
  signature : String
deriving DecidableEq

structure Record where
  digest : Digest
  plan : PlanData
deriving DecidableEq

inductive Outcome
  | complete
  | unsupported
deriving DecidableEq

structure Response where
  sequence : Nat
  commandDigest : SignedCommand
  planDigest : Digest
  receipt : Option Phase
  outcome : Outcome
deriving DecidableEq

structure ControllerJournal where
  accepted : SignedCommand
  plan : Option Record
  response : Option Response
deriving DecidableEq

structure Controller where
  /-- The checks of a command's fields, and of the signature over its encoding. -/
  authentic : SignedCommand → Bool
  targetDigest : String
  validIntent : Intent → Bool
  validDigest : Digest → Bool
  validPlan : PlanData → Bool
  /-- The record is not too large to be read back. -/
  decodes : ControllerJournal → Bool

/-- Where a run of `reconcile` stands: with the journal it has read, and the one it is about
to write. -/
inductive Run
  | accepting (before : Option ControllerJournal) (journal : ControllerJournal)
  | executing (signed : SignedCommand) (journal : ControllerJournal)
  | responding (before journal : ControllerJournal)

structure Answers where
  prepared : Except RolloutError PlanData
  request : Option Record
  cancelled : Except RolloutError Phase
  reply : Except RolloutError Phase
  interrupted : Bool

def previousTemplateStamp (plan : PlanData) : String := plan.beforeStamp.getD ""

def ControllerJournal.sequence (journal : ControllerJournal) : Nat :=
  journal.accepted.command.sequence

def ControllerJournal.replaceable (journal : ControllerJournal) : Bool :=
  let staged := journal.accepted.command.action = .prepare ∧
    journal.response.any (·.outcome = .complete)
  let terminal := journal.response.any fun response =>
    response.receipt = some .applied ∨ response.receipt = some .restored
  staged ∨ terminal

namespace Controller
variable (c : Controller)

def verifyCommand (signed : SignedCommand) : Bool :=
  signed.command.sequence ≠ 0 ∧ c.authentic signed

/-- A later command waits until the accepted one has its response; a restore does not. -/
def queued (mailbox : SignedCommand) (journal : ControllerJournal) : SignedCommand :=
  if journal.sequence < mailbox.command.sequence ∧ journal.sequence ≠ 0 ∧ journal.response = none ∧
      mailbox.command.action ≠ .restore then journal.accepted
  else mailbox

def accept (now : Int) (signed : SignedCommand) (journal : Option ControllerJournal) :
    Except RolloutError ControllerJournal := do
  let command := signed.command
  require (command.issuedAt ≤ now ∧ now < command.expiresAt) .invalid
  let plan := journal.bind ControllerJournal.plan
  if command.action = .prepare then
    require (plan = none ∨ journal.any ControllerJournal.replaceable) .conflict
    return ⟨signed, none, none⟩
  else
    require (plan.any fun record =>
      record.digest = command.planDigest ∧ record.plan.intent = command.intent) .conflict
    return ⟨signed, plan, none⟩

/-- The part of `reconcile` up to its first update; `none` if the response is there already. -/
def consider (now : Int) (mailbox : SignedCommand) : Option ControllerJournal →
    Except RolloutError (Option Run)
  | none => do
    require (c.verifyCommand mailbox) .invalid
    return some (.accepting none (← accept now mailbox none))
  | some journal => do
    require (c.verifyCommand mailbox) .invalid
    require (c.decodes journal ∧ c.verifyCommand journal.accepted) .conflict
    let signed := queued mailbox journal
    require (journal.sequence ≤ signed.command.sequence) .conflict
    if signed.command.sequence = journal.sequence then
      require (signed = journal.accepted) .conflict
      return if journal.response = none then some (.executing signed journal) else none
    else return some (.accepting (some journal) (← accept now signed (some journal)))

def loadRecord (request : Option Record) (intent : Intent) : Except RolloutError Record :=
  match request with
  | none => .error .notSubmitted
  | some record => do
    require (record.plan.intent = intent ∧ record.plan.targetDigest = c.targetDigest ∧
      record.digest = .plan record.plan ∧ c.validPlan record.plan) .conflict
    return record

def requested (request : Option Record) (intent : Intent) (expected : Digest) :
    Except RolloutError PlanData := do
  require (c.validDigest expected) .invalid
  let record ← c.loadRecord request intent
  require (record.digest = expected) .conflict
  return record.plan

def submit (request : Option Record) (intent : Intent) (expected : Digest) (given : Record) :
    Except RolloutError PlanData := do
  require (c.validIntent intent ∧ c.validDigest expected) .invalid
  match c.loadRecord request intent with
  | .ok record =>
    require (record.digest = expected ∧ given.digest = record.digest) .conflict
    return record.plan
  | .error _ =>
    require (given.plan.intent = intent ∧ given.plan.targetDigest = c.targetDigest ∧
      given.digest = .plan given.plan ∧ given.digest = expected) .invalid
    return given.plan

def cancelPrepared (intent : Intent) (expected : Digest) (given : Record) :
    Except RolloutError PlanData := do
  require (c.validIntent intent ∧ c.validDigest expected ∧ given.plan.intent = intent ∧
    given.plan.targetDigest = c.targetDigest ∧ given.digest = expected ∧
    .plan given.plan = expected ∧ c.validPlan given.plan) .invalid
  return given.plan

def attempt (resolved : Except RolloutError PlanData) (reply : Except RolloutError Phase) :
    List PlanData × Except RolloutError Phase :=
  match resolved with
  | .ok plan => ([plan], reply)
  | .error error => ([], .error error)

def act (answers : Answers) (command : Command) (record : Record) :
    List PlanData × Except RolloutError Phase :=
  let requested := c.requested answers.request command.intent command.planDigest
  match command.action with
  | .prepare => ([], .error .invalid)
  | .submit =>
    if record.digest = command.planDigest then
      attempt (c.submit answers.request command.intent command.planDigest record) answers.reply
    else ([], .error .conflict)
  | .observe => attempt requested answers.reply
  | .restore =>
    match attempt (c.cancelPrepared command.intent command.planDigest record) answers.cancelled with
    | (plans, .error .conflict) =>
        ((plans ++ (attempt requested answers.reply).1), (attempt requested answers.reply).2)
    | cancelled => cancelled

/-- Outages and conflicts are left for the next run; other errors are answered. -/
def conclude (interrupted : Bool) (failed : ControllerJournal) :
    Except RolloutError ControllerJournal → Option ControllerJournal
  | .ok journal => some journal
  | .error error =>
    if error = .unavailable ∨ error = .conflict ∨ interrupted then none else some failed

def execute (answers : Answers) (signed : SignedCommand) (journal : ControllerJournal) :
    List PlanData × Option ControllerJournal :=
  let command := signed.command
  let response : Response := ⟨command.sequence, signed, command.planDigest, none, .complete⟩
  let conclude := conclude answers.interrupted
    { journal with response := some { response with outcome := .unsupported } }
  if command.action = .prepare then
    ([], conclude do
      let plan ← answers.prepared
      require (command.previousTemplateStamp = previousTemplateStamp plan) .conflict
      return { journal with
        plan := some ⟨.plan plan, plan⟩, response :=
          some { response with planDigest := .plan plan } })
  else
    match journal.plan with
    | none => ([], none)
    | some record =>
      if command.topology = record.plan.topology ∧
          command.previousTemplateStamp = previousTemplateStamp record.plan then
        let (plans, result) := c.act answers command record
        (plans, conclude ((fun phase =>
          { journal with response := some { response with receipt := some phase } }) <$> result))
      else ([], none)

end Controller

/-- `history` has what was written to the journal, the newest first. -/
structure World where
  history : List ControllerJournal := []
  runs : List Run := []
  executed : List (SignedCommand × List PlanData) := []

inductive Move
  | read (mailbox : SignedCommand) (now : Int)
  | execute (run : Nat) (answers : Answers)
  | update (run : Nat)

namespace Controller
variable (c : Controller)

def step (w : World) : Move → Option World
  | .read mailbox now => do
    let run ← (c.consider now mailbox w.history.head?).toOption.join
    return { w with runs := run :: w.runs }
  | .execute index answers =>
    match w.runs[index]? with
    | some (.executing signed journal) =>
      let (plans, answered) := c.execute answers signed journal
      some { w with
        runs := answered.toList.map (.responding journal) ++ w.runs
        executed := (signed, plans) :: w.executed }
    | _ => none
  | .update index =>
    match w.runs[index]? with
    | some (.accepting before journal) =>
      if w.history.head? = before then
        some { w with
          history := journal :: w.history, runs := .executing journal.accepted journal :: w.runs }
      else none
    | some (.responding before journal) =>
      if w.history.head? = some before then some { w with history := journal :: w.history }
        else none
    | _ => none

def run (moves : List Move) : World := runFrom c.step {} moves

end Controller

def Follows (journal before : ControllerJournal) : Prop :=
  (journal.response = none ∧ before.sequence < journal.sequence ∧
    (journal.accepted.command.action ≠ .restore → before.response ≠ none)) ∨
  (journal.accepted = before.accepted ∧ before.response = none ∧ journal.response ≠ none)

structure Ordered (c : Controller) (w : World) : Prop where
  writes : w.history.IsChain Follows
  increasing : (w.history.filter fun journal => journal.response = none).Pairwise
    fun later earlier =>
    earlier.sequence < later.sequence
  accepted : ∀ journal ∈ w.history, c.verifyCommand journal.accepted
  once : ((w.history.filterMap ControllerJournal.response).map Response.sequence).Nodup
  executed : ∀ signed plans, (signed, plans) ∈ w.executed → c.verifyCommand signed ∧ ∀ plan ∈ plans,
    ∃ journal ∈ w.history, journal.accepted = signed ∧
      ∃ record, journal.plan = some record ∧ record.digest = signed.command.planDigest ∧
        record.plan = plan

section Journal
variable (c : Controller)

structure ControllerJournal.Sound (journal : ControllerJournal) : Prop where
  verified : c.verifyCommand journal.accepted
  digest : ∀ record, journal.plan = some record → record.digest = .plan record.plan
  named : journal.accepted.command.action ≠ .prepare →
    ∃ record, journal.plan = some record ∧ record.digest = journal.accepted.command.planDigest
  answers : ∀ response, journal.response = some response → response.sequence = journal.sequence

def Run.Sound (history : List ControllerJournal) : Run → Prop
  | .accepting before journal =>
    journal.Sound c ∧ journal.response = none ∧ ∀ old, before = some old → Follows journal old
  | .executing signed journal =>
      signed = journal.accepted ∧ journal ∈ history ∧ journal.response = none
  | .responding before journal => journal.Sound c ∧ Follows journal before

structure World.Sound (w : World) : Prop where
  writes : w.history.IsChain Follows
  journals : ∀ journal ∈ w.history, journal.Sound c
  runs : ∀ run ∈ w.runs, run.Sound c w.history
  executed : ∀ signed plans, (signed, plans) ∈ w.executed →
    ∃ journal ∈ w.history, journal.accepted = signed ∧
    ∀ plan ∈ plans, ∃ record, journal.plan = some record ∧
      record.digest = signed.command.planDigest ∧
      record.plan = plan

variable {c} {w : World} {request : Option Record} {intent : Intent} {expected : Digest}
  {given : Record} {plan : PlanData} {journal : ControllerJournal} {answers : Answers}
  {signed : SignedCommand} {now : Int}

theorem accept_sound {old : Option ControllerJournal} (verified : c.verifyCommand signed)
    (sound : ∀ journal, old = some journal → journal.Sound c)
    (accepts : Controller.accept now signed old = .ok journal) :
    journal.accepted = signed ∧ journal.response = none ∧ journal.Sound c := by
  obtain ⟨-, accepts⟩ := require_bind_eq_ok.mp accepts
  split at accepts
  next prepares =>
    obtain ⟨-, accepts⟩ := require_bind_eq_ok.mp accepts
    cases accepts
    exact ⟨rfl, rfl, verified, by simp, fun other => absurd prepares other, by simp⟩
  next =>
    obtain ⟨names, accepts⟩ := require_bind_eq_ok.mp accepts
    cases accepts
    obtain ⟨record, stored, named⟩ := (Option.any_eq_true _ _).mp names
    refine ⟨rfl, rfl, verified, fun other found => ?_,
      fun _ => ⟨record, stored, (of_decide_eq_true named).1⟩, by simp⟩
    obtain ⟨journal, isOld, found⟩ := Option.bind_eq_some_iff.mp found
    exact (sound journal isOld).digest other found

theorem consider_sound {mailbox : SignedCommand} {run : Run} (sound : w.Sound c)
    (considers : c.consider now mailbox w.history.head? = .ok (some run)) :
    run.Sound c w.history := by
  cases stored : w.history.head? with
  | none =>
    rw [stored] at considers
    obtain ⟨verified, considers⟩ := require_bind_eq_ok.mp considers
    obtain ⟨journal, accepts, same⟩ := bind_eq_ok.mp considers
    cases same
    obtain ⟨-, unanswered, isSound⟩ := accept_sound verified (by simp) accepts
    exact ⟨isSound, unanswered, by simp⟩
  | some old =>
    rw [stored] at considers
    obtain ⟨authentic, considers⟩ := require_bind_eq_ok.mp considers
    obtain ⟨-, considers⟩ := require_bind_eq_ok.mp considers
    obtain ⟨notEarlier, considers⟩ := require_bind_eq_ok.mp considers
    have mem : old ∈ w.history := mem_of_head? stored
    have oldSound := sound.journals old mem
    split at considers
    next =>
      obtain ⟨same, considers⟩ := require_bind_eq_ok.mp considers
      cases unanswered : old.response with
      | none =>
        rw [if_pos unanswered] at considers
        cases considers
        exact ⟨same, mem, unanswered⟩
      | some => simp [unanswered, pure, Except.pure] at considers
    next differs =>
      obtain ⟨journal, accepts, same⟩ := bind_eq_ok.mp considers
      cases same
      -- a command that waits has the accepted sequence number, so this one does not wait
      have direct : Controller.queued mailbox old = mailbox :=
        if_neg fun waits => differs (by rw [Controller.queued, if_pos waits]; rfl)
      rw [direct] at accepts notEarlier differs
      obtain ⟨rfl, unanswered, isSound⟩ := accept_sound authentic (by simpa using oldSound) accepts
      have later := Nat.lt_of_le_of_ne notEarlier (Ne.symm differs)
      refine ⟨isSound, unanswered, fun _ same => .inl ⟨unanswered, ?_⟩⟩
      cases same
      refine ⟨later, fun notRestore noResponse => ?_⟩
      have nonzero : old.sequence ≠ 0 := (of_decide_eq_true oldSound.verified).1
      have waits : Controller.queued journal.accepted old = old.accepted :=
        if_pos ⟨later, nonzero, noResponse, notRestore⟩
      exact differs (congrArg (·.command.sequence) (direct.symm.trans waits))

theorem loadRecord_digest {record : Record} (loads : c.loadRecord request intent = .ok record) :
    record.digest = .plan record.plan := by
  cases request with
  | none => cases loads
  | some stored =>
    obtain ⟨⟨-, -, digest, -⟩, same⟩ := require_bind_eq_ok.mp loads
    cases same
    exact digest

theorem requested_digest (resolves : c.requested request intent expected = .ok plan) :
    .plan plan = expected := by
  obtain ⟨-, resolves⟩ := require_bind_eq_ok.mp resolves
  obtain ⟨record, loads, resolves⟩ := bind_eq_ok.mp resolves
  obtain ⟨named, same⟩ := require_bind_eq_ok.mp resolves
  cases same
  exact (loadRecord_digest loads).symm.trans named

theorem submit_digest (resolves : c.submit request intent expected given = .ok plan) :
    .plan plan = expected := by
  obtain ⟨-, resolves⟩ := require_bind_eq_ok.mp resolves
  cases loads : c.loadRecord request intent with
  | ok record =>
    rw [loads] at resolves
    obtain ⟨⟨named, -⟩, same⟩ := require_bind_eq_ok.mp resolves
    cases same
    exact (loadRecord_digest loads).symm.trans named
  | error =>
    rw [loads] at resolves
    obtain ⟨⟨-, -, digest, named⟩, same⟩ := require_bind_eq_ok.mp resolves
    cases same
    exact digest.symm.trans named

theorem attempt_digest {resolved : Except RolloutError PlanData} {reply : Except RolloutError Phase}
    (resolves : ∀ plan, resolved = .ok plan → .plan plan = expected)
    (acted : plan ∈ (Controller.attempt resolved reply).1) : .plan plan = expected := by
  cases resolved with
  | error => cases acted
  | ok other =>
    cases mem_singleton.mp acted
    exact resolves plan rfl

theorem act_digest {command : Command} {record : Record}
    (acted : plan ∈ (c.act answers command record).1) : .plan plan = command.planDigest := by
  unfold Controller.act at acted
  cases action : command.action with
  | prepare => simp [action] at acted
  | submit =>
    simp only [action] at acted
    split at acted
    · exact attempt_digest (fun _ => submit_digest) acted
    · cases acted
  | observe =>
    simp only [action] at acted
    exact attempt_digest (fun _ => requested_digest) acted
  | restore =>
    simp only [action] at acted
    have cancels (plan : PlanData)
        (resolves : c.cancelPrepared command.intent command.planDigest record = .ok plan) :
        .plan plan = command.planDigest := by
      obtain ⟨⟨-, -, -, -, -, named, -⟩, same⟩ := require_bind_eq_ok.mp resolves
      cases same
      exact named
    split at acted
    next plans first =>
      rcases mem_append.mp acted with acted | acted
      · exact attempt_digest cancels (by rw [first]; exact acted)
      · exact attempt_digest (fun _ => requested_digest) acted
    · exact attempt_digest cancels acted

theorem conclude_eq_some {interrupted : Bool} {failed : ControllerJournal}
    {result : Except RolloutError ControllerJournal}
    (concludes : Controller.conclude interrupted failed result = some journal) :
    result = .ok journal ∨ failed = journal := by
  cases result with
  | ok => exact .inl (congrArg _ (Option.some.inj concludes))
  | error => exact .inr (Option.some.inj (Option.ite_none_left_eq_some.mp concludes).2)

theorem execute_sound (sound : journal.Sound c) (unanswered : journal.response = none) :
    (∀ plan ∈ (c.execute answers journal.accepted journal).1, ∃ record, journal.plan = some record ∧
      record.digest = journal.accepted.command.planDigest ∧ record.plan = plan) ∧
    ∀ next, (c.execute answers journal.accepted journal).2 = some next → next.Sound c ∧
      Follows next journal := by
  have answered (plan : Option Record) (response : Response) (kept : ∀ record, plan = some record →
      record.digest = .plan record.plan) (named : journal.accepted.command.action ≠ .prepare →
      plan = journal.plan) (same : response.sequence = journal.sequence) :
      ControllerJournal.Sound c ⟨journal.accepted, plan, some response⟩ ∧
      Follows ⟨journal.accepted, plan, some response⟩ journal :=
    ⟨⟨sound.verified, kept, fun other => named other ▸ sound.named other,
      by rintro _ ⟨⟩; exact same⟩, .inr ⟨rfl, unanswered, by simp⟩⟩
  unfold Controller.execute
  dsimp only
  split
  next prepares =>
    refine ⟨by simp, fun next concludes => ?_⟩
    rcases conclude_eq_some concludes with done | rfl
    · obtain ⟨plan, -, done⟩ := bind_eq_ok.mp done
      obtain ⟨-, done⟩ := require_bind_eq_ok.mp done
      cases done
      exact answered _ _ (by rintro _ ⟨⟩; rfl) (fun other => absurd prepares other) rfl
    · exact answered _ _ sound.digest (fun _ => rfl) rfl
  next executes =>
    obtain ⟨record, stored, named⟩ := sound.named executes
    have kept (response : Response) := answered (some record) response
      (fun other same => sound.digest other (stored.trans same)) fun _ => stored.symm
    rw [stored]
    dsimp only
    split
    · refine ⟨fun plan acted => ⟨record, rfl, named, ?_⟩, fun next concludes => ?_⟩
      · exact Digest.plan.inj ((sound.digest record stored).symm.trans
          (named.trans (act_digest acted).symm))
      rcases conclude_eq_some concludes with done | rfl
      · obtain ⟨_, -, rfl⟩ := map_eq_ok.mp done
        exact kept _ rfl
      · exact kept _ rfl
    · exact ⟨by simp, by simp⟩

theorem World.Sound.write (sound : w.Sound c) {runs : List Run} (isSound : journal.Sound c)
    (follows : ∀ old ∈ w.history.head?, Follows journal old)
    (stands : ∀ run ∈ runs, run.Sound c (journal :: w.history) ∨ run ∈ w.runs) :
    World.Sound c { w with history := journal :: w.history, runs := runs } where
  writes := isChain_cons.mpr ⟨follows, sound.writes⟩
  journals := forall_mem_cons.mpr ⟨isSound, sound.journals⟩
  runs run mem := by
    rcases stands run mem with new | old
    · exact new
    have before := sound.runs run old
    cases run with
    | accepting | responding => exact before
    | executing => exact ⟨before.1, .tail _ before.2.1, before.2.2⟩
  executed signed plans mem := by
    obtain ⟨accepted, logged, acts⟩ := sound.executed signed plans mem
    exact ⟨accepted, .tail _ logged, acts⟩

theorem step_sound {move : Move} {after : World} (sound : w.Sound c)
    (taken : c.step w move = some after) :
    after.Sound c := by
  cases move with
  | read mailbox now =>
    obtain ⟨run, found, same⟩ := Option.bind_eq_some_iff.mp taken
    cases same
    cases considers : c.consider now mailbox w.history.head? with
    | error => simp [considers, Except.toOption] at found
    | ok =>
      simp only [considers, Except.toOption, Option.join_some] at found
      have stands := consider_sound sound (considers.trans (congrArg _ found))
      exact { sound with runs := forall_mem_cons.mpr ⟨stands, sound.runs⟩ }
  | execute index answers =>
    simp only [Controller.step] at taken
    split at taken
    next isRun =>
      cases taken
      obtain ⟨rfl, mem, unanswered⟩ := sound.runs _ (mem_of_getElem? isRun)
      obtain ⟨acts, concludes⟩ := execute_sound (sound.journals _ mem) unanswered
      refine { sound with runs := fun run new => ?_, executed := ?_ }
      · rcases mem_append.mp new with new | old
        · obtain ⟨next, isNext, rfl⟩ := mem_map.mp new
          exact concludes next (Option.mem_toList.mp isNext)
        · exact sound.runs run old
      rintro signed plans (_ | ⟨_, old⟩)
      · exact ⟨_, mem, rfl, acts⟩
      · exact sound.executed signed plans old
    · cases taken
  | update index =>
    simp only [Controller.step] at taken
    split at taken
    next before journal isRun =>
      obtain ⟨current, taken⟩ := Option.ite_none_right_eq_some.mp taken
      cases taken
      obtain ⟨isSound, unanswered, follows⟩ := sound.runs _ (mem_of_getElem? isRun)
      refine sound.write isSound (fun old isOld => follows old (current ▸ isOld)) fun run mem => ?_
      rcases mem_cons.mp mem with rfl | old
      · exact .inl ⟨rfl, .head _, unanswered⟩
      · exact .inr old
    next before journal isRun =>
      obtain ⟨current, taken⟩ := Option.ite_none_right_eq_some.mp taken
      cases taken
      obtain ⟨isSound, follows⟩ := sound.runs _ (mem_of_getElem? isRun)
      refine sound.write isSound (fun old isOld => ?_) fun run => .inr
      cases current.symm.trans isOld
      exact follows
    · cases taken

/-- The sequence number grows, or the response is added under the same one. -/
def Grows (later earlier : ControllerJournal) : Prop :=
  earlier.sequence < later.sequence ∨
    earlier.sequence = later.sequence ∧ earlier.response = none ∧ later.response ≠ none

instance growsTrans : Trans Grows Grows Grows where
  trans := by
    rintro a b c (first | ⟨first, unanswered, -⟩) (second | ⟨second, -, answered⟩)
    · exact .inl (second.trans first)
    · exact .inl (second ▸ first)
    · exact .inl (first ▸ second)
    · exact absurd unanswered answered

theorem World.Sound.pairwise (sound : w.Sound c) : w.history.Pairwise Grows := by
  refine isChain_iff_pairwise.mp (sound.writes.imp fun later earlier follows => ?_)
  rcases follows with ⟨-, less, -⟩ | ⟨same, unanswered, answered⟩
  · exact .inl less
  · exact .inr ⟨congrArg (·.command.sequence) same.symm, unanswered, answered⟩

end Journal

/-- Accepted numbers increase, what is accepted is verified and answered once, and the executor acts
on the journaled plan. -/
theorem reconcile_ordered (c : Controller) (moves : List Move) : Ordered c (c.run moves) := by
  have sound : World.Sound c (c.run moves) :=
    runFrom_invariant c.step (World.Sound c) (fun _ _ _ => step_sound) moves {}
      ⟨.nil, by simp, by simp, by simp⟩
  refine ⟨sound.writes, ?_, fun journal mem => (sound.journals journal mem).verified, ?_, ?_⟩
  · refine (sound.pairwise.filter _).imp_of_mem fun later earlier grows => ?_
    have unanswered := of_decide_eq_true (mem_filter.mp later).2
    exact grows.resolve_right fun same => same.2.2 unanswered
  · rw [List.Nodup, pairwise_map, pairwise_filterMap]
    refine sound.pairwise.imp_of_mem
      fun later earlier grows response isLater other isEarlier same => ?_
    rw [(sound.journals _ later).answers response isLater,
      (sound.journals _ earlier).answers other isEarlier] at same
    rcases grows with less | ⟨-, unanswered, -⟩
    · omega
    · cases unanswered.symm.trans isEarlier
  · intro signed plans mem
    obtain ⟨journal, logged, rfl, acts⟩ := sound.executed signed plans mem
    exact ⟨(sound.journals journal logged).verified,
      fun plan acted => ⟨journal, logged, rfl, acts plan acted⟩⟩

end Hikyo.Rollout
