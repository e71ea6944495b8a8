import Mathlib.Logic.Function.Basic
import Hikyo.Adapter.Ledger
import Hikyo.Lib.Transition

/-!
# The adapter outbox

Goals of a target are queued as jobs, workers claim them under a lease, and an attempt brackets each
provider write by `Prepare`, which commits an intent and takes the target's provider-write lease,
and `Finish`, which records the outcome.  `step` has one action for each transaction; a request is
on its way from `send` to `respond`, whatever has become of the worker.  A goal of a publish
(`enqueuePublished`) does not look at the provider-write lease; every other goal (`enqueue`) waits
for it.
-/

namespace Hikyo.Adapter

open Hikyo.Lib Function

def leaseTime : Nat := 2 * 60 * 1000

inductive JobState
  | queued
  | running
  | superseded
  | succeeded
  | failed
deriving DecidableEq

structure ProviderLease where
  job : Nat
  effect : Nat
  expiresAt : Nat

structure Target where
  org : Nat
  paused : Bool
  generation : Nat := 0
  activeJob : Option Nat := none
  lease : Option ProviderLease := none

structure Job where
  target : Nat
  generation : Nat
  nextAttemptAt : Nat
  state : JobState := .queued
  leaseOwner : Option Nat := none
  leaseExpiresAt : Nat := 0

def Job.Pending (job : Job) : Prop := job.state = .queued ∨ job.state = .running

instance (job : Job) : Decidable job.Pending := inferInstanceAs (Decidable (_ ∨ _))

structure EffectRow where
  target : Nat
  job : Nat
  effect : Effect
  outcome : Option Outcome := none
deriving DecidableEq

structure OpenWrite where
  id : Nat
  effect : Effect
  expiresAt : Nat

structure Attempt where
  job : Nat
  target : Nat
  generation : Nat
  openWrite : Option OpenWrite := none

structure Request where
  target : Nat
  effect : Nat
  generation : Nat
  expiresAt : Nat

structure Outbox where
  clock : Nat := 0
  targets : Nat → Target
  jobs : Nat → Option Job := fun _ => none
  nextJob : Nat := 0
  effects : Nat → Option EffectRow := fun _ => none
  nextEffect : Nat := 0
  ledgers : Nat → Ledger := fun _ => ∅
  attempts : Nat → Option Attempt := fun _ => none
  requests : List Request := []
  outcomes : List Nat := []

def Outbox.start (org : Nat → Nat) (paused : Nat → Bool) : Outbox :=
  { targets := fun id => { org := org id, paused := paused id } }

def ProviderLease.expired (now : Nat) (lease : ProviderLease) : Bool :=
  decide (lease.expiresAt ≤ now)

def Target.idle (target : Target) (now : Nat) : Bool := target.lease.all (·.expired now)

def Outbox.jobIDs (s : Outbox) : List Nat := List.range s.nextJob

def Outbox.pendingOn (s : Outbox) (target id : Nat) : Bool :=
  (s.jobs id).any fun job => job.target == target && decide job.Pending

def Job.supersedeOn (target : Nat) (job : Job) : Job :=
  if job.target = target ∧ job.Pending then
    { job with state := .superseded, leaseOwner := none, leaseExpiresAt := 0 }
  else job

def Outbox.newGoal (s : Outbox) (target now : Nat) : Job :=
  { target, generation := (s.targets target).generation + 1, nextAttemptAt := now }

/-- The newest goal of the target is its active job and supersedes the pending ones. -/
def Outbox.install (s : Outbox) (target now : Nat) (lease : Option ProviderLease) : Outbox :=
  let row := s.targets target
  let job := s.newGoal target now
  let superseded := fun id => (s.jobs id).map (Job.supersedeOn target)
  { s with
    jobs := update superseded s.nextJob (some job)
    nextJob := s.nextJob + 1
    targets := update s.targets target
      { row with generation := job.generation, activeJob := some s.nextJob, lease } }

/-- `tryEnqueue` waits while a provider write is marked in flight. -/
def Outbox.enqueue (s : Outbox) (target now : Nat) : Option Outbox :=
  if s.clock < now ∨ (s.targets target).idle now = false ∨
      1000 ≤ (s.jobIDs.filter (s.pendingOn target)).length then none
  else some (s.install target now none)

/-- `EnqueuePublished` for one target.  It supersedes the active job alone, which has to be pending,
and the index on the pending jobs allows no other.  The provider-write lease is neither read nor
cleared. -/
def Outbox.enqueuePublished (s : Outbox) (target now : Nat) : Option Outbox :=
  let row := s.targets target
  if s.clock < now ∨ row.paused = true ∨
      s.jobIDs.filter (s.pendingOn target) ≠ row.activeJob.toList then none
  else some (s.install target now row.lease)

def Job.leased (job : Job) (now : Nat) : Bool :=
  job.state == .running && decide (now < job.leaseExpiresAt)

def Outbox.due (s : Outbox) (id : Nat) (job : Job) (now : Nat) : Bool :=
  let target := s.targets job.target
  !target.paused &&
    ((job.state == .queued && decide (job.nextAttemptAt ≤ now)) ||
      (job.state == .running && decide (job.leaseExpiresAt ≤ now))) &&
    decide ((s.jobIDs.filter fun other => (s.jobs other).any fun x =>
      (s.targets x.target).org == target.org && x.leased now).length < 4) &&
    s.jobIDs.all fun other => (s.jobs other).all fun x =>
      !(x.target == job.target && other != id && x.leased now)

/-- An intent without an outcome whose provider-write lease is not live. -/
def Outbox.indeterminate (s : Outbox) (target now id : Nat) : Bool :=
  (s.effects id).any fun row => row.target == target && row.outcome.isNone &&
    !((s.targets target).lease.any fun lease => lease.effect == id && !lease.expired now)

def Outbox.closeIndeterminateEffects (s : Outbox) (target now : Nat) : Outbox :=
  let closed := (List.range s.nextEffect).filter (s.indeterminate target now)
  let row := s.targets target
  { s with
    effects := fun id =>
      if id ∈ closed then (s.effects id).map fun row => { row with outcome := some .unknown }
        else s.effects id
    outcomes := s.outcomes ++ closed
    targets := update s.targets target { row with lease := row.lease.filter fun lease =>
      lease.effect ∉ closed } }

def Outbox.claimDue (s : Outbox) (worker id now : Nat) : Option Outbox := do
  let job ← s.jobs id
  if s.clock < now ∨ (s.attempts worker).isSome ∨ s.due id job now = false then none
  else
    let running := { job with
      state := JobState.running
      leaseOwner := some worker
      leaseExpiresAt := now + leaseTime }
    let s := { s with jobs := update s.jobs id (some running) }
    let s := s.closeIndeterminateEffects job.target now
    some { s with
      attempts := update s.attempts worker (some ⟨id, job.target, job.generation, none⟩) }

def Outbox.reserve (s : Outbox) (attempt : Attempt) (effect : Effect) (contested : Bool) :
    Option Outbox :=
  match (s.ledgers attempt.target).reserve effect contested with
  | .ok (_, ledger) => some { s with ledgers := update s.ledgers attempt.target ledger }
  | .error _ => none

def Job.ownedBy (job : Job) (worker : Nat) : Bool := job.leaseOwner == some worker

/-- The provider-write lease, the job lease, the ledger row and the intent, in one
transaction. -/
def Outbox.prepare (s : Outbox) (worker : Nat) (attempt : Attempt) (effect : Effect)
    (prior : LedgerState) (now : Nat) :
    Option Outbox := do
  let job ← s.jobs attempt.job
  let target := s.targets attempt.target
  if s.clock < now ∨ attempt.openWrite.isSome then none
  else if target.generation ≠ attempt.generation ∨ target.idle now = false then none
  else if job.state ≠ .running ∨ job.ownedBy worker = false then none
  else
    match (s.ledgers attempt.target).dispatch effect prior with
    | .error _ => none
    | .ok ledger =>
      let expiresAt := now + leaseTime
      some { s with
        targets := update s.targets attempt.target
          { target with lease := some ⟨attempt.job, s.nextEffect, expiresAt⟩ }
        jobs := update s.jobs attempt.job (some { job with leaseExpiresAt := expiresAt })
        ledgers := update s.ledgers attempt.target ledger
        effects := update s.effects s.nextEffect (some ⟨attempt.target, attempt.job, effect, none⟩)
        nextEffect := s.nextEffect + 1
        attempts := update s.attempts worker
          (some { attempt with openWrite := some ⟨s.nextEffect, effect, expiresAt⟩ }) }

def Outbox.send (s : Outbox) (attempt : Attempt) : Option Outbox := do
  let write ← attempt.openWrite
  if s.requests.any (·.effect == write.id) then none
  else some { s with requests := ⟨attempt.target, write.id, attempt.generation, write.expiresAt⟩ ::
    s.requests }

def Outbox.finish (s : Outbox) (worker : Nat) (attempt : Attempt) (completion : Completion) :
    Option Outbox := do
  let write ← attempt.openWrite
  let row ← s.effects write.id
  if s.requests.any (·.effect == write.id) ∨ row.outcome.isSome then none
  else
    match (s.ledgers attempt.target).complete write.effect completion with
    | .error _ => none
    | .ok ledger =>
      let target := s.targets attempt.target
      if target.lease.any fun lease => lease.job == attempt.job && lease.effect == write.id then
        some { s with
          effects :=
            update s.effects write.id (some { row with outcome := some completion.outcome })
          outcomes := s.outcomes ++ [write.id]
          ledgers := update s.ledgers attempt.target ledger
          targets := update s.targets attempt.target { target with lease := none }
          attempts := update s.attempts worker (some { attempt with openWrite := none }) }
      else none

inductive Ending
  | succeed
  | retry (due : Nat)
  | fail
  | failSuperseded
deriving DecidableEq

def Job.ended (job : Job) : Ending → Job
  | .succeed => { job with state := .succeeded, leaseOwner := none, leaseExpiresAt := 0 }
  | .retry due =>
    { job with
      state := .queued, nextAttemptAt := due, leaseOwner := none, leaseExpiresAt := 0 }
  | .fail | .failSuperseded =>
    { job with state := .failed, leaseOwner := none, leaseExpiresAt := 0 }

/-- The target's active job after the attempt.  The branch for a superseded job returns early. -/
def Ending.activeJob (active : Option Nat) : Ending → Option Nat
  | .succeed | .fail => none
  | .retry _ | .failSuperseded => active

/-- `finishJob`.  The worker is free also when the transaction is rolled back. -/
def Outbox.endAttempt (s : Outbox) (worker : Nat) (attempt : Attempt) (ending : Ending) :
    Option Outbox := do
  let job ← s.jobs attempt.job
  let target := s.targets attempt.target
  let free := { s with attempts := update s.attempts worker none }
  if job.ownedBy worker = false then some free
  else if ending ≠ .failSuperseded ∧
      (target.generation ≠ attempt.generation ∨ target.lease.isSome) then some free
  else some { free with
    jobs := update s.jobs attempt.job (some (job.ended ending))
    targets := update s.targets attempt.target
      { target with activeJob := ending.activeJob target.activeJob } }

inductive Action
  | advance (elapsed : Nat)
  | enqueue (target now : Nat)
  | enqueuePublished (target now : Nat)
  | claim (worker job now : Nat)
  | reserve (worker : Nat) (effect : Effect) (contested : Bool)
  | prepare (worker : Nat) (effect : Effect) (prior : LedgerState) (now : Nat)
  | send (worker : Nat)
  | respond (effect : Nat)
  | finish (worker : Nat) (completion : Completion)
  | endAttempt (worker : Nat) (ending : Ending)
  | crash (worker : Nat)

def step (s : Outbox) : Action → Option Outbox
  | .advance elapsed => some { s with clock := s.clock + elapsed }
  | .enqueue target now => s.enqueue target now
  | .enqueuePublished target now => s.enqueuePublished target now
  | .claim worker job now => s.claimDue worker job now
  | .reserve worker effect contested => do s.reserve (← s.attempts worker) effect contested
  | .prepare worker effect prior now => do s.prepare worker (← s.attempts worker) effect prior now
  | .send worker => do s.send (← s.attempts worker)
  | .respond effect => some { s with requests := s.requests.filter (·.effect != effect) }
  | .finish worker completion => do s.finish worker (← s.attempts worker) completion
  | .endAttempt worker ending => do s.endAttempt worker (← s.attempts worker) ending
  | .crash worker => some { s with attempts := update s.attempts worker none }

end Hikyo.Adapter
