import Hikyo.Adapter.Outbox
import Hikyo.Lib.Transaction

/-!
# Provider writes are fenced

Two invariants of every history of the outbox.  `Recorded` says that the outcomes are those of the
intents that are closed, each once.  `Fenced` says, for histories in which a provider request is
sent and ends before the lease of its intent runs out (`WithinLease`), that while a request is on
its way its target's provider-write lease is its own and live; so no two requests of one target
overlap (`Fenced.oneInFlight`).  One inversion lemma for each transaction comes first.
-/

namespace Hikyo.Adapter

open Hikyo.Lib List Function

variable {action : Action} {completion : Completion} {effect : Effect} {prior : LedgerState}
  {expiresAt id now other target worker : Nat} {lease : ProviderLease}

section Inversion
variable {s s' : Outbox} {attempt : Attempt}

theorem enqueue_eq_some (taken : s.enqueue target now = some s') :
    now ≤ s.clock ∧ (s.targets target).idle now = true ∧ s' = s.install target now none := by
  unfold Outbox.enqueue at taken
  split at taken
  · cases taken
  rename_i met
  push Not at met
  cases taken
  exact ⟨met.1, by simpa using met.2.1, rfl⟩

theorem install_jobs (lease : Option ProviderLease) : (s.install target now lease).jobs =
    update (fun id => (s.jobs id).map (Job.supersedeOn target)) s.nextJob
      (some (s.newGoal target now)) :=
  rfl

theorem enqueuePublished_eq_some (taken : s.enqueuePublished target now = some s') :
    now ≤ s.clock ∧ s' = s.install target now (s.targets target).lease := by
  unfold Outbox.enqueuePublished at taken
  dsimp only at taken
  split at taken
  · cases taken
  rename_i met
  push Not at met
  cases taken
  exact ⟨met.1, rfl⟩

theorem claimDue_eq_some (taken : s.claimDue worker id now = some s') :
    ∃ job, s.jobs id = some job ∧ now ≤ s.clock ∧ s.attempts worker = none ∧
      s.due id job now = true ∧
      s' = { ({ s with jobs := update s.jobs id (some { job with
          state := .running, leaseOwner := some worker, leaseExpiresAt :=
            now + leaseTime }) }).closeIndeterminateEffects
            job.target now with
        attempts := update s.attempts worker (some ⟨id, job.target, job.generation, none⟩) } := by
  obtain ⟨job, found, taken⟩ := Option.bind_eq_some_iff.mp taken
  split at taken
  · cases taken
  rename_i met
  push Not at met
  cases taken
  exact ⟨job, found, met.1, by simpa using met.2.1, by simpa using met.2.2, rfl⟩

theorem prepare_eq_some
    (taken : s.prepare worker attempt effect prior now = some s') :
    ∃ job ledger, s.jobs attempt.job = some job ∧ now ≤ s.clock ∧ attempt.openWrite = none ∧
      (s.targets attempt.target).generation = attempt.generation ∧
      (s.targets attempt.target).idle now = true ∧
      job.state = .running ∧ job.leaseOwner = some worker ∧
      s' = { s with
        targets := update s.targets attempt.target
          { s.targets attempt.target with lease := some ⟨attempt.job, s.nextEffect,
            now + leaseTime⟩ }
        jobs := update s.jobs attempt.job (some { job with leaseExpiresAt := now + leaseTime })
        ledgers := update s.ledgers attempt.target ledger
        effects := update s.effects s.nextEffect (some ⟨attempt.target, attempt.job, effect, none⟩)
        nextEffect := s.nextEffect + 1
        attempts := update s.attempts worker
          (some { attempt with openWrite := some ⟨s.nextEffect, effect, now + leaseTime⟩ }) } := by
  obtain ⟨job, found, taken⟩ := Option.bind_eq_some_iff.mp taken
  obtain ⟨fresh, taken⟩ := Option.ite_none_left_eq_some.mp taken
  obtain ⟨fenced, taken⟩ := Option.ite_none_left_eq_some.mp taken
  split at taken
  · cases taken
  rename_i owned
  split at taken
  · cases taken
  rename_i ledger dispatched
  push Not at fresh fenced owned
  cases taken
  exact ⟨job, ledger, found, fresh.1, by simpa using fresh.2, fenced.1, by simpa using fenced.2,
    owned.1, by simpa [Job.ownedBy] using owned.2, rfl⟩

theorem send_eq_some (taken : s.send attempt = some s') :
    ∃ write, attempt.openWrite = some write ∧ (∀ r ∈ s.requests, r.effect ≠ write.id) ∧
      s' = { s with requests := ⟨attempt.target, write.id, attempt.generation, write.expiresAt⟩ ::
        s.requests } := by
  obtain ⟨write, opened, taken⟩ := Option.bind_eq_some_iff.mp taken
  split at taken
  · cases taken
  rename_i silent
  cases taken
  exact ⟨write, opened, by simpa using silent, rfl⟩

theorem finish_eq_some (taken : s.finish worker attempt completion = some s') :
    ∃ write row ledger expiresAt, attempt.openWrite = some write ∧ s.effects write.id = some row ∧
      row.outcome = none ∧ (∀ r ∈ s.requests, r.effect ≠ write.id) ∧
      (s.targets attempt.target).lease = some ⟨attempt.job, write.id, expiresAt⟩ ∧
      s' = { s with
        effects := update s.effects write.id (some { row with outcome := some completion.outcome })
        outcomes := s.outcomes ++ [write.id]
        ledgers := update s.ledgers attempt.target ledger
        targets := update s.targets attempt.target { s.targets attempt.target with lease := none }
        attempts := update s.attempts worker (some { attempt with openWrite := none }) } := by
  obtain ⟨write, opened, taken⟩ := Option.bind_eq_some_iff.mp taken
  obtain ⟨row, recorded, taken⟩ := Option.bind_eq_some_iff.mp taken
  obtain ⟨unsettled, taken⟩ := Option.ite_none_left_eq_some.mp taken
  push Not at unsettled
  split at taken
  · cases taken
  rename_i ledger completed
  obtain ⟨held, taken⟩ := Option.ite_none_right_eq_some.mp taken
  cases taken
  cases isLease : (s.targets attempt.target).lease with
  | none => simp [isLease] at held
  | some lease =>
    have same : lease.job = attempt.job ∧ lease.effect = write.id := by simpa [isLease] using held
    refine ⟨write, row, ledger, lease.expiresAt, opened, recorded, by simpa using unsettled.2,
      by simpa using unsettled.1, ?_, rfl⟩
    rw [← same.1, ← same.2]

theorem endAttempt_eq_some {ending : Ending}
    (taken : s.endAttempt worker attempt ending = some s') :
    s' = { s with attempts := update s.attempts worker none } ∨
      ∃ job, s.jobs attempt.job = some job ∧ job.leaseOwner = some worker ∧
        (ending = .failSuperseded ∨ (s.targets attempt.target).lease = none) ∧
        s' = { s with
          attempts := update s.attempts worker none
          jobs := update s.jobs attempt.job (some (job.ended ending))
          targets := update s.targets attempt.target
            { s.targets attempt.target with
              activeJob := ending.activeJob (s.targets attempt.target).activeJob } } := by
  obtain ⟨job, found, taken⟩ := Option.bind_eq_some_iff.mp taken
  dsimp only at taken
  split at taken
  · cases taken
    exact .inl rfl
  rename_i owned
  split at taken
  · cases taken
    exact .inl rfl
  rename_i current
  cases taken
  refine .inr ⟨job, found, by simpa [Job.ownedBy] using owned, ?_, rfl⟩
  by_cases superseded : ending = .failSuperseded
  · exact .inl superseded
  have unleased : ¬ (s.targets attempt.target).lease.isSome = true := fun leased =>
    current ⟨superseded, .inr leased⟩
  exact .inr (by simpa using unleased)

theorem reserve_eq_some {contested : Bool} (taken : s.reserve attempt effect contested = some s') :
    ∃ ledger, s' = { s with ledgers := update s.ledgers attempt.target ledger } := by
  unfold Outbox.reserve at taken
  split at taken
  · cases taken
    exact ⟨_, rfl⟩
  · cases taken

end Inversion

def Outbox.Open (s : Outbox) (target id : Nat) : Prop :=
  ∃ row, s.effects id = some row ∧ row.target = target ∧ row.outcome = none

structure Recorded (s : Outbox) : Prop where
  once : s.outcomes.Nodup
  closed : ∀ id, id ∈ s.outcomes ↔ ∃ row, s.effects id = some row ∧ row.outcome.isSome = true
  beyond : ∀ id, s.nextEffect ≤ id → s.effects id = none
  issued : ∀ w a write, s.attempts w = some a → a.openWrite = some write → write.id < s.nextEffect
  apart : ∀ w w' a a' write write', s.attempts w = some a → s.attempts w' = some a' →
    a.openWrite = some write →
    a'.openWrite = some write' → write.id = write'.id → w = w'

theorem recorded_start (org : Nat → Nat) (paused : Nat → Bool) :
    Recorded (Outbox.start org paused) := by
  constructor <;> simp [Outbox.start]

variable {s s' : Outbox} {attempt : Attempt}

theorem mem_closed_iff (recorded : Recorded s) :
    id ∈ (range s.nextEffect).filter (s.indeterminate target now) ↔
      s.Open target id ∧ ∀ lease ∈ (s.targets target).lease, lease.effect = id →
        lease.expiresAt ≤ now := by
  rw [mem_filter, mem_range]
  have shape : s.indeterminate target now id = true ↔
      s.Open target id ∧ ∀ lease ∈ (s.targets target).lease, lease.effect = id →
        lease.expiresAt ≤ now := by
    unfold Outbox.indeterminate Outbox.Open
    cases found : s.effects id with
    | none => simp
    | some =>
      cases held : (s.targets target).lease with
      | none => simp
      | some =>
        simp only [ProviderLease.expired, Option.any_some, Bool.and_eq_true, Option.mem_def,
          Option.some.injEq, forall_eq']
        simp only [and_assoc, beq_iff_eq, Option.isNone_iff_eq_none, Bool.not_eq_true',
          Bool.and_eq_false_iff,
          beq_eq_false_iff_ne, Bool.not_eq_false', decide_eq_true_eq, exists_eq_left',
          imp_iff_not_or, ne_eq]
  rw [shape]
  refine ⟨And.right, fun isOpen => ⟨?_, isOpen⟩⟩
  by_contra late
  obtain ⟨⟨_, found, -⟩, -⟩ := isOpen
  rw [recorded.beyond id (not_lt.mp late)] at found
  cases found

/-- The attempts of a state are among those of an earlier one, as far as they have an
open write. -/
def Narrows (s s' : Outbox) : Prop :=
  ∀ w a write, s'.attempts w = some a → a.openWrite = some write → s.attempts w = some a

theorem narrows_update {next : Option Attempt}
    (attempts : s'.attempts = update s.attempts worker next)
    (finished : ∀ a ∈ next, a.openWrite = none) :
    Narrows s s' := by
  intro _ a _ running opened
  rw [attempts] at running
  rcases update_cases running with ⟨-, new⟩ | ⟨-, old⟩
  · cases (finished a new).symm.trans opened
  · exact old

theorem Narrows.of_eq (same : s'.attempts = s.attempts) : Narrows s s' :=
  fun _ _ _ running _ => same ▸ running

theorem Recorded.open_not_mem (recorded : Recorded s) (isOpen : s.Open target id) :
    id ∉ s.outcomes := by
  intro mem
  obtain ⟨_, found, -, none⟩ := isOpen
  obtain ⟨_, found', some⟩ := (recorded.closed id).mp mem
  cases found.symm.trans found'
  simp [none] at some

theorem Recorded.close {closed : List Nat} (recorded : Recorded s) (narrows : Narrows s s')
    (nextEffect : s'.nextEffect = s.nextEffect) (outcomes : s'.outcomes = s.outcomes ++ closed)
    (once : closed.Nodup) (wasOpen : ∀ id ∈ closed, ∃ target, s.Open target id)
    (settled : ∀ id ∈ closed, ∃ row, s'.effects id = some row ∧ row.outcome.isSome = true)
    (kept : ∀ id, id ∉ closed → s'.effects id = s.effects id) : Recorded s' := by
  refine ⟨?_, fun id => ?_, fun id late => ?_, ?_, ?_⟩
  · rw [outcomes]
    refine nodup_append.mpr ⟨recorded.once, once, ?_⟩
    rintro id before _ mem rfl
    obtain ⟨_, isOpen⟩ := wasOpen id mem
    exact recorded.open_not_mem isOpen before
  · rw [outcomes, mem_append]
    by_cases mem : id ∈ closed
    · exact ⟨fun _ => settled id mem, fun _ => .inr mem⟩
    · rw [kept id mem, ← recorded.closed id]
      exact or_iff_left mem
  · have unknown := recorded.beyond id (nextEffect ▸ late)
    rw [kept id, unknown]
    intro mem
    obtain ⟨_, _, found, -⟩ := wasOpen id mem
    cases unknown.symm.trans found
  · intro w a write running opened
    exact nextEffect ▸ recorded.issued w a write (narrows w a write running opened) opened
  · intro w w' a a' write write' running running' opened opened'
    exact recorded.apart w w' a a' write write' (narrows w a write running opened)
      (narrows w' a' write' running' opened') opened opened'

theorem Recorded.narrow (recorded : Recorded s) (narrows : Narrows s s')
    (same : s'.effects = s.effects ∧ s'.outcomes = s.outcomes ∧ s'.nextEffect = s.nextEffect) :
    Recorded s' := by
  obtain ⟨effects, outcomes, nextEffect⟩ := same
  exact recorded.close narrows nextEffect (outcomes.trans (append_nil _).symm) nodup_nil nofun nofun
    fun id _ => congrFun effects id

theorem Recorded.withJobs (recorded : Recorded s) (jobs : Nat → Option Job) :
    Recorded { s with jobs } :=
  recorded.narrow (.of_eq rfl) ⟨rfl, rfl, rfl⟩

section Closing
variable {s : Outbox}

theorem Recorded.closeIndeterminateEffects (recorded : Recorded s) :
    Recorded (s.closeIndeterminateEffects target now) := by
  set closed := (range s.nextEffect).filter (s.indeterminate target now) with isClosed
  have wasOpen : ∀ id ∈ closed, s.Open target id :=
    fun id mem => ((mem_closed_iff recorded).mp mem).1
  refine recorded.close (.of_eq rfl) rfl rfl (nodup_range.filter _)
    (fun id mem => ⟨target, wasOpen id mem⟩) ?_
    fun id apart => if_neg apart
  intro id mem
  obtain ⟨_, found, -⟩ := wasOpen id mem
  exact ⟨_, (if_pos mem).trans (congrArg (Option.map _) found), rfl⟩

theorem open_closeIndeterminateEffects (recorded : Recorded s)
    (isOpen : (s.closeIndeterminateEffects target now).Open other id) :
    s.Open other id ∧ (other = target → ∃ lease ∈ (s.targets target).lease, lease.effect = id ∧
      now < lease.expiresAt) := by
  set closed := (range s.nextEffect).filter (s.indeterminate target now) with isClosed
  obtain ⟨row, found, sameTarget, unsettled⟩ := isOpen
  have shape : (if id ∈ closed then
      (s.effects id).map fun row => { row with outcome := some Outcome.unknown }
      else s.effects id) = some row := found
  split at shape
  · obtain ⟨_, -, rfl⟩ := Option.map_eq_some_iff.mp shape
    cases unsettled
  rename_i notClosed
  have wasOpen : s.Open other id := ⟨row, shape, sameTarget, unsettled⟩
  refine ⟨wasOpen, fun same => ?_⟩
  subst same
  rw [isClosed, mem_closed_iff recorded] at notClosed
  push Not at notClosed
  obtain ⟨lease, held, effect, live⟩ := notClosed wasOpen
  exact ⟨lease, held, effect, live⟩

theorem lease_closeIndeterminateEffects_of_live (recorded : Recorded s)
    (held : (s.targets target).lease = some lease) (live : now < lease.expiresAt) :
    ((s.closeIndeterminateEffects target now).targets target).lease = some lease := by
  have kept : lease.effect ∉ (range s.nextEffect).filter (s.indeterminate target now) := by
    rw [mem_closed_iff recorded]
    rintro ⟨-, expired⟩
    exact absurd (expired lease held rfl) (not_le.mpr live)
  simp only [Outbox.closeIndeterminateEffects, update_self, held, Option.filter_some]
  simp [kept]

theorem lease_closeIndeterminateEffects_of_expired (recorded : Recorded s)
    (held : (s.targets target).lease = some lease) (isOpen : s.Open target lease.effect)
    (late : lease.expiresAt ≤ now) :
    ((s.closeIndeterminateEffects target now).targets target).lease = none := by
  have gone : lease.effect ∈ (range s.nextEffect).filter (s.indeterminate target now) := by
    rw [mem_closed_iff recorded]
    refine ⟨isOpen, fun other held' _ => ?_⟩
    cases held.symm.trans held'
    exact late
  simp only [Outbox.closeIndeterminateEffects, update_self, held, Option.filter_some]
  simp [gone]

theorem closeIndeterminateEffects_targets_of_ne (different : other ≠ target) :
    (s.closeIndeterminateEffects target now).targets other = s.targets other :=
  update_of_ne different _ _

end Closing

theorem Recorded.prepare (recorded : Recorded s)
    (taken : s.prepare worker attempt effect prior now = some s') : Recorded s' := by
  obtain ⟨_, _, -, -, -, -, -, -, -, rfl⟩ := prepare_eq_some taken
  have opened : ∀ w a write, update s.attempts worker
      (some { attempt with openWrite := some ⟨s.nextEffect, effect, now + leaseTime⟩ }) w = some a →
      a.openWrite = some write → w = worker ∧ write.id = s.nextEffect ∨ w ≠ worker ∧
        s.attempts w = some a := by
    intro w a write running isOpen
    rcases update_eq_some running with ⟨same, rfl⟩ | old
    · cases isOpen
      exact .inl ⟨same, rfl⟩
    · exact .inr old
  refine ⟨recorded.once, ?_, ?_, ?_, ?_⟩
  · intro id
    rw [recorded.closed id]
    by_cases new : id = s.nextEffect
    · subst new
      simp [recorded.beyond s.nextEffect le_rfl]
    · simp [new]
  · intro id late
    have beyond : s.nextEffect < id := late
    simp [Nat.ne_of_gt beyond, recorded.beyond id (Nat.le_of_lt beyond)]
  · intro w a write running isOpen
    rcases opened w a write running isOpen with ⟨-, new⟩ | ⟨-, old⟩
    · exact new ▸ Nat.lt_succ_self _
    · exact Nat.lt_succ_of_lt (recorded.issued w a write old isOpen)
  · intro w w' a a' write write' running running' isOpen isOpen' same
    rcases opened w a write running isOpen with ⟨own, new⟩ | ⟨-, old⟩
    · rcases opened w' a' write' running' isOpen' with ⟨own', -⟩ | ⟨-, old'⟩
      · exact own.trans own'.symm
      · exact absurd (same.symm.trans new)
          (Nat.ne_of_lt (recorded.issued w' a' write' old' isOpen'))
    rcases opened w' a' write' running' isOpen' with ⟨-, new'⟩ | ⟨-, old'⟩
    · exact absurd (same.trans new') (Nat.ne_of_lt (recorded.issued w a write old isOpen))
    · exact recorded.apart w w' a a' write write' old old' isOpen isOpen' same

theorem Recorded.finish
    (recorded : Recorded s) (taken : s.finish worker attempt completion = some s') :
    Recorded s' := by
  obtain ⟨write, row, _, _, -, found, unsettled, -, -, rfl⟩ := finish_eq_some taken
  refine recorded.close (narrows_update rfl ?_) rfl rfl (nodup_singleton write.id) ?_ ?_
    fun id apart => ?_
  · rintro _ ⟨⟩
    rfl
  · intro id mem
    cases mem_singleton.mp mem
    exact ⟨row.target, row, found, rfl, unsettled⟩
  · intro _ mem
    cases mem_singleton.mp mem
    exact ⟨_, update_self .., rfl⟩
  · exact update_of_ne (fun same => apart (mem_singleton.mpr same)) _ _

theorem Recorded.step (recorded : Recorded s) (taken : step s action = some s') :
    Recorded s' := by
  cases action with first
    | have acts := Option.bind_eq_some_iff.mp taken
      obtain ⟨a, running, acts⟩ := acts
    | skip
  | advance | respond =>
    cases taken
    exact recorded.narrow (.of_eq rfl) ⟨rfl, rfl, rfl⟩
  | enqueue =>
    obtain ⟨-, -, rfl⟩ := enqueue_eq_some taken
    exact recorded.narrow (.of_eq rfl) ⟨rfl, rfl, rfl⟩
  | enqueuePublished =>
    obtain ⟨-, rfl⟩ := enqueuePublished_eq_some taken
    exact recorded.narrow (.of_eq rfl) ⟨rfl, rfl, rfl⟩
  | claim worker id now =>
    obtain ⟨job, -, -, -, -, rfl⟩ := claimDue_eq_some taken
    have running : Recorded { s with jobs := update s.jobs id (some { job with
        state := .running, leaseOwner := some worker, leaseExpiresAt := now + leaseTime }) } :=
      recorded.withJobs _
    have closed : Recorded (Outbox.closeIndeterminateEffects _ job.target now) :=
      running.closeIndeterminateEffects
    refine closed.narrow (narrows_update rfl ?_) ⟨rfl, rfl, rfl⟩
    rintro _ ⟨⟩
    rfl
  | reserve =>
    obtain ⟨_, rfl⟩ := reserve_eq_some acts
    exact recorded.narrow (.of_eq rfl) ⟨rfl, rfl, rfl⟩
  | prepare =>
    exact recorded.prepare acts
  | send =>
    obtain ⟨_, -, -, rfl⟩ := send_eq_some acts
    exact recorded.narrow (.of_eq rfl) ⟨rfl, rfl, rfl⟩
  | finish =>
    exact recorded.finish acts
  | endAttempt =>
    rcases endAttempt_eq_some acts with rfl | ⟨_, -, -, -, rfl⟩
    all_goals exact recorded.narrow (narrows_update rfl (by simp)) ⟨rfl, rfl, rfl⟩
  | crash =>
    cases taken
    exact recorded.narrow (narrows_update rfl (by simp)) ⟨rfl, rfl, rfl⟩

/-- A provider request is sent and ends before the lease of its intent runs out. -/
def WithinLease (s : Outbox) : Action → Prop
  | .send worker => ∀ a ∈ s.attempts worker, ∀ write ∈ a.openWrite, s.clock < write.expiresAt
  | .advance elapsed => ∀ r ∈ s.requests, s.clock + elapsed < r.expiresAt
  | _ => True

instance (s : Outbox) (action : Action) : Decidable (WithinLease s action) := by
  unfold WithinLease
  split <;> infer_instance

def OneInFlight (s : Outbox) : Prop :=
  ∀ r ∈ s.requests, ∀ r' ∈ s.requests, r.target = r'.target → r = r'

def Outbox.Holds (s : Outbox) (target effect expiresAt : Nat) : Prop :=
  ∃ job, (s.targets target).lease = some ⟨job, effect, expiresAt⟩

structure Fenced (s : Outbox) : Prop where
  held : ∀ r ∈ s.requests, s.Holds r.target r.effect r.expiresAt
  live : ∀ r ∈ s.requests, s.clock < r.expiresAt
  distinct : (s.requests.map (·.effect)).Nodup
  prepared : ∀ w a write, s.attempts w = some a → a.openWrite = some write →
    s.clock < write.expiresAt →
    s.Holds a.target write.id write.expiresAt

theorem fenced_start (org : Nat → Nat) (paused : Nat → Bool) :
    Fenced (Outbox.start org paused) := by
  constructor <;> simp [Outbox.start]

theorem Fenced.oneInFlight (fenced : Fenced s) : OneInFlight s := by
  intro r mem r' mem' sameTarget
  obtain ⟨_, lease⟩ := fenced.held r mem
  obtain ⟨_, lease'⟩ := fenced.held r' mem'
  rw [sameTarget, lease'] at lease
  have sameEffect : r'.effect = r.effect := congrArg ProviderLease.effect (Option.some.inj lease)
  exact inj_on_of_nodup_map fenced.distinct mem mem' sameEffect.symm

theorem not_holds_of_idle {effect : Nat}
    (idle : (s.targets target).idle now = true) (past : now ≤ s.clock)
    (live : s.clock < expiresAt) :
    ¬ s.Holds target effect expiresAt := by
  rintro ⟨_, lease⟩
  have expired : expiresAt ≤ now := by simpa [Target.idle, lease, ProviderLease.expired] using idle
  omega

theorem Fenced.keeps (fenced : Fenced s) (clock : s'.clock = s.clock)
    (requests : s'.requests = s.requests) (narrows : Narrows s s')
    (kept : ∀ target effect expiresAt, s.clock < expiresAt → s.Holds target effect expiresAt →
      s'.Holds target effect expiresAt) : Fenced s' := by
  refine ⟨?_, ?_, ?_, ?_⟩
  · rw [requests]
    exact fun r mem => kept _ _ _ (fenced.live r mem) (fenced.held r mem)
  · rw [requests, clock]
    exact fenced.live
  · rw [requests]
    exact fenced.distinct
  · intro w a write running opened live
    rw [clock] at live
    exact kept _ _ _ live (fenced.prepared w a write (narrows w a write running opened) opened live)

/-- An action on a row that leaves its lease alone. -/
theorem lease_update (row : Target) (same : row.lease = (s.targets target).lease) (other : Nat) :
    (update s.targets target row other).lease = (s.targets other).lease := by
  by_cases own : other = target
  · rw [own, update_self, same]
  · rw [update_of_ne own]

theorem holds_of_lease {effect : Nat} (same : (s'.targets target).lease = (s.targets target).lease)
    (holds : s.Holds target effect expiresAt) : s'.Holds target effect expiresAt := by
  unfold Outbox.Holds
  rw [same]
  exact holds

theorem holds_update {row : Target} {effect : Nat}
    (targets : s'.targets = update s.targets target row) (different : other ≠ target)
    (holds : s.Holds other effect expiresAt) : s'.Holds other effect expiresAt := by
  refine holds_of_lease ?_ holds
  rw [targets, update_of_ne different]

section
variable (fenced : Fenced s)
include fenced

theorem Fenced.enqueue
    (taken : s.enqueue target now = some s') : Fenced s' := by
  obtain ⟨past, idle, rfl⟩ := enqueue_eq_some taken
  refine fenced.keeps rfl rfl (.of_eq rfl) fun other effect expiresAt live holds => ?_
  have different : other ≠ target := by
    rintro rfl
    exact not_holds_of_idle idle past live holds
  exact holds_update rfl different holds

theorem Fenced.enqueuePublished
    (taken : s.enqueuePublished target now = some s') : Fenced s' := by
  obtain ⟨-, rfl⟩ := enqueuePublished_eq_some taken
  refine fenced.keeps rfl rfl (.of_eq rfl) fun other _ _ _ holds => ?_
  refine holds_of_lease (lease_update _ ?_ other) holds
  rfl

theorem Fenced.claimDue (recorded : Recorded s)
    (taken : s.claimDue worker id now = some s') : Fenced s' := by
  obtain ⟨job, -, past, -, -, rfl⟩ := claimDue_eq_some taken
  have same : Recorded { s with jobs := update s.jobs id (some { job with
      state := .running, leaseOwner := some worker, leaseExpiresAt := now + leaseTime }) } :=
    recorded.withJobs _
  refine fenced.keeps rfl rfl (narrows_update rfl ?_) fun other effect expiresAt live holds => ?_
  · rintro _ ⟨⟩
    rfl
  by_cases own : other = job.target
  · subst own
    obtain ⟨owner, lease⟩ := holds
    exact ⟨owner, lease_closeIndeterminateEffects_of_live same lease (Nat.lt_of_le_of_lt past live)⟩
  · exact holds_update rfl own holds

theorem Fenced.prepare (taken : s.prepare worker attempt effect prior now = some s') :
    Fenced s' := by
  obtain ⟨job, _, -, past, -, -, idle, -, -, rfl⟩ := prepare_eq_some taken
  -- nobody holds the target, so every live write is one of another target
  have elsewhere : ∀ {target e expiresAt}, s.clock < expiresAt → s.Holds target e expiresAt →
      target ≠ attempt.target := by
    rintro target e expiresAt live holds rfl
    exact not_holds_of_idle idle past live holds
  refine ⟨?_, fenced.live, fenced.distinct, ?_⟩
  · intro r mem
    have holds := fenced.held r mem
    exact holds_update rfl (elsewhere (fenced.live r mem) holds) holds
  intro w a write running opened live
  rcases update_eq_some running with ⟨-, rfl⟩ | ⟨-, old⟩
  · cases opened
    exact ⟨attempt.job, by simp⟩
  · have holds := fenced.prepared w a write old opened live
    exact holds_update rfl (elsewhere live holds) holds

theorem Fenced.send
    (running : s.attempts worker = some attempt) (within : WithinLease s (.send worker))
    (taken : s.send attempt = some s') : Fenced s' := by
  obtain ⟨write, opened, silent, rfl⟩ := send_eq_some taken
  have live : s.clock < write.expiresAt := within attempt running write opened
  refine ⟨?_, ?_, ?_, fenced.prepared⟩
  · intro r mem
    rcases mem_cons.mp mem with rfl | before
    · exact fenced.prepared worker attempt write running opened live
    · exact fenced.held r before
  · intro r mem
    rcases mem_cons.mp mem with rfl | before
    · exact live
    · exact fenced.live r before
  · refine nodup_cons.mpr ⟨fun again => ?_, fenced.distinct⟩
    obtain ⟨r, mem, same⟩ := mem_map.mp again
    exact silent r mem same

theorem Fenced.finish
    (recorded : Recorded s) (running : s.attempts worker = some attempt)
    (taken : s.finish worker attempt completion = some s') : Fenced s' := by
  obtain ⟨write, _, _, _, opened, -, -, silent, lease, rfl⟩ := finish_eq_some taken
  -- whoever else holds the target holds it for the finished write
  have elsewhere : ∀ {target e until_}, s.Holds target e until_ → e ≠ write.id →
      target ≠ attempt.target := by
    rintro target e until_ ⟨_, lease'⟩ different rfl
    exact different (congrArg ProviderLease.effect (Option.some.inj (lease'.symm.trans lease)))
  refine ⟨?_, fenced.live, fenced.distinct, ?_⟩
  · intro r mem
    have holds := fenced.held r mem
    exact holds_update rfl (elsewhere holds (silent r mem)) holds
  intro w a other running' opened' live
  rcases update_eq_some running' with ⟨-, rfl⟩ | ⟨different, old⟩
  · cases opened'
  have holds := fenced.prepared w a other old opened' live
  have otherWrite : other.id ≠ write.id := fun same =>
    different (recorded.apart w worker a attempt other write old running opened' opened same)
  exact holds_update rfl (elsewhere holds otherWrite) holds

theorem Fenced.step (recorded : Recorded s)
    (within : WithinLease s action) (taken : step s action = some s') : Fenced s' := by
  cases action with first
    | have acts := Option.bind_eq_some_iff.mp taken
      obtain ⟨a, running, acts⟩ := acts
    | skip
  | advance =>
    cases taken
    refine ⟨fenced.held, within, fenced.distinct, ?_⟩
    intro w a write running opened live
    exact fenced.prepared w a write running opened (Nat.lt_of_le_of_lt (Nat.le_add_right _ _) live)
  | enqueue => exact fenced.enqueue taken
  | enqueuePublished => exact fenced.enqueuePublished taken
  | claim => exact fenced.claimDue recorded taken
  | reserve =>
    obtain ⟨_, rfl⟩ := reserve_eq_some acts
    exact fenced.keeps rfl rfl (.of_eq rfl) fun _ _ _ _ holds => holds
  | prepare =>
    exact fenced.prepare acts
  | send =>
    exact fenced.send running within acts
  | respond effect =>
    cases taken
    have among : ∀ r ∈ s.requests.filter (·.effect != effect), r ∈ s.requests := fun r mem =>
      (mem_filter.mp mem).1
    exact ⟨fun r mem => fenced.held r (among r mem), fun r mem => fenced.live r (among r mem),
      fenced.distinct.sublist (filter_sublist.map _), fenced.prepared⟩
  | finish =>
    exact fenced.finish recorded running acts
  | endAttempt =>
    rcases endAttempt_eq_some acts with rfl | ⟨_, -, -, -, rfl⟩
    · exact fenced.keeps rfl rfl (narrows_update rfl (by simp)) fun _ _ _ _ holds => holds
    refine fenced.keeps rfl rfl (narrows_update rfl (by simp)) fun other _ _ _ holds => ?_
    refine holds_of_lease (lease_update _ ?_ other) holds
    rfl
  | crash =>
    cases taken
    exact fenced.keeps rfl rfl (narrows_update rfl (by simp)) fun _ _ _ _ holds => holds

end

end Hikyo.Adapter
