import Hikyo.Adapter.Fencing

/-!
# Every intent gets its one outcome

`outbox_fenced` puts the results on the outbox together and adds that every intent gets its one
outcome.  A claim needs the job's lease to have run out and closes whatever is open on the target,
so an intent is concluded as long as some job of its target is pending; `Accounted` is the invariant
that says which job that is.  It holds where no attempt ends as superseded with a write unfinished
and nothing is published while a write is marked in flight, and `intents_left_open` has a history
against each.
-/

namespace Hikyo.Adapter

open Hikyo.Lib List Function

def Outbox.Attempted (s : Outbox) (id : Nat) (job : Job) (a : Attempt) : Prop :=
  ∃ w, job.leaseOwner = some w ∧ s.attempts w = some a ∧ a.job = id

structure Quiet (s : Outbox) (id : Nat) (job : Job) : Prop where
  lease : (s.targets job.target).lease = none
  none_open : ∀ e, ¬ s.Open job.target e
  attempted : ∀ a, s.Attempted id job a → a.openWrite = none

structure Writing (s : Outbox) (id : Nat) (job : Job) (effect : Nat) : Prop where
  lease : (s.targets job.target).lease = some ⟨id, effect, job.leaseExpiresAt⟩
  is_open : s.Open job.target effect
  only_open : ∀ e, s.Open job.target e → e = effect
  attempted : ∀ a, s.Attempted id job a → ∃ write, a.openWrite = some write ∧ write.id = effect

def Running (s : Outbox) (id : Nat) (job : Job) : Prop :=
  Quiet s id job ∨ ∃ effect, Writing s id job effect

/-- A lease that has run out by then, and whose write is open. -/
def Lapsed (s : Outbox) (target now : Nat) (lease : Option ProviderLease) : Prop :=
  ∀ held ∈ lease, held.expiresAt ≤ now ∧ s.Open target held.effect

structure Accounted (s : Outbox) : Prop where
  known : ∀ w a, s.attempts w = some a → ∃ job, s.jobs a.job = some job ∧ job.target = a.target
  beyond : ∀ id, s.nextJob ≤ id → s.jobs id = none
  owned : ∀ id job w, s.jobs id = some job → job.leaseOwner = some w → job.state = .running
  single : ∀ i j job job', s.jobs i = some job → s.jobs j = some job' → job.Pending → job'.Pending →
    job.target = job'.target → i = j
  queued : ∀ id job, s.jobs id = some job → job.state = .queued →
    Lapsed s job.target job.nextAttemptAt (s.targets job.target).lease
  running : ∀ id job, s.jobs id = some job → job.state = .running → Running s id job
  leased : ∀ target lease, (s.targets target).lease = some lease → ∃ id job, s.jobs id = some job ∧
    job.target = target ∧ (job.state = .queued ∨ id = lease.job ∧ job.state = .running)
  pending : ∀ target e, s.Open target e → ∃ id job, s.jobs id = some job ∧
    job.target = target ∧ job.Pending

theorem accounted_start (org : Nat → Nat) (paused : Nat → Bool) :
    Accounted (Outbox.start org paused) := by
  constructor <;> simp [Outbox.start, Outbox.Open, Lapsed]

variable {s s' : Outbox} {id worker target now e : Nat} {job : Job} {attempt : Attempt}

theorem Running.frame (running : Running s id job)
    (lease : (s'.targets job.target).lease = (s.targets job.target).lease)
    (same : ∀ e, s'.Open job.target e ↔ s.Open job.target e)
    (attempted : ∀ a, s'.Attempted id job a → s.Attempted id job a) : Running s' id job := by
  rcases running with quiet | ⟨effect, writing⟩
  · exact .inl ⟨lease.trans quiet.lease, fun e isOpen => quiet.none_open e ((same e).mp isOpen),
      fun a current => quiet.attempted a (attempted a current)⟩
  · exact .inr ⟨effect, lease.trans writing.lease, (same effect).mpr writing.is_open,
      fun e isOpen => writing.only_open e ((same e).mp isOpen),
      fun a current => writing.attempted a (attempted a current)⟩

structure JobsMove (s s' : Outbox) (target id : Nat) (next : Job) : Prop where
  known : ∀ i j, s.jobs i = some j → ∃ j', s'.jobs i = some j' ∧ j'.target = j.target
  beyond : ∀ i, s'.nextJob ≤ i → s'.jobs i = none
  owned : ∀ i j w, s'.jobs i = some j → j.leaseOwner = some w → j.state = .running
  elsewhere : ∀ i j, j.target ≠ target → (s'.jobs i = some j ↔ s.jobs i = some j)
  only : ∀ i j, s'.jobs i = some j → j.target = target → j.Pending → i = id ∧ j = next
  found : s'.jobs id = some next
  target : next.target = target

theorem Accounted.transact {next : Job} (accounted : Accounted s)
    (moves : JobsMove s s' target id next) (attempts : ∀ w a, s'.attempts w = some a →
      s.attempts w = some a ∨ a.target = target ∧ ∃ j, s.jobs a.job = some j ∧ j.target = target)
    (lease : ∀ other, other ≠ target → (s'.targets other).lease = (s.targets other).lease)
    (opened : ∀ other e, other ≠ target → (s'.Open other e ↔ s.Open other e))
    (queued : next.state = .queued → Lapsed s' target next.nextAttemptAt (s'.targets target).lease)
    (running : next.state = .running → Running s' id next)
    (leased : ∀ held ∈ (s'.targets target).lease,
      next.state = .queued ∨ id = held.job ∧ next.state = .running)
    (pending : ∀ e, s'.Open target e → next.Pending) : Accounted s' where
  known := by
    intro w a isAttempt
    obtain ⟨j, isJob, jobTarget⟩ : ∃ j, s.jobs a.job = some j ∧ j.target = a.target := by
      rcases attempts w a isAttempt with old | ⟨rfl, own⟩
      · exact accounted.known w a old
      · exact own
    obtain ⟨j', isNew, same⟩ := moves.known a.job j isJob
    exact ⟨j', isNew, same.trans jobTarget⟩
  beyond := moves.beyond
  owned := moves.owned
  single := by
    intro i i' j j' isJob isJob' pending pending' same
    by_cases own : j.target = target
    · rw [(moves.only i j isJob own pending).1,
        (moves.only i' j' isJob' (same.symm.trans own) pending').1]
    have apart : j'.target ≠ target := same ▸ own
    exact accounted.single i i' j j' ((moves.elsewhere i j own).mp isJob)
      ((moves.elsewhere i' j' apart).mp isJob')
      pending pending' same
  queued := by
    intro i j isJob isQueued
    by_cases own : j.target = target
    · obtain ⟨-, rfl⟩ := moves.only i j isJob own (.inl isQueued)
      exact own ▸ queued isQueued
    · rw [lease _ own]
      intro held isHeld
      obtain ⟨late, isOpen⟩ :=
        accounted.queued i j ((moves.elsewhere i j own).mp isJob) isQueued held isHeld
      exact ⟨late, (opened _ _ own).mpr isOpen⟩
  running := by
    intro i j isJob runs
    by_cases own : j.target = target
    · obtain ⟨rfl, rfl⟩ := moves.only i j isJob own (.inr runs)
      exact running runs
    have wasJob := (moves.elsewhere i j own).mp isJob
    refine (accounted.running i j wasJob runs).frame (lease _ own) (fun e => opened _ e own) ?_
    rintro a ⟨w, owner, isAttempt, rfl⟩
    rcases attempts w a isAttempt with old | ⟨-, j', isJob', sameTarget⟩
    · exact ⟨w, owner, old, rfl⟩
    · cases wasJob.symm.trans isJob'
      exact absurd sameTarget own
  leased := by
    intro other held isHeld
    by_cases own : other = target
    · subst own
      exact ⟨id, next, moves.found, moves.target, leased held isHeld⟩
    · obtain ⟨i, j, isJob, sameTarget, state⟩ :=
        accounted.leased other held (lease other own ▸ isHeld)
      exact ⟨i, j, (moves.elsewhere i j (sameTarget ▸ own)).mpr isJob, sameTarget, state⟩
  pending := by
    intro other e isOpen
    by_cases own : other = target
    · subst own
      exact ⟨id, next, moves.found, moves.target, pending e isOpen⟩
    · obtain ⟨i, j, isJob, sameTarget, isPending⟩ :=
        accounted.pending other e ((opened other e own).mp isOpen)
      exact ⟨i, j, (moves.elsewhere i j (sameTarget ▸ own)).mpr isJob, sameTarget, isPending⟩

theorem attempts_update {next : Option Attempt}
    (attempts : s'.attempts = update s.attempts worker next)
    (own : ∀ b ∈ next, b.target = target ∧ ∃ j, s.jobs b.job = some j ∧ j.target = target) (w : Nat)
    (a : Attempt) (isAttempt : s'.attempts w = some a) :
    s.attempts w = some a ∨ a.target = target ∧ ∃ j, s.jobs a.job = some j ∧ j.target = target := by
  rcases update_cases (attempts ▸ isAttempt) with ⟨-, new⟩ | ⟨-, old⟩
  · exact .inr (own a new)
  · exact .inl old

theorem Accounted.replace (accounted : Accounted s) (next : Job) (found : s.jobs id = some job)
    (pending : job.Pending) (target : next.target = job.target)
    (owner : ∀ w, next.leaseOwner = some w → next.state = .running)
    (jobs : s'.jobs = update s.jobs id (some next)) (nextJob : s'.nextJob = s.nextJob) :
    JobsMove s s' job.target id next := by
  refine ⟨fun i j isJob => ?_, fun i late => ?_, fun i j w isJob isOwner => ?_, fun i j apart => ?_,
    fun i j isJob own isPending => ?_, by rw [jobs, update_self], target⟩
  · by_cases own : i = id
    · subst own
      cases found.symm.trans isJob
      exact ⟨next, by rw [jobs, update_self], target⟩
    · exact ⟨j, by rw [jobs, update_of_ne own, isJob], rfl⟩
  · have unused := accounted.beyond i (nextJob ▸ late)
    have different : i ≠ id := by
      rintro rfl
      cases found.symm.trans unused
    rw [jobs, update_of_ne different, unused]
  · rcases update_eq_some (jobs ▸ isJob) with ⟨-, rfl⟩ | ⟨-, old⟩
    · exact owner w isOwner
    · exact accounted.owned i j w old isOwner
  · by_cases own : i = id
    · subst own
      rw [jobs, update_self, found]
      constructor
      · rintro ⟨⟩
        exact absurd target apart
      · rintro ⟨⟩
        exact absurd rfl apart
    · rw [jobs, update_of_ne own]
  · rcases update_eq_some (jobs ▸ isJob) with ⟨rfl, rfl⟩ | ⟨different, old⟩
    · exact ⟨rfl, rfl⟩
    · exact absurd (accounted.single i id j job old found isPending pending own) different

theorem Accounted.free (accounted : Accounted s) (worker : Nat) :
    Accounted { s with attempts := update s.attempts worker none } := by
  refine { accounted with known := ?_, running := ?_ }
  · intro w a running
    exact accounted.known w a (update_none_eq_some running)
  intro id job found isRunning
  refine (accounted.running id job found isRunning).frame rfl (fun _ => Iff.rfl) ?_
  rintro a ⟨w, owner, current, isJob⟩
  exact ⟨w, owner, update_none_eq_some current, isJob⟩

theorem supersedeOn_target (target : Nat) (job : Job) :
    (job.supersedeOn target).target = job.target := by
  unfold Job.supersedeOn
  split <;> rfl

theorem supersedeOn_pending (pending : (job.supersedeOn target).Pending) :
    job.target ≠ target ∧ job.supersedeOn target = job := by
  unfold Job.supersedeOn at pending ⊢
  split at pending
  · simp [Job.Pending] at pending
  · rename_i spared
    exact ⟨fun same => spared ⟨same, pending⟩, if_neg spared⟩

theorem supersedeOn_of_ne (different : job.target ≠ target) :
    job.supersedeOn target = job :=
  if_neg fun met => different met.1

theorem Accounted.install (accounted : Accounted s) {lease : Option ProviderLease}
    (lapsed : Lapsed s target now lease) : Accounted (s.install target now lease) := by
  have old : ∀ {id job}, s.jobs id = some job → id ≠ s.nextJob := by
    rintro _ job found rfl
    cases (accounted.beyond s.nextJob le_rfl).symm.trans found
  -- a job of the new state is the new goal, or an old one as the goal has left it
  have cases_of : ∀ {id job}, (s.install target now lease).jobs id = some job →
      (id = s.nextJob ∧ job = s.newGoal target now) ∨
        ∃ old, s.jobs id = some old ∧ job = old.supersedeOn target := by
    intro _ _ found
    rw [install_jobs] at found
    rcases update_eq_some found with new | ⟨-, found⟩
    · exact .inl new
    · obtain ⟨old, wasThere, rfl⟩ := Option.map_eq_some_iff.mp found
      exact .inr ⟨old, wasThere, rfl⟩
  have kept : ∀ {id job}, s.jobs id = some job →
      (s.install target now lease).jobs id = some (job.supersedeOn target) := by
    intro _ _ isJob
    rw [install_jobs, update_of_ne (old isJob), isJob, Option.map_some]
  have isLease : ((s.install target now lease).targets target).lease = lease := by
    simp [Outbox.install]
  refine @Accounted.transact s _ s.nextJob target (s.newGoal target now) accounted ⟨?_,
    ?_, ?_, ?_, ?_,
    by rw [install_jobs, update_self], rfl⟩ (fun _ _ => .inl) (fun other different => ?_)
      (fun _ _ _ => Iff.rfl) (fun _ => ?_) nofun
    (fun _ _ => .inl rfl) fun _ _ => .inl rfl
  · intro i j isJob
    exact ⟨j.supersedeOn target, kept isJob, supersedeOn_target target j⟩
  · intro i late
    have beyond : s.nextJob < i := late
    rw [install_jobs, update_of_ne (Nat.ne_of_gt beyond), accounted.beyond i (Nat.le_of_lt beyond),
      Option.map_none]
  · intro i j w isJob owner
    rcases cases_of isJob with ⟨-, rfl⟩ | ⟨old, wasThere, rfl⟩
    · cases owner
    unfold Job.supersedeOn at owner ⊢
    split at owner
    · cases owner
    rename_i spared
    rw [if_neg spared]
    exact accounted.owned i old w wasThere owner
  · intro i j apart
    constructor
    · intro isJob
      rcases cases_of isJob with ⟨-, rfl⟩ | ⟨old, wasThere, rfl⟩
      · exact absurd rfl apart
      · rw [supersedeOn_target] at apart
        rwa [supersedeOn_of_ne apart]
    intro isJob
    rw [kept isJob, supersedeOn_of_ne apart]
  · intro _ _ isJob own isPending
    rcases cases_of isJob with new | ⟨old, _, rfl⟩
    · exact new
    · obtain ⟨different, -⟩ := supersedeOn_pending isPending
      exact absurd ((supersedeOn_target target old).symm.trans own) different
  · exact congrArg Target.lease (update_of_ne different ..)
  · rw [isLease]
    exact lapsed

theorem Accounted.writing (accounted : Accounted s) {held : ProviderLease}
    (isHeld : (s.targets job.target).lease = some held) (found : s.jobs id = some job)
    (isRunning : job.state = .running) :
    Writing s id job held.effect ∧ held.expiresAt = job.leaseExpiresAt := by
  rcases accounted.running id job found isRunning with quiet | ⟨_, writing⟩
  · cases quiet.lease.symm.trans isHeld
  · cases writing.lease.symm.trans isHeld
    exact ⟨writing, rfl⟩

theorem Accounted.open_of_leased (accounted : Accounted s) {held : ProviderLease}
    (isHeld : (s.targets target).lease = some held) : s.Open target held.effect := by
  obtain ⟨id, job, found, rfl, isQueued | ⟨-, isRunning⟩⟩ := accounted.leased target held isHeld
  · exact (accounted.queued id job found isQueued held isHeld).2
  · exact (accounted.writing isHeld found isRunning).1.is_open

theorem Accounted.lapsed (accounted : Accounted s) (idle : (s.targets target).idle now = true) :
    Lapsed s target now (s.targets target).lease := by
  intro held isHeld
  refine ⟨?_, accounted.open_of_leased isHeld⟩
  rw [Target.idle, isHeld] at idle
  simpa [ProviderLease.expired] using idle

theorem pending_of_due (due : s.due id job now = true) :
    job.state = .queued ∧ job.nextAttemptAt ≤ now ∨ job.state = .running ∧
      job.leaseExpiresAt ≤ now := by
  simp only [Outbox.due, Bool.and_eq_true, Bool.or_eq_true, beq_iff_eq, decide_eq_true_eq] at due
  exact due.1.1.2

theorem Accounted.claim_closes (accounted : Accounted s) (recorded : Recorded s)
    (found : s.jobs id = some job) (due : s.due id job now = true) :
    ((s.closeIndeterminateEffects job.target now).targets job.target).lease = none ∧
      ∀ e, ¬ (s.closeIndeterminateEffects job.target now).Open job.target e := by
  -- whether the job was queued or its lease has run out, the provider-write lease has lapsed
  have lapsed : Lapsed s job.target now (s.targets job.target).lease := by
    intro held isHeld
    rcases pending_of_due due with ⟨isQueued, early⟩ | ⟨isRunning, late⟩
    · obtain ⟨expired, isOpen⟩ := accounted.queued id job found isQueued held isHeld
      exact ⟨expired.trans early, isOpen⟩
    obtain ⟨writing, same⟩ := accounted.writing isHeld found isRunning
    exact ⟨same.trans_le late, writing.is_open⟩
  constructor
  · cases isHeld : (s.targets job.target).lease with
    | none => simp [Outbox.closeIndeterminateEffects, isHeld]
    | some held =>
      obtain ⟨expired, isOpen⟩ := lapsed held isHeld
      exact lease_closeIndeterminateEffects_of_expired recorded isHeld isOpen expired
  · intro e isOpen
    obtain ⟨-, live⟩ := open_closeIndeterminateEffects recorded isOpen
    obtain ⟨lease, held, -, unexpired⟩ := live rfl
    exact absurd (lapsed lease held).1 (not_le.mpr unexpired)

theorem open_closeIndeterminateEffects_of_ne {other : Nat} (recorded : Recorded s)
    (different : other ≠ target) : (s.closeIndeterminateEffects target now).Open other e ↔
      s.Open other e := by
  refine ⟨fun isOpen => (open_closeIndeterminateEffects recorded isOpen).1, ?_⟩
  rintro ⟨row, found, sameTarget, unsettled⟩
  refine ⟨row, ?_, sameTarget, unsettled⟩
  have kept : e ∉ (range s.nextEffect).filter (s.indeterminate target now) := by
    rw [mem_closed_iff recorded]
    rintro ⟨⟨_, found', sameTarget', -⟩, -⟩
    cases found.symm.trans found'
    exact different (sameTarget.symm.trans sameTarget')
  simpa only [Outbox.closeIndeterminateEffects, if_neg kept] using found

theorem Accounted.claimDue (accounted : Accounted s) (recorded : Recorded s)
    (taken : s.claimDue worker id now = some s') : Accounted s' := by
  obtain ⟨job, found, _, _, due, rfl⟩ := claimDue_eq_some taken
  set claimed : Job :=
    { job with state := .running, leaseOwner := some worker, leaseExpiresAt := now + leaseTime }
  obtain ⟨free, noneOpen⟩ := accounted.claim_closes recorded found due
  have same : Recorded { s with jobs := update s.jobs id (some claimed) } := recorded.withJobs _
  refine accounted.transact
    (accounted.replace claimed found ((pending_of_due due).imp And.left And.left) rfl
      (fun _ _ => rfl) rfl rfl)
    (attempts_update rfl ?_) (fun other apart => ?_) (fun other e apart => ?_) nofun
    (fun _ => .inl ⟨free, noneOpen, ?_⟩)
    (fun held isHeld => ?_) fun _ _ => .inr rfl
  · rintro _ ⟨⟩
    exact ⟨rfl, job, found, rfl⟩
  · exact congrArg Target.lease (closeIndeterminateEffects_targets_of_ne apart)
  · exact open_closeIndeterminateEffects_of_ne same apart
  · rintro a ⟨_, owner, running, -⟩
    cases owner
    dsimp only at running
    rw [update_self] at running
    cases running
    rfl
  · cases free.symm.trans isHeld

theorem Accounted.quiet_of_finished
    (accounted : Accounted s) (running : s.attempts worker = some attempt)
    (found : s.jobs attempt.job = some job) (owner : job.leaseOwner = some worker)
    (finished : attempt.openWrite = none) : Quiet s attempt.job job := by
  rcases accounted.running attempt.job job found (accounted.owned _ job worker found owner)
      with quiet | ⟨_, writing⟩
  · exact quiet
  · obtain ⟨_, opened, -⟩ := writing.attempted attempt ⟨worker, owner, running, rfl⟩
    cases finished.symm.trans opened

theorem Accounted.prepare {effect : Effect} {prior : LedgerState} (accounted : Accounted s)
    (recorded : Recorded s) (running : s.attempts worker = some attempt)
    (taken : s.prepare worker attempt effect prior now = some s') :
    Accounted s' := by
  obtain ⟨job, _, found, _, finished, _, _, isRunning, owner, rfl⟩ := prepare_eq_some taken
  obtain ⟨_, found', sameTarget⟩ := accounted.known worker attempt running
  cases found.symm.trans found'
  have quiet : Quiet s attempt.job job := accounted.quiet_of_finished running found owner finished
  have unused : s.effects s.nextEffect = none := recorded.beyond s.nextEffect le_rfl
  -- the new intent is the only one that has been opened
  have open_iff : ∀ target e, ((∃ row, update s.effects s.nextEffect
      (some ⟨attempt.target, attempt.job, effect, none⟩) e = some row ∧ row.target = target ∧
      row.outcome = none) ↔
      e = s.nextEffect ∧ target = attempt.target ∨ s.Open target e) := by
    intro _ e
    by_cases new : e = s.nextEffect
    · subst new
      simp [Outbox.Open, unused, eq_comm]
    · simp [Outbox.Open, new]
  refine accounted.transact
    (accounted.replace { job with leaseExpiresAt := now + leaseTime } found (.inr isRunning) rfl
      (fun _ _ => isRunning) rfl rfl)
    (attempts_update rfl ?_) (fun other apart => ?_) (fun other e apart => ?_) (fun isQueued => ?_)
    (fun _ => .inr ⟨s.nextEffect, ?_, ?_, fun e isOpen => ?_, ?_⟩) (fun held isHeld => ?_)
    fun _ _ => .inr isRunning
  · rintro _ ⟨⟩
    exact ⟨sameTarget.symm, job, found, rfl⟩
  · dsimp only
    rw [update_of_ne (sameTarget ▸ apart)]
  · refine (open_iff _ _).trans ⟨?_, .inr⟩
    rintro (⟨-, own⟩ | before)
    · exact absurd (own.trans sameTarget.symm) apart
    · exact before
  · cases isRunning.symm.trans isQueued
  · simp [sameTarget]
  · exact (open_iff _ _).mpr (.inl ⟨rfl, sameTarget⟩)
  · rcases (open_iff _ _).mp isOpen with ⟨new, -⟩ | before
    · exact new
    · exact absurd before (quiet.none_open e)
  · rintro a ⟨_, isOwner, isAttempt, -⟩
    cases owner.symm.trans isOwner
    dsimp only at isAttempt
    rw [update_self] at isAttempt
    cases isAttempt
    exact ⟨_, rfl, rfl⟩
  · rw [sameTarget] at isHeld
    dsimp only at isHeld
    rw [update_self] at isHeld
    cases isHeld
    exact .inr ⟨rfl, isRunning⟩

theorem Accounted.finish {completion : Completion}
    (accounted : Accounted s) (recorded : Recorded s) (running : s.attempts worker = some attempt)
    (taken : s.finish worker attempt completion = some s') : Accounted s' := by
  obtain ⟨write, row, _, _, opened, _, _, -, held, rfl⟩ := finish_eq_some taken
  -- the target's pending job may be a newer one, as long as it has not been claimed
  obtain ⟨id, job, found, sameTarget, state⟩ := accounted.leased attempt.target _ held
  obtain ⟨known, isKnown, knownTarget⟩ := accounted.known worker attempt running
  have open_iff : ∀ target e, ((∃ r, update s.effects write.id
      (some { row with outcome := some completion.outcome }) e = some r ∧ r.target = target ∧
      r.outcome = none) ↔
      e ≠ write.id ∧ s.Open target e) := by
    intro target e
    by_cases same : e = write.id
    · subst same
      simp
    · simp [Outbox.Open, same]
  have jobs : s.jobs = update s.jobs id (some job) :=
    (Function.update_eq_self_iff.mpr found.symm).symm
  have released : ((update s.targets attempt.target { s.targets attempt.target with lease := none })
      job.target).lease = none := by simp [sameTarget]
  have pending : job.Pending := state.imp_right And.right
  refine accounted.transact
    (accounted.replace job found pending rfl (fun w => accounted.owned id job w found) jobs rfl)
    (attempts_update rfl ?_) (fun other apart => ?_) (fun other e apart => ?_)
    (fun _ held isHeld => ?_)
    (fun isRunning => ?_) (fun held isHeld => ?_) fun _ _ => pending
  · rintro _ ⟨⟩
    exact ⟨sameTarget.symm, known, isKnown, knownTarget.trans sameTarget.symm⟩
  · exact congrArg Target.lease (update_of_ne (sameTarget ▸ apart) ..)
  · refine (open_iff _ _).trans ⟨And.right, fun isOpen => ⟨?_, isOpen⟩⟩
    rintro rfl
    obtain ⟨_, isRow, rowTarget, -⟩ := isOpen
    obtain ⟨_, isRow', rowTarget', -⟩ := accounted.open_of_leased held
    cases isRow.symm.trans isRow'
    exact apart (rowTarget.symm.trans (rowTarget'.trans sameTarget.symm))
  · cases released.symm.trans isHeld
  · obtain ⟨writing, -⟩ := accounted.writing (sameTarget ▸ held) found isRunning
    refine .inl ⟨released, fun e isOpen => ?_, ?_⟩
    · obtain ⟨other, wasOpen⟩ := (open_iff _ _).mp isOpen
      exact other (writing.only_open e wasOpen)
    rintro a ⟨w, isOwner, isAttempt, sameJob⟩
    rcases update_eq_some isAttempt with ⟨-, rfl⟩ | ⟨different, old⟩
    · rfl
    -- another worker's open write would be the finished one
    · obtain ⟨other, opened', same⟩ := writing.attempted a ⟨w, isOwner, old, sameJob⟩
      exact absurd (recorded.apart w worker a attempt other write old running opened' opened same)
        different
  · cases released.symm.trans isHeld

theorem ended_target (job : Job) (ending : Ending) : (job.ended ending).target = job.target := by
  cases ending <;> rfl

theorem ended_leaseOwner (job : Job) (ending : Ending) : (job.ended ending).leaseOwner = none := by
  cases ending <;> rfl

theorem ended_not_running (job : Job) (ending : Ending) : (job.ended ending).state ≠ .running := by
  cases ending <;> simp [Job.ended]

theorem Accounted.ended (accounted : Accounted s) (found : s.jobs attempt.job = some job)
    (isRunning : job.state = .running) (quiet : Quiet s attempt.job job) (ending : Ending)
    (active : Option Nat) :
    Accounted { s with
      attempts := update s.attempts worker none
      jobs := update s.jobs attempt.job (some (job.ended ending))
      targets := update s.targets attempt.target
        { s.targets attempt.target with activeJob := active } } := by
  have unowned : ∀ w, (job.ended ending).leaseOwner = some w →
      (job.ended ending).state = .running := by
    intro w owner
    cases (ended_leaseOwner job ending).symm.trans owner
  have leases : ∀ other, (update s.targets attempt.target
      { s.targets attempt.target with activeJob := active } other).lease =
        (s.targets other).lease :=
    lease_update _ rfl
  have free := (leases job.target).trans quiet.lease
  refine accounted.transact
    (accounted.replace _ found (.inr isRunning) (ended_target job ending) unowned rfl rfl)
    (attempts_update rfl (by simp)) (fun other _ => leases other) (fun _ _ _ => Iff.rfl)
    (fun _ held isHeld => ?_) (fun runs => absurd runs (ended_not_running job ending))
    (fun held isHeld => ?_) fun e isOpen => ?_
  · cases free.symm.trans isHeld
  · cases free.symm.trans isHeld
  · exact absurd isOpen (quiet.none_open e)

/-- An attempt that ends as superseded has finished its last write, and nothing is published to a
target while a write of it is marked in flight. -/
def Action.Settles (s : Outbox) : Action → Prop
  | .endAttempt worker .failSuperseded => ∀ a ∈ s.attempts worker, a.openWrite = none
  | .enqueuePublished target now => (s.targets target).idle now = true
  | _ => True

instance (s : Outbox) (action : Action) : Decidable (action.Settles s) := by
  unfold Action.Settles
  split <;> infer_instance

/-- What a refused action would have done does not matter. -/
def Settled (s : Outbox) (action : Action) : Prop := (step s action).isSome → action.Settles s

instance (s : Outbox) (action : Action) : Decidable (Settled s action) :=
  inferInstanceAs (Decidable (_ → _))

theorem Accounted.endAttempt {ending : Ending}
    (accounted : Accounted s) (running : s.attempts worker = some attempt)
    (settles : (Action.endAttempt worker ending).Settles s)
    (taken : s.endAttempt worker attempt ending = some s') : Accounted s' := by
  rcases endAttempt_eq_some taken with rfl | ⟨job, found, owner, unleased, rfl⟩
  · exact accounted.free worker
  have isRunning : job.state = .running := accounted.owned _ job worker found owner
  refine accounted.ended found isRunning ?_ ending _
  rcases unleased with rfl | free
  · exact accounted.quiet_of_finished running found owner (settles attempt running)
  obtain ⟨_, found', sameTarget⟩ := accounted.known worker attempt running
  cases found.symm.trans found'
  rcases accounted.running attempt.job job found isRunning with quiet | ⟨_, writing⟩
  · exact quiet
  · cases writing.lease.symm.trans (sameTarget ▸ free)

theorem Accounted.step {action : Action} (accounted : Accounted s) (recorded : Recorded s)
    (settled : Settled s action) (taken : step s action = some s') : Accounted s' := by
  have settles := settled (Option.isSome_of_eq_some taken)
  cases action with first
    | have acts := Option.bind_eq_some_iff.mp taken
      obtain ⟨a, running, acts⟩ := acts
    | skip
  | advance | respond =>
    cases taken
    exact { accounted with running := fun i j isJob runs =>
      (accounted.running i j isJob runs).frame rfl (fun _ => Iff.rfl) fun _ current => current }
  | enqueue =>
    obtain ⟨-, -, rfl⟩ := enqueue_eq_some taken
    exact accounted.install nofun
  | enqueuePublished =>
    obtain ⟨-, rfl⟩ := enqueuePublished_eq_some taken
    exact accounted.install (accounted.lapsed settles)
  | claim => exact accounted.claimDue recorded taken
  | reserve =>
    obtain ⟨_, rfl⟩ := reserve_eq_some acts
    exact { accounted with running := fun i j isJob runs =>
      (accounted.running i j isJob runs).frame rfl (fun _ => Iff.rfl) fun _ current => current }
  | prepare =>
    exact accounted.prepare recorded running acts
  | send =>
    obtain ⟨_, -, -, rfl⟩ := send_eq_some acts
    exact { accounted with running := fun i j isJob runs =>
      (accounted.running i j isJob runs).frame rfl (fun _ => Iff.rfl) fun _ current => current }
  | finish =>
    exact accounted.finish recorded running acts
  | endAttempt =>
    exact accounted.endAttempt running settles acts
  | crash worker =>
    cases taken
    exact accounted.free worker

/-- Whatever is prepared now is prepared for the target's current generation. -/
def PreparesCurrent (s : Outbox) : Prop :=
  ∀ worker a effect prior now s', s.attempts worker = some a →
    s.prepare worker a effect prior now = some s' →
    a.generation = (s'.targets a.target).generation

theorem preparesCurrent (s : Outbox) : PreparesCurrent s := by
  intro _ a _ _ _ _ _ taken
  obtain ⟨job, _, -, -, -, current, -, -, -, rfl⟩ := prepare_eq_some taken
  simp [current]

/-- The intent has its outcome, or the next claim on its target records one. -/
def Outbox.Concludes (s : Outbox) (target e : Nat) : Prop :=
  s.outcomes.count e = 1 ∨
    s.jobIDs.any (s.pendingOn target) = true ∧
      ∀ worker id job now s', s.jobs id = some job → job.target = target →
        s.claimDue worker id now = some s' →
        s'.outcomes.count e = 1

def AllConclude (s : Outbox) : Prop := ∀ e row, s.effects e = some row → s.Concludes row.target e

theorem Accounted.claim_concludes (accounted : Accounted s)
    (recorded : Recorded s) (isOpen : s.Open job.target e) (found : s.jobs id = some job)
    (taken : s.claimDue worker id now = some s') : s'.outcomes.count e = 1 := by
  have after : Recorded s' :=
    recorded.step (show Adapter.step s (.claim worker id now) = some s' from taken)
  obtain ⟨_, found', -, -, due, rfl⟩ := claimDue_eq_some taken
  cases found.symm.trans found'
  obtain ⟨-, noneOpen⟩ := accounted.claim_closes recorded found due
  refine count_eq_one_of_mem after.once ((after.closed e).mpr ?_)
  -- the row is still there, and it is no longer open
  obtain ⟨row, wasRow, sameTarget, -⟩ := isOpen
  by_contra unsettled
  obtain ⟨row', isRow, same⟩ : ∃ row', (s.closeIndeterminateEffects job.target now).effects e =
      some row' ∧
      row'.target = row.target := by
    simp only [Outbox.closeIndeterminateEffects, wasRow]
    split
    · exact ⟨{ row with outcome := some .unknown }, rfl, rfl⟩
    · exact ⟨row, rfl, rfl⟩
  refine noneOpen e ⟨row', isRow, same.trans sameTarget, ?_⟩
  cases settled : row'.outcome with
  | none => rfl
  | some => exact absurd ⟨row', isRow, by simp [settled]⟩ unsettled

theorem Accounted.pendingOn (accounted : Accounted s) (isOpen : s.Open target e) :
    s.jobIDs.any (s.pendingOn target) = true := by
  obtain ⟨id, _, found, sameTarget, pending⟩ := accounted.pending target e isOpen
  refine any_eq_true.mpr ⟨id, mem_range.mpr ?_,
    by simp [Outbox.pendingOn, found, sameTarget, pending]⟩
  by_contra late
  rw [accounted.beyond id (not_lt.mp late)] at found
  cases found

theorem Accounted.allConclude (accounted : Accounted s) (recorded : Recorded s) :
    AllConclude s := by
  intro e row found
  cases settled : row.outcome with
  | some =>
    exact .inl (count_eq_one_of_mem recorded.once
      ((recorded.closed e).mpr ⟨row, found, by simp [settled]⟩))
  | none =>
    have isOpen : s.Open row.target e := ⟨row, found, rfl, settled⟩
    refine .inr ⟨accounted.pendingOn isOpen, fun worker id job now s' isJob sameTarget taken => ?_⟩
    exact accounted.claim_concludes recorded (sameTarget ▸ isOpen) isJob taken

/-- Where requests end within their leases, one write is in flight per target, each is prepared for
the current generation, and no intent gets two outcomes; every intent gets one in a settled
history. -/
theorem outbox_fenced (org : Nat → Nat) (paused : Nat → Bool) (actions : List Action)
    (within : AllowedFrom step WithinLease (Outbox.start org paused) actions) :
    OneInFlight (runFrom step (Outbox.start org paused) actions) ∧
      PreparesCurrent (runFrom step (Outbox.start org paused) actions) ∧
      (∀ e, (runFrom step (Outbox.start org paused) actions).outcomes.count e ≤ 1) ∧
      (AllowedFrom step Settled (Outbox.start org paused) actions →
        AllConclude (runFrom step (Outbox.start org paused) actions)) := by
  have recorded : Recorded (runFrom step (Outbox.start org paused) actions) :=
    runFrom_invariant step Recorded (fun _ _ _ holds taken => holds.step taken) actions _
      (recorded_start org paused)
  have fenced : Recorded (runFrom step (Outbox.start org paused) actions) ∧
      Fenced (runFrom step (Outbox.start org paused) actions) :=
    runFrom_invariant_of_allowed step WithinLease (fun s => Recorded s ∧ Fenced s)
      (fun _ _ _ holds met taken => ⟨holds.1.step taken, holds.2.step holds.1 met taken⟩) actions _
      ⟨recorded_start org paused, fenced_start org paused⟩ within
  refine ⟨fenced.2.oneInFlight, preparesCurrent _,
    fun e => nodup_iff_count_le_one.mp recorded.once e, fun settled => ?_⟩
  have accounted : Recorded (runFrom step (Outbox.start org paused) actions) ∧
      Accounted (runFrom step (Outbox.start org paused) actions) :=
    runFrom_invariant_of_allowed step Settled (fun s => Recorded s ∧ Accounted s)
      (fun _ _ _ holds met taken => ⟨holds.1.step taken, holds.2.step holds.1 met taken⟩) actions _
      ⟨recorded_start org paused, accounted_start org paused⟩ settled
  exact accounted.2.allConclude recorded

/-- The variable `A` is created for the first goal of the target. -/
def created : List Action :=
  [.enqueuePublished 0 0, .claim 0 0 0, .reserve 0 ⟨.variable, "A", .create, ""⟩ false,
    .prepare 0 ⟨.variable, "A", .create, ""⟩ .reserved 0, .send 0, .advance 1000, .respond 0,
    .finish 0 { outcome := .success, state := some .owned }, .endAttempt 0 .succeed]

/-- A second worker deletes the variable and crashes while its request is on its way; a goal that
is published when its lease has run out is claimed next. -/
def takeover : List Action :=
  created ++ [.enqueue 0 1000, .claim 1 1 1000,
    .prepare 1 ⟨.variable, "A", .delete, ""⟩ .owned 1000,
    .send 1, .crash 1, .respond 1, .advance leaseTime, .enqueuePublished 0 (leaseTime + 1000),
    .claim 0 2 (leaseTime + 1000)]

theorem outbox_fenced_takeover :
    (runFrom step (Outbox.start (fun _ => 0) fun _ => false) takeover).outcomes = [0, 1] ∧
      OneInFlight (runFrom step (Outbox.start (fun _ => 0) fun _ => false) takeover) ∧
      AllConclude (runFrom step (Outbox.start (fun _ => 0) fun _ => false) takeover) := by
  have fenced := outbox_fenced (fun _ => 0) (fun _ => false) takeover (by decide +kernel)
  exact ⟨by decide +kernel, fenced.1, fenced.2.2.2 (by decide +kernel)⟩

/-- The worker is held up between the `Prepare` of a deletion and the second gate of the prune,
which refuses it without a `Finish`. -/
def heldUpPrune : List Action :=
  created ++ [.enqueuePublished 0 1000, .claim 0 1 1000,
    .prepare 0 ⟨.variable, "A", .delete, ""⟩ .owned 1000, .advance leaseTime,
    .endAttempt 0 .failSuperseded]

/-- A goal is published while a deletion is on its way.  The worker of the deletion crashes, and the
next one claims the goal before the lease has run out, creates the variable after it, and is
done. -/
def publishedMidWrite : List Action :=
  created ++ [.enqueuePublished 0 1000, .claim 0 1 1000,
    .prepare 0 ⟨.variable, "A", .delete, ""⟩ .owned 1000, .send 0, .enqueuePublished 0 1000,
    .crash 0,
    .respond 1, .advance 1000, .claim 1 2 2000, .advance leaseTime,
    .prepare 1 ⟨.variable, "A", .update, ""⟩ .owned (leaseTime + 1000), .send 1, .respond 2,
    .finish 1 { outcome := .success, state := some .owned }, .endAttempt 1 .succeed]

theorem not_allConclude (e : Nat) (row : EffectRow) (found : s.effects e = some row)
    (unsettled : e ∉ s.outcomes) (done : s.jobIDs.any (s.pendingOn row.target) = false) :
    ¬ AllConclude s := by
  intro conclude
  rcases conclude e row found with once | ⟨pending, -⟩
  · exact unsettled (count_pos_iff.mp (once ▸ Nat.one_pos))
  · cases pending.symm.trans done

/-- In both histories the intent of the deletion has no outcome, and no job is left to record
one. -/
theorem intents_left_open :
    (AllowedFrom step WithinLease (Outbox.start (fun _ => 0) fun _ => false) heldUpPrune ∧
      ¬ AllConclude (runFrom step (Outbox.start (fun _ => 0) fun _ => false) heldUpPrune)) ∧
    AllowedFrom step WithinLease (Outbox.start (fun _ => 0) fun _ => false) publishedMidWrite ∧
      ¬ AllConclude
        (runFrom step (Outbox.start (fun _ => 0) fun _ => false) publishedMidWrite) := by
  refine ⟨⟨by decide +kernel, not_allConclude 1 ⟨0, 1, ⟨.variable, "A", .delete, ""⟩,
    none⟩ ?_ ?_ ?_⟩,
    by decide +kernel, not_allConclude 1 ⟨0, 1, ⟨.variable, "A", .delete, ""⟩, none⟩ ?_ ?_ ?_⟩
  all_goals decide +kernel

end Hikyo.Adapter
