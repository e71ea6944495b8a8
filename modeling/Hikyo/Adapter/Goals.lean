import Hikyo.Adapter.Fencing

/-!
# The newest goal of a target wins

`newest_goal_wins`: with workers that claim, crash and time out in any order, at most one job of a
target is pending, the pending one has the target's newest generation, and a job that has ended, as
one does that a newer goal supersedes, is never touched again.  `Moves` says what one action does to
the jobs, and the invariant `Goals` is proved from it alone.
-/

namespace Hikyo.Adapter

open Hikyo.Lib Function

def Outbox.generation (s : Outbox) (target : Nat) : Nat := (s.targets target).generation

structure Goals (s : Outbox) : Prop where
  beyond : ∀ id, s.nextJob ≤ id → s.jobs id = none
  owned : ∀ id job, s.jobs id = some job → job.leaseOwner ≠ none → job.Pending
  current : ∀ id job, s.jobs id = some job → job.Pending → job.generation = s.generation job.target
  single : ∀ i j job job', s.jobs i = some job → s.jobs j = some job' → job.Pending → job'.Pending →
    job.target = job'.target → i = j

/-- A job keeps its goal, and once ended it is never touched again. -/
structure Onward (s s' : Outbox) : Prop where
  generations : ∀ target, s.generation target ≤ s'.generation target
  jobs : ∀ id job, s.jobs id = some job → ∃ job', s'.jobs id = some job' ∧
    job'.target = job.target ∧
    job'.generation = job.generation ∧ (¬ job.Pending → job' = job)

theorem Onward.trans {a b c : Outbox} (first : Onward a b) (second : Onward b c) : Onward a c := by
  refine ⟨fun target => (first.generations target).trans (second.generations target),
    fun id job found => ?_⟩
  obtain ⟨mid, foundMid, target, generation, ended⟩ := first.jobs id job found
  obtain ⟨last, foundLast, target', generation', ended'⟩ := second.jobs id mid foundMid
  refine ⟨last, foundLast, target'.trans target, generation'.trans generation, fun done => ?_⟩
  obtain rfl := ended done
  exact ended' done

variable {s s' : Outbox} {id target : Nat} {job next : Job}

/-- A job that an action leaves pending has not been outdated by it. -/
structure Moved (s s' : Outbox) (job next : Job) : Prop where
  target : next.target = job.target
  generation : next.generation = job.generation
  owned : next.leaseOwner ≠ none → next.Pending
  ended : ¬ job.Pending → next = job
  fresh : next.Pending → s'.generation job.target = s.generation job.target

structure Added (s s' : Outbox) (id : Nat) (job : Job) : Prop where
  id : id = s.nextJob ∧ id < s'.nextJob
  unowned : job.leaseOwner = none
  generation : job.generation = s'.generation job.target
  outdates : s.generation job.target < s'.generation job.target

structure Moves (s s' : Outbox) : Prop where
  nextJob : s.nextJob ≤ s'.nextJob
  generations : ∀ target, s.generation target ≤ s'.generation target
  kept : ∀ id job, s.jobs id = some job → ∃ next, s'.jobs id = some next ∧ Moved s s' job next
  added : ∀ id job, s.jobs id = none → s'.jobs id = some job → Added s s' id job

theorem Moved.pending (moved : Moved s s' job next) (pending : next.Pending) : job.Pending := by
  by_contra done
  exact done (moved.ended done ▸ pending)

theorem Moves.origin (moves : Moves s s') (found : s'.jobs id = some next) :
    (∃ job, s.jobs id = some job ∧ Moved s s' job next) ∨ Added s s' id next := by
  cases before : s.jobs id with
  | none => exact .inr (moves.added id next before found)
  | some job =>
    obtain ⟨_, isNext, moved⟩ := moves.kept id job before
    cases isNext.symm.trans found
    exact .inl ⟨job, rfl, moved⟩

theorem Moves.onward (moves : Moves s s') : Onward s s' := by
  refine ⟨moves.generations, fun id job found => ?_⟩
  obtain ⟨next, isNext, moved⟩ := moves.kept id job found
  exact ⟨next, isNext, moved.target, moved.generation, moved.ended⟩

theorem Goals.moves (goals : Goals s) (moves : Moves s s') : Goals s' where
  beyond := by
    intro i late
    cases found : s'.jobs i with
    | none => rfl
    | some =>
      rcases moves.origin found with ⟨_, old, -⟩ | added
      · cases (goals.beyond i (moves.nextJob.trans late)).symm.trans old
      · exact absurd added.id.2 late.not_gt
  owned := by
    intro i _ found isOwned
    rcases moves.origin found with ⟨_, -, moved⟩ | added
    · exact moved.owned isOwned
    · exact absurd added.unowned isOwned
  current := by
    intro i next found pending
    rcases moves.origin found with ⟨job, old, moved⟩ | added
    · rw [moved.generation, moved.target, moved.fresh pending]
      exact goals.current i job old (moved.pending pending)
    · exact added.generation
  single := by
    intro i j next next' found found' pending pending' same
    -- a new job outdates its target, and what is pending there is not outdated
    have apart : ∀ {i j a b}, Added s s' i a → (∃ job, s.jobs j = some job ∧ Moved s s' job b) →
        b.Pending →
        a.target ≠ b.target := by
      rintro i j a b added ⟨job, -, moved⟩ pending same
      have outdated := added.outdates
      rw [same, moved.target, moved.fresh pending] at outdated
      exact outdated.false
    rcases moves.origin found with old | added
    · rcases moves.origin found' with old' | added'
      · obtain ⟨job, isOld, moved⟩ := old
        obtain ⟨job', isOld', moved'⟩ := old'
        exact goals.single i j job job' isOld isOld' (moved.pending pending)
          (moved'.pending pending')
          (moved.target.symm.trans (same.trans moved'.target))
      · exact absurd same.symm (apart added' old pending)
    · rcases moves.origin found' with old' | added'
      · exact absurd same (apart added old' pending')
      · exact added.id.1.trans added'.id.1.symm

/-- An action that takes no new goal and writes at most one job. -/
theorem Goals.write (goals : Goals s) (nextJob : s'.nextJob = s.nextJob)
    (same : ∀ target, s'.generation target = s.generation target)
    (jobs : s'.jobs = s.jobs ∨ ∃ id job next, s.jobs id = some job ∧
      s'.jobs = update s.jobs id (some next) ∧
      job.Pending ∧ next.target = job.target ∧ next.generation = job.generation ∧
      (next.leaseOwner ≠ none → next.Pending)) : Moves s s' := by
  have still : ∀ i j, s.jobs i = some j → Moved s s' j j := fun i j isJob =>
    ⟨rfl, rfl, goals.owned i j isJob, fun _ => rfl, fun _ => same _⟩
  refine ⟨nextJob.ge, fun target => (same target).ge, fun i j isJob => ?_,
    fun i j absent isJob => ?_⟩
  · rcases jobs with jobs | ⟨id, job, next, found, jobs, pending, target, generation, owned⟩
    · exact ⟨j, jobs ▸ isJob, still i j isJob⟩
    by_cases own : i = id
    · subst own
      cases found.symm.trans isJob
      exact ⟨next, by rw [jobs, update_self], target, generation, owned,
        fun done => absurd pending done, fun _ => same _⟩
    · exact ⟨j, by rw [jobs, update_of_ne own, isJob], still i j isJob⟩
  · rcases jobs with jobs | ⟨id, job, next, found, jobs, -⟩
    · cases absent.symm.trans (jobs ▸ isJob)
    rcases update_cases (jobs ▸ isJob) with ⟨rfl, -⟩ | ⟨-, old⟩
    · cases absent.symm.trans found
    · cases absent.symm.trans old

theorem Goals.install (goals : Goals s) {now : Nat} {lease : Option ProviderLease} :
    Moves s (s.install target now lease) := by
  unfold Outbox.install
  refine ⟨Nat.le_succ _, fun other => ?_, fun i j isJob => ⟨j.supersedeOn target, ?_, ?_⟩,
    fun i j absent isJob => ?_⟩
  · by_cases own : other = target
    · subst own
      simp [Outbox.generation, Outbox.newGoal]
    · simp [Outbox.generation, update_of_ne own]
  · have known : i ≠ s.nextJob := by
      rintro rfl
      cases (goals.beyond _ le_rfl).symm.trans isJob
    simp [update_of_ne known, isJob]
  · unfold Job.supersedeOn
    split
    · rename_i hit
      exact ⟨rfl, rfl, fun owned => absurd rfl owned, fun done => absurd hit.2 done,
        by simp [Job.Pending]⟩
    · rename_i missed
      refine ⟨rfl, rfl, goals.owned i j isJob, fun _ => rfl, fun pending => ?_⟩
      have apart : j.target ≠ target := fun own => missed ⟨own, pending⟩
      simp [Outbox.generation, update_of_ne apart]
  · have isNext : i = s.nextJob ∧ s.newGoal target now = j := by
      by_contra elsewhere
      by_cases own : i = s.nextJob <;> simp_all
    obtain ⟨rfl, rfl⟩ := isNext
    constructor <;> simp [Outbox.newGoal, Outbox.generation]

theorem generation_update {row : Target} (same : row.generation = (s.targets target).generation)
    (other : Nat) :
    (update s.targets target row other).generation = (s.targets other).generation := by
  by_cases own : other = target
  · rw [own, update_self, same]
  · rw [update_of_ne own]

theorem Goals.step (goals : Goals s) {action : Action} (taken : step s action = some s') :
    Moves s s' := by
  cases action with
  | advance | respond | crash =>
    cases taken
    exact goals.write rfl (fun _ => rfl) (.inl rfl)
  | enqueue =>
    obtain ⟨-, -, rfl⟩ := enqueue_eq_some taken
    exact goals.install
  | enqueuePublished =>
    obtain ⟨-, rfl⟩ := enqueuePublished_eq_some taken
    exact goals.install
  | claim =>
    obtain ⟨job, found, -, -, due, rfl⟩ := claimDue_eq_some taken
    simp only [Outbox.due, Bool.and_eq_true, Bool.or_eq_true, beq_iff_eq] at due
    have pending : job.Pending := due.1.1.2.imp And.left And.left
    exact goals.write rfl (generation_update rfl)
      (.inr ⟨_, job, _, found, rfl, pending, rfl, rfl, fun _ => .inr rfl⟩)
  | reserve =>
    obtain ⟨_, -, taken⟩ := Option.bind_eq_some_iff.mp taken
    obtain ⟨_, rfl⟩ := reserve_eq_some taken
    exact goals.write rfl (fun _ => rfl) (.inl rfl)
  | prepare =>
    obtain ⟨_, -, taken⟩ := Option.bind_eq_some_iff.mp taken
    obtain ⟨job, _, found, -, -, -, -, running, -, rfl⟩ := prepare_eq_some taken
    exact goals.write rfl (generation_update rfl)
      (.inr ⟨_, job, _, found, rfl, .inr running, rfl, rfl, fun _ => .inr running⟩)
  | send =>
    obtain ⟨_, -, taken⟩ := Option.bind_eq_some_iff.mp taken
    obtain ⟨_, -, -, rfl⟩ := send_eq_some taken
    exact goals.write rfl (fun _ => rfl) (.inl rfl)
  | finish =>
    obtain ⟨_, -, taken⟩ := Option.bind_eq_some_iff.mp taken
    obtain ⟨_, _, _, _, -, -, -, -, -, rfl⟩ := finish_eq_some taken
    exact goals.write rfl (generation_update rfl) (.inl rfl)
  | endAttempt _ ending =>
    obtain ⟨_, -, taken⟩ := Option.bind_eq_some_iff.mp taken
    rcases endAttempt_eq_some taken with rfl | ⟨job, found, owner, -, rfl⟩
    · exact goals.write rfl (fun _ => rfl) (.inl rfl)
    have pending : job.Pending :=
      goals.owned _ job found (by rw [owner]; exact Option.some_ne_none _)
    refine goals.write rfl (generation_update rfl) (.inr ⟨_, job, _, found, rfl, pending, ?_⟩)
    cases ending <;> exact ⟨rfl, rfl, fun owned => absurd rfl owned⟩

theorem newest_goal_wins (org : Nat → Nat) (paused : Nat → Bool) (past more : List Action) :
    Goals (runFrom step (.start org paused) past) ∧
      Onward (runFrom step (.start org paused) past)
        (runFrom step (.start org paused) (past ++ more)) := by
  have start : Goals (.start org paused) := by constructor <;> simp [Outbox.start]
  constructor
  · exact runFrom_invariant _ Goals (fun _ _ _ goals taken => goals.moves (goals.step taken)) past _
      start
  · refine runFrom_prefix _ _ Onward
      (fun _ => ⟨fun _ => le_rfl, fun _ job found => ⟨job, found, rfl, rfl, fun _ => rfl⟩⟩)
      (fun _ _ _ => .trans) Goals start ?_ (List.prefix_append past more)
    exact fun _ _ _ goals taken => ⟨goals.moves (goals.step taken), (goals.step taken).onward⟩

end Hikyo.Adapter
