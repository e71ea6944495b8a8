import Mathlib.Data.List.Nodup
import Mathlib.Data.List.Pairwise
import Hikyo.Coordination.Leadership

/-!
# Leadership is exclusive for writes

`leadership_exclusive`: for every interleaving of the loops of any number of nodes, with answers
lost, statements undecided and pauses of any length, the fence of the lease row never decreases, two
acquisitions never share a fence, and every write that commits passed its guard while its term was
the row's and unexpired, so that the log of a run comes in the order of its fences (`Ordered`).
That no node runs two terms at once needs that no loop starts beside a running term (`Joined`);
`unjoined_node_runs_two_terms` is a process that does.
-/

namespace Hikyo.Leadership

open Hikyo.Lib List Function

variable {event : Event} {l : Loop} {expires id now ttl : Nat} {outcome : Outcome} {reply : Reply}
  {node : String}

def Follows (earlier later : Event) : Prop :=
  earlier.fence ≤ later.fence ∧ (earlier.fence = later.fence → earlier.node = later.node) ∧
    match earlier, later with
    | earlier, .claimed _ fence => earlier.fence < fence
    | .began term, .began later => term.fence ≠ later.fence
    | .began term, .committed write => term.fence = write.term.fence → term = write.term
    | _, _ => True

def Write.PassedGuard (write : Write) : Prop :=
  write.lease.owner = write.term.node ∧ write.lease.fence = write.term.fence ∧
    write.passedAt < write.lease.expiresAt

def BoundedBy (log : List Event) (row : Option Lease) : Prop :=
  ∀ event ∈ log, ∃ lease, row = some lease ∧ event.fence ≤ lease.fence ∧
    (event.fence = lease.fence → event.node = lease.owner)

def Succeeds (row : Option Lease) (version : Lease) (claim : Bool) : Prop :=
  match claim with
  | true => ∀ lease ∈ row, lease.fence < version.fence
  | false => ∃ lease, row = some lease ∧ version.owner = lease.owner ∧ version.fence = lease.fence

def LockSound (s : System) : RowLock → Prop
  | .undecided version claim => Succeeds s.row version claim
  | .guarded write =>
    (∃ lease, s.row = some lease ∧ lease.owner = write.term.node ∧ lease.fence = write.term.fence) ∧
      .began write.term ∈ s.log ∧ write.PassedGuard

structure LoopSound (log : List Event) (node : String) (l : Loop) : Prop where
  unused : l.unconfirmedClaim = true → ∀ term, .began term ∈ log → term.node = node →
    term.fence ≠ l.fence
  confirming : ∀ now, l.phase = .confirming now → l.unconfirmedClaim = true

structure Ordered (s : System) : Prop where
  log : s.log.Pairwise Follows
  bounded : BoundedBy s.log s.row
  lock : ∀ lock ∈ s.lock, LockSound s lock
  running : ∀ term ∈ s.terms, .began term ∈ s.log
  loops : ∀ node l, s.loops node = some l → LoopSound s.log node l
  guarded : ∀ write, .committed write ∈ s.log → write.PassedGuard

variable {log : List Event} {owner : String} {row : Option Lease} {fence : Nat}
  {version lease : Lease} {s s' : System} {term : Term}

theorem LoopSound.mono {log' : List Event} (sound : LoopSound log node l)
    (began : ∀ term, .began term ∈ log' → .began term ∈ log) : LoopSound log' node l :=
  ⟨fun unconfirmed term isBegan => sound.unused unconfirmed term (began term isBegan),
    sound.confirming⟩

theorem ordered_start : Ordered System.start := by
  constructor <;> simp [System.start, BoundedBy]

theorem claimLease_succeeds (written : claimLease row owner now expires = some version) :
    version.owner = owner ∧ Succeeds row version true := by
  unfold claimLease at written
  split at written
  · cases written
    exact ⟨rfl, nofun⟩
  split at written
  · cases written
    refine ⟨rfl, fun _ same => ?_⟩
    cases same
    exact Nat.lt_succ_self _
  · cases written

theorem renewLease_eq_some (written : renewLease row owner fence now expires = some version) :
    version.owner = owner ∧ version.fence = fence ∧ Succeeds row version false := by
  unfold renewLease at written
  split at written
  · cases written
  split at written
  · rename_i lease matched
    cases written
    exact ⟨matched.1, matched.2.1, lease, rfl, rfl, rfl⟩
  · cases written

theorem releaseLease_succeeds
    (written : releaseLease row owner fence = some version) : Succeeds row version false := by
  unfold releaseLease at written
  split at written
  · cases written
  split at written
  · rename_i lease matched
    cases written
    exact ⟨lease, rfl, rfl, rfl⟩
  · cases written

theorem guardSingletonLease_eq_some {clock : Nat}
    (matched : guardSingletonLease row owner fence clock = some lease) :
    row = some lease ∧ lease.owner = owner ∧ lease.fence = fence ∧ clock < lease.expiresAt := by
  obtain ⟨present, holds⟩ := Option.filter_eq_some_iff.mp matched
  exact ⟨present, of_decide_eq_true holds⟩

theorem Succeeds.fence_le {claim : Bool} (succeeds : Succeeds s.row version claim) :
    s.fence ≤ version.fence := by
  unfold System.fence
  cases claim with
  | true =>
    cases row : s.row with
    | none => exact Nat.zero_le _
    | some lease => exact Nat.le_of_lt (succeeds lease row)
  | false =>
    obtain ⟨_, present, -, same⟩ := succeeds
    rw [present, same]
    exact Nat.le.refl

theorem BoundedBy.succeeds {claim : Bool}
    (bounded : BoundedBy log row) (succeeds : Succeeds row version claim) :
    BoundedBy log (some version) := by
  intro event mem
  obtain ⟨lease, present, le, owner⟩ := bounded event mem
  refine ⟨version, rfl, ?_⟩
  cases claim with
  | true =>
    have lt : lease.fence < version.fence := succeeds lease present
    exact ⟨by omega, fun same => by omega⟩
  | false =>
    obtain ⟨_, held, sameOwner, sameFence⟩ := succeeds
    cases Option.some.inj (present.symm.trans held)
    exact ⟨sameFence ▸ le, fun same => sameOwner ▸ owner (same.trans sameFence)⟩

theorem BoundedBy.append (bounded : BoundedBy log (some lease))
    (fence : event.fence = lease.fence) (node : event.node = lease.owner) :
    BoundedBy (log ++ [event]) (some lease) := by
  intro other mem
  rcases mem_append.mp mem with before | last
  · exact bounded other before
  · rw [mem_singleton.mp last]
    exact ⟨lease, rfl, Nat.le_of_eq fence, fun _ => node⟩

theorem pairwise_append_singleton (ordered : log.Pairwise Follows)
    (last : ∀ earlier ∈ log, Follows earlier event) : (log ++ [event]).Pairwise Follows := by
  refine pairwise_append.mpr ⟨ordered, pairwise_singleton .., ?_⟩
  intro earlier mem _ isLast
  rw [mem_singleton.mp isLast]
  exact last earlier mem

theorem began_eq_of_fence {other : Term} (ordered : log.Pairwise Follows)
    (began : .began term ∈ log) (began' : .began other ∈ log) (same : term.fence = other.fence) :
    term = other := by
  let Named (e e' : Event) : Prop := ∀ t t', e = .began t → e' = .began t' →
    t.fence = t'.fence → t = t'
  have symmetric : Std.Symm Named :=
    ⟨fun e e' named t t' isT isT' fence => (named t' t isT' isT fence.symm).symm⟩
  have reflexive : ∀ e ∈ log, Named e e :=
    fun e _ t t' isT isT' _ => Event.began.inj (isT.symm.trans isT')
  have distinct : log.Pairwise Named := by
    refine ordered.imp ?_
    rintro _ _ ⟨-, -, apart⟩ _ _ rfl rfl fence
    exact absurd fence apart
  exact List.Pairwise.forall_of_forall reflexive distinct began began' term other rfl rfl same

theorem began_mem_install {claim : Bool} : .began term ∈ (s.install version claim).log ↔
    .began term ∈ s.log := by
  cases claim <;> simp [System.install]

theorem committed_mem_install {claim : Bool} {write : Write} :
    .committed write ∈ (s.install version claim).log ↔ .committed write ∈ s.log := by
  cases claim <;> simp [System.install]

theorem Ordered.install {claim : Bool} (ordered : Ordered s)
    (free : s.lock = none) (succeeds : Succeeds s.row version claim) :
    Ordered (s.install version claim) where
  log := by
    cases claim with
    | false => exact ordered.log
    | true =>
      refine pairwise_append_singleton ordered.log fun earlier mem => ?_
      obtain ⟨lease, present, le, -⟩ := ordered.bounded earlier mem
      have lt : lease.fence < version.fence := succeeds lease present
      have below : earlier.fence < version.fence := Nat.lt_of_le_of_lt le lt
      exact ⟨Nat.le_of_lt below, fun same => absurd same (Nat.ne_of_lt below),
        by cases earlier <;> exact below⟩
  bounded := by
    have kept : BoundedBy s.log (some version) := ordered.bounded.succeeds succeeds
    cases claim with
    | false => exact kept
    | true => exact kept.append rfl rfl
  lock := fun lock held => by
    have none : none = some lock := free.symm.trans held
    cases none
  running := fun term mem => began_mem_install.mpr (ordered.running term mem)
  loops := fun node l running => (ordered.loops node l running).mono fun _ => began_mem_install.mp
  guarded := fun write mem => ordered.guarded write (committed_mem_install.mp mem)

theorem Ordered.unlock (ordered : Ordered s) : Ordered { s with lock := none } :=
  { ordered with lock := nofun }

theorem Ordered.hold {lock : RowLock} (ordered : Ordered s) (sound : LockSound s lock) :
    Ordered { s with lock := some lock } :=
  { ordered with
    lock := by
      intro _ held
      cases held
      cases lock <;> exact sound }

theorem Ordered.commit {write : Write} (ordered : Ordered s) (present : s.row = some lease)
    (owner : lease.owner = write.term.node) (fence : lease.fence = write.term.fence)
    (began : .began write.term ∈ s.log) (passed : write.PassedGuard) :
    Ordered { s with lock := none, log := s.log ++ [.committed write] } := by
  have bounded : BoundedBy s.log (some lease) := present ▸ ordered.bounded
  refine ⟨?_, ?_, nofun, ?_, ?_, ?_⟩
  · refine pairwise_append_singleton ordered.log fun earlier mem => ?_
    obtain ⟨_, same, le, node⟩ := bounded earlier mem
    cases same
    refine ⟨Nat.le_trans le (Nat.le_of_eq fence),
      fun same => (node (same.trans fence.symm)).trans owner, ?_⟩
    cases earlier with
    | claimed | committed => trivial
    | began => exact began_eq_of_fence ordered.log mem began
  · have appended : BoundedBy (s.log ++ [.committed write]) (some lease) :=
      bounded.append fence.symm owner.symm
    exact present ▸ appended
  · intro term mem
    exact mem_append_left _ (ordered.running term mem)
  · intro node l running
    exact (ordered.loops node l running).mono fun term isBegan => by simpa using isBegan
  · intro other mem
    rcases mem_append.mp mem with before | last
    · exact ordered.guarded other before
    · cases mem_singleton.mp last
      exact passed

theorem unlocked_of_not_blocked {claim : Bool} (succeeds : Succeeds s.row version claim)
    (unblocked : ¬ s.blocked claim = true) : s.lock = none := by
  have writes : (claim || s.row.isSome) = true := by
    cases claim with
    | true => rfl
    | false =>
      obtain ⟨_, present, -⟩ := succeeds
      simp [present]
  simpa [System.blocked, writes] using unblocked

theorem coordinate_frame {version : Option Lease} {claim : Bool}
    (taken : s.coordinate version claim reply = some (s', outcome)) :
    s'.loops = s.loops ∧ s'.terms = s.terms ∧ s'.nextTerm = s.nextTerm := by
  cases reply with
  | failed =>
    cases taken
    exact ⟨rfl, rfl, rfl⟩
  | answered | lost =>
    simp only [System.coordinate] at taken
    split at taken
    · cases taken
    · cases taken
      cases version <;> exact ⟨rfl, rfl, rfl⟩

structure Coordinated (s : System) (version : Option Lease) (s' : System) (outcome : Outcome) :
    Prop where
  ordered : Ordered s'
  loops : s'.loops = s.loops
  fence : s.fence ≤ s'.fence
  began : ∀ term, .began term ∈ s'.log ↔ .began term ∈ s.log
  answered : ∀ result, outcome = .result result → result = version ∧ ∀ v ∈ version, s'.row = some v

theorem Ordered.coordinate {version : Option Lease} {claim : Bool}
    (ordered : Ordered s) (succeeds : ∀ v ∈ version, Succeeds s.row v claim)
    (taken : s.coordinate version claim reply = some (s', outcome)) :
    Coordinated s version s' outcome := by
  cases reply with
  | failed =>
    cases taken
    exact ⟨ordered, rfl, Nat.le.refl, fun _ => Iff.rfl, nofun⟩
  | answered =>
    obtain ⟨open_, taken⟩ := Option.ite_none_left_eq_some.mp taken
    cases taken
    cases version with
    | none =>
      refine ⟨ordered, rfl, Nat.le.refl, fun _ => Iff.rfl, ?_⟩
      rintro _ ⟨⟩
      exact ⟨rfl, nofun⟩
    | some v =>
      have free : s.lock = none := unlocked_of_not_blocked (succeeds v rfl) open_
      refine ⟨ordered.install free (succeeds v rfl), rfl, (succeeds v rfl).fence_le,
        fun _ => began_mem_install, ?_⟩
      rintro _ ⟨⟩
      refine ⟨rfl, ?_⟩
      rintro _ ⟨⟩
      rfl
  | lost =>
    simp only [System.coordinate] at taken
    split at taken
    · cases taken
    cases taken
    cases version with
    | none => exact ⟨ordered, rfl, Nat.le.refl, fun _ => Iff.rfl, nofun⟩
    | some v =>
      exact ⟨ordered.hold (succeeds v rfl), rfl, Nat.le.refl, fun _ => Iff.rfl, nofun⟩

theorem Ordered.setLoop (ordered : Ordered s) (sound : LoopSound s.log node l) :
    Ordered (s.setLoop node l) :=
  { ordered with
    lock := fun lock held => by cases lock <;> exact ordered.lock _ held
    loops := by
      intro other q running
      simp only [System.setLoop, update_apply] at running
      split at running
      · cases running
        subst other
        exact sound
      · exact ordered.loops other q running }

theorem LoopSound.keeps {next : Loop} (sound : LoopSound log node l)
    (fence : next.fence = l.fence) (token : next.unconfirmedClaim = l.unconfirmedClaim)
    (phase : ∀ now, next.phase ≠ .confirming now) : LoopSound log node next :=
  ⟨fun unconfirmed => fence ▸ sound.unused (token ▸ unconfirmed),
    fun now confirming => absurd confirming (phase now)⟩

theorem Ordered.startTerm
    (ordered : Ordered s) (row : s.row = some lease) (owner : lease.owner = node)
    (fence : lease.fence = l.fence) (fresh : ∀ term, .began term ∈ s.log → term.node = node →
      term.fence ≠ l.fence) :
    Ordered (s.startTerm node l expires) := by
  have bounded : BoundedBy s.log (some lease) := row ▸ ordered.bounded
  refine ⟨?_, ?_, ?_, ?_, ?_, ?_⟩
  · refine pairwise_append_singleton ordered.log fun earlier mem => ?_
    obtain ⟨_, same, le, sameNode⟩ := bounded earlier mem
    cases same
    refine ⟨Nat.le_trans le (Nat.le_of_eq fence),
      fun same => (sameNode (same.trans fence.symm)).trans owner, ?_⟩
    cases earlier with
    | claimed | committed => trivial
    | began term =>
      intro same
      exact fresh term mem ((sameNode (same.trans fence.symm)).trans owner) same
  · have appended : BoundedBy (s.log ++ [.began ⟨s.nextTerm, node, l.fence⟩]) (some lease) :=
      bounded.append fence.symm owner.symm
    exact row ▸ appended
  · intro lock held
    have sound : LockSound s lock := ordered.lock lock held
    cases lock with
    | undecided => exact sound
    | guarded => exact ⟨sound.1, mem_append_left _ sound.2.1, sound.2.2⟩
  · intro term mem
    rcases mem_cons.mp mem with rfl | before
    · exact mem_append_right _ (mem_singleton.mpr rfl)
    · exact mem_append_left _ (ordered.running term before)
  · intro other q running
    simp only [System.startTerm, System.setLoop, update_apply] at running
    split at running
    · cases running
      exact ⟨nofun, nofun⟩
    rename_i different
    have sound : LoopSound s.log other q := ordered.loops other q running
    refine ⟨fun unconfirmed term began sameNode => ?_, sound.confirming⟩
    rcases mem_append.mp began with before | last
    · exact sound.unused unconfirmed term before sameNode
    · cases mem_singleton.mp last
      exact absurd sameNode.symm different
  · intro write mem
    rcases mem_append.mp mem with before | last
    · exact ordered.guarded write before
    · cases mem_singleton.mp last

theorem Ordered.began_ne_of_claim (ordered : Ordered s)
    (succeeds : Succeeds s.row version true) (began : .began term ∈ s.log) :
    term.fence ≠ version.fence := by
  obtain ⟨lease, present, le, -⟩ := ordered.bounded _ began
  have lt : lease.fence < version.fence := succeeds lease present
  have below : term.fence < version.fence := Nat.lt_of_le_of_lt le lt
  exact Nat.ne_of_lt below
def OneTermPerNode (s : System) : Prop :=
  ∀ term ∈ s.terms, ∀ other ∈ s.terms, term.node = other.node → term = other

structure Single (s : System) : Prop where
  known : ∀ term ∈ s.terms, ∃ l, s.loops term.node = some l ∧ l.termDone = some term.id
  distinct : (s.terms.map (·.id)).Nodup
  issued : ∀ term ∈ s.terms, term.id < s.nextTerm
  clear : ∀ node l now, s.loops node = some l → l.phase = .confirming now ∨
    l.phase = .claiming now →
    ∀ term ∈ s.terms, term.node ≠ node

/-- The process starts a loop only when no term of its node is running any more. -/
def Joined (s : System) : Action → Prop
  | .start node => ∀ term ∈ s.terms, term.node ≠ node
  | _ => True

instance (s : System) (action : Action) : Decidable (Joined s action) := by
  unfold Joined
  split <;> infer_instance

theorem single_start : Single System.start := by
  constructor <;> simp [System.start]

section
variable (single : Single s)
include single

theorem Single.oneTermPerNode : OneTermPerNode s := by
  intro term mem other mem' sameNode
  obtain ⟨_, running, done⟩ := single.known term mem
  obtain ⟨_, running', done'⟩ := single.known other mem'
  rw [sameNode, running'] at running
  cases running
  exact inj_on_of_nodup_map single.distinct mem mem' (Option.some.inj (done.symm.trans done'))

theorem Single.frame (same : s'.loops = s.loops ∧ s'.terms = s.terms ∧ s'.nextTerm = s.nextTerm) :
    Single s' := by
  obtain ⟨loops, terms, nextTerm⟩ := same
  refine ⟨?_, ?_, ?_, ?_⟩
  · rw [loops, terms]
    exact single.known
  · rw [terms]
    exact single.distinct
  · rw [terms, nextTerm]
    exact single.issued
  · rw [loops, terms]
    exact single.clear

theorem Single.setLoop (known : ∀ term ∈ s.terms, term.node = node → l.termDone = some term.id)
    (clear : ∀ now, l.phase = .confirming now ∨ l.phase = .claiming now →
      ∀ term ∈ s.terms, term.node ≠ node) :
    Single (s.setLoop node l) where
  known := by
    intro term mem
    by_cases own : term.node = node
    · exact ⟨l, by simp [System.setLoop, own], known term mem own⟩
    · obtain ⟨q, running, done⟩ := single.known term mem
      exact ⟨q, by simpa [System.setLoop, own] using running, done⟩
  distinct := single.distinct
  issued := single.issued
  clear := by
    intro other q now running phase
    simp only [System.setLoop, update_apply] at running
    split at running
    · rename_i same
      cases running
      exact same ▸ clear now phase
    · exact single.clear other q now running phase

theorem Single.known_of (running : s.loops node = some l) :
    ∀ term ∈ s.terms, term.node = node → l.termDone = some term.id := by
  rintro term mem rfl
  obtain ⟨_, running', known⟩ := single.known term mem
  rw [running] at running'
  cases running'
  exact known

theorem Single.keeps {next : Loop} (running : s.loops node = some l)
    (done : next.termDone = l.termDone)
    (phase : ∀ now, next.phase ≠ .confirming now ∧ next.phase ≠ .claiming now) :
    Single (s.setLoop node next) := by
  refine single.setLoop (fun term mem own => done.trans (single.known_of running term mem own)) ?_
  intro now acquiring
  rcases acquiring with isConfirming | isClaiming
  · exact absurd isConfirming (phase now).1
  · exact absurd isClaiming (phase now).2

theorem Single.setLoop_idle (idle : ∀ term ∈ s.terms, term.node ≠ node) :
    Single (s.setLoop node l) :=
  single.setLoop (fun term mem own => absurd own (idle term mem)) fun _ _ => idle

theorem Single.startTerm (idle : ∀ term ∈ s.terms, term.node ≠ node) :
    Single (s.startTerm node l expires) where
  known := by
    intro term mem
    rcases mem_cons.mp mem with rfl | before
    · exact ⟨_, update_self .., rfl⟩
    · obtain ⟨q, running, done⟩ := single.known term before
      exact ⟨q, by simpa [System.startTerm, System.setLoop, idle term before] using running, done⟩
  distinct := by
    refine nodup_cons.mpr ⟨fun again => ?_, single.distinct⟩
    obtain ⟨term, mem, same⟩ := mem_map.mp again
    exact absurd same (Nat.ne_of_lt (single.issued term mem))
  issued := by
    intro term mem
    rcases mem_cons.mp mem with rfl | before
    · exact Nat.lt_succ_self _
    · exact Nat.lt_succ_of_lt (single.issued term before)
  clear := by
    intro other q now running phase term mem
    simp only [System.startTerm, System.setLoop, update_apply] at running
    split at running
    · cases running
      rcases phase with isConfirming | isClaiming
      · cases isConfirming
      · cases isClaiming
    rename_i different
    rcases mem_cons.mp mem with rfl | before
    · exact fun same => different same.symm
    · exact single.clear other q now running phase term before

theorem Single.filter (keep : Term → Bool) : Single { s with terms := s.terms.filter keep } where
  known := fun term mem => single.known term (mem_filter.mp mem).1
  distinct := single.distinct.sublist (filter_sublist.map _)
  issued := fun term mem => single.issued term (mem_filter.mp mem).1
  clear := fun node l now running phase term mem =>
    single.clear node l now running phase term (mem_filter.mp mem).1

end

structure Advanced (s s' : System) : Prop where
  ordered : Ordered s'
  fence : s.fence ≤ s'.fence
  single : Single s → Single s'

theorem Advanced.trans {s'' : System} (first : Advanced s s') (second : Advanced s' s'') :
    Advanced s s'' :=
  ⟨second.ordered, Nat.le_trans first.fence second.fence,
    fun single => second.single (first.single single)⟩

section Loops
variable {s s' : System} {next : Loop}

section
variable (ordered : Ordered s)
include ordered

theorem Ordered.keeps (running : s.loops node = some l)
    (token : next.fence = l.fence ∧ next.unconfirmedClaim = l.unconfirmedClaim)
    (done : next.termDone = l.termDone)
    (phase : ∀ now, next.phase ≠ .confirming now ∧ next.phase ≠ .claiming now) :
    Advanced s (s.setLoop node next) where
  ordered := ordered.setLoop ((ordered.loops node l running).keeps token.1 token.2 fun now =>
    (phase now).1)
  fence := Nat.le.refl
  single := fun single => single.keeps running done phase

theorem Ordered.idle (sound : LoopSound s.log node next)
    (idle : Single s → ∀ term ∈ s.terms, term.node ≠ node) : Advanced s (s.setLoop node next) where
  ordered := ordered.setLoop sound
  fence := Nat.le.refl
  single := fun single => single.setLoop_idle (idle single)

theorem Ordered.begins (row : s.row = some lease) (owner : lease.owner = node)
    (fence : lease.fence = l.fence) (fresh : ∀ term, .began term ∈ s.log → term.node = node →
      term.fence ≠ l.fence)
    (idle : Single s → ∀ term ∈ s.terms, term.node ≠ node) :
    Advanced s (s.startTerm node l expires) where
  ordered := ordered.startTerm row owner fence fresh
  fence := Nat.le.refl
  single := fun single => single.startTerm (idle single)

section
variable (running : s.loops node = some l)
include running

theorem Ordered.statement {version : Option Lease} {claim : Bool}
    (succeeds : ∀ v ∈ version, Succeeds s.row v claim)
    (taken : s.coordinate version claim reply = some (s', outcome)) :
    Coordinated s version s' outcome ∧ Advanced s s' ∧ s'.loops node = some l := by
  have done := ordered.coordinate succeeds taken
  have frame := coordinate_frame taken
  exact ⟨done, ⟨done.ordered, done.fence, fun single => single.frame frame⟩, frame.1 ▸ running⟩

theorem Ordered.tick {answered : Bool} (taken : s.tick node l answered = some s') :
    Advanced s s' := by
  unfold System.tick at taken
  split at taken
  · rename_i waiting
    split at taken <;> cases taken
    · refine ordered.keeps running ?_ ?_ fun now => ?_
      · split <;> exact ⟨rfl, rfl⟩
      · split <;> rfl
      · split <;> split <;> simp
    · exact ordered.keeps running ⟨rfl, rfl⟩ rfl fun now => by simp [Loop.dropLeadership, waiting]
  · cases taken

theorem Ordered.renew (taken : s.renew ttl node l reply = some s') : Advanced s s' := by
  unfold System.renew at taken
  split at taken
  · obtain ⟨⟨_, _⟩, statement, taken⟩ := Option.bind_eq_some_iff.mp taken
    cases taken
    obtain ⟨done, advanced, running⟩ :=
      ordered.statement running (fun v written => (renewLease_eq_some written).2.2) statement
    refine advanced.trans (done.ordered.keeps running ?_ ?_ fun now => by simp)
    · split <;> exact ⟨rfl, rfl⟩
    · split <;> rfl
  · cases taken

theorem Ordered.acquire (taken : s.acquire node l = some s') : Advanced s s' := by
  have sound : LoopSound s.log node l := ordered.loops node l running
  unfold System.acquire at taken
  split at taken
  · split at taken
    · cases taken
      exact ordered.keeps running ⟨rfl, rfl⟩ rfl fun now => by simp
    rename_i goesOn
    cases taken
    refine ordered.idle ⟨sound.unused, fun now confirming => ?_⟩ fun single => ?_
    · by_contra confirmed
      simp [confirmed] at confirming
    rintro term mem rfl
    -- a running term is the one of the channel, and then it is still draining
    have draining : s.termDraining l = true := by
      rw [System.termDraining, single.known_of running term mem rfl]
      exact any_eq_true.mpr ⟨term, mem, by simp⟩
    simp [draining] at goesOn
  · cases taken

theorem Ordered.confirm (taken : s.confirm ttl node l reply = some s') : Advanced s s' := by
  unfold System.confirm at taken
  split at taken
  · rename_i now confirming
    obtain ⟨⟨middle, _⟩, statement, taken⟩ := Option.bind_eq_some_iff.mp taken
    obtain ⟨done, advanced, running⟩ :=
      ordered.statement running (fun v written => (renewLease_eq_some written).2.2) statement
    have sound : LoopSound middle.log node l := done.ordered.loops node l running
    have idle : Single middle → ∀ term ∈ middle.terms, term.node ≠ node := fun single =>
      single.clear node l now running (.inl confirming)
    have back : Advanced middle (middle.setLoop node { l with phase := .waiting }) :=
      done.ordered.keeps running ⟨rfl, rfl⟩ rfl fun now => by simp
    refine advanced.trans ?_
    dsimp only at taken
    split at taken
    · cases taken
      exact back
    · cases taken
      refine done.ordered.idle ⟨nofun, fun t phase => ?_⟩ idle
      split at phase <;> cases phase
    · rename_i v
      split at taken <;> cases taken
      · exact back
      obtain ⟨written, row⟩ := done.answered _ rfl
      obtain ⟨owner, fence, -⟩ := renewLease_eq_some written.symm
      have unused := sound.unused (sound.confirming now confirming)
      exact done.ordered.begins (row v written.symm) owner fence unused idle
  · cases taken

theorem Ordered.claim {fenceKnown : Bool}
    (taken : s.claim ttl node l reply fenceKnown = some s') : Advanced s s' := by
  unfold System.claim at taken
  split at taken
  · rename_i now claiming
    obtain ⟨⟨middle, _⟩, statement, taken⟩ := Option.bind_eq_some_iff.mp taken
    obtain ⟨done, advanced, running⟩ :=
      ordered.statement running (fun v written => (claimLease_succeeds written).2) statement
    have idle : Single middle → ∀ term ∈ middle.terms, term.node ≠ node := fun single =>
      single.clear node l now running (.inr claiming)
    have back : Advanced middle (middle.setLoop node { l with phase := .waiting }) :=
      done.ordered.keeps running ⟨rfl, rfl⟩ rfl fun now => by simp
    -- the fence of a claim is above those of all terms
    have fresh : ∀ v, claimLease s.row node now (now + ttl) = some v → ∀ term,
        .began term ∈ middle.log →
        term.node = node → term.fence ≠ v.fence := fun v written term began _ =>
      ordered.began_ne_of_claim (claimLease_succeeds written).2 ((done.began term).mp began)
    have provisional : ∀ v, claimLease s.row node now (now + ttl) = some v → Advanced middle
        (middle.setLoop node { l with fence := v.fence, unconfirmedClaim := true, phase :=
          .waiting }) :=
      fun v written => done.ordered.idle ⟨fun _ => fresh v written, nofun⟩ idle
    refine advanced.trans ?_
    dsimp only at taken
    split at taken
    · cases taken
      exact back
    · rename_i v
      obtain ⟨written, row⟩ := done.answered _ rfl
      split at taken <;> cases taken
      · exact provisional v written.symm
      · have owner := (claimLease_succeeds written.symm).1
        exact done.ordered.begins (row v written.symm) owner rfl (fresh v written.symm) idle
    · split at taken
      · rename_i v written
        split at taken <;> cases taken
        · exact provisional v written
        · exact back
      · cases taken
        exact back
  · cases taken

theorem Ordered.shutdown (taken : s.shutdown node l = some s') : Advanced s s' := by
  unfold System.shutdown at taken
  split at taken <;> cases taken
  exact ordered.keeps running ⟨rfl, rfl⟩ rfl fun now => by simp

theorem Ordered.join {giveUp : Bool} (taken : s.join node l giveUp = some s') : Advanced s s' := by
  unfold System.join at taken
  split at taken
  · split at taken
    · split at taken <;> cases taken
      exact ordered.keeps running ⟨rfl, rfl⟩ rfl fun now => by simp
    cases taken
    refine ordered.keeps running ⟨rfl, rfl⟩ rfl fun now => ?_
    split <;> simp
  · cases taken

theorem Ordered.release (taken : s.release node l reply = some s') : Advanced s s' := by
  unfold System.release at taken
  split at taken
  · obtain ⟨⟨_, _⟩, statement, taken⟩ := Option.bind_eq_some_iff.mp taken
    cases taken
    obtain ⟨done, advanced, running⟩ :=
      ordered.statement running (fun v written => releaseLease_succeeds written) statement
    exact advanced.trans (done.ordered.keeps running ⟨rfl, rfl⟩ rfl fun now => by simp)
  · cases taken

end

theorem Ordered.guard (taken : s.guard id = some s') : Advanced s s' := by
  obtain ⟨term, located, taken⟩ := Option.bind_eq_some_iff.mp taken
  obtain ⟨lease, matched, taken⟩ := Option.bind_eq_some_iff.mp taken
  obtain ⟨present, owner, fence, unexpired⟩ := guardSingletonLease_eq_some matched
  split at taken <;> cases taken
  refine ⟨ordered.hold ⟨⟨lease, present, owner, fence⟩, ?_, owner, fence, unexpired⟩,
    Nat.le.refl, ?_⟩
  · exact ordered.running term (mem_of_find?_eq_some located)
  · exact fun single => single.frame ⟨rfl, rfl, rfl⟩

end

theorem startLoop_eq_some (taken : s.startLoop node = some s') : s' = s.setLoop node {} := by
  unfold System.startLoop at taken
  split at taken
  · cases taken
    rfl
  · split at taken <;> cases taken
    rfl

theorem Ordered.resolve {commit : Bool} (ordered : Ordered s)
    (taken : s.resolve commit = some s') : Advanced s s' := by
  have unlocked : Advanced s { s with lock := none } :=
    ⟨ordered.unlock, Nat.le.refl, fun single => single.frame ⟨rfl, rfl, rfl⟩⟩
  unfold System.resolve at taken
  split at taken
  · cases taken
  · rename_i version claim held
    have sound : Succeeds s.row version claim := ordered.lock _ held
    cases commit <;> cases taken
    · exact unlocked
    · exact ⟨ordered.unlock.install rfl sound, sound.fence_le,
        fun single => single.frame ⟨rfl, rfl, rfl⟩⟩
  · rename_i write held
    obtain ⟨⟨_, present, owner, fence⟩, began, passed⟩ := ordered.lock _ held
    cases commit <;> cases taken
    · exact unlocked
    · have committed := ordered.commit present owner fence began passed
      exact ⟨committed, Nat.le.refl, fun single => single.frame ⟨rfl, rfl, rfl⟩⟩

end Loops

section
variable (ordered : Ordered s)
include ordered

theorem Ordered.cancel (running : s.loops node = some l) :
    Advanced s (s.setLoop node { l with cancelled := true }) where
  ordered := by
    have sound : LoopSound s.log node l := ordered.loops node l running
    exact ordered.setLoop ⟨sound.unused, sound.confirming⟩
  fence := Nat.le.refl
  single := fun single => by
    have known := single.known_of running
    exact single.setLoop known fun now acquiring => single.clear node l now running acquiring

theorem Ordered.crash :
    Advanced s
      { s with loops := update s.loops node none, terms := s.terms.filter (·.node != node) } where
  ordered := by
    refine { ordered with lock := fun lock held => ?_, running := fun term mem => ?_, loops := ?_ }
    · cases lock <;> exact ordered.lock _ held
    · exact ordered.running term (mem_filter.mp mem).1
    · intro other q running
      simp only [update_apply] at running
      split at running
      · cases running
      · exact ordered.loops other q running
  fence := Nat.le.refl
  single := by
    intro single
    have gone : ∀ term ∈ s.terms.filter (·.node != node), term.node ≠ node := fun term mem => by
      simpa using (mem_filter.mp mem).2
    have left := single.filter (·.node != node)
    refine ⟨fun term mem => ?_, left.distinct, left.issued, fun other q now running phase => ?_⟩
    · obtain ⟨q, running, known⟩ := left.known term mem
      exact ⟨q, by simpa [gone term mem] using running, known⟩
    simp only [update_apply] at running
    split at running
    · cases running
    · exact left.clear other q now running phase

theorem Ordered.exit : Advanced s { s with terms := s.terms.filter (·.id != id) } where
  ordered := by
    refine { ordered with lock := fun lock held => ?_, running := fun term mem => ?_ }
    · cases lock <;> exact ordered.lock _ held
    · exact ordered.running term (mem_filter.mp mem).1
  fence := Nat.le.refl
  single := fun single => single.filter (·.id != id)

theorem Ordered.fenceTopology (free : ¬ s.lock.isSome = true) :
    Advanced s { s with row := fenceSelfConfigTopologyLease s.row expires } where
  ordered := by
    refine { ordered with bounded := ?_, lock := fun lock held => ?_ }
    · intro event mem
      obtain ⟨_, present, le, -⟩ := ordered.bounded event mem
      refine ⟨_, by rw [fenceSelfConfigTopologyLease, present]; rfl, ?_⟩
      exact ⟨Nat.le_succ_of_le le, fun same => absurd same (Nat.ne_of_lt (Nat.lt_succ_of_le le))⟩
    · have present : s.lock = some lock := held
      simp [present] at free
  fence := by cases row : s.row <;> simp [System.fence, fenceSelfConfigTopologyLease, row]
  single := fun single => single.frame ⟨rfl, rfl, rfl⟩

theorem Ordered.step {action : Action} (taken : step ttl s action = some s') :
    Ordered s' ∧ s.fence ≤ s'.fence ∧ (Joined s action → Single s → Single s') := by
  have of_advanced : Advanced s s' → Ordered s' ∧
      s.fence ≤ s'.fence ∧ (Joined s action → Single s → Single s') :=
    fun advanced => ⟨advanced.ordered, advanced.fence, fun _ => advanced.single⟩
  cases action with first
    | have acts := Option.bind_eq_some_iff.mp taken
      obtain ⟨l, running, acts⟩ := acts
    | skip
  | start node =>
    cases startLoop_eq_some taken
    have fresh : LoopSound s.log node {} := ⟨nofun, nofun⟩
    exact ⟨ordered.setLoop fresh, Nat.le.refl, fun idle single => single.setLoop_idle idle⟩
  | advance =>
    cases taken
    refine of_advanced ⟨?_, Nat.le.refl, fun single => single.frame ⟨rfl, rfl, rfl⟩⟩
    exact { ordered with lock := fun lock held => by cases lock <;> exact ordered.lock _ held }
  | crash =>
    cases taken
    exact of_advanced ordered.crash
  | exit =>
    cases taken
    exact of_advanced ordered.exit
  | guard => exact of_advanced (ordered.guard taken)
  | resolve => exact of_advanced (ordered.resolve taken)
  | fenceTopology =>
    dsimp only [Leadership.step] at taken
    split at taken <;> cases taken
    exact of_advanced (ordered.fenceTopology (by assumption))
  | cancel =>
    cases acts
    exact of_advanced (ordered.cancel running)
  | tick =>
    exact of_advanced (ordered.tick running acts)
  | renew =>
    exact of_advanced (ordered.renew running acts)
  | acquire =>
    exact of_advanced (ordered.acquire running acts)
  | confirm =>
    exact of_advanced (ordered.confirm running acts)
  | claim =>
    exact of_advanced (ordered.claim running acts)
  | shutdown =>
    exact of_advanced (ordered.shutdown running acts)
  | join =>
    exact of_advanced (ordered.join running acts)
  | release =>
    exact of_advanced (ordered.release running acts)

end

/-- The log comes in fence order and every write that commits passed its guard while unexpired; if
no loop starts beside a running term, no node runs two terms. -/
theorem leadership_exclusive (ttl : Nat) (actions : List Action) :
    (∀ past, past <+: actions →
        (runFrom (step ttl) System.start past).fence ≤
        (runFrom (step ttl) System.start actions).fence) ∧
      (runFrom (step ttl) System.start actions).log.Pairwise Follows ∧
      (∀ write, .committed write ∈ (runFrom (step ttl) System.start actions).log →
        write.PassedGuard) ∧
      (AllowedFrom (step ttl) Joined System.start actions →
        OneTermPerNode (runFrom (step ttl) System.start actions)) := by
  have ordered : Ordered (runFrom (step ttl) System.start actions) :=
    runFrom_invariant (step ttl) Ordered (fun _ _ _ holds taken => (holds.step taken).1) actions
      _ ordered_start
  refine ⟨?_, ordered.log, ordered.guarded, fun joined => ?_⟩
  · intro _ earlier
    refine runFrom_prefix (step ttl) System.start (fun a b => a.fence ≤ b.fence)
      (fun _ => Nat.le.refl)
      (fun _ _ _ => Nat.le_trans) Ordered ordered_start ?_ earlier
    intro _ _ _ holds taken
    obtain ⟨after, fence, -⟩ := holds.step taken
    exact ⟨after, fence⟩
  · have both : Ordered (runFrom (step ttl) System.start actions) ∧
        Single (runFrom (step ttl) System.start actions) := by
      refine runFrom_invariant_of_allowed (step ttl) Joined (fun s => Ordered s ∧ Single s) ?_
        actions _ ⟨ordered_start, single_start⟩ joined
      intro _ _ _ holds met taken
      obtain ⟨after, -, single⟩ := holds.1.step taken
      exact ⟨after, single met holds.2⟩
    exact both.2.oneTermPerNode

def handover : List Action :=
  [.start "a", .start "b", .tick "a" true, .acquire "a", .claim "a" .lost true, .resolve true,
    .advance 1000,
    .tick "a" true, .acquire "a", .confirm "a" .answered, .guard 0, .resolve true, .cancel "a",
    .shutdown "a",
    .exit 0, .join "a" false, .release "a" .answered, .tick "b" true, .acquire "b",
    .claim "b" .answered false]

theorem leadership_exclusive_handover :
    (runFrom (step defaultLeaseTTL) System.start handover).terms = [⟨1, "b", 2⟩] ∧
      (runFrom (step defaultLeaseTTL) System.start handover).log.Pairwise Follows ∧
      OneTermPerNode (runFrom (step defaultLeaseTTL) System.start handover) :=
  ⟨by decide, (leadership_exclusive defaultLeaseTTL handover).2.1,
    (leadership_exclusive defaultLeaseTTL handover).2.2.2 (by decide)⟩

/-- The next loop starts beside the term, and claims the lease when it has expired. -/
def unjoinedRun : List Action :=
  [.start "a", .tick "a" true, .acquire "a", .claim "a" .answered false, .cancel "a", .shutdown "a",
    .advance 2000, .join "a" true, .start "a", .advance defaultLeaseTTL,
    .tick "a" true, .acquire "a",
    .claim "a" .answered false]

theorem unjoined_node_runs_two_terms :
    ¬ OneTermPerNode (runFrom (step defaultLeaseTTL) System.start unjoinedRun) := by
  unfold OneTermPerNode
  decide

end Hikyo.Leadership
