import Hikyo.Dynamic.System
import Hikyo.Lib.Transaction

/-!
# No role outlives its lease

`terminal_lease_has_no_role`: in every history in which no role is created after a drop of it has
taken effect, a lease in a terminal state has no role at its provider, and a password is handed out
only for a lease that was active.  `Tracked` follows the calls that are under way.  A drop that runs
ahead of the create it is meant to undo finds nothing and succeeds, and then the create leaves a
role without an owner (`revokedAhead_orphans_role`).
-/

namespace Hikyo.Dynamic

open Hikyo.Lib Function

variable {action : Action} {result : MintLeaseResult} {c id lease provider readAt : Nat}
  {statement : Statement} {sweep : Sweep}

def Call.drops (call : Call) (id : Nat) : Bool :=
  call.lease == id && call.statement == .dropRole && call.fate == .done

def System.Dropped (s : System) (id : Nat) : Prop :=
  ∃ c, c < s.nextCall ∧ (s.calls c).any (·.drops id) = true

instance (s : System) (id : Nat) : Decidable (s.Dropped id) :=
  inferInstanceAs (Decidable (∃ c, c < _ ∧ _))

def System.Creates (s : System) (id c : Nat) (call : Call) : Prop :=
  s.calls c = some call ∧ call.lease = id ∧ call.statement = .createRole

def System.Cleared (s : System) (id : Nat) : Prop :=
  s.Dropped id ∨ (∀ c call, s.Creates id c call → call.fate = .void) ∧
    ∀ maxTTL, s.mints id ≠ some (.recorded maxTTL)

/-- Whenever a role is created, no drop of it has taken effect before. -/
def CreatedBeforeDropped (s : System) : Action → Prop
  | .execute call => ∀ c ∈ s.calls call, c.statement = .createRole → ¬ s.Dropped c.lease
  | _ => True

instance (s : System) (action : Action) : Decidable (CreatedBeforeDropped s action) := by
  unfold CreatedBeforeDropped
  split <;> infer_instance

structure Tracked (s : System) : Prop where
  lease_known : ∀ id row, s.leases id = some row → id < s.nextLease
  mint_known : ∀ id phase, s.mints id = some phase → id < s.nextLease
  call_known : ∀ c call, s.calls c = some call → c < s.nextCall
  create_known : ∀ id c call, s.Creates id c call → id < s.nextLease
  recorded : ∀ id maxTTL, s.mints id = some (.recorded maxTTL) → ∀ c call, ¬ s.Creates id c call
  calling : ∀ id own expiresAt, s.mints id = some (.calling own expiresAt) →
    ∀ c call, s.Creates id c call → c = own
  refused : ∀ id expiresAt answer, s.mints id = some (.answered expiresAt answer) →
    baseState answer = .failed →
    s.Cleared id
  sweeping : ∀ i sweep c newExpiry, s.sweeps i = some sweep → sweep.stage = .calling c newExpiry →
    ∃ call, s.calls c = some call ∧ call.lease = sweep.lease ∧ call.statement = sweep.kind.statement
  swept : ∀ i sweep newExpiry, s.sweeps i = some sweep →
    sweep.stage = .answered newExpiry .success →
    sweep.kind ≠ .renew → s.Dropped sweep.lease
  terminal : ∀ id row, s.leases id = some row → row.state.Terminal → s.Cleared id
  role_created : ∀ id, s.roles id = true → ∃ c call, s.Creates id c call ∧ call.fate = .done
  dropped_gone : ∀ id, s.Dropped id → s.roles id = false

theorem tracked_start (org : Nat → Nat) : Tracked (System.start org) := by
  constructor <;> simp [System.start, System.Creates]

variable {s s' : System} {maxTTL now : Nat} {row : Lease} {answer : Answer} {authority : Bool}
  {target : LeaseState}

theorem Tracked.no_role (tracked : Tracked s) (cleared : s.Cleared id) : s.roles id = false := by
  rcases cleared with dropped | ⟨void, -⟩
  · exact tracked.dropped_gone id dropped
  rw [Bool.eq_false_iff]
  intro there
  obtain ⟨c, call, creates, done⟩ := tracked.role_created id there
  cases done.symm.trans (void c call creates)

theorem System.Cleared.frame (cleared : s.Cleared id) (calls : s'.calls = s.calls)
    (nextCall : s'.nextCall = s.nextCall)
    (mints : ∀ maxTTL, s'.mints id = some (.recorded maxTTL) →
      s.mints id = some (.recorded maxTTL)) :
    s'.Cleared id := by
  unfold System.Cleared System.Dropped System.Creates at *
  rw [calls, nextCall]
  exact cleared.imp_right fun ⟨void, unrecorded⟩ =>
    ⟨void, fun maxTTL found => unrecorded maxTTL (mints maxTTL found)⟩

section
variable (tracked : Tracked s)
include tracked

theorem Tracked.putLease (known : id < s.nextLease)
    (cleared : row.state.Terminal → s.Cleared id) : Tracked (s.putLease id row) := by
  refine { tracked with lease_known := ?_, terminal := ?_ }
  · intro i r found
    rcases update_eq_some found with ⟨rfl, -⟩ | ⟨-, old⟩
    · exact known
    · exact tracked.lease_known i r old
  intro i r found terminal
  rcases update_eq_some found with ⟨rfl, rfl⟩ | ⟨-, old⟩
  · exact cleared terminal
  · exact tracked.terminal i r old terminal

theorem Tracked.putMint {phase : Option MintPhase} (known : ∀ p ∈ phase, id < s.nextLease)
    (recorded : ∀ maxTTL, phase = some (.recorded maxTTL) →
      (∀ c call, ¬ s.Creates id c call) ∧ ∀ row, s.leases id = some row → ¬ row.state.Terminal)
    (calling : ∀ own expiresAt, phase = some (.calling own expiresAt) →
      ∀ c call, s.Creates id c call → c = own)
    (refused : ∀ expiresAt answer, phase = some (.answered expiresAt answer) →
      baseState answer = .failed → s.Cleared id) :
    Tracked (s.putMint id phase) := by
  have kept : ∀ {x}, (x = id → ∀ maxTTL, phase ≠ some (.recorded maxTTL)) → s.Cleared x →
      (s.putMint id phase).Cleared x := by
    intro x unrecorded cleared
    refine cleared.frame rfl rfl fun maxTTL found => ?_
    rcases update_cases found with ⟨own, new⟩ | ⟨-, old⟩
    · exact absurd new (unrecorded own maxTTL)
    · exact old
  refine { tracked with
    mint_known := ?_, recorded := ?_, calling := ?_, refused := ?_, terminal := ?_ }
  · intro x p found
    rcases update_cases found with ⟨rfl, new⟩ | ⟨-, old⟩
    · exact known p new
    · exact tracked.mint_known x p old
  · intro x maxTTL found
    rcases update_cases found with ⟨rfl, new⟩ | ⟨-, old⟩
    · exact (recorded maxTTL new).1
    · exact tracked.recorded x maxTTL old
  · intro x own expiresAt found
    rcases update_cases found with ⟨rfl, new⟩ | ⟨-, old⟩
    · exact calling own expiresAt new
    · exact tracked.calling x own expiresAt old
  · intro x expiresAt answer found isFailed
    rcases update_cases found with ⟨rfl, new⟩ | ⟨other, old⟩
    · exact kept (fun _ _ again => nomatch new.symm.trans again)
        (refused expiresAt answer new isFailed)
    · exact kept (fun own => absurd own other) (tracked.refused x expiresAt answer old isFailed)
  · intro x row found terminal
    refine kept (fun own maxTTL new => ?_) (tracked.terminal x row found terminal)
    exact (recorded maxTTL new).2 row (own ▸ found) terminal

theorem Tracked.endMint (id : Nat) : Tracked (s.putMint id none) :=
  tracked.putMint nofun nofun nofun nofun

theorem Tracked.endSweep (id : Nat) : Tracked (s.putSweep id none) := by
  refine { tracked with sweeping := ?_, swept := ?_ }
  · exact fun i sweep c newExpiry found => tracked.sweeping i sweep c newExpiry
      (update_none_eq_some found)
  · exact fun i sweep newExpiry found => tracked.swept i sweep newExpiry (update_none_eq_some found)

theorem Tracked.putSweep (id : Nat)
    (sweeping : ∀ c newExpiry, sweep.stage = .calling c newExpiry →
      ∃ call, s.calls c = some call ∧ call.lease = sweep.lease ∧
        call.statement = sweep.kind.statement)
    (swept : ∀ newExpiry, sweep.stage = .answered newExpiry .success → sweep.kind ≠ .renew →
      s.Dropped sweep.lease) :
    Tracked (s.putSweep id (some sweep)) := by
  refine { tracked with sweeping := ?_, swept := ?_ }
  · intro i x c newExpiry found
    rcases update_eq_some found with ⟨-, rfl⟩ | ⟨-, old⟩
    · exact sweeping c newExpiry
    · exact tracked.sweeping i x c newExpiry old
  intro i x newExpiry found
  rcases update_eq_some found with ⟨-, rfl⟩ | ⟨-, old⟩
  · exact swept newExpiry
  · exact tracked.swept i x newExpiry old

end

def System.Drops (s : System) (id c : Nat) (call : Call) : Prop :=
  s.calls c = some call ∧ call.lease = id ∧ call.statement = .dropRole ∧ call.fate = .done

theorem dropped_iff : s.Dropped id ↔ ∃ c call, c < s.nextCall ∧ s.Drops id c call := by
  constructor
  · rintro ⟨c, before, drops⟩
    cases found : s.calls c with
    | none => simp [found] at drops
    | some call =>
      have isDrop : (call.lease = id ∧ call.statement = .dropRole) ∧ call.fate = .done := by
        simpa [found, Call.drops] using drops
      exact ⟨c, call, before, found, isDrop.1.1, isDrop.1.2, isDrop.2⟩
  · rintro ⟨c, _, before, found, sameLease, isDrop, done⟩
    exact ⟨c, before, by simp [found, Call.drops, sameLease, isDrop, done]⟩

section Send
variable {s : System}

theorem creates_send {call : Call} (creates : (s.send lease statement).Creates id c call) :
    s.Creates id c call ∨ c = s.nextCall ∧ lease = id ∧ statement = .createRole := by
  obtain ⟨found, sameLease, isCreate⟩ := creates
  rcases update_eq_some found with ⟨new, rfl⟩ | ⟨-, old⟩
  · exact .inr ⟨new, sameLease, isCreate⟩
  · exact .inl ⟨old, sameLease, isCreate⟩

theorem send_calls (known : ∀ c call, s.calls c = some call → c < s.nextCall) {call : Call}
    (found : s.calls c = some call) : (s.send lease statement).calls c = some call :=
  (update_of_ne (Nat.ne_of_lt (known c call found)) ..).trans found

theorem dropped_send (dropped : (s.send lease statement).Dropped id) : s.Dropped id := by
  obtain ⟨c, call, before, found, sameLease, isDrop, done⟩ := dropped_iff.mp dropped
  rcases update_eq_some found with ⟨-, rfl⟩ | ⟨old, wasThere⟩
  · cases done
  · exact dropped_iff.mpr ⟨c, call, Nat.lt_of_le_of_ne (Nat.le_of_lt_succ before) old, wasThere,
      sameLease, isDrop, done⟩

theorem System.Dropped.send (known : ∀ c call, s.calls c = some call → c < s.nextCall)
    (dropped : s.Dropped id) :
    (s.send lease statement).Dropped id := by
  obtain ⟨c, call, before, found, drops⟩ := dropped_iff.mp dropped
  exact dropped_iff.mpr ⟨c, call, Nat.lt_succ_of_lt before, send_calls known found, drops⟩

theorem System.Cleared.send (known : ∀ c call, s.calls c = some call → c < s.nextCall)
    (cleared : s.Cleared id) (fresh : lease = id → statement = .createRole → s.Dropped id) :
    (s.send lease statement).Cleared id := by
  rcases cleared with dropped | ⟨void, unrecorded⟩
  · exact .inl (dropped.send known)
  by_cases create : lease = id ∧ statement = .createRole
  · exact .inl ((fresh create.1 create.2).send known)
  refine .inr ⟨fun c call creates => ?_, unrecorded⟩
  rcases creates_send creates with old | ⟨-, new⟩
  · exact void c call old
  · exact absurd new create

end Send

theorem Tracked.send (tracked : Tracked s)
    (fresh : statement = .createRole →
      (∃ expiresAt, s.mints lease = some (.calling s.nextCall expiresAt)) ∧
      ∀ row, s.leases lease = some row → row.state.Terminal → s.Dropped lease) : Tracked
        (s.send lease statement) := by
  have known := tracked.call_known
  have cases_of : ∀ {id c call}, (s.send lease statement).Creates id c call → s.Creates id c call ∨
      c = s.nextCall ∧ ∃ expiresAt, s.mints id = some (.calling s.nextCall expiresAt) := by
    intro id c call creates
    rcases creates_send creates with wasThere | ⟨new, rfl, isCreate⟩
    · exact .inl wasThere
    · exact .inr ⟨new, (fresh isCreate).1⟩
  refine { tracked with
    call_known := ?_, create_known := ?_, recorded := ?_, calling := ?_, refused := ?_, sweeping :=
      ?_, swept := ?_
    terminal := ?_, role_created := ?_, dropped_gone := ?_ }
  · intro c call found
    rcases update_eq_some found with ⟨rfl, -⟩ | ⟨-, wasThere⟩
    · exact Nat.lt_succ_self _
    · exact Nat.lt_succ_of_lt (known c call wasThere)
  · intro id c call creates
    rcases cases_of creates with old | ⟨-, expiresAt, calling⟩
    · exact tracked.create_known id c call old
    · exact tracked.mint_known id _ calling
  · intro id maxTTL found c call creates
    rcases cases_of creates with old | ⟨-, expiresAt, calling⟩
    · exact tracked.recorded id maxTTL found c call old
    · cases calling.symm.trans found
  · intro id own expiresAt found c call creates
    rcases cases_of creates with old | ⟨new, _, calling⟩
    · exact tracked.calling id own expiresAt found c call old
    · cases calling.symm.trans found
      exact new
  · intro id expiresAt answer found isFailed
    refine (tracked.refused id expiresAt answer found isFailed).send known ?_
    rintro rfl isCreate
    obtain ⟨⟨_, calling⟩, -⟩ := fresh isCreate
    cases calling.symm.trans found
  · intro i sweep c newExpiry found stage
    obtain ⟨call, isCall, rest⟩ := tracked.sweeping i sweep c newExpiry found stage
    exact ⟨call, send_calls known isCall, rest⟩
  · exact fun i sweep newExpiry found stage dropping =>
      (tracked.swept i sweep newExpiry found stage dropping).send known
  · intro id row found terminal
    refine (tracked.terminal id row found terminal).send known ?_
    rintro rfl isCreate
    exact (fresh isCreate).2 row found terminal
  · intro id there
    obtain ⟨c, call, ⟨found, rest⟩, done⟩ := tracked.role_created id there
    exact ⟨c, call, ⟨send_calls known found, rest⟩, done⟩
  · exact fun id dropped => tracked.dropped_gone id (dropped_send dropped)

theorem Tracked.mint (tracked : Tracked s)
    (taken : s.mint provider maxTTL now = some s') : Tracked s' := by
  obtain ⟨-, rfl⟩ := mint_eq_some taken
  have numbered : Tracked { s with nextLease := s.nextLease + 1 } :=
    { tracked with
      lease_known := fun id row found => Nat.lt_succ_of_lt (tracked.lease_known id row found)
      mint_known := fun id phase found => Nat.lt_succ_of_lt (tracked.mint_known id phase found)
      create_known :=
        fun id c call creates => Nat.lt_succ_of_lt (tracked.create_known id c call creates) }
  have minting : ¬ (createLease (s.providers provider).org provider maxTTL now).state.Terminal := by
    simp [createLease, LeaseState.Terminal]
  refine (numbered.putLease (Nat.lt_succ_self _) fun terminal => absurd terminal minting).putMint
    (fun _ _ => Nat.lt_succ_self _) (fun _ _ => ⟨fun c call creates => ?_, fun row found => ?_⟩)
      nofun nofun
  · exact Nat.lt_irrefl _ (tracked.create_known _ c call creates)
  · cases (update_self ..).symm.trans found
    exact minting

theorem Tracked.callCreateRole (tracked : Tracked s)
    (taken : s.callCreateRole id now = some s') : Tracked s' := by
  obtain ⟨maxTTL, recorded, rfl⟩ := callCreateRole_eq_some taken
  have called : Tracked (s.putMint id (some (.calling s.nextCall (now + maxTTL)))) :=
    tracked.putMint (fun _ _ => tracked.mint_known id _ recorded) nofun
      (fun _ _ _ c call creates => absurd creates (tracked.recorded id maxTTL recorded c call))
        nofun
  refine called.send fun _ => ⟨⟨_, update_self ..⟩, fun row found terminal => ?_⟩
  rcases tracked.terminal id row found terminal with dropped | ⟨-, unrecorded⟩
  · exact dropped
  · exact absurd recorded (unrecorded maxTTL)

theorem Tracked.answerMint (tracked : Tracked s)
    (taken : s.answerMint id answer = some s') : Tracked s' := by
  obtain ⟨own, expiresAt, calling, valid, rfl⟩ := answerMint_eq_some taken
  refine tracked.putMint (fun _ _ => tracked.mint_known id _ calling) nofun nofun ?_
  rintro _ _ ⟨⟩ isFailed
  refine .inr ⟨fun c call creates => ?_, fun maxTTL recorded => nomatch calling.symm.trans recorded⟩
  cases tracked.calling id own expiresAt calling c call creates
  have isCall : s.calls own = some call := creates.1
  rw [isCall] at valid
  cases answer with
  | success | ambiguous => cases isFailed
  | refused | unreachable => simpa [Call.mayAnswer] using valid

theorem finishState_terminal (terminal : (finishState answer authority).1.Terminal) :
    baseState answer = .failed := by
  unfold finishState at terminal
  split at terminal
  · simp [LeaseState.Terminal] at terminal
  cases answer with
  | success | ambiguous => simp [baseState, LeaseState.Terminal] at terminal
  | refused | unreachable => rfl

theorem finishMint_eq_some {minted : Lease} {state : LeaseState} {expiresAt : Nat}
    (finished : row.finishMint state expiresAt now = some minted) :
    row.state = .minting ∧ row.term = none ∧
      minted = { row with
        state
        issuedAt := if state = .active then some now else none
        expiresAt := if state = .active then some expiresAt else none
        nextAttemptAt := if state = .active then expiresAt else now
        term := none } := by
  unfold Lease.finishMint at finished
  split at finished
  · rename_i own
    exact ⟨own.1, own.2, (Option.some.inj finished).symm⟩
  · cases finished

theorem Tracked.settleMint (tracked : Tracked s)
    (taken : s.settleMint id authority now = some s') : Tracked s' := by
  obtain ⟨expiresAt, answer, answered, -, rfl | ⟨row, _, isRow, finished, rfl⟩⟩ :=
    settleMint_eq_some taken
  · exact tracked.endMint id
  obtain ⟨-, -, rfl⟩ := finishMint_eq_some finished
  refine { (tracked.endMint id).putLease (tracked.lease_known id row isRow) fun terminal =>
    ?_ with }
  have cleared := tracked.refused id expiresAt answer answered (finishState_terminal terminal)
  exact cleared.frame rfl rfl fun _ => update_none_eq_some

theorem enqueueTransition_eq_some {moved : Lease}
    (entered : row.enqueueTransition target maxTTL now = some moved) :
    row.mayEnter target = true ∧
      moved = { row with
        state := target
        maxTTL := if 0 < maxTTL then maxTTL else row.maxTTL
        nextAttemptAt := now
        attempt := 0
        term := none } := by
  unfold Lease.enqueueTransition at entered
  split at entered
  · rename_i may
    exact ⟨may, (Option.some.inj entered).symm⟩
  · cases entered

theorem mayEnter_not_terminal (may : row.mayEnter target = true) :
    ¬ target.Terminal := by
  rintro (rfl | rfl | rfl) <;> cases may

theorem Tracked.enqueueLeaseTransition (tracked : Tracked s)
    (taken : s.enqueueLeaseTransition id target maxTTL now = some s') : Tracked s' := by
  obtain ⟨row, _, isRow, entered, rfl⟩ := enqueueLeaseTransition_eq_some taken
  obtain ⟨may, rfl⟩ := enqueueTransition_eq_some entered
  exact tracked.putLease (tracked.lease_known id row isRow) fun terminal =>
    absurd terminal (mayEnter_not_terminal may)

theorem revokedWith_cases (row : Lease) (provider now : Nat) :
    row.revokedWith provider now = row ∨
      row.enqueueTransition .revoking 0 now = some (row.revokedWith provider now) := by
  unfold Lease.revokedWith
  split
  · cases entered : row.enqueueTransition .revoking 0 now with
    | none => exact .inl rfl
    | some => exact .inr rfl
  · exact .inl rfl

section
variable (tracked : Tracked s)
include tracked

theorem Tracked.deleteProvider {revokeAll : Bool}
    (taken : s.deleteProvider provider revokeAll now = some s') : Tracked s' := by
  rw [deleteProvider_eq_some taken]
  refine { tracked with lease_known := ?_, terminal := ?_ }
  · intro id row found
    obtain ⟨old, wasThere, -⟩ := Option.map_eq_some_iff.mp found
    exact tracked.lease_known id old wasThere
  intro id _ found terminal
  obtain ⟨old, wasThere, rfl⟩ := Option.map_eq_some_iff.mp found
  rcases revokedWith_cases old provider now with same | entered
  · exact tracked.terminal id old wasThere (same ▸ terminal)
  obtain ⟨may, moved⟩ := enqueueTransition_eq_some entered
  rw [moved] at terminal
  exact absurd terminal (mayEnter_not_terminal may)

theorem Tracked.claimDueLease {worker : Nat}
    (taken : s.claimDueLease worker id now = some s') : Tracked s' := by
  obtain ⟨row, _, isRow, -, rfl⟩ := claimDueLease_eq_some taken
  have claimed : Tracked (s.putLease id (row.claimed worker now)) :=
    tracked.putLease (tracked.lease_known id row isRow) (tracked.terminal id row isRow)
  refine { claimed.putSweep s.nextSweep ?_ ?_ with }
  · exact fun _ _ stage => nomatch stage
  · exact nofun

theorem Tracked.retry
    (taken : s.retry id readAt now = some s') : Tracked s' := by
  obtain ⟨_, row, -, isRow, -, rfl | ⟨-, rfl⟩⟩ := retry_eq_some taken
  · exact tracked.endSweep id
  · exact (tracked.endSweep id).putLease (tracked.lease_known _ row isRow)
      (tracked.terminal _ row isRow)

theorem Tracked.recordIntent
    (taken : s.recordIntent id now = some s') : Tracked s' := by
  obtain ⟨sweep, row, -, isRow, rfl | ⟨-, rfl⟩⟩ := recordIntent_eq_some taken
  · exact tracked.endSweep id
  have intended : Tracked (s.putSweep id (some { sweep with stage := .intended })) :=
    tracked.putSweep id (fun _ _ stage => nomatch stage) nofun
  exact intended.putLease (tracked.lease_known _ row isRow) (tracked.terminal _ row isRow)

theorem Tracked.callProvider
    (taken : s.callProvider id now = some s') : Tracked s' := by
  obtain ⟨sweep, -, -, rfl⟩ := callProvider_eq_some taken
  have other : sweep.kind.statement ≠ .createRole := by cases sweep.kind <;> simp [Kind.statement]
  refine (tracked.send fun isCreate => absurd isCreate other).putSweep id ?_ nofun
  rintro c newExpiry ⟨⟩
  exact ⟨_, update_self .., rfl, rfl⟩

theorem Tracked.answerSweep
    (taken : s.answerSweep id answer = some s') : Tracked s' := by
  obtain ⟨sweep, c, newExpiry, isSweep, stage, valid, rfl⟩ := answerSweep_eq_some taken
  refine tracked.putSweep id (fun _ _ stage => nomatch stage) fun expiry answered dropping => ?_
  cases answered
  obtain ⟨call, isCall, sameLease, statement⟩ := tracked.sweeping id sweep c newExpiry isSweep stage
  have isDrop : call.statement = .dropRole := by
    rw [statement]
    cases kind : sweep.kind with
    | renew => exact absurd kind dropping
    | mint | revoke | expire => rfl
  have done : call.fate = .done := by simpa [isCall, Call.mayAnswer] using valid
  exact dropped_iff.mpr ⟨c, call, tracked.call_known c call isCall, isCall, sameLease, isDrop, done⟩

end

/-- A sweep leaves a lease terminal only after a drop of its role. -/
theorem settlement_terminal {kind : Kind} {issuedAt : Option Nat} {newExpiry : Nat}
    (terminal : (settlement kind issuedAt newExpiry answer).state.Terminal) :
    answer = .success ∧ kind ≠ .renew := by
  cases kind <;> cases answer <;> simp_all [settlement, settleRenew, settleDrop, renewalFailed,
    Settlement.state, LeaseState.Terminal]

theorem Tracked.settle {settlement : Settlement}
    (tracked : Tracked s) (dropped : settlement.state.Terminal → s.Dropped sweep.lease)
    (taken : s.settle id sweep settlement readAt now = some s') : Tracked s' := by
  obtain ⟨row, isRow, -, rfl | ⟨-, rfl⟩⟩ := settle_eq_some taken
  · exact tracked.endSweep id
  · exact (tracked.endSweep id).putLease (tracked.lease_known _ row isRow) fun terminal =>
      .inl (dropped terminal)

section Fate
variable {s : System} {call : Call} {fate : Fate}

variable {x : Nat}

theorem creates_putFate {new : Call} (creates : (s.putFate id call fate).Creates x c new)
    (isCall : s.calls id = some call) :
    ∃ old, s.Creates x c old ∧ (new = old ∨ old = call ∧ new = { call with fate }) := by
  obtain ⟨found, sameLease, isCreate⟩ := creates
  rcases update_eq_some found with ⟨rfl, rfl⟩ | ⟨-, wasThere⟩
  · exact ⟨call, ⟨isCall, sameLease, isCreate⟩, .inr ⟨rfl, rfl⟩⟩
  · exact ⟨new, ⟨wasThere, sameLease, isCreate⟩, .inl rfl⟩

theorem System.Dropped.putFate (dropped : s.Dropped x) (isCall : s.calls id = some call)
    (pending : call.fate = .pending) : (s.putFate id call fate).Dropped x := by
  obtain ⟨c, old, before, found, sameLease, isDrop, done⟩ := dropped_iff.mp dropped
  have other : c ≠ id := by
    rintro rfl
    cases isCall.symm.trans found
    cases pending.symm.trans done
  exact dropped_iff.mpr ⟨c, old, before, (update_of_ne other ..).trans found,
    sameLease, isDrop, done⟩

theorem dropped_putFate (dropped : (s.putFate id call fate).Dropped x) :
    s.Dropped x ∨ call.lease = x ∧ call.statement = .dropRole ∧ fate = .done := by
  obtain ⟨c, new, before, found, sameLease, isDrop, done⟩ := dropped_iff.mp dropped
  rcases update_eq_some found with ⟨-, rfl⟩ | ⟨-, wasThere⟩
  · exact .inr ⟨sameLease, isDrop, done⟩
  · exact .inl (dropped_iff.mpr ⟨c, new, before, wasThere, sameLease, isDrop, done⟩)

theorem System.Cleared.putFate (cleared : s.Cleared x) (isCall : s.calls id = some call)
    (pending : call.fate = .pending) : (s.putFate id call fate).Cleared x := by
  rcases cleared with dropped | ⟨void, unrecorded⟩
  · exact .inl (dropped.putFate isCall pending)
  refine .inr ⟨fun c new creates => ?_, unrecorded⟩
  obtain ⟨old, wasThere, rfl | ⟨rfl, -⟩⟩ := creates_putFate creates isCall
  · exact void c new wasThere
  · cases pending.symm.trans (void c old wasThere)

theorem Tracked.putFate (tracked : Tracked s) (isCall : s.calls id = some call)
    (pending : call.fate = .pending) (roles : Nat → Bool)
    (created : ∀ x, roles x = true → ∃ c new, (s.putFate id call fate).Creates x c new ∧
      new.fate = .done)
    (gone : ∀ x, (s.putFate id call fate).Dropped x → roles x = false) :
    Tracked { s.putFate id call fate with roles } := by
  have old : ∀ {x c new}, (s.putFate id call fate).Creates x c new → ∃ was, s.Creates x c was := by
    intro x c new creates
    obtain ⟨was, wasThere, -⟩ := creates_putFate creates isCall
    exact ⟨was, wasThere⟩
  refine { tracked with
    call_known := ?_, create_known := ?_, recorded := ?_, calling := ?_, refused := ?_, sweeping :=
      ?_, swept := ?_
    terminal := ?_, role_created := created, dropped_gone := gone }
  · intro c new found
    rcases update_eq_some found with ⟨rfl, -⟩ | ⟨-, wasThere⟩
    · exact tracked.call_known c call isCall
    · exact tracked.call_known c new wasThere
  · intro x c new creates
    obtain ⟨was, wasThere⟩ := old creates
    exact tracked.create_known x c was wasThere
  · intro x ttl found c new creates
    obtain ⟨was, wasThere⟩ := old creates
    exact tracked.recorded x ttl found c was wasThere
  · intro x own expiresAt found c _ creates
    obtain ⟨was, wasThere⟩ := old creates
    exact tracked.calling x own expiresAt found c was wasThere
  · exact fun x expiresAt answer found isFailed =>
      (tracked.refused x expiresAt answer found isFailed).putFate isCall pending
  · intro i sweep c newExpiry found stage
    obtain ⟨was, wasThere, sameLease, statement⟩ := tracked.sweeping i sweep c newExpiry found stage
    by_cases own : c = id
    · subst own
      cases isCall.symm.trans wasThere
      exact ⟨_, update_self .., sameLease, statement⟩
    · exact ⟨was, (update_of_ne own ..).trans wasThere, sameLease, statement⟩
  · exact fun i sweep newExpiry found stage dropping =>
      (tracked.swept i sweep newExpiry found stage dropping).putFate isCall pending
  · exact fun x row found terminal => (tracked.terminal x row found terminal).putFate isCall pending

theorem Tracked.created_putFate (tracked : Tracked s) (isCall : s.calls id = some call)
    (pending : call.fate = .pending) (there : s.roles x = true) :
    ∃ c new, (s.putFate id call fate).Creates x c new ∧ new.fate = .done := by
  obtain ⟨c, was, ⟨found, sameLease, isCreate⟩, done⟩ := tracked.role_created x there
  have other : c ≠ id := by
    rintro rfl
    cases isCall.symm.trans found
    cases pending.symm.trans done
  exact ⟨c, was, ⟨(update_of_ne other ..).trans found, sameLease, isCreate⟩, done⟩

end Fate

theorem Tracked.discard (tracked : Tracked s) (taken : s.discard id = some s') :
    Tracked s' := by
  obtain ⟨_, isCall, pending, rfl⟩ := discard_eq_some taken
  refine tracked.putFate isCall pending s.roles
    (fun x there => tracked.created_putFate isCall pending there) ?_
  intro x dropped
  rcases dropped_putFate dropped with before | ⟨-, -, done⟩
  · exact tracked.dropped_gone x before
  · cases done

theorem Tracked.execute (tracked : Tracked s)
    (inOrder : CreatedBeforeDropped s (.execute id)) (taken : s.execute id = some s') :
    Tracked s' := by
  obtain ⟨call, isCall, pending, rfl⟩ := execute_eq_some taken
  have effect : ∀ x, update s.roles call.lease (call.statement.apply (s.roles call.lease)) x =
      if x = call.lease then call.statement.apply (s.roles x) else s.roles x := by
    intro x
    rw [update_apply]
    split
    · rename_i own
      rw [own]
    · rfl
  refine tracked.putFate isCall pending _ ?_ ?_
  · intro x there
    rw [effect] at there
    split at there
    · rename_i own
      cases statement : call.statement with
      | createRole => exact ⟨id, _, ⟨update_self .., own.symm, statement⟩, rfl⟩
      | extendRole =>
        rw [statement] at there
        exact tracked.created_putFate isCall pending there
      | dropRole =>
        rw [statement] at there
        cases there
    · exact tracked.created_putFate isCall pending there
  intro x dropped
  rw [effect]
  split
  · rename_i own
    cases statement : call.statement with
    | createRole =>
      -- the drop would have come first
      rcases dropped_putFate dropped with before | ⟨-, isDrop, -⟩
      · exact absurd before (own ▸ inOrder call isCall statement)
      · cases statement.symm.trans isDrop
    | extendRole =>
      rcases dropped_putFate dropped with before | ⟨-, isDrop, -⟩
      · exact tracked.dropped_gone x before
      · cases statement.symm.trans isDrop
    | dropRole => rfl
  rename_i other
  rcases dropped_putFate dropped with before | ⟨own, -⟩
  · exact tracked.dropped_gone x before
  · exact absurd own.symm other

theorem Tracked.step (tracked : Tracked s) (inOrder : CreatedBeforeDropped s action)
    (taken : Dynamic.step s action = some s') : Tracked s' := by
  cases action with
  | advance =>
    cases taken
    exact { tracked with }
  | mint => exact tracked.mint taken
  | callCreateRole => exact tracked.callCreateRole taken
  | answerMint => exact tracked.answerMint taken
  | settleMint => exact tracked.settleMint taken
  | abandonMint lease =>
    cases taken
    exact tracked.endMint lease
  | renewLease | revokeLease | settleLease => exact tracked.enqueueLeaseTransition taken
  | deleteProvider => exact tracked.deleteProvider taken
  | claim => exact tracked.claimDueLease taken
  | retry => exact tracked.retry taken
  | recordIntent => exact tracked.recordIntent taken
  | withdrawRenewal =>
    obtain ⟨sweep, -, -, -, settled⟩ := withdrawRenewal_eq_some taken
    refine tracked.settle (fun terminal => ?_) settled
    simp [renewalFailed, Settlement.state, LeaseState.Terminal] at terminal
  | callProvider => exact tracked.callProvider taken
  | answerSweep => exact tracked.answerSweep taken
  | settleSweep id =>
    obtain ⟨sweep, newExpiry, _, isSweep, stage, settled⟩ := settleSweep_eq_some taken
    refine tracked.settle (fun terminal => ?_) settled
    obtain ⟨rfl, dropping⟩ := settlement_terminal terminal
    exact tracked.swept id sweep newExpiry isSweep stage dropping
  | crash sweep =>
    cases taken
    exact tracked.endSweep sweep
  | execute => exact tracked.execute inOrder taken
  | discard => exact tracked.discard taken

theorem results_settleMint
    (taken : s.settleMint id authority now = some s') (given : result ∈ s'.results) :
    result ∈ s.results ∨ s'.leases result.id = some result.lease ∧
      result.lease.state = .active := by
  obtain ⟨_, answer, -, -, rfl | ⟨_, _, -, finished, rfl⟩⟩ := settleMint_eq_some taken
  · exact .inl given
  obtain ⟨-, -, isMinted⟩ := finishMint_eq_some finished
  split at given
  · rcases List.mem_cons.mp given with rfl | before
    · have active : (finishState answer authority).1 = .active := by
        cases answer <;> cases authority <;> simp_all [finishState, baseState]
      refine .inr ⟨update_self .., ?_⟩
      rw [isMinted]
      exact active
    · exact .inl before
  · exact .inl given

theorem results_of_step (taken : Dynamic.step s action = some s') (given : result ∈ s'.results) :
    result ∈ s.results ∨ s'.leases result.id = some result.lease ∧
      result.lease.state = .active := by
  cases action with
  | settleMint => exact results_settleMint taken given
  | advance | abandonMint | crash =>
    cases taken
    exact .inl given
  | mint =>
    obtain ⟨-, rfl⟩ := mint_eq_some taken
    exact .inl given
  | callCreateRole =>
    obtain ⟨maxTTL, -, rfl⟩ := callCreateRole_eq_some taken
    exact .inl given
  | answerMint =>
    obtain ⟨call, _, -, -, rfl⟩ := answerMint_eq_some taken
    exact .inl given
  | renewLease id maxTTL now | revokeLease id now | settleLease id now =>
    obtain ⟨row, _, -, -, rfl⟩ := enqueueLeaseTransition_eq_some taken
    exact .inl given
  | deleteProvider =>
    rw [deleteProvider_eq_some taken] at given
    exact .inl given
  | claim =>
    obtain ⟨row, _, -, -, rfl⟩ := claimDueLease_eq_some taken
    exact .inl given
  | retry =>
    obtain ⟨sweep, row, -, -, -, rfl | ⟨-, rfl⟩⟩ := retry_eq_some taken
    · exact .inl given
    · exact .inl given
  | recordIntent =>
    obtain ⟨sweep, row, -, -, rfl | ⟨-, rfl⟩⟩ := recordIntent_eq_some taken
    · exact .inl given
    · exact .inl given
  | withdrawRenewal =>
    obtain ⟨sweep, -, -, -, settled⟩ := withdrawRenewal_eq_some taken
    obtain ⟨row, -, -, rfl | ⟨-, rfl⟩⟩ := settle_eq_some settled
    · exact .inl given
    · exact .inl given
  | callProvider =>
    obtain ⟨sweep, -, -, rfl⟩ := callProvider_eq_some taken
    exact .inl given
  | answerSweep =>
    obtain ⟨sweep, call, newExpiry, -, -, -, rfl⟩ := answerSweep_eq_some taken
    exact .inl given
  | settleSweep =>
    obtain ⟨_, _, _, -, -, settled⟩ := settleSweep_eq_some taken
    obtain ⟨_, -, -, rfl | ⟨-, rfl⟩⟩ := settle_eq_some settled
    · exact .inl given
    · exact .inl given
  | execute =>
    obtain ⟨call, -, -, rfl⟩ := execute_eq_some taken
    exact .inl given
  | discard =>
    obtain ⟨_, -, -, rfl⟩ := discard_eq_some taken
    exact .inl given

/-- Where no role is created after its drop, a terminal lease has no role; a password is handed out
only for an active lease. -/
theorem terminal_lease_has_no_role (org : Nat → Nat) (actions : List Action) :
    (AllowedFrom step CreatedBeforeDropped (System.start org) actions →
      ∀ id row, (runFrom step (System.start org) actions).leases id = some row →
        row.state.Terminal →
        (runFrom step (System.start org) actions).roles id = false) ∧
    ∀ action s', step (runFrom step (System.start org) actions) action = some s' →
      ∀ result ∈ s'.results, result ∈ (runFrom step (System.start org) actions).results ∨
        s'.leases result.id = some result.lease ∧ result.lease.state = .active := by
  refine ⟨fun inOrder id row found terminal => ?_,
    fun action s' taken result given => results_of_step taken given⟩
  have tracked : Tracked (runFrom step (System.start org) actions) :=
    runFrom_invariant_of_allowed step CreatedBeforeDropped Tracked
      (fun s action s' tracked inOrder taken => tracked.step inOrder taken) actions _
      (tracked_start org) inOrder
  exact tracked.no_role (tracked.terminal id row found terminal)

def mintedAndRevoked : List Action :=
  [.mint 0 3600 0, .callCreateRole 0 0, .execute 0, .answerMint 0 .success, .settleMint 0 true 0,
    .revokeLease 0 0, .claim 7 0 0, .recordIntent 0 0, .callProvider 0 0, .execute 1,
    .answerSweep 0 .success,
    .settleSweep 0 0 0]

theorem terminal_lease_has_no_role_revoked :
    ((runFrom step (System.start fun _ => 0) mintedAndRevoked).leases 0).map
      (·.state) = some .revoked ∧
      (runFrom step (System.start fun _ => 0) mintedAndRevoked).roles 0 = false := by
  have revoked : ((runFrom step (System.start fun _ => 0) mintedAndRevoked).leases 0).map
      (·.state) = some .revoked := by
    decide +kernel
  obtain ⟨row, found, state⟩ := Option.map_eq_some_iff.mp revoked
  exact ⟨revoked, (terminal_lease_has_no_role (fun _ => 0) mintedAndRevoked).1
    (by decide +kernel) 0 row found (.inl state)⟩

def System.Quiescent (s : System) : Prop :=
  (∀ id, id < s.nextLease → s.mints id = none) ∧ (∀ id, id < s.nextSweep → s.sweeps id = none) ∧
    ∀ id, id < s.nextCall → ∀ call ∈ s.calls id, call.fate ≠ .pending

instance (s : System) : Decidable s.Quiescent := inferInstanceAs (Decidable (_ ∧ _ ∧ _))

/-- The worker's drop finds no role; then the role is created, and the mint can no longer settle. -/
def revokedAhead : List Action :=
  [.mint 0 3600 0, .revokeLease 0 0, .claim 7 0 0, .recordIntent 0 0, .callProvider 0 0, .execute 0,
    .answerSweep 0 .success, .settleSweep 0 0 0,
    .callCreateRole 0 0, .execute 1, .answerMint 0 .success, .settleMint 0 true 0]

theorem revokedAhead_orphans_role :
    (runFrom step (System.start fun _ => 0) revokedAhead).Quiescent ∧
      ((runFrom step (System.start fun _ => 0) revokedAhead).leases 0).map
      (·.state) = some .revoked ∧
      (runFrom step (System.start fun _ => 0) revokedAhead).roles 0 = true := by
  decide +kernel

end Hikyo.Dynamic
