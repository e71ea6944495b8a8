import Hikyo.Dynamic.Lease
import Hikyo.Lib.Transition

/-!
# Mints, sweeps and provider calls

Mints, requests, sweeps and deletions of providers as a transition system.  Mints and sweeps
overlap, each consists of several transactions and calls, and each may stop after any step.  A
statement sent to the provider takes effect later or never; its answer may be lost, and a definite
error means never.  One inversion lemma for each action.
-/

namespace Hikyo.Dynamic

open Hikyo.Lib Function

variable {answer : Answer} {maxTTL provider : Nat}

structure Provider where
  org : Nat
  tombstoned : Bool := false

inductive MintPhase
  | recorded (maxTTL : Nat)
  | calling (call expiresAt : Nat)
  | answered (expiresAt : Nat) (answer : Answer)

inductive Stage
  | claimed
  | intended
  | calling (call newExpiry : Nat)
  | answered (newExpiry : Nat) (answer : Answer)
deriving DecidableEq

/-- One pass of `RunLeaseSweep`.  The kind is derived from the row as it was claimed. -/
structure Sweep where
  worker : Nat
  lease : Nat
  token : Nat
  attempt : Nat
  maxTTL : Nat
  issuedAt : Option Nat
  kind : Kind
  stage : Stage := .claimed

inductive Statement
  | createRole
  | extendRole
  | dropRole
deriving DecidableEq

inductive Fate
  | pending
  | done
  | void
deriving DecidableEq

structure Call where
  lease : Nat
  statement : Statement
  fate : Fate := .pending

structure MintLeaseResult where
  id : Nat
  lease : Lease
  expiresAt : Nat

structure System where
  clock : Nat := 0
  providers : Nat → Provider
  leases : Nat → Option Lease := fun _ => none
  nextLease : Nat := 0
  mints : Nat → Option MintPhase := fun _ => none
  sweeps : Nat → Option Sweep := fun _ => none
  nextSweep : Nat := 0
  calls : Nat → Option Call := fun _ => none
  nextCall : Nat := 0
  roles : Nat → Bool := fun _ => false
  results : List MintLeaseResult := []

def System.start (org : Nat → Nat) : System := { providers := fun id => { org := org id } }

def System.leaseIDs (s : System) : List Nat := List.range s.nextLease

def System.putLease (s : System) (id : Nat) (row : Lease) : System :=
  { s with leases := update s.leases id (some row) }

def System.putMint (s : System) (id : Nat) (phase : Option MintPhase) : System :=
  { s with mints := update s.mints id phase }

def System.putSweep (s : System) (id : Nat) (sweep : Option Sweep) : System :=
  { s with sweeps := update s.sweeps id sweep }

def System.send (s : System) (lease : Nat) (statement : Statement) : System :=
  { s with
    calls := update s.calls s.nextCall (some { lease, statement })
    nextCall := s.nextCall + 1 }

/-- The first transaction: the provider is not deleted, and the row is created. -/
def System.mint (s : System) (provider maxTTL now : Nat) : Option System :=
  if s.clock < now ∨ maxTTL = 0 ∨ (s.providers provider).tombstoned then none
  else
    let row := createLease (s.providers provider).org provider maxTTL now
    some { (s.putLease s.nextLease row).putMint s.nextLease (some (.recorded maxTTL)) with
      nextLease := s.nextLease + 1 }

def System.callCreateRole (s : System) (id now : Nat) : Option System := do
  match ← s.mints id with
  | .recorded maxTTL =>
    if s.clock < now then none
    else some ((s.send id .createRole).putMint id (some (.calling s.nextCall (now + maxTTL))))
  | _ => none

def Call.mayAnswer (call : Call) : Answer → Bool
  | .success => call.fate == .done
  | .refused | .unreachable => call.fate == .void
  | .ambiguous => true

def System.answerMint (s : System) (id : Nat) (answer : Answer) : Option System := do
  match ← s.mints id with
  | .calling call expiresAt =>
    if (s.calls call).any (·.mayAnswer answer) then
      some (s.putMint id (some (.answered expiresAt answer)))
    else none
  | _ => none

def baseState : Answer → LeaseState
  | .success => .active
  | .unreachable | .refused => .failed
  | .ambiguous => .unknown

/-- A role whose principal may no longer see it is left to the worker. -/
def finishState (answer : Answer) (authority : Bool) : LeaseState × Bool :=
  if answer = .success ∧ authority = false then (.revoking, false)
  else (baseState answer, decide (answer = .success))

/-- The settling transaction.  It is rolled back when the row is no longer the mint's. -/
def System.settleMint (s : System) (id : Nat) (authority : Bool) (now : Nat) : Option System := do
  match ← s.mints id with
  | .answered expiresAt answer =>
    let row ← s.leases id
    let (state, disclosed) := finishState answer authority
    if s.clock < now then none
    else
      let ended := s.putMint id none
      match row.finishMint state expiresAt now with
      | none => some ended
      | some minted =>
        some { ended.putLease id minted with
          results := if disclosed then ⟨id, minted, expiresAt⟩ :: s.results else s.results }
  | _ => none

def System.enqueueLeaseTransition (s : System) (id : Nat) (target : LeaseState) (maxTTL now : Nat) :
    Option System := do
  let row ← s.leases id
  let moved ← row.enqueueTransition target maxTTL now
  if s.clock < now then none else some (s.putLease id moved)

def Lease.activeOn (row : Lease) (provider : Nat) : Bool :=
  decide (row.provider = provider ∧ ¬ row.state.Terminal)

def Lease.revokedWith (row : Lease) (provider now : Nat) : Lease :=
  if row.activeOn provider then (row.enqueueTransition .revoking 0 now).getD row else row

def System.deleteProvider (s : System) (provider : Nat) (revokeAll : Bool) (now : Nat) :
    Option System :=
  let row := s.providers provider
  if s.clock < now ∨ row.tombstoned then none
  else if revokeAll = false ∧
    s.leaseIDs.any (fun id => (s.leases id).any (·.activeOn provider)) then none
  else some { s with
    leases := fun id => (s.leases id).map (·.revokedWith provider now)
    providers := update s.providers provider { row with tombstoned := true } }

/-- `ClaimDueLease`.  Which of the due leases is taken is left open. -/
def System.claimDueLease (s : System) (worker id now : Nat) : Option System := do
  let row ← s.leases id
  let kind ← row.deriveKind
  let busy := s.leaseIDs.filter fun other => (s.leases other).any fun x => x.org == row.org &&
      x.leased now
  if s.clock < now ∨ row.due now = false ∨ row.leased now ∨ 4 ≤ busy.length then none
  else
    let claimed := row.claimed worker now
    let sweep : Sweep :=
      { worker, lease := id, token := claimed.claimToken, attempt := claimed.attempt,
          maxTTL := row.maxTTL
        issuedAt := row.issuedAt, kind }
    some { (s.putLease id claimed).putSweep s.nextSweep (some sweep) with nextSweep := s.nextSweep +
        1 }

def Lease.heldBy (row : Lease) (sweep : Sweep) (now : Nat) : Bool :=
  row.claimToken == sweep.token && row.term.any fun term => term.owner == sweep.worker &&
    decide (now < term.expiresAt)

/-- The row is still this sweep's, so that what it settles is written. -/
def System.holdsClaim (s : System) (id now : Nat) : Bool :=
  (s.sweeps id).any fun sweep => (s.leases sweep.lease).any (·.heldBy sweep now)

def System.retry (s : System) (id readAt now : Nat) : Option System := do
  let sweep ← s.sweeps id
  let row ← s.leases sweep.lease
  if s.clock < readAt ∨ s.clock < now ∨ sweep.stage ≠ .claimed then none
  else
    let ended := s.putSweep id none
    if row.heldBy sweep now then
      some (ended.putLease sweep.lease (row.retry (readAt + dynamicRetryDelay sweep.attempt)))
    else some ended

def System.recordIntent (s : System) (id now : Nat) : Option System := do
  let sweep ← s.sweeps id
  let row ← s.leases sweep.lease
  if s.clock < now ∨ sweep.stage ≠ .claimed then none
  else if row.heldBy sweep now then
    some ((s.putSweep id (some { sweep with stage := .intended })).putLease sweep.lease
      { row with latestEffectKind := some sweep.kind })
  else some (s.putSweep id none)

def Kind.statement : Kind → Statement
  | .renew => .extendRole
  | .mint | .revoke | .expire => .dropRole

def System.callProvider (s : System) (id now : Nat) : Option System := do
  let sweep ← s.sweeps id
  if s.clock < now ∨ sweep.stage ≠ .intended then none
  else
    some ((s.send sweep.lease sweep.kind.statement).putSweep id
      (some { sweep with stage := .calling s.nextCall (now + sweep.maxTTL) }))

def System.answerSweep (s : System) (id : Nat) (answer : Answer) : Option System := do
  let sweep ← s.sweeps id
  match sweep.stage with
  | .calling call newExpiry =>
    if (s.calls call).any (·.mayAnswer answer) then
      some (s.putSweep id (some { sweep with stage := .answered newExpiry answer }))
    else none
  | _ => none

def System.settle (s : System) (id : Nat) (sweep : Sweep) (settlement : Settlement)
    (readAt now : Nat) :
    Option System := do
  let row ← s.leases sweep.lease
  if s.clock < readAt ∨ s.clock < now then none
  else
    let ended := s.putSweep id none
    if row.heldBy sweep now then
      some (ended.putLease sweep.lease
        (row.settle settlement (settlement.nextAttemptAt sweep.attempt readAt)))
    else some ended

def System.withdrawRenewal (s : System) (id readAt now : Nat) : Option System := do
  let sweep ← s.sweeps id
  if sweep.stage = .intended ∧ sweep.kind = .renew then s.settle id sweep renewalFailed readAt now
    else none

def System.settleSweep (s : System) (id readAt now : Nat) : Option System := do
  let sweep ← s.sweeps id
  match sweep.stage with
  | .answered newExpiry answer =>
    s.settle id sweep (settlement sweep.kind sweep.issuedAt newExpiry answer) readAt now
  | _ => none

def Statement.applies (role : Bool) : Statement → Bool
  | .createRole => !role
  | .extendRole => role
  | .dropRole => true

def Statement.apply (role : Bool) : Statement → Bool
  | .createRole => true
  | .extendRole => role
  | .dropRole => false

def System.putFate (s : System) (id : Nat) (call : Call) (fate : Fate) : System :=
  { s with calls := update s.calls id (some { call with fate }) }

def System.execute (s : System) (id : Nat) : Option System := do
  let call ← s.calls id
  let role := s.roles call.lease
  if call.fate ≠ .pending ∨ call.statement.applies role = false then none
  else
    some { s.putFate id call .done with
      roles := update s.roles call.lease (call.statement.apply role) }

def System.discard (s : System) (id : Nat) : Option System := do
  let call ← s.calls id
  if call.fate ≠ .pending then none else some (s.putFate id call .void)

inductive Action
  | advance (elapsed : Nat)
  | mint (provider maxTTL now : Nat)
  | callCreateRole (lease now : Nat)
  | answerMint (lease : Nat) (answer : Answer)
  | settleMint (lease : Nat) (authority : Bool) (now : Nat)
  /-- the request ends with an error of its own, or with its process -/
  | abandonMint (lease : Nat)
  | renewLease (lease maxTTL now : Nat)
  | revokeLease (lease now : Nat)
  | settleLease (lease now : Nat)
  | deleteProvider (provider : Nat) (revokeAll : Bool) (now : Nat)
  | claim (worker lease now : Nat)
  | retry (sweep readAt now : Nat)
  | recordIntent (sweep now : Nat)
  | withdrawRenewal (sweep readAt now : Nat)
  | callProvider (sweep now : Nat)
  | answerSweep (sweep : Nat) (answer : Answer)
  | settleSweep (sweep readAt now : Nat)
  | crash (sweep : Nat)
  | execute (call : Nat)
  | discard (call : Nat)

def step (s : System) : Action → Option System
  | .advance elapsed => some { s with clock := s.clock + elapsed }
  | .mint provider maxTTL now => s.mint provider maxTTL now
  | .callCreateRole lease now => s.callCreateRole lease now
  | .answerMint lease answer => s.answerMint lease answer
  | .settleMint lease authority now => s.settleMint lease authority now
  | .abandonMint lease => some (s.putMint lease none)
  | .renewLease lease maxTTL now => s.enqueueLeaseTransition lease .renewing maxTTL now
  | .revokeLease lease now => s.enqueueLeaseTransition lease .revoking 0 now
  | .settleLease lease now => s.enqueueLeaseTransition lease .unknown 0 now
  | .deleteProvider provider revokeAll now => s.deleteProvider provider revokeAll now
  | .claim worker lease now => s.claimDueLease worker lease now
  | .retry sweep readAt now => s.retry sweep readAt now
  | .recordIntent sweep now => s.recordIntent sweep now
  | .withdrawRenewal sweep readAt now => s.withdrawRenewal sweep readAt now
  | .callProvider sweep now => s.callProvider sweep now
  | .answerSweep sweep answer => s.answerSweep sweep answer
  | .settleSweep sweep readAt now => s.settleSweep sweep readAt now
  | .crash sweep => some (s.putSweep sweep none)
  | .execute call => s.execute call
  | .discard call => s.discard call

variable {s s' : System} {now id readAt : Nat}

theorem mint_eq_some (taken : s.mint provider maxTTL now = some s') :
    now ≤ s.clock ∧
      s' = { (s.putLease s.nextLease
          (createLease (s.providers provider).org provider maxTTL now)).putMint s.nextLease
          (some (.recorded maxTTL)) with nextLease := s.nextLease + 1 } := by
  unfold System.mint at taken
  split at taken
  · cases taken
  rename_i refused
  simp only [not_or, Nat.not_lt] at refused
  exact ⟨refused.1, (Option.some.inj taken).symm⟩

theorem callCreateRole_eq_some (taken : s.callCreateRole id now = some s') :
    ∃ maxTTL, s.mints id = some (.recorded maxTTL) ∧
      s' = (s.send id .createRole).putMint id (some (.calling s.nextCall (now + maxTTL))) := by
  obtain ⟨phase, found, taken⟩ := Option.bind_eq_some_iff.mp taken
  cases phase with
  | recorded maxTTL =>
    dsimp only at taken
    split at taken
    · cases taken
    · exact ⟨maxTTL, found, (Option.some.inj taken).symm⟩
  | calling | answered => cases taken

theorem answerMint_eq_some (taken : s.answerMint id answer = some s') :
    ∃ call expiresAt, s.mints id = some (.calling call expiresAt) ∧ (s.calls call).any
      (·.mayAnswer answer) = true ∧
      s' = s.putMint id (some (.answered expiresAt answer)) := by
  obtain ⟨phase, found, taken⟩ := Option.bind_eq_some_iff.mp taken
  cases phase with
  | recorded | answered => cases taken
  | calling call expiresAt =>
    dsimp only at taken
    split at taken
    · rename_i valid
      exact ⟨call, expiresAt, found, valid, (Option.some.inj taken).symm⟩
    · cases taken

theorem settleMint_eq_some {authority : Bool}
    (taken : s.settleMint id authority now = some s') :
    ∃ expiresAt answer, s.mints id = some (.answered expiresAt answer) ∧ now ≤ s.clock ∧
      (s' = s.putMint id none ∨
        ∃ row minted, s.leases id = some row ∧
          row.finishMint (finishState answer authority).1 expiresAt now = some minted ∧
          s' = { (s.putMint id none).putLease id minted with
            results := if (finishState answer authority).2 then ⟨id, minted, expiresAt⟩ :: s.results
              else s.results }) := by
  obtain ⟨phase, found, taken⟩ := Option.bind_eq_some_iff.mp taken
  cases phase with
  | recorded | calling => cases taken
  | answered expiresAt answer =>
    obtain ⟨row, isRow, taken⟩ := Option.bind_eq_some_iff.mp taken
    dsimp only at taken
    obtain ⟨past, taken⟩ := Option.ite_none_left_eq_some.mp taken
    refine ⟨expiresAt, answer, found, Nat.not_lt.mp past, ?_⟩
    cases finished : row.finishMint (finishState answer authority).1 expiresAt now with
    | none =>
      rw [finished] at taken
      exact .inl (Option.some.inj taken).symm
    | some minted =>
      rw [finished] at taken
      exact .inr ⟨row, minted, isRow, finished, (Option.some.inj taken).symm⟩

theorem enqueueLeaseTransition_eq_some {target : LeaseState}
    (taken : s.enqueueLeaseTransition id target maxTTL now = some s') :
    ∃ row moved, s.leases id = some row ∧ row.enqueueTransition target maxTTL now = some moved ∧
      s' = s.putLease id moved := by
  obtain ⟨row, isRow, taken⟩ := Option.bind_eq_some_iff.mp taken
  obtain ⟨moved, entered, taken⟩ := Option.bind_eq_some_iff.mp taken
  split at taken
  · cases taken
  · exact ⟨row, moved, isRow, entered, (Option.some.inj taken).symm⟩

theorem deleteProvider_eq_some {revokeAll : Bool}
    (taken : s.deleteProvider provider revokeAll now = some s') :
    s' = { s with
      leases := fun id => (s.leases id).map (·.revokedWith provider now)
      providers :=
        update s.providers provider { s.providers provider with tombstoned := true } } := by
  unfold System.deleteProvider at taken
  dsimp only at taken
  split at taken
  · cases taken
  split at taken
  · cases taken
  · exact (Option.some.inj taken).symm

def Lease.sweep (row : Lease) (worker id now : Nat) (kind : Kind) : Sweep :=
  { worker, lease := id, token := (row.claimed worker now).claimToken,
    attempt := (row.claimed worker now).attempt
    maxTTL := row.maxTTL, issuedAt := row.issuedAt, kind }

theorem claimDueLease_eq_some {worker : Nat} (taken : s.claimDueLease worker id now = some s') :
    ∃ row kind, s.leases id = some row ∧ row.deriveKind = some kind ∧
      s' = { (s.putLease id (row.claimed worker now)).putSweep s.nextSweep
        (some (row.sweep worker id now kind)) with
        nextSweep := s.nextSweep + 1 } := by
  obtain ⟨row, isRow, taken⟩ := Option.bind_eq_some_iff.mp taken
  obtain ⟨kind, derived, taken⟩ := Option.bind_eq_some_iff.mp taken
  dsimp only at taken
  split at taken
  · cases taken
  · exact ⟨row, kind, isRow, derived, (Option.some.inj taken).symm⟩

theorem holdsClaim_of_heldBy {sweep : Sweep} {row : Lease} (isSweep : s.sweeps id = some sweep)
    (isRow : s.leases sweep.lease = some row) (held : row.heldBy sweep now = true) :
    s.holdsClaim id now = true := by
  simp [System.holdsClaim, isSweep, isRow, held]

theorem heldBy_eq_true {row : Lease} {sweep : Sweep} (held : row.heldBy sweep now = true) :
    row.claimToken = sweep.token ∧ row.term.isSome = true := by
  unfold Lease.heldBy at held
  rw [Bool.and_eq_true, beq_iff_eq] at held
  refine ⟨held.1, ?_⟩
  cases term : row.term with
  | none => simp [term] at held
  | some => rfl

/-- A write that checks the claim first: it is made, or the sweep ends without it. -/
theorem eq_of_ite_some {held : Prop} [Decidable held] {written ended : System}
    (taken : (if held then some written else some ended) = some s') :
    s' = ended ∨ held ∧ s' = written := by
  split at taken
  · next isHeld => exact .inr ⟨isHeld, (Option.some.inj taken).symm⟩
  · exact .inl (Option.some.inj taken).symm

theorem retry_eq_some (taken : s.retry id readAt now = some s') :
    ∃ sweep row, s.sweeps id = some sweep ∧ s.leases sweep.lease = some row ∧ readAt ≤ s.clock ∧
      (s' = s.putSweep id none ∨ row.heldBy sweep now = true ∧
        s' = (s.putSweep id none).putLease sweep.lease
          (row.retry (readAt + dynamicRetryDelay sweep.attempt))) := by
  obtain ⟨sweep, isSweep, taken⟩ := Option.bind_eq_some_iff.mp taken
  obtain ⟨row, isRow, taken⟩ := Option.bind_eq_some_iff.mp taken
  split at taken
  · cases taken
  rename_i refused
  rw [not_or, Nat.not_lt] at refused
  exact ⟨sweep, row, isSweep, isRow, refused.1, eq_of_ite_some taken⟩

theorem recordIntent_eq_some (taken : s.recordIntent id now = some s') :
    ∃ sweep row, s.sweeps id = some sweep ∧ s.leases sweep.lease = some row ∧
      (s' = s.putSweep id none ∨ row.heldBy sweep now = true ∧
        s' = (s.putSweep id (some { sweep with stage := .intended })).putLease sweep.lease
          { row with latestEffectKind := some sweep.kind }) := by
  obtain ⟨sweep, isSweep, taken⟩ := Option.bind_eq_some_iff.mp taken
  obtain ⟨row, isRow, taken⟩ := Option.bind_eq_some_iff.mp taken
  split at taken
  · cases taken
  exact ⟨sweep, row, isSweep, isRow, eq_of_ite_some taken⟩

theorem callProvider_eq_some (taken : s.callProvider id now = some s') :
    ∃ sweep, s.sweeps id = some sweep ∧ sweep.stage = .intended ∧
      s' = (s.send sweep.lease sweep.kind.statement).putSweep id
        (some { sweep with stage := .calling s.nextCall (now + sweep.maxTTL) }) := by
  obtain ⟨sweep, isSweep, taken⟩ := Option.bind_eq_some_iff.mp taken
  split at taken
  · cases taken
  rename_i refused
  push Not at refused
  exact ⟨sweep, isSweep, refused.2, (Option.some.inj taken).symm⟩

theorem answerSweep_eq_some (taken : s.answerSweep id answer = some s') :
    ∃ sweep call newExpiry, s.sweeps id = some sweep ∧ sweep.stage = .calling call newExpiry ∧
      (s.calls call).any (·.mayAnswer answer) = true ∧
      s' = s.putSweep id (some { sweep with stage := .answered newExpiry answer }) := by
  obtain ⟨sweep, isSweep, taken⟩ := Option.bind_eq_some_iff.mp taken
  cases stage : sweep.stage with
  | claimed | intended | answered => simp [stage] at taken
  | calling call newExpiry =>
    rw [stage] at taken
    dsimp only at taken
    split at taken
    · rename_i valid
      exact ⟨sweep, call, newExpiry, isSweep, stage, valid, (Option.some.inj taken).symm⟩
    · cases taken

theorem settle_eq_some {sweep : Sweep} {settlement : Settlement}
    (taken : s.settle id sweep settlement readAt now = some s') :
    ∃ row, s.leases sweep.lease = some row ∧ readAt ≤ s.clock ∧
      (s' = s.putSweep id none ∨ row.heldBy sweep now = true ∧
        s' = (s.putSweep id none).putLease sweep.lease
          (row.settle settlement (settlement.nextAttemptAt sweep.attempt readAt))) := by
  obtain ⟨row, isRow, taken⟩ := Option.bind_eq_some_iff.mp taken
  split at taken
  · cases taken
  rename_i refused
  rw [not_or, Nat.not_lt] at refused
  exact ⟨row, isRow, refused.1, eq_of_ite_some taken⟩

theorem withdrawRenewal_eq_some (taken : s.withdrawRenewal id readAt now = some s') :
    ∃ sweep, s.sweeps id = some sweep ∧ sweep.stage = .intended ∧ sweep.kind = .renew ∧
      s.settle id sweep renewalFailed readAt now = some s' := by
  obtain ⟨sweep, isSweep, taken⟩ := Option.bind_eq_some_iff.mp taken
  split at taken
  · rename_i renewal
    exact ⟨sweep, isSweep, renewal.1, renewal.2, taken⟩
  · cases taken

theorem settleSweep_eq_some (taken : s.settleSweep id readAt now = some s') :
    ∃ sweep newExpiry answer, s.sweeps id = some sweep ∧ sweep.stage = .answered newExpiry answer ∧
      s.settle id sweep (settlement sweep.kind sweep.issuedAt newExpiry answer) readAt now =
        some s' := by
  obtain ⟨sweep, isSweep, taken⟩ := Option.bind_eq_some_iff.mp taken
  cases stage : sweep.stage with
  | claimed | intended | calling => simp [stage] at taken
  | answered newExpiry answer =>
    rw [stage] at taken
    exact ⟨sweep, newExpiry, answer, isSweep, stage, taken⟩

theorem execute_eq_some (taken : s.execute id = some s') :
    ∃ call, s.calls id = some call ∧ call.fate = .pending ∧
      s' = { s.putFate id call .done with
        roles := update s.roles call.lease (call.statement.apply (s.roles call.lease)) } := by
  obtain ⟨call, isCall, taken⟩ := Option.bind_eq_some_iff.mp taken
  dsimp only at taken
  split at taken
  · cases taken
  rename_i refused
  push Not at refused
  exact ⟨call, isCall, refused.1, (Option.some.inj taken).symm⟩

theorem discard_eq_some (taken : s.discard id = some s') :
    ∃ call, s.calls id = some call ∧ call.fate = .pending ∧ s' = s.putFate id call .void := by
  obtain ⟨call, isCall, taken⟩ := Option.bind_eq_some_iff.mp taken
  split at taken
  · cases taken
  · rename_i pending
    exact ⟨call, isCall, not_not.mp pending, (Option.some.inj taken).symm⟩

end Hikyo.Dynamic
