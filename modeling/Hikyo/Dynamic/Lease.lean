import Mathlib.Logic.Function.Basic

/-!
# Dynamic lease rows

The row of a dynamic lease, which is one role at a database provider, and its updates: creation, the
end of a mint, requests to renew and revoke, the claim of a sweep, what a settled transition writes
and how a retry is put off.  Times are in seconds.
-/

namespace Hikyo.Dynamic

def mintRecoveryGrace : Nat := 5 * 60

def dynamicRetryFloor : Nat := 30

def dynamicRetryCap : Nat := 60 * 60

def dynamicLeaseTerm : Nat := 2 * 60

def parked : Nat := 365 * 24 * 60 * 60

def doubledDelay (delay : Nat) : Nat → Nat
  | 0 => delay
  | rounds + 1 =>
      if delay < dynamicRetryCap then doubledDelay (min (delay * 2) dynamicRetryCap) rounds
        else delay

def dynamicRetryDelay (attempt : Nat) : Nat := doubledDelay dynamicRetryFloor (attempt - 1)

theorem doubledDelay_le (rounds : Nat) {delay : Nat} (small : delay ≤ dynamicRetryCap) :
    doubledDelay delay rounds ≤ dynamicRetryCap := by
  induction rounds generalizing delay with
  | zero => exact small
  | succ _ ih =>
    unfold doubledDelay
    split
    · exact ih (Nat.min_le_right ..)
    · exact small

theorem dynamicRetryDelay_le (attempt : Nat) : dynamicRetryDelay attempt ≤ dynamicRetryCap :=
  doubledDelay_le (attempt - 1) (by decide)

inductive LeaseState
  | minting
  | active
  | renewing
  | revoking
  | revoked
  | expired
  | unknown
  | failed
deriving DecidableEq

def LeaseState.Terminal (state : LeaseState) : Prop :=
  state = .revoked ∨ state = .expired ∨ state = .failed

instance (state : LeaseState) : Decidable state.Terminal := inferInstanceAs (Decidable (_ ∨ _))

inductive Kind
  | mint
  | renew
  | revoke
  | expire
deriving DecidableEq

structure Term where
  owner : Nat
  expiresAt : Nat

structure Lease where
  org : Nat
  provider : Nat
  maxTTL : Nat
  nextAttemptAt : Nat
  state : LeaseState := .minting
  issuedAt : Option Nat := none
  expiresAt : Option Nat := none
  attempt : Nat := 0
  term : Option Term := none
  claimToken : Nat := 0
  latestEffectKind : Option Kind := none

/-- `CreateLease`: the worker leaves the row alone for the grace period. -/
def createLease (org provider maxTTL now : Nat) : Lease :=
  { org, provider, maxTTL, nextAttemptAt := now + mintRecoveryGrace }

/-- `FinishMint`: nothing is written when the row has been taken up by the worker or by
another request. -/
def Lease.finishMint (row : Lease) (state : LeaseState) (expiresAt now : Nat) : Option Lease :=
  if row.state = .minting ∧ row.term = none then
    some { row with
      state
      issuedAt := if state = .active then some now else none
      expiresAt := if state = .active then some expiresAt else none
      nextAttemptAt := if state = .active then expiresAt else now
      term := none }
  else none

/-- The states from which `EnqueueTransition` may enter the target. -/
def Lease.mayEnter (row : Lease) : LeaseState → Bool
  | .revoking => decide (¬ row.state.Terminal ∧ row.state ≠ .revoking)
  | .renewing => decide (row.state = .active)
  | .unknown => decide (row.state = .unknown)
  | _ => false

def Lease.enqueueTransition (row : Lease) (target : LeaseState) (maxTTL now : Nat) : Option Lease :=
  if row.mayEnter target then
    some { row with
      state := target
      maxTTL := if 0 < maxTTL then maxTTL else row.maxTTL
      nextAttemptAt := now
      attempt := 0
      term := none }
  else none

def Lease.due (row : Lease) (now : Nat) : Bool :=
  match row.state with
  | .minting | .renewing | .revoking | .unknown => decide (row.nextAttemptAt ≤ now)
  | .active =>
      row.expiresAt.any (fun expiresAt => decide (expiresAt ≤ now)) &&
        decide (row.nextAttemptAt ≤ now)
  | .revoked | .expired | .failed => false

def Lease.leased (row : Lease) (now : Nat) : Bool :=
  row.term.any fun term => decide (now < term.expiresAt)

def Lease.claimed (row : Lease) (worker now : Nat) : Lease :=
  { row with
    attempt := row.attempt + 1
    term := some ⟨worker, now + dynamicLeaseTerm⟩
    claimToken := row.claimToken + 1 }

/-- `deriveKind`: an unknown lease resumes what its newest effect has recorded. -/
def Lease.deriveKind (row : Lease) : Option Kind :=
  match row.state with
  | .renewing => some .renew
  | .revoking => some .revoke
  | .minting => some .mint
  | .active => some .expire
  | .unknown => some (row.latestEffectKind.getD .mint)
  | .revoked | .expired | .failed => none

inductive Answer
  | success
  | refused
  | unreachable
  | ambiguous
deriving DecidableEq

inductive Settlement
  | recordOutcome (state : LeaseState) (issuedAt expiresAt : Option Nat)
  | recordOutcomeRetry (keepState : LeaseState)
  | enterUnknown

def renewalFailed : Settlement := .recordOutcome .active none none

def settleRenew (issuedAt : Option Nat) (newExpiry : Nat) : Answer → Settlement
  | .success => .recordOutcome .active issuedAt (some newExpiry)
  | .unreachable => .recordOutcomeRetry .renewing
  | .ambiguous => .enterUnknown
  | .refused => renewalFailed

def settleDrop (terminal keepState : LeaseState) : Answer → Settlement
  | .success => .recordOutcome terminal none none
  | .unreachable => .recordOutcomeRetry keepState
  | .ambiguous | .refused => .enterUnknown

/-- The transition that the worker settles.  The recovery of a mint is a drop that ends
in `failed`. -/
def settlement (kind : Kind) (issuedAt : Option Nat) (newExpiry : Nat) (answer : Answer) :
    Settlement :=
  match kind with
  | .renew => settleRenew issuedAt newExpiry answer
  | .revoke => settleDrop .revoked .revoking answer
  | .expire => settleDrop .expired .active answer
  | .mint => settleDrop .failed .minting answer

def Settlement.nextAttemptAt (settlement : Settlement) (attempt now : Nat) : Nat :=
  match settlement with
  | .recordOutcome .active _ (some expiresAt) => expiresAt
  | .recordOutcome _ _ _ => now + parked
  | .recordOutcomeRetry _ | .enterUnknown => now + dynamicRetryDelay attempt

def Settlement.state : Settlement → LeaseState
  | .recordOutcome state _ _ => state
  | .recordOutcomeRetry keepState => keepState
  | .enterUnknown => .unknown

def Settlement.issuedAt : Settlement → Option Nat
  | .recordOutcome _ issuedAt _ => issuedAt
  | .recordOutcomeRetry _ | .enterUnknown => none

def Settlement.expiresAt : Settlement → Option Nat
  | .recordOutcome _ _ expiresAt => expiresAt
  | .recordOutcomeRetry _ | .enterUnknown => none

def Lease.settle (row : Lease) (settlement : Settlement) (nextAttemptAt : Nat) : Lease :=
  { row with
    state := settlement.state
    issuedAt := settlement.issuedAt.or row.issuedAt
    expiresAt := settlement.expiresAt.or row.expiresAt
    nextAttemptAt
    term := none }

def Lease.retry (row : Lease) (nextAttemptAt : Nat) : Lease :=
  { row with nextAttemptAt, term := none }

end Hikyo.Dynamic
