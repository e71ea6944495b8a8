import Mathlib.Logic.Function.Basic
import Hikyo.Lib.Transition

/-!
# The leadership loops of the scheduler

Every node runs `runHA`, which competes for the row `scheduler` of `singleton_leases`: ticks that
claim or renew, a term that starts jobs under the fence it acquired, a shutdown that waits for them,
and a release.  `step` has one action for each statement and each move of a loop.  A statement is
answered, fails without effect, or loses its answer and stays undecided.
-/

namespace Hikyo.Leadership

open Hikyo.Lib

def defaultLeaseTTL : Nat := 30 * 1000

structure Lease where
  owner : String
  fence : Nat
  acquiredAt : Nat
  expiresAt : Nat

/-- The version of the row that `ClaimLease` writes; none when a live holder owns it. -/
def claimLease (row : Option Lease) (owner : String) (now expires : Nat) : Option Lease :=
  match row with
  | none => some ⟨owner, 1, now, expires⟩
  | some lease => if lease.expiresAt ≤ now then some ⟨owner, lease.fence + 1, now,
      expires⟩ else none

def renewLease (row : Option Lease) (owner : String) (fence now expires : Nat) : Option Lease :=
  match row with
  | none => none
  | some lease =>
    if lease.owner = owner ∧ lease.fence = fence ∧ now < lease.expiresAt then
      some { lease with expiresAt := expires }
    else none

def releaseLease (row : Option Lease) (owner : String) (fence : Nat) : Option Lease :=
  match row with
  | none => none
  | some lease =>
    if lease.owner = owner ∧ lease.fence = fence then some { lease with expiresAt := 0 } else none

def fenceSelfConfigTopologyLease (row : Option Lease) (expires : Nat) : Option Lease :=
  row.map fun lease => { lease with fence := lease.fence + 1, expiresAt := expires }

/-- The row that `GuardPGSingletonLease` matches; none is `ErrSingletonLeaseLost`. -/
def guardSingletonLease (row : Option Lease) (owner : String) (fence clock : Nat) : Option Lease :=
  row.filter fun lease => decide (lease.owner = owner ∧ lease.fence = fence ∧
    clock < lease.expiresAt)

structure Term where
  id : Nat
  node : String
  fence : Nat
deriving DecidableEq

structure Write where
  term : Term
  lease : Lease
  passedAt : Nat

inductive Event
  | claimed (node : String) (fence : Nat)
  | began (term : Term)
  | committed (write : Write)

def Event.node : Event → String
  | .claimed node _ => node
  | .began term => term.node
  | .committed write => write.term.node

def Event.fence : Event → Nat
  | .claimed _ fence => fence
  | .began term => term.fence
  | .committed write => write.term.fence

inductive RowLock
  | undecided (version : Lease) (claim : Bool)
  | guarded (write : Write)

/-- Where a loop stands; `now` is the datastore time its heartbeat has read. -/
inductive Phase
  | waiting
  | renewing (now : Nat)
  | acquiring (now : Nat)
  | confirming (now : Nat)
  | claiming (now : Nat)
  | joining
  | releasing
  | returned
deriving DecidableEq

/-- The local variables of `runHA`.  `termDone` is the channel of the current or still
draining term. -/
structure Loop where
  fence : Nat := 0
  unconfirmedClaim : Bool := false
  expiresAt : Nat := 0
  leader : Bool := false
  termDone : Option Nat := none
  cancelled : Bool := false
  phase : Phase := .waiting

def Loop.dropLeadership (l : Loop) : Loop := { l with leader := false }

structure System where
  clock : Nat
  row : Option Lease
  lock : Option RowLock
  loops : String → Option Loop
  terms : List Term
  nextTerm : Nat
  log : List Event

def System.start : System := ⟨0, none, none, fun _ => none, [], 0, []⟩

def System.fence (s : System) : Nat := s.row.elim 0 (·.fence)

def System.setLoop (s : System) (node : String) (l : Loop) : System :=
  { s with loops := Function.update s.loops node (some l) }

def System.termDraining (s : System) (l : Loop) : Bool :=
  match l.termDone with
  | none => false
  | some id => s.terms.any fun term => term.id == id

inductive Reply
  | answered
  | failed
  | lost
deriving DecidableEq

inductive Outcome
  | error
  | result (version : Option Lease)

/-- A claim meets the lock of an uncommitted first row; an update does not see that row. -/
def System.blocked (s : System) (claim : Bool) : Bool := s.lock.isSome && (claim || s.row.isSome)

def System.install (s : System) (version : Lease) (claim : Bool) : System :=
  { s with
    row := some version
    log := if claim then s.log ++ [.claimed version.owner version.fence] else s.log }

def System.coordinate (s : System) (version : Option Lease) (claim : Bool) :
    Reply → Option (System × Outcome)
  | .failed => some (s, .error)
  | .answered =>
    if s.blocked claim then none
    else some (version.elim s fun v => s.install v claim, .result version)
  | .lost =>
    if s.blocked claim then none
    else some (version.elim s fun v => { s with lock := some (.undecided v claim) }, .error)

def System.resolve (s : System) (commit : Bool) : Option System :=
  match s.lock with
  | none => none
  | some (.undecided version claim) =>
    let s := { s with lock := none }
    some (if commit then s.install version claim else s)
  | some (.guarded write) =>
    let s := { s with lock := none }
    some (if commit then { s with log := s.log ++ [.committed write] } else s)

section Steps
variable (ttl : Nat)

def System.startTerm (s : System) (node : String) (l : Loop) (expires : Nat) : System :=
  let term : Term := ⟨s.nextTerm, node, l.fence⟩
  { s with
    terms := term :: s.terms
    nextTerm := s.nextTerm + 1
    log := s.log ++ [Event.began term] }.setLoop node
    { l with
      unconfirmedClaim := false
      expiresAt := expires
      leader := true
      termDone := some term.id
      phase := .waiting }

def System.tick (s : System) (node : String) (l : Loop) (answered : Bool) : Option System :=
  match l.phase with
  | .waiting =>
    if answered then
      let l := if l.leader ∧ l.expiresAt ≤ s.clock then l.dropLeadership else l
      some (s.setLoop node
        { l with phase := if l.leader then .renewing s.clock else .acquiring s.clock })
    else some (s.setLoop node l.dropLeadership)
  | _ => none

def System.renew (s : System) (node : String) (l : Loop) (reply : Reply) : Option System :=
  match l.phase with
  | .renewing now => do
    let (s, outcome) ← s.coordinate (renewLease s.row node l.fence now (now + ttl)) false reply
    let l := match outcome with
      | .result (some _) => { l with expiresAt := now + ttl }
      | .result none | .error => l.dropLeadership
    return s.setLoop node { l with phase := .acquiring now }
  | _ => none

def System.acquire (s : System) (node : String) (l : Loop) : Option System :=
  match l.phase with
  | .acquiring now =>
    if l.cancelled || l.leader || s.termDraining l then
      some (s.setLoop node { l with phase := .waiting })
    else
      let phase := if l.unconfirmedClaim then .confirming now else .claiming now
      some (s.setLoop node { l with termDone := none, phase })
  | _ => none

def System.confirm (s : System) (node : String) (l : Loop) (reply : Reply) : Option System :=
  match l.phase with
  | .confirming now => do
    let (s, outcome) ← s.coordinate (renewLease s.row node l.fence now (now + ttl)) false reply
    match outcome with
    | .error => return s.setLoop node { l with phase := .waiting }
    | .result none =>
      let phase := if l.cancelled then .waiting else .claiming now
      return s.setLoop node { l with unconfirmedClaim := false, fence := 0, phase }
    | .result (some _) =>
      if l.cancelled then return s.setLoop node { l with phase := .waiting }
      else return s.startTerm node l (now + ttl)
  | _ => none

/-- `fenceKnown` says whether the claim had returned its fence before the answer was lost. -/
def System.claim (s : System) (node : String) (l : Loop) (reply : Reply) (fenceKnown : Bool) :
    Option System :=
  match l.phase with
  | .claiming now => do
    let version := claimLease s.row node now (now + ttl)
    let (s, outcome) ← s.coordinate version true reply
    let provisional (v : Lease) : Loop :=
      { l with fence := v.fence, unconfirmedClaim := true, phase := .waiting }
    match outcome with
    | .result none => return s.setLoop node { l with phase := .waiting }
    | .result (some v) =>
      if l.cancelled then return s.setLoop node (provisional v)
      else return s.startTerm node (provisional v) (now + ttl)
    | .error =>
      match version with
      | some v =>
        if reply = .lost ∧ fenceKnown then return s.setLoop node (provisional v)
        else return s.setLoop node { l with phase := .waiting }
      | none => return s.setLoop node { l with phase := .waiting }
  | _ => none

def System.shutdown (s : System) (node : String) (l : Loop) : Option System :=
  if l.phase = .waiting ∧ l.cancelled then
    some (s.setLoop node { l.dropLeadership with phase := .joining })
  else none

def System.join (s : System) (node : String) (l : Loop) (giveUp : Bool) : Option System :=
  match l.phase with
  | .joining =>
    if s.termDraining l then
      if giveUp then some (s.setLoop node { l with phase := .returned }) else none
    else some (s.setLoop node { l with phase := if l.fence = 0 then .returned else .releasing })
  | _ => none

def System.release (s : System) (node : String) (l : Loop) (reply : Reply) : Option System :=
  match l.phase with
  | .releasing => do
    let (s, _) ← s.coordinate (releaseLease s.row node l.fence) false reply
    return s.setLoop node { l with phase := .returned }
  | _ => none

def System.guard (s : System) (id : Nat) : Option System := do
  let term ← s.terms.find? (·.id == id)
  let lease ← guardSingletonLease s.row term.node term.fence s.clock
  if s.lock.isSome then none else some { s with lock := some (.guarded ⟨term, lease, s.clock⟩) }

inductive Action
  | advance (elapsed : Nat)
  | start (node : String)
  | cancel (node : String)
  | crash (node : String)
  | tick (node : String) (answered : Bool)
  | renew (node : String) (reply : Reply)
  | acquire (node : String)
  | confirm (node : String) (reply : Reply)
  | claim (node : String) (reply : Reply) (fenceKnown : Bool)
  | shutdown (node : String)
  | join (node : String) (giveUp : Bool)
  | release (node : String) (reply : Reply)
  | exit (id : Nat)
  | guard (id : Nat)
  | resolve (commit : Bool)
  | fenceTopology (expires : Nat)

def System.startLoop (s : System) (node : String) : Option System :=
  match s.loops node with
  | none => some (s.setLoop node {})
  | some l => if l.phase = .returned then some (s.setLoop node {}) else none

def step (s : System) : Action → Option System
  | .advance elapsed => some { s with clock := s.clock + elapsed }
  | .start node => s.startLoop node
  | .cancel node => do return s.setLoop node { (← s.loops node) with cancelled := true }
  | .crash node =>
    some { s with
      loops := Function.update s.loops node none
      terms := s.terms.filter (·.node != node) }
  | .tick node answered => do s.tick node (← s.loops node) answered
  | .renew node reply => do s.renew ttl node (← s.loops node) reply
  | .acquire node => do s.acquire node (← s.loops node)
  | .confirm node reply => do s.confirm ttl node (← s.loops node) reply
  | .claim node reply fenceKnown => do s.claim ttl node (← s.loops node) reply fenceKnown
  | .shutdown node => do s.shutdown node (← s.loops node)
  | .join node giveUp => do s.join node (← s.loops node) giveUp
  | .release node reply => do s.release node (← s.loops node) reply
  | .exit id => some { s with terms := s.terms.filter (·.id != id) }
  | .guard id => s.guard id
  | .resolve commit => s.resolve commit
  | .fenceTopology expires =>
    if s.lock.isSome then none
      else some { s with row := fenceSelfConfigTopologyLease s.row expires }

end Steps

end Hikyo.Leadership
