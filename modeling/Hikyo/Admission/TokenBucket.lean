import Mathlib.Data.List.Induction
import Mathlib.Algebra.Order.Group.Int
import Mathlib.Logic.Function.Basic

/-!
# The token bucket of the MCP admission

`AcquireMCP` on either engine.  The bucket of a principal is one time stamp, which every admission
moves ahead by a refill interval; `Paced` relates the stamp to the admissions since any instant, and
`mcp_admission_bounded` bounds with it the admissions in every interval, for any interleaving of
calls by any principals.

Time is in nanoseconds.  Both engines store microseconds; the clock is read in microseconds on
PostgreSQL and in nanoseconds on SQLite, where the bound can be passed by the part that is cut off
(`burst_exceeds_bucket`).
-/

namespace Hikyo.Admission

open List

def canonTime (t : Int) : Int := t / 1000 * 1000

def mcpRateCapacity : Int := 20

def mcpRateRefillInterval : Int := 1000000000

def mcpPrincipalLimit : Nat := 4

def mcpOrganizationLimit : Nat := 8

def mcpInstanceLimit : Nat := 64

structure Claim where
  callID : String
  principalID : String
  orgID : String
  expiresAt : Int

structure McpTables where
  inflight : List Claim
  nextAt : String → Option Int

/-- The source reports a full dimension and an empty bucket by one error. -/
inductive McpRefusal
  | invalid
  | concurrency
  | rate
  | callExists
  deriving DecidableEq

/-- The tables as the transaction leaves them, before it is committed or rolled back. -/
def acquireMCP (db : McpTables) (now : Int) (callID principalID orgID : String) (ttl : Int) :
    McpTables × Option McpRefusal :=
  if callID = "" ∨ principalID = "" ∨ orgID = "" ∨ ttl ≤ 0 then (db, some .invalid)
  else
    let inflight := db.inflight.filter (canonTime now < ·.expiresAt)
    if mcpPrincipalLimit ≤ inflight.countP (·.principalID = principalID) ∨
        mcpOrganizationLimit ≤ inflight.countP (·.orgID = orgID) ∨
          mcpInstanceLimit ≤ inflight.length then
      ({ db with inflight }, some .concurrency)
    else
      let nextAt := (db.nextAt principalID).getD now
      if now + (mcpRateCapacity - 1) * mcpRateRefillInterval < nextAt then
        ({ db with inflight }, some .rate)
      else
        let nextAt := (if nextAt < now then now else nextAt) + mcpRateRefillInterval
        let buckets := Function.update db.nextAt principalID (some (canonTime nextAt))
        if inflight.any (·.callID = callID) then (⟨inflight, buckets⟩, some .callExists)
        else (⟨⟨callID, principalID, orgID, canonTime (now + ttl)⟩ :: inflight, buckets⟩, none)

inductive McpCall
  | acquire (now : Int) (callID principalID orgID : String) (ttl : Int)
  | release (callID : String)

def McpCall.clock : McpCall → Option Int
  | .acquire now .. => some now
  | .release _ => none

/-- The committed tables, and who was admitted when. -/
structure McpRun where
  db : McpTables
  admitted : List (String × Int)

def McpRun.serve (run : McpRun) : McpCall → McpRun
  | .acquire now callID principalID orgID ttl =>
    match acquireMCP run.db now callID principalID orgID ttl with
    | (db, none) => ⟨db, run.admitted ++ [(principalID, now)]⟩
    | (_, some _) => run
  | .release callID =>
    if callID = "" then run
    else { run with db := { run.db with inflight := run.db.inflight.filter (·.callID ≠ callID) } }

def mcpRun (calls : List McpCall) : McpRun := calls.foldl McpRun.serve ⟨⟨[], fun _ => none⟩, []⟩

def McpRun.times (run : McpRun) (principalID : String) : List Int :=
  (run.admitted.filter (·.1 = principalID)).map (·.2)

section Paced
variable {times : List Int} {next : Option Int} {now : Int}

/-- The admissions since any instant have moved the stored stamp that many intervals past it. -/
structure Paced (times : List Int) (next : Option Int) : Prop where
  stored : ∀ n ∈ next, canonTime n = n
  charged : ∀ start, times.countP (start ≤ ·) ≠ 0 →
    ∃ n ∈ next, start + times.countP (start ≤ ·) * mcpRateRefillInterval ≤ n
  bounded : ∀ start length, 0 ≤ length →
    times.countP (fun t => start ≤ t ∧ t ≤ start + length) ≤ mcpRateCapacity +
      length / mcpRateRefillInterval

theorem Paced.charge (paced : Paced times next) (latest : ∀ t ∈ times, t ≤ now)
    (canon : canonTime now = now)
      (unspent : next.getD now ≤ now + (mcpRateCapacity - 1) * mcpRateRefillInterval) : Paced
        (times ++ [now])
        (some (canonTime ((if next.getD now < now then now else next.getD now) +
          mcpRateRefillInterval))) := by
  have readCanon : canonTime (next.getD now) = next.getD now := by
    cases stamp : next with
    | none => exact canon
    | some n => exact paced.stored n stamp
  have moved : ∀ start, times.countP (start ≤ ·) ≠ 0 →
      start + times.countP (start ≤ ·) * mcpRateRefillInterval ≤ next.getD now := by
    intro start some_
    obtain ⟨n, rfl, moved⟩ := paced.charged start some_
    exact moved
  generalize next.getD now = read at readCanon moved unspent
  generalize later : (if read < now then now else read) + mcpRateRefillInterval = stamp
  have whole : canonTime stamp = stamp := by
    unfold canonTime mcpRateRefillInterval at *
    split at later <;> omega
  rw [whole]
  refine ⟨fun n held => Option.some.inj held ▸ whole, fun start counted => ⟨stamp, rfl, ?_⟩,
    fun start length nonneg => ?_⟩
  · have before := moved start
    rw [countP_append, countP_singleton] at counted ⊢
    by_cases started : start ≤ now
    · rw [if_pos (decide_eq_true started)]
      unfold mcpRateRefillInterval at *
      split at later <;> omega
    rw [if_neg (by simpa using started), Nat.add_zero] at counted
    refine absurd (countP_eq_zero.mpr fun t mem => ?_) counted
    have past := latest t mem
    simp only [decide_eq_true_eq]
    omega
  have before := paced.bounded start length nonneg
  rw [countP_append, countP_singleton]
  split
  · next inside =>
    have fewer : times.countP (fun t => start ≤ t ∧ t ≤ start + length) ≤ times.countP
        (start ≤ ·) := by
      refine countP_mono_left fun t _ counted => ?_
      simp only [decide_eq_true_eq] at counted ⊢
      exact counted.1
    have charged := moved start
    simp only [decide_eq_true_eq] at inside
    unfold mcpRateRefillInterval mcpRateCapacity at *
    omega
  · exact before

end Paced

section Bound
variable {run : McpRun} {now ttl : Int} {callID principalID orgID : String}

/-- An admission found room in every dimension and in the bucket. -/
theorem acquireMCP_eq_none {db : McpTables}
    (taken : acquireMCP run.db now callID principalID orgID ttl = (db, none)) :
    ∃ read inflight, inflight <+ run.db.inflight ∧ inflight.countP
      (·.principalID = principalID) < mcpPrincipalLimit ∧
      inflight.countP (·.orgID = orgID) < mcpOrganizationLimit ∧
        inflight.length < mcpInstanceLimit ∧
      read = (run.db.nextAt principalID).getD now ∧
        read ≤ now + (mcpRateCapacity - 1) * mcpRateRefillInterval ∧
      db = ⟨⟨callID, principalID, orgID, canonTime (now + ttl)⟩ :: inflight,
        Function.update run.db.nextAt principalID
        (some (canonTime ((if read < now then now else read) + mcpRateRefillInterval)))⟩ := by
  unfold acquireMCP at taken
  dsimp only at taken
  split_ifs at taken with invalid full spent _ duplicate
  all_goals cases taken
  all_goals
    simp only [not_or, Nat.not_le, Int.not_lt] at full spent
    exact ⟨_, _, filter_sublist, full.1, full.2.1, full.2.2, rfl, spent, by simp [*]⟩

theorem countP_cons_le {claim : Claim} {inflight : List Claim} {test : Claim → Bool} {limit : Nat}
    (room : test claim = true → inflight.countP test < limit)
    (before : inflight.countP test ≤ limit) :
    (claim :: inflight).countP test ≤ limit := by
  rw [countP_cons]
  split
  · exact room ‹_›
  · exact before

theorem times_admitted (db : McpTables) (p : String) :
    McpRun.times ⟨db, run.admitted ++ [(principalID, now)]⟩ p =
    run.times p ++ if principalID = p then [now] else [] := by
  unfold McpRun.times
  rw [filter_append, map_append]
  split <;> simp_all

structure Admits (clocks : List Int) (run : McpRun) : Prop where
  paced : ∀ p, Paced (run.times p) (run.db.nextAt p)
  clocked : ∀ p, ∀ t ∈ run.times p, t ∈ clocks
  principals : ∀ p, run.db.inflight.countP (·.principalID = p) ≤ mcpPrincipalLimit
  organizations : ∀ org, run.db.inflight.countP (·.orgID = org) ≤ mcpOrganizationLimit
  instance_ : run.db.inflight.length ≤ mcpInstanceLimit

theorem Admits.serve {clocks : List Int} {call : McpCall} (admits : Admits clocks run)
    (latest : ∀ now ∈ call.clock, (∀ t ∈ clocks, t ≤ now) ∧ canonTime now = now) :
    Admits (clocks ++ call.clock.toList) (run.serve call) := by
  have later : Admits (clocks ++ call.clock.toList) run :=
    { admits with clocked := fun p t mem => mem_append_left _ (admits.clocked p t mem) }
  cases call with
  | release callID =>
    dsimp only [McpRun.serve]
    split
    · exact later
    have fewer : ∀ test : Claim → Bool,
        (run.db.inflight.filter (·.callID ≠ callID)).countP test ≤ run.db.inflight.countP test :=
      fun _ => filter_sublist.countP_le
    exact { later with
      principals := fun p => (fewer _).trans (later.principals p)
      organizations := fun org => (fewer _).trans (later.organizations org)
      instance_ := (length_filter_le ..).trans later.instance_ }
  | acquire now callID principalID orgID ttl =>
    dsimp only [McpRun.serve]
    split
    · next db taken =>
      obtain ⟨_, inflight, part, principal, org, room, rfl, unspent, rfl⟩ :=
        acquireMCP_eq_none taken
      obtain ⟨past, canon⟩ := latest now rfl
      refine ⟨fun p => ?_, fun p t mem => ?_, fun p => ?_, fun other => ?_, room⟩
      · rw [times_admitted]
        dsimp only
        by_cases own : principalID = p
        · subst own
          rw [if_pos rfl, Function.update_self]
          exact (admits.paced _).charge (fun t mem => past t (admits.clocked _ t mem)) canon unspent
        · rw [if_neg own, append_nil, Function.update_of_ne (Ne.symm own)]
          exact admits.paced p
      · rw [times_admitted, mem_append] at mem
        refine mem.elim (later.clocked p t) fun new => mem_append_right _ ?_
        split at new
        · exact new
        · cases new
      · refine countP_cons_le (fun own => ?_) (part.countP_le.trans (admits.principals p))
        exact of_decide_eq_true own ▸ principal
      · refine countP_cons_le (fun own => ?_) (part.countP_le.trans (admits.organizations other))
        exact of_decide_eq_true own ▸ org
    · exact later

theorem mcpRun_append (calls : List McpCall) (call : McpCall) :
    mcpRun (calls ++ [call]) = (mcpRun calls).serve call := by
  rw [mcpRun, foldl_append, mcpRun, foldl_cons, foldl_nil]

theorem admits_mcpRun {calls : List McpCall}
    (ordered : (calls.filterMap McpCall.clock).Pairwise (· ≤ ·))
    (micro : ∀ now ∈ calls.filterMap McpCall.clock, canonTime now = now) :
    Admits (calls.filterMap McpCall.clock) (mcpRun calls) := by
  induction calls using List.reverseRecOn with
  | nil =>
    refine ⟨fun _ => ⟨by rintro _ ⟨⟩, fun _ some_ => absurd rfl some_, fun _ length nonneg => ?_⟩,
      fun _ _ mem => absurd mem not_mem_nil, fun _ => Nat.zero_le _, fun _ => Nat.zero_le _,
      Nat.zero_le _⟩
    rw [show (mcpRun []).times _ = [] from rfl, countP_nil]
    unfold mcpRateCapacity mcpRateRefillInterval
    omega
  | append_singleton calls call ih =>
    have clocks : (calls ++ [call]).filterMap McpCall.clock = calls.filterMap McpCall.clock ++
        call.clock.toList := by
      rw [filterMap_append]
      cases call <;> rfl
    rw [clocks] at ordered micro ⊢
    obtain ⟨ordered', _, later⟩ := pairwise_append.mp ordered
    have served := ih ordered' fun now mem => micro now (mem_append_left _ mem)
    rw [mcpRun_append]
    refine served.serve fun now isClock => ?_
    have mem : now ∈ call.clock.toList := Option.mem_toList.mpr isClock
    exact ⟨fun t old => later t old now mem, micro now (mem_append_right _ mem)⟩

theorem acquireMCP_concurrency {db : McpTables}
    (refused : (acquireMCP db now callID principalID orgID ttl).2 = some .concurrency) :
    (acquireMCP db now callID principalID orgID ttl).1.nextAt = db.nextAt := by
  unfold acquireMCP at refused ⊢
  dsimp only at refused ⊢
  split_ifs at refused ⊢ <;> first | rfl | cases refused

theorem serve_refused {refusal : McpRefusal}
    (refused : (acquireMCP run.db now callID principalID orgID ttl).2 = some refusal) :
    run.serve (.acquire now callID principalID orgID ttl) = run := by
  dsimp only [McpRun.serve]
  split
  · next taken =>
    rw [taken] at refused
    cases refused
  · rfl

def callAndRelease (now : Int) : List McpCall := [.acquire now "c" "p" "o" 1000000, .release "c"]

/-- Twenty calls spend the bucket, a further one is refused, and one is admitted a second later. -/
def spentAndRefilled : List McpCall :=
  (List.replicate 21 (callAndRelease 0)).flatten ++ callAndRelease 1000000000

/-- Twenty calls at 999 ns, each released, and one a second after the start of the epoch: the stamp
that is stored has lost the nanoseconds. -/
def burst : List McpCall :=
  (List.replicate 20 (callAndRelease 999)).flatten ++ [.acquire 1000000000 "c" "p" "o" 1000000]

end Bound

end Hikyo.Admission
