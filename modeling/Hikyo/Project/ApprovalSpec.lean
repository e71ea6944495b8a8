import Hikyo.Project.Approvals

/-!
# What the approval gate lets through

The gate of a publish, inverted once.  `approvalGate_spec` says what each outcome stands for: a
covered publish goes through only if it merges a live request that has its approvals and no
rejection, or bypasses it as a named principal (`Approves`); otherwise a request is opened, or one
that has gone stale is invalidated.
-/

namespace Hikyo.Project

open Hikyo.Lib List

variable {outcome : ApprovalOutcome} {policy : ApprovalPolicy} {caller : PrincipalID}
  {db : ProjectDB} {now : Time}

structure BoundRequest (caller : PrincipalID) (policy : ApprovalPolicy) (env : EnvID)
    (digest : PreviewToken) (now : Time) (request : ApprovalRequest) : Prop where
  environment : request.env = env
  active : request.state.isActive = true
  unexpired : now < request.expiresAt
  proposer : caller = request.requester
  policyID : policy.id = request.policyID
  policyVersion : policy.version = request.policyVersion
  reviewed : digest = request.previewDigest

def countedVoters (db : ProjectDB) (policy : ApprovalPolicy) (live : ApprovalRequest) :
    List PrincipalID :=
  (db.votes.filter (countsNow db policy live)).map ApprovalVote.principal

section Counted
variable {live : ApprovalRequest}

theorem countsNow_eq_true {vote : ApprovalVote} : countsNow db policy live vote = true ↔
    vote.requestID = live.id ∧ vote.decision = .approve ∧
      (vote.principal = live.requester → policy.allowSelfApproval = true) ∧
      approverEligible db.directory policy.approvers vote.principal = true ∧
      (vote.principal, live.env) ∈ db.directory.voters := by
  simp only [countsNow, Bool.and_eq_true, Bool.or_eq_true, Bool.not_eq_true', beq_iff_eq,
    beq_eq_false_iff_ne, contains_iff_mem, imp_iff_not_or, ne_eq, and_assoc]

theorem mem_countedVoters {approver : PrincipalID} : approver ∈ countedVoters db policy live ↔
    (⟨live.id, approver, .approve⟩ : ApprovalVote) ∈ db.votes ∧
      approverEligible db.directory policy.approvers approver = true ∧
        (approver, live.env) ∈ db.directory.voters ∧
      (approver = live.requester → policy.allowSelfApproval = true) := by
  simp only [countedVoters, mem_map, mem_filter, countsNow_eq_true]
  constructor
  · rintro ⟨⟨_, _⟩, ⟨cast, rfl, rfl, self, eligible, voter⟩, rfl⟩
    exact ⟨cast, eligible, voter, self⟩
  · rintro ⟨cast, eligible, voter, self⟩
    exact ⟨_, ⟨cast, rfl, rfl, self, eligible, voter⟩, rfl⟩

theorem countedVoters_nodup
    (ballots : (db.votes.map fun vote => (vote.requestID, vote.principal)).Nodup) :
    (countedVoters db policy live).Nodup := by
  refine List.Nodup.map_on (fun vote mem other otherMember same => ?_)
    ((List.Nodup.of_map _ ballots).filter _)
  obtain ⟨cast, counts⟩ := mem_filter.mp mem
  obtain ⟨otherCast, otherCounts⟩ := mem_filter.mp otherMember
  exact inj_on_of_nodup_map ballots cast otherCast
    (by rw [(countsNow_eq_true.mp counts).1, (countsNow_eq_true.mp otherCounts).1, same])

end Counted

section Gates
variable {after : ProjectDB} {env : EnvID} {digest : PreviewToken} {live : ApprovalRequest}

theorem checkLive_eq_ok {u : Unit} (run : checkLive caller env now live = .ok u) :
    live.env = env ∧ live.state.isActive = true ∧ now < live.expiresAt ∧
      caller = live.requester := by
  unfold checkLive at run
  simp only [require_bind_eq_ok, require_eq_ok] at run
  exact run

def ResolvesOrRefuses (db : ProjectDB) (live : ApprovalRequest) (resolved : Prop) (bypass : Bool)
    (after : ProjectDB) (outcome : ApprovalOutcome) : Prop :=
  (outcome = .resolve live bypass ∧ after = db ∧ resolved) ∨
    ∃ cause, outcome = .refused cause ∧
      after = setRequestState db live.env live.id (.invalidated cause)

theorem approvalMergeGate_spec
    (run : approvalMergeGate db caller policy env digest now live = .ok (after, outcome)) :
    ResolvesOrRefuses db live (BoundRequest caller policy env digest now live ∧
      policy.minApprovals ≤ countEligibleApprovals db policy live) false after outcome := by
  obtain ⟨_, checked, run⟩ := bind_eq_ok.mp run
  obtain ⟨environment, active, unexpired, proposer⟩ := checkLive_eq_ok checked
  split at run
  · cases run
    exact .inr ⟨_, rfl, rfl⟩
  next bound =>
  simp only [not_or, ne_eq, Decidable.not_not] at bound
  split at run
  · cases run
    exact .inr ⟨_, rfl, rfl⟩
  next same =>
  simp only [ne_eq, Decidable.not_not] at same
  split at run
  · split at run
    · cases run
      exact .inr ⟨_, rfl, rfl⟩
    · cases run
  next enough =>
  cases run
  exact .inl ⟨rfl, rfl, ⟨environment, active, unexpired, proposer, bound.1, bound.2, same⟩,
    Nat.not_lt.mp enough⟩

theorem approvalBypassGate_spec {reason : String}
    (run : approvalBypassGate db caller policy env digest now live reason = .ok (after, outcome)) :
    ResolvesOrRefuses db live (BoundRequest caller policy env digest now live ∧
      caller ∈ policy.bypassers) true after outcome := by
  unfold approvalBypassGate at run
  rw [require_bind_eq_ok, bind_eq_ok] at run
  obtain ⟨-, _, checked, run⟩ := run
  obtain ⟨environment, active, unexpired, proposer⟩ := checkLive_eq_ok checked
  split at run
  · cases run
    exact .inr ⟨_, rfl, rfl⟩
  next bound =>
  simp only [not_or, ne_eq, Decidable.not_not] at bound
  split at run
  · cases run
    exact .inr ⟨_, rfl, rfl⟩
  next same =>
  simp only [ne_eq, Decidable.not_not] at same
  simp only [require_bind_eq_ok] at run
  obtain ⟨named, -, -, run⟩ := run
  cases run
  exact .inl ⟨rfl, rfl, ⟨environment, active, unexpired, proposer, bound.1, bound.2, same⟩, named⟩

end Gates

/-- A publish of `selection` that resolves `live`, as a merge or as a bypass. -/
structure Approves (db : ProjectDB) (caller : PrincipalID) (scopeEnv : EnvID)
    (selection : List PendingChange) (now : Time) (live : ApprovalRequest)
    (bypass : Bool) (env : EnvID) (policy : ApprovalPolicy) : Prop where
  single : selectionEnvs selection = [env]
  covered : coveringPolicy db env = some policy
  bound : BoundRequest caller policy env (publishPreviewToken db scopeEnv caller selection) now live
  quorum : bypass = false → policy.minApprovals ≤ countEligibleApprovals db policy live
  named : bypass = true → caller ∈ policy.bypassers

/-- What each outcome of the gate says about the state it was reached in. -/
def GateOutcome (db : ProjectDB) (caller : PrincipalID) (scopeEnv : EnvID)
    (loaded : Option ApprovalRequest) (selection : List PendingChange) (now : Time)
    (after : ProjectDB) :
    ApprovalOutcome → Prop
  | .proceed => after = db ∧ ∀ env ∈ selectionEnvs selection, coveringPolicy db env = none
  | .created created =>
    after = { db with requests := created :: db.requests, nextID := db.nextID + 1 } ∧
      loaded = none ∧ created.id = db.nextID ∧
      created.previewDigest = publishPreviewToken db scopeEnv caller selection ∧
      created.requester = caller
  | .refused cause => ∃ live, loaded = some live ∧
      after = setRequestState db live.env live.id (.invalidated cause)
  | .resolve live bypass => after = db ∧ loaded = some live ∧
      ∃ env policy, Approves db caller scopeEnv selection now live bypass env policy

section Gate
variable {after : ProjectDB} {scopeEnv : EnvID} {request : PublishRequest}
  {loaded : Option ApprovalRequest} {selection : List PendingChange} {closed : List VersionID}

theorem gateOutcome_of_resolves {live : ApprovalRequest} (env : EnvID) (policy : ApprovalPolicy)
    {resolved : Prop} {bypass : Bool} (isLoaded : loaded = some live)
    (establishes : resolved → Approves db caller scopeEnv selection now live bypass env policy)
    (spec : ResolvesOrRefuses db live resolved bypass after outcome) :
    GateOutcome db caller scopeEnv loaded selection now after outcome := by
  rcases spec with ⟨rfl, rfl, holds⟩ | ⟨_, rfl, rfl⟩
  · exact ⟨rfl, isLoaded, env, policy, establishes holds⟩
  · exact ⟨live, isLoaded, rfl⟩

theorem approvalGate_spec
    (run : approvalGate db caller scopeEnv request loaded selection closed now =
      .ok (after, outcome)) :
    GateOutcome db caller scopeEnv loaded selection now after outcome := by
  unfold approvalGate at run
  split at run
  · next uncovered =>
    have open' : ∀ env ∈ selectionEnvs selection, coveringPolicy db env = none := by
      intro env mem
      simpa using find?_eq_none.mp uncovered env mem
    split at run
    · cases run
      exact ⟨rfl, open'⟩
    next live =>
    split at run
    · obtain ⟨-, run⟩ := require_bind_eq_ok.mp run
      cases run
      exact ⟨live, rfl, rfl⟩
    · cases run
      exact ⟨rfl, open'⟩
  next env located =>
  have mem := mem_of_find?_eq_some located
  split at run
  · next uncovered =>
    have covered := find?_some located
    simp [uncovered] at covered
  next policy covered =>
  obtain ⟨few, run⟩ := require_bind_eq_ok.mp run
  have single : selectionEnvs selection = [env] := by
    rcases shape : selectionEnvs selection with _ | ⟨only, _ | ⟨_, _⟩⟩
    · rw [shape] at mem; cases mem
    · rw [shape] at mem; rw [mem_singleton.mp mem]
    · rw [shape] at few; simp at few
  split at run
  · cases run
  · next live =>
    refine gateOutcome_of_resolves env policy rfl (fun holds => ?_) (approvalBypassGate_spec run)
    exact Approves.mk single covered holds.1 (fun impossible => by cases impossible) fun _ =>
      holds.2
  · next live =>
    refine gateOutcome_of_resolves env policy rfl (fun holds => ?_) (approvalMergeGate_spec run)
    exact Approves.mk single covered holds.1 (fun _ => holds.2) fun impossible => by
      cases impossible
  · cases run
    exact ⟨rfl, rfl, rfl, rfl, rfl⟩

end Gate

end Hikyo.Project
