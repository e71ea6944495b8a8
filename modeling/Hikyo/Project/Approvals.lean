import Hikyo.Project.Publish

/-!
# Change approvals

Policies, requests, votes and the gate between a publish and its commit.  A request is bound to the
policy's version and to the drafts that were reviewed.  One that is found stale is invalidated by a
commit that then refuses, so that refusing is an outcome here and not an error.
-/

namespace Hikyo.Project

open Hikyo.Lib

def RequestState.isActive : RequestState → Bool
  | .opened => true
  | .approved => true
  | _ => false

def getRequest (db : ProjectDB) (env : EnvID) (id : RequestID) :
    Except ServiceError ApprovalRequest :=
  match db.requests.find? fun request => request.id == id && request.env == env with
  | some request => .ok request
  | none => .error (.notFound s!"approval request {id}")

def setRequestState (db : ProjectDB) (env : EnvID) (id : RequestID) (state : RequestState) :
    ProjectDB :=
  { db with
    requests := updateWhere (fun request => request.id == id && request.env == env)
      (fun request => { request with state := state }) db.requests }

/-- Named directly, or an active member of a named SCIM group. -/
def approverEligible (directory : Directory) (approvers : List Approver) (principal : PrincipalID) :
    Bool :=
  approvers.contains (.principal principal) ||
    match directory.accounts.lookup principal with
    | none => false
    | some account =>
      approvers.any fun approver =>
        match approver with
        | .principal _ => false
        | .scimGroup group binding =>
          match directory.scimUsers.find? fun user =>
              user.binding == binding && user.account == account with
          | none => false
          | some user => user.active && directory.memberships.contains ⟨binding, group, user.id⟩

def countsNow (db : ProjectDB) (policy : ApprovalPolicy) (request : ApprovalRequest)
    (vote : ApprovalVote) : Bool :=
  vote.requestID == request.id && vote.decision == .approve &&
    (!(vote.principal == request.requester) || policy.allowSelfApproval) &&
    approverEligible db.directory policy.approvers vote.principal &&
    db.directory.voters.contains (vote.principal, request.env)

def countEligibleApprovals (db : ProjectDB) (policy : ApprovalPolicy) (request : ApprovalRequest) :
    Nat :=
  (db.votes.filter (countsNow db policy request)).length

/-- `driftCause`: the environment advanced, or else the drafts were edited. -/
def driftCause (db : ProjectDB) (request : ApprovalRequest) : InvalidatedCause :=
  if db.currentRevision request.env ≠ request.baseRevision then .envAdvanced else .draftEdited

def sortedUnique (ids : List Nat) : List Nat := (ids.insertionSort (· ≤ ·)).dedup

structure PublishRequest where
  versionIDs : List VersionID
  previewToken : Option PreviewToken
  confirmedProtected : List EnvID
  approvalRequestID : Option RequestID
  /-- The reason of an emergency bypass. -/
  bypass : Option String

inductive ApprovalOutcome
  | proceed
  | created (request : ApprovalRequest)
  | resolve (request : ApprovalRequest) (bypass : Bool)
  | refused (cause : InvalidatedCause)

/-- The invalidation commits with the transaction; the refusal follows it. -/
def commitInvalidation (db : ProjectDB) (request : ApprovalRequest) (cause : InvalidatedCause) :
    ProjectDB × ApprovalOutcome :=
  (setRequestState db request.env request.id (.invalidated cause), .refused cause)

section Gate
variable (db : ProjectDB) (caller : PrincipalID) (policy : ApprovalPolicy) (env : EnvID)
  (digest : PreviewToken) (now : Time)

def approvalCreateGate (request : PublishRequest) (selection : List PendingChange)
    (closed : List VersionID) : ProjectDB × ApprovalOutcome :=
  let created : ApprovalRequest :=
    { id := db.nextID
      env := env
      policyID := policy.id
      policyVersion := policy.version
      requester := caller
      versionIDs := sortedUnique request.versionIDs
      closedVersionIDs := sortedUnique closed
      keyIDs := sortedUnique ((appliesTo selection env).map PendingChange.keyID)
      previewDigest := digest
      baseRevision := db.currentRevision env
      state := .opened
      createdAt := now
      expiresAt := now + policy.requestTTLSeconds }
  ({ db with requests := created :: db.requests, nextID := db.nextID + 1 }, .created created)

def checkLive (request : ApprovalRequest) : Except ServiceError Unit := do
  require (request.env = env) (.conflict "the request does not belong to this environment")
  require (request.state.isActive = true) (.conflict "the request is resolved")
  require (now < request.expiresAt) (.conflict "the request has expired")
  require (caller = request.requester)
    (.unauthorized "only the proposer may merge their reviewed change")

def approvalMergeGate (request : ApprovalRequest) :
    Except ServiceError (ProjectDB × ApprovalOutcome) := do
  checkLive caller env now request
  if policy.id ≠ request.policyID ∨ policy.version ≠ request.policyVersion then
    return commitInvalidation db request .policyChanged
  if digest ≠ request.previewDigest then
    return commitInvalidation db request (driftCause db request)
  if countEligibleApprovals db policy request < policy.minApprovals then
    if request.state = .approved then
      return commitInvalidation db request .approverRemoved
    else throw .approvalNotSatisfied
  return (db, .resolve request false)

def approvalBypassGate (request : ApprovalRequest) (reason : String) :
    Except ServiceError (ProjectDB × ApprovalOutcome) := do
  require (caller ∉ db.directory.machines)
    (.unauthorized "emergency bypass requires an interactive reauthenticated session")
  checkLive caller env now request
  if policy.id ≠ request.policyID ∨ policy.version ≠ request.policyVersion then
    return commitInvalidation db request .policyChanged
  if digest ≠ request.previewDigest then
    return commitInvalidation db request (driftCause db request)
  require (caller ∈ policy.bypassers)
    (.unauthorized "not a named emergency bypasser of this policy")
  require (reason ≠ "") (.invalid "emergency bypass requires a reason")
  require (reason.utf8ByteSize ≤ 512) (.invalid "the bypass reason is too long")
  return (db, .resolve request true)

end Gate

def approvalGate (db : ProjectDB) (caller : PrincipalID) (scopeEnv : EnvID)
    (request : PublishRequest) (loaded : Option ApprovalRequest) (selection : List PendingChange)
    (closed : List VersionID) (now : Time) : Except ServiceError (ProjectDB × ApprovalOutcome) :=
  match (selectionEnvs selection).find? fun env => (coveringPolicy db env).isSome with
  | none =>
    match loaded with
    | none => .ok (db, .proceed)
    | some live =>
      -- a request whose policy is gone must not fall through to a plain publish
      if live.state.isActive = true then do
        require (live.env ∈ selectionEnvs selection)
          (.conflict "the request environment is not in this publish")
        return commitInvalidation db live .policyChanged
      else .ok (db, .proceed)
  | some env =>
    match coveringPolicy db env with
    | none => .ok (db, .proceed)
    | some policy => do
      require ((selectionEnvs selection).length ≤ 1) .approvalGatedMultiEnv
      let digest := publishPreviewToken db scopeEnv caller selection
      match request.bypass, loaded with
      | some _, none => throw (.invalid "emergency bypass names an existing request")
      | some reason, some live => approvalBypassGate db caller policy env digest now live reason
      | none, some live => approvalMergeGate db caller policy env digest now live
      | none, none =>
        return approvalCreateGate db caller policy env digest now request selection closed

def requestSelection (db : ProjectDB) (request : ApprovalRequest) :
    Except ServiceError (List PendingChange) := do
  let selected ← resolveVersions (db.ownPending request.requester) request.versionIDs
  let index ← loadGroupIndex db
  let (selection, closed) ← selectVersions db request.requester index selected
  require (sortedUnique closed = sortedUnique request.closedVersionIDs ∧
    selectionEnvs selection = [request.env]) (.stalePending "the reviewed selection has changed")
  return selection

/-- A second vote of one approver can only repeat the first. -/
def repeatVote (db : ProjectDB) (existing : Option ApprovalVote) (decision : VoteDecision) :
    Except ServiceError (ProjectDB × Option InvalidatedCause) :=
  match existing with
  | none => .error (.conflict "the request is resolved")
  | some earlier => do
    require (earlier.decision = decision) (.conflict "this approver already cast another vote")
    return (db, none)

def invalidateRequest (db : ProjectDB) (request : ApprovalRequest) (cause : InvalidatedCause) :
    ProjectDB × Option InvalidatedCause :=
  (setRequestState db request.env request.id (.invalidated cause), some cause)

def recordVote (db : ProjectDB) (caller : PrincipalID) (env : EnvID) (request : ApprovalRequest)
    (policy : ApprovalPolicy) (decision : VoteDecision) : ProjectDB :=
  let voted := { db with votes := ⟨request.id, caller, decision⟩ :: db.votes }
  match decision with
  | .reject => setRequestState voted env request.id .rejected
  | .approve =>
    if policy.minApprovals ≤ countEligibleApprovals voted policy request ∧
      request.state ≠ .approved then
      setRequestState voted env request.id .approved
    else voted

/-- `Vote`.  The cause of an invalidation comes back with the committed tables. -/
def vote (db : ProjectDB) (caller : PrincipalID) (env : EnvID) (requestID : RequestID)
    (decision : VoteDecision) (now : Time) :
    Except ServiceError (ProjectDB × Option InvalidatedCause) := do
  let request ← getRequest db env requestID
  let existing := db.votes.find? fun vote => vote.requestID == requestID && vote.principal == caller
  if request.state.isActive = false then repeatVote db existing decision
  else do
    require (now < request.expiresAt) (.conflict "the request has expired")
    match db.policies.find? fun policy => policy.id == request.policyID with
    | none => return invalidateRequest db request .policyChanged
    | some policy =>
      if policy.version ≠ request.policyVersion then
        return invalidateRequest db request .policyChanged
      else do
        require (approverEligible db.directory policy.approvers caller = true)
          (.unauthorized "not an approver")
        require (¬ (decision = .approve ∧ caller = request.requester ∧
          policy.allowSelfApproval = false))
          (.unauthorized "the requester cannot approve their own change under this policy")
        match requestSelection db request with
        | .error (.stalePending _) => return invalidateRequest db request (driftCause db request)
        | .error e => throw e
        | .ok selection =>
          if publishPreviewToken db env request.requester selection ≠ request.previewDigest then
            return invalidateRequest db request (driftCause db request)
          else
            match existing with
            | some _ => repeatVote db existing decision
            | none => return (recordVote db caller env request policy decision, none)

def expireDue (db : ProjectDB) (now : Time) (batch : List RequestID) : ProjectDB :=
  { db with
    requests := updateWhere
      (fun request => batch.contains request.id && request.state.isActive &&
        decide (request.expiresAt < now))
      (fun request => { request with state := .expired }) db.requests }

structure ApprovalPolicyInput where
  env : Option EnvID
  minApprovals : Nat
  allowSelfApproval : Bool
  requestTTLSeconds : Nat
  enabled : Bool
  approvers : List Approver
  bypassers : List PrincipalID

def maxApprovalPolicyMembers : Nat := 100

def validatePolicyInput (input : ApprovalPolicyInput) : Except ServiceError Unit := do
  require (1 ≤ input.minApprovals) (.invalid "min_approvals must be at least 1")
  require (0 < input.requestTTLSeconds) (.invalid "request_ttl_seconds must be positive")
  require (input.approvers.length ≤ maxApprovalPolicyMembers)
    (.invalid s!"approvers cannot contain more than {maxApprovalPolicyMembers} entries")
  require (input.bypassers.length ≤ maxApprovalPolicyMembers)
    (.invalid s!"bypassers cannot contain more than {maxApprovalPolicyMembers} entries")

def createPolicy (db : ProjectDB) (input : ApprovalPolicyInput) :
    Except ServiceError ProjectDB := do
  validatePolicyInput input
  require (∀ env ∈ input.env, (db.environment? env).isSome = true)
    (.invalid "the environment is not in this project")
  require (db.policies.all (fun policy => !(policy.env == input.env)) = true)
    (.conflict "the environment already has an approval policy")
  return { db with
    policies := ⟨db.nextID, input.env, input.minApprovals, input.allowSelfApproval,
      input.requestTTLSeconds, input.enabled, 1, input.approvers, input.bypassers⟩ :: db.policies
    nextID := db.nextID + 1 }

/-- `UpdatePolicy`: the scope is immutable, the version moves, the members are replaced. -/
def updatePolicy (db : ProjectDB) (id : PolicyID) (input : ApprovalPolicyInput) :
    Except ServiceError ProjectDB := do
  validatePolicyInput input
  match db.policies.find? fun policy => policy.id == id with
  | none => throw (.notFound s!"approval policy {id}")
  | some current =>
    require (input.env = current.env)
      (.invalid "an approval policy's environment cannot be changed; create a replacement policy")
    return { db with
      policies := updateWhere (fun policy => policy.id == id) (fun policy =>
        ⟨policy.id, policy.env, input.minApprovals, input.allowSelfApproval,
          input.requestTTLSeconds,
          input.enabled, policy.version + 1, input.approvers, input.bypassers⟩) db.policies }

def deletePolicy (db : ProjectDB) (id : PolicyID) : Except ServiceError ProjectDB := do
  require (db.policies.any (fun policy => policy.id == id) = true)
    (.notFound s!"approval policy {id}")
  return { db with policies := db.policies.filter fun policy => !(policy.id == id) }

end Hikyo.Project
