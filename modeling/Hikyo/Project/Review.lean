import Hikyo.Project.LostUpdate

/-!
# What was reviewed

What a request was opened for is what its merge commits.  Drafts never change under their version
(`run_draftsKept`), so a digest that still matches names the rows that were reviewed
(`approves_reviewed`); `quorum_of_count` and `no_rejection` read the votes.
-/

namespace Hikyo.Project

open Hikyo.Lib List

variable {action : Action} {policy : ApprovalPolicy} {env scopeEnv : EnvID} {history : List Action}
  {selection : List PendingChange} {caller : PrincipalID} {db : ProjectDB} {server : Server}

def DraftsKept (db after : ProjectDB) : Prop :=
  db.nextID ≤ after.nextID ∧ ∀ change ∈ after.pending, change.id < db.nextID → change ∈ db.pending

section Drafts
variable {mid after : ProjectDB}

theorem DraftsKept.trans (first : DraftsKept db mid) (second : DraftsKept mid after) :
    DraftsKept db after :=
  ⟨Nat.le_trans first.1 second.1, fun change mem below =>
    first.2 change (second.2 change mem (Nat.lt_of_lt_of_le below first.1)) below⟩

theorem step_draftsKept (ok : WellFormed db) (taken : step server db action = some after) :
    DraftsKept db after := by
  refine ⟨step_nextID_le taken ok, fun change mem below => ?_⟩
  rcases step_pending taken ok change mem with old | ⟨fresh, -⟩
  · exact old
  · exact absurd below (Nat.not_lt.mpr fresh)

theorem run_draftsKept {past : List Action} (earlier : past <+: history) :
    DraftsKept (run server past) (run server history) :=
  runFrom_prefix (step server) .empty DraftsKept (fun _ => ⟨le_rfl, fun _ mem _ => mem⟩)
    (fun _ _ _ => DraftsKept.trans) WellFormed empty_wellFormed
    (fun _ _ _ ok taken => ⟨step_wellFormed ok taken, step_draftsKept ok taken⟩) earlier

theorem draft_unique {past : List Action} (earlier : past <+: history)
    {change before : PendingChange} (mem : change ∈ (run server history).pending)
    (stored : before ∈ (run server past).pending) (same : change.id = before.id) :
    change = before := by
  have ok : WellFormed (run server past) := run_wellFormed past
  have below : change.id < (run server past).nextID := by
    rw [same]
    exact (ok.rows.pending before stored).fresh
  exact inj_on_of_nodup_map ok.rows.pendingIDs ((run_draftsKept earlier).2 change mem below) stored
    same

end Drafts

def OpenedBy (db : ProjectDB) (action : Action) (live : ApprovalRequest)
    (reviewed : List PendingChange) : Prop :=
  ∃ scopeEnv request now index closed, action = .publish live.requester scopeEnv request now ∧
    planSelection db live.requester request.versionIDs = .ok (index, reviewed, closed) ∧
    live.previewDigest = publishPreviewToken db scopeEnv live.requester reviewed

/-- The request was opened at a point of the history for exactly these drafts. -/
def ReviewedIn (server : Server) (history : List Action) (live : ApprovalRequest)
    (reviewed : List PendingChange) : Prop :=
  ∃ past action, past ++ [action] <+: history ∧ OpenedBy (run server past) action live reviewed ∧
    ∃ opened ∈ (run server (past ++ [action])).requests, ∃ state, live =
      { opened with state := state }

section Requests
variable {after : ProjectDB}

theorem step_requests (ok : WellFormed db) (taken : step server db action = some after) :
    ∀ request ∈ after.requests, (∃ old ∈ db.requests, ∃ state, request =
      { old with state := state }) ∨
      ∃ reviewed, OpenedBy db action request reviewed := by
  intro request mem
  cases step_effect ok taken with
  | quiet same => exact .inl (same.requests request mem)
  | drafted drafts =>
    have same : after.requests = db.requests := by rw [drafts.frame]
    exact .inl (restated_of_eq same request mem)
  | collected => exact .inl (restated_of_eq rfl request mem)
  | removed => exact .inl (restated_of_subset (fun _ kept => (mem_filter.mp kept).1) request mem)
  | opened selects digest proposer =>
    rcases mem_cons.mp mem with rfl | old
    · subst proposer
      exact .inr ⟨_, _, _, _, _, _, rfl, selects, digest⟩
    · exact .inl ⟨request, old, request.state, rfl⟩
  | planned _ _ _ advance | written _ advance | created advance =>
    exact .inl (advance.requests request mem)
  | changed changes advance =>
    have keeps := CatalogueWrites.keeps (changeSchema_writes changes)
    exact .inl ((restated_of_subset keeps.requests).trans advance.requests request mem)

theorem run_reviewed (history : List Action) :
    ∀ live ∈ (run server history).requests, ∃ reviewed, ReviewedIn server history live
      reviewed := by
  refine runFrom_history (step server) .empty
    (fun history db => ∀ live ∈ db.requests, ∃ reviewed, ReviewedIn server history live reviewed)
      ?_ ?_ ?_ history
  · exact nofun
  · intro past action _ ih taken reached live mem
    rcases step_requests (run_wellFormed past) taken live mem
        with ⟨old, stored, state, rfl⟩ | ⟨reviewed, opened⟩
    · obtain ⟨reviewed, earlier, opening, before, openedBy, first, inRun, _, rfl⟩ := ih old stored
      exact ⟨reviewed, earlier, opening, before.trans (prefix_append _ _), openedBy, first,
        inRun, state, rfl⟩
    refine ⟨reviewed, past, action, prefix_refl _, opened, live, ?_, live.state, rfl⟩
    rw [run, reached]
    exact mem
  · intro _ _ ih _ live mem
    obtain ⟨reviewed, earlier, opening, before, facts⟩ := ih live mem
    exact ⟨reviewed, earlier, opening, before.trans (prefix_append _ _), facts⟩

end Requests

section Digest
theorem eq_of_map_eq {α β : Type} {f : α → β} {xs ys : List α} (same : xs.map f = ys.map f)
    (inj : ∀ x ∈ xs, ∀ y ∈ ys, f x = f y → x = y) : xs = ys := by
  induction xs generalizing ys with
  | nil => exact (map_eq_nil_iff.mp same.symm).symm
  | cons x _ ih =>
    cases ys with
    | nil => cases same
    | cons y =>
      obtain ⟨heads, tails⟩ := cons.inj same
      rw [inj x (.head _) y (.head _) heads,
        ih tails fun a inXs b inYs => inj a (.tail _ inXs) b (.tail _ inYs)]

theorem appliesTo_single (single : selectionEnvs selection = [env]) :
    appliesTo selection env = selection := by
  refine filter_eq_self.mpr fun change mem => ?_
  have listed := mem_selectionEnvs.mpr (mem_map_of_mem mem)
  rw [single] at listed
  simpa using mem_singleton.mp listed

theorem versions_of_digest {before : ProjectDB} {scopeEnv' : EnvID}
    {reviewed : List PendingChange} (single : selectionEnvs selection = [env])
    (same : publishPreviewToken db scopeEnv caller selection =
      publishPreviewToken before scopeEnv' caller reviewed) :
    selection.map PendingChange.id = reviewed.map PendingChange.id := by
  have environments := congrArg PreviewToken.environments same
  simp only [publishPreviewToken, single, map_cons, map_nil] at environments
  match shape : selectionEnvs reviewed with
  | [] =>
    rw [shape] at environments
    cases environments
  | _ :: _ :: _ =>
    rw [shape] at environments
    simpa using congrArg length environments
  | [other] =>
    rw [shape] at environments
    have preview := head_eq_of_cons_eq environments
    have changes := congrArg PreviewEnvironment.changes preview
    have sameEnv : env = other := congrArg PreviewEnvironment.env preview
    simp only [previewEnvironment, appliesTo_single single, appliesTo_single shape] at changes
    have versions := congrArg (map PreviewChange.versionID) changes
    rw [map_map, map_map] at versions
    exact versions

theorem approves_reviewed {now : Time} {live : ApprovalRequest} {bypass : Bool}
    {ids closed : List VersionID} {index : GroupIndex}
    (stored : live ∈ (run server history).requests)
    (approves : Approves (run server history) caller scopeEnv selection now live bypass env policy)
    (selects : planSelection (run server history) caller ids = .ok (index, selection, closed)) :
    ReviewedIn server history live selection := by
  obtain ⟨reviewed, past, action, before, opened, first⟩ := run_reviewed history live stored
  suffices same : selection = reviewed by
    subst same
    exact ⟨past, action, before, opened, first⟩
  obtain ⟨_, _, _, _, _, -, planned, digest⟩ := opened
  have proposer := approves.bound.proposer
  have versions := versions_of_digest approves.single
    ((approves.bound.reviewed.trans digest).trans (by rw [proposer]))
  refine eq_of_map_eq versions fun change mem row inReviewed sameID => ?_
  exact draft_unique ((prefix_append _ _).trans before) (planSelection_own selects change mem).1
    (planSelection_own planned row inReviewed).1 sameID

end Digest

def Quorum (db : ProjectDB) (policy : ApprovalPolicy) (live : ApprovalRequest) : Prop :=
  ∃ approvers : List PrincipalID, approvers.Nodup ∧ policy.minApprovals ≤ approvers.length ∧
    ∀ approver ∈ approvers, (⟨live.id, approver, .approve⟩ : ApprovalVote) ∈ db.votes ∧
      approverEligible db.directory policy.approvers approver = true ∧
      (approver, live.env) ∈ db.directory.voters ∧
      (approver = live.requester → policy.allowSelfApproval = true)

theorem quorum_of_count {live : ApprovalRequest} (ok : WellFormed db)
    (enough : policy.minApprovals ≤ countEligibleApprovals db policy live) :
    Quorum db policy live := by
  refine ⟨_, countedVoters_nodup ok.approvals.ballots, ?_,
    fun approver mem => mem_countedVoters.mp mem⟩
  rw [countedVoters, length_map]
  exact enough

theorem no_rejection {live : ApprovalRequest} (ok : WellFormed db) (stored : live ∈ db.requests)
    (active : live.state.isActive = true) :
    ∀ vote ∈ db.votes, vote.requestID = live.id → vote.decision ≠ .reject := by
  intro vote cast same reject
  have resolved := ok.approvals.rejected vote cast reject live stored same.symm
  rw [active] at resolved
  cases resolved

end Hikyo.Project
