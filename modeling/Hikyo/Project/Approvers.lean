import Mathlib.Data.Set.Card
import Hikyo.Project.ApprovalSpec

/-!
# Who counts as an approver

`approverEligible` asks for the user resource of the principal's account in the binding of each
named group.  An account may own several there, the lookup returns one of them, and nothing fixes
which.  `eligibility_exact_iff` says for which directories the answer, and with it the number of
counted approvals, is exact whichever row is returned: where an account has a resource that counts,
all of its resources in one of the bindings do.
-/

namespace Hikyo.Project

open List

section Eligible
variable (directory : Directory) (approvers : List Approver)

def Eligible (principal : PrincipalID) : Prop :=
  .principal principal ∈ approvers ∨ ∃ account, directory.accounts.lookup principal = some account ∧
    ∃ group binding, .scimGroup group binding ∈ approvers ∧
      ∃ user ∈ directory.scimUsers, user.binding = binding ∧ user.account = account ∧
        user.active = true ∧ ⟨binding, group, user.id⟩ ∈ directory.memberships

/-- The resource is active and a member of a named group of its binding. -/
def Counts (user : SCIMUser) : Prop :=
  user.active = true ∧ ∃ group, .scimGroup group user.binding ∈ approvers ∧
    ⟨user.binding, group, user.id⟩ ∈ directory.memberships

/-- Where a resource of the account counts, there is a binding in which the account has resources
and all of them count. -/
def Unanimous (account : Nat) : Prop :=
  ∀ user ∈ directory.scimUsers, user.account = account → Counts directory approvers user →
    ∃ first ∈ directory.scimUsers, first.account = account ∧
      ∀ other ∈ directory.scimUsers, other.binding = first.binding → other.account = account →
        Counts directory approvers other

/-- The same directory, with the rows of the user resources in another order. -/
def Directory.reordered (users : List SCIMUser) : Directory := { directory with scimUsers := users }

end Eligible

section Exact
variable {directory : Directory} {approvers : List Approver} {principal : PrincipalID}
  {users : List SCIMUser}

theorem eligible_iff : Eligible directory approvers principal ↔ .principal principal ∈ approvers ∨
    ∃ account, directory.accounts.lookup principal = some account ∧
      ∃ user ∈ directory.scimUsers, user.account = account ∧ Counts directory approvers user := by
  refine or_congr_right (exists_congr fun account => and_congr_right fun _ => ?_)
  constructor
  · rintro ⟨group, _, named, user, mem, rfl, own, active, member⟩
    exact ⟨user, mem, own, active, group, named, member⟩
  · rintro ⟨user, mem, own, active, group, named, member⟩
    exact ⟨group, user.binding, named, user, mem, rfl, own, active, member⟩

theorem approverEligible_eq_true : approverEligible directory approvers principal = true ↔
    .principal principal ∈ approvers ∨
      ∃ account, directory.accounts.lookup principal = some account ∧ ∃ binding user,
        (directory.scimUsers.find? fun user => user.binding == binding && user.account == account) =
          some user ∧ Counts directory approvers user := by
  rw [approverEligible, Bool.or_eq_true, contains_iff_mem]
  refine or_congr_right ?_
  cases directory.accounts.lookup principal with
  | none => simp
  | some account =>
    simp only [any_eq_true, Option.some.injEq, exists_eq_left']
    constructor
    · rintro ⟨approver, named, found⟩
      cases approver with
      | principal => cases found
      | scimGroup group binding =>
        dsimp only at found
        split at found
        · cases found
        · next user located =>
          obtain ⟨rfl, -⟩ : user.binding = binding ∧ user.account = account := by
            simpa using find?_some located
          obtain ⟨active, member⟩ := Bool.and_eq_true_iff.mp found
          exact ⟨user.binding, user, located, active, group, named, by simpa using member⟩
    · rintro ⟨binding, user, located, active, group, named, member⟩
      obtain ⟨rfl, -⟩ : user.binding = binding ∧ user.account = account := by
        simpa using find?_some located
      exact ⟨.scimGroup group user.binding, named, by simp [located, active, member]⟩

theorem approverEligible_reordered (order : users ~ directory.scimUsers)
    (unanimous : .principal principal ∉ approvers →
      ∀ account ∈ directory.accounts.lookup principal, Unanimous directory approvers account) :
    approverEligible (directory.reordered users) approvers principal = true ↔
      Eligible directory approvers principal := by
  rw [approverEligible_eq_true, eligible_iff]
  constructor
  · refine Or.imp_right ?_
    rintro ⟨account, owner, binding, user, located, counts⟩
    obtain ⟨-, own⟩ : user.binding = binding ∧ user.account = account := by
      simpa using find?_some located
    exact ⟨account, owner, user, order.mem_iff.mp (mem_of_find?_eq_some located), own, counts⟩
  · by_cases named : .principal principal ∈ approvers
    · exact fun _ => .inl named
    refine Or.imp_right ?_
    rintro ⟨account, owner, user, mem, own, counts⟩
    obtain ⟨first, isFirst, firstOwn, all⟩ := unanimous named account owner user mem own counts
    -- the lookup finds some resource in the binding, and each of them counts
    have some_ : (users.find? fun user =>
        user.binding == first.binding && user.account == account).isSome = true :=
      find?_isSome.mpr ⟨first, order.mem_iff.mpr isFirst, by simp [firstOwn]⟩
    obtain ⟨found, located⟩ := Option.isSome_iff_exists.mp some_
    obtain ⟨sameBinding, sameAccount⟩ : found.binding = first.binding ∧
        found.account = account := by
      simpa using find?_some located
    exact ⟨account, owner, first.binding, found, located,
      all found (order.mem_iff.mp (mem_of_find?_eq_some located)) sameBinding sameAccount⟩

/-- An order of the rows that returns a resource that does not count wherever there is one. -/
theorem unanimous_of_exact {account : Nat}
    (owner : directory.accounts.lookup principal = some account)
    (unnamed : .principal principal ∉ approvers) (exact_ : ∀ users, users ~ directory.scimUsers →
      Eligible directory approvers principal →
      approverEligible (directory.reordered users) approvers principal = true) :
    Unanimous directory approvers account := by
  classical
  intro user mem own counts
  by_contra split_
  push Not at split_
  have eligible : Eligible directory approvers principal :=
    eligible_iff.mpr (.inr ⟨account, owner, user, mem, own, counts⟩)
  have taken :=
    exact_ _ (filter_append_perm (fun user => ¬ Counts directory approvers user) _) eligible
  rcases approverEligible_eq_true.mp taken with named | ⟨_, owner', _, found, located, counts'⟩
  · exact unnamed named
  cases owner.symm.trans owner'
  obtain ⟨rfl, sameAccount⟩ := by simpa using find?_some located
  have isRow : found ∈ directory.scimUsers :=
    (filter_append_perm _ _).mem_iff.mp (mem_of_find?_eq_some located)
  obtain ⟨other, isOther, sameBinding, otherOwn, uncounted⟩ := split_ found isRow sameAccount
  -- the rows that do not count come first, and `other` is one of them
  have early : ((directory.scimUsers.filter fun user => ¬ Counts directory approvers user).find?
      fun user => user.binding == found.binding && user.account == account).isSome = true :=
    find?_isSome.mpr ⟨other, mem_filter.mpr ⟨isOther, decide_eq_true uncounted⟩,
      by simp [sameBinding, otherOwn]⟩
  obtain ⟨first, isFirst⟩ := Option.isSome_iff_exists.mp early
  have same : first = found := by
    rw [Directory.reordered, find?_append, isFirst] at located
    exact Option.some.inj located
  have uncounted' := (mem_filter.mp (mem_of_find?_eq_some isFirst)).2
  exact of_decide_eq_true uncounted' (same ▸ counts')

end Exact

def approving (db : ProjectDB) (policy : ApprovalPolicy) (request : ApprovalRequest) :
    Set PrincipalID :=
  Set.ofPred fun principal => (⟨request.id, principal, .approve⟩ : ApprovalVote) ∈ db.votes ∧
    Eligible db.directory policy.approvers principal ∧
    (principal, request.env) ∈ db.directory.voters ∧
    (principal = request.requester → policy.allowSelfApproval = true)

/-- Eligibility, and with it the count of the approvals, is exact whichever rows the lookups return,
exactly where the accounts of the principals that are not named directly are unanimous. -/
theorem eligibility_exact_iff (db : ProjectDB) (policy : ApprovalPolicy) (request : ApprovalRequest)
    (ballots : (db.votes.map fun vote => (vote.requestID, vote.principal)).Nodup) :
    (∀ users, users ~ db.directory.scimUsers →
      (∀ principal, approverEligible (db.directory.reordered users) policy.approvers principal =
        true ↔ Eligible db.directory policy.approvers principal) ∧
      countEligibleApprovals { db with directory := db.directory.reordered users } policy request =
        (approving db policy request).ncard) ↔
      ∀ principal, .principal principal ∉ policy.approvers →
        ∀ account ∈ db.directory.accounts.lookup principal,
          Unanimous db.directory policy.approvers account := by
  constructor
  · intro exact_ principal unnamed account owner
    exact unanimous_of_exact owner unnamed fun users order => ((exact_ users order).1 principal).mpr
  · intro unanimous users order
    have exact_ (principal : PrincipalID) := approverEligible_reordered order (unanimous principal)
    refine ⟨exact_, ?_⟩
    have voters : approving db policy request =
        ((countedVoters { db with directory := db.directory.reordered users } policy
          request).toFinset : Set PrincipalID) := by
      ext principal
      simp only [coe_toFinset, Set.mem_ofPred_eq, mem_countedVoters, ← exact_, approving]
      rfl
    rw [voters, Set.ncard_coe_finset, toFinset_card_of_nodup, countedVoters, length_map]
    · rfl
    · exact countedVoters_nodup ballots

def directoryOf (users : List SCIMUser) (mem : Nat) : ProjectDB :=
  { ProjectDB.empty with
    votes := [⟨1, 7, .approve⟩]
    directory := ⟨[(7, 4)], users, [⟨2, 3, mem⟩], [(7, 5)], [], []⟩ }

def groupPolicy : ApprovalPolicy := ⟨1, none, 1, false, 60, true, 1, [.scimGroup 3 2], []⟩

def groupRequest : ApprovalRequest := ⟨1, 5, 1, 1, 9, [], [], [], ⟨5, 0, []⟩, 0, .opened, 0, 60⟩

/-- The account has a second resource, in the binding of no named group. -/
def soleResource : ProjectDB := directoryOf [⟨11, 2, 4, true⟩, ⟨12, 8, 4, false⟩] 11

theorem soleResource_counts :
    countEligibleApprovals soleResource groupPolicy groupRequest = 1 ∧
      (approving soleResource groupPolicy groupRequest).ncard = 1 := by
  have unanimous (principal : PrincipalID) : .principal principal ∉ groupPolicy.approvers →
      ∀ account ∈ soleResource.directory.accounts.lookup principal,
        Unanimous soleResource.directory groupPolicy.approvers account := by
    rintro - account owner _ - own -
    refine ⟨⟨11, 2, 4, true⟩, by decide, ?_, fun other mem same _ => ?_⟩
    · simp only [soleResource, directoryOf, lookup_cons] at owner
      split at owner <;> simp_all
    · rcases mem_cons.mp mem with rfl | later
      · exact ⟨rfl, 3, by decide, by decide⟩
      · cases mem_singleton.mp later
        cases same
  have counted := ((eligibility_exact_iff soleResource groupPolicy groupRequest
    (by decide)).mpr unanimous _ (.refl _)).2
  exact ⟨by decide, counted.symm.trans (by decide)⟩

theorem secondResource_overlooked :
    Eligible (directoryOf [⟨10, 2, 4, false⟩, ⟨11, 2, 4, true⟩] 11).directory
      groupPolicy.approvers 7 ∧
      approverEligible (directoryOf [⟨10, 2, 4, false⟩, ⟨11, 2, 4, true⟩] 11).directory
        groupPolicy.approvers 7 = false :=
  ⟨.inr ⟨4, by decide, 3, 2, by decide, ⟨11, 2, 4, true⟩, by decide, rfl, rfl, rfl, by decide⟩,
    by decide⟩

end Hikyo.Project
