import Hikyo.Access.Authorize

/-!
# Which grants a decision looks at

`authorize_tenant_isolation`: two states whose grant rows agree on what is at or above the targets
of an operation's atoms decide the operation alike, and a decision that was positive stays so when
grants are added.  The atoms of an operation lie in the chain of its scope
(`Relevant.covers_scope`), so that the grants of another organisation or project never count.
-/

namespace Hikyo.Access

open Hikyo.Lib List

variable {f : Formula} {g : Grant} {op : Operation} {proof : Proof} {scope : Scope}

/-- A grant at or above the target of one of the atoms of the operation. -/
def Relevant (op : Operation) (scope : Scope) (g : Grant) : Prop :=
  ∃ atom ∈ (spec op).formula, covers g.scope (scope.truncate atom.at_) = true

def AgreeOn (looked : Grant → Prop) (held other : List Grant) : Prop :=
  ∀ g, looked g → (g ∈ held ↔ g ∈ other)

def Db.withGrants (db : Db) (rows : List GrantRow) : Db := { db with grants := rows }

section Agreement
variable {held other : List Grant}

theorem Relevant.covers_scope (looked : Relevant op scope g) : covers g.scope scope = true := by
  obtain ⟨atom, _, above⟩ := looked
  exact covers_trans above (truncate_covers scope atom.at_)

theorem relevant_of_instance (atInstance : g.scope.org = none) : Relevant op scope g := by
  obtain ⟨atom, _, shape⟩ := exists_cons_of_ne_nil (formula_ne_nil op)
  exact ⟨atom, shape ▸ .head _, (covers_iff _ _).mpr (.inl atInstance)⟩

theorem evaluate_congr {chain : Scope}
    (agree : ∀ atom ∈ f, AgreeOn (fun g => covers g.scope (chain.truncate atom.at_) =
      true) held other) :
    evaluate f chain held = evaluate f chain other := by
  rw [Bool.eq_iff_iff, evaluate_iff, evaluate_iff]
  refine forall_congr' fun atom => forall_congr' fun mem => ?_
  constructor
  · rintro ⟨g, inHeld, same, above⟩
    exact ⟨g, (agree atom mem g above).mp inHeld, same, above⟩
  · rintro ⟨g, inOther, same, above⟩
    exact ⟨g, (agree atom mem g above).mpr inOther, same, above⟩

theorem AgreeOn.evaluate_formula (agree : AgreeOn (Relevant op scope) held other) :
    evaluate (spec op).formula scope held = evaluate (spec op).formula scope other :=
  evaluate_congr fun atom mem g above => agree g ⟨atom, mem, above⟩

theorem AgreeOn.evaluate_at_instance (agree : AgreeOn (Relevant op scope) held other)
    (atNone : ∀ atom ∈ f, atom.at_ = .none) (chain : Scope) :
    evaluate f chain held = evaluate f chain other := by
  refine evaluate_congr fun atom mem g above => agree g (relevant_of_instance ?_)
  rw [atNone atom mem] at above
  exact covers_zero above

theorem isSelfConfigScope_congr (db : Db) (rows : List GrantRow)
    (satisfied : evaluate (spec op).formula scope held = true)
    (satisfied' : evaluate (spec op).formula scope other = true) (chain : Scope) :
    isSelfConfigScope (db.withGrants rows) other chain = isSelfConfigScope db held chain := by
  unfold isSelfConfigScope
  rw [isEmpty_of_evaluate satisfied, isEmpty_of_evaluate satisfied']
  rfl

theorem selfConfigProfile_congr (db : Db) (rows : List GrantRow) (class_ : Option PrincipalClass)
    (agree : AgreeOn (Relevant op scope) held other)
    (satisfied : evaluate (spec op).formula scope held = true) :
    selfConfigProfile (db.withGrants rows) class_ op scope other =
      selfConfigProfile db class_ op scope held := by
  have satisfied' : evaluate (spec op).formula scope other = true :=
    agree.evaluate_formula ▸ satisfied
  unfold selfConfigProfile
  rw [isSelfConfigScope_congr db rows satisfied satisfied',
    agree.evaluate_at_instance (selfConfigFormula_at_none op) scope]

end Agreement

section Decision
variable {db : Db} {rows : List GrantRow} {caller : Identity}

theorem authorizeTenant_congr (agree : AgreeOn (Relevant op scope) (db.grantsOf caller.principal)
      ((db.withGrants rows).grantsOf caller.principal)) :
    authorizeTenant (db.withGrants rows) caller op scope = authorizeTenant db caller op scope := by
  unfold authorizeTenant
  rw [show (db.withGrants rows).resolveChain scope = db.resolveChain scope from rfl]
  cases scope.level with
  | none => rfl
  | some =>
    refine bind_congr fun _ => ?_
    cases found : db.resolveChain scope with
    | error => rfl
    | ok =>
      cases resolveChain_eq found
      simp only [ok_bind]
      rw [← agree.evaluate_formula]
      -- Only a satisfied formula lets the later gates read the grants at all.
      cases satisfied : evaluate (spec op).formula scope (db.grantsOf caller.principal) with
      | false => rfl
      | true =>
        refine bind_congr fun _ => ?_
        unfold tenantGates
        rw [selfConfigProfile_congr db rows caller.class_ agree satisfied]
        rfl

theorem authorizeInstance_congr (agree : AgreeOn (Relevant op .zero) (db.grantsOf caller.principal)
      ((db.withGrants rows).grantsOf caller.principal)) :
    authorizeInstance (db.withGrants rows) caller op = authorizeInstance db caller op := by
  have config : ∀ atom ∈ ([⟨.instanceConfig, .none⟩] : Formula), atom.at_ = .none := by simp
  unfold authorizeInstance
  dsimp only
  rw [agree.evaluate_formula, agree.evaluate_at_instance config .zero]

theorem authorize_congr (contract : Contract)
      (agree : AgreeOn (Relevant op scope) (db.grantsOf caller.principal)
      ((db.withGrants rows).grantsOf caller.principal)) :
    authorize contract (db.withGrants rows) caller op scope =
      authorize contract db caller op scope := by
  unfold authorize
  rw [authorizeTenant_congr agree]
  cases (spec op).class_ with
  | tenant => rfl
  | instanceWide =>
    dsimp only
    split
    · rfl
    split
    · rfl
    rename_i atZero
    cases not_not.mp atZero
    exact authorizeInstance_congr agree

theorem selfConfigProfile_mono (db : Db) (rows : List GrantRow) (class_ : Option PrincipalClass)
    {held more : List Grant} (kept : ∀ g ∈ held, g ∈ more)
    (satisfied : evaluate (spec op).formula scope held = true) :
    (selfConfigProfile (db.withGrants rows) class_ op scope more).1 =
      (selfConfigProfile db class_ op scope held).1 ∧
      ((selfConfigProfile db class_ op scope held).2 = true →
        (selfConfigProfile (db.withGrants rows) class_ op scope more).2 = true) := by
  unfold selfConfigProfile
  rw [isSelfConfigScope_congr db rows satisfied (evaluate_mono kept satisfied)]
  split
  · refine ⟨rfl, fun permitted => ?_⟩
    simp only [Bool.and_eq_true] at permitted ⊢
    exact ⟨permitted.1, evaluate_mono kept permitted.2⟩
  · exact ⟨rfl, id⟩

theorem tenantGates_mono {held more : List Grant} (kept : ∀ g ∈ held, g ∈ more)
    (satisfied : evaluate (spec op).formula scope held = true)
    (gates : tenantGates db caller op scope held = .ok proof) :
    tenantGates (db.withGrants rows) caller op scope more = .ok proof := by
  obtain ⟨sameProfile, permits⟩ := selfConfigProfile_mono db rows caller.class_ kept satisfied
  rw [tenantGates_eq_ok] at gates ⊢
  rw [sameProfile]
  obtain ⟨notProtected, permitted, enabled, assured, shape⟩ := gates
  exact ⟨notProtected, permits permitted, enabled, assured, shape⟩

section
variable (kept : ∀ g ∈ db.grantsOf caller.principal, g ∈ (db.withGrants rows).grantsOf
  caller.principal)
include kept

theorem authorizeTenant_mono (allowed : authorizeTenant db caller op scope = .ok proof) :
    authorizeTenant (db.withGrants rows) caller op scope = .ok proof := by
  rw [authorizeTenant_eq_ok] at allowed ⊢
  obtain ⟨depth, found, satisfied, gates⟩ := allowed
  exact ⟨depth, found, evaluate_mono kept satisfied, tenantGates_mono kept satisfied gates⟩

theorem authorizeInstance_mono (allowed : authorizeInstance db caller op = .ok proof) :
    ∃ proof', authorizeInstance (db.withGrants rows) caller op = .ok proof' := by
  obtain ⟨person, satisfied, assured, _⟩ := authorizeInstance_eq_ok.mp allowed
  exact ⟨_, authorizeInstance_eq_ok.mpr ⟨person, evaluate_mono kept satisfied, assured, rfl⟩⟩

theorem authorize_mono {contract : Contract}
    (allowed : authorize contract db caller op scope = .ok proof) :
    ∃ proof', authorize contract (db.withGrants rows) caller op scope = .ok proof' := by
  unfold authorize at *
  cases class_ : (spec op).class_ with
  | tenant =>
    rw [class_] at allowed
    obtain ⟨within, allowed⟩ := unless_eq_ok.mp allowed
    rw [if_neg within]
    exact ⟨proof, authorizeTenant_mono kept allowed⟩
  | instanceWide =>
    rw [class_] at allowed
    dsimp only at allowed ⊢
    obtain ⟨within, allowed⟩ := unless_eq_ok.mp allowed
    rw [if_neg within]
    obtain ⟨atZero, allowed⟩ := unless_eq_ok.mp allowed
    rw [if_neg atZero]
    exact authorizeInstance_mono kept allowed

end

end Decision

/-- Tenant isolation: a decision is a function of the grants above its targets, and monotone in
them. -/
theorem authorize_tenant_isolation (contract : Contract) (db : Db) (rows : List GrantRow)
    (caller : Identity) (op : Operation) (scope : Scope) :
    (AgreeOn (Relevant op scope) (db.grantsOf caller.principal)
        ((db.withGrants rows).grantsOf caller.principal) →
      authorize contract (db.withGrants rows) caller op scope =
        authorize contract db caller op scope) ∧
    (AgreeOn (fun g => covers g.scope scope = true) (db.grantsOf caller.principal)
        ((db.withGrants rows).grantsOf caller.principal) →
      authorize contract (db.withGrants rows) caller op scope =
        authorize contract db caller op scope) ∧
    ((∀ g ∈ db.grantsOf caller.principal, g ∈ (db.withGrants rows).grantsOf caller.principal) →
      (authorize contract db caller op scope).isOk = true →
      (authorize contract (db.withGrants rows) caller op scope).isOk = true) := by
  refine ⟨authorize_congr contract, fun agree => ?_, fun kept allowed => ?_⟩
  · exact authorize_congr contract fun g looked => agree g looked.covers_scope
  · cases decision : authorize contract db caller op scope with
    | error =>
      rw [decision] at allowed
      cases allowed
    | ok =>
      obtain ⟨_, allowed'⟩ := authorize_mono kept decision
      rw [allowed']
      rfl

def twoProjects : Db where
  orgs := [1]
  projects := [⟨1, 1, false⟩, ⟨2, 1, false⟩]
  environments := [⟨1, 1, 1, false⟩, ⟨2, 1, 2, true⟩]
  principals := [⟨1, some .human, .active, 0, 0⟩]
  accounts := [⟨1, 1⟩]
  serviceAccounts := []
  pins := []
  sessions := []
  grants := [⟨1, 1, ⟨.read, ⟨some 1, some 1, some 1⟩⟩, [.breakGlass]⟩]
  selfConfigOrg := none
  restoreEpoch := 0
  nextGrant := 2

def localContract : Contract := ⟨false, fun _ => false⟩

def human (p : PrincipalID) : Identity := ⟨p, some .human, none, []⟩

theorem twoProjects_isolated :
    let rows := twoProjects.grants ++
      [⟨2, 1, ⟨.manageMembers, ⟨some 1, some 2, none⟩⟩, [.breakGlass]⟩]
    authorize localContract (twoProjects.withGrants rows)
        (human 1) .grantCreateProject ⟨some 1, some 1, none⟩ =
        authorize localContract twoProjects (human 1) .grantCreateProject ⟨some 1, some 1, none⟩ ∧
      (authorize localContract (twoProjects.withGrants rows) (human 1) .valueRead
        ⟨some 1, some 1, some 1⟩).isOk = true := by
  intro rows
  constructor
  · refine (authorize_tenant_isolation localContract twoProjects rows (human 1) .grantCreateProject
      ⟨some 1, some 1, none⟩).1 fun g looked => ?_
    have foreign : ¬ Relevant .grantCreateProject ⟨some 1, some 1, none⟩
        ⟨.manageMembers, ⟨some 1, some 2, none⟩⟩ := by
      rintro ⟨_, mem, above⟩
      cases mem_singleton.mp mem
      cases above
    have added : (twoProjects.withGrants rows).grantsOf (human 1).principal =
        twoProjects.grantsOf (human 1).principal ++ [⟨.manageMembers, ⟨some 1, some 2, none⟩⟩] :=
          rfl
    rw [added, mem_append, mem_singleton]
    exact ⟨.inl, fun held => held.resolve_right fun same => foreign (same ▸ looked)⟩
  · refine (authorize_tenant_isolation localContract twoProjects rows (human 1) .valueRead
      ⟨some 1, some 1, some 1⟩).2.2 ?_ (by decide)
    decide

end Hikyo.Access
