import Hikyo.Access.Store

/-!
# The authorization chokepoint

`authorize` decides one operation for one caller: the scope resolves to its chain, the operation's
formula over the grants of the caller holds, and the gates on sessions, service accounts and
protected environments let it through.  `callerHolds` is the preview that other surfaces consult,
written apart from it.  `authorizeTenant_eq_ok` and `authorizeInstance_eq_ok` say once what a
positive decision has checked, and `evaluate_mono` that a formula asks for no absence.
-/

namespace Hikyo.Access

open Hikyo.Lib

inductive Factor
  | password
  | totp
  | webauthn
  | oidc
  | saml
deriving DecidableEq

structure Identity where
  principal : PrincipalID
  class_ : Option PrincipalClass
  sessionID : Option SessionID
  factors : List Factor

/-- What the transport and the API contract say about the instance credential. -/
structure Contract where
  network : Bool
  admitsInstanceCredential : Operation → Bool

def adequateAssurance (factors : List Factor) : Bool :=
  factors.contains .webauthn || decide (2 ≤ factors.dedup.length)

structure Proof where
  op : Operation
  chain : Scope
  selfConfig : Bool
  selfConfigAdmin : Bool
deriving DecidableEq

def evaluate (f : Formula) (chain : Scope) (grants : List Grant) : Bool :=
  f.all fun atom => coveredBy grants atom.cap (chain.truncate atom.at_)

def assuranceInadequate (caller : Identity) (op : Operation) : Bool :=
  caller.sessionID.isSome && formulaDemandsMFA op && !adequateAssurance caller.factors

/-- The marker rides on the grant rows, so a principal without rows never sees it. -/
def isSelfConfigScope (db : Db) (grants : List Grant) (chain : Scope) : Bool :=
  !grants.isEmpty && db.selfConfigOrg.isSome && chain.org == db.selfConfigOrg

def isPerson (class_ : Option PrincipalClass) : Bool := class_ == none || class_ == some .human

def selfConfigProfile (db : Db) (class_ : Option PrincipalClass) (op : Operation) (chain : Scope)
    (grants : List Grant) : Bool × Bool :=
  if isSelfConfigScope db grants chain then
    (true, isPerson class_ && selfConfigOperations op &&
      evaluate (selfConfigFormula op) chain grants)
  else (false, op != .selfConfigApply && op != .selfConfigTest)

def selfConfigSessionEligible (caller : Identity) : Bool :=
  isPerson caller.class_ && (caller.sessionID.isNone || adequateAssurance caller.factors)

def demandsReveal (f : Formula) : Bool :=
  f.any fun atom => atom.cap == .reveal || atom.cap == .revealHistory

/-- A service account reaches plaintext only under the project's opt-in, read live. -/
def machineRevealWithdrawn (db : Db) (caller : Identity) (f : Formula) (chain : Scope) : Bool :=
  isServiceAccountKind caller.class_ &&
  match chain.project with
  | none => false
  | some project => demandsReveal f && !db.machineRevealEnabled project

def protectedDelete (db : Db) (caller : Identity) (op : Operation) (chain : Scope) : Bool :=
  isServiceAccountKind caller.class_ && op == .envDelete &&
  match chain.env.bind db.environment? with
  | none => true
  | some settings => settings.protected_

def tenantGates (db : Db) (caller : Identity) (op : Operation) (chain : Scope)
    (grants : List Grant) :
    Except Error Proof := do
  require (protectedDelete db caller op chain = false) .notFound
  let (protected_, permitted) := selfConfigProfile db caller.class_ op chain grants
  require (permitted = true) .notFound
  require (machineRevealWithdrawn db caller (spec op).formula chain = false) .notFound
  require (¬ (assuranceInadequate caller op ∨
    protected_ ∧ caller.sessionID.isSome ∧ ¬ adequateAssurance caller.factors)) .unauthorized
  pure ⟨op, chain, protected_, false⟩

def authorizeTenant (db : Db) (caller : Identity) (op : Operation) (scope : Scope) :
    Except Error Proof := do
  match scope.level with
  | none => .error .scopeGap
  | some level =>
    require (level = (spec op).level) .wrongDepth
    let chain ← db.resolveChain scope
    let grants := db.grantsOf caller.principal
    require (evaluate (spec op).formula chain grants = true) .notFound
    tenantGates db caller op chain grants

def authorizeInstance (db : Db) (caller : Identity) (op : Operation) : Except Error Proof := do
  require (¬ ((op = .selfConfigStatus ∨ op = .selfConfigAdopt ∨ op = .selfConfigPreview) ∧
    ¬ isPerson caller.class_)) .unauthorized
  let grants := db.grantsOf caller.principal
  require (evaluate (spec op).formula .zero grants = true) .unauthorized
  require (assuranceInadequate caller op = false) .unauthorized
  pure ⟨op, .zero, false,
    selfConfigSessionEligible caller && evaluate [⟨.instanceConfig, .none⟩] .zero grants⟩

def outsideContract (contract : Contract) (caller : Identity) (op : Operation) : Bool :=
  !contract.network && caller.class_ == some .instanceConn && !contract.admitsInstanceCredential op

def authorize (contract : Contract) (db : Db) (caller : Identity) (op : Operation) (scope : Scope) :
    Except Error Proof :=
  match (spec op).class_ with
  | .tenant =>
    if outsideContract contract caller op then .error .notFound
    else authorizeTenant db caller op scope
  | .instanceWide =>
    if outsideContract contract caller op then .error .unauthorized
    else if scope ≠ .zero then .error .tenantScope
    else authorizeInstance db caller op

def callerHolds (db : Db) (caller : Identity) (op : Operation) (scope : Scope) :
    Except Error Bool :=
  match db.resolveChain scope with
  | .error .notFound => .ok false
  | .error e => .error e
  | .ok chain =>
    let grants := db.grantsOf caller.principal
    -- The evaluation of a recorded principal knows no class.
    let permitted := (selfConfigProfile db none op chain grants).2
    if !(permitted && evaluate (spec op).formula chain grants) then .ok false
    else if isSelfConfigScope db grants chain && !selfConfigSessionEligible caller then .ok false
    else .ok (!assuranceInadequate caller op)

variable {chain scope : Scope} {grants : List Grant} {op : Operation} {db : Db} {caller : Identity}
  {proof : Proof}

theorem evaluate_iff {f : Formula} : evaluate f chain grants = true ↔
      ∀ atom ∈ f, ∃ g ∈ grants, g.capability = atom.cap ∧ covers g.scope
        (chain.truncate atom.at_) = true := by
  simp [evaluate, coveredBy_iff]

theorem evaluate_mono {f : Formula} {held more : List Grant} (kept : ∀ g ∈ held, g ∈ more)
    (satisfied : evaluate f chain held = true) : evaluate f chain more = true := by
  rw [evaluate_iff] at *
  intro atom mem
  obtain ⟨g, inHeld, same, above⟩ := satisfied atom mem
  exact ⟨g, kept g inHeld, same, above⟩

theorem isEmpty_of_evaluate
    (satisfied : evaluate (spec op).formula chain grants = true) : grants.isEmpty = false := by
  obtain ⟨atom, _, shape⟩ := List.exists_cons_of_ne_nil (formula_ne_nil op)
  obtain ⟨_, mem, _⟩ := evaluate_iff.mp satisfied atom (shape ▸ .head _)
  cases grants with
  | nil => cases mem
  | cons => rfl

theorem resolveChain_eq (found : db.resolveChain scope = .ok chain) : chain = scope := by
  unfold Db.resolveChain at found
  split at found
  all_goals first
    | (split at found <;> cases found; rfl)
    | cases found

theorem tenantGates_eq_ok : tenantGates db caller op chain grants = .ok proof ↔
      protectedDelete db caller op chain = false ∧
        (selfConfigProfile db caller.class_ op chain grants).2 = true ∧
      machineRevealWithdrawn db caller (spec op).formula chain = false ∧
      ¬ (assuranceInadequate caller op ∨ (selfConfigProfile db caller.class_ op chain grants).1 ∧
        caller.sessionID.isSome ∧ ¬ adequateAssurance caller.factors) ∧
      proof = ⟨op, chain, (selfConfigProfile db caller.class_ op chain grants).1, false⟩ := by
  unfold tenantGates
  rw [require_bind_eq_ok, require_bind_eq_ok, require_bind_eq_ok, require_bind_eq_ok]
  simp only [pure, Except.pure, Except.ok.injEq, eq_comm]

theorem authorizeTenant_eq_ok : authorizeTenant db caller op scope = .ok proof ↔
      scope.level = some (spec op).level ∧ db.resolveChain scope = .ok scope ∧
      evaluate (spec op).formula scope (db.grantsOf caller.principal) = true ∧
      tenantGates db caller op scope (db.grantsOf caller.principal) = .ok proof := by
  unfold authorizeTenant
  cases depth : scope.level with
  | none => simp
  | some =>
    rw [require_bind_eq_ok, Option.some.injEq, bind_eq_ok]
    refine and_congr_right fun _ => ?_
    constructor
    · rintro ⟨_, found, rest⟩
      cases resolveChain_eq found
      exact ⟨found, require_bind_eq_ok.mp rest⟩
    · rintro ⟨found, rest⟩
      exact ⟨scope, found, require_bind_eq_ok.mpr rest⟩

theorem authorizeInstance_eq_ok : authorizeInstance db caller op = .ok proof ↔
      ¬ ((op = .selfConfigStatus ∨ op = .selfConfigAdopt ∨ op = .selfConfigPreview) ∧
        ¬ isPerson caller.class_) ∧
      evaluate (spec op).formula .zero (db.grantsOf caller.principal) = true ∧
        assuranceInadequate caller op = false ∧
      proof = ⟨op, .zero, false, selfConfigSessionEligible caller &&
        evaluate [⟨.instanceConfig, .none⟩] .zero (db.grantsOf caller.principal)⟩ := by
  unfold authorizeInstance
  rw [require_bind_eq_ok, require_bind_eq_ok, require_bind_eq_ok]
  simp only [pure, Except.pure, Except.ok.injEq, eq_comm]

theorem authorize_inForce {contract : Contract}
    (allowed : authorize contract db caller op scope = .ok proof) :
    db.rowsInForce caller.principal = true := by
  have satisfied : ∃ chain, evaluate (spec op).formula chain (db.grantsOf caller.principal) =
      true := by
    unfold authorize at allowed
    split at allowed
    · split at allowed
      · cases allowed
      · exact ⟨scope, (authorizeTenant_eq_ok.mp allowed).2.2.1⟩
    split at allowed
    · cases allowed
    split at allowed
    · cases allowed
    · exact ⟨.zero, (authorizeInstance_eq_ok.mp allowed).2.1⟩
  obtain ⟨_, satisfied⟩ := satisfied
  have held := isEmpty_of_evaluate satisfied
  unfold Db.grantsOf at held
  split at held
  · assumption
  · cases held

end Hikyo.Access
