import Hikyo.Access.Isolation

/-!
# The preview against the decision

`callerHolds` is meant to say what `authorize` would decide.  `callerHolds_agrees_iff` says that it
does, for every caller and tenant operation, exactly where the call is not `Overlooked`: for a
service account the decision has two refusals that the preview does not read, that of plaintext
without the project's opt-in and that of deleting a protected environment
(`machine_preview_refused`).
-/

namespace Hikyo.Access

open Hikyo.Lib List

variable {db : Db} {caller : Identity} {op : Operation} {scope : Scope}

/-- The refusals of a service account that the preview does not look at. -/
def Overlooked (db : Db) (caller : Identity) (op : Operation) (scope : Scope) : Prop :=
  isServiceAccountKind caller.class_ = true ∧ db.resolveChain scope = .ok scope ∧
  evaluate (spec op).formula scope (db.grantsOf caller.principal) = true ∧
  isSelfConfigScope db (db.grantsOf caller.principal) scope = false ∧
  op ≠ .selfConfigApply ∧ op ≠ .selfConfigTest ∧ assuranceInadequate caller op = false ∧
  (protectedDelete db caller op scope = true ∨
    machineRevealWithdrawn db caller (spec op).formula scope = true)

section Characterizations
theorem callerHolds_eq_true : callerHolds db caller op scope = .ok true ↔
      db.resolveChain scope = .ok scope ∧
      (selfConfigProfile db none op scope (db.grantsOf caller.principal)).2 = true ∧
      evaluate (spec op).formula scope (db.grantsOf caller.principal) = true ∧
      ¬ (isSelfConfigScope db (db.grantsOf caller.principal) scope = true ∧
        selfConfigSessionEligible caller = false) ∧ assuranceInadequate caller op = false := by
  unfold callerHolds
  cases found : db.resolveChain scope with
  | error e => cases e <;> simp
  | ok =>
    cases resolveChain_eq found
    simp only [true_and]
    split
    · rename_i refused
      simp only [Except.ok.injEq, Bool.false_eq_true, false_iff]
      rintro ⟨permitted, satisfied, _⟩
      simp [permitted, satisfied] at refused
    rename_i admitted
    simp only [Bool.not_eq_true', Bool.not_eq_false, Bool.and_eq_true] at admitted
    split
    · rename_i barred
      simp only [Bool.and_eq_true, Bool.not_eq_true'] at barred
      simp [barred]
    rename_i open_
    simp only [Bool.and_eq_true, Bool.not_eq_true'] at open_
    simp only [Except.ok.injEq, Bool.not_eq_true']
    exact ⟨fun assured => ⟨admitted.1, admitted.2, open_, assured⟩, fun all => all.2.2.2⟩

theorem authorizeTenant_isOk (depth : scope.level = some (spec op).level) :
    (∃ proof, authorizeTenant db caller op scope = .ok proof) ↔ db.resolveChain scope = .ok scope ∧
      evaluate (spec op).formula scope (db.grantsOf caller.principal) = true ∧
      protectedDelete db caller op scope = false ∧
      (selfConfigProfile db caller.class_ op scope (db.grantsOf caller.principal)).2 = true ∧
      machineRevealWithdrawn db caller (spec op).formula scope = false ∧
        ¬ (assuranceInadequate caller op = true ∨
        (selfConfigProfile db caller.class_ op scope (db.grantsOf caller.principal)).1 = true ∧
          caller.sessionID.isSome = true ∧ ¬ adequateAssurance caller.factors = true) := by
  simp only [authorizeTenant_eq_ok, tenantGates_eq_ok]
  constructor
  · rintro ⟨_, _, found, satisfied, notProtected, permitted, enabled, assured, _⟩
    exact ⟨found, satisfied, notProtected, permitted, enabled, assured⟩
  · rintro ⟨found, satisfied, notProtected, permitted, enabled, assured⟩
    exact ⟨_, depth, found, satisfied, notProtected, permitted, enabled, assured, rfl⟩

theorem gates_of_person (db : Db) (op : Operation) (scope : Scope)
    (person : isServiceAccountKind caller.class_ = false) :
    protectedDelete db caller op scope = false ∧
      machineRevealWithdrawn db caller (spec op).formula scope = false := by
  simp [protectedDelete, machineRevealWithdrawn, person]

theorem isPerson_of_serviceAccount (machine : isServiceAccountKind caller.class_ = true) :
    isPerson caller.class_ = false := by
  cases class_ : caller.class_ with
  | none => simp [isServiceAccountKind, class_] at machine
  | some kind => cases kind <;> simp_all [isServiceAccountKind, isPerson]

theorem isPerson_of_preview
    (kind : caller.class_ ∈ [none, some .human, some .workload, some .automation])
    (person : isServiceAccountKind caller.class_ = false) : isPerson caller.class_ = true := by
  simp only [mem_cons, not_mem_nil, or_false] at kind
  rcases kind with same | same | same | same <;> simp_all [isServiceAccountKind, isPerson]

theorem outsideContract_of_preview (contract : Contract)
    (kind : caller.class_ ∈ [none, some .human, some .workload, some .automation]) :
    outsideContract contract caller op = false := by
  simp only [mem_cons, not_mem_nil, or_false] at kind
  rcases kind with same | same | same | same <;> simp [outsideContract, same]

end Characterizations

section Agreement
theorem preview_person (depth : scope.level = some (spec op).level)
    (person : isPerson caller.class_ = true)
    (notMachine : isServiceAccountKind caller.class_ = false) :
    callerHolds db caller op scope = .ok true ↔ ∃ proof, authorizeTenant db caller op scope =
      .ok proof := by
  rw [callerHolds_eq_true, authorizeTenant_isOk depth]
  obtain ⟨notProtected, enabled⟩ := gates_of_person db op scope notMachine
  cases inside : isSelfConfigScope db (db.grantsOf caller.principal) scope <;>
    simp [selfConfigProfile, inside, selfConfigSessionEligible, person, notProtected, enabled] <;>
      tauto

theorem preview_machine (depth : scope.level = some (spec op).level)
    (machine : isServiceAccountKind caller.class_ = true) :
    (callerHolds db caller op scope = .ok true ↔
      ∃ proof, authorizeTenant db caller op scope = .ok proof) ↔
      ¬ Overlooked db caller op scope := by
  rw [callerHolds_eq_true, authorizeTenant_isOk depth, Overlooked]
  have notPerson : isPerson caller.class_ = false := isPerson_of_serviceAccount machine
  cases inside : isSelfConfigScope db (db.grantsOf caller.principal) scope with
  | true =>
    -- Inside the protected organisation both refuse a service account.
    simp [selfConfigProfile, inside, selfConfigSessionEligible, notPerson]
  | false =>
    cases protectedDelete db caller op scope <;>
      cases machineRevealWithdrawn db caller (spec op).formula scope <;>
      simp [selfConfigProfile, inside, machine] <;> tauto

end Agreement

/-- The preview agrees with the decision exactly where no refusal is overlooked. -/
theorem callerHolds_agrees_iff (contract : Contract) (db : Db) (caller : Identity) (op : Operation)
    (scope : Scope) (kind : caller.class_ ∈ [none, some .human, some .workload, some .automation])
    (tenant : (spec op).class_ = .tenant) (depth : scope.level = some (spec op).level) :
    (callerHolds db caller op scope = .ok true ↔
        ∃ proof, authorize contract db caller op scope = .ok proof) ↔
      ¬ Overlooked db caller op scope := by
  have decides : authorize contract db caller op scope = authorizeTenant db caller op scope := by
    unfold authorize
    rw [tenant, outsideContract_of_preview contract kind]
    rfl
  rw [decides]
  cases machine : isServiceAccountKind caller.class_ with
  | true => exact preview_machine depth machine
  | false =>
    have notOverlooked : ¬ Overlooked db caller op scope := fun overlooked => by
      rw [Overlooked, machine] at overlooked
      exact absurd overlooked.1 Bool.false_ne_true
    exact iff_of_true (preview_person depth (isPerson_of_preview kind machine) machine)
      notOverlooked

def machineDb : Db :=
  { twoProjects with
    principals :=
      [⟨1, some .human, .active, 0, 0⟩, ⟨2, some .workload, .active, 0, 0⟩,
        ⟨3, some .automation, .active, 0, 0⟩]
    serviceAccounts := [⟨2, 1, 1⟩, ⟨3, 1, 2⟩]
    grants :=
      [⟨1, 1, ⟨.read, ⟨some 1, some 1, some 1⟩⟩, [.breakGlass]⟩,
       ⟨2, 2, ⟨.read, ⟨some 1, some 1, some 1⟩⟩, [.manual 1]⟩,
       ⟨3, 2, ⟨.reveal, ⟨some 1, some 1, some 1⟩⟩, [.manual 1]⟩,
       ⟨4, 3, ⟨.definitionsEdit, ⟨some 1, some 2, none⟩⟩, [.manual 1]⟩] }

def machine (p : PrincipalID) (class_ : PrincipalClass) : Identity := ⟨p, some class_, none, []⟩

theorem callerHolds_agrees_iff_human :
    (callerHolds machineDb (human 1) .valueRead ⟨some 1, some 1, some 1⟩ = .ok true ↔
        ∃ proof, authorize localContract machineDb (human 1) .valueRead ⟨some 1, some 1, some 1⟩ =
          .ok proof) ∧
      callerHolds machineDb (human 1) .valueRead ⟨some 1, some 1, some 1⟩ = .ok true := by
  refine ⟨(callerHolds_agrees_iff localContract machineDb (human 1) .valueRead
    ⟨some 1, some 1, some 1⟩ (by decide) (by decide) (by decide)).mpr ?_, by decide⟩
  rintro ⟨serviceAccount, _⟩
  cases serviceAccount

theorem machine_preview_refused :
    (callerHolds machineDb (machine 2 .workload) .valueExportReveal ⟨some 1, some 1, some 1⟩ =
      .ok true ∧
      authorize localContract machineDb
        (machine 2 .workload) .valueExportReveal ⟨some 1, some 1, some 1⟩ =
        .error .notFound) ∧
    (callerHolds machineDb (machine 3 .automation) .envDelete ⟨some 1, some 2, some 2⟩ = .ok true ∧
      authorize localContract machineDb
        (machine 3 .automation) .envDelete ⟨some 1, some 2, some 2⟩ =
        .error .notFound) := by
  decide

end Hikyo.Access
