import Mathlib.Data.List.AList

/-!
# The ownership ledger of an adapter target

The rows of the ownership ledger, one for each surface and upper-cased name that a target has
claimed at its provider, and the three updates the outbox makes of them: a reservation, the dispatch
that goes with a prepared write, and the completion that an attempt reports.
-/

namespace Hikyo.Adapter

inductive Surface
  | secret
  | variable
deriving DecidableEq

inductive LedgerState
  | reserved
  | dispatched
  | owned
  | released
deriving DecidableEq

inductive Disposition
  | create
  | update
  | delete
  | conflict
deriving DecidableEq

inductive Outcome
  | success
  | failure
  | unknown
deriving DecidableEq

/-- Surface and upper-cased name; effective names are of ASCII letters. -/
structure LedgerKey where
  surface : Surface
  name : String
deriving DecidableEq

def newLedgerKey (surface : Surface) (name : String) : LedgerKey := ⟨surface, name.toUpper⟩

structure LedgerEntry where
  surface : Surface
  effectiveName : String
  state : LedgerState
  missing : Bool := false
deriving DecidableEq

structure Effect where
  surface : Surface
  effectiveName : String
  disposition : Disposition
  keyID : String := ""
deriving DecidableEq

def Effect.key (effect : Effect) : LedgerKey := newLedgerKey effect.surface effect.effectiveName

abbrev Ledger := AList fun _ : LedgerKey => LedgerEntry

/-- What an attempt reports about a write.  No state is the source's empty one. -/
structure Completion where
  outcome : Outcome
  state : Option LedgerState := none
  releaseLedger : Bool := false
  conflict : Bool := false
  missing : Bool := false
  providerStatus : Nat := 0
  finding : String := ""

inductive LedgerError
  | conflict
  | ledgerFull
  | superseded
  | invalidCompletion
deriving DecidableEq

def validMissingState (state : Option LedgerState) (missing : Bool) : Bool :=
  !missing || state == some .owned || state == some .dispatched

/-- `ValidateCompletion`: `missing` only for a name that is presumed at the provider. -/
def Completion.valid (completion : Completion) : Bool :=
  (completion.releaseLedger != completion.state.isSome) &&
    validMissingState completion.state completion.missing

/-- `contested` stands for the claims of other targets on the same destination. -/
def Ledger.reserve (ledger : Ledger) (effect : Effect) (contested : Bool) :
    Except LedgerError (LedgerState × Ledger) :=
  if contested then .error .conflict
  else
    let reservation : LedgerEntry := ⟨effect.surface, effect.effectiveName, .reserved, false⟩
    match ledger.lookup effect.key with
    | some row =>
      if row.state = .released then .ok (.reserved, ledger.insert effect.key reservation)
      else .ok (row.state, ledger)
    | none =>
      if 10000 ≤ (ledger.entries.filter fun entry => entry.2.state != .released).length then
        .error .ledgerFull
      else .ok (.reserved, ledger.insert effect.key reservation)

def Ledger.dispatch (ledger : Ledger) (effect : Effect) (prior : LedgerState) :
    Except LedgerError Ledger :=
  if prior = .reserved then
    match ledger.lookup effect.key with
    | some row =>
      if row.state = .reserved then .ok (ledger.insert effect.key { row with state := .dispatched })
      else .error .superseded
    | none => .error .superseded
  else .ok ledger

/-- `Finish`'s update: a released row stays released, and is not marked missing. -/
def Ledger.complete (ledger : Ledger) (effect : Effect) (completion : Completion) :
    Except LedgerError Ledger :=
  if completion.valid then
    match ledger.lookup effect.key, completion.state with
    | some _, none => .ok (ledger.erase effect.key)
    | some row, some state =>
      if row.state = .released then
        if completion.missing then .error .superseded
        else .ok (ledger.insert effect.key { row with missing := false })
      else .ok (ledger.insert effect.key { row with state, missing := completion.missing })
    | none, _ => .error .superseded
  else .error .invalidCompletion

end Hikyo.Adapter
