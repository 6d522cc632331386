import ReviewRota.Transaction.Basic

/-!
# Rehearsed transactions

A manager that keeps no data: its endings succeed or fail as told beforehand, and it records what
it was asked to do.

* `Rehearsal.manager`: the manager; its state is the record.
* `rehearse`: the outcome of `finish` under it, and the record.
-/

namespace ReviewRota

/-- What a manager can be asked to do. -/
inductive ManagerCall where
  | start
  | commit
  | rollback
  deriving DecidableEq, Repr

/-- Endings told beforehand. -/
structure Rehearsal where
  commitFails : Bool
  rollbackFails : Bool

namespace Rehearsal

/-- The outcome of an ending told to fail or not. -/
def ending (fails : Bool) (reason : String) : Except Fault Unit :=
  if fails then .error (.invalidRequest reason) else .ok ()

/-- The manager whose endings are told beforehand. -/
def manager (r : Rehearsal) : Manager (List ManagerCall) Unit where
  start calls := (.ok (), calls ++ [.start])
  commit _ calls := (ending r.commitFails "commit failed", calls ++ [.commit])
  rollback _ calls := (ending r.rollbackFails "rollback failed", calls ++ [.rollback])

end Rehearsal

/-- Begins a transaction, ends it after work with the given outcome, and gives the record. -/
def rehearse {α : Type} (r : Rehearsal) (outcome : Except Fault α) :
    Except Fault α × List ManagerCall :=
  match r.manager.start [] with
  | (.ok tx, calls) => finish r.manager tx outcome calls
  | (.error fault, calls) => (.error fault, calls)

end ReviewRota
