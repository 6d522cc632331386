import ReviewRota.Session

/-!
# Transactions

Work on a copy of the data that is kept as a whole or not at all.

* `Manager`: how transactions begin and end.
* `finish`: commits after success and rolls back after a fault. The fault of the work wins over
  one of the rollback, and a commit that fails is the outcome.
* `Manager.copying`: the manager of a store whose commit puts the copy in the place of the data.
* `transact`: work in a transaction of its own.
-/

namespace ReviewRota

variable {μ τ σ π α : Type}

/-- How transactions begin and end: `μ` is the state of the manager and `τ` a transaction. -/
structure Manager (μ τ : Type) where
  start : μ → Except Fault τ × μ
  commit : τ → μ → Except Fault Unit × μ
  rollback : τ → μ → Except Fault Unit × μ

/-- Ends a transaction after work with the given outcome. -/
def finish (manager : Manager μ τ) (tx : τ) (outcome : Except Fault α) (s : μ) :
    Except Fault α × μ :=
  match outcome with
  | .ok a =>
    match manager.commit tx s with
    | (.ok (), s) => (.ok a, s)
    | (.error fault, s) => (.error fault, s)
  | .error fault => (.error fault, (manager.rollback tx s).2)

/-- A transaction is a copy of the data, and a commit replaces the data by it. -/
def Manager.copying : Manager σ σ where
  start data := (.ok data, data)
  commit copy _ := (.ok (), copy)
  rollback _ data := (.ok (), data)

/-- Runs work in a transaction: its changes to the data are kept if it succeeds. What the
collaborators were asked is never undone. -/
def transact (work : Work σ π α) : Work σ π α :=
  Work.of fun s =>
    let (outcome, after) := work.exec s
    let (outcome, data) := finish .copying after.data outcome s.data
    (outcome, { after with data })

/-! ## Laws -/

/-- Successful work keeps its changes, failed work leaves the data as it was. -/
theorem exec_transact (work : Work σ π α) (s : Session σ π) :
    (transact work).exec s =
      match work.exec s with
      | (.ok a, after) => (.ok a, after)
      | (.error fault, after) => (.error fault, { after with data := s.data }) := by
  rcases h : work.exec s with ⟨outcome, after⟩
  cases outcome <;> simp only [transact, Work.exec, Work.of] at h ⊢ <;> rw [h] <;> rfl

end ReviewRota
