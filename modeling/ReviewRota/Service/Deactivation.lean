import ReviewRota.Service.Reassignment

/-!
# Bulk deactivation

Deactivates several users of one team in one transaction. All of them are inactive before the first
review is handed over, so none of them takes over a review.

* `distinct`: the ids of a request, each once.
* `deactivate`: the service.
-/

namespace ReviewRota.Service

variable {σ π : Type} [Repository σ] [Collaborators π]

/-- The elements of a list, each where it occurs first. -/
def distinct (ids : List String) : List String :=
  ids.foldl PullRequest.addNew []

/-- Stores all of the users as inactive. -/
def markInactive : List User → Work σ π Unit
  | [] => pure ()
  | user :: rest => do
    Work.write (Repository.updateUser { user with isActive := false })
    markInactive rest

/-- Hands over the open reviews of all of the users and counts them. -/
def reassignAll (team : String) : List User → Work σ π Nat
  | [] => pure 0
  | user :: rest => do
    let count ← reassignOpenReviews team { user with isActive := false }
    let others ← reassignAll team rest
    pure (count + others)

/-- The body of `deactivate`, in a transaction and for ids that occur once. -/
def deactivateIn (team : String) (ids : List String) : Work σ π Deactivation := do
  let _ ← Work.read (Repository.team team)
  let loaded ← Work.read (Repository.usersByIds ids)
  require (loaded.length == ids.length) .notFound
  require (loaded.all (·.teamId == team)) .crossTeam
  let targets := (ids.filterMap fun id => loaded.find? (·.id == id)).filter (·.isActive)
  markInactive targets
  let reassigned ← reassignAll team targets
  pure { deactivated := targets.length, reassigned }

/-- Deactivates users of one team and hands over their open reviews. Users who are inactive already
are passed over; one review without a candidate undoes everything. -/
def deactivate (team : String) (ids : List String) : Work σ π Deactivation := do
  let ids := distinct ids
  require (!ids.isEmpty) .emptyBatch
  transact (deactivateIn team ids)

end ReviewRota.Service
