import ReviewRota.PullRequest
import ReviewRota.Report
import ReviewRota.Team

/-!
# Repositories

What a store of teams, users and pull requests offers to an open transaction.

A reading operation gives a value or a fault; a writing operation also gives the data after it,
which a fault may leave changed. Lists of teams and users come oldest first, lists of pull requests
newest first, and the slots of a pull request by slot number.

* `Repository σ`: the operations on data `σ`.
* `orNotFound`, `passes`: look-ups and optional filters, for every store alike.
* `Snapshot`, `Repository.snapshot`: everything a store lists.
-/

namespace ReviewRota

/-- Operations of a store whose data is `σ`. -/
class Repository (σ : Type) where
  /-- A store without records. -/
  empty : σ
  createTeam : Team → σ → Except Fault Unit × σ
  team : String → σ → Except Fault Team
  teams : σ → Except Fault (List Team)
  createUser : User → σ → Except Fault Unit × σ
  user : String → σ → Except Fault User
  /-- Stores the name and the active flag. -/
  updateUser : User → σ → Except Fault Unit × σ
  /-- Users, optionally of one team or with one active flag. -/
  users : (team : Option String) → (active : Option Bool) → σ → Except Fault (List User)
  /-- Users with the given ids; ids nobody has are passed over. -/
  usersByIds : List String → σ → Except Fault (List User)
  /-- Active members of a team, except the given ids. -/
  activeMembers : (team : String) → (except : List String) → σ → Except Fault (List User)
  /-- Stores a pull request with its slots. -/
  createPullRequest : PullRequest → σ → Except Fault Unit × σ
  /-- A pull request; with `lock`, one that is about to be changed. -/
  pullRequest : (lock : Bool) → String → σ → Except Fault PullRequest
  setStatus : String → Status → (mergedAt : Option Instant) → σ → Except Fault Unit × σ
  /-- Puts a slot list in the place of the present one. -/
  setReviewers : String → List ReviewerSlot → σ → Except Fault Unit × σ
  pullRequests : Option Status → σ → Except Fault (List PullRequest)
  /-- Pull requests on which the user holds a slot. -/
  assignedTo : String → Option Status → σ → Except Fault (List PullRequest)
  /-- The load of each user, by user id, optionally of one team. -/
  userLoads : Option String → σ → Except Fault (List UserLoad)
  /-- The reviewer count of each pull request, by id, optionally of one author team. -/
  reviewerCounts : Option String → σ → Except Fault (List ReviewerCount)

/-- The value looked up, or the fault that there is none. -/
def orNotFound {α : Type} : Option α → Except Fault α
  | some a => .ok a
  | none => .error .notFound

/-- Whether a value passes an optional filter. -/
def passes {α : Type} [DecidableEq α] : Option α → α → Bool
  | none, _ => true
  | some wanted, a => a == wanted

/-- All records of a store, as it lists them. -/
structure Snapshot where
  teams : List Team
  users : List User
  pullRequests : List PullRequest
  deriving DecidableEq

/-- Everything a store lists. -/
def Repository.snapshot {σ : Type} [Repository σ] (data : σ) : Except Fault Snapshot := do
  let teams ← Repository.teams data
  let users ← Repository.users none none data
  let pullRequests ← Repository.pullRequests none data
  pure ⟨teams, users, pullRequests⟩

end ReviewRota
