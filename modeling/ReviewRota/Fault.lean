/-!
# Faults

Everything an operation can fail with, and how a caller is told.

* `Fault`: the causes. The internal ones carry a detail, `none` when its wording comes from a
  component outside this library.
* `Fault.kind`, `Kind.code`: the stable classification; `Fault.isInternal` is one of its classes.
* `Fault.message?`: the full wording; `Fault.publicMessage` withholds internal details.
-/

namespace ReviewRota

/-- Cause of a failed operation. -/
inductive Fault where
  /-- A named team, user or pull request does not exist. -/
  | notFound
  /-- A unique key is taken. -/
  | alreadyExists
  /-- The pull request no longer accepts reviewer changes. -/
  | alreadyMerged
  /-- No team member can take the review. -/
  | noCandidate
  /-- The named reviewer holds no slot. -/
  | badReviewer
  | invalidRequest (reason : String)
  | invalidTeamName
  | invalidUserName
  | invalidTitle
  /-- An update that changes nothing. -/
  | emptyUpdate
  /-- A bulk deactivation of nobody. -/
  | emptyBatch
  /-- A bulk deactivation reaching into another team. -/
  | crossTeam
  /-- Stored data would break an invariant of the store. -/
  | constraintViolation
  | storage (detail : Option String)
  | config (detail : Option String)
  | io (detail : Option String)
  deriving DecidableEq, Repr

namespace Fault

/-- Classification of faults shown to callers. -/
inductive Kind where
  | notFound | alreadyExists | alreadyMerged | noCandidate | badReviewer | invalidRequest
  | invalidTeamName | invalidUserName | invalidTitle | emptyUpdate | emptyBatch | crossTeam
  | constraintViolation | internal
  deriving DecidableEq, Repr

/-- Stable machine-readable name of a kind. -/
def Kind.code : Kind → String
  | .notFound => "not_found"
  | .alreadyExists => "already_exists"
  | .alreadyMerged => "already_merged"
  | .noCandidate => "no_candidate"
  | .badReviewer => "bad_reviewer"
  | .invalidRequest => "invalid_request"
  | .invalidTeamName => "invalid_team_name"
  | .invalidUserName => "invalid_user_name"
  | .invalidTitle => "invalid_pr_title"
  | .emptyUpdate => "empty_update"
  | .emptyBatch => "empty_bulk_user_ids"
  | .crossTeam => "cross_team_deactivation"
  | .constraintViolation => "constraint_violation"
  | .internal => "internal"

/-- The kind of a fault; storage, configuration and file faults share one. -/
def kind : Fault → Kind
  | notFound => .notFound
  | alreadyExists => .alreadyExists
  | alreadyMerged => .alreadyMerged
  | noCandidate => .noCandidate
  | badReviewer => .badReviewer
  | invalidRequest _ => .invalidRequest
  | invalidTeamName => .invalidTeamName
  | invalidUserName => .invalidUserName
  | invalidTitle => .invalidTitle
  | emptyUpdate => .emptyUpdate
  | emptyBatch => .emptyBatch
  | crossTeam => .crossTeam
  | constraintViolation => .constraintViolation
  | storage _ | config _ | io _ => .internal

/-- A failure of the surroundings rather than of the request. -/
def isInternal (f : Fault) : Bool :=
  f.kind == .internal

/-- Full wording of a fault; `none` when part of it comes from outside the library. -/
def message? : Fault → Option String
  | notFound => some "not found"
  | alreadyExists => some "already exists"
  | alreadyMerged => some "already merged"
  | noCandidate => some "no candidate"
  | badReviewer => some "bad reviewer"
  | invalidRequest reason => some ("invalid request: " ++ reason)
  | invalidTeamName => some "invalid team name"
  | invalidUserName => some "invalid user name"
  | invalidTitle => some "invalid pull request title"
  | emptyUpdate => some "no fields to update"
  | emptyBatch => some "empty bulk user IDs"
  | crossTeam => some "user does not belong to team"
  | constraintViolation => some "constraint violation"
  | storage detail => detail.map ("storage error: " ++ ·)
  | config detail => detail.map ("Configuration error: " ++ ·)
  | io detail => detail.map ("IO error: " ++ ·)

/-- Wording fit for any caller: internal details are withheld. -/
def publicMessage (f : Fault) : String :=
  if f.isInternal then "internal error" else f.message?.getD ""

end Fault

end ReviewRota
