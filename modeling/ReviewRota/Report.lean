/-!
# Reports

Review load per user and reviewer count per pull request, and the outcome of a bulk deactivation.
-/

namespace ReviewRota

/-- Review load of one user. -/
structure UserLoad where
  userId : String
  total : Nat
  opened : Nat
  merged : Nat
  deriving DecidableEq, Repr

/-- Number of reviewers of one pull request. -/
structure ReviewerCount where
  pullRequestId : String
  count : Nat
  deriving DecidableEq, Repr

/-- Outcome of a bulk deactivation. -/
structure Deactivation where
  /-- Users who went from active to inactive. -/
  deactivated : Nat
  /-- Reviews that were handed over. -/
  reassigned : Nat
  deriving DecidableEq, Repr

end ReviewRota
