import ReviewRota.Identifier
import ReviewRota.Repository
import ReviewRota.Transaction.Basic

/-!
# Services

What the services have in common: the settings of a deployment and the checks of a request.

* `AssignmentSettings`: how many reviewers a pull request gets, and the identifier mode.
* `Service.require`: work refused unless a condition holds.
-/

namespace ReviewRota

/-- Settings of reviewer assignment. -/
structure AssignmentSettings where
  /-- The most reviewers that a new pull request gets. -/
  maxReviewers : Nat := 2
  idMode : IdMode := .generated
  deriving DecidableEq, Repr

namespace Service

variable {σ π : Type}

/-- Work refused unless a condition holds. -/
def require (condition : Bool) (fault : Fault) : Work σ π Unit :=
  if condition then pure () else Work.fail fault

end Service

end ReviewRota
