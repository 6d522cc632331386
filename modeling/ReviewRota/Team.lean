import ReviewRota.Instant.Basic

/-!
# Teams and their members

* `Team`: a group of users; team names are unique.
* `User`: a member who writes pull requests and reviews them. Users are never deleted, only
  deactivated.
-/

namespace ReviewRota

/-- A team. -/
structure Team where
  id : String
  name : String
  createdAt : Instant
  deriving DecidableEq

/-- A member of a team. -/
structure User where
  id : String
  name : String
  teamId : String
  isActive : Bool
  createdAt : Instant
  deriving DecidableEq

end ReviewRota
