import ReviewRota.Relational.Store

/-!
# Databases that cannot be changed

* `ReadOnly`: a database whose readers are served and whose writers are refused, whatever they
  write.
* The instance `Repository ReadOnly`.
-/

namespace ReviewRota.Relational

/-- A database that cannot be changed. -/
structure ReadOnly where
  database : Database
  deriving DecidableEq

/-- The refusal of a change. -/
def ReadOnly.refuse (data : ReadOnly) : Except Fault Unit × ReadOnly :=
  (.error Failure.readOnly.fault, data)

instance : Repository ReadOnly where
  empty := ⟨Repository.empty⟩
  createTeam _ := ReadOnly.refuse
  team id data := Repository.team id data.database
  teams data := Repository.teams data.database
  createUser _ := ReadOnly.refuse
  user id data := Repository.user id data.database
  updateUser _ := ReadOnly.refuse
  users team active data := Repository.users team active data.database
  usersByIds ids data := Repository.usersByIds ids data.database
  activeMembers team except data := Repository.activeMembers team except data.database
  createPullRequest _ := ReadOnly.refuse
  pullRequest lock id data :=
    if lock then .error Failure.readOnly.fault else Repository.pullRequest false id data.database
  setStatus _ _ _ := ReadOnly.refuse
  setReviewers _ _ := ReadOnly.refuse
  pullRequests status data := Repository.pullRequests status data.database
  assignedTo user status data := Repository.assignedTo user status data.database
  userLoads team data := Repository.userLoads team data.database
  reviewerCounts team data := Repository.reviewerCounts team data.database

end ReviewRota.Relational
