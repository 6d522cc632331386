import ReviewRota.Service.Deactivation
import ReviewRota.Service.PullRequests
import ReviewRota.Service.Teams
import ReviewRota.Service.Users

/-!
# Service calls

The services as data: a call, its reply, and runs of calls.

* `Call`: one constructor for each service.
* `Reply`: what services and repository operations give.
* `Call.perform`, `performAll`: one call, and calls one after the other, each whatever became of
  those before.
-/

namespace ReviewRota

/-- A call of a service. -/
inductive Call where
  | createTeam (name : String) (id : Option String)
  | team (id : String)
  | teams
  | createUser (team name : String) (isActive : Bool) (id : Option String)
  | user (id : String)
  | users (team : Option String) (active : Option Bool)
  | updateUser (id : String) (update : UserUpdate)
  | deactivate (team : String) (ids : List String)
  | createPullRequest (title author : String) (id : Option String)
  | pullRequest (id : String)
  | pullRequests (status : Option Status)
  | reassign (id reviewer : String)
  | merge (id : String)
  | assigned (user : String) (status : Option Status)
  | userLoads (team : Option String)
  | reviewerCounts (team : Option String)
  deriving DecidableEq, Repr

/-- A reply of a service or of a repository operation. -/
inductive Reply where
  | done
  | team (team : Team)
  | teams (teams : List Team)
  | user (user : User)
  | users (users : List User)
  | pullRequest (p : PullRequest)
  | pullRequests (ps : List PullRequest)
  | deactivation (outcome : Deactivation)
  | userLoads (loads : List UserLoad)
  | reviewerCounts (counts : List ReviewerCount)
  | count (n : Nat)
  deriving DecidableEq

variable {σ π : Type} [Repository σ] [Collaborators π]

/-- Carries out a call. -/
def Call.perform (settings : AssignmentSettings) : Call → Work σ π Reply
  | .createTeam name id => .team <$> Service.createTeam settings name id
  | .team id => .team <$> Service.team id
  | .teams => .teams <$> Service.teams
  | .createUser teamId name isActive id =>
    .user <$> Service.createUser settings teamId name isActive id
  | .user id => .user <$> Service.user id
  | .users teamId active => .users <$> Service.users teamId active
  | .updateUser id update => .user <$> Service.updateUser id update
  | .deactivate teamId ids => .deactivation <$> Service.deactivate teamId ids
  | .createPullRequest title author id =>
    .pullRequest <$> Service.createPullRequest settings title author id
  | .pullRequest id => .pullRequest <$> Service.pullRequest id
  | .pullRequests status => .pullRequests <$> Service.pullRequests status
  | .reassign id reviewerId => .pullRequest <$> Service.reassign id reviewerId
  | .merge id => .pullRequest <$> Service.merge id
  | .assigned userId status => .pullRequests <$> Service.assigned userId status
  | .userLoads teamId => .userLoads <$> Service.userLoads teamId
  | .reviewerCounts teamId => .reviewerCounts <$> Service.reviewerCounts teamId

/-- Carries out calls one after the other. -/
def performAll (settings : AssignmentSettings) :
    List Call → Session σ π → List (Except Fault Reply) × Session σ π
  | [], s => ([], s)
  | call :: calls, s =>
    let (reply, s) := (call.perform settings).exec s
    let (replies, s) := performAll settings calls s
    (reply :: replies, s)

end ReviewRota
