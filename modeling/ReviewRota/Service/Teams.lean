import ReviewRota.Service.Basic

/-!
# Team service

Creation and look-up of teams.
-/

namespace ReviewRota.Service

variable {σ π : Type} [Repository σ] [Collaborators π]

/-- Creates a team, whose name must not be blank. -/
def createTeam (settings : AssignmentSettings) (name : String) (id : Option String) :
    Work σ π Team := do
  require (!Text.isBlank name) .invalidTeamName
  let id ← resolveId settings.idMode id
  let createdAt ← Work.now
  let team : Team := { id, name, createdAt }
  transact (Work.write (Repository.createTeam team))
  pure team

/-- The team with this id. -/
def team (id : String) : Work σ π Team :=
  transact (Work.read (Repository.team id))

/-- All teams, oldest first. -/
def teams : Work σ π (List Team) :=
  transact (Work.read Repository.teams)

end ReviewRota.Service
