import ReviewRota.CommandLine.Invocation
import ReviewRota.Service.Call
import ReviewRota.Settings.Layers

/-!
# Requests

What an invocation asks for.

* `Request`: the settings, or a call of a service.
* `Invocation.request?`: the request of a command with its options and operands.
* `Invocation.flags`: the settings that the command line chooses.
-/

namespace ReviewRota.CommandLine

/-- What is asked for. -/
inductive Request where
  | settings
  | call (call : Call)
  deriving DecidableEq, Repr

namespace Invocation

variable (invocation : Invocation)

/-- The status that an option names. -/
def status? : Option Status :=
  invocation.value? .status >>= fun text => (Status.parse text).toOption

/-- The active flag that an option names. -/
def active? : Option Bool :=
  (invocation.value? .active).map (· == "true")

/-- The call of a command, none if its operands or required options are missing. -/
def call? : Option Call :=
  let value? := invocation.value?
  match invocation.verb, invocation.operands with
  | .createTeam, [name] => some (.createTeam name (value? .id))
  | .listTeams, [] => some .teams
  | .showTeam, [id] => some (.team id)
  | .createUser, [name] => do
    let team ← value? .team
    pure (.createUser team name (value? .inactive).isNone (value? .id))
  | .listUsers, [] => some (.users (value? .team) invocation.active?)
  | .showUser, [id] => some (.user id)
  | .updateUser, [id] => some (.updateUser id ⟨value? .name, invocation.active?⟩)
  | .deactivateUsers, ids => do
    let team ← value? .team
    pure (.deactivate team ids)
  | .createPullRequest, [title] => do
    let author ← value? .author
    pure (.createPullRequest title author (value? .id))
  | .listPullRequests, [] => some (.pullRequests invocation.status?)
  | .showPullRequest, [id] => some (.pullRequest id)
  | .mergePullRequest, [id] => some (.merge id)
  | .reassignPullRequest, [id] => do
    let reviewer ← value? .reviewer
    pure (.reassign id reviewer)
  | .assignedPullRequests, [user] => some (.assigned user invocation.status?)
  | .userLoads, [] => some (.userLoads (value? .team))
  | .reviewerCounts, [] => some (.reviewerCounts (value? .team))
  | _, _ => none

/-- The request of a command. -/
def request? : Option Request :=
  if invocation.verb = .showSettings then some .settings else invocation.call?.map .call

/-- The settings that the command line chooses. -/
def flags : Flags where
  databasePath := invocation.value? .database
  idMode := invocation.value? .idMode >>= fun text => (IdMode.parse text).toOption
  logLevel := (invocation.value? .verbose).map fun _ => "debug"

end Invocation

end ReviewRota.CommandLine
