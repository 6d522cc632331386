import ReviewRota.Identifier
import ReviewRota.PullRequest

/-!
# Commands and options

What can be said on the command line.

* `Opt`: the options, their names, and the values they accept.
* `Verb`: the commands, with the options and operands of each.
* `Level`: the commands as a tree of words.
-/

namespace ReviewRota.CommandLine

/-! ## Options -/

/-- An option. -/
inductive Opt where
  | verbose | config | database | idMode
  | id | team | inactive | active | name | author | status | reviewer
  deriving DecidableEq, Repr

namespace Opt

/-- The name after two hyphens. -/
def long : Opt → String
  | verbose => "verbose"
  | config => "config"
  | database => "database"
  | idMode => "id-mode"
  | id => "id"
  | team => "team"
  | inactive => "inactive"
  | active => "active"
  | name => "name"
  | author => "author"
  | status => "status"
  | reviewer => "reviewer"

/-- The letter after a single hyphen, if there is one. -/
def short? : Opt → Option Char
  | verbose => some 'v'
  | team => some 't'
  | author => some 'a'
  | status => some 's'
  | reviewer => some 'r'
  | _ => none

/-- Whether the option stands alone, without a value. -/
def isSwitch : Opt → Bool
  | verbose | inactive => true
  | _ => false

/-- Whether a value can be given to the option. -/
def accepts (value : String) : Opt → Bool
  | config | database => !value.isEmpty
  | idMode => (IdMode.parse value).toBool
  | active => value == "true" || value == "false"
  | status => (Status.parse value).toBool
  | _ => true

/-- Options of every command. -/
def general : List Opt :=
  [verbose, config, database, idMode]

end Opt

/-! ## Commands -/

/-- A command. -/
inductive Verb where
  | createTeam | listTeams | showTeam
  | createUser | listUsers | showUser | updateUser | deactivateUsers
  | createPullRequest | listPullRequests | showPullRequest | mergePullRequest
  | reassignPullRequest | assignedPullRequests
  | userLoads | reviewerCounts
  | showSettings
  deriving DecidableEq, Repr

namespace Verb

/-- The options of a command, beside the general ones. -/
def options : Verb → List Opt
  | createTeam => [.id]
  | createUser => [.team, .inactive, .id]
  | listUsers => [.team, .active]
  | updateUser => [.name, .active]
  | deactivateUsers => [.team]
  | createPullRequest => [.author, .id]
  | listPullRequests => [.status]
  | reassignPullRequest => [.reviewer]
  | assignedPullRequests => [.status]
  | userLoads | reviewerCounts => [.team]
  | _ => []

/-- The options that a command cannot do without. -/
def required : Verb → List Opt
  | createUser | deactivateUsers => [.team]
  | createPullRequest => [.author]
  | reassignPullRequest => [.reviewer]
  | _ => []

/-- The fewest operands of a command. -/
def fewest : Verb → Nat
  | listTeams | listUsers | listPullRequests | userLoads | reviewerCounts | showSettings => 0
  | _ => 1

/-- Whether a command that has some operands can have one more. -/
def takesOperand (operands : List String) : Verb → Bool
  | deactivateUsers => true
  | verb => operands.length < verb.fewest

end Verb

/-! ## Words -/

/-- A place in the tree of words: further words can follow, or a command is complete. -/
inductive Level where
  | branch (children : List (List String × Level))
  | leaf (verb : Verb)

namespace Level

/-- The words of all commands. -/
def root : Level :=
  .branch [
    (["team"], .branch [
      (["create"], .leaf .createTeam),
      (["list"], .leaf .listTeams),
      (["show"], .leaf .showTeam)]),
    (["user", "u"], .branch [
      (["create"], .leaf .createUser),
      (["list"], .leaf .listUsers),
      (["show"], .leaf .showUser),
      (["update"], .leaf .updateUser),
      (["deactivate"], .leaf .deactivateUsers)]),
    (["pr"], .branch [
      (["create"], .leaf .createPullRequest),
      (["list"], .leaf .listPullRequests),
      (["show"], .leaf .showPullRequest),
      (["merge"], .leaf .mergePullRequest),
      (["reassign"], .leaf .reassignPullRequest),
      (["assigned"], .leaf .assignedPullRequests)]),
    (["stats"], .branch [
      (["users"], .leaf .userLoads),
      (["prs"], .leaf .reviewerCounts)]),
    (["config"], .leaf .showSettings)]

/-- The place that a word leads to. -/
def child? (word : String) : Level → Option Level
  | branch children => (children.find? (·.1.contains word)).map (·.2)
  | leaf _ => none

/-- The options that can be given at a place. -/
def options : Level → List Opt
  | branch _ => Opt.general
  | leaf verb => Opt.general ++ verb.options

/-- Whether `help` can follow at a place. -/
def hasHelp : Level → Bool
  | branch _ => true
  | leaf _ => false

/-- Whether there is help on what some words lead to. -/
def isDescribed : List String → Level → Bool
  | [], _ => true
  | word :: words, level =>
    match level.child? word with
    | some child => isDescribed words child
    | none => level.hasHelp && word == "help" && words.isEmpty

end Level

end ReviewRota.CommandLine
