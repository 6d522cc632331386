import ReviewRota.Fault
import ReviewRota.Json.Printer

/-!
# Outcomes

How a command line ends, and what its caller sees of it.

* `Outcome`: the ways to end.
* `Outcome.exitCode`, `Outcome.output?`, `Outcome.diagnosis?`: the exit code and the two streams.
-/

namespace ReviewRota.CommandLine

/-- How a command line ends. -/
inductive Outcome where
  /-- Help was asked for. -/
  | help
  /-- The words are no command. -/
  | misuse
  | done (result : Json)
  | failed (fault : Fault)
  /-- The database cannot be opened. -/
  | unavailable
  /-- The settings allow no connection to a database. -/
  | unconnected

namespace Outcome

/-- The exit code: 1 for a failure, 2 for misuse, 101 for settings that nothing can run with. -/
def exitCode : Outcome → UInt32
  | help | done _ => 0
  | failed _ | unavailable => 1
  | misuse => 2
  | unconnected => 101

/-- What to say to one who asks. -/
def helpText : String :=
  "Assign and reassign code reviewers within teams\n\n" ++
  "Usage: reviewer [OPTIONS] COMMAND\n\n" ++
  "Commands:\n" ++
  "  team create|list|show\n" ++
  "  user create|list|show|update|deactivate\n" ++
  "  pr create|list|show|merge|reassign|assigned\n" ++
  "  stats users|prs\n" ++
  "  config\n\n" ++
  "Options:\n" ++
  "  -v, --verbose, --config FILE, --database FILE, --id-mode generated|external\n"

/-- A fault as its caller is told: the kind and the wording fit for anyone. -/
def report (fault : Fault) : Json :=
  .obj [("error", .obj [("code", .str fault.kind.code), ("message", .str fault.publicMessage)])]

/-- What is written to the output. -/
def output? : Outcome → Option String
  | help => some helpText
  | done result => some (result.pretty ++ "\n")
  | _ => none

/-- What is written beside the output. -/
def diagnosis? : Outcome → Option String
  | misuse => some "error: not a command, see --help\n"
  | failed fault => some ((report fault).compress ++ "\n")
  | unavailable => some "Error: the database cannot be opened\n"
  | unconnected => some "Error: the settings allow no connection to a database\n"
  | _ => none

end Outcome

end ReviewRota.CommandLine
