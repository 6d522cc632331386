import ReviewRota.Files.Basic
import ReviewRota.Settings.Records
import ReviewRota.Text.Whole
import ReviewRota.Toml.Reader

/-!
# Layers of settings

Settings come from four places. From the strongest to the weakest: the command line, the
environment, the settings file, and what holds where nothing is chosen.

* `Settings.ofFile`: the settings of a file.
* `Settings.withEnvironment`: settings with the choices of the environment put over them.
* `Settings.withFlags`: settings with the choices of the command line put over them.
* `Settings.layered`: all of it.
-/

namespace ReviewRota

/-- Choices of the command line. -/
structure Flags where
  databasePath : Option String := none
  idMode : Option IdMode := none
  logLevel : Option String := none
  deriving DecidableEq

namespace Settings

/-- The settings of a file with this content. -/
def ofFile (env : Environment) (content : String) : Except Fault Settings :=
  match Toml.parse? content >>= (standard env).read? with
  | some settings => .ok settings
  | none => .error (.config none)

/-- Reads the number of connections from a variable. -/
def readMaxConnections (text : String) : Except Fault UInt32 :=
  match Text.readBelow 4294967296 text with
  | .ok n => .ok (UInt32.ofNat n)
  | .error problem =>
    .error (.config (some ("Invalid REVIEWER_MAX_CONNECTIONS '" ++ text ++ "': " ++
      problem.message)))

/-- The choice of a variable, or the present value if it is absent. -/
def choose {α : Type} (chosen : Option String) (read : String → Except Fault α) (present : α) :
    Except Fault α :=
  match chosen with
  | none => .ok present
  | some text => read text

/-- Settings with the choices of the environment put over them. -/
def withEnvironment (s : Settings) (env : Environment) : Except Fault Settings := do
  let path ← choose (env "REVIEWER_DATABASE_PATH") .ok s.database.path
  let maxConnections ← choose (env "REVIEWER_MAX_CONNECTIONS") readMaxConnections
    s.database.maxConnections
  let idMode ← choose (env "REVIEWER_ID_MODE") IdMode.parse s.assignment.idMode
  let logLevel ← choose (env "REVIEWER_LOG_LEVEL") .ok s.logLevel
  pure
    { database := { s.database with path, maxConnections }
      assignment := { s.assignment with idMode }
      logLevel }

/-- Settings with the choices of the command line put over them. -/
def withFlags (s : Settings) (flags : Flags) : Settings :=
  { database := { s.database with path := flags.databasePath.getD s.database.path }
    assignment := { s.assignment with idMode := flags.idMode.getD s.assignment.idMode }
    logLevel := flags.logLevel.getD s.logLevel }

/-- The settings of a deployment: `file` is the content of its settings file, if there is one, or
the fault met in reading it. -/
def layered (env : Environment) (file : Except Fault (Option String)) (flags : Flags) :
    Except Fault Settings := do
  let base ←
    match ← file with
    | none => pure (standard env)
    | some content => ofFile env content
  let settings ← base.withEnvironment env
  pure (settings.withFlags flags)

end Settings

end ReviewRota
