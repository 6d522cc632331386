import ReviewRota.Duration.Basic
import ReviewRota.Service.Basic

/-!
# Settings

What a deployment can choose, and what holds where it does not.

* `Environment`: the variables of a process, and the home directory of its account.
* `Settings`: settings of the database, of reviewer assignment, and of the log.
* `Environment.settingsPath?`, `Environment.databasePath`: where files are by default.
* `Settings.standard`: the settings of a deployment that chooses nothing.
-/

namespace ReviewRota

/-- Surroundings of a process. -/
structure Environment where
  /-- Variables; one whose content is not text counts as absent. -/
  lookup : String → Option String
  /-- The home directory of the account that the process runs under. -/
  accountHome : Option String := none

instance : CoeFun Environment fun _ => String → Option String :=
  ⟨Environment.lookup⟩

/-! ## Paths -/

/-- A path inside a directory. -/
def joinPath (base path : String) : String :=
  if base.isEmpty then path
  else if base.endsWith "/" then base ++ path
  else base ++ "/" ++ path

namespace Environment

variable (env : Environment)

/-- The home directory. -/
def home? : Option String :=
  (env "HOME").filter (!·.isEmpty) <|> env.accountHome

/-- The directory that a variable names by an absolute path, or else one inside the home
directory. -/
def directory? (variableName fallback : String) : Option String :=
  (env variableName).filter (·.startsWith "/") <|> env.home?.map (joinPath · fallback)

/-- The settings file, if there is a directory for it. -/
def settingsPath? : Option String :=
  (env.directory? "XDG_CONFIG_HOME" ".config").map (joinPath · "reviewer/config.toml")

/-- The database file, in the working directory if there is no other place. -/
def databasePath : String :=
  joinPath ((env.directory? "XDG_DATA_HOME" ".local/share").getD ".") "reviewer/reviewer.db"

end Environment

/-! ## Settings -/

/-- Settings of the database. -/
structure DatabaseSettings where
  path : String
  maxConnections : UInt32 := 5
  /-- How long a writer waits for a locked database. -/
  busyTimeout : Duration := .ofSeconds 5
  deriving DecidableEq

/-- Settings of a deployment. -/
structure Settings where
  database : DatabaseSettings
  assignment : AssignmentSettings := {}
  logLevel : String := "info"
  deriving DecidableEq

/-- The settings where nothing is chosen. -/
def Settings.standard (env : Environment) : Settings :=
  { database := { path := env.databasePath } }

end ReviewRota
