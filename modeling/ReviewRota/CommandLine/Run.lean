import ReviewRota.CommandLine.Outcome
import ReviewRota.CommandLine.Request
import ReviewRota.Json.Records
import ReviewRota.Relational.Connection
import ReviewRota.Relational.ReadOnly

/-!
# Running a command line

* `Machine m`: what a command line needs of the machine that it runs on.
* `run`: reads the words, then the settings, then opens the database and calls a service.
-/

namespace ReviewRota.CommandLine

open Relational

/-- Access to files and databases by their paths. -/
class Machine (m : Type → Type) where
  readFile : Path → m (Except FileProblem ByteArray)
  isPresent : Path → m Bool
  /-- Makes a directory and those that lead to it, and tells whether it is there now. -/
  makeDirectory : Path → m Bool
  /-- What the file of a database holds, none if there is no such file. With `make`, one that is
  missing is made if it can be. -/
  openFile : Path → (make : Bool) → m (Option Content)
  /-- Puts a database into a file that was opened. -/
  saveDatabase : Path → Image → m Unit

variable {m : Type → Type} [Monad m] [Machine m]

/-! ## Databases -/

/-- What the file at a location holds. -/
def openLocation (location : Location) : m (Option Content) := do
  let hasPattern ←
    match location.pattern with
    | some pattern => Machine.isPresent pattern
    | none => pure true
  if hasPattern then Machine.openFile location.path (location.access == .create) else pure none

/-- Whether a connection can wait so long: the milliseconds fit in 32 bits with sign. -/
def canWait (busyTimeout : Duration) : Bool :=
  busyTimeout.millis < 2147483648

/-- The connection to the database at a location. -/
def connect (location : Location) (busyTimeout : Duration) : m (Option Connection) := do
  let content ← if location.isTransient then pure (some .empty) else openLocation location
  return if canWait busyTimeout then content >>= location.connect? else none

/-! ## Settings -/

/-- The text of a file. -/
def readText (path : String) : m (Except Fault String) := do
  match ← Machine.readFile (.ofText path) with
  | .ok bytes => pure (decodeFile bytes)
  | .error problem => pure (.error problem.fault)

/-- The text of the settings file. One that is named has to be there, the usual one need not. -/
def settingsFile (named usual : Option String) : m (Except Fault (Option String)) := do
  match named, usual with
  | some path, _ => return (← readText path).map some
  | none, some path =>
    if ← Machine.isPresent (.ofText path) then return (← readText path).map some
    else return .ok none
  | none, none => return .ok none

/-- The answer to the request for the settings: where they come from, and what holds. -/
def describeSettings (path : Option String) (settings : Settings) : m Json := do
  let isPresent ←
    match path with
    | some path => Machine.isPresent (.ofText path)
    | none => pure false
  pure (.obj [("config_file", Json.ofOption .str path), ("config_file_exists", .bool isPresent),
    ("effective", settings.toJson)])

/-! ## Requests -/

variable {π : Type} [Collaborators π]

/-- The outcome of a reply. -/
def Outcome.ofReply : Except Fault Reply → Outcome
  | .ok reply => .done reply.toJson
  | .error fault => .failed fault

/-- Carries out a call on a connection to the database at a location. -/
def performOn (connection : Connection) (location : Location)
    (settings : AssignmentSettings) (collaborators : π) (call : Call) : m Outcome := do
  let image := connection.image
  if connection.canWrite then
    let (reply, session) := (call.perform settings).exec (.start image.database collaborators)
    if !location.isTransient then
      Machine.saveDatabase location.path { image with database := session.data }
    return .ofReply reply
  else
    let data : ReadOnly := ⟨image.database⟩
    return .ofReply ((call.perform settings).exec (.start data collaborators)).1

/-- Carries out a call on the database of some settings. The directory of the database is made
first. -/
def perform (settings : Settings) (collaborators : π) (call : Call) : m Outcome := do
  let database := settings.database
  if !(← Machine.makeDirectory (Path.ofText database.path).parent) then
    return .unavailable
  if database.maxConnections = 0 then
    return .unconnected
  match Location.ofText? database.path with
  | none => return .unavailable
  | some location =>
    match ← connect location database.busyTimeout with
    | none => return .unavailable
    | some connection =>
      performOn connection location settings.assignment collaborators call

/-- Carries out an invocation. -/
def Invocation.run (env : Environment) (collaborators : π) (invocation : Invocation) :
    m Outcome := do
  let named := invocation.value? .config <|> env "REVIEWER_CONFIG"
  let file ← settingsFile named env.settingsPath?
  match Settings.layered env file invocation.flags, invocation.request? with
  | .error fault, _ => return .failed fault
  | .ok settings, some .settings =>
    return .done (← describeSettings (named <|> env.settingsPath?) settings)
  | .ok settings, some (.call call) => perform settings collaborators call
  | .ok _, none => return .misuse

/-- Carries out a command line. -/
def run (env : Environment) (collaborators : π) (arguments : List String) : m Outcome :=
  match Invocation.ofArguments (env "REVIEWER_CONFIG") arguments with
  | .ok invocation => invocation.run env collaborators
  | .error .help => return .help
  | .error .misuse => return .misuse

end ReviewRota.CommandLine
