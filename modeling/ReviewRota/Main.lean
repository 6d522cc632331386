import ReviewRota.CommandLine.Run
import ReviewRota.Relational.Image
import ReviewRota.Sources.Ambient
import Std.Time.DateTime.Timestamp

/-!
# The program

Runs a command line on the files, the clock and the random numbers of this machine. A database is
kept as its image in a text file.
-/

namespace ReviewRota.CommandLine

/-! ## Files -/

/-- Whether a path can be opened for reading, as files and directories can. -/
def canOpen (path : String) : IO Bool := do
  try
    let _ ← IO.FS.Handle.mk path .read
    pure true
  catch _ => pure false

/-- The content of a file. -/
def readBytes (path : String) : IO (Except FileProblem ByteArray) := do
  try
    pure (.ok (← IO.FS.readBinFile path))
  catch
    | .noFileOrDirectory .. => pure (.error .missing)
    | error => pure (.error (.other (toString error)))

/-- What the file of a database holds. One that is missing is made, if that is asked for. -/
def openDatabaseFile (path : String) (make : Bool) : IO (Option Relational.Content) := do
  try
    if make && !(← canOpen path) then
      IO.FS.writeFile path ""
    let bytes ← IO.FS.readBinFile path
    pure (some (((String.fromUTF8? bytes).map .ofText).getD .foreign))
  catch _ => pure none

/-- Makes a directory and those that lead to it. -/
def makeDirectories (path : String) : IO Bool := do
  try
    IO.FS.createDirAll path
    pure true
  catch _ => pure false

/-- Puts a text into a file in one step. -/
def replaceFile (path text : String) : IO Unit := do
  let draft := path ++ ".new"
  IO.FS.writeFile draft text
  IO.FS.rename draft path

instance : Machine IO where
  readFile path :=
    match path.toText? with
    | some path => readBytes path
    | none => pure (.error .invalidName)
  isPresent path := (path.toText?.map canOpen).getD (pure false)
  makeDirectory path :=
    match path.toText? with
    | some "" => pure true
    | some path => makeDirectories path
    | none => pure false
  openFile path make :=
    match path.toText? with
    | some path => openDatabaseFile path make
    | none => pure none
  saveDatabase path image :=
    match path.toText? with
    | some path => replaceFile path image.toText
    | none => pure ()

/-! ## Surroundings -/

/-- The variables that a command line can depend on. -/
def variableNames : List String :=
  ["HOME", "XDG_CONFIG_HOME", "XDG_DATA_HOME", "REVIEWER_CONFIG", "REVIEWER_DATABASE_PATH",
    "REVIEWER_MAX_CONNECTIONS", "REVIEWER_ID_MODE", "REVIEWER_LOG_LEVEL"]

/-- The variables of this process. -/
def currentEnvironment : IO Environment := do
  let found ← variableNames.mapM fun name => do pure (name, ← IO.getEnv name)
  pure { lookup := fun name => (found.lookup name).join }

/-- The time of this machine. -/
def currentTime : IO Instant := do
  let nanos := (← Std.Time.Timestamp.now).toNanosecondsSinceUnixEpoch.val
  let time := do
    let date ← Date.ofDays? 0
    Instant.ofSeconds? date (nanos / 1000000000) (nanos % 1000000000).toNat
  match time with
  | some time => pure time
  | none => throw (.userError "the clock is outside the calendar")

/-- Words of 32 bits from bytes. -/
def wordsOf : List UInt8 → List UInt32
  | a :: b :: c :: d :: rest =>
    (a.toUInt32 ||| b.toUInt32 <<< 8 ||| c.toUInt32 <<< 16 ||| d.toUInt32 <<< 24) :: wordsOf rest
  | _ => []

/-- Sources with a random key. -/
def currentSources : IO Ambient := do
  let bytes ← IO.getRandomBytes 32
  pure ⟨← currentTime, ⟨wordsOf bytes.toList, 0⟩⟩

end ReviewRota.CommandLine

open ReviewRota.CommandLine in
/-- Carries out the command line of this process. -/
def main (arguments : List String) : IO UInt32 := do
  let outcome ← run (← currentEnvironment) (← currentSources) arguments
  if let some text := outcome.output? then
    IO.print text
  if let some text := outcome.diagnosis? then
    IO.eprint text
  pure outcome.exitCode
