import ReviewRota.Duration.Text
import ReviewRota.Settings.Basic
import ReviewRota.Settings.Format

/-!
# Settings as records

Settings are read from a record in which fields may be absent and unknown fields are ignored, and
written as JSON.

* `read?`: a record over the settings that hold for absent fields.
* `toJson`: all settings.
-/

namespace ReviewRota

variable {ν : Type} [SettingsFormat ν]

/-- A field, or the value that holds where it is absent. -/
def readField? {α : Type} (fields : String → Option ν) (name : String) (f : ν → Option α)
    (default : α) : Option α :=
  match fields name with
  | none => some default
  | some value => f value

/-! ## Identifier modes -/

/-- Reads the exact name of a mode. -/
def IdMode.read? (value : ν) : Option IdMode :=
  SettingsFormat.choice? value >>= ofName?

def IdMode.toJson (mode : IdMode) : Json :=
  .str mode.name

/-! ## Assignment -/

def AssignmentSettings.read? (value : ν) : Option AssignmentSettings := do
  let fields ← SettingsFormat.fields? ["max_reviewers", "id_mode"] value
  let maxReviewers ← readField? fields "max_reviewers"
    (SettingsFormat.natBelow? 18446744073709551616) 2
  let idMode ← readField? fields "id_mode" IdMode.read? .generated
  pure { maxReviewers, idMode }

def AssignmentSettings.toJson (s : AssignmentSettings) : Json :=
  .obj [("max_reviewers", .int s.maxReviewers), ("id_mode", s.idMode.toJson)]

/-! ## Database -/

def DatabaseSettings.read? (default : DatabaseSettings) (value : ν) :
    Option DatabaseSettings := do
  let fields ← SettingsFormat.fields? ["path", "max_connections", "busy_timeout"] value
  let path ← readField? fields "path" SettingsFormat.string? default.path
  let maxConnections ← readField? fields "max_connections"
    (fun v => (SettingsFormat.natBelow? 4294967296 v).map UInt32.ofNat) default.maxConnections
  let busyTimeout ← readField? fields "busy_timeout"
    (fun v => SettingsFormat.string? v >>= Duration.ofText?) default.busyTimeout
  pure { path, maxConnections, busyTimeout }

def DatabaseSettings.toJson (s : DatabaseSettings) : Json :=
  .obj [("path", .str s.path), ("max_connections", .int s.maxConnections.toNat),
    ("busy_timeout", .str s.busyTimeout.toText)]

/-! ## All settings -/

def Settings.read? (default : Settings) (value : ν) : Option Settings := do
  let fields ← SettingsFormat.fields? ["database", "assignment", "log_level"] value
  let database ← readField? fields "database" default.database.read? default.database
  let assignment ← readField? fields "assignment" AssignmentSettings.read? default.assignment
  let logLevel ← readField? fields "log_level" SettingsFormat.string? default.logLevel
  pure { database, assignment, logLevel }

def Settings.toJson (s : Settings) : Json :=
  .obj [("database", s.database.toJson), ("assignment", s.assignment.toJson),
    ("log_level", .str s.logLevel)]

end ReviewRota
