import ReviewRota.Relational.Location
import ReviewRota.Relational.Store

/-!
# Connections

What a file holds, and which connection a location makes of it.

* `Image`: a database as a file holds it.
* `Content`: what else a file can hold.
* `Location.connect?`: the connection to a content, if there can be one.

A connection writes changes to a log beside the file where it can, and such a database is closed to
connections that have no log. One that cannot write opens no database that it would have to change.
-/

namespace ReviewRota.Relational

/-- A database as a file holds it. -/
structure Image where
  database : Database
  /-- Changes are kept in a log beside the file. -/
  isLogged : Bool
  deriving DecidableEq

/-- What a file holds. -/
inductive Content where
  | empty
  | database (image : Image)
  /-- Something that is no database. -/
  | foreign
  deriving DecidableEq

/-- A connection to a database. -/
structure Connection where
  image : Image
  canWrite : Bool
  deriving DecidableEq

namespace Location

variable (location : Location)

/-- Whether changes are kept in a log. -/
def canLog : Bool :=
  location.gateway.canLog && !location.isImmutable && !location.isUnlocked

/-- Whether the data can be changed. -/
def canWrite : Bool :=
  location.access != .read && !location.isImmutable

/-- The longest name that leaves room for the name of a journal beside it. -/
def longestName : Nat := 247

/-- The connection to a new database without a file. -/
def connectTransient? : Option Connection :=
  if location.access = .read ∨ (location.gateway = .memory ∧ location.isImmutable) then none
  else some ⟨⟨Repository.empty, false⟩, true⟩

/-- The connection to a database that is stored. -/
def connectStored? (image : Image) : Option Connection :=
  if image.isLogged then
    if location.canLog || location.isImmutable then some ⟨image, location.canWrite⟩ else none
  else if location.canLog then
    if location.canWrite then some ⟨{ image with isLogged := true }, true⟩ else none
  else some ⟨image, location.canWrite⟩

/-- The connection to the database in a file. A file without content becomes a database. -/
def connectFile? (content : Content) : Option Connection :=
  if location.canLog && location.hasFixedIndex then none
  else
    match content with
    | .foreign => none
    | .database image => location.connectStored? image
    | .empty =>
      if location.canWrite && location.path.name.length ≤ longestName then
        some ⟨⟨Repository.empty, location.canLog⟩, true⟩
      else none

/-- The connection to a database, where `content` is what its file holds, if it has one. -/
def connect? (content : Content) : Option Connection :=
  if location.isTransient then location.connectTransient? else location.connectFile? content

end Location

end ReviewRota.Relational
