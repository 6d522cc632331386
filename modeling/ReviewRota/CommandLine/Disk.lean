import ReviewRota.CommandLine.Run

/-!
# Disks

A machine without a computer: directories, files and databases by their places, so that command
lines can be run one after the other and reasoned about.

* `Disk`: what is stored, and the working directory.
* `Disk.resolve`: the place that a path leads to, every name on the way being looked up.
* `Disk.databasePlace?`: the place of a database, whose path is shortened before it is looked up.
* The instance `Machine (StateM Disk)`.
-/

namespace ReviewRota.CommandLine

open Relational

/-- A path from the root, name by name. -/
abbrev Place :=
  List Name

namespace Place

/-- The place that a name leads to. -/
def enter (place : Place) (name : Name) : Place :=
  if name.isIdle then place
  else if name = .above then place.dropLast
  else place ++ [name]

/-- The length of a place as a path. -/
def size (place : Place) : Nat :=
  place.foldl (fun size name => size + name.length + 1) 0

end Place

/-- What is stored at a place. -/
inductive Stored where
  | directory
  | file (bytes : ByteArray)
  | database (image : Image)
  /-- Keeps nothing. -/
  | sink

/-- What is stored where. The root is a directory. -/
structure Disk where
  workingDirectory : Place
  entries : List (Place × Stored)

namespace Disk

/-! ## Paths -/

/-- The longest name. -/
def longestName : Nat := 255

/-- The longest path. -/
def longestPath : Nat := 4095

variable (disk : Disk)

/-- What is stored at a place. -/
def get? (place : Place) : Option Stored :=
  if place.isEmpty then some .directory else disk.entries.lookup place

/-- The disk with something stored at a place. -/
def put (place : Place) (stored : Stored) : Disk :=
  { disk with entries := (place, stored) :: disk.entries.filter (·.1 != place) }

/-- The place of a name in what is stored at a place, which has to be a directory. -/
def step (place : Place) (name : Name) : Except FileProblem Place :=
  match disk.get? place with
  | none => .error .missing
  | some .directory =>
    if longestName < name.length then .error .nameTooLong else .ok (place.enter name)
  | some _ => .error .throughFile

/-- Where a path starts. -/
def start (path : Path) : Place :=
  if path.isAbsolute then [] else disk.workingDirectory

/-- What is wrong with a path wherever it leads. -/
def checkPath (path : Path) : Except FileProblem Unit :=
  if path.contains 0 then .error .invalidName
  else if path.isEmpty then .error .missing
  else if longestPath < path.length then .error .nameTooLong
  else .ok ()

/-- The place that a path leads to. -/
def resolve (path : Path) : Except FileProblem Place := do
  checkPath path
  path.pieces.foldlM disk.step (disk.start path)

/-! ## Files -/

/-- The content of a file. A database is no text. -/
def readFile (path : Path) : Except FileProblem ByteArray := do
  match disk.get? (← disk.resolve path) with
  | none => .error .missing
  | some .directory => .error .isDirectory
  | some (.file bytes) => .ok bytes
  | some (.database _) => .error .notText
  | some .sink => .ok .empty

/-- Whether a path leads to anything. -/
def isPresent (path : Path) : Bool :=
  match disk.resolve path with
  | .ok place => (disk.get? place).isSome
  | .error _ => false

/-- Makes directories name by name, as far as that is possible. -/
def makeDirectories (disk : Disk) (place : Place) : List Name → Bool × Disk
  | [] => (true, disk)
  | name :: names =>
    match disk.step place name with
    | .error _ => (false, disk)
    | .ok place =>
      match disk.get? place with
      | some .directory => makeDirectories disk place names
      | some _ => (false, disk)
      | none => makeDirectories (disk.put place .directory) place names

/-- Makes the directory of a path and those that lead to it. -/
def makeDirectory (path : Path) : Bool × Disk :=
  if path.isEmpty then (true, disk)
  else
    match checkPath path with
    | .error _ => (false, disk)
    | .ok () => makeDirectories disk (disk.start path) path.pieces

/-! ## Databases -/

/-- The longest place on the way to a database, and the longest of a database. -/
def longestPlaces : Nat × Nat := (511, 504)

/-- The place that a name leads to, whether or not anything is stored there. A name after `..` is
looked for in the directory above even if the name before it leads nowhere; but the way must not
lead through a file. -/
def shorten? (place : Place) (name : Name) : Option Place :=
  let place := place.enter name
  if longestPlaces.1 < place.size then none
  else
    match place.foldlM disk.step [] with
    | .ok _ | .error .missing => some place
    | .error _ => none

/-- The place of the database at a path. -/
def databasePlace? (path : Path) : Option Place := do
  let place ← (disk.start path ++ path.pieces).foldlM disk.shorten? []
  if place.isEmpty ∨ longestPlaces.2 < place.size then none else some place

/-- What a file holds for one who looks for a database. A single byte is as good as none. -/
def Stored.content? : Stored → Option Content
  | .file bytes => if bytes.size ≤ 1 then some .empty else some .foreign
  | .database image => some (.database image)
  | .directory | .sink => none

/-- What the file of a database holds, and the disk after that file was made. -/
def openFile (path : Path) (make : Bool) : Option Content × Disk :=
  match disk.databasePlace? path with
  | none => (none, disk)
  | some place =>
    match disk.get? place, disk.get? place.dropLast with
    | some stored, _ => (Stored.content? stored, disk)
    | none, some .directory =>
      if make then (some .empty, disk.put place (.file .empty)) else (none, disk)
    | none, _ => (none, disk)

/-- The disk with a database in its file. -/
def saveDatabase (path : Path) (image : Image) : Disk :=
  match disk.databasePlace? path with
  | some place => disk.put place (.database image)
  | none => disk

end Disk

instance : Machine (StateM Disk) where
  readFile path := do return (← get).readFile path
  isPresent path := do return (← get).isPresent path
  makeDirectory path := modifyGet fun disk => disk.makeDirectory path
  openFile path make := modifyGet fun disk => disk.openFile path make
  saveDatabase path image := modify fun disk => disk.saveDatabase path image

end ReviewRota.CommandLine
