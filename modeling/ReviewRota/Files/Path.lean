import ReviewRota.Text.Pieces

/-!
# Paths

Paths as an operating system sees them: bytes, with slashes between the names.

* `Path.pieces`: what stands between the slashes.
* `Path.parent`: the path of the directory that holds what a path names.
-/

namespace ReviewRota

/-- A name in a directory, byte by byte. -/
abbrev Name :=
  List UInt8

namespace Name

/-- The name of the directory itself. -/
def self : Name := [46]

/-- The name of the directory above. -/
def above : Name := [46, 46]

/-- Whether a name leads nowhere else. -/
def isIdle (name : Name) : Bool :=
  name.isEmpty || name == self

end Name

/-- A path, byte by byte. -/
abbrev Path :=
  List UInt8

namespace Path

/-- The path that a text stands for. -/
def ofText (text : String) : Path :=
  text.toUTF8.toList

/-- The text of a path, if it is one. -/
def toText? (path : Path) : Option String :=
  String.fromUTF8? ⟨path.toArray⟩

/-- The byte between two names. -/
def slash : UInt8 := 47

/-- Whether a path starts at the root. -/
def isAbsolute (path : Path) : Bool :=
  path.head? == some slash

/-- What stands between the slashes of a path. -/
def pieces (path : Path) : List Name :=
  Text.split slash path

/-- Pieces without those at the end that lead nowhere else, the first one excepted. -/
def trim : List Name → List Name
  | [] => []
  | first :: names => first :: (names.reverse.dropWhile Name.isIdle).reverse

/-- The last name of a path. -/
def name (path : Path) : Name :=
  (trim path.pieces).getLastD []

/-- The path of the directory that holds what a path names; empty where the path is no more than a
name. -/
def parent (path : Path) : Path :=
  Text.join slash (trim (trim path.pieces).dropLast)

end Path

end ReviewRota
