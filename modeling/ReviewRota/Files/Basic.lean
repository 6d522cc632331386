import ReviewRota.Fault

/-!
# Files

What keeps a file from being read, and the fault it becomes.

* `FileProblem`: the causes; `FileProblem.fault` words them as an operating system does.
* `decodeFile`: the text of a file.
-/

namespace ReviewRota

/-- What keeps a file from being read. -/
inductive FileProblem where
  | missing
  /-- The path leads through a file. -/
  | throughFile
  | isDirectory
  | nameTooLong
  /-- The path holds a byte that no name can hold. -/
  | invalidName
  | notText
  /-- Anything else, in the words of the system. -/
  | other (text : String)
  deriving DecidableEq, Repr

/-- The fault that a problem becomes. -/
def FileProblem.fault : FileProblem → Fault
  | missing => .io (some "No such file or directory (os error 2)")
  | throughFile => .io (some "Not a directory (os error 20)")
  | isDirectory => .io (some "Is a directory (os error 21)")
  | nameTooLong => .io (some "File name too long (os error 36)")
  | invalidName => .io (some "file name contained an unexpected NUL byte")
  | notText => .io (some "stream did not contain valid UTF-8")
  | other text => .io (some text)

/-- The text of a file with these bytes. -/
def decodeFile (bytes : ByteArray) : Except Fault String :=
  match String.fromUTF8? bytes with
  | some text => .ok text
  | none => .error FileProblem.notText.fault

end ReviewRota
