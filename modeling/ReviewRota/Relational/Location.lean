import ReviewRota.Files.Path
import ReviewRota.Text.Digits
import ReviewRota.Text.Hexadecimal

/-!
# Locations of databases

Where a database is, and how a connection treats its file. A location is written as the path of a
file, or in the form `file:path?name=value&name=value#remark`, where `%41` stands for the byte 65.

* `Location`: a path with what the options choose.
* `Location.ofText?`: reads a location.
-/

namespace ReviewRota.Relational

/-! ## Options -/

/-- What a connection may do with its file. -/
inductive Access where
  | read
  | write
  /-- Write, and make the file if it is missing. -/
  | create
  /-- Leave the file alone and keep the data in memory. -/
  | memory
  deriving DecidableEq, Repr

namespace Access

/-- The access that an option names. -/
def ofName? : String → Option Access
  | "ro" => some read
  | "rw" => some write
  | "rwc" => some create
  | "memory" => some memory
  | _ => none

/-- How much an access asks for. -/
def demand : Access → Nat
  | memory => 0
  | read => 1
  | write => 2
  | create => 3

/-- How much can be asked for once an access is chosen. -/
def limit : Access → Nat
  | memory => 4
  | access => access.demand

end Access

/-- The system calls by which a connection reaches its file. -/
inductive Gateway where
  | usual
  | exclusive
  /-- Without locks. -/
  | lockless
  /-- With files for locks. -/
  | lockFiles
  /-- Without a file. -/
  | memory
  deriving DecidableEq, Repr

namespace Gateway

/-- The gateway that an option names. -/
def ofName? : String → Option Gateway
  | "unix" => some usual
  | "unix-excl" => some exclusive
  | "unix-none" => some lockless
  | "unix-dotfile" => some lockFiles
  | "memdb" => some memory
  | _ => none

/-- Whether changes can be logged in a file beside that of the database. -/
def canLog : Gateway → Bool
  | usual | exclusive => true
  | _ => false

end Gateway

/-- The number at the start of a text, in hexadecimal digits after `0x`. -/
def leadingNumber (text : List Char) : Nat :=
  let hexadecimal (digits : List Char) :=
    (Text.hexNumber? (digits.takeWhile fun c => (Text.hexValue? c).isSome)).getD 0
  match text with
  | '0' :: 'x' :: digits | '0' :: 'X' :: digits => hexadecimal digits
  | digits => Text.value (digits.takeWhile Char.isDigit)

/-- Whether the value of an option says yes. A number of up to 31 bits does, unless its last eight
bits are zero. -/
def isOn (value : List Char) : Bool :=
  if value.head?.any Char.isDigit then
    leadingNumber value < 2147483648 && leadingNumber value % 256 != 0
  else ["on", "yes", "true"].contains (Text.lower (String.ofList value))

/-! ## Locations -/

/-- Where a database is. -/
structure Location where
  path : Path
  access : Access := .create
  gateway : Gateway := .usual
  /-- Nobody changes the file, so it is read without precautions. -/
  isImmutable : Bool := false
  /-- Locks are neither set nor heeded. -/
  isUnlocked : Bool := false
  /-- The index of the log is not made where it is missing. -/
  hasFixedIndex : Bool := false
  /-- A file whose permissions are taken over. -/
  pattern : Option Path := none
  deriving DecidableEq

namespace Location

/-- Whether a database is kept in no file. -/
def isTransient (location : Location) : Bool :=
  location.path.isEmpty || location.path == .ofText ":memory:" || location.access == .memory ||
    location.gateway == .memory

/-! ## Reading -/

/-- Bytes as characters, one for each. -/
def characters (bytes : List UInt8) : List Char :=
  bytes.map fun b => Char.ofNat b.toNat

/-- The bytes that characters stand for. -/
def bytes (characters : List Char) : List UInt8 :=
  characters.map Char.toUInt8

/-- A text with what is written in hexadecimal. A zero ends it. -/
def unescape : List Char → List Char
  | '%' :: high :: low :: rest =>
    match Text.hexNumber? [high, low] with
    | some 0 => []
    | some n => Char.ofNat n :: unescape rest
    | none => '%' :: unescape (high :: low :: rest)
  | c :: rest => c :: unescape rest
  | [] => []

/-- An option by its name. -/
abbrev Choice :=
  String × List Char

/-- The options in a text. One without a name is none. -/
def choices (text : List Char) : List Choice :=
  (Text.split '&' text).filterMap fun piece =>
    let (name, value) := Text.cut '=' piece
    match unescape name with
    | [] => none
    | name => some (String.ofList name, unescape value)

/-- A location with one more option. Less access than before can be asked for, but not more. -/
def choose? (location : Location) : Choice → Option Location
  | (name, value) =>
    let value := String.ofList value
    match name with
    | "mode" => do
      let access ← Access.ofName? value
      if access.demand ≤ location.access.limit then some { location with access } else none
    | "cache" => if value = "shared" ∨ value = "private" then some location else none
    | _ => some location

/-- The gateway that the last option of its name chooses. -/
def gateway? (choices : List Choice) : Option Gateway :=
  match choices.reverse.lookup "vfs" with
  | some value => Gateway.ofName? (String.ofList value)
  | none => some .usual

/-- The location of a path and some options. Of an option that is on or off, the first of its name
counts. -/
def ofChoices? (path : Path) (choices : List Choice) : Option Location := do
  let isChosen (name : String) := (choices.lookup name).any isOn
  let location : Location :=
    { path
      gateway := ← gateway? choices
      isImmutable := isChosen "immutable"
      isUnlocked := isChosen "nolock"
      hasFixedIndex := isChosen "readonly_shm"
      pattern := (choices.lookup "modeof").map bytes }
  choices.foldlM choose? location

/-- What follows the authority of a location, which can only be this machine. -/
def afterAuthority? : List Char → Option (List Char)
  | '/' :: '/' :: rest =>
    let authority := rest.takeWhile (· != '/')
    if authority.isEmpty || authority == "localhost".toList then some (rest.drop authority.length)
    else none
  | rest => some rest

/-- Reads what follows `file:` in a location. -/
def ofRest? (text : List Char) : Option Location := do
  let (text, _remark) := Text.cut '#' (← afterAuthority? text)
  let (path, options) := Text.cut '?' text
  ofChoices? (bytes (unescape path)) (choices options)

/-- Reads a location. -/
def ofText? (text : String) : Option Location :=
  let path := Path.ofText text
  if path.contains 0 then none
  else
    match characters path with
    | 'f' :: 'i' :: 'l' :: 'e' :: ':' :: rest => ofRest? rest
    | _ => some { path }

end Location

end ReviewRota.Relational
