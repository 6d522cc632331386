import ReviewRota.Toml.Basic

/-!
# Tables under construction

A document declares its tables piece by piece, and each table once.

* `Node`: what stands under a key so far.
* `insert?`: adds an entry under a dotted key.
* `declare?`, `append?`: what the headers of tables and of array elements do.
* `Node.toToml`: the value in the end.
-/

namespace ReviewRota.Toml

/-- How a table came about. -/
inductive Standing where
  /-- By a header of its own, or as the whole document. -/
  | declared
  /-- By the header of a table inside it. -/
  | implied
  /-- By the dotted key of an entry. -/
  | dotted
  deriving DecidableEq, Repr

/-- What stands under a key. -/
inductive Node where
  | value (v : Toml)
  | table (standing : Standing) (members : List (String × Node))
  /-- An array of tables, each element by a header of its own. -/
  | elements (tables : List (List (String × Node)))

/-- The entries of a table under construction. -/
abbrev Members :=
  List (String × Node)

/-- The entries with one put in its place, or at the end if its key is new. -/
def Members.put (members : Members) (key : String) (node : Node) : Members :=
  if (members.lookup key).isSome then
    members.map fun (k, n) => if k = key then (k, node) else (k, n)
  else members ++ [(key, node)]

/-- Changes the table at the end of a path, making tables that are missing. Of an array of tables
the last element is meant. The path of a dotted key does not lead through declared tables. -/
def descend? (isDotted : Bool) :
    (path : List String) → (Standing → Members → Option Members) → Standing → Members →
      Option Members
  | [], f, standing, members => f standing members
  | key :: path, f, _, members =>
    match members.lookup key with
    | none => do
      let standing := if isDotted then .dotted else .implied
      let inner ← descend? isDotted path f standing []
      pure (members.put key (.table standing inner))
    | some (.value _) => none
    | some (.table standing inner) => do
      if isDotted && standing = .declared then none
      let inner ← descend? isDotted path f standing inner
      pure (members.put key (.table standing inner))
    | some (.elements tables) => do
      let inner ← descend? isDotted path f .declared (← tables.getLast?)
      pure (members.put key (.elements (tables.dropLast ++ [inner])))

/-- Adds an entry under a new key. A dotted key ends in a table that dotted keys made, a plain key
in one that they did not make. -/
def insert? (key : Key) (v : Toml) (standing : Standing) (members : Members) : Option Members :=
  descend? true key.path (fun standing members =>
    if (standing = .dotted) = key.path.isEmpty then none
    else if (members.lookup key.name).isSome then none
    else some (members ++ [(key.name, .value v)])) standing members

/-- Declares a table, which may have been implied before. -/
def declare? (key : Key) (document : Members) : Option Members :=
  descend? false key.path (fun _ members =>
    match members.lookup key.name with
    | none => some (members.put key.name (.table .declared []))
    | some (.table .implied inner) => some (members.put key.name (.table .declared inner))
    | some _ => none) .declared document

/-- Appends an empty table to an array of tables. -/
def append? (key : Key) (document : Members) : Option Members :=
  descend? false key.path (fun _ members =>
    match members.lookup key.name with
    | none => some (members.put key.name (.elements [[]]))
    | some (.elements tables) => some (members.put key.name (.elements (tables ++ [[]])))
    | some _ => none) .declared document

mutual

/-- The value of a node. -/
def Node.toToml : Node → Toml
  | .value v => v
  | .table _ members => .table (membersToToml members)
  | .elements tables => .arr (elementsToToml tables)

/-- The values of entries. -/
def membersToToml : List (String × Node) → List (String × Toml)
  | [] => []
  | (key, node) :: rest => (key, node.toToml) :: membersToToml rest

/-- The values of the elements of an array of tables. -/
def elementsToToml : List (List (String × Node)) → List Toml
  | [] => []
  | members :: rest => .table (membersToToml members) :: elementsToToml rest

end

end ReviewRota.Toml
