import ReviewRota.Toml.Scalar
import ReviewRota.Toml.Tree

/-!
# Reading TOML

* `Statement`: a line of a document with content; `readStatements?` reads all of them.
* `Toml.parse?`: the table that a document holds. Brackets may be nested 79 deep, and a key may have
  79 parts.
-/

namespace ReviewRota.Toml

/-- The most parts of a key, and the most brackets around a value. -/
def depthLimit : Nat :=
  79

/-! ## Values -/

/-- The items of an array after its opening bracket, each read by `item`. A comma may stand after
the last. -/
def readItems? (item : List Char → Option (Toml × List Char)) :
    (fuel : Nat) → List Char → Option (List Toml × List Char)
  | 0, _ => none
  | fuel + 1, s =>
    match skipLayout false s with
    | ']' :: rest => some ([], rest)
    | s => do
      let (v, rest) ← item s
      match skipLayout false rest with
      | ']' :: rest => pure ([v], rest)
      | ',' :: rest =>
        let (vs, rest) ← readItems? item fuel rest
        pure (v :: vs, rest)
      | _ => none

/-- An entry: a key, an equals sign, and a value read by `item`. -/
def readEntry? (item : List Char → Option (Toml × List Char)) (s : List Char) :
    Option ((Key × Toml) × List Char) := do
  let (key, rest) ← readKey? depthLimit s
  match rest with
  | '=' :: rest =>
    let (v, rest) ← item (skipBlank rest)
    pure ((key, v), rest)
  | _ => none

/-- The entries of an inline table, of which there is at least one, up to its closing bracket. -/
def readEntries? (item : List Char → Option (Toml × List Char)) :
    (fuel : Nat) → List Char → Option (List (Key × Toml) × List Char)
  | 0, _ => none
  | fuel + 1, s => do
    let (entry, rest) ← readEntry? item s
    match skipBlank rest with
    | '}' :: rest => pure ([entry], rest)
    | ',' :: rest =>
      let (entries, rest) ← readEntries? item fuel rest
      pure (entry :: entries, rest)
    | _ => none

/-- The table of some entries. -/
def ofEntries? (entries : List (Key × Toml)) : Option Toml := do
  let members ← entries.foldlM (fun members (key, v) => insert? key v .declared members) []
  pure (.table (membersToToml members))

/-- A value with at most `depth` brackets around any part of it. Each item and each entry takes a
character at least, which bounds their number. -/
def readValue? : (depth : Nat) → List Char → Option (Toml × List Char)
  | depth + 1, '[' :: rest => do
    let (items, rest) ← readItems? (readValue? depth) rest.length rest
    pure (.arr items, rest)
  | depth + 1, '{' :: rest =>
    match skipBlank rest with
    | '}' :: rest => some (.table [], rest)
    | rest => do
      let (entries, rest) ← readEntries? (readValue? depth) rest.length rest
      pure (← ofEntries? entries, rest)
  | _, s => readScalar? s

/-! ## Documents -/

/-- A line with content. -/
inductive Statement where
  | entry (key : Key) (v : Toml)
  /-- The header of a table. -/
  | header (key : Key)
  /-- The header of an element of an array of tables. -/
  | elementHeader (key : Key)

/-- The content of a line. -/
def readStatement? : List Char → Option (Statement × List Char)
  | '[' :: '[' :: rest => do
    let (key, rest) ← readKey? depthLimit rest
    match rest with
    | ']' :: ']' :: rest => pure (.elementHeader key, rest)
    | _ => none
  | '[' :: rest => do
    let (key, rest) ← readKey? depthLimit rest
    match rest with
    | ']' :: rest => pure (.header key, rest)
    | _ => none
  | s => do
    let ((key, v), rest) ← readEntry? (readValue? depthLimit) s
    pure (.entry key v, rest)

/-- The lines with content. Each line takes a character at least, which bounds their number. -/
def readStatements? : (fuel : Nat) → List Char → Option (List Statement)
  | _, [] => some []
  | 0, _ => none
  | fuel + 1, s =>
    match endLine? s with
    | some rest => readStatements? fuel rest
    | none => do
      let (statement, rest) ← readStatement? (skipBlank s)
      let rest ← endLine? rest
      let statements ← readStatements? fuel rest
      pure (statement :: statements)

/-- A document up to some line: its tables, and the table that entries go to. -/
structure Document where
  members : Members
  /-- The path of the last header. -/
  current : List String

/-- A document after one more line. -/
def Document.extend? (d : Document) : Statement → Option Document
  | .entry key v => do
    let members ← descend? false d.current (insert? key v) .declared d.members
    pure { d with members }
  | .header key => do
    pure ⟨← declare? key d.members, key.path ++ [key.name]⟩
  | .elementHeader key => do
    pure ⟨← append? key d.members, key.path ++ [key.name]⟩

/-- A text without the byte order mark that it starts with, if it does. -/
def skipByteOrderMark : List Char → List Char
  | '\ufeff' :: rest => rest
  | s => s

/-- The table that a text holds. -/
def parse? (text : String) : Option Toml := do
  let s := skipByteOrderMark text.toList
  let statements ← readStatements? s.length s
  let document ← statements.foldlM Document.extend? ⟨[], []⟩
  pure (.table (membersToToml document.members))

end ReviewRota.Toml
