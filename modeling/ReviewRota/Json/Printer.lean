import ReviewRota.Json.Basic
import ReviewRota.Text.Hexadecimal

/-!
# Writing JSON

* `Json.compress`: on one line, without spaces.
* `Json.pretty`: one member or item a line, indented by two spaces.

Characters beyond ASCII stand for themselves; of ASCII, quotes, backslashes and control characters
are escaped.
-/

namespace ReviewRota.Json

open Text (hexDigit)

/-- A character inside a string. -/
def escape (c : Char) : List Char :=
  match c with
  | '"' => ['\\', '"']
  | '\\' => ['\\', '\\']
  | '\n' => ['\\', 'n']
  | '\r' => ['\\', 'r']
  | '\t' => ['\\', 't']
  | '\x08' => ['\\', 'b']
  | '\x0c' => ['\\', 'f']
  | c =>
    if c.toNat < 0x20 then ['\\', 'u', '0', '0', hexDigit (c.toNat / 16), hexDigit (c.toNat % 16)]
    else [c]

/-- A string with its quotes. -/
def quote (s : String) : String :=
  String.ofList ('"' :: s.toList.flatMap escape ++ ['"'])

/-- The layout of lists: what stands after an opening bracket, between entries and before the
closing bracket, at a depth. -/
structure Layout where
  opening : Nat → String
  between : Nat → String
  closing : Nat → String
  colon : String

/-- Everything on one line. -/
def Layout.compressed : Layout where
  opening _ := ""
  between _ := ","
  closing _ := ""
  colon := ":"

/-- A line break and the indentation at a depth. -/
def Layout.newline (depth : Nat) : String :=
  String.ofList ('\n' :: List.replicate (2 * depth) ' ')

/-- One entry a line. -/
def Layout.indented : Layout where
  opening depth := newline (depth + 1)
  between depth := "," ++ newline (depth + 1)
  closing depth := newline depth
  colon := ": "

/-- Entries between brackets, or the bare brackets if there are none. -/
def Layout.bracket (layout : Layout) (depth : Nat) (left right : Char) (entries : List String) :
    String :=
  if entries.isEmpty then String.ofList [left, right]
  else
    String.singleton left ++ layout.opening depth ++
      String.intercalate (layout.between depth) entries ++ layout.closing depth ++
      String.singleton right

mutual

/-- A value in a layout, at a depth. -/
def render (layout : Layout) (depth : Nat) : Json → String
  | null => "null"
  | bool b => if b then "true" else "false"
  | int n => toString n
  | decimal text => text
  | str s => quote s
  | arr items => layout.bracket depth '[' ']' (renderItems layout (depth + 1) items)
  | obj members => layout.bracket depth '{' '}' (renderMembers layout (depth + 1) members)

/-- The items of an array. -/
def renderItems (layout : Layout) (depth : Nat) : List Json → List String
  | [] => []
  | item :: rest => render layout depth item :: renderItems layout depth rest

/-- The members of an object. -/
def renderMembers (layout : Layout) (depth : Nat) : List (String × Json) → List String
  | [] => []
  | (name, value) :: rest =>
    (quote name ++ layout.colon ++ render layout depth value) :: renderMembers layout depth rest

end

/-- A value on one line. -/
def compress (value : Json) : String :=
  render .compressed 0 value

/-- A value with one entry a line. -/
def pretty (value : Json) : String :=
  render .indented 0 value

end ReviewRota.Json
