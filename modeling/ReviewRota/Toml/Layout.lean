import ReviewRota.Text.Blank

/-!
# Layout of TOML

White space, comments and ends of lines.

* `isPlain`: the characters that may stand in comments and strings.
* `skipBlank`, `skipLayout`: what may be passed over on one line, and inside an array.
* `endLine?`: the rest of a line after its content.
-/

namespace ReviewRota.Toml

/-- Any character but the control characters; a tab is none of them here. -/
def isPlain (c : Char) : Bool :=
  c == '\t' || (0x20 ≤ c.toNat && c.toNat != 0x7F)

/-- White space within a line. -/
def isBlank (c : Char) : Bool :=
  c == ' ' || c == '\t'

/-- A text after white space within a line. -/
def skipBlank (s : List Char) : List Char :=
  s.dropWhile isBlank

/-- A text after the end of a line. -/
def newline? : List Char → Option (List Char)
  | '\n' :: rest => some rest
  | '\r' :: '\n' :: rest => some rest
  | _ => none

/-- A text after a comment, if it starts with one. -/
def skipComment : List Char → List Char
  | '#' :: rest => rest.dropWhile isPlain
  | s => s

/-- A text after white space, a comment and the end of the line or of the text. -/
def endLine? (s : List Char) : Option (List Char) :=
  match skipComment (skipBlank s) with
  | [] => some []
  | rest => newline? rest

/-- A text after white space, ends of lines and comments; `comment` tells whether it starts inside
a comment. -/
def skipLayout (comment : Bool) : List Char → List Char
  | [] => []
  | '\n' :: rest => skipLayout false rest
  | '\r' :: '\n' :: rest => skipLayout false rest
  | c :: rest =>
    if comment then
      if isPlain c then skipLayout true rest else c :: rest
    else if isBlank c then skipLayout false rest
    else if c == '#' then skipLayout true rest
    else c :: rest

end ReviewRota.Toml
