import ReviewRota.Text.Hexadecimal
import ReviewRota.Toml.Basic
import ReviewRota.Toml.Layout

/-!
# Strings and keys of TOML

* `readBasic?`, `readLiteral?`: strings of one line, with and without escapes.
* `readBasicBlock?`, `readLiteralBlock?`: strings over several lines.
* `readString?`: any of the four.
* `readKey?`: dotted keys.
-/

namespace ReviewRota.Toml

open Text (hexNumber?)

/-! ## Escapes -/

/-- The character that a letter after a backslash stands for. -/
def unescape? : Char → Option Char
  | '"' => some '"'
  | '\\' => some '\\'
  | 'b' => some '\x08'
  | 'f' => some '\x0c'
  | 'n' => some '\n'
  | 'r' => some '\r'
  | 't' => some '\t'
  | _ => none

/-- The character with a number in hexadecimal digits; surrogates are no characters. -/
def numbered? (digits : List Char) : Option Char := do
  let n ← hexNumber? digits
  if n.isValidChar then some (Char.ofNat n) else none

/-! ## Strings of one line -/

/-- A string with escapes, after its opening quote. -/
def readBasic? : List Char → Option (List Char × List Char)
  | '"' :: rest => some ([], rest)
  | '\\' :: 'u' :: a :: b :: c :: d :: rest => do
    let x ← numbered? [a, b, c, d]
    let (xs, rest) ← readBasic? rest
    pure (x :: xs, rest)
  | '\\' :: 'U' :: a :: b :: c :: d :: e :: f :: g :: h :: rest => do
    let x ← numbered? [a, b, c, d, e, f, g, h]
    let (xs, rest) ← readBasic? rest
    pure (x :: xs, rest)
  | '\\' :: c :: rest => do
    let x ← unescape? c
    let (xs, rest) ← readBasic? rest
    pure (x :: xs, rest)
  | c :: rest => do
    if !isPlain c || c == '\\' then none
    let (xs, rest) ← readBasic? rest
    pure (c :: xs, rest)
  | [] => none

/-- A string without escapes, after its opening quote. -/
def readLiteral? (s : List Char) : Option (List Char × List Char) :=
  let (content, rest) := s.span fun c => isPlain c && c != '\''
  match rest with
  | '\'' :: rest => some (content, rest)
  | _ => none

/-! ## Strings over several lines -/

/-- A string with escapes over several lines, after its opening quotes. A backslash at the end of a
line takes with it all white space up to the next content, as long as `trimming` holds. Up to two
quotes may stand before the closing ones. -/
def readBasicBlock? (trimming : Bool) : List Char → Option (List Char × List Char)
  | '"' :: '"' :: '"' :: '"' :: '"' :: rest => some (['"', '"'], rest)
  | '"' :: '"' :: '"' :: '"' :: rest => some (['"'], rest)
  | '"' :: '"' :: '"' :: rest => some ([], rest)
  | '\\' :: 'u' :: a :: b :: c :: d :: rest => do
    let x ← numbered? [a, b, c, d]
    let (xs, rest) ← readBasicBlock? false rest
    pure (x :: xs, rest)
  | '\\' :: 'U' :: a :: b :: c :: d :: e :: f :: g :: h :: rest => do
    let x ← numbered? [a, b, c, d, e, f, g, h]
    let (xs, rest) ← readBasicBlock? false rest
    pure (x :: xs, rest)
  | '\\' :: c :: rest =>
    if (newline? (skipBlank (c :: rest))).isSome then readBasicBlock? true (c :: rest)
    else do
      let x ← unescape? c
      let (xs, rest) ← readBasicBlock? false rest
      pure (x :: xs, rest)
  | '\r' :: '\n' :: rest =>
    if trimming then readBasicBlock? true rest
    else do
      let (xs, rest) ← readBasicBlock? false rest
      pure ('\n' :: xs, rest)
  | c :: rest =>
    if trimming && (isBlank c || c == '\n') then readBasicBlock? true rest
    else if (isPlain c && c != '\\') || c == '\n' then do
      let (xs, rest) ← readBasicBlock? false rest
      pure (c :: xs, rest)
    else none
  | [] => none

/-- A string without escapes over several lines, after its opening quotes. -/
def readLiteralBlock? : List Char → Option (List Char × List Char)
  | '\'' :: '\'' :: '\'' :: '\'' :: '\'' :: rest => some (['\'', '\''], rest)
  | '\'' :: '\'' :: '\'' :: '\'' :: rest => some (['\''], rest)
  | '\'' :: '\'' :: '\'' :: rest => some ([], rest)
  | '\r' :: '\n' :: rest => do
    let (xs, rest) ← readLiteralBlock? rest
    pure ('\n' :: xs, rest)
  | c :: rest =>
    if isPlain c || c == '\n' then do
      let (xs, rest) ← readLiteralBlock? rest
      pure (c :: xs, rest)
    else none
  | [] => none

/-- A text without the end of line that it starts with, if it does. -/
def skipNewline (s : List Char) : List Char :=
  (newline? s).getD s

/-- A string of any of the four forms. -/
def readString? : List Char → Option (List Char × List Char)
  | '"' :: '"' :: '"' :: rest => readBasicBlock? false (skipNewline rest)
  | '"' :: rest => readBasic? rest
  | '\'' :: '\'' :: '\'' :: rest => readLiteralBlock? (skipNewline rest)
  | '\'' :: rest => readLiteral? rest
  | _ => none

/-! ## Keys -/

/-- The characters of a bare key. -/
def isBare (c : Char) : Bool :=
  c.isAlphanum || c == '_' || c == '-'

/-- One part of a key. -/
def readPart? : List Char → Option (String × List Char)
  | '"' :: rest => (readBasic? rest).map fun (x, rest) => (String.ofList x, rest)
  | '\'' :: rest => (readLiteral? rest).map fun (x, rest) => (String.ofList x, rest)
  | s =>
    match s.takeWhile isBare with
    | [] => none
    | part => some (String.ofList part, s.dropWhile isBare)

/-- A key of at most `limit` parts, with white space around each. -/
def readKey? : (limit : Nat) → List Char → Option (Key × List Char)
  | 0, _ => none
  | limit + 1, s => do
    let (name, rest) ← readPart? (skipBlank s)
    match skipBlank rest with
    | '.' :: rest =>
      let (key, rest) ← readKey? limit rest
      pure (⟨name :: key.path, key.name⟩, rest)
    | rest => pure (⟨[], name⟩, rest)

end ReviewRota.Toml
