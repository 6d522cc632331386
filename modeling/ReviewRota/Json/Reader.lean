import ReviewRota.Json.Basic
import ReviewRota.Text.Hexadecimal
import ReviewRota.Text.Scientific

/-!
# Reading JSON

* `Json.parse?`: the value that a text holds. Of a repeated key the last value counts. Brackets may
  be nested 127 deep, a surrogate may only stand in a pair, and a number must be finite.
-/

namespace ReviewRota.Json

open Text (Scientific hexNumber?)

/-- The text after its leading white space. -/
def skipSpace (s : List Char) : List Char :=
  s.dropWhile fun c => c == ' ' || c == '\n' || c == '\t' || c == '\r'

/-! ## Strings -/

/-- The character that a letter after a backslash stands for. -/
def unescape? : Char → Option Char
  | '"' => some '"'
  | '\\' => some '\\'
  | '/' => some '/'
  | 'b' => some '\x08'
  | 'f' => some '\x0c'
  | 'n' => some '\n'
  | 'r' => some '\r'
  | 't' => some '\t'
  | _ => none

/-- The units of a string up to its closing quote: characters, and 16-bit units that were written
as numbers. -/
def units? : List Char → Option (List (Char ⊕ Nat) × List Char)
  | '"' :: rest => some ([], rest)
  | '\\' :: 'u' :: a :: b :: c :: d :: rest => do
    let unit ← hexNumber? [a, b, c, d]
    let (units, rest) ← units? rest
    pure (.inr unit :: units, rest)
  | '\\' :: c :: rest => do
    let c ← unescape? c
    let (units, rest) ← units? rest
    pure (.inl c :: units, rest)
  | c :: rest => do
    if c.toNat < 0x20 ∨ c = '\\' then none
    let (units, rest) ← units? rest
    pure (.inl c :: units, rest)
  | [] => none

/-- The characters of a string, two paired surrogates being one. -/
def characters? : List (Char ⊕ Nat) → Option (List Char)
  | [] => some []
  | .inl c :: rest => (c :: ·) <$> characters? rest
  | .inr high :: .inr low :: rest =>
    if 0xD800 ≤ high ∧ high < 0xDC00 then
      if 0xDC00 ≤ low ∧ low < 0xE000 then
        (Char.ofNat (0x10000 + 1024 * (high - 0xD800) + (low - 0xDC00)) :: ·) <$> characters? rest
      else none
    else if 0xDC00 ≤ high ∧ high < 0xE000 then none
    else (Char.ofNat high :: ·) <$> characters? (.inr low :: rest)
  | .inr unit :: rest =>
    if 0xD800 ≤ unit ∧ unit < 0xE000 then none else (Char.ofNat unit :: ·) <$> characters? rest

/-- A string after its opening quote. -/
def readText? (s : List Char) : Option (String × List Char) := do
  let (units, rest) ← units? s
  let characters ← characters? units
  pure (String.ofList characters, rest)

/-! ## Numbers -/

/-- Digits at the start of a text, at least one. -/
def readDigits? (s : List Char) : Option (List Char × List Char) :=
  match s.takeWhile Char.isDigit with
  | [] => none
  | digits => some (digits, s.dropWhile Char.isDigit)

/-- An optional fraction: its digits. -/
def readFraction? : List Char → Option (List Char × List Char)
  | '.' :: rest => readDigits? rest
  | rest => some ([], rest)

/-- An optional exponent: its value, `none` if it is absent. -/
def readExponent? : List Char → Option (Option Int × List Char)
  | c :: rest =>
    if c = 'e' ∨ c = 'E' then
      match rest with
      | '-' :: rest => (readDigits? rest).map fun (d, rest) => (some (-(Text.value d : Int)), rest)
      | '+' :: rest => (readDigits? rest).map fun (d, rest) => (some (Text.value d : Int), rest)
      | rest => (readDigits? rest).map fun (d, rest) => (some (Text.value d : Int), rest)
    else some (none, c :: rest)
  | [] => some (none, [])

/-- A number. -/
def readNumber? (s : List Char) : Option (Json × List Char) := do
  let (negative, unsigned) :=
    match s with
    | '-' :: rest => (true, rest)
    | rest => (false, rest)
  let (whole, rest) ← readDigits? unsigned
  if whole.head? = some '0' ∧ 1 < whole.length then none
  let (fraction, rest) ← readFraction? rest
  let (exponent, rest) ← readExponent? rest
  let n : Int := if negative then -(Text.value whole : Int) else Text.value whole
  let isWhole := fraction.isEmpty && exponent.isNone && !(negative && n == 0)
  if isWhole ∧ -9223372036854775808 ≤ n ∧ n < 18446744073709551616 then pure (.int n, rest)
  else
    let size : Scientific :=
      ⟨Text.value (whole ++ fraction), exponent.getD 0 - fraction.length⟩
    if size.overflows then none
    pure (.decimal (String.ofList (s.take (s.length - rest.length))), rest)

/-! ## Values -/

/-- The members with one more; a key that is there already gets the new value. -/
def setMember (members : List (String × Json)) (name : String) (value : Json) :
    List (String × Json) :=
  if (members.lookup name).isSome then
    members.map fun (n, v) => if n = name then (n, value) else (n, v)
  else members ++ [(name, value)]

/-- The object of some members, in which the last value of a repeated key counts. -/
def ofMembers (members : List (String × Json)) : Json :=
  .obj (members.foldl (fun read (name, value) => setMember read name value) [])

/-- The items of an array, each read by `item`, up to its closing bracket. -/
def readItems? (item : List Char → Option (Json × List Char)) :
    (fuel : Nat) → List Char → Option (List Json × List Char)
  | 0, _ => none
  | fuel + 1, s => do
    let (value, rest) ← item s
    match skipSpace rest with
    | ']' :: rest => pure ([value], rest)
    | ',' :: rest =>
      let (values, rest) ← readItems? item fuel rest
      pure (value :: values, rest)
    | _ => none

/-- The members of an object, their values read by `item`, up to its closing bracket. -/
def readMembers? (item : List Char → Option (Json × List Char)) :
    (fuel : Nat) → List Char → Option (List (String × Json) × List Char)
  | 0, _ => none
  | fuel + 1, s => do
    let '"' :: rest := skipSpace s | none
    let (name, rest) ← readText? rest
    let ':' :: rest := skipSpace rest | none
    let (value, rest) ← item rest
    match skipSpace rest with
    | '}' :: rest => pure ([(name, value)], rest)
    | ',' :: rest =>
      let (members, rest) ← readMembers? item fuel rest
      pure ((name, value) :: members, rest)
    | _ => none

/-- A value without brackets. -/
def readScalar? : List Char → Option (Json × List Char)
  | '"' :: rest => (readText? rest).map fun (s, rest) => (.str s, rest)
  | 't' :: 'r' :: 'u' :: 'e' :: rest => some (.bool true, rest)
  | 'f' :: 'a' :: 'l' :: 's' :: 'e' :: rest => some (.bool false, rest)
  | 'n' :: 'u' :: 'l' :: 'l' :: rest => some (.null, rest)
  | rest => readNumber? rest

/-- A value, after white space, with at most `depth` brackets around any part of it. Each item and
each member takes a character at least, which bounds their number. -/
def readValue? (depth : Nat) (s : List Char) : Option (Json × List Char) :=
  match depth, skipSpace s with
  | depth + 1, '{' :: rest =>
    match skipSpace rest with
    | '}' :: rest => some (.obj [], rest)
    | rest => (readMembers? (readValue? depth) rest.length rest).map fun (members, rest) =>
      (ofMembers members, rest)
  | depth + 1, '[' :: rest =>
    match skipSpace rest with
    | ']' :: rest => some (.arr [], rest)
    | rest => (readItems? (readValue? depth) rest.length rest).map fun (items, rest) =>
      (.arr items, rest)
  | _, rest => readScalar? rest

/-- The value that a text holds, with white space around it. -/
def parse? (text : String) : Option Json := do
  let (value, rest) ← readValue? 127 text.toList
  if (skipSpace rest).isEmpty then some value else none

end ReviewRota.Json
