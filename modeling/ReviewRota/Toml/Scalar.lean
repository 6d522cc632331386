import ReviewRota.Instant.Calendar
import ReviewRota.Text.Digits
import ReviewRota.Text.Hexadecimal
import ReviewRota.Text.Scientific
import ReviewRota.Toml.Text

/-!
# Numbers, dates and truth values of TOML

* `readInt?`, `readFloat?`: numbers, in whose digits single underscores may stand.
* `readMoment?`: dates, times of day and points in time.
* `readScalar?`: any value without brackets.
-/

namespace ReviewRota.Toml

open Text (Scientific value hexValue?)

/-! ## Digits -/

/-- Further digits, each of which may follow an underscore. -/
def readMoreDigits (isDigit : Char → Bool) : List Char → List Char × List Char
  | '_' :: c :: rest =>
    if isDigit c then
      let (digits, rest) := readMoreDigits isDigit rest
      (c :: digits, rest)
    else ([], '_' :: c :: rest)
  | c :: rest =>
    if isDigit c then
      let (digits, rest) := readMoreDigits isDigit rest
      (c :: digits, rest)
    else ([], c :: rest)
  | [] => ([], [])

/-- Digits, of which there is at least one. -/
def readDigits? (isDigit : Char → Bool) : List Char → Option (List Char × List Char)
  | c :: rest =>
    if isDigit c then
      let (digits, rest) := readMoreDigits isDigit rest
      some (c :: digits, rest)
    else none
  | [] => none

/-- Decimal digits without leading zeros. -/
def readWhole? : List Char → Option (List Char × List Char)
  | '0' :: rest => some (['0'], rest)
  | s => readDigits? Char.isDigit s

/-- An optional sign: whether it is a minus. -/
def readSign : List Char → Bool × List Char
  | '-' :: rest => (true, rest)
  | '+' :: rest => (false, rest)
  | s => (false, s)

/-! ## Whole numbers -/

/-- A digit of a base up to 16. -/
def isDigitOf (base : Nat) (c : Char) : Bool :=
  (hexValue? c).any (· < base)

/-- The number that digits of a base stand for. -/
def valueOf (base : Nat) (digits : List Char) : Nat :=
  digits.foldl (fun n c => base * n + (hexValue? c).getD 0) 0

/-- A whole number that fits in 64 bits with sign. -/
def int? (n : Int) : Option Toml :=
  if -9223372036854775808 ≤ n ∧ n < 9223372036854775808 then some (.int n) else none

/-- A whole number of a base other than ten, after its mark. -/
def readBased? (base : Nat) (s : List Char) : Option (Toml × List Char) := do
  let (digits, rest) ← readDigits? (isDigitOf base) s
  pure (← int? (valueOf base digits), rest)

/-- A whole number. -/
def readInt? : List Char → Option (Toml × List Char)
  | '0' :: 'x' :: rest => readBased? 16 rest
  | '0' :: 'o' :: rest => readBased? 8 rest
  | '0' :: 'b' :: rest => readBased? 2 rest
  | s => do
    let (negative, unsigned) := readSign s
    let (digits, rest) ← readWhole? unsigned
    let n : Int := value digits
    pure (← int? (if negative then -n else n), rest)

/-! ## Fractions -/

/-- An optional fraction: its digits. -/
def readFraction? : List Char → Option (List Char × List Char)
  | '.' :: rest => readDigits? Char.isDigit rest
  | rest => some ([], rest)

/-- An optional exponent. -/
def readExponent? : List Char → Option (Int × List Char)
  | c :: rest =>
    if c = 'e' ∨ c = 'E' then do
      let (negative, unsigned) := readSign rest
      let (digits, rest) ← readDigits? Char.isDigit unsigned
      let n : Int := value digits
      pure (if negative then -n else n, rest)
    else some (0, c :: rest)
  | [] => some (0, [])

/-- A text after a number with a fraction, an exponent or both, after its sign. A positive number
must not round to infinity. -/
def skipDecimal? (negative : Bool) (s : List Char) : Option (List Char) := do
  let (whole, afterWhole) ← readWhole? s
  let (fraction, rest) ← readFraction? afterWhole
  let (exponent, rest) ← readExponent? rest
  if rest.length = afterWhole.length then none
  let size : Scientific := ⟨value (whole ++ fraction), exponent - fraction.length⟩
  if !negative && size.overflows then none
  pure rest

/-- A binary fraction, infinity or the value that is no number. -/
def readFloat? (s : List Char) : Option (Toml × List Char) := do
  let (negative, unsigned) := readSign s
  let rest ←
    match unsigned with
    | 'i' :: 'n' :: 'f' :: rest => some rest
    | 'n' :: 'a' :: 'n' :: rest => some rest
    | unsigned => skipDecimal? negative unsigned
  pure (.float (String.ofList (s.take (s.length - rest.length))), rest)

/-! ## Dates and times -/

/-- Exactly two digits whose value is at most `limit`. -/
def readTwo? (limit : Nat) : List Char → Option (Nat × List Char)
  | a :: b :: rest =>
    if a.isDigit ∧ b.isDigit ∧ value [a, b] ≤ limit then some (value [a, b], rest) else none
  | _ => none

/-- A text after one given character. -/
def skipMark? (c : Char) : List Char → Option (List Char)
  | d :: rest => if d = c then some rest else none
  | [] => none

/-- A text after a date of the calendar. -/
def skipDate? (s : List Char) : Option (List Char) := do
  let year := s.take 4
  if year.length ≠ 4 ∨ !year.all Char.isDigit then none
  let rest ← skipMark? '-' (s.drop 4)
  let (month, rest) ← readTwo? 12 rest
  let rest ← skipMark? '-' rest
  let (day, rest) ← readTwo? 31 rest
  let _ ← Date.of? (value year) month day
  pure rest

/-- A text after a time of day, seconds included. -/
def skipTime? (s : List Char) : Option (List Char) := do
  let (_, rest) ← readTwo? 23 s
  let rest ← skipMark? ':' rest
  let (_, rest) ← readTwo? 59 rest
  let rest ← skipMark? ':' rest
  let (_, rest) ← readTwo? 60 rest
  match rest with
  | '.' :: c :: rest => if c.isDigit then some (rest.dropWhile Char.isDigit) else none
  | '.' :: [] => none
  | rest => some rest

/-- A text after an offset from universal time. -/
def skipOffset? : List Char → Option (List Char)
  | 'Z' :: rest | 'z' :: rest => some rest
  | '+' :: rest | '-' :: rest => do
    let (_, rest) ← readTwo? 23 rest
    let rest ← skipMark? ':' rest
    let (_, rest) ← readTwo? 59 rest
    pure rest
  | _ => none

/-- A text after the time that may follow a date, with its optional offset. -/
def skipTimeOfDate? : List Char → Option (List Char)
  | c :: rest =>
    if c = 'T' ∨ c = 't' ∨ c = ' ' then do
      let rest ← skipTime? rest
      pure ((skipOffset? rest).getD rest)
    else none
  | [] => none

/-- A date, a time of day or both. -/
def readMoment? (s : List Char) : Option (Toml × List Char) := do
  let rest ←
    match skipDate? s with
    | some rest => some ((skipTimeOfDate? rest).getD rest)
    | none => skipTime? s
  pure (.moment (String.ofList (s.take (s.length - rest.length))), rest)

/-! ## All values without brackets -/

/-- A value without brackets. -/
def readScalar? (s : List Char) : Option (Toml × List Char) :=
  match s with
  | 't' :: 'r' :: 'u' :: 'e' :: rest => some (.bool true, rest)
  | 'f' :: 'a' :: 'l' :: 's' :: 'e' :: rest => some (.bool false, rest)
  | s =>
    ((readString? s).map fun (text, rest) => (.str (String.ofList text), rest)) <|>
      readMoment? s <|> readFloat? s <|> readInt? s

end ReviewRota.Toml
