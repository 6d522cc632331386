import ReviewRota.Instant.Basic
import ReviewRota.Text.Blank
import ReviewRota.Text.Digits

/-!
# Instants as text

Two spellings are written and a wider grammar is read, all by RFC 3339.

* `Instant.toText`: `2024-03-01T09:00:00.500Z`, with the fewest of 0, 3, 6 or 9 fraction digits
  that lose nothing. Years outside 0000 to 9999 carry a sign.
* `Instant.storedText`: the same with the offset `+00:00`, as a database column holds it.
* `Instant.ofText?`: reads any offset; `t`, `T` or one space before the time; unpadded fields;
  white space between fields; more than nine fraction digits, of which nine count.
-/

namespace ReviewRota.Instant

open Text

/-! ## Writing -/

/-- A year: four digits, or a sign and at least four. -/
def yearText (year : Int) : List Char :=
  let digits := year.natAbs
  let width := if digits < 10000 then 4 else if digits < 100000 then 5 else 6
  if 0 ≤ year ∧ year < 10000 then fixed 4 digits
  else (if year < 0 then '-' else '+') :: fixed width digits

/-- The fraction of a second, with its point, or nothing for a whole second. -/
def fractionText (nano : Nat) : List Char :=
  if nano = 0 then []
  else if nano % 1000000 = 0 then '.' :: fixed 3 (nano / 1000000)
  else if nano % 1000 = 0 then '.' :: fixed 6 (nano / 1000)
  else '.' :: fixed 9 nano

/-- Date and time of day without an offset. A leap second is written as second 60. -/
def civilText (t : Instant) : List Char :=
  let leap := t.nano / 1000000000
  yearText t.date.year ++ '-' :: fixed 2 t.date.month ++ '-' :: fixed 2 t.date.day ++
    'T' :: fixed 2 (t.second / 3600) ++ ':' :: fixed 2 (t.second / 60 % 60) ++
    ':' :: fixed 2 (t.second % 60 + leap) ++ fractionText (t.nano % 1000000000)

/-- The text shown to callers. -/
def toText (t : Instant) : String :=
  String.ofList (civilText t ++ ['Z'])

/-- The text of a database column. -/
def storedText (t : Instant) : String :=
  String.ofList (civilText t ++ ['+', '0', '0', ':', '0', '0'])

/-! ## Reading -/

/-- A field of at most `limit` digits after white space. -/
def readField (limit : Nat) (s : List Char) : Option (Nat × List Char) :=
  leading limit (dropBlank s)

/-- The next character after white space, which has to be `c`. -/
def readMark (c : Char) (s : List Char) : Option (List Char) :=
  match dropBlank s with
  | d :: rest => if d = c then some rest else none
  | [] => none

/-- A year after white space: at most four digits, or a sign and any number of digits. -/
def readYear (s : List Char) : Option (Int × List Char) :=
  match dropBlank s with
  | '-' :: rest => (leading rest.length rest).map fun (n, rest) => (-(n : Int), rest)
  | '+' :: rest => (leading rest.length rest).map fun (n, rest) => ((n : Int), rest)
  | rest => (leading 4 rest).map fun (n, rest) => ((n : Int), rest)

/-- An optional fraction as nanoseconds: at least one digit after the point, nine of them kept. -/
def readFraction : List Char → Option (Nat × List Char)
  | '.' :: rest =>
    (leading 9 rest).map fun (n, after) =>
      (n * Nat.pow 10 (9 - (rest.length - after.length)), after.dropWhile Char.isDigit)
  | rest => some (0, rest)

/-- Two digits, the first at most `limit`. -/
def readPair (limit : Nat) : List Char → Option (Nat × List Char)
  | c :: d :: rest =>
    if c.isDigit ∧ d.isDigit ∧ value [c] ≤ limit then some (value [c, d], rest) else none
  | _ => none

/-- An offset from universal time in seconds: `Z`, `UTC`, or a sign, two digits of hours and two of
minutes with any colons and white space between. -/
def readOffset (s : List Char) : Option (Int × List Char) :=
  match s with
  | 'Z' :: rest | 'z' :: rest => some (0, rest)
  | _ =>
    if (s.take 3).map Char.toUpper = ['U', 'T', 'C'] then some (0, s.drop 3)
    else
      match s with
      | [] => none
      | sign :: rest =>
        if sign = '+' ∨ sign = '-' ∨ sign = '\u2212' then do
          let (hours, rest) ← readPair 9 rest
          let (minutes, rest) ← readPair 5 (rest.dropWhile fun c => c = ':' ∨ isSpace c)
          let seconds : Int := hours * 3600 + minutes * 60
          if 86400 ≤ seconds then none
          else some (if sign = '+' then seconds else -seconds, rest)
        else none

/-- The separator of date and time: a single `t`, `T` or space. -/
def readSeparator : List Char → Option (List Char)
  | 't' :: rest | 'T' :: rest | ' ' :: rest => some rest
  | _ => none

/-- The instant that local fields name at an offset. Second 60 is the leap second. -/
def ofFields? (date : Date) (hour minute second nano : Nat) (offset : Int) : Option Instant :=
  if hour < 24 ∧ minute < 60 ∧ second ≤ 60 then do
    let (second, nano) := if second = 60 then (59, 1000000000 + nano) else (second, nano)
    let civil ← of? date (hour * 3600 + minute * 60 + second) nano
    civil.addSeconds? (-offset)
  else none

/-- Reads an instant; `none` for anything else. -/
def ofText? (text : String) : Option Instant := do
  let (year, s) ← readYear text.toList
  let s ← readMark '-' s
  let (month, s) ← readField 2 s
  let s ← readMark '-' s
  let (day, s) ← readField 2 s
  let date ← Date.of? year month day
  let s ← readSeparator s
  let (hour, s) ← readField 2 s
  let s ← readMark ':' s
  let (minute, s) ← readField 2 s
  let s ← readMark ':' s
  let (second, s) ← readField 2 s
  let (nano, s) ← readFraction s
  let (offset, s) ← readOffset (dropBlank s)
  if dropBlank s = [] then ofFields? date hour minute second nano offset else none

end ReviewRota.Instant
