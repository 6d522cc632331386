import ReviewRota.Duration.Basic
import ReviewRota.Text.Blank
import ReviewRota.Text.Digits

/-!
# Durations as text

Durations are written and read as sums of numbers with units, such as `1h 30m`.

* `Duration.toText`: the parts that are not zero, from large to small.
* `Duration.ofText?`: any parts in any order, decimals included.

A year has 365.25 days and a month 30.44 days.
-/

namespace ReviewRota.Duration

open Text

/-! ## Units -/

/-- A unit of time. -/
inductive Unit where
  | nanosecond | microsecond | millisecond | second | minute | hour | day | week | month | year
  deriving DecidableEq, Repr

namespace Unit

/-- The spellings of a unit. -/
def names : Unit → List String
  | nanosecond => ["nanos", "nsec", "ns"]
  | microsecond => ["usec", "us", "µs"]
  | millisecond => ["millis", "msec", "ms"]
  | second => ["seconds", "second", "secs", "sec", "s"]
  | minute => ["minutes", "minute", "mins", "min", "m"]
  | hour => ["hours", "hour", "hrs", "hr", "h"]
  | day => ["days", "day", "d"]
  | week => ["weeks", "week", "wks", "wk", "w"]
  | month => ["months", "month", "M"]
  | year => ["years", "year", "yrs", "yr", "y"]

/-- All units. -/
def all : List Unit :=
  [nanosecond, microsecond, millisecond, second, minute, hour, day, week, month, year]

/-- The unit of a spelling. -/
def ofName? (name : String) : Option Unit :=
  all.find? (·.names.contains name)

/-- Nanoseconds in a unit. -/
def nanos : Unit → Nat
  | nanosecond => 1
  | microsecond => 1000
  | millisecond => 1000000
  | second => 1000000000
  | minute => 60000000000
  | hour => 3600000000000
  | day => 86400000000000
  | week => 604800000000000
  | month => 2630016000000000
  | year => 31557600000000000

/-- Whole seconds in a unit. -/
def seconds (u : Unit) : Nat :=
  u.nanos / 1000000000

end Unit

/-! ## Writing -/

/-- A part that is not zero, with its unit's name. -/
def part (n : Nat) (name : String) : List String :=
  if n = 0 then [] else [toString n ++ name]

/-- A part that is not zero, with its unit's name in singular or plural. -/
def countedPart (n : Nat) (name : String) : List String :=
  part n (if n = 1 then name else name ++ "s")

/-- The parts of a duration that are not zero. -/
def parts (d : Duration) : List String :=
  let month := d.seconds % Unit.year.seconds
  let day := month % Unit.month.seconds
  let time := day % Unit.day.seconds
  countedPart (d.seconds / Unit.year.seconds) "year" ++
    countedPart (month / Unit.month.seconds) "month" ++
    countedPart (day / Unit.day.seconds) "day" ++
    part (time / 3600) "h" ++ part (time / 60 % 60) "m" ++ part (time % 60) "s" ++
    part (d.nanos / 1000000) "ms" ++ part (d.nanos / 1000 % 1000) "us" ++
    part (d.nanos % 1000) "ns"

/-- The text of a duration. -/
def toText (d : Duration) : String :=
  if d.parts.isEmpty then "0s" else String.intercalate " " d.parts

/-! ## Reading -/

/-- A number with its unit. -/
structure Span where
  whole : Nat
  /-- The digits after a decimal point, if there is one. -/
  fraction : Option (List Char)
  unit : Unit

/-- Digits at the start of a text, white space among and after them passed over. -/
def spacedDigits (s : List Char) : List Char × List Char :=
  let (taken, rest) := s.span fun c => c.isDigit || isSpace c
  (taken.filter Char.isDigit, rest)

/-- The letters that units are made of. -/
def isUnitLetter (c : Char) : Bool :=
  c.isAlpha || c == 'µ'

/-- A number, its optional fraction of 1 to 19 digits, and its unit. -/
def readSpan? (s : List Char) : Option (Span × List Char) := do
  let (whole, rest) := spacedDigits s
  let whole ← word? (value whole)
  let (fraction, rest) ←
    match rest with
    | '.' :: rest =>
      let (digits, rest) := spacedDigits rest
      if 1 ≤ digits.length ∧ digits.length ≤ 19 then some (some digits, rest) else none
    | rest => some (none, rest)
  let unit ← Unit.ofName? (String.ofList (rest.takeWhile isUnitLetter))
  pure (⟨whole, fraction, unit⟩, rest.dropWhile isUnitLetter)

/-- The spans of a text, each of which starts with a digit. No text has more of them than
characters, which bounds their number. -/
def readSpans? : (fuel : Nat) → List Char → Option (List Span)
  | 0, s => if (dropBlank s).isEmpty then some [] else none
  | fuel + 1, s =>
    match dropBlank s with
    | [] => some []
    | c :: rest => do
      if !c.isDigit then none
      let (span, rest) ← readSpan? (c :: rest)
      let spans ← readSpans? fuel rest
      pure (span :: spans)

/-- A duration after the whole part of a span. -/
def addWhole? (d : Duration) (span : Span) : Option Duration :=
  if span.unit.nanos < 1000000000 then do
    d.add? 0 (← word? (span.whole * span.unit.nanos))
  else do
    d.add? (← word? (span.whole * span.unit.seconds)) 0

/-- A quotient without a remainder. -/
def exactQuotient? (n d : Nat) : Option Nat :=
  if n % d = 0 then some (n / d) else none

/-- A duration after the fraction of a span, which has to be a whole number: of nanoseconds, and
from hours on of seconds. There is no fraction of a nanosecond. -/
def addFraction? (d : Duration) (span : Span) : Option Duration :=
  match span.fraction with
  | none => some d
  | some digits =>
    let scale := Nat.pow 10 digits.length
    if span.unit = .nanosecond then none
    else if span.unit.nanos ≤ Unit.minute.nanos then do
      d.add? 0 (← exactQuotient? (← word? (value digits * span.unit.nanos)) scale)
    else do
      d.add? (← exactQuotient? (← word? (value digits * span.unit.seconds)) scale) 0

/-- A duration after a span. -/
def addSpan? (d : Duration) (span : Span) : Option Duration := do
  addFraction? (← addWhole? d span) span

/-- Reads a duration: spans, of which there is at least one, or a bare zero. -/
def ofText? (text : String) : Option Duration :=
  if text = "0" then some (.ofSeconds 0)
  else do
    let spans ← readSpans? text.length text.toList
    if spans.isEmpty then none
    spans.foldlM addSpan? (.ofSeconds 0)

end ReviewRota.Duration
