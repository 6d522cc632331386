import ReviewRota.Instant.Calendar

/-!
# Instants

Moments of coordinated universal time to the nanosecond, leap seconds included.

* `Instant`: a date, the second of that day and the nanosecond of that second. In a leap second
  the nanosecond goes on past `10 ^ 9`.
* `Instant.cmp`, `Instant.le`: the order of time.
* `Instant.addMillis?`, `Instant.addSeconds?`: later or earlier instants, if in the calendar.
-/

namespace ReviewRota

/-- A moment of coordinated universal time. -/
structure Instant where
  date : Date
  /-- Second of the day. -/
  second : Nat
  /-- Nanosecond of the second; `10 ^ 9` and more is the leap second after it. -/
  nano : Nat
  second_lt : second < 86400
  nano_lt : nano < 2000000000
  /-- Only the last second of a minute can be followed by a leap second. -/
  isLeap : 1000000000 ≤ nano → second % 60 = 59
  deriving DecidableEq

namespace Instant

/-- The instant with this date, second and nanosecond, if there is one. -/
def of? (date : Date) (second nano : Nat) : Option Instant :=
  if h : second < 86400 ∧ nano < 2000000000 ∧ (1000000000 ≤ nano → second % 60 = 59) then
    some ⟨date, second, nano, h.1, h.2.1, h.2.2⟩
  else none

/-- The order of time. -/
def cmp : Instant → Instant → Ordering :=
  compareLex (fun s t => Date.cmp s.date t.date)
    (compareLex (compareOn Instant.second) (compareOn Instant.nano))

/-- Not later. -/
def le (s t : Instant) : Bool :=
  (cmp s t).isLE

/-- The instant with this nanosecond that lies `seconds` after the start of `date`. -/
def ofSeconds? (date : Date) (seconds : Int) (nano : Nat) : Option Instant := do
  let date ← Date.ofDays? (date.toDays + seconds / 86400)
  of? date (seconds % 86400).toNat nano

/-- The instant a number of seconds later, still as far into its second. -/
def addSeconds? (t : Instant) (seconds : Int) : Option Instant :=
  ofSeconds? t.date (t.second + seconds) t.nano

/-- The instant a number of milliseconds later. A leap second that is left counts as the second
before it when time goes forward and as the second after it when time goes back; one that is not
left stays a leap second. -/
def addMillis? (t : Instant) (millis : Int) : Option Instant :=
  let seconds := millis.tdiv 1000
  let nanos := millis.tmod 1000 * 1000000
  let total : Int := t.nano + nanos
  if t.nano < 1000000000 then
    ofSeconds? t.date (t.second + seconds + total / 1000000000) (total % 1000000000).toNat
  else if seconds < 0 then
    let total := total - 1000000000
    ofSeconds? t.date (t.second + 1 + seconds + total / 1000000000) (total % 1000000000).toNat
  else if 0 < seconds ∨ 2000000000 ≤ total then
    let total := total - 1000000000
    ofSeconds? t.date (t.second + seconds + total / 1000000000) (total % 1000000000).toNat
  else ofSeconds? t.date t.second total.toNat

end Instant

end ReviewRota
