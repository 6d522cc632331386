/-!
# The calendar

Dates of the proleptic Gregorian calendar, with the years that can be represented.

* `Date`: a valid year, month and day; `Date.of?` checks one, `Date.cmp` orders them.
* `Date.toDays`, `Date.ofDays?`: dates as days counted from 1970-01-01.
-/

namespace ReviewRota

/-- Every fourth year, except full centuries that four does not divide. -/
def isLeapYear (year : Int) : Bool :=
  year % 4 == 0 && (year % 100 != 0 || year % 400 == 0)

/-- Length of a month, January being 1. -/
def daysInMonth (year : Int) (month : Nat) : Nat :=
  match month with
  | 2 => if isLeapYear year then 29 else 28
  | 4 | 6 | 9 | 11 => 30
  | _ => 31

namespace Date

/-- First year of the calendar. -/
def minYear : Int := -262143

/-- Last year of the calendar. -/
def maxYear : Int := 262142

/-- A year, month and day that name a day of the calendar. -/
def IsValid (year : Int) (month day : Nat) : Prop :=
  (minYear ≤ year ∧ year ≤ maxYear) ∧ (1 ≤ month ∧ month ≤ 12) ∧
    (1 ≤ day ∧ day ≤ daysInMonth year month)

instance (year : Int) (month day : Nat) : Decidable (IsValid year month day) :=
  inferInstanceAs (Decidable (_ ∧ _ ∧ _))

end Date

/-- A day of the calendar. -/
structure Date where
  year : Int
  month : Nat
  day : Nat
  isValid : Date.IsValid year month day
  deriving DecidableEq

namespace Date

/-- The date with this year, month and day, if there is one. -/
def of? (year : Int) (month day : Nat) : Option Date :=
  if h : IsValid year month day then some ⟨year, month, day, h⟩ else none

/-- Calendar order. -/
def cmp : Date → Date → Ordering :=
  compareLex (compareOn Date.year) (compareLex (compareOn Date.month) (compareOn Date.day))

/-! ## Day numbers

Years are counted from March, so that the day added in a leap year comes last. Months from March
start at day `(153 * k + 2) / 5` of such a year, and 400 of those years hold 146097 days. -/

/-- Days from 0000-03-01 to 1970-01-01. -/
def epoch : Int := 719468

/-- Days from 1970-01-01 to a date. -/
def toDays (d : Date) : Int :=
  let year := if d.month ≤ 2 then d.year - 1 else d.year
  let month : Int := if d.month ≤ 2 then d.month + 9 else d.month - 3
  let cycle := year / 400
  let ofCycle := year % 400
  let ofYear := (153 * month + 2) / 5 + d.day - 1
  cycle * 146097 + (ofCycle * 365 + ofCycle / 4 - ofCycle / 100 + ofYear) - epoch

/-- The date so many days after 1970-01-01, if it is in the calendar. -/
def ofDays? (days : Int) : Option Date :=
  let fromMarch := days + epoch
  let cycle := fromMarch / 146097
  let inCycle := fromMarch % 146097
  let ofCycle := (inCycle - inCycle / 1460 + inCycle / 36524 - inCycle / 146096) / 365
  let ofYear := inCycle - (365 * ofCycle + ofCycle / 4 - ofCycle / 100)
  let month := (5 * ofYear + 2) / 153
  let day := ofYear - (153 * month + 2) / 5 + 1
  let year := cycle * 400 + ofCycle
  if month < 10 then of? year (month + 3).toNat day.toNat
  else of? (year + 1) (month - 9).toNat day.toNat

end Date

end ReviewRota
