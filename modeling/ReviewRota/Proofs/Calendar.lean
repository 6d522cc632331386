import Mathlib.Tactic.IntervalCases
import ReviewRota.Instant.Basic

/-!
# Days of the calendar

The number of a day determines its date.

* `Date.marchYear`, `Date.marchMonth`, `Date.marchDay`: a date in years that begin in March.
* `Date.yearOfCycle`: the year of a day in a cycle of 400 years, leap days taken into account.
* **`Date.ofDays?_toDays`**: the date of a day's number is that of the day.
* `Instant.addSeconds?_zero`: no time later is the same instant.
-/

namespace ReviewRota

namespace Date

variable (d : Date)

theorem of?_eq : of? d.year d.month d.day = some d :=
  dif_pos d.isValid

/-! ## Years that begin in March -/

/-- The year from March, to which January and February are the last months. -/
def marchYear : Int :=
  if d.month ≤ 2 then d.year - 1 else d.year

/-- The month from March, which is 0. -/
def marchMonth : Int :=
  if d.month ≤ 2 then d.month + 9 else d.month - 3

/-- The day from March 1, which is 0. -/
def marchDay : Int :=
  (153 * d.marchMonth + 2) / 5 + d.day - 1

theorem toDays_add_epoch :
    d.toDays + epoch = d.marchYear / 400 * 146097 +
      (d.marchYear % 400 * 365 + d.marchYear % 400 / 4 - d.marchYear % 400 / 100 + d.marchDay) :=
  Int.sub_add_cancel _ _

theorem isLeapYear_iff {year : Int} :
    isLeapYear year = true ↔ year % 4 = 0 ∧ (year % 100 ≠ 0 ∨ year % 400 = 0) := by
  simp [isLeapYear]

theorem day_le :
    d.day ≤ 31 ∧ (d.month = 4 ∨ d.month = 6 ∨ d.month = 9 ∨ d.month = 11 → d.day ≤ 30) ∧
      (d.month = 2 → d.day ≤ 28 ∨ d.day = 29 ∧ isLeapYear d.year = true) := by
  obtain ⟨-, -, -, hday⟩ := d.isValid
  unfold daysInMonth at hday
  split at hday <;> grind

/-- The months before a day are counted right, since any five of them have 153 days. -/
theorem monthOfYear_eq : (5 * d.marchDay + 2) / 153 = d.marchMonth := by
  obtain ⟨-, ⟨hlow, hhigh⟩, hfirst, -⟩ := d.isValid
  obtain ⟨h31, h30, hfeb⟩ := d.day_le
  unfold marchDay marchMonth
  generalize d.month = month at *
  interval_cases month <;> simp at h30 hfeb ⊢ <;> omega

/-- A year from March ends with February, so it has a last day more if the next year is a leap
year. -/
theorem marchDay_lt :
    0 ≤ d.marchDay ∧
      (d.marchDay < 365 ∨ d.marchDay = 365 ∧ isLeapYear (d.marchYear + 1) = true) := by
  obtain ⟨-, ⟨hlow, hhigh⟩, hfirst, -⟩ := d.isValid
  obtain ⟨h31, h30, hfeb⟩ := d.day_le
  by_cases hmonth : d.month = 2
  · have hday : d.marchDay = 336 + d.day := by simp [marchDay, marchMonth, hmonth]; omega
    have hyear : d.marchYear + 1 = d.year := by simp [marchYear, hmonth]
    rw [hday, hyear]
    exact ⟨by omega, (hfeb hmonth).imp (by omega) fun ⟨hlast, hleap⟩ => ⟨by omega, hleap⟩⟩
  · have hday : 0 ≤ d.marchDay ∧ d.marchDay < 365 := by
      unfold marchDay marchMonth
      generalize d.month = month at *
      interval_cases month <;> simp at hmonth h30 ⊢ <;> omega
    exact hday.imp_right .inl

/-! ## Cycles of 400 years -/

/-- The year in a cycle that a day of the cycle belongs to: without the leap days before it, each
year has 365 days. -/
def yearOfCycle (days : Int) : Int :=
  (days - days / 1460 + days / 36524 - days / 146096) / 365

/-- A year of a cycle as full centuries, full spans of four years, and years. -/
theorem exists_yearOfCycle {year : Int} (h : 0 ≤ year ∧ year < 400) :
    ∃ a b c : Int, (0 ≤ a ∧ a < 4) ∧ (0 ≤ b ∧ b < 25) ∧ (0 ≤ c ∧ c < 4) ∧
      year = 100 * a + 4 * b + c ∧
      year * 365 + year / 4 - year / 100 = 36524 * a + 1461 * b + 365 * c :=
  ⟨year / 100, year % 100 / 4, year % 4, by omega, by omega, by omega, by omega, by omega⟩

theorem lastDay_of_isLeapYear {a b c : Int} (ha : 0 ≤ a ∧ a < 4) (hb : 0 ≤ b ∧ b < 25)
    (hc : 0 ≤ c ∧ c < 4) (h : isLeapYear (100 * a + 4 * b + c + 1) = true) :
    c = 3 ∧ (b < 24 ∨ b = 24 ∧ a = 3) := by
  obtain ⟨hfour, hcentury⟩ := isLeapYear_iff.mp h
  obtain rfl : c = 3 := by omega
  refine ⟨rfl, (lt_or_eq_of_le (Int.le_of_lt_add_one hb.2)).imp id fun he => ⟨he, ?_⟩⟩
  subst he
  omega

theorem yearOfCycle_eq {year day : Int} (hyear : 0 ≤ year ∧ year < 400) (hpos : 0 ≤ day)
    (hlast : day < 365 ∨ day = 365 ∧ isLeapYear (year + 1) = true) :
    yearOfCycle (year * 365 + year / 4 - year / 100 + day) = year := by
  obtain ⟨a, b, c, ha, hb, hc, rfl, hdays⟩ := exists_yearOfCycle hyear
  rw [hdays, yearOfCycle]
  clear hdays hyear
  obtain hday | ⟨rfl, hleap⟩ := hlast
  · generalize hn : 36524 * a + 1461 * b + 365 * c + day = n
    have hcenturies : n / 36524 = a := by omega
    have hcycles : n / 146096 = 0 := by omega
    have hfours : n / 1460 = 25 * a + b ∨ n / 1460 = 25 * a + b + 1 ∧ 0 < day := by omega
    rw [hcenturies, hcycles]
    omega
  · obtain ⟨rfl, hb' | ⟨rfl, rfl⟩⟩ := lastDay_of_isLeapYear ha hb hc hleap
    · generalize hn : 36524 * a + 1461 * b + 365 * 3 + 365 = n
      have hcenturies : n / 36524 = a := by omega
      have hcycles : n / 146096 = 0 := by omega
      have hfours : n / 1460 = 25 * a + b + 1 := by omega
      rw [hcenturies, hcycles, hfours]
      omega
    · rfl

theorem isLeapYear_of_cycle {year : Int} (h : isLeapYear (year + 1) = true) :
    isLeapYear (year % 400 + 1) = true := by
  rw [isLeapYear_iff] at h ⊢
  omega

theorem dayOfCycle_lt {year day : Int} (hyear : 0 ≤ year ∧ year < 400) (hpos : 0 ≤ day)
    (hlast : day < 365 ∨ day = 365 ∧ isLeapYear (year + 1) = true) :
    0 ≤ year * 365 + year / 4 - year / 100 + day ∧
      year * 365 + year / 4 - year / 100 + day < 146097 := by
  obtain hday | ⟨rfl, -⟩ := hlast <;> omega

theorem of?_march :
    (if d.marchMonth < 10 then of? d.marchYear (d.marchMonth + 3).toNat d.day
      else of? (d.marchYear + 1) (d.marchMonth - 9).toNat d.day) = some d := by
  obtain ⟨-, ⟨hlow, hhigh⟩, -⟩ := d.isValid
  by_cases h : d.month ≤ 2
  · have hmonth : d.marchMonth = d.month + 9 := if_pos h
    have hyear : d.marchYear + 1 = d.year := by
      rw [marchYear, if_pos h]
      omega
    have hback : (d.marchMonth - 9).toNat = d.month := by omega
    rw [if_neg (by omega), hyear, hback]
    exact d.of?_eq
  · have hmonth : d.marchMonth = d.month - 3 := if_neg h
    have hyear : d.marchYear = d.year := if_neg h
    have hback : (d.marchMonth + 3).toNat = d.month := by omega
    rw [if_pos (by omega), hyear, hback]
    exact d.of?_eq

/-- **The number of a day gives its date back.** Each division of the number leaves one part of the
date: the cycle, the year in it, the month and the day. -/
theorem ofDays?_toDays : ofDays? d.toDays = some d := by
  obtain ⟨hpos, hlast⟩ := d.marchDay_lt
  have hyear : 0 ≤ d.marchYear % 400 ∧ d.marchYear % 400 < 400 := by omega
  replace hlast := hlast.imp_right (And.imp_right isLeapYear_of_cycle)
  have hlt := dayOfCycle_lt hyear hpos hlast
  have hofCycle := yearOfCycle_eq hyear hpos hlast
  have hdays := d.toDays_add_epoch
  generalize hn : d.marchYear % 400 * 365 + d.marchYear % 400 / 4 - d.marchYear % 400 / 100 +
    d.marchDay = n at hlt hofCycle hdays
  -- the divisions in their order: cycle, year of the cycle, day of the year, month, day
  have hcycle : (d.toDays + epoch) / 146097 = d.marchYear / 400 := by omega
  have hinCycle : (d.toDays + epoch) % 146097 = n := by omega
  have hofYear : n - (365 * (d.marchYear % 400) + d.marchYear % 400 / 4 -
      d.marchYear % 400 / 100) = d.marchDay := by omega
  have hday : d.marchDay - (153 * d.marchMonth + 2) / 5 + 1 = d.day := by
    unfold marchDay
    omega
  have hwhole : d.marchYear / 400 * 400 + d.marchYear % 400 = d.marchYear := by omega
  unfold yearOfCycle at hofCycle
  unfold ofDays?
  simp only [hcycle, hinCycle, hofCycle, hofYear, d.monthOfYear_eq, hday, hwhole, Int.toNat_natCast]
  exact d.of?_march

end Date

namespace Instant

theorem of?_eq (t : Instant) : of? t.date t.second t.nano = some t :=
  dif_pos ⟨t.second_lt, t.nano_lt, t.isLeap⟩

theorem addSeconds?_zero (t : Instant) : t.addSeconds? 0 = some t := by
  have hlt := t.second_lt
  have hdate : t.date.toDays + (t.second + 0) / 86400 = t.date.toDays := by omega
  have hsecond : ((t.second + 0 : Int) % 86400).toNat = t.second := by omega
  rw [addSeconds?, ofSeconds?, hdate, Date.ofDays?_toDays, hsecond]
  exact t.of?_eq

end Instant

end ReviewRota
