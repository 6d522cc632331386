/-!
# Durations

Lengths of time to the nanosecond, of less than `2 ^ 64` seconds.

* `Duration`: whole seconds and nanoseconds.
* `Duration.add?`: a duration and a further time, if the sum is still a duration.
-/

namespace ReviewRota

/-- A length of time. -/
structure Duration where
  seconds : Nat
  /-- Nanoseconds beyond the last whole second. -/
  nanos : Nat
  seconds_lt : seconds < 18446744073709551616
  nanos_lt : nanos < 1000000000
  deriving DecidableEq

namespace Duration

/-- A number of seconds. -/
def ofSeconds (seconds : Nat) (h : seconds < 18446744073709551616 := by decide) : Duration :=
  ⟨seconds, 0, h, by decide⟩

/-- A number that fits in 64 bits. -/
def word? (n : Nat) : Option Nat :=
  if n < 18446744073709551616 then some n else none

/-- A duration after further seconds and nanoseconds. Neither the seconds nor the nanoseconds may
outgrow 64 bits on the way. -/
def add? (d : Duration) (seconds nanos : Nat) : Option Duration := do
  let nanos ← word? (d.nanos + nanos)
  let seconds := d.seconds + seconds + nanos / 1000000000
  if h : seconds < 18446744073709551616 then
    some ⟨seconds, nanos % 1000000000, h, Nat.mod_lt _ (by decide)⟩
  else none

/-- Whole milliseconds. -/
def millis (d : Duration) : Nat :=
  d.seconds * 1000 + d.nanos / 1000000

end Duration

end ReviewRota
