import ReviewRota.Collaborators
import ReviewRota.Sources.Random
import ReviewRota.Text.Hexadecimal

/-!
# Ambient sources

Collaborators for a single run of a program: a clock that always advances, and random identifiers
and draws from one keystream.

* `uniqueId`: a random identifier of 128 bits, written as a version 4 UUID.
* `Ambient`: the sources, with their instance of `Collaborators`.
-/

namespace ReviewRota

/-! ## Identifiers -/

/-- The last `width` hexadecimal digits of a number. -/
def hexDigits : (width : Nat) → Nat → List Char
  | 0, _ => []
  | width + 1, n => hexDigits width (n / 16) ++ [Text.hexDigit (n % 16)]

/-- A version 4 UUID from two random words of 64 bits. Six bits of them give way to the version and
the variant. -/
def uniqueId (high low : Nat) : String :=
  String.ofList
    (hexDigits 8 (high / 4294967296) ++ '-' :: hexDigits 4 (high / 65536) ++
      '-' :: '4' :: hexDigits 3 high ++
      '-' :: hexDigits 4 (32768 + low / 281474976710656 % 16384) ++ '-' :: hexDigits 12 low)

/-! ## Sources -/

/-- Sources of a single run. -/
structure Ambient where
  time : Instant
  generator : Generator

/-- A reading of the clock moves it on by a millisecond, until the end of the calendar. -/
instance : Collaborators Ambient where
  now a := (a.time, { a with time := (a.time.addMillis? 1).getD a.time })
  freshId a :=
    let (high, generator) := a.generator.next
    let (low, generator) := generator.next
    (uniqueId high low, { a with generator })
  draw n a := let (d, generator) := a.generator.below n; (d, { a with generator })

instance : Collaborators.Lawful Ambient where
  draw_lt a hn := Generator.belowWithin_lt hn 1000 a.generator

end ReviewRota
