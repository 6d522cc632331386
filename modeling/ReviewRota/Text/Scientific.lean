import ReviewRota.Text.Digits

/-!
# Decimal fractions with exponents

Numbers written as digits, a fraction and a power of ten, as several formats share them.

* `Scientific`: the digits and the power of ten.
* `Scientific.overflows`: whether a number is too large for a binary fraction of 64 bits.
-/

namespace ReviewRota.Text

/-- The number `digits * 10 ^ exponent`. -/
structure Scientific where
  digits : Nat
  exponent : Int

namespace Scientific

/-- Half a step above the largest finite binary fraction of 64 bits. -/
def limit : Nat :=
  Nat.pow 2 1024 - Nat.pow 2 970

/-- Number of decimal digits of a positive number. -/
def size (n : Nat) : Nat :=
  (Nat.toDigits 10 n).length

/-- Whether a number rounds to infinity. Exponents far from the limit are settled by the number of
digits alone. -/
def overflows (x : Scientific) : Bool :=
  let top := size x.digits + x.exponent
  if x.digits = 0 ∨ top < 300 then false
  else if 320 < top then true
  else if 0 ≤ x.exponent then limit ≤ x.digits * Nat.pow 10 x.exponent.toNat
  else limit * Nat.pow 10 (-x.exponent).toNat ≤ x.digits

end Scientific

end ReviewRota.Text
