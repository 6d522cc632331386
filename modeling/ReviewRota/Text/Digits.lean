/-!
# Decimal digits

Numbers of a fixed width and their reading.

* `fixed`: a number written with exactly so many digits, leading zeros included.
* `value`: the number that a list of digits stands for; `value_fixed` reads `fixed` back.
* `leading`: the digits at the start of a text, as a number, with a bound on how many are taken.
-/

namespace ReviewRota.Text

/-- One decimal digit of `n`, its last. -/
def digit (n : Nat) : Char :=
  Char.ofNat ('0'.toNat + n % 10)

/-- The last `width` decimal digits of a number, the most significant first. -/
def fixed : Nat → Nat → List Char
  | 0, _ => []
  | width + 1, n => fixed width (n / 10) ++ [digit n]

/-- The number a list of decimal digits stands for. -/
def value (digits : List Char) : Nat :=
  digits.foldl (fun n c => 10 * n + (c.toNat - '0'.toNat)) 0

/-- The number at the start of a text, of at most `limit` digits and at least one. -/
def leading (limit : Nat) (s : List Char) : Option (Nat × List Char) :=
  match (s.take limit).takeWhile Char.isDigit with
  | [] => none
  | digits => some (value digits, s.drop digits.length)

/-- Lower case, for the letters of ASCII alone. -/
def lower (s : String) : String :=
  s.map Char.toLower

/-- Upper case, for the letters of ASCII alone. -/
def upper (s : String) : String :=
  s.map Char.toUpper

/-! ## Laws -/

theorem length_fixed (width n : Nat) : (fixed width n).length = width := by
  induction width generalizing n with
  | zero => rfl
  | succ w ih => simp [fixed, ih]

theorem value_append_digit (l : List Char) (c : Char) :
    value (l ++ [c]) = 10 * value l + (c.toNat - '0'.toNat) := by
  simp [value]

theorem toNat_digit (n : Nat) : (digit n).toNat - '0'.toNat = n % 10 := by
  have hall : ∀ d < 10, (digit d).toNat - '0'.toNat = d := by decide
  have hd : digit n = digit (n % 10) := by simp [digit]
  rw [hd]
  exact hall (n % 10) (Nat.mod_lt _ (by decide))

theorem value_fixed (width n : Nat) : value (fixed width n) = n % Nat.pow 10 width := by
  induction width generalizing n with
  | zero => exact (Nat.mod_one n).symm
  | succ w ih =>
    have step : Nat.pow 10 (w + 1) = 10 * Nat.pow 10 w := Nat.mul_comm _ _
    rw [fixed, value_append_digit, ih, toNat_digit, step, Nat.mod_mul, Nat.add_comm]

end ReviewRota.Text
