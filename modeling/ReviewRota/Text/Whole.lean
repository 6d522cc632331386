/-!
# Whole numbers as text

* `readBelow`: reads a whole number below a bound, or says what keeps the text from being one.
-/

namespace ReviewRota.Text

/-- What keeps a text from being a whole number in range. -/
inductive NumberProblem where
  | empty
  | invalidDigit
  | tooLarge
  deriving DecidableEq, Repr

/-- The wording of a problem. -/
def NumberProblem.message : NumberProblem → String
  | empty => "cannot parse integer from empty string"
  | invalidDigit => "invalid digit found in string"
  | tooLarge => "number too large to fit in target type"

/-- The number `n` with one more digit. -/
def appendDigit (bound n : Nat) (c : Char) : Except NumberProblem Nat :=
  if !c.isDigit then .error .invalidDigit
  else
    let n := 10 * n + (c.toNat - '0'.toNat)
    if n < bound then .ok n else .error .tooLarge

/-- A whole number below `bound`: decimal digits, with or without a plus sign before them. The
first problem from the left is reported. -/
def readBelow (bound : Nat) (text : String) : Except NumberProblem Nat :=
  match text.toList with
  | [] => .error .empty
  | ['+'] => .error .invalidDigit
  | '+' :: digits => digits.foldlM (appendDigit bound) 0
  | digits => digits.foldlM (appendDigit bound) 0

end ReviewRota.Text
