/-!
# Blank text

White space as the Unicode property `White_Space` lists it, and the texts made of nothing else.

* `isSpace`: the property, character by character.
* `isBlank`, `dropBlank`: texts without content, and a text after its leading white space.
-/

namespace ReviewRota.Text

/-- Membership in the Unicode property `White_Space`. -/
def isSpace (c : Char) : Bool :=
  let n := c.toNat
  (0x09 ≤ n && n ≤ 0x0D) || n == 0x20 || n == 0x85 || n == 0xA0 || n == 0x1680 ||
    (0x2000 ≤ n && n ≤ 0x200A) || n == 0x2028 || n == 0x2029 || n == 0x202F || n == 0x205F ||
    n == 0x3000

/-- A text of white space only, the empty text included. -/
def isBlank (s : String) : Bool :=
  s.toList.all isSpace

/-- The text after its leading white space. -/
def dropBlank (s : List Char) : List Char :=
  s.dropWhile isSpace

theorem dropBlank_cons_of_not_isSpace {c : Char} (h : isSpace c = false) (s : List Char) :
    dropBlank (c :: s) = c :: s := by
  simp [dropBlank, h]

end ReviewRota.Text
