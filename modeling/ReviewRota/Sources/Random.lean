import ReviewRota.Sources.Keystream

/-!
# Random numbers from a seed

Uniform numbers below a bound, from a keystream whose key is expanded from a 64-bit seed.

* `Generator.seeded`: the generator of a seed.
* `Generator.below`: a number below a bound, by taking the high half of a product with a random
  word and refusing low halves that would favour some results.
-/

namespace ReviewRota

/-- A key and the position of the next word of its stream. -/
structure Generator where
  key : List UInt32
  position : Nat

namespace Generator

/-- A word rotated right. -/
def rotateRight (w : UInt32) (bits : Nat) : UInt32 :=
  Keystream.rotateLeft w (UInt32.ofNat (32 - bits))

/-- Key words from a seed: a linear congruence steps the seed, and each step gives a word by a
shift, an exclusive or and a rotation that its top bits choose. -/
def keyWords : Nat → UInt64 → List UInt32
  | 0, _ => []
  | count + 1, s =>
    let s := s * 6364136223846793005 + 11634580027462260723
    let x := (((s >>> 18) ^^^ s) >>> 27).toUInt32
    rotateRight x (s >>> 59).toNat :: keyWords count s

/-- The generator of a seed. -/
def seeded (seed : UInt64) : Generator :=
  ⟨keyWords 8 seed, 0⟩

/-- A random number of 64 bits: two words, the low one first. -/
def next (g : Generator) : Nat × Generator :=
  let low := (Keystream.word g.key g.position).toNat
  let high := (Keystream.word g.key (g.position + 1)).toNat
  (low + 4294967296 * high, { g with position := g.position + 2 })

/-- Low halves up to this bound are accepted: `n` shifted to the top of 64 bits, less one. -/
def zone (n : Nat) : Nat :=
  n <<< (63 - n.log2) - 1

/-- The high half of the product of a random number and `n`. -/
def scaled (n : Nat) (g : Generator) : Nat :=
  g.next.1 * n / 18446744073709551616

/-- A number below `n`, after at most so many refusals. -/
def belowWithin (n : Nat) : Nat → Generator → Nat × Generator
  | 0, g => (scaled n g, g.next.2)
  | tries + 1, g =>
    if g.next.1 * n % 18446744073709551616 ≤ zone n then (scaled n g, g.next.2)
    else belowWithin n tries g.next.2

/-- A number below `n`. A try is refused less often than every second time, so the thousand tries
allowed here are never used up in practice. -/
def below (n : Nat) (g : Generator) : Nat × Generator :=
  belowWithin n 1000 g

/-! ## Laws -/

theorem next_lt (g : Generator) : g.next.1 < 18446744073709551616 := by
  have hl := (Keystream.word g.key g.position).toNat_lt
  have hh := (Keystream.word g.key (g.position + 1)).toNat_lt
  simp only [next]
  omega

theorem scaled_lt {n : Nat} (hn : 0 < n) (g : Generator) : scaled n g < n :=
  Nat.div_lt_of_lt_mul (Nat.mul_lt_mul_of_pos_right (next_lt g) hn)

theorem belowWithin_lt {n : Nat} (hn : 0 < n) (tries : Nat) (g : Generator) :
    (belowWithin n tries g).1 < n := by
  induction tries generalizing g with
  | zero => exact scaled_lt hn g
  | succ tries ih =>
    unfold belowWithin
    split
    · exact scaled_lt hn g
    · exact ih _

end Generator

end ReviewRota
