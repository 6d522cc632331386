/-!
# A keystream of random words

The stream cipher ChaCha with 12 rounds as a source of 32-bit words: 16 words a block, blocks
numbered from 0 by a 64-bit counter, and no nonce.

* `Keystream.block`: the words of one block.
* `Keystream.word`: the word at a position of the stream.
-/

namespace ReviewRota.Keystream

/-- A word rotated left. -/
def rotateLeft (w : UInt32) (bits : UInt32) : UInt32 :=
  (w <<< bits) ||| (w >>> (32 - bits))

/-- One step of a quarter round: word `a` takes up word `b`, and word `d` is mixed and rotated. -/
def mix (a b d : Nat) (bits : UInt32) (s : Array UInt32) : Array UInt32 :=
  let sum := s.getD a 0 + s.getD b 0
  (s.setIfInBounds a sum).setIfInBounds d (rotateLeft (s.getD d 0 ^^^ sum) bits)

/-- The quarter round on four words. -/
def quarterRound (a b c d : Nat) (s : Array UInt32) : Array UInt32 :=
  mix c d b 7 (mix a b d 8 (mix c d b 12 (mix a b d 16 s)))

/-- A round on the columns, then one on the diagonals. -/
def doubleRound (s : Array UInt32) : Array UInt32 :=
  let columns := (List.range 4).foldl
    (fun s i => quarterRound i (4 + i) (8 + i) (12 + i) s) s
  (List.range 4).foldl
    (fun s i => quarterRound i (4 + (i + 1) % 4) (8 + (i + 2) % 4) (12 + (i + 3) % 4) s) columns

/-- The state before the rounds: constants, key, counter, and zeros for the nonce. -/
def start (key : List UInt32) (counter : Nat) : Array UInt32 :=
  ([0x61707865, 0x3320646e, 0x79622d32, 0x6b206574] ++ key ++
    [UInt32.ofNat counter, UInt32.ofNat (counter / 4294967296), 0, 0]).toArray

/-- The words of one block: twelve rounds, then the state before them added. -/
def block (key : List UInt32) (counter : Nat) : Array UInt32 :=
  let s := start key counter
  let mixed := (List.range 6).foldl (fun s _ => doubleRound s) s
  Array.zipWith (· + ·) mixed s

/-- The word at a position of the stream. -/
def word (key : List UInt32) (position : Nat) : UInt32 :=
  (block key (position / 16)).getD (position % 16) 0

end ReviewRota.Keystream
