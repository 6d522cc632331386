import ReviewRota.Collaborators
import ReviewRota.Sources.Random

/-!
# Sources

Collaborators with a known future: a clock that moves by a fixed step, listed identifiers followed
by counted ones, and listed random draws or a seeded generator.

* `Sources`: their state; `Sources.advance?` moves the clock.
* The instances `Collaborators Sources` and `Collaborators.Lawful Sources`.
-/

namespace ReviewRota

/-- A source of random numbers. -/
inductive RandomSource where
  /-- Listed draws, each taken modulo its bound; 0 when they run out. -/
  | listed (draws : List Nat)
  | generated (g : Generator)

/-- A number below `n`. -/
def RandomSource.draw (n : Nat) : RandomSource → Nat × RandomSource
  | listed [] => (0, listed [])
  | listed (d :: ds) => (d % n, listed ds)
  | generated g => let (d, g) := g.below n; (d, generated g)

/-- Sources of time, identifiers and random numbers. -/
structure Sources where
  time : Instant
  /-- Milliseconds by which the clock moves after each reading. -/
  tick : Int
  /-- Identifiers to give out first. -/
  ids : List String
  /-- Number of counted identifiers given out. -/
  counted : Nat
  random : RandomSource

namespace Sources

/-- The sources with the clock moved, unless it would leave the calendar. -/
def advance? (s : Sources) (millis : Int) : Option Sources :=
  (s.time.addMillis? millis).map fun time => { s with time }

end Sources

instance : Collaborators Sources where
  now s := (s.time, (s.advance? s.tick).getD s)
  freshId s :=
    match s.ids with
    | id :: ids => (id, { s with ids })
    | [] => ("id-" ++ toString (s.counted + 1), { s with counted := s.counted + 1 })
  draw n s := let (d, random) := s.random.draw n; (d, { s with random })

theorem RandomSource.draw_lt {n : Nat} (hn : 0 < n) (r : RandomSource) : (r.draw n).1 < n := by
  match r with
  | listed [] => exact hn
  | listed (d :: ds) => exact Nat.mod_lt d hn
  | generated g => exact Generator.belowWithin_lt hn 1000 g

instance : Collaborators.Lawful Sources where
  draw_lt s hn := RandomSource.draw_lt hn s.random

end ReviewRota
