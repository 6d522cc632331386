import ReviewRota.Instant.Basic

/-!
# Collaborators

What the services use but do not own: a clock, a source of identifiers and a source of random
numbers. All three live in one state `π` that every use moves on.

* `Collaborators`: the three sources.
* `Collaborators.Lawful`: random numbers stay below their bound.
-/

namespace ReviewRota

/-- A clock, an identifier generator and a random source with the common state `π`. -/
class Collaborators (π : Type) where
  /-- The time of the clock. -/
  now : π → Instant × π
  /-- A new identifier. -/
  freshId : π → String × π
  /-- A number below `n`, for positive `n`. -/
  draw : (n : Nat) → π → Nat × π

/-- A random source that keeps below its bound. -/
class Collaborators.Lawful (π : Type) [Collaborators π] : Prop where
  draw_lt : ∀ {n : Nat} (p : π), 0 < n → (Collaborators.draw n p).1 < n

end ReviewRota
