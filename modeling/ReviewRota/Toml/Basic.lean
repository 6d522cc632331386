/-!
# TOML values

* `Toml`: the values of a configuration file. Fractions and points in time are kept as they are
  written.
* `Toml.Key`: the name of an entry and the tables that lead to it.
-/

namespace ReviewRota

/-- A TOML value. -/
inductive Toml where
  | str (s : String)
  /-- A whole number of 64 bits with sign. -/
  | int (n : Int)
  /-- A binary fraction, as it is written. -/
  | float (text : String)
  | bool (b : Bool)
  /-- A date, a time of day or both, as it is written. -/
  | moment (text : String)
  | arr (items : List Toml)
  | table (members : List (String × Toml))

namespace Toml

/-- A dotted key. -/
structure Key where
  /-- The tables before the last part. -/
  path : List String
  /-- The last part. -/
  name : String
  deriving DecidableEq, Repr

end Toml

end ReviewRota
