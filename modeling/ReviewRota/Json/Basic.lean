/-!
# JSON values

* `Json`: the values. Whole numbers of 64 bits are kept apart from all other numbers, of which only
  the text is kept.
* `Json.string?`, `Json.natBelow?`, …: a value of one kind, if it is one.
* `Json.fields?`: the fields of a record, by name or by position.
-/

namespace ReviewRota

/-- A JSON value. -/
inductive Json where
  | null
  | bool (b : Bool)
  /-- A whole number from `-2 ^ 63` to `2 ^ 64 - 1`, written without fraction or exponent. -/
  | int (n : Int)
  /-- Any other number, as it is written. -/
  | decimal (text : String)
  | str (s : String)
  | arr (items : List Json)
  | obj (members : List (String × Json))

namespace Json

/-- The text of a string. -/
def string? : Json → Option String
  | str s => some s
  | _ => none

/-- The truth value of a boolean. -/
def bool? : Json → Option Bool
  | bool b => some b
  | _ => none

/-- The value of a whole number. -/
def int? : Json → Option Int
  | int n => some n
  | _ => none

/-- The value of a whole number from 0 that is below `bound`. -/
def natBelow? (bound : Nat) : Json → Option Nat
  | int (.ofNat n) => if n < bound then some n else none
  | _ => none

/-- The members of an object. -/
def members? : Json → Option (List (String × Json))
  | obj members => some members
  | _ => none

/-- The items of an array. -/
def items? : Json → Option (List Json)
  | arr items => some items
  | _ => none

/-- The items of an array, each read by `f`. -/
def list? {α : Type} (f : Json → Option α) : Json → Option (List α)
  | arr items => items.mapM f
  | _ => none

/-- The name of a choice without content: a string, or an object with the name as its only key and
null as its value. -/
def variant? : Json → Option String
  | str name => some name
  | obj [(name, null)] => some name
  | _ => none

/-! ## Records -/

/-- The fields of a record: those of an object by name, or those of an array that has exactly one
item for each name, in that order. -/
def fields? (names : List String) : Json → Option (String → Option Json)
  | obj members => some fun name => members.lookup name
  | arr items =>
    if items.length = names.length then some fun name => (names.zip items).lookup name else none
  | _ => none

/-- A field that has to be present. -/
def required {α : Type} (fields : String → Option Json) (name : String) (f : Json → Option α) :
    Option α :=
  fields name >>= f

/-- A field that may be absent or null. -/
def optional {α : Type} (fields : String → Option Json) (name : String) (f : Json → Option α) :
    Option (Option α) :=
  match fields name with
  | none | some null => some none
  | some value => (f value).map some

/-- An optional value, null if there is none. -/
def ofOption {α : Type} (f : α → Json) : Option α → Json
  | none => null
  | some a => f a

end Json

end ReviewRota
