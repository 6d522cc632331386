import ReviewRota.Json.Basic
import ReviewRota.Toml.Basic

/-!
# Formats of settings

Settings are read from any format of which a few views are known.

* `SettingsFormat ν`: the views of a value `ν`.
* The instances `SettingsFormat Json` and `SettingsFormat Toml`.
-/

namespace ReviewRota

/-- Views of the values of a format. -/
class SettingsFormat (ν : Type) where
  /-- The text of a string. -/
  string? : ν → Option String
  /-- A whole number from 0 that is below a bound. -/
  natBelow? : (bound : Nat) → ν → Option Nat
  /-- The name of a choice without content. -/
  choice? : ν → Option String
  /-- The fields of a record by name. An array gives them by position, the last of them may be
  missing. -/
  fields? : (names : List String) → ν → Option (String → Option ν)

/-- A JSON array must not have more items than there are fields. -/
instance : SettingsFormat Json where
  string? := Json.string?
  natBelow? := Json.natBelow?
  choice? := Json.variant?
  fields? names
    | .obj members => some fun name => members.lookup name
    | .arr items =>
      if items.length ≤ names.length then some fun name => (names.zip items).lookup name else none
    | _ => none

/-- A choice may also be the only key of a table with nothing under it. Items of an array beyond
the fields are ignored, and a point in time is a record without any known field. -/
instance : SettingsFormat Toml where
  string?
    | .str s => some s
    | _ => none
  natBelow? bound
    | .int (.ofNat n) => if n < bound then some n else none
    | _ => none
  choice?
    | .str name => some name
    | .table [(name, .table [])] => some name
    | .table [(name, .arr [])] => some name
    | _ => none
  fields? names
    | .table members => some fun name => members.lookup name
    | .arr items => some fun name => (names.zip items).lookup name
    | .moment _ => some fun _ => none
    | _ => none

end ReviewRota
