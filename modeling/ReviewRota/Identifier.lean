import ReviewRota.Session
import ReviewRota.Text.Blank
import ReviewRota.Text.Digits

/-!
# Identifiers of new records

A deployment either generates all identifiers or takes all of them from its callers.

* `IdMode`: the two modes, their names and their reading.
* `resolveId`: the identifier of a new record.
-/

namespace ReviewRota

/-- Where the identifiers of new records come from. -/
inductive IdMode where
  | generated
  /-- Callers supply every identifier. -/
  | external
  deriving DecidableEq, Repr

namespace IdMode

/-- The name of a mode. -/
def name : IdMode → String
  | generated => "generated"
  | external => "external"

/-- The mode with this exact name. -/
def ofName? (s : String) : Option IdMode :=
  if s = "generated" then some generated else if s = "external" then some external else none

/-- Reads a mode, upper and lower case alike for the letters of ASCII. -/
def parse (s : String) : Except Fault IdMode :=
  match ofName? (Text.lower s) with
  | some mode => .ok mode
  | none => .error (.config (some ("unknown id mode: " ++ Text.lower s)))

theorem ofName?_name (m : IdMode) : ofName? m.name = some m := by
  cases m <;> rfl

end IdMode

/-- The identifier of a new record. A supplied one is refused where identifiers are generated, and
a missing or blank one where they are not. -/
def resolveId {σ π : Type} [Collaborators π] (mode : IdMode) (supplied : Option String) :
    Work σ π String :=
  match mode, supplied with
  | .generated, none => Work.freshId
  | .generated, some _ =>
    Work.fail (.invalidRequest "identifiers are generated by this deployment")
  | .external, none => Work.fail (.invalidRequest "an explicit identifier is required")
  | .external, some id =>
    if Text.isBlank id then Work.fail (.invalidRequest "an explicit identifier is required")
    else pure id

end ReviewRota
