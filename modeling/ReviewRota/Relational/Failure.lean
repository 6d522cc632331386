import ReviewRota.Fault

/-!
# Failures of the database

What a database answers instead of a result, and the fault each answer becomes.

A number or a user that is taken on a pull request breaks an invariant of the engine, so it is a
constraint violation; any other taken key is a duplicate.
-/

namespace ReviewRota.Relational

/-- Answer of the database in place of a result. -/
inductive Failure where
  /-- A row that has to exist does not. -/
  | rowMissing
  /-- A primary or unique key is taken. -/
  | duplicateKey
  /-- A slot number or a reviewer is taken on its pull request. -/
  | duplicateSlot
  /-- A reference to a row that does not exist. -/
  | missingReference
  /-- A value outside the range of its column. -/
  | failedCheck
  /-- A stored status code that is no status. -/
  | unknownStatus (code : Int)
  /-- A stored slot number that no slot can have. -/
  | invalidSlot (number : Int)
  /-- A change through a connection that cannot write. -/
  | readOnly
  /-- No connection became free in time. -/
  | timedOut
  /-- The schema could not be brought up to date. -/
  | migration
  | io (text : String)
  deriving DecidableEq, Repr

/-- The fault that a caller sees. -/
def Failure.fault : Failure → Fault
  | rowMissing => .notFound
  | duplicateKey => .alreadyExists
  | duplicateSlot | missingReference | failedCheck => .constraintViolation
  | unknownStatus code => .storage (some ("unknown pull request status code: " ++ toString code))
  | invalidSlot number => .storage (some ("invalid reviewer slot: " ++ toString number))
  | readOnly | timedOut | migration => .storage none
  | io text => .io (some text)

end ReviewRota.Relational
