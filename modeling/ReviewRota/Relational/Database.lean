import ReviewRota.PullRequest
import ReviewRota.Relational.Failure
import ReviewRota.Team

/-!
# Tables and statements

The tables of the database, rows in the order of their insertion, and the statements that act on
them. A statement that the schema refuses changes nothing.

* `Database`: the tables. Teams and users are stored column by column; a pull request is one row,
  and each of its slots another.
* `insertTeam`, `insertUser`, `insertPullRequest`, `insertSlot`: insertions. Ranges are checked
  first, then keys, then references.
* `updateUser`, `updateStatus`, `touchPullRequest`, `deleteSlots`: changes.
* `forceStatus`, `forceSlot`: changes with the range checks switched off.
-/

namespace ReviewRota

/-! ## Columns -/

/-- The code stored for a status. -/
def Status.code : Status → Int
  | .opened => 1
  | .merged => 2

namespace Relational

/-- The status that a stored code stands for. -/
def statusOfCode (code : Int) : Except Failure Status :=
  if code = 1 then .ok .opened else if code = 2 then .ok .merged else .error (.unknownStatus code)

theorem statusOfCode_code (s : Status) : statusOfCode s.code = .ok s := by
  cases s <;> rfl

/-- Row of a pull request. -/
structure PullRequestRow where
  id : String
  title : String
  authorId : String
  /-- Status: 1 is open, 2 is merged. -/
  statusCode : Int
  createdAt : Instant
  mergedAt : Option Instant
  deriving DecidableEq

/-- Row of a reviewer slot. -/
structure SlotRow where
  pullRequestId : String
  number : Int
  userId : String
  assignedAt : Instant
  deriving DecidableEq

/-! ## Rows and records -/

/-- The row of a slot. -/
def SlotRow.ofSlot (slot : ReviewerSlot) : SlotRow :=
  ⟨slot.pullRequestId, slot.number.toNat, slot.userId, slot.assignedAt⟩

/-- The slot in a row, whose number has to fit in 32 bits. -/
def SlotRow.toSlot (row : SlotRow) : Except Failure ReviewerSlot :=
  if 0 ≤ row.number ∧ row.number < 4294967296 then
    .ok ⟨row.pullRequestId, UInt32.ofNat row.number.toNat, row.userId, row.assignedAt⟩
  else .error (.invalidSlot row.number)

/-- The row of a pull request, without its slots. -/
def PullRequestRow.ofPullRequest (p : PullRequest) : PullRequestRow :=
  ⟨p.id, p.title, p.authorId, p.status.code, p.createdAt, p.mergedAt⟩

/-- The pull request of a row and its slots. -/
def PullRequestRow.toPullRequest (row : PullRequestRow) (reviewers : List ReviewerSlot) :
    Except Failure PullRequest := do
  let status ← statusOfCode row.statusCode
  pure ⟨row.id, row.title, row.authorId, status, row.createdAt, row.mergedAt, reviewers⟩

/-! ## Statements -/

/-- The tables, each in the order of insertion. -/
structure Database where
  teams : List Team
  users : List User
  pullRequests : List PullRequestRow
  slots : List SlotRow
  deriving DecidableEq

namespace Database

variable (d : Database)

/-- Whether a team with this id is stored. -/
def hasTeam (id : String) : Bool :=
  d.teams.any (·.id == id)

/-- Whether a user with this id is stored. -/
def hasUser (id : String) : Bool :=
  d.users.any (·.id == id)

/-- Whether a pull request with this id is stored. -/
def hasPullRequest (id : String) : Bool :=
  d.pullRequests.any (·.id == id)

/-- Inserts a team; ids and names are unique. -/
def insertTeam (team : Team) : Except Failure Database :=
  if d.hasTeam team.id || d.teams.any (·.name == team.name) then .error .duplicateKey
  else .ok { d with teams := d.teams ++ [team] }

/-- Inserts a user with a new id into a stored team. -/
def insertUser (user : User) : Except Failure Database :=
  if d.hasUser user.id then .error .duplicateKey
  else if !d.hasTeam user.teamId then .error .missingReference
  else .ok { d with users := d.users ++ [user] }

/-- Inserts a pull request with a new id and a stored author. -/
def insertPullRequest (row : PullRequestRow) : Except Failure Database :=
  if row.statusCode ≠ 1 ∧ row.statusCode ≠ 2 then .error .failedCheck
  else if d.hasPullRequest row.id then .error .duplicateKey
  else if !d.hasUser row.authorId then .error .missingReference
  else .ok { d with pullRequests := d.pullRequests ++ [row] }

/-- Inserts a slot under the pull request it names, where number and user have to be new. -/
def insertSlot (row : SlotRow) : Except Failure Database :=
  if row.number < 1 then .error .failedCheck
  else if d.slots.any fun r =>
      r.pullRequestId == row.pullRequestId && (r.number == row.number || r.userId == row.userId)
    then .error .duplicateSlot
  else if !(d.hasPullRequest row.pullRequestId && d.hasUser row.userId) then
    .error .missingReference
  else .ok { d with slots := d.slots ++ [row] }

/-- Inserts slots one after the other up to the first that is refused. -/
def insertSlots (d : Database) : List SlotRow → Except Failure Unit × Database
  | [] => (.ok (), d)
  | row :: rows =>
    match d.insertSlot row with
    | .ok d => d.insertSlots rows
    | .error failure => (.error failure, d)

/-- Changes name and active flag of a user. -/
def updateUser (user : User) : Except Failure Database :=
  if !d.hasUser user.id then .error .rowMissing
  else .ok { d with
    users := d.users.map fun u =>
      if u.id = user.id then { u with name := user.name, isActive := user.isActive } else u }

/-- Changes status and merge time of a pull request. -/
def updateStatus (id : String) (code : Int) (mergedAt : Option Instant) :
    Except Failure Database :=
  if !d.hasPullRequest id then .error .rowMissing
  else .ok { d with
    pullRequests := d.pullRequests.map fun row =>
      if row.id = id then { row with statusCode := code, mergedAt } else row }

/-- Writes the status of a pull request as it is, which locks it. The write checks the range of the
stored code again; a pull request that is not stored is no failure. -/
def touchPullRequest (id : String) : Except Failure Unit :=
  if d.pullRequests.any fun row => row.id == id && row.statusCode != 1 && row.statusCode != 2 then
    .error .failedCheck
  else .ok ()

/-- Deletes the slots of a pull request. -/
def deleteSlots (id : String) : Database :=
  { d with slots := d.slots.filter (·.pullRequestId != id) }

/-! ## Damage -/

/-- Stores any status code, and tells how many rows changed. -/
def forceStatus (id : String) (code : Int) : Nat × Database :=
  ((d.pullRequests.filter (·.id == id)).length, { d with
    pullRequests := d.pullRequests.map fun row =>
      if row.id = id then { row with statusCode := code } else row })

/-- Changes the number of a slot to any number that is free, and tells how many rows changed. -/
def forceSlot (id : String) (number target : Int) : Except Failure Nat × Database :=
  let chosen := d.slots.filter fun r => r.pullRequestId == id && r.number == number
  if !chosen.isEmpty && number != target &&
      d.slots.any fun r => r.pullRequestId == id && r.number == target then
    (.error .duplicateSlot, d)
  else
    (.ok chosen.length, { d with
      slots := d.slots.map fun r =>
        if r.pullRequestId = id ∧ r.number = number then { r with number := target } else r })

end Database

end Relational

end ReviewRota
