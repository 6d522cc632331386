import ReviewRota.Instant.Text
import ReviewRota.Relational.Database
import ReviewRota.Repository
import ReviewRota.StableSort

/-!
# The relational store

Repository operations carried out statement by statement on a database. An operation of several
statements stops at the first that is refused, and what came before stays done.

Creation times are compared by their stored text, insertion order deciding between equal ones.

Every statement is taken to be carried out. In particular there is no limit on the values bound to
one statement: a listing binds the id of each of its rows, and a look-up of several users each of
their ids, and a database library refuses statements with too many of them, by default with more
than 32766. What is proved of listings, reports and bulk deactivations is about statements within
that limit.

* `Database.assemble`: pull requests with their slots from rows, the slots of all of them first.
* The instance `Repository Database`. Its reports are written record by record; that they are what
  joins and groups over the whole tables give is shown in `Keyed.userLoads_eq_joined` and
  `Keyed.reviewerCounts_eq_joined`.
-/

namespace ReviewRota.Relational.Database

/-! ## Queries -/

/-- Rows by stored creation time, then by insertion. -/
def oldestFirst {α : Type} (time : α → Instant) (rows : List α) : List α :=
  sortBy (fun a b => (time a).storedText ≤ (time b).storedText) rows

/-- Rows against stored creation time, then against insertion. -/
def newestFirst (rows : List PullRequestRow) : List PullRequestRow :=
  sortBy (fun a b => b.createdAt.storedText ≤ a.createdAt.storedText) rows.reverse

/-- Slot rows by pull request, then by number. -/
def slotOrder (a b : SlotRow) : Bool :=
  a.pullRequestId < b.pullRequestId ||
    (a.pullRequestId == b.pullRequestId && a.number ≤ b.number)

variable (d : Database)

/-- The pull requests of some rows, in that order. All their slots are decoded before the first
status. -/
def assemble (rows : List PullRequestRow) : Except Failure (List PullRequest) := do
  let chosen := d.slots.filter fun r => rows.any (·.id == r.pullRequestId)
  let slots ← (sortBy slotOrder chosen).mapM SlotRow.toSlot
  rows.mapM fun row => row.toPullRequest (slots.filter (·.pullRequestId == row.id))

/-- The pull request with this id. -/
def findPullRequest (id : String) : Except Failure PullRequest := do
  match d.pullRequests.find? (·.id == id) with
  | none => .error .rowMissing
  | some row =>
    match ← d.assemble [row] with
    | [p] => pure p
    | _ => .error .rowMissing

/-- The load of one user: the pull requests joined with the user's slots, counted by status code.
`Keyed.userLoads_eq_joined` has all loads as one query. -/
def userLoad (user : User) : UserLoad :=
  let reviewed := (d.slots.filter (·.userId == user.id)).filterMap fun r =>
    d.pullRequests.find? (·.id == r.pullRequestId)
  { userId := user.id
    total := reviewed.length
    opened := (reviewed.filter (·.statusCode == 1)).length
    merged := (reviewed.filter (·.statusCode == 2)).length }

/-! ## Operations of several statements -/

/-- Inserts a pull request, then its slots. -/
def createPullRequest (p : PullRequest) : Except Failure Unit × Database :=
  match d.insertPullRequest (.ofPullRequest p) with
  | .ok d => d.insertSlots (p.reviewers.map .ofSlot)
  | .error failure => (.error failure, d)

/-- Looks for the pull request, then for slots of others, then deletes the present slots and
inserts the new ones. -/
def setReviewers (id : String) (slots : List ReviewerSlot) : Except Failure Unit × Database :=
  if !d.hasPullRequest id then (.error .rowMissing, d)
  else if slots.any (·.pullRequestId != id) then (.error .failedCheck, d)
  else (d.deleteSlots id).insertSlots (slots.map .ofSlot)

/-- A single statement as an operation. -/
def statement (r : Except Failure Database) : Except Failure Unit × Database :=
  match r with
  | .ok d => (.ok (), d)
  | .error failure => (.error failure, d)

end ReviewRota.Relational.Database

namespace ReviewRota

open Relational

/-- The outcome of a query as a caller sees it. -/
def Relational.seen {α : Type} (r : Except Failure α) : Except Fault α :=
  r.mapError Failure.fault

/-- The outcome of a change as a caller sees it. -/
def Relational.seenChange (r : Except Failure Unit × Database) : Except Fault Unit × Database :=
  (seen r.1, r.2)

instance : Repository Database where
  empty := ⟨[], [], [], []⟩
  createTeam team d := seenChange (d.statement (d.insertTeam team))
  team id d := orNotFound (d.teams.find? (·.id == id))
  teams d := .ok (Database.oldestFirst Team.createdAt d.teams)
  createUser user d := seenChange (d.statement (d.insertUser user))
  user id d := orNotFound (d.users.find? (·.id == id))
  updateUser user d := seenChange (d.statement (d.updateUser user))
  users team active d :=
    .ok (Database.oldestFirst User.createdAt
      (d.users.filter fun u => passes team u.teamId && passes active u.isActive))
  usersByIds ids d :=
    .ok (Database.oldestFirst User.createdAt (d.users.filter (ids.contains ·.id)))
  activeMembers team except d :=
    .ok (Database.oldestFirst User.createdAt
      (d.users.filter fun u => u.isActive && u.teamId == team && !except.contains u.id))
  createPullRequest p d := seenChange (d.createPullRequest p)
  pullRequest lock id d := seen do
    if lock then d.touchPullRequest id
    d.findPullRequest id
  setStatus id status mergedAt d :=
    seenChange (d.statement (d.updateStatus id status.code mergedAt))
  setReviewers id slots d := seenChange (d.setReviewers id slots)
  pullRequests status d :=
    seen (d.assemble (Database.newestFirst
      (d.pullRequests.filter fun row => passes (status.map Status.code) row.statusCode)))
  assignedTo user status d :=
    seen (d.assemble (Database.newestFirst
      (d.pullRequests.filter fun row =>
        (d.slots.any fun r => r.pullRequestId == row.id && r.userId == user) &&
          passes (status.map Status.code) row.statusCode)))
  userLoads team d :=
    .ok (sortBy (fun a b => a.userId ≤ b.userId)
      ((d.users.filter fun u => passes team u.teamId).map d.userLoad))
  reviewerCounts team d :=
    .ok (sortBy (fun a b => a.pullRequestId ≤ b.pullRequestId)
      ((d.pullRequests.filter fun row =>
          (d.users.find? (·.id == row.authorId)).any fun author => passes team author.teamId).map
        fun row => ⟨row.id, (d.slots.filter (·.pullRequestId == row.id)).length⟩))

end ReviewRota
