import ReviewRota.Repository
import ReviewRota.StableSort

/-!
# The in-memory store

A store that holds whole records in the order of their creation, each pull request with its slots.
An operation that fails changes nothing.

* `Memory`: the records.
* `Memory.acceptsSlots`: the condition on a slot list.
* `Memory.repository`: the operations, for any order of time in the listings.
* The instance `Repository Memory`, whose listings go by `Instant.le`.
-/

namespace ReviewRota

/-- Records in the order of their creation. -/
structure Memory where
  teams : List Team
  users : List User
  pullRequests : List PullRequest
  deriving DecidableEq

namespace Memory

/-! ## Order of listings -/

/-- Slots by number. -/
def sortSlots (slots : List ReviewerSlot) : List ReviewerSlot :=
  sortBy (fun a b => a.number ≤ b.number) slots

/-- Records in the order of time `older`, those of one instant in the order of creation. -/
def oldestFirst {α : Type} (older : Instant → Instant → Bool) (time : α → Instant)
    (l : List α) : List α :=
  sortBy (fun a b => older (time a) (time b)) l

/-- Pull requests against the order of time `older`, those of one instant against that of
creation. -/
def newestFirst (older : Instant → Instant → Bool) (l : List PullRequest) : List PullRequest :=
  sortBy (fun a b => older b.createdAt a.createdAt) l.reverse

variable (m : Memory)

/-! ## Look-up -/

/-- The team with this id. -/
def findTeam (id : String) : Option Team :=
  m.teams.find? (·.id == id)

/-- The user with this id. -/
def findUser (id : String) : Option User :=
  m.users.find? (·.id == id)

/-- The pull request with this id. -/
def findPullRequest (id : String) : Option PullRequest :=
  m.pullRequests.find? (·.id == id)

/-! ## Slot lists -/

/-- Whether a slot can follow the slots `seen` on pull request `id`: it is that pull request's, its
number is 1 or more and new, and its user is known and new. -/
def acceptsSlot (id : String) (seen : List ReviewerSlot) (slot : ReviewerSlot) : Bool :=
  slot.pullRequestId == id && 1 ≤ slot.number && !seen.any (·.number == slot.number) &&
    !seen.any (·.userId == slot.userId) && (m.findUser slot.userId).isSome

/-- Whether a list of slots can follow the slots `seen` on pull request `id`. -/
def acceptsAfter (id : String) (seen : List ReviewerSlot) : List ReviewerSlot → Bool
  | [] => true
  | slot :: rest => m.acceptsSlot id seen slot && acceptsAfter id (seen ++ [slot]) rest

/-- Whether a list of slots can stand on pull request `id`. -/
def acceptsSlots (id : String) (slots : List ReviewerSlot) : Bool :=
  m.acceptsAfter id [] slots

/-! ## Changes -/

/-- Stores a team unless its id or its name is taken. -/
def createTeam (team : Team) : Except Fault Unit × Memory :=
  if m.teams.any fun t => t.id == team.id || t.name == team.name then (.error .alreadyExists, m)
  else (.ok (), { m with teams := m.teams ++ [team] })

/-- Stores a user with a new id in a known team. -/
def createUser (user : User) : Except Fault Unit × Memory :=
  if (m.findUser user.id).isSome then (.error .alreadyExists, m)
  else if (m.findTeam user.teamId).isNone then (.error .constraintViolation, m)
  else (.ok (), { m with users := m.users ++ [user] })

/-- Stores name and active flag of a known user. -/
def updateUser (user : User) : Except Fault Unit × Memory :=
  if (m.findUser user.id).isNone then (.error .notFound, m)
  else
    (.ok (), { m with
      users := m.users.map fun u =>
        if u.id = user.id then { u with name := user.name, isActive := user.isActive } else u })

/-- Stores a pull request with a new id, a known author and acceptable slots. -/
def createPullRequest (p : PullRequest) : Except Fault Unit × Memory :=
  if (m.findPullRequest p.id).isSome then (.error .alreadyExists, m)
  else if (m.findUser p.authorId).isNone then (.error .constraintViolation, m)
  else if !m.acceptsSlots p.id p.reviewers then (.error .constraintViolation, m)
  else
    (.ok (), { m with
      pullRequests := m.pullRequests ++ [{ p with reviewers := sortSlots p.reviewers }] })

/-- Applies a change to a known pull request. -/
def changePullRequest (id : String) (f : PullRequest → PullRequest) :
    Except Fault Unit × Memory :=
  if (m.findPullRequest id).isNone then (.error .notFound, m)
  else
    (.ok (), { m with pullRequests := m.pullRequests.map fun p => if p.id = id then f p else p })

/-- Puts acceptable slots on a known pull request; the slots are looked at first. -/
def setReviewers (id : String) (slots : List ReviewerSlot) : Except Fault Unit × Memory :=
  if !m.acceptsSlots id slots then (.error .constraintViolation, m)
  else m.changePullRequest id fun p => { p with reviewers := sortSlots slots }

/-! ## Reports -/

/-- The load of one user. -/
def userLoad (user : User) : UserLoad :=
  let reviewed := m.pullRequests.filter (·.hasReviewer user.id)
  { userId := user.id
    total := reviewed.length
    opened := (reviewed.filter (·.status == .opened)).length
    merged := (reviewed.filter (·.status == .merged)).length }

/-- Whether the author of a pull request is of a team, if one is asked for. -/
def authorPasses (team : Option String) (p : PullRequest) : Bool :=
  team.isNone || (m.findUser p.authorId).any fun author => passes team author.teamId

/-! ## Operations -/

/-- The operations on records, listed by the order of time `older`. -/
@[reducible]
def repository (older : Instant → Instant → Bool) : Repository Memory where
  empty := ⟨[], [], []⟩
  createTeam team m := m.createTeam team
  team id m := orNotFound (m.findTeam id)
  teams m := .ok (oldestFirst older Team.createdAt m.teams)
  createUser user m := m.createUser user
  user id m := orNotFound (m.findUser id)
  updateUser user m := m.updateUser user
  users team active m :=
    .ok (oldestFirst older User.createdAt
      (m.users.filter fun u => passes team u.teamId && passes active u.isActive))
  usersByIds ids m := .ok (oldestFirst older User.createdAt (m.users.filter (ids.contains ·.id)))
  activeMembers team except m :=
    .ok (oldestFirst older User.createdAt
      (m.users.filter fun u => u.teamId == team && u.isActive && !except.contains u.id))
  createPullRequest p m := m.createPullRequest p
  pullRequest _ id m := orNotFound (m.findPullRequest id)
  setStatus id status mergedAt m := m.changePullRequest id fun p => { p with status, mergedAt }
  setReviewers id slots m := m.setReviewers id slots
  pullRequests status m :=
    .ok (newestFirst older (m.pullRequests.filter fun p => passes status p.status))
  assignedTo user status m :=
    .ok (newestFirst older
      (m.pullRequests.filter fun p => p.hasReviewer user && passes status p.status))
  userLoads team m :=
    .ok (sortBy (fun a b => a.userId ≤ b.userId)
      ((m.users.filter fun u => passes team u.teamId).map m.userLoad))
  reviewerCounts team m :=
    .ok (sortBy (fun a b => a.pullRequestId ≤ b.pullRequestId)
      ((m.pullRequests.filter (m.authorPasses team)).map fun p => ⟨p.id, p.reviewers.length⟩))

end Memory

instance : Repository Memory :=
  Memory.repository Instant.le

end ReviewRota
