import ReviewRota.Fault
import ReviewRota.Instant.Basic
import ReviewRota.Text.Digits

/-!
# Pull requests

A pull request and the reviewer slots it owns, with the operations on its slot list.

* `PullRequest.exclusions`: who may not take over a review.
* `PullRequest.replaceReviewer`: hands the slots of one reviewer to another.
* `renumber`: slots numbered `1, 2, …` in their current order.
-/

namespace ReviewRota

/-- Status of a pull request; it changes once at most, from open to merged. -/
inductive Status where
  | opened
  | merged
  deriving DecidableEq, Repr

namespace Status

/-- The name of a status. -/
def name : Status → String
  | opened => "OPEN"
  | merged => "MERGED"

/-- The status with this exact name. -/
def ofName? (s : String) : Option Status :=
  if s = "OPEN" then some opened else if s = "MERGED" then some merged else none

/-- Reads a status, upper and lower case alike for the letters of ASCII. -/
def parse (s : String) : Except Fault Status :=
  match ofName? (Text.upper s) with
  | some status => .ok status
  | none => .error (.invalidRequest ("unknown pull request status: " ++ Text.upper s))

theorem ofName?_name (s : Status) : ofName? s.name = some s := by
  cases s <;> rfl

end Status

/-- One reviewer's place on a pull request. -/
structure ReviewerSlot where
  pullRequestId : String
  /-- Position on the pull request, from 1. -/
  number : UInt32
  userId : String
  assignedAt : Instant
  deriving DecidableEq

/-- A pull request with its reviewers. -/
structure PullRequest where
  id : String
  title : String
  authorId : String
  status : Status
  createdAt : Instant
  mergedAt : Option Instant
  reviewers : List ReviewerSlot
  deriving DecidableEq

/-- Slots numbered from 1 in their current order, the number taken modulo `2 ^ 32`. -/
def renumber (slots : List ReviewerSlot) : List ReviewerSlot :=
  slots.mapIdx fun i slot => { slot with number := UInt32.ofNat (i + 1) }

namespace PullRequest

variable (p : PullRequest)

/-- Whether reviewers can still change. -/
def isOpen : Bool :=
  p.status == .opened

/-- The reviewers in slot order. -/
def reviewerIds : List String :=
  p.reviewers.map ReviewerSlot.userId

/-- Whether the user holds a slot. -/
def hasReviewer (userId : String) : Bool :=
  p.reviewers.any (·.userId == userId)

/-- A list with `x` put at its end unless it is there already. -/
def addNew (l : List String) (x : String) : List String :=
  if l.contains x then l else l ++ [x]

/-- Users who may not take over from `target`: `target`, the author and the other reviewers, each
once and in this order. -/
def exclusions (target : String) : List String :=
  (p.authorId :: p.reviewerIds.filter (· != target)).foldl addNew [target]

/-- The slot list after `new` takes every slot of `old` at the given time, and whether there was
one. Slot numbers stay. -/
def replaceReviewer (old new : String) (time : Instant) : List ReviewerSlot × Bool :=
  (p.reviewers.map fun slot =>
      if slot.userId = old then { slot with userId := new, assignedAt := time } else slot,
    p.hasReviewer old)

end PullRequest

/-! ## Laws -/

theorem length_renumber (slots : List ReviewerSlot) : (renumber slots).length = slots.length := by
  simp [renumber]

theorem map_userId_renumber (slots : List ReviewerSlot) :
    (renumber slots).map ReviewerSlot.userId = slots.map ReviewerSlot.userId := by
  simp only [renumber, List.mapIdx_eq_zipIdx_map, List.map_map]
  exact (List.map_map (g := ReviewerSlot.userId) (f := Prod.fst) (l := slots.zipIdx)).symm.trans
    (by rw [List.zipIdx_map_fst])

theorem PullRequest.hasReviewer_iff {p : PullRequest} {u : String} :
    p.hasReviewer u = true ↔ u ∈ p.reviewerIds := by
  simp [hasReviewer, reviewerIds]

theorem PullRequest.mem_addNew {l : List String} {x y : String} :
    y ∈ addNew l x ↔ y ∈ l ∨ y = x := by
  unfold addNew
  split <;> simp_all

end ReviewRota
