import ReviewRota.Selection
import ReviewRota.Service.Basic

/-!
# Pull request service

Creation with initial reviewers, look-up, reassignment of one reviewer, and merging.

* `numberedSlots`: the slots of the reviewers chosen for a new pull request.
* `createPullRequest`, `reassign`, `merge`, `assigned`: the services.
-/

namespace ReviewRota.Service

variable {σ π : Type} [Repository σ] [Collaborators π]

/-- Slots for chosen reviewers, numbered from 1 modulo `2 ^ 32`. -/
def numberedSlots (pullRequestId : String) (time : Instant) (chosen : List User) :
    List ReviewerSlot :=
  chosen.mapIdx fun i user =>
    { pullRequestId, number := UInt32.ofNat (i + 1), userId := user.id, assignedAt := time }

/-- The body of `createPullRequest`, in a transaction. -/
def createPullRequestIn (settings : AssignmentSettings) (id title authorId : String) :
    Work σ π PullRequest := do
  let author ← Work.read (Repository.user authorId)
  let candidates ← Work.read (Repository.activeMembers author.teamId [author.id])
  let chosen ← Selection.initial candidates settings.maxReviewers
  let time ← Work.now
  let p : PullRequest :=
    { id, title, authorId := author.id, status := .opened, createdAt := time, mergedAt := none
      reviewers := numberedSlots id time chosen }
  Work.write (Repository.createPullRequest p)
  pure p

/-- Opens a pull request, whose title must not be blank, with reviewers from the author's team. -/
def createPullRequest (settings : AssignmentSettings) (title authorId : String)
    (id : Option String) : Work σ π PullRequest := do
  require (!Text.isBlank title) .invalidTitle
  let id ← resolveId settings.idMode id
  transact (createPullRequestIn settings id title authorId)

/-- The pull request with this id. -/
def pullRequest (id : String) : Work σ π PullRequest :=
  transact (Work.read (Repository.pullRequest false id))

/-- Pull requests newest first, optionally of one status. -/
def pullRequests (status : Option Status) : Work σ π (List PullRequest) :=
  transact (Work.read (Repository.pullRequests status))

/-- The body of `reassign`, in a transaction. The pool is the team of the reviewer who leaves. -/
def reassignIn (id reviewerId : String) : Work σ π PullRequest := do
  let p ← Work.read (Repository.pullRequest true id)
  require p.isOpen .alreadyMerged
  let reviewer ← Work.read (Repository.user reviewerId)
  let pool ← Work.read (Repository.activeMembers reviewer.teamId (p.exclusions reviewer.id))
  let chosen ← Selection.replacement pool
  let time ← Work.now
  let (slots, replaced) := p.replaceReviewer reviewer.id chosen.id time
  require replaced .badReviewer
  let slots := renumber slots
  Work.write (Repository.setReviewers p.id slots)
  pure { p with reviewers := slots }

/-- Replaces one reviewer of an open pull request by a member of that reviewer's team. -/
def reassign (id reviewerId : String) : Work σ π PullRequest :=
  transact (reassignIn id reviewerId)

/-- The body of `merge`, in a transaction. -/
def mergeIn (id : String) : Work σ π PullRequest := do
  let p ← Work.read (Repository.pullRequest true id)
  if p.status = .merged then
    pure p
  else
    let time ← Work.now
    Work.write (Repository.setStatus p.id .merged (some time))
    pure { p with status := .merged, mergedAt := some time }

/-- Merges a pull request; one that is merged already stays as it is. -/
def merge (id : String) : Work σ π PullRequest :=
  transact (mergeIn id)

/-- Pull requests that a known user reviews, newest first, optionally of one status. -/
def assigned (userId : String) (status : Option Status) : Work σ π (List PullRequest) :=
  transact do
    let _ ← Work.read (Repository.user userId)
    Work.read (Repository.assignedTo userId status)

/-- The load of each user, optionally of one team. -/
def userLoads (team : Option String) : Work σ π (List UserLoad) :=
  transact (Work.read (Repository.userLoads team))

/-- The reviewer count of each pull request, optionally of one author team. -/
def reviewerCounts (team : Option String) : Work σ π (List ReviewerCount) :=
  transact (Work.read (Repository.reviewerCounts team))

end ReviewRota.Service
