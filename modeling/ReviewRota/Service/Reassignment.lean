import ReviewRota.Selection
import ReviewRota.Service.Basic

/-!
# Reassignment of a departing reviewer

Hands every open review of a user to a team member, within a transaction of the caller. The first
pull request without a candidate is a fault, and what was handed over before it stays done for the
caller to drop.

* `handOver`: one pull request.
* `reassignOpenReviews`: all open pull requests that the user reviews.
-/

namespace ReviewRota.Service

variable {σ π : Type} [Repository σ] [Collaborators π]

/-- Hands the review of `user` on one pull request to an eligible member of the pool. -/
def handOver (pool : List User) (user : User) (p : PullRequest) : Work σ π Unit := do
  let excluded := p.exclusions user.id
  let chosen ← Selection.replacement (pool.filter fun member => !excluded.contains member.id)
  let time ← Work.now
  let slots := (p.replaceReviewer user.id chosen.id time).1
  Work.write (Repository.setReviewers p.id (renumber slots))

/-- Hands over the reviews of `user` on several pull requests and counts them. -/
def handOverAll (pool : List User) (user : User) : List PullRequest → Work σ π Nat
  | [] => pure 0
  | p :: rest => do
    handOver pool user p
    let count ← handOverAll pool user rest
    pure (count + 1)

/-- Hands every open review of `user` to an active member of `team` and counts them. The pool of
candidates is the same for all. -/
def reassignOpenReviews (team : String) (user : User) : Work σ π Nat := do
  let reviewed ← Work.read (Repository.assignedTo user.id (some .opened))
  if reviewed.isEmpty then
    pure 0
  else
    let pool ← Work.read (Repository.activeMembers team [user.id])
    handOverAll pool user reviewed

end ReviewRota.Service
