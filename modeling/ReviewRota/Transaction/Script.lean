import ReviewRota.Service.Call

/-!
# Scripted transactions

Transactions as data: any operations of a repository, one after the other whether they fail or
not, and an ending.

* `Operation`, `Operation.perform`: a repository operation, or the reassignment of a reviewer.
* `Ending`: commit, rollback, a dropped transaction, or `finish` by the last fault.
* `Script.run`: the outcomes of the operations and of the ending.
-/

namespace ReviewRota

/-- An operation in an open transaction. -/
inductive Operation where
  | createTeam (team : Team)
  | team (id : String)
  | teams
  | createUser (user : User)
  | user (id : String)
  | updateUser (user : User)
  | users (team : Option String) (active : Option Bool)
  | usersByIds (ids : List String)
  | activeMembers (team : String) (except : List String)
  | createPullRequest (p : PullRequest)
  | pullRequest (lock : Bool) (id : String)
  | setStatus (id : String) (status : Status) (mergedAt : Option Instant)
  | setReviewers (id : String) (slots : List ReviewerSlot)
  | pullRequests (status : Option Status)
  | assignedTo (user : String) (status : Option Status)
  | userLoads (team : Option String)
  | reviewerCounts (team : Option String)
  | reassignOpenReviews (team : String) (user : User)
  deriving DecidableEq

/-- How a transaction ends. -/
inductive Ending where
  | commit
  | rollback
  /-- The transaction is given up without an ending, which undoes it. -/
  | drop
  /-- Commit, or rollback with the last fault if an operation failed. -/
  | finish
  deriving DecidableEq, Repr

/-- A transaction as data. -/
structure Script where
  operations : List Operation
  ending : Ending
  deriving DecidableEq

variable {σ π : Type} [Repository σ] [Collaborators π]

/-- Carries out an operation. -/
def Operation.perform : Operation → Work σ π Reply
  | .createTeam record => change (Repository.createTeam record)
  | .team id => .team <$> Work.read (Repository.team id)
  | .teams => .teams <$> Work.read Repository.teams
  | .createUser record => change (Repository.createUser record)
  | .user id => .user <$> Work.read (Repository.user id)
  | .updateUser record => change (Repository.updateUser record)
  | .users teamId active => .users <$> Work.read (Repository.users teamId active)
  | .usersByIds ids => .users <$> Work.read (Repository.usersByIds ids)
  | .activeMembers teamId except =>
    .users <$> Work.read (Repository.activeMembers teamId except)
  | .createPullRequest p => change (Repository.createPullRequest p)
  | .pullRequest lock id => .pullRequest <$> Work.read (Repository.pullRequest lock id)
  | .setStatus id status mergedAt => change (Repository.setStatus id status mergedAt)
  | .setReviewers id slots => change (Repository.setReviewers id slots)
  | .pullRequests status => .pullRequests <$> Work.read (Repository.pullRequests status)
  | .assignedTo userId status =>
    .pullRequests <$> Work.read (Repository.assignedTo userId status)
  | .userLoads teamId => .userLoads <$> Work.read (Repository.userLoads teamId)
  | .reviewerCounts teamId =>
    .reviewerCounts <$> Work.read (Repository.reviewerCounts teamId)
  | .reassignOpenReviews teamId leaver =>
    .count <$> Service.reassignOpenReviews teamId leaver
where
  /-- A change, which has no value of its own. -/
  change (f : σ → Except Fault Unit × σ) : Work σ π Reply :=
    (fun _ => .done) <$> Work.write f

/-- Carries out operations one after the other. -/
def Operation.performAll :
    List Operation → Session σ π → List (Except Fault Reply) × Session σ π
  | [], s => ([], s)
  | operation :: operations, s =>
    let (reply, s) := operation.perform.exec s
    let (replies, s) := performAll operations s
    (reply :: replies, s)

/-- The last fault among some outcomes. -/
def lastFault (replies : List (Except Fault Reply)) : Except Fault Unit :=
  replies.foldl (fun last reply =>
    match reply with
    | .ok _ => last
    | .error fault => .error fault) (.ok ())

/-- Ends a transaction on `copy` over `data`: the outcome, and the data after it. -/
def Ending.apply (replies : List (Except Fault Reply)) (copy data : σ) :
    Ending → Except Fault Unit × σ
  | .commit => Manager.copying.commit copy data
  | .rollback => Manager.copying.rollback copy data
  | .drop => (.ok (), data)
  | .finish => ReviewRota.finish .copying copy (lastFault replies) data

/-- Runs a transaction: the outcomes of its operations, that of its ending, and the session after
it. -/
def Script.run (script : Script) (s : Session σ π) :
    (List (Except Fault Reply) × Except Fault Unit) × Session σ π :=
  let (replies, after) := Operation.performAll script.operations s
  let (outcome, data) := script.ending.apply replies after.data s.data
  ((replies, outcome), { after with data })

end ReviewRota
