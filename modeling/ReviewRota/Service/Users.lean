import ReviewRota.Service.Reassignment

/-!
# User service

Creation, look-up and change of users.

* `UserUpdate`: the fields to change.
* `Service.updateUser`: deactivation of an active user hands over the open reviews first.
-/

namespace ReviewRota

/-- Fields of a user to change. -/
structure UserUpdate where
  name : Option String
  isActive : Option Bool
  deriving DecidableEq, Repr

namespace UserUpdate

/-- Whether no field is to change. -/
def isEmpty (update : UserUpdate) : Bool :=
  update.name.isNone && update.isActive.isNone

/-- The user after the change. -/
def apply (update : UserUpdate) (user : User) : User :=
  { user with
    name := update.name.getD user.name
    isActive := update.isActive.getD user.isActive }

end UserUpdate

namespace Service

variable {σ π : Type} [Repository σ] [Collaborators π]

/-- Creates a user in a known team; the name must not be blank. -/
def createUser (settings : AssignmentSettings) (teamId name : String) (isActive : Bool)
    (id : Option String) : Work σ π User := do
  require (!Text.isBlank name) .invalidUserName
  let id ← resolveId settings.idMode id
  let createdAt ← Work.now
  let user : User := { id, name, teamId, isActive, createdAt }
  transact do
    let _ ← Work.read (Repository.team teamId)
    Work.write (Repository.createUser user)
  pure user

/-- The user with this id. -/
def user (id : String) : Work σ π User :=
  transact (Work.read (Repository.user id))

/-- Users oldest first, optionally of one team or with one active flag. -/
def users (team : Option String) (active : Option Bool) : Work σ π (List User) :=
  transact (Work.read (Repository.users team active))

/-- The body of `updateUser`, in a transaction. -/
def updateUserIn (id : String) (update : UserUpdate) : Work σ π User := do
  let user ← Work.read (Repository.user id)
  let changed := update.apply user
  if user.isActive && !changed.isActive then
    let _ ← reassignOpenReviews changed.teamId changed
  Work.write (Repository.updateUser changed)
  pure changed

/-- Changes name and active flag of a user. Deactivation of an active user hands over the open
reviews, and fails if one of them finds no candidate. -/
def updateUser (id : String) (update : UserUpdate) : Work σ π User := do
  require (!update.isEmpty) .emptyUpdate
  require (!update.name.any Text.isBlank) .invalidUserName
  transact (updateUserIn id update)

end Service

end ReviewRota
