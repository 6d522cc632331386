import ReviewRota.Json.Printer
import ReviewRota.Json.Reader
import ReviewRota.Json.Records
import ReviewRota.Relational.Connection

/-!
# Database images

The text of a database file: its tables row by row.

* `Image.toText`, `Content.ofText`: writing and reading.
-/

namespace ReviewRota.Relational

open Json (required optional)

/-! ## Rows -/

def PullRequestRow.toJson (row : PullRequestRow) : Json :=
  .obj [("id", .str row.id), ("title", .str row.title), ("author_id", .str row.authorId),
    ("status_code", .int row.statusCode), ("created_at", row.createdAt.toJson),
    ("merged_at", Json.ofOption Instant.toJson row.mergedAt)]

def PullRequestRow.ofJson? (value : Json) : Option PullRequestRow := do
  let fields ← value.fields?
    ["id", "title", "author_id", "status_code", "created_at", "merged_at"]
  let id ← required fields "id" Json.string?
  let title ← required fields "title" Json.string?
  let authorId ← required fields "author_id" Json.string?
  let statusCode ← required fields "status_code" Json.int?
  let createdAt ← required fields "created_at" Instant.ofJson?
  let mergedAt ← optional fields "merged_at" Instant.ofJson?
  pure { id, title, authorId, statusCode, createdAt, mergedAt }

def SlotRow.toJson (row : SlotRow) : Json :=
  .obj [("pr_id", .str row.pullRequestId), ("slot", .int row.number), ("user_id", .str row.userId),
    ("assigned_at", row.assignedAt.toJson)]

def SlotRow.ofJson? (value : Json) : Option SlotRow := do
  let fields ← value.fields? ["pr_id", "slot", "user_id", "assigned_at"]
  let pullRequestId ← required fields "pr_id" Json.string?
  let number ← required fields "slot" Json.int?
  let userId ← required fields "user_id" Json.string?
  let assignedAt ← required fields "assigned_at" Instant.ofJson?
  pure { pullRequestId, number, userId, assignedAt }

/-! ## Databases -/

def Database.toJson (d : Database) : Json :=
  .obj [("teams", .arr (d.teams.map Team.toJson)), ("users", .arr (d.users.map User.toJson)),
    ("pull_requests", .arr (d.pullRequests.map PullRequestRow.toJson)),
    ("pr_reviewers", .arr (d.slots.map SlotRow.toJson))]

def Database.ofJson? (value : Json) : Option Database := do
  let fields ← value.fields? ["teams", "users", "pull_requests", "pr_reviewers"]
  let teams ← required fields "teams" (Json.list? Team.ofJson?)
  let users ← required fields "users" (Json.list? User.ofJson?)
  let pullRequests ← required fields "pull_requests" (Json.list? PullRequestRow.ofJson?)
  let slots ← required fields "pr_reviewers" (Json.list? SlotRow.ofJson?)
  pure { teams, users, pullRequests, slots }

/-! ## Images -/

def Image.toJson (image : Image) : Json :=
  .obj [("database", image.database.toJson), ("logged", .bool image.isLogged)]

def Image.ofJson? (value : Json) : Option Image := do
  let fields ← value.fields? ["database", "logged"]
  let database ← required fields "database" Database.ofJson?
  let isLogged ← required fields "logged" Json.bool?
  pure { database, isLogged }

/-- The text of a database file. -/
def Image.toText (image : Image) : String :=
  image.toJson.pretty ++ "\n"

/-- What a file with this text holds. -/
def Content.ofText (text : String) : Content :=
  if text.utf8ByteSize ≤ 1 then .empty
  else
    match Json.parse? text >>= Image.ofJson? with
    | some image => .database image
    | none => .foreign

end ReviewRota.Relational
