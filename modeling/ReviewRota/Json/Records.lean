import ReviewRota.Instant.Text
import ReviewRota.Json.Basic
import ReviewRota.PullRequest
import ReviewRota.Report
import ReviewRota.Service.Call
import ReviewRota.Team

/-!
# Records as JSON

Each record is written as an object and read from an object, in which unknown members are ignored,
or from an array of all fields in the order of their declaration.

* `toJson` and `ofJson?` for instants, statuses, teams, users, slots, pull requests and reports.
* `Reply.toJson`: the reply of a service.
-/

namespace ReviewRota

open Json (required optional)

/-! ## Instants and statuses -/

def Instant.toJson (t : Instant) : Json :=
  .str t.toText

def Instant.ofJson? (value : Json) : Option Instant :=
  value.string? >>= ofText?

def Status.toJson (s : Status) : Json :=
  .str s.name

/-- Reads the exact name of a status. -/
def Status.ofJson? (value : Json) : Option Status :=
  value.variant? >>= ofName?

/-! ## Teams and users -/

def Team.toJson (team : Team) : Json :=
  .obj [("id", .str team.id), ("name", .str team.name), ("created_at", team.createdAt.toJson)]

def Team.ofJson? (value : Json) : Option Team := do
  let fields ← value.fields? ["id", "name", "created_at"]
  let id ← required fields "id" Json.string?
  let name ← required fields "name" Json.string?
  let createdAt ← required fields "created_at" Instant.ofJson?
  pure { id, name, createdAt }

def User.toJson (user : User) : Json :=
  .obj [("id", .str user.id), ("name", .str user.name), ("team_id", .str user.teamId),
    ("is_active", .bool user.isActive), ("created_at", user.createdAt.toJson)]

def User.ofJson? (value : Json) : Option User := do
  let fields ← value.fields? ["id", "name", "team_id", "is_active", "created_at"]
  let id ← required fields "id" Json.string?
  let name ← required fields "name" Json.string?
  let teamId ← required fields "team_id" Json.string?
  let isActive ← required fields "is_active" Json.bool?
  let createdAt ← required fields "created_at" Instant.ofJson?
  pure { id, name, teamId, isActive, createdAt }

def UserUpdate.toJson (update : UserUpdate) : Json :=
  .obj [("name", Json.ofOption .str update.name),
    ("is_active", Json.ofOption .bool update.isActive)]

def UserUpdate.ofJson? (value : Json) : Option UserUpdate := do
  let fields ← value.fields? ["name", "is_active"]
  let name ← optional fields "name" Json.string?
  let isActive ← optional fields "is_active" Json.bool?
  pure { name, isActive }

/-! ## Pull requests -/

def ReviewerSlot.toJson (slot : ReviewerSlot) : Json :=
  .obj [("pr_id", .str slot.pullRequestId), ("slot", .int slot.number.toNat),
    ("user_id", .str slot.userId), ("assigned_at", slot.assignedAt.toJson)]

def ReviewerSlot.ofJson? (value : Json) : Option ReviewerSlot := do
  let fields ← value.fields? ["pr_id", "slot", "user_id", "assigned_at"]
  let pullRequestId ← required fields "pr_id" Json.string?
  let number ← required fields "slot" (Json.natBelow? 4294967296)
  let userId ← required fields "user_id" Json.string?
  let assignedAt ← required fields "assigned_at" Instant.ofJson?
  pure { pullRequestId, number := UInt32.ofNat number, userId, assignedAt }

def PullRequest.toJson (p : PullRequest) : Json :=
  .obj [("id", .str p.id), ("title", .str p.title), ("author_id", .str p.authorId),
    ("status", p.status.toJson), ("created_at", p.createdAt.toJson),
    ("merged_at", Json.ofOption Instant.toJson p.mergedAt),
    ("reviewers", .arr (p.reviewers.map ReviewerSlot.toJson))]

def PullRequest.ofJson? (value : Json) : Option PullRequest := do
  let fields ← value.fields?
    ["id", "title", "author_id", "status", "created_at", "merged_at", "reviewers"]
  let id ← required fields "id" Json.string?
  let title ← required fields "title" Json.string?
  let authorId ← required fields "author_id" Json.string?
  let status ← required fields "status" Status.ofJson?
  let createdAt ← required fields "created_at" Instant.ofJson?
  let mergedAt ← optional fields "merged_at" Instant.ofJson?
  let reviewers ← required fields "reviewers" (Json.list? ReviewerSlot.ofJson?)
  pure { id, title, authorId, status, createdAt, mergedAt, reviewers }

/-! ## Reports -/

def UserLoad.toJson (load : UserLoad) : Json :=
  .obj [("user_id", .str load.userId), ("total_assigned", .int load.total),
    ("open_assigned", .int load.opened), ("merged_assigned", .int load.merged)]

def UserLoad.ofJson? (value : Json) : Option UserLoad := do
  let fields ← value.fields? ["user_id", "total_assigned", "open_assigned", "merged_assigned"]
  let userId ← required fields "user_id" Json.string?
  let total ← required fields "total_assigned" (Json.natBelow? 18446744073709551616)
  let opened ← required fields "open_assigned" (Json.natBelow? 18446744073709551616)
  let merged ← required fields "merged_assigned" (Json.natBelow? 18446744073709551616)
  pure { userId, total, opened, merged }

def ReviewerCount.toJson (c : ReviewerCount) : Json :=
  .obj [("pr_id", .str c.pullRequestId), ("reviewers_count", .int c.count)]

def ReviewerCount.ofJson? (value : Json) : Option ReviewerCount := do
  let fields ← value.fields? ["pr_id", "reviewers_count"]
  let pullRequestId ← required fields "pr_id" Json.string?
  let count ← required fields "reviewers_count" (Json.natBelow? 18446744073709551616)
  pure { pullRequestId, count }

def Deactivation.toJson (outcome : Deactivation) : Json :=
  .obj [("deactivated", .int outcome.deactivated), ("reassigned", .int outcome.reassigned)]

/-! ## Replies -/

/-- The value of a reply; null if it has none. -/
def Reply.toJson : Reply → Json
  | done => .null
  | team t => t.toJson
  | teams ts => .arr (ts.map Team.toJson)
  | user u => u.toJson
  | users us => .arr (us.map User.toJson)
  | pullRequest p => p.toJson
  | pullRequests ps => .arr (ps.map PullRequest.toJson)
  | deactivation outcome => outcome.toJson
  | userLoads loads => .arr (loads.map UserLoad.toJson)
  | reviewerCounts counts => .arr (counts.map ReviewerCount.toJson)
  | count n => .int n

def Snapshot.toJson (s : Snapshot) : Json :=
  .obj [("teams", .arr (s.teams.map Team.toJson)), ("users", .arr (s.users.map User.toJson)),
    ("prs", .arr (s.pullRequests.map PullRequest.toJson))]

end ReviewRota
