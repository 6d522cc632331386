import ReviewRota.Collaborators
import ReviewRota.CommandLine.Disk
import ReviewRota.CommandLine.Grammar
import ReviewRota.CommandLine.Invocation
import ReviewRota.CommandLine.Outcome
import ReviewRota.CommandLine.Request
import ReviewRota.CommandLine.Run
import ReviewRota.Duration.Basic
import ReviewRota.Duration.Text
import ReviewRota.Fault
import ReviewRota.Files.Basic
import ReviewRota.Files.Path
import ReviewRota.Identifier
import ReviewRota.Instant.Basic
import ReviewRota.Instant.Calendar
import ReviewRota.Instant.Text
import ReviewRota.Json.Basic
import ReviewRota.Json.Printer
import ReviewRota.Json.Reader
import ReviewRota.Json.Records
import ReviewRota.Main
import ReviewRota.Memory.Store
import ReviewRota.Proofs.Acceptance
import ReviewRota.Proofs.Atomicity
import ReviewRota.Proofs.BatchOfOne
import ReviewRota.Proofs.Blameless
import ReviewRota.Proofs.Calendar
import ReviewRota.Proofs.Cascade
import ReviewRota.Proofs.Changes
import ReviewRota.Proofs.Chronology
import ReviewRota.Proofs.Collateral
import ReviewRota.Proofs.Creation
import ReviewRota.Proofs.Deactivation
import ReviewRota.Proofs.Demands
import ReviewRota.Proofs.Draws
import ReviewRota.Proofs.Equivalence
import ReviewRota.Proofs.Execution
import ReviewRota.Proofs.Feasibility
import ReviewRota.Proofs.HandOver
import ReviewRota.Proofs.Integrity
import ReviewRota.Proofs.Isolation
import ReviewRota.Proofs.Keeping
import ReviewRota.Proofs.Ledger
import ReviewRota.Proofs.Listings
import ReviewRota.Proofs.Merging
import ReviewRota.Proofs.Mirroring
import ReviewRota.Proofs.OneByOne
import ReviewRota.Proofs.Orderly
import ReviewRota.Proofs.Outcomes
import ReviewRota.Proofs.Precedence
import ReviewRota.Proofs.Reached
import ReviewRota.Proofs.ReadBack
import ReviewRota.Proofs.Readings
import ReviewRota.Proofs.Reassignment
import ReviewRota.Proofs.Relational.Joins
import ReviewRota.Proofs.Relational.Listing
import ReviewRota.Proofs.Relational.Loading
import ReviewRota.Proofs.Relational.Mirroring
import ReviewRota.Proofs.Relational.QueryOrder
import ReviewRota.Proofs.Relational.Records
import ReviewRota.Proofs.Relational.RowByRow
import ReviewRota.Proofs.Relational.Statements
import ReviewRota.Proofs.Replacement
import ReviewRota.Proofs.Reports
import ReviewRota.Proofs.Rereading
import ReviewRota.Proofs.Retirement
import ReviewRota.Proofs.Selection
import ReviewRota.Proofs.Shuffle
import ReviewRota.Proofs.Slices
import ReviewRota.Proofs.Slots
import ReviewRota.Proofs.Sorting
import ReviewRota.Proofs.Staffing
import ReviewRota.Proofs.Stepwise
import ReviewRota.Proofs.Stores
import ReviewRota.Proofs.Stranded
import ReviewRota.Proofs.Strays
import ReviewRota.Proofs.TextOrder
import ReviewRota.Proofs.TimeReading
import ReviewRota.Proofs.Traffic
import ReviewRota.Proofs.Turns
import ReviewRota.Proofs.Uniformity
import ReviewRota.Proofs.Upkeep
import ReviewRota.PullRequest
import ReviewRota.Relational.Connection
import ReviewRota.Relational.Database
import ReviewRota.Relational.Failure
import ReviewRota.Relational.Image
import ReviewRota.Relational.Location
import ReviewRota.Relational.ReadOnly
import ReviewRota.Relational.Store
import ReviewRota.Report
import ReviewRota.Repository
import ReviewRota.Selection
import ReviewRota.Service.Basic
import ReviewRota.Service.Call
import ReviewRota.Service.Deactivation
import ReviewRota.Service.PullRequests
import ReviewRota.Service.Reassignment
import ReviewRota.Service.Teams
import ReviewRota.Service.Users
import ReviewRota.Session
import ReviewRota.Settings.Basic
import ReviewRota.Settings.Format
import ReviewRota.Settings.Layers
import ReviewRota.Settings.Records
import ReviewRota.Sources.Ambient
import ReviewRota.Sources.Basic
import ReviewRota.Sources.Keystream
import ReviewRota.Sources.Random
import ReviewRota.StableSort
import ReviewRota.Team
import ReviewRota.Text.Blank
import ReviewRota.Text.Digits
import ReviewRota.Text.Hexadecimal
import ReviewRota.Text.Pieces
import ReviewRota.Text.Scientific
import ReviewRota.Text.Whole
import ReviewRota.Toml.Basic
import ReviewRota.Toml.Layout
import ReviewRota.Toml.Reader
import ReviewRota.Toml.Scalar
import ReviewRota.Toml.Text
import ReviewRota.Toml.Tree
import ReviewRota.Transaction.Basic
import ReviewRota.Transaction.Rehearsal
import ReviewRota.Transaction.Script
