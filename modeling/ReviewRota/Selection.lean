import ReviewRota.Session

/-!
# Selection

Uniform choice of reviewers from a pool of candidates. Who is eligible is decided by the caller.

* `Selection.pick`: the candidates that a list of draws selects, one after the other: a draw `d`
  takes the candidate at position `d`, and the first candidate moves into its place.
* `Selection.initial`: up to `max` reviewers for a new pull request.
* `Selection.replacement`: one reviewer to take over.
-/

namespace ReviewRota.Selection

variable {α σ π : Type}

/-- The candidates selected by a list of draws. -/
def pick : List α → List Nat → List α
  | [], _ | _, [] => []
  | x :: xs, 0 :: ds => x :: pick xs ds
  | x :: xs, (d + 1) :: ds =>
    match xs[d]? with
    | some y => y :: pick (xs.set d x) ds
    | none => []

variable [Collaborators π]

/-- One draw for each bound, in order. -/
def drawAll : List Nat → Work σ π (List Nat)
  | [] => pure []
  | n :: ns => do
    let d ← Work.draw n
    let ds ← drawAll ns
    pure (d :: ds)

/-- The bounds of `count` draws without replacement from `n` candidates. -/
def bounds (n count : Nat) : List Nat :=
  (List.range count).map (n - ·)

/-- Up to `max` different candidates: all of them in their order when there are no more. -/
def initial (candidates : List α) (max : Nat) : Work σ π (List α) :=
  if max = 0 then pure []
  else if candidates.length ≤ max then pure candidates
  else do
    let ds ← drawAll (bounds candidates.length max)
    pure (pick candidates ds)

/-- One candidate, if there is any. -/
def replacement (candidates : List α) : Work σ π α := do
  if candidates.isEmpty then Work.fail .noCandidate
  let d ← Work.draw candidates.length
  match candidates[d]? with
  | some candidate => pure candidate
  | none => Work.fail .noCandidate

end ReviewRota.Selection
