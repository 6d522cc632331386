import ReviewRota.Collaborators
import ReviewRota.Fault

/-!
# Sessions

The setting in which an operation runs: the data it works on, the collaborators, and a record of
what was asked of them.

* `Session`: data, collaborators, random draws and clock readings so far.
* `Work σ π α`: an operation on data `σ` that gives an `α` or a fault. Changes made before a fault
  stay in the session; whoever ends the transaction decides what becomes of them.
* `Work.read`, `Work.write`, `Work.now`, `Work.freshId`, `Work.draw`: the elementary operations.
-/

namespace ReviewRota

/-- Data `σ`, collaborators `π`, and what was asked of them, oldest first. -/
structure Session (σ π : Type) where
  data : σ
  collaborators : π
  /-- Random draws: bound and answer. -/
  draws : List (Nat × Nat)
  /-- Clock readings. -/
  readings : List Instant

/-- A session in which nothing has been asked yet. -/
def Session.start {σ π : Type} (data : σ) (collaborators : π) : Session σ π :=
  ⟨data, collaborators, [], []⟩

/-- An operation in a session. -/
abbrev Work (σ π α : Type) :=
  ExceptT Fault (StateM (Session σ π)) α

namespace Work

variable {σ π α : Type}

/-- The operation that runs a function of the session. -/
def of (f : Session σ π → Except Fault α × Session σ π) : Work σ π α :=
  f

/-- The outcome of an operation and the session after it. -/
def exec (w : Work σ π α) (s : Session σ π) : Except Fault α × Session σ π :=
  w s

/-- Looks at the data. -/
def read (f : σ → Except Fault α) : Work σ π α :=
  of fun s => (f s.data, s)

/-- Changes the data. -/
def write (f : σ → Except Fault α × σ) : Work σ π α :=
  of fun s => let (r, data) := f s.data; (r, { s with data })

/-- Gives up with a fault. -/
def fail (fault : Fault) : Work σ π α :=
  of fun s => (.error fault, s)

variable [Collaborators π]

/-- Reads the clock. -/
def now : Work σ π Instant :=
  of fun s =>
    let (time, collaborators) := Collaborators.now s.collaborators
    (.ok time, { s with collaborators, readings := s.readings ++ [time] })

/-- Takes a new identifier. -/
def freshId : Work σ π String :=
  of fun s =>
    let (id, collaborators) := Collaborators.freshId s.collaborators
    (.ok id, { s with collaborators })

/-- Draws a number below `n`. -/
def draw (n : Nat) : Work σ π Nat :=
  of fun s =>
    let (d, collaborators) := Collaborators.draw n s.collaborators
    (.ok d, { s with collaborators, draws := s.draws ++ [(n, d)] })

end Work

end ReviewRota
