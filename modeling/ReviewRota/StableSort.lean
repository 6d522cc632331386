/-!
# Stable sorting

Sorting by insertion: structural, so that it also computes inside proofs.

* `sortBy le l`: the elements of `l` in an order that `le` accepts; elements that `le` holds equal
  keep their order.
* `perm_sortBy`: nothing is lost or added.
-/

namespace ReviewRota

variable {α : Type}

/-- A list with `x` put before the first element that may follow it. -/
def insertBy (le : α → α → Bool) (x : α) : List α → List α
  | [] => [x]
  | y :: ys => if le x y then x :: y :: ys else y :: insertBy le x ys

/-- The list sorted by `le`, equal elements in their given order. -/
def sortBy (le : α → α → Bool) : List α → List α
  | [] => []
  | x :: xs => insertBy le x (sortBy le xs)

theorem perm_insertBy (le : α → α → Bool) (x : α) (l : List α) :
    (insertBy le x l).Perm (x :: l) := by
  induction l with
  | nil => exact .refl _
  | cons y ys ih =>
    unfold insertBy
    split
    · exact .refl _
    · exact (ih.cons y).trans (.swap x y ys)

theorem perm_sortBy (le : α → α → Bool) (l : List α) : (sortBy le l).Perm l := by
  induction l with
  | nil => exact .refl _
  | cons x xs ih => exact (perm_insertBy le x _).trans (ih.cons x)

theorem mem_sortBy {le : α → α → Bool} {l : List α} {a : α} : a ∈ sortBy le l ↔ a ∈ l :=
  (perm_sortBy le l).mem_iff

end ReviewRota
