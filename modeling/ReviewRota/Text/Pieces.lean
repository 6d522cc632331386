/-!
# Pieces

Lists cut at the places of a mark.

* `split`: what stands between the marks; `join` puts pieces together.
* `cut`: what stands before and after the first mark.
-/

namespace ReviewRota.Text

variable {α : Type} [DecidableEq α]

/-- What stands between the marks of a list. -/
def split (mark : α) : List α → List (List α)
  | [] => [[]]
  | a :: rest =>
    if a = mark then [] :: split mark rest
    else
      match split mark rest with
      | [] => [[a]]
      | piece :: pieces => (a :: piece) :: pieces

/-- The list with these pieces. -/
def join (mark : α) : List (List α) → List α
  | [] => []
  | [piece] => piece
  | piece :: pieces => piece ++ mark :: join mark pieces

/-- What stands before and after the first mark; nothing is after it if there is none. -/
def cut (mark : α) (list : List α) : List α × List α :=
  (list.takeWhile (· != mark), (list.dropWhile (· != mark)).tail)

end ReviewRota.Text
