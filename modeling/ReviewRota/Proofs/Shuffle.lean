import ReviewRota.Proofs.Uniformity

/-!
# Choosing reviewers in place

The first reviewers of a pull request can be chosen by a partial shuffle of an array: draw `d` at
place `i` exchanges the candidates at `i` and `i + d`, and the places that have been drawn for are
cut off in the end. Draws below the bounds never leave the array.

* `Selection.exchange?`, `Selection.shuffle?`: exchanges that fail at an index out of bounds.
* `Selection.exchange?_eq`: one exchange, before and after the place that is drawn for.
* **`Selection.shuffle?_eq`**: the shuffle stays within the array and puts what `pick` selects in
  front.
* `Selection.exec_initial_shuffled`: the draws for the first reviewers, and their shuffle.
-/

namespace ReviewRota.Selection

variable {σ π α : Type}

/-- An array with the entries at two indices exchanged, if both are within its bounds. -/
def exchange? (a : Array α) (i j : Nat) : Option (Array α) :=
  if h : i < a.size ∧ j < a.size then some (a.swap i j h.1 h.2) else none

/-- The array after one exchange for each draw, from place `i` on. -/
def shuffle? (a : Array α) (i : Nat) : List Nat → Option (Array α)
  | [] => some a
  | d :: ds => do
    let b ← exchange? a i (i + d)
    shuffle? b (i + 1) ds

/-- A draw below the number of entries left stays within the array. What it selects comes next, and
the first entry left moves into its place. -/
theorem exchange?_eq {a : Array α} {front back : List α} (ha : a.toList = front ++ back) {d : Nat}
    (hd : d < back.length) :
    ∃ b, exchange? a front.length (front.length + d) = some b ∧
      b.toList = (front ++ [back[d]]) ++ afterDraw back d := by
  obtain ⟨l⟩ := a
  obtain rfl : l = front ++ back := ha
  have hin : front.length < (front ++ back).length ∧ front.length + d < (front ++ back).length := by
    rw [List.length_append]
    omega
  refine ⟨_, dif_pos hin, ?_⟩
  rw [Array.toList_swap]
  obtain _ | ⟨x, xs⟩ := back
  · exact absurd hd (Nat.not_lt_zero d)
  cases d with
  | zero => simp [afterDraw]
  | succ d => simp [afterDraw]

/-- **Draws below the bounds shuffle within the array.** Behind the entries placed before come those
that the draws select. -/
theorem shuffle?_eq {a : Array α} {front back : List α} (ha : a.toList = front ++ back)
    {count : Nat} (hle : count ≤ back.length) {ds : List Nat}
    (hds : List.Forall₂ (· < ·) ds (bounds back.length count)) :
    ∃ b rest, shuffle? a front.length ds = some b ∧ b.toList = front ++ pick back ds ++ rest := by
  induction count generalizing a front back ds with
  | zero =>
    cases hds
    refine ⟨a, back, rfl, ?_⟩
    rw [ha]
    cases back <;> simp [pick]
  | succ count ih =>
    rw [bounds_succ] at hds
    obtain _ | ⟨hd, hds⟩ := hds
    obtain ⟨b, hb, hlist⟩ := exchange?_eq ha hd
    have hleft := length_afterDraw hd
    rw [← hleft] at hds
    obtain ⟨c, rest, hc, hlist'⟩ := ih hlist (by omega) hds
    rw [List.length_append, List.length_singleton] at hc
    refine ⟨c, rest, ?_, ?_⟩
    · rw [shuffle?, hb]
      exact hc
    · rw [hlist', pick_cons hd]
      simp

theorem shuffle?_eq_pick {candidates : List α} {count : Nat} (hle : count ≤ candidates.length)
    {ds : List Nat} (hds : List.Forall₂ (· < ·) ds (bounds candidates.length count)) :
    ∃ placed, shuffle? candidates.toArray 0 ds = some placed ∧
      placed.toList.take count = pick candidates ds := by
  have hstart : candidates.toArray.toList = [] ++ candidates := rfl
  obtain ⟨placed, rest, hplaced, hlist⟩ := shuffle?_eq hstart hle hds
  refine ⟨placed, hplaced, ?_⟩
  rw [hlist, List.nil_append]
  exact List.take_left' (length_pick hle hds)

/-- Two of four candidates, by the draws 2 and 0. -/
example : (shuffle? #["b", "c", "d", "e"] 0 [2, 0]).map (·.toList.take 2) = some ["d", "c"] := by
  decide

theorem lt_of_mem_zip {ns ds : List Nat} (h : List.Forall₂ (· < ·) ds ns) :
    ∀ x ∈ ns.zip ds, x.2 < x.1 := by
  induction h with
  | nil => exact fun _ hx => absurd hx List.not_mem_nil
  | cons hlt _ ih => exact List.forall_mem_cons.mpr ⟨hlt, ih⟩

/-- **One draw for each place** if there are more candidates than places, each of them an exchange
within the bounds. -/
theorem exec_initial_shuffled [Collaborators π] [Collaborators.Lawful π] {candidates : List α}
    {max : Nat} (hpos : 1 ≤ max) (hlt : max < candidates.length) (s : Session σ π) :
    ∃ ds placed s', List.Forall₂ (· < ·) ds (bounds candidates.length max) ∧
      shuffle? candidates.toArray 0 ds = some placed ∧
      (initial candidates max).exec s = (.ok (placed.toList.take max), s') ∧
      s'.draws = s.draws ++ (bounds candidates.length max).zip ds := by
  obtain ⟨ds, hds, s', he, hdraws⟩ := exec_initial_of_lt hpos hlt s
  have hds := mem_drawSequences.mp hds
  obtain ⟨placed, hplaced, htake⟩ := shuffle?_eq_pick hlt.le hds
  exact ⟨ds, placed, s', hds, hplaced, htake ▸ he, hdraws⟩

end ReviewRota.Selection
