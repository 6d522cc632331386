import Mathlib.Data.List.Nodup
import ReviewRota.StableSort

/-!
# Laws of stable sorting

* `IsPreorder le`: a comparison that is total and transitive; `sortBy` puts a list in its order
  (`pairwise_sortBy`).
* `IsPreorder.comap`, `IsPreorder.swap`: comparison through a function, and the other way round;
  `isPreorder_key`: comparison by a key of a linear order.
* `sortBy_map`, `sortBy_congr`: sorting depends on the comparison of the elements alone.
* **`pairwise_sortBy_stable`**: equal elements stay in their order.
* `sortBy_congr_perm`: if no two elements are equal, the order before does not count.
* **`filter_sortBy`**: what is filtered after sorting is sorted after filtering, equal elements in
  the same order.
-/

namespace ReviewRota

variable {α β : Type}

/-- A total and transitive comparison. -/
structure IsPreorder (le : α → α → Bool) : Prop where
  total : ∀ a b, le a b = true ∨ le b a = true
  trans : ∀ {a b c}, le a b = true → le b c = true → le a c = true

namespace IsPreorder

variable {le : α → α → Bool} (h : IsPreorder le)
include h

theorem of_not {a b : α} (hab : ¬ le a b = true) : le b a = true :=
  (h.total a b).resolve_left hab

theorem comap (f : β → α) : IsPreorder fun a b => le (f a) (f b) :=
  ⟨fun _ _ => h.total _ _, h.trans⟩

theorem swap : IsPreorder fun a b => le b a :=
  ⟨fun a b => h.total b a, fun hab hbc => h.trans hbc hab⟩

end IsPreorder

theorem isPreorder_key {κ : Type} [LE κ] [DecidableLE κ] [Std.IsLinearPreorder κ] (key : α → κ) :
    IsPreorder fun a b => decide (key a ≤ key b) where
  total a b := by simpa using Std.le_total (a := key a) (b := key b)
  trans hab hbc := by simpa using Std.le_trans (of_decide_eq_true hab) (of_decide_eq_true hbc)

/-! ## Sorting and the comparison -/

theorem insertBy_map (le : β → β → Bool) (f : α → β) (x : α) (l : List α) :
    insertBy le (f x) (l.map f) = (insertBy (fun a b => le (f a) (f b)) x l).map f := by
  induction l with
  | nil => rfl
  | cons y ys ih =>
    rw [List.map_cons, insertBy, insertBy]
    split
    · rfl
    · rw [List.map_cons, ih]

theorem sortBy_map (le : β → β → Bool) (f : α → β) (l : List α) :
    sortBy le (l.map f) = (sortBy (fun a b => le (f a) (f b)) l).map f := by
  induction l with
  | nil => rfl
  | cons x xs ih => rw [List.map_cons, sortBy, ih, insertBy_map, sortBy]

theorem insertBy_congr {le le' : α → α → Bool} {x : α} {l : List α}
    (h : ∀ y ∈ l, le x y = le' x y) : insertBy le x l = insertBy le' x l := by
  induction l with
  | nil => rfl
  | cons y ys ih =>
    rw [insertBy, insertBy, h y List.mem_cons_self,
      ih fun z hz => h z (List.mem_cons_of_mem y hz)]

theorem sortBy_congr {le le' : α → α → Bool} {l : List α}
    (h : ∀ a ∈ l, ∀ b ∈ l, le a b = le' a b) : sortBy le l = sortBy le' l := by
  induction l with
  | nil => rfl
  | cons x xs ih =>
    rw [sortBy, sortBy, ih fun a ha b hb =>
      h a (List.mem_cons_of_mem x ha) b (List.mem_cons_of_mem x hb)]
    refine insertBy_congr fun y hy => ?_
    exact h x List.mem_cons_self y (List.mem_cons_of_mem x (mem_sortBy.mp hy))

theorem insertBy_eq_append (le : α → α → Bool) (x : α) (l : List α) :
    ∃ before after, l = before ++ after ∧ insertBy le x l = before ++ x :: after := by
  induction l with
  | nil => exact ⟨[], [], rfl, rfl⟩
  | cons y ys ih =>
    rw [insertBy]
    split
    · exact ⟨[], y :: ys, rfl, rfl⟩
    · obtain ⟨before, after, rfl, he⟩ := ih
      exact ⟨y :: before, after, rfl, congrArg (y :: ·) he⟩

/-! ## Sorted lists -/

section

variable {le : α → α → Bool} (h : IsPreorder le)

theorem sortBy_eq_self {l : List α} (hl : l.Pairwise fun a b => le a b = true) :
    sortBy le l = l := by
  induction l with
  | nil => rfl
  | cons x xs ih =>
    rw [List.pairwise_cons] at hl
    rw [sortBy, ih hl.2]
    cases xs with
    | nil => rfl
    | cons y ys => rw [insertBy, if_pos (hl.1 y List.mem_cons_self)]

theorem pairwise_idxOf [DecidableEq α] {l : List α} (hnodup : l.Nodup) :
    l.Pairwise fun a b => l.idxOf a < l.idxOf b := by
  refine List.pairwise_iff_getElem.mpr fun i j hi hj hij => ?_
  rw [hnodup.idxOf_getElem, hnodup.idxOf_getElem]
  exact hij

include h

/-- Sorted lists, with equal elements related by `R`: an element may be inserted that `R` relates to
all the others. -/
theorem pairwise_insertBy {R : α → α → Prop} {x : α} {l : List α} (hx : ∀ y ∈ l, R x y)
    (hl : l.Pairwise fun a b => le a b = true ∧ (le b a = true → R a b)) :
    (insertBy le x l).Pairwise fun a b => le a b = true ∧ (le b a = true → R a b) := by
  induction l with
  | nil => exact List.pairwise_singleton _ x
  | cons y ys ih =>
    have hy := List.pairwise_cons.mp hl
    rw [List.forall_mem_cons] at hx
    rw [insertBy]
    split
    · rename_i hxy
      refine List.pairwise_cons.mpr ⟨fun z hz => ?_, hl⟩
      rcases List.mem_cons.mp hz with rfl | hz
      · exact ⟨hxy, fun _ => hx.1⟩
      · exact ⟨h.trans hxy (hy.1 z hz).1, fun _ => hx.2 z hz⟩
    · rename_i hxy
      refine List.pairwise_cons.mpr ⟨fun z hz => ?_, ih hx.2 hy.2⟩
      rcases List.mem_cons.mp ((perm_insertBy le x ys).mem_iff.mp hz) with rfl | hz
      · exact ⟨h.of_not hxy, fun hle => absurd hle hxy⟩
      · exact hy.1 z hz

/-- **Sorting is stable**: equal elements are in the order in which they were. -/
theorem pairwise_sortBy_stable {R : α → α → Prop} {l : List α} (hl : l.Pairwise R) :
    (sortBy le l).Pairwise fun a b => le a b = true ∧ (le b a = true → R a b) := by
  induction l with
  | nil => exact .nil
  | cons x xs ih =>
    rw [List.pairwise_cons] at hl
    exact pairwise_insertBy h (fun y hy => hl.1 y (mem_sortBy.mp hy)) (ih hl.2)

theorem pairwise_sortBy (l : List α) : (sortBy le l).Pairwise fun a b => le a b = true :=
  (pairwise_sortBy_stable h (List.pairwise_of_forall fun _ _ => trivial)).imp And.left

theorem sortBy_congr_perm {l l' : List α} (hp : l.Perm l')
    (hanti : ∀ a ∈ l, ∀ b ∈ l, le a b = true → le b a = true → a = b) :
    sortBy le l = sortBy le l' := by
  have hsame : (sortBy le l).Perm (sortBy le l') :=
    (perm_sortBy le l).trans (hp.trans (perm_sortBy le l').symm)
  refine hsame.eq_of_pairwise (fun a b ha hb => ?_) (pairwise_sortBy h l) (pairwise_sortBy h l')
  exact hanti a (mem_sortBy.mp ha) b (hp.mem_iff.mpr (mem_sortBy.mp hb))

/-- An element that stays is inserted among the others that stay; the list has to be sorted, for an
element before the place of insertion may go. -/
theorem filter_insertBy {x : α} {l : List α} (hl : l.Pairwise fun a b => le a b = true)
    (p : α → Bool) :
    (insertBy le x l).filter p = if p x then insertBy le x (l.filter p) else l.filter p := by
  induction l with
  | nil => cases hx : p x <;> simp [insertBy, hx]
  | cons y ys ih =>
    have hy := List.pairwise_cons.mp hl
    have hlater : le x y = true → insertBy le x (ys.filter p) = x :: ys.filter p := by
      intro hxy
      cases hys : ys.filter p with
      | nil => rfl
      | cons z zs =>
        have hz : z ∈ ys := (List.mem_filter.mp (hys ▸ List.mem_cons_self)).1
        rw [insertBy, if_pos (h.trans hxy (hy.1 z hz))]
    rw [insertBy]
    by_cases hxy : le x y = true
    · rw [if_pos hxy]
      cases hpx : p x <;> cases hpy : p y <;>
        simp [hpx, hpy, hlater hxy, insertBy, hxy]
    · rw [if_neg hxy, List.filter_cons, ih hy.2]
      cases hpx : p x <;> cases hpy : p y <;> simp [hpy, insertBy, hxy]

/-- **Filtering commutes with sorting.** -/
theorem filter_sortBy (p : α → Bool) (l : List α) :
    (sortBy le l).filter p = sortBy le (l.filter p) := by
  induction l with
  | nil => rfl
  | cons x xs ih =>
    rw [sortBy, filter_insertBy h (pairwise_sortBy h xs), ih]
    cases hx : p x <;> simp [hx, sortBy]

end

end ReviewRota
