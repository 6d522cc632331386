import Mathlib.Data.List.Forall2
import Mathlib.Data.List.Perm.Basic
import ReviewRota.Proofs.Execution

/-!
# Choosing reviewers

* `Selection.pick_cons`, `Selection.perm_afterDraw`: what one draw selects, and who is left.
* `Selection.length_pick`, `Selection.pick_subperm`: draws below their bounds select as many
  different candidates.
* `Selection.exec_drawAll`: draws ask for their bounds in order, and stay below them.
* **`Selection.exec_initial`**: a new pull request gets as many reviewers as it may have, or all
  candidates if there are fewer.
* `Selection.replacement_cases`: one of the candidates takes over, or there is none;
  `Selection.replacement_eq_ok`: the draw says who.
-/

namespace ReviewRota.Selection

open scoped List

variable {σ π α : Type}

/-! ## Candidates that draws select -/

theorem bounds_succ (n count : Nat) : bounds n (count + 1) = n :: bounds (n - 1) count := by
  unfold bounds
  rw [List.range_succ_eq_map, List.map_cons, List.map_map]
  refine congrArg (n :: ·) (List.map_congr_left fun i _ => ?_)
  simp only [Function.comp_apply]
  omega

/-- The candidates who are left after a draw, the first one in the place of the one selected. -/
def afterDraw : List α → Nat → List α
  | [], _ => []
  | _ :: xs, 0 => xs
  | x :: xs, d + 1 => xs.set d x

theorem pick_cons {l : List α} {d : Nat} (hd : d < l.length) (ds : List Nat) :
    pick l (d :: ds) = l[d] :: pick (afterDraw l d) ds := by
  cases l with
  | nil => exact absurd hd (Nat.not_lt_zero d)
  | cons x xs =>
    cases d with
    | zero => rfl
    | succ d =>
      rw [pick, List.getElem?_eq_getElem (Nat.lt_of_succ_lt_succ hd)]
      rfl

theorem pick_cons_of_le {l : List α} {d : Nat} (hd : l.length ≤ d) (ds : List Nat) :
    pick l (d :: ds) = [] := by
  cases l with
  | nil => rfl
  | cons x xs =>
    cases d with
    | zero => cases hd
    | succ d => rw [pick, List.getElem?_eq_none (Nat.le_of_succ_le_succ hd)]

theorem perm_afterDraw {l : List α} {d : Nat} (hd : d < l.length) : l[d] :: afterDraw l d ~ l := by
  cases l with
  | nil => exact absurd hd (Nat.not_lt_zero d)
  | cons x xs =>
    cases d with
    | zero => exact .refl _
    | succ d =>
      have hd : d < xs.length := Nat.lt_of_succ_lt_succ hd
      calc xs[d] :: xs.set d x
        _ ~ xs[d] :: x :: xs.eraseIdx d := (List.set_perm_cons_eraseIdx hd x).cons _
        _ ~ x :: xs[d] :: xs.eraseIdx d := .swap ..
        _ ~ x :: xs := (List.getElem_cons_eraseIdx_perm hd).cons x

theorem length_afterDraw {l : List α} {d : Nat} (hd : d < l.length) :
    (afterDraw l d).length = l.length - 1 := by
  rw [← (perm_afterDraw hd).length_eq, List.length_cons, Nat.add_sub_cancel]

theorem pick_subperm (l : List α) (ds : List Nat) : pick l ds <+~ l := by
  induction ds generalizing l with
  | nil => cases l <;> exact List.nil_subperm
  | cons d ds ih =>
    by_cases hd : d < l.length
    · rw [pick_cons hd]
      exact ((List.subperm_cons _).mpr (ih _)).trans (perm_afterDraw hd).subperm
    · rw [pick_cons_of_le (Nat.le_of_not_lt hd)]
      exact List.nil_subperm

theorem length_pick {l : List α} {count : Nat} (hle : count ≤ l.length) {ds : List Nat}
    (hds : List.Forall₂ (· < ·) ds (bounds l.length count)) : (pick l ds).length = count := by
  induction count generalizing l ds with
  | zero =>
    cases hds
    cases l <;> rfl
  | succ count ih =>
    rw [bounds_succ] at hds
    obtain _ | ⟨hd, hds⟩ := hds
    rw [← length_afterDraw hd] at hds
    rw [pick_cons hd, List.length_cons, ih ?_ hds]
    rw [length_afterDraw hd]
    exact Nat.le_sub_one_of_lt hle

theorem pos_of_mem_bounds {n count m : Nat} (hle : count ≤ n) (hm : m ∈ bounds n count) :
    0 < m := by
  obtain ⟨i, hi, rfl⟩ := List.mem_map.mp hm
  have := List.mem_range.mp hi
  omega

/-! ## Drawing -/

variable [Collaborators π]

/-- Draws ask for their bounds in order. They leave the data and the clock alone, and they do not
fail. -/
theorem exec_drawAll (ns : List Nat) (s : Session σ π) :
    ∃ ds s', (drawAll ns).exec s = (.ok ds, s') ∧
      (s'.data = s.data ∧ s'.readings = s.readings) ∧ s'.draws = s.draws ++ ns.zip ds ∧
      (∀ [Collaborators.Lawful π], (∀ n ∈ ns, 0 < n) → List.Forall₂ (· < ·) ds ns) := by
  induction ns generalizing s with
  | nil => exact ⟨[], s, rfl, ⟨rfl, rfl⟩, (List.append_nil _).symm, fun _ => .nil⟩
  | cons n ns ih =>
    obtain ⟨ds, s', he, hkept, hdraws, hlt⟩ := ih ((Work.draw n).exec s).2
    refine ⟨(Collaborators.draw n s.collaborators).1 :: ds, s', ?_, hkept, ?_, fun hpos => ?_⟩
    · rw [drawAll, Work.exec_bind_of_ok (Work.exec_draw n s)]
      exact Work.exec_bind_of_ok he _
    · rw [hdraws, Work.exec_draw, List.append_assoc]
      rfl
    · rw [List.forall_mem_cons] at hpos
      exact .cons (Collaborators.Lawful.draw_lt _ hpos.1) (hlt hpos.2)

/-- **The reviewers of a new pull request** are different candidates, as many as there may be; if
all of them may be, they come in their order. -/
theorem exec_initial (candidates : List α) (max : Nat) (s : Session σ π) :
    ∃ chosen s', (initial candidates max).exec s = (.ok chosen, s') ∧
      (s'.data = s.data ∧ s'.readings = s.readings) ∧ chosen <+~ candidates ∧
      (candidates.length ≤ max → chosen = candidates) ∧
      (∀ [Collaborators.Lawful π], chosen.length = min max candidates.length) := by
  unfold initial
  split
  · rename_i hmax
    refine ⟨[], s, rfl, ⟨rfl, rfl⟩, List.nil_subperm, fun hle => ?_, by simp [hmax]⟩
    rw [hmax, Nat.le_zero, List.length_eq_zero_iff] at hle
    exact hle.symm
  split
  · rename_i hle
    exact ⟨candidates, s, rfl, ⟨rfl, rfl⟩, .refl _, fun _ => rfl, (Nat.min_eq_right hle).symm⟩
  · rename_i hgt
    have hle : max ≤ candidates.length := Nat.le_of_not_le hgt
    obtain ⟨ds, s', he, hkept, -, hlt⟩ := exec_drawAll (bounds candidates.length max) s
    refine ⟨pick candidates ds, s', Work.exec_bind_of_ok he _, hkept, pick_subperm _ _,
      fun h => absurd h hgt, ?_⟩
    intro _
    rw [Nat.min_eq_left hle]
    exact length_pick hle (hlt fun _ => pos_of_mem_bounds hle)

/-- **One draw decides on a replacement**: one of the candidates takes over, or there is none. -/
theorem replacement_cases (candidates : List α) (s : Session σ π) :
    (∃ v ∈ candidates, ∃ s', (replacement candidates).exec s = (.ok v, s') ∧ s'.data = s.data) ∨
      ∃ s', (replacement candidates).exec s = (.error .noCandidate, s') ∧ s'.data = s.data ∧
        (∀ [Collaborators.Lawful π], candidates = []) := by
  rw [replacement_eq]
  split
  · rename_i hempty
    exact .inr ⟨s, rfl, rfl, fun {_} => List.isEmpty_iff.mp hempty⟩
  rename_i hne
  have hne : candidates ≠ [] := by simpa using hne
  rw [Work.exec_bind_of_ok (Work.exec_draw _ s)]
  cases hv : candidates[(Collaborators.draw candidates.length s.collaborators).1]? with
  | some v => exact .inl ⟨v, List.mem_of_getElem? hv, _, rfl, rfl⟩
  | none =>
    -- only a draw that is out of bounds finds nobody
    refine .inr ⟨_, rfl, rfl, fun {_} => ?_⟩
    have hlt := Collaborators.Lawful.draw_lt s.collaborators (List.length_pos_iff.mpr hne)
    exact absurd (List.getElem?_eq_none_iff.mp hv) (Nat.not_le_of_lt hlt)

theorem replacement_eq_ok {candidates : List α} {s s' : Session σ π} {v : α} :
    (replacement candidates).exec s = (.ok v, s') ↔
      candidates[(Collaborators.draw candidates.length s.collaborators).1]? = some v ∧
        s' = ((Work.draw candidates.length : Work σ π Nat).exec s).2 := by
  rw [replacement_eq]
  split
  · rename_i hempty
    rw [List.isEmpty_iff.mp hempty]
    exact iff_of_false nofun fun h => nomatch h.1
  rw [Work.exec_bind_of_ok (Work.exec_draw _ s)]
  cases candidates[(Collaborators.draw candidates.length s.collaborators).1]? with
  | some w =>
    rw [Work.exec_pure, Prod.mk.injEq, Except.ok.injEq, Option.some_inj]
    exact and_congr_right' eq_comm
  | none => exact iff_of_false nofun nofun

theorem replacement_ok {candidates : List α} {s s' : Session σ π} {v : α}
    (h : (replacement candidates).exec s = (.ok v, s')) : v ∈ candidates ∧ s'.data = s.data := by
  obtain ⟨hv, rfl⟩ := replacement_eq_ok.mp h
  exact ⟨List.mem_of_getElem? hv, rfl⟩

end ReviewRota.Selection
