import Mathlib.Data.Finset.Card
import Mathlib.Data.Finset.Prod
import Mathlib.Data.Set.Function
import Mathlib.Logic.Equiv.Basic
import ReviewRota.Proofs.Selection
import ReviewRota.Sources.Basic

/-!
# Uniform choice of the first reviewers

* `Selection.drawSequences ns`: the answers that a random source can give to draws below `ns`.
* `Selection.existsUnique_pick`, **`Selection.bijOn_pick`**: each ordered choice of candidates comes
  from one sequence of draws.
* `Selection.card_pick_le`: no candidate is chosen by fewer sequences than another.
* `Selection.exec_initial_of_lt`, `Selection.exec_initial_listed`: the draws that are made.
* **`Selection.initial_uniform`**: if there are more candidates than places, all ordered choices are
  equally likely, and otherwise nothing is drawn.
-/

namespace ReviewRota.Selection

open scoped List

variable {σ π α : Type}

/-! ## Sequences of draws -/

/-- All sequences of draws, one below each of the bounds. -/
def drawSequences : List Nat → Finset (List Nat)
  | [] => {[]}
  | n :: ns => (Finset.range n ×ˢ drawSequences ns).image fun (d, ds) => d :: ds

theorem mem_drawSequences {ns ds : List Nat} :
    ds ∈ drawSequences ns ↔ List.Forall₂ (· < ·) ds ns := by
  induction ns generalizing ds with
  | nil => rw [drawSequences, Finset.mem_singleton, List.forall₂_nil_right_iff]
  | cons n ns ih =>
    rw [drawSequences, Finset.mem_image, List.forall₂_cons_right_iff]
    constructor
    · rintro ⟨⟨d, ds⟩, hmem, rfl⟩
      rw [Finset.mem_product, Finset.mem_range, ih] at hmem
      exact ⟨d, ds, hmem.1, hmem.2, rfl⟩
    · rintro ⟨d, ds, hd, hds, rfl⟩
      exact ⟨(d, ds), Finset.mem_product.mpr ⟨Finset.mem_range.mpr hd, ih.mpr hds⟩, rfl⟩

/-! ## Ordered choices -/

/-- **One sequence of draws for each ordered choice.** The first draw is the position of the first
choice, and the others choose from who is left, who are in a different order but still distinct. -/
theorem existsUnique_pick {l : List α} (hl : l.Nodup) {chosen : List α} (hchosen : chosen.Nodup)
    (hsub : chosen ⊆ l) :
    ∃! ds, List.Forall₂ (· < ·) ds (bounds l.length chosen.length) ∧ pick l ds = chosen := by
  induction chosen generalizing l with
  | nil =>
    refine ⟨[], ⟨.nil, by cases l <;> rfl⟩, ?_⟩
    rintro ds ⟨hds, -⟩
    exact List.forall₂_nil_right_iff.mp hds
  | cons c chosen ih =>
    rw [List.nodup_cons] at hchosen
    obtain ⟨hc, hrest⟩ := List.cons_subset.mp hsub
    obtain ⟨d, hd, rfl⟩ := List.getElem_of_mem hc
    have hperm := perm_afterDraw hd
    have hleft : (afterDraw l d).Nodup := (List.nodup_cons.mp (hperm.nodup_iff.mpr hl)).2
    have hsub' : chosen ⊆ afterDraw l d := fun x hx =>
      (List.mem_cons.mp (hperm.mem_iff.mpr (hrest hx))).resolve_left
        fun he => hchosen.1 (he ▸ hx)
    obtain ⟨ds, ⟨hds, hpick⟩, hunique⟩ := ih hleft hchosen.2 hsub'
    rw [length_afterDraw hd] at hds hunique
    rw [List.length_cons, bounds_succ]
    refine ⟨d :: ds, ⟨.cons hd hds, by rw [pick_cons hd, hpick]⟩, ?_⟩
    rintro es ⟨hes, hpick'⟩
    obtain _ | ⟨he, hes⟩ := hes
    rw [pick_cons he, List.cons.injEq] at hpick'
    obtain rfl := hl.getElem_inj_iff.mp hpick'.1
    rw [hunique _ ⟨hes, hpick'.2⟩]

theorem nodup_pick {l : List α} (hl : l.Nodup) (ds : List Nat) : (pick l ds).Nodup := by
  obtain ⟨l', hperm, hsub⟩ := pick_subperm l ds
  exact hperm.nodup_iff.mp (hl.sublist hsub)

/-- **Draws without replacement are in bijection with ordered choices** of that many distinct
candidates. -/
theorem bijOn_pick {l : List α} (hl : l.Nodup) {count : Nat} (hle : count ≤ l.length) :
    Set.BijOn (pick l) (drawSequences (bounds l.length count))
      {chosen | chosen.Nodup ∧ chosen ⊆ l ∧ chosen.length = count} := by
  have hmaps : Set.MapsTo (pick l) (drawSequences (bounds l.length count))
      {chosen | chosen.Nodup ∧ chosen ⊆ l ∧ chosen.length = count} := fun ds hds =>
    ⟨nodup_pick hl ds, (pick_subperm l ds).subset, length_pick hle (mem_drawSequences.mp hds)⟩
  refine ⟨hmaps, fun ds hds es hes he => ?_, ?_⟩
  · obtain ⟨hchosen, hsub, hlen⟩ := hmaps hds
    obtain ⟨_, -, hunique⟩ := existsUnique_pick hl hchosen hsub
    rw [hlen] at hunique
    exact (hunique ds ⟨mem_drawSequences.mp hds, rfl⟩).trans
      (hunique es ⟨mem_drawSequences.mp hes, he.symm⟩).symm
  · rintro chosen ⟨hchosen, hsub, rfl⟩
    obtain ⟨ds, ⟨hds, hpick⟩, -⟩ := existsUnique_pick hl hchosen hsub
    exact ⟨ds, mem_drawSequences.mpr hds, hpick⟩

/-- Exchanging two candidates takes the sequences that choose one of them to sequences that choose
the other. -/
theorem card_pick_le [DecidableEq α] {l : List α} (hl : l.Nodup) {count : Nat}
    (hle : count ≤ l.length) {c c' : α} (hc : c ∈ l) (hc' : c' ∈ l) :
    ((drawSequences (bounds l.length count)).filter (c ∈ pick l ·)).card ≤
      ((drawSequences (bounds l.length count)).filter (c' ∈ pick l ·)).card := by
  have hbij := bijOn_pick hl hle
  let exchange (chosen : List α) : List α := chosen.map (Equiv.swap c c')
  have hinj : Function.Injective exchange := (Equiv.injective _).list_map
  -- both sides are counted by the choices
  have hcount : ∀ x, ((drawSequences (bounds l.length count)).filter (x ∈ pick l ·)).card =
      (((drawSequences (bounds l.length count)).filter (x ∈ pick l ·)).image (pick l)).card :=
    fun x => (Finset.card_image_of_injOn (hbij.injOn.mono (Finset.filter_subset _ _))).symm
  rw [hcount c, hcount c', ← Finset.card_image_of_injective _ hinj]
  refine Finset.card_le_card fun chosen hmem => ?_
  simp only [Finset.mem_image, Finset.mem_filter] at hmem
  obtain ⟨_, ⟨ds, ⟨hds, hcmem⟩, rfl⟩, rfl⟩ := hmem
  obtain ⟨hnodup, hsub, hlen⟩ := hbij.mapsTo hds
  have hswap : ∀ x ∈ l, Equiv.swap c c' x ∈ l := fun x hx => by
    rw [Equiv.swap_apply_def]
    split_ifs
    · exact hc'
    · exact hc
    · exact hx
  obtain ⟨es, hes, he⟩ := hbij.surjOn (a := exchange (pick l ds))
    ⟨hnodup.map (Equiv.injective _), fun x hx => by
      obtain ⟨y, hy, rfl⟩ := List.mem_map.mp hx
      exact hswap y (hsub hy), by rwa [List.length_map]⟩
  refine Finset.mem_image.mpr ⟨es, Finset.mem_filter.mpr ⟨hes, ?_⟩, he⟩
  rw [he]
  exact List.mem_map.mpr ⟨c, hcmem, Equiv.swap_apply_left c c'⟩

/-! ## The draws that are made -/

section

variable [Collaborators π]

theorem initial_of_lt {candidates : List α} {max : Nat} (hpos : 1 ≤ max)
    (hlt : max < candidates.length) :
    (initial candidates max : Work σ π (List α)) =
      pick candidates <$> drawAll (bounds candidates.length max) := by
  rw [initial, if_neg (Nat.ne_of_gt hpos), if_neg (Nat.not_le_of_lt hlt), map_eq_pure_bind]

/-- One draw for each place: below the number of candidates, then below one less, and so on. -/
theorem exec_initial_of_lt [Collaborators.Lawful π] {candidates : List α} {max : Nat}
    (hpos : 1 ≤ max) (hlt : max < candidates.length) (s : Session σ π) :
    ∃ ds ∈ drawSequences (bounds candidates.length max), ∃ s',
      (initial candidates max).exec s = (.ok (pick candidates ds), s') ∧
        s'.draws = s.draws ++ (bounds candidates.length max).zip ds := by
  obtain ⟨ds, s', he, -, hdraws, hds⟩ := exec_drawAll (bounds candidates.length max) s
  refine ⟨ds, mem_drawSequences.mpr (hds fun _ => pos_of_mem_bounds hlt.le), s', ?_, hdraws⟩
  rw [initial_of_lt hpos hlt, Work.exec_map, he]
  rfl

theorem exec_initial_of_le {candidates : List α} {max : Nat}
    (h : candidates.length ≤ max ∨ max = 0) (s : Session σ π) :
    (initial candidates max).exec s = (.ok (candidates.take max), s) := by
  unfold initial
  split
  · rename_i hzero
    rw [hzero]
    rfl
  · rename_i hpos
    have hle := h.resolve_right hpos
    rw [if_pos hle, List.take_of_length_le hle]
    rfl

end

theorem exec_drawAll_listed {ns ds : List Nat} (hds : List.Forall₂ (· < ·) ds ns)
    (s : Session σ Sources) (hs : s.collaborators.random = .listed ds) :
    ((drawAll ns).exec s).1 = .ok ds := by
  induction hds generalizing s with
  | nil => rfl
  | @cons d n ds ns hlt _ ih =>
    have hdraw : Collaborators.draw n s.collaborators =
        (d, { s.collaborators with random := .listed ds }) := by
      change ((s.collaborators.random.draw n).1, _) = _
      rw [hs, RandomSource.draw, Nat.mod_eq_of_lt hlt]
    have hone := Work.exec_draw n s
    rw [hdraw] at hone
    rw [drawAll, Work.exec_bind_of_ok hone, ← map_eq_pure_bind, Work.exec_map, ih _ rfl]
    rfl

theorem exec_initial_listed {candidates : List α} {max : Nat} (hpos : 1 ≤ max)
    (hlt : max < candidates.length) {ds : List Nat}
    (hds : ds ∈ drawSequences (bounds candidates.length max)) (s : Session σ Sources)
    (hs : s.collaborators.random = .listed ds) :
    ((initial candidates max).exec s).1 = .ok (pick candidates ds) := by
  rw [initial_of_lt hpos hlt, Work.exec_map,
    exec_drawAll_listed (mem_drawSequences.mp hds) s hs]
  rfl

/-! ## Uniformity -/

/-- **The first reviewers are chosen uniformly.** From `n` distinct candidates and for fewer places,
`max` of them, there is one draw below each of `n`, `n - 1`, …, `n - max + 1`, and no other. Any
answers are possible, and they are in bijection with the ordered choices of `max` distinct
candidates, so that each choice comes from one sequence of answers, and each candidate from as many
as any other. Nothing is drawn if there are places for all candidates or for none. -/
theorem initial_uniform [DecidableEq α] {candidates : List α} (hdistinct : candidates.Nodup)
    (max : Nat) :
    (1 ≤ max → max < candidates.length →
      (∀ {σ π : Type} [Collaborators π] [Collaborators.Lawful π] (s : Session σ π),
        ∃ ds ∈ drawSequences (bounds candidates.length max), ∃ s',
          (initial candidates max).exec s = (.ok (pick candidates ds), s') ∧
            s'.draws = s.draws ++ (bounds candidates.length max).zip ds) ∧
      (∀ ds ∈ drawSequences (bounds candidates.length max), ∀ {σ : Type} (s : Session σ Sources),
        s.collaborators.random = .listed ds →
          ((initial candidates max).exec s).1 = .ok (pick candidates ds)) ∧
      Set.BijOn (pick candidates) (drawSequences (bounds candidates.length max))
        {chosen | chosen.Nodup ∧ chosen ⊆ candidates ∧ chosen.length = max} ∧
      ∀ c ∈ candidates, ∀ c' ∈ candidates,
        ((drawSequences (bounds candidates.length max)).filter (c ∈ pick candidates ·)).card =
          ((drawSequences (bounds candidates.length max)).filter (c' ∈ pick candidates ·)).card) ∧
    (candidates.length ≤ max ∨ max = 0 →
      ∀ {σ π : Type} [Collaborators π] (s : Session σ π),
        (initial candidates max).exec s = (.ok (candidates.take max), s)) := by
  refine ⟨fun hpos hlt => ⟨?_, ?_, bijOn_pick hdistinct hlt.le, ?_⟩, ?_⟩
  · exact fun s => exec_initial_of_lt hpos hlt s
  · exact fun ds hds _ s hs => exec_initial_listed hpos hlt hds s hs
  · intro c hc c' hc'
    exact Nat.le_antisymm (card_pick_le hdistinct hlt.le hc hc')
      (card_pick_le hdistinct hlt.le hc' hc)
  · exact fun h _ _ _ s => exec_initial_of_le h s

/-- Two of four candidates: the draws 2 and 0 select the third one and then the second, who is the
first of those left. -/
theorem initial_uniform_fourCandidates :
    ["b", "c", "d", "e"].Nodup ∧
      (∀ s : Session Unit Sources, s.collaborators.random = .listed [2, 0] →
        ((initial ["b", "c", "d", "e"] 2).exec s).1 = .ok ["d", "c"]) ∧
      ((drawSequences [4, 3]).filter ("b" ∈ pick ["b", "c", "d", "e"] ·)).card =
        ((drawSequences [4, 3]).filter ("e" ∈ pick ["b", "c", "d", "e"] ·)).card ∧
      ∀ s : Session Unit Sources,
        (initial ["b", "c", "d", "e"] 4).exec s = (.ok ["b", "c", "d", "e"], s) := by
  have hdistinct : ["b", "c", "d", "e"].Nodup := by decide
  obtain ⟨-, hlisted, -, hcount⟩ :=
    (initial_uniform hdistinct 2).1 (by decide) (by decide)
  exact ⟨hdistinct, fun s hs => hlisted [2, 0] (by decide) s hs,
    hcount "b" (by decide) "e" (by decide),
    fun s => (initial_uniform hdistinct 4).2 (.inl le_rfl) s⟩

end ReviewRota.Selection
