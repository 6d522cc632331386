import Mathlib.Algebra.BigOperators.Group.List.Basic
import Mathlib.Algebra.Order.Ring.Nat
import Mathlib.Data.List.Count
import ReviewRota.Proofs.HandOver

/-!
# Handing over the reviews of several users

All reviews of several leavers are handed over one user after the other, each pull request at a
time. Whether that succeeds, and how many reviews it hands over, can be counted beforehand.

* `PullRequest.leaving`: reviewers of a pull request among the leavers; `PullRequest.eligible`:
  members of the pool who can take a review.
* `Memory.Relieved`: what is left of the pull requests when all leavers have given way.
* **`Ledger.reassignAll_cases`**: the cascade succeeds exactly if no open pull request has more
  leaving reviewers than eligible members of the pool. Every hand-over lowers both by one, which is
  why the draws do not matter.
-/

namespace ReviewRota

open Relation (ReflTransGen)

namespace PullRequest

/-- How many of the leavers review a pull request. -/
def leaving (leavers : List User) (p : PullRequest) : Nat :=
  leavers.countP fun u => p.hasReviewer u.id

/-- How many members of a pool can take a review. -/
def eligible (pool : List User) (p : PullRequest) : Nat :=
  pool.countP p.canTake

variable {p q : PullRequest} {leavers : List String} {pool : List User}

/-! ## What a hand-over keeps -/

theorem HandOver.fits {m : Memory} (h : p.HandOver leavers pool q)
    (hpool : ∀ v ∈ pool, ∃ u ∈ m.users, u.id = v.id) (hp : m.Fits p.id p.reviewers) :
    m.Fits q.id q.reviewers := by
  obtain ⟨old, -, new, hnew, -, hcan, time, rfl⟩ := h
  exact hp.handedOver time (canTake_iff.mp hcan).2 (hpool new hnew)

theorem HandOver.mem_reviewerIds (h : p.HandOver leavers pool q) :
    ∃ old ∈ leavers, ∃ new ∈ pool, old ∈ p.reviewerIds ∧ p.canTake new = true ∧
      ∀ id, id ∈ q.reviewerIds ↔ (id ∈ p.reviewerIds ∧ id ≠ old) ∨ id = new.id := by
  obtain ⟨old, hold, new, hnew, hp, hcan, time, rfl⟩ := h
  refine ⟨old, hold, new, hnew, hp, hcan, fun id => ?_⟩
  have hne : new.id ≠ old := fun he => (canTake_iff.mp hcan).2 (he ▸ hp)
  rw [mem_reviewerIds_handedOver hne]
  simp [hp]

theorem sameOpening_of_steps (h : ReflTransGen (HandOver leavers pool) p q) : SameOpening p q := by
  induction h with
  | refl => exact .refl p
  | tail _ hstep ih => exact ih.trans hstep.sameOpening

theorem fits_of_steps {m : Memory} (h : ReflTransGen (HandOver leavers pool) p q)
    (hpool : ∀ v ∈ pool, ∃ u ∈ m.users, u.id = v.id) (hp : m.Fits p.id p.reviewers) :
    m.Fits q.id q.reviewers := by
  induction h with
  | refl => exact hp
  | tail _ hstep ih => exact hstep.fits hpool ih

theorem mem_of_steps (h : ReflTransGen (HandOver leavers pool) p q) {id : String}
    (hid : id ∈ q.reviewerIds) : id ∈ p.reviewerIds ∨ ∃ v ∈ pool, v.id = id := by
  induction h with
  | refl => exact .inl hid
  | tail _ hstep ih =>
    obtain ⟨_, _, new, hnew, _, _, hmem⟩ := hstep.mem_reviewerIds
    rcases (hmem id).mp hid with ⟨h, _⟩ | rfl
    · exact ih h
    · exact .inr ⟨new, hnew, rfl⟩

/-! ## Counting -/

variable {u v : User} {time : Instant}

theorem hasReviewer_handedOver (hnew : p.canTake v = true) (hold : u.id ∈ p.reviewerIds)
    {id : String} (hu : id ≠ u.id) :
    (p.handedOver u.id v.id time).hasReviewer id = (p.hasReviewer id || id == v.id) := by
  have hne : v.id ≠ u.id := fun he => (canTake_iff.mp hnew).2 (he ▸ hold)
  rw [Bool.eq_iff_iff, hasReviewer_iff, mem_reviewerIds_handedOver hne, Bool.or_eq_true,
    hasReviewer_iff, beq_iff_eq]
  simp [hu, hold]

variable (time) in
theorem leaving_handedOver (hnew : p.canTake v = true) (hold : u.id ∈ p.reviewerIds)
    {others : List User} (hu : ∀ w ∈ others, w.id ≠ u.id) (hv : ∀ w ∈ others, w.id ≠ v.id) :
    (p.handedOver u.id v.id time).leaving others = p.leaving others := by
  refine List.countP_congr fun w hw => ?_
  rw [hasReviewer_handedOver hnew hold (hu w hw), Bool.or_eq_true, beq_iff_eq]
  exact ⟨fun h => h.resolve_right (hv w hw), .inl⟩

variable (time) in
theorem eligible_handedOver (hnodup : (pool.map User.id).Nodup) (hv : v ∈ pool)
    (hnew : p.canTake v = true) (hold : u.id ∈ p.reviewerIds) (hu : ∀ w ∈ pool, w.id ≠ u.id) :
    (p.handedOver u.id v.id time).eligible pool + 1 = p.eligible pool := by
  have hpos : 0 < pool.countP p.canTake := List.countP_pos_iff.mpr ⟨v, hv, hnew⟩
  have hcount : (p.handedOver u.id v.id time).eligible pool = (pool.erase v).countP p.canTake := by
    rw [(List.Nodup.of_map _ hnodup).erase_eq_filter, List.countP_filter]
    refine List.countP_congr fun w hw => ?_
    have hid : w.id = v.id ↔ w = v :=
      ⟨fun he => List.inj_on_of_nodup_map hnodup hw hv he, fun he => he ▸ rfl⟩
    rw [canTake, hasReviewer_handedOver hnew hold (hu w hw)]
    simp [canTake, handedOver, hid, and_assoc]
  rw [hcount, List.countP_erase, if_pos ⟨hv, hnew⟩]
  exact Nat.sub_add_cancel hpos

theorem leaving_cons (us : List User) :
    p.leaving (u :: us) = p.leaving us + if p.hasReviewer u.id then 1 else 0 :=
  List.countP_cons

/-- **Each hand-over lowers both sides of the comparison by one**, since nobody in the pool is a
leaver. -/
theorem leaving_le_eligible {rest : List User} (hnodup : (pool.map User.id).Nodup)
    (hrest : ∀ w ∈ rest, w.id ≠ u.id) (hu : ∀ v ∈ pool, v.id ≠ u.id)
    (hout : ∀ w ∈ rest, ∀ v ∈ pool, v.id ≠ w.id) (hopen : p.isOpen = true)
    (hover : p.awaits u.id = true → p.HandOver [u.id] pool q)
    (hsame : ¬ p.awaits u.id = true → q = p) :
    q.leaving rest = p.leaving rest ∧
      (p.leaving (u :: rest) ≤ p.eligible pool ↔ q.leaving rest ≤ q.eligible pool) := by
  rw [leaving_cons]
  by_cases ha : p.awaits u.id = true
  · obtain ⟨old, hold, v, hv, hrev, hcan, time, rfl⟩ := hover ha
    cases List.mem_singleton.mp hold
    have hl := leaving_handedOver time hcan hrev hrest fun w hw he => hout w hw v hv he.symm
    have he := eligible_handedOver time hnodup hv hcan hrev hu
    rw [if_pos (hasReviewer_iff.mpr hrev), hl]
    exact ⟨rfl, by omega⟩
  · have hno : ¬ p.hasReviewer u.id = true := fun h =>
      ha (awaits_iff.mpr ⟨hopen, hasReviewer_iff.mp h⟩)
    rw [hsame ha, if_neg hno]
    exact ⟨rfl, Iff.rfl⟩

theorem sum_leaving_cons (us : List User) {ps : List PullRequest} {f : PullRequest → PullRequest}
    (hf : ∀ p ∈ ps, (f p).leaving us = p.leaving us) :
    (ps.map fun p => p.leaving (u :: us)).sum =
      ps.countP (·.hasReviewer u.id) + (ps.map fun p => (f p).leaving us).sum := by
  induction ps with
  | nil => rfl
  | cons p ps ih =>
    rw [List.forall_mem_cons] at hf
    rw [List.map_cons, List.map_cons, List.sum_cons, List.sum_cons, ih hf.2, leaving_cons, hf.1,
      List.countP_cons]
    omega

end PullRequest

open PullRequest (HandOver SameOpening leaving eligible)

/-! ## Pull requests that all leavers have left -/

/-- All leavers have left their open reviews to members of the pool, hand-over by hand-over, and
nothing else has changed. -/
structure Memory.Relieved (m : Memory) (leavers : List String) (pool : List User)
    (f : PullRequest → PullRequest) : Prop where
  steps : ∀ p ∈ m.pullRequests, ReflTransGen (HandOver leavers pool) p (f p)
  closed : ∀ p ∈ m.pullRequests, ¬ p.isOpen = true → f p = p
  gone : ∀ p ∈ m.pullRequests, p.isOpen = true → ∀ id ∈ leavers, id ∉ (f p).reviewerIds

namespace Memory.Relieved

variable {m : Memory} {leavers : List String} {pool : List User} {f : PullRequest → PullRequest}

theorem integrity (h : m.Relieved leavers pool f) (hint : m.Integrity)
    (hpool : ∀ v ∈ pool, ∃ u ∈ m.users, u.id = v.id) : (m.mapPullRequests f).Integrity := by
  refine hint.mapPullRequests (fun p hp => ?_) fun p hp => ?_
  · have hsame := PullRequest.sameOpening_of_steps (h.steps p hp)
    exact ⟨hsame.id, hsame.author⟩
  · have hfits := PullRequest.fits_of_steps (h.steps p hp) hpool (hint.slots p hp)
    rwa [(PullRequest.sameOpening_of_steps (h.steps p hp)).id] at hfits

theorem isOpen_eq (h : m.Relieved leavers pool f) {p : PullRequest} (hp : p ∈ m.pullRequests) :
    (f p).isOpen = p.isOpen := by
  rw [PullRequest.isOpen, (PullRequest.sameOpening_of_steps (h.steps p hp)).status]
  rfl

theorem congr {leavers' : List String} {pool' : List User} (h : m.Relieved leavers pool f)
    (hl : ∀ id, id ∈ leavers ↔ id ∈ leavers') (hp : pool ⊆ pool') :
    m.Relieved leavers' pool' f where
  steps p hp' := by
    have hmono : HandOver leavers pool ≤ HandOver leavers' pool' := fun _ _ hs =>
      hs.mono (fun id hid => (hl id).mp hid) hp
    exact ReflTransGen.mono hmono _ _ (h.steps p hp')
  closed := h.closed
  gone p hp' hopen id hid := h.gone p hp' hopen id ((hl id).mpr hid)

theorem sum_leaving (h : m.Relieved leavers pool f) (u : User) {us : List User}
    (hf : ∀ p ∈ m.pullRequests, p.isOpen = true → (f p).leaving us = p.leaving us) :
    m.pullRequests.countP (·.awaits u.id) +
        (((m.mapPullRequests f).pullRequests.filter (·.isOpen)).map (·.leaving us)).sum =
      ((m.pullRequests.filter (·.isOpen)).map (·.leaving (u :: us))).sum := by
  have hopened : (m.mapPullRequests f).pullRequests.filter (·.isOpen) =
      (m.pullRequests.filter (·.isOpen)).map f :=
    List.filter_map.trans (congrArg (List.map f) (List.filter_congr fun p hp => h.isOpen_eq hp))
  have hawaits : m.pullRequests.countP (·.awaits u.id) =
      m.pullRequests.countP fun p => p.hasReviewer u.id && p.isOpen :=
    List.countP_congr fun p _ => by rw [PullRequest.awaits, Bool.and_comm]
  rw [hopened, List.map_map, hawaits, ← List.countP_filter]
  refine (PullRequest.sum_leaving_cons us fun p hp => ?_).symm
  exact hf p (List.mem_filter.mp hp).1 (List.mem_filter.mp hp).2

theorem nil (m : Memory) (pool : List User) : m.Relieved [] pool id :=
  ⟨fun _ _ => .refl, fun _ _ _ => rfl, fun _ _ _ _ hid => absurd hid List.not_mem_nil⟩

theorem of_awaits {id : String} (hf : ∀ p ∈ m.pullRequests,
    (p.awaits id = true → p.HandOver [id] pool (f p)) ∧ (¬ p.awaits id = true → f p = p)) :
    m.Relieved [id] pool f := by
  refine ⟨fun p hp => ?_, fun p hp hclosed => ?_, fun p hp hopen => ?_⟩
  · by_cases ha : p.awaits id = true
    · exact .single ((hf p hp).1 ha)
    · rw [(hf p hp).2 ha]
  · exact (hf p hp).2 fun ha => hclosed (PullRequest.awaits_iff.mp ha).1
  · intro id' hid hin
    obtain rfl := List.mem_singleton.mp hid
    by_cases ha : p.awaits id' = true
    · obtain ⟨old, hold, new, hnew, hp', hcan, hmem⟩ := ((hf p hp).1 ha).mem_reviewerIds
      rcases (hmem id').mp hin with ⟨-, hne⟩ | he
      · exact hne (List.mem_singleton.mp hold).symm
      · exact (PullRequest.canTake_iff.mp hcan).2 (he ▸ List.mem_singleton.mp hold ▸ hp')
    · rw [(hf p hp).2 ha] at hin
      exact ha (PullRequest.awaits_iff.mpr ⟨hopen, hin⟩)

/-- One user after another: whoever has left does not come back, for want of being in the pool. -/
theorem comp {id : String} {g : PullRequest → PullRequest} (h : m.Relieved [id] pool f)
    (h' : (m.mapPullRequests f).Relieved leavers pool g) (hid : ∀ v ∈ pool, v.id ≠ id) :
    m.Relieved (id :: leavers) pool (g ∘ f) := by
  have hmem : ∀ p ∈ m.pullRequests, f p ∈ (m.mapPullRequests f).pullRequests := fun p hp =>
    mem_mapPullRequests.mpr ⟨p, hp, rfl⟩
  constructor
  · intro p hp
    have hfirst : HandOver [id] pool ≤ HandOver (id :: leavers) pool := fun _ _ hs =>
      hs.mono (List.cons_subset_cons id (List.nil_subset leavers)) (List.Subset.refl pool)
    have hthen : HandOver leavers pool ≤ HandOver (id :: leavers) pool := fun _ _ hs =>
      hs.mono (List.subset_cons_self id leavers) (List.Subset.refl pool)
    exact (ReflTransGen.mono hfirst _ _ (h.steps p hp)).trans
      (ReflTransGen.mono hthen _ _ (h'.steps _ (hmem p hp)))
  · intro p hp hclosed
    have hf := h.closed p hp hclosed
    rw [Function.comp_apply, hf]
    exact h'.closed p (hf ▸ hmem p hp) hclosed
  · intro p hp hopen other hother hin
    rcases List.mem_cons.mp hother with rfl | hother
    · rcases PullRequest.mem_of_steps (h'.steps _ (hmem p hp)) hin with hin | ⟨v, hv, he⟩
      · exact h.gone p hp hopen other (List.mem_singleton_self _) hin
      · exact hid v hv he
    · exact h'.gone _ (hmem p hp) ((h.isOpen_eq hp).trans hopen) other hother hin

end Memory.Relieved

namespace Ledger

variable {π : Type} [Collaborators π] {older : Instant → Instant → Bool}

/-- **The cascade over several users**, none of whom is in the pool. It succeeds exactly if each
open pull request has at least as many eligible members of the pool as leaving reviewers. -/
theorem reassignAll_cases {team : String} {pool us : List User}
    (hnodup : (us.map User.id).Nodup) (hout : ∀ u ∈ us, ∀ v ∈ pool, v.id ≠ u.id)
    {s : Session (Ledger older) π} (hint : Memory.Integrity s.data)
    (hpool : ∀ u ∈ us, Repository.activeMembers team [u.id] s.data = .ok pool) :
    (∃ f s', (Service.reassignAll team us).exec s =
        (.ok (((Memory.pullRequests s.data).filter (·.isOpen)).map (·.leaving us)).sum, s') ∧
      s'.data = Memory.mapPullRequests s.data f ∧
      Memory.Relieved s.data (us.map User.id) pool f ∧
      ∀ p ∈ Memory.pullRequests s.data, p.isOpen = true → p.leaving us ≤ p.eligible pool) ∨
    ((Service.reassignAll team us).exec s).1 = .error .noCandidate ∧
      (∀ [Collaborators.Lawful π], ∃ p ∈ Memory.pullRequests s.data, p.isOpen = true ∧
        p.eligible pool < p.leaving us) := by
  -- what the first user leaves behind is where the cascade over the others starts
  induction us generalizing s with
  | nil =>
    refine .inl ⟨id, s, ?_, (Memory.mapPullRequests_id _).symm, .nil _ _,
      fun _ _ _ => Nat.zero_le _⟩
    have hzero : ((Memory.pullRequests s.data).filter (·.isOpen)).map (·.leaving []) =
        ((Memory.pullRequests s.data).filter (·.isOpen)).map fun _ => 0 := rfl
    rw [hzero, List.sum_map_zero]
    rfl
  | cons u rest ih =>
    rw [List.map_cons, List.nodup_cons] at hnodup
    rw [List.forall_mem_cons] at hout hpool
    have hrest : ∀ w ∈ rest, w.id ≠ u.id := fun w hw he => hnodup.1 (he ▸ List.mem_map_of_mem hw)
    rw [Service.reassignAll]
    rcases reassignOpenReviews_cases { u with isActive := false } hint hpool.1 with
      ⟨f, s₁, he, hdata, hf⟩ | ⟨he, hstuck⟩
    swap
    · refine .inr ⟨Work.fst_exec_bind_of_error he _, fun {_} => ?_⟩
      obtain ⟨p, hp, ha, hnone⟩ := hstuck
      obtain ⟨hopen, hrev⟩ := PullRequest.awaits_iff.mp ha
      have hzero : p.eligible pool = 0 := List.countP_eq_zero.mpr hnone
      refine ⟨p, hp, hopen, ?_⟩
      rw [PullRequest.leaving_cons, if_pos (PullRequest.hasReviewer_iff.mpr hrev), hzero]
      exact Nat.succ_pos _
    have hrel : Memory.Relieved s.data [u.id] pool f := .of_awaits hf
    have hknown := known_of_activeMembers hpool.1
    -- hand-overs change no users, so the pool stays
    have hpool' : ∀ w ∈ rest, Repository.activeMembers team [w.id] s₁.data = .ok pool := by
      rw [hdata]
      exact hpool.2
    have hcount := fun p hp hopen => PullRequest.leaving_le_eligible (u := u)
      (nodup_activeMembers hint hpool.1) hrest hout.1 hout.2 hopen (hf p hp).1 (hf p hp).2
    rw [Work.exec_bind_of_ok he]
    rcases ih hnodup.2 hout.2 (hdata ▸ hrel.integrity hint hknown) hpool' with
      ⟨g, s₂, he', hdata', hrel', hle⟩ | ⟨he', hstuck⟩
    · refine .inl ⟨g ∘ f, s₂, ?_, ?_, hrel.comp (hdata ▸ hrel') hout.1, fun p hp hopen => ?_⟩
      · rw [Work.exec_bind_of_ok he', Work.exec_pure, hdata,
          ← hrel.sum_leaving u fun p hp hopen => (hcount p hp hopen).1]
      · rw [hdata', hdata]
        exact congrArg (Memory.mk _ _) List.map_map
      · refine (hcount p hp hopen).2.mpr (hle (f p) ?_ ((hrel.isOpen_eq hp).trans hopen))
        exact hdata ▸ Memory.mem_mapPullRequests.mpr ⟨p, hp, rfl⟩
    · refine .inr ⟨Work.fst_exec_bind_of_error he' _, fun {_} => ?_⟩
      obtain ⟨q, hq, hopen, hlt⟩ := hstuck
      rw [hdata] at hq
      obtain ⟨p, hp, rfl⟩ := Memory.mem_mapPullRequests.mp hq
      rw [hrel.isOpen_eq hp] at hopen
      exact ⟨p, hp, hopen, Nat.lt_of_not_le fun hle =>
        Nat.not_le_of_lt hlt ((hcount p hp hopen).2.mp hle)⟩

end Ledger

end ReviewRota
