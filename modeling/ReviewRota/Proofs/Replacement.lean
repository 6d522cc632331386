import Mathlib.Data.List.Forall2
import ReviewRota.Proofs.HandOver

/-!
# Replacing one reviewer

* `PullRequest.Candidate`: who can take the place of a reviewer; `Ledger.mem_pool`: these are the
  members of the pool from which a replacement is drawn.
* `ReviewerSlot.PassedOn`, `PullRequest.Replaced`: a slot, and a pull request slot by slot, where a
  reviewer has given way.
* `Ledger.snapshot_mapPullRequests`: what is listed once pull requests have changed in their places.
* `Service.exec_reassignIn_of_nil`, `Service.exec_reassignIn_of_not_reviewer`: the two ways in which
  a reassignment is refused after it has read the pool; **`Ledger.exec_reassignIn_of_chosen`**: what
  it does otherwise.
-/

namespace ReviewRota

/-! ## Candidates -/

namespace PullRequest

/-- An active member of a team who is neither a given user nor the author nor a reviewer. -/
def Candidate (p : PullRequest) (team userId : String) (v : User) : Prop :=
  v.teamId = team ∧ v.isActive = true ∧ v.id ≠ userId ∧ v.id ≠ p.authorId ∧ v.id ∉ p.reviewerIds

instance (p : PullRequest) (team userId : String) : DecidablePred (p.Candidate team userId) :=
  fun _ => inferInstanceAs (Decidable (_ ∧ _))

end PullRequest

/-! ## Pull requests with another reviewer -/

/-- What becomes of a slot where the user `new` takes the place of `old`: it passes to `new` at the
given time if it was held by `old`, and else it keeps user and time. -/
def ReviewerSlot.PassedOn (old new : String) (time : Instant) (a b : ReviewerSlot) : Prop :=
  b.pullRequestId = a.pullRequestId ∧
    if a.userId = old then b.userId = new ∧ b.assignedAt = time
    else b.userId = a.userId ∧ b.assignedAt = a.assignedAt

namespace PullRequest

/-- The user `new` sits where `old` sat, since the given time. Everybody else keeps place and time,
slots are numbered from 1, and nothing else has changed. -/
structure Replaced (p : PullRequest) (old new : String) (time : Instant) (q : PullRequest) : Prop
    extends SameOpening p q where
  seats : List.Forall₂ (ReviewerSlot.PassedOn old new time) p.reviewers q.reviewers
  dense : Dense q.reviewers

theorem passedOn_handedOver (p : PullRequest) (old new : String) (time : Instant) :
    List.Forall₂ (ReviewerSlot.PassedOn old new time) p.reviewers
      (p.handedOver old new time).reviewers := by
  refine List.forall₂_iff_get.mpr ⟨?_, fun i h₁ h₂ => ?_⟩
  · simp [handedOver, length_renumber, replaceReviewer]
  · by_cases he : p.reviewers[i].userId = old <;>
      simp [ReviewerSlot.PassedOn, handedOver, renumber, replaceReviewer, he]

theorem replaced_handedOver {m : Memory} {p : PullRequest} (h : m.Fits p.id p.reviewers)
    (old new : String) (time : Instant) : p.Replaced old new time (p.handedOver old new time) where
  toSameOpening := ⟨rfl, rfl, rfl, rfl, rfl, rfl⟩
  seats := p.passedOn_handedOver old new time
  dense := dense_handedOver h

end PullRequest

open PullRequest (instead)

theorem Memory.Integrity.sameOpening_instead {m : Memory} (hint : m.Integrity) {p r q : PullRequest}
    (hp : p ∈ m.pullRequests) (h : p.SameOpening r) (hq : q ∈ m.pullRequests) :
    q.SameOpening (instead r q) := by
  unfold PullRequest.instead
  split
  · rename_i hid
    rwa [hint.eq_of_id hq hp (hid.trans h.id)]
  · exact .refl q

namespace Ledger

variable {older : Instant → Instant → Bool} {m : Ledger older}

variable (m) in
theorem exists_pool (team : String) (except : List String) :
    ∃ pool, Repository.activeMembers team except m = .ok pool :=
  ⟨_, rfl⟩

theorem mem_pool {p : PullRequest} {team userId : String} {pool : List User}
    (hpool : Repository.activeMembers team (p.exclusions userId) m = .ok pool) {v : User} :
    v ∈ pool ↔ v ∈ Memory.users m ∧ p.Candidate team userId v := by
  rw [mem_activeMembers hpool, PullRequest.mem_exclusions, not_or, not_or]
  rfl

/-- **Pull requests that change in their places** are listed as before, each as it has become: the
order goes by the time of creation. -/
theorem snapshot_mapPullRequests {f : PullRequest → PullRequest}
    (hf : ∀ p ∈ Memory.pullRequests m, (f p).createdAt = p.createdAt) {snapshot : Snapshot}
    (h : Repository.snapshot m = .ok snapshot) :
    Repository.snapshot (Ledger.of older (Memory.mapPullRequests m f)) =
      .ok { snapshot with pullRequests := snapshot.pullRequests.map f } := by
  have hlisted : Memory.newestFirst older ((Memory.pullRequests m).map f) =
      (Memory.newestFirst older (Memory.pullRequests m)).map f := by
    rw [Memory.newestFirst, ← List.map_reverse, sortBy_map]
    refine congrArg (List.map f) (sortBy_congr fun p hp q hq => ?_)
    rw [hf p (List.mem_reverse.mp hp), hf q (List.mem_reverse.mp hq)]
  rw [← Except.ok.inj (snapshot_eq.symm.trans h), snapshot_eq]
  exact congrArg (fun ps => Except.ok (Snapshot.mk _ _ ps)) hlisted

end Ledger

/-! ## Reassignments -/

namespace Service

variable {σ π : Type} [Repository σ] [Collaborators π] {s : Session σ π} {id reviewerId : String}
  {p : PullRequest} {reviewer : User} {pool : List User}

section

variable (hp : Repository.pullRequest true id s.data = .ok p) (hopen : p.isOpen = true)
  (hreviewer : Repository.user reviewerId s.data = .ok reviewer)
  (hpool : Repository.activeMembers reviewer.teamId (p.exclusions reviewer.id) s.data = .ok pool)
include hp hopen hreviewer hpool

/-- Nobody is drawn from an empty pool, whether or not the reviewer reviews. -/
theorem exec_reassignIn_of_nil (hnil : pool = []) :
    (reassignIn id reviewerId).exec s = (.error .noCandidate, s) := by
  rw [exec_reassignIn hp hopen hreviewer hpool, hnil]
  rfl

/-- That the reviewer does not review is found after the draw. -/
theorem exec_reassignIn_of_not_reviewer [Collaborators.Lawful π] (hne : pool ≠ [])
    (hrev : reviewer.id ∉ p.reviewerIds) :
    ((reassignIn id reviewerId).exec s).1 = .error .badReviewer := by
  have hdraw := Collaborators.Lawful.draw_lt s.collaborators (List.length_pos_iff.mpr hne)
  have hchosen := Selection.replacement_eq_ok.mpr ⟨List.getElem?_eq_getElem hdraw, rfl⟩
  have hno : p.hasReviewer reviewer.id = false := by
    rw [← Bool.not_eq_true, PullRequest.hasReviewer_iff]
    exact hrev
  rw [exec_reassignIn hp hopen hreviewer hpool, Work.exec_bind_of_ok hchosen,
    Work.exec_bind_of_ok (Work.exec_now _), hno]
  rfl

end

end Service

namespace Ledger

variable {older : Instant → Instant → Bool} {π : Type} [Collaborators π]
  {s s₁ : Session (Ledger older) π}

/-- **Whoever has been drawn takes over**, at the one time that is read from the clock. -/
theorem exec_reassignIn_of_chosen (hint : Memory.Integrity s.data) {p : PullRequest}
    (hp : p ∈ Memory.pullRequests s.data) (hopen : p.isOpen = true) {reviewer : User}
    (hreviewer : reviewer ∈ Memory.users s.data) (hrev : reviewer.id ∈ p.reviewerIds)
    {pool : List User}
    (hpool : Repository.activeMembers reviewer.teamId (p.exclusions reviewer.id) s.data = .ok pool)
    {v : User} (hchosen : (Selection.replacement pool).exec s = (.ok v, s₁)) :
    ∃ time s', (Service.reassignIn p.id reviewer.id).exec s =
        (.ok (p.handedOver reviewer.id v.id time), s') ∧
      s'.data = Memory.mapPullRequests s.data (instead (p.handedOver reviewer.id v.id time)) ∧
      s'.draws = s₁.draws ∧ s'.readings = s₁.readings ++ [time] := by
  obtain ⟨hv, hsame⟩ := Selection.replacement_ok hchosen
  obtain ⟨hv, hcandidate⟩ := (mem_pool hpool).mp hv
  let time := (Collaborators.now s₁.collaborators).1
  let q := p.handedOver reviewer.id v.id time
  have hfits : Memory.Fits s.data p.id q.reviewers :=
    (hint.slots p hp).handedOver time hcandidate.2.2.2.2 ⟨v, hv, rfl⟩
  refine ⟨time, { s₁ with
    data := Memory.withSlots s₁.data p.id q.reviewers
    collaborators := (Collaborators.now s₁.collaborators).2
    readings := s₁.readings ++ [time] }, ?exec, ?data, rfl, rfl⟩
  case exec =>
    rw [Service.exec_reassignIn ((pullRequest_iff hint).mpr ⟨hp, rfl⟩) hopen
        ((user_iff hint).mpr ⟨hreviewer, rfl⟩) hpool, Work.exec_bind_of_ok hchosen,
      Work.exec_bind_of_ok (Work.exec_now _), PullRequest.hasReviewer_iff.mpr hrev,
      Work.exec_bind_of_ok (Service.exec_require _ _ _)]
    rw [← hsame] at hp hfits
    refine Work.exec_bind_of_ok (exec_setReviewers ?_ ?_) _
    · exact ⟨p, hp, rfl⟩
    · exact hfits
  case data =>
    change Memory.withSlots s₁.data p.id q.reviewers = _
    rw [hsame]
    exact withSlots_eq_mapPullRequests (q := q) hint hp rfl
      (PullRequest.dense_handedOver (hint.slots p hp)) fun _ => rfl

end Ledger

end ReviewRota
