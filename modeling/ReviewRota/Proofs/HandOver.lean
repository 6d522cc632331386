import Mathlib.Logic.Relation
import ReviewRota.Proofs.Integrity
import ReviewRota.Proofs.Selection

/-!
# Handing over the reviews of one user

* `PullRequest.canTake`: who may take over a review; `PullRequest.awaits`: open pull requests that
  a user reviews.
* `PullRequest.HandOver`: a pull request on which one of some leavers has given way to a member of
  a pool; `PullRequest.SameOpening`: what that leaves alone.
* `Ledger.handOver_cases`, **`Ledger.handOverAll_cases`**: the loop over pull requests hands over
  all of them and no others, or it is refused. Random sources that keep to their bounds refuse it
  only if one of the pull requests has no candidate.
* **`Ledger.reassignOpenReviews_cases`**: the same for all open reviews of a user.
-/

namespace ReviewRota

/-! ## Pull requests -/

namespace PullRequest

/-- An open pull request that the user reviews. -/
def awaits (p : PullRequest) (userId : String) : Bool :=
  p.isOpen && p.hasReviewer userId

/-- Neither the author of a pull request nor one of its reviewers. -/
def canTake (p : PullRequest) (user : User) : Bool :=
  user.id != p.authorId && !p.hasReviewer user.id

/-- One of the leavers has given way to a member of the pool who can take the review. -/
def HandOver (leavers : List String) (pool : List User) (p q : PullRequest) : Prop :=
  ∃ old ∈ leavers, ∃ new ∈ pool, old ∈ p.reviewerIds ∧ p.canTake new = true ∧
    ∃ time, q = p.handedOver old new.id time

/-- A pull request in the place of the one with its id. -/
def instead (p q : PullRequest) : PullRequest :=
  if q.id = p.id then p else q

variable {p q : PullRequest} {old new : String} {time : Instant}

theorem id_instead (p q : PullRequest) : (p.instead q).id = q.id := by
  unfold instead
  split
  · rename_i hid
    exact hid.symm
  · rfl

theorem awaits_iff {userId : String} :
    p.awaits userId = true ↔ p.isOpen = true ∧ userId ∈ p.reviewerIds := by
  rw [awaits, Bool.and_eq_true, hasReviewer_iff]

theorem canTake_iff {user : User} :
    p.canTake user = true ↔ user.id ≠ p.authorId ∧ user.id ∉ p.reviewerIds := by
  rw [canTake, Bool.and_eq_true, bne_iff_ne, Bool.not_eq_true', ← Bool.not_eq_true,
    hasReviewer_iff]

theorem contains_exclusions (hold : old ∈ p.reviewerIds) (user : User) :
    (!(p.exclusions old).contains user.id) = p.canTake user := by
  rw [Bool.eq_iff_iff, canTake_iff, Bool.not_eq_true', ← Bool.not_eq_true, List.contains_iff_mem,
    mem_exclusions]
  constructor
  · exact fun h => ⟨fun ha => h (.inr (.inl ha)), fun hr => h (.inr (.inr hr))⟩
  · rintro ⟨ha, hr⟩ (rfl | h | h)
    · exact hr hold
    · exact ha h
    · exact hr h

/-- What hand-overs leave alone. -/
structure SameOpening (p q : PullRequest) : Prop where
  id : q.id = p.id
  title : q.title = p.title
  author : q.authorId = p.authorId
  status : q.status = p.status
  createdAt : q.createdAt = p.createdAt
  mergedAt : q.mergedAt = p.mergedAt

theorem SameOpening.refl (p : PullRequest) : SameOpening p p :=
  ⟨rfl, rfl, rfl, rfl, rfl, rfl⟩

theorem SameOpening.trans {r : PullRequest} (h : SameOpening p q) (h' : SameOpening q r) :
    SameOpening p r :=
  ⟨h'.id.trans h.id, h'.title.trans h.title, h'.author.trans h.author, h'.status.trans h.status,
    h'.createdAt.trans h.createdAt, h'.mergedAt.trans h.mergedAt⟩

theorem HandOver.sameOpening {leavers : List String} {pool : List User}
    (h : p.HandOver leavers pool q) : SameOpening p q := by
  obtain ⟨old, -, new, -, -, -, time, rfl⟩ := h
  exact ⟨rfl, rfl, rfl, rfl, rfl, rfl⟩

theorem HandOver.mono {leavers leavers' : List String} {pool pool' : List User}
    (h : p.HandOver leavers pool q) (hl : leavers ⊆ leavers') (hp : pool ⊆ pool') :
    p.HandOver leavers' pool' q := by
  obtain ⟨old, hold, new, hnew, h⟩ := h
  exact ⟨old, hl hold, new, hp hnew, h⟩

theorem dense_handedOver {m : Memory} (h : m.Fits p.id p.reviewers) :
    Dense (p.handedOver old new time).reviewers := by
  refine dense_renumber ?_
  rw [replaceReviewer, List.length_map]
  exact h.length_lt

end PullRequest

theorem Service.exec_reassignOpenReviews {σ π : Type} [Repository σ] [Collaborators π]
    {s : Session σ π} {team : String} {user : User} {ps : List PullRequest} {pool : List User}
    (hps : Repository.assignedTo user.id (some .opened) s.data = .ok ps)
    (hpool : Repository.activeMembers team [user.id] s.data = .ok pool) :
    (Service.reassignOpenReviews team user).exec s =
      (Service.handOverAll pool user ps).exec s := by
  unfold Service.reassignOpenReviews
  rw [Work.exec_bind_of_ok (by rw [Work.exec_read, hps])]
  split
  · rename_i hempty
    rw [List.isEmpty_iff.mp hempty]
    rfl
  · exact Work.exec_bind_of_ok (by rw [Work.exec_read, hpool]) _

theorem Service.exec_reassignIn {σ π : Type} [Repository σ] [Collaborators π] {s : Session σ π}
    {id reviewerId : String} {p : PullRequest} {reviewer : User} {pool : List User}
    (hp : Repository.pullRequest true id s.data = .ok p) (hopen : p.isOpen = true)
    (hreviewer : Repository.user reviewerId s.data = .ok reviewer)
    (hpool : Repository.activeMembers reviewer.teamId (p.exclusions reviewer.id) s.data =
      .ok pool) :
    (Service.reassignIn id reviewerId).exec s =
      (do
        let chosen ← Selection.replacement pool
        let time ← Work.now
        Service.require (p.hasReviewer reviewer.id) .badReviewer
        let q := p.handedOver reviewer.id chosen.id time
        Work.write (Repository.setReviewers p.id q.reviewers)
        pure q : Work σ π PullRequest).exec s := by
  unfold Service.reassignIn
  rw [Work.exec_bind_of_ok (by rw [Work.exec_read, hp]),
    Work.exec_bind_of_ok (by rw [Service.exec_require, if_pos hopen]),
    Work.exec_bind_of_ok (by rw [Work.exec_read, hreviewer]),
    Work.exec_bind_of_ok (by rw [Work.exec_read, hpool])]
  rfl

/-- A hand-over by a reviewer: one draw among those who can take it, one reading of the clock. -/
theorem Service.handOver_eq {σ π : Type} [Repository σ] [Collaborators π] {pool : List User}
    {user : User} {p : PullRequest} (hp : user.id ∈ p.reviewerIds) :
    (Service.handOver pool user p : Work σ π Unit) = (do
      let chosen ← Selection.replacement (pool.filter p.canTake)
      let time ← Work.now
      Work.write
        (Repository.setReviewers p.id (p.handedOver user.id chosen.id time).reviewers)) := by
  have hfilter : (pool.filter fun v => !(p.exclusions user.id).contains v.id) =
      pool.filter p.canTake :=
    List.filter_congr fun v _ => PullRequest.contains_exclusions hp v
  unfold Service.handOver
  dsimp only
  rw [hfilter]
  rfl

/-! ## One pull request -/

namespace Ledger

open PullRequest (canTake awaits HandOver instead)

variable {π : Type} [Collaborators π] {older : Instant → Instant → Bool}

theorem withSlots_eq_mapPullRequests {m : Memory} (hint : m.Integrity) {p q : PullRequest}
    (hp : p ∈ m.pullRequests) (hid : q.id = p.id) (hq : Dense q.reviewers)
    (hsame : ∀ slots, { p with reviewers := slots } = { q with reviewers := slots }) :
    m.withSlots p.id q.reviewers = m.mapPullRequests (instead q) := by
  refine congrArg (Memory.mk m.teams m.users) (List.map_congr_left fun r hr => ?_)
  rw [instead, hid]
  split
  · rename_i he
    rw [hint.eq_of_id hr hp he, hq.sortSlots_eq]
    exact hsame q.reviewers
  · rfl

omit [Collaborators π] in
theorem exec_setReviewers {s : Session (Ledger older) π} {id : String} {slots : List ReviewerSlot}
    (hknown : ∃ p ∈ Memory.pullRequests s.data, p.id = id)
    (hfits : Memory.Fits s.data id slots) :
    (Work.write (Repository.setReviewers id slots)).exec s =
      (.ok (), { s with data := Memory.withSlots s.data id slots }) := by
  have hset : Repository.setReviewers id slots s.data =
      ((.ok (), Memory.withSlots s.data id slots) : Except Fault Unit × Ledger older) :=
    (Memory.setReviewers_eq slots hknown).trans (if_pos (Memory.acceptsSlots_iff.mpr hfits))
  rw [Work.exec_write, hset]

theorem exec_handOver_of_chosen {s s₁ : Session (Ledger older) π} (hint : Memory.Integrity s.data)
    {pool : List User} (hpool : ∀ v ∈ pool, ∃ u ∈ Memory.users s.data, u.id = v.id) {user : User}
    {p : PullRequest} (hmem : p ∈ Memory.pullRequests s.data) (hp : user.id ∈ p.reviewerIds)
    {v : User} (hchosen : (Selection.replacement (pool.filter p.canTake)).exec s = (.ok v, s₁)) :
    ∃ time s', (Service.handOver pool user p).exec s = (.ok (), s') ∧
      s'.data = Memory.mapPullRequests s.data (instead (p.handedOver user.id v.id time)) ∧
      s'.draws = s₁.draws := by
  obtain ⟨hv, hsame⟩ := Selection.replacement_ok hchosen
  obtain ⟨hv, hcan⟩ := List.mem_filter.mp hv
  let time := (Collaborators.now s₁.collaborators).1
  let q := p.handedOver user.id v.id time
  have hfits : Memory.Fits s.data p.id q.reviewers :=
    (hint.slots p hmem).handedOver _ (PullRequest.canTake_iff.mp hcan).2 (hpool v hv)
  refine ⟨time, { s₁ with
    data := Memory.withSlots s₁.data p.id q.reviewers
    collaborators := (Collaborators.now s₁.collaborators).2
    readings := s₁.readings ++ [time] }, ?exec, ?data, rfl⟩
  case exec =>
    rw [Service.handOver_eq hp, Work.exec_bind_of_ok hchosen,
      Work.exec_bind_of_ok (Work.exec_now _)]
    rw [← hsame] at hmem hfits
    refine exec_setReviewers ?_ ?_
    · exact ⟨p, hmem, rfl⟩
    · exact hfits
  case data =>
    change Memory.withSlots s₁.data p.id q.reviewers = _
    rw [hsame]
    exact withSlots_eq_mapPullRequests (q := q) hint hmem rfl
      (PullRequest.dense_handedOver (hint.slots p hmem)) fun _ => rfl

/-- **One hand-over**: somebody takes the review, or nobody can. -/
theorem handOver_cases {s : Session (Ledger older) π} (hint : Memory.Integrity s.data)
    {pool : List User} (hpool : ∀ v ∈ pool, ∃ u ∈ Memory.users s.data, u.id = v.id) {user : User}
    {p : PullRequest} (hmem : p ∈ Memory.pullRequests s.data) (hp : user.id ∈ p.reviewerIds) :
    (∃ q s', (Service.handOver pool user p).exec s = (.ok (), s') ∧
      s'.data = Memory.mapPullRequests s.data (instead q) ∧ p.HandOver [user.id] pool q) ∨
    ∃ s', (Service.handOver pool user p).exec s = (.error .noCandidate, s') ∧
      (∀ [Collaborators.Lawful π], ∀ v ∈ pool, ¬ p.canTake v = true) := by
  rcases Selection.replacement_cases (pool.filter p.canTake) s with
    ⟨v, hv, s₁, hdraw, -⟩ | ⟨s₁, hdraw, -, hnone⟩
  · obtain ⟨time, s', he, hdata, -⟩ := exec_handOver_of_chosen hint hpool hmem hp hdraw
    obtain ⟨hv, hcan⟩ := List.mem_filter.mp hv
    exact .inl ⟨_, s', he, hdata, user.id, List.mem_singleton_self _, v, hv, hp, hcan, time, rfl⟩
  · rw [Service.handOver_eq hp]
    refine .inr ⟨s₁, Work.exec_bind_of_error hdraw _, fun {_} v hv hcan => ?_⟩
    exact List.ne_nil_of_mem (List.mem_filter.mpr ⟨hv, hcan⟩) hnone

/-! ## Several pull requests -/

omit [Collaborators π] in
theorem integrity_instead {m : Memory} (hint : m.Integrity) {leavers : List String}
    {pool : List User} (hpool : ∀ v ∈ pool, ∃ u ∈ m.users, u.id = v.id) {p q : PullRequest}
    (hp : p ∈ m.pullRequests) (h : p.HandOver leavers pool q) :
    Memory.Integrity (m.mapPullRequests (instead q)) := by
  obtain ⟨old, -, new, hnew, -, hcan, time, rfl⟩ := h
  refine hint.mapPullRequests (fun r hr => ?_) fun r hr => ?_
  · unfold instead
    split
    · rename_i he
      rw [hint.eq_of_id hr hp he]
      exact ⟨rfl, rfl⟩
    · exact ⟨rfl, rfl⟩
  · unfold instead
    split
    · rename_i he
      rw [hint.eq_of_id hr hp he]
      exact (hint.slots p hp).handedOver time (PullRequest.canTake_iff.mp hcan).2 (hpool new hnew)
    · exact hint.slots r hr

/-- **The loop over pull requests** hands over all of them, or it stops at one that finds no
candidate. A hand-over leaves the pull requests to come as they are, since their ids differ. -/
theorem handOverAll_cases {pool : List User} {user : User} {ps : List PullRequest}
    (hnodup : ps.Nodup) (hreview : ∀ p ∈ ps, user.id ∈ p.reviewerIds)
    {s : Session (Ledger older) π} (hint : Memory.Integrity s.data)
    (hpool : ∀ v ∈ pool, ∃ u ∈ Memory.users s.data, u.id = v.id)
    (hps : ∀ p ∈ ps, p ∈ Memory.pullRequests s.data) :
    (∃ f s', (Service.handOverAll pool user ps).exec s = (.ok ps.length, s') ∧
      s'.data = Memory.mapPullRequests s.data f ∧
      ∀ p ∈ Memory.pullRequests s.data,
        (p ∈ ps → p.HandOver [user.id] pool (f p)) ∧ (p ∉ ps → f p = p)) ∨
    ((Service.handOverAll pool user ps).exec s).1 = .error .noCandidate ∧
      (∀ [Collaborators.Lawful π], ∃ p ∈ ps, ∀ v ∈ pool, ¬ p.canTake v = true) := by
  induction ps generalizing s with
  | nil =>
    refine .inl ⟨id, s, rfl, (Memory.mapPullRequests_id _).symm, fun p _ =>
      ⟨fun hp => ?_, fun _ => rfl⟩⟩
    exact absurd hp List.not_mem_nil
  | cons p rest ih =>
    rw [List.nodup_cons] at hnodup
    rw [List.forall_mem_cons] at hreview hps
    rw [Service.handOverAll]
    rcases handOver_cases hint hpool hps.1 hreview.1 with ⟨q, s₁, he, hdata, hq⟩ | ⟨s₁, he, hnone⟩
    swap
    · rw [Work.exec_bind_of_error he]
      exact .inr ⟨rfl, fun {_} => ⟨p, List.mem_cons_self, hnone⟩⟩
    have hqid : q.id = p.id := hq.sameOpening.id
    -- the pull requests to come are as they were
    have hne : ∀ r ∈ rest, instead q r = r := fun r hr => if_neg fun hid : r.id = q.id =>
      hnodup.1 (hint.eq_of_id (hps.2 r hr) hps.1 (hid.trans hqid) ▸ hr)
    have hrest : ∀ r ∈ rest, r ∈ Memory.pullRequests s₁.data := fun r hr => by
      rw [hdata]
      exact Memory.mem_mapPullRequests.mpr ⟨r, hps.2 r hr, hne r hr⟩
    rw [Work.exec_bind_of_ok he]
    rcases ih hnodup.2 hreview.2 (hdata ▸ integrity_instead hint hpool hps.1 hq) (hdata ▸ hpool)
      hrest with ⟨f, s₂, he', hdata', hf⟩ | ⟨he', hstuck⟩
    · refine .inl ⟨f ∘ instead q, s₂, Work.exec_bind_of_ok he' _, ?_, fun r hr => ?_⟩
      · rw [hdata', hdata]
        exact congrArg (Memory.mk _ _) List.map_map
      have hmem : instead q r ∈ Memory.pullRequests s₁.data :=
        hdata ▸ Memory.mem_mapPullRequests.mpr ⟨r, hr, rfl⟩
      -- the one that has been handed over is not met again
      by_cases hrp : r = p
      · subst hrp
        have hq' : instead q r = q := if_pos hqid.symm
        have hout : q ∉ rest := fun hmem' =>
          hnodup.1 (hint.eq_of_id (hps.2 q hmem') hps.1 hqid ▸ hmem')
        refine ⟨fun _ => ?_, fun hn => absurd List.mem_cons_self hn⟩
        rw [hq'] at hmem
        rw [Function.comp_apply, hq', (hf q hmem).2 hout]
        exact hq
      · have hr' : instead q r = r := if_neg fun hid : r.id = q.id =>
          hrp (hint.eq_of_id hr hps.1 (hid.trans hqid))
        rw [Function.comp_apply, hr']
        rw [hr'] at hmem
        exact ⟨fun hin => (hf r hmem).1 ((List.mem_cons.mp hin).resolve_left hrp),
          fun hout => (hf r hmem).2 fun hin => hout (List.mem_cons_of_mem p hin)⟩
    · refine .inr ⟨Work.fst_exec_bind_of_error he' _, fun {_} => ?_⟩
      obtain ⟨r, hr, hnone⟩ := hstuck
      exact ⟨r, List.mem_cons_of_mem p hr, hnone⟩

/-! ## All open reviews of a user -/

omit [Collaborators π] in
theorem awaits_of_passes (p : PullRequest) (userId : String) :
    (p.hasReviewer userId && passes (some Status.opened) p.status) = p.awaits userId :=
  Bool.and_comm ..

omit [Collaborators π] in
theorem perm_assignedTo {m : Ledger older} {user : String} {ps : List PullRequest}
    (h : Repository.assignedTo user (some .opened) m = .ok ps) :
    ps.Perm ((Memory.pullRequests m).filter (·.awaits user)) := by
  rw [assignedTo_eq, Except.ok.injEq] at h
  simp only [awaits_of_passes] at h
  rw [← h]
  exact perm_newestFirst _ _

omit [Collaborators π] in
theorem mem_assignedTo {m : Ledger older} {user : String} {ps : List PullRequest}
    (h : Repository.assignedTo user (some .opened) m = .ok ps) {p : PullRequest} :
    p ∈ ps ↔ p ∈ Memory.pullRequests m ∧ p.awaits user = true :=
  (perm_assignedTo h).mem_iff.trans List.mem_filter

omit [Collaborators π] in
theorem nodup_assignedTo {m : Ledger older} (hint : Memory.Integrity m) {user : String}
    {ps : List PullRequest} (h : Repository.assignedTo user (some .opened) m = .ok ps) :
    ps.Nodup :=
  (perm_assignedTo h).nodup_iff.mpr ((List.Nodup.of_map _ hint.ids).filter _)

/-- **The open reviews of a user** are handed over, and nothing else changes; or one of them finds
no candidate. -/
theorem reassignOpenReviews_cases {team : String} (user : User) {s : Session (Ledger older) π}
    (hint : Memory.Integrity s.data) {pool : List User}
    (hpool : Repository.activeMembers team [user.id] s.data = .ok pool) :
    (∃ f s', (Service.reassignOpenReviews team user).exec s =
        (.ok ((Memory.pullRequests s.data).countP (·.awaits user.id)), s') ∧
      s'.data = Memory.mapPullRequests s.data f ∧
      ∀ p ∈ Memory.pullRequests s.data,
        (p.awaits user.id = true → p.HandOver [user.id] pool (f p)) ∧
          (¬ p.awaits user.id = true → f p = p)) ∨
    ((Service.reassignOpenReviews team user).exec s).1 = .error .noCandidate ∧
      (∀ [Collaborators.Lawful π], ∃ p ∈ Memory.pullRequests s.data, p.awaits user.id = true ∧
        ∀ v ∈ pool, ¬ p.canTake v = true) := by
  obtain ⟨ps, hps⟩ : ∃ ps, Repository.assignedTo user.id (some .opened) s.data = .ok ps := ⟨_, rfl⟩
  have hmem : ∀ p, p ∈ ps ↔ p ∈ Memory.pullRequests s.data ∧ p.awaits user.id = true := fun p =>
    mem_assignedTo hps
  have hlen : ps.length = (Memory.pullRequests s.data).countP (·.awaits user.id) := by
    rw [(perm_assignedTo hps).length_eq, List.countP_eq_length_filter]
  rw [Service.exec_reassignOpenReviews hps hpool, ← hlen]
  rcases handOverAll_cases (nodup_assignedTo hint hps)
    (fun p hp => (PullRequest.awaits_iff.mp ((hmem p).mp hp).2).2) hint
    (known_of_activeMembers hpool) fun p hp => ((hmem p).mp hp).1 with
    ⟨f, s', he, hdata, hf⟩ | ⟨he, hstuck⟩
  · exact .inl ⟨f, s', he, hdata, fun p hp => ⟨fun ha => (hf p hp).1 ((hmem p).mpr ⟨hp, ha⟩),
      fun hn => (hf p hp).2 fun hin => hn ((hmem p).mp hin).2⟩⟩
  · refine .inr ⟨he, fun {_} => ?_⟩
    obtain ⟨p, hp, hnone⟩ := hstuck
    exact ⟨p, ((hmem p).mp hp).1, ((hmem p).mp hp).2, hnone⟩

end Ledger

end ReviewRota
