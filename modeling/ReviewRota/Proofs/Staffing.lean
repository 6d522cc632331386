import ReviewRota.Proofs.Integrity
import ReviewRota.Proofs.Selection

/-!
# New pull requests and their reviewers

* `PullRequest.Staffed`: a pull request that has just been opened, under review by users who are
  eligible.
* `Ledger.fits_chosen`: whoever has been chosen from a pool fits on a new pull request.
* `Service.exec_createPullRequestIn`: what a creation does once its reviewers are chosen;
  `Service.exec_createPullRequestIn_eq_ok`: what it has done if it succeeds.
* **`Ledger.createPullRequestIn_cases`**: a creation for a known author is refused for its id, or it
  staffs the pull request and adds it to the records.
-/

namespace ReviewRota

open scoped List

/-- A pull request that has just been opened. Its reviewers are eligible users, each once: as many
as there may be, or all of them in their order. They sit in slots numbered from 1, since the time at
which the pull request was opened. -/
structure PullRequest.Staffed (p : PullRequest) (max : Nat) (eligible : List User) : Prop where
  opened : p.status = .opened
  unmerged : p.mergedAt = none
  chosen : p.reviewerIds ⊆ eligible.map User.id
  distinct : p.reviewerIds.Nodup
  complete : eligible.length ≤ max → p.reviewerIds = eligible.map User.id
  numbers : p.reviewers.map (·.number.toNat) = List.range' 1 (min max eligible.length)
  own : ∀ slot ∈ p.reviewers, slot.pullRequestId = p.id
  assigned : ∀ slot ∈ p.reviewers, slot.assignedAt = p.createdAt

theorem PullRequest.staffed_numberedSlots {m : Memory} {id : String} {time : Instant}
    {chosen eligible : List User} {max : Nat}
    (hfits : m.Fits id (Service.numberedSlots id time chosen)) (hsub : chosen ⊆ eligible)
    (hall : eligible.length ≤ max → chosen = eligible)
    (hcount : chosen.length = min max eligible.length) (title authorId : String) :
    PullRequest.Staffed ⟨id, title, authorId, .opened, time, none,
      Service.numberedSlots id time chosen⟩ max eligible := by
  have hids : (Service.numberedSlots id time chosen).map ReviewerSlot.userId =
      chosen.map User.id := map_userId_numberedSlots id time chosen
  constructor
  case opened => rfl
  case unmerged => rfl
  case chosen =>
    rw [PullRequest.reviewerIds, hids]
    exact List.map_subset _ hsub
  case distinct => exact hfits.users
  case complete => exact fun hle => hids.trans (congrArg _ (hall hle))
  case numbers =>
    have hlen : (Service.numberedSlots id time chosen).length = min max eligible.length :=
      List.length_mapIdx.trans hcount
    exact hlen ▸ hfits.dense_numberedSlots
  case own => exact hfits.own
  case assigned =>
    intro slot hslot
    obtain ⟨i, hi, rfl⟩ := List.mem_mapIdx.mp hslot
    rfl

theorem Service.exec_createPullRequestIn {σ π : Type} [Repository σ] [Collaborators π]
    {s s₁ : Session σ π} {settings : AssignmentSettings} {authorId : String} {author : User}
    {pool chosen : List User} (hauthor : Repository.user authorId s.data = .ok author)
    (hpool : Repository.activeMembers author.teamId [author.id] s.data = .ok pool)
    (hchosen : (Selection.initial pool settings.maxReviewers).exec s = (.ok chosen, s₁))
    (id title : String) :
    (Service.createPullRequestIn settings id title authorId).exec s =
      (do
        let time ← Work.now
        let p : PullRequest :=
          ⟨id, title, author.id, .opened, time, none, Service.numberedSlots id time chosen⟩
        Work.write (Repository.createPullRequest p)
        pure p : Work σ π PullRequest).exec s₁ := by
  unfold Service.createPullRequestIn
  rw [Work.exec_bind_of_ok (by rw [Work.exec_read, hauthor]),
    Work.exec_bind_of_ok (by rw [Work.exec_read, hpool]), Work.exec_bind_of_ok hchosen]

theorem Service.exec_createPullRequestIn_eq_ok {σ π : Type} [Repository σ] [Collaborators π]
    {s s' : Session σ π} {settings : AssignmentSettings} {id title authorId : String}
    {p : PullRequest}
    (he : (Service.createPullRequestIn settings id title authorId).exec s = (.ok p, s')) :
    ∃ author pool chosen s₁ time, Repository.user authorId s.data = .ok author ∧
      Repository.activeMembers author.teamId [author.id] s.data = .ok pool ∧
      (Selection.initial pool settings.maxReviewers).exec s = (.ok chosen, s₁) ∧
      p = ⟨id, title, author.id, .opened, time, none, Service.numberedSlots id time chosen⟩ ∧
      Repository.createPullRequest p s₁.data = (.ok (), s'.data) := by
  have hbody := he
  unfold Service.createPullRequestIn at he
  obtain ⟨author, hauthor, he⟩ := Work.read_bind_eq_ok.mp he
  obtain ⟨pool, hpool, he⟩ := Work.read_bind_eq_ok.mp he
  obtain ⟨chosen, s₁, hchosen, -⟩ := Work.exec_bind_eq_ok.mp he
  rw [exec_createPullRequestIn hauthor hpool hchosen, Work.exec_bind_of_ok (Work.exec_now s₁)]
    at hbody
  obtain ⟨_, hw, hdone⟩ := Work.write_bind_eq_ok.mp hbody
  cases hdone
  exact ⟨author, pool, chosen, s₁, _, hauthor, hpool, hchosen, rfl, Prod.ext hw rfl⟩

namespace Ledger

variable {older : Instant → Instant → Bool}

theorem fits_chosen {m : Ledger older} (hint : Memory.Integrity m) {team : String}
    {except : List String} {pool chosen : List User}
    (hpool : Repository.activeMembers team except m = .ok pool) (hsub : chosen <+~ pool)
    (hlen : chosen.length < 4294967296) (id : String) (time : Instant) :
    Memory.Fits m id (Service.numberedSlots id time chosen) := by
  refine Memory.fits_numberedSlots hlen (fun v hv => ?known) ?distinct
  case known => exact ((mem_activeMembers hpool).mp (hsub.subset hv)).1
  case distinct =>
    obtain ⟨l, hperm, hl⟩ := hsub
    exact (hperm.map User.id).nodup_iff.mp ((nodup_activeMembers hint hpool).sublist (hl.map _))

/-- **A creation for a known author** is refused if the id is taken. If it is not, the pull request
is staffed from the pool, at the one time that is read from the clock, and added to the records. -/
theorem createPullRequestIn_cases {π : Type} [Collaborators π] [Collaborators.Lawful π]
    {settings : AssignmentSettings} (hmax : settings.maxReviewers < 4294967296)
    {s : Session (Ledger older) π} (hint : Memory.Integrity s.data) {author : User}
    (hauthor : author ∈ Memory.users s.data) {pool : List User}
    (hpool : Repository.activeMembers author.teamId [author.id] s.data = .ok pool)
    (id title : String) :
    ((∃ p ∈ Memory.pullRequests s.data, p.id = id) ∧
        ((Service.createPullRequestIn settings id title author.id).exec s).1 =
          .error .alreadyExists) ∨
      (∀ p ∈ Memory.pullRequests s.data, p.id ≠ id) ∧ ∃ p s',
        (Service.createPullRequestIn settings id title author.id).exec s = (.ok p, s') ∧
          (p.id = id ∧ p.title = title ∧ p.authorId = author.id) ∧
          p.Staffed settings.maxReviewers pool ∧
          s'.data = Memory.mk (Memory.teams s.data) (Memory.users s.data)
            (Memory.pullRequests s.data ++ [p]) ∧
          s'.readings = s.readings ++ [p.createdAt] := by
  obtain ⟨chosen, s₁, hchosen, ⟨hdata, hreadings⟩, hsub, hall, hcount⟩ :=
    Selection.exec_initial pool settings.maxReviewers s
  let time := (Collaborators.now s₁.collaborators).1
  let s₂ : Session (Ledger older) π := { s₁ with
    collaborators := (Collaborators.now s₁.collaborators).2
    readings := s₁.readings ++ [time] }
  let p : PullRequest :=
    ⟨id, title, author.id, .opened, time, none, Service.numberedSlots id time chosen⟩
  have hexec : (Service.createPullRequestIn settings id title author.id).exec s =
      (Work.write (Repository.createPullRequest p) >>= fun _ => pure p).exec s₂ := by
    rw [Service.exec_createPullRequestIn ((user_iff hint).mpr ⟨hauthor, rfl⟩) hpool hchosen,
      Work.exec_bind_of_ok (Work.exec_now s₁)]
  -- the slots fit, so that only the id is left for the store to refuse
  have hlen : chosen.length < 4294967296 := by
    rw [hcount]
    exact Nat.lt_of_le_of_lt (Nat.min_le_left _ _) hmax
  have hfits : Memory.Fits s.data id p.reviewers := fits_chosen hint hpool hsub hlen id time
  have hsorted : { p with reviewers := Memory.sortSlots p.reviewers } = p :=
    congrArg (fun slots => { p with reviewers := slots }) hfits.dense_numberedSlots.sortSlots_eq
  have hwrite : (Work.write (Repository.createPullRequest p)).exec s₂ =
      ((Memory.createPullRequest s₁.data p).1,
        { s₂ with data := (Memory.createPullRequest s₁.data p).2 }) := rfl
  rw [hdata, Memory.createPullRequest_eq ⟨author, hauthor, rfl⟩,
    if_pos (Memory.acceptsSlots_iff.mpr hfits), hsorted] at hwrite
  by_cases htaken : (Memory.findPullRequest s.data id).isSome = true
  · refine .inl ⟨Memory.isSome_findPullRequest.mp htaken, ?_⟩
    rw [if_pos htaken] at hwrite
    rw [hexec, Work.exec_bind_of_error hwrite]
  · refine .inr ⟨fun q hq he => htaken (Memory.isSome_findPullRequest.mpr ⟨q, hq, he⟩), ?_⟩
    rw [if_neg htaken] at hwrite
    refine ⟨p, _, hexec.trans (Work.exec_bind_of_ok hwrite _), ⟨rfl, rfl, rfl⟩, ?staffed, rfl,
      ?read⟩
    case staffed =>
      exact PullRequest.staffed_numberedSlots hfits hsub.subset hall hcount title author.id
    case read => exact congrArg (· ++ [time]) hreadings

end Ledger

end ReviewRota
