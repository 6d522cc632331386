import Mathlib.Algebra.BigOperators.Group.List.Basic
import Mathlib.Algebra.Order.Ring.Nat
import ReviewRota.Proofs.Execution
import ReviewRota.Proofs.Stores

/-!
# Load reports

The report of loads counts reviews by user, the report of reviewers by pull request, and the lists
of assigned pull requests tell the same reviews one by one. All of them agree.

* `sum_countP_comm`: counting pairs by one side or by the other.
* `Memory.sum_total_eq`: both reports count every review once.
* `StoreKind.Sound.exists_userLoads`, `StoreKind.Sound.exists_reviewerCounts`: each report, of which
  that of a team is a part.
* **`reports_agree`**: the reports, the lists of assigned pull requests and each other.
-/

namespace ReviewRota

/-! ## Counting pairs -/

theorem countP_eq_sum {α : Type} (p : α → Bool) (l : List α) :
    l.countP p = (l.map fun a => if p a then 1 else 0).sum := by
  induction l with
  | nil => rfl
  | cons a l ih => rw [List.countP_cons, List.map_cons, List.sum_cons, ih, Nat.add_comm]

/-- **Pairs are counted by one side as by the other.** -/
theorem sum_countP_comm {α β : Type} (r : α → β → Bool) (as : List α) (bs : List β) :
    (as.map fun a => bs.countP (r a)).sum = (bs.map fun b => as.countP (r · b)).sum := by
  induction as with
  | nil => simp
  | cons a as ih =>
    simp only [List.map_cons, List.sum_cons, List.countP_cons, List.sum_map_add]
    rw [ih, countP_eq_sum, Nat.add_comm]

/-! ## Entries by key -/

section

variable {α β : Type}

/-- One entry for each record, in the order of their keys. -/
def entries (key : β → String) (entry : α → β) (records : List α) : List β :=
  sortBy (fun a b => key a ≤ key b) (records.map entry)

variable {key : β → String} {entry : α → β} {records : List α}

theorem perm_entries : (entries key entry records).Perm (records.map entry) :=
  perm_sortBy _ _

theorem pairwise_entries (h : (records.map fun a => key (entry a)).Nodup) :
    ((entries key entry records).map key).Pairwise (· < ·) := by
  have hnodup : ((entries key entry records).map key).Nodup := by
    rw [(perm_entries.map key).nodup_iff, List.map_map]
    exact h
  exact List.pairwise_map.mpr ((pairwise_sortBy (isPreorder_key key) _).imp₂
    (fun _ _ hle hne => lt_of_le_of_ne (of_decide_eq_true hle) hne) (List.pairwise_map.mp hnodup))

theorem entries_filter {keep : α → Bool} {keep' : β → Bool}
    (h : ∀ a ∈ records, keep' (entry a) = keep a) :
    entries key entry (records.filter keep) = (entries key entry records).filter keep' := by
  rw [entries, entries, filter_sortBy (isPreorder_key key), List.filter_map]
  exact congrArg (fun l => sortBy _ (l.map entry)) (List.filter_congr fun a ha => (h a ha).symm)

end

/-! ## Reviews -/

namespace Memory

variable {m : Memory}

theorem countP_hasReviewer (h : m.Integrity) {p : PullRequest} (hp : p ∈ m.pullRequests) :
    m.users.countP (p.hasReviewer ·.id) = p.reviewers.length := by
  have hfits := h.slots p hp
  have hperm : ((m.users.filter (p.hasReviewer ·.id)).map User.id).Perm p.reviewerIds := by
    refine (List.perm_ext_iff_of_nodup (h.userIds.sublist (List.filter_sublist.map _))
      hfits.users).mpr fun id => ?_
    rw [List.mem_map]
    simp only [List.mem_filter, PullRequest.hasReviewer_iff]
    constructor
    · rintro ⟨u, ⟨-, hu⟩, rfl⟩
      exact hu
    · intro hid
      obtain ⟨slot, hslot, rfl⟩ := List.mem_map.mp hid
      obtain ⟨u, hu, he⟩ := hfits.known slot hslot
      exact ⟨u, ⟨hu, he ▸ hid⟩, he⟩
  rw [List.countP_eq_length_filter, ← List.length_map User.id, hperm.length_eq,
    PullRequest.reviewerIds, List.length_map]

/-- **Loads and reviewer counts have the same sum.** -/
theorem sum_total_eq (h : m.Integrity) :
    (m.users.map fun u => (m.userLoad u).total).sum =
      (m.pullRequests.map fun p => p.reviewers.length).sum := by
  have htotal : ∀ u ∈ m.users,
      (m.userLoad u).total = m.pullRequests.countP (·.hasReviewer u.id) := fun u _ =>
    List.countP_eq_length_filter.symm
  rw [List.map_congr_left htotal,
    sum_countP_comm (fun (u : User) (p : PullRequest) => p.hasReviewer u.id)]
  exact congrArg List.sum (List.map_congr_left fun p hp => countP_hasReviewer h hp)

theorem total_eq_add (u : User) :
    (m.userLoad u).total = (m.userLoad u).opened + (m.userLoad u).merged := by
  have hmerged : (fun p : PullRequest => p.status == .merged) = fun p => !(p.status == .opened) :=
    funext fun p => by cases p.status <;> rfl
  rw [userLoad, hmerged]
  exact List.length_eq_length_filter_add _

end Memory

/-! ## Reports -/

/-- Whether the user with this id is of a team. -/
def Repository.isMember {σ : Type} [Repository σ] (d : σ) (team id : String) : Bool :=
  match Repository.user id d with
  | .ok u => u.teamId == team
  | .error _ => false

/-- Whether the author of the pull request with this id is of a team. -/
def Repository.isAuthored {σ : Type} [Repository σ] (d : σ) (team id : String) : Bool :=
  match Repository.pullRequest false id d with
  | .ok p => Repository.isMember d team p.authorId
  | .error _ => false

namespace Ledger

variable {older : Instant → Instant → Bool} {m : Ledger older}

theorem userLoads_eq (team : Option String) :
    Repository.userLoads team m =
      .ok (entries UserLoad.userId m.userLoad (m.users.filter fun u => passes team u.teamId)) :=
  rfl

theorem reviewerCounts_eq (team : Option String) :
    Repository.reviewerCounts team m =
      .ok (entries ReviewerCount.pullRequestId (fun p => ⟨p.id, p.reviewers.length⟩)
        (m.pullRequests.filter (m.authorPasses team))) :=
  rfl

theorem length_assignedTo (user : String) (status : Option Status) :
    ∃ ps, Repository.assignedTo user status m = .ok ps ∧
      ps.length = ((Memory.pullRequests m).filter (·.hasReviewer user)).countP
        fun p => passes status p.status := by
  refine ⟨_, assignedTo_eq user status, ?_⟩
  rw [(perm_newestFirst _ _).length_eq, List.countP_eq_length_filter, List.filter_filter]
  exact congrArg (fun keep => (List.filter keep (Memory.pullRequests m)).length)
    (funext fun p => Bool.and_comm ..)

end Ledger

/-- A load counts the pull requests listed as assigned: all, the open and the merged ones. -/
def UserLoad.Tells {σ : Type} [Repository σ] (load : UserLoad) (d : σ) : Prop :=
  ∃ all opened merged,
    Repository.assignedTo load.userId none d = .ok all ∧
    Repository.assignedTo load.userId (some .opened) d = .ok opened ∧
    Repository.assignedTo load.userId (some .merged) d = .ok merged ∧
    load = ⟨load.userId, all.length, opened.length, merged.length⟩

namespace StoreKind.Sound

variable {kind : StoreKind} {d : kind.Data} (h : kind.Sound d)
include h

theorem isMember_eq {u : User} (hu : u ∈ Memory.users (kind.ledger d)) (team : String) :
    Repository.isMember d team u.id = (u.teamId == team) := by
  rw [Repository.isMember, h.user_iff.mpr ⟨hu, rfl⟩]

theorem isAuthored_eq {p : PullRequest} (hp : p ∈ Memory.pullRequests (kind.ledger d))
    (team : String) :
    Repository.isAuthored d team p.id = Memory.authorPasses (kind.ledger d) (some team) p := by
  obtain ⟨author, hauthor, he⟩ := h.integrity.authors p hp
  have hfind : Memory.findUser (kind.ledger d) p.authorId = some author :=
    (find?_key_eq_some_iff h.integrity.userIds).mpr ⟨hauthor, he⟩
  have hpasses : Memory.authorPasses (kind.ledger d) (some team) p = (author.teamId == team) := by
    unfold Memory.authorPasses
    rw [hfind]
    rfl
  rw [Repository.isAuthored, h.pullRequest_iff.mpr ⟨hp, rfl⟩, hpasses, ← h.isMember_eq hauthor, he]

/-- **The loads**: each user once, by id, and the loads of a team as a part of them. -/
theorem exists_userLoads :
    ∃ loads, Repository.userLoads none d = .ok loads ∧
      loads.Perm ((Memory.users (kind.ledger d)).map (Memory.userLoad (kind.ledger d))) ∧
      (loads.map UserLoad.userId).Pairwise (· < ·) ∧
      ∀ team, Repository.userLoads (some team) d =
        .ok (loads.filter fun load => Repository.isMember d team load.userId) := by
  refine ⟨entries UserLoad.userId (Memory.userLoad (kind.ledger d))
    (Memory.users (kind.ledger d)), ?_, perm_entries, pairwise_entries h.integrity.userIds,
    fun team => ?_⟩
  · rw [kind.mirrored.userLoads h.holds, Ledger.userLoads_eq]
    exact congrArg (fun l => Except.ok (entries _ _ l)) (List.filter_eq_self.mpr fun _ _ => rfl)
  · rw [kind.mirrored.userLoads h.holds, Ledger.userLoads_eq]
    exact congrArg Except.ok (entries_filter fun u hu => h.isMember_eq hu team)

/-- **The reviewer counts**: each pull request once, by id, and those of an author team as a part
of them. -/
theorem exists_reviewerCounts :
    ∃ counts, Repository.reviewerCounts none d = .ok counts ∧
      counts.Perm ((Memory.pullRequests (kind.ledger d)).map
        fun p => ⟨p.id, p.reviewers.length⟩) ∧
      (counts.map ReviewerCount.pullRequestId).Pairwise (· < ·) ∧
      ∀ team, Repository.reviewerCounts (some team) d =
        .ok (counts.filter fun count => Repository.isAuthored d team count.pullRequestId) := by
  refine ⟨entries ReviewerCount.pullRequestId (fun p => ⟨p.id, p.reviewers.length⟩)
    (Memory.pullRequests (kind.ledger d)), ?_, perm_entries, pairwise_entries h.integrity.ids,
    fun team => ?_⟩
  · rw [kind.mirrored.reviewerCounts h.holds, Ledger.reviewerCounts_eq]
    exact congrArg (fun l => Except.ok (entries _ _ l)) (List.filter_eq_self.mpr fun _ _ => rfl)
  · rw [kind.mirrored.reviewerCounts h.holds, Ledger.reviewerCounts_eq]
    exact congrArg Except.ok (entries_filter fun p hp => h.isAuthored_eq hp team)

theorem tells_userLoad (u : User) : (Memory.userLoad (kind.ledger d) u).Tells d := by
  have hlist : ∀ status, ∃ ps, Repository.assignedTo u.id status d = .ok ps ∧
      ps.length = ((Memory.pullRequests (kind.ledger d)).filter (·.hasReviewer u.id)).countP
        fun p => passes status p.status := fun status => by
    rw [kind.mirrored.assignedTo h.holds]
    exact Ledger.length_assignedTo u.id status
  obtain ⟨all, hall, hlen⟩ := hlist none
  obtain ⟨opened, hopened, hlen'⟩ := hlist (some .opened)
  obtain ⟨merged, hmerged, hlen''⟩ := hlist (some .merged)
  refine ⟨all, opened, merged, hall, hopened, hmerged, ?_⟩
  refine UserLoad.mk.injEq .. |>.mpr ⟨rfl, ?_, ?_, ?_⟩
  · rw [hlen]
    exact (List.countP_eq_length.mpr fun _ _ => rfl).symm
  · rw [hlen', List.countP_eq_length_filter]
    rfl
  · rw [hlen'', List.countP_eq_length_filter]
    rfl

end StoreKind.Sound

/-! ## Services -/

section

variable {σ π α : Type}

theorem exec_transact_read (f : σ → Except Fault α) (s : Session σ π) :
    (transact (Work.read f)).exec s = (f s.data, s) := by
  rw [exec_transact, Work.exec_read]
  cases f s.data <;> rfl

theorem Service.exec_assigned [Repository σ] [Collaborators π] {s : Session σ π} {user : String}
    {u : User} (h : Repository.user user s.data = .ok u) (status : Option Status) :
    (Service.assigned user status).exec s = (Repository.assignedTo user status s.data, s) := by
  have hfound : (Work.read (Repository.user user) : Work σ π User).exec s = (.ok u, s) :=
    Prod.ext h rfl
  unfold Service.assigned
  rw [exec_transact, Work.exec_bind_of_ok hfound, Work.exec_read]
  cases Repository.assignedTo user status s.data <;> rfl

end

/-- **The reports agree with the lists and with each other.** On either store, the loads come once
for each user, in ascending order of ids, and count the pull requests assigned to that user: all of
them, the open and the merged ones, so that these two make up the first. The reviewer counts come
once for each pull request, in ascending order of ids, and count its slots. Both count the same
reviews. The reports for a team are those entries of which the user, or the author, is a member.

The relational store computes both by joins and groups, as `Keyed.userLoads_eq_joined` and
`Keyed.reviewerCounts_eq_joined` have it. -/
theorem reports_agree (kind : StoreKind) {π : Type} [Collaborators π] (s : Session kind.Data π)
    (h : kind.Sound s.data) :
    ∃ loads counts,
      (Service.userLoads none).exec s = (.ok loads, s) ∧
      (Service.reviewerCounts none).exec s = (.ok counts, s) ∧
      (loads.map UserLoad.userId).Pairwise (· < ·) ∧
      (∀ id, id ∈ loads.map UserLoad.userId ↔ ∃ u, (Service.user id).exec s = (.ok u, s)) ∧
      (∀ load ∈ loads, ∃ all opened merged,
        (Service.assigned load.userId none).exec s = (.ok all, s) ∧
        (Service.assigned load.userId (some .opened)).exec s = (.ok opened, s) ∧
        (Service.assigned load.userId (some .merged)).exec s = (.ok merged, s) ∧
        load = ⟨load.userId, all.length, opened.length, merged.length⟩ ∧
        load.total = load.opened + load.merged) ∧
      (counts.map ReviewerCount.pullRequestId).Pairwise (· < ·) ∧
      (∀ id n, ⟨id, n⟩ ∈ counts ↔
        ∃ p, (Service.pullRequest id).exec s = (.ok p, s) ∧ p.reviewers.length = n) ∧
      (loads.map UserLoad.total).sum = (counts.map ReviewerCount.count).sum ∧
      ∀ team,
        (Service.userLoads (some team)).exec s =
          (.ok (loads.filter fun load => Repository.isMember s.data team load.userId), s) ∧
        (Service.reviewerCounts (some team)).exec s =
          (.ok (counts.filter fun count =>
            Repository.isAuthored s.data team count.pullRequestId), s) := by
  obtain ⟨loads, hloads, hperm, hsorted, hteam⟩ := h.exists_userLoads
  obtain ⟨counts, hcounts, hperm', hsorted', hteam'⟩ := h.exists_reviewerCounts
  -- a report is a transaction of one reading
  have hok : ∀ {α : Type} {f : kind.Data → Except Fault α} {a : α},
      (transact (Work.read f)).exec s = (.ok a, s) ↔ f s.data = .ok a := fun {α f a} => by
    rw [exec_transact_read, Prod.mk.injEq]
    exact and_iff_left rfl
  refine ⟨loads, counts, hok.mpr hloads, hok.mpr hcounts, hsorted, fun id => ?users, ?loads,
    hsorted', fun id n => ?counts, ?sum, fun team => ⟨hok.mpr (hteam team), hok.mpr (hteam' team)⟩⟩
  case users =>
    rw [(hperm.map _).mem_iff, List.map_map, List.mem_map]
    refine exists_congr fun u => ?_
    rw [Service.user, hok, h.user_iff]
    rfl
  case loads =>
    intro load hload
    obtain ⟨u, hu, rfl⟩ := List.mem_map.mp (hperm.mem_iff.mp hload)
    obtain ⟨all, opened, merged, hall, hopened, hmerged, he⟩ := h.tells_userLoad u
    have hread := Service.exec_assigned (s := s) (h.user_iff.mpr ⟨hu, rfl⟩)
    refine ⟨all, opened, merged, ?_, ?_, ?_, he, Memory.total_eq_add u⟩
    · exact (hread none).trans (Prod.ext hall rfl)
    · exact (hread (some .opened)).trans (Prod.ext hopened rfl)
    · exact (hread (some .merged)).trans (Prod.ext hmerged rfl)
  case counts =>
    rw [hperm'.mem_iff, List.mem_map]
    refine exists_congr fun p => ?_
    rw [Service.pullRequest, hok, h.pullRequest_iff, ReviewerCount.mk.injEq, and_assoc]
  case sum =>
    rw [(hperm.map _).sum_eq, (hperm'.map _).sum_eq, List.map_map, List.map_map]
    exact Memory.sum_total_eq h.integrity

/-- In the tables of the small team, the one review is the load of the second member. -/
theorem reports_agree_smallTeam :
    (Service.userLoads none).exec (smallRun .relational) =
        (.ok [⟨"a", 0, 0, 0⟩, ⟨"b", 1, 1, 0⟩, ⟨"c", 0, 0, 0⟩], smallRun .relational) ∧
      ∃ all, (Service.assigned "b" none).exec (smallRun .relational) =
        (.ok all, smallRun .relational) ∧ all.length = 1 := by
  obtain ⟨loads, counts, hloads, -, -, -, hassigned, -⟩ :=
    reports_agree .relational (smallRun .relational) (sound_smallRun .relational)
  have hsmall : Repository.userLoads none (smallRun .relational).data =
      .ok [⟨"a", 0, 0, 0⟩, ⟨"b", 1, 1, 0⟩, ⟨"c", 0, 0, 0⟩] := by
    decide +kernel
  have hread : (Service.userLoads none).exec (smallRun .relational) = (_, _) :=
    exec_transact_read _ _
  obtain rfl : loads = _ :=
    Except.ok.inj ((congrArg Prod.fst (hloads.symm.trans hread)).trans hsmall)
  refine ⟨hloads, ?_⟩
  obtain ⟨all, opened, merged, hall, -, -, he, -⟩ := hassigned ⟨"b", 1, 1, 0⟩ (by decide)
  exact ⟨all, hall, (congrArg UserLoad.total he).symm⟩

end ReviewRota
