import ReviewRota.Memory.Store
import ReviewRota.Proofs.Keeping
import ReviewRota.Proofs.Sorting

/-!
# Ledgers

Stores differ in how they hold records and in the order of time by which they list them. A ledger
has the records of the in-memory store and any order of time, so that every store can be compared
with the ledger of its order.

* `Ledger older`: records listed by `older`; the in-memory store is the ledger of `Instant.le`.
* `Ledger.usersByIds_eq`, `Ledger.activeMembers_eq`, …: the operations in terms of the records.
* `filter_oldestFirst`, `filter_newestFirst`: what is filtered after listing is listed after
  filtering; `Ledger.activeMembers_of_snapshot`: active members as they are listed.
* `Ledger.mem_of_user`, `Ledger.mem_activeMembers`, …: what is read is stored.
-/

namespace ReviewRota

/-- Records listed by the order of time `older`. -/
def Ledger (_older : Instant → Instant → Bool) : Type :=
  Memory

instance (older : Instant → Instant → Bool) : Repository (Ledger older) :=
  Memory.repository older

/-- Records as a ledger. -/
@[reducible]
def Ledger.of (older : Instant → Instant → Bool) (m : Memory) : Ledger older :=
  m

theorem perm_newestFirst (older : Instant → Instant → Bool) (l : List PullRequest) :
    (Memory.newestFirst older l).Perm l :=
  (perm_sortBy _ _).trans (List.reverse_perm l)

theorem mem_oldestFirst {α : Type} {older : Instant → Instant → Bool} {time : α → Instant}
    {l : List α} {a : α} : a ∈ Memory.oldestFirst older time l ↔ a ∈ l :=
  mem_sortBy

theorem mem_newestFirst {older : Instant → Instant → Bool} {l : List PullRequest}
    {p : PullRequest} : p ∈ Memory.newestFirst older l ↔ p ∈ l :=
  mem_sortBy.trans List.mem_reverse

theorem filter_oldestFirst {α : Type} {older : Instant → Instant → Bool} (h : IsPreorder older)
    (time : α → Instant) (p : α → Bool) (l : List α) :
    (Memory.oldestFirst older time l).filter p = Memory.oldestFirst older time (l.filter p) :=
  filter_sortBy (h.comap time) p l

theorem filter_newestFirst {older : Instant → Instant → Bool} (h : IsPreorder older)
    (p : PullRequest → Bool) (l : List PullRequest) :
    (Memory.newestFirst older l).filter p = Memory.newestFirst older (l.filter p) := by
  rw [Memory.newestFirst, Memory.newestFirst, ← List.filter_reverse]
  exact filter_sortBy (h.swap.comap PullRequest.createdAt) p l.reverse

theorem orNotFound_eq_ok {α : Type} {o : Option α} {a : α} : orNotFound o = .ok a ↔ o = some a := by
  cases o <;> simp [orNotFound]

theorem orNotFound_eq_error {α : Type} {o : Option α} :
    orNotFound o = .error .notFound ↔ o = none := by
  cases o <;> simp [orNotFound]

theorem orNotFound_inj {α : Type} {o o' : Option α} : orNotFound o = orNotFound o' ↔ o = o' := by
  cases o <;> cases o' <;> simp [orNotFound]

namespace Memory

variable {m : Memory}

theorem mem_of_findUser {id : String} {u : User} (h : m.findUser id = some u) :
    u ∈ m.users ∧ u.id = id :=
  ⟨List.mem_of_find?_eq_some h, by simpa using List.find?_some h⟩

theorem isSome_findUser {id : String} :
    (m.findUser id).isSome ↔ ∃ u ∈ m.users, u.id = id := by
  simp [findUser]

theorem isSome_findTeam {id : String} :
    (m.findTeam id).isSome ↔ ∃ t ∈ m.teams, t.id = id := by
  simp [findTeam]

theorem mem_of_findPullRequest {id : String} {p : PullRequest}
    (h : m.findPullRequest id = some p) : p ∈ m.pullRequests ∧ p.id = id :=
  ⟨List.mem_of_find?_eq_some h, by simpa using List.find?_some h⟩

theorem isSome_findPullRequest {id : String} :
    (m.findPullRequest id).isSome ↔ ∃ p ∈ m.pullRequests, p.id = id := by
  simp [findPullRequest]

theorem not_isNone_findTeam {id : String} :
    ¬ (m.findTeam id).isNone = true ↔ ∃ t ∈ m.teams, t.id = id := by
  rw [Bool.not_eq_true, Option.isNone_eq_false_iff, isSome_findTeam]

theorem not_isNone_findUser {id : String} :
    ¬ (m.findUser id).isNone = true ↔ ∃ u ∈ m.users, u.id = id := by
  rw [Bool.not_eq_true, Option.isNone_eq_false_iff, isSome_findUser]

theorem not_isNone_findPullRequest {id : String} :
    ¬ (m.findPullRequest id).isNone = true ↔ ∃ p ∈ m.pullRequests, p.id = id := by
  rw [Bool.not_eq_true, Option.isNone_eq_false_iff, isSome_findPullRequest]

end Memory

namespace Ledger

variable {older : Instant → Instant → Bool} {m : Ledger older}

/-! ## Reading -/

theorem usersByIds_eq (ids : List String) :
    Repository.usersByIds ids m =
      .ok (Memory.oldestFirst older User.createdAt (m.users.filter (ids.contains ·.id))) :=
  rfl

theorem activeMembers_eq (team : String) (except : List String) :
    Repository.activeMembers team except m =
      .ok (Memory.oldestFirst older User.createdAt
        (m.users.filter fun u => u.teamId == team && u.isActive && !except.contains u.id)) :=
  rfl

theorem assignedTo_eq (user : String) (status : Option Status) :
    Repository.assignedTo user status m =
      .ok (Memory.newestFirst older
        (m.pullRequests.filter fun p => p.hasReviewer user && passes status p.status)) :=
  rfl

theorem snapshot_eq :
    Repository.snapshot m = .ok
      ⟨Memory.oldestFirst older Team.createdAt m.teams,
        Memory.oldestFirst older User.createdAt m.users,
        Memory.newestFirst older m.pullRequests⟩ := by
  have hall : ∀ {α : Type} (l : List α), (l.filter fun _ => true) = l := fun l =>
    List.filter_eq_self.mpr fun _ _ => rfl
  change Except.ok (Snapshot.mk _
    (Memory.oldestFirst older User.createdAt (m.users.filter fun _ => true))
    (Memory.newestFirst older (m.pullRequests.filter fun _ => true))) = _
  rw [hall, hall]

theorem perm_of_snapshot {snapshot : Snapshot} (h : Repository.snapshot m = .ok snapshot) :
    snapshot.teams.Perm (Memory.teams m) ∧ snapshot.users.Perm (Memory.users m) ∧
      snapshot.pullRequests.Perm (Memory.pullRequests m) := by
  rw [← Except.ok.inj (snapshot_eq.symm.trans h)]
  exact ⟨perm_sortBy _ _, perm_sortBy _ _, perm_newestFirst _ _⟩

theorem activeMembers_of_snapshot (hpre : IsPreorder older) {snapshot : Snapshot}
    (h : Repository.snapshot m = .ok snapshot) (team : String) (except : List String) :
    Repository.activeMembers team except m = .ok (snapshot.users.filter fun u =>
      u.teamId == team && u.isActive && !except.contains u.id) := by
  rw [snapshot_eq, Except.ok.injEq] at h
  rw [activeMembers_eq, ← h, filter_oldestFirst hpre]

theorem mem_of_user {id : String} {u : User} (h : Repository.user id m = .ok u) :
    u ∈ m.users ∧ u.id = id :=
  Memory.mem_of_findUser (orNotFound_eq_ok.mp h)

theorem mem_of_pullRequest {lock : Bool} {id : String} {p : PullRequest}
    (h : Repository.pullRequest lock id m = .ok p) : p ∈ m.pullRequests ∧ p.id = id :=
  Memory.mem_of_findPullRequest (orNotFound_eq_ok.mp h)

theorem mem_activeMembers {team : String} {except : List String} {pool : List User}
    (h : Repository.activeMembers team except m = .ok pool) {u : User} :
    u ∈ pool ↔ u ∈ m.users ∧ u.teamId = team ∧ u.isActive = true ∧ u.id ∉ except := by
  rw [activeMembers_eq, Except.ok.injEq] at h
  rw [← h, mem_oldestFirst]
  simp [and_assoc]

theorem known_of_activeMembers {team : String} {except : List String} {pool : List User}
    (h : Repository.activeMembers team except m = .ok pool) :
    ∀ v ∈ pool, ∃ u ∈ m.users, u.id = v.id :=
  fun v hv => ⟨v, ((mem_activeMembers h).mp hv).1, rfl⟩

theorem mem_assignedTo_opened {user : String} {ps : List PullRequest}
    (h : Repository.assignedTo user (some .opened) m = .ok ps) {p : PullRequest} :
    p ∈ ps ↔ p ∈ m.pullRequests ∧ p.hasReviewer user = true ∧ p.status = .opened := by
  rw [assignedTo_eq, Except.ok.injEq] at h
  rw [← h, mem_newestFirst]
  simp [passes]

/-! ## Changes of pull requests -/

theorem isSome_findPullRequest_setReviewers {id other : String} (slots : List ReviewerSlot)
    (h : (m.findPullRequest other).isSome) :
    ((Repository.setReviewers id slots m).2.findPullRequest other).isSome := by
  obtain ⟨p, hp, hid⟩ := Memory.isSome_findPullRequest.mp h
  change ((Memory.setReviewers m id slots).2.findPullRequest other).isSome
  unfold Memory.setReviewers Memory.changePullRequest
  split
  · exact h
  split
  · exact h
  · rw [Memory.isSome_findPullRequest]
    refine ⟨if p.id = id then { p with reviewers := Memory.sortSlots slots } else p,
      List.mem_map.mpr ⟨p, hp, rfl⟩, ?_⟩
    split <;> exact hid

end Ledger

end ReviewRota
