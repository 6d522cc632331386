import ReviewRota.Proofs.Stores

/-!
# Filters and order

A listing with a filter is the listing of everything with the rest left out: whether a store filters
first and sorts then, or asks for sorted rows, no filter disturbs the order. What is listed in full
are the stored records by time, and those of one time by their insertion.

* `Comes`: one record before another, by time and then by insertion.
* `StoreKind.older_eq`: both stores list plain times in the order of time.
* `StoreKind.pairwise_oldestFirst`, `StoreKind.pairwise_newestFirst`: what is sorted by time,
  stably, is in this order.
* **`listings_filtered`**: every listing is the full one, filtered; the full ones in their order.
-/

namespace ReviewRota

/-! ## Order -/

/-- Record `a` comes before record `b`: it is of an earlier time, or of the same time and stored
before it. -/
def Comes {α : Type} [DecidableEq α] (time : α → Instant) (stored : List α) (a b : α) : Prop :=
  Instant.cmp (time a) (time b) = .lt ∨
    time a = time b ∧ stored.idxOf a < stored.idxOf b

section

variable {α : Type} [DecidableEq α] {time : α → Instant} {stored : List α}

theorem Comes.of_le {a b : α} (hle : Instant.le (time a) (time b) = true)
    (hstable : Instant.le (time b) (time a) = true → stored.idxOf a < stored.idxOf b) :
    Comes time stored a b := by
  cases hcmp : Instant.cmp (time a) (time b) with
  | lt => exact .inl hcmp
  | eq =>
    have he := Instant.cmp_eq_eq_iff.mp hcmp
    exact .inr ⟨he, hstable (by rw [← he] at hle ⊢; exact hle)⟩
  | gt => exact absurd (Instant.cmp_eq_gt_iff.mp hcmp) (Instant.le_iff.mp hle)

end

namespace StoreKind

/-- Both stores list by time, the relational one as long as it is plain. -/
theorem older_eq {kind : StoreKind} {s t : Instant} (hs : kind = .relational → s.IsPlain)
    (ht : kind = .relational → t.IsPlain) : kind.older s t = Instant.le s t := by
  cases kind with
  | memory => rfl
  | relational =>
    change Instant.textLe s t = _
    rw [Bool.eq_iff_iff, ← Instant.storedText_le_iff (hs rfl) (ht rfl), Instant.textLe,
      decide_eq_true_iff]

theorem pairwise_oldestFirst (kind : StoreKind) {α : Type} [DecidableEq α] {time : α → Instant}
    {stored : List α} (hnodup : stored.Nodup)
    (hplain : kind = .relational → ∀ a ∈ stored, (time a).IsPlain) :
    (Memory.oldestFirst kind.older time stored).Pairwise (Comes time stored) := by
  refine (pairwise_sortBy_stable (kind.isPreorder_older.comap time)
    (pairwise_idxOf hnodup)).imp_of_mem fun {a b} ha hb hab => ?_
  have he : ∀ {a b}, a ∈ stored → b ∈ stored →
      kind.older (time a) (time b) = Instant.le (time a) (time b) := fun ha hb =>
    older_eq (fun hk => hplain hk _ ha) fun hk => hplain hk _ hb
  rw [mem_oldestFirst] at ha hb
  rw [he ha hb, he hb ha] at hab
  exact Comes.of_le hab.1 hab.2

theorem pairwise_newestFirst (kind : StoreKind) {stored : List PullRequest}
    (hnodup : stored.Nodup)
    (hplain : kind = .relational → ∀ p ∈ stored, p.createdAt.IsPlain) :
    (Memory.newestFirst kind.older stored).Pairwise fun p q =>
      Comes PullRequest.createdAt stored q p := by
  refine (pairwise_sortBy_stable (kind.isPreorder_older.swap.comap PullRequest.createdAt)
    (List.pairwise_reverse.mpr (pairwise_idxOf hnodup))).imp_of_mem fun {p q} hp hq hpq => ?_
  have he : ∀ {p q}, p ∈ stored → q ∈ stored →
      kind.older p.createdAt q.createdAt = Instant.le p.createdAt q.createdAt := fun hp hq =>
    older_eq (fun hk => hplain hk _ hp) fun hk => hplain hk _ hq
  rw [mem_newestFirst] at hp hq
  rw [he hp hq, he hq hp] at hpq
  exact Comes.of_le hpq.1 hpq.2

end StoreKind

/-! ## Filters -/

namespace Ledger

variable {older : Instant → Instant → Bool} {m : Ledger older}

theorem users_eq (team : Option String) (active : Option Bool) :
    Repository.users team active m =
      .ok (Memory.oldestFirst older User.createdAt
        (m.users.filter fun u => passes team u.teamId && passes active u.isActive)) :=
  rfl

theorem pullRequests_eq (status : Option Status) :
    Repository.pullRequests status m =
      .ok (Memory.newestFirst older (m.pullRequests.filter fun p => passes status p.status)) :=
  rfl

end Ledger

/-- **No filter disturbs the order of a listing.** The users that a store lists for some team, with
some active flag, by ids or as active members of a team are those of the full listing that satisfy
the condition, in the same order, and so are the pull requests of some status or with some reviewer
among all pull requests. The full listing of users are the stored users by time, then by insertion,
that of pull requests the stored ones against time, then against insertion. -/
theorem listings_filtered (kind : StoreKind) {d : kind.Data} (h : kind.Sound d) :
    ∃ users ps,
      Repository.users none none d = .ok users ∧ Repository.pullRequests none d = .ok ps ∧
      (∀ team active, Repository.users team active d =
        .ok (users.filter fun u => passes team u.teamId && passes active u.isActive)) ∧
      (∀ ids, Repository.usersByIds ids d = .ok (users.filter (ids.contains ·.id))) ∧
      (∀ team except, Repository.activeMembers team except d =
        .ok (users.filter fun u => u.teamId == team && u.isActive && !except.contains u.id)) ∧
      (∀ status, Repository.pullRequests status d =
        .ok (ps.filter fun p => passes status p.status)) ∧
      (∀ user status, Repository.assignedTo user status d =
        .ok (ps.filter fun p => p.hasReviewer user && passes status p.status)) ∧
      users.Perm (Memory.users (kind.ledger d)) ∧
      ps.Perm (Memory.pullRequests (kind.ledger d)) ∧
      ((kind = .relational → ∀ u ∈ users, u.createdAt.IsPlain) →
        users.Pairwise (Comes User.createdAt (Memory.users (kind.ledger d)))) ∧
      ((kind = .relational → ∀ p ∈ ps, p.createdAt.IsPlain) →
        ps.Pairwise fun p q =>
          Comes PullRequest.createdAt (Memory.pullRequests (kind.ledger d)) q p) := by
  have hread := kind.mirrored
  have hold := kind.isPreorder_older
  have hint := h.integrity
  -- filters go through a stable sort
  have husers : ∀ keep, (Memory.oldestFirst kind.older User.createdAt
      (Memory.users (kind.ledger d))).filter keep = Memory.oldestFirst kind.older User.createdAt
        ((Memory.users (kind.ledger d)).filter keep) := fun keep =>
    filter_oldestFirst hold User.createdAt keep _
  have hps : ∀ keep, (Memory.newestFirst kind.older (Memory.pullRequests (kind.ledger d))).filter
      keep = Memory.newestFirst kind.older ((Memory.pullRequests (kind.ledger d)).filter keep) :=
    fun keep => filter_newestFirst hold keep _
  have hbyFilter : ∀ team active, Repository.users team active d =
      .ok ((Memory.oldestFirst kind.older User.createdAt (Memory.users (kind.ledger d))).filter
        fun u => passes team u.teamId && passes active u.isActive) := fun team active => by
    rw [hread.users h.holds, Ledger.users_eq, husers]
  have hbyStatus : ∀ status, Repository.pullRequests status d =
      .ok ((Memory.newestFirst kind.older (Memory.pullRequests (kind.ledger d))).filter
        fun p => passes status p.status) := fun status => by
    rw [hread.pullRequests h.holds, Ledger.pullRequests_eq, hps]
  have hall : ∀ {α : Type} (l : List α), l.filter (fun _ => true) = l := fun l =>
    List.filter_eq_self.mpr fun _ _ => rfl
  refine ⟨Memory.oldestFirst kind.older User.createdAt (Memory.users (kind.ledger d)),
    Memory.newestFirst kind.older (Memory.pullRequests (kind.ledger d)),
    (hbyFilter none none).trans (congrArg Except.ok (hall _)),
    (hbyStatus none).trans (congrArg Except.ok (hall _)), hbyFilter, ?byIds, ?members, hbyStatus,
    ?assigned, perm_sortBy _ _, perm_newestFirst _ _, ?userOrder, ?order⟩
  case byIds =>
    intro ids
    rw [hread.usersByIds h.holds, Ledger.usersByIds_eq, husers]
  case members =>
    intro team except
    rw [hread.activeMembers h.holds, Ledger.activeMembers_eq, husers]
  case assigned =>
    intro user status
    rw [hread.assignedTo h.holds, Ledger.assignedTo_eq, hps]
  case userOrder =>
    intro hplain
    refine kind.pairwise_oldestFirst (List.Nodup.of_map _ hint.userIds) fun hk u hu => ?_
    exact hplain hk u (mem_oldestFirst.mpr hu)
  case order =>
    intro hplain
    refine kind.pairwise_newestFirst (List.Nodup.of_map _ hint.ids) fun hk p hp => ?_
    exact hplain hk p (mem_newestFirst.mpr hp)

/-- In the tables of the full team, the newcomers come first among the users and last among the pull
requests, since they are dated before. The first members have one time and keep the order in which
they are stored. -/
theorem listings_filtered_fullTeam :
    let d := (fullRun .relational).data
    let stored := Relational.Database.records d
    stored.users.map User.id = ["a", "b", "c", "d", "e", "f", "g"] ∧
      fullRecords.users.map User.id = ["d", "e", "f", "g", "a", "b", "c"] ∧
      fullRecords.users.Pairwise (Comes User.createdAt stored.users) ∧
      stored.pullRequests.map PullRequest.id = ["p", "q", "r"] ∧
      fullRecords.pullRequests.map PullRequest.id = ["p", "r", "q"] ∧
      (fullRecords.pullRequests.Pairwise fun p q =>
        Comes PullRequest.createdAt stored.pullRequests q p) ∧
      Repository.activeMembers "t" ["a", "e"] d =
        .ok (fullRecords.users.filter fun u => ["d", "f", "b", "c"].contains u.id) ∧
      Repository.assignedTo "d" (some .opened) d =
        .ok (fullRecords.pullRequests.filter (·.id == "r")) := by
  intro d stored
  obtain ⟨users, ps, husers, hps, -, -, hmembers, -, hassigned, -, -, hcomes, hcomes'⟩ :=
    listings_filtered .relational (sound_fullRun .relational)
  have husers' : Repository.users none none d = .ok fullRecords.users := by decide +kernel
  have hps' : Repository.pullRequests none d = .ok fullRecords.pullRequests := by decide +kernel
  obtain rfl := Except.ok.inj (husers.symm.trans husers')
  obtain rfl := Except.ok.inj (hps.symm.trans hps')
  exact ⟨by decide +kernel, by decide +kernel, hcomes fun _ => by decide +kernel,
    by decide +kernel, by decide +kernel, hcomes' fun _ => by decide +kernel,
    (hmembers "t" ["a", "e"]).trans (by decide +kernel),
    (hassigned "d" (some .opened)).trans (by decide +kernel)⟩

end ReviewRota
