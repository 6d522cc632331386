import ReviewRota.Proofs.Atomicity
import ReviewRota.Proofs.Staffing
import ReviewRota.Proofs.Stores

/-!
# Opening a pull request

Creations of pull requests on either store, told by what the store lists before them.

* `User.colleagues`: who can review for an author; `Ledger.activeMembers_eq_colleagues`: these are
  the pool from which the reviewers are chosen.
* `Ledger.exists_snapshot_concat`: a new pull request has one place in the listing.
* `Ledger.createPullRequest_outcome`: the three ways in which a creation can go.
* **`createPullRequest_staffs`**: when a creation is refused, and what it does if it is not.
-/

namespace ReviewRota

/-- The active members of a user's team other than the user, in the order in which users are
listed. -/
def User.colleagues (author : User) (users : List User) : List User :=
  users.filter fun u => u.teamId = author.teamId ∧ u.isActive = true ∧ u.id ≠ author.id

/-! ## Listings of a ledger -/

namespace Ledger

variable {older : Instant → Instant → Bool} {m : Ledger older} {snapshot : Snapshot}

theorem activeMembers_eq_colleagues (h : IsPreorder older)
    (hsnap : Repository.snapshot m = .ok snapshot) (author : User) :
    Repository.activeMembers author.teamId [author.id] m =
      .ok (author.colleagues snapshot.users) := by
  rw [activeMembers_of_snapshot h hsnap, User.colleagues]
  refine congrArg Except.ok (List.filter_congr fun u _ => ?_)
  rw [Bool.eq_iff_iff]
  simp [and_assoc]

theorem pairwise_users (h : IsPreorder older) (hsnap : Repository.snapshot m = .ok snapshot) :
    snapshot.users.Pairwise fun u v => older u.createdAt v.createdAt = true := by
  rw [snapshot_eq, Except.ok.injEq] at hsnap
  rw [← hsnap]
  exact pairwise_sortBy (h.comap User.createdAt) _

/-- A pull request that is added has one place in the listing, and nothing else is listed
otherwise. -/
theorem exists_snapshot_concat (hsnap : Repository.snapshot m = .ok snapshot) (p : PullRequest) :
    ∃ newer older', snapshot.pullRequests = newer ++ older' ∧
      Repository.snapshot (Ledger.of older (Memory.mk (Memory.teams m) (Memory.users m)
        (Memory.pullRequests m ++ [p]))) =
          .ok { snapshot with pullRequests := newer ++ p :: older' } := by
  rw [snapshot_eq, Except.ok.injEq] at hsnap
  obtain ⟨newer, older', hbefore, hafter⟩ :=
    insertBy_eq_append (fun a b => older b.createdAt a.createdAt) p
      (Memory.newestFirst older (Memory.pullRequests m))
  have hlisted : Memory.newestFirst older (Memory.pullRequests m ++ [p]) =
      newer ++ p :: older' := by
    rw [← hafter, Memory.newestFirst, List.reverse_append]
    rfl
  refine ⟨newer, older', ?_, ?_⟩
  · rw [← hsnap]
    exact hbefore
  · rw [snapshot_eq, ← hsnap]
    exact congrArg (fun ps => Except.ok (Snapshot.mk _ _ ps)) hlisted

end Ledger

/-! ## Creations -/

section

variable {σ π : Type} [Collaborators π] {s s₁ : Session σ π}

theorem Service.exec_createPullRequest [Repository σ] {settings : AssignmentSettings}
    {title id : String} {supplied : Option String} (htitle : Text.isBlank title = false)
    (hid : (resolveId settings.idMode supplied).exec s = (.ok id, s₁)) (authorId : String) :
    (Service.createPullRequest settings title authorId supplied).exec s =
      (transact (Service.createPullRequestIn settings id title authorId)).exec s₁ := by
  have htitle' : (Service.require (!Text.isBlank title) .invalidTitle : Work σ π Unit).exec s =
      (.ok (), s) := by
    rw [Service.exec_require, htitle]
    rfl
  rw [Service.createPullRequest, Work.exec_bind_of_ok htitle', Work.exec_bind_of_ok hid]

end

namespace Ledger

variable {older : Instant → Instant → Bool} {π : Type} [Collaborators π] [Collaborators.Lawful π]

/-- The author is looked up before the id, and the listing says how it goes on. -/
theorem createPullRequest_outcome (hpre : IsPreorder older) {settings : AssignmentSettings}
    (hmax : settings.maxReviewers < 4294967296) {s s' : Session (Ledger older) π}
    (hint : Memory.Integrity s.data) {snapshot : Snapshot}
    (hsnap : Repository.snapshot s.data = .ok snapshot) {id title authorId : String}
    {r : Except Fault PullRequest}
    (he : (transact (Service.createPullRequestIn settings id title authorId)).exec s = (r, s')) :
    (r = .error .notFound ∧ ∀ u ∈ snapshot.users, u.id ≠ authorId) ∨
      (r = .error .alreadyExists ∧ (∃ u ∈ snapshot.users, u.id = authorId) ∧
        ∃ p ∈ snapshot.pullRequests, p.id = id) ∨
      ∃ author ∈ snapshot.users, author.id = authorId ∧
        (∀ p ∈ snapshot.pullRequests, p.id ≠ id) ∧
        ∃ p newer older', r = .ok p ∧ (p.id = id ∧ p.title = title ∧ p.authorId = authorId) ∧
          p.Staffed settings.maxReviewers (author.colleagues snapshot.users) ∧
          s'.readings = s.readings ++ [p.createdAt] ∧
          snapshot.pullRequests = newer ++ older' ∧
          Repository.snapshot s'.data =
            .ok { snapshot with pullRequests := newer ++ p :: older' } := by
  obtain ⟨-, husers, hprs⟩ := perm_of_snapshot hsnap
  by_cases hknown : ∃ u ∈ Memory.users s.data, u.id = authorId
  · obtain ⟨author, hauthor, rfl⟩ := hknown
    have hpool := activeMembers_eq_colleagues hpre hsnap author
    rcases createPullRequestIn_cases hmax hint hauthor hpool id title with
      ⟨⟨q, hq, hid⟩, hrefused⟩ | ⟨hnew, p, t, hdone, hgiven, hstaffed, hdata, hreadings⟩
    · rw [exec_transact_of_error (Prod.ext hrefused rfl), Prod.mk.injEq] at he
      exact .inr (.inl ⟨he.1.symm, ⟨author, husers.mem_iff.mpr hauthor, rfl⟩, q,
        hprs.mem_iff.mpr hq, hid⟩)
    · rw [exec_transact_of_ok hdone, Prod.mk.injEq] at he
      obtain ⟨rfl, rfl⟩ := he
      obtain ⟨newer, older', hbefore, hafter⟩ := exists_snapshot_concat hsnap p
      rw [← hdata] at hafter
      exact .inr (.inr ⟨author, husers.mem_iff.mpr hauthor, rfl,
        fun q hq => hnew q (hprs.mem_iff.mp hq), p, newer, older', rfl, hgiven, hstaffed,
        hreadings, hbefore, hafter⟩)
  · have hread : Repository.user authorId s.data = .error .notFound :=
      orNotFound_eq_error.mpr
        (Option.not_isSome_iff_eq_none.mp fun h => hknown (Memory.isSome_findUser.mp h))
    have hbody : (Service.createPullRequestIn settings id title authorId).exec s =
        (.error .notFound, s) := Work.exec_bind_of_error (by rw [Work.exec_read, hread]) _
    rw [exec_transact_of_error hbody, Prod.mk.injEq] at he
    exact .inl ⟨he.1.symm, fun u hu hid => hknown ⟨u, husers.mem_iff.mp hu, hid⟩⟩

end Ledger

/-- **A creation is refused for want of the author, else for an id that is taken, and for nothing
else.** If it is not refused, one pull request more is there: opened at the one time that is read
from the clock, under review by as many of the author's colleagues as may be, or by all of them in
the order in which users are listed. Nothing else is listed otherwise, and after a refusal nothing
is. -/
theorem createPullRequest_staffs (kind : StoreKind) {π : Type} [Collaborators π]
    [Collaborators.Lawful π] {settings : AssignmentSettings}
    (hmax : settings.maxReviewers < 4294967296) {s s₁ : Session kind.Data π}
    (h : kind.Sound s.data) {title : String} (htitle : Text.isBlank title = false)
    {supplied : Option String} {id : String}
    (hid : (resolveId settings.idMode supplied).exec s = (.ok id, s₁)) (authorId : String) :
    let run := (Service.createPullRequest settings title authorId supplied).exec s
    ∃ snapshot, Repository.snapshot s.data = .ok snapshot ∧
      (snapshot.users.Pairwise fun u v => kind.older u.createdAt v.createdAt = true) ∧
      (run.1 = .error .notFound ↔ ∀ u ∈ snapshot.users, u.id ≠ authorId) ∧
      (run.1 = .error .alreadyExists ↔
        (∃ u ∈ snapshot.users, u.id = authorId) ∧ ∃ p ∈ snapshot.pullRequests, p.id = id) ∧
      (∀ fault, run.1 = .error fault → run.2.data = s.data) ∧
      ∀ author ∈ snapshot.users, author.id = authorId →
        (∀ p ∈ snapshot.pullRequests, p.id ≠ id) →
          ∃ p newer older, run.1 = .ok p ∧
            (p.id = id ∧ p.title = title ∧ p.authorId = authorId) ∧
            p.Staffed settings.maxReviewers (author.colleagues snapshot.users) ∧
            run.2.readings = s.readings ++ [p.createdAt] ∧
            snapshot.pullRequests = newer ++ older ∧
            Repository.snapshot run.2.data =
              .ok { snapshot with pullRequests := newer ++ p :: older } := by
  intro run
  obtain ⟨snapshot, hsnap, -, husers, -⟩ := h.exists_snapshot
  have hlisted : Repository.snapshot (kind.ledger s.data) = .ok snapshot :=
    (StoreKind.snapshot_eq h).symm.trans hsnap
  obtain ⟨hdata, hreadings⟩ := resolveId_eq_ok hid
  have hrun : run = (transact (Service.createPullRequestIn settings id title authorId)).exec s₁ :=
    Service.exec_createPullRequest htitle hid authorId
  have hkept : ∀ fault, run.1 = .error fault → run.2.data = s.data := by
    intro fault hfault
    rw [hrun] at hfault ⊢
    exact (Work.Atomic.transact _ s₁ fault hfault).trans hdata
  rcases hexec : (transact (Service.createPullRequestIn settings id title authorId)).exec s₁ with
    ⟨r, s'⟩
  rw [hexec] at hrun
  rw [hrun] at hkept ⊢
  -- the transaction starts from what is listed, since an identifier has cost no data
  have h₁ : kind.Sound s₁.data := hdata ▸ h
  obtain ⟨hsound', hledger⟩ := StoreKind.exec_onLedger
    ((kind.mirrored.createPullRequestIn settings id title authorId).transact le_rfl) h₁ hexec
  have houtcome := Ledger.createPullRequest_outcome kind.isPreorder_older hmax h₁.integrity
    (hdata ▸ hlisted) hledger
  refine ⟨snapshot, hsnap, Ledger.pairwise_users kind.isPreorder_older hlisted, ?_⟩
  rcases houtcome with ⟨rfl, hunknown⟩ | ⟨rfl, ⟨author, hauthor, hid⟩, p, hp, hused⟩ |
    ⟨author, hauthor, rfl, hnew, p, newer, older, rfl, hgiven, hstaffed, htime, hbefore, hafter⟩
  · exact ⟨iff_of_true rfl hunknown,
      iff_of_false nofun fun ⟨⟨u, hu, huid⟩, _⟩ => hunknown u hu huid, hkept,
      fun u hu huid => absurd huid (hunknown u hu)⟩
  · exact ⟨iff_of_false nofun fun hunknown => hunknown author hauthor hid,
      iff_of_true rfl ⟨⟨author, hauthor, hid⟩, p, hp, hused⟩, hkept,
      fun _ _ _ hnew => absurd hused (hnew p hp)⟩
  · refine ⟨iff_of_false nofun fun hunknown => hunknown author hauthor rfl,
      iff_of_false nofun fun ⟨_, q, hq, hqid⟩ => hnew q hq hqid, hkept, fun u hu huid _ => ?_⟩
    obtain rfl : u = author :=
      h.integrity.eq_of_userId (husers.mem_iff.mp hu) (husers.mem_iff.mp hauthor) huid
    refine ⟨p, newer, older, rfl, hgiven, hstaffed, htime.trans ?_, hbefore, ?_⟩
    · exact congrArg (· ++ [p.createdAt]) hreadings
    · exact (StoreKind.snapshot_eq hsound').trans hafter

/-- A second pull request of the small team's first member gets one of the two others as its
reviewer, and the first one stays as it is. -/
theorem createPullRequest_staffs_smallTeam :
    ∃ p s' newer older, (Service.createPullRequest smallSettings "Next" "a" (some "q")).exec
        (smallRun .relational) = (.ok p, s') ∧
      p.reviewerIds ⊆ ["b", "c"] ∧ p.reviewers.map (·.number.toNat) = [1] ∧
      smallRecords.pullRequests = newer ++ older ∧
      Repository.snapshot s'.data =
        .ok { smallRecords with pullRequests := newer ++ p :: older } := by
  have hmax : smallSettings.maxReviewers < 4294967296 := by decide
  have htitle : Text.isBlank "Next" = false := by decide
  have hid : ∀ s : Session StoreKind.relational.Data Sources,
      (resolveId smallSettings.idMode (some "q")).exec s = (.ok "q", s) := fun _ => rfl
  obtain ⟨snapshot, hsnap, -, -, -, -, hdone⟩ := createPullRequest_staffs .relational hmax
    (sound_smallRun .relational) htitle (hid _) "a"
  have hlisted : Repository.snapshot (smallRun .relational).data = .ok smallRecords := by
    decide +kernel
  obtain rfl : snapshot = smallRecords := Except.ok.inj (hsnap.symm.trans hlisted)
  let ann : User := ⟨"a", "Ann", "t", true, Sources.still.time⟩
  have hann : ann ∈ smallRecords.users := by decide +kernel
  have hnew : ∀ p ∈ smallRecords.pullRequests, p.id ≠ "q" := by decide +kernel
  have hothers : (ann.colleagues smallRecords.users).map User.id = ["b", "c"] := by
    decide +kernel
  obtain ⟨p, newer, older, hok, -, hstaffed, -, hbefore, hafter⟩ := hdone ann hann rfl hnew
  have hchosen := hstaffed.chosen
  have hnumbers := hstaffed.numbers
  rw [hothers] at hchosen
  rw [← List.length_map User.id, hothers] at hnumbers
  rcases hexec : (Service.createPullRequest smallSettings "Next" "a" (some "q")).exec
    (smallRun .relational) with ⟨r, s'⟩
  rw [hexec] at hok hafter
  obtain rfl : r = .ok p := hok
  exact ⟨p, s', newer, older, rfl, hchosen, hnumbers, hbefore, hafter⟩

end ReviewRota
