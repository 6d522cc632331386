import ReviewRota.Proofs.Deactivation
import ReviewRota.Proofs.Replacement
import ReviewRota.Proofs.Staffing

/-!
# What successful transactions have done

One lemma for each service that changes records: what its success says about the records before it,
and which records it has left.

* `Ledger.createTeam_eq_ok`, `Ledger.createUser_eq_ok`, `Ledger.createPullRequestIn_eq_ok`: there
  is one record more.
* **`Ledger.reassignIn_eq_ok`**: one open pull request has been handed over.
* **`Ledger.mergeIn_eq_ok`**: an open pull request has been merged, or nothing has happened at all.
* **`Ledger.updateUserIn_eq_ok`**, **`Ledger.deactivateIn_eq_ok`**: users have changed, and those
  who have left have handed over their open reviews.
-/

namespace ReviewRota.Ledger

open PullRequest (HandOver instead)

variable {π : Type} {older : Instant → Instant → Bool} {s s' : Session (Ledger older) π}

variable [Collaborators π]

/-! ## Creation -/

theorem createTeam_eq_ok {settings : AssignmentSettings} {name : String} {id : Option String}
    {team : Team} (he : (Service.createTeam settings name id).exec s = (.ok team, s')) :
    s'.data = Memory.mk (Memory.teams s.data ++ [team]) (Memory.users s.data)
      (Memory.pullRequests s.data) := by
  unfold Service.createTeam at he
  obtain ⟨-, he⟩ := Service.require_bind_eq_ok.mp he
  obtain ⟨newId, s₁, hid, he⟩ := Work.exec_bind_eq_ok.mp he
  rw [Work.exec_bind_of_ok (Work.exec_now s₁)] at he
  obtain ⟨_, s₂, hw, he⟩ := Work.exec_bind_eq_ok.mp he
  cases he
  rw [exec_transact_eq_ok, Work.exec_write, Prod.mk.injEq] at hw
  obtain ⟨hw, rfl⟩ := hw
  dsimp only at hw ⊢
  rw [(resolveId_eq_ok hid).1] at hw ⊢
  change (Memory.createTeam s.data _).1 = _ at hw
  change (Memory.createTeam s.data _).2 = _
  rcases Memory.createTeam_cases (m := s.data)
    ⟨newId, name, (Collaborators.now s₁.collaborators).1⟩ with hr | ⟨-, hr⟩ <;> rw [hr] at hw ⊢
  cases hw

theorem createUser_eq_ok {settings : AssignmentSettings} {team name : String} {isActive : Bool}
    {id : Option String} {user : User}
    (he : (Service.createUser settings team name isActive id).exec s = (.ok user, s')) :
    s'.data = Memory.mk (Memory.teams s.data) (Memory.users s.data ++ [user])
      (Memory.pullRequests s.data) := by
  unfold Service.createUser at he
  obtain ⟨-, he⟩ := Service.require_bind_eq_ok.mp he
  obtain ⟨newId, s₁, hid, he⟩ := Work.exec_bind_eq_ok.mp he
  rw [Work.exec_bind_of_ok (Work.exec_now s₁)] at he
  obtain ⟨_, s₂, hstep, he⟩ := Work.exec_bind_eq_ok.mp he
  cases he
  obtain ⟨_, -, hw⟩ := Work.read_bind_eq_ok.mp (exec_transact_eq_ok.mp hstep)
  clear hstep
  rw [Work.exec_write, Prod.mk.injEq] at hw
  obtain ⟨hw, rfl⟩ := hw
  dsimp only at hw ⊢
  rw [(resolveId_eq_ok hid).1] at hw ⊢
  change (Memory.createUser s.data _).1 = _ at hw
  change (Memory.createUser s.data _).2 = _
  rcases Memory.createUser_cases (m := s.data)
    ⟨newId, name, team, isActive, (Collaborators.now s₁.collaborators).1⟩ with
    ⟨_, hr⟩ | ⟨-, hr⟩ <;> rw [hr] at hw ⊢
  cases hw

theorem createPullRequestIn_eq_ok {settings : AssignmentSettings} {id title authorId : String}
    {r : PullRequest}
    (he : (Service.createPullRequestIn settings id title authorId).exec s = (.ok r, s')) :
    ∃ author pool chosen time, Repository.user authorId s.data = .ok author ∧
      Repository.activeMembers author.teamId [author.id] s.data = .ok pool ∧ chosen ⊆ pool ∧
      (∀ [Collaborators.Lawful π], chosen.length = min settings.maxReviewers pool.length) ∧
      r = ⟨id, title, author.id, .opened, time, none, Service.numberedSlots id time chosen⟩ ∧
      Memory.Fits s.data id r.reviewers ∧ id ∉ (Memory.pullRequests s.data).map PullRequest.id ∧
      s'.data = Memory.mk (Memory.teams s.data) (Memory.users s.data)
        (Memory.pullRequests s.data ++ [{ r with reviewers := Memory.sortSlots r.reviewers }]) := by
  obtain ⟨author, pool, chosen, s₁, time, hauthor, hpool, hchosen, rfl, hstored⟩ :=
    Service.exec_createPullRequestIn_eq_ok he
  obtain ⟨chosen', s₁', hchosen', ⟨hdata, -⟩, hsub, -, hlen⟩ :=
    Selection.exec_initial pool settings.maxReviewers s
  rw [hchosen, Prod.mk.injEq, Except.ok.injEq] at hchosen'
  obtain ⟨rfl, rfl⟩ := hchosen'
  change Memory.createPullRequest s₁.data _ = _ at hstored
  rw [hdata] at hstored
  refine ⟨author, pool, chosen, time, hauthor, hpool, hsub.subset, hlen, rfl, ?_⟩
  rcases Memory.createPullRequest_cases (m := s.data)
    ⟨id, title, author.id, .opened, time, none, Service.numberedSlots id time chosen⟩ with
    ⟨_, hr⟩ | ⟨⟨hid, -, hfits⟩, hr⟩ <;> rw [hr] at hstored
  · cases congrArg Prod.fst hstored
  · exact ⟨hfits, hid, (congrArg Prod.snd hstored).symm⟩

/-! ## Reassignment and merging -/

theorem reassignIn_eq_ok {id reviewerId : String} {r : PullRequest}
    (hint : Memory.Integrity s.data)
    (he : (Service.reassignIn id reviewerId).exec s = (.ok r, s')) :
    ∃ p ∈ Memory.pullRequests s.data, p.id = id ∧ p.isOpen = true ∧
      ∃ reviewer ∈ Memory.users s.data, reviewer.id = reviewerId ∧ ∃ pool,
        Repository.activeMembers reviewer.teamId (p.exclusions reviewer.id) s.data = .ok pool ∧
        p.HandOver [reviewer.id] pool r ∧
        s'.data = Memory.mapPullRequests s.data (instead r) := by
  have hdone := he
  unfold Service.reassignIn at he
  obtain ⟨p, hread, he⟩ := Work.read_bind_eq_ok.mp he
  obtain ⟨hopen, he⟩ := Service.require_bind_eq_ok.mp he
  obtain ⟨reviewer, hread', he⟩ := Work.read_bind_eq_ok.mp he
  obtain ⟨pool, hpool, he⟩ := Work.read_bind_eq_ok.mp he
  obtain ⟨chosen, s₁, hc, he⟩ := Work.exec_bind_eq_ok.mp he
  rw [Work.exec_bind_of_ok (Work.exec_now s₁)] at he
  obtain ⟨hold, -⟩ := Service.require_bind_eq_ok.mp he
  obtain ⟨hp, rfl⟩ := mem_of_pullRequest hread
  obtain ⟨hreviewer, rfl⟩ := mem_of_user hread'
  have hrev : reviewer.id ∈ p.reviewerIds := PullRequest.hasReviewer_iff.mp hold
  obtain ⟨time, t, hexec, hdata, -⟩ :=
    exec_reassignIn_of_chosen hint hp hopen hreviewer hrev hpool hc
  rw [hdone, Prod.mk.injEq, Except.ok.injEq] at hexec
  obtain ⟨rfl, rfl⟩ := hexec
  have hchosen := (Selection.replacement_ok hc).1
  have hcan := ((mem_pool hpool).mp hchosen).2.2.2.2
  exact ⟨p, hp, rfl, hopen, reviewer, hreviewer, rfl, pool, hpool, ⟨reviewer.id,
    List.mem_singleton_self _, chosen, hchosen, hrev, PullRequest.canTake_iff.mpr hcan, time, rfl⟩,
    hdata⟩

/-- One that is merged already stays as it is, and the clock is not asked. -/
theorem mergeIn_eq_ok {id : String} {r : PullRequest}
    (he : (Service.mergeIn id).exec s = (.ok r, s')) :
    ∃ p ∈ Memory.pullRequests s.data, p.id = id ∧
      ((p.status = .merged ∧ r = p ∧ s' = s) ∨
        p.isOpen = true ∧ ∃ time, r = { p with status := .merged, mergedAt := some time } ∧
          s'.data = Memory.withPullRequest s.data id fun p =>
            { p with status := .merged, mergedAt := some time }) := by
  unfold Service.mergeIn at he
  obtain ⟨p, hp, he⟩ := Work.read_bind_eq_ok.mp he
  obtain ⟨hp, hid⟩ := mem_of_pullRequest hp
  refine ⟨p, hp, hid, ?_⟩
  split at he
  · rename_i hmerged
    cases he
    exact .inl ⟨hmerged, rfl, rfl⟩
  · rename_i hnot
    have hopen : p.isOpen = true := by
      unfold PullRequest.isOpen
      cases h : p.status with
      | opened => rfl
      | merged => exact absurd h hnot
    rw [Work.exec_bind_of_ok (Work.exec_now s)] at he
    obtain ⟨_, hw, he⟩ := Work.write_bind_eq_ok.mp he
    cases he
    generalize (Collaborators.now s.collaborators).1 = time at hw ⊢
    refine .inr ⟨hopen, time, rfl, ?_⟩
    rw [← hid]
    change (Memory.changePullRequest s.data p.id _).1 = _ at hw
    change (Memory.changePullRequest s.data p.id _).2 = _
    rcases Memory.changePullRequest_cases (m := s.data) p.id
      fun p => { p with status := .merged, mergedAt := some time } with h | ⟨-, h⟩ <;>
      rw [h] at hw ⊢
    cases hw

/-! ## Deactivation -/

/-- The name and the flag of a user are stored; whoever turns inactive hands over the open reviews
before. -/
theorem updateUserIn_eq_ok {id : String} {update : UserUpdate} {r : User}
    (hint : Memory.Integrity s.data)
    (he : (Service.updateUserIn id update).exec s = (.ok r, s')) :
    ∃ user ∈ Memory.users s.data, user.id = id ∧ r = update.apply user ∧
      (((user.isActive = true → r.isActive = true) ∧ s'.data = Memory.withUser s.data r) ∨
        user.isActive = true ∧ r.isActive = false ∧ ∃ pool f,
          Repository.activeMembers user.teamId [user.id] s.data = .ok pool ∧
          Memory.Relieved s.data [user.id] pool f ∧
          s'.data = Memory.withUser (Memory.mapPullRequests s.data f) r) := by
  unfold Service.updateUserIn at he
  obtain ⟨user, hread, he⟩ := Work.read_bind_eq_ok.mp he
  obtain ⟨huser, hid⟩ := mem_of_user hread
  -- storing comes last, whether or not there were hand-overs
  have hstored : ∀ (t : Session (Ledger older) π), Memory.users t.data = Memory.users s.data →
      (do
        Work.write (Repository.updateUser (update.apply user))
        pure (update.apply user) : Work (Ledger older) π User).exec t = (.ok r, s') →
      r = update.apply user ∧ s'.data = Memory.withUser t.data r := by
    intro t ht he
    have huser' : user ∈ Memory.users t.data := ht ▸ huser
    rw [Work.exec_bind_of_ok (exec_updateUser (update.apply user) ⟨user, huser', rfl⟩)] at he
    cases he
    exact ⟨rfl, rfl⟩
  refine ⟨user, huser, hid, ?_⟩
  dsimp only at he
  split at he
  · rename_i hleaves
    rw [Bool.and_eq_true, Bool.not_eq_true'] at hleaves
    obtain ⟨count, s₁, hre, he⟩ := Work.exec_bind_eq_ok.mp he
    obtain ⟨pool, hpool⟩ :
        ∃ pool, Repository.activeMembers user.teamId [user.id] s.data = .ok pool := ⟨_, rfl⟩
    change (Service.reassignOpenReviews user.teamId (update.apply user)).exec s = _ at hre
    rcases reassignOpenReviews_cases (update.apply user) hint hpool with
      ⟨f, s₂, hre', hdata, hf⟩ | ⟨hre', -⟩ <;> rw [hre] at hre'
    swap
    · cases hre'
    obtain ⟨-, rfl⟩ := Prod.mk.inj hre'
    obtain ⟨rfl, hafter⟩ := hstored s₁ (by rw [hdata]; rfl) he
    exact ⟨rfl, .inr ⟨hleaves.1, hleaves.2, pool, f, hpool, .of_awaits hf, hdata ▸ hafter⟩⟩
  · rename_i hstays
    obtain ⟨rfl, hafter⟩ := hstored s rfl he
    refine ⟨rfl, .inl ⟨fun hactive => ?_, hafter⟩⟩
    simpa [hactive] using hstays

/-- The whole batch is inactive before the first hand-over, so nobody of it takes over. -/
theorem deactivateIn_eq_ok {team : String} {ids : List String} (hnodup : ids.Nodup)
    {r : Deactivation} (hint : Memory.Integrity s.data)
    (he : (Service.deactivateIn team ids).exec s = (.ok r, s')) :
    Named s.data team ids ∧ ∃ f,
      (Memory.deactivated s.data ids).Relieved
        ((Deactivation.batch (Memory.users s.data) ids).map User.id)
        (Deactivation.remaining (Memory.users s.data) team ids) f ∧
      s'.data = (Memory.deactivated s.data ids).mapPullRequests f := by
  have hnamed := named_of_deactivateIn hnodup hint he
  rcases deactivateIn_cases hnodup hint hnamed with ⟨f, s₁, he', hdata, hrel, -⟩ | ⟨he', -⟩ <;>
    rw [he] at he'
  · cases he'
    exact ⟨hnamed, f, hrel, hdata⟩
  · cases he'

end ReviewRota.Ledger
