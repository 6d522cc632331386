import ReviewRota.Proofs.Demands

/-!
# Random draws

Each call makes the draws for its demand, and no others.

* `Ledger.Accounts`: work whose draws meet a demand.
* `Ledger.accounts_staffing`, `Ledger.accounts_replacement`, `Ledger.HandsOver.accounts`: the three
  kinds of draws; **`Ledger.accounts_perform`**: all calls.
* **`draws_accounted`**: the draws of a call on either store.
-/

namespace ReviewRota

open Deactivation (openReviews remaining targets Turns)

variable {σ π α β : Type}

/-! ## Calls on a ledger -/

section

variable [Collaborators π] {mode : IdMode} {supplied : Option String}

theorem exec_resolveId_of_accepts (h : mode.accepts supplied = true) (s : Session σ π) :
    ∃ id s', (resolveId mode supplied).exec s = (.ok id, s') ∧ s'.data = s.data ∧
      s'.draws = s.draws := by
  match mode, supplied with
  | .generated, none => exact ⟨_, _, rfl, rfl, rfl⟩
  | .external, some id =>
    have hid : ¬ Text.isBlank id = true := by simpa [IdMode.accepts] using h
    refine ⟨id, s, ?_, rfl, rfl⟩
    rw [resolveId, if_neg hid]
    rfl

theorem exec_resolveId_of_not_accepts (h : mode.accepts supplied = false) (s : Session σ π) :
    ∃ fault, (resolveId mode supplied).exec s = (.error fault, s) := by
  match mode, supplied with
  | .generated, some _ => exact ⟨_, rfl⟩
  | .external, none => exact ⟨_, rfl⟩
  | .external, some id =>
    have hid : Text.isBlank id = true := by simpa [IdMode.accepts] using h
    rw [resolveId, if_pos hid]
    exact ⟨_, rfl⟩

end

theorem exec_of_reply {w : Work σ π PullRequest} {s : Session σ π} {p : PullRequest}
    (h : ((Reply.pullRequest <$> transact w).exec s).1 = .ok (.pullRequest p)) :
    ∃ s', w.exec s = (.ok p, s') := by
  obtain ⟨q, hq, he⟩ := Work.map_eq_ok.mp (Prod.ext h rfl)
  cases he
  exact ⟨_, exec_transact_eq_ok.mp hq⟩

theorem draws_reply (w : Work σ π α) (reply : α → Reply) (s : Session σ π) :
    ((reply <$> transact w).exec s).2.draws = (w.exec s).2.draws := by
  rw [Work.exec_map]
  exact draws_transact w s

namespace Ledger

variable {older : Instant → Instant → Bool} {before : Snapshot}

theorem user_of_snapshot {m : Ledger older} (hint : Memory.Integrity m)
    (hlisted : Repository.snapshot m = .ok before) (id : String) :
    Repository.user id m = orNotFound (before.users.find? (·.id == id)) := by
  have hperm := (perm_of_snapshot hlisted).2.1
  refine congrArg orNotFound (Option.ext fun u => ?_)
  refine (find?_key_eq_some_iff hint.userIds).trans ?_
  rw [find?_key_eq_some_iff ((hperm.map User.id).nodup_iff.mpr hint.userIds), hperm.mem_iff]

theorem pullRequest_of_snapshot {m : Ledger older} (hint : Memory.Integrity m)
    (hlisted : Repository.snapshot m = .ok before) (lock : Bool) (id : String) :
    Repository.pullRequest lock id m = orNotFound (before.pullRequests.find? (·.id == id)) := by
  have hperm := (perm_of_snapshot hlisted).2.2
  refine congrArg orNotFound (Option.ext fun p => ?_)
  refine (find?_key_eq_some_iff hint.ids).trans ?_
  rw [find?_key_eq_some_iff ((hperm.map PullRequest.id).nodup_iff.mpr hint.ids), hperm.mem_iff]

theorem exists_snapshot_of_users {m : Ledger older} (hlisted : Repository.snapshot m = .ok before)
    (users : List User) :
    ∃ us, Repository.snapshot (Ledger.of older ⟨Memory.teams m, users, Memory.pullRequests m⟩) =
      .ok { before with users := us } := by
  rw [snapshot_eq, Except.ok.injEq] at hlisted
  rw [snapshot_eq, ← hlisted]
  exact ⟨_, rfl⟩

/-- Work whose draws meet a demand. -/
def Accounts (demand : Option Demand) (before : Snapshot) (w : Work (Ledger older) π Reply)
    (s : Session (Ledger older) π) : Prop :=
  ∃ draws after, (w.exec s).2.draws = s.draws ++ draws ∧
    Repository.snapshot (w.exec s).2.data = .ok after ∧
    Demand.Met before.pullRequests draws (w.exec s).1 after.pullRequests demand

variable {s : Session (Ledger older) π}

theorem Accounts.nothing {demand : Option Demand} {w : Work (Ledger older) π Reply}
    (hnone : demand = none) (h : (w.exec s).2.draws = s.draws) : Accounts demand before w s :=
  ⟨[], _, h.trans (List.append_nil _).symm, snapshot_eq, by rw [hnone, Demand.Met]⟩

theorem Accounts.of_exec {demand : Option Demand} {w v : Work (Ledger older) π Reply}
    {s₁ : Session (Ledger older) π} (h : w.exec s = v.exec s₁) (hdraws : s₁.draws = s.draws)
    (hv : Accounts demand before v s₁) : Accounts demand before w s := by
  unfold Accounts at hv ⊢
  rwa [h, ← hdraws]

variable [Collaborators π] [Collaborators.Lawful π] (hint : Memory.Integrity s.data)
  (hlisted : Repository.snapshot s.data = .ok before) (settings : AssignmentSettings)
include hint hlisted

/-! ### New pull requests -/

omit hint in
theorem accounts_staffing (hpre : IsPreorder older) {author : User} {authorId : String}
    (hauthor : Repository.user authorId s.data = .ok author) (id title : String) :
    Accounts (some (.staffing (author.colleagues before.users) settings.maxReviewers)) before
      (.pullRequest <$> transact (Service.createPullRequestIn settings id title authorId)) s := by
  have hpool := activeMembers_eq_colleagues hpre hlisted author
  generalize author.colleagues before.users = pool at hpool
  -- whoever is chosen, the rest of a creation draws nothing
  have hrest : ∀ {chosen s₁}, (Selection.initial pool settings.maxReviewers).exec s =
      (.ok chosen, s₁) →
        ((Service.createPullRequestIn settings id title authorId).exec s).2.draws = s₁.draws ∧
        ∀ {p s'}, (Service.createPullRequestIn settings id title authorId).exec s = (.ok p, s') →
          p.reviewerIds = chosen.map User.id := by
    intro chosen s₁ hchosen
    constructor
    · rw [Service.exec_createPullRequestIn hauthor hpool hchosen id title]
      exact Work.Drawless.bind .now (fun _ => .bind (.write _) fun _ => .pure _) s₁
    · intro p s' he
      obtain ⟨_, _, chosen', _, time, hauthor', hpool', hchosen', rfl, -⟩ :=
        Service.exec_createPullRequestIn_eq_ok he
      cases hauthor.symm.trans hauthor'
      cases hpool.symm.trans hpool'
      cases hchosen.symm.trans hchosen'
      exact map_userId_numberedSlots id time chosen
  by_cases hmany : 1 ≤ settings.maxReviewers ∧ settings.maxReviewers < pool.length
  · obtain ⟨ds, placed, s₁, hds, hplaced, hchosen, hdraws⟩ :=
      Selection.exec_initial_shuffled hmany.1 hmany.2 s
    obtain ⟨hsame, hreviewers⟩ := hrest hchosen
    refine ⟨_, _, ((draws_reply _ _ s).trans hsame).trans hdraws, snapshot_eq, ?_⟩
    rw [Demand.Met, if_pos hmany]
    refine ⟨ds, placed, hds, rfl, hplaced, fun p hp => ?_⟩
    obtain ⟨s', he⟩ := exec_of_reply hp
    exact hreviewers he
  · have hfew : pool.length ≤ settings.maxReviewers ∨ settings.maxReviewers = 0 := by omega
    obtain ⟨hsame, -⟩ := hrest (Selection.exec_initial_of_le hfew s)
    refine ⟨[], _, ?_, snapshot_eq, ?_⟩
    · rw [draws_reply, hsame, List.append_nil]
    · rw [Demand.Met, if_neg hmany]

theorem accounts_createPullRequest (hpre : IsPreorder older) (title authorId : String)
    (supplied : Option String) :
    Accounts ((Call.createPullRequest title authorId supplied).demand settings before) before
      ((Call.createPullRequest title authorId supplied).perform settings) s := by
  by_cases hrefused : (Text.isBlank title || !settings.idMode.accepts supplied) = true
  · refine .nothing ?_ ?_
    · simp only [Call.demand, hrefused]
      cases before.users.find? (·.id == authorId) <;> rfl
    rw [Call.perform, Work.exec_map, Service.createPullRequest]
    cases htitle : Text.isBlank title with
    | true => rfl
    | false =>
      have hid : settings.idMode.accepts supplied = false := by simpa [htitle] using hrefused
      obtain ⟨fault, hfail⟩ := exec_resolveId_of_not_accepts hid s
      rw [Work.exec_bind_of_ok (Service.exec_require _ _ s), Work.exec_bind_of_error hfail]
  · obtain ⟨htitle, hid⟩ :
        Text.isBlank title = false ∧ settings.idMode.accepts supplied = true := by
      simpa using hrefused
    obtain ⟨id, s₁, hid, hdata, hdraws⟩ := exec_resolveId_of_accepts hid s
    have hexec : ((Call.createPullRequest title authorId supplied).perform settings).exec s =
        (Reply.pullRequest <$> transact
          (Service.createPullRequestIn settings id title authorId)).exec s₁ := by
      rw [Call.perform, Work.exec_map, Service.exec_createPullRequest htitle hid, ← Work.exec_map]
    refine .of_exec hexec hdraws ?_
    rw [← hdata] at hint hlisted
    have hauthor := user_of_snapshot hint hlisted authorId
    cases hfind : before.users.find? (·.id == authorId) with
    | none =>
      rw [hfind] at hauthor
      refine .nothing (by rw [Call.demand, hfind]; rfl) ((draws_reply _ _ s₁).trans ?_)
      rw [Service.createPullRequestIn,
        Work.exec_bind_of_error (by rw [Work.exec_read, hauthor]; rfl)]
    | some author =>
      have hsome : (Call.createPullRequest title authorId supplied).demand settings before =
          some (.staffing (author.colleagues before.users) settings.maxReviewers) := by
        rw [Call.demand, hfind]
        exact if_neg hrefused
      rw [hfind] at hauthor
      rw [hsome]
      exact accounts_staffing hlisted settings hpre hauthor id title

/-! ### Reassignments -/

omit hint in
/-- A reassignment draws once it has found the pull request open, and the reviewer. -/
theorem accounts_replacement (hpre : IsPreorder older) {p : PullRequest} {id reviewerId : String}
    (hp : Repository.pullRequest true id s.data = .ok p) (hopen : p.isOpen = true)
    {reviewer : User} (hreviewer : Repository.user reviewerId s.data = .ok reviewer) :
    Accounts (some (.replacement (before.users.filter fun v =>
        p.Candidate reviewer.teamId reviewer.id v))) before
      (.pullRequest <$> transact (Service.reassignIn id reviewerId)) s := by
  have hpool : Repository.activeMembers reviewer.teamId (p.exclusions reviewer.id) s.data =
      .ok (before.users.filter fun v => p.Candidate reviewer.teamId reviewer.id v) := by
    rw [activeMembers_of_snapshot hpre hlisted]
    refine congrArg Except.ok (List.filter_congr fun v _ => ?_)
    rw [Bool.eq_iff_iff, decide_eq_true_iff]
    simp [PullRequest.Candidate, PullRequest.mem_exclusions, and_assoc]
  generalize (before.users.filter fun v => p.Candidate reviewer.teamId reviewer.id v) = pool
    at hpool
  by_cases hnil : pool = []
  · refine ⟨[], _, ?_, snapshot_eq, ?_⟩
    · rw [draws_reply, Service.exec_reassignIn_of_nil hp hopen hreviewer hpool hnil,
        List.append_nil]
    · rw [Demand.Met, if_pos hnil]
  · have hdraw := Collaborators.Lawful.draw_lt s.collaborators (List.length_pos_iff.mpr hnil)
    obtain ⟨v, hv⟩ : ∃ v, pool[(Collaborators.draw pool.length s.collaborators).1]? = some v :=
      ⟨_, List.getElem?_eq_getElem hdraw⟩
    have hchosen := Selection.replacement_eq_ok.mpr ⟨hv, rfl⟩
    have hbody := Service.exec_reassignIn hp hopen hreviewer hpool
    rw [Work.exec_bind_of_ok hchosen] at hbody
    refine ⟨[(pool.length, (Collaborators.draw pool.length s.collaborators).1)], _, ?_,
      snapshot_eq, ?_⟩
    · rw [draws_reply, hbody]
      exact Work.Drawless.bind .now (fun _ => .bind (.require _ _) fun _ =>
        .bind (.write _) fun _ => .pure _) _
    · rw [Demand.Met, if_neg hnil]
      refine ⟨_, v, rfl, hv, fun q hq => ?_⟩
      obtain ⟨s', he⟩ := exec_of_reply hq
      rw [hbody, Work.exec_bind_of_ok (Work.exec_now _), Service.require_bind_eq_ok] at he
      obtain ⟨hrev, he⟩ := he
      obtain ⟨_, -, he⟩ := Work.write_bind_eq_ok.mp he
      cases he
      have hne := ((mem_pool hpool).mp (List.mem_of_getElem? hv)).2.2.2.1
      exact (PullRequest.mem_reviewerIds_handedOver hne).mpr
        (.inr ⟨rfl, PullRequest.hasReviewer_iff.mp hrev⟩)

theorem accounts_reassign (hpre : IsPreorder older) (id reviewerId : String) :
    Accounts ((Call.reassign id reviewerId).demand settings before) before
      ((Call.reassign id reviewerId).perform settings) s := by
  have hp := pullRequest_of_snapshot hint hlisted true id
  have hreviewer := user_of_snapshot hint hlisted reviewerId
  rw [Call.perform, Service.reassign]
  cases hfind : before.pullRequests.find? (·.id == id) with
  | none =>
    rw [hfind] at hp
    refine .nothing (by rw [Call.demand, hfind]; rfl) ((draws_reply _ _ s).trans ?_)
    rw [Service.reassignIn, Work.exec_bind_of_error (by rw [Work.exec_read, hp]; rfl)]
  | some p =>
    rw [hfind] at hp
    cases hfind' : before.users.find? (·.id == reviewerId) with
    | none =>
      rw [hfind'] at hreviewer
      refine .nothing (by rw [Call.demand, hfind, hfind']; rfl) ((draws_reply _ _ s).trans ?_)
      rw [Service.reassignIn, Work.exec_bind_of_ok (by rw [Work.exec_read, hp]; rfl)]
      cases p.isOpen with
      | false => rfl
      | true =>
        rw [Work.exec_bind_of_ok (Service.exec_require _ _ s),
          Work.exec_bind_of_error (by rw [Work.exec_read, hreviewer]; rfl)]
    | some reviewer =>
      rw [hfind'] at hreviewer
      by_cases hopen : p.isOpen = true
      · have hsome : (Call.reassign id reviewerId).demand settings before =
            some (.replacement (before.users.filter fun v =>
              p.Candidate reviewer.teamId reviewer.id v)) := by
          rw [Call.demand, hfind, hfind']
          exact if_pos hopen
        rw [hsome]
        exact accounts_replacement hlisted hpre hp hopen hreviewer
      · refine .nothing ?_ ((draws_reply _ _ s).trans ?_)
        · rw [Call.demand, hfind, hfind']
          exact if_neg hopen
        · rw [Service.reassignIn, Work.exec_bind_of_ok (by rw [Work.exec_read, hp]; rfl),
            Bool.eq_false_of_not_eq_true hopen]
          rfl

/-! ### Deactivations -/

omit [Collaborators π] [Collaborators.Lawful π] hint hlisted in
/-- A cascade in a transaction takes its turns. What comes before it and after it draws nothing and
leaves the listing of pull requests as it is. -/
theorem HandsOver.accounts {snapshot : Snapshot} {pool leavers : List User}
    {s₁ : Session (Ledger older) π} {w : Work (Ledger older) π α} {k : α → Work (Ledger older) π β}
    {v : Work (Ledger older) π β}
    (h : HandsOver pool snapshot (openReviews snapshot.pullRequests leavers) w s₁)
    (hsame : snapshot.pullRequests = before.pullRequests) (hdraws : s₁.draws = s.draws)
    (hv : v.exec s = (w >>= k).exec s₁)
    (hk : ∀ {a s₂ ps}, Repository.snapshot s₂.data = .ok { snapshot with pullRequests := ps } →
      ∃ b s₃ us, (k a).exec s₂ = (.ok b, s₃) ∧ s₃.draws = s₂.draws ∧
        Repository.snapshot s₃.data = .ok { snapshot with users := us, pullRequests := ps })
    (reply : β → Reply) :
    Accounts (some (.turns pool leavers)) before (reply <$> transact v) s := by
  rcases h with ⟨draws, ps, a, s₂, hturns, he, hd, hlisted⟩ | ⟨draws, s₂, hturns, he, hd⟩ <;>
    rw [hsame] at hturns
  · obtain ⟨b, s₃, us, hb, hd', hlisted'⟩ := hk hlisted
    rw [Work.exec_bind_of_ok he, hb] at hv
    refine ⟨draws, { snapshot with users := us, pullRequests := ps }, ?_, ?_,
      .inl ⟨reply b, ?_, hturns⟩⟩
    · rw [draws_reply, hv, hd', hd, hdraws]
    · rw [Work.exec_map, exec_transact_of_ok hv]
      exact hlisted'
    · rw [Work.exec_map, exec_transact_of_ok hv]
      rfl
  · rw [Work.exec_bind_of_error he] at hv
    refine ⟨draws, _, ?_, snapshot_eq, .inr ⟨?_, hturns⟩⟩
    · rw [draws_reply, hv, hd, hdraws]
    · rw [Work.exec_map, exec_transact_of_error hv]
      rfl

theorem accounts_updateUserIn (hpre : IsPreorder older) {user : User} {id : String}
    (huser : Repository.user id s.data = .ok user) {update : UserUpdate}
    (hleaves : (user.isActive && !(update.apply user).isActive) = true) :
    Accounts (some (.turns (remaining before.users user.teamId [id]) [user])) before
      (.user <$> transact (Service.updateUserIn id update)) s := by
  obtain ⟨hmem, rfl⟩ := mem_of_user huser
  have hpool : Repository.activeMembers user.teamId [(update.apply user).id] s.data =
      .ok (remaining before.users user.teamId [user.id]) := by
    rw [activeMembers_of_snapshot hpre hlisted, Deactivation.remaining_eq]
    rfl
  let stored : Work (Ledger older) π User := do
    Work.write (Repository.updateUser (update.apply user))
    pure (update.apply user)
  have hturns : HandsOver (remaining before.users user.teamId [user.id]) before
      (openReviews before.pullRequests [user])
      (Service.reassignOpenReviews user.teamId (update.apply user)) s :=
    handsOver_reassignOpenReviews (update.apply user) hpre hint hlisted hpool
  have hexec : (Service.updateUserIn user.id update).exec s =
      (Service.reassignOpenReviews user.teamId (update.apply user) >>= fun _ => stored).exec s := by
    rw [Service.updateUserIn, Work.exec_bind_of_ok (by rw [Work.exec_read, huser])]
    dsimp only
    rw [if_pos hleaves]
    rfl
  refine hturns.accounts rfl rfl hexec (fun {_ s₂ ps} hlisted' => ?after) _
  case after =>
    have hknown : ∃ u ∈ Memory.users s₂.data, u.id = (update.apply user).id :=
      ⟨user, (perm_of_snapshot hlisted').2.1.mem_iff.mp
        ((perm_of_snapshot hlisted).2.1.mem_iff.mpr hmem), rfl⟩
    obtain ⟨us, hafter⟩ := exists_snapshot_of_users hlisted'
      (Memory.withUser s₂.data (update.apply user)).users
    refine ⟨_, _, us, Work.exec_bind_of_ok (exec_updateUser (update.apply user) hknown) _, rfl, ?_⟩
    exact hafter

theorem accounts_updateUser (hpre : IsPreorder older) (id : String) (update : UserUpdate) :
    Accounts ((Call.updateUser id update).demand settings before) before
      ((Call.updateUser id update).perform settings) s := by
  by_cases hrefused : (update.isEmpty || update.name.any Text.isBlank) = true
  · refine .nothing ?_ ?_
    · simp only [Call.demand, hrefused]
      cases before.users.find? (·.id == id) <;> rfl
    rw [Call.perform, Work.exec_map, Service.updateUser]
    cases hempty : update.isEmpty with
    | true => rfl
    | false =>
      have hname : update.name.any Text.isBlank = true := by simpa [hempty] using hrefused
      rw [Work.exec_bind_of_ok (Service.exec_require _ _ s), hname]
      rfl
  · obtain ⟨hempty, hname⟩ : update.isEmpty = false ∧ update.name.any Text.isBlank = false := by
      simpa using hrefused
    have hexec : ((Call.updateUser id update).perform settings).exec s =
        (Reply.user <$> transact (Service.updateUserIn id update)).exec s := by
      rw [Call.perform, Work.exec_map, Service.updateUser, hempty, hname,
        Work.exec_bind_of_ok (Service.exec_require _ _ s),
        Work.exec_bind_of_ok (Service.exec_require _ _ s), ← Work.exec_map]
    refine .of_exec hexec rfl ?_
    have huser := user_of_snapshot hint hlisted id
    cases hfind : before.users.find? (·.id == id) with
    | none =>
      rw [hfind] at huser
      refine .nothing (by rw [Call.demand, hfind]; rfl) ((draws_reply _ _ s).trans ?_)
      rw [Service.updateUserIn, Work.exec_bind_of_error (by rw [Work.exec_read, huser]; rfl)]
    | some user =>
      rw [hfind] at huser
      by_cases hleaves : (user.isActive && !(update.apply user).isActive) = true
      · have hsome : (Call.updateUser id update).demand settings before =
            some (.turns (remaining before.users user.teamId [id]) [user]) := by
          rw [Call.demand, hfind]
          exact (if_neg hrefused).trans (if_pos hleaves)
        rw [hsome]
        exact accounts_updateUserIn hint hlisted hpre huser hleaves
      · refine .nothing ?_ ((draws_reply _ _ s).trans ?_)
        · rw [Call.demand, hfind]
          exact (if_neg hrefused).trans (if_neg hleaves)
        · rw [Service.updateUserIn, Work.exec_bind_of_ok (by rw [Work.exec_read, huser]; rfl)]
          dsimp only
          rw [if_neg hleaves]
          exact Work.Drawless.bind (.write _) (fun _ => .pure _) s

theorem accounts_deactivateIn (hpre : IsPreorder older) {team : String} {ids : List String}
    (hnodup : ids.Nodup) (hnamed : Named s.data team ids) :
    Accounts (some (.turns (remaining before.users team ids) (targets before.users ids))) before
      (.deactivation <$> transact (Service.deactivateIn team ids)) s := by
  obtain ⟨leavers, htargets, hperm, hexec⟩ := exec_deactivateIn_eq hnodup hint hnamed
  have husers := (perm_of_snapshot hlisted).2.1
  have hsame : leavers = targets before.users ids := by
    rw [htargets]
    exact Deactivation.targets_congr hint.userIds
      ((husers.map User.id).nodup_iff.mpr hint.userIds) fun u _ => husers.mem_iff.symm
  have hids : ∀ u ∈ leavers, u.id ∈ ids := fun u hu =>
    (Deactivation.mem_batch.mp (hperm.mem_iff.mp hu)).2.1
  have hleavers : (leavers.map User.id).Nodup := (hperm.map _).nodup_iff.mpr
    (hint.userIds.sublist (List.filter_sublist.map _))
  have hpool : Memory.oldestFirst older User.createdAt (remaining (Memory.users s.data) team ids) =
      remaining before.users team ids := by
    rw [snapshot_eq, Except.ok.injEq] at hlisted
    rw [Deactivation.remaining_eq, Deactivation.remaining_eq, ← hlisted, filter_oldestFirst hpre]
  obtain ⟨us, hmarked⟩ := exists_snapshot_of_users hlisted (Memory.deactivated s.data ids).users
  let marked : Session (Ledger older) π := { s with data := Memory.deactivated s.data ids }
  have hturns : HandsOver (remaining before.users team ids) { before with users := us }
      (openReviews before.pullRequests leavers) (Service.reassignAll team leavers) marked := by
    refine handsOver_reassignAll hpre hleavers ?_ (hint.deactivated ids) hmarked fun u hu => ?_
    · exact fun u hu v hv he => (Deactivation.mem_remaining.mp hv).2.2.2 (he ▸ hids u hu)
    · exact (activeMembers_deactivated team (hids u hu)).trans (congrArg Except.ok hpool)
  rw [← hsame]
  refine hturns.accounts (s := s) rfl rfl hexec (fun {n s₂ ps} hlisted' => ?_) _
  exact ⟨_, s₂, us, rfl, rfl, hlisted'⟩

theorem accounts_deactivate (hpre : IsPreorder older) (team : String) (ids : List String) :
    Accounts ((Call.deactivate team ids).demand settings before) before
      ((Call.deactivate team ids).perform settings) s := by
  obtain ⟨hteams, husers, -⟩ := perm_of_snapshot hlisted
  have hnamed : Named s.data team (Service.distinct ids) ↔ (∃ t ∈ before.teams, t.id = team) ∧
      ∀ id ∈ ids, ∃ u ∈ before.users, u.id = id ∧ u.teamId = team := by
    refine named_distinct.trans ?_
    simp only [hteams.mem_iff, husers.mem_iff]
    exact ⟨fun h => ⟨h.exists_team, h.members⟩, fun h => ⟨h.1, h.2⟩⟩
  by_cases hne : ids = []
  · subst hne
    refine .nothing ?_ rfl
    rw [Call.demand]
    exact if_neg fun h => h.1 rfl
  have hexec : ((Call.deactivate team ids).perform settings).exec s =
      (Reply.deactivation <$> transact
        (Service.deactivateIn team (Service.distinct ids))).exec s := by
    rw [Call.perform, Work.exec_map, Service.exec_deactivate_of_ne_nil hne, ← Work.exec_map]
  refine .of_exec hexec rfl ?_
  have hrefused : ¬ Named s.data team (Service.distinct ids) →
      (Call.deactivate team ids).demand settings before = none := fun hno => by
    rw [Call.demand]
    exact if_neg fun h => hno (hnamed.mpr h.2)
  rcases deactivateIn_checked (Service.nodup_distinct ids) hint with
    ⟨hno, he⟩ | ⟨-, hno, he⟩ | hyes
  · refine .nothing (hrefused fun h => hno ⟨h.exists_team, fun id hid => ?_⟩) ?_
    · exact (h.members id hid).imp fun u hu => ⟨hu.1, hu.2.1⟩
    · rw [draws_reply, he]
  · refine .nothing (hrefused hno) ?_
    rw [draws_reply, he]
  · have hsome : (Call.deactivate team ids).demand settings before =
        some (.turns (remaining before.users team (Service.distinct ids))
          (targets before.users (Service.distinct ids))) := by
      rw [Call.demand, Deactivation.remaining_congr fun _ => Service.mem_distinct]
      exact if_pos ⟨hne, hnamed.mp hyes⟩
    rw [hsome]
    exact accounts_deactivateIn hint hlisted hpre (Service.nodup_distinct ids) hyes

/-! ### All calls -/

/-- **Every call on a ledger meets its demand.** -/
theorem accounts_perform (hpre : IsPreorder older) (call : Call) :
    Accounts (call.demand settings before) before (call.perform settings) s := by
  cases call with
  | createPullRequest title author id =>
    exact accounts_createPullRequest hint hlisted settings hpre title author id
  | reassign id reviewer => exact accounts_reassign hint hlisted settings hpre id reviewer
  | updateUser id update => exact accounts_updateUser hint hlisted settings hpre id update
  | deactivate team ids => exact accounts_deactivate hint hlisted settings hpre team ids
  | createTeam name id =>
    refine .nothing rfl (Work.Drawless.map (.bind (.require _ _) fun _ => .bind (.resolveId _ _)
      fun _ => .bind .now fun _ => .bind (.transact (.write _)) fun _ => .pure _) _ s)
  | createUser team name isActive id =>
    refine .nothing rfl (Work.Drawless.map (.bind (.require _ _) fun _ => .bind (.resolveId _ _)
      fun _ => .bind .now fun _ => .bind (.transact (.bind (.read _) fun _ => .write _))
        fun _ => .pure _) _ s)
  | merge id =>
    refine .nothing rfl (Work.Drawless.map (.transact (.bind (.read _) fun p => ?_)) _ s)
    split
    · exact .pure _
    · exact .bind .now fun _ => .bind (.write _) fun _ => .pure _
  | assigned user status =>
    exact .nothing rfl (Work.Drawless.map (.transact (.bind (.read _) fun _ => .read _)) _ s)
  | _ => exact .nothing rfl (Work.Drawless.map (.transact (.read _)) _ s)

end Ledger

/-! ## Both stores -/

/-- **Every random draw is accounted for.** Whatever the call and the answers of the random source,
the draws of a call have positive bounds and answers below them, and they are those for its demand,
as the listing before it has it. A creation that is not refused for its title, its identifier or its
author draws without replacement from the author's colleagues, if there are more than it needs. A
reassignment of an open pull request draws once among the candidates, whether or not the known user
reviews it. A deactivation takes the turns of those who turn inactive, up to the first review that
nobody can take. No other call draws, and every draw is an index of the array it is used on. -/
theorem draws_accounted (kind : StoreKind) {π : Type} [Collaborators π] [Collaborators.Lawful π]
    (settings : AssignmentSettings) (call : Call) {s : Session kind.Data π}
    (hsound : kind.Sound s.data) :
    let run := (call.perform settings).exec s
    ∃ before after draws, Repository.snapshot s.data = .ok before ∧
      Repository.snapshot run.2.data = .ok after ∧ run.2.draws = s.draws ++ draws ∧
      (∀ x ∈ draws, 1 ≤ x.1 ∧ x.2 < x.1) ∧
      Demand.Met before.pullRequests draws run.1 after.pullRequests
        (call.demand settings before) := by
  intro run
  obtain ⟨before, hbefore, -⟩ := hsound.exists_snapshot
  have hlisted := (StoreKind.snapshot_eq hsound).symm.trans hbefore
  -- the store runs like its ledger, which meets the demand
  obtain ⟨draws, after, hdraws, hafter, hmet⟩ := Ledger.accounts_perform (s := StoreKind.onLedger s)
    hsound.integrity hlisted settings kind.isPreorder_older call
  obtain ⟨hsound', hledger⟩ := StoreKind.exec_onLedger (kind.mirrored.perform settings call) hsound
    (rfl : (call.perform settings).exec s = (run.1, run.2))
  rw [hledger] at hdraws hafter hmet
  exact ⟨before, after, draws, hbefore, (StoreKind.snapshot_eq hsound').trans hafter, hdraws,
    hmet.inBounds, hmet⟩

/-- The third and the second member of the full team leave. The review of the third comes first, and
those of the second follow in the order of the listing; as reviews are handed over there are fewer
who can take the next one. -/
theorem draws_accounted_fullTeam :
    ∃ s' after, ((Call.deactivate "t" ["c", "b", "c"]).perform fullSettings).exec
        (fullRun .relational) = (.ok (.deactivation ⟨2, 4⟩), s') ∧
      Repository.snapshot s'.data = .ok after ∧
      s'.draws = (fullRun .relational).draws ++ [(3, 1), (3, 0), (2, 1), (2, 1)] ∧
      Turns (fullRecords.users.filter fun u => ["d", "e", "f", "a"].contains u.id)
        fullRecords.pullRequests [("c", "q"), ("b", "p"), ("b", "r"), ("b", "q")]
        [(3, 1), (3, 0), (2, 1), (2, 1)] (some after.pullRequests) := by
  obtain ⟨before, after, draws, hbefore, hafter, hdraws, -, hmet⟩ :=
    draws_accounted .relational fullSettings (.deactivate "t" ["c", "b", "c"])
      (sound_fullRun .relational)
  have hlisted : Repository.snapshot (fullRun .relational).data = .ok fullRecords := by
    decide +kernel
  obtain rfl : before = fullRecords := Except.ok.inj (hbefore.symm.trans hlisted)
  have hrun : (((Call.deactivate "t" ["c", "b", "c"]).perform fullSettings).exec
      (fullRun .relational)).1 = .ok (.deactivation ⟨2, 4⟩) ∧
      (((Call.deactivate "t" ["c", "b", "c"]).perform fullSettings).exec
        (fullRun .relational)).2.draws =
          (fullRun .relational).draws ++ [(3, 1), (3, 0), (2, 1), (2, 1)] := by
    decide +kernel
  have hdemand : (Call.deactivate "t" ["c", "b", "c"]).demand fullSettings fullRecords =
      some (.turns (fullRecords.users.filter fun u => ["d", "e", "f", "a"].contains u.id)
        (targets fullRecords.users ["c", "b"])) := by
    decide +kernel
  have hreviews : openReviews fullRecords.pullRequests (targets fullRecords.users ["c", "b"]) =
      [("c", "q"), ("b", "p"), ("b", "r"), ("b", "q")] := by
    decide +kernel
  rcases he : ((Call.deactivate "t" ["c", "b", "c"]).perform fullSettings).exec
    (fullRun .relational) with ⟨r, s'⟩
  rw [he] at hafter hdraws hrun hmet
  obtain ⟨rfl, hrun⟩ : r = .ok (.deactivation ⟨2, 4⟩) ∧ s'.draws = _ := hrun
  obtain rfl := List.append_cancel_left (hdraws.symm.trans hrun)
  rw [hdemand] at hmet
  rcases hmet with ⟨_, -, hturns⟩ | ⟨hfault, -⟩
  · rw [hreviews] at hturns
    exact ⟨s', after, rfl, hafter, hdraws, hturns⟩
  · cases hfault

end ReviewRota
