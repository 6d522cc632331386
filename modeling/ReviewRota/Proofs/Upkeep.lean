import ReviewRota.Proofs.Orderly
import ReviewRota.Proofs.Outcomes

/-!
# Services keep records orderly

One lemma for each transaction of the services: what its success does to orderly records.

* `Ledger.createPullRequest_ok`, `Ledger.reassign_ok`, `Ledger.merge_ok`, `Ledger.updateUser_ok`,
  `Ledger.deactivate_ok`.
* **`Ledger.keeps_orderly`**: every service call keeps records orderly.
-/

namespace ReviewRota.Ledger

variable {π : Type} [Collaborators π] {older : Instant → Instant → Bool}
  {s s' : Session (Ledger older) π}

/-! ## Creation -/

omit [Collaborators π] in
theorem orderly_createTeam (team : Team) (m : Ledger older) (h : Memory.Orderly m) :
    Memory.Orderly (Repository.createTeam team m).2 :=
  after_createTeam h fun hid hname => h.createTeam team (h.toIntegrity.createTeam hid hname)

omit [Collaborators π] in
theorem orderly_createUser (user : User) (m : Ledger older) (h : Memory.Orderly m) :
    Memory.Orderly (Repository.createUser user m).2 :=
  after_createUser h fun hid hteam => h.createUser hid (h.toIntegrity.createUser hid hteam)

omit [Collaborators π] in
/-- A new pull request is proper if its slots fit: too many reviewers would get the number 0. -/
theorem proper_new {m : Memory} (hint : m.Integrity) {author : User} (ha : author ∈ m.users)
    {chosen : List User}
    (hchosen : ∀ v ∈ chosen, v ∈ m.users ∧ v.teamId = author.teamId ∧ v.id ≠ author.id)
    {p : PullRequest} {time : Instant} (hauthor : p.authorId = author.id)
    (hslots : p.reviewers = Service.numberedSlots p.id time chosen)
    (hfits : m.Fits p.id p.reviewers) : p.Proper m := by
  have hids : p.reviewerIds = chosen.map User.id := by
    rw [PullRequest.reviewerIds, hslots, map_userId_numberedSlots]
  constructor
  case fits => exact hfits
  case dense =>
    rw [hslots] at hfits ⊢
    exact hfits.dense_numberedSlots
  case author_notMem =>
    rw [hids, hauthor]
    intro hmem
    obtain ⟨v, hv, he⟩ := List.mem_map.mp hmem
    exact (hchosen v hv).2.2 he
  case sameTeam =>
    intro author' ha' he u hu hmem
    rw [hids] at hmem
    obtain ⟨v, hv, hid⟩ := List.mem_map.mp hmem
    rw [hint.eq_of_userId ha' ha (he.trans hauthor),
      ← hint.eq_of_userId (hchosen v hv).1 hu hid]
    exact (hchosen v hv).2.1

theorem createPullRequest_ok {settings : AssignmentSettings} {id title authorId : String}
    {r : PullRequest} (h : Memory.Orderly s.data)
    (he : (Service.createPullRequestIn settings id title authorId).exec s = (.ok r, s')) :
    Memory.Orderly s'.data := by
  obtain ⟨author, pool, chosen, time, ha, hpool, hsub, -, hr, hfits, hid, hdata⟩ :=
    createPullRequestIn_eq_ok he
  have ha := (mem_of_user ha).1
  have hchosen : ∀ v ∈ chosen, v ∈ Memory.users s.data ∧ v.teamId = author.teamId ∧
      v.isActive = true ∧ v.id ≠ author.id := fun v hv => by
    obtain ⟨hu, hteam, hactive, hne⟩ := (mem_activeMembers hpool).mp (hsub hv)
    exact ⟨hu, hteam, hactive, fun he => hne (he ▸ List.mem_singleton_self _)⟩
  have hrid : r.id = id := by rw [hr]
  rw [← hrid] at hfits hid
  have hslots : r.reviewers = Service.numberedSlots r.id time chosen := by rw [hr]
  have hauthor : r.authorId = author.id := by rw [hr]
  have hproper : r.Proper s.data := proper_new h.toIntegrity ha
    (fun v hv => ⟨(hchosen v hv).1, (hchosen v hv).2.1, (hchosen v hv).2.2.2⟩) hauthor hslots hfits
  have hint := h.toIntegrity.createPullRequest hid ⟨author, ha, hauthor.symm⟩ hfits
  rw [hproper.dense.sortSlots_eq] at hint hdata
  rw [hdata]
  refine h.createPullRequest hint hproper fun u hu hmem => ?_
  rw [PullRequest.reviewerIds, hslots, map_userId_numberedSlots] at hmem
  obtain ⟨v, hv, hid⟩ := List.mem_map.mp hmem
  rw [← h.eq_of_userId (hchosen v hv).1 hu hid]
  exact (hchosen v hv).2.2.1

/-! ## Reassignment and merging -/

theorem reassign_ok {id reviewerId : String} {r : PullRequest} (h : Memory.Orderly s.data)
    (he : (Service.reassignIn id reviewerId).exec s = (.ok r, s')) : Memory.Orderly s'.data := by
  obtain ⟨p, hp, -, -, reviewer, hreviewer, -, pool, hpool, hover, hdata⟩ :=
    reassignIn_eq_ok h.toIntegrity he
  rw [hdata]
  have hleaver : ∀ u ∈ Memory.users s.data, u.id ∈ [reviewer.id] → u.teamId = reviewer.teamId :=
    fun u hu hid => by rw [h.eq_of_userId hu hreviewer (List.mem_singleton.mp hid)]
  refine h.handOver hp hover hleaver fun v hv => ?_
  obtain ⟨hu, hteam, hactive, -⟩ := (mem_activeMembers hpool).mp hv
  exact ⟨hu, hteam, hactive⟩

theorem merge_ok {id : String} {r : PullRequest} (h : Memory.Orderly s.data)
    (he : (Service.mergeIn id).exec s = (.ok r, s')) : Memory.Orderly s'.data := by
  obtain ⟨p, hp, -, ⟨-, -, rfl⟩ | ⟨-, time, -, hdata⟩⟩ := mergeIn_eq_ok he
  · exact h
  · rw [hdata]
    exact h.merge id _ (h.withPullRequest (fun _ => ⟨rfl, rfl⟩) fun p hp _ => h.slots p hp)

/-! ## Deactivation -/

theorem updateUser_ok {id : String} {update : UserUpdate} {r : User} (h : Memory.Orderly s.data)
    (he : (Service.updateUserIn id update).exec s = (.ok r, s')) :
    Memory.Orderly s'.data ∧
      ∃ u ∈ Memory.users s'.data, u.id = id ∧ u.isActive = r.isActive := by
  obtain ⟨user, huser, rfl, hr, hcases⟩ := updateUserIn_eq_ok h.toIntegrity he
  have hrid : r.id = user.id := by rw [hr]; rfl
  have hstored : ∀ m : Memory, m.users = Memory.users s.data →
      ∃ u ∈ (m.withUser r).users, u.id = user.id ∧ u.isActive = r.isActive := fun m hm =>
    ⟨_, Memory.mem_withUser.mpr (.inr ⟨user, hm ▸ huser, hrid.symm, rfl⟩), rfl, rfl⟩
  rcases hcases with ⟨hstays, hdata⟩ | ⟨-, -, pool, f, hpool, hrel, hdata⟩ <;> rw [hdata]
  · refine ⟨h.withUser fun p hp hopen hrev => hstays ?_, hstored _ rfl⟩
    exact (h.manned p hp hopen user huser (hrid ▸ hrev)).resolve_right List.not_mem_nil
  · refine ⟨Memory.Orderly.withUser ?_ fun q hq hopen hrev => ?_, hstored _ rfl⟩
    · have hmem := fun v => mem_activeMembers hpool (u := v)
      refine hrel.orderly h.toIntegrity h.proper (fun p hp hopen u hu hrev => ?_) user.teamId
        (fun u hu he => ?_) fun v hv => ?_
      · exact .inl ((h.manned p hp hopen u hu hrev).resolve_right List.not_mem_nil)
      · rw [h.eq_of_userId hu huser (List.mem_singleton.mp he)]
      · exact ⟨((hmem v).mp hv).1, ((hmem v).mp hv).2.1, ((hmem v).mp hv).2.2.1⟩
    · obtain ⟨p, hp, rfl⟩ := Memory.mem_mapPullRequests.mp hq
      rw [hrel.isOpen_eq hp] at hopen
      exact absurd hrev (hrel.gone p hp hopen r.id (List.mem_singleton.mpr hrid))

theorem deactivate_ok {team : String} {ids : List String} (hnodup : ids.Nodup) {r : Deactivation}
    (h : Memory.Orderly s.data)
    (he : (Service.deactivateIn team ids).exec s = (.ok r, s')) :
    Memory.Orderly s'.data ∧
      ∀ id ∈ ids, ∃ u ∈ Memory.users s'.data, u.id = id ∧ u.isActive = false := by
  obtain ⟨hnamed, f, hrel, hdata⟩ := deactivateIn_eq_ok hnodup h.toIntegrity he
  obtain ⟨hproper, hmanned⟩ := h.deactivated ids
  have hmember : ∀ u ∈ Memory.users s.data, u.id ∈ ids → u.teamId = team := fun u hu hid => by
    obtain ⟨v, hv, he, hteam⟩ := hnamed.members u.id hid
    rwa [h.eq_of_userId hv hu he] at hteam
  have hint : (Memory.deactivated s.data ids).Integrity := h.toIntegrity.deactivated ids
  have horderly : ((Memory.deactivated s.data ids).mapPullRequests f).Orderly := by
    refine hrel.orderly hint hproper hmanned team (fun u hu hid => ?_) fun v hv => ?_
    · obtain ⟨w, hw, he⟩ := List.mem_map.mp hid
      have hw := Deactivation.mem_batch.mp hw
      rcases Memory.mem_deactivated.mp hu with ⟨hu, -⟩ | ⟨v, hv, -, rfl⟩
      · exact hmember u hu (he ▸ hw.2.1)
      · exact hmember v hv (he ▸ hw.2.1)
    · obtain ⟨hv, hteam, hactive, hnot⟩ := Deactivation.mem_remaining.mp hv
      exact ⟨Memory.mem_deactivated.mpr (.inl ⟨hv, hnot⟩), hteam, hactive⟩
  rw [hdata]
  refine ⟨horderly, fun id hid => ?_⟩
  obtain ⟨u, hu, rfl, -⟩ := hnamed.members id hid
  exact ⟨_, Memory.mem_deactivated.mpr (.inr ⟨u, hu, hid, rfl⟩), rfl, rfl⟩

/-! ## Calls -/

/-- **Every service call keeps records orderly**, whether it succeeds or fails. -/
theorem keeps_orderly (older : Instant → Instant → Bool) :
    Service.Keeps (σ := Ledger older) π fun m m' => Memory.Orderly m → Memory.Orderly m' where
  toAccumulates := .of_invariant _
  createTeam team :=
    have acc := Accumulates.of_invariant _
    acc.transact (.write (orderly_createTeam team))
  createUser user :=
    have acc := Accumulates.of_invariant _
    acc.transact (acc.bind (acc.read _) fun _ => .write (orderly_createUser user))
  updateUser _ _ := Accumulates.transact_of_ok (.of_invariant _) fun _ _ _ he h =>
    (updateUser_ok h he).1
  deactivate _ ids := Accumulates.transact_of_ok (.of_invariant _) fun _ _ _ he h =>
    (deactivate_ok (Service.nodup_distinct ids) h he).1
  createPullRequest _ _ _ _ :=
    Accumulates.transact_of_ok (.of_invariant _) fun _ _ _ he h => createPullRequest_ok h he
  reassign _ _ := Accumulates.transact_of_ok (.of_invariant _) fun _ _ _ he h =>
    reassign_ok h he
  merge _ := Accumulates.transact_of_ok (.of_invariant _) fun _ _ _ he h => merge_ok h he

end ReviewRota.Ledger
