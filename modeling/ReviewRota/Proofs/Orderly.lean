import ReviewRota.Proofs.Deactivation

/-!
# Orderly records

What the services add to the integrity of records: how pull requests are staffed.

* `PullRequest.Proper`: slots numbered without a gap, held by others than the author, all of them
  of the author's team. Who takes over comes from the team of the one who leaves, so it is this
  very condition that keeps reviewers in the author's team.
* `Memory.Manned`: the reviewers of open pull requests are active, up to some leavers.
* `Memory.Orderly`: integrity, proper pull requests, active reviewers.
* **`Memory.Relieved.orderly`**: records are orderly once all leavers have given way, whether they
  were inactive before or not.
-/

namespace ReviewRota

/-- A pull request as the services staff it. -/
structure PullRequest.Proper (m : Memory) (p : PullRequest) : Prop where
  fits : m.Fits p.id p.reviewers
  dense : Dense p.reviewers
  author_notMem : p.authorId ∉ p.reviewerIds
  sameTeam : ∀ author ∈ m.users, author.id = p.authorId →
    ∀ u ∈ m.users, u.id ∈ p.reviewerIds → u.teamId = author.teamId

/-- Every reviewer of an open pull request is active or one of the leavers. -/
def Memory.Manned (m : Memory) (leavers : List String) : Prop :=
  ∀ p ∈ m.pullRequests, p.isOpen = true →
    ∀ u ∈ m.users, u.id ∈ p.reviewerIds → u.isActive = true ∨ u.id ∈ leavers

/-- Records as the services keep them. -/
structure Memory.Orderly (m : Memory) : Prop extends m.Integrity where
  proper : ∀ p ∈ m.pullRequests, p.Proper m
  manned : m.Manned []

open PullRequest (Proper HandOver)

/-! ## Proper pull requests -/

namespace PullRequest.Proper

variable {m : Memory} {p q : PullRequest}

theorem of_users {m' : Memory} (h : p.Proper m) (hauthor : ∃ user ∈ m.users, user.id = p.authorId)
    (hstay : ∀ u ∈ m.users, ∃ u' ∈ m'.users, u'.id = u.id)
    (hback : ∀ u' ∈ m'.users, (∃ u ∈ m.users, u.id = u'.id) →
      ∃ u ∈ m.users, u.id = u'.id ∧ u.teamId = u'.teamId) : p.Proper m' where
  fits := h.fits.of_users hstay
  dense := h.dense
  author_notMem := h.author_notMem
  sameTeam author ha he u hu hrev := by
    obtain ⟨author', ha', hid, hteam⟩ := hback author ha (he ▸ hauthor)
    obtain ⟨slot, hslot, hholder⟩ := List.mem_map.mp hrev
    obtain ⟨u', hu', hid', hteam'⟩ := hback u hu (hholder ▸ h.fits.known slot hslot)
    rw [← hteam, ← hteam']
    exact h.sameTeam author' ha' (hid.trans he) u' hu' (hid' ▸ hrev)

theorem mapUsers (h : p.Proper m) (hauthor : ∃ user ∈ m.users, user.id = p.authorId)
    {g : User → User} (hg : ∀ u, (g u).id = u.id ∧ (g u).teamId = u.teamId) :
    p.Proper (m.mapUsers g) := by
  refine h.of_users hauthor (fun u hu => ?_) fun u hu _ => ?_
  · exact ⟨g u, Memory.mem_mapUsers.mpr ⟨u, hu, rfl⟩, (hg u).1⟩
  · obtain ⟨v, hv, rfl⟩ := Memory.mem_mapUsers.mp hu
    exact ⟨v, hv, (hg v).1.symm, (hg v).2.symm⟩

theorem of_users_eq {m' : Memory} (h : p.Proper m)
    (hauthor : ∃ user ∈ m.users, user.id = p.authorId) (hu : m'.users = m.users) : p.Proper m' :=
  h.of_users hauthor (fun u hu' => ⟨u, hu ▸ hu', rfl⟩) fun u hu' _ => ⟨u, hu ▸ hu', rfl, rfl⟩

/-- **A hand-over within one team keeps a pull request proper.** The reviewer who leaves is of the
author's team, and so is the one who comes. -/
theorem handOver (hint : m.Integrity) (h : p.Proper m) {leavers : List String} {pool : List User}
    (hpq : p.HandOver leavers pool q) {team : String}
    (hleavers : ∀ u ∈ m.users, u.id ∈ leavers → u.teamId = team)
    (hpool : ∀ v ∈ pool, v ∈ m.users ∧ v.teamId = team) : q.Proper m := by
  obtain ⟨old, hold, new, hnew, hrev, hcan, time, rfl⟩ := hpq
  have hne : new.id ≠ old := fun he => (canTake_iff.mp hcan).2 (he ▸ hrev)
  constructor
  case fits => exact h.fits.handedOver time (canTake_iff.mp hcan).2 ⟨new, (hpool new hnew).1, rfl⟩
  case dense => exact dense_handedOver h.fits
  case author_notMem =>
    intro hmem
    rcases (mem_reviewerIds_handedOver hne).mp hmem with ⟨hmem, -⟩ | ⟨he, -⟩
    · exact h.author_notMem hmem
    · exact (canTake_iff.mp hcan).1 he.symm
  case sameTeam =>
    intro author ha he u hu hmem
    rcases (mem_reviewerIds_handedOver hne).mp hmem with ⟨hmem, -⟩ | ⟨hid, -⟩
    · exact h.sameTeam author ha he u hu hmem
    · obtain ⟨slot, hslot, hholder⟩ := List.mem_map.mp hrev
      obtain ⟨leaver, hleaver, hid'⟩ := h.fits.known slot hslot
      have hleaver' : leaver.id = old := hid'.trans hholder
      rw [hint.eq_of_userId hu (hpool new hnew).1 hid, (hpool new hnew).2,
        ← hleavers leaver hleaver (hleaver' ▸ hold)]
      exact h.sameTeam author ha he leaver hleaver (hleaver' ▸ hrev)

theorem steps (hint : m.Integrity) (h : p.Proper m) {leavers : List String} {pool : List User}
    (hpq : Relation.ReflTransGen (HandOver leavers pool) p q) {team : String}
    (hleavers : ∀ u ∈ m.users, u.id ∈ leavers → u.teamId = team)
    (hpool : ∀ v ∈ pool, v ∈ m.users ∧ v.teamId = team) : q.Proper m := by
  induction hpq with
  | refl => exact h
  | tail _ hstep ih => exact ih.handOver hint hstep hleavers hpool

end PullRequest.Proper

/-! ## Records after hand-overs -/

variable {m : Memory}

/-- **All leavers have given way**: whatever they were, the records are orderly. -/
theorem Memory.Relieved.orderly {leavers : List String} {pool : List User}
    {f : PullRequest → PullRequest} (h : m.Relieved leavers pool f) (hint : m.Integrity)
    (hproper : ∀ p ∈ m.pullRequests, p.Proper m) (hmanned : m.Manned leavers) (team : String)
    (hleavers : ∀ u ∈ m.users, u.id ∈ leavers → u.teamId = team)
    (hpool : ∀ v ∈ pool, v ∈ m.users ∧ v.teamId = team ∧ v.isActive = true) :
    (m.mapPullRequests f).Orderly where
  toIntegrity := h.integrity hint fun v hv => ⟨v, (hpool v hv).1, rfl⟩
  proper q hq := by
    obtain ⟨p, hp, rfl⟩ := Memory.mem_mapPullRequests.mp hq
    have hq' : (f p).Proper m := (hproper p hp).steps hint (h.steps p hp) hleavers
      fun v hv => ⟨(hpool v hv).1, (hpool v hv).2.1⟩
    refine hq'.of_users_eq ?_ rfl
    rw [(PullRequest.sameOpening_of_steps (h.steps p hp)).author]
    exact hint.authors p hp
  manned q hq hopen u hu hrev := by
    obtain ⟨p, hp, rfl⟩ := Memory.mem_mapPullRequests.mp hq
    rw [h.isOpen_eq hp] at hopen
    rcases PullRequest.mem_of_steps (h.steps p hp) hrev with hold | ⟨v, hv, he⟩
    · rcases hmanned p hp hopen u hu hold with hactive | hleaver
      · exact .inl hactive
      · exact absurd hrev (h.gone p hp hopen u.id hleaver)
    · rw [hint.eq_of_userId hu (hpool v hv).1 he.symm]
      exact .inl (hpool v hv).2.2

namespace Memory.Orderly

theorem handOver (h : m.Orderly) {leavers : List String} {pool : List User} {p q : PullRequest}
    (hp : p ∈ m.pullRequests) (hpq : p.HandOver leavers pool q) {team : String}
    (hleavers : ∀ u ∈ m.users, u.id ∈ leavers → u.teamId = team)
    (hpool : ∀ v ∈ pool, v ∈ m.users ∧ v.teamId = team ∧ v.isActive = true) :
    (m.mapPullRequests (PullRequest.instead q)).Orderly where
  toIntegrity :=
    Ledger.integrity_instead h.toIntegrity (fun v hv => ⟨v, (hpool v hv).1, rfl⟩) hp hpq
  proper r hr := by
    obtain ⟨r, hmem, rfl⟩ := Memory.mem_mapPullRequests.mp hr
    unfold PullRequest.instead
    split
    · have hq : q.Proper m := (h.proper p hp).handOver h.toIntegrity hpq hleavers
        fun v hv => ⟨(hpool v hv).1, (hpool v hv).2.1⟩
      refine hq.of_users_eq ?_ rfl
      rw [hpq.sameOpening.author]
      exact h.authors p hp
    · exact (h.proper r hmem).of_users_eq (h.authors r hmem) rfl
  manned r hr := by
    obtain ⟨r, hmem, rfl⟩ := Memory.mem_mapPullRequests.mp hr
    unfold PullRequest.instead
    split
    · intro hopen u hu hrev
      rw [PullRequest.isOpen, hpq.sameOpening.status] at hopen
      obtain ⟨old, -, new, hnew, -, -, hmem⟩ := hpq.mem_reviewerIds
      rcases (hmem u.id).mp hrev with ⟨hrev, -⟩ | he
      · exact h.manned p hp hopen u hu hrev
      · rw [h.eq_of_userId hu (hpool new hnew).1 he]
        exact .inl (hpool new hnew).2.2
    · exact h.manned r hmem

/-! ## Records after other changes -/

theorem createTeam (h : m.Orderly) (team : Team)
    (hint : Integrity { m with teams := m.teams ++ [team] }) :
    Orderly { m with teams := m.teams ++ [team] } where
  toIntegrity := hint
  proper p hp := (h.proper p hp).of_users_eq (h.authors p hp) rfl
  manned := h.manned

theorem createUser (h : m.Orderly) {user : User} (hid : user.id ∉ m.users.map User.id)
    (hint : Integrity { m with users := m.users ++ [user] }) :
    Orderly { m with users := m.users ++ [user] } where
  toIntegrity := hint
  proper p hp := by
    refine (h.proper p hp).of_users (h.authors p hp)
      (fun u hu => ⟨u, List.mem_append_left _ hu, rfl⟩) fun u hu hknown => ?_
    rcases List.mem_append.mp hu with hu | hu
    · exact ⟨u, hu, rfl, rfl⟩
    · obtain ⟨v, hv, he⟩ := hknown
      rw [List.mem_singleton.mp hu] at he
      exact absurd (List.mem_map.mpr ⟨v, hv, he⟩) hid
  manned p hp hopen u hu hrev := by
    rcases List.mem_append.mp hu with hu | hu
    · exact h.manned p hp hopen u hu hrev
    · obtain ⟨slot, hslot, hholder⟩ := List.mem_map.mp hrev
      obtain ⟨v, hv, he⟩ := (h.slots p hp).known slot hslot
      rw [List.mem_singleton.mp hu] at hholder
      exact absurd (List.mem_map.mpr ⟨v, hv, he.trans hholder⟩) hid

/-- A user who reviews an open pull request has to stay active. -/
theorem withUser (h : m.Orderly) {user : User}
    (hactive : ∀ p ∈ m.pullRequests, p.isOpen = true → user.id ∈ p.reviewerIds →
      user.isActive = true) : Orderly (m.withUser user) where
  toIntegrity := h.toIntegrity.withUser user
  proper p hp := (h.proper p hp).mapUsers (h.authors p hp) fun u => by
    split <;> exact ⟨rfl, rfl⟩
  manned p hp hopen u hu hrev := by
    rcases mem_withUser.mp hu with ⟨hu, -⟩ | ⟨v, hv, hid, rfl⟩
    · exact h.manned p hp hopen u hu hrev
    · exact .inl (hactive p hp hopen (hid ▸ hrev))

/-- Users become inactive; the reviewers among them are leavers from then on. -/
theorem deactivated (h : m.Orderly) (ids : List String) :
    (∀ p ∈ (m.deactivated ids).pullRequests, p.Proper (m.deactivated ids)) ∧
      (m.deactivated ids).Manned ((Deactivation.batch m.users ids).map User.id) := by
  refine ⟨fun p hp => ?_, fun p hp hopen u hu hrev => ?_⟩
  · exact (h.proper p hp).mapUsers (h.authors p hp) fun u => by split <;> exact ⟨rfl, rfl⟩
  · rcases mem_deactivated.mp hu with ⟨hu, -⟩ | ⟨v, hv, hid, rfl⟩
    · exact .inl ((h.manned p hp hopen u hu hrev).resolve_right List.not_mem_nil)
    · refine .inr (List.mem_map.mpr ⟨v, Deactivation.mem_batch.mpr ⟨hv, hid, ?_⟩, rfl⟩)
      exact (h.manned p hp hopen v hv hrev).resolve_right List.not_mem_nil

theorem createPullRequest (h : m.Orderly) {p : PullRequest}
    (hint : Integrity { m with pullRequests := m.pullRequests ++ [p] }) (hproper : p.Proper m)
    (hactive : ∀ u ∈ m.users, u.id ∈ p.reviewerIds → u.isActive = true) :
    Orderly { m with pullRequests := m.pullRequests ++ [p] } where
  toIntegrity := hint
  proper q hq := by
    have hq' : q.Proper m := by
      rcases List.mem_append.mp hq with hq | hq
      · exact h.proper q hq
      · exact List.mem_singleton.mp hq ▸ hproper
    exact hq'.of_users_eq (hint.authors q hq) rfl
  manned q hq hopen u hu hrev := by
    rcases List.mem_append.mp hq with hq | hq
    · exact h.manned q hq hopen u hu hrev
    · exact .inl (hactive u hu (List.mem_singleton.mp hq ▸ hrev))

theorem merge (h : m.Orderly) (id : String) (time : Option Instant)
    (hint : Integrity (m.withPullRequest id fun p =>
      { p with status := .merged, mergedAt := time })) :
    Orderly (m.withPullRequest id fun p => { p with status := .merged, mergedAt := time }) where
  toIntegrity := hint
  proper q hq := by
    obtain ⟨p, hp, rfl⟩ := mem_mapPullRequests.mp hq
    have hp' : p.Proper (m.withPullRequest id fun p =>
        { p with status := .merged, mergedAt := time }) :=
      (h.proper p hp).of_users_eq (h.authors p hp) rfl
    split
    · exact ⟨hp'.fits, hp'.dense, hp'.author_notMem, hp'.sameTeam⟩
    · exact hp'
  manned q hq := by
    obtain ⟨p, hp, rfl⟩ := mem_mapPullRequests.mp hq
    split
    · exact fun hopen => absurd hopen (by simp [PullRequest.isOpen])
    · exact h.manned p hp

end Memory.Orderly

end ReviewRota
