import ReviewRota.Proofs.Ledger
import ReviewRota.Proofs.Slots

/-!
# Integrity of records

What every change asks of the records and leaves true of them.

* `Memory.Integrity`: ids and team names are unique, references lead somewhere, slot lists fit.
* `Memory.createTeam_cases`, …, `Memory.changePullRequest_cases`: a change is refused and leaves the
  records alone, or its conditions hold and it is made.
* `Ledger.after_createTeam`, …, `Ledger.after_setReviewers`: what holds after a change.
* **`Ledger.keeps_integrity`**: every change keeps integrity.
* `Ledger.team_iff`, `Ledger.user_iff`, `Ledger.pullRequest_iff`: where ids are unique, what is
  stored is what is read.
-/

namespace ReviewRota

/-- Records as the checks of a store keep them. -/
structure Memory.Integrity (m : Memory) : Prop where
  teamIds : (m.teams.map Team.id).Nodup
  teamNames : (m.teams.map Team.name).Nodup
  userIds : (m.users.map User.id).Nodup
  userTeams : ∀ user ∈ m.users, ∃ team ∈ m.teams, team.id = user.teamId
  ids : (m.pullRequests.map PullRequest.id).Nodup
  authors : ∀ p ∈ m.pullRequests, ∃ user ∈ m.users, user.id = p.authorId
  slots : ∀ p ∈ m.pullRequests, m.Fits p.id p.reviewers

theorem find?_key_eq_some_iff {α : Type} {key : α → String} {l : List α} (h : (l.map key).Nodup)
    {id : String} {a : α} : l.find? (key · == id) = some a ↔ a ∈ l ∧ key a = id := by
  constructor
  · exact fun hf => ⟨List.mem_of_find?_eq_some hf, by simpa using List.find?_some hf⟩
  · rintro ⟨ha, rfl⟩
    have hsome : (l.find? (key · == key a)).isSome :=
      List.find?_isSome.mpr ⟨a, ha, beq_self_eq_true _⟩
    obtain ⟨b, hb⟩ := Option.isSome_iff_exists.mp hsome
    have hkey : key b = key a := by simpa using List.find?_some hb
    rw [hb, List.inj_on_of_nodup_map h (List.mem_of_find?_eq_some hb) ha hkey]

namespace Memory

variable {m : Memory}

/-! ## Changes and their conditions -/

theorem createTeam_cases (team : Team) :
    (m.createTeam team = (.error .alreadyExists, m)) ∨
      (team.id ∉ m.teams.map Team.id ∧ team.name ∉ m.teams.map Team.name) ∧
        m.createTeam team = (.ok (), { m with teams := m.teams ++ [team] }) := by
  unfold createTeam
  split
  · exact .inl rfl
  · rename_i h
    rw [List.any_eq_true] at h
    push Not at h
    refine .inr ⟨⟨?_, ?_⟩, rfl⟩ <;> rintro hmem <;> obtain ⟨t, ht, he⟩ := List.mem_map.mp hmem <;>
      exact h t ht (by simp [he])

theorem createUser_cases (user : User) :
    (∃ fault, m.createUser user = (.error fault, m)) ∨
      (user.id ∉ m.users.map User.id ∧ ∃ team ∈ m.teams, team.id = user.teamId) ∧
        m.createUser user = (.ok (), { m with users := m.users ++ [user] }) := by
  unfold createUser
  split
  · exact .inl ⟨_, rfl⟩
  split
  · exact .inl ⟨_, rfl⟩
  · rename_i hid hteam
    rw [isSome_findUser] at hid
    exact .inr ⟨⟨fun hmem => hid (by simpa using hmem), not_isNone_findTeam.mp hteam⟩, rfl⟩

/-- The records with all users changed. -/
def mapUsers (m : Memory) (g : User → User) : Memory :=
  { m with users := m.users.map g }

/-- The records with the name and the active flag of a user as given. -/
def withUser (m : Memory) (user : User) : Memory :=
  m.mapUsers fun u =>
    if u.id = user.id then { u with name := user.name, isActive := user.isActive } else u

theorem updateUser_cases (user : User) :
    (m.updateUser user = (.error .notFound, m)) ∨
      (∃ u ∈ m.users, u.id = user.id) ∧ m.updateUser user = (.ok (), m.withUser user) := by
  unfold updateUser
  split
  · exact .inl rfl
  · rename_i h
    exact .inr ⟨not_isNone_findUser.mp h, rfl⟩

theorem updateUser_eq {user : User} (h : ∃ u ∈ m.users, u.id = user.id) :
    m.updateUser user = (.ok (), m.withUser user) :=
  if_neg (not_isNone_findUser.mpr h)

theorem createPullRequest_cases (p : PullRequest) :
    (∃ fault, m.createPullRequest p = (.error fault, m)) ∨
      (p.id ∉ m.pullRequests.map PullRequest.id ∧ (∃ user ∈ m.users, user.id = p.authorId) ∧
          m.Fits p.id p.reviewers) ∧
        m.createPullRequest p = (.ok (), { m with
          pullRequests := m.pullRequests ++ [{ p with reviewers := sortSlots p.reviewers }] }) := by
  unfold createPullRequest
  split
  · exact .inl ⟨_, rfl⟩
  split
  · exact .inl ⟨_, rfl⟩
  split
  · exact .inl ⟨_, rfl⟩
  · rename_i hid hauthor hslots
    rw [isSome_findPullRequest] at hid
    rw [not_isNone_findUser] at hauthor
    rw [Bool.not_eq_true', Bool.not_eq_false, acceptsSlots_iff] at hslots
    exact .inr ⟨⟨fun hmem => hid (by simpa using hmem), hauthor, hslots⟩, rfl⟩

theorem createPullRequest_eq {p : PullRequest}
    (hauthor : ∃ user ∈ m.users, user.id = p.authorId) :
    m.createPullRequest p =
      if (m.findPullRequest p.id).isSome then (.error .alreadyExists, m)
      else if m.acceptsSlots p.id p.reviewers then (.ok (), { m with
        pullRequests := m.pullRequests ++ [{ p with reviewers := sortSlots p.reviewers }] })
      else (.error .constraintViolation, m) := by
  rw [createPullRequest, if_neg (not_isNone_findUser.mpr hauthor)]
  cases m.acceptsSlots p.id p.reviewers <;> rfl

/-- The records with all pull requests changed. -/
def mapPullRequests (m : Memory) (f : PullRequest → PullRequest) : Memory :=
  { m with pullRequests := m.pullRequests.map f }

/-- The records with one pull request changed. -/
def withPullRequest (m : Memory) (id : String) (f : PullRequest → PullRequest) : Memory :=
  m.mapPullRequests fun p => if p.id = id then f p else p

theorem changePullRequest_cases (id : String) (f : PullRequest → PullRequest) :
    (m.changePullRequest id f = (.error .notFound, m)) ∨
      (∃ p ∈ m.pullRequests, p.id = id) ∧
        m.changePullRequest id f = (.ok (), m.withPullRequest id f) := by
  unfold changePullRequest
  split
  · exact .inl rfl
  · rename_i h
    exact .inr ⟨not_isNone_findPullRequest.mp h, rfl⟩

theorem changePullRequest_eq {id : String} (f : PullRequest → PullRequest)
    (h : ∃ p ∈ m.pullRequests, p.id = id) :
    m.changePullRequest id f = (.ok (), m.withPullRequest id f) :=
  if_neg (not_isNone_findPullRequest.mpr h)

/-- The records with a slot list in the place of the present one. -/
def withSlots (m : Memory) (id : String) (slots : List ReviewerSlot) : Memory :=
  m.withPullRequest id fun p => { p with reviewers := sortSlots slots }

theorem setReviewers_cases (id : String) (slots : List ReviewerSlot) :
    (∃ fault, m.setReviewers id slots = (.error fault, m)) ∨
      ((∃ p ∈ m.pullRequests, p.id = id) ∧ m.Fits id slots) ∧
        m.setReviewers id slots = (.ok (), m.withSlots id slots) := by
  unfold setReviewers
  split
  · exact .inl ⟨_, rfl⟩
  · rename_i h
    rw [Bool.not_eq_true', Bool.not_eq_false, acceptsSlots_iff] at h
    rcases changePullRequest_cases (m := m) id fun p => { p with reviewers := sortSlots slots }
      with he | ⟨hknown, he⟩
    · exact .inl ⟨_, he⟩
    · exact .inr ⟨⟨hknown, h⟩, he⟩

theorem setReviewers_eq {id : String} (slots : List ReviewerSlot)
    (hknown : ∃ p ∈ m.pullRequests, p.id = id) :
    m.setReviewers id slots =
      if m.acceptsSlots id slots then (.ok (), m.withSlots id slots)
      else (.error .constraintViolation, m) := by
  rw [setReviewers, changePullRequest_eq _ hknown]
  cases m.acceptsSlots id slots <;> rfl

/-! ## Records after a change -/

theorem mapUsers_id (m : Memory) : m.mapUsers id = m :=
  congrArg (Memory.mk m.teams · m.pullRequests) (List.map_id _)

theorem mapPullRequests_id (m : Memory) : m.mapPullRequests id = m :=
  congrArg (Memory.mk m.teams m.users) (List.map_id _)

theorem mem_mapUsers {g : User → User} {u : User} :
    u ∈ (m.mapUsers g).users ↔ ∃ v ∈ m.users, g v = u :=
  List.mem_map

theorem mem_withUser {user u : User} :
    u ∈ (m.withUser user).users ↔
      (u ∈ m.users ∧ u.id ≠ user.id) ∨
        ∃ v ∈ m.users, v.id = user.id ∧
          u = { v with name := user.name, isActive := user.isActive } := by
  rw [withUser, mem_mapUsers]
  constructor
  · rintro ⟨v, hv, rfl⟩
    by_cases hid : v.id = user.id
    · exact .inr ⟨v, hv, hid, if_pos hid⟩
    · rw [if_neg hid]
      exact .inl ⟨hv, hid⟩
  · rintro (⟨hu, hid⟩ | ⟨v, hv, hid, rfl⟩)
    · exact ⟨u, hu, if_neg hid⟩
    · exact ⟨v, hv, if_pos hid⟩

theorem mem_mapPullRequests {f : PullRequest → PullRequest} {q : PullRequest} :
    q ∈ (m.mapPullRequests f).pullRequests ↔ ∃ p ∈ m.pullRequests, f p = q :=
  List.mem_map

/-! ## Integrity after a change -/

theorem nodup_map_append_singleton {α : Type} {l : List α} {f : α → String} {a : α}
    (hl : (l.map f).Nodup) (ha : f a ∉ l.map f) : ((l ++ [a]).map f).Nodup := by
  rw [List.map_append, List.map_singleton, List.nodup_append]
  exact ⟨hl, List.nodup_singleton _, fun x hx y hy he => ha (by simp_all)⟩

namespace Integrity

variable (h : m.Integrity)
include h

theorem eq_of_id {p q : PullRequest} (hp : p ∈ m.pullRequests) (hq : q ∈ m.pullRequests)
    (he : p.id = q.id) : p = q :=
  List.inj_on_of_nodup_map h.ids hp hq he

theorem eq_of_userId {u v : User} (hu : u ∈ m.users) (hv : v ∈ m.users) (he : u.id = v.id) :
    u = v :=
  List.inj_on_of_nodup_map h.userIds hu hv he

theorem createTeam {team : Team} (hid : team.id ∉ m.teams.map Team.id)
    (hname : team.name ∉ m.teams.map Team.name) :
    Integrity { m with teams := m.teams ++ [team] } where
  teamIds := nodup_map_append_singleton h.teamIds hid
  teamNames := nodup_map_append_singleton h.teamNames hname
  userIds := h.userIds
  userTeams user huser := by
    obtain ⟨team, hteam, he⟩ := h.userTeams user huser
    exact ⟨team, List.mem_append_left _ hteam, he⟩
  ids := h.ids
  authors := h.authors
  slots p hp := (h.slots p hp).of_users fun user huser => ⟨user, huser, rfl⟩

theorem createUser {user : User} (hid : user.id ∉ m.users.map User.id)
    (hteam : ∃ team ∈ m.teams, team.id = user.teamId) :
    Integrity { m with users := m.users ++ [user] } where
  teamIds := h.teamIds
  teamNames := h.teamNames
  userIds := nodup_map_append_singleton h.userIds hid
  userTeams u hu := by
    rcases List.mem_append.mp hu with hu | hu
    · exact h.userTeams u hu
    · rw [List.mem_singleton.mp hu]
      exact hteam
  ids := h.ids
  authors p hp := by
    obtain ⟨u, hu, he⟩ := h.authors p hp
    exact ⟨u, List.mem_append_left _ hu, he⟩
  slots p hp := (h.slots p hp).of_users fun u hu => ⟨u, List.mem_append_left _ hu, rfl⟩

theorem mapUsers {g : User → User} (hg : ∀ u, (g u).id = u.id ∧ (g u).teamId = u.teamId) :
    Integrity (m.mapUsers g) where
  teamIds := h.teamIds
  teamNames := h.teamNames
  userIds := by
    have hids : (m.mapUsers g).users.map User.id = m.users.map User.id := by
      rw [Memory.mapUsers, List.map_map]
      exact List.map_congr_left fun u _ => (hg u).1
    rw [hids]
    exact h.userIds
  userTeams u hu := by
    obtain ⟨v, hv, rfl⟩ := mem_mapUsers.mp hu
    rw [(hg v).2]
    exact h.userTeams v hv
  ids := h.ids
  authors p hp := by
    obtain ⟨u, hu, he⟩ := h.authors p hp
    exact ⟨g u, mem_mapUsers.mpr ⟨u, hu, rfl⟩, (hg u).1.trans he⟩
  slots p hp := (h.slots p hp).of_users fun u hu => ⟨g u, mem_mapUsers.mpr ⟨u, hu, rfl⟩, (hg u).1⟩

theorem withUser (user : User) : Integrity (m.withUser user) :=
  h.mapUsers fun u => by split <;> exact ⟨rfl, rfl⟩

theorem createPullRequest {p : PullRequest} (hid : p.id ∉ m.pullRequests.map PullRequest.id)
    (hauthor : ∃ user ∈ m.users, user.id = p.authorId) (hslots : m.Fits p.id p.reviewers) :
    Integrity { m with
      pullRequests := m.pullRequests ++ [{ p with reviewers := sortSlots p.reviewers }] } where
  teamIds := h.teamIds
  teamNames := h.teamNames
  userIds := h.userIds
  userTeams := h.userTeams
  ids := nodup_map_append_singleton h.ids hid
  authors q hq := by
    rcases List.mem_append.mp hq with hq | hq
    · exact h.authors q hq
    · rw [List.mem_singleton.mp hq]
      exact hauthor
  slots q hq := by
    have hq' : m.Fits q.id q.reviewers := by
      rcases List.mem_append.mp hq with hq | hq
      · exact h.slots q hq
      · rw [List.mem_singleton.mp hq]
        exact hslots.sortSlots
    exact hq'.of_users fun user huser => ⟨user, huser, rfl⟩

theorem mapPullRequests {f : PullRequest → PullRequest}
    (hid : ∀ p ∈ m.pullRequests, (f p).id = p.id ∧ (f p).authorId = p.authorId)
    (hslots : ∀ p ∈ m.pullRequests, m.Fits p.id (f p).reviewers) :
    Integrity (m.mapPullRequests f) where
  teamIds := h.teamIds
  teamNames := h.teamNames
  userIds := h.userIds
  userTeams := h.userTeams
  ids := by
    have hids : (m.mapPullRequests f).pullRequests.map PullRequest.id =
        m.pullRequests.map PullRequest.id := by
      rw [Memory.mapPullRequests, List.map_map]
      exact List.map_congr_left fun p hp => (hid p hp).1
    rw [hids]
    exact h.ids
  authors q hq := by
    obtain ⟨p, hp, rfl⟩ := mem_mapPullRequests.mp hq
    rw [(hid p hp).2]
    exact h.authors p hp
  slots q hq := by
    obtain ⟨p, hp, rfl⟩ := mem_mapPullRequests.mp hq
    rw [(hid p hp).1]
    exact (hslots p hp).of_users fun user huser => ⟨user, huser, rfl⟩

theorem withPullRequest {id : String} {f : PullRequest → PullRequest}
    (hid : ∀ p, (f p).id = p.id ∧ (f p).authorId = p.authorId)
    (hslots : ∀ p ∈ m.pullRequests, p.id = id → m.Fits p.id (f p).reviewers) :
    Integrity (m.withPullRequest id f) := by
  refine h.mapPullRequests (fun p hp => ?_) fun p hp => ?_
  · split
    · exact hid p
    · exact ⟨rfl, rfl⟩
  · split
    · exact hslots p hp ‹_›
    · exact h.slots p hp

theorem withSlots {id : String} {slots : List ReviewerSlot} (hslots : m.Fits id slots) :
    Integrity (m.withSlots id slots) :=
  h.withPullRequest (fun _ => ⟨rfl, rfl⟩) fun _ _ he => he ▸ hslots.sortSlots

end Integrity

end Memory

namespace Ledger

/-! ## Refused or made

What holds after a change, if it holds of the records as they are and of those that the change makes
on its conditions. -/

section

variable {older : Instant → Instant → Bool} {m : Ledger older} {Q : Memory → Prop}

theorem after_createTeam {team : Team} (hm : Q m)
    (hmade : team.id ∉ m.teams.map Team.id → team.name ∉ m.teams.map Team.name →
      Q { m with teams := m.teams ++ [team] }) : Q (Repository.createTeam team m).2 := by
  change Q (Memory.createTeam m team).2
  rcases Memory.createTeam_cases (m := m) team with he | ⟨⟨hid, hname⟩, he⟩ <;> rw [he]
  · exact hm
  · exact hmade hid hname

theorem after_createUser {user : User} (hm : Q m)
    (hmade : user.id ∉ m.users.map User.id → (∃ team ∈ m.teams, team.id = user.teamId) →
      Q { m with users := m.users ++ [user] }) : Q (Repository.createUser user m).2 := by
  change Q (Memory.createUser m user).2
  rcases Memory.createUser_cases (m := m) user with ⟨_, he⟩ | ⟨⟨hid, hteam⟩, he⟩ <;> rw [he]
  · exact hm
  · exact hmade hid hteam

theorem after_updateUser {user : User} (hm : Q m) (hmade : Q (Memory.withUser m user)) :
    Q (Repository.updateUser user m).2 := by
  change Q (Memory.updateUser m user).2
  rcases Memory.updateUser_cases (m := m) user with he | ⟨-, he⟩ <;> rw [he]
  · exact hm
  · exact hmade

theorem after_createPullRequest {p : PullRequest} (hm : Q m)
    (hmade : p.id ∉ m.pullRequests.map PullRequest.id →
      (∃ user ∈ m.users, user.id = p.authorId) → Memory.Fits m p.id p.reviewers →
      Q { m with pullRequests := m.pullRequests ++
        [{ p with reviewers := Memory.sortSlots p.reviewers }] }) :
    Q (Repository.createPullRequest p m).2 := by
  change Q (Memory.createPullRequest m p).2
  rcases Memory.createPullRequest_cases (m := m) p with ⟨_, he⟩ | ⟨⟨hid, hauthor, hfits⟩, he⟩ <;>
    rw [he]
  · exact hm
  · exact hmade hid hauthor hfits

theorem after_setStatus {id : String} {status : Status} {time : Option Instant} (hm : Q m)
    (hmade : Q (Memory.withPullRequest m id fun p => { p with status, mergedAt := time })) :
    Q (Repository.setStatus id status time m).2 := by
  change Q (Memory.changePullRequest m id _).2
  rcases Memory.changePullRequest_cases (m := m) id
    fun p => { p with status, mergedAt := time } with he | ⟨-, he⟩ <;> rw [he]
  · exact hm
  · exact hmade

theorem after_setReviewers {id : String} {slots : List ReviewerSlot} (hm : Q m)
    (hmade : Memory.Fits m id slots → Q (Memory.withSlots m id slots)) :
    Q (Repository.setReviewers id slots m).2 := by
  change Q (Memory.setReviewers m id slots).2
  rcases Memory.setReviewers_cases (m := m) id slots with ⟨_, he⟩ | ⟨⟨-, hfits⟩, he⟩ <;> rw [he]
  · exact hm
  · exact hmade hfits

end

/-- **Every change keeps the integrity of records.** -/
theorem keeps_integrity (older : Instant → Instant → Bool) :
    Repository.Keeps (σ := Ledger older) fun m m' => Memory.Integrity m → Memory.Integrity m' where
  refl _ := id
  trans h h' := h' ∘ h
  createTeam _ _ h := after_createTeam h h.createTeam
  createUser _ _ h := after_createUser h h.createUser
  updateUser user _ h := after_updateUser h (h.withUser user)
  createPullRequest _ _ h := after_createPullRequest h h.createPullRequest
  setStatus _ _ _ _ h :=
    after_setStatus h (h.withPullRequest (fun _ => ⟨rfl, rfl⟩) fun p hp _ => h.slots p hp)
  setReviewers _ _ _ h := after_setReviewers h h.withSlots

/-! ## Reading by unique ids -/

variable {older : Instant → Instant → Bool} {m : Ledger older} (h : Memory.Integrity m)
include h

theorem team_iff {id : String} {team : Team} :
    Repository.team id m = .ok team ↔ team ∈ Memory.teams m ∧ team.id = id :=
  orNotFound_eq_ok.trans (find?_key_eq_some_iff h.teamIds)

theorem user_iff {id : String} {u : User} :
    Repository.user id m = .ok u ↔ u ∈ Memory.users m ∧ u.id = id :=
  orNotFound_eq_ok.trans (find?_key_eq_some_iff h.userIds)

theorem pullRequest_iff {lock : Bool} {id : String} {p : PullRequest} :
    Repository.pullRequest lock id m = .ok p ↔ p ∈ Memory.pullRequests m ∧ p.id = id :=
  orNotFound_eq_ok.trans (find?_key_eq_some_iff h.ids)

theorem nodup_activeMembers {team : String} {except : List String} {pool : List User}
    (hpool : Repository.activeMembers team except m = .ok pool) : (pool.map User.id).Nodup := by
  rw [activeMembers_eq, Except.ok.injEq] at hpool
  rw [← hpool]
  exact ((perm_sortBy _ _).map _).nodup_iff.mpr (h.userIds.sublist (List.filter_sublist.map _))

end Ledger

end ReviewRota
