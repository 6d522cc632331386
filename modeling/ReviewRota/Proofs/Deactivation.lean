import ReviewRota.Proofs.Cascade

/-!
# Bulk deactivation

* `Memory.deactivated`: the records with some users inactive.
* `Deactivation.batch`: the active users among some ids; `Deactivation.targets`: the same in the
  order of the ids; `Deactivation.remaining`: the active members of a team who are not among them.
* `Deactivation.Feasible`, `Deactivation.expected`: whether the batch can leave, and the counts if
  it does, from the records before.
* `Ledger.deactivateIn_checked`: which requests the checks refuse, and why.
* **`Ledger.deactivateIn_cases`**: whether the service succeeds, its counts, and the records after
  it; `Ledger.named_of_deactivateIn`: what its success says about the ids.
* **`Ledger.exec_deactivate`**: the outcome for ids in any order and with any repetitions.
-/

namespace ReviewRota

namespace Deactivation

/-- Active users with the given ids. -/
def batch (users : List User) (ids : List String) : List User :=
  users.filter fun u => ids.contains u.id && u.isActive

/-- The batch in the order in which a request names its users. -/
def targets (users : List User) (ids : List String) : List User :=
  (ids.filterMap fun id => users.find? (·.id == id)).filter (·.isActive)

/-- Active members of a team who are not in the batch. -/
def remaining (users : List User) (team : String) (ids : List String) : List User :=
  users.filter fun u => u.teamId == team && u.isActive && !(batch users ids).contains u

variable {users : List User} {team : String} {ids ids' : List String} {u : User}

theorem mem_batch : u ∈ batch users ids ↔ u ∈ users ∧ u.id ∈ ids ∧ u.isActive = true := by
  simp [batch]

theorem mem_remaining :
    u ∈ remaining users team ids ↔
      u ∈ users ∧ u.teamId = team ∧ u.isActive = true ∧ u.id ∉ ids := by
  simp only [remaining, List.mem_filter, Bool.and_eq_true, beq_iff_eq, Bool.not_eq_true',
    ← Bool.not_eq_true, List.contains_iff_mem, mem_batch, and_assoc]
  refine and_congr_right fun hu => and_congr_right fun _ => and_congr_right fun hactive => ?_
  exact not_congr ⟨fun h => h.2.1, fun h => ⟨hu, h, hactive⟩⟩

theorem remaining_eq :
    remaining users team ids =
      users.filter fun u => u.teamId == team && u.isActive && !ids.contains u.id := by
  refine List.filter_congr fun u hu => ?_
  cases hactive : u.isActive with
  | false => simp
  | true => simp [mem_batch, hu, hactive]

theorem batch_congr (h : ∀ id, id ∈ ids ↔ id ∈ ids') : batch users ids = batch users ids' := by
  refine List.filter_congr fun u _ => ?_
  rw [Bool.eq_iff_iff]
  simp [h]

theorem remaining_congr (h : ∀ id, id ∈ ids ↔ id ∈ ids') :
    remaining users team ids = remaining users team ids' := by
  rw [remaining, remaining, batch_congr h]

theorem targets_congr {users' : List User} (h : (users.map User.id).Nodup)
    (h' : (users'.map User.id).Nodup) (hmem : ∀ u, u.id ∈ ids → (u ∈ users ↔ u ∈ users')) :
    targets users ids = targets users' ids := by
  refine congrArg (List.filter _) (List.filterMap_congr fun id hid => Option.ext fun u => ?_)
  rw [find?_key_eq_some_iff h, find?_key_eq_some_iff h']
  exact and_congr_left fun he => hmem u (he ▸ hid)

theorem perm_batch {users' : List User} (h : users.Perm users') :
    (batch users ids).Perm (batch users' ids) :=
  h.filter _

theorem perm_remaining {users' : List User} (h : users.Perm users') :
    (remaining users team ids).Perm (remaining users' team ids) := by
  rw [remaining_eq, remaining_eq]
  exact h.filter _

/-! ## Counting -/

/-- Every open pull request can be refilled: no more of its reviewers are in the batch than there
are remaining members who neither wrote nor review it. -/
def Feasible (users : List User) (ps : List PullRequest) (team : String) (ids : List String) :
    Prop :=
  ∀ p ∈ ps, p.isOpen = true → p.leaving (batch users ids) ≤ p.eligible (remaining users team ids)

instance (users : List User) (ps : List PullRequest) (team : String) (ids : List String) :
    Decidable (Feasible users ps team ids) :=
  inferInstanceAs (Decidable (∀ p ∈ ps, p.isOpen = true → _ ≤ _))

/-- The size of the batch, and the number of its open reviews. -/
def expected (users : List User) (ps : List PullRequest) (ids : List String) : Deactivation where
  deactivated := (batch users ids).length
  reassigned := ((ps.filter (·.isOpen)).map (·.leaving (batch users ids))).sum

variable {ps : List PullRequest}

theorem feasible_congr (h : ∀ id, id ∈ ids ↔ id ∈ ids') :
    Feasible users ps team ids ↔ Feasible users ps team ids' := by
  rw [Feasible, Feasible, batch_congr h, remaining_congr h]

theorem expected_congr (h : ∀ id, id ∈ ids ↔ id ∈ ids') :
    expected users ps ids = expected users ps ids' := by
  rw [expected, expected, batch_congr h]

theorem not_feasible :
    ¬ Feasible users ps team ids ↔ ∃ p ∈ ps, p.isOpen = true ∧
      p.eligible (remaining users team ids) < p.leaving (batch users ids) := by
  simp [Feasible]

section

variable {users' : List User} {ps' : List PullRequest} (hu : users.Perm users') (hp : ps.Perm ps')
include hu hp

theorem feasible_perm : Feasible users ps team ids ↔ Feasible users' ps' team ids := by
  refine forall_congr' fun p => imp_congr hp.mem_iff (imp_congr_right fun _ => ?_)
  rw [PullRequest.leaving, (perm_batch hu).countP_eq, PullRequest.eligible,
    (perm_remaining hu).countP_eq, PullRequest.leaving, PullRequest.eligible]

theorem expected_perm : expected users ps ids = expected users' ps' ids := by
  have hleaving : ∀ p : PullRequest, p.leaving (batch users ids) = p.leaving (batch users' ids) :=
    fun p => (perm_batch hu).countP_eq _
  rw [expected, expected, (perm_batch hu).length_eq, funext hleaving]
  exact congrArg (Deactivation.mk _) ((hp.filter _).map _).sum_eq

end

end Deactivation

open Deactivation (batch remaining Feasible expected)

namespace Memory

/-- The records with some users inactive. -/
def deactivated (m : Memory) (ids : List String) : Memory :=
  m.mapUsers fun u => if u.id ∈ ids then { u with isActive := false } else u

variable {m : Memory}

theorem mem_deactivated {ids : List String} {u : User} :
    u ∈ (m.deactivated ids).users ↔
      (u ∈ m.users ∧ u.id ∉ ids) ∨
        ∃ v ∈ m.users, v.id ∈ ids ∧ u = { v with isActive := false } := by
  rw [deactivated, mem_mapUsers]
  constructor
  · rintro ⟨v, hv, rfl⟩
    by_cases hid : v.id ∈ ids
    · exact .inr ⟨v, hv, hid, if_pos hid⟩
    · rw [if_neg hid]
      exact .inl ⟨hv, hid⟩
  · rintro (⟨hu, hid⟩ | ⟨v, hv, hid, rfl⟩)
    · exact ⟨u, hu, if_neg hid⟩
    · exact ⟨v, hv, if_pos hid⟩

theorem deactivated_eq {ids ids' : List String}
    (h : ∀ u ∈ m.users, u.isActive = true → (u.id ∈ ids ↔ u.id ∈ ids')) :
    m.deactivated ids = m.deactivated ids' := by
  refine congrArg (fun users => Memory.mk m.teams users m.pullRequests)
    (List.map_congr_left fun u hu => ?_)
  obtain ⟨id, name, team, isActive, time⟩ := u
  cases isActive with
  | true => simp only [h _ hu rfl]
  | false => simp

theorem deactivated_cons (id : String) (ids : List String) :
    (m.deactivated [id]).deactivated ids = m.deactivated (id :: ids) := by
  refine congrArg (fun users => Memory.mk m.teams users m.pullRequests) ?_
  rw [deactivated, mapUsers, List.map_map]
  refine List.map_congr_left fun u _ => ?_
  by_cases h : u.id = id <;> by_cases h' : u.id ∈ ids <;> simp [h, h']

theorem withUser_eq_deactivated (hint : m.Integrity) {u v : User} (hv : v ∈ m.users)
    (hid : v.id = u.id) (hname : v.name = u.name) :
    m.withUser { u with isActive := false } = m.deactivated [u.id] := by
  refine congrArg (fun users => Memory.mk m.teams users m.pullRequests)
    (List.map_congr_left fun w hw => ?_)
  simp only [List.mem_singleton]
  split
  · rename_i he
    rw [hint.eq_of_userId hw hv (he.trans hid.symm), hname]
  · rfl

theorem Integrity.deactivated (h : m.Integrity) (ids : List String) :
    (m.deactivated ids).Integrity :=
  h.mapUsers fun u => by split <;> exact ⟨rfl, rfl⟩

theorem perm_batch (hint : m.Integrity) {ids : List String} (hnodup : ids.Nodup)
    {loaded : List User} (hloaded : (loaded.map User.id).Nodup)
    (hl : ∀ u, u ∈ loaded ↔ u ∈ m.users ∧ u.id ∈ ids) :
    (Deactivation.targets loaded ids).Perm (batch m.users ids) := by
  have hfind : ∀ id u, loaded.find? (·.id == id) = some u ↔ u ∈ loaded ∧ u.id = id :=
    fun id u => find?_key_eq_some_iff hloaded
  refine (List.perm_ext_iff_of_nodup ?_ ((List.Nodup.of_map _ hint.userIds).filter _)).mpr
    fun u => ?_
  · refine (List.Nodup.filterMap (fun id id' u h h' => ?_) hnodup).filter _
    exact ((hfind id u).mp h).2.symm.trans ((hfind id' u).mp h').2
  · rw [Deactivation.targets, List.mem_filter, List.mem_filterMap, ← batch, Deactivation.mem_batch]
    constructor
    · rintro ⟨⟨id, hid, h⟩, hactive⟩
      have hu := (hl u).mp ((hfind id u).mp h).1
      exact ⟨hu.1, hu.2, hactive⟩
    · rintro ⟨hu, hid, hactive⟩
      exact ⟨⟨u.id, hid, (hfind u.id u).mpr ⟨(hl u).mpr ⟨hu, hid⟩, rfl⟩⟩, hactive⟩

end Memory

/-! ## Ids of a request -/

namespace Service

theorem nodup_foldl_addNew {l seen : List String} (h : seen.Nodup) :
    (l.foldl PullRequest.addNew seen).Nodup := by
  induction l generalizing seen with
  | nil => exact h
  | cons x l ih =>
    refine ih ?_
    unfold PullRequest.addNew
    split
    · exact h
    · rename_i hx
      rw [List.contains_iff_mem] at hx
      exact List.nodup_append.mpr ⟨h, List.nodup_singleton x, fun a ha b hb he =>
        hx (List.mem_singleton.mp hb ▸ he ▸ ha)⟩

theorem nodup_distinct (ids : List String) : (distinct ids).Nodup :=
  nodup_foldl_addNew .nil

theorem mem_distinct {ids : List String} {id : String} : id ∈ distinct ids ↔ id ∈ ids := by
  rw [distinct, PullRequest.mem_foldl_addNew]
  simp

theorem distinct_ne_nil {ids : List String} (h : ids ≠ []) : distinct ids ≠ [] := by
  obtain ⟨id, hid⟩ := List.exists_mem_of_ne_nil ids h
  exact List.ne_nil_of_mem (mem_distinct.mpr hid)

section

variable {σ π : Type} [Repository σ] [Collaborators π] {s : Session σ π} {team : String}
  {ids : List String}

/-- A request that names somebody is a transaction on the ids, each once. -/
theorem exec_deactivate_of_ne_nil (h : ids ≠ []) :
    (deactivate team ids).exec s = (transact (deactivateIn team (distinct ids))).exec s := by
  have hsome : (!(distinct ids).isEmpty) = true := by
    rw [Bool.not_eq_true', List.isEmpty_eq_false_iff]
    exact distinct_ne_nil h
  exact Work.exec_bind_of_ok (by rw [exec_require, if_pos hsome]) _

theorem exec_deactivateIn {t : Team} {loaded : List User}
    (hteam : Repository.team team s.data = .ok t)
    (hloaded : Repository.usersByIds ids s.data = .ok loaded) :
    (deactivateIn team ids).exec s =
      if loaded.length = ids.length then
        if loaded.all (·.teamId == team) then
          (do
            let targets := (ids.filterMap fun id => loaded.find? (·.id == id)).filter (·.isActive)
            markInactive targets
            let reassigned ← reassignAll team targets
            pure { deactivated := targets.length, reassigned } : Work σ π Deactivation).exec s
        else (.error .crossTeam, s)
      else (.error .notFound, s) := by
  unfold deactivateIn
  rw [Work.exec_bind_of_ok (by rw [Work.exec_read, hteam]),
    Work.exec_bind_of_ok (by rw [Work.exec_read, hloaded])]
  split
  · rename_i hlen
    rw [Work.exec_bind_of_ok (by rw [exec_require, if_pos (beq_iff_eq.mpr hlen)])]
    split
    · rename_i hall
      rw [Work.exec_bind_of_ok (by rw [exec_require, if_pos hall])]
    · rename_i hall
      exact Work.exec_bind_of_error (by rw [exec_require, if_neg hall]) _
  · rename_i hlen
    exact Work.exec_bind_of_error (by rw [exec_require, if_neg (mt beq_iff_eq.mp hlen)]) _

end

end Service

namespace Ledger

variable {π : Type} {older : Instant → Instant → Bool}

/-! ## The steps of the service -/

theorem exec_updateUser {s : Session (Ledger older) π} (user : User)
    (hknown : ∃ u ∈ Memory.users s.data, u.id = user.id) :
    (Work.write (Repository.updateUser user)).exec s =
      (.ok (), { s with data := Memory.withUser s.data user }) := by
  have hset : Repository.updateUser user s.data =
      ((.ok (), Memory.withUser s.data user) : Except Fault Unit × Ledger older) :=
    Memory.updateUser_eq hknown
  rw [Work.exec_write, hset]

theorem exec_markInactive {us : List User} {s : Session (Ledger older) π}
    (hint : Memory.Integrity s.data)
    (hus : ∀ u ∈ us, ∃ v ∈ Memory.users s.data, v.id = u.id ∧ v.name = u.name) :
    (Service.markInactive us).exec s =
      (.ok (), { s with data := Memory.deactivated s.data (us.map User.id) }) := by
  induction us generalizing s with
  | nil =>
    have hsame : Memory.deactivated s.data [] = s.data := by
      refine congrArg (fun users => Memory.mk _ users _) ?_
      simp
    rw [List.map_nil, hsame]
    rfl
  | cons u rest ih =>
    rw [List.forall_mem_cons] at hus
    obtain ⟨⟨v, hv, hid, hname⟩, hrest⟩ := hus
    have hstep := exec_updateUser (s := s) { u with isActive := false } ⟨v, hv, hid⟩
    rw [Memory.withUser_eq_deactivated hint hv hid hname] at hstep
    have hint' : (Memory.deactivated s.data [u.id]).Integrity := by
      rw [← Memory.withUser_eq_deactivated hint hv hid hname]
      exact hint.withUser _
    have hrest' : ∀ w ∈ rest, ∃ v ∈ (Memory.deactivated s.data [u.id]).users,
        v.id = w.id ∧ v.name = w.name := by
      intro w hw
      obtain ⟨v, hv, hid, hname⟩ := hrest w hw
      refine ⟨_, List.mem_map_of_mem hv, ?_⟩
      split <;> exact ⟨hid, hname⟩
    rw [Service.markInactive, Work.exec_bind_of_ok hstep, ih hint' hrest', List.map_cons]
    exact congrArg (fun data : Ledger older => (Except.ok (), { s with data }))
      (Memory.deactivated_cons _ _)

theorem activeMembers_deactivated {m : Ledger older} (team : String) {ids : List String}
    {id : String} (hid : id ∈ ids) :
    Repository.activeMembers team [id] (Ledger.of older (Memory.deactivated m ids)) =
      .ok (Memory.oldestFirst older User.createdAt (remaining (Memory.users m) team ids)) := by
  rw [activeMembers_eq]
  refine congrArg (fun users => Except.ok (Memory.oldestFirst older User.createdAt users)) ?_
  refine List.filter_map.trans ?_
  have hkeep : (Memory.users m).filter
        ((fun u => u.teamId == team && u.isActive && !(List.contains [id] u.id)) ∘
          fun u => if u.id ∈ ids then { u with isActive := false } else u) =
      remaining (Memory.users m) team ids := by
    rw [Deactivation.remaining_eq]
    refine List.filter_congr fun u _ => ?_
    rw [Function.comp_apply, Bool.eq_iff_iff]
    by_cases hu : u.id ∈ ids
    · simp [hu]
    · have hne : u.id ≠ id := fun he => hu (he ▸ hid)
      simp [hu, hne]
  rw [hkeep]
  refine (List.map_congr_left fun u hu => ?_).trans (List.map_id _)
  exact if_neg (Deactivation.mem_remaining.mp hu).2.2.2

/-! ## The service -/

/-- A batch of known users of a team, in a request that names each of them once. -/
structure Named (m : Memory) (team : String) (ids : List String) : Prop where
  exists_team : ∃ t ∈ m.teams, t.id = team
  members : ∀ id ∈ ids, ∃ u ∈ m.users, u.id = id ∧ u.teamId = team

theorem isOk_team {m : Ledger older} {id : String} :
    (∃ t, Repository.team id m = .ok t) ↔ ∃ t ∈ Memory.teams m, t.id = id :=
  (exists_congr fun _ => orNotFound_eq_ok).trans
    (Option.isSome_iff_exists.symm.trans Memory.isSome_findTeam)

theorem team_eq_notFound {m : Ledger older} {id : String} (h : ¬ ∃ t ∈ Memory.teams m, t.id = id) :
    Repository.team id m = .error .notFound := by
  change orNotFound (Memory.findTeam m id) = .error .notFound
  cases hfind : Memory.findTeam m id with
  | none => rfl
  | some t => exact absurd (Memory.isSome_findTeam.mp (hfind ▸ rfl)) h

theorem perm_loaded {m : Ledger older} {ids : List String} {loaded : List User}
    (hl : Repository.usersByIds ids m = .ok loaded) :
    loaded.Perm ((Memory.users m).filter (ids.contains ·.id)) := by
  rw [usersByIds_eq, Except.ok.injEq] at hl
  rw [← hl]
  exact perm_sortBy _ _

theorem mem_loaded {m : Ledger older} {ids : List String} {loaded : List User}
    (hl : Repository.usersByIds ids m = .ok loaded) {u : User} :
    u ∈ loaded ↔ u ∈ Memory.users m ∧ u.id ∈ ids := by
  rw [(perm_loaded hl).mem_iff, List.mem_filter, List.contains_iff_mem]

theorem nodup_loaded {m : Ledger older} (hint : Memory.Integrity m) {ids : List String}
    {loaded : List User} (hl : Repository.usersByIds ids m = .ok loaded) :
    (loaded.map User.id).Nodup :=
  ((perm_loaded hl).map _).nodup_iff.mpr
    (hint.userIds.sublist (List.filter_sublist.map _))

theorem length_loaded_iff {m : Ledger older} (hint : Memory.Integrity m) {ids : List String}
    (hnodup : ids.Nodup) {loaded : List User} (hl : Repository.usersByIds ids m = .ok loaded) :
    loaded.length = ids.length ↔ ∀ id ∈ ids, ∃ u ∈ Memory.users m, u.id = id := by
  have hloaded := nodup_loaded hint hl
  have hsub : loaded.map User.id ⊆ ids := by
    intro id hid
    obtain ⟨u, hu, rfl⟩ := List.mem_map.mp hid
    exact ((mem_loaded hl).mp hu).2
  constructor
  · intro hlen id hid
    have hperm := (hloaded.subperm hsub).perm_of_length_le (by simp [hlen])
    obtain ⟨u, hu, he⟩ := List.mem_map.mp (hperm.mem_iff.mpr hid)
    exact ⟨u, ((mem_loaded hl).mp hu).1, he⟩
  · intro hall
    have hsup : ids ⊆ loaded.map User.id := by
      intro id hid
      obtain ⟨u, hu, rfl⟩ := hall id hid
      exact List.mem_map_of_mem ((mem_loaded hl).mpr ⟨hu, hid⟩)
    have hle := (hnodup.subperm hsup).length_le
    have hge := (hloaded.subperm hsub).length_le
    rw [List.length_map] at hle hge
    exact Nat.le_antisymm hge hle

theorem all_loaded_iff {m : Ledger older} (hint : Memory.Integrity m) {team : String}
    {ids : List String} {loaded : List User} (hl : Repository.usersByIds ids m = .ok loaded)
    (hknown : ∀ id ∈ ids, ∃ u ∈ Memory.users m, u.id = id) :
    loaded.all (·.teamId == team) = true ↔
      ∀ id ∈ ids, ∃ u ∈ Memory.users m, u.id = id ∧ u.teamId = team := by
  simp only [List.all_eq_true, beq_iff_eq]
  constructor
  · intro hall id hid
    obtain ⟨u, hu, rfl⟩ := hknown id hid
    exact ⟨u, hu, rfl, hall u ((mem_loaded hl).mpr ⟨hu, hid⟩)⟩
  · intro hall u hu
    obtain ⟨hu, hid⟩ := (mem_loaded hl).mp hu
    obtain ⟨v, hv, he, hteam⟩ := hall u.id hid
    rwa [hint.eq_of_userId hv hu he] at hteam

variable [Collaborators π]

/-- **What the checks of a request find**: an unknown team or user, a user of another team, or
nothing. -/
theorem deactivateIn_checked {team : String} {ids : List String} (hnodup : ids.Nodup)
    {s : Session (Ledger older) π} (hint : Memory.Integrity s.data) :
    (¬ ((∃ t ∈ Memory.teams s.data, t.id = team) ∧
        ∀ id ∈ ids, ∃ u ∈ Memory.users s.data, u.id = id) ∧
      (Service.deactivateIn team ids).exec s = (.error .notFound, s)) ∨
    (((∃ t ∈ Memory.teams s.data, t.id = team) ∧
        ∀ id ∈ ids, ∃ u ∈ Memory.users s.data, u.id = id) ∧ ¬ Named s.data team ids ∧
      (Service.deactivateIn team ids).exec s = (.error .crossTeam, s)) ∨
    Named s.data team ids := by
  by_cases hteam : ∃ t ∈ Memory.teams s.data, t.id = team
  swap
  · refine .inl ⟨fun h => hteam h.1, ?_⟩
    exact Work.exec_bind_of_error (by rw [Work.exec_read, team_eq_notFound hteam]) _
  obtain ⟨t, hread⟩ := isOk_team.mpr hteam
  obtain ⟨loaded, hl⟩ : ∃ loaded, Repository.usersByIds ids s.data = .ok loaded := ⟨_, rfl⟩
  have hlen := length_loaded_iff hint hnodup hl
  rw [Service.exec_deactivateIn hread hl]
  by_cases hknown : ∀ id ∈ ids, ∃ u ∈ Memory.users s.data, u.id = id
  swap
  · exact .inl ⟨fun h => hknown h.2, if_neg (mt hlen.mp hknown)⟩
  by_cases hnamed : Named s.data team ids
  · exact .inr (.inr hnamed)
  have hall : ¬ loaded.all (·.teamId == team) = true := fun h =>
    hnamed ⟨hteam, (all_loaded_iff hint hl hknown).mp h⟩
  rw [if_pos (hlen.mpr hknown), if_neg hall]
  exact .inr (.inl ⟨⟨hteam, hknown⟩, hnamed, rfl⟩)

theorem named_of_deactivateIn {team : String} {ids : List String} (hnodup : ids.Nodup)
    {s s' : Session (Ledger older) π} (hint : Memory.Integrity s.data) {r : Deactivation}
    (h : (Service.deactivateIn team ids).exec s = (.ok r, s')) : Named s.data team ids := by
  rcases deactivateIn_checked hnodup hint with ⟨-, he⟩ | ⟨-, -, he⟩ | hnamed
  · rw [h] at he
    cases he
  · rw [h] at he
    cases he
  · exact hnamed

/-- The checks pass and the whole batch is stored as inactive, before the first hand-over. -/
theorem exec_deactivateIn_eq {team : String} {ids : List String} (hnodup : ids.Nodup)
    {s : Session (Ledger older) π} (hint : Memory.Integrity s.data)
    (hnamed : Named s.data team ids) :
    ∃ targets, targets = Deactivation.targets (Memory.users s.data) ids ∧
      targets.Perm (batch (Memory.users s.data) ids) ∧
      (Service.deactivateIn team ids).exec s =
        (do
          let reassigned ← Service.reassignAll team targets
          pure { deactivated := targets.length, reassigned } :
            Work (Ledger older) π Deactivation).exec
          { s with data := Memory.deactivated s.data ids } := by
  obtain ⟨t, hteam⟩ := isOk_team.mpr hnamed.exists_team
  obtain ⟨loaded, hl⟩ : ∃ loaded, Repository.usersByIds ids s.data = .ok loaded := ⟨_, rfl⟩
  have hknown : ∀ id ∈ ids, ∃ u ∈ Memory.users s.data, u.id = id := fun id hid =>
    (hnamed.members id hid).imp fun u hu => ⟨hu.1, hu.2.1⟩
  have hlen := (length_loaded_iff hint hnodup hl).mpr hknown
  have hall := (all_loaded_iff hint hl hknown).mpr hnamed.members
  have hperm := Memory.perm_batch hint hnodup (nodup_loaded hint hl) fun u => mem_loaded hl (u := u)
  have hsame : Deactivation.targets loaded ids =
      Deactivation.targets (Memory.users s.data) ids :=
    Deactivation.targets_congr (nodup_loaded hint hl) hint.userIds fun u hid => by
      rw [mem_loaded hl]
      exact and_iff_left hid
  generalize htargets : Deactivation.targets loaded ids = targets at hperm hsame
  have hmem : ∀ u, u ∈ targets ↔ u ∈ Memory.users s.data ∧ u.id ∈ ids ∧ u.isActive = true :=
    fun u => hperm.mem_iff.trans Deactivation.mem_batch
  have hmark := exec_markInactive hint fun u hu => ⟨u, ((hmem u).mp hu).1, rfl, rfl⟩
  have hgone : Memory.deactivated s.data (targets.map User.id) = Memory.deactivated s.data ids := by
    refine Memory.deactivated_eq fun u hu hactive => ⟨fun h => ?_, fun h => ?_⟩
    · obtain ⟨v, hv, he⟩ := List.mem_map.mp h
      exact he ▸ ((hmem v).mp hv).2.1
    · exact List.mem_map_of_mem ((hmem u).mpr ⟨hu, h, hactive⟩)
  rw [hgone] at hmark
  refine ⟨targets, hsame, hperm, ?_⟩
  rw [Service.exec_deactivateIn hteam hl, if_pos hlen, if_pos hall]
  dsimp only
  rw [← Deactivation.targets, htargets, Work.exec_bind_of_ok hmark]

/-- **Bulk deactivation of users named once.** -/
theorem deactivateIn_cases {team : String} {ids : List String} (hnodup : ids.Nodup)
    {s : Session (Ledger older) π} (hint : Memory.Integrity s.data)
    (hnamed : Named s.data team ids) :
    (∃ f s', (Service.deactivateIn team ids).exec s =
        (.ok (expected (Memory.users s.data) (Memory.pullRequests s.data) ids), s') ∧
      s'.data = (Memory.deactivated s.data ids).mapPullRequests f ∧
      (Memory.deactivated s.data ids).Relieved ((batch (Memory.users s.data) ids).map User.id)
        (remaining (Memory.users s.data) team ids) f ∧
      Feasible (Memory.users s.data) (Memory.pullRequests s.data) team ids) ∨
    ((Service.deactivateIn team ids).exec s).1 = .error .noCandidate ∧
      (∀ [Collaborators.Lawful π],
        ¬ Feasible (Memory.users s.data) (Memory.pullRequests s.data) team ids) := by
  obtain ⟨targets, -, hperm, hstep⟩ := exec_deactivateIn_eq hnodup hint hnamed
  have hmem : ∀ u ∈ targets, u.id ∈ ids := fun u hu =>
    (Deactivation.mem_batch.mp (hperm.mem_iff.mp hu)).2.1
  have hnodup' : (targets.map User.id).Nodup := (hperm.map _).nodup_iff.mpr
    (hint.userIds.sublist (List.filter_sublist.map _))
  have hcases := @reassignAll_cases π _ older team _ targets hnodup'
    (fun u hu v hv he => (Deactivation.mem_remaining.mp (mem_oldestFirst.mp hv)).2.2.2
      (he ▸ hmem u hu)) { s with data := Memory.deactivated s.data ids } (hint.deactivated ids)
    fun u hu => activeMembers_deactivated team (hmem u hu)
  -- what is counted does not depend on the order of users
  have hleaving : ∀ p : PullRequest,
      p.leaving targets = p.leaving (batch (Memory.users s.data) ids) :=
    fun p => hperm.countP_eq _
  have heligible : ∀ p : PullRequest,
      p.eligible (Memory.oldestFirst older User.createdAt
          (remaining (Memory.users s.data) team ids)) =
        p.eligible (remaining (Memory.users s.data) team ids) :=
    fun p => (perm_sortBy _ _).countP_eq _
  simp only [hleaving, heligible] at hcases
  rw [hstep]
  rcases hcases with ⟨f, s', he, hdata, hrel, hle⟩ | ⟨he, hstuck⟩
  · refine .inl ⟨f, s', ?_, hdata, ?_, hle⟩
    · refine (Work.exec_bind_of_ok he _).trans ?_
      rw [Work.exec_pure, hperm.length_eq]
      rfl
    · exact hrel.congr (fun id => (hperm.map User.id).mem_iff) fun v hv => mem_oldestFirst.mp hv
  · exact .inr ⟨Work.fst_exec_bind_of_error he _, fun {_} => Deactivation.not_feasible.mpr hstuck⟩

omit [Collaborators π] in
theorem named_distinct {m : Memory} {team : String} {ids : List String} :
    Named m team (Service.distinct ids) ↔ Named m team ids :=
  ⟨fun h => ⟨h.exists_team, fun id hid => h.members id (Service.mem_distinct.mpr hid)⟩,
    fun h => ⟨h.exists_team, fun id hid => h.members id (Service.mem_distinct.mp hid)⟩⟩

variable [Collaborators.Lawful π]

/-- **Bulk deactivation**, for ids in any order and with any repetitions. -/
theorem exec_deactivate {team : String} {ids : List String} (hne : ids ≠ [])
    {s : Session (Ledger older) π} (hint : Memory.Integrity s.data)
    (hnamed : Named s.data team ids) :
    ((Service.deactivate team ids).exec s).1 =
      if Feasible (Memory.users s.data) (Memory.pullRequests s.data) team ids then
        .ok (expected (Memory.users s.data) (Memory.pullRequests s.data) ids)
      else .error .noCandidate := by
  have hcases := deactivateIn_cases (Service.nodup_distinct ids) hint (named_distinct.mpr hnamed)
  rw [Deactivation.feasible_congr fun _ => Service.mem_distinct,
    Deactivation.expected_congr fun _ => Service.mem_distinct] at hcases
  rw [Service.exec_deactivate_of_ne_nil hne]
  rcases hcases with ⟨f, s', he, -, -, hyes⟩ | ⟨he, hno⟩
  · rw [if_pos hyes, exec_transact_of_ok he]
  · rw [if_neg hno, exec_transact_of_error (Prod.ext he rfl)]

end Ledger

end ReviewRota
