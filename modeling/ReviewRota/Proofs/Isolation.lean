import ReviewRota.Proofs.Reached
import ReviewRota.Proofs.Slices

/-!
# Teams are isolated from each other

What a team is told depends on its own records, and what it changes are its own records. The queries
behind the services are not limited to a team: open reviews of a user and counts of reviews are
looked up among all pull requests. That they find pull requests of the team alone is due to the
states that calls of the services reach, where reviewers are of the team of the author.

* `Ledger.Confined keep m₀`: the relation between all records and those of some teams.
* `Ledger.Confined.perform`: a call of these teams does the same on all records and on theirs.
* `Call.Concerns team d`: calls about users and pull requests of a team.
* **`teams_isolated`**: such a call tells and does the same in all states with these records of the
  team, and it leaves the records of the other teams alone.
-/

namespace ReviewRota

variable {π : Type} {older : Instant → Instant → Bool} {keep : String → Bool} {m₀ : Memory}

/-! ## Changes of one part -/

namespace Memory.Confined

variable {m n : Memory} (h : Confined keep m₀ m n)
include h

theorem follows_updateUser {user : User} (hid : m₀.inside keep user.id = true) :
    Follows (Confined keep m₀) (m.updateUser user) (n.updateUser user) := by
  obtain ⟨u, hu, he⟩ := h.exists_user hid
  rw [updateUser_eq ⟨u, (h.mem_users.mp hu).1, he⟩, updateUser_eq ⟨u, hu, he⟩]
  exact ⟨rfl, fun _ => h.withUser hid⟩

theorem follows_changePullRequest {id : String} {f : PullRequest → PullRequest}
    (hid : m₀.owns keep id = true) (hf : ∀ p, (f p).id = p.id ∧ (f p).authorId = p.authorId)
    (hint : (m.withPullRequest id f).Integrity)
    (hrev : ∀ p ∈ n.pullRequests, ∀ v ∈ (f p).reviewerIds, m₀.inside keep v = true) :
    Follows (Confined keep m₀) (m.changePullRequest id f) (n.changePullRequest id f) := by
  obtain ⟨p, hp, he⟩ := h.exists_pullRequest hid
  rw [changePullRequest_eq f ⟨p, (h.mem_pullRequests.mp hp).1, he⟩,
    changePullRequest_eq f ⟨p, hp, he⟩]
  exact ⟨rfl, fun _ => h.withPullRequest hid hf hint hrev⟩

theorem follows_setReviewers {id : String} (hid : m₀.owns keep id = true)
    {slots : List ReviewerSlot}
    (hslots : ∀ v ∈ slots.map ReviewerSlot.userId, m₀.inside keep v = true) :
    Follows (Confined keep m₀) (m.setReviewers id slots) (n.setReviewers id slots) := by
  rw [setReviewers, setReviewers, ← h.acceptsSlots_eq id hslots]
  by_cases ha : m.acceptsSlots id slots = true
  · have hfits : m.Fits id slots := acceptsSlots_iff.mp ha
    rw [ha]
    refine h.follows_changePullRequest hid (fun _ => ⟨rfl, rfl⟩) (h.integrity.withSlots hfits)
      fun p _ v hv => hslots v ?_
    obtain ⟨slot, hslot, rfl⟩ := List.mem_map.mp hv
    exact List.mem_map.mpr ⟨slot, mem_sortBy.mp hslot, rfl⟩
  · rw [Bool.not_eq_true] at ha
    rw [ha]
    exact ⟨rfl, fun hne => absurd rfl hne⟩

theorem follows_setStatus {id : String} (hid : m₀.owns keep id = true) (status : Status)
    (mergedAt : Option Instant) :
    Follows (Confined keep m₀) (m.changePullRequest id fun p => { p with status, mergedAt })
      (n.changePullRequest id fun p => { p with status, mergedAt }) :=
  h.follows_changePullRequest hid (fun _ => ⟨rfl, rfl⟩)
    (h.integrity.withPullRequest (fun _ => ⟨rfl, rfl⟩) fun p hp _ => h.integrity.slots p hp)
    fun _ hp _ hv => h.inside_reviewer hp hv

end Memory.Confined

namespace Ledger

/-- Between ledgers: the second has the records of some teams, and nothing else has changed in the
first. -/
def Confined (keep : String → Bool) (m₀ : Memory) (m n : Ledger older) : Prop :=
  Memory.Confined keep m₀ m n

namespace Confined

/-! ## Readings of one part -/

section

variable {m n : Ledger older} (h : Confined keep m₀ m n)
include h

theorem team_eq {id : String} (hid : keep id = true) :
    Repository.team id m = Repository.team id n :=
  congrArg orNotFound (h.findTeam_eq hid)

theorem user_eq {id : String} (hid : m₀.inside keep id = true) :
    Repository.user id m = Repository.user id n :=
  congrArg orNotFound (h.findUser_eq hid)

theorem pullRequest_eq {id : String} (hid : m₀.owns keep id = true) (lock : Bool) :
    Repository.pullRequest lock id m = Repository.pullRequest lock id n :=
  congrArg orNotFound (h.findPullRequest_eq hid)

theorem usersByIds_eq {ids : List String} (hids : ∀ id ∈ ids, m₀.inside keep id = true) :
    Repository.usersByIds ids m = Repository.usersByIds ids n := by
  refine congrArg (Except.ok ∘ Memory.oldestFirst older User.createdAt) ?_
  refine h.filter_users fun u hu hid => ?_
  exact h.keep_teamId hu (hids u.id (by simpa using hid))

theorem users_eq {team : String} (hteam : keep team = true) (active : Option Bool) :
    Repository.users (some team) active m = Repository.users (some team) active n := by
  refine congrArg (Except.ok ∘ Memory.oldestFirst older User.createdAt) ?_
  refine h.filter_users fun u _ hu => ?_
  simp only [passes, Bool.and_eq_true, beq_iff_eq] at hu
  exact hu.1 ▸ hteam

theorem activeMembers_eq {team : String} (hteam : keep team = true) (except : List String) :
    Repository.activeMembers team except m = Repository.activeMembers team except n := by
  refine congrArg (Except.ok ∘ Memory.oldestFirst older User.createdAt) ?_
  refine h.filter_users fun u _ hu => ?_
  simp only [Bool.and_eq_true, beq_iff_eq] at hu
  exact hu.1.1 ▸ hteam

theorem assignedTo_eq {id : String} (hid : m₀.inside keep id = true) (status : Option Status) :
    Repository.assignedTo id status m = Repository.assignedTo id status n := by
  refine congrArg (Except.ok ∘ Memory.newestFirst older) ?_
  refine h.filter_pullRequests fun p hp hq => ?_
  rw [Bool.and_eq_true] at hq
  exact h.inside_author hp hid hq.1

theorem userLoads_eq {team : String} (hteam : keep team = true) :
    Repository.userLoads (some team) m = Repository.userLoads (some team) n := by
  refine congrArg (Except.ok ∘ sortBy fun (a b : UserLoad) => a.userId ≤ b.userId) ?_
  have hmembers := h.filter_users (q := fun u => passes (some team) u.teamId)
    fun u _ hu => by simp only [passes, beq_iff_eq] at hu; exact hu ▸ hteam
  rw [hmembers]
  refine List.map_congr_left fun u hu => ?_
  exact h.userLoad_eq (h.inside_of_mem_users (List.mem_filter.mp hu).1)

/-! ## What was read of one part -/

/-- A pull request as a call of these teams may know it: it is one of theirs, and so are all of its
reviewers. -/
def Known (keep : String → Bool) (m₀ : Memory) (p : PullRequest) : Prop :=
  m₀.owns keep p.id = true ∧ ∀ id ∈ p.reviewerIds, m₀.inside keep id = true

theorem known_of_mem {p : PullRequest} (hp : p ∈ Memory.pullRequests n) : Known keep m₀ p :=
  ⟨h.owns_of_mem hp, fun _ hrev => h.inside_reviewer hp hrev⟩

theorem inside_activeMembers {team : String} {except : List String} {pool : List User}
    (hpool : Repository.activeMembers team except n = .ok pool) :
    ∀ v ∈ pool, m₀.inside keep v.id = true := fun _ hv =>
  h.inside_of_mem_users ((mem_activeMembers hpool).mp hv).1

theorem inside_usersByIds {ids : List String} {loaded : List User}
    (hloaded : Repository.usersByIds ids n = .ok loaded) :
    ∀ v ∈ loaded, m₀.inside keep v.id = true := fun v hv => by
  rw [Ledger.usersByIds_eq, Except.ok.injEq] at hloaded
  rw [← hloaded, mem_oldestFirst] at hv
  exact h.inside_of_mem_users (List.mem_filter.mp hv).1

end

theorem Known.handedOver {p : PullRequest} (hp : Known keep m₀ p) (old : String) {new : String}
    (hnew : m₀.inside keep new = true) (time : Instant) :
    Known keep m₀ (p.handedOver old new time) := by
  refine ⟨hp.1, fun id hid => ?_⟩
  rw [PullRequest.reviewerIds_handedOver, List.mem_map] at hid
  obtain ⟨v, hv, rfl⟩ := hid
  split
  · exact hnew
  · exact hp.2 v hv

/-- Work that does on all records what it does on those of the teams. -/
abbrev Local (keep : String → Bool) (m₀ : Memory) {α : Type} (w : Work (Ledger older) π α) : Prop :=
  Work.Mirrors Torn (Confined keep m₀) (Confined keep m₀) w w

/-! ## Handing over reviews -/

section

variable [Collaborators π]

theorem handOver {pool : List User} (hpool : ∀ v ∈ pool, m₀.inside keep v.id = true) (user : User)
    {p : PullRequest} (hp : Known keep m₀ p) :
    Local keep m₀ (Service.handOver pool user p : Work (Ledger older) π Unit) := by
  refine (Work.Mirrors.replacement _).bind_where
    (fun _ _ _ _ _ he => (Selection.replacement_ok he).1) (fun chosen hchosen => ?_) le_rfl
  refine Work.Mirrors.now.bind (fun time => ?_) le_rfl
  have hknown := hp.handedOver user.id (hpool chosen (List.mem_filter.mp hchosen).1) time
  exact .write fun _ _ h => h.follows_setReviewers hp.1 hknown.2

theorem handOverAll {pool : List User} (hpool : ∀ v ∈ pool, m₀.inside keep v.id = true)
    (user : User) {ps : List PullRequest} (hps : ∀ p ∈ ps, Known keep m₀ p) :
    Local keep m₀ (Service.handOverAll pool user ps : Work (Ledger older) π Nat) := by
  induction ps with
  | nil => exact .pure le_rfl 0
  | cons p rest ih =>
    obtain ⟨hp, hrest⟩ := List.forall_mem_cons.mp hps
    exact (handOver hpool user hp).bind
      (fun _ => (ih hrest).bind (fun count => .pure le_rfl (count + 1)) le_rfl) le_rfl

/-- **A cascade stays within the teams**: whoever leaves reviews pull requests of his teams only. -/
theorem reassignOpenReviews {team : String} (hteam : keep team = true) (user : User)
    (hid : m₀.inside keep user.id = true) :
    Local keep m₀ (Service.reassignOpenReviews team user : Work (Ledger older) π Nat) := by
  refine .read_where (P := fun ps => ∀ p ∈ ps, Known keep m₀ p)
    (fun _ _ h => assignedTo_eq h hid _) (fun _ _ ps h hps p hp => ?_)
    (fun reviewed hps => ?_) le_rfl
  · exact known_of_mem h ((mem_assignedTo_opened hps).mp hp).1
  split
  · exact .pure le_rfl 0
  · exact .read_where (fun _ _ h => activeMembers_eq h hteam _)
      (fun _ _ _ h => inside_activeMembers h) (fun pool hpool => handOverAll hpool user hps) le_rfl

theorem reassignAll {team : String} (hteam : keep team = true) {users : List User}
    (husers : ∀ u ∈ users, m₀.inside keep u.id = true) :
    Local keep m₀ (Service.reassignAll team users : Work (Ledger older) π Nat) := by
  induction users with
  | nil => exact .pure le_rfl 0
  | cons user rest ih =>
    obtain ⟨hu, hrest⟩ := List.forall_mem_cons.mp husers
    exact (reassignOpenReviews hteam { user with isActive := false } hu).bind
      (fun count => (ih hrest).bind (fun others => .pure le_rfl _) le_rfl) le_rfl

/-! ## Bodies of transactions -/

omit [Collaborators π] in
theorem markInactive {users : List User} (husers : ∀ u ∈ users, m₀.inside keep u.id = true) :
    Local keep m₀ (Service.markInactive users : Work (Ledger older) π Unit) := by
  induction users with
  | nil => exact .pure le_rfl ()
  | cons user rest ih =>
    obtain ⟨hu, hrest⟩ := List.forall_mem_cons.mp husers
    exact .write_then (fun _ _ h => h.follows_updateUser hu) (fun _ => ih hrest) le_rfl

theorem deactivateIn {team : String} (hteam : keep team = true) {ids : List String}
    (hids : ∀ id ∈ ids, m₀.inside keep id = true) :
    Local keep m₀ (Service.deactivateIn team ids : Work (Ledger older) π Deactivation) := by
  refine .read_then (fun _ _ h => team_eq h hteam) (fun _ => ?_) le_rfl
  refine .read_where (fun _ _ h => usersByIds_eq h hids) (fun _ _ _ h => inside_usersByIds h)
    (fun loaded hloaded => ?_) le_rfl
  refine (Work.Mirrors.require le_rfl _ _).bind (fun _ => ?_) le_rfl
  refine (Work.Mirrors.require le_rfl _ _).bind (fun _ => ?_) le_rfl
  have htargets : ∀ u ∈ (ids.filterMap fun id => loaded.find? (·.id == id)).filter (·.isActive),
      m₀.inside keep u.id = true := by
    intro u hu
    obtain ⟨id, -, hfind⟩ := List.mem_filterMap.mp (List.mem_filter.mp hu).1
    exact hloaded u (List.mem_of_find?_eq_some hfind)
  refine (markInactive htargets).bind (fun _ => ?_) le_rfl
  exact (reassignAll hteam htargets).bind (fun _ => .pure le_rfl _) le_rfl

theorem updateUserIn {id : String} (hid : m₀.inside keep id = true) (update : UserUpdate) :
    Local keep m₀ (Service.updateUserIn id update : Work (Ledger older) π User) := by
  refine .read_where (P := fun u => keep u.teamId = true ∧ m₀.inside keep u.id = true)
    (fun _ _ h => user_eq h hid) (fun _ _ u h hu => ?_) (fun user ⟨hteam, hu⟩ => ?_) le_rfl
  · obtain ⟨hu, -⟩ := mem_of_user hu
    exact ⟨(h.mem_users.mp hu).2, h.inside_of_mem_users hu⟩
  have hlast : Local keep m₀
      (do Work.write (Repository.updateUser (update.apply user)); pure (update.apply user) :
        Work (Ledger older) π User) :=
    .write_then (fun _ _ h => h.follows_updateUser hu) (fun _ => .pure le_rfl _) le_rfl
  dsimp only
  split
  · exact (reassignOpenReviews hteam (update.apply user) hu).bind (fun _ => hlast) le_rfl
  · exact hlast

theorem reassignIn {id reviewer : String} (hid : m₀.owns keep id = true)
    (hrev : m₀.inside keep reviewer = true) :
    Local keep m₀ (Service.reassignIn id reviewer : Work (Ledger older) π PullRequest) := by
  refine .read_where (fun _ _ h => pullRequest_eq h hid true)
    (fun _ _ _ h hp => known_of_mem h (mem_of_pullRequest hp).1) (fun p hp => ?_) le_rfl
  refine (Work.Mirrors.require le_rfl _ _).bind (fun _ => ?_) le_rfl
  refine .read_where (fun _ _ h => user_eq h hrev)
    (fun _ _ _ h hu => (h.mem_users.mp (mem_of_user hu).1).2) (fun leaver hteam => ?_) le_rfl
  refine .read_where (fun _ _ h => activeMembers_eq h hteam _)
    (fun _ _ _ h => inside_activeMembers h) (fun pool hpool => ?_) le_rfl
  refine (Work.Mirrors.replacement _).bind_where
    (fun _ _ _ _ _ he => (Selection.replacement_ok he).1) (fun chosen hchosen => ?_) le_rfl
  refine Work.Mirrors.now.bind (fun time => ?_) le_rfl
  refine (Work.Mirrors.require le_rfl _ _).bind (fun _ => ?_) le_rfl
  have hknown := hp.handedOver leaver.id (hpool chosen hchosen) time
  exact .write_then (fun _ _ h => h.follows_setReviewers hp.1 hknown.2)
    (fun _ => .pure le_rfl _) le_rfl

theorem mergeIn {id : String} (hid : m₀.owns keep id = true) :
    Local keep m₀ (Service.mergeIn id : Work (Ledger older) π PullRequest) := by
  refine .read_where (fun _ _ h => pullRequest_eq h hid true)
    (fun _ _ _ h hp => known_of_mem h (mem_of_pullRequest hp).1) (fun p hp => ?_) le_rfl
  split
  · exact .pure le_rfl p
  · refine Work.Mirrors.now.bind (fun time => ?_) le_rfl
    exact .write_then (fun _ _ h => h.follows_setStatus hp.1 .merged (some time))
      (fun _ => .pure le_rfl _) le_rfl

end

end Confined

end Ledger

/-! ## Calls about a team -/

/-- A call about a team and about users and pull requests of which the given is true. -/
def Call.About (team : String) (member owned : String → Prop) : Call → Prop
  | .team id => id = team
  | .user id | .updateUser id _ | .assigned id _ => member id
  | .deactivate id ids => id = team ∧ ∀ id ∈ ids, member id
  | .reassign id reviewer => owned id ∧ member reviewer
  | .merge id | .pullRequest id => owned id
  | .users id _ | .userLoads id => id = some team
  | _ => False

theorem Call.About.mono {team : String} {member member' owned owned' : String → Prop} {call : Call}
    (h : call.About team member owned) (hm : ∀ id, member id → member' id)
    (ho : ∀ id, owned id → owned' id) : call.About team member' owned' := by
  cases call with
  | user id | updateUser id _ | assigned id _ => exact hm id h
  | deactivate id ids => exact ⟨h.1, fun id hid => hm id (h.2 id hid)⟩
  | reassign id reviewer => exact ⟨ho id h.1, hm reviewer h.2⟩
  | merge id | pullRequest id => exact ho id h
  | _ => exact h

variable (keep) in
/-- **A call about a team does the same on all records and on those of the team**, alone or with
other teams. -/
theorem Ledger.Confined.perform [Collaborators π] (settings : AssignmentSettings) {team : String}
    (hteam : keep team = true) {call : Call}
    (h : call.About team (fun id => m₀.inside keep id = true) fun id => m₀.owns keep id = true) :
    Work.Mirrors (fun _ => False) (Confined keep m₀) (Confined keep m₀)
      (call.perform settings : Work (Ledger older) π Reply)
      (call.perform settings : Work (Ledger older) π Reply) := by
  have hread : ∀ {α : Type} {f : Ledger older → Except Fault α} (c : α → Reply),
      (∀ m n, Confined keep m₀ m n → f m = f n) →
      Work.Mirrors (fun _ => False) (Confined keep m₀) (Confined keep m₀)
        (c <$> transact (Work.read f) : Work (Ledger older) π Reply)
        (c <$> transact (Work.read f)) :=
    fun {α f} c hf =>
      have hbody : Local keep m₀ (Work.read f : Work (Ledger older) π α) := .read hf le_rfl
      (hbody.transact le_rfl).map c
  cases call with
  | updateUser id update =>
    refine .map (.bind (.require le_rfl _ _) (fun _ => ?_) le_rfl) _
    refine .bind (.require le_rfl _ _) (fun _ => ?_) le_rfl
    exact (updateUserIn h update).transact le_rfl
  | deactivate id ids =>
    obtain ⟨rfl, hids⟩ := h
    refine .map (.bind (.require le_rfl _ _) (fun _ => ?_) le_rfl) _
    exact (deactivateIn hteam fun v hv => hids v (Service.mem_distinct.mp hv)).transact le_rfl
  | reassign id reviewer => exact ((reassignIn h.1 h.2).transact le_rfl).map _
  | merge id => exact ((mergeIn h).transact le_rfl).map _
  | assigned user status =>
    have hbody : Local keep m₀
        (do
          let _ ← Work.read (Repository.user user)
          Work.read (Repository.assignedTo user status) :
            Work (Ledger older) π (List PullRequest)) :=
      .read_then (fun _ _ hc => user_eq hc h)
        (fun _ => .read (fun _ _ hc => assignedTo_eq hc h status) le_rfl) le_rfl
    exact (hbody.transact le_rfl).map _
  | team id =>
    obtain rfl : id = team := h
    exact hread _ fun _ _ hc => team_eq hc hteam
  | user id => exact hread _ fun _ _ hc => user_eq hc h
  | pullRequest id => exact hread _ fun _ _ hc => pullRequest_eq hc h false
  | users id active =>
    obtain rfl : id = some team := h
    exact hread _ fun _ _ hc => users_eq hc hteam active
  | userLoads id =>
    obtain rfl : id = some team := h
    exact hread _ fun _ _ hc => userLoads_eq hc hteam
  | _ => exact h.elim

/-! ## Isolation -/

theorem Memory.Orderly.separate {m : Memory} (h : m.Orderly) (keep : String → Bool) :
    m.Separate keep := by
  intro p hp id hrev
  obtain ⟨author, ha, hauthor⟩ := h.authors p hp
  obtain ⟨slot, hslot, rfl⟩ := List.mem_map.mp hrev
  obtain ⟨u, hu, hid⟩ := (h.slots p hp).known slot hslot
  rw [← hid] at hrev ⊢
  rw [← hauthor, inside_of_mem h.toIntegrity hu, inside_of_mem h.toIntegrity ha,
    (h.proper p hp).sameTeam author ha hauthor u hu hrev]

section

variable {σ : Type} [Repository σ]

/-- As the store tells, the user is of the team. -/
def MemberOf (team : String) (d : σ) (id : String) : Prop :=
  ∃ u, Repository.user id d = .ok u ∧ u.teamId = team

/-- As the store tells, the author of the pull request is of the team. -/
def AuthoredIn (team : String) (d : σ) (id : String) : Prop :=
  ∃ p, Repository.pullRequest false id d = .ok p ∧ MemberOf team d p.authorId

/-- A call about a team, its users and its pull requests. -/
def Call.Concerns (team : String) (d : σ) (call : Call) : Prop :=
  call.About team (MemberOf team d) (AuthoredIn team d)

end

namespace StoreKind

variable {kind : StoreKind}

/-- Data with the same record of a team, the same users of the team and the same pull requests by
them, in the same order of creation. -/
def AgreeOn (kind : StoreKind) (team : String) (d e : kind.Data) : Prop :=
  Memory.part (kind.ledger d) (· == team) = Memory.part (kind.ledger e) (· == team)

/-- Data with the same records of all other teams. -/
def AgreeElsewhere (kind : StoreKind) (team : String) (d e : kind.Data) : Prop :=
  Memory.part (kind.ledger d) (· != team) = Memory.part (kind.ledger e) (· != team)

instance (team : String) (d e : kind.Data) : Decidable (kind.AgreeOn team d e) :=
  inferInstanceAs (Decidable (Memory.part (kind.ledger d) (· == team) = _))

instance (team : String) (d e : kind.Data) : Decidable (kind.AgreeElsewhere team d e) :=
  inferInstanceAs (Decidable (Memory.part (kind.ledger d) (· != team) = _))

/-- Data after some calls of the services, whatever the settings and the collaborators were. -/
def Reached (kind : StoreKind) (d : kind.Data) : Prop :=
  ∃ (π : Type) (_ : Collaborators π) (settings : AssignmentSettings) (calls : List Call) (p : π),
    d = (performAll settings calls (.start (Repository.empty : kind.Data) p)).2.data

theorem Reached.intro {π : Type} [Collaborators π] (settings : AssignmentSettings)
    (calls : List Call) (p : π) :
    kind.Reached (performAll settings calls (.start (Repository.empty : kind.Data) p)).2.data :=
  ⟨π, _, settings, calls, p, rfl⟩

theorem Reached.orderly {d : kind.Data} (h : kind.Reached d) : kind.Orderly d := by
  obtain ⟨π, _, settings, calls, p, rfl⟩ := h
  exact kind.reached_orderly settings calls p

section

variable {d e : kind.Data}

theorem Sound.inside_of_memberOf (h : kind.Sound d) {team id : String}
    (hm : MemberOf team d id) : Memory.inside (kind.ledger d) (· == team) id = true := by
  obtain ⟨u, hu, rfl⟩ := hm
  obtain ⟨hmem, rfl⟩ := h.user_iff.mp hu
  exact (Memory.inside_of_mem h.integrity hmem).trans (beq_self_eq_true _)

theorem Sound.owns_of_authoredIn (h : kind.Sound d) {team id : String}
    (ho : AuthoredIn team d id) : Memory.owns (kind.ledger d) (· == team) id = true := by
  obtain ⟨p, hp, hauthor⟩ := ho
  obtain ⟨hmem, rfl⟩ := h.pullRequest_iff.mp hp
  exact Memory.owns_of_mem h.integrity hmem (h.inside_of_memberOf hauthor)

end

variable [Collaborators π]

theorem Orderly.confined {d : kind.Data} (h : kind.Orderly d) (settings : AssignmentSettings)
    {team : String} {call : Call}
    (hcall : call.About team (fun id => Memory.inside (kind.ledger d) (· == team) id = true)
      fun id => Memory.owns (kind.ledger d) (· == team) id = true) (p : π) :
    let s := (call.perform settings).exec (.start d p)
    let t := (call.perform settings).exec
      (.start (Ledger.of kind.older (Memory.part (kind.ledger d) (· == team))) p)
    s.1 = t.1 ∧ s.2.Agree (fun d' n =>
      n = Memory.part (kind.ledger d') (· == team) ∧ kind.AgreeElsewhere team d' d) t.2 := by
  have hstart : (Session.start (kind.ledger d) p).Agree
      (Ledger.Confined (· == team) (kind.ledger d))
      (.start (Ledger.of kind.older (Memory.part (kind.ledger d) (· == team))) p) :=
    ⟨Memory.Confined.refl h.sound.integrity (h.orderly.separate _), rfl, rfl, rfl⟩
  obtain ⟨hr, hs⟩ := kind.mirrored.perform settings call
    (s := .start d p) (t := .start (kind.ledger d) p) ⟨h.sound.holds, rfl, rfl, rfl⟩
  obtain ⟨hr', hs'⟩ :=
    Ledger.Confined.perform (· == team) settings (beq_self_eq_true team) hcall hstart
  have hholds := hs.data fun _ _ => id
  have hconfined := hs'.data fun _ _ => id
  rw [hholds.2] at hconfined
  exact ⟨hr.trans hr', ⟨hconfined.part, hconfined.others⟩,
    hs.collaborators.trans hs'.collaborators, hs.draws.trans hs'.draws,
    hs.readings.trans hs'.readings⟩

end StoreKind

/-- **Teams are isolated from each other.** Two states that calls of the services reach may differ
in all records of other teams. A call about a team, its users and its pull requests has the same
reply in both, asks the same of the same collaborators, and leaves the same records of the team
behind. In both states it changes nothing of the other teams. -/
theorem teams_isolated (kind : StoreKind) {π : Type} [Collaborators π]
    (settings : AssignmentSettings) (team : String) (d e : kind.Data) (hd : kind.Reached d)
    (he : kind.Reached e) (hagree : kind.AgreeOn team d e) (call : Call)
    (hcall : call.Concerns team d) (p : π) :
    let s := (call.perform settings).exec (.start d p)
    let t := (call.perform settings).exec (.start e p)
    s.1 = t.1 ∧ s.2.Agree (kind.AgreeOn team) t.2 ∧
      kind.AgreeElsewhere team s.2.data d ∧ kind.AgreeElsewhere team t.2.data e := by
  intro s t
  have hd' := hd.orderly
  have he' := he.orderly
  have hcall₁ := hcall.mono (fun _ => hd'.sound.inside_of_memberOf)
    fun _ => hd'.sound.owns_of_authoredIn
  have hcall₂ := hcall₁
  rw [Memory.inside_congr hd'.sound.integrity he'.sound.integrity hagree,
    Memory.owns_congr hd'.sound.integrity he'.sound.integrity hagree] at hcall₂
  obtain ⟨hr, hs⟩ := hd'.confined settings hcall₁ p
  obtain ⟨hr', ht⟩ := he'.confined settings hcall₂ p
  have hpart : Memory.part (kind.ledger d) (· == team) = Memory.part (kind.ledger e) (· == team) :=
    hagree
  rw [hpart] at hr hs
  refine ⟨hr.trans hr'.symm, ⟨hs.data.1.symm.trans ht.data.1, ?_, ?_, ?_⟩, hs.data.2, ht.data.2⟩
  · exact hs.collaborators.trans ht.collaborators.symm
  · exact hs.draws.trans ht.draws.symm
  · exact hs.readings.trans ht.readings.symm

/-- The small team, after another team has come. -/
def crowdedRun (kind : StoreKind) : Session kind.Data Sources :=
  (performAll smallSettings
    ([.createTeam "frontend" (some "u"), .createUser "u" "Dan" true (some "d"),
      .createUser "u" "Eva" true (some "e"), .createPullRequest "Page" "d" (some "q")] ++ smallTeam)
    (.start Repository.empty .still)).2

theorem reached_smallRun (kind : StoreKind) : kind.Reached (smallRun kind).data := by
  unfold smallRun
  exact .intro smallSettings _ Sources.still

theorem reached_crowdedRun (kind : StoreKind) : kind.Reached (crowdedRun kind).data := by
  unfold crowdedRun
  exact .intro smallSettings _ Sources.still

/-- The second member of the small team hands over to the third, whoever else is in the store. -/
theorem teams_isolated_smallTeam :
    ¬ StoreKind.AgreeElsewhere .relational "t" (smallRun .relational).data
        (crowdedRun .relational).data ∧
      (((Call.deactivate "t" ["b"]).perform smallSettings).exec
        (.start (smallRun .relational).data Sources.still)).1 = .ok (.deactivation ⟨1, 1⟩) ∧
      (((Call.deactivate "t" ["b"]).perform smallSettings).exec
        (.start (crowdedRun .relational).data Sources.still)).1 = .ok (.deactivation ⟨1, 1⟩) := by
  have hagree : StoreKind.AgreeOn .relational "t" (smallRun .relational).data
      (crowdedRun .relational).data := by
    decide +kernel
  have hb : Repository.user "b" (smallRun .relational).data =
      .ok ⟨"b", "Ben", "t", true, Sources.still.time⟩ := by decide +kernel
  have hcall : (Call.deactivate "t" ["b"]).Concerns "t" (smallRun .relational).data := by
    refine ⟨rfl, fun id hid => ?_⟩
    obtain rfl := List.mem_singleton.mp hid
    exact ⟨_, hb, rfl⟩
  have hreply : (((Call.deactivate "t" ["b"]).perform smallSettings).exec
      (.start (smallRun .relational).data Sources.still)).1 = .ok (.deactivation ⟨1, 1⟩) := by
    decide +kernel
  obtain ⟨hsame, -⟩ := teams_isolated .relational smallSettings "t" _ _
    (reached_smallRun .relational) (reached_crowdedRun .relational) hagree
    (.deactivate "t" ["b"]) hcall Sources.still
  exact ⟨by decide +kernel, hreply, hsame.symm.trans hreply⟩

end ReviewRota
