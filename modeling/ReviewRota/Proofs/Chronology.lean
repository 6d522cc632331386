import ReviewRota.Proofs.Readings
import ReviewRota.Proofs.Stores

/-!
# The order of stored times

On a clock that does not go back, stored times tell the history of their records in its order.

* `Memory.Chronicle m readings`: stored times are readings, and each of them is as late as those of
  the records that had to be there before.
* `Memory.Awaits m readings p`: pull request `p`, as it was read, can still be handed over.
* `Ledger.dated_createTeam`, …, **`Ledger.dated_handOver`**: what is stored at the latest reading
  keeps the order.
* **`Ledger.brings_dated`**: so do the service calls, the cascades among them.
* `Snapshot.Chronological`: the order of times in what a store lists and reads.
* **`reached_chronicle`**: the order of times after any calls, on both stores.
-/

namespace ReviewRota

/-! ## Dated records -/

/-- A slot assigned at a reading, after the opening of its pull request and the creation of its
reviewer. -/
structure ReviewerSlot.Dated (users : List User) (readings : List Instant) (start : Instant)
    (slot : ReviewerSlot) : Prop where
  read : slot.assignedAt ∈ readings
  later : start.le slot.assignedAt = true
  reviewer : ∃ u ∈ users, u.id = slot.userId ∧ u.createdAt.le slot.assignedAt = true

/-- A pull request created after its author, with its slots dated, and merged at a reading after
all of that if it is merged. -/
structure PullRequest.Chronicled (users : List User) (readings : List Instant) (p : PullRequest) :
    Prop where
  created : p.createdAt ∈ readings
  author : ∃ u ∈ users, u.id = p.authorId ∧ u.createdAt.le p.createdAt = true
  slots : ∀ slot ∈ p.reviewers, slot.Dated users readings p.createdAt
  opened : p.status = .opened → p.mergedAt = none
  merged : p.status = .merged → ∃ time ∈ readings, p.mergedAt = some time ∧
    p.createdAt.le time = true ∧ ∀ slot ∈ p.reviewers, slot.assignedAt.le time = true

/-- Records with integrity whose times are readings in the order of their history. -/
structure Memory.Chronicle (m : Memory) (readings : List Instant) : Prop extends m.Integrity where
  teams : ∀ team ∈ m.teams, team.createdAt ∈ readings
  users : ∀ u ∈ m.users, u.createdAt ∈ readings ∧
    ∃ team ∈ m.teams, team.id = u.teamId ∧ team.createdAt.le u.createdAt = true
  pullRequests : ∀ p ∈ m.pullRequests, p.Chronicled m.users readings

/-- A pull request that was read with dated slots and is open in the store. A cascade reads all of
its pull requests first, and hands them over one after the other. -/
structure Memory.Awaits (m : Memory) (readings : List Instant) (p : PullRequest) : Prop where
  created : p.createdAt ∈ readings
  slots : ∀ slot ∈ p.reviewers, slot.Dated m.users readings p.createdAt
  stored : ∀ q ∈ m.pullRequests, q.id = p.id → q.status = .opened ∧ q.createdAt = p.createdAt

/-- Users stay, with the times of their creation. -/
def Retained (users users' : List User) : Prop :=
  ∀ u ∈ users, ∃ v ∈ users', v.id = u.id ∧ v.createdAt = u.createdAt

theorem Retained.of_subset {users users' : List User} (h : users ⊆ users') :
    Retained users users' :=
  fun u hu => ⟨u, h hu, rfl, rfl⟩

section

variable {users users' : List User} {readings readings' : List Instant}

theorem ReviewerSlot.Dated.mono {start : Instant} {slot : ReviewerSlot}
    (h : slot.Dated users readings start) (hr : readings ⊆ readings')
    (hu : Retained users users') : slot.Dated users' readings' start := by
  obtain ⟨u, hmem, hid, hle⟩ := h.reviewer
  obtain ⟨v, hv, hvid, hvtime⟩ := hu u hmem
  exact ⟨hr h.read, h.later, v, hv, hvid.trans hid, hvtime ▸ hle⟩

theorem PullRequest.Chronicled.mono {p : PullRequest} (h : p.Chronicled users readings)
    (hr : readings ⊆ readings') (hu : Retained users users') : p.Chronicled users' readings' where
  created := hr h.created
  author := by
    obtain ⟨u, hmem, hid, hle⟩ := h.author
    obtain ⟨v, hv, hvid, hvtime⟩ := hu u hmem
    exact ⟨v, hv, hvid.trans hid, hvtime ▸ hle⟩
  slots slot hslot := (h.slots slot hslot).mono hr hu
  opened := h.opened
  merged hmerged := by
    obtain ⟨time, htime, h⟩ := h.merged hmerged
    exact ⟨time, hr htime, h⟩

variable {m : Memory}

theorem Memory.Chronicle.mono (h : m.Chronicle readings) (hr : readings ⊆ readings') :
    m.Chronicle readings' where
  toIntegrity := h.toIntegrity
  teams team ht := hr (h.teams team ht)
  users u hu := ⟨hr (h.users u hu).1, (h.users u hu).2⟩
  pullRequests p hp := (h.pullRequests p hp).mono hr (.of_subset fun _ => id)

theorem Memory.Awaits.mono {p : PullRequest} (h : m.Awaits readings p) (hr : readings ⊆ readings') :
    m.Awaits readings' p :=
  ⟨hr h.created, fun slot hslot => (h.slots slot hslot).mono hr (.of_subset fun _ => id), h.stored⟩

theorem Memory.Chronicle.awaits (h : m.Chronicle readings) {p : PullRequest}
    (hp : p ∈ m.pullRequests) (hopen : p.status = .opened) : m.Awaits readings p where
  created := (h.pullRequests p hp).created
  slots := (h.pullRequests p hp).slots
  stored q hq hid := by
    rw [h.eq_of_id hq hp hid]
    exact ⟨hopen, rfl⟩

end

namespace Ledger

variable {older : Instant → Instant → Bool} {m : Ledger older} {readings : List Instant}

/-! ## Changes -/

/-- The records of a ledger tell their history in its order. -/
@[reducible]
def Dated (m : Ledger older) (readings : List Instant) : Prop :=
  Memory.Chronicle m readings

theorem dated_createTeam (h : Dated m readings) {team : Team} (ht : team.createdAt ∈ readings) :
    Dated (Repository.createTeam team m).2 readings := by
  refine after_createTeam (Q := fun m => m.Chronicle readings) h fun hid hname => ?_
  refine ⟨h.toIntegrity.createTeam hid hname, fun t hmem => ?_, fun u hu => ?_, h.pullRequests⟩
  · rcases List.mem_append.mp hmem with hmem | hmem
    · exact h.teams t hmem
    · rwa [List.mem_singleton.mp hmem]
  · obtain ⟨hr, t, hmem, hle⟩ := h.users u hu
    exact ⟨hr, t, List.mem_append_left _ hmem, hle⟩

theorem dated_createUser (h : Dated m readings) {user : User}
    (hlatest : Latest user.createdAt readings) :
    Dated (Repository.createUser user m).2 readings := by
  refine after_createUser (Q := fun m => m.Chronicle readings) h fun hid hteam => ?_
  refine ⟨h.toIntegrity.createUser hid hteam, h.teams, fun u hu => ?_, fun p hp =>
    (h.pullRequests p hp).mono (List.Subset.refl _) (.of_subset fun _ => List.mem_append_left _)⟩
  rcases List.mem_append.mp hu with hu | hu
  · exact h.users u hu
  · rw [List.mem_singleton.mp hu]
    obtain ⟨team, ht, he⟩ := hteam
    exact ⟨hlatest.1, team, ht, he, hlatest.2 _ (h.teams team ht)⟩

theorem dated_updateUser (h : Dated m readings) (user : User) :
    Dated (Repository.updateUser user m).2 readings := by
  refine after_updateUser (Q := fun m => m.Chronicle readings) h ?_
  refine ⟨h.toIntegrity.withUser user, h.teams, fun u hu => ?_, fun p hp =>
    (h.pullRequests p hp).mono (List.Subset.refl _) fun u hu =>
      ⟨_, Memory.mem_mapUsers.mpr ⟨u, hu, rfl⟩, ?_⟩⟩
  · obtain ⟨v, hv, rfl⟩ := Memory.mem_mapUsers.mp hu
    split <;> exact h.users v hv
  · split <;> exact ⟨rfl, rfl⟩

theorem dated_createPullRequest (h : Dated m readings) {p : PullRequest}
    (hlatest : Latest p.createdAt readings)
    (hslots : ∀ slot ∈ p.reviewers, slot.assignedAt = p.createdAt) (hopen : p.status = .opened)
    (hnone : p.mergedAt = none) : Dated (Repository.createPullRequest p m).2 readings := by
  refine after_createPullRequest (Q := fun m => m.Chronicle readings) h
    fun hid hauthor hfits => ?_
  refine ⟨h.toIntegrity.createPullRequest hid hauthor hfits, h.teams, h.users, fun q hq => ?_⟩
  rcases List.mem_append.mp hq with hq | hq
  · exact h.pullRequests q hq
  rw [List.mem_singleton.mp hq]
  obtain ⟨author, ha, he⟩ := hauthor
  refine ⟨hlatest.1, ⟨author, ha, he, hlatest.2 _ (h.users author ha).1⟩, fun slot hslot => ?_,
    fun _ => hnone, fun hmerged => ?_⟩
  · have hslot := mem_sortBy.mp hslot
    obtain ⟨u, hu, hid⟩ := hfits.known slot hslot
    have htime := hslots slot hslot
    exact ⟨htime ▸ hlatest.1, htime ▸ Instant.le_refl _, u, hu, hid,
      htime ▸ hlatest.2 _ (h.users u hu).1⟩
  · exact nomatch hopen.symm.trans hmerged

theorem dated_merge (h : Dated m readings) {time : Instant} (hlatest : Latest time readings)
    (id : String) : Dated (Repository.setStatus id .merged (some time) m).2 readings := by
  refine after_setStatus (Q := fun m => m.Chronicle readings) h ?_
  refine ⟨h.toIntegrity.withPullRequest (fun _ => ⟨rfl, rfl⟩) fun p hp _ => h.slots p hp, h.teams,
    h.users, fun q hq => ?_⟩
  obtain ⟨p, hp, rfl⟩ := Memory.mem_mapPullRequests.mp hq
  have hdated := h.pullRequests p hp
  split
  · refine ⟨hdated.created, hdated.author, hdated.slots, nofun, fun _ => ?_⟩
    exact ⟨time, hlatest.1, rfl, hlatest.2 _ hdated.created, fun slot hslot =>
      hlatest.2 _ (hdated.slots slot hslot).read⟩
  · exact hdated

/-! ## Hand-overs -/

theorem mem_replaceReviewer {p : PullRequest} {old new : String} {time : Instant}
    {slot : ReviewerSlot} (h : slot ∈ renumber (p.replaceReviewer old new time).1) :
    slot.assignedAt = time ∨
      ∃ r ∈ p.reviewers, slot.assignedAt = r.assignedAt ∧ slot.userId = r.userId := by
  obtain ⟨i, hi, rfl⟩ := List.mem_mapIdx.mp h
  obtain ⟨r, hr, he⟩ := List.mem_map.mp (List.getElem_mem hi)
  rw [← he]
  split
  · exact .inl rfl
  · exact .inr ⟨r, hr, rfl, rfl⟩

/-- **A hand-over at the latest reading** dates the slots that pass on, and the others keep their
times. -/
theorem dated_handOver (h : Dated m readings) {p : PullRequest} (hp : Memory.Awaits m readings p)
    {time : Instant} (hlatest : Latest time readings) (old new : String) :
    Dated (Repository.setReviewers p.id (renumber (p.replaceReviewer old new time).1) m).2
      readings := by
  refine after_setReviewers (Q := fun m => m.Chronicle readings) h fun hfits => ?_
  refine ⟨h.toIntegrity.withSlots hfits, h.teams, h.users, fun stored hstored => ?_⟩
  obtain ⟨q, hq, rfl⟩ := Memory.mem_mapPullRequests.mp hstored
  have hdated := h.pullRequests q hq
  split
  swap
  · exact hdated
  rename_i hid
  obtain ⟨hopen, hcreated⟩ := hp.stored q hq hid
  refine ⟨hdated.created, hdated.author, fun slot hslot => ?_, hdated.opened,
    fun hmerged => nomatch hopen.symm.trans hmerged⟩
  change slot.Dated _ readings q.createdAt
  rw [hcreated]
  have hslot := mem_sortBy.mp hslot
  rcases mem_replaceReviewer hslot with htime | ⟨r, hr, htime, huser⟩
  · obtain ⟨u, hu, hid⟩ := hfits.known slot hslot
    exact ⟨htime ▸ hlatest.1, htime ▸ hlatest.2 _ hp.created, u, hu, hid,
      htime ▸ hlatest.2 _ (h.users u hu).1⟩
  · obtain ⟨hread, hlater, hreviewer⟩ := hp.slots r hr
    exact ⟨htime ▸ hread, htime ▸ hlater, by rwa [huser, htime]⟩

theorem awaits_setReviewers {p : PullRequest} (h : Memory.Awaits m readings p) (id : String)
    (slots : List ReviewerSlot) :
    Memory.Awaits (Repository.setReviewers id slots m).2 readings p := by
  refine after_setReviewers (Q := fun m => m.Awaits readings p) h fun _ => ?_
  refine ⟨h.created, h.slots, fun stored hstored => ?_⟩
  obtain ⟨q, hq, rfl⟩ := Memory.mem_mapPullRequests.mp hstored
  split <;> exact h.stored q hq

/-! ## Services -/

/-- Records in order, with pull requests that can still be handed over. -/
def Ready (ps : List PullRequest) (m : Ledger older) (readings : List Instant) : Prop :=
  Dated m readings ∧ ∀ p ∈ ps, Memory.Awaits m readings p

theorem lasting_dated : Lasting fun (m : Ledger older) readings => Dated m readings :=
  fun _ _ _ hp h => h.mono hp.subset

theorem lasting_ready (ps : List PullRequest) :
    Lasting fun (m : Ledger older) readings => Ready ps m readings :=
  fun _ _ _ hp h => ⟨h.1.mono hp.subset, fun p hmem => (h.2 p hmem).mono hp.subset⟩

section

open Work (Brings)

variable {π : Type} [Collaborators π]

theorem brings_handOver (pool : List User) (user : User) (p : PullRequest)
    (rest : List PullRequest) :
    Brings (Ready (p :: rest)) (Service.handOver pool user p : Work (Ledger older) π Unit)
      fun _ => Ready rest := by
  refine (Brings.replacement _).bind fun chosen => (Brings.now (lasting_ready _)).bind fun time =>
    .write fun m readings h => ?_
  obtain ⟨⟨hdated, hready⟩, hlatest⟩ := h
  obtain ⟨hp, hrest⟩ := List.forall_mem_cons.mp hready
  exact ⟨dated_handOver hdated hp hlatest user.id chosen.id, fun q hq =>
    awaits_setReviewers (hrest q hq) _ _⟩

theorem brings_handOverAll (pool : List User) (user : User) (ps : List PullRequest) :
    Brings (Ready ps) (Service.handOverAll pool user ps : Work (Ledger older) π Nat)
      fun _ => Dated := by
  induction ps with
  | nil => exact .pure fun _ _ h => h.1
  | cons p rest ih =>
    exact (brings_handOver pool user p rest).bind fun _ => ih.bind fun _ => .skip _

theorem brings_reassignOpenReviews (team : String) (user : User) :
    Brings Dated (Service.reassignOpenReviews team user : Work (Ledger older) π Nat)
      fun _ => Dated := by
  have hread : Brings Dated
      (Work.read (Repository.assignedTo user.id (some .opened)) : Work (Ledger older) π _) Ready :=
    .read fun m readings ps h hps => ⟨h, fun p hp =>
      have ⟨hmem, _, hopen⟩ := (mem_assignedTo_opened hps).mp hp
      h.awaits hmem hopen⟩
  refine hread.bind fun ps => ?_
  split
  · exact .pure fun _ _ h => h.1
  · exact (Brings.peek _).bind fun pool => brings_handOverAll pool user ps

omit [Collaborators π] in
theorem brings_markInactive (users : List User) :
    Brings Dated (Service.markInactive users : Work (Ledger older) π Unit) fun _ => Dated := by
  induction users with
  | nil => exact .skip _
  | cons user rest ih => exact (Brings.write fun _ _ h => dated_updateUser h _).bind fun _ => ih

theorem brings_reassignAll (team : String) (users : List User) :
    Brings Dated (Service.reassignAll team users : Work (Ledger older) π Nat) fun _ => Dated := by
  induction users with
  | nil => exact .skip _
  | cons user rest ih =>
    exact (brings_reassignOpenReviews team _).bind fun _ => ih.bind fun _ => .skip _

theorem brings_deactivateIn (team : String) (ids : List String) :
    Brings Dated (Service.deactivateIn team ids : Work (Ledger older) π Deactivation)
      fun _ => Dated :=
  (Brings.peek _).bind fun _ => (Brings.peek _).bind fun _ => .require_bind fun _ =>
    .require_bind fun _ => (brings_markInactive _).bind fun _ =>
      (brings_reassignAll team _).bind fun _ => .skip _

theorem brings_updateUserIn (id : String) (update : UserUpdate) :
    Brings Dated (Service.updateUserIn id update : Work (Ledger older) π User) fun _ => Dated := by
  refine (Brings.peek _).bind fun user => ?_
  have hlast : Brings Dated (do
      Work.write (Repository.updateUser (update.apply user))
      Pure.pure (update.apply user) : Work (Ledger older) π User) fun _ => Dated :=
    (Brings.write fun _ _ h => dated_updateUser h _).bind fun _ => .skip _
  dsimp only
  split
  · exact (brings_reassignOpenReviews _ _).bind fun _ => hlast
  · exact hlast

theorem brings_createPullRequestIn (settings : AssignmentSettings) (id title author : String) :
    Brings Dated
      (Service.createPullRequestIn settings id title author : Work (Ledger older) π PullRequest)
      fun _ => Dated := by
  refine (Brings.peek _).bind fun user => (Brings.peek _).bind fun pool =>
    (Brings.initial _ _).bind fun chosen => (Brings.now lasting_dated).bind fun time =>
      (Brings.write fun m readings h => ?_).bind fun _ => .skip _
  refine dated_createPullRequest h.1 h.2 (fun slot hslot => ?_) rfl rfl
  obtain ⟨i, hi, rfl⟩ := List.mem_mapIdx.mp hslot
  rfl

theorem brings_reassignIn (id reviewer : String) :
    Brings Dated (Service.reassignIn id reviewer : Work (Ledger older) π PullRequest)
      fun _ => Dated := by
  have hread : Brings Dated
      (Work.read (Repository.pullRequest true id) : Work (Ledger older) π PullRequest)
      fun p m readings => Dated m readings ∧ p ∈ Memory.pullRequests m :=
    .read fun m readings p h hp => ⟨h, (mem_of_pullRequest hp).1⟩
  refine hread.bind fun p => .require_bind fun hopen => ?_
  have huser : Brings (fun m readings => Dated m readings ∧ p ∈ Memory.pullRequests m)
      (Work.read (Repository.user reviewer) : Work (Ledger older) π User) fun _ => Ready [p] :=
    .read fun m readings _ h _ => ⟨h.1, fun q hq => by
      rw [List.mem_singleton.mp hq]
      exact h.1.awaits h.2 (eq_of_beq hopen)⟩
  refine huser.bind fun user => (Brings.peek _).bind fun pool =>
    (Brings.replacement _).bind fun chosen => (Brings.now (lasting_ready _)).bind fun time =>
      .require_bind fun _ => (Brings.write fun m readings h => ?_).bind fun _ => .skip _
  obtain ⟨⟨hdated, hready⟩, hlatest⟩ := h
  exact dated_handOver hdated (hready p (List.mem_singleton_self p)) hlatest _ _

theorem brings_mergeIn (id : String) :
    Brings Dated (Service.mergeIn id : Work (Ledger older) π PullRequest) fun _ => Dated := by
  refine (Brings.peek _).bind fun p => ?_
  split
  · exact .skip _
  · exact (Brings.now lasting_dated).bind fun time =>
      (Brings.write fun m readings h => dated_merge h.1 h.2 _).bind fun _ => .skip _

/-- **Service calls keep the order of times** on a clock that does not go back. -/
theorem brings_dated (settings : AssignmentSettings) (call : Call) :
    Brings Dated (call.perform settings : Work (Ledger older) π Reply) fun _ => Dated := by
  cases call with
  | createTeam name id =>
    exact .map _ (.require_bind fun _ => (Brings.resolveId _ _).bind fun _ =>
      (Brings.now lasting_dated).bind fun _ =>
        (Brings.write fun _ _ h => dated_createTeam h.1 h.2.1).transact.bind fun _ => .skip _)
  | createUser team name isActive id =>
    exact .map _ (.require_bind fun _ => (Brings.resolveId _ _).bind fun _ =>
      (Brings.now lasting_dated).bind fun _ =>
        ((Brings.peek _).bind fun _ =>
          .write fun _ _ h => dated_createUser h.1 h.2).transact.bind fun _ => .skip _)
  | updateUser id update =>
    exact .map _ (.require_bind fun _ => .require_bind fun _ =>
      (brings_updateUserIn id update).transact)
  | deactivate team ids =>
    exact .map _ (.require_bind fun _ => (brings_deactivateIn team _).transact)
  | createPullRequest title author id =>
    exact .map _ (.require_bind fun _ => (Brings.resolveId _ _).bind fun _ =>
      (brings_createPullRequestIn settings _ title author).transact)
  | reassign id reviewer => exact .map _ (brings_reassignIn id reviewer).transact
  | merge id => exact .map _ (brings_mergeIn id).transact
  | assigned user status =>
    exact .map _ ((Brings.peek _).bind fun _ => .peek _).transact
  | _ => exact .map _ (Brings.peek _).transact

end

theorem dated_empty : Dated (Repository.empty : Ledger older) [] where
  toIntegrity := StoreKind.sound_empty .memory
  teams _ h := absurd h List.not_mem_nil
  users _ h := absurd h List.not_mem_nil
  pullRequests _ h := absurd h List.not_mem_nil

end Ledger

/-! ## Both stores -/

/-- All times in the records. -/
def Snapshot.times (snapshot : Snapshot) : List Instant :=
  snapshot.teams.map Team.createdAt ++ snapshot.users.map User.createdAt ++
    snapshot.pullRequests.flatMap fun p =>
      p.createdAt :: p.mergedAt.toList ++ p.reviewers.map ReviewerSlot.assignedAt

/-- The records that are listed, with times in the order of their history and none after the last
reading of the clock. -/
structure Snapshot.Chronological {σ : Type} [Repository σ] (snapshot : Snapshot) (d : σ)
    (readings : List Instant) : Prop where
  joined : ∀ u ∈ snapshot.users, ∃ team, Repository.team u.teamId d = .ok team ∧
    team.createdAt.le u.createdAt = true
  opened : ∀ p ∈ snapshot.pullRequests, ∃ author, Repository.user p.authorId d = .ok author ∧
    author.createdAt.le p.createdAt = true
  assigned : ∀ p ∈ snapshot.pullRequests, ∀ slot ∈ p.reviewers,
    p.createdAt.le slot.assignedAt = true ∧
      ∃ reviewer, Repository.user slot.userId d = .ok reviewer ∧
        reviewer.createdAt.le slot.assignedAt = true
  merged : ∀ p ∈ snapshot.pullRequests, p.status = .merged → ∃ time, p.mergedAt = some time ∧
    p.createdAt.le time = true ∧ ∀ slot ∈ p.reviewers, slot.assignedAt.le time = true
  past : ∀ time ∈ snapshot.times, ∃ last, readings.getLast? = some last ∧ time.le last = true

theorem Memory.Chronicle.times {m : Memory} {readings : List Instant} (h : m.Chronicle readings)
    {snapshot : Snapshot} (hteams : snapshot.teams.Perm m.teams)
    (husers : snapshot.users.Perm m.users)
    (hprs : snapshot.pullRequests.Perm m.pullRequests) : snapshot.times ⊆ readings := by
  intro time htime
  rcases List.mem_append.mp htime with hold | hpr
  · rcases List.mem_append.mp hold with hteam | huser
    · obtain ⟨team, hmem, rfl⟩ := List.mem_map.mp hteam
      exact h.teams team (hteams.mem_iff.mp hmem)
    · obtain ⟨u, hu, rfl⟩ := List.mem_map.mp huser
      exact (h.users u (husers.mem_iff.mp hu)).1
  obtain ⟨p, hp, htime⟩ := List.mem_flatMap.mp hpr
  have hdated := h.pullRequests p (hprs.mem_iff.mp hp)
  rcases List.mem_append.mp htime with hown | hslot
  · rcases List.mem_cons.mp hown with rfl | hmerged
    · exact hdated.created
    -- a time of merging is stored for merged pull requests alone
    cases hstatus : p.status with
    | opened =>
      rw [hdated.opened hstatus] at hmerged
      exact absurd hmerged List.not_mem_nil
    | merged =>
      obtain ⟨merged, hread, he, -⟩ := hdated.merged hstatus
      rw [he] at hmerged
      rwa [List.mem_singleton.mp hmerged]
  · obtain ⟨slot, hmem, rfl⟩ := List.mem_map.mp hslot
    exact (hdated.slots slot hmem).read

theorem StoreKind.Sound.chronological {kind : StoreKind} {d : kind.Data} (h : kind.Sound d)
    {readings : List Instant} (hsteady : Steady readings)
    (hdated : Memory.Chronicle (kind.ledger d) readings) :
    ∃ snapshot, Repository.snapshot d = .ok snapshot ∧ snapshot.Chronological d readings := by
  obtain ⟨snapshot, hlist, hteams, husers, hprs⟩ := h.exists_snapshot
  have hknown : ∀ {id time}, (∃ u ∈ Memory.users (kind.ledger d), u.id = id ∧
      u.createdAt.le time = true) →
        ∃ u, Repository.user id d = .ok u ∧ u.createdAt.le time = true := fun hu => by
    obtain ⟨u, hu, hid, hle⟩ := hu
    exact ⟨u, h.user_iff.mpr ⟨hu, hid⟩, hle⟩
  refine ⟨snapshot, hlist, fun u hu => ?_, fun p hp => ?_, fun p hp slot hslot => ?_,
    fun p hp hmerged => ?_, fun time htime => ?_⟩
  · obtain ⟨-, team, hteam, hid, hle⟩ := hdated.users u (husers.mem_iff.mp hu)
    exact ⟨team, h.team_iff.mpr ⟨hteam, hid⟩, hle⟩
  · exact hknown (hdated.pullRequests p (hprs.mem_iff.mp hp)).author
  · have hslot := (hdated.pullRequests p (hprs.mem_iff.mp hp)).slots slot hslot
    exact ⟨hslot.later, hknown hslot.reviewer⟩
  · obtain ⟨time, -, h⟩ := (hdated.pullRequests p (hprs.mem_iff.mp hp)).merged hmerged
    exact ⟨time, h⟩
  · exact hsteady.getLast? (hdated.times hteams husers hprs htime)

/-- **The order of times in every state that calls of the services reach**, on both stores, if the
clock never goes back: a user is created after the team, a pull request after its author; a slot is
assigned after the creation of its pull request and of its reviewer; a merged pull request has a
time of merging, after its creation and after all of its assignments; and no stored time is after
the last reading of the clock. -/
theorem reached_chronicle (kind : StoreKind) (settings : AssignmentSettings) (calls : List Call)
    {π : Type} [Collaborators π] (p : π) :
    let s := (performAll settings calls (.start (Repository.empty : kind.Data) p)).2
    Steady s.readings →
      ∃ snapshot, Repository.snapshot s.data = .ok snapshot ∧
        snapshot.Chronological s.data s.readings := by
  intro s hsteady
  obtain ⟨hsound, hledger⟩ := kind.reached settings calls p
  refine hsound.chronological hsteady ?_
  have hdated := Work.Brings.performAll (Ledger.brings_dated settings) Ledger.lasting_dated calls
    (s := .start (Repository.empty : Ledger kind.older) p) (by rwa [← hledger]) Ledger.dated_empty
  rwa [← hledger] at hdated

/-- A clock that moves a minute with each reading. -/
def Sources.ticking : Sources :=
  { Sources.still with tick := 60000 }

/-- The small team at work: the reviewer of its pull request gives way, and then it is merged. -/
def tickingRun (kind : StoreKind) : Session kind.Data Sources :=
  (performAll smallSettings (smallTeam ++ [.reassign "p" "b", .merge "p"])
    (.start Repository.empty .ticking)).2

theorem reached_chronicle_smallTeam :
    Steady (tickingRun .relational).readings ∧
      ∃ snapshot, Repository.snapshot (tickingRun .relational).data = .ok snapshot ∧
        snapshot.Chronological (tickingRun .relational).data (tickingRun .relational).readings := by
  have hsteady : Steady (tickingRun .relational).readings := by decide +kernel
  refine ⟨hsteady, ?_⟩
  unfold tickingRun at hsteady ⊢
  exact reached_chronicle .relational smallSettings _ Sources.ticking hsteady

end ReviewRota
