import ReviewRota.Proofs.Stores
import ReviewRota.Proofs.TextOrder
import ReviewRota.Transaction.Script

/-!
# The two stores agree

The in-memory store lists by time, the relational store by the text of times. Where all creation
times are plain, the records of both are one ledger, and the services cannot tell them apart.

* `Memory.Plain`: all creation times are plain; `Memory.keeps_plain`: then they always were.
* `Memory.mirrored_textLe`: the in-memory store, mirrored by the ledger of the relational store.
* `seeded`: a store filled record by record.
* **`stores_agree`**: runs of service calls on the two stores from the same records.
-/

namespace ReviewRota

namespace Memory

variable {m : Memory}

/-! ## Creation times -/

/-- The creation times of all records. -/
def times (m : Memory) : List Instant :=
  m.teams.map Team.createdAt ++ m.users.map User.createdAt ++
    m.pullRequests.map PullRequest.createdAt

/-- Records whose creation times are all plain. -/
def Plain (m : Memory) : Prop :=
  ∀ time ∈ m.times, time.IsPlain

instance : DecidablePred Plain :=
  fun m => inferInstanceAs (Decidable (∀ time ∈ m.times, time.IsPlain))

namespace Plain

variable (h : m.Plain)
include h

theorem teams {t : Team} (ht : t ∈ m.teams) : t.createdAt.IsPlain :=
  h _ (List.mem_append_left _ (List.mem_append_left _ (List.mem_map_of_mem ht)))

theorem users {u : User} (hu : u ∈ m.users) : u.createdAt.IsPlain :=
  h _ (List.mem_append_left _ (List.mem_append_right _ (List.mem_map_of_mem hu)))

theorem pullRequests {p : PullRequest} (hp : p ∈ m.pullRequests) : p.createdAt.IsPlain :=
  h _ (List.mem_append_right _ (List.mem_map_of_mem hp))

end Plain

theorem times_sublist {m' : Memory} (ht : m.teams.Sublist m'.teams)
    (hu : m.users.Sublist m'.users) (hp : m.pullRequests.Sublist m'.pullRequests) :
    m.times.Sublist m'.times :=
  ((ht.map _).append (hu.map _)).append (hp.map _)

theorem times_mapUsers {g : User → User} (hg : ∀ u, (g u).createdAt = u.createdAt) :
    (m.mapUsers g).times = m.times := by
  rw [times, mapUsers, List.map_map, times]
  congr 2
  exact List.map_congr_left fun u _ => hg u

theorem times_mapPullRequests {f : PullRequest → PullRequest}
    (hf : ∀ p, (f p).createdAt = p.createdAt) : (m.mapPullRequests f).times = m.times := by
  rw [times, mapPullRequests, List.map_map, times]
  congr 1
  exact List.map_congr_left fun p _ => hf p

theorem plain_updateUser (user : User) : (m.updateUser user).2.Plain ↔ m.Plain := by
  rcases updateUser_cases (m := m) user with hr | ⟨-, hr⟩ <;> rw [hr]
  rw [withUser, Plain, times_mapUsers fun u => by split <;> rfl, Plain]

theorem plain_changePullRequest (id : String) {f : PullRequest → PullRequest}
    (hf : ∀ p, (f p).createdAt = p.createdAt) :
    (m.changePullRequest id f).2.Plain ↔ m.Plain := by
  rcases changePullRequest_cases (m := m) id f with hr | ⟨-, hr⟩ <;> rw [hr]
  have hchange : ∀ p, (if p.id = id then f p else p).createdAt = p.createdAt := fun p => by
    split
    · exact hf p
    · rfl
  rw [withPullRequest, Plain, times_mapPullRequests hchange, Plain]

theorem plain_setStatus (id : String) (status : Status) (time : Option Instant) :
    (Repository.setStatus id status time m).2.Plain ↔ m.Plain :=
  plain_changePullRequest id fun _ => rfl

theorem plain_setReviewers (id : String) (slots : List ReviewerSlot) :
    (m.setReviewers id slots).2.Plain ↔ m.Plain := by
  unfold setReviewers
  split
  · rfl
  · exact plain_changePullRequest id fun _ => rfl

theorem times_createTeam (team : Team) : m.times.Sublist (m.createTeam team).2.times := by
  rcases createTeam_cases (m := m) team with hr | ⟨-, hr⟩ <;> rw [hr]
  exact times_sublist (List.sublist_append_left _ _) (.refl _) (.refl _)

theorem times_createUser (user : User) : m.times.Sublist (m.createUser user).2.times := by
  rcases createUser_cases (m := m) user with ⟨_, hr⟩ | ⟨-, hr⟩ <;> rw [hr]
  exact times_sublist (.refl _) (List.sublist_append_left _ _) (.refl _)

theorem times_createPullRequest (p : PullRequest) :
    m.times.Sublist (m.createPullRequest p).2.times := by
  rcases createPullRequest_cases (m := m) p with ⟨_, hr⟩ | ⟨-, hr⟩ <;> rw [hr]
  exact times_sublist (.refl _) (.refl _) (List.sublist_append_left _ _)

/-- **Records are never removed**, so that creation times that are plain after a change were plain
before it. -/
theorem keeps_plain : Repository.Keeps fun m m' : Memory => m'.Plain → m.Plain where
  refl _ := id
  trans h h' := h ∘ h'
  createTeam team _ h time ht := h time ((times_createTeam team).subset ht)
  createUser user _ h time ht := h time ((times_createUser user).subset ht)
  updateUser user _ := (plain_updateUser user).mp
  createPullRequest p _ h time ht := h time ((times_createPullRequest p).subset ht)
  setStatus id status time _ := (plain_setStatus id status time).mp
  setReviewers id slots _ := (plain_setReviewers id slots).mp

/-! ## Listings -/

theorem oldestFirst_textLe {α : Type} {time : α → Instant} {l : List α}
    (h : ∀ a ∈ l, (time a).IsPlain) :
    oldestFirst Instant.le time l = oldestFirst Instant.textLe time l := by
  refine sortBy_congr fun a ha b hb => ?_
  rw [Bool.eq_iff_iff, ← Instant.storedText_le_iff (h a ha) (h b hb), Instant.textLe,
    decide_eq_true_iff]

theorem newestFirst_textLe {l : List PullRequest} (h : ∀ p ∈ l, p.createdAt.IsPlain) :
    newestFirst Instant.le l = newestFirst Instant.textLe l := by
  refine sortBy_congr fun p hp q hq => ?_
  rw [Bool.eq_iff_iff, ← Instant.storedText_le_iff (h q (List.mem_reverse.mp hq))
    (h p (List.mem_reverse.mp hp)), Instant.textLe, decide_eq_true_iff]

/-- **Plain records are mirrored by the ledger of the relational store.** A creation may bring a
time that is not plain, after which the records are still the same. -/
theorem mirrored_textLe : Repository.Mirrored
    (fun (d : Memory) (m : Ledger Instant.textLe) => d.Plain ∧ m = d) fun d m => m = d where
  weaken _ _ h := h.2
  team h _ := h.2 ▸ rfl
  teams h := by
    obtain ⟨hplain, rfl⟩ := h
    exact congrArg Except.ok (oldestFirst_textLe fun t ht => hplain.teams ht)
  user h _ := h.2 ▸ rfl
  users h _ _ := by
    obtain ⟨hplain, rfl⟩ := h
    exact congrArg Except.ok (oldestFirst_textLe fun u hu =>
      hplain.users (List.mem_filter.mp hu).1)
  usersByIds h _ := by
    obtain ⟨hplain, rfl⟩ := h
    exact congrArg Except.ok (oldestFirst_textLe fun u hu =>
      hplain.users (List.mem_filter.mp hu).1)
  activeMembers h _ _ := by
    obtain ⟨hplain, rfl⟩ := h
    exact congrArg Except.ok (oldestFirst_textLe fun u hu =>
      hplain.users (List.mem_filter.mp hu).1)
  pullRequest h _ _ := h.2 ▸ rfl
  pullRequests h _ := by
    obtain ⟨hplain, rfl⟩ := h
    exact congrArg Except.ok (newestFirst_textLe fun p hp =>
      hplain.pullRequests (List.mem_filter.mp hp).1)
  assignedTo h _ _ := by
    obtain ⟨hplain, rfl⟩ := h
    exact congrArg Except.ok (newestFirst_textLe fun p hp =>
      hplain.pullRequests (List.mem_filter.mp hp).1)
  userLoads h _ := h.2 ▸ rfl
  reviewerCounts h _ := h.2 ▸ rfl
  createTeam h team := by
    obtain ⟨-, rfl⟩ := h
    exact ⟨rfl, fun _ => rfl⟩
  createUser h user := by
    obtain ⟨-, rfl⟩ := h
    exact ⟨rfl, fun _ => rfl⟩
  updateUser h user := by
    obtain ⟨hplain, rfl⟩ := h
    exact ⟨rfl, fun _ => ⟨(plain_updateUser user).mpr hplain, rfl⟩⟩
  createPullRequest h p _ := by
    obtain ⟨-, rfl⟩ := h
    exact ⟨rfl, fun _ => rfl⟩
  setStatus h id status time := by
    obtain ⟨hplain, rfl⟩ := h
    exact ⟨rfl, fun _ => ⟨(plain_setStatus id status time).mpr hplain, rfl⟩⟩
  setReviewers h id slots _ := by
    obtain ⟨hplain, rfl⟩ := h
    exact ⟨rfl, fun _ => ⟨(plain_setReviewers id slots).mpr hplain, rfl⟩⟩

end Memory

/-! ## Filled stores -/

/-- The creation of records, references first. -/
def Snapshot.creations (seed : Snapshot) : List Operation :=
  seed.teams.map .createTeam ++ seed.users.map .createUser ++
    seed.pullRequests.map .createPullRequest

variable {σ τ π : Type} [Repository σ] [Repository τ] [Collaborators π]

variable (σ) in
/-- A new store filled with records, and what became of each creation. -/
def seeded (seed : Snapshot) (p : π) : List (Except Fault Reply) × Session σ π :=
  Operation.performAll seed.creations (.start Repository.empty p)

section

variable {R : σ → τ → Prop}

theorem mirrored_operations {operations : List Operation}
    (hop : ∀ operation ∈ operations, Work.Mirrors Torn R R
      (operation.perform : Work σ π Reply) (operation.perform : Work τ π Reply))
    {s : Session σ π} {t : Session τ π} (ha : s.Agree R t)
    (hdone : ∀ reply ∈ (Operation.performAll operations t).1, reply = .ok .done) :
    (Operation.performAll operations s).1 = (Operation.performAll operations t).1 ∧
      (Operation.performAll operations s).2.Agree R (Operation.performAll operations t).2 := by
  induction operations generalizing s t with
  | nil => exact ⟨rfl, ha⟩
  | cons operation rest ih =>
    obtain ⟨hr, hs⟩ := hop operation List.mem_cons_self ha
    have hok : ((operation.perform : Work τ π Reply).exec t).1 = .ok .done :=
      hdone _ List.mem_cons_self
    obtain ⟨hrs, hss⟩ := ih (fun o ho => hop o (List.mem_cons_of_mem _ ho))
      (hs.mono fun d m hR => hR fun fault hf => by rw [hr, hok] at hf; cases hf)
      fun reply hreply => hdone reply (List.mem_cons_of_mem _ hreply)
    exact ⟨congrArg₂ List.cons hr hrs, hss⟩

theorem mirrored_seeded (hempty : R Repository.empty Repository.empty)
    (hteam : ∀ team d m, R d m →
      Follows R (Repository.createTeam team d) (Repository.createTeam team m))
    (huser : ∀ user d m, R d m →
      Follows R (Repository.createUser user d) (Repository.createUser user m))
    {seed : Snapshot}
    (hpr : ∀ q ∈ seed.pullRequests, ∀ d m, R d m →
      Follows R (Repository.createPullRequest q d) (Repository.createPullRequest q m))
    {p : π} (hdone : ∀ reply ∈ (seeded τ seed p).1, reply = .ok .done) :
    (seeded σ seed p).1 = (seeded τ seed p).1 ∧
      (seeded σ seed p).2.Agree R (seeded τ seed p).2 := by
  refine mirrored_operations (fun operation ho => ?_) ⟨hempty, rfl, rfl, rfl⟩ hdone
  rcases List.mem_append.mp ho with ho | ho
  · rcases List.mem_append.mp ho with ho | ho
    · obtain ⟨team, -, rfl⟩ := List.mem_map.mp ho
      exact (Work.Mirrors.write (hteam team)).map _
    · obtain ⟨user, -, rfl⟩ := List.mem_map.mp ho
      exact (Work.Mirrors.write (huser user)).map _
  · obtain ⟨q, hq, rfl⟩ := List.mem_map.mp ho
    exact (Work.Mirrors.write (hpr q hq)).map _

end

theorem seeded_ledger (older : Instant → Instant → Bool) {seed : Snapshot} {p : π}
    (hdone : ∀ reply ∈ (seeded Memory seed p).1, reply = .ok .done) :
    (seeded (Ledger older) seed p).1 = (seeded Memory seed p).1 ∧
      (seeded (Ledger older) seed p).2.Agree (fun l m => m = l) (seeded Memory seed p).2 := by
  refine mirrored_seeded (R := fun (l : Ledger older) (m : Memory) => m = l) ?_ ?_ ?_ ?_ hdone
  · rfl
  · rintro team l _ rfl
    exact ⟨rfl, fun _ => rfl⟩
  · rintro user l _ rfl
    exact ⟨rfl, fun _ => rfl⟩
  · rintro q - l _ rfl
    exact ⟨rfl, fun _ => rfl⟩

open Relational (Database)

theorem seeded_database {seed : Snapshot}
    (hown : ∀ q ∈ seed.pullRequests, ∀ slot ∈ q.reviewers, slot.pullRequestId = q.id) {p : π}
    (hdone : ∀ reply ∈ (seeded (Ledger Instant.textLe) seed p).1, reply = .ok .done) :
    (seeded Database seed p).1 = (seeded (Ledger Instant.textLe) seed p).1 ∧
      (seeded Database seed p).2.Agree Database.Holds (seeded (Ledger Instant.textLe) seed p).2 :=
  mirrored_seeded ⟨StoreKind.sound_empty .relational, rfl⟩
    (fun team _ _ h => Database.mirrored.createTeam h team)
    (fun user _ _ h => Database.mirrored.createUser h user)
    (fun q hq _ _ h => Database.mirrored.createPullRequest h q (hown q hq)) hdone

/-! ## Equal runs -/

/-- **The services cannot tell the stores apart.** From the same records, accepted by the in-memory
store, and with the same collaborators, every run of service calls gives the same replies, the same
draws and readings, and the same records in the end; the relational store has accepted the records
as well. Creation times are plain throughout: no record is ever removed, so those of the records in
the end are all there were. -/
theorem stores_agree (settings : AssignmentSettings) (seed : Snapshot)
    (hown : ∀ q ∈ seed.pullRequests, ∀ slot ∈ q.reviewers, slot.pullRequestId = q.id)
    (calls : List Call) (p : π)
    (hdone : ∀ reply ∈ (seeded Memory seed p).1, reply = .ok .done)
    (hplain : (performAll settings calls (seeded Memory seed p).2).2.data.Plain) :
    let m := performAll settings calls (seeded Memory seed p).2
    let d := performAll settings calls (seeded Database seed p).2
    (∀ reply ∈ (seeded Database seed p).1, reply = .ok .done) ∧
      m.1 = d.1 ∧ m.2.draws = d.2.draws ∧ m.2.readings = d.2.readings ∧
        ∃ final, Repository.snapshot m.2.data = .ok final ∧
          Repository.snapshot d.2.data = .ok final := by
  intro m d
  -- the ledger of the relational store is filled like the in-memory store, the tables like it
  obtain ⟨hreplies, hs⟩ := seeded_ledger Instant.textLe hdone
  obtain ⟨hreplies', hs'⟩ :=
    seeded_database hown fun reply hreply => hdone reply (hreplies ▸ hreply)
  have hstart : (seeded Memory seed p).2.data.Plain :=
    Memory.keeps_plain.performAll settings calls _ hplain
  -- each store then runs like the ledger
  obtain ⟨hm, hms⟩ := Memory.mirrored_textLe.performAll_of settings Memory.keeps_plain
    (fun hQ hP => ⟨hP, hQ⟩) calls
    ⟨⟨hstart, hs.data.symm⟩, hs.collaborators.symm, hs.draws.symm, hs.readings.symm⟩ hplain
  obtain ⟨hd, hds⟩ := Database.mirrored.performAll settings calls hs'
  refine ⟨fun reply hreply => hdone reply (hreplies ▸ hreplies' ▸ hreply), hm.trans hd.symm,
    hms.draws.trans hds.draws.symm, hms.readings.trans hds.readings.symm, ?_⟩
  exact ⟨_, Memory.mirrored_textLe.snapshot hms.data, Database.mirrored.snapshot hds.data⟩

/-- The reviewer of the small team's pull request leaves, in the tables as in memory. -/
theorem stores_agree_smallTeam :
    (performAll smallSettings [.deactivate "t" ["b"]]
      (seeded Database smallRecords Sources.still).2).1 = [.ok (.deactivation ⟨1, 1⟩)] := by
  obtain ⟨-, hreplies, -⟩ := stores_agree smallSettings smallRecords (by decide +kernel)
    [.deactivate "t" ["b"]] Sources.still (by decide +kernel) (by decide +kernel)
  exact hreplies.symm.trans (by decide +kernel)

end ReviewRota
