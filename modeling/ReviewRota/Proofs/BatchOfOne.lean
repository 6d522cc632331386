import ReviewRota.Proofs.Outcomes
import ReviewRota.Proofs.Stores

/-!
# A batch of one

A single deactivation hands over the reviews of a user and stores him as inactive afterwards; a bulk
deactivation stores first and hands over afterwards. A batch of one is a single deactivation all the
same: the user who leaves is passed over as a candidate by his id, whatever his flag is.

* `Repository.Unseen mark team id`: a change that handing over the reviews of `id` does not notice.
* `StoreKind.withUser`, `StoreKind.unseen_withUser`: in both stores the name and the flag of a user
  are unseen by his own hand-overs.
* **`deactivate_eq_updateUser`**: the session after both is the same, and so is success or failure.
-/

namespace ReviewRota

variable {σ π : Type}

/-! ## Changes that a cascade does not notice -/

/-- A change of the data that handing over the reviews of a user in a team does not notice: all that
is read is as before, and slots are stored all the same. -/
structure Repository.Unseen [Repository σ] (mark : σ → σ) (team id : String) : Prop where
  assignedTo : ∀ d, Repository.assignedTo id (some .opened) (mark d) =
    Repository.assignedTo id (some .opened) d
  activeMembers : ∀ d, Repository.activeMembers team [id] (mark d) =
    Repository.activeMembers team [id] d
  setReviewers : ∀ pid slots d, Repository.setReviewers pid slots (mark d) =
    ((Repository.setReviewers pid slots d).1, mark (Repository.setReviewers pid slots d).2)

namespace Repository.Unseen

variable [Repository σ] [Collaborators π] {mark : σ → σ} {team : String} {user : User}
  (h : Repository.Unseen mark team user.id)
include h

theorem handOver (pool : List User) (p : PullRequest) :
    Work.Mirrors Torn (fun d e => e = mark d) (fun d e => e = mark d)
      (Service.handOver pool user p : Work σ π Unit) (Service.handOver pool user p) := by
  refine (Work.Mirrors.replacement _).bind (fun chosen => ?_) le_rfl
  refine Work.Mirrors.now.bind (fun time => ?_) le_rfl
  refine Work.Mirrors.write fun d e he => ?_
  subst he
  rw [h.setReviewers]
  exact ⟨rfl, fun _ => rfl⟩

theorem handOverAll (pool : List User) (ps : List PullRequest) :
    Work.Mirrors Torn (fun d e => e = mark d) (fun d e => e = mark d)
      (Service.handOverAll pool user ps : Work σ π Nat) (Service.handOverAll pool user ps) := by
  induction ps with
  | nil => exact .pure le_rfl 0
  | cons p rest ih =>
    exact (h.handOver pool p).bind
      (fun _ => ih.bind (fun count => .pure le_rfl (count + 1)) le_rfl) le_rfl

/-- **The cascade before the change and the cascade after it** are one: same outcome, same draws
and readings, and the same change apart. -/
theorem reassignOpenReviews :
    Work.Mirrors Torn (fun d e => e = mark d) (fun d e => e = mark d)
      (Service.reassignOpenReviews team user : Work σ π Nat)
      (Service.reassignOpenReviews team user) := by
  refine .read_then (fun d e he => ?_) (fun reviewed => ?_) le_rfl
  · rw [he, h.assignedTo]
  split
  · exact .pure le_rfl 0
  · refine .read_then (fun d e he => ?_) (fun pool => h.handOverAll pool reviewed) le_rfl
    rw [he, h.activeMembers]

end Repository.Unseen

/-! ## Name and flag of a user -/

namespace Memory

variable {m : Memory} {user : User}

theorem withUser_eq_self (hint : m.Integrity) (hu : user ∈ m.users) : m.withUser user = m := by
  refine congrArg (Memory.mk m.teams · m.pullRequests) ?_
  refine (List.map_congr_left fun u hu' => ?_).trans (List.map_id _)
  split
  · rename_i he
    rw [hint.eq_of_userId hu' hu he]
    rfl
  · rfl

theorem isSome_findUser_withUser (m : Memory) (user : User) (id : String) :
    ((m.withUser user).findUser id).isSome = (m.findUser id).isSome := by
  rw [Bool.eq_iff_iff, isSome_findUser, isSome_findUser]
  constructor
  · rintro ⟨u, hu, rfl⟩
    obtain ⟨v, hv, rfl⟩ := mem_mapUsers.mp hu
    exact ⟨v, hv, by split <;> rfl⟩
  · rintro ⟨u, hu, rfl⟩
    exact ⟨_, mem_mapUsers.mpr ⟨u, hu, rfl⟩, by split <;> rfl⟩

theorem acceptsAfter_withUser (id : String) (seen slots : List ReviewerSlot) :
    (m.withUser user).acceptsAfter id seen slots = m.acceptsAfter id seen slots := by
  induction slots generalizing seen with
  | nil => rfl
  | cons slot rest ih =>
    rw [acceptsAfter, acceptsAfter, ih, acceptsSlot, acceptsSlot, isSome_findUser_withUser]

theorem setReviewers_withUser (id : String) (slots : List ReviewerSlot) :
    (m.withUser user).setReviewers id slots =
      ((m.setReviewers id slots).1, (m.setReviewers id slots).2.withUser user) := by
  rw [setReviewers, setReviewers, acceptsSlots, acceptsAfter_withUser, ← acceptsSlots,
    changePullRequest, changePullRequest]
  by_cases ha : (!m.acceptsSlots id slots) = true
  · rw [if_pos ha, if_pos ha]
  rw [if_neg ha, if_neg ha]
  change (if (m.findPullRequest id).isNone = true then _ else _) = _
  by_cases hp : (m.findPullRequest id).isNone = true
  · rw [if_pos hp, if_pos hp]
  · rw [if_neg hp, if_neg hp]
    rfl

theorem filter_withUser {keep : User → Bool} (hkeep : ∀ u : User, u.id = user.id → keep u = false) :
    (m.withUser user).users.filter keep = m.users.filter keep := by
  change (List.map _ m.users).filter keep = _
  induction m.users with
  | nil => rfl
  | cons u us ih =>
    rw [List.map_cons]
    by_cases hu : u.id = user.id
    · have hout : ∀ v : User, v.id = user.id → ¬ keep v = true := fun v hv => by
        rw [hkeep v hv]
        decide
      rw [if_pos hu, List.filter_cons_of_neg (hout u hu), ← ih]
      exact List.filter_cons_of_neg (hout _ hu)
    · rw [if_neg hu, List.filter_cons, List.filter_cons, ih]

theorem unseen_withUser (user : User) (team : String) :
    Repository.Unseen (fun m : Memory => m.withUser user) team user.id where
  assignedTo _ := rfl
  activeMembers m := by
    refine congrArg (fun users => Except.ok (oldestFirst Instant.le User.createdAt users)) ?_
    exact filter_withUser fun u hu => by simp [hu]
  setReviewers id slots m := setReviewers_withUser id slots

end Memory

namespace Relational.Database

/-- The tables with the name and the active flag of a user as given. -/
def withUser (d : Database) (user : User) : Database :=
  { d with users := (d.records.withUser user).users }

variable {d : Database} {user : User}

theorem hasUser_withUser (id : String) : (d.withUser user).hasUser id = d.hasUser id := by
  rw [hasUser_eq, hasUser_eq]
  exact Memory.isSome_findUser_withUser d.records user id

theorem statement_updateUser (h : ∃ u ∈ d.users, u.id = user.id) :
    d.statement (d.updateUser user) = (.ok (), d.withUser user) := by
  have hfound : ¬ (!d.hasUser user.id) = true := by
    rw [hasUser_eq, Memory.isSome_findUser.mpr h]
    decide
  rw [updateUser, if_neg hfound]
  rfl

theorem insertSlot_withUser (row : SlotRow) :
    (d.withUser user).insertSlot row = (d.insertSlot row).map (·.withUser user) := by
  rw [insertSlot, insertSlot, hasUser_withUser, apply_ite (Except.map _),
    apply_ite (Except.map _), apply_ite (Except.map _)]
  rfl

theorem insertSlots_withUser (rows : List SlotRow) :
    (d.withUser user).insertSlots rows =
      ((d.insertSlots rows).1, (d.insertSlots rows).2.withUser user) := by
  induction rows generalizing d with
  | nil => rfl
  | cons row rows ih =>
    rw [insertSlots, insertSlots, insertSlot_withUser]
    cases d.insertSlot row with
    | ok d' => exact ih
    | error failure => rfl

theorem setReviewers_withUser (id : String) (slots : List ReviewerSlot) :
    (d.withUser user).setReviewers id slots =
      ((d.setReviewers id slots).1, (d.setReviewers id slots).2.withUser user) := by
  rw [setReviewers, setReviewers]
  change (if (!d.hasPullRequest id) = true then _ else if _ then _ else _) = _
  by_cases hp : (!d.hasPullRequest id) = true
  · rw [if_pos hp, if_pos hp]
  by_cases hs : (slots.any (·.pullRequestId != id)) = true
  · rw [if_neg hp, if_neg hp, if_pos hs, if_pos hs]
  · rw [if_neg hp, if_neg hp, if_neg hs, if_neg hs]
    exact insertSlots_withUser (d := d.deleteSlots id) _

theorem unseen_withUser (user : User) (team : String) :
    Repository.Unseen (fun d : Database => d.withUser user) team user.id where
  assignedTo _ := rfl
  activeMembers d := by
    refine congrArg (fun users => Except.ok (oldestFirst User.createdAt users)) ?_
    exact Memory.filter_withUser (m := d.records) fun u hu => by simp [hu]
  setReviewers id slots d := by
    change seenChange (setReviewers (d.withUser user) id slots) = _
    rw [setReviewers_withUser]
    rfl

end Relational.Database

/-! ## Both stores -/

namespace StoreKind

/-- The data with the name and the active flag of a user as given. -/
def withUser (user : User) : (kind : StoreKind) → kind.Data → kind.Data
  | memory => fun m => Memory.withUser m user
  | relational => fun d => Relational.Database.withUser d user

variable {kind : StoreKind} {d : kind.Data} {user : User}

/-- **The name and the flag of a user are unseen while his reviews are handed over.** -/
theorem unseen_withUser (user : User) (team : String) :
    (kind : StoreKind) → Repository.Unseen (kind.withUser user) team user.id
  | memory => Memory.unseen_withUser user team
  | relational => Relational.Database.unseen_withUser user team

theorem updateUser_eq (h : ∃ u ∈ Memory.users (kind.ledger d), u.id = user.id) :
    Repository.updateUser user d = (.ok (), kind.withUser user d) := by
  cases kind with
  | memory => exact Memory.updateUser_eq h
  | relational => exact congrArg Relational.seenChange (Relational.Database.statement_updateUser h)

theorem withUser_eq_self (hsound : kind.Sound d) (hu : user ∈ Memory.users (kind.ledger d)) :
    kind.withUser user d = d := by
  have hsame := Memory.withUser_eq_self hsound.integrity hu
  cases kind with
  | memory => exact hsame
  | relational =>
    exact congrArg (fun users => Relational.Database.mk d.teams users d.pullRequests d.slots)
      (congrArg Memory.users hsame)

end StoreKind

/-! ## The two transactions -/

namespace Service

variable [Repository σ] [Collaborators π] {s : Session σ π} {user : User}

/-- A single deactivation hands over first and stores afterwards. -/
theorem exec_updateUserIn_of_active (hu : Repository.user user.id s.data = .ok user)
    (hactive : user.isActive = true) :
    (updateUserIn user.id ⟨none, some false⟩).exec s =
      (do
        let _ ← reassignOpenReviews user.teamId { user with isActive := false }
        Work.write (Repository.updateUser { user with isActive := false })
        pure { user with isActive := false } : Work σ π User).exec s := by
  unfold updateUserIn
  rw [Work.exec_bind_of_ok (by rw [Work.exec_read, hu])]
  dsimp only
  rw [if_pos (by rw [hactive]; rfl)]
  rfl

theorem exec_updateUserIn_of_inactive (hu : Repository.user user.id s.data = .ok user)
    (hinactive : user.isActive = false) :
    (updateUserIn user.id ⟨none, some false⟩).exec s =
      (do Work.write (Repository.updateUser user); pure user : Work σ π User).exec s := by
  have hsame : UserUpdate.apply ⟨none, some false⟩ user = user := by
    obtain ⟨_, _, _, _, _⟩ := user
    subst hinactive
    rfl
  unfold updateUserIn
  rw [Work.exec_bind_of_ok (by rw [Work.exec_read, hu])]
  dsimp only
  rw [hsame, if_neg (by rw [hinactive]; decide)]

/-- A bulk deactivation of one user stores first, if there is anything to store. -/
theorem exec_deactivateIn_singleton {team : Team}
    (hteam : Repository.team user.teamId s.data = .ok team)
    (hloaded : Repository.usersByIds [user.id] s.data = .ok [user]) :
    (deactivateIn user.teamId [user.id]).exec s =
      (do
        let targets := [user].filter (·.isActive)
        markInactive targets
        let reassigned ← reassignAll user.teamId targets
        pure { deactivated := targets.length, reassigned } : Work σ π Deactivation).exec s := by
  rw [exec_deactivateIn hteam hloaded]
  simp

theorem distinct_eq_singleton {ids : List String} {id : String} (hne : ids ≠ [])
    (hids : ∀ x ∈ ids, x = id) : distinct ids = [id] := by
  refine List.perm_singleton.mp ((List.perm_ext_iff_of_nodup (nodup_distinct ids)
    (List.nodup_singleton id)).mpr fun x => ?_)
  rw [mem_distinct, List.mem_singleton]
  constructor
  · exact hids x
  · rintro rfl
    obtain ⟨y, hy⟩ := List.exists_mem_of_ne_nil ids hne
    exact hids y hy ▸ hy

end Service

namespace StoreKind

variable {kind : StoreKind} {d : kind.Data} {user : User}

theorem Sound.usersByIds_singleton (h : kind.Sound d)
    (hu : user ∈ Memory.users (kind.ledger d)) :
    Repository.usersByIds [user.id] d = .ok [user] := by
  obtain ⟨loaded, hl⟩ : ∃ loaded, Repository.usersByIds [user.id] (kind.ledger d) = .ok loaded :=
    ⟨_, rfl⟩
  have hperm : loaded.Perm [user] := by
    refine (List.perm_ext_iff_of_nodup (.of_map _ (Ledger.nodup_loaded h.integrity hl))
      (List.nodup_singleton user)).mpr fun v => ?_
    rw [Ledger.mem_loaded hl, List.mem_singleton, List.mem_singleton]
    constructor
    · exact fun hv => h.integrity.eq_of_userId hv.1 hu hv.2
    · rintro rfl
      exact ⟨hu, rfl⟩
  rw [kind.mirrored.usersByIds h.holds, hl, List.perm_singleton.mp hperm]

end StoreKind

/-! ## The two services -/

namespace Repository.Unseen

variable [Repository σ] [Collaborators π] {mark : σ → σ} {team : String} {user : User}
  (h : Repository.Unseen mark team user.id) {s s' : Session σ π}
include h

theorem exec_of_ok {n : Nat}
    (he : (Service.reassignOpenReviews team user).exec s = (.ok n, s')) :
    (Service.reassignOpenReviews team user).exec { s with data := mark s.data } =
      (.ok n, { s' with data := mark s'.data }) := by
  obtain ⟨hr, hs⟩ := h.reassignOpenReviews
    (⟨rfl, rfl, rfl, rfl⟩ : s.Agree _ { s with data := mark s.data })
  rw [he] at hr hs
  rcases he' : (Service.reassignOpenReviews team user).exec { s with data := mark s.data } with
    ⟨r, data, collaborators, draws, readings⟩
  rw [he'] at hr hs
  obtain ⟨hdata, hcollaborators, hdraws, hreadings⟩ :=
    hs.mono fun d e k => k fun _ hf => by cases hf
  subst hr hdata hcollaborators hdraws hreadings
  rfl

theorem exec_of_error {fault : Fault}
    (he : (Service.reassignOpenReviews team user).exec s = (.error fault, s')) :
    ∃ data, (Service.reassignOpenReviews team user).exec { s with data := mark s.data } =
      (.error fault, { s' with data }) := by
  obtain ⟨hr, hs⟩ := h.reassignOpenReviews
    (⟨rfl, rfl, rfl, rfl⟩ : s.Agree _ { s with data := mark s.data })
  rw [he] at hr hs
  rcases he' : (Service.reassignOpenReviews team user).exec { s with data := mark s.data } with
    ⟨r, data, collaborators, draws, readings⟩
  rw [he'] at hr hs
  obtain ⟨-, hcollaborators, hdraws, hreadings⟩ := hs
  subst hr hcollaborators hdraws hreadings
  exact ⟨data, rfl⟩

end Repository.Unseen

/-- Whether the slots of a pull request are others in the data than here. -/
def PullRequest.reseated [Repository σ] (d : σ) (p : PullRequest) : Bool :=
  (Repository.pullRequest false p.id d).map PullRequest.reviewers != .ok p.reviewers

namespace StoreKind

variable [Collaborators π] {kind : StoreKind} {s : Session kind.Data π} {user : User}

theorem Sound.withUser {d : kind.Data} (h : kind.Sound d)
    (hu : ∃ u ∈ Memory.users (kind.ledger d), u.id = user.id) :
    kind.Sound (kind.withUser user d) ∧
      kind.ledger (kind.withUser user d) = Memory.withUser (kind.ledger d) user := by
  have hfollows := kind.mirrored.updateUser h.holds user
  rw [updateUser_eq hu] at hfollows
  obtain ⟨hsound, hledger⟩ := hfollows.2 fun hf => by cases hf
  have hset : (Repository.updateUser user (kind.ledger d) : Except Fault Unit × Ledger _) =
    (.ok (), Memory.withUser (kind.ledger d) user) := Memory.updateUser_eq hu
  rw [hset] at hledger
  exact ⟨hsound, hledger.symm⟩

theorem reassignOpenReviews_cases (h : kind.Sound s.data) (team : String) (user : User) :
    (∃ f s', (Service.reassignOpenReviews team user).exec s =
        (.ok ((Memory.pullRequests (kind.ledger s.data)).countP (·.awaits user.id)), s') ∧
      kind.Sound s'.data ∧ kind.ledger s'.data = Memory.mapPullRequests (kind.ledger s.data) f ∧
      ∃ pool, ∀ p ∈ Memory.pullRequests (kind.ledger s.data),
        (p.awaits user.id = true → p.HandOver [user.id] pool (f p)) ∧
          (¬ p.awaits user.id = true → f p = p)) ∨
    ∃ s', (Service.reassignOpenReviews team user).exec s = (.error .noCandidate, s') := by
  obtain ⟨hr, hs⟩ := kind.mirrored.reassignOpenReviews team user h.agree
  rcases he : (Service.reassignOpenReviews team user).exec s with ⟨r, s'⟩
  rw [he] at hr hs
  rcases Ledger.reassignOpenReviews_cases (s := onLedger s) user h.integrity rfl with
    ⟨f, t, ht, hdata, hf⟩ | ⟨ht, -⟩ <;> rw [ht] at hr
  · obtain rfl := hr
    rw [ht] at hs
    obtain ⟨hsound, hledger⟩ := hs.data fun _ hf => by cases hf
    exact .inl ⟨f, s', rfl, hsound, hledger.symm.trans hdata, _, hf⟩
  · obtain rfl := hr
    exact .inr ⟨s', rfl⟩

/-- **The two transactions on an active user**: the cascade and the flag, in one order or the
other. -/
theorem exec_of_active (h : kind.Sound s.data) (hu : user ∈ Memory.users (kind.ledger s.data))
    (hactive : user.isActive = true) :
    (∃ f s', kind.Sound s'.data ∧
      kind.ledger s'.data = Memory.withUser (Memory.mapPullRequests (kind.ledger s.data) f)
        { user with isActive := false } ∧
      (∃ pool, ∀ p ∈ Memory.pullRequests (kind.ledger s.data),
        (p.awaits user.id = true → p.HandOver [user.id] pool (f p)) ∧
          (¬ p.awaits user.id = true → f p = p)) ∧
      (Service.updateUserIn user.id ⟨none, some false⟩).exec s =
        (.ok { user with isActive := false }, s') ∧
      (Service.deactivateIn user.teamId [user.id]).exec s =
        (.ok ⟨1, (Memory.pullRequests (kind.ledger s.data)).countP (·.awaits user.id)⟩, s')) ∨
    ∃ s' data, (Service.updateUserIn user.id ⟨none, some false⟩).exec s =
        (.error .noCandidate, s') ∧
      (Service.deactivateIn user.teamId [user.id]).exec s =
        (.error .noCandidate, { s' with data }) := by
  let gone : User := { user with isActive := false }
  -- the bulk call stores first, which the hand-overs after it do not see
  have hunseen := kind.unseen_withUser gone user.teamId
  obtain ⟨team, hteam⟩ := h.exists_team hu
  have hmark : (Service.markInactive [user]).exec s =
      (.ok (), { s with data := kind.withUser gone s.data }) := by
    have hstore : Repository.updateUser gone s.data = (.ok (), kind.withUser gone s.data) :=
      updateUser_eq ⟨user, hu, rfl⟩
    rw [Service.markInactive, Work.exec_bind_of_ok (by rw [Work.exec_write, hstore])]
    rfl
  have hsingle := Service.exec_updateUserIn_of_active (h.user_iff.mpr ⟨hu, rfl⟩) hactive
  have hbulk := Service.exec_deactivateIn_singleton hteam (h.usersByIds_singleton hu)
  have htargets : [user].filter (·.isActive) = [user] := List.filter_cons_of_pos hactive
  dsimp only at hbulk
  rw [htargets, Work.exec_bind_of_ok hmark] at hbulk
  rw [hsingle, hbulk, Service.reassignAll]
  rcases reassignOpenReviews_cases h user.teamId gone with
    ⟨f, s₁, he, hsound, hledger, hf⟩ | ⟨s₁, he⟩
  · have hknown : ∃ u ∈ Memory.users (kind.ledger s₁.data), u.id = gone.id := by
      rw [hledger]
      exact ⟨user, hu, rfl⟩
    obtain ⟨hsound', hledger'⟩ := hsound.withUser hknown
    rw [hledger] at hledger'
    refine .inl ⟨f, { s₁ with data := kind.withUser gone s₁.data }, hsound', hledger', hf, ?_, ?_⟩
    · rw [Work.exec_bind_of_ok he,
        Work.exec_bind_of_ok (by rw [Work.exec_write, updateUser_eq hknown])]
      rfl
    · rw [Work.exec_bind_of_ok ((Work.exec_bind_of_ok (hunseen.exec_of_ok he) _).trans rfl)]
      rfl
  · obtain ⟨data, he'⟩ := hunseen.exec_of_error he
    refine .inr ⟨s₁, data, Work.exec_bind_of_error he _, ?_⟩
    exact Work.exec_bind_of_error (Work.exec_bind_of_error he' _) _

/-- **The two transactions on an inactive user** do nothing. -/
theorem exec_of_inactive (h : kind.Sound s.data) (hu : user ∈ Memory.users (kind.ledger s.data))
    (hinactive : user.isActive = false) :
    (Service.updateUserIn user.id ⟨none, some false⟩).exec s = (.ok user, s) ∧
      (Service.deactivateIn user.teamId [user.id]).exec s = (.ok ⟨0, 0⟩, s) := by
  obtain ⟨team, hteam⟩ := h.exists_team hu
  have hstore : Repository.updateUser user s.data = (.ok (), s.data) := by
    rw [updateUser_eq ⟨user, hu, rfl⟩, withUser_eq_self h hu]
  have htargets : [user].filter (·.isActive) = [] :=
    List.filter_cons_of_neg (by rw [hinactive]; decide)
  constructor
  · rw [Service.exec_updateUserIn_of_inactive (h.user_iff.mpr ⟨hu, rfl⟩) hinactive,
      Work.exec_bind_of_ok (by rw [Work.exec_write, hstore])]
    rfl
  · rw [Service.exec_deactivateIn_singleton hteam (h.usersByIds_singleton hu)]
    dsimp only
    rw [htargets]
    rfl

end StoreKind

/-! ## Reseated pull requests -/

namespace StoreKind

variable {kind : StoreKind} {d d' : kind.Data}

theorem mem_of_pullRequests (h : kind.Sound d) {status : Option Status} {ps : List PullRequest}
    (hps : Repository.pullRequests status d = .ok ps) {p : PullRequest} (hp : p ∈ ps) :
    p ∈ Memory.pullRequests (kind.ledger d) := by
  rw [kind.mirrored.pullRequests h.holds] at hps
  rw [← Except.ok.inj hps, mem_newestFirst] at hp
  exact (List.mem_filter.mp hp).1

theorem countP_reseated_self (h : kind.Sound d) {status : Option Status} {ps : List PullRequest}
    (hps : Repository.pullRequests status d = .ok ps) : ps.countP (·.reseated d) = 0 := by
  refine List.countP_eq_zero.mpr fun p hp => ?_
  rw [PullRequest.reseated, h.pullRequest_iff.mpr ⟨mem_of_pullRequests h hps hp, rfl⟩]
  simp [Except.map]

theorem countP_reseated (h : kind.Sound d) (h' : kind.Sound d') {f : PullRequest → PullRequest}
    (hprs : Memory.pullRequests (kind.ledger d') = (Memory.pullRequests (kind.ledger d)).map f)
    {id : String} {pool : List User} (hf : ∀ p ∈ Memory.pullRequests (kind.ledger d),
      (p.awaits id = true → p.HandOver [id] pool (f p)) ∧ (¬ p.awaits id = true → f p = p))
    {ps : List PullRequest} (hps : Repository.pullRequests (some .opened) d = .ok ps) :
    ps.countP (·.reseated d') = (Memory.pullRequests (kind.ledger d)).countP (·.awaits id) := by
  have hrel : Memory.Relieved (kind.ledger d) [id] pool f := .of_awaits hf
  have hperm : ps.Perm ((Memory.pullRequests (kind.ledger d)).filter (·.isOpen)) := by
    rw [kind.mirrored.pullRequests h.holds] at hps
    rw [← Except.ok.inj hps]
    exact (perm_sortBy _ _).trans (List.reverse_perm _)
  rw [hperm.countP_eq, List.countP_filter]
  refine List.countP_congr fun p hp => ?_
  have hread : Repository.pullRequest false p.id d' = .ok (f p) := by
    rw [h'.pullRequest_iff, hprs]
    exact ⟨List.mem_map_of_mem hp, (PullRequest.sameOpening_of_steps (hrel.steps p hp)).id⟩
  have hreseated : p.reseated d' = true ↔ (f p).reviewers ≠ p.reviewers := by
    rw [PullRequest.reseated, hread, bne_iff_ne]
    exact not_congr (Except.ok.injEq _ _).to_iff
  rw [Bool.and_eq_true, hreseated]
  by_cases ha : p.awaits id = true
  · obtain ⟨hopen, hrev⟩ := PullRequest.awaits_iff.mp ha
    refine iff_of_true ⟨fun he => ?_, hopen⟩ ha
    have hgone := hrel.gone p hp hopen id (List.mem_singleton_self id)
    rw [PullRequest.reviewerIds, he] at hgone
    exact hgone hrev
  · rw [(hf p hp).2 ha]
    exact iff_of_false (fun hne => hne.1 rfl) ha

end StoreKind

/-- **A batch of one is a single deactivation.** For every user of a store, active or not, and for
ids that name nobody else, the services succeed or fail together, the only fault being that there is
no candidate, and they leave the same session: the same data, the same draws with their bounds and
the same readings. The batch reports whether the user was active, and how many of the open pull
requests have other slots than before. -/
theorem deactivate_eq_updateUser [Collaborators π] (kind : StoreKind) (s : Session kind.Data π)
    (hsound : kind.Sound s.data) (id : String) (user : User)
    (hu : Repository.user id s.data = .ok user) (ids : List String) (hne : ids ≠ [])
    (hids : ∀ x ∈ ids, x = id) :
    let single := (Service.updateUser id ⟨none, some false⟩).exec s
    let bulk := (Service.deactivate user.teamId ids).exec s
    bulk.2 = single.2 ∧
      ((∃ ps, Repository.pullRequests (some .opened) s.data = .ok ps ∧
          single.1 = .ok { user with isActive := false } ∧
          bulk.1 = .ok ⟨if user.isActive then 1 else 0, ps.countP (·.reseated single.2.data)⟩) ∨
        single.1 = .error .noCandidate ∧ bulk.1 = .error .noCandidate) := by
  intro single bulk
  obtain ⟨hmem, rfl⟩ := hsound.user_iff.mp hu
  have hsingle : single =
      (transact (Service.updateUserIn user.id ⟨none, some false⟩)).exec s := rfl
  have hbulk : bulk = (transact (Service.deactivateIn user.teamId [user.id])).exec s := by
    change (Service.deactivate user.teamId ids).exec s = _
    rw [Service.deactivate, Service.distinct_eq_singleton hne hids]
    rfl
  obtain ⟨ps, hps⟩ : ∃ ps, Repository.pullRequests (some .opened) s.data = .ok ps :=
    ⟨_, kind.mirrored.pullRequests hsound.holds _⟩
  cases hactive : user.isActive with
  | true =>
    rcases StoreKind.exec_of_active hsound hmem hactive with
      ⟨f, s', hsound', hledger, ⟨pool, hf⟩, hone, hbatch⟩ | ⟨s', data, hone, hbatch⟩
    · rw [hsingle, hbulk, exec_transact_of_ok hone, exec_transact_of_ok hbatch]
      have hcount := StoreKind.countP_reseated hsound hsound' (by rw [hledger]; rfl) hf hps
      exact ⟨rfl, .inl ⟨ps, hps, rfl, by rw [hcount]; rfl⟩⟩
    · rw [hsingle, hbulk, exec_transact_of_error hone, exec_transact_of_error hbatch]
      exact ⟨rfl, .inr ⟨rfl, rfl⟩⟩
  | false =>
    obtain ⟨hone, hbatch⟩ := StoreKind.exec_of_inactive hsound hmem hactive
    rw [hsingle, hbulk, exec_transact_of_ok hone, exec_transact_of_ok hbatch]
    refine ⟨rfl, .inl ⟨ps, hps, congrArg Except.ok ?_, ?_⟩⟩
    -- what is stored for an inactive user is the user
    · obtain ⟨_, _, _, _, _⟩ := user
      subst hactive
      rfl
    · rw [StoreKind.countP_reseated_self hsound hps]
      rfl

/-- The second member of the small team is named twice, and his one review is handed over. -/
theorem deactivate_eq_updateUser_smallTeam :
    ((Service.updateUser "b" ⟨none, some false⟩).exec (smallRun .relational)).2 =
        ((Service.deactivate "t" ["b", "b"]).exec (smallRun .relational)).2 ∧
      ((Service.deactivate "t" ["b", "b"]).exec (smallRun .relational)).1 = .ok ⟨1, 1⟩ := by
  let user : User := ⟨"b", "Ben", "t", true, Sources.still.time⟩
  have hu : Repository.user "b" (smallRun .relational).data = .ok user := by decide +kernel
  obtain ⟨hsession, -⟩ := deactivate_eq_updateUser .relational (smallRun .relational)
    (sound_smallRun .relational) "b" user hu ["b", "b"] (by decide) (by decide)
  exact ⟨hsession.symm, by decide +kernel⟩

end ReviewRota
