import ReviewRota.Proofs.HandOver
import ReviewRota.Proofs.Stores

/-!
# Open reviews one by one

The open reviews of a user are handed over with a pool and with pull requests that are read once, at
the start. Reassigning one pull request after the other reads everything anew. Both are the same,
since a hand-over changes neither the pool nor the pull requests to come.

* `Service.reassignEach`: one reassignment after the other, in one transaction.
* `Service.exec_reassignIn_eq_handOver`: one reassignment is one hand-over if what it reads is what
  the loop has kept.
* `StoreKind.Ready`: what the loop has kept is what the store would tell.
* **`reassignOpenReviews_eq_reassignEach`**: outcome, draws, readings and data are the same.
-/

namespace ReviewRota

/-! ## One review -/

namespace Service

variable {σ π : Type} [Repository σ] [Collaborators π]

/-- Reassigns the review of a user on several pull requests, one after the other, and counts
them. -/
def reassignEach (reviewerId : String) : List PullRequest → Work σ π Nat
  | [] => pure 0
  | p :: rest => do
    let _ ← reassignIn p.id reviewerId
    let count ← reassignEach reviewerId rest
    pure (count + 1)

/-- **A reassignment is a hand-over**, apart from its reply, where the store tells what the loop
keeps. -/
theorem exec_reassignIn_eq_handOver {pool : List User} {user : User} {p : PullRequest}
    {s : Session σ π} (hp : Repository.pullRequest true p.id s.data = .ok p)
    (hopen : p.isOpen = true) (huser : Repository.user user.id s.data = .ok user)
    (hrev : p.hasReviewer user.id = true)
    (hpool : Repository.activeMembers user.teamId (p.exclusions user.id) s.data =
      .ok (pool.filter fun member => !(p.exclusions user.id).contains member.id)) :
    ((fun _ => ()) <$> reassignIn p.id user.id).exec s = (handOver pool user p).exec s := by
  have hbody := exec_reassignIn hp hopen huser hpool
  rw [hrev, require, if_pos rfl] at hbody
  rw [Work.exec_map, hbody, ← Work.exec_map]
  simp [handOver, PullRequest.handedOver]

end Service

/-! ## What the loop has kept -/

namespace StoreKind

open PullRequest (HandOver instead)

variable {π : Type} [Collaborators π] {kind : StoreKind}

theorem exec_handOver {s : Session kind.Data π} (h : kind.Sound s.data) {pool : List User}
    (hpool : ∀ v ∈ pool, ∃ u ∈ Memory.users (kind.ledger s.data), u.id = v.id) {user : User}
    {p : PullRequest} (hmem : p ∈ Memory.pullRequests (kind.ledger s.data))
    (hrev : user.id ∈ p.reviewerIds) :
    (∃ q s', (Service.handOver pool user p).exec s = (.ok (), s') ∧ kind.Sound s'.data ∧
      kind.ledger s'.data = Memory.mapPullRequests (kind.ledger s.data) (instead q) ∧
      p.HandOver [user.id] pool q) ∨
    ∃ s', (Service.handOver pool user p).exec s = (.error .noCandidate, s') := by
  have hknown : ∀ q ∈ [p], (Memory.findPullRequest (kind.ledger s.data) q.id).isSome :=
    fun q hq => Memory.isSome_findPullRequest.mpr ⟨p, hmem, List.mem_singleton.mp hq ▸ rfl⟩
  obtain ⟨hr, hs⟩ := kind.mirrored.handOver pool user p []
    (⟨⟨h.holds, hknown⟩, rfl, rfl, rfl⟩ : s.Agree _ (onLedger s))
  rcases he : (Service.handOver pool user p).exec s with ⟨r, s'⟩
  rw [he] at hr hs
  rcases Ledger.handOver_cases (s := onLedger s) h.integrity hpool hmem hrev with
    ⟨q, t, ht, hdata, hq⟩ | ⟨t, ht, -⟩ <;> rw [ht] at hr hs
  · obtain rfl : r = .ok () := hr
    obtain ⟨⟨hsound, hledger⟩, -⟩ := hs.data fun _ hf => by cases hf
    exact .inl ⟨q, s', rfl, hsound, hledger.symm.trans hdata, hq⟩
  · obtain rfl : r = .error .noCandidate := hr
    exact .inr ⟨s', rfl⟩

omit [Collaborators π] in
/-- **Filtering a pool is querying with more exclusions**, in the same order. -/
theorem activeMembers_exclusions {d : kind.Data} (h : kind.Sound d) {team id : String}
    {pool : List User} (hpool : Repository.activeMembers team [id] d = .ok pool)
    (p : PullRequest) :
    Repository.activeMembers team (p.exclusions id) d =
      .ok (pool.filter fun v => !(p.exclusions id).contains v.id) := by
  rw [kind.mirrored.activeMembers h.holds, Ledger.activeMembers_eq] at hpool ⊢
  rw [Except.ok.injEq] at hpool ⊢
  rw [← hpool, filter_oldestFirst kind.isPreorder_older, List.filter_filter]
  congr 1
  refine List.filter_congr fun u _ => ?_
  have hmem : id ∈ p.exclusions id := PullRequest.mem_exclusions.mpr (.inl rfl)
  by_cases hu : u.id = id
  · simp [hu, hmem]
  · simp only [List.contains_cons, List.contains_nil, Bool.or_false, beq_eq_false_iff_ne.mpr hu,
      Bool.not_false, Bool.and_true]
    exact Bool.and_comm ..

/-- Before the loop works on pull requests that were read at the start, the store would still tell
the same user, the same pool and the same pull requests. -/
structure Ready (kind : StoreKind) (pool : List User) (user : User) (ps : List PullRequest)
    (d : kind.Data) : Prop where
  sound : kind.Sound d
  stored : Repository.user user.id d = .ok user
  loaded : Repository.activeMembers user.teamId [user.id] d = .ok pool
  nodup : ps.Nodup
  awaits : ∀ p ∈ ps, p ∈ Memory.pullRequests (kind.ledger d) ∧ p.awaits user.id = true

namespace Ready

variable {pool : List User} {user : User} {p : PullRequest} {ps rest : List PullRequest}
  {s : Session kind.Data π}

omit [Collaborators π] in
theorem start {d : kind.Data} (h : kind.Sound d)
    (hu : Repository.user user.id d = .ok user)
    (hpool : Repository.activeMembers user.teamId [user.id] d = .ok pool)
    (hps : Repository.assignedTo user.id (some .opened) d = .ok ps) :
    kind.Ready pool user ps d := by
  have hps' := hps
  rw [kind.mirrored.assignedTo h.holds] at hps'
  exact ⟨h, hu, hpool, Ledger.nodup_assignedTo h.integrity hps',
    fun _ hp => (Ledger.mem_assignedTo hps').mp hp⟩

/-- **One step of the loop**: what is kept for the pull requests to come is what the store tells
after it. -/
theorem step (h : kind.Ready pool user (p :: rest) s.data) :
    (∃ s', (Service.handOver pool user p).exec s = (.ok (), s') ∧
      kind.Ready pool user rest s'.data) ∨
    ∃ s', (Service.handOver pool user p).exec s = (.error .noCandidate, s') := by
  obtain ⟨hout, hnodup⟩ := List.nodup_cons.mp h.nodup
  obtain ⟨hp, hawaits⟩ := h.awaits p List.mem_cons_self
  have hpool := h.loaded
  rw [kind.mirrored.activeMembers h.sound.holds] at hpool
  have hknown := Ledger.known_of_activeMembers hpool
  refine (exec_handOver h.sound hknown hp (PullRequest.awaits_iff.mp hawaits).2).imp_left ?_
  rintro ⟨q, s', he, hsound, hledger, hq⟩
  refine ⟨s', he, hsound, ?stored, ?loaded, hnodup, fun r hr => ?awaits⟩
  case stored =>
    have hu := h.sound.user_iff.mp h.stored
    rw [hsound.user_iff, hledger]
    exact hu
  case loaded =>
    -- who is active depends on the users alone
    rw [kind.mirrored.activeMembers hsound.holds, hledger]
    exact hpool
  case awaits =>
    obtain ⟨hr', ha⟩ := h.awaits r (List.mem_cons_of_mem p hr)
    have hne : instead q r = r := if_neg fun hid : r.id = q.id =>
      hout (h.sound.integrity.eq_of_id hr' hp (hid.trans hq.sameOpening.id) ▸ hr)
    rw [hledger]
    exact ⟨Memory.mem_mapPullRequests.mpr ⟨r, hr', hne⟩, ha⟩

theorem exec_reassignIn (h : kind.Ready pool user (p :: rest) s.data) :
    ((fun _ => ()) <$> Service.reassignIn p.id user.id).exec s =
      (Service.handOver pool user p).exec s := by
  obtain ⟨hp, hawaits⟩ := h.awaits p List.mem_cons_self
  obtain ⟨hopen, hrev⟩ := PullRequest.awaits_iff.mp hawaits
  exact Service.exec_reassignIn_eq_handOver (h.sound.pullRequest_iff.mpr ⟨hp, rfl⟩) hopen h.stored
    (PullRequest.hasReviewer_iff.mpr hrev) (activeMembers_exclusions h.sound h.loaded p)

theorem exec_reassignEach_cons (h : kind.Ready pool user (p :: rest) s.data) :
    (Service.reassignEach user.id (p :: rest)).exec s =
      (do
        Service.handOver pool user p
        let count ← Service.reassignEach user.id rest
        pure (count + 1) : Work kind.Data π Nat).exec s := by
  have hunit : (Service.reassignEach user.id (p :: rest) : Work kind.Data π Nat) =
      (do
        (fun _ => ()) <$> Service.reassignIn p.id user.id
        let count ← Service.reassignEach user.id rest
        pure (count + 1)) := by
    rw [Service.reassignEach, bind_map_left]
  rw [hunit, Work.exec_bind, h.exec_reassignIn, ← Work.exec_bind]

/-- **The loop is the reassignments one by one.** -/
theorem exec_handOverAll (h : kind.Ready pool user ps s.data) :
    (Service.handOverAll pool user ps).exec s = (Service.reassignEach user.id ps).exec s ∧
      (((Service.handOverAll pool user ps).exec s).1 = .ok ps.length ∨
        ((Service.handOverAll pool user ps).exec s).1 = .error .noCandidate) := by
  induction ps generalizing s with
  | nil => exact ⟨rfl, .inl rfl⟩
  | cons p rest ih =>
    rw [h.exec_reassignEach_cons, Service.handOverAll]
    rcases h.step with ⟨s₁, he, h₁⟩ | ⟨s₁, he⟩
    · obtain ⟨heq, hr⟩ := ih h₁
      rw [Work.exec_bind_of_ok he, Work.exec_bind_of_ok he, Work.exec_bind, Work.exec_bind, heq]
      refine ⟨rfl, ?_⟩
      rw [heq] at hr
      rcases he' : (Service.reassignEach user.id rest).exec s₁ with ⟨r, s₂⟩
      rw [he'] at hr
      rcases hr with rfl | rfl
      · exact .inl rfl
      · exact .inr rfl
    · rw [Work.exec_bind_of_error he, Work.exec_bind_of_error he]
      exact ⟨rfl, .inr rfl⟩

theorem of_reassignEach {done : List PullRequest} (h : kind.Ready pool user (done ++ rest) s.data)
    {n : Nat} {s' : Session kind.Data π}
    (he : (Service.reassignEach user.id done).exec s = (.ok n, s')) :
    kind.Ready pool user rest s'.data := by
  induction done generalizing s n with
  | nil =>
    cases he
    exact h
  | cons p done ih =>
    have hfirst : kind.Ready pool user (p :: done) s.data :=
      ⟨h.sound, h.stored, h.loaded, (List.nodup_append.mp h.nodup).1,
        fun q hq => h.awaits q (List.mem_append_left rest hq)⟩
    rw [hfirst.exec_reassignEach_cons] at he
    obtain ⟨_, s₁, hstep, he⟩ := Work.exec_bind_eq_ok.mp he
    obtain ⟨count, s₂, hrest, he⟩ := Work.exec_bind_eq_ok.mp he
    cases he
    rcases h.step with ⟨t, ht, h₁⟩ | ⟨t, ht⟩ <;> rw [hstep] at ht <;> cases ht
    exact ih h₁ hrest

end Ready

end StoreKind

/-! ## All open reviews -/

/-- **Handing over the open reviews of a user is reassigning them one by one**, on both stores: the
outcome, the draws with their bounds, the readings of the clock and the data of the transaction are
the same, and the only fault is that there is no candidate. Whenever some of the reassignments have
succeeded, the pool that was loaded at the start, without those excluded on the next pull request,
is the pool that the next reassignment loads. -/
theorem reassignOpenReviews_eq_reassignEach {π : Type} [Collaborators π] (kind : StoreKind)
    (s : Session kind.Data π) (hsound : kind.Sound s.data) (id : String) (user : User)
    (hu : Repository.user id s.data = .ok user) :
    ∃ reviewed pool, Repository.assignedTo id (some .opened) s.data = .ok reviewed ∧
      Repository.activeMembers user.teamId [id] s.data = .ok pool ∧
      (Service.reassignOpenReviews user.teamId user).exec s =
        (Service.reassignEach id reviewed).exec s ∧
      (((Service.reassignEach id reviewed).exec s).1 = .ok reviewed.length ∨
        ((Service.reassignEach id reviewed).exec s).1 = .error .noCandidate) ∧
      ∀ done p rest, reviewed = done ++ p :: rest →
        ∀ n s₁, (Service.reassignEach id done).exec s = (.ok n, s₁) →
          Repository.activeMembers user.teamId (p.exclusions id) s₁.data =
            .ok (pool.filter fun member => !(p.exclusions id).contains member.id) := by
  obtain ⟨-, rfl⟩ := hsound.user_iff.mp hu
  obtain ⟨reviewed, hreviewed⟩ :
      ∃ reviewed, Repository.assignedTo user.id (some .opened) s.data = .ok reviewed :=
    ⟨_, kind.mirrored.assignedTo hsound.holds _ _⟩
  obtain ⟨pool, hpool⟩ :
      ∃ pool, Repository.activeMembers user.teamId [user.id] s.data = .ok pool :=
    ⟨_, kind.mirrored.activeMembers hsound.holds _ _⟩
  have hready := StoreKind.Ready.start hsound hu hpool hreviewed
  obtain ⟨heq, hr⟩ := hready.exec_handOverAll
  refine ⟨reviewed, pool, hreviewed, hpool, ?same, heq ▸ hr, ?fresh⟩
  case same => rw [Service.exec_reassignOpenReviews hreviewed hpool, heq]
  case fresh =>
    rintro done p rest rfl n s₁ he
    have hlater := hready.of_reassignEach he
    exact StoreKind.activeMembers_exclusions hlater.sound hlater.loaded p

/-- The second member of the small team has one review. -/
theorem reassignOpenReviews_eq_reassignEach_smallTeam :
    ∃ user reviewed, Repository.user "b" (smallRun .relational).data = .ok user ∧
      reviewed.map PullRequest.id = ["p"] ∧
      (Service.reassignOpenReviews "t" user).exec (smallRun .relational) =
        (Service.reassignEach "b" reviewed).exec (smallRun .relational) := by
  let user : User := ⟨"b", "Ben", "t", true, Sources.still.time⟩
  have hu : Repository.user "b" (smallRun .relational).data = .ok user := by decide +kernel
  have hids : (Repository.assignedTo "b" (some .opened) (smallRun .relational).data).map
      (·.map PullRequest.id) = .ok ["p"] := by decide +kernel
  obtain ⟨reviewed, pool, hreviewed, -, heq, -⟩ := reassignOpenReviews_eq_reassignEach .relational
    (smallRun .relational) (sound_smallRun .relational) "b" user hu
  rw [hreviewed] at hids
  exact ⟨user, reviewed, hu, Except.ok.inj hids, heq⟩

end ReviewRota
