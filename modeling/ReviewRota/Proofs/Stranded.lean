import Mathlib.Data.List.TakeWhile
import ReviewRota.Proofs.Replacement
import ReviewRota.Proofs.Stores

/-!
# Where a cascade stops

The open reviews of a user are handed over one after the other, until one of them finds no
candidate. A hand-over leaves the pull requests to come as they are, so which one that is can be
told at the start.

* `Service.handOverAll_append`: the loop goes through one list and then through the other;
  `Service.exec_handOverAll_of_stuck`: how it stops.
* `PullRequest.Refillable`: a pull request that has a candidate.
* `Ledger.exec_handOverAll`: the loop hands over all pull requests before the first one that has
  none.
* **`cascade_outcome`**: the open reviews of any user, on either store.
-/

namespace ReviewRota

/-! ## The loop in two parts -/

namespace Service

variable {σ π : Type} [Repository σ] [Collaborators π] {pool : List User} {user : User}

theorem handOverAll_append (done rest : List PullRequest) :
    (handOverAll pool user (done ++ rest) : Work σ π Nat) = (do
      let n ← handOverAll pool user done
      let k ← handOverAll pool user rest
      pure (n + k)) := by
  induction done with
  | nil => simp only [List.nil_append, handOverAll, pure_bind, Nat.zero_add, bind_pure]
  | cons p done ih =>
    simp only [List.cons_append, handOverAll, ih, bind_assoc, pure_bind, Nat.add_right_comm]

theorem exec_handOver_of_stuck {s : Session σ π} {p : PullRequest} (hrev : user.id ∈ p.reviewerIds)
    (hstuck : ∀ v ∈ pool, ¬ p.canTake v = true) :
    (handOver pool user p).exec s = (.error .noCandidate, s) := by
  rw [handOver_eq hrev, List.filter_eq_nil_iff.mpr hstuck]
  rfl

/-- **The loop stops where nobody can take the review**, with what it has done before. -/
theorem exec_handOverAll_of_stuck {done : List PullRequest} {p : PullRequest} {n : Nat}
    {s s' : Session σ π} (he : (handOverAll pool user done).exec s = (.ok n, s'))
    (hrev : user.id ∈ p.reviewerIds) (hstuck : ∀ v ∈ pool, ¬ p.canTake v = true)
    (rest : List PullRequest) :
    (handOverAll pool user (done ++ p :: rest)).exec s = (.error .noCandidate, s') := by
  rw [handOverAll_append, Work.exec_bind_of_ok he, handOverAll]
  exact Work.exec_bind_of_error (Work.exec_bind_of_error (exec_handOver_of_stuck hrev hstuck) _) _

end Service

/-! ## The loop up to where it stops -/

/-- Somebody can take the place of a reviewer. -/
def PullRequest.Refillable (users : List User) (team userId : String) (p : PullRequest) : Prop :=
  ∃ v ∈ users, p.Candidate team userId v

instance (users : List User) (team userId : String) :
    DecidablePred (PullRequest.Refillable users team userId) :=
  fun _ => inferInstanceAs (Decidable (∃ v ∈ users, _))

namespace Ledger

open PullRequest (HandOver Refillable)

variable {older : Instant → Instant → Bool} {π : Type} [Collaborators π]
  {s : Session (Ledger older) π} {user : User} {ps : List PullRequest}

/-- **The loop hands over what comes before the first pull request without a candidate.** Whether
there is one does not depend on the draws. -/
theorem exec_handOverAll [Collaborators.Lawful π] {pool : List User} (hnodup : ps.Nodup)
    (hreview : ∀ p ∈ ps, user.id ∈ p.reviewerIds) (hint : Memory.Integrity s.data)
    (hpool : ∀ v ∈ pool, ∃ u ∈ Memory.users s.data, u.id = v.id)
    (hps : ∀ p ∈ ps, p ∈ Memory.pullRequests s.data) {refillable : PullRequest → Prop}
    [DecidablePred refillable]
    (hrefill : ∀ p ∈ ps, refillable p ↔ ∃ v ∈ pool, p.canTake v = true) :
    ∃ f s', (Service.handOverAll pool user ps).exec s =
        (if ∀ p ∈ ps, refillable p then .ok ps.length else .error .noCandidate, s') ∧
      s'.data = Memory.mapPullRequests s.data f ∧
      ∀ p ∈ Memory.pullRequests s.data,
        (p ∈ (ps.takeWhile fun p => decide (refillable p)) → p.HandOver [user.id] pool (f p)) ∧
          (p ∉ (ps.takeWhile fun p => decide (refillable p)) → f p = p) := by
  have hsub := List.takeWhile_subset (l := ps) fun p => decide (refillable p)
  -- the part before the first one that nobody can take is a run of its own, which succeeds
  rcases handOverAll_cases (hnodup.sublist (List.takeWhile_sublist _))
    (fun p hp => hreview p (hsub hp)) hint hpool fun p hp => hps p (hsub hp) with
    ⟨f, s', he, hdata, hf⟩ | ⟨-, hstuck⟩
  swap
  · obtain ⟨p, hp, hnone⟩ := hstuck
    have hfound := List.mem_takeWhile_imp hp
    obtain ⟨v, hv, hcan⟩ := (hrefill p (hsub hp)).mp (of_decide_eq_true hfound)
    exact absurd hcan (hnone v hv)
  refine ⟨f, s', ?_, hdata, hf⟩
  by_cases hall : ∀ p ∈ ps, refillable p
  · rw [List.takeWhile_eq_self_iff.mpr fun p hp => decide_eq_true (hall p hp)] at he
    rw [if_pos hall, he]
  · rw [if_neg hall]
    rcases hrest : ps.dropWhile (fun p => decide (refillable p)) with _ | ⟨p, rest⟩
    · exact absurd (fun p hp => of_decide_eq_true (List.dropWhile_eq_nil_iff.mp hrest p hp)) hall
    have hsplit : (ps.takeWhile fun p => decide (refillable p)) ++ p :: rest = ps := by
      rw [← hrest, List.takeWhile_append_dropWhile]
    have hp : p ∈ ps := (List.dropWhile_sublist _).subset (hrest ▸ List.mem_cons_self)
    have hno : ¬ refillable p := by
      have hhead := List.dropWhile_get_zero_not (fun p => decide (refillable p)) ps
        (hrest ▸ Nat.succ_pos _)
      simpa [hrest] using hhead
    have hstop := Service.exec_handOverAll_of_stuck he (hreview p hp)
      (fun v hv hcan => hno ((hrefill p hp).mpr ⟨v, hv, hcan⟩)) rest
    rwa [hsplit] at hstop

/-- The open reviews of a user are handed over up to the first one without a candidate. -/
theorem exec_reassignOpenReviews [Collaborators.Lawful π] (hint : Memory.Integrity s.data)
    (team : String) {users : List User} (husers : users.Perm (Memory.users s.data))
    (hps : Repository.assignedTo user.id (some .opened) s.data = .ok ps) :
    ∃ f s', (Service.reassignOpenReviews team user).exec s =
        (if ∀ p ∈ ps, p.Refillable users team user.id then .ok ps.length
          else .error .noCandidate, s') ∧
      s'.data = Memory.mapPullRequests s.data f ∧
      ∀ p ∈ Memory.pullRequests s.data,
        (p ∈ (ps.takeWhile fun p => decide (p.Refillable users team user.id)) →
          ∃ v ∈ users, p.Candidate team user.id v ∧ ∃ time, p.Replaced user.id v.id time (f p)) ∧
        (p ∉ (ps.takeWhile fun p => decide (p.Refillable users team user.id)) → f p = p) := by
  obtain ⟨pool, hpool⟩ := exists_pool s.data team [user.id]
  have hmem : ∀ p ∈ ps, p ∈ Memory.pullRequests s.data ∧ p.awaits user.id = true := fun p =>
    (mem_assignedTo hps).mp
  have hcandidate : ∀ (p : PullRequest) (v : User), v ∈ pool ∧ p.canTake v = true ↔
      v ∈ users ∧ p.Candidate team user.id v := fun p v => by
    rw [mem_activeMembers hpool, PullRequest.canTake_iff, List.mem_singleton, husers.mem_iff]
    simp only [PullRequest.Candidate, and_assoc]
  rw [Service.exec_reassignOpenReviews hps hpool]
  have hrefill : ∀ p ∈ ps, p.Refillable users team user.id ↔ ∃ v ∈ pool, p.canTake v = true :=
    fun p _ => exists_congr fun v => (hcandidate p v).symm
  obtain ⟨f, s', he, hdata, hf⟩ := exec_handOverAll (nodup_assignedTo hint hps)
    (fun p hp => (PullRequest.awaits_iff.mp (hmem p hp).2).2) hint (known_of_activeMembers hpool)
    (fun p hp => (hmem p hp).1) hrefill
  refine ⟨f, s', he, hdata, fun p hp => ⟨fun hin => ?_, (hf p hp).2⟩⟩
  obtain ⟨old, hold, v, hv, -, hcan, time, hfp⟩ := (hf p hp).1 hin
  obtain rfl := List.mem_singleton.mp hold
  obtain ⟨hv, hc⟩ := (hcandidate p v).mp ⟨hv, hcan⟩
  exact ⟨v, hv, hc, time, hfp ▸ PullRequest.replaced_handedOver (hint.slots p hp) _ _ _⟩

omit [Collaborators π] in
theorem assignedTo_of_snapshot {m : Ledger older} (horder : IsPreorder older) {snapshot : Snapshot}
    (h : Repository.snapshot m = .ok snapshot) (userId : String) :
    Repository.assignedTo userId (some .opened) m =
      .ok (snapshot.pullRequests.filter (·.awaits userId)) := by
  rw [← Except.ok.inj (snapshot_eq.symm.trans h), assignedTo_eq, filter_newestFirst horder]
  simp only [awaits_of_passes]

end Ledger

/-! ## The outcome -/

/-- **A cascade hands over what comes before the first pull request without a candidate**, whatever
the team and the user are. It counts the open pull requests that the user reviews if each of them
has a candidate, an active member of the team who is neither the user nor the author nor a reviewer;
else it fails for want of one. On each of those before the first without a candidate, in the order
in which they are listed at the start, a candidate sits where the user sat. Nothing else has
changed, and none of this but the choice of the candidate depends on the draws. -/
theorem cascade_outcome (kind : StoreKind) {d : kind.Data} (hsound : kind.Sound d) (team : String)
    (user : User) :
    ∃ snapshot reviewed, Repository.snapshot d = .ok snapshot ∧
      Repository.assignedTo user.id (some .opened) d = .ok reviewed ∧
      reviewed = snapshot.pullRequests.filter (·.awaits user.id) ∧
      ∀ (π : Type) [Collaborators π] [Collaborators.Lawful π] (s s' : Session kind.Data π) r,
        s.data = d → (Service.reassignOpenReviews team user).exec s = (r, s') →
          (r = if ∀ p ∈ reviewed, p.Refillable snapshot.users team user.id then .ok reviewed.length
            else .error .noCandidate) ∧
          ∃ f, Repository.snapshot s'.data =
              .ok { snapshot with pullRequests := snapshot.pullRequests.map f } ∧
            ∀ p ∈ snapshot.pullRequests,
              (p ∈ (reviewed.takeWhile fun p => decide (p.Refillable snapshot.users team user.id)) →
                ∃ v ∈ snapshot.users, p.Candidate team user.id v ∧
                  ∃ time, p.Replaced user.id v.id time (f p)) ∧
              (p ∉ (reviewed.takeWhile fun p => decide (p.Refillable snapshot.users team user.id)) →
                f p = p) := by
  obtain ⟨snapshot, hsnap, -, husers, hprs⟩ := hsound.exists_snapshot
  have hlisted := (StoreKind.snapshot_eq hsound).symm.trans hsnap
  have hreviewed := Ledger.assignedTo_of_snapshot kind.isPreorder_older hlisted user.id
  refine ⟨snapshot, _, hsnap, (kind.mirrored.assignedTo hsound.holds _ _).trans hreviewed, rfl,
    fun π _ _ s s' r hdata he => ?_⟩
  subst hdata
  obtain ⟨f, t, ht, hmap, hf⟩ := Ledger.exec_reassignOpenReviews (s := StoreKind.onLedger s)
    hsound.integrity team husers hreviewed
  obtain ⟨hr, hs⟩ := kind.mirrored.reassignOpenReviews team user hsound.agree
  rw [he, ht] at hr hs
  subst hr
  obtain ⟨hsound', hledger⟩ := hs.data fun fault hf => by
    split at hf <;> cases hf
    exact Fault.noConfusion
  refine ⟨rfl, f, ?listed, fun p hp => hf p (hprs.mem_iff.mp hp)⟩
  case listed =>
    rw [StoreKind.snapshot_eq hsound', show kind.ledger s'.data = _ from hledger.symm.trans hmap]
    refine Ledger.snapshot_mapPullRequests (fun p hp => ?_) hlisted
    by_cases hin : p ∈ (snapshot.pullRequests.filter (·.awaits user.id)).takeWhile
        fun p => decide (p.Refillable snapshot.users team user.id)
    · obtain ⟨_, -, -, _, hreplaced⟩ := (hf p hp).1 hin
      exact hreplaced.createdAt
    · rw [(hf p hp).2 hin]

/-- The small team, where both others review the pull request of the first member, and the second
reviews another one that is newer. -/
def busyRun (kind : StoreKind) : Session kind.Data Sources :=
  (performAll smallSettings [.createPullRequest "Next" "a" (some "q")]
    (performAll ⟨2, .external⟩ smallTeam (.start Repository.empty .still)).2).2

theorem sound_busyRun (kind : StoreKind) : kind.Sound (busyRun kind).data := by
  unfold busyRun
  exact (StoreKind.Sound.performAll kind.sound_empty _ _).performAll _ _

/-- The pull requests of the busy team as they are listed. -/
def busyRecords : Snapshot :=
  let time := Sources.still.time
  { smallRecords with pullRequests :=
      [⟨"q", "Next", "a", .opened, time, none, [⟨"q", 1, "b", time⟩]⟩,
        ⟨"p", "Fix", "a", .opened, time, none, [⟨"p", 1, "b", time⟩, ⟨"p", 2, "c", time⟩]⟩] }

/-- The second member cannot leave both. The newer pull request has been handed over by the time
this is found out. -/
theorem cascade_outcome_busyRun :
    ∃ s' f, (Service.reassignOpenReviews "t" ⟨"b", "Ben", "t", true, Sources.still.time⟩).exec
        (busyRun .relational) = (.error .noCandidate, s') ∧
      Repository.snapshot s'.data = .ok { busyRecords with
        pullRequests := busyRecords.pullRequests.map f } ∧
      ∀ p ∈ busyRecords.pullRequests, if p.id = "q"
        then ∃ v ∈ busyRecords.users, ∃ time, p.Replaced "b" v.id time (f p) else f p = p := by
  obtain ⟨snapshot, reviewed, hsnap, -, hreviewed, hcascade⟩ := cascade_outcome .relational
    (sound_busyRun .relational) "t" ⟨"b", "Ben", "t", true, Sources.still.time⟩
  have hlisted : Repository.snapshot (busyRun .relational).data = .ok busyRecords := by
    decide +kernel
  obtain rfl : snapshot = busyRecords := Except.ok.inj (hsnap.symm.trans hlisted)
  obtain rfl : reviewed = busyRecords.pullRequests := hreviewed.trans (by decide +kernel)
  rcases he : (Service.reassignOpenReviews "t" ⟨"b", "Ben", "t", true, Sources.still.time⟩).exec
    (busyRun .relational) with ⟨r, s'⟩
  obtain ⟨hr, f, hafter, hf⟩ := hcascade Sources (busyRun .relational) s' r rfl he
  rw [if_neg (by decide +kernel)] at hr
  subst hr
  refine ⟨s', f, rfl, hafter, fun p hp => ?_⟩
  have hbefore : ∀ p ∈ busyRecords.pullRequests, p.id = "q" ↔
      p ∈ busyRecords.pullRequests.takeWhile
        fun p => decide (p.Refillable busyRecords.users "t" "b") := by decide +kernel
  split
  · rename_i hid
    obtain ⟨v, hv, -, hreplaced⟩ := (hf p hp).1 ((hbefore p hp).mp hid)
    exact ⟨v, hv, hreplaced⟩
  · rename_i hid
    exact (hf p hp).2 fun hin => hid ((hbefore p hp).mpr hin)

end ReviewRota
