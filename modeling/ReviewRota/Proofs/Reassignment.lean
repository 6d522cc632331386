import ReviewRota.Proofs.Outcomes
import ReviewRota.Proofs.Replacement
import ReviewRota.Proofs.Stores

/-!
# Reassigning one review

Reassignments of one reviewer on either store, told by what the store lists before them.

* `Ledger.exec_reassign_of_candidate`: a reassignment that finds a candidate, on a ledger.
* **`reassign_replaces`**: it succeeds exactly if an open pull request, one of its reviewers and a
  candidate are there; it replaces that reviewer and changes nothing else, and the draw decides
  among the candidates.
* `StoreKind.Sound.reassign_of_not_reviewer`, **`reassign_unassigned`**: a user who does not review
  is refused, as a bad reviewer if there is a candidate and for want of one if there is none.
-/

namespace ReviewRota

open PullRequest (instead)

/-! ## Success -/

namespace Ledger

variable {older : Instant → Instant → Bool} {π : Type} [Collaborators π]
  {s s' : Session (Ledger older) π}

theorem exec_reassign_of_candidate [Collaborators.Lawful π] (hint : Memory.Integrity s.data)
    {p : PullRequest} (hp : p ∈ Memory.pullRequests s.data) (hopen : p.isOpen = true)
    {reviewer : User} (hreviewer : reviewer ∈ Memory.users s.data)
    (hrev : reviewer.id ∈ p.reviewerIds) {pool : List User}
    (hpool : Repository.activeMembers reviewer.teamId (p.exclusions reviewer.id) s.data = .ok pool)
    (hne : pool ≠ []) :
    ∃ n v time s', pool[n]? = some v ∧
      (Service.reassign p.id reviewer.id).exec s =
        (.ok (p.handedOver reviewer.id v.id time), s') ∧
      s'.data = Memory.mapPullRequests s.data (instead (p.handedOver reviewer.id v.id time)) ∧
      s'.draws = s.draws ++ [(pool.length, n)] ∧ s'.readings = s.readings ++ [time] := by
  have hlt := Collaborators.Lawful.draw_lt s.collaborators (List.length_pos_iff.mpr hne)
  have hget := List.getElem?_eq_getElem hlt
  obtain ⟨time, s', he, hdata, hdraws, hreadings⟩ := exec_reassignIn_of_chosen hint hp hopen
    hreviewer hrev hpool (Selection.replacement_eq_ok.mpr ⟨hget, rfl⟩)
  exact ⟨_, _, time, s', hget, exec_transact_of_ok he, hdata, hdraws, hreadings⟩

theorem reassign_eq_ok [Collaborators.Lawful π] (hint : Memory.Integrity s.data)
    {id reviewerId : String} {r : PullRequest}
    (he : (Service.reassign id reviewerId).exec s = (.ok r, s')) :
    ∃ p ∈ Memory.pullRequests s.data, ∃ u ∈ Memory.users s.data,
      (p.id = id ∧ p.isOpen = true) ∧ (u.id = reviewerId ∧ u.id ∈ p.reviewerIds) ∧
      ∃ pool, Repository.activeMembers u.teamId (p.exclusions u.id) s.data = .ok pool ∧
      ∃ n v time, pool[n]? = some v ∧ r = p.handedOver u.id v.id time ∧
        s'.data = Memory.mapPullRequests s.data (instead r) ∧
        s'.draws = s.draws ++ [(pool.length, n)] ∧ s'.readings = s.readings ++ [time] := by
  obtain ⟨p, hp, rfl, hopen, u, hu, rfl, pool, hpool, hover, -⟩ :=
    reassignIn_eq_ok hint (exec_transact_eq_ok.mp he)
  obtain ⟨old, hold, w, hw, hrev, -⟩ := hover
  rw [List.mem_singleton.mp hold] at hrev
  obtain ⟨n, v, time, t, hv, hdone, hrest⟩ :=
    exec_reassign_of_candidate hint hp hopen hu hrev hpool (List.ne_nil_of_mem hw)
  rw [he, Prod.mk.injEq, Except.ok.injEq] at hdone
  obtain ⟨rfl, rfl⟩ := hdone
  exact ⟨p, hp, u, hu, ⟨rfl, hopen⟩, ⟨rfl, hrev⟩, pool, hpool, n, v, time, hv, rfl, hrest⟩

end Ledger

theorem StoreKind.Sound.exec_reassign {kind : StoreKind} {π : Type} [Collaborators π]
    {s s' : Session kind.Data π} (h : kind.Sound s.data) {id reviewerId : String}
    {r : Except Fault PullRequest} (he : (Service.reassign id reviewerId).exec s = (r, s')) :
    kind.Sound s'.data ∧
      (Service.reassign id reviewerId).exec (onLedger s) = (r, onLedger s') :=
  exec_onLedger ((kind.mirrored.reassignIn id reviewerId).transact le_rfl) h he

theorem existsUnique_getElem?_eq_some {α : Type} {l : List α} (h : l.Nodup) {a : α}
    (ha : a ∈ l) : ∃! n : Nat, l[n]? = some a := by
  obtain ⟨n, hn⟩ := List.mem_iff_getElem?.mp ha
  refine ⟨n, hn, fun k hk => ?_⟩
  have hlt : k < l.length := (List.getElem?_eq_some_iff.mp hk).1
  exact (List.getElem?_inj hlt h).mp (hk.trans hn.symm)

/-- **A reassignment succeeds exactly if it can**: if the pull request is there and open, the user
is there and reviews it, and the user's team has an active member who is neither the user nor the
author nor a reviewer. One of these candidates then sits where the user sat, since the one time that
was read from the clock; everybody else on the pull request keeps place and time, and nothing else
is listed otherwise. The one draw says which candidate it is, and each of them is at one place of
the pool that it draws from. -/
theorem reassign_replaces (kind : StoreKind) {d : kind.Data} (hsound : kind.Sound d)
    (id reviewerId : String) :
    ∃ snapshot, Repository.snapshot d = .ok snapshot ∧
      (∀ (π : Type) [Collaborators π] [Collaborators.Lawful π] (s : Session kind.Data π),
        s.data = d →
          ((∃ r, ((Service.reassign id reviewerId).exec s).1 = .ok r) ↔
            ∃ p ∈ snapshot.pullRequests, ∃ u ∈ snapshot.users,
              (p.id = id ∧ p.isOpen = true) ∧ (u.id = reviewerId ∧ u.id ∈ p.reviewerIds) ∧
                ∃ v ∈ snapshot.users, p.Candidate u.teamId u.id v)) ∧
      ∀ p ∈ snapshot.pullRequests, p.id = id → ∀ u ∈ snapshot.users, u.id = reviewerId →
        ∃ pool : List User,
          (∀ v ∈ pool, v ∈ snapshot.users ∧ p.Candidate u.teamId u.id v) ∧
          (∀ v ∈ snapshot.users, p.Candidate u.teamId u.id v → ∃! n : Nat, pool[n]? = some v) ∧
          ∀ (π : Type) [Collaborators π] [Collaborators.Lawful π] (s s' : Session kind.Data π) r,
            s.data = d → (Service.reassign id reviewerId).exec s = (.ok r, s') →
              ∃ n v time, pool[n]? = some v ∧ s'.draws = s.draws ++ [(pool.length, n)] ∧
                s'.readings = s.readings ++ [time] ∧ p.Replaced u.id v.id time r ∧
                Repository.snapshot s'.data = .ok { snapshot with
                  pullRequests := snapshot.pullRequests.map (instead r) } := by
  obtain ⟨snapshot, hsnap, -, husers, hprs⟩ := hsound.exists_snapshot
  have hint := hsound.integrity
  refine ⟨snapshot, hsnap, fun π _ _ s hdata => ?iff, fun p hp hid u hu huid => ?replaced⟩
  case iff =>
    subst hdata
    rcases he : (Service.reassign id reviewerId).exec s with ⟨r, s'⟩
    obtain ⟨-, he'⟩ := hsound.exec_reassign he
    constructor
    · rintro ⟨q, rfl⟩
      obtain ⟨p, hp, u, hu, hpid, huid, pool, hpool, n, v, _, hv, -⟩ :=
        Ledger.reassign_eq_ok hint he'
      obtain ⟨hmem, hc⟩ := (Ledger.mem_pool hpool).mp (List.mem_of_getElem? hv)
      exact ⟨p, hprs.mem_iff.mpr hp, u, husers.mem_iff.mpr hu, hpid, huid, v,
        husers.mem_iff.mpr hmem, hc⟩
    · rintro ⟨p, hp, u, hu, ⟨rfl, hopen⟩, ⟨rfl, hrev⟩, v, hv, hc⟩
      obtain ⟨pool, hpool⟩ := Ledger.exists_pool (kind.ledger s.data) u.teamId (p.exclusions u.id)
      have hne : pool ≠ [] :=
        List.ne_nil_of_mem ((Ledger.mem_pool hpool).mpr ⟨husers.mem_iff.mp hv, hc⟩)
      obtain ⟨_, _, _, _, -, hdone, -⟩ := Ledger.exec_reassign_of_candidate
        (s := StoreKind.onLedger s) hint (hprs.mem_iff.mp hp) hopen (husers.mem_iff.mp hu) hrev
        hpool hne
      rw [he'] at hdone
      exact ⟨_, (Prod.mk.inj hdone).1⟩
  case replaced =>
    obtain ⟨pool, hpool⟩ := Ledger.exists_pool (kind.ledger d) u.teamId (p.exclusions u.id)
    have hmem : ∀ v, v ∈ pool ↔ v ∈ snapshot.users ∧ p.Candidate u.teamId u.id v := fun v => by
      rw [Ledger.mem_pool hpool, husers.mem_iff]
    have hnodup : pool.Nodup := .of_map _ (Ledger.nodup_activeMembers hint hpool)
    refine ⟨pool, fun v => (hmem v).mp, fun v hv hc =>
      existsUnique_getElem?_eq_some hnodup ((hmem v).mpr ⟨hv, hc⟩), fun π _ _ s s' r hdata he => ?_⟩
    subst hdata
    obtain ⟨hsound', he'⟩ := hsound.exec_reassign he
    have hp' := hprs.mem_iff.mp hp
    -- what the reassignment has found is what is given, for ids are unique
    obtain ⟨p', hfound, u', hfound', ⟨hid', -⟩, ⟨huid', -⟩, pool', hpool', n, v, time, hv, rfl,
      hdata, hdraws, hreadings⟩ := Ledger.reassign_eq_ok hint he'
    obtain rfl := hint.eq_of_id hfound hp' (hid'.trans hid.symm)
    obtain rfl := hint.eq_of_userId hfound' (husers.mem_iff.mp hu) (huid'.trans huid.symm)
    obtain rfl : pool = pool' := Except.ok.inj (hpool.symm.trans hpool')
    have hreplaced := PullRequest.replaced_handedOver (hint.slots p' hfound) u'.id v.id time
    refine ⟨n, v, time, hv, hdraws, hreadings, hreplaced, ?_⟩
    rw [StoreKind.snapshot_eq hsound', show kind.ledger s'.data = _ from hdata]
    exact Ledger.snapshot_mapPullRequests
      (fun q hq => (hint.sameOpening_instead hfound hreplaced.toSameOpening hq).createdAt)
      ((StoreKind.snapshot_eq hsound).symm.trans hsnap)

/-- The reviewer of the small team's pull request gives way to a candidate. -/
theorem reassign_replaces_smallTeam :
    ∃ r s', (Service.reassign "p" "b").exec (smallRun .relational) = (.ok r, s') ∧
      ∃ p ∈ smallRecords.pullRequests, ∃ v ∈ smallRecords.users, p.Candidate "t" "b" v ∧
        ∃ time, p.Replaced "b" v.id time r := by
  obtain ⟨snapshot, hsnap, hiff, hreplaced⟩ := reassign_replaces .relational
    (sound_smallRun .relational) "p" "b"
  have hlisted : Repository.snapshot (smallRun .relational).data = .ok smallRecords := by
    decide +kernel
  obtain rfl : snapshot = smallRecords := Except.ok.inj (hsnap.symm.trans hlisted)
  obtain ⟨r, hr⟩ := (hiff Sources (smallRun .relational) rfl).mpr (by decide +kernel)
  obtain ⟨p, hp, hid⟩ : ∃ p ∈ smallRecords.pullRequests, p.id = "p" := by decide +kernel
  have hben : (⟨"b", "Ben", "t", true, Sources.still.time⟩ : User) ∈ smallRecords.users := by
    decide +kernel
  obtain ⟨pool, hpool, -, hdone⟩ := hreplaced p hp hid _ hben rfl
  rcases he : (Service.reassign "p" "b").exec (smallRun .relational) with ⟨outcome, s'⟩
  rw [he] at hr
  obtain rfl : outcome = .ok r := hr
  obtain ⟨n, v, time, hv, -, -, hseat, -⟩ := hdone Sources (smallRun .relational) s' r rfl he
  obtain ⟨hmem, hc⟩ := hpool v (List.mem_of_getElem? hv)
  exact ⟨r, s', rfl, p, hp, v, hmem, hc, time, hseat⟩

/-! ## Refusal -/

/-- Whether there is a candidate is found before whether the user reviews. -/
theorem Ledger.reassign_of_not_reviewer {older : Instant → Instant → Bool} {π : Type}
    [Collaborators π] [Collaborators.Lawful π] {s : Session (Ledger older) π}
    (hint : Memory.Integrity s.data) {p : PullRequest} (hp : p ∈ Memory.pullRequests s.data)
    (hopen : p.isOpen = true) {u : User} (hu : u ∈ Memory.users s.data)
    (hrev : u.id ∉ p.reviewerIds) :
    ((Service.reassign p.id u.id).exec s).1 =
      .error (if ∃ v ∈ Memory.users s.data, p.Candidate u.teamId u.id v then .badReviewer
        else .noCandidate) := by
  obtain ⟨pool, hpool⟩ := exists_pool s.data u.teamId (p.exclusions u.id)
  have hread : Repository.pullRequest true p.id s.data = .ok p :=
    (pullRequest_iff hint).mpr ⟨hp, rfl⟩
  have hreviewer := (user_iff hint).mpr ⟨hu, rfl⟩
  split
  · rename_i hsome
    obtain ⟨v, hv, hc⟩ := hsome
    have hne : pool ≠ [] := List.ne_nil_of_mem ((mem_pool hpool).mpr ⟨hv, hc⟩)
    have hfault := Service.exec_reassignIn_of_not_reviewer hread hopen hreviewer hpool hne hrev
    rw [Service.reassign, exec_transact_of_error (Prod.ext hfault rfl)]
  · rename_i hnone
    have hnil : pool = [] := List.eq_nil_iff_forall_not_mem.mpr fun v hv =>
      hnone ⟨v, (mem_pool hpool).mp hv⟩
    rw [Service.reassign, exec_transact_of_error
      (Service.exec_reassignIn_of_nil hread hopen hreviewer hpool hnil)]

theorem StoreKind.Sound.reassign_of_not_reviewer {kind : StoreKind} {π : Type} [Collaborators π]
    [Collaborators.Lawful π] {s : Session kind.Data π} (h : kind.Sound s.data) {users : List User}
    (husers : users.Perm (Memory.users (kind.ledger s.data))) {p : PullRequest}
    (hp : p ∈ Memory.pullRequests (kind.ledger s.data)) (hopen : p.isOpen = true) {u : User}
    (hu : u ∈ users) (hrev : u.id ∉ p.reviewerIds) :
    ((Service.reassign p.id u.id).exec s).1 =
      .error (if ∃ v ∈ users, p.Candidate u.teamId u.id v then .badReviewer else .noCandidate) := by
  rcases he : (Service.reassign p.id u.id).exec s with ⟨r, s'⟩
  obtain ⟨-, he'⟩ := h.exec_reassign he
  have hout := Ledger.reassign_of_not_reviewer (s := onLedger s) h.integrity hp hopen
    (husers.mem_iff.mp hu) hrev
  have hlisted : (∃ v ∈ Memory.users (kind.ledger s.data), p.Candidate u.teamId u.id v) ↔
      ∃ v ∈ users, p.Candidate u.teamId u.id v :=
    exists_congr fun v => and_congr_left' husers.mem_iff.symm
  rw [he'] at hout
  exact hout.trans (congrArg Except.error (if_congr hlisted rfl rfl))

/-- **A user who does not review is refused**, after any run of service calls: as a bad reviewer if
the user's team has an active member who is neither the user nor the author nor a reviewer, and for
want of a candidate if it has none. So is a reviewer who has just been replaced. -/
theorem reassign_unassigned {π : Type} [Collaborators π] [Collaborators.Lawful π]
    (kind : StoreKind) (settings : AssignmentSettings) (calls : List Call) (c : π) :
    let s := (performAll settings calls (.start (Repository.empty : kind.Data) c)).2
    ∃ snapshot, Repository.snapshot s.data = .ok snapshot ∧
      (∀ p ∈ snapshot.pullRequests, p.isOpen = true → ∀ u ∈ snapshot.users,
        u.id ∉ p.reviewerIds →
          ((Service.reassign p.id u.id).exec s).1 =
            .error (if ∃ v ∈ snapshot.users, p.Candidate u.teamId u.id v then .badReviewer
              else .noCandidate)) ∧
      ∀ id reviewerId q s₁, (Service.reassign id reviewerId).exec s = (.ok q, s₁) →
        ∃ u ∈ snapshot.users, u.id = reviewerId ∧
          ((Service.reassign id reviewerId).exec s₁).1 =
            .error (if ∃ v ∈ snapshot.users, q.Candidate u.teamId u.id v then .badReviewer
              else .noCandidate) := by
  intro s
  obtain ⟨hsound, -⟩ := kind.reached settings calls c
  change kind.Sound s.data at hsound
  obtain ⟨snapshot, hsnap, -, husers, hprs⟩ := hsound.exists_snapshot
  have hint := hsound.integrity
  refine ⟨snapshot, hsnap, fun p hp hopen u hu hrev =>
    hsound.reassign_of_not_reviewer husers (hprs.mem_iff.mp hp) hopen hu hrev,
    fun id reviewerId q s₁ he => ?_⟩
  obtain ⟨hsound₁, he'⟩ := hsound.exec_reassign he
  obtain ⟨p, hp, u, hu, ⟨rfl, hopen⟩, ⟨rfl, hrev⟩, pool, hpool, n, v, time, hv, rfl, hdata, -⟩ :=
    Ledger.reassign_eq_ok hint he'
  obtain ⟨-, hc⟩ := (Ledger.mem_pool hpool).mp (List.mem_of_getElem? hv)
  change kind.ledger s₁.data = _ at hdata
  have husers₁ : snapshot.users.Perm (Memory.users (kind.ledger s₁.data)) := by
    rw [hdata]
    exact husers
  refine ⟨u, husers.mem_iff.mpr hu, rfl, hsound₁.reassign_of_not_reviewer
    (p := p.handedOver u.id v.id time) husers₁ ?stored hopen (husers.mem_iff.mpr hu) ?gone⟩
  case stored =>
    rw [hdata]
    exact Memory.mem_mapPullRequests.mpr ⟨p, hp, if_pos rfl⟩
  case gone =>
    rw [PullRequest.mem_reviewerIds_handedOver hc.2.2.1]
    rintro (⟨-, hne⟩ | ⟨he, -⟩)
    · exact hne rfl
    · exact hc.2.2.1 he.symm

/-- The small team with a fourth member. -/
def largerTeam : List Call :=
  smallTeam ++ [.createUser "t" "Dan" true (some "d")]

/-- The third member does not review the small team's pull request. Nobody is left to take over,
unless the team has a fourth member. -/
theorem reassign_unassigned_smallTeam :
    ((Service.reassign "p" "c").exec (smallRun .memory)).1 = .error .noCandidate ∧
      ((Service.reassign "p" "c").exec (performAll smallSettings largerTeam
        (.start (Repository.empty : StoreKind.relational.Data) Sources.still)).2).1 =
          .error .badReviewer := by
  let time := Sources.still.time
  let p : PullRequest := ⟨"p", "Fix", "a", .opened, time, none, [⟨"p", 1, "b", time⟩]⟩
  let cem : User := ⟨"c", "Cem", "t", true, time⟩
  constructor
  · obtain ⟨snapshot, hsnap, hrefused, -⟩ :=
      reassign_unassigned .memory smallSettings smallTeam Sources.still
    have hlisted : Repository.snapshot (smallRun .memory).data = .ok smallRecords := by
      decide +kernel
    unfold smallRun at hlisted ⊢
    obtain rfl : snapshot = smallRecords := Except.ok.inj (hsnap.symm.trans hlisted)
    have h := hrefused p (by decide +kernel) rfl cem (by decide +kernel) (by decide +kernel)
    rw [if_neg (by decide +kernel)] at h
    exact h
  · obtain ⟨snapshot, hsnap, hrefused, -⟩ :=
      reassign_unassigned .relational smallSettings largerTeam Sources.still
    have hlisted : Repository.snapshot (performAll smallSettings largerTeam
        (.start (Repository.empty : StoreKind.relational.Data) Sources.still)).2.data =
          .ok { smallRecords with
            users := smallRecords.users ++ [⟨"d", "Dan", "t", true, time⟩] } := by
      decide +kernel
    obtain rfl := Except.ok.inj (hsnap.symm.trans hlisted)
    have h := hrefused p (by decide +kernel) rfl cem (by decide +kernel) (by decide +kernel)
    rw [if_pos (by decide +kernel)] at h
    exact h

/-- **Not everybody who does not review is reported as a bad reviewer.** The small team's pull
request is open, its third member is known and holds no slot on it, and yet the fault is another
one. So it is when the second member is reassigned twice. -/
theorem unassigned_not_badReviewer :
    (Repository.pullRequest true "p" (smallRun .memory).data).map
        (fun p => (p.isOpen, p.reviewerIds)) = .ok (true, ["b"]) ∧
      (Repository.user "c" (smallRun .memory).data).map User.id = .ok "c" ∧
      ((Service.reassign "p" "c").exec (smallRun .memory)).1 = .error .noCandidate ∧
      (((Service.reassign "p" "b").exec (smallRun .memory)).1).map PullRequest.reviewerIds =
        .ok ["c"] ∧
      ((Service.reassign "p" "b").exec
        ((Service.reassign "p" "b").exec (smallRun .memory)).2).1 = .error .noCandidate := by
  decide +kernel

end ReviewRota
