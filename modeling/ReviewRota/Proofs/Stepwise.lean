import ReviewRota.Proofs.BatchOfOne

/-!
# A batch step by step

The members of a batch may leave at once or one after the other. One by one, a review may pass to
somebody who leaves later and be handed over again, so that the two ways differ in draws and in who
reviews in the end. They do not differ in whether they succeed.

* `departure id`: the call that deactivates one user.
* `PullRequest.leaving_le_eligible_later`: a hand-over to somebody who stays lowers both sides of
  the count by one, and a hand-over to somebody who leaves later lowers neither.
* `Ledger.departure_cases`: one step. `Memory.feasible_withUser`: what remains of the batch is as
  feasible as the whole was.
* `Ledger.departures_ok_iff`: all steps succeed exactly if the batch is feasible.
* **`deactivate_ok_iff_departures_ok`**: the batch and the steps, each with its own draws.
-/

namespace ReviewRota

open Deactivation (batch remaining Feasible)
open PullRequest (HandOver)

/-- The deactivation of one user. -/
def departure (id : String) : Call :=
  .updateUser id ⟨none, some false⟩

/-! ## Counting -/

namespace PullRequest

variable {p q : PullRequest} {u v : User} {time : Instant} {others pool : List User}

variable (time) in
theorem leaving_handedOver_mem (hnodup : (others.map User.id).Nodup) (hv : v ∈ others)
    (hnew : p.canTake v = true) (hold : u.id ∈ p.reviewerIds) (hu : ∀ w ∈ others, w.id ≠ u.id) :
    (p.handedOver u.id v.id time).leaving others = p.leaving others + 1 := by
  have hcome : (p.handedOver u.id v.id time).hasReviewer v.id = true := by
    rw [hasReviewer_handedOver hnew hold (hu v hv), beq_self_eq_true, Bool.or_true]
  have hno : ¬ p.hasReviewer v.id = true := fun h =>
    (canTake_iff.mp hnew).2 (hasReviewer_iff.mp h)
  have hrest : (others.erase v).countP (fun w => (p.handedOver u.id v.id time).hasReviewer w.id) =
      (others.erase v).countP fun w => p.hasReviewer w.id := by
    refine List.countP_congr fun w hw => ?_
    have hw' : w ∈ others ∧ w ≠ v := by
      rw [(List.Nodup.of_map _ hnodup).mem_erase_iff] at hw
      exact hw.symm
    have hne : ¬ w.id = v.id := fun he => hw'.2 (List.inj_on_of_nodup_map hnodup hw'.1 hv he)
    rw [hasReviewer_handedOver hnew hold (hu w hw'.1)]
    simp [hne]
  have hafter := List.countP_erase (fun w : User =>
    (p.handedOver u.id v.id time).hasReviewer w.id) others v
  have hbefore := List.countP_erase (fun w : User => p.hasReviewer w.id) others v
  rw [if_pos ⟨hv, hcome⟩, hrest] at hafter
  rw [if_neg fun h => hno h.2] at hbefore
  have hpos : 0 < others.countP fun w => (p.handedOver u.id v.id time).hasReviewer w.id :=
    List.countP_pos_iff.mpr ⟨v, hv, hcome⟩
  rw [leaving, leaving]
  omega

variable (time) in
theorem eligible_handedOver_notMem (hnew : p.canTake v = true) (hold : u.id ∈ p.reviewerIds)
    (hu : ∀ w ∈ pool, w.id ≠ u.id) (hv : ∀ w ∈ pool, w.id ≠ v.id) :
    (p.handedOver u.id v.id time).eligible pool = p.eligible pool := by
  refine List.countP_congr fun w hw => ?_
  have hne : ¬ w.id = v.id := hv w hw
  rw [canTake, hasReviewer_handedOver hnew hold (hu w hw)]
  simp [canTake, handedOver, hne]

/-- **Who takes over does not matter**: it is one review less to hand over for one candidate less,
or neither is less. -/
theorem leaving_le_eligible_later {later staying : List User}
    (hlater : (later.map User.id).Nodup) (hstaying : (staying.map User.id).Nodup)
    (hl : ∀ w ∈ later, w.id ≠ u.id) (hs : ∀ w ∈ staying, w.id ≠ u.id)
    (hdisjoint : ∀ w ∈ later, ∀ v ∈ staying, v.id ≠ w.id)
    (hpool : ∀ v ∈ pool, v ∈ staying ∨ v ∈ later) (hopen : p.isOpen = true)
    (hover : p.awaits u.id = true → p.HandOver [u.id] pool q)
    (hsame : ¬ p.awaits u.id = true → q = p) :
    p.leaving (u :: later) ≤ p.eligible staying ↔ q.leaving later ≤ q.eligible staying := by
  by_cases ha : p.awaits u.id = true
  · obtain ⟨old, hold, v, hv, hrev, hcan, time, rfl⟩ := hover ha
    cases List.mem_singleton.mp hold
    rcases hpool v hv with hv | hv
    · refine (leaving_le_eligible hstaying hl hs hdisjoint hopen (fun _ => ?_) fun hn => ?_).2
      · exact ⟨u.id, hold, v, hv, hrev, hcan, time, rfl⟩
      · exact absurd ha hn
    · rw [leaving_cons, if_pos (hasReviewer_iff.mpr hrev),
        leaving_handedOver_mem time hlater hv hcan hrev hl,
        eligible_handedOver_notMem time hcan hrev hs fun w hw => hdisjoint v hv w hw]
  · have hno : ¬ p.hasReviewer u.id = true := fun h =>
      ha (awaits_iff.mpr ⟨hopen, hasReviewer_iff.mp h⟩)
    rw [hsame ha, leaving_cons, if_neg hno, Nat.add_zero]

end PullRequest

namespace Deactivation

variable {users : List User} {ids : List String} {user : User}

theorem nodup_filter_users (h : (users.map User.id).Nodup) (keep : User → Bool) :
    ((users.filter keep).map User.id).Nodup :=
  h.sublist (List.filter_sublist.map _)

theorem perm_batch_cons (h : (users.map User.id).Nodup) (hu : user ∈ users)
    (hactive : user.isActive = true) (hid : user.id ∉ ids) :
    (batch users (user.id :: ids)).Perm (user :: batch users ids) := by
  have hout : user ∉ batch users ids := fun hin => hid (mem_batch.mp hin).2.1
  have hleft : (batch users (user.id :: ids)).Nodup := .of_map _ (nodup_filter_users h _)
  have hright : (user :: batch users ids).Nodup :=
    List.nodup_cons.mpr ⟨hout, .of_map _ (nodup_filter_users h _)⟩
  refine (List.perm_ext_iff_of_nodup hleft hright).mpr fun v => ?_
  rw [List.mem_cons, mem_batch, mem_batch, List.mem_cons]
  constructor
  · rintro ⟨hv, he | hv', ha⟩
    · exact .inl (List.inj_on_of_nodup_map h hv hu he)
    · exact .inr ⟨hv, hv', ha⟩
  · rintro (rfl | ⟨hv, hv', ha⟩)
    · exact ⟨hu, .inl rfl, hactive⟩
    · exact ⟨hv, .inr hv', ha⟩

theorem nodup_remaining (h : (users.map User.id).Nodup) (team : String) (ids : List String) :
    ((remaining users team ids).map User.id).Nodup :=
  nodup_filter_users h _

end Deactivation

/-! ## What remains of a batch -/

namespace Memory

variable {m : Memory} {ids : List String} {user gone : User}

theorem batch_withUser (hid : gone.id ∉ ids) :
    batch (m.withUser gone).users ids = batch m.users ids :=
  filter_withUser fun u hu => by simp [hu, hid]

theorem remaining_withUser (hactive : gone.isActive = false) (team : String) :
    remaining (m.withUser gone).users team ids = remaining m.users team (gone.id :: ids) := by
  rw [Deactivation.remaining_eq, Deactivation.remaining_eq]
  have hkeep : ∀ u : User, u.id = gone.id →
      (u.teamId == team && u.isActive && !(gone.id :: ids).contains u.id) = false := fun u hu => by
    simp [hu]
  rw [← filter_withUser hkeep]
  refine List.filter_congr fun u hu => ?_
  rcases mem_withUser.mp hu with ⟨-, hne⟩ | ⟨v, -, hid, rfl⟩
  · simp [hne]
  · simp [hactive]

/-- **What remains of a batch after its first member has left is as feasible as the whole was.** The
pool of the first member has those who stay and those who leave later. -/
theorem feasible_withUser (hint : m.Integrity) (hu : user ∈ m.users)
    (hactive : user.isActive = true) (hid : user.id ∉ ids) {pool : List User}
    (hpool : ∀ v ∈ pool, v ∈ m.users ∧ v.teamId = user.teamId ∧ v.isActive = true ∧
      v.id ≠ user.id)
    {f : PullRequest → PullRequest} (hf : ∀ p ∈ m.pullRequests,
      (p.awaits user.id = true → p.HandOver [user.id] pool (f p)) ∧
        (¬ p.awaits user.id = true → f p = p)) :
    Feasible (m.withUser { user with isActive := false }).users (m.pullRequests.map f)
        user.teamId ids ↔
      Feasible m.users m.pullRequests user.teamId (user.id :: ids) := by
  have hrel : m.Relieved [user.id] pool f := .of_awaits hf
  -- whoever takes over stays, or is to leave later
  have hmembers : ∀ v ∈ pool,
      v ∈ remaining m.users user.teamId (user.id :: ids) ∨ v ∈ batch m.users ids := by
    intro v hv
    obtain ⟨hv, hteam, ha, hne⟩ := hpool v hv
    by_cases hin : v.id ∈ ids
    · exact .inr (Deactivation.mem_batch.mpr ⟨hv, hin, ha⟩)
    · refine .inl (Deactivation.mem_remaining.mpr ⟨hv, hteam, ha, fun h => ?_⟩)
      rcases List.mem_cons.mp h with he | h
      · exact hne he
      · exact hin h
  have hleaving : ∀ p : PullRequest, p.leaving (batch m.users (user.id :: ids)) =
      p.leaving (user :: batch m.users ids) := fun p =>
    (Deactivation.perm_batch_cons hint.userIds hu hactive hid).countP_eq _
  have hlater : batch (m.withUser { user with isActive := false }).users ids =
      batch m.users ids := batch_withUser hid
  have hstaying : remaining (m.withUser { user with isActive := false }).users user.teamId ids =
      remaining m.users user.teamId (user.id :: ids) := remaining_withUser rfl user.teamId
  rw [Feasible, Feasible, hlater, hstaying, List.forall_mem_map]
  refine forall₂_congr fun p hp => ?_
  rw [hrel.isOpen_eq hp, hleaving]
  refine imp_congr_right fun hopen => ?_
  have hcount := PullRequest.leaving_le_eligible_later (u := user)
    (Deactivation.nodup_filter_users hint.userIds _)
    (Deactivation.nodup_remaining hint.userIds user.teamId (user.id :: ids)) ?_ ?_ ?_
    hmembers hopen (hf p hp).1 (hf p hp).2
  · exact hcount.symm
  · exact fun w hw he => hid (he ▸ (Deactivation.mem_batch.mp hw).2.1)
  · exact fun w hw he => (Deactivation.mem_remaining.mp hw).2.2.2 (he ▸ List.mem_cons_self)
  · exact fun w hw v hv he => (Deactivation.mem_remaining.mp hv).2.2.2
      (List.mem_cons_of_mem _ (he ▸ (Deactivation.mem_batch.mp hw).2.1))

/-- A review that nobody in the pool can take is one that nobody who stays can take. -/
theorem not_feasible_of_stuck (hu : user ∈ m.users) (hactive : user.isActive = true)
    {pool : List User}
    (hpool : ∀ v ∈ m.users, v.teamId = user.teamId → v.isActive = true → v.id ≠ user.id → v ∈ pool)
    (hstuck : ∃ p ∈ m.pullRequests, p.awaits user.id = true ∧ ∀ v ∈ pool, ¬ p.canTake v = true) :
    ¬ Feasible m.users m.pullRequests user.teamId (user.id :: ids) := by
  obtain ⟨p, hp, ha, hnone⟩ := hstuck
  obtain ⟨hopen, hrev⟩ := PullRequest.awaits_iff.mp ha
  refine Deactivation.not_feasible.mpr ⟨p, hp, hopen, ?_⟩
  have hzero : p.eligible (remaining m.users user.teamId (user.id :: ids)) = 0 := by
    refine List.countP_eq_zero.mpr fun v hv => hnone v ?_
    obtain ⟨hv, hteam, hactive, hout⟩ := Deactivation.mem_remaining.mp hv
    exact hpool v hv hteam hactive fun he => hout (he ▸ List.mem_cons_self)
  rw [hzero]
  refine List.countP_pos_iff.mpr ⟨user, ?_, PullRequest.hasReviewer_iff.mpr hrev⟩
  exact Deactivation.mem_batch.mpr ⟨hu, List.mem_cons_self, hactive⟩

end Memory

/-! ## One step -/

namespace Ledger

variable {π : Type} [Collaborators π] {older : Instant → Instant → Bool}
  {s : Session (Ledger older) π} {user : User}

/-- **One user leaves**: his open reviews are handed over and he is stored as inactive, or one of
them finds no candidate. -/
theorem departure_cases (settings : AssignmentSettings) (hint : Memory.Integrity s.data)
    (hu : user ∈ Memory.users s.data) (hactive : user.isActive = true) {pool : List User}
    (hpool : Repository.activeMembers user.teamId [user.id] s.data = .ok pool) :
    (∃ f s', ((departure user.id).perform settings).exec s =
        (.ok (.user { user with isActive := false }), s') ∧
      s'.data = Memory.mapPullRequests
        (Memory.withUser s.data { user with isActive := false }) f ∧
      ∀ p ∈ Memory.pullRequests s.data,
        (p.awaits user.id = true → p.HandOver [user.id] pool (f p)) ∧
          (¬ p.awaits user.id = true → f p = p)) ∨
    (((departure user.id).perform settings).exec s).1 = .error .noCandidate ∧
      (∀ [Collaborators.Lawful π], ∃ p ∈ Memory.pullRequests s.data, p.awaits user.id = true ∧
        ∀ v ∈ pool, ¬ p.canTake v = true) := by
  let gone : User := { user with isActive := false }
  have hbody := Service.exec_updateUserIn_of_active ((user_iff hint).mpr ⟨hu, rfl⟩) hactive
  have hcall : ((departure user.id).perform settings).exec s =
      (Reply.user <$> transact (Service.updateUserIn user.id ⟨none, some false⟩)).exec s := rfl
  rw [hcall, Work.exec_map]
  rcases reassignOpenReviews_cases gone hint hpool with ⟨f, s₁, he, hdata, hf⟩ | ⟨he, hstuck⟩
  · have hknown : ∃ u ∈ Memory.users s₁.data, u.id = gone.id := by
      rw [hdata]
      exact ⟨user, hu, rfl⟩
    rw [Work.exec_bind_of_ok he, Work.exec_bind_of_ok (exec_updateUser gone hknown)] at hbody
    refine .inl ⟨f, { s₁ with data := Memory.withUser s₁.data gone }, ?_, ?_, hf⟩
    · rw [exec_transact_of_ok hbody]
      rfl
    · dsimp only
      rw [hdata]
      rfl
  · rw [Work.exec_bind_of_error (Prod.ext he rfl)] at hbody
    rw [exec_transact_of_error hbody]
    exact .inr ⟨rfl, hstuck⟩

/-! ## All steps -/

/-- **The members of a batch can leave one after the other exactly if they can leave at once**,
whatever is drawn on the way. -/
theorem departures_ok_iff [Collaborators.Lawful π] (settings : AssignmentSettings) {team : String}
    {ids : List String} (hnodup : ids.Nodup) (hint : Memory.Integrity s.data)
    (hids : ∀ id ∈ ids, ∃ u ∈ Memory.users s.data,
      u.id = id ∧ u.teamId = team ∧ u.isActive = true) :
    (∀ reply ∈ (performAll settings (ids.map departure) s).1, ∃ v, reply = .ok v) ↔
      Feasible (Memory.users s.data) (Memory.pullRequests s.data) team ids := by
  induction ids generalizing s with
  | nil =>
    refine iff_of_true (fun reply h => absurd h List.not_mem_nil) fun p _ _ => ?_
    simp [batch, PullRequest.leaving]
  | cons id ids ih =>
    rw [List.nodup_cons] at hnodup
    rw [List.forall_mem_cons] at hids
    obtain ⟨⟨user, hu, rfl, rfl, hactive⟩, hrest⟩ := hids
    obtain ⟨pool, hpool⟩ :
        ∃ pool, Repository.activeMembers user.teamId [user.id] s.data = .ok pool := ⟨_, rfl⟩
    have hmem : ∀ v, v ∈ pool ↔ v ∈ Memory.users s.data ∧ v.teamId = user.teamId ∧
        v.isActive = true ∧ v.id ≠ user.id := fun v => by
      rw [mem_activeMembers hpool, List.mem_singleton]
    have hkeep := ((keeps_integrity older).service π).perform settings (departure user.id) s hint
    have hreplies : (performAll settings ((user.id :: ids).map departure) s).1 =
        (((departure user.id).perform settings).exec s).1 ::
          (performAll settings (ids.map departure)
            (((departure user.id).perform settings).exec s).2).1 := rfl
    rw [hreplies, List.forall_mem_cons]
    rcases departure_cases settings hint hu hactive hpool with
      ⟨f, s', he, hdata, hf⟩ | ⟨he, hstuck⟩
    · rw [he] at hkeep ⊢
      -- whether the others can leave does not depend on who has taken over
      have hlater := Memory.feasible_withUser hint hu hactive hnodup.1
        (fun v hv => (hmem v).mp hv) hf
      have hrest' : ∀ id ∈ ids, ∃ u ∈ Memory.users s'.data,
          u.id = id ∧ u.teamId = user.teamId ∧ u.isActive = true := fun id hid => by
        obtain ⟨u, hu', rfl, h⟩ := hrest id hid
        rw [hdata]
        exact ⟨u, Memory.mem_withUser.mpr (.inl ⟨hu', fun he => hnodup.1 (he ▸ hid)⟩), rfl, h⟩
      rw [← hlater, ih hnodup.2 hkeep hrest', hdata]
      exact and_iff_right ⟨_, rfl⟩
    · rw [he]
      refine iff_of_false (fun hall => ?_) (Memory.not_feasible_of_stuck hu hactive
        (fun v hv ht ha hne => (hmem v).mpr ⟨hv, ht, ha, hne⟩) hstuck)
      obtain ⟨v, hv⟩ := hall.1
      cases hv

end Ledger

/-! ## Both stores -/

/-- **Batching does not change feasibility.** Active users of one team, named once each, can be
deactivated in one batch exactly if each of them can be deactivated in a call of its own, one call
after the other. The batch and the calls may have different collaborators and so may draw
differently. -/
theorem deactivate_ok_iff_departures_ok (kind : StoreKind) (d : kind.Data) (hsound : kind.Sound d)
    (team : String) (ids : List String) (hne : ids ≠ []) (hnodup : ids.Nodup)
    (hids : ∀ id ∈ ids, ∃ u, Repository.user id d = .ok u ∧ u.teamId = team ∧ u.isActive = true)
    (settings : AssignmentSettings) {π π' : Type} [Collaborators π] [Collaborators.Lawful π]
    [Collaborators π'] [Collaborators.Lawful π'] (s : Session kind.Data π)
    (t : Session kind.Data π') (hs : s.data = d) (ht : t.data = d) :
    (∃ r, ((Service.deactivate team ids).exec s).1 = .ok r) ↔
      ∀ reply ∈ (performAll settings (ids.map departure) t).1, ∃ v, reply = .ok v := by
  have hmembers : ∀ id ∈ ids, ∃ u ∈ Memory.users (kind.ledger d),
      u.id = id ∧ u.teamId = team ∧ u.isActive = true := fun id hid => by
    obtain ⟨u, hu, h⟩ := hids id hid
    obtain ⟨hmem, rfl⟩ := hsound.user_iff.mp hu
    exact ⟨u, hmem, rfl, h⟩
  have hnamed : Ledger.Named (kind.ledger d) team ids := by
    refine ⟨?_, fun id hid => ?_⟩
    · obtain ⟨id, hid⟩ := List.exists_mem_of_ne_nil ids hne
      obtain ⟨u, hu, -, rfl, -⟩ := hmembers id hid
      exact hsound.integrity.userTeams u hu
    · obtain ⟨u, hu, he, hteam, -⟩ := hmembers id hid
      exact ⟨u, hu, he, hteam⟩
  have hsteps := (kind.mirrored.performAll settings (ids.map departure)
    (StoreKind.Sound.agree (ht ▸ hsound : kind.Sound t.data))).1
  subst hs
  have hledger : (StoreKind.onLedger t).data = kind.ledger s.data := congrArg kind.ledger ht
  rw [(kind.mirrored.service_deactivate team ids hsound.agree).1,
    Ledger.exec_deactivate hne hsound.integrity hnamed, hsteps,
    Ledger.departures_ok_iff settings hnodup (hledger ▸ hsound.integrity) (hledger ▸ hmembers),
    hledger]
  change (∃ r, (if Feasible (Memory.users (kind.ledger s.data)) _ team ids then _ else _) = _) ↔ _
  split
  · exact iff_of_true ⟨_, rfl⟩ ‹_›
  · exact iff_of_false (fun ⟨r, hr⟩ => by cases hr) ‹_›

/-- The second member of the small team hands over to the third, who is to leave as well and finds
nobody: the second step fails, and so does the batch. -/
theorem deactivate_ok_iff_departures_ok_smallTeam :
    (performAll smallSettings (["b", "c"].map departure) (smallRun .relational)).1 =
        [.ok (.user ⟨"b", "Ben", "t", false, Sources.still.time⟩), .error .noCandidate] ∧
      ¬ ∃ r, ((Service.deactivate "t" ["b", "c"]).exec (smallRun .relational)).1 = .ok r := by
  have hb : Repository.user "b" (smallRun .relational).data =
      .ok ⟨"b", "Ben", "t", true, Sources.still.time⟩ := by decide +kernel
  have hc : Repository.user "c" (smallRun .relational).data =
      .ok ⟨"c", "Cem", "t", true, Sources.still.time⟩ := by decide +kernel
  have hids : ∀ id ∈ ["b", "c"], ∃ u, Repository.user id (smallRun .relational).data = .ok u ∧
      u.teamId = "t" ∧ u.isActive = true := by
    intro id hid
    rcases List.mem_pair.mp hid with rfl | rfl
    · exact ⟨_, hb, rfl, rfl⟩
    · exact ⟨_, hc, rfl, rfl⟩
  have hsteps : (performAll smallSettings (["b", "c"].map departure) (smallRun .relational)).1 =
      [.ok (.user ⟨"b", "Ben", "t", false, Sources.still.time⟩), .error .noCandidate] := by
    decide +kernel
  refine ⟨hsteps, fun hbatch => ?_⟩
  have hall := (deactivate_ok_iff_departures_ok .relational _ (sound_smallRun .relational) "t"
    ["b", "c"] (by decide) (by decide) hids smallSettings (smallRun .relational)
    (smallRun .relational) rfl rfl).mp hbatch
  obtain ⟨v, hv⟩ := hall (.error .noCandidate) (by rw [hsteps]; simp)
  cases hv

end ReviewRota
