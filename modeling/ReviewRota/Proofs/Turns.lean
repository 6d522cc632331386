import ReviewRota.Proofs.Deactivation
import ReviewRota.Proofs.Stranded

/-!
# Reviews handed over in turn

What a cascade draws, turn by turn. Who leaves which pull request can be listed at the start; how
many can take the review depends on the turns before.

* `Deactivation.openReviews`: the turns of some users, in their order.
* `Deactivation.Turns pool ps reviews draws after`: from the pull requests `ps`, the reviews are
  handed over with these draws, and `after` is what the pull requests have become, or `none` if a
  review has found nobody.
* `Deactivation.Turns.inBounds`: every draw is below its bound;
  `Deactivation.Turns.openReviews_eq`: turns leave the reviews of everybody else as they are.
* `Ledger.HandsOver`: work that takes the turns, with one rule for each way of building it.
* **`Ledger.handsOver_reassignAll`**: the cascade over several users takes their turns.
-/

namespace ReviewRota

open PullRequest (instead)

namespace Deactivation

/-! ## Turns -/

/-- The open reviews of some users, each as the user and the pull request: user after user, and in
the order in which pull requests are listed. -/
def openReviews (ps : List PullRequest) (leavers : List User) : List (String × String) :=
  leavers.flatMap fun u => (ps.filter (·.awaits u.id)).map fun p => (u.id, p.id)

/-- Reviews are handed over one after the other. Each takes one draw among the members of the pool
who can take it, as the pull requests are by then; the first one that nobody can take is the end. -/
inductive Turns (pool : List User) : List PullRequest → List (String × String) →
    List (Nat × Nat) → Option (List PullRequest) → Prop where
  | done (ps : List PullRequest) : Turns pool ps [] [] (some ps)
  | stuck {ps : List PullRequest} {p : PullRequest} {userId id : String}
      (hp : p ∈ ps) (hid : p.id = id) (ha : p.awaits userId = true) (hnone : p.eligible pool = 0)
      (rest : List (String × String)) : Turns pool ps ((userId, id) :: rest) [] none
  | turn {ps : List PullRequest} {p : PullRequest} {userId id : String} {d : Nat} {v : User}
      {rest : List (String × String)} {draws : List (Nat × Nat)}
      {after : Option (List PullRequest)} (time : Instant)
      (hp : p ∈ ps) (hid : p.id = id) (ha : p.awaits userId = true)
      (hv : (pool.filter p.canTake)[d]? = some v)
      (hrest : Turns pool (ps.map (instead (p.handedOver userId v.id time))) rest draws after) :
      Turns pool ps ((userId, id) :: rest) ((p.eligible pool, d) :: draws) after

namespace Turns

variable {pool : List User} {ps qs : List PullRequest} {reviews others : List (String × String)}
  {draws more : List (Nat × Nat)} {after : Option (List PullRequest)}

theorem inBounds (h : Turns pool ps reviews draws after) : ∀ x ∈ draws, 1 ≤ x.1 ∧ x.2 < x.1 := by
  induction h with
  | done | stuck => exact fun _ hx => absurd hx List.not_mem_nil
  | @turn _ p _ _ d _ _ _ _ _ _ _ _ hv _ ih =>
    have hlt : d < p.eligible pool := by
      rw [PullRequest.eligible, List.countP_eq_length_filter]
      exact (List.getElem?_eq_some_iff.mp hv).1
    exact List.forall_mem_cons.mpr ⟨⟨Nat.one_le_of_lt hlt, hlt⟩, ih⟩

theorem append (h : Turns pool ps reviews draws (some qs)) (h' : Turns pool qs others more after) :
    Turns pool ps (reviews ++ others) (draws ++ more) after := by
  generalize hqs : some qs = mid at h
  induction h with
  | done ps =>
    obtain rfl := Option.some.inj hqs
    exact h'
  | stuck => cases hqs
  | turn time hp hid ha hv _ ih => exact .turn time hp hid ha hv (ih hqs)

theorem append_of_none (h : Turns pool ps reviews draws none) (others : List (String × String)) :
    Turns pool ps (reviews ++ others) draws none := by
  generalize hnone : none = after at h
  induction h with
  | done => cases hnone
  | stuck hp hid ha hzero rest => exact .stuck hp hid ha hzero _
  | turn time hp hid ha hv _ ih => exact .turn time hp hid ha hv (ih hnone)

theorem exists_instead {userId id : String} (h : Turns pool ps [(userId, id)] draws (some qs)) :
    ∃ q : PullRequest, q.id = id ∧ qs = ps.map (instead q) := by
  cases h with
  | turn time hp hid ha hv hrest =>
    cases hrest
    refine ⟨_, ?_, rfl⟩
    exact hid

end Turns

/-! ## The turns of others -/

section

variable {ps : List PullRequest} {p : PullRequest} {userId : String} {v w : User} {time : Instant}

theorem awaits_handedOver (hrev : userId ∈ p.reviewerIds) (hcan : p.canTake v = true)
    (hw : w.id ≠ userId) (hv : v.id ≠ w.id) :
    (p.handedOver userId v.id time).awaits w.id = p.awaits w.id := by
  have hne : v.id ≠ userId := fun he => (PullRequest.canTake_iff.mp hcan).2 (he ▸ hrev)
  have hsame : w.id ∈ (p.handedOver userId v.id time).reviewerIds ↔ w.id ∈ p.reviewerIds := by
    rw [PullRequest.mem_reviewerIds_handedOver hne]
    exact ⟨fun h => h.elim And.left fun h => absurd h.1.symm hv, fun h => .inl ⟨h, hw⟩⟩
  rw [Bool.eq_iff_iff, PullRequest.awaits_iff, PullRequest.awaits_iff, hsame]
  rfl

theorem map_id_instead (q : PullRequest) (ps : List PullRequest) :
    (ps.map (instead q)).map PullRequest.id = ps.map PullRequest.id := by
  rw [List.map_map]
  exact List.map_congr_left fun r _ => PullRequest.id_instead q r

theorem openReviews_instead (hids : (ps.map PullRequest.id).Nodup) (hp : p ∈ ps)
    (hrev : userId ∈ p.reviewerIds) (hcan : p.canTake v = true) {leavers : List User}
    (hw : ∀ w ∈ leavers, w.id ≠ userId) (hv : ∀ w ∈ leavers, v.id ≠ w.id) :
    openReviews (ps.map (instead (p.handedOver userId v.id time))) leavers =
      openReviews ps leavers := by
  refine List.flatMap_congr fun w hmem => ?_
  have hsame : ∀ r ∈ ps,
      (instead (p.handedOver userId v.id time) r).awaits w.id = r.awaits w.id := by
    intro r hr
    unfold PullRequest.instead
    split
    · rename_i hid
      rw [List.inj_on_of_nodup_map hids hr hp hid]
      exact awaits_handedOver hrev hcan (hw w hmem) (hv w hmem)
    · rfl
  rw [List.filter_map, List.map_map, List.filter_congr fun r hr => by exact hsame r hr]
  refine List.map_congr_left fun r _ => congrArg (w.id, ·) ?_
  exact PullRequest.id_instead _ r

end

/-- **Turns leave the open reviews of everybody else as they are**, since nobody else is in the
pool. -/
theorem Turns.openReviews_eq {pool leavers : List User} {ps qs : List PullRequest}
    {reviews : List (String × String)} {draws : List (Nat × Nat)}
    (h : Turns pool ps reviews draws (some qs)) (hids : (ps.map PullRequest.id).Nodup)
    (hreviews : ∀ x ∈ reviews, ∀ w ∈ leavers, w.id ≠ x.1)
    (hpool : ∀ w ∈ leavers, ∀ v ∈ pool, v.id ≠ w.id) :
    openReviews qs leavers = openReviews ps leavers := by
  generalize hafter : some qs = after at h
  induction h with
  | done ps =>
    obtain rfl := Option.some.inj hafter
    rfl
  | stuck => cases hafter
  | @turn ps p userId id d v rest draws after time hp hid ha hv _ ih =>
    rw [List.forall_mem_cons] at hreviews
    obtain ⟨hmem, hcan⟩ := List.mem_filter.mp (List.mem_of_getElem? hv)
    rw [ih ?_ hreviews.2 hafter]
    · exact openReviews_instead hids hp (PullRequest.awaits_iff.mp ha).2 hcan hreviews.1
        fun w hw => hpool w hw v hmem
    · rwa [map_id_instead]

end Deactivation

open Deactivation (openReviews Turns)

namespace Ledger

variable {older : Instant → Instant → Bool} {π α β : Type} {pool : List User} {snapshot : Snapshot}
  {reviews others : List (String × String)}

/-! ## Work that takes turns -/

/-- Work that hands over reviews in turn: it makes the draws of the turns, and it succeeds with what
has become of the pull requests, or fails where they have found nobody. -/
def HandsOver (pool : List User) (snapshot : Snapshot) (reviews : List (String × String))
    (w : Work (Ledger older) π α) (s : Session (Ledger older) π) : Prop :=
  (∃ draws ps a s', Turns pool snapshot.pullRequests reviews draws (some ps) ∧
    w.exec s = (.ok a, s') ∧ s'.draws = s.draws ++ draws ∧
    Repository.snapshot s'.data = .ok { snapshot with pullRequests := ps }) ∨
  ∃ draws s', Turns pool snapshot.pullRequests reviews draws none ∧
    w.exec s = (.error .noCandidate, s') ∧ s'.draws = s.draws ++ draws

theorem HandsOver.pure {s : Session (Ledger older) π}
    (h : Repository.snapshot s.data = .ok snapshot) (a : α) :
    HandsOver pool snapshot [] (Pure.pure a) s :=
  .inl ⟨[], snapshot.pullRequests, a, s, .done _, rfl, (List.append_nil _).symm, h⟩

theorem HandsOver.bind {w : Work (Ledger older) π α} {k : α → Work (Ledger older) π β}
    {s : Session (Ledger older) π} (hw : HandsOver pool snapshot reviews w s)
    (hk : ∀ {a s' draws ps}, w.exec s = (.ok a, s') →
      Turns pool snapshot.pullRequests reviews draws (some ps) →
      Repository.snapshot s'.data = .ok { snapshot with pullRequests := ps } →
      HandsOver pool { snapshot with pullRequests := ps } others (k a) s') :
    HandsOver pool snapshot (reviews ++ others) (w >>= k) s := by
  rcases hw with ⟨draws, ps, a, s₁, hturns, he, hdraws, hlisted⟩ | ⟨draws, s₁, hturns, he, hdraws⟩
  · rcases hk he hturns hlisted with ⟨more, qs, b, s₂, hturns', he', hdraws', hlisted'⟩ |
      ⟨more, s₂, hturns', he', hdraws'⟩
    · refine .inl ⟨draws ++ more, qs, b, s₂, hturns.append hturns', ?_, ?_, hlisted'⟩
      · rw [Work.exec_bind_of_ok he, he']
      · rw [hdraws', hdraws, List.append_assoc]
    · refine .inr ⟨draws ++ more, s₂, hturns.append hturns', ?_, ?_⟩
      · rw [Work.exec_bind_of_ok he, he']
      · rw [hdraws', hdraws, List.append_assoc]
  · exact .inr ⟨draws, s₁, hturns.append_of_none _, Work.exec_bind_of_error he _, hdraws⟩

theorem HandsOver.bind_pure {w : Work (Ledger older) π α} {s : Session (Ledger older) π}
    (hw : HandsOver pool snapshot reviews w s) (f : α → β) :
    HandsOver pool snapshot reviews (w >>= fun a => Pure.pure (f a)) s := by
  have h : HandsOver pool snapshot (reviews ++ []) (w >>= fun a => Pure.pure (f a)) s :=
    hw.bind fun _ _ hlisted => .pure hlisted _
  rwa [List.append_nil] at h

/-! ## Cascades -/

section

variable [Collaborators π] [Collaborators.Lawful π] {s : Session (Ledger older) π} {user : User}

/-- **One turn**: one draw among those who can take the review, or nobody can. -/
theorem handsOver_handOver (hint : Memory.Integrity s.data)
    (hlisted : Repository.snapshot s.data = .ok snapshot)
    (hpool : ∀ v ∈ pool, v ∈ snapshot.users) {p : PullRequest}
    (hp : p ∈ snapshot.pullRequests) (ha : p.awaits user.id = true) :
    HandsOver pool snapshot [(user.id, p.id)] (Service.handOver pool user p) s := by
  obtain ⟨-, husers, hprs⟩ := perm_of_snapshot hlisted
  have hmem := hprs.mem_iff.mp hp
  have hknown : ∀ v ∈ pool, ∃ u ∈ Memory.users s.data, u.id = v.id := fun v hv =>
    ⟨v, husers.mem_iff.mp (hpool v hv), rfl⟩
  have hrev := (PullRequest.awaits_iff.mp ha).2
  have hcount : (pool.filter p.canTake).length = p.eligible pool :=
    List.countP_eq_length_filter.symm
  obtain hzero | hpos := Nat.eq_zero_or_pos (p.eligible pool)
  · have hstuck : ∀ v ∈ pool, ¬ p.canTake v = true := List.countP_eq_zero.mp hzero
    exact .inr ⟨[], s, .stuck hp rfl ha hzero [], Service.exec_handOver_of_stuck hrev hstuck,
      (List.append_nil _).symm⟩
  · have hdraw := Collaborators.Lawful.draw_lt s.collaborators (hcount.symm ▸ hpos)
    obtain ⟨v, hv⟩ : ∃ v, (pool.filter p.canTake)[(Collaborators.draw
        (pool.filter p.canTake).length s.collaborators).1]? = some v :=
      ⟨_, List.getElem?_eq_getElem hdraw⟩
    obtain ⟨time, s', he, hdata, hdraws⟩ := exec_handOver_of_chosen hint hknown hmem hrev
      (Selection.replacement_eq_ok.mpr ⟨hv, rfl⟩)
    refine .inl ⟨_, _, (), s', .turn time hp rfl ha hv (.done _), he, ?_, ?_⟩
    · rw [hdraws, Work.exec_draw, hcount]
    · rw [hdata]
      have hreplaced := PullRequest.replaced_handedOver (hint.slots p hmem) user.id v.id time
      exact snapshot_mapPullRequests (fun q hq =>
        (hint.sameOpening_instead hmem hreplaced.toSameOpening hq).createdAt) hlisted

/-- The loop over pull requests takes their turns: those to come are not touched by the others. -/
theorem handsOver_handOverAll (user : User) {reviewed : List PullRequest} (hnodup : reviewed.Nodup)
    (hint : Memory.Integrity s.data) (hlisted : Repository.snapshot s.data = .ok snapshot)
    (hpool : ∀ v ∈ pool, v ∈ snapshot.users)
    (hreviewed : ∀ p ∈ reviewed, p ∈ snapshot.pullRequests ∧ p.awaits user.id = true) :
    HandsOver pool snapshot (reviewed.map fun p => (user.id, p.id))
      (Service.handOverAll pool user reviewed) s := by
  induction reviewed generalizing s snapshot with
  | nil => exact .pure hlisted 0
  | cons p rest ih =>
    rw [List.nodup_cons] at hnodup
    rw [List.forall_mem_cons] at hreviewed
    have hmem : ∀ {r}, r ∈ snapshot.pullRequests ↔ r ∈ Memory.pullRequests s.data :=
      (perm_of_snapshot hlisted).2.2.mem_iff
    have hstep := handsOver_handOver hint hlisted hpool hreviewed.1.1 hreviewed.1.2
    refine hstep.bind fun {_ s' _ _} he hturns hlisted' => ?_
    obtain ⟨q, hq, rfl⟩ := hturns.exists_instead
    have hkept : ∀ r ∈ rest, instead q r = r := fun r hr => if_neg fun hid : r.id = q.id => by
      have hsame : r = p := hint.eq_of_id (hmem.mp (hreviewed.2 r hr).1)
        (hmem.mp hreviewed.1.1) (hid.trans hq)
      exact hnodup.1 (hsame ▸ hr)
    have hint' := ((keeps_integrity older).toAccumulates.handOver
      (keeps_integrity older).setReviewers pool user p : Work.Keeps _ _) s hint
    rw [he] at hint'
    refine (ih hnodup.2 hint' hlisted' hpool fun r hr => ?_).bind_pure (· + 1)
    exact ⟨List.mem_map.mpr ⟨r, (hreviewed.2 r hr).1, hkept r hr⟩, (hreviewed.2 r hr).2⟩

theorem handsOver_reassignOpenReviews (user : User) (hpre : IsPreorder older)
    (hint : Memory.Integrity s.data) (hlisted : Repository.snapshot s.data = .ok snapshot)
    {team : String} (hpool : Repository.activeMembers team [user.id] s.data = .ok pool) :
    HandsOver pool snapshot (openReviews snapshot.pullRequests [user])
      (Service.reassignOpenReviews team user) s := by
  have hreviewed := assignedTo_of_snapshot hpre hlisted user.id
  have hknown : ∀ v ∈ pool, v ∈ snapshot.users := fun v hv =>
    (perm_of_snapshot hlisted).2.1.mem_iff.mpr ((mem_activeMembers hpool).mp hv).1
  have hloop := handsOver_handOverAll user (nodup_assignedTo hint hreviewed) hint hlisted
    hknown fun p hp => List.mem_filter.mp hp
  rw [openReviews, List.flatMap_singleton]
  unfold HandsOver
  rw [Service.exec_reassignOpenReviews hreviewed hpool]
  exact hloop

/-- **The cascade over several users takes their turns**, as they are listed at the start: nobody in
the pool is to leave, so that the turns of one user leave those of the next as they are. -/
theorem handsOver_reassignAll (hpre : IsPreorder older) {team : String} {us : List User}
    (hnodup : (us.map User.id).Nodup) (hout : ∀ u ∈ us, ∀ v ∈ pool, v.id ≠ u.id)
    (hint : Memory.Integrity s.data) (hlisted : Repository.snapshot s.data = .ok snapshot)
    (hpool : ∀ u ∈ us, Repository.activeMembers team [u.id] s.data = .ok pool) :
    HandsOver pool snapshot (openReviews snapshot.pullRequests us)
      (Service.reassignAll team us) s := by
  induction us generalizing s snapshot with
  | nil => exact .pure hlisted 0
  | cons u rest ih =>
    rw [List.map_cons, List.nodup_cons] at hnodup
    rw [List.forall_mem_cons] at hout hpool
    have hstep := handsOver_reassignOpenReviews { u with isActive := false } hpre hint
      hlisted hpool.1
    have hsplit : openReviews snapshot.pullRequests (u :: rest) =
        openReviews snapshot.pullRequests [{ u with isActive := false }] ++
          openReviews snapshot.pullRequests rest := by
      rw [openReviews, openReviews, List.flatMap_cons, List.flatMap_singleton]
      rfl
    rw [hsplit]
    refine hstep.bind fun {count s' _ ps} he hturns hlisted' => ?_
    have hsame : openReviews ps rest = openReviews snapshot.pullRequests rest := by
      refine hturns.openReviews_eq ?ids ?others hout.2
      case ids =>
        exact ((perm_of_snapshot hlisted).2.2.map _).nodup_iff.mpr hint.ids
      case others =>
        intro x hx w hw
        rw [openReviews, List.flatMap_singleton] at hx
        obtain ⟨p, -, rfl⟩ := List.mem_map.mp hx
        exact fun he : w.id = u.id => hnodup.1 (he ▸ List.mem_map_of_mem hw)
    have hint' := (keeps_integrity older).reassignOpenReviews (π := π) team
      { u with isActive := false } s hint
    rw [he] at hint'
    rw [← hsame]
    refine (ih hnodup.2 hout.2 hint' hlisted' fun w hw => ?_).bind_pure (count + ·)
    rw [activeMembers_of_snapshot hpre hlisted', ← hpool.2 w hw,
      activeMembers_of_snapshot hpre hlisted]

end

end Ledger

end ReviewRota
