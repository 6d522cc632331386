import ReviewRota.Proofs.Changes

/-!
# After a bulk deactivation

* `PullRequest.seats_of_steps`: who sits where after some hand-overs.
* `Deactivation.Done`: what a bulk deactivation has done, as the store tells before and after it.
* `StoreKind.Sound.exec_deactivate_of_inactive`: nothing happens to users who are inactive already;
  `Deactivation.Done.exec_again`: so it is with those who have just been named.
* `Ledger.deactivate_cases`: which requests are refused, and why.
* **`deactivate_outcome`**: a bulk deactivation on either store.
-/

namespace ReviewRota

open Relation (ReflTransGen)

/-! ## Seats after some hand-overs -/

namespace PullRequest

open PullRequest (HandOver)

variable {p q : PullRequest} {leavers : List String} {pool : List User}

theorem mem_reviewerIds_of_sameSeats {leaves : String → Prop}
    (h : SameSeats leaves p.reviewers q.reviewers) {id : String} (hid : id ∈ p.reviewerIds)
    (hstays : ¬ leaves id) : id ∈ q.reviewerIds := by
  obtain ⟨a, ha, rfl⟩ := List.mem_map.mp hid
  obtain ⟨i, hi, rfl⟩ := List.getElem_of_mem ha
  have hi' : i < q.reviewers.length := h.length_eq ▸ hi
  rcases (List.forall₂_iff_get.mp h).2 i hi hi' with ⟨hu, -⟩ | hl
  · exact List.mem_map.mpr ⟨_, List.getElem_mem hi', hu⟩
  · exact absurd hl hstays

/-- **Who sits where after some hand-overs**: whoever sat there before, or in the place of a leaver
a member of the pool who could have taken over at the start. -/
theorem seats_of_steps (hout : ∀ v ∈ pool, v.id ∉ leavers)
    (h : ReflTransGen (HandOver leavers pool) p q) :
    List.Forall₂ (fun a b => (b.userId = a.userId ∧ b.assignedAt = a.assignedAt) ∨
      a.userId ∈ leavers ∧ ∃ v ∈ pool, v.id = b.userId ∧ p.canTake v = true)
      p.reviewers q.reviewers := by
  induction h with
  | refl => exact List.forall₂_same.mpr fun _ _ => .inl ⟨rfl, rfl⟩
  | @tail q r hsteps hstep ih =>
    obtain ⟨old, hold, new, hnew, -, hcan, time, rfl⟩ := hstep
    rw [canTake_iff, (sameOpening_of_steps hsteps).author] at hcan
    -- nobody of the pool leaves, so whoever reviewed at the start and is in the pool still reviews
    have hnew' : p.canTake new = true := canTake_iff.mpr ⟨hcan.1, fun hin =>
      hcan.2 (mem_reviewerIds_of_sameSeats (sameSeats_of_steps hsteps) hin (hout new hnew))⟩
    refine forall₂_comp (fun a b c hab hbc => ?_) ih (q.passedOn_handedOver old new.id time)
    obtain ⟨-, hbc⟩ := hbc
    split at hbc
    · rename_i hb
      rcases hab with ⟨hu, -⟩ | ⟨-, v, hv, hid, -⟩
      · exact .inr ⟨hu ▸ hb ▸ hold, new, hnew, hbc.1.symm, hnew'⟩
      · exact absurd (hid ▸ hb ▸ hold) (hout v hv)
    · rwa [hbc.1, hbc.2]

end PullRequest

/-! ## What has been done -/

/-- A bulk deactivation as the store tells before and after it. -/
structure Deactivation.Done {σ : Type} [Repository σ] (team : String) (ids : List String)
    (d d' : σ) : Prop where
  /-- All who are named are of the team, and inactive afterwards. -/
  members : ∀ id ∈ ids, ∃ u, Repository.user id d = .ok u ∧ u.teamId = team ∧
    Repository.user id d' = .ok { u with isActive := false }
  /-- Nobody who has turned inactive reviews an open pull request. -/
  relieved : ∀ user, TurnedInactive d d' user → ∀ id q, Repository.pullRequest false id d' = .ok q →
    q.isOpen = true → user ∉ q.reviewerIds
  /-- A slot passes only from somebody who has turned inactive to somebody who is active before and
  after, is not named, and could take over before. -/
  seats : ∀ id p, Repository.pullRequest false id d = .ok p →
    ∃ q, Repository.pullRequest false id d' = .ok q ∧ List.Forall₂ (fun a b =>
      (b.userId = a.userId ∧ b.assignedAt = a.assignedAt) ∨
        (a.userId ∈ ids ∧ TurnedInactive d d' a.userId) ∧ ∃ v, Repository.user b.userId d = .ok v ∧
          Repository.user b.userId d' = .ok v ∧ v.id ∉ ids ∧ p.Candidate team a.userId v)
      p.reviewers q.reviewers
  /-- Whoever was inactive already keeps every slot. -/
  kept : ∀ user u, Repository.user user d = .ok u → u.isActive = false →
    ∀ id p q, Repository.pullRequest false id d = .ok p →
      Repository.pullRequest false id d' = .ok q → List.Forall₂ (fun a b =>
        a.userId = user → b.userId = user ∧ b.assignedAt = a.assignedAt) p.reviewers q.reviewers

namespace StoreKind.Sound

variable {kind : StoreKind} {d d' : kind.Data} {team : String} {ids : List String}
  {f : PullRequest → PullRequest} (h : kind.Sound d) (h' : kind.Sound d')
  (hdata : kind.ledger d' = (Memory.deactivated (kind.ledger d) ids).mapPullRequests f)
include h h' hdata

omit h in
theorem user_after {id : String} {u : User} :
    Repository.user id d' = .ok u ↔ u.id = id ∧
      ((u ∈ Memory.users (kind.ledger d) ∧ id ∉ ids) ∨
        ∃ v ∈ Memory.users (kind.ledger d), id ∈ ids ∧ u = { v with isActive := false }) := by
  rw [h'.user_iff, hdata, and_comm]
  refine and_congr_right fun hid => Memory.mem_deactivated.trans (or_congr ?_ ?_)
  · rw [hid]
  · refine exists_congr fun v => and_congr_right fun _ => and_congr_left ?_
    rintro rfl
    rw [← hid]

theorem turnedInactive_iff {id : String} :
    TurnedInactive d d' id ↔
      ∃ u ∈ Deactivation.batch (Memory.users (kind.ledger d)) ids, u.id = id := by
  constructor
  · rintro ⟨⟨u, hu, hactive⟩, v, hv, hinactive⟩
    obtain ⟨hmem, rfl⟩ := h.user_iff.mp hu
    obtain ⟨hid, ⟨hv, -⟩ | ⟨w, -, hin, -⟩⟩ := (user_after h' hdata).mp hv
    · rw [h.integrity.eq_of_userId hv hmem hid, hactive] at hinactive
      cases hinactive
    · exact ⟨u, Deactivation.mem_batch.mpr ⟨hmem, hin, hactive⟩, rfl⟩
  · rintro ⟨u, hu, rfl⟩
    obtain ⟨hu, hin, hactive⟩ := Deactivation.mem_batch.mp hu
    exact ⟨⟨u, h.user_iff.mpr ⟨hu, rfl⟩, hactive⟩, { u with isActive := false },
      (user_after h' hdata).mpr ⟨rfl, .inr ⟨u, hu, hin, rfl⟩⟩, rfl⟩

theorem done (hnamed : Ledger.Named (kind.ledger d) team ids)
    (hrel : Memory.Relieved (Memory.deactivated (kind.ledger d) ids)
      ((Deactivation.batch (Memory.users (kind.ledger d)) ids).map User.id)
      (Deactivation.remaining (Memory.users (kind.ledger d)) team ids) f) :
    Deactivation.Done team ids d d' := by
  have hturned : ∀ id, id ∈ (Deactivation.batch (Memory.users (kind.ledger d)) ids).map User.id ↔
      TurnedInactive d d' id := fun id => by
    rw [turnedInactive_iff h h' hdata, List.mem_map]
  have hnames : ∀ id ∈ (Deactivation.batch (Memory.users (kind.ledger d)) ids).map User.id,
      id ∈ ids := fun id hid => by
    obtain ⟨u, hu, rfl⟩ := List.mem_map.mp hid
    exact (Deactivation.mem_batch.mp hu).2.1
  have hafter : ∀ p ∈ Memory.pullRequests (kind.ledger d),
      Repository.pullRequest false p.id d' = .ok (f p) := fun p hp => by
    refine h'.pullRequest_iff.mpr ⟨?_, (PullRequest.sameOpening_of_steps (hrel.steps p hp)).id⟩
    rw [hdata]
    exact Memory.mem_mapPullRequests.mpr ⟨p, hp, rfl⟩
  constructor
  case members =>
    intro id hid
    obtain ⟨u, hu, rfl, hteam⟩ := hnamed.members id hid
    exact ⟨u, h.user_iff.mpr ⟨hu, rfl⟩, hteam,
      (user_after h' hdata).mpr ⟨rfl, .inr ⟨u, hu, hid, rfl⟩⟩⟩
  case relieved =>
    intro user hgone id q hq hopen
    have hmem := (h'.pullRequest_iff.mp hq).1
    rw [hdata] at hmem
    obtain ⟨p, hp, rfl⟩ := Memory.mem_mapPullRequests.mp hmem
    rw [hrel.isOpen_eq hp] at hopen
    exact hrel.gone p hp hopen user ((hturned user).mpr hgone)
  case seats =>
    intro id p hread
    obtain ⟨hp, rfl⟩ := h.pullRequest_iff.mp hread
    have hout : ∀ v ∈ Deactivation.remaining (Memory.users (kind.ledger d)) team ids,
        v.id ∉ (Deactivation.batch (Memory.users (kind.ledger d)) ids).map User.id :=
      fun v hv hin => (Deactivation.mem_remaining.mp hv).2.2.2 (hnames _ hin)
    refine ⟨f p, hafter p hp, (PullRequest.seats_of_steps hout (hrel.steps p hp)).imp ?_⟩
    rintro a b (hkept | ⟨hleaver, v, hv, hid, hcan⟩)
    · exact .inl hkept
    · obtain ⟨hv, hteam, hactive, hnot⟩ := Deactivation.mem_remaining.mp hv
      obtain ⟨hauthor, hrev⟩ := PullRequest.canTake_iff.mp hcan
      have hin := hnames _ hleaver
      exact .inr ⟨⟨hin, (hturned _).mp hleaver⟩, v, h.user_iff.mpr ⟨hv, hid⟩,
        (user_after h' hdata).mpr ⟨hid, .inl ⟨hv, hid ▸ hnot⟩⟩, hnot, hteam, hactive,
        fun he => hnot (he ▸ hin), hauthor, hrev⟩
  case kept =>
    intro user u hu hinactive id p q hread hq
    obtain ⟨hp, rfl⟩ := h.pullRequest_iff.mp hread
    obtain rfl : f p = q := Except.ok.inj ((hafter p hp).symm.trans hq)
    refine (PullRequest.sameSeats_of_steps (hrel.steps p hp)).imp ?_
    rintro a b (⟨hsame, htime⟩ | hleaver) rfl
    · exact ⟨hsame, htime⟩
    · obtain ⟨⟨v, hv, hactive⟩, -⟩ := (hturned _).mp hleaver
      obtain rfl : u = v := Except.ok.inj (hu.symm.trans hv)
      rw [hinactive] at hactive
      cases hactive

end StoreKind.Sound

/-! ## Users who are inactive already -/

theorem Service.exec_deactivateIn_of_inactive {σ π : Type} [Repository σ] [Collaborators π]
    {s : Session σ π} {team : String} {ids : List String} {t : Team} {loaded : List User}
    (hteam : Repository.team team s.data = .ok t)
    (hloaded : Repository.usersByIds ids s.data = .ok loaded) (hlen : loaded.length = ids.length)
    (hall : loaded.all (·.teamId == team) = true) (hinactive : ∀ u ∈ loaded, u.isActive = false) :
    (deactivateIn team ids).exec s = (.ok ⟨0, 0⟩, s) := by
  have htargets :
      (ids.filterMap fun id => loaded.find? (·.id == id)).filter (·.isActive) = [] := by
    refine List.filter_eq_nil_iff.mpr fun u hu => ?_
    obtain ⟨id, -, hfind⟩ := List.mem_filterMap.mp hu
    rw [hinactive u (List.mem_of_find?_eq_some hfind)]
    exact Bool.false_ne_true
  rw [exec_deactivateIn hteam hloaded, if_pos hlen, if_pos hall]
  dsimp only
  rw [htargets]
  rfl

/-- **Nothing happens to inactive users**: no draw, no reading of the clock, no change. -/
theorem StoreKind.Sound.exec_deactivate_of_inactive {kind : StoreKind} {π : Type}
    [Collaborators π] {s : Session kind.Data π} (h : kind.Sound s.data) {team : String}
    {ids : List String} (hne : ids ≠ [])
    (hids : ∀ id ∈ ids, ∃ u, Repository.user id s.data = .ok u ∧ u.teamId = team ∧
      u.isActive = false) :
    (Service.deactivate team ids).exec s = (.ok ⟨0, 0⟩, s) := by
  have hint := h.integrity
  have hnodup := Service.nodup_distinct ids
  obtain ⟨loaded, hl⟩ : ∃ loaded,
      Repository.usersByIds (Service.distinct ids) (kind.ledger s.data) = .ok loaded := ⟨_, rfl⟩
  have hstored : ∀ id ∈ Service.distinct ids, ∃ u ∈ Memory.users (kind.ledger s.data),
      u.id = id ∧ u.teamId = team ∧ u.isActive = false := fun id hid => by
    obtain ⟨u, hu, hrest⟩ := hids id (Service.mem_distinct.mp hid)
    exact ⟨u, (h.user_iff.mp hu).1, (h.user_iff.mp hu).2, hrest⟩
  have hknown : ∀ id ∈ Service.distinct ids, ∃ u ∈ Memory.users (kind.ledger s.data), u.id = id :=
    fun id hid => (hstored id hid).imp fun u hu => ⟨hu.1, hu.2.1⟩
  obtain ⟨t, hteam⟩ : ∃ t, Repository.team team s.data = .ok t := by
    obtain ⟨id, hid⟩ := List.exists_mem_of_ne_nil _ (Service.distinct_ne_nil hne)
    obtain ⟨u, hu, -, rfl, -⟩ := hstored id hid
    exact h.exists_team hu
  have hall := (Ledger.all_loaded_iff hint hl hknown).mpr fun id hid =>
    (hstored id hid).imp fun u hu => ⟨hu.1, hu.2.1, hu.2.2.1⟩
  have hinactive : ∀ u ∈ loaded, u.isActive = false := fun u hu => by
    obtain ⟨hu, hid⟩ := (Ledger.mem_loaded hl).mp hu
    obtain ⟨v, hv, he, -, hv'⟩ := hstored u.id hid
    rwa [hint.eq_of_userId hv hu he] at hv'
  rw [Service.exec_deactivate_of_ne_nil hne]
  exact exec_transact_of_ok (Service.exec_deactivateIn_of_inactive hteam
    ((kind.mirrored.usersByIds h.holds _).trans hl)
    ((Ledger.length_loaded_iff hint hnodup hl).mpr hknown) hall hinactive)

/-- Those whom a bulk deactivation has named can be named again, in any order and with any
repetitions. -/
theorem Deactivation.Done.exec_again {kind : StoreKind} {d d' : kind.Data} {team : String}
    {ids again : List String} (h : Done team ids d d') (h' : kind.Sound d') (hne : again ≠ [])
    (hsub : again ⊆ ids) {π : Type} [Collaborators π] {s : Session kind.Data π}
    (hdata : s.data = d') : (Service.deactivate team again).exec s = (.ok ⟨0, 0⟩, s) := by
  subst hdata
  refine h'.exec_deactivate_of_inactive hne fun id hid => ?_
  obtain ⟨u, -, hteam, hafter⟩ := h.members id (hsub hid)
  exact ⟨_, hafter, hteam, rfl⟩

/-! ## The outcome -/

/-- The team and everybody named are stored. -/
def Deactivation.Known {σ : Type} [Repository σ] (team : String) (ids : List String) (d : σ) :
    Prop :=
  (∃ t, Repository.team team d = .ok t) ∧ ∀ id ∈ ids, ∃ u, Repository.user id d = .ok u

/-- Somebody named is of another team. -/
def Deactivation.Foreign {σ : Type} [Repository σ] (team : String) (ids : List String) (d : σ) :
    Prop :=
  ∃ id ∈ ids, ∃ u, Repository.user id d = .ok u ∧ u.teamId ≠ team

namespace Ledger

variable {older : Instant → Instant → Bool} {π : Type} [Collaborators π]
  {s s' : Session (Ledger older) π} {team : String} {ids : List String}

omit [Collaborators π] in
theorem named_iff {m : Ledger older} (hint : Memory.Integrity m) :
    Named m team ids ↔ Deactivation.Known team ids m ∧ ¬ Deactivation.Foreign team ids m := by
  constructor
  · intro hnamed
    refine ⟨⟨isOk_team.mpr hnamed.exists_team, fun id hid => ?_⟩, ?_⟩
    · obtain ⟨u, hu, he, -⟩ := hnamed.members id hid
      exact ⟨u, (user_iff hint).mpr ⟨hu, he⟩⟩
    · rintro ⟨id, hid, u, hread, hteam⟩
      obtain ⟨hu, rfl⟩ := mem_of_user hread
      obtain ⟨v, hv, he, hv'⟩ := hnamed.members u.id hid
      exact hteam (hint.eq_of_userId hv hu he ▸ hv')
  · rintro ⟨⟨hteam, hids⟩, hnone⟩
    refine ⟨isOk_team.mp hteam, fun id hid => ?_⟩
    obtain ⟨u, hu⟩ := hids id hid
    obtain ⟨hmem, he⟩ := mem_of_user hu
    exact ⟨u, hmem, he, by_contra fun hother => hnone ⟨id, hid, u, hu, hother⟩⟩

/-- **What becomes of a request that names somebody.** -/
theorem deactivate_cases (hint : Memory.Integrity s.data) (hne : ids ≠ [])
    {r : Except Fault Deactivation} (he : (Service.deactivate team ids).exec s = (r, s')) :
    (¬ Deactivation.Known team ids s.data ∧ r = .error .notFound) ∨
    (Deactivation.Known team ids s.data ∧ Deactivation.Foreign team ids s.data ∧
      r = .error .crossTeam) ∨
    (Deactivation.Known team ids s.data ∧ ¬ Deactivation.Foreign team ids s.data) ∧
      ((∃ c, r = .ok c) ∨ r = .error .noCandidate) := by
  have hknown : Deactivation.Known team ids s.data ↔ (∃ t ∈ Memory.teams s.data, t.id = team) ∧
      ∀ id ∈ Service.distinct ids, ∃ u ∈ Memory.users s.data, u.id = id :=
    and_congr isOk_team (forall_congr' fun id => imp_congr Service.mem_distinct.symm
      (exists_congr fun u => user_iff hint))
  rw [Service.exec_deactivate_of_ne_nil hne] at he
  rcases deactivateIn_checked (Service.nodup_distinct ids) hint with
    ⟨hunknown, hexec⟩ | ⟨hall, hnot, hexec⟩ | hnamed
  · rw [exec_transact_of_error hexec] at he
    exact .inl ⟨fun h => hunknown (hknown.mp h), (Prod.mk.inj he).1.symm⟩
  · rw [exec_transact_of_error hexec] at he
    have hforeign : Deactivation.Foreign team ids s.data := by_contra fun hnone =>
      hnot (named_distinct.mpr ((named_iff hint).mpr ⟨hknown.mpr hall, hnone⟩))
    exact .inr (.inl ⟨hknown.mpr hall, hforeign, (Prod.mk.inj he).1.symm⟩)
  · refine .inr (.inr ⟨(named_iff hint).mp (named_distinct.mp hnamed), ?_⟩)
    rcases deactivateIn_cases (Service.nodup_distinct ids) hint hnamed with
      ⟨f, t, hexec, -⟩ | ⟨hexec, -⟩
    · rw [exec_transact_of_ok hexec] at he
      exact .inl ⟨_, (Prod.mk.inj he).1.symm⟩
    · rw [exec_transact_of_error (Prod.ext hexec rfl)] at he
      exact .inr (Prod.mk.inj he).1.symm

theorem deactivate_eq_ok {r : Deactivation} (hint : Memory.Integrity s.data)
    (he : (Service.deactivate team ids).exec s = (.ok r, s')) :
    Named s.data team ids ∧ ∃ f,
      (Memory.deactivated s.data ids).Relieved
        ((Deactivation.batch (Memory.users s.data) ids).map User.id)
        (Deactivation.remaining (Memory.users s.data) team ids) f ∧
      s'.data = (Memory.deactivated s.data ids).mapPullRequests f := by
  obtain ⟨-, he⟩ := Service.require_bind_eq_ok.mp he
  obtain ⟨hnamed, f, hrel, hdata⟩ :=
    deactivateIn_eq_ok (Service.nodup_distinct ids) hint (exec_transact_eq_ok.mp he)
  have hsame : Memory.deactivated s.data (Service.distinct ids) = Memory.deactivated s.data ids :=
    Memory.deactivated_eq fun _ _ _ => Service.mem_distinct
  rw [hsame, Deactivation.batch_congr fun _ => Service.mem_distinct,
    Deactivation.remaining_congr fun _ => Service.mem_distinct] at hrel
  rw [hsame] at hdata
  exact ⟨named_distinct.mp hnamed, f, hrel, hdata⟩

end Ledger

/-- **A bulk deactivation is refused for its request, or done.** It is refused if nobody is named,
or if the team or somebody named is unknown, or else if somebody named is of another team. If it
succeeds, then all who are named are of the team and inactive, those who have turned inactive review
no open pull request, and their slots have passed to active members of the team who are not named
and neither wrote nor reviewed. Whoever was inactive already keeps every slot. Naming some of them
again, in any order and with any repetitions, does nothing at all. -/
theorem deactivate_outcome {π : Type} [Collaborators π] (kind : StoreKind)
    {s s' : Session kind.Data π} (hsound : kind.Sound s.data) {team : String} {ids : List String}
    {r : Except Fault Deactivation} (he : (Service.deactivate team ids).exec s = (r, s')) :
    (r = .error .emptyBatch ↔ ids = []) ∧
    (r = .error .notFound ↔ ids ≠ [] ∧ ¬ Deactivation.Known team ids s.data) ∧
    (r = .error .crossTeam ↔ ids ≠ [] ∧ Deactivation.Known team ids s.data ∧
      Deactivation.Foreign team ids s.data) ∧
    ∀ c, r = .ok c → Deactivation.Done team ids s.data s'.data ∧
      ∀ again ≠ [], again ⊆ ids →
        ∀ (ρ : Type) [Collaborators ρ] (t : Session kind.Data ρ), t.data = s'.data →
          (Service.deactivate team again).exec t = (.ok ⟨0, 0⟩, t) := by
  by_cases hne : ids = []
  · subst hne
    obtain rfl : r = .error .emptyBatch := (Prod.mk.inj he).1.symm
    simp
  obtain ⟨hsound', he'⟩ :=
    StoreKind.exec_onLedger (kind.mirrored.service_deactivate team ids) hsound he
  have hknown : Deactivation.Known team ids s.data ↔
      Deactivation.Known team ids (StoreKind.onLedger s).data := by
    simp only [Deactivation.Known, kind.mirrored.team hsound.holds, kind.mirrored.user hsound.holds]
    rfl
  have hforeign : Deactivation.Foreign team ids s.data ↔
      Deactivation.Foreign team ids (StoreKind.onLedger s).data := by
    simp only [Deactivation.Foreign, kind.mirrored.user hsound.holds]
    rfl
  rw [hknown, hforeign]
  have hdone : ∀ c, r = .ok c → Deactivation.Done team ids s.data s'.data ∧
      ∀ again ≠ [], again ⊆ ids →
        ∀ (ρ : Type) [Collaborators ρ] (t : Session kind.Data ρ), t.data = s'.data →
          (Service.deactivate team again).exec t = (.ok ⟨0, 0⟩, t) := by
    rintro c rfl
    obtain ⟨hnamed, f, hrel, hdata⟩ := Ledger.deactivate_eq_ok hsound.integrity he'
    have hdone := hsound.done hsound' hdata hnamed hrel
    exact ⟨hdone, fun _ hagain hsub _ _ _ ht => hdone.exec_again hsound' hagain hsub ht⟩
  refine ⟨?_, ?_, ?_, hdone⟩ <;>
    rcases Ledger.deactivate_cases hsound.integrity hne he' with
      ⟨hu, rfl⟩ | ⟨hk, hf, rfl⟩ | ⟨⟨hk, hf⟩, ⟨c, rfl⟩ | rfl⟩
  all_goals simp [*]

/-- The second member leaves. When he is named again, twice in one request, nothing happens. -/
theorem deactivate_outcome_smallTeam :
    ∃ s', (Service.deactivate "t" ["b"]).exec (smallRun .relational) = (.ok ⟨1, 1⟩, s') ∧
      Deactivation.Done "t" ["b"] (smallRun .relational).data s'.data ∧
      (Service.deactivate "t" ["b", "b"]).exec s' = (.ok ⟨0, 0⟩, s') := by
  have hok : ((Service.deactivate "t" ["b"]).exec (smallRun .relational)).1 = .ok ⟨1, 1⟩ := by
    decide +kernel
  rcases he : (Service.deactivate "t" ["b"]).exec (smallRun .relational) with ⟨r, s'⟩
  rw [he] at hok
  obtain rfl : r = .ok ⟨1, 1⟩ := hok
  obtain ⟨-, -, -, hdone⟩ := deactivate_outcome .relational (sound_smallRun .relational) he
  obtain ⟨hdone, hagain⟩ := hdone _ rfl
  exact ⟨s', rfl, hdone, hagain ["b", "b"] (by decide) (by decide) Sources s' rfl⟩

end ReviewRota
