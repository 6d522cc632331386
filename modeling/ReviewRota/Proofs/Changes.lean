import Mathlib.Data.List.Forall2
import ReviewRota.Proofs.Atomicity
import ReviewRota.Proofs.Outcomes
import ReviewRota.Proofs.Stores

/-!
# What a call can change

All that a service call can do to the records of a store, told by what is read before and after it.
Every invariant of single records over a run follows from this one description of a step.

* `SameSeats`: slot lists that differ only where somebody leaves.
* `PullRequest.Advance`: a pull request is kept, handed over or merged; `User.Advance`: name and
  active flag of a user change.
* `Call.Changes`: records are never lost, those that stay advance, and new pull requests are open.
* **`StoreKind.changes`**: every call on either store changes no more than that, whatever its
  outcome.
-/

namespace ReviewRota

open Relation (ReflTransGen)

/-! ## Slot lists -/

theorem forall₂_comp {α : Type} {R S T : α → α → Prop} {l₁ l₂ l₃ : List α}
    (hT : ∀ a b c, R a b → S b c → T a c) (h : List.Forall₂ R l₁ l₂) (h' : List.Forall₂ S l₂ l₃) :
    List.Forall₂ T l₁ l₃ := by
  induction h generalizing l₃ with
  | nil =>
    cases h'
    exact .nil
  | cons hab _ ih =>
    cases h' with
    | cons hbc hrest => exact .cons (hT _ _ _ hab hbc) (ih hrest)

/-- Slot lists of one length, with the same user and the same time at every position whose user
does not leave. -/
def SameSeats (leaves : String → Prop) : List ReviewerSlot → List ReviewerSlot → Prop :=
  List.Forall₂ fun a b => (b.userId = a.userId ∧ b.assignedAt = a.assignedAt) ∨ leaves a.userId

namespace SameSeats

variable {leaves leaves' : String → Prop} {l₁ l₂ l₃ : List ReviewerSlot}

theorem refl (l : List ReviewerSlot) : SameSeats leaves l l :=
  List.forall₂_same.mpr fun _ _ => .inl ⟨rfl, rfl⟩

theorem trans (h : SameSeats leaves l₁ l₂) (h' : SameSeats leaves l₂ l₃) :
    SameSeats leaves l₁ l₃ := by
  refine forall₂_comp (fun a b c hab hbc => ?_) h h'
  rcases hab with ⟨hu, ht⟩ | hl
  · rw [← hu, ← ht]
    exact hbc
  · exact .inr hl

theorem mono (h : SameSeats leaves l₁ l₂) (hl : ∀ id, leaves id → leaves' id) :
    SameSeats leaves' l₁ l₂ := by
  have himp : ∀ a b : ReviewerSlot,
      (b.userId = a.userId ∧ b.assignedAt = a.assignedAt) ∨ leaves a.userId →
        (b.userId = a.userId ∧ b.assignedAt = a.assignedAt) ∨ leaves' a.userId :=
    fun a _ => Or.imp_right (hl a.userId)
  exact List.Forall₂.imp himp h

end SameSeats

namespace PullRequest

variable {p q : PullRequest}

theorem sameSeats_handedOver (p : PullRequest) (old new : String) (time : Instant) :
    SameSeats (· = old) p.reviewers (p.handedOver old new time).reviewers := by
  refine List.Forall₂.imp (fun a b h => ?_) (p.passedOn_handedOver old new time)
  by_cases he : a.userId = old
  · exact .inr he
  · have hkept := h.2
    rw [if_neg he] at hkept
    exact .inl hkept

theorem HandOver.sameSeats {leavers : List String} {pool : List User}
    (h : p.HandOver leavers pool q) : SameSeats (· ∈ leavers) p.reviewers q.reviewers := by
  obtain ⟨old, hold, new, -, -, -, time, rfl⟩ := h
  exact (p.sameSeats_handedOver old new.id time).mono fun id he => he ▸ hold

theorem sameSeats_of_steps {leavers : List String} {pool : List User}
    (h : ReflTransGen (HandOver leavers pool) p q) :
    SameSeats (· ∈ leavers) p.reviewers q.reviewers := by
  induction h with
  | refl => exact .refl _
  | tail _ hstep ih => exact ih.trans hstep.sameSeats

/-! ## Pull requests -/

/-- What a call can make of a pull request while some users leave. -/
inductive Advance (leaves : String → Prop) (p : PullRequest) : PullRequest → Prop where
  | kept : Advance leaves p p
  | handedOver {q : PullRequest} (opened : p.isOpen = true) (same : p.SameOpening q)
      (seats : SameSeats leaves p.reviewers q.reviewers) : Advance leaves p q
  | merged (opened : p.isOpen = true) (time : Instant) :
      Advance leaves p { p with status := .merged, mergedAt := some time }

theorem advance_of_steps {leavers : List String} {pool : List User} {leaves : String → Prop}
    (h : ReflTransGen (HandOver leavers pool) p q) (hclosed : ¬ p.isOpen = true → q = p)
    (hl : ∀ id ∈ leavers, leaves id) : p.Advance leaves q := by
  by_cases hopen : p.isOpen = true
  · exact .handedOver hopen (sameOpening_of_steps h) ((sameSeats_of_steps h).mono hl)
  · rw [hclosed hopen]
    exact .kept

namespace Advance

variable {leaves : String → Prop}

theorem mono {leaves' : String → Prop} (h : p.Advance leaves q)
    (hl : ∀ id, leaves id → leaves' id) : p.Advance leaves' q := by
  cases h with
  | kept => exact .kept
  | handedOver opened same seats => exact .handedOver opened same (seats.mono hl)
  | merged opened time => exact .merged opened time

/-- What no call changes. -/
theorem head_eq (h : p.Advance leaves q) :
    q.id = p.id ∧ q.title = p.title ∧ q.authorId = p.authorId ∧ q.createdAt = p.createdAt := by
  cases h with
  | kept => exact ⟨rfl, rfl, rfl, rfl⟩
  | handedOver _ same _ => exact ⟨same.id, same.title, same.author, same.createdAt⟩
  | merged _ _ => exact ⟨rfl, rfl, rfl, rfl⟩

theorem sameSeats (h : p.Advance leaves q) :
    SameSeats (fun id => p.isOpen = true ∧ leaves id) p.reviewers q.reviewers := by
  cases h with
  | kept => exact .refl _
  | handedOver opened _ seats => exact seats.mono fun _ hl => ⟨opened, hl⟩
  | merged _ _ => exact .refl _

/-- **A merged pull request stays as it is.** -/
theorem eq_of_merged (h : p.Advance leaves q) (hp : p.status = .merged) : q = p := by
  have hclosed : ¬ p.isOpen = true := by simp [isOpen, hp]
  cases h with
  | kept => rfl
  | handedOver opened _ _ => exact absurd opened hclosed
  | merged opened _ => exact absurd opened hclosed

theorem mergedAt_iff (h : p.Advance leaves q)
    (hp : p.mergedAt.isSome = true ↔ p.status = .merged) :
    q.mergedAt.isSome = true ↔ q.status = .merged := by
  cases h with
  | kept => exact hp
  | handedOver _ same _ => rw [same.mergedAt, same.status, hp]
  | merged _ _ => exact iff_of_true rfl rfl

end Advance

end PullRequest

/-! ## Users -/

/-- What a call can make of a user. -/
structure User.Advance (call : Call) (u v : User) : Prop where
  id : v.id = u.id
  teamId : v.teamId = u.teamId
  createdAt : v.createdAt = u.createdAt
  name : v.name = u.name ∨ ∃ update, call = .updateUser u.id update
  isActive : v.isActive = u.isActive ∨ (∃ update, call = .updateUser u.id update) ∨
    ∃ team ids, call = .deactivate team ids ∧ u.id ∈ ids

theorem User.Advance.refl (call : Call) (u : User) : u.Advance call u :=
  ⟨rfl, rfl, rfl, .inl rfl, .inl rfl⟩

/-! ## Stores -/

section

variable {σ : Type} [Repository σ]

/-- As the store tells, the user was active before and is inactive after. -/
def TurnedInactive (d d' : σ) (id : String) : Prop :=
  (∃ u, Repository.user id d = .ok u ∧ u.isActive = true) ∧
    ∃ u, Repository.user id d' = .ok u ∧ u.isActive = false

/-- Whoever leaves a pull request in a call: the reviewer whom a reassignment of it names, and
users who turn inactive. -/
def Call.Relieves (call : Call) (d d' : σ) (id user : String) : Prop :=
  call = .reassign id user ∨ TurnedInactive d d' user

/-- What a call can change in a store. -/
structure Call.Changes (call : Call) (d d' : σ) : Prop where
  team : ∀ id team, Repository.team id d = .ok team → Repository.team id d' = .ok team
  user : ∀ id u, Repository.user id d = .ok u →
    ∃ v, Repository.user id d' = .ok v ∧ u.Advance call v
  pullRequest : ∀ lock id p, Repository.pullRequest lock id d = .ok p →
    ∃ q, Repository.pullRequest lock id d' = .ok q ∧ p.Advance (call.Relieves d d' id) q
  /-- A pull request that was not there before. -/
  created : ∀ lock id q, Repository.pullRequest lock id d' = .ok q →
    (∃ p, Repository.pullRequest lock id d = .ok p) ∨ q.status = .opened ∧ q.mergedAt = none

theorem Call.Changes.refl (call : Call) (d : σ) : call.Changes d d where
  team _ _ h := h
  user _ u h := ⟨u, h, .refl call u⟩
  pullRequest _ _ p h := ⟨p, h, .kept⟩
  created _ _ q h := .inl ⟨q, h⟩

end

/-! ## Ledgers -/

namespace Ledger

variable {older : Instant → Instant → Bool} {m m' : Ledger older} {call : Call}

theorem changes_of (h : Memory.Integrity m) (h' : Memory.Integrity m')
    (ht : Memory.teams m ⊆ Memory.teams m')
    (hu : ∀ u ∈ Memory.users m, ∃ v ∈ Memory.users m', u.Advance call v)
    (hp : ∀ p ∈ Memory.pullRequests m, ∃ q ∈ Memory.pullRequests m',
      p.Advance (call.Relieves m m' p.id) q)
    (hn : ∀ q ∈ Memory.pullRequests m', (∃ p ∈ Memory.pullRequests m, p.id = q.id) ∨
      q.status = .opened ∧ q.mergedAt = none) : call.Changes m m' where
  team id team hread := by
    obtain ⟨hmem, hid⟩ := (team_iff h).mp hread
    exact (team_iff h').mpr ⟨ht hmem, hid⟩
  user id u hread := by
    obtain ⟨hmem, hid⟩ := (user_iff h).mp hread
    obtain ⟨v, hv, hadv⟩ := hu u hmem
    exact ⟨v, (user_iff h').mpr ⟨hv, hadv.id.trans hid⟩, hadv⟩
  pullRequest lock id p hread := by
    obtain ⟨hmem, rfl⟩ := (pullRequest_iff h).mp hread
    obtain ⟨q, hq, hadv⟩ := hp p hmem
    exact ⟨q, (pullRequest_iff h').mpr ⟨hq, hadv.head_eq.1⟩, hadv⟩
  created lock id q hread := by
    obtain ⟨hmem, rfl⟩ := (pullRequest_iff h').mp hread
    refine (hn q hmem).imp_left fun ⟨p, hp, hid⟩ => ?_
    exact ⟨p, (pullRequest_iff h).mpr ⟨hp, hid⟩⟩

theorem changes_of_subset (h : Memory.Integrity m) (h' : Memory.Integrity m')
    (ht : Memory.teams m ⊆ Memory.teams m') (hu : Memory.users m ⊆ Memory.users m')
    (hp : Memory.pullRequests m ⊆ Memory.pullRequests m')
    (hn : ∀ q ∈ Memory.pullRequests m', q ∈ Memory.pullRequests m ∨
      q.status = .opened ∧ q.mergedAt = none) : call.Changes m m' :=
  changes_of h h' ht (fun u hmem => ⟨u, hu hmem, .refl call u⟩)
    (fun p hmem => ⟨p, hp hmem, .kept⟩)
    fun q hmem => (hn q hmem).imp_left fun hold => ⟨q, hold, rfl⟩

theorem changes_of_map (h : Memory.Integrity m) (h' : Memory.Integrity m') {g : User → User}
    {f : PullRequest → PullRequest} (hm : m' = Memory.mapPullRequests (Memory.mapUsers m g) f)
    (hu : ∀ u ∈ Memory.users m, u.Advance call (g u))
    (hp : ∀ p ∈ Memory.pullRequests m, p.Advance (call.Relieves m m' p.id) (f p)) :
    call.Changes m m' := by
  have hteams : Memory.teams m' = Memory.teams m := by rw [hm]; rfl
  have husers : Memory.users m' = (Memory.users m).map g := by rw [hm]; rfl
  have hprs : Memory.pullRequests m' = (Memory.pullRequests m).map f := by rw [hm]; rfl
  refine changes_of h h' (by rw [hteams]; exact List.Subset.refl _) (fun u hmem => ?_)
    (fun p hmem => ?_) fun q hmem => ?_
  · exact ⟨g u, husers ▸ List.mem_map_of_mem hmem, hu u hmem⟩
  · exact ⟨f p, hprs ▸ List.mem_map_of_mem hmem, hp p hmem⟩
  · rw [hprs] at hmem
    obtain ⟨p, hp', rfl⟩ := List.mem_map.mp hmem
    exact .inl ⟨p, hp', (hp p hp').head_eq.1.symm⟩

theorem changes_of_mapPullRequests (h : Memory.Integrity m) (h' : Memory.Integrity m')
    {f : PullRequest → PullRequest} (hm : m' = Memory.mapPullRequests m f)
    (hp : ∀ p ∈ Memory.pullRequests m, p.Advance (call.Relieves m m' p.id) (f p)) :
    call.Changes m m' :=
  changes_of_map h h' (hm.trans (congrArg (Memory.mapPullRequests · f) (Memory.mapUsers_id m).symm))
    (fun u _ => .refl call u) hp

theorem turnedInactive (h : Memory.Integrity m) (h' : Memory.Integrity m') {u v : User}
    (hu : u ∈ Memory.users m) (hactive : u.isActive = true) (hv : v ∈ Memory.users m')
    (hid : v.id = u.id) (hinactive : v.isActive = false) : TurnedInactive m m' u.id :=
  ⟨⟨u, (user_iff h).mpr ⟨hu, rfl⟩, hactive⟩, v, (user_iff h').mpr ⟨hv, hid⟩, hinactive⟩

/-! ## Transactions -/

variable {π : Type} [Collaborators π] {s s' : Session (Ledger older) π}
  (h : Memory.Integrity s.data) (h' : Memory.Integrity s'.data)
include h h'

theorem changes_createPullRequest {settings : AssignmentSettings} {id title author : String}
    {r : PullRequest}
    (he : (Service.createPullRequestIn settings id title author).exec s = (.ok r, s')) :
    call.Changes s.data s'.data := by
  obtain ⟨_, _, _, _, -, -, -, -, hr, -, -, hdata⟩ := createPullRequestIn_eq_ok he
  refine changes_of_subset h h' ?_ ?_ ?_ fun q hq => ?_ <;> rw [hdata] at *
  · exact List.Subset.refl _
  · exact List.Subset.refl _
  · exact List.subset_append_left _ _
  · refine (List.mem_append.mp hq).imp_right fun hq => ?_
    rw [List.mem_singleton.mp hq, hr]
    exact ⟨rfl, rfl⟩

theorem changes_reassign {id reviewer : String} {r : PullRequest}
    (he : (Service.reassignIn id reviewer).exec s = (.ok r, s')) :
    (Call.reassign id reviewer).Changes s.data s'.data := by
  obtain ⟨p, hp, rfl, hopen, u, hu, rfl, pool, -, hover, hdata⟩ := reassignIn_eq_ok h he
  refine changes_of_mapPullRequests h h' hdata fun q hq => ?_
  unfold PullRequest.instead
  split
  · rename_i hid
    obtain rfl := h.eq_of_id hq hp (hid.trans hover.sameOpening.id)
    refine .handedOver hopen hover.sameOpening (hover.sameSeats.mono fun id hleaver => .inl ?_)
    rw [List.mem_singleton.mp hleaver]
  · exact .kept

theorem changes_merge {id : String} {r : PullRequest}
    (he : (Service.mergeIn id).exec s = (.ok r, s')) : call.Changes s.data s'.data := by
  obtain ⟨p, hp, rfl, ⟨-, -, rfl⟩ | ⟨hopen, time, -, hdata⟩⟩ := mergeIn_eq_ok he
  · exact .refl call _
  refine changes_of_mapPullRequests h h' hdata fun q hq => ?_
  split
  · rename_i hid
    obtain rfl := h.eq_of_id hq hp hid
    exact .merged hopen time
  · exact .kept

theorem changes_updateUser {id : String} {update : UserUpdate} {r : User}
    (he : (Service.updateUserIn id update).exec s = (.ok r, s')) :
    (Call.updateUser id update).Changes s.data s'.data := by
  obtain ⟨user, huser, rfl, rfl, hcases⟩ := updateUserIn_eq_ok h he
  have hadv : ∀ u ∈ Memory.users s.data, u.Advance (.updateUser user.id update)
      (if u.id = user.id then
        { u with name := (update.apply user).name, isActive := (update.apply user).isActive }
      else u) := by
    intro u hu
    split
    · rename_i hid
      rw [← hid]
      exact ⟨rfl, rfl, rfl, .inr ⟨update, rfl⟩, .inr (.inl ⟨update, rfl⟩)⟩
    · exact .refl _ u
  rcases hcases with ⟨-, hdata⟩ | ⟨hactive, hinactive, pool, f, -, hrel, hdata⟩
  · have hm : s'.data = Memory.mapPullRequests (Memory.withUser s.data (update.apply user)) id := by
      rw [hdata, Memory.mapPullRequests_id]
    exact changes_of_map h h' hm hadv fun p _ => .kept
  · have hm : s'.data = Memory.mapPullRequests (Memory.withUser s.data (update.apply user)) f :=
      hdata
    refine changes_of_map h h' hm hadv fun p hp => ?_
    refine PullRequest.advance_of_steps (hrel.steps p hp) (hrel.closed p hp) fun id hid => .inr ?_
    rw [List.mem_singleton.mp hid]
    refine turnedInactive h h' (v := { user with
      name := (update.apply user).name, isActive := (update.apply user).isActive })
      huser hactive ?_ rfl hinactive
    rw [hm]
    exact Memory.mem_withUser.mpr (.inr ⟨user, huser, rfl, rfl⟩)

theorem changes_deactivate {team : String} {ids : List String} {r : Deactivation}
    (he : (Service.deactivateIn team (Service.distinct ids)).exec s = (.ok r, s')) :
    (Call.deactivate team ids).Changes s.data s'.data := by
  obtain ⟨-, f, hrel, hdata⟩ := deactivateIn_eq_ok (Service.nodup_distinct ids) h he
  refine changes_of_map h h' hdata (fun u _ => ?_) fun p hp => ?_
  · split
    · rename_i hid
      exact ⟨rfl, rfl, rfl, .inl rfl, .inr (.inr ⟨team, ids, rfl, Service.mem_distinct.mp hid⟩)⟩
    · exact .refl _ u
  · refine PullRequest.advance_of_steps (hrel.steps p hp) (hrel.closed p hp) fun id hid => .inr ?_
    obtain ⟨u, hu, rfl⟩ := List.mem_map.mp hid
    obtain ⟨hu, hid, hactive⟩ := Deactivation.mem_batch.mp hu
    refine turnedInactive h h' (v := { u with isActive := false }) hu hactive ?_ rfl rfl
    rw [hdata]
    exact Memory.mem_deactivated.mpr (.inr ⟨u, hu, hid, rfl⟩)

omit h h' in
/-- **A call on a ledger changes no more than it may.** -/
theorem changes (settings : AssignmentSettings) (call : Call) (h : Memory.Integrity s.data)
    {r : Except Fault Reply} (he : (call.perform settings).exec s = (r, s')) :
    call.Changes s.data s'.data := by
  have hkeep := ((keeps_integrity older).service π).perform settings call s h
  rw [he] at hkeep
  have h' : Memory.Integrity s'.data := hkeep
  have same : Accumulates fun d e : Ledger older => e = d := .eq
  -- calls that fail and calls that read leave the data as it was
  have hstill : s'.data = s.data → call.Changes s.data s'.data := fun hdata => by
    rw [hdata]
    exact .refl call _
  have hread : (call.perform settings : Work (Ledger older) π Reply).Keeps (fun d e => e = d) →
      call.Changes s.data s'.data := fun hw => by
    have hdata := hw s
    rw [he] at hdata
    exact hstill hdata
  cases r with
  | error fault =>
    have hdata := Call.atomic settings call s fault (congrArg Prod.fst he)
    rw [he] at hdata
    exact hstill hdata
  | ok reply =>
  cases call with
  | createTeam name id =>
    obtain ⟨team, he, -⟩ := Work.map_eq_ok.mp he
    have hdata := createTeam_eq_ok he
    refine changes_of_subset h h' ?_ ?_ ?_ fun q hq => .inl ?_ <;> rw [hdata] at *
    · exact List.subset_append_left _ _
    · exact List.Subset.refl _
    · exact List.Subset.refl _
    · exact hq
  | createUser team name isActive id =>
    obtain ⟨user, he, -⟩ := Work.map_eq_ok.mp he
    have hdata := createUser_eq_ok he
    refine changes_of_subset h h' ?_ ?_ ?_ fun q hq => .inl ?_ <;> rw [hdata] at *
    · exact List.Subset.refl _
    · exact List.subset_append_left _ _
    · exact List.Subset.refl _
    · exact hq
  | updateUser id update =>
    obtain ⟨user, he, -⟩ := Work.map_eq_ok.mp he
    obtain ⟨-, he⟩ := Service.require_bind_eq_ok.mp he
    obtain ⟨-, he⟩ := Service.require_bind_eq_ok.mp he
    exact changes_updateUser h h' (exec_transact_eq_ok.mp he)
  | deactivate team ids =>
    obtain ⟨outcome, he, -⟩ := Work.map_eq_ok.mp he
    obtain ⟨-, he⟩ := Service.require_bind_eq_ok.mp he
    exact changes_deactivate h h' (exec_transact_eq_ok.mp he)
  | createPullRequest title author id =>
    obtain ⟨p, he, -⟩ := Work.map_eq_ok.mp he
    obtain ⟨-, he⟩ := Service.require_bind_eq_ok.mp he
    obtain ⟨newId, s₁, hid, he⟩ := Work.exec_bind_eq_ok.mp he
    obtain ⟨hdata, -⟩ := resolveId_eq_ok hid
    rw [← hdata] at h ⊢
    exact changes_createPullRequest h h' (exec_transact_eq_ok.mp he)
  | reassign id reviewer =>
    obtain ⟨p, he, -⟩ := Work.map_eq_ok.mp he
    exact changes_reassign h h' (exec_transact_eq_ok.mp he)
  | merge id =>
    obtain ⟨p, he, -⟩ := Work.map_eq_ok.mp he
    exact changes_merge h h' (exec_transact_eq_ok.mp he)
  | assigned user status =>
    exact hread (.map (same.transact (same.bind (same.read _) fun _ => same.read _)) _)
  | _ => exact hread (.map (same.transact (same.read _)) _)

end Ledger

/-! ## Both stores -/

namespace StoreKind

variable {kind : StoreKind} {d d' : kind.Data}

theorem changes_of_ledger (h : kind.Sound d) (h' : kind.Sound d') {call : Call}
    (hc : call.Changes (kind.ledger d) (kind.ledger d')) : call.Changes d d' := by
  have hrel : ∀ id user, call.Relieves (kind.ledger d) (kind.ledger d') id user →
      call.Relieves d d' id user := fun id user hr => by
    unfold Call.Relieves TurnedInactive
    rw [kind.mirrored.user h.holds, kind.mirrored.user h'.holds]
    exact hr
  constructor
  case team =>
    intro id team hread
    rw [kind.mirrored.team h.holds] at hread
    rw [kind.mirrored.team h'.holds]
    exact hc.team id team hread
  case user =>
    intro id u hread
    rw [kind.mirrored.user h.holds] at hread
    rw [kind.mirrored.user h'.holds]
    exact hc.user id u hread
  case pullRequest =>
    intro lock id p hread
    rw [kind.mirrored.pullRequest h.holds] at hread
    obtain ⟨q, hq, hadv⟩ := hc.pullRequest lock id p hread
    rw [kind.mirrored.pullRequest h'.holds]
    exact ⟨q, hq, hadv.mono (hrel id)⟩
  case created =>
    intro lock id q hread
    rw [kind.mirrored.pullRequest h'.holds] at hread
    rw [kind.mirrored.pullRequest h.holds]
    exact hc.created lock id q hread

/-- **A call changes no more than it may**, on either store and whatever its outcome. -/
theorem changes {π : Type} [Collaborators π] (settings : AssignmentSettings) (call : Call)
    {s s' : Session kind.Data π} {r : Except Fault Reply} (h : kind.Sound s.data)
    (he : (call.perform settings).exec s = (r, s')) :
    kind.Sound s'.data ∧ call.Changes s.data s'.data := by
  obtain ⟨h', he'⟩ := exec_onLedger (kind.mirrored.perform settings call) h he
  exact ⟨h', changes_of_ledger h h' (Ledger.changes settings call h.integrity he')⟩

end StoreKind

end ReviewRota
