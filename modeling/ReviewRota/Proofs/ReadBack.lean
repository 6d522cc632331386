import ReviewRota.Proofs.Relational.Statements
import ReviewRota.Proofs.Staffing
import ReviewRota.Proofs.Stores

/-!
# Replies are read back

A service replies with a record that it has put together itself, and the store keeps what it has put
together from the same changes. The laws below relate the two for any store, whatever else it holds.

* `Repository.ReadsBack I`: what a store reads after a change that it has accepted.
* `Memory.readsBack`, `Relational.Database.readsBack`: both stores do. A database needs no more than
  that each slot belongs to a stored pull request.
* `Call.storesRecord`, `Reply.readBack?`: the calls that store a record, and the call that reads it.
* **`reply_readBack`**: on both stores, what such a call replies is what is read after it.
-/

namespace ReviewRota

/-! ## Laws -/

/-- A store that reads what it has accepted. Of the data before, a condition `I` is asked where a
pull request is created. -/
structure Repository.ReadsBack {σ : Type} [Repository σ] (I : σ → Prop) : Prop where
  user_id : ∀ {d : σ} {id u}, Repository.user id d = .ok u → u.id = id
  pullRequest_id : ∀ {d : σ} {lock id p}, Repository.pullRequest lock id d = .ok p → p.id = id
  unlocked : ∀ {d : σ} {lock id p},
    Repository.pullRequest lock id d = .ok p → Repository.pullRequest false id d = .ok p
  createTeam : ∀ {d d' : σ} {team}, Repository.createTeam team d = (.ok (), d') →
    Repository.team team.id d' = .ok team
  createUser : ∀ {d d' : σ} {user}, Repository.createUser user d = (.ok (), d') →
    Repository.user user.id d' = .ok user
  updateUser : ∀ {d d' : σ} {u v}, Repository.user v.id d = .ok u →
    Repository.updateUser v d = (.ok (), d') →
      Repository.user v.id d' = .ok { u with name := v.name, isActive := v.isActive }
  createPullRequest : ∀ {d d' : σ} {p}, I d → (∀ slot ∈ p.reviewers, slot.pullRequestId = p.id) →
    Repository.createPullRequest p d = (.ok (), d') →
      (∀ slot ∈ p.reviewers, 1 ≤ slot.number) ∧ Repository.pullRequest false p.id d' =
        .ok { p with reviewers := Memory.sortSlots p.reviewers }
  setStatus : ∀ {d d' : σ} {p status time}, Repository.pullRequest false p.id d = .ok p →
    Repository.setStatus p.id status time d = (.ok (), d') →
      Repository.pullRequest false p.id d' = .ok { p with status, mergedAt := time }
  setReviewers : ∀ {d d' : σ} {p slots}, Repository.pullRequest false p.id d = .ok p →
    Repository.setReviewers p.id slots d = (.ok (), d') →
      (∀ slot ∈ slots, 1 ≤ slot.number) ∧ Repository.pullRequest false p.id d' =
        .ok { p with reviewers := Memory.sortSlots slots }
  user_setReviewers : ∀ (d : σ) id slots user,
    Repository.user user (Repository.setReviewers id slots d).2 = Repository.user user d

theorem sortSlots_renumber {slots : List ReviewerSlot}
    (h : ∀ slot ∈ renumber slots, 1 ≤ slot.number) :
    Memory.sortSlots (renumber slots) = renumber slots :=
  (dense_renumber (length_lt_of_positive h)).sortSlots_eq

/-! ## Services -/

/-- The calls that store a record and reply with it. -/
def Call.storesRecord : Call → Bool
  | .createTeam .. | .createUser .. | .updateUser .. | .createPullRequest .. | .reassign ..
  | .merge .. => true
  | _ => false

/-- The call that reads the record of a reply by its id. -/
def Reply.readBack? : Reply → Option Call
  | .team t => some (.team t.id)
  | .user u => some (.user u.id)
  | .pullRequest p => some (.pullRequest p.id)
  | _ => none

namespace Repository.ReadsBack

variable {σ π : Type} [Repository σ] [Collaborators π] {I : σ → Prop}
  (h : Repository.ReadsBack I) {settings : AssignmentSettings} {s s' : Session σ π}
include h

theorem team_read {name : String} {id : Option String} {team : Team}
    (he : (Service.createTeam settings name id).exec s = (.ok team, s')) :
    Repository.team team.id s'.data = .ok team := by
  unfold Service.createTeam at he
  obtain ⟨-, he⟩ := Service.require_bind_eq_ok.mp he
  obtain ⟨newId, s₁, -, he⟩ := Work.exec_bind_eq_ok.mp he
  rw [Work.exec_bind_of_ok (Work.exec_now s₁)] at he
  obtain ⟨_, s₂, hw, he⟩ := Work.exec_bind_eq_ok.mp he
  cases he
  rw [exec_transact_eq_ok, Work.exec_write, Prod.mk.injEq] at hw
  obtain ⟨hw, rfl⟩ := hw
  exact h.createTeam (Prod.ext hw rfl)

theorem user_read {team name : String} {isActive : Bool} {id : Option String} {user : User}
    (he : (Service.createUser settings team name isActive id).exec s = (.ok user, s')) :
    Repository.user user.id s'.data = .ok user := by
  unfold Service.createUser at he
  obtain ⟨-, he⟩ := Service.require_bind_eq_ok.mp he
  obtain ⟨newId, s₁, -, he⟩ := Work.exec_bind_eq_ok.mp he
  rw [Work.exec_bind_of_ok (Work.exec_now s₁)] at he
  obtain ⟨_, s₂, hstep, he⟩ := Work.exec_bind_eq_ok.mp he
  cases he
  obtain ⟨_, -, hw⟩ := Work.read_bind_eq_ok.mp (exec_transact_eq_ok.mp hstep)
  clear hstep
  rw [Work.exec_write, Prod.mk.injEq] at hw
  obtain ⟨hw, rfl⟩ := hw
  exact h.createUser (Prod.ext hw rfl)

theorem user_updated {id : String} {update : UserUpdate} {user : User}
    (he : (Service.updateUserIn id update).exec s = (.ok user, s')) :
    Repository.user user.id s'.data = .ok user := by
  unfold Service.updateUserIn at he
  obtain ⟨u, hu, he⟩ := Work.read_bind_eq_ok.mp he
  rw [← h.user_id hu] at hu
  have hstore : ∀ t : Session σ π, Repository.user u.id t.data = .ok u →
      (do
        Work.write (Repository.updateUser (update.apply u))
        pure (update.apply u) : Work σ π User).exec t = (.ok user, s') →
      Repository.user user.id s'.data = .ok user := by
    intro t ht he
    obtain ⟨_, hw, he⟩ := Work.write_bind_eq_ok.mp he
    cases he
    exact h.updateUser (v := update.apply u) ht (Prod.ext hw rfl)
  dsimp only at he
  split at he
  · obtain ⟨_, t, hover, he⟩ := Work.exec_bind_eq_ok.mp he
    have hsame : Accumulates fun d d' : σ =>
        Repository.user u.id d' = Repository.user u.id d :=
      ⟨fun _ => rfl, fun h₁ h₂ => h₂.trans h₁⟩
    have hkeep := hsame.reassignOpenReviews (fun id slots d => h.user_setReviewers d id slots u.id)
      (update.apply u).teamId (update.apply u) s
    rw [hover] at hkeep
    exact hstore t (hkeep.trans hu) he
  · exact hstore s hu he

/-- The slots of a new pull request are in order as they are: more than there are numbers for would
have been refused. -/
theorem pullRequest_created (hs : I s.data) {id title author : String} {p : PullRequest}
    (he : (Service.createPullRequestIn settings id title author).exec s = (.ok p, s')) :
    Repository.pullRequest false p.id s'.data = .ok p := by
  obtain ⟨author, pool, chosen, s₁, time, -, -, hchosen, rfl, hstored⟩ :=
    Service.exec_createPullRequestIn_eq_ok he
  have hdata := Accumulates.eq.initial pool settings.maxReviewers s
  rw [hchosen] at hdata
  rw [← hdata] at hs
  have hown : ∀ slot ∈ Service.numberedSlots id time chosen, slot.pullRequestId = id := by
    rw [numberedSlots_eq_renumber]
    refine pullRequestId_renumber fun slot hslot => ?_
    obtain ⟨user, -, rfl⟩ := List.mem_map.mp hslot
    rfl
  obtain ⟨hpos, hread⟩ := h.createPullRequest hs hown hstored
  rw [numberedSlots_eq_renumber] at hpos
  rw [hread, numberedSlots_eq_renumber, sortSlots_renumber hpos]

theorem pullRequest_reassigned {id reviewer : String} {p : PullRequest}
    (he : (Service.reassignIn id reviewer).exec s = (.ok p, s')) :
    Repository.pullRequest false p.id s'.data = .ok p := by
  unfold Service.reassignIn at he
  obtain ⟨q, hq, he⟩ := Work.read_bind_eq_ok.mp he
  rw [← h.pullRequest_id hq] at hq
  obtain ⟨-, he⟩ := Service.require_bind_eq_ok.mp he
  obtain ⟨u, -, he⟩ := Work.read_bind_eq_ok.mp he
  obtain ⟨pool, -, he⟩ := Work.read_bind_eq_ok.mp he
  obtain ⟨chosen, s₁, hchosen, he⟩ := Work.exec_bind_eq_ok.mp he
  have hdata := Accumulates.eq.replacement pool s
  rw [hchosen] at hdata
  rw [Work.exec_bind_of_ok (Work.exec_now s₁)] at he
  obtain ⟨-, he⟩ := Service.require_bind_eq_ok.mp he
  obtain ⟨_, hw, he⟩ := Work.write_bind_eq_ok.mp he
  cases he
  rw [← hdata] at hq
  obtain ⟨hpos, hread⟩ := h.setReviewers (h.unlocked hq) (Prod.ext hw rfl)
  rw [sortSlots_renumber hpos] at hread
  exact hread

theorem pullRequest_merged {id : String} {p : PullRequest}
    (he : (Service.mergeIn id).exec s = (.ok p, s')) :
    Repository.pullRequest false p.id s'.data = .ok p := by
  unfold Service.mergeIn at he
  obtain ⟨q, hq, he⟩ := Work.read_bind_eq_ok.mp he
  rw [← h.pullRequest_id hq] at hq
  split at he
  · cases he
    exact h.unlocked hq
  · rw [Work.exec_bind_of_ok (Work.exec_now s)] at he
    obtain ⟨_, hw, he⟩ := Work.write_bind_eq_ok.mp he
    cases he
    exact h.setStatus (p := q) (h.unlocked hq) (Prod.ext hw rfl)

/-- **What a call replies is what is read after it.** -/
theorem perform (hs : I s.data) {call : Call} (hcall : call.storesRecord = true) {reply : Reply}
    (he : (call.perform settings).exec s = (.ok reply, s')) :
    ∃ get, reply.readBack? = some get ∧ (get.perform settings).exec s' = (.ok reply, s') := by
  have hget : ∀ {α : Type} {f : σ → Except Fault α} {a : α} (wrap : α → Reply), f s'.data = .ok a →
      (wrap <$> transact (Work.read f) : Work σ π Reply).exec s' = (.ok (wrap a), s') := by
    intro α f a wrap hread
    rw [Work.exec_map, exec_transact_of_ok (by rw [Work.exec_read, hread])]
    rfl
  cases call with
  | createTeam name id =>
    obtain ⟨team, hrun, rfl⟩ := Work.map_eq_ok.mp he
    exact ⟨.team team.id, rfl, hget .team (h.team_read hrun)⟩
  | createUser team name isActive id =>
    obtain ⟨user, hrun, rfl⟩ := Work.map_eq_ok.mp he
    exact ⟨.user user.id, rfl, hget .user (h.user_read hrun)⟩
  | updateUser id update =>
    obtain ⟨user, hrun, rfl⟩ := Work.map_eq_ok.mp he
    obtain ⟨-, hrun⟩ := Service.require_bind_eq_ok.mp hrun
    obtain ⟨-, hrun⟩ := Service.require_bind_eq_ok.mp hrun
    exact ⟨.user user.id, rfl, hget .user (h.user_updated (exec_transact_eq_ok.mp hrun))⟩
  | createPullRequest title author id =>
    obtain ⟨p, hrun, rfl⟩ := Work.map_eq_ok.mp he
    obtain ⟨-, hrun⟩ := Service.require_bind_eq_ok.mp hrun
    obtain ⟨newId, s₁, hid, hrun⟩ := Work.exec_bind_eq_ok.mp hrun
    rw [← (resolveId_eq_ok hid).1] at hs
    exact ⟨.pullRequest p.id, rfl,
      hget .pullRequest (h.pullRequest_created hs (exec_transact_eq_ok.mp hrun))⟩
  | reassign id reviewer =>
    obtain ⟨p, hrun, rfl⟩ := Work.map_eq_ok.mp he
    exact ⟨.pullRequest p.id, rfl,
      hget .pullRequest (h.pullRequest_reassigned (exec_transact_eq_ok.mp hrun))⟩
  | merge id =>
    obtain ⟨p, hrun, rfl⟩ := Work.map_eq_ok.mp he
    exact ⟨.pullRequest p.id, rfl,
      hget .pullRequest (h.pullRequest_merged (exec_transact_eq_ok.mp hrun))⟩
  | _ => cases hcall

end Repository.ReadsBack

/-! ## The in-memory store -/

theorem find?_concat_key {α : Type} (key : α → String) {l : List α} {a : α}
    (h : key a ∉ l.map key) : (l ++ [a]).find? (key · == key a) = some a := by
  have hnone : l.find? (key · == key a) = none :=
    List.find?_eq_none.mpr fun b hb he => h (List.mem_map.mpr ⟨b, hb, beq_iff_eq.mp he⟩)
  rw [List.find?_append, hnone, Option.none_or]
  exact List.find?_cons_of_pos (beq_self_eq_true _)

theorem find?_concat_of_ne {α : Type} (key : α → String) (l : List α) {a : α} {id : String}
    (h : key a ≠ id) : (l ++ [a]).find? (key · == id) = l.find? (key · == id) := by
  have hnone : [a].find? (key · == id) = none :=
    List.find?_eq_none.mpr fun b hb he => h (List.mem_singleton.mp hb ▸ beq_iff_eq.mp he)
  rw [List.find?_append, hnone, Option.or_none]

theorem not_mem_map_of_any {α : Type} {key : α → String} {l : List α} {id : String}
    (h : ¬ l.any (key · == id) = true) : id ∉ l.map key := by
  intro hmem
  obtain ⟨a, ha, he⟩ := List.mem_map.mp hmem
  exact h (List.any_eq_true.mpr ⟨a, ha, beq_iff_eq.mpr he⟩)

theorem find?_map_key {α : Type} {key : α → String} {f : α → α} (hf : ∀ a, key (f a) = key a)
    (l : List α) (id : String) :
    (l.map f).find? (key · == id) = (l.find? (key · == id)).map f := by
  rw [List.find?_map]
  congr 2
  funext a
  rw [Function.comp_apply, hf]

theorem find?_map_of_key {α : Type} {key : α → String} (f : α → α) (hf : ∀ a, key (f a) = key a)
    {l : List α} {id : String} {a : α} (h : l.find? (key · == id) = some a) :
    (l.map fun b => if key b = id then f b else b).find? (key · == id) = some (f a) := by
  have hid : key a = id := by simpa using List.find?_some h
  have hkey : ∀ b, key (if key b = id then f b else b) = key b := fun b => by
    split
    · exact hf b
    · rfl
  rw [find?_map_key hkey, h, Option.map_some, if_pos hid]

theorem Memory.readsBack : Repository.ReadsBack fun _ : Memory => True where
  user_id h := (Memory.mem_of_findUser (orNotFound_eq_ok.mp h)).2
  pullRequest_id h := (Memory.mem_of_findPullRequest (orNotFound_eq_ok.mp h)).2
  unlocked h := h
  createTeam {d d' team} h := by
    change d.createTeam team = _ at h
    rcases Memory.createTeam_cases (m := d) team with he | ⟨⟨hid, -⟩, he⟩ <;> rw [he] at h <;>
      cases h
    exact orNotFound_eq_ok.mpr (find?_concat_key Team.id hid)
  createUser {d d' user} h := by
    change d.createUser user = _ at h
    rcases Memory.createUser_cases (m := d) user with ⟨_, he⟩ | ⟨⟨hid, -⟩, he⟩ <;> rw [he] at h <;>
      cases h
    exact orNotFound_eq_ok.mpr (find?_concat_key User.id hid)
  updateUser {d d' u v} hu h := by
    change d.updateUser v = _ at h
    rcases Memory.updateUser_cases (m := d) v with he | ⟨-, he⟩ <;> rw [he] at h <;> cases h
    exact orNotFound_eq_ok.mpr (find?_map_of_key
      (fun u : User => { u with name := v.name, isActive := v.isActive }) (fun _ => rfl)
      (orNotFound_eq_ok.mp hu))
  createPullRequest {d d' p} _ _ h := by
    change d.createPullRequest p = _ at h
    rcases Memory.createPullRequest_cases (m := d) p with ⟨_, he⟩ | ⟨⟨hid, -, hfits⟩, he⟩ <;>
      rw [he] at h <;> cases h
    refine ⟨hfits.positive, orNotFound_eq_ok.mpr ?_⟩
    exact find?_concat_key PullRequest.id
      (a := { p with reviewers := Memory.sortSlots p.reviewers }) hid
  setStatus {d d' p status time} hp h := by
    change d.changePullRequest p.id _ = _ at h
    rcases Memory.changePullRequest_cases (m := d) p.id
      fun p => { p with status, mergedAt := time } with he | ⟨-, he⟩ <;> rw [he] at h <;> cases h
    exact orNotFound_eq_ok.mpr (find?_map_of_key
      (fun p : PullRequest => { p with status, mergedAt := time }) (fun _ => rfl)
      (orNotFound_eq_ok.mp hp))
  setReviewers {d d' p slots} hp h := by
    change d.setReviewers p.id slots = _ at h
    rcases Memory.setReviewers_cases (m := d) p.id slots with ⟨_, he⟩ | ⟨⟨-, hfits⟩, he⟩ <;>
      rw [he] at h <;> cases h
    refine ⟨hfits.positive, orNotFound_eq_ok.mpr ?_⟩
    exact find?_map_of_key
      (fun p : PullRequest => { p with reviewers := Memory.sortSlots slots }) (fun _ => rfl)
      (orNotFound_eq_ok.mp hp)
  user_setReviewers d id slots user := by
    change orNotFound ((d.setReviewers id slots).2.users.find? (·.id == user)) = _
    rcases Memory.setReviewers_cases (m := d) id slots with ⟨_, he⟩ | ⟨-, he⟩ <;> rw [he] <;> rfl

/-! ## The relational store -/

namespace Relational.Database

variable {d d' : Database}

/-- The slots of a pull request that has no others are stored as they are, and read by number. -/
theorem load_append {row : PullRequestRow} {slots : List ReviewerSlot}
    (hnone : d.slotRows row.id = []) (hown : ∀ slot ∈ slots, slot.pullRequestId = row.id) :
    load { d with slots := d.slots ++ slots.map .ofSlot } row =
      row.toPullRequest (Memory.sortSlots slots) := by
  have hslots := slotsOf_append row.id hnone hown
  rw [if_pos rfl] at hslots
  rw [load_of_readable, hslots]
  intro r hr
  obtain ⟨hr, hid⟩ := mem_slotRows.mp hr
  rcases List.mem_append.mp hr with hr | hr
  · exact absurd (mem_slotRows.mpr ⟨hr, hid⟩) (hnone ▸ List.not_mem_nil)
  · obtain ⟨slot, -, rfl⟩ := List.mem_map.mp hr
    exact SlotRow.readable_ofSlot slot

theorem findPullRequest_of_ok {lock : Bool} {id : String} {p : PullRequest}
    (h : Repository.pullRequest lock id d = .ok p) : d.findPullRequest id = .ok p := by
  have h := seen_eq_ok.mp h
  cases lock with
  | false => exact h
  | true =>
    cases htouch : d.touchPullRequest id with
    | error failure =>
      rw [htouch] at h
      cases h
    | ok u =>
      rw [htouch] at h
      exact h

theorem pullRequest_of_find {id : String} {p : PullRequest} (h : d.findPullRequest id = .ok p) :
    Repository.pullRequest false id d = .ok p :=
  seen_eq_ok.mpr h

/-- Each slot belongs to a stored pull request. -/
def Owned (d : Database) : Prop :=
  ∀ r ∈ d.slots, ∃ row ∈ d.pullRequests, row.id = r.pullRequestId

theorem readsBack : Repository.ReadsBack Owned where
  user_id h := by simpa using List.find?_some (orNotFound_eq_ok.mp h)
  pullRequest_id {d lock id p} h := by
    obtain ⟨row, hrow, hload⟩ := findPullRequest_eq_ok.mp (findPullRequest_of_ok h)
    obtain ⟨status, -, rfl⟩ := PullRequestRow.toPullRequest_eq_ok (load_eq_ok.mp hload).2
    simpa using List.find?_some hrow
  unlocked h := pullRequest_of_find (findPullRequest_of_ok h)
  createTeam h := by
    obtain ⟨hnew, rfl⟩ := insertTeam_eq_ok (statement_eq_ok.mp (seenChange_eq_ok.mp h))
    exact orNotFound_eq_ok.mpr (find?_concat_key Team.id (not_mem_map_of_any hnew))
  createUser h := by
    obtain ⟨hnew, rfl⟩ := insertUser_eq_ok (statement_eq_ok.mp (seenChange_eq_ok.mp h))
    exact orNotFound_eq_ok.mpr (find?_concat_key User.id (not_mem_map_of_any hnew))
  updateUser {d d' u v} hu h := by
    obtain rfl := updateUser_eq_ok (statement_eq_ok.mp (seenChange_eq_ok.mp h))
    exact orNotFound_eq_ok.mpr (find?_map_of_key
      (fun u : User => { u with name := v.name, isActive := v.isActive }) (fun _ => rfl)
      (orNotFound_eq_ok.mp hu))
  createPullRequest {d d' p} howned hown h := by
    obtain ⟨hnew, hpos, rfl⟩ := createPullRequest_eq_ok (seenChange_eq_ok.mp h)
    refine ⟨hpos, pullRequest_of_find (findPullRequest_eq_ok.mpr ⟨.ofPullRequest p, ?_, ?_⟩)⟩
    · exact find?_concat_key PullRequestRow.id (a := .ofPullRequest p) (not_mem_map_of_any hnew)
    · refine (load_append ?_ hown : load _ (.ofPullRequest p) = _).trans
        (PullRequestRow.toPullRequest_ofPullRequest p _)
      exact slotRows_eq_nil howned hnew
  setStatus {d d' p status time} hp h := by
    obtain rfl := updateStatus_eq_ok (statement_eq_ok.mp (seenChange_eq_ok.mp h))
    obtain ⟨row, hrow, hload⟩ := findPullRequest_eq_ok.mp (findPullRequest_of_ok hp)
    obtain ⟨hread, hp⟩ := load_eq_ok.mp hload
    let change (row : PullRequestRow) : PullRequestRow :=
      { row with statusCode := status.code, mergedAt := time }
    refine pullRequest_of_find (findPullRequest_eq_ok.mpr
      ⟨change row, find?_map_of_key change (fun _ => rfl) hrow, load_eq_ok.mpr ⟨hread, ?_⟩⟩)
    obtain ⟨_, -, he⟩ := PullRequestRow.toPullRequest_eq_ok hp
    rw [he]
    exact PullRequestRow.toPullRequest_ofPullRequest
      ⟨row.id, row.title, row.authorId, status, row.createdAt, time, []⟩ _
  setReviewers {d d' p slots} hp h := by
    obtain ⟨hown, hpos, rfl⟩ := setReviewers_eq_ok (seenChange_eq_ok.mp h)
    obtain ⟨row, hrow, hload⟩ := findPullRequest_eq_ok.mp (findPullRequest_of_ok hp)
    have hid : row.id = p.id := by simpa using List.find?_some hrow
    rw [← hid] at hown ⊢
    refine ⟨hpos, pullRequest_of_find (findPullRequest_eq_ok.mpr
      ⟨row, hid ▸ hrow, (load_append (slotRows_deleteSlots row.id) hown).trans ?_⟩)⟩
    obtain ⟨status, hstatus, he⟩ := PullRequestRow.toPullRequest_eq_ok (load_eq_ok.mp hload).2
    rw [he, PullRequestRow.toPullRequest, hstatus]
    rfl
  user_setReviewers d id slots user := by
    have husers : (d.setReviewers id slots).2.users = d.users := by
      unfold setReviewers
      split
      · rfl
      split
      · rfl
      · exact users_insertSlots _
    change orNotFound ((d.setReviewers id slots).2.users.find? (·.id == user)) = _
    rw [husers]
    rfl

end Relational.Database

/-! ## Both stores -/

namespace StoreKind

/-- The constraint that reading back rests on: in a database, each slot belongs to a stored pull
request. In the in-memory store slots are nowhere else. -/
def Owned : (kind : StoreKind) → kind.Data → Prop
  | memory, _ => True
  | relational, d => Relational.Database.Owned d

theorem Sound.owned {kind : StoreKind} {d : kind.Data} (h : kind.Sound d) : kind.Owned d := by
  cases kind with
  | memory => exact trivial
  | relational => exact Relational.Database.Sound.owned h

theorem readsBack : (kind : StoreKind) → Repository.ReadsBack kind.Owned
  | memory => Memory.readsBack
  | relational => Relational.Database.readsBack

end StoreKind

/-- **What an operation returns is what is stored**, on both stores. If a call that creates or
changes a record replies, then the call that looks the record up by its id, right after it, replies
the same: every field of it, and the slots of a pull request in the same order. Of all that the
stores demand of their data, no more than a reference from slots to pull requests is used. -/
theorem reply_readBack (kind : StoreKind) (settings : AssignmentSettings) {π : Type}
    [Collaborators π] {s s' : Session kind.Data π} (hdata : kind.Owned s.data) {call : Call}
    (hcall : call.storesRecord = true) {reply : Reply}
    (he : (call.perform settings).exec s = (.ok reply, s')) :
    ∃ get, reply.readBack? = some get ∧ (get.perform settings).exec s' = (.ok reply, s') :=
  kind.readsBack.perform hdata hcall he

/-- The pull request of the small team after its reviewer has given way to the third member. -/
def smallReassigned : PullRequest :=
  ⟨"p", "Fix", "a", .opened, Sources.still.time, none, [⟨"p", 1, "c", Sources.still.time⟩]⟩

theorem reply_readBack_smallTeam :
    ∃ s', ((Call.reassign "p" "b").perform smallSettings).exec (smallRun .relational) =
        (.ok (.pullRequest smallReassigned), s') ∧
      ((Call.pullRequest "p").perform smallSettings).exec s' =
        (.ok (.pullRequest smallReassigned), s') := by
  have hreply : (((Call.reassign "p" "b").perform smallSettings).exec (smallRun .relational)).1 =
      .ok (.pullRequest smallReassigned) := by
    decide +kernel
  rcases he : ((Call.reassign "p" "b").perform smallSettings).exec (smallRun .relational) with
    ⟨r, s'⟩
  rw [he] at hreply
  obtain rfl : r = .ok (.pullRequest smallReassigned) := hreply
  obtain ⟨get, hget, hread⟩ :=
    reply_readBack .relational smallSettings (sound_smallRun .relational).owned rfl he
  obtain rfl := Option.some.inj hget
  exact ⟨s', rfl, hread⟩

end ReviewRota
