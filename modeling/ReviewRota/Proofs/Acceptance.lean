import ReviewRota.Proofs.Blameless
import ReviewRota.Proofs.Stores

/-!
# Slot lists that a store accepts

The services seen from the store. An audited store notes every slot list that it is handed and what
it answered; otherwise it is the store it was made of. As services are blameless, no list is
refused, whether the slots before it were numbered without gaps or not.

* `Audited σ`: a store of data `σ` with the notes about the lists it was handed.
* `StoreKind.mirrored_audited`: as long as all lists have been accepted, an audited store is
  mirrored by the ledger of its records.
* **`services_within_constraints`**: no service call violates a constraint or fails internally, and
  every slot list handed over by a service is accepted.
-/

namespace ReviewRota

/-! ## Audited stores -/

/-- A slot list handed to a store, with a new pull request or for one that is known, and the
answer of the store. -/
structure Handed where
  pullRequestId : String
  slots : List ReviewerSlot
  isNew : Bool
  answer : Except Fault Unit
  deriving DecidableEq

/-- The slots were stored, or there was no need to look at them: the id of the new pull request
was taken. -/
def Handed.Accepted (h : Handed) : Prop :=
  h.answer = .ok () ∨ h.isNew = true ∧ h.answer = .error .alreadyExists

/-- A store of data `σ`, and the slot lists it was handed, oldest first. -/
structure Audited (σ : Type) where
  store : σ
  handed : List Handed

namespace Audited

variable {σ : Type}

/-- A change of the store with nothing to note. -/
def change (f : σ → Except Fault Unit × σ) (a : Audited σ) : Except Fault Unit × Audited σ :=
  let (answer, store) := f a.store
  (answer, { a with store })

/-- A change of the store by which it is handed slots. -/
def hand (id : String) (slots : List ReviewerSlot) (isNew : Bool)
    (f : σ → Except Fault Unit × σ) (a : Audited σ) : Except Fault Unit × Audited σ :=
  let (answer, store) := f a.store
  (answer, ⟨store, a.handed ++ [⟨id, slots, isNew, answer⟩]⟩)

instance [Repository σ] : Repository (Audited σ) where
  empty := ⟨Repository.empty, []⟩
  createTeam team := change (Repository.createTeam team)
  team id a := Repository.team id a.store
  teams a := Repository.teams a.store
  createUser user := change (Repository.createUser user)
  user id a := Repository.user id a.store
  updateUser user := change (Repository.updateUser user)
  users team active a := Repository.users team active a.store
  usersByIds ids a := Repository.usersByIds ids a.store
  activeMembers team except a := Repository.activeMembers team except a.store
  createPullRequest p := hand p.id p.reviewers true (Repository.createPullRequest p)
  pullRequest lock id a := Repository.pullRequest lock id a.store
  setStatus id status mergedAt := change (Repository.setStatus id status mergedAt)
  setReviewers id slots := hand id slots false (Repository.setReviewers id slots)
  pullRequests status a := Repository.pullRequests status a.store
  assignedTo user status a := Repository.assignedTo user status a.store
  userLoads team a := Repository.userLoads team a.store
  reviewerCounts team a := Repository.reviewerCounts team a.store

/-- A session on the audited store, with nothing noted so far. -/
def session {π : Type} (s : Session σ π) : Session (Audited σ) π :=
  ⟨⟨s.data, []⟩, s.collaborators, s.draws, s.readings⟩

end Audited

/-! ## Audited stores are mirrored -/

namespace Memory

variable {m : Memory}

theorem setReviewers_answers {id : String} (slots : List ReviewerSlot)
    (hknown : (m.findPullRequest id).isSome) :
    (m.setReviewers id slots).1 = .error .constraintViolation ∨
      (m.setReviewers id slots).1 = .ok () := by
  rw [setReviewers_eq slots (isSome_findPullRequest.mp hknown)]
  split
  · exact .inr rfl
  · exact .inl rfl

theorem createPullRequest_answers (p : PullRequest) :
    (m.createPullRequest p).1 = .error .constraintViolation ∨
      (m.createPullRequest p).1 = .ok () ∨ (m.createPullRequest p).1 = .error .alreadyExists := by
  unfold createPullRequest
  split
  · exact .inr (.inr rfl)
  split
  · exact .inl rfl
  split
  · exact .inl rfl
  · exact .inr (.inl rfl)

end Memory

namespace StoreKind

variable {π α : Type} {kind : StoreKind}

/-- Sound data with the records of a ledger, where every slot list has been accepted. -/
def HoldsAccepted (kind : StoreKind) (a : Audited kind.Data) (m : Ledger kind.older) : Prop :=
  kind.Holds a.store m ∧ ∀ h ∈ a.handed, h.Accepted

section

variable {a : Audited kind.Data} {m : Ledger kind.older}
  {f : kind.Data → Except Fault Unit × kind.Data} {y : Except Fault Unit × Ledger kind.older}

theorem HoldsAccepted.change (h : kind.HoldsAccepted a m) (hf : Follows kind.Holds (f a.store) y) :
    Follows kind.HoldsAccepted (Audited.change f a) y :=
  ⟨hf.1, fun hne => ⟨hf.2 hne, h.2⟩⟩

theorem HoldsAccepted.hand (h : kind.HoldsAccepted a m) {id : String} {slots : List ReviewerSlot}
    {isNew : Bool} (hf : Follows kind.Holds (f a.store) y)
    (hy : y.1 ≠ .error .constraintViolation → Handed.Accepted ⟨id, slots, isNew, y.1⟩) :
    Follows kind.HoldsAccepted (Audited.hand id slots isNew f a) y := by
  refine ⟨hf.1, fun hne => ⟨hf.2 hne, fun handed hmem => ?_⟩⟩
  rcases List.mem_append.mp hmem with hold | hnew
  · exact h.2 handed hold
  · rw [List.mem_singleton.mp hnew, show (f a.store).1 = y.1 from hf.1]
    exact hy (hf.1 ▸ hne)

end

/-- **An audited store is mirrored by the ledger of its records.** -/
theorem mirrored_audited (kind : StoreKind) :
    Repository.Mirrored kind.HoldsAccepted kind.HoldsAccepted where
  weaken := le_rfl
  team h id := kind.mirrored.team h.1 id
  teams h := kind.mirrored.teams h.1
  user h id := kind.mirrored.user h.1 id
  users h team active := kind.mirrored.users h.1 team active
  usersByIds h ids := kind.mirrored.usersByIds h.1 ids
  activeMembers h team except := kind.mirrored.activeMembers h.1 team except
  pullRequest h lock id := kind.mirrored.pullRequest h.1 lock id
  pullRequests h status := kind.mirrored.pullRequests h.1 status
  assignedTo h user status := kind.mirrored.assignedTo h.1 user status
  userLoads h team := kind.mirrored.userLoads h.1 team
  reviewerCounts h team := kind.mirrored.reviewerCounts h.1 team
  createTeam h team := h.change (kind.mirrored.createTeam h.1 team)
  createUser h user := h.change (kind.mirrored.createUser h.1 user)
  updateUser h user := h.change (kind.mirrored.updateUser h.1 user)
  createPullRequest h p hslots :=
    h.hand (kind.mirrored.createPullRequest h.1 p hslots) fun hne =>
      ((Memory.createPullRequest_answers p).resolve_left hne).imp id fun he => ⟨rfl, he⟩
  setStatus h id status time := h.change (kind.mirrored.setStatus h.1 id status time)
  setReviewers h id slots hknown :=
    h.hand (kind.mirrored.setReviewers h.1 id slots hknown) fun hne =>
      .inl ((Memory.setReviewers_answers slots hknown).resolve_left hne)

theorem Sound.setReviewers {d : kind.Data} (h : kind.Sound d) {id : String}
    {slots : List ReviewerSlot} (hknown : ((kind.ledger d).findPullRequest id).isSome)
    (hne : (Repository.setReviewers id slots d).1 ≠ .error .constraintViolation) :
    kind.Sound (Repository.setReviewers id slots d).2 :=
  ((kind.mirrored.setReviewers h.holds id slots hknown).2 hne).1

theorem Sound.start {d : kind.Data} (h : kind.Sound d) (p : π) :
    kind.Sound (Session.start d p).data :=
  h

/-! ## Services -/

/-- Work during which the store accepts all slot lists that it is handed. The audit changes neither
the outcome nor the records. -/
structure AcceptsAll (kind : StoreKind) (w : (σ : Type) → [Repository σ] → Work σ π α)
    (s : Session kind.Data π) : Prop where
  outcome : ((w (Audited kind.Data)).exec (Audited.session s)).1 = ((w kind.Data).exec s).1
  records : kind.ledger ((w (Audited kind.Data)).exec (Audited.session s)).2.data.store =
    kind.ledger ((w kind.Data).exec s).2.data
  accepted : ∀ h ∈ ((w (Audited kind.Data)).exec (Audited.session s)).2.data.handed, h.Accepted

theorem acceptsAll_of_blameless {w : (σ : Type) → [Repository σ] → Work σ π α}
    {s : Session kind.Data π} (hsound : kind.Sound s.data)
    (hplain : Work.Mirrors Torn kind.Holds kind.Holds (w kind.Data) (w (Ledger kind.older)))
    (haudited : Work.Mirrors Torn kind.HoldsAccepted kind.HoldsAccepted (w (Audited kind.Data))
      (w (Ledger kind.older)))
    (hw : (w (Ledger kind.older)).Blameless (onLedger s)) : kind.AcceptsAll w s := by
  have hagree : (Audited.session s).Agree kind.HoldsAccepted (onLedger s) :=
    ⟨⟨hsound.holds, fun _ h => (List.not_mem_nil h).elim⟩, rfl, rfl, rfl⟩
  obtain ⟨hr, hs⟩ := hplain hsound.agree
  obtain ⟨hr', hs'⟩ := haudited hagree
  have hd := hs.data fun fault hf => (hw fault (hr ▸ hf)).1
  have hd' := hs'.data fun fault hf => (hw fault (hr' ▸ hf)).1
  exact ⟨hr'.trans hr.symm, hd'.1.2.symm.trans hd.2, hd'.2⟩

end StoreKind

/-- **The services never trip over the constraints of a store.** On sound data no service call has a
constraint violation or an internal fault for its outcome, and the slot lists of a creation, of a
reassignment, of a cascade and of the two kinds of deactivation are all accepted. -/
theorem services_within_constraints (kind : StoreKind) {π : Type} [Collaborators π]
    [Collaborators.Lawful π] (settings : AssignmentSettings)
    (hmax : settings.maxReviewers < 4294967296) (s : Session kind.Data π)
    (hsound : kind.Sound s.data) :
    (∀ (call : Call) fault, ((call.perform settings).exec s).1 = .error fault →
      fault ≠ .constraintViolation ∧ fault.isInternal = false) ∧
    (∀ id title author,
      kind.AcceptsAll (fun _ => Service.createPullRequestIn settings id title author) s) ∧
    (∀ id reviewer, kind.AcceptsAll (fun _ => Service.reassignIn id reviewer) s) ∧
    (∀ team user, kind.AcceptsAll (fun _ => Service.reassignOpenReviews team user) s) ∧
    (∀ id update, kind.AcceptsAll (fun _ => Service.updateUserIn id update) s) ∧
    ∀ team ids, kind.AcceptsAll (fun _ => Service.deactivateIn team ids) s := by
  have hint : Memory.Integrity (StoreKind.onLedger s).data := hsound.integrity
  have hm := kind.mirrored
  have ha := kind.mirrored_audited
  refine ⟨fun call fault hf => ?_, fun id title author => ?_, fun id reviewer => ?_,
    fun team user => ?_, fun id update => ?_, fun team ids => ?_⟩
  · exact Ledger.blameless_perform hmax hint call fault
      ((hm.perform settings call hsound.agree).1 ▸ hf)
  · exact StoreKind.acceptsAll_of_blameless hsound (hm.createPullRequestIn settings id title author)
      (ha.createPullRequestIn settings id title author)
      (Ledger.blameless_createPullRequestIn hmax hint id title author)
  · exact StoreKind.acceptsAll_of_blameless hsound (hm.reassignIn id reviewer)
      (ha.reassignIn id reviewer) (Ledger.blameless_reassignIn hint id reviewer)
  · exact StoreKind.acceptsAll_of_blameless hsound (hm.reassignOpenReviews team user)
      (ha.reassignOpenReviews team user) (Ledger.blameless_reassignOpenReviews hint team user)
  · exact StoreKind.acceptsAll_of_blameless hsound (hm.updateUserIn id update)
      (ha.updateUserIn id update) (Ledger.blameless_updateUserIn hint id update)
  · exact StoreKind.acceptsAll_of_blameless hsound (hm.deactivateIn team ids)
      (ha.deactivateIn team ids) (Ledger.blameless_deactivateIn hint team ids)

/-- The data of the small team, except that its one slot has the number 5. -/
def sparseData : StoreKind.Data .relational :=
  (Repository.setReviewers "p" [⟨"p", 5, "b", Sources.still.time⟩] (smallRun .relational).data).2

theorem sound_sparseData : StoreKind.Sound .relational sparseData := by
  have hknown : ((StoreKind.ledger .relational (smallRun .relational).data).findPullRequest
      "p").isSome := by
    decide +kernel
  have hne : (Repository.setReviewers "p" [⟨"p", 5, "b", Sources.still.time⟩]
      (smallRun .relational).data).1 ≠ .error .constraintViolation := by
    decide +kernel
  have hsound := (sound_smallRun .relational).setReviewers hknown hne
  exact hsound

/-- A session on that data, in which nothing has been asked yet. -/
def sparseSession : Session (StoreKind.Data .relational) Sources :=
  .start sparseData .still

/-- The reviewer in slot 5 leaves: the list handed over has the next member in slot 1. -/
theorem services_within_constraints_sparse :
    smallSettings.maxReviewers < 4294967296 ∧ StoreKind.Sound .relational sparseSession.data ∧
      ((Service.updateUserIn "b" ⟨none, some false⟩).exec
          (Audited.session sparseSession)).2.data.handed =
        [⟨"p", [⟨"p", 1, "c", Sources.still.time⟩], false, .ok ()⟩] ∧
      StoreKind.AcceptsAll .relational (fun _ => Service.updateUserIn "b" ⟨none, some false⟩)
        sparseSession := by
  have hmax : smallSettings.maxReviewers < 4294967296 := by decide
  have hsound : StoreKind.Sound .relational sparseSession.data := sound_sparseData.start _
  obtain ⟨-, -, -, -, hupdate, -⟩ :=
    services_within_constraints .relational smallSettings hmax sparseSession hsound
  exact ⟨hmax, hsound, by decide +kernel, hupdate "b" ⟨none, some false⟩⟩

end ReviewRota
