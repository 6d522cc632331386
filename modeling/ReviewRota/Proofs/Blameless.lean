import ReviewRota.Proofs.Outcomes
import ReviewRota.Proofs.Staffing

/-!
# Faults are faults of the request

The services ask a store for nothing that its constraints forbid. Slot lists fit whenever they are
handed over: reviewers are chosen among known users, each once, and whoever takes over a review is a
known user who does not review yet.

* `Fault.OfRequest`: neither a constraint of the store nor a failure of the surroundings.
* `Work.Blameless w s`: if `w` fails in the session `s`, it is for the request, with one rule for
  each way of composing.
* **`Ledger.blameless_perform`**: every service call is blameless on records with integrity, sparse
  slot numbers included.
-/

namespace ReviewRota

variable {σ π α β : Type}

/-- A fault that a caller can do something about: no constraint of the store, and no failure of the
surroundings. -/
def Fault.OfRequest (fault : Fault) : Prop :=
  fault ≠ .constraintViolation ∧ fault.isInternal = false

instance : DecidablePred Fault.OfRequest :=
  fun fault => inferInstanceAs (Decidable (fault ≠ .constraintViolation ∧ fault.isInternal = false))

/-- Work that can fail for the request only. -/
def Work.Blameless (w : Work σ π α) (s : Session σ π) : Prop :=
  ∀ fault, (w.exec s).1 = .error fault → fault.OfRequest

namespace Work.Blameless

variable {s : Session σ π}

/-! ## Composition -/

theorem of_ok {w : Work σ π α} {a : α} (h : (w.exec s).1 = .ok a) : w.Blameless s := by
  intro fault hf
  rw [h] at hf
  cases hf

theorem of_error {w : Work σ π α} {fault : Fault} (h : (w.exec s).1 = .error fault)
    (hf : fault.OfRequest) : w.Blameless s := by
  intro fault' hf'
  rw [h, Except.error.injEq] at hf'
  exact hf' ▸ hf

theorem pure (a : α) : (Pure.pure a : Work σ π α).Blameless s :=
  of_ok rfl

theorem fail {fault : Fault} (hf : fault.OfRequest) : (Work.fail fault : Work σ π α).Blameless s :=
  of_error rfl hf

theorem bind {w : Work σ π α} {f : α → Work σ π β} (hw : w.Blameless s)
    (hf : ∀ a s', w.exec s = (.ok a, s') → (f a).Blameless s') : (w >>= f).Blameless s := by
  intro fault h
  rw [exec_bind] at h
  split at h
  · exact hf _ _ ‹_› fault h
  · rename_i fault' after he
    cases h
    exact hw fault (congrArg Prod.fst he)

theorem map {w : Work σ π α} (hw : w.Blameless s) (f : α → β) : (f <$> w).Blameless s := by
  rw [map_eq_pure_bind]
  exact hw.bind fun a _ _ => pure (f a)

theorem read {f : σ → Except Fault α}
    (h : ∀ fault, f s.data = .error fault → fault.OfRequest) :
    (Work.read f : Work σ π α).Blameless s :=
  h

theorem read_then {f : σ → Except Fault α} {k : α → Work σ π β}
    (h : ∀ fault, f s.data = .error fault → fault.OfRequest)
    (hk : ∀ a, f s.data = .ok a → (k a).Blameless s) : (Work.read f >>= k).Blameless s := by
  refine (read h).bind fun a s' he => ?_
  rw [exec_read, Prod.mk.injEq] at he
  obtain ⟨hok, rfl⟩ := he
  exact hk a hok

theorem write {f : σ → Except Fault α × σ}
    (h : ∀ fault, (f s.data).1 = .error fault → fault.OfRequest) :
    (Work.write f : Work σ π α).Blameless s :=
  h

theorem transact {w : Work σ π α} (hw : w.Blameless s) :
    (ReviewRota.transact w).Blameless s := by
  intro fault h
  rw [exec_transact] at h
  split at h
  · cases h
  · rename_i fault' after he
    exact hw fault ((congrArg Prod.fst he).trans h)

theorem require {condition : Bool} {fault : Fault} {k : Unit → Work σ π β} (hf : fault.OfRequest)
    (hk : condition = true → (k ()).Blameless s) :
    (Service.require condition fault >>= k).Blameless s := by
  cases condition with
  | true => exact hk rfl
  | false => exact (fail (α := Unit) hf).bind fun _ _ he => by cases he

/-! ## Collaborators -/

variable [Collaborators π]

theorem resolveId (mode : IdMode) (supplied : Option String) :
    (ReviewRota.resolveId mode supplied : Work σ π String).Blameless s := by
  unfold ReviewRota.resolveId
  split
  · exact of_ok rfl
  · exact fail ⟨by decide, rfl⟩
  · exact fail ⟨by decide, rfl⟩
  · split
    · exact fail ⟨by decide, rfl⟩
    · exact pure _

theorem replacement (candidates : List α) :
    (Selection.replacement candidates : Work σ π α).Blameless s := by
  rcases Selection.replacement_cases candidates s with ⟨_, _, _, he, -⟩ | ⟨_, he, -⟩
  · exact of_ok (congrArg Prod.fst he)
  · exact of_error (congrArg Prod.fst he) (by decide)

end Work.Blameless

/-! ## Changes of records -/

namespace Memory

variable {m : Memory} {fault : Fault}

theorem ofRequest_createTeam {team : Team} (h : (m.createTeam team).1 = .error fault) :
    fault.OfRequest := by
  rcases m.createTeam_cases team with he | ⟨-, he⟩ <;> rw [he] at h <;> cases h
  decide

theorem ofRequest_createUser {user : User} (hteam : ∃ team ∈ m.teams, team.id = user.teamId)
    (h : (m.createUser user).1 = .error fault) : fault.OfRequest := by
  unfold createUser at h
  rw [if_neg (not_isNone_findTeam.mpr hteam)] at h
  split at h <;> cases h
  decide

theorem ofRequest_updateUser {user : User} (h : (m.updateUser user).1 = .error fault) :
    fault.OfRequest := by
  rcases m.updateUser_cases user with he | ⟨-, he⟩ <;> rw [he] at h <;> cases h
  decide

theorem ofRequest_changePullRequest {id : String} {f : PullRequest → PullRequest}
    (h : (m.changePullRequest id f).1 = .error fault) : fault.OfRequest := by
  rcases m.changePullRequest_cases id f with he | ⟨-, he⟩ <;> rw [he] at h <;> cases h
  decide

end Memory

theorem ofRequest_orNotFound {o : Option α} {fault : Fault} (h : orNotFound o = .error fault) :
    fault.OfRequest := by
  cases o <;> cases h
  decide

namespace Ledger

variable [Collaborators π] {older : Instant → Instant → Bool} {s : Session (Ledger older) π}

/-! ## Bodies of transactions -/

/-- **A cascade is blameless**: whoever takes over is known and does not review yet. -/
theorem blameless_reassignOpenReviews (hint : Memory.Integrity s.data) (team : String)
    (user : User) : (Service.reassignOpenReviews team user).Blameless s := by
  rcases reassignOpenReviews_cases user hint rfl with ⟨f, s', he, -⟩ | ⟨he, -⟩
  · exact .of_ok (congrArg Prod.fst he)
  · exact .of_error he (by decide)

theorem blameless_reassignAll (hint : Memory.Integrity s.data) (team : String)
    (users : List User) : (Service.reassignAll team users).Blameless s := by
  induction users generalizing s with
  | nil => exact .pure 0
  | cons user rest ih =>
    refine (blameless_reassignOpenReviews hint team _).bind fun count s' he => ?_
    have hint' := (keeps_integrity older).reassignOpenReviews team
      { user with isActive := false } s hint
    rw [he] at hint'
    exact (ih hint').bind fun _ _ _ => .pure _

omit [Collaborators π] in
theorem blameless_markInactive (users : List User) :
    (Service.markInactive users).Blameless s := by
  induction users generalizing s with
  | nil => exact .pure ()
  | cons user rest ih =>
    exact (Work.Blameless.write fun _ => Memory.ofRequest_updateUser).bind fun _ _ _ => ih

theorem blameless_deactivateIn (hint : Memory.Integrity s.data) (team : String)
    (ids : List String) : (Service.deactivateIn team ids).Blameless s := by
  refine .read_then (fun _ => ofRequest_orNotFound) fun _ _ => ?_
  refine .read_then (fun _ h => by cases h) fun loaded _ => ?_
  refine .require (by decide) fun _ => .require (by decide) fun _ => ?_
  refine (blameless_markInactive _).bind fun _ s' he => ?_
  have hint' := (keeps_integrity older).markInactive
    ((ids.filterMap fun id => loaded.find? (·.id == id)).filter (·.isActive)) s hint
  rw [he] at hint'
  exact (blameless_reassignAll hint' team _).bind fun _ _ _ => .pure _

theorem blameless_updateUserIn (hint : Memory.Integrity s.data) (id : String)
    (update : UserUpdate) : (Service.updateUserIn id update).Blameless s := by
  refine .read_then (fun _ => ofRequest_orNotFound) fun user _ => ?_
  have hlast : ∀ t : Session (Ledger older) π,
      (do
        Work.write (Repository.updateUser (update.apply user))
        pure (update.apply user) : Work (Ledger older) π User).Blameless t := fun t =>
    (Work.Blameless.write fun _ => Memory.ofRequest_updateUser).bind fun _ _ _ => .pure _
  dsimp only
  split
  · exact (blameless_reassignOpenReviews hint _ _).bind fun _ _ _ => hlast _
  · exact hlast s

/-- **A reassignment is blameless**: the one who leaves is known to review before the slots are
handed over. -/
theorem blameless_reassignIn (hint : Memory.Integrity s.data) (id reviewerId : String) :
    (Service.reassignIn id reviewerId).Blameless s := by
  refine .read_then (fun _ => ofRequest_orNotFound) fun p hp => ?_
  refine .require (by decide) fun _ => ?_
  refine .read_then (fun _ => ofRequest_orNotFound) fun reviewer _ => ?_
  refine .read_then (fun _ h => by cases h) fun pool hpool => ?_
  refine (Work.Blameless.replacement pool).bind fun chosen s₁ he => ?_
  obtain ⟨hchosen, hdata⟩ := Selection.replacement_ok he
  refine (Work.Blameless.of_ok rfl).bind fun time s₂ hnow => ?_
  cases hnow
  refine .require (by decide) fun hrev => ?_
  obtain ⟨hp, -⟩ := mem_of_pullRequest hp
  obtain ⟨hknown, -, -, hout⟩ := (mem_activeMembers hpool).mp hchosen
  have hfits : Memory.Fits s.data p.id (p.handedOver reviewer.id chosen.id
      (Collaborators.now s₁.collaborators).1).reviewers :=
    (hint.slots p hp).handedOver _
      (fun h => hout (PullRequest.mem_exclusions.mpr (.inr (.inr h)))) ⟨chosen, hknown, rfl⟩
  rw [← hdata] at hp hfits
  have hset := exec_setReviewers (π := π)
    (s := ((Work.now : Work (Ledger older) π Instant).exec s₁).2) ⟨p, hp, rfl⟩ hfits
  exact (Work.Blameless.of_ok (congrArg Prod.fst hset)).bind fun _ _ _ => .pure _

/-- **A creation is blameless** as long as there are numbers for all of its reviewers. -/
theorem blameless_createPullRequestIn [Collaborators.Lawful π] {settings : AssignmentSettings}
    (hmax : settings.maxReviewers < 4294967296) (hint : Memory.Integrity s.data)
    (id title authorId : String) :
    (Service.createPullRequestIn settings id title authorId).Blameless s := by
  cases hread : Repository.user authorId s.data with
  | error fault =>
    refine .of_error ?_ (ofRequest_orNotFound hread)
    exact Work.fst_exec_bind_of_error (by rw [Work.exec_read, hread]) _
  | ok author =>
    obtain ⟨hauthor, rfl⟩ := mem_of_user hread
    rcases createPullRequestIn_cases hmax hint hauthor rfl id title with
      ⟨-, he⟩ | ⟨-, p, s', he, -⟩
    · exact .of_error he (by decide)
    · exact .of_ok (congrArg Prod.fst he)

theorem blameless_mergeIn (id : String) : (Service.mergeIn id).Blameless s := by
  refine .read_then (fun _ => ofRequest_orNotFound) fun p _ => ?_
  split
  · exact .pure p
  · refine (Work.Blameless.of_ok rfl).bind fun time s' _ => ?_
    exact (Work.Blameless.write fun _ => Memory.ofRequest_changePullRequest).bind
      fun _ _ _ => .pure _

/-! ## Calls -/

/-- **Every service call is blameless** on records with integrity. -/
theorem blameless_perform [Collaborators.Lawful π] {settings : AssignmentSettings}
    (hmax : settings.maxReviewers < 4294967296) (hint : Memory.Integrity s.data) (call : Call) :
    (call.perform settings).Blameless s := by
  have hread : ∀ {α : Type} {f : Ledger older → Except Fault α} (c : α → Reply),
      (∀ fault, f s.data = .error fault → fault.OfRequest) →
        (c <$> transact (Work.read f) : Work (Ledger older) π Reply).Blameless s :=
    fun c h => (Work.Blameless.read h).transact.map c
  have hnew : ∀ {α : Type} (id : Option String) (k : String → Instant → Work (Ledger older) π α),
      (∀ id time s', (k id time).Blameless s') →
        (do
          let id ← resolveId settings.idMode id
          let time ← Work.now
          k id time : Work (Ledger older) π α).Blameless s :=
    fun id k hk => (Work.Blameless.resolveId _ _).bind fun id _ _ =>
      (Work.Blameless.of_ok rfl).bind fun time s' _ => hk id time s'
  cases call with
  | createTeam name id =>
    refine .map (.require (by decide) fun _ => hnew id _ fun id time s' => ?_) _
    exact (Work.Blameless.write fun _ => Memory.ofRequest_createTeam).transact.bind
      fun _ _ _ => .pure _
  | createUser team name isActive id =>
    refine .map (.require (by decide) fun _ => hnew id _ fun id time s' => ?_) _
    refine Work.Blameless.bind (.transact ?_) fun _ _ _ => .pure _
    refine .read_then (fun _ => ofRequest_orNotFound) fun t ht => ?_
    exact Work.Blameless.write fun _ => Memory.ofRequest_createUser (isOk_team.mp ⟨t, ht⟩)
  | updateUser id update =>
    exact .map (.require (by decide) fun _ => .require (by decide) fun _ =>
      (blameless_updateUserIn hint id update).transact) _
  | deactivate team ids =>
    exact .map (.require (by decide) fun _ => (blameless_deactivateIn hint team _).transact) _
  | createPullRequest title author id =>
    refine .map (.require (by decide) fun _ => ?_) _
    refine (Work.Blameless.resolveId _ _).bind fun id s' he => ?_
    have hint' : Memory.Integrity s'.data := (resolveId_eq_ok he).1 ▸ hint
    exact (blameless_createPullRequestIn hmax hint' id title author).transact
  | reassign id reviewer => exact (blameless_reassignIn hint id reviewer).transact.map _
  | merge id => exact (blameless_mergeIn id).transact.map _
  | assigned user status =>
    have hbody : (do
        let _ ← Work.read (Repository.user user)
        Work.read (Repository.assignedTo user status) :
          Work (Ledger older) π (List PullRequest)).Blameless s :=
      .read_then (fun _ => ofRequest_orNotFound) fun _ _ => .read fun _ h => by cases h
    exact hbody.transact.map _
  | team id => exact hread _ fun _ => ofRequest_orNotFound
  | user id => exact hread _ fun _ => ofRequest_orNotFound
  | pullRequest id => exact hread _ fun _ => ofRequest_orNotFound
  | teams => exact hread _ fun _ h => by cases h
  | users team active => exact hread _ fun _ h => by cases h
  | pullRequests status => exact hread _ fun _ h => by cases h
  | userLoads team => exact hread _ fun _ h => by cases h
  | reviewerCounts team => exact hread _ fun _ h => by cases h

end Ledger

end ReviewRota
