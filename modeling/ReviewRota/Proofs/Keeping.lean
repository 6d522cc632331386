import ReviewRota.Proofs.Execution

/-!
# Relations that every operation keeps

A relation between the data before and after is kept by all service calls as soon as it is
reflexive, transitive and kept by the transactions of the services. For some relations the changes
that a repository offers all keep them, accepted or refused, and so any transaction does.

* `Work.Keeps P w`: whatever its outcome, `w` takes data to data in the relation `P`.
* `Service.Keeps P`: the conditions on the transactions of the services;
  **`Service.Keeps.performAll`**: runs of service calls keep `P`.
* `Accumulates.reassignOpenReviews`: hand-overs keep what changes of slot lists keep.
* `Repository.Keeps P`: the conditions on the changes of a repository;
  **`Repository.Keeps.performAll`** as before.
-/

namespace ReviewRota

variable {σ π α β : Type}

/-- Work that takes data to data in the relation `P`, whatever its outcome. -/
def Work.Keeps (P : σ → σ → Prop) (w : Work σ π α) : Prop :=
  ∀ s, P s.data (w.exec s).2.data

/-- A relation between earlier and later data. -/
structure Accumulates (P : σ → σ → Prop) : Prop where
  refl : ∀ d, P d d
  trans : ∀ {d e f}, P d e → P e f → P d f

theorem Accumulates.of_invariant (I : σ → Prop) : Accumulates fun d e => I d → I e :=
  ⟨fun _ => id, fun h h' => h' ∘ h⟩

theorem Accumulates.eq : Accumulates fun d e : σ => e = d :=
  ⟨fun _ => rfl, fun h h' => h'.trans h⟩

namespace Work.Keeps

variable {P : σ → σ → Prop}

theorem map {w : Work σ π α} (hw : w.Keeps P) (f : α → β) : (f <$> w).Keeps P := by
  intro s
  rw [Work.exec_map]
  exact hw s

theorem write {f : σ → Except Fault α × σ} (hf : ∀ d, P d (f d).2) :
    (Work.write f : Work σ π α).Keeps P :=
  fun s => hf s.data

end Work.Keeps

namespace Accumulates

variable {P : σ → σ → Prop} (h : Accumulates P)
include h

/-! ## Composition -/

theorem pure (a : α) : (Pure.pure a : Work σ π α).Keeps P :=
  fun s => h.refl s.data

theorem bind {w : Work σ π α} {f : α → Work σ π β} (hw : w.Keeps P) (hf : ∀ a, (f a).Keeps P) :
    (w >>= f).Keeps P := by
  intro s
  have h₁ := hw s
  rw [Work.exec_bind]
  split
  · rename_i a after he
    rw [he] at h₁
    exact h.trans h₁ (hf a after)
  · rename_i fault after he
    rw [he] at h₁
    exact h₁

theorem transact {w : Work σ π α} (hw : w.Keeps P) : (ReviewRota.transact w).Keeps P := by
  intro s
  have h₁ := hw s
  rw [exec_transact]
  split
  · rename_i a after he
    rw [he] at h₁
    exact h₁
  · exact h.refl s.data

/-- A transaction undoes what failed work has done, so that only success counts. -/
theorem transact_of_ok {w : Work σ π α}
    (hw : ∀ s a s', w.exec s = (.ok a, s') → P s.data s'.data) :
    (ReviewRota.transact w).Keeps P := by
  intro s
  rw [exec_transact]
  split
  · rename_i a after he
    exact hw s a after he
  · exact h.refl s.data

theorem read (f : σ → Except Fault α) : (Work.read f : Work σ π α).Keeps P :=
  fun s => h.refl s.data

theorem require (condition : Bool) (fault : Fault) :
    (Service.require condition fault : Work σ π Unit).Keeps P := by
  intro s
  rw [Service.exec_require]
  exact h.refl s.data

variable [Collaborators π]

theorem now : (Work.now : Work σ π Instant).Keeps P :=
  fun s => h.refl s.data

theorem draw (n : Nat) : (Work.draw n : Work σ π Nat).Keeps P :=
  fun s => h.refl s.data

theorem resolveId (mode : IdMode) (supplied : Option String) :
    (ReviewRota.resolveId mode supplied : Work σ π String).Keeps P := by
  intro s
  unfold ReviewRota.resolveId
  split
  · exact h.refl s.data
  · exact h.refl s.data
  · exact h.refl s.data
  · split <;> exact h.refl s.data

theorem drawAll (bounds : List Nat) : (Selection.drawAll bounds : Work σ π (List Nat)).Keeps P := by
  induction bounds with
  | nil => exact h.pure []
  | cons n ns ih =>
    exact h.bind (h.draw n) fun d => h.bind ih fun ds => h.pure (d :: ds)

theorem initial (candidates : List α) (max : Nat) :
    (Selection.initial candidates max : Work σ π (List α)).Keeps P := by
  unfold Selection.initial
  split
  · exact h.pure _
  split
  · exact h.pure _
  · exact h.bind (h.drawAll _) fun ds => h.pure _

theorem replacement (candidates : List α) :
    (Selection.replacement candidates : Work σ π α).Keeps P := by
  rw [Selection.replacement_eq]
  split
  · exact fun s => h.refl s.data
  · refine h.bind (h.draw _) fun d => ?_
    split
    · exact h.pure _
    · exact fun s => h.refl s.data

end Accumulates

/-! ## Services -/

section

variable [Repository σ] [Collaborators π]

variable (π) in
/-- A relation that the transactions of the services keep. -/
structure Service.Keeps (P : σ → σ → Prop) : Prop extends Accumulates P where
  createTeam : ∀ team : Team,
    (transact (Work.write (Repository.createTeam team)) : Work σ π Unit).Keeps P
  createUser : ∀ user : User,
    (transact do
      let _ ← Work.read (Repository.team user.teamId)
      Work.write (Repository.createUser user) : Work σ π Unit).Keeps P
  updateUser : ∀ id update, (transact (Service.updateUserIn id update) : Work σ π User).Keeps P
  deactivate : ∀ team ids,
    (transact (Service.deactivateIn team (Service.distinct ids)) :
      Work σ π Deactivation).Keeps P
  createPullRequest : ∀ settings id title author,
    (transact (Service.createPullRequestIn settings id title author) :
      Work σ π PullRequest).Keeps P
  reassign : ∀ id reviewer,
    (transact (Service.reassignIn id reviewer) : Work σ π PullRequest).Keeps P
  merge : ∀ id, (transact (Service.mergeIn id) : Work σ π PullRequest).Keeps P

namespace Service.Keeps

variable {P : σ → σ → Prop} (h : Service.Keeps π P)
include h

/-- **A service call keeps what the transactions of the services keep.** -/
theorem perform (settings : AssignmentSettings) (call : Call) :
    (call.perform settings : Work σ π Reply).Keeps P := by
  cases call with
  | createTeam name id =>
    exact .map (h.bind (h.require _ _) fun _ => h.bind (h.resolveId _ _) fun _ => h.bind h.now
      fun _ => h.bind (h.createTeam _) fun _ => h.pure _) _
  | createUser team name isActive id =>
    exact .map (h.bind (h.require _ _) fun _ => h.bind (h.resolveId _ _) fun id => h.bind h.now
      fun time => h.bind (h.createUser ⟨id, name, team, isActive, time⟩) fun _ => h.pure _) _
  | updateUser id update =>
    exact .map (h.bind (h.require _ _) fun _ => h.bind (h.require _ _) fun _ =>
      h.updateUser id update) _
  | deactivate team ids =>
    exact .map (h.bind (h.require _ _) fun _ => h.deactivate team ids) _
  | createPullRequest title author id =>
    exact .map (h.bind (h.require _ _) fun _ => h.bind (h.resolveId _ _) fun id =>
      h.createPullRequest settings id title author) _
  | reassign id reviewer => exact .map (h.reassign id reviewer) _
  | merge id => exact .map (h.merge id) _
  | assigned user status =>
    exact .map (h.transact (h.bind (h.read _) fun _ => h.read _)) _
  | _ => exact .map (h.transact (h.read _)) _

/-- **Runs of service calls keep what the transactions of the services keep.** -/
theorem performAll (settings : AssignmentSettings) (calls : List Call) (s : Session σ π) :
    P s.data (ReviewRota.performAll settings calls s).2.data := by
  induction calls generalizing s with
  | nil => exact h.refl s.data
  | cons call calls ih => exact h.trans (h.perform settings call s) (ih _)

end Service.Keeps

end

/-! ## Hand-overs -/

namespace Accumulates

variable [Repository σ] [Collaborators π] {P : σ → σ → Prop} (h : Accumulates P)
  (hset : ∀ id slots d, P d (Repository.setReviewers id slots d).2)
include h hset

theorem handOver (pool : List User) (user : User) (p : PullRequest) :
    (Service.handOver pool user p : Work σ π Unit).Keeps P :=
  h.bind (h.replacement _) fun _ => h.bind h.now fun _ => .write (hset _ _)

theorem handOverAll (pool : List User) (user : User) (ps : List PullRequest) :
    (Service.handOverAll pool user ps : Work σ π Nat).Keeps P := by
  induction ps with
  | nil => exact h.pure 0
  | cons p rest ih =>
    exact h.bind (h.handOver hset pool user p) fun _ => h.bind ih fun count => h.pure (count + 1)

theorem reassignOpenReviews (team : String) (user : User) :
    (Service.reassignOpenReviews team user : Work σ π Nat).Keeps P := by
  refine h.bind (h.read _) fun reviewed => ?_
  split
  · exact h.pure 0
  · exact h.bind (h.read _) fun pool => h.handOverAll hset pool user reviewed

end Accumulates

/-! ## Changes of a repository -/

/-- A relation that the changes of a repository keep. -/
structure Repository.Keeps [Repository σ] (P : σ → σ → Prop) : Prop extends Accumulates P where
  createTeam : ∀ team d, P d (Repository.createTeam team d).2
  createUser : ∀ user d, P d (Repository.createUser user d).2
  updateUser : ∀ user d, P d (Repository.updateUser user d).2
  createPullRequest : ∀ p d, P d (Repository.createPullRequest p d).2
  setStatus : ∀ id status time d, P d (Repository.setStatus id status time d).2
  setReviewers : ∀ id slots d, P d (Repository.setReviewers id slots d).2

namespace Repository.Keeps

variable [Repository σ] {P : σ → σ → Prop} (h : Repository.Keeps P)
include h

section

variable [Collaborators π]

theorem reassignOpenReviews (team : String) (user : User) :
    (Service.reassignOpenReviews team user : Work σ π Nat).Keeps P :=
  h.toAccumulates.reassignOpenReviews h.setReviewers team user

omit [Collaborators π] in
theorem markInactive (users : List User) :
    (Service.markInactive users : Work σ π Unit).Keeps P := by
  induction users with
  | nil => exact h.pure ()
  | cons user rest ih => exact h.bind (.write (h.updateUser _)) fun _ => ih

theorem reassignAll (team : String) (users : List User) :
    (Service.reassignAll team users : Work σ π Nat).Keeps P := by
  induction users with
  | nil => exact h.pure 0
  | cons user rest ih =>
    exact h.bind (h.reassignOpenReviews team _) fun count => h.bind ih fun others => h.pure _

theorem deactivateIn (team : String) (ids : List String) :
    (Service.deactivateIn team ids : Work σ π Deactivation).Keeps P :=
  h.bind (h.read _) fun _ => h.bind (h.read _) fun _ => h.bind (h.require _ _) fun _ =>
    h.bind (h.require _ _) fun _ => h.bind (h.markInactive _) fun _ =>
      h.bind (h.reassignAll team _) fun _ => h.pure _

theorem updateUserIn (id : String) (update : UserUpdate) :
    (Service.updateUserIn id update : Work σ π User).Keeps P := by
  refine h.bind (h.read _) fun user => ?_
  have hlast : (do
      Work.write (Repository.updateUser (update.apply user))
      Pure.pure (update.apply user) : Work σ π User).Keeps P :=
    h.bind (.write (h.updateUser _)) fun _ => h.pure _
  dsimp only
  split
  · exact h.bind (h.reassignOpenReviews _ _) fun _ => hlast
  · exact hlast

theorem createPullRequestIn (settings : AssignmentSettings) (id title author : String) :
    (Service.createPullRequestIn settings id title author : Work σ π PullRequest).Keeps P :=
  h.bind (h.read _) fun _ => h.bind (h.read _) fun _ => h.bind (h.initial _ _) fun _ =>
    h.bind h.now fun _ => h.bind (.write (h.createPullRequest _)) fun _ => h.pure _

theorem reassignIn (id reviewer : String) :
    (Service.reassignIn id reviewer : Work σ π PullRequest).Keeps P :=
  h.bind (h.read _) fun _ => h.bind (h.require _ _) fun _ => h.bind (h.read _) fun _ =>
    h.bind (h.read _) fun _ => h.bind (h.replacement _) fun _ => h.bind h.now fun _ =>
      h.bind (h.require _ _) fun _ => h.bind (.write (h.setReviewers _ _)) fun _ => h.pure _

theorem mergeIn (id : String) : (Service.mergeIn id : Work σ π PullRequest).Keeps P := by
  refine h.bind (h.read _) fun p => ?_
  split
  · exact h.pure p
  · exact h.bind h.now fun _ => h.bind (.write (h.setStatus _ _ _)) fun _ => h.pure _

end

variable (π) in
theorem service [Collaborators π] : Service.Keeps π P where
  toAccumulates := h.toAccumulates
  createTeam team := h.transact (.write (h.createTeam team))
  createUser user := h.transact (h.bind (h.read _) fun _ => .write (h.createUser user))
  updateUser id update := h.transact (h.updateUserIn id update)
  deactivate team _ := h.transact (h.deactivateIn team _)
  createPullRequest settings id title author :=
    h.transact (h.createPullRequestIn settings id title author)
  reassign id reviewer := h.transact (h.reassignIn id reviewer)
  merge id := h.transact (h.mergeIn id)

/-- **Runs of service calls keep what the changes of the repository keep.** -/
theorem performAll [Collaborators π] (settings : AssignmentSettings) (calls : List Call)
    (s : Session σ π) : P s.data (ReviewRota.performAll settings calls s).2.data :=
  (h.service π).performAll settings calls s

end Repository.Keeps

end ReviewRota
