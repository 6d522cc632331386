import ReviewRota.Proofs.Keeping

/-!
# Failed calls change nothing

* `Work.Atomic w`: if `w` fails, the data stays as it was.
* **`Call.atomic`**: service calls are atomic on every repository, since all that they change they
  change in a transaction, after which nothing fails any more.
-/

namespace ReviewRota

variable {σ π α β : Type}

/-- Work that leaves the data alone if it fails. -/
def Work.Atomic (w : Work σ π α) : Prop :=
  ∀ s fault, (w.exec s).1 = .error fault → (w.exec s).2.data = s.data

namespace Work.Atomic

theorem transact (w : Work σ π α) : (ReviewRota.transact w).Atomic := by
  intro s fault h
  rw [exec_transact] at h ⊢
  split at h
  · cases h
  · rfl

theorem map {w : Work σ π α} (hw : w.Atomic) (f : α → β) : (f <$> w).Atomic := by
  intro s fault h
  rw [exec_map] at h ⊢
  rcases he : w.exec s with ⟨r, after⟩
  rw [he] at h
  cases r with
  | ok a => cases h
  | error e => exact (congrArg (fun r => r.2.data) he).symm.trans (hw s e (congrArg Prod.fst he))

theorem bind {w : Work σ π α} {f : α → Work σ π β} (hw : w.Keeps fun d e => e = d)
    (hf : ∀ a, (f a).Atomic) : (w >>= f).Atomic := by
  intro s fault h
  have hkeep := hw s
  rw [exec_bind] at h ⊢
  rcases he : w.exec s with ⟨r, after⟩
  rw [he] at h hkeep
  cases r with
  | ok a => exact (hf a after fault h).trans hkeep
  | error e => exact hkeep

theorem bind_pure {w : Work σ π α} (hw : w.Atomic) (f : α → β) :
    (w >>= fun a => pure (f a)).Atomic := by
  rw [← map_eq_pure_bind]
  exact hw.map f

end Work.Atomic

variable [Repository σ] [Collaborators π]

/-- **A failed service call changes nothing.** -/
theorem Call.atomic (settings : AssignmentSettings) (call : Call) :
    (call.perform settings : Work σ π Reply).Atomic := by
  have same : Accumulates fun d e : σ => e = d := .eq
  cases call with
  | createTeam name id =>
    refine .map (.bind (same.require _ _) fun _ => .bind (same.resolveId _ _) fun id =>
      .bind same.now fun time => ?_) _
    exact (Work.Atomic.transact _).bind_pure fun _ => Team.mk id name time
  | createUser team name isActive id =>
    refine .map (.bind (same.require _ _) fun _ => .bind (same.resolveId _ _) fun id =>
      .bind same.now fun time => ?_) _
    exact (Work.Atomic.transact _).bind_pure fun _ => User.mk id name team isActive time
  | updateUser id update =>
    exact .map (.bind (same.require _ _) fun _ => .bind (same.require _ _) fun _ =>
      .transact _) _
  | deactivate team ids => exact .map (.bind (same.require _ _) fun _ => .transact _) _
  | createPullRequest title author id =>
    exact .map (.bind (same.require _ _) fun _ => .bind (same.resolveId _ _) fun id =>
      .transact _) _
  | _ => exact .map (.transact _) _

end ReviewRota
