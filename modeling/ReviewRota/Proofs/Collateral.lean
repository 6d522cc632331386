import ReviewRota.Proofs.Changes

/-!
# What calls leave alone

Calls of the services on either store, from any data that satisfies its constraints, told by what is
read before and after them.

* **`failed_call_undone`**: a call that fails leaves everything as it was, however much its
  transaction had written.
* **`call_spares`**: a call changes no more than it names: no record is lost, users change as they
  are told to, and a slot passes on only if its holder leaves.
-/

namespace ReviewRota

variable {π : Type} [Collaborators π]

/-! ## Failed calls -/

/-- **A failed call is undone.** All that the store lists is as it was before the call, and so is
every other reading, since the data itself is the same. -/
theorem failed_call_undone (kind : StoreKind) (settings : AssignmentSettings) (call : Call)
    {s s' : Session kind.Data π} {fault : Fault} (hsound : kind.Sound s.data)
    (he : (call.perform settings).exec s = (.error fault, s')) :
    s'.data = s.data ∧ ∃ snapshot, Repository.snapshot s.data = .ok snapshot ∧
      Repository.snapshot s'.data = .ok snapshot := by
  have hdata := Call.atomic settings call s fault (congrArg Prod.fst he)
  rw [he] at hdata
  change s'.data = s.data at hdata
  obtain ⟨snapshot, hlist, -⟩ := hsound.exists_snapshot
  exact ⟨hdata, snapshot, hlist, hdata ▸ hlist⟩

/-- The small team, and a pull request of its third member that the first reviews. -/
def strandedRun (kind : StoreKind) : Session kind.Data Sources :=
  (performAll smallSettings [.createPullRequest "Next" "c" (some "q")] (smallRun kind)).2

theorem sound_strandedRun (kind : StoreKind) : kind.Sound (strandedRun kind).data := by
  unfold strandedRun
  exact (sound_smallRun kind).performAll _ _

/-- The second and the first member are to leave. The second hands over to the third, who has
written the pull request of the first: by then both are stored as inactive, and so is one
hand-over. -/
theorem failed_call_undone_stranded :
    Repository.snapshot
        ((Service.deactivateIn "t" ["b", "a"]).exec (strandedRun .relational)).2.data ≠
      Repository.snapshot (strandedRun .relational).data ∧
    ∃ s', ((Call.deactivate "t" ["b", "a"]).perform smallSettings).exec (strandedRun .relational) =
      (.error .noCandidate, s') ∧ s'.data = (strandedRun .relational).data := by
  refine ⟨by decide +kernel, ?_⟩
  have hfault : (((Call.deactivate "t" ["b", "a"]).perform smallSettings).exec
      (strandedRun .relational)).1 = .error .noCandidate := by decide +kernel
  rcases he : ((Call.deactivate "t" ["b", "a"]).perform smallSettings).exec
    (strandedRun .relational) with ⟨r, s'⟩
  rw [he] at hfault
  obtain rfl : r = .error .noCandidate := hfault
  obtain ⟨hdata, -⟩ := failed_call_undone .relational smallSettings _
    (sound_strandedRun .relational) he
  exact ⟨s', rfl, hdata⟩

/-! ## Records that a call does not name -/

theorem SameSeats.getElem? {leaves : String → Prop} {l₁ l₂ : List ReviewerSlot}
    (h : SameSeats leaves l₁ l₂) {i : Nat} {a b : ReviewerSlot} (ha : l₁[i]? = some a)
    (hb : l₂[i]? = some b) :
    (b.userId = a.userId ∧ b.assignedAt = a.assignedAt) ∨ leaves a.userId := by
  obtain ⟨h₁, rfl⟩ := List.getElem?_eq_some_iff.mp ha
  obtain ⟨h₂, rfl⟩ := List.getElem?_eq_some_iff.mp hb
  exact (List.forall₂_iff_get.mp h).2 i h₁ h₂

/-- **A call changes nothing besides what it names.** Teams stay as they are. A user keeps id, team
and creation time; the name changes only by an update of that user, the active flag only by an
update or a deactivation that names him. A pull request keeps id, title, author, creation time and
the number of its slots. A slot passes on, or gets another time, only while the pull request is open
and only if the one who holds it is named by a reassignment of the pull request, or is active before
the call and inactive after it. -/
theorem call_spares (kind : StoreKind) (settings : AssignmentSettings) (call : Call)
    (s : Session kind.Data π) (hsound : kind.Sound s.data) :
    let d := s.data
    let d' := ((call.perform settings).exec s).2.data
    (∀ id team, Repository.team id d = .ok team → Repository.team id d' = .ok team) ∧
    (∀ id u, Repository.user id d = .ok u → ∃ v, Repository.user id d' = .ok v ∧
      v.id = u.id ∧ v.teamId = u.teamId ∧ v.createdAt = u.createdAt ∧
      (v.name ≠ u.name → ∃ update, call = .updateUser id update) ∧
      (v.isActive ≠ u.isActive → (∃ update, call = .updateUser id update) ∨
        ∃ team ids, call = .deactivate team ids ∧ id ∈ ids)) ∧
    ∀ lock id p, Repository.pullRequest lock id d = .ok p →
      ∃ q, Repository.pullRequest lock id d' = .ok q ∧
        q.id = p.id ∧ q.title = p.title ∧ q.authorId = p.authorId ∧ q.createdAt = p.createdAt ∧
        q.reviewers.length = p.reviewers.length ∧
        ∀ (i : Nat) (a b : ReviewerSlot), p.reviewers[i]? = some a → q.reviewers[i]? = some b →
          b.userId ≠ a.userId ∨ b.assignedAt ≠ a.assignedAt →
            p.isOpen = true ∧ (call = .reassign id a.userId ∨
              (∃ u, Repository.user a.userId d = .ok u ∧ u.isActive = true) ∧
                ∃ v, Repository.user a.userId d' = .ok v ∧ v.isActive = false) := by
  intro d d'
  obtain ⟨h', hc⟩ := StoreKind.changes settings call hsound (Prod.ext rfl rfl :
    (call.perform settings).exec s = (_, ((call.perform settings).exec s).2))
  refine ⟨hc.team, fun id u hu => ?user, fun lock id p hp => ?pullRequest⟩
  case user =>
    obtain ⟨v, hv, hadv⟩ := hc.user id u hu
    obtain ⟨-, rfl⟩ := hsound.user_iff.mp hu
    exact ⟨v, hv, hadv.id, hadv.teamId, hadv.createdAt, fun hne => hadv.name.resolve_left hne,
      fun hne => hadv.isActive.resolve_left hne⟩
  case pullRequest =>
    obtain ⟨q, hq, hadv⟩ := hc.pullRequest lock id p hp
    obtain ⟨hid, htitle, hauthor, htime⟩ := hadv.head_eq
    refine ⟨q, hq, hid, htitle, hauthor, htime, hadv.sameSeats.length_eq.symm,
      fun i a b ha hb hne => ?_⟩
    rcases hadv.sameSeats.getElem? ha hb with ⟨hu, ht⟩ | hleaves
    · exact absurd hne (by simp [hu, ht])
    · exact hleaves

/-- The reviewer of the small team's pull request leaves, and somebody else sits in his place. -/
theorem call_spares_smallTeam :
    ∃ s', ((Call.deactivate "t" ["b"]).perform smallSettings).exec (smallRun .relational) =
        (.ok (.deactivation ⟨1, 1⟩), s') ∧
      ∃ q, Repository.pullRequest false "p" s'.data = .ok q ∧ q.title = "Fix" ∧
        q.authorId = "a" ∧ q.reviewers.length = 1 := by
  have hdone : (((Call.deactivate "t" ["b"]).perform smallSettings).exec
      (smallRun .relational)).1 = .ok (.deactivation ⟨1, 1⟩) := by decide +kernel
  have hread : Repository.pullRequest false "p" (smallRun .relational).data =
      .ok ⟨"p", "Fix", "a", .opened, Sources.still.time, none,
        [⟨"p", 1, "b", Sources.still.time⟩]⟩ := by decide +kernel
  obtain ⟨-, -, hspared⟩ := call_spares .relational smallSettings (.deactivate "t" ["b"])
    (smallRun .relational) (sound_smallRun .relational)
  obtain ⟨q, hq, -, htitle, hauthor, -, hlen, -⟩ := hspared false "p" _ hread
  rcases he : ((Call.deactivate "t" ["b"]).perform smallSettings).exec (smallRun .relational) with
    ⟨r, s'⟩
  rw [he] at hdone hq
  obtain rfl : r = .ok (.deactivation ⟨1, 1⟩) := hdone
  exact ⟨s', rfl, q, hq, htitle, hauthor, hlen⟩

end ReviewRota
