import ReviewRota.Proofs.Deactivation
import ReviewRota.Proofs.Stores

/-!
# When a bulk deactivation is feasible

* **`deactivate_eq_count`**: on either store, whether a bulk deactivation succeeds and what it
  returns are counted from the records before it. Neither the order of the ids nor the draws matter.
-/

namespace ReviewRota

open Deactivation (Feasible expected)

/-- **A bulk deactivation succeeds exactly if every open pull request can be refilled**: if it has
no more reviewers in the batch than the team has remaining active members who are neither its author
nor its reviewers. The counts it returns are those of the batch and of its open reviews, and so the
outcome is the same for the ids in any other order, with any other collaborators. -/
theorem deactivate_eq_count (kind : StoreKind) (d : kind.Data) (hsound : kind.Sound d) :
    ∃ snapshot, Repository.snapshot d = .ok snapshot ∧
      ∀ team, (∃ t ∈ snapshot.teams, t.id = team) →
        ∀ ids ≠ [], (∀ id ∈ ids, ∃ u ∈ snapshot.users, u.id = id ∧ u.teamId = team) →
          ∀ {π : Type} [Collaborators π] [Collaborators.Lawful π] (s : Session kind.Data π),
            s.data = d → ∀ ids', ids'.Perm ids →
              ((Service.deactivate team ids').exec s).1 =
                if Feasible snapshot.users snapshot.pullRequests team ids then
                  .ok (expected snapshot.users snapshot.pullRequests ids)
                else .error .noCandidate := by
  obtain ⟨snapshot, hsnap, hteams, husers, hprs⟩ := hsound.exists_snapshot
  refine ⟨snapshot, hsnap, fun team ⟨t, ht, he⟩ ids hne hids π _ _ s hdata ids' hperm => ?_⟩
  subst hdata
  have hnamed : Ledger.Named (kind.ledger s.data) team ids' := by
    refine ⟨⟨t, hteams.mem_iff.mp ht, he⟩, fun id hid => ?_⟩
    obtain ⟨u, hu, h⟩ := hids id (hperm.mem_iff.mp hid)
    exact ⟨u, husers.mem_iff.mp hu, h⟩
  have hne' : ids' ≠ [] := fun he => hne (List.Perm.nil_eq (he ▸ hperm)).symm
  rw [(kind.mirrored.service_deactivate team ids' hsound.agree).1,
    Ledger.exec_deactivate hne' hsound.integrity hnamed]
  -- neither the order of the ids nor that of the records changes what is counted
  refine if_congr ?_ (congrArg Except.ok ?_) rfl
  · rw [Deactivation.feasible_congr fun id => hperm.mem_iff]
    exact (Deactivation.feasible_perm husers hprs).symm
  · rw [Deactivation.expected_congr fun id => hperm.mem_iff]
    exact (Deactivation.expected_perm husers hprs).symm

/-- The one reviewer of the small team's pull request can be replaced, but not both candidates. -/
theorem deactivate_eq_count_smallTeam :
    ((Service.deactivate "t" ["b"]).exec (smallRun .memory)).1 = .ok ⟨1, 1⟩ ∧
      ((Service.deactivate "t" ["c", "b", "c"]).exec (smallRun .memory)).1 =
        .error .noCandidate := by
  obtain ⟨snapshot, hsnap, hcount⟩ := deactivate_eq_count .memory _ (sound_smallRun .memory)
  have hlisted : Repository.snapshot (smallRun .memory).data = .ok smallRecords := by
    decide +kernel
  obtain rfl : snapshot = smallRecords := Except.ok.inj (hsnap.symm.trans hlisted)
  have hcount := hcount "t" (by decide)
  exact ⟨(hcount ["b"] (by decide) (by decide) _ rfl _ (.refl _)).trans (by decide +kernel),
    (hcount ["b", "c", "c"] (by decide) (by decide) _ rfl _ (.swap ..)).trans (by decide +kernel)⟩

end ReviewRota
