import ReviewRota.Proofs.ReadBack
import ReviewRota.Proofs.Traffic

/-!
# Slots that name another pull request

A new pull request may come with slots that name another one. The in-memory store refuses such a
list. A database stores each slot under the pull request that it names, and asks whose slots they
are only where the slots of a stored pull request are replaced.

* `Memory.findPullRequest_createPullRequest`: in the in-memory store, creation leaves the others
  alone.
* `Relational.Database.slotsOf_append_perm`: slots that are inserted join those of the pull request
  they name.
* **`createPullRequest_others`**: what creation does to the other pull requests, in both stores.
* `not_createPullRequest_keeps_others`: a database does not leave them alone, not even where the
  creation fails.
-/

namespace ReviewRota

/-! ## The in-memory store -/

namespace Memory

variable {m : Memory} {id : String}

theorem findPullRequest_createPullRequest (p : PullRequest) {q : PullRequest}
    (hq : m.findPullRequest id = some q) :
    (m.createPullRequest p).2.findPullRequest id = some q := by
  rcases createPullRequest_cases (m := m) p with ⟨_, he⟩ | ⟨⟨hnew, -⟩, he⟩ <;> rw [he]
  · exact hq
  · obtain ⟨hmem, rfl⟩ := mem_of_findPullRequest hq
    have hne : p.id ≠ q.id := fun he => hnew (he ▸ List.mem_map_of_mem hmem)
    refine (find?_concat_of_ne PullRequest.id m.pullRequests ?_).trans hq
    exact hne

end Memory

/-! ## The relational store -/

namespace Relational.Database

variable {d : Database}

theorem slotsOf_append_perm (slots : List ReviewerSlot) (id : String) :
    (slotsOf { d with slots := d.slots ++ slots.map .ofSlot } id).Perm
      (d.slotsOf id ++ slots.filter (·.pullRequestId == id)) := by
  have hrows : slotRows { d with slots := d.slots ++ slots.map .ofSlot } id =
      d.slotRows id ++ (slots.filter (·.pullRequestId == id)).map .ofSlot := by
    rw [slotRows, List.filter_append, List.filter_map]
    rfl
  have hback : ((slots.filter (·.pullRequestId == id)).map SlotRow.ofSlot).map SlotRow.slot =
      slots.filter (·.pullRequestId == id) := by
    have hid : SlotRow.slot ∘ SlotRow.ofSlot = fun slot => slot := funext slot_ofSlot
    rw [List.map_map, hid, List.map_id']
  refine (perm_slotsOf id).trans ?_
  rw [hrows, List.map_append, hback]
  exact (perm_slotsOf id).symm.append_right _

/-- The tables after a creation, whatever comes of it. -/
theorem createPullRequest_done (p : PullRequest) :
    ((d.createPullRequest p).2 = d ∧ (d.createPullRequest p).1 ≠ .ok ()) ∨
      ¬ d.hasPullRequest p.id = true ∧ ∃ done, done <+: p.reviewers ∧
        ((d.createPullRequest p).1 = .ok () → done = p.reviewers) ∧
        (d.createPullRequest p).2 = { d with
          pullRequests := d.pullRequests ++ [.ofPullRequest p]
          slots := d.slots ++ done.map .ofSlot } := by
  unfold createPullRequest
  split
  · rename_i d₁ hrow
    obtain ⟨hnew, rfl⟩ := insertPullRequest_eq_ok hrow
    obtain ⟨rows, hinitial, hdone, -, hok⟩ := insertSlots_done
      (d := { d with pullRequests := d.pullRequests ++ [.ofPullRequest p] })
      (p.reviewers.map .ofSlot)
    obtain ⟨done, hpart, rfl⟩ := List.prefix_map_iff.mp hinitial
    refine .inr ⟨hnew, done, hpart, fun h => hpart.eq_of_length ?_, hdone⟩
    simpa using congrArg List.length (hok h)
  · exact .inl ⟨rfl, nofun⟩

theorem Sound.ranked_of_pullRequest (h : d.Sound) {lock : Bool} {id : String} {q : PullRequest}
    (hq : Repository.pullRequest lock id d = .ok q) : q.Ranked := by
  rw [h.pullRequest_eq, orNotFound_eq_ok] at hq
  exact h.ranked q (Memory.mem_of_findPullRequest hq).1

theorem pullRequest_createPullRequest (h : d.Sound) (p : PullRequest) {q : PullRequest}
    {lock : Bool} (hq : Repository.pullRequest lock q.id d = .ok q) :
    ∃ done, done <+: p.reviewers ∧
      ((Repository.createPullRequest p d).1 = .ok () → done = p.reviewers) ∧
      Repository.pullRequest lock q.id (Repository.createPullRequest p d).2 =
        .ok { q with reviewers :=
          Memory.sortSlots (q.reviewers ++ done.filter (·.pullRequestId == q.id)) } := by
  have hfind := hq
  rw [h.pullRequest_eq, orNotFound_eq_ok] at hfind
  have hverdict : (Repository.createPullRequest p d).1 = .ok () ↔
      (d.createPullRequest p).1 = .ok () := seen_eq_ok
  have hafter : (Repository.createPullRequest p d).2 = (d.createPullRequest p).2 := rfl
  have hsound := h.createPullRequest p
  rw [hverdict, hafter]
  rcases createPullRequest_done (d := d) p with ⟨hsame, hrefused⟩ | ⟨hnew, done, hpart, hok, hdone⟩
  · refine ⟨[], List.nil_prefix, fun h => absurd h hrefused, ?_⟩
    rw [hsame, List.filter_nil, List.append_nil,
      sortSlots_eq_of_perm (h.ranked_of_pullRequest hq) (.refl _)]
    exact hq
  · refine ⟨done, hpart, hok, ?_⟩
    rw [hdone] at hsound ⊢
    rw [hsound.pullRequest_eq, orNotFound_eq_ok, findPullRequest_records]
    rw [findPullRequest_records] at hfind
    obtain ⟨row, hrow, rfl⟩ := Option.map_eq_some_iff.mp hfind
    have hne : (PullRequestRow.ofPullRequest p).id ≠ (d.record row).id := fun he => hnew ?_
    · rw [find?_concat_of_ne PullRequestRow.id d.pullRequests hne, hrow, Option.map_some]
      refine congrArg (fun slots => some { d.record row with reviewers := slots }) ?_
      refine (sortSlots_eq_of_perm ?_ ?_).symm
      · exact pairwise_slotsOf hsound.numbers fun r hr => hsound.readable (mem_slotRows.mp hr).1
      · exact (slotsOf_append_perm done row.id).symm
    · refine List.any_eq_true.mpr ⟨row, List.mem_of_find?_eq_some hrow, ?_⟩
      exact beq_iff_eq.mpr he.symm

end Relational.Database

/-! ## Both stores -/

/-- **What a creation does to the other pull requests**, whether it succeeds or fails. In the
in-memory store every pull request that was stored is read as before. In a database it is, unless
slots that have been inserted name it: those join its own, by number. A creation that succeeds has
inserted all its slots, and one that fails those at the beginning of its list. -/
theorem createPullRequest_others (kind : StoreKind) {d : kind.Data} (h : kind.Sound d)
    (p : PullRequest) {q : PullRequest} {lock : Bool}
    (hq : Repository.pullRequest lock q.id d = .ok q) :
    ∃ done, done <+: p.reviewers ∧
      ((Repository.createPullRequest p d).1 = .ok () → done = p.reviewers) ∧
      (kind = .memory → ∀ slot ∈ done, slot.pullRequestId ≠ q.id) ∧
      let strays := done.filter (·.pullRequestId == q.id)
      Repository.pullRequest lock q.id (Repository.createPullRequest p d).2 =
        .ok (if strays = [] then q
          else { q with reviewers := Memory.sortSlots (q.reviewers ++ strays) }) := by
  cases kind with
  | memory =>
    have hkept : Repository.pullRequest lock q.id (Repository.createPullRequest p d).2 = .ok q :=
      orNotFound_eq_ok.mpr (Memory.findPullRequest_createPullRequest p (orNotFound_eq_ok.mp hq))
    have hmem := (Memory.mem_of_findPullRequest (orNotFound_eq_ok.mp hq)).1
    rcases Memory.createPullRequest_cases (m := d) p with ⟨fault, he⟩ | ⟨⟨hnew, -, hfits⟩, -⟩
    · have hrefused : (Repository.createPullRequest p d).1 = .error fault := congrArg Prod.fst he
      exact ⟨[], List.nil_prefix, fun hok => (nomatch hrefused.symm.trans hok),
        fun _ _ hslot => absurd hslot List.not_mem_nil, hkept⟩
    · have hothers : ∀ slot ∈ p.reviewers, slot.pullRequestId ≠ q.id := fun slot hslot he =>
        hnew ((hfits.own slot hslot).symm.trans he ▸ List.mem_map_of_mem hmem)
      have hnone : p.reviewers.filter (·.pullRequestId == q.id) = [] :=
        List.filter_eq_nil_iff.mpr fun slot hslot he => hothers slot hslot (beq_iff_eq.mp he)
      refine ⟨p.reviewers, List.prefix_rfl, fun _ => rfl, fun _ => hothers, hkept.trans ?_⟩
      exact congrArg Except.ok (if_pos hnone).symm
  | relational =>
    obtain ⟨done, hpart, hok, hread⟩ :=
      Relational.Database.pullRequest_createPullRequest h p hq
    refine ⟨done, hpart, hok, nofun, hread.trans (congrArg Except.ok ?_)⟩
    split
    · rename_i hnone
      have hranked : q.Ranked := Relational.Database.Sound.ranked_of_pullRequest h hq
      rw [hnone, List.append_nil, sortSlots_eq_of_perm hranked (.refl _)]
    · rfl

/-- A new pull request whose only slot makes the third member a reviewer of the other one. -/
theorem createPullRequest_others_smallTeam :
    let time := Sources.still.time
    let p : PullRequest := ⟨"q", "Next", "a", .opened, time, none, [⟨"p", 2, "c", time⟩]⟩
    (Repository.createPullRequest p (smallRun .relational).data).1 = .ok () ∧
      Repository.pullRequest false "p"
          (Repository.createPullRequest p (smallRun .relational).data).2 =
        .ok { smallPullRequest with reviewers := [⟨"p", 1, "b", time⟩, ⟨"p", 2, "c", time⟩] } := by
  intro time p
  have hok : (Repository.createPullRequest p (smallRun .relational).data).1 = .ok () := by
    decide +kernel
  have hbefore : Repository.pullRequest false smallPullRequest.id (smallRun .relational).data =
      .ok smallPullRequest := by decide +kernel
  obtain ⟨done, -, hdone, -, hread⟩ :=
    createPullRequest_others .relational (sound_smallRun .relational) p hbefore
  rw [hdone hok] at hread
  exact ⟨hok, hread.trans (by decide +kernel)⟩

/-- **Creation in a database does not keep to its own pull request**: the new one is refused for its
second slot, whose user is unknown, and the other one is left with the first. -/
theorem not_createPullRequest_keeps_others :
    ¬ ∀ (kind : StoreKind) (d : kind.Data), kind.Sound d → ∀ (p q : PullRequest) (lock : Bool),
      Repository.pullRequest lock q.id d = .ok q →
        Repository.pullRequest lock q.id (Repository.createPullRequest p d).2 = .ok q := by
  intro hkeeps
  let time := Sources.still.time
  have hkept := hkeeps .relational (smallRun .relational).data (sound_smallRun .relational)
    ⟨"q", "Next", "a", .opened, time, none, [⟨"p", 2, "c", time⟩, ⟨"q", 1, "z", time⟩]⟩
    smallPullRequest false (by decide +kernel)
  revert hkept
  decide +kernel

end ReviewRota
