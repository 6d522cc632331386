import ReviewRota.Proofs.Relational.Statements
import ReviewRota.Proofs.Stores
import ReviewRota.Transaction.Script

/-!
# Traffic on a repository

Transactions of any operations, with any arguments, that go on after refusals and end in any way.

* `Repository.Keeps.operations`, `Repository.Keeps.scripts`: what the changes of a repository keep,
  they keep.
* `PullRequest.Ranked`: slot numbers increase.
* `StoreKind.keeps_ranked`: changes of either store keep its constraints and the order of slots.
* **`traffic_intact`**: after any transactions, and in the middle of any, what a store lists has
  integrity, and every pull request is read as it is listed.
-/

namespace ReviewRota

variable {σ π : Type}

/-! ## Transactions -/

section

variable [Repository σ] [Collaborators π]

/-- Runs transactions one after the other. -/
def Script.runAll : List Script → Session σ π → Session σ π
  | [], s => s
  | script :: scripts, s => runAll scripts (script.run s).2

namespace Repository.Keeps

variable {P : σ → σ → Prop} (h : Repository.Keeps P)
include h

theorem operation (operation : Operation) : (operation.perform : Work σ π Reply).Keeps P := by
  cases operation with
  | createTeam team => exact .map (.write (h.createTeam team)) _
  | createUser user => exact .map (.write (h.createUser user)) _
  | updateUser user => exact .map (.write (h.updateUser user)) _
  | createPullRequest p => exact .map (.write (h.createPullRequest p)) _
  | setStatus id status time => exact .map (.write (h.setStatus id status time)) _
  | setReviewers id slots => exact .map (.write (h.setReviewers id slots)) _
  | reassignOpenReviews team user => exact .map (h.reassignOpenReviews team user) _
  | _ => exact .map (h.read _) _

theorem operations (operations : List Operation) (s : Session σ π) :
    P s.data (Operation.performAll operations s).2.data := by
  induction operations generalizing s with
  | nil => exact h.refl s.data
  | cons operation operations ih => exact h.trans (h.operation operation s) (ih _)

theorem script (script : Script) (s : Session σ π) : P s.data (script.run s).2.data := by
  have hcopy := h.operations script.operations s
  change P s.data (script.ending.apply (Operation.performAll script.operations s).1
    (Operation.performAll script.operations s).2.data s.data).2
  cases script.ending with
  | commit => exact hcopy
  | rollback => exact h.refl s.data
  | drop => exact h.refl s.data
  | finish =>
    unfold Ending.apply
    cases lastFault (Operation.performAll script.operations s).1 with
    | ok u => exact hcopy
    | error fault => exact h.refl s.data

theorem scripts (scripts : List Script) (s : Session σ π) :
    P s.data (Script.runAll scripts s).data := by
  induction scripts generalizing s with
  | nil => exact h.refl s.data
  | cons script scripts ih => exact h.trans (h.script script s) (ih _)

end Repository.Keeps

end

/-! ## The order of slots -/

/-- Slot numbers increase. -/
def PullRequest.Ranked (p : PullRequest) : Prop :=
  (p.reviewers.map ReviewerSlot.number).Pairwise (· < ·)

theorem Memory.Fits.ranked_sortSlots {m : Memory} {id : String} {slots : List ReviewerSlot}
    (h : m.Fits id slots) :
    ((Memory.sortSlots slots).map ReviewerSlot.number).Pairwise (· < ·) := by
  have hle := pairwise_sortBy (isPreorder_key ReviewerSlot.number) slots
  have hne := List.pairwise_map.mp h.sortSlots.numbers
  exact List.pairwise_map.mpr (hle.imp₂ (fun _ _ hab hne =>
    UInt32.lt_of_le_of_ne (of_decide_eq_true hab) hne) hne)

theorem sortSlots_eq_of_perm {slots sorted : List ReviewerSlot}
    (h : (sorted.map ReviewerSlot.number).Pairwise (· < ·)) (hperm : slots.Perm sorted) :
    Memory.sortSlots slots = sorted := by
  have hnodup : (sorted.map ReviewerSlot.number).Nodup := h.imp UInt32.ne_of_lt
  have hsame : Memory.sortSlots slots = Memory.sortSlots sorted := by
    refine sortBy_congr_perm (isPreorder_key ReviewerSlot.number) hperm fun a ha b hb hab hba => ?_
    refine List.inj_on_of_nodup_map hnodup (hperm.subset ha) (hperm.subset hb) ?_
    exact UInt32.le_antisymm (of_decide_eq_true hab) (of_decide_eq_true hba)
  rw [hsame]
  refine sortBy_eq_self ((List.pairwise_map.mp h).imp fun hab => ?_)
  exact decide_eq_true (UInt32.le_of_lt hab)

/-- Slot numbers increase in all pull requests. -/
def Memory.Ranked (m : Memory) : Prop :=
  ∀ p ∈ m.pullRequests, p.Ranked

/-- **Every change keeps slots in order**, along with the integrity of records. -/
theorem Ledger.keeps_ranked (older : Instant → Instant → Bool) :
    Repository.Keeps (σ := Ledger older) fun m m' =>
      Memory.Integrity m ∧ Memory.Ranked m → Memory.Integrity m' ∧ Memory.Ranked m' where
  toAccumulates := .of_invariant _
  createTeam team m h := ⟨(keeps_integrity older).createTeam team m h.1,
    after_createTeam (Q := Memory.Ranked) h.2 fun _ _ => h.2⟩
  createUser user m h := ⟨(keeps_integrity older).createUser user m h.1,
    after_createUser (Q := Memory.Ranked) h.2 fun _ _ => h.2⟩
  updateUser user m h := ⟨(keeps_integrity older).updateUser user m h.1,
    after_updateUser (Q := Memory.Ranked) h.2 h.2⟩
  createPullRequest p m h := by
    refine ⟨(keeps_integrity older).createPullRequest p m h.1,
      after_createPullRequest (Q := Memory.Ranked) h.2 fun _ _ hfits q hq => ?_⟩
    rcases List.mem_append.mp hq with hq | hq
    · exact h.2 q hq
    · rw [List.mem_singleton.mp hq]
      exact hfits.ranked_sortSlots
  setStatus id status time m h := by
    refine ⟨(keeps_integrity older).setStatus id status time m h.1,
      after_setStatus (Q := Memory.Ranked) h.2 fun q hq => ?_⟩
    obtain ⟨p, hp, rfl⟩ := Memory.mem_mapPullRequests.mp hq
    split <;> exact h.2 p hp
  setReviewers id slots m h := by
    refine ⟨(keeps_integrity older).setReviewers id slots m h.1,
      after_setReviewers (Q := Memory.Ranked) h.2 fun hfits q hq => ?_⟩
    obtain ⟨p, hp, rfl⟩ := Memory.mem_mapPullRequests.mp hq
    split
    · exact hfits.ranked_sortSlots
    · exact h.2 p hp

namespace Relational.Database.Sound

variable {d : Database} (h : d.Sound)
include h

theorem ranked : d.records.Ranked := by
  intro p hp
  obtain ⟨row, -, rfl⟩ := List.mem_map.mp hp
  exact pairwise_slotsOf h.numbers fun r hr => h.readable (mem_slotRows.mp hr).1

end Relational.Database.Sound

/-! ## Both stores -/

namespace StoreKind

/-- Sound data whose slots are in order. -/
def Ranked (kind : StoreKind) (d : kind.Data) : Prop :=
  kind.Sound d ∧ Memory.Ranked (kind.ledger d)

theorem keeps_ranked : (kind : StoreKind) →
    Repository.Keeps fun d d' : kind.Data => kind.Ranked d → kind.Ranked d'
  | memory => Ledger.keeps_ranked Instant.le
  | relational =>
    have hkeep := Relational.Database.keeps_sound
    have hof : ∀ {d d' : Relational.Database}, (d.Sound → d'.Sound) →
        relational.Ranked d → relational.Ranked d' := fun hs h => ⟨hs h.1, (hs h.1).ranked⟩
    { toAccumulates := .of_invariant _
      createTeam := fun team d => hof (hkeep.createTeam team d)
      createUser := fun user d => hof (hkeep.createUser user d)
      updateUser := fun user d => hof (hkeep.updateUser user d)
      createPullRequest := fun p d => hof (hkeep.createPullRequest p d)
      setStatus := fun id status time d => hof (hkeep.setStatus id status time d)
      setReviewers := fun id slots d => hof (hkeep.setReviewers id slots d) }

theorem ranked_empty (kind : StoreKind) : kind.Ranked Repository.empty := by
  refine ⟨kind.sound_empty, fun p hp => ?_⟩
  rw [kind.ledger_empty] at hp
  exact absurd hp List.not_mem_nil

end StoreKind

/-- The records of a listing. -/
def Snapshot.records (snapshot : Snapshot) : Memory :=
  ⟨snapshot.teams, snapshot.users, snapshot.pullRequests⟩

/-- What a store lists has integrity, with the slots of each pull request in the order of their
numbers, and pull requests are read one by one as they are listed. -/
def Repository.Intact [Repository σ] (d : σ) : Prop :=
  ∃ snapshot, Repository.snapshot d = .ok snapshot ∧ snapshot.records.Integrity ∧
    (∀ p ∈ snapshot.pullRequests, p.Ranked) ∧
      ∀ lock id p, Repository.pullRequest lock id d = .ok p ↔
        p ∈ snapshot.pullRequests ∧ p.id = id

theorem Memory.Integrity.perm {m m' : Memory} (h : m.Integrity) (hteams : m'.teams.Perm m.teams)
    (husers : m'.users.Perm m.users) (hprs : m'.pullRequests.Perm m.pullRequests) :
    m'.Integrity where
  teamIds := (hteams.map _).nodup_iff.mpr h.teamIds
  teamNames := (hteams.map _).nodup_iff.mpr h.teamNames
  userIds := (husers.map _).nodup_iff.mpr h.userIds
  userTeams user hu := by
    obtain ⟨team, ht, he⟩ := h.userTeams user (husers.mem_iff.mp hu)
    exact ⟨team, hteams.mem_iff.mpr ht, he⟩
  ids := (hprs.map _).nodup_iff.mpr h.ids
  authors p hp := by
    obtain ⟨user, hu, he⟩ := h.authors p (hprs.mem_iff.mp hp)
    exact ⟨user, husers.mem_iff.mpr hu, he⟩
  slots p hp := (h.slots p (hprs.mem_iff.mp hp)).of_users fun user hu =>
    ⟨user, husers.mem_iff.mpr hu, rfl⟩

theorem StoreKind.Ranked.intact {kind : StoreKind} {d : kind.Data} (h : kind.Ranked d) :
    Repository.Intact d := by
  obtain ⟨hsound, hranked⟩ := h
  obtain ⟨snapshot, hlist, hteams, husers, hprs⟩ := hsound.exists_snapshot
  refine ⟨snapshot, hlist, hsound.integrity.perm hteams husers hprs, fun p hp => ?_,
    fun lock id p => ?_⟩
  · exact hranked p (hprs.mem_iff.mp hp)
  · rw [hsound.pullRequest_iff, hprs.mem_iff]

variable [Collaborators π]

/-- **Integrity under arbitrary traffic**, on both stores. After any transactions from the empty
store, and in the copy of one that is still open after any operations, ids and team names are
unique, teams of users and authors of pull requests exist, and every pull request is read with slots
of its own in the order of their numbers, from 1 up, whose reviewers are different users who
exist. -/
theorem traffic_intact (kind : StoreKind) (scripts : List Script) (p : π) :
    let s := Script.runAll scripts (.start (Repository.empty : kind.Data) p)
    Repository.Intact s.data ∧
      ∀ operations, Repository.Intact (Operation.performAll operations s).2.data := by
  intro s
  have h : kind.Ranked s.data := kind.keeps_ranked.scripts scripts _ kind.ranked_empty
  exact ⟨h.intact, fun operations => (kind.keeps_ranked.operations operations s h).intact⟩

/-- A creation that is refused for its third slot, which repeats a number: a database has the pull
request and two slots by then, and the transaction may go on and keep them. -/
example :
    let time := Sources.still.time
    let slots : List ReviewerSlot := [⟨"p", 2, "b", time⟩, ⟨"p", 1, "c", time⟩, ⟨"p", 1, "a", time⟩]
    let script : Script :=
      ⟨[.createTeam ⟨"t", "backend", time⟩, .createUser ⟨"a", "Ann", "t", true, time⟩,
        .createUser ⟨"b", "Ben", "t", true, time⟩, .createUser ⟨"c", "Cem", "t", true, time⟩,
        .createPullRequest ⟨"p", "Fix", "a", .opened, time, none, slots⟩], .commit⟩
    let s := Script.runAll [script] (.start (Repository.empty : Relational.Database) Sources.still)
    Repository.pullRequest false "p" s.data =
      .ok ⟨"p", "Fix", "a", .opened, time, none, [⟨"p", 1, "c", time⟩, ⟨"p", 2, "b", time⟩]⟩ := by
  decide +kernel

end ReviewRota
