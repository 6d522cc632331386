import ReviewRota.Proofs.Creation
import ReviewRota.Proofs.Shuffle
import ReviewRota.Proofs.Turns

/-!
# What calls draw for

* `Demand`: what there is to draw for; `Call.demand`: what a call draws for, if anything, from what
  the store lists before it.
* `Demand.Met`: the draws for a demand, and what they decide; **`Demand.Met.inBounds`**: each of
  them has a positive bound and is below it.
* `Work.Drawless`: work that draws nothing, whatever its outcome.
-/

namespace ReviewRota

open Deactivation (openReviews remaining targets Turns)

variable {σ π α β : Type}

/-! ## Demands -/

/-- Whether an identifier, or none, is what the callers of a deployment have to supply. -/
def IdMode.accepts : IdMode → Option String → Bool
  | .generated, supplied => supplied.isNone
  | .external, supplied => supplied.any (!Text.isBlank ·)

/-- What a call draws for. -/
inductive Demand where
  /-- The first reviewers of a pull request, up to `max` of the pool. -/
  | staffing (pool : List User) (max : Nat)
  /-- One of the pool in the place of a reviewer. -/
  | replacement (pool : List User)
  /-- One of the pool for each open review of the leavers. -/
  | turns (pool leavers : List User)
  deriving DecidableEq

/-- What a call draws for, from what is listed before it. A call without a demand is refused before
it draws, or there is nothing to draw for. -/
def Call.demand (settings : AssignmentSettings) (before : Snapshot) : Call → Option Demand
  | .createPullRequest title authorId id => do
    let author ← before.users.find? (·.id == authorId)
    if Text.isBlank title || !settings.idMode.accepts id then none
    else some (.staffing (author.colleagues before.users) settings.maxReviewers)
  | .reassign id reviewerId => do
    let p ← before.pullRequests.find? (·.id == id)
    let reviewer ← before.users.find? (·.id == reviewerId)
    if p.isOpen then
      some (.replacement (before.users.filter fun v => p.Candidate reviewer.teamId reviewer.id v))
    else none
  | .updateUser id update => do
    let user ← before.users.find? (·.id == id)
    if update.isEmpty || update.name.any Text.isBlank then none
    else if user.isActive && !(update.apply user).isActive then
      some (.turns (remaining before.users user.teamId [id]) [user])
    else none
  | .deactivate teamId ids =>
    if ids ≠ [] ∧ (∃ team ∈ before.teams, team.id = teamId) ∧
        ∀ id ∈ ids, ∃ u ∈ before.users, u.id = id ∧ u.teamId = teamId then
      some (.turns (remaining before.users teamId ids)
        (targets before.users (Service.distinct ids)))
    else none
  | _ => none

/-- The draws for a demand, each with its bound, the reply of the call and the pull requests after
it, if `ps` are those before it. Every draw is an index of what it chooses from. -/
def Demand.Met (ps : List PullRequest) (draws : List (Nat × Nat)) (reply : Except Fault Reply)
    (after : List PullRequest) : Option Demand → Prop
  | none => draws = []
  | some (.staffing pool max) =>
    if 1 ≤ max ∧ max < pool.length then
      ∃ ds placed, List.Forall₂ (· < ·) ds (Selection.bounds pool.length max) ∧
        draws = (Selection.bounds pool.length max).zip ds ∧
        Selection.shuffle? pool.toArray 0 ds = some placed ∧
        ∀ p, reply = .ok (.pullRequest p) →
          p.reviewerIds = (placed.toList.take max).map User.id
    else draws = []
  | some (.replacement pool) =>
    if pool = [] then draws = []
    else ∃ d v, draws = [(pool.length, d)] ∧ pool[d]? = some v ∧
      ∀ p, reply = .ok (.pullRequest p) → v.id ∈ p.reviewerIds
  | some (.turns pool leavers) =>
    (∃ v, reply = .ok v ∧ Turns pool ps (openReviews ps leavers) draws (some after)) ∨
      reply = .error .noCandidate ∧ Turns pool ps (openReviews ps leavers) draws none

theorem Demand.Met.inBounds {ps after : List PullRequest} {draws : List (Nat × Nat)}
    {reply : Except Fault Reply} {demand : Option Demand}
    (h : Demand.Met ps draws reply after demand) : ∀ x ∈ draws, 1 ≤ x.1 ∧ x.2 < x.1 := by
  have hnil : ∀ {ds : List (Nat × Nat)}, ds = [] → ∀ x ∈ ds, 1 ≤ x.1 ∧ x.2 < x.1 := by
    rintro _ rfl x hx
    exact absurd hx List.not_mem_nil
  match demand with
  | none => exact hnil h
  | some (.staffing pool max) =>
    rw [Demand.Met] at h
    split at h
    · obtain ⟨ds, placed, hds, rfl, -⟩ := h
      intro x hx
      have hlt := Selection.lt_of_mem_zip hds x hx
      exact ⟨Nat.one_le_of_lt hlt, hlt⟩
    · exact hnil h
  | some (.replacement pool) =>
    rw [Demand.Met] at h
    split at h
    · exact hnil h
    · obtain ⟨d, v, rfl, hv, -⟩ := h
      have hlt := (List.getElem?_eq_some_iff.mp hv).1
      exact List.forall_mem_singleton.mpr ⟨Nat.one_le_of_lt hlt, hlt⟩
  | some (.turns pool leavers) =>
    rcases h with ⟨_, -, hturns⟩ | ⟨-, hturns⟩
    · exact hturns.inBounds
    · exact hturns.inBounds

/-! ## Work without draws -/

/-- Work that draws nothing, whatever its outcome. -/
def Work.Drawless (w : Work σ π α) : Prop :=
  ∀ s, (w.exec s).2.draws = s.draws

theorem draws_transact (w : Work σ π α) (s : Session σ π) :
    ((transact w).exec s).2.draws = (w.exec s).2.draws := by
  rw [exec_transact]
  rcases w.exec s with ⟨r, s'⟩
  cases r <;> rfl

namespace Work.Drawless

theorem pure (a : α) : (Pure.pure a : Work σ π α).Drawless :=
  fun _ => rfl

theorem read (f : σ → Except Fault α) : (Work.read f : Work σ π α).Drawless :=
  fun _ => rfl

theorem write (f : σ → Except Fault α × σ) : (Work.write f : Work σ π α).Drawless :=
  fun _ => rfl

theorem require (condition : Bool) (fault : Fault) :
    (Service.require condition fault : Work σ π Unit).Drawless := by
  intro s
  rw [Service.exec_require]

theorem bind {w : Work σ π α} {f : α → Work σ π β} (hw : w.Drawless) (hf : ∀ a, (f a).Drawless) :
    (w >>= f).Drawless := by
  intro s
  have hfirst := hw s
  rw [exec_bind]
  split
  · rename_i a after he
    rw [he] at hfirst
    exact (hf a after).trans hfirst
  · rename_i fault after he
    rwa [he] at hfirst

theorem map {w : Work σ π α} (hw : w.Drawless) (f : α → β) : (f <$> w).Drawless := by
  intro s
  rw [exec_map]
  exact hw s

theorem transact {w : Work σ π α} (hw : w.Drawless) : (ReviewRota.transact w).Drawless :=
  fun s => (draws_transact w s).trans (hw s)

variable [Collaborators π]

theorem now : (Work.now : Work σ π Instant).Drawless :=
  fun _ => rfl

theorem resolveId (mode : IdMode) (supplied : Option String) :
    (ReviewRota.resolveId mode supplied : Work σ π String).Drawless := by
  intro s
  unfold ReviewRota.resolveId
  split
  · rfl
  · rfl
  · rfl
  · split <;> rfl

end Work.Drawless

end ReviewRota
