import ReviewRota.Proofs.Relational.Mirroring

/-!
# Statements one by one

What a single statement on a database says about the tables by its success, and what it leaves true
of them. An operation of several statements that is refused in the end has carried out some of them,
so its tables are covered by the statements and not by its reply.

* `Database.insertTeam_eq_ok`, …, `Database.setReviewers_eq_ok`: the conditions of changes that
  succeed, and the tables after them.
* `Database.insertSlots_done`: a list of insertions is done up to the first that is refused.
* `Database.Sound.deleteSlots`, `Database.Sound.insertSlot`, **`Database.Sound.insertSlots`**: slots
  come and go under the schema, whatever pull requests they name.
* **`Database.keeps_sound`**: every change keeps the schema, accepted or refused in part.
-/

namespace ReviewRota.Relational.Database

variable {d d' : Database}

/-! ## Outcomes -/

theorem seen_eq_ok {α : Type} {r : Except Failure α} {a : α} : seen r = .ok a ↔ r = .ok a := by
  cases r <;> simp [seen, Except.mapError]

theorem seenChange_eq_ok {r : Except Failure Unit × Database} :
    seenChange r = (.ok (), d') ↔ r = (.ok (), d') := by
  rw [seenChange, Prod.mk.injEq, seen_eq_ok, Prod.ext_iff]

theorem statement_eq_ok {r : Except Failure Database} :
    d.statement r = (.ok (), d') ↔ r = .ok d' := by
  cases r <;> simp [statement]

theorem insertTeam_eq_ok {team : Team} (h : d.insertTeam team = .ok d') :
    ¬ d.hasTeam team.id = true ∧ d' = { d with teams := d.teams ++ [team] } := by
  unfold insertTeam at h
  split at h
  · cases h
  rename_i hnew
  cases h
  exact ⟨fun hid => hnew (Bool.or_eq_true_iff.mpr (.inl hid)), rfl⟩

theorem insertUser_eq_ok {user : User} (h : d.insertUser user = .ok d') :
    ¬ d.hasUser user.id = true ∧ d' = { d with users := d.users ++ [user] } := by
  unfold insertUser at h
  split at h
  · cases h
  rename_i hnew
  split at h
  · cases h
  cases h
  exact ⟨hnew, rfl⟩

theorem insertPullRequest_eq_ok {row : PullRequestRow} (h : d.insertPullRequest row = .ok d') :
    ¬ d.hasPullRequest row.id = true ∧ d' = { d with pullRequests := d.pullRequests ++ [row] } := by
  unfold insertPullRequest at h
  split at h
  · cases h
  split at h
  · cases h
  rename_i hnew
  split at h
  · cases h
  cases h
  exact ⟨hnew, rfl⟩

theorem insertSlot_eq_ok {row : SlotRow} (h : d.insertSlot row = .ok d') :
    (1 ≤ row.number ∧
      (∀ r ∈ d.slots, r.pullRequestId = row.pullRequestId →
        r.number ≠ row.number ∧ r.userId ≠ row.userId) ∧
      d.hasPullRequest row.pullRequestId = true ∧ d.hasUser row.userId = true) ∧
    d' = { d with slots := d.slots ++ [row] } := by
  unfold insertSlot at h
  split at h
  · cases h
  rename_i hpos
  split at h
  · cases h
  rename_i hnew
  split at h
  · cases h
  rename_i hknown
  cases h
  rw [Bool.not_eq_true', Bool.not_eq_false, Bool.and_eq_true] at hknown
  refine ⟨⟨Int.not_lt.mp hpos, fun r hr he => ?_, hknown⟩, rfl⟩
  rw [List.any_eq_true] at hnew
  constructor <;> intro hsame <;> exact hnew ⟨r, hr, by simp [he, hsame]⟩

/-- What is done of a list of insertions: those before the first that is refused. -/
theorem insertSlots_done (rows : List SlotRow) :
    ∃ done, done <+: rows ∧ (d.insertSlots rows).2 = { d with slots := d.slots ++ done } ∧
      (∀ row ∈ done, 1 ≤ row.number) ∧ ((d.insertSlots rows).1 = .ok () → done = rows) := by
  induction rows generalizing d with
  | nil =>
    refine ⟨[], List.prefix_rfl, ?_, fun _ hrow => absurd hrow List.not_mem_nil, fun _ => rfl⟩
    rw [List.append_nil]
    rfl
  | cons row rows ih =>
    rw [insertSlots]
    split
    · rename_i d₁ hrow
      obtain ⟨⟨hpos, -⟩, rfl⟩ := insertSlot_eq_ok hrow
      obtain ⟨done, hinitial, hdone, hall, hok⟩ := ih (d := { d with slots := d.slots ++ [row] })
      refine ⟨row :: done, List.cons_prefix_cons.mpr ⟨rfl, hinitial⟩, ?_,
        List.forall_mem_cons.mpr ⟨hpos, hall⟩, fun h => congrArg _ (hok h)⟩
      rw [hdone, List.append_assoc]
      rfl
    · refine ⟨[], List.nil_prefix, ?_, fun _ hrow => absurd hrow List.not_mem_nil,
        fun h => by cases h⟩
      rw [List.append_nil]

theorem insertSlots_eq_ok {rows : List SlotRow} (h : d.insertSlots rows = (.ok (), d')) :
    d' = { d with slots := d.slots ++ rows } ∧ ∀ row ∈ rows, 1 ≤ row.number := by
  obtain ⟨done, -, hdone, hall, hok⟩ := insertSlots_done (d := d) rows
  rw [h] at hdone hok
  rw [hok rfl] at hdone hall
  exact ⟨hdone, hall⟩

theorem updateUser_eq_ok {user : User} (h : d.updateUser user = .ok d') :
    d' = { d with
      users := d.users.map fun u =>
        if u.id = user.id then { u with name := user.name, isActive := user.isActive }
        else u } := by
  unfold updateUser at h
  split at h
  · cases h
  cases h
  rfl

theorem updateStatus_eq_ok {id : String} {code : Int} {time : Option Instant}
    (h : d.updateStatus id code time = .ok d') :
    d' = { d with
      pullRequests := d.pullRequests.map fun row =>
        if row.id = id then { row with statusCode := code, mergedAt := time } else row } := by
  unfold updateStatus at h
  split at h
  · cases h
  cases h
  rfl

theorem one_le_of_rows {slots : List ReviewerSlot}
    (h : ∀ row ∈ slots.map SlotRow.ofSlot, 1 ≤ row.number) : ∀ slot ∈ slots, 1 ≤ slot.number :=
  fun _ hslot => UInt32.le_iff_toNat_le.mpr (Int.ofNat_le.mp (h _ (List.mem_map_of_mem hslot)))

theorem createPullRequest_eq_ok {p : PullRequest} (h : d.createPullRequest p = (.ok (), d')) :
    ¬ d.hasPullRequest p.id = true ∧ (∀ slot ∈ p.reviewers, 1 ≤ slot.number) ∧
      d' = { d with
        pullRequests := d.pullRequests ++ [.ofPullRequest p]
        slots := d.slots ++ p.reviewers.map .ofSlot } := by
  unfold createPullRequest at h
  split at h
  · rename_i d₁ hrow
    obtain ⟨hnew, rfl⟩ := insertPullRequest_eq_ok hrow
    obtain ⟨rfl, hpos⟩ := insertSlots_eq_ok h
    exact ⟨hnew, one_le_of_rows hpos, rfl⟩
  · cases h

theorem setReviewers_eq_ok {id : String} {slots : List ReviewerSlot}
    (h : d.setReviewers id slots = (.ok (), d')) :
    (∀ slot ∈ slots, slot.pullRequestId = id) ∧ (∀ slot ∈ slots, 1 ≤ slot.number) ∧
      d' = { d.deleteSlots id with
        slots := (d.deleteSlots id).slots ++ slots.map .ofSlot } := by
  unfold setReviewers at h
  split at h
  · cases h
  split at h
  · cases h
  rename_i hforeign
  obtain ⟨rfl, hpos⟩ := insertSlots_eq_ok h
  exact ⟨by simpa using hforeign, one_le_of_rows hpos, rfl⟩

theorem users_insertSlots (rows : List SlotRow) : (d.insertSlots rows).2.users = d.users := by
  obtain ⟨done, -, hdone, -⟩ := insertSlots_done (d := d) rows
  rw [hdone]

/-! ## The schema -/

namespace Sound

variable (h : d.Sound)
include h

theorem deleteSlots (id : String) : (d.deleteSlots id).Sound where
  teamIds := h.teamIds
  teamNames := h.teamNames
  userIds := h.userIds
  userTeams := h.userTeams
  ids := h.ids
  authors := h.authors
  codes := h.codes
  numbers := h.numbers.sublist (List.filter_sublist.map _)
  holders := h.holders.sublist (List.filter_sublist.map _)
  range r hr := h.range r (List.mem_filter.mp hr).1
  owned r hr := h.owned r (List.mem_filter.mp hr).1
  held r hr := h.held r (List.mem_filter.mp hr).1

theorem insertSlot {slot : ReviewerSlot} (hok : d.insertSlot (.ofSlot slot) = .ok d') :
    d'.Sound := by
  obtain ⟨⟨hpos, hnew, hpr, huser⟩, rfl⟩ := insertSlot_eq_ok hok
  have hall : ∀ {P : SlotRow → Prop}, (∀ r ∈ d.slots, P r) → P (.ofSlot slot) →
      ∀ r ∈ d.slots ++ [.ofSlot slot], P r := fun hold hlast r hr =>
    (List.mem_append.mp hr).elim (hold r) fun hr => List.mem_singleton.mp hr ▸ hlast
  have hkeys : ∀ {β : Type} (f : SlotRow → β),
      (d.slots.map fun r => (r.pullRequestId, f r)).Nodup →
      (∀ r ∈ d.slots, r.pullRequestId = slot.pullRequestId → f r ≠ f (.ofSlot slot)) →
      ((d.slots ++ [SlotRow.ofSlot slot]).map fun r => (r.pullRequestId, f r)).Nodup := by
    intro β f hold hf
    rw [List.map_append, List.map_singleton, ← List.concat_eq_append]
    refine hold.concat fun hmem => ?_
    obtain ⟨r, hr, he⟩ := List.mem_map.mp hmem
    exact hf r hr (Prod.mk.inj he).1 (Prod.mk.inj he).2
  constructor
  case teamIds => exact h.teamIds
  case teamNames => exact h.teamNames
  case userIds => exact h.userIds
  case userTeams => exact h.userTeams
  case ids => exact h.ids
  case authors => exact h.authors
  case codes => exact h.codes
  case numbers => exact hkeys SlotRow.number h.numbers fun r hr he => (hnew r hr he).1
  case holders => exact hkeys SlotRow.userId h.holders fun r hr he => (hnew r hr he).2
  case range =>
    refine hall h.range ⟨hpos, ?_⟩
    exact Int.ofNat_lt.mpr slot.number.toNat_lt
  case owned =>
    refine hall h.owned ?_
    obtain ⟨row, hrow, he⟩ := List.any_eq_true.mp hpr
    exact ⟨row, hrow, beq_iff_eq.mp he⟩
  case held =>
    refine hall h.held ?_
    obtain ⟨user, hu, he⟩ := List.any_eq_true.mp huser
    exact ⟨user, hu, beq_iff_eq.mp he⟩

/-- **Slots inserted one by one up to the first that is refused** keep the schema. -/
theorem insertSlots (slots : List ReviewerSlot) :
    (d.insertSlots (slots.map .ofSlot)).2.Sound := by
  induction slots generalizing d with
  | nil => exact h
  | cons slot rest ih =>
    rw [List.map_cons, Database.insertSlots]
    split
    · rename_i d₁ hrow
      exact ih (h.insertSlot hrow)
    · exact h

theorem statement {r : Except Failure Database} {y : Except Fault Unit × Ledger Instant.textLe}
    (hr : Follows Holds (seenChange (d.statement r)) y) : (seenChange (d.statement r)).2.Sound := by
  cases r with
  | ok after => exact (hr.2 fun hf => nomatch hf).1
  | error failure => exact h

theorem insertPullRequest {p : PullRequest}
    (hrow : d.insertPullRequest (.ofPullRequest p) = .ok d') : d'.Sound := by
  have hfollows := follows_createPullRequest h { p with reviewers := [] }
    fun _ hslot => absurd hslot List.not_mem_nil
  have hbare : d.createPullRequest { p with reviewers := [] } = (.ok (), d') := by
    unfold Database.createPullRequest
    split
    · rename_i d₁ hok
      obtain rfl := Except.ok.inj (hok.symm.trans hrow)
      rfl
    · rename_i hfailed
      cases hfailed.symm.trans hrow
  rw [hbare] at hfollows
  exact (hfollows.2 fun hf => nomatch hf).1

theorem createPullRequest (p : PullRequest) : (d.createPullRequest p).2.Sound := by
  unfold Database.createPullRequest
  split
  · rename_i d₁ hrow
    exact insertSlots (insertPullRequest h hrow) p.reviewers
  · exact h

theorem setReviewers (id : String) (slots : List ReviewerSlot) :
    (d.setReviewers id slots).2.Sound := by
  unfold Database.setReviewers
  split
  · exact h
  split
  · exact h
  · exact (h.deleteSlots id).insertSlots slots

end Sound

/-- **Every change keeps the schema**, whatever slots it brings and however far it gets. -/
theorem keeps_sound : Repository.Keeps fun d d' : Database => d.Sound → d'.Sound where
  toAccumulates := .of_invariant _
  createTeam team _ h := h.statement (follows_createTeam h team)
  createUser user _ h := h.statement (follows_createUser h user)
  updateUser user _ h := h.statement (follows_updateUser h user)
  createPullRequest p _ h := h.createPullRequest p
  setStatus id status time _ h := h.statement (follows_setStatus h id status time)
  setReviewers id slots _ h := h.setReviewers id slots

end ReviewRota.Relational.Database
